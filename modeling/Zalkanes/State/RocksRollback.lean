import Zalkanes.State.RocksBuild

/-!
# Rollback of the RocksDB Backend

A `RocksState` reached by commits of increasing heights and rollbacks is determined by the
commits that survive, as long as their lengths fit the journal format. The database itself is
determined, key by key, not only what its readers report.

Rollback is followed one durable write at a time, because the states between its writes are what
a crash leaves: undoing a height gives the database of the commits below it, except for the three
metadata keys, which are restored last.

## Main results

* `RocksState.agreesOff_undoHeights`: what undoing the upper heights leaves.
* `RocksState.rollbackTo_of_represents`: a rollback leaves the commits up to its target.
* `RocksState.run_eq_build`: the normal form of a run.
-/

namespace Zalkanes

open Lib

namespace RocksState

variable (H : Hashing)

/-! ### What undoing a height does -/

/-- An undo write is one to the contracts or one to the storage. -/
theorem undoWrite_eq (op : UndoOp) :
    [undoWrite op] =
      op.contractUndo.map (Write.map DbKey.contract contractValue) ++
        op.storageUndo.map (Write.map (fun k => DbKey.storage k.1 k.2) id) := by
  rcases op with ⟨cid, key, _ | v⟩ | ⟨cid, key, prev⟩ | ⟨cid, _ | ⟨codeHash, wasm⟩⟩ <;> rfl

/-- What the undo batch leaves under a contract's key. -/
theorem lastWrite_map_undoWrite_contract (ops : List UndoOp) (id : ContractId) :
    lastWrite (ops.map undoWrite) (.contract id) =
      (lastWrite (ops.flatMap UndoOp.contractUndo) id).map (Option.map contractValue) := by
  induction ops with
  | nil => rfl
  | cons op ops ih =>
      have hop : lastWrite [undoWrite op] (.contract id) =
          (lastWrite op.contractUndo id).map (Option.map contractValue) := by
        rw [undoWrite_eq, lastWrite_append, lastWrite_eq_none_iff.mpr, Option.none_or,
          lastWrite_map fun a b h => DbKey.contract.inj h]
        intro w hw
        obtain ⟨v, -, rfl⟩ := List.mem_map.mp hw
        simp
      rw [List.map_cons, ← List.singleton_append, lastWrite_append, List.flatMap_cons,
        lastWrite_append, ih, hop, Option.map_or]

/-- What the undo batch leaves under a storage key. -/
theorem lastWrite_map_undoWrite_storage (ops : List UndoOp) (cid : ContractId) (key : Bytes) :
    lastWrite (ops.map undoWrite) (.storage cid key) =
      lastWrite (ops.flatMap UndoOp.storageUndo) (cid, key) := by
  have hinj : Function.Injective fun k : ContractId × Bytes => DbKey.storage k.1 k.2 := by
    rintro ⟨a, x⟩ ⟨b, y⟩ h
    obtain ⟨rfl, rfl⟩ := DbKey.storage.inj h
    rfl
  induction ops with
  | nil => rfl
  | cons op ops ih =>
      have hop : lastWrite [undoWrite op] (.storage cid key) =
          lastWrite op.storageUndo (cid, key) := by
        have hcontract : lastWrite (op.contractUndo.map (Write.map DbKey.contract contractValue))
            (.storage cid key) = none := by
          refine lastWrite_eq_none_iff.mpr fun w hw => ?_
          obtain ⟨v, -, rfl⟩ := List.mem_map.mp hw
          simp
        rw [undoWrite_eq, lastWrite_append, hcontract, Option.or_none,
          lastWrite_map (k := (cid, key)) hinj]
        cases lastWrite op.storageUndo (cid, key) <;> simp
      rw [List.map_cons, ← List.singleton_append, lastWrite_append, List.flatMap_cons,
        lastWrite_append, ih, hop]

/-- The undo batch addresses, besides data keys, the record and the journal of its height. -/
theorem lastWrite_undoBatch (h : BlockHeight) (ops : List UndoOp) (k : DbKey) :
    lastWrite (undoBatch h ops) k =
      if k = .height h ∨ k = .undo h then some none
      else lastWrite (ops.reverse.map undoWrite) k := by
  rw [undoBatch, lastWrite_append]
  by_cases hheight : k = .height h
  · simp [lastWrite_cons, hheight]
  · by_cases hundo : k = .undo h
    · simp [lastWrite_cons, hundo]
    · simp [lastWrite_cons, hheight, hundo, Ne.symm hheight, Ne.symm hundo]

/-- The undo writes address data keys only. -/
theorem lastWrite_map_undoWrite_of_ne {k : DbKey} (hcontract : ∀ id, .contract id ≠ k)
    (hstorage : ∀ id key, .storage id key ≠ k) (ops : List UndoOp) :
    lastWrite (ops.map undoWrite) k = none := by
  refine lastWrite_eq_none_iff.mpr fun w hw => ?_
  obtain ⟨op, -, rfl⟩ := List.mem_map.mp hw
  rcases op with ⟨cid, key, _ | v⟩ | ⟨cid, key, prev⟩ | ⟨cid, _ | ⟨codeHash, wasm⟩⟩ <;>
    simp [undoWrite, hcontract, hstorage]

/-- Undoing the journal of the last commit gives back the store before it, except for the
metadata. -/
theorem agreesOff_undoBatch {cs : List BlockCommit} {c : BlockCommit}
    (hcs : Increasing (cs ++ [c])) :
    AgreesOff IsMeta
      ((build H (cs ++ [c])).write (undoBatch c.height ((build H cs).journal c))) (build H cs) := by
  have hrev := reverts_journal (build H cs) c
  rw [Ledger.Reverts, build_ledger] at hrev
  obtain ⟨hnoheight, hnoundo⟩ := build_get_of_notMem H (Increasing.height_ne_last hcs)
  constructor
  · intro k hk
    rw [get_write, lastWrite_undoBatch]
    cases k with
    | contract id =>
        have hid := congrArg (fun l : Ledger => l.contracts[id]?) hrev
        simp only [Ledger.revert, getElem?_applyAll] at hid
        rw [if_neg (by simp), lastWrite_map_undoWrite_contract, build_get_contract,
          build_get_contract, ledgerOf_append_singleton, ← hid]
        cases lastWrite (((build H cs).journal c).reverse.flatMap UndoOp.contractUndo) id <;> rfl
    | storage id key =>
        have hkey := congrArg (fun l : Ledger => l.storage[(id, key)]?) hrev
        simp only [Ledger.revert, getElem?_applyAll] at hkey
        rw [if_neg (by simp), lastWrite_map_undoWrite_storage, build_get_storage,
          build_get_storage, ledgerOf_append_singleton]
        exact hkey
    | height h =>
        by_cases hh : c.height = h
        · rw [if_pos (by simp [hh]), Option.getD_some, ← hh, hnoheight]
        · rw [if_neg (by simp [Ne.symm hh]),
            lastWrite_map_undoWrite_of_ne (by simp) (by simp), Option.getD_none,
            build_append_singleton, get_commitBatch_height, if_neg hh]
    | undo h =>
        by_cases hh : c.height = h
        · rw [if_pos (by simp [hh]), Option.getD_some, ← hh, hnoundo]
        · rw [if_neg (by simp [Ne.symm hh]),
            lastWrite_map_undoWrite_of_ne (by simp) (by simp), Option.getD_none,
            build_append_singleton, get_commitBatch_undo, if_neg hh]
    | exec txid =>
        rw [if_neg (by simp), lastWrite_map_undoWrite_of_ne (by simp) (by simp),
          Option.getD_none, build_append_singleton]
        exact get_commitBatch_exec H _ _ trivial
    | execHeight h =>
        rw [if_neg (by simp), lastWrite_map_undoWrite_of_ne (by simp) (by simp),
          Option.getD_none, build_append_singleton]
        exact get_commitBatch_exec H _ _ trivial
    | metaHeight => exact absurd trivial hk
    | metaHash => exact absurd trivial hk
    | metaRoot => exact absurd trivial hk
  · intro k hk
    rw [getElem?_write_of_forall_ne _ _ hk, build_append_singleton,
      getElem?_write_of_forall_ne _ _ hk]

/-- The metadata writes leave every other key alone. -/
theorem get_metadataWrites (s s' : RocksState) {k : DbKey} (hk : ¬ IsMeta k) :
    (s.metadataWrites.foldl write s').get k = s'.get k := by
  rw [metadataWrites]
  cases s.heightHistory.getLast? <;> cases k <;> first
    | exact absurd trivial hk
    | simp [get_write, lastWrite_cons]

/-! ### The laws of the backend -/

section Laws

variable {H} {skip : DbKey → Prop} (hskip : ∀ k, skip k → IsExec k)

include hskip

/-- The keys left out of the comparison while the metadata is stale are not the keys that undoing
reads. -/
theorem not_skip_or_meta {k : DbKey} (hexec : ¬ IsExec k) (hmeta : ¬ IsMeta k) :
    ¬ (skip k ∨ IsMeta k) := by
  rintro (hk | hk)
  · exact hexec (hskip k hk)
  · exact hmeta hk

/-- **Undoing the top height** leaves the database of the commits below it, except for the
metadata. -/
theorem agreesOff_undoHeight {s : RocksState} {cs : List BlockCommit} {c : BlockCommit}
    (hcs : Increasing (cs ++ [c])) (hfit : ∀ d ∈ cs ++ [c], d.Fits)
    (hs : AgreesOff (fun k => skip k ∨ IsMeta k) s (build H (cs ++ [c]))) :
    AgreesOff (fun k => skip k ∨ IsMeta k) (s.undoHeight c.height) (build H cs) := by
  have hledger : (build H cs).ledger.Fits := by
    rw [build_ledger]
    exact fits_ledgerOf fun d hd => hfit d (by simp [hd])
  have hjournal : s.get (.undo c.height) = some (encodeUndo ((build H cs).journal c)) := by
    rw [hs.get (.undo c.height) (not_skip_or_meta hskip (fun h => h) fun h => h),
      build_append_singleton, get_commitBatch_undo, if_pos rfl]
  rw [undoHeight, hjournal]
  simp only [decodeUndo_journal hledger (hfit c (by simp))]
  exact (hs.write _).trans ((agreesOff_undoBatch H hcs).mono fun k hk => Or.inr hk)

/-- **Undoing the upper heights** leaves the database of the lower commits, except for the
metadata. -/
theorem agreesOff_undoHeights {s : RocksState} {low high : List BlockCommit}
    (hcs : Increasing (low ++ high)) (hfit : ∀ d ∈ low ++ high, d.Fits)
    (hs : AgreesOff (fun k => skip k ∨ IsMeta k) s (build H (low ++ high))) :
    AgreesOff (fun k => skip k ∨ IsMeta k)
      ((high.map BlockCommit.height).reverse.foldl undoHeight s) (build H low) := by
  induction high using List.reverseRecOn generalizing s with
  | nil => simpa using hs
  | append_singleton high c ih =>
      rw [← List.append_assoc] at hcs hfit hs
      rw [List.map_append, List.reverse_append, List.map_singleton, List.reverse_singleton,
        List.singleton_append, List.foldl_cons]
      exact ih hcs.of_append_left (fun d hd => hfit d (List.mem_append_left _ hd))
        (agreesOff_undoHeight hskip hcs hfit hs)

/-- The history of a store that agrees with a built one, stale metadata aside. -/
theorem heightHistory_of_agreesOff {s : RocksState} {cs : List BlockCommit}
    (hcs : Increasing cs) (hs : AgreesOff (fun k => skip k ∨ IsMeta k) s (build H cs)) :
    s.heightHistory = recordsOf H cs := by
  rw [hs.heightHistory fun n => not_skip_or_meta hskip (fun h => h) fun h => h,
    build_heightHistory H hcs]

/-- **The metadata writes** make a store that agreed with a built one except for the metadata
agree with it there too. -/
theorem agreesOff_metadataWrites {s : RocksState} {cs : List BlockCommit} (hcs : Increasing cs)
    (hs : AgreesOff (fun k => skip k ∨ IsMeta k) s (build H cs)) :
    AgreesOff skip (s.metadataWrites.foldl write s) (build H cs) := by
  have hhistory := heightHistory_of_agreesOff hskip hcs hs
  obtain ⟨hheight, hhash, hroot⟩ := build_get_meta H cs
  have hraw : ∀ (batches : List WriteBatch) (s : RocksState) (k : Bytes),
      (∀ dk : DbKey, dk.bytes ≠ k) → (batches.foldl write s).db[k]? = s.db[k]? := by
    intro batches
    induction batches with
    | nil => intros; rfl
    | cons batch batches ih =>
        intro s k hk
        rw [List.foldl_cons, ih _ _ hk, getElem?_write_of_forall_ne _ _ hk]
  refine ⟨fun k hk => ?_, fun k hk => (hraw _ s k hk).trans (hs.raw k hk)⟩
  by_cases hmeta : IsMeta k
  · rw [metadataWrites, hhistory]
    cases hlast : (recordsOf H cs).getLast? with
    | none =>
        rw [hlast] at hheight hhash hroot
        cases k <;> first
          | exact absurd hmeta id
          | simp [get_write, lastWrite_cons, hheight, hhash, hroot]
    | some rec =>
        rw [hlast] at hheight hhash hroot
        cases k <;> first
          | exact absurd hmeta id
          | simp [get_write, lastWrite_cons, hheight, hhash, hroot]
  · rw [get_metadataWrites s s hmeta]
    exact hs.get k fun h => h.elim hk hmeta

/-- The store holds what a list of commits builds, the skipped keys aside. -/
theorem commitBlock_of_represents {s : RocksState} {cs : List BlockCommit}
    (hs : AgreesOff skip s (build H cs)) (c : BlockCommit) :
    AgreesOff skip (s.commitBlock H c).1 (build H (cs ++ [c])) ∧
      (s.commitBlock H c).2 = .ok ((ledgerOf (cs ++ [c])).root H) := by
  have hview : s.view = (build H cs).view :=
    hs.view (fun id h => hskip _ h) fun id key h => hskip _ h
  have hledger : s.ledger = ledgerOf cs := by
    rw [← build_ledger H]
    exact congrArg StateView.ledger hview
  rw [commitBlock_eq]
  constructor
  · rw [build_append_singleton, commitBatch_congr H hview]
    exact hs.write _
  · rw [hledger, ledgerOf_append_singleton]

/-- **A rollback leaves the commits up to its target.** -/
theorem rollbackTo_of_represents {s : RocksState} {cs : List BlockCommit}
    (hs : AgreesOff skip s (build H cs)) (hcs : Increasing cs) (hfit : ∀ c ∈ cs, c.Fits)
    (t : BlockHeight) :
    AgreesOff skip (s.rollbackTo t).1 (build H (commitsUpTo t cs)) := by
  obtain ⟨high, hsplit, habove⟩ := hcs.exists_eq_append t
  have hlow : ∀ c ∈ commitsUpTo t cs, c.level ≤ t.toNat := fun c hc => by
    simpa using (List.mem_filter.mp hc).2
  generalize commitsUpTo t cs = low at hsplit hlow ⊢
  subst hsplit
  have hs' : AgreesOff (fun k => skip k ∨ IsMeta k) s (build H (low ++ high)) :=
    hs.mono fun k hk => Or.inl hk
  have hheights : s.heightsAbove t = (high.map BlockCommit.height).reverse := by
    rw [heightsAbove, heightHistory_of_agreesOff hskip hcs hs', map_height_recordsOf,
      insertionSort_heights_above hcs hlow habove]
  rw [rollbackTo, hheights]
  exact agreesOff_metadataWrites hskip hcs.of_append_left
    (agreesOff_undoHeights hskip hcs hfit hs')

end Laws

/-- What rolling a single commit back leaves, whether or not its journal reads back: the journal
as it is read is undone on the committed database. -/
theorem get_rollbackTo_single (H : Hashing) {c : BlockCommit} (hc : 0 < c.level) (k : DbKey)
    (hk : ¬ IsMeta k) :
    ((build H [c]).rollbackTo 0).1.get k =
      ((build H [c]).write
        (undoBatch c.height (decodeUndo (encodeUndo (fresh.journal c))))).get k := by
  have hcs : Increasing [c] := List.pairwise_singleton _ _
  have hheights : (build H [c]).heightsAbove 0 = [c.height] := by
    rw [heightsAbove, build_heightHistory H hcs, map_height_recordsOf]
    exact insertionSort_heights_above (t := 0) (List.nil_append [c] ▸ hcs) (by simp)
      (by simpa using hc)
  have hjournal : (build H [c]).get (.undo c.height) = some (encodeUndo (fresh.journal c)) := by
    rw [← List.nil_append [c], build_append_singleton, get_commitBatch_undo, if_pos rfl]
    rfl
  rw [rollbackTo, hheights, List.foldl_cons, List.foldl_nil, get_metadataWrites _ _ hk, undoHeight,
    hjournal]

/-- Saving executions touches no other key. -/
theorem agreesOff_saveExecutions (json : Execution → Except String Bytes) (s : RocksState)
    (executions : List Execution) : AgreesOff IsExec (s.saveExecutions json executions).1 s := by
  rw [saveExecutions]
  split
  · exact AgreesOff.refl IsExec s
  · rename_i encoded _
    refine ⟨fun k hk => ?_, fun k hk => getElem?_write_of_forall_ne _ _ hk⟩
    rw [get_write, lastWrite_eq_none_iff.mpr, Option.getD_none]
    intro w hw hwk
    obtain ⟨e, -, hw⟩ := List.mem_flatMap.mp hw
    simp only [List.mem_cons, List.not_mem_nil, or_false] at hw
    rcases hw with rfl | rfl <;>
      · simp only [Write.key_put] at hwk
        subst hwk
        exact hk trivial

/-- Saved executions do not disturb what a store represents. -/
theorem saveExecutions_of_represents {H : Hashing} (json : Execution → Except String Bytes)
    {s : RocksState} {cs : List BlockCommit} (hs : AgreesOff IsExec s (build H cs))
    (executions : List Execution) :
    AgreesOff IsExec (s.saveExecutions json executions).1 (build H cs) :=
  (s.agreesOff_saveExecutions json executions).trans hs

/-! ### Runs -/

/-- **The normal form of a run**: the database of a run of increasing commits and rollbacks,
whose lengths fit, is built from its surviving commits. -/
theorem run_eq_build {ops : List StoreOp} (h : Rising BlockCommit.level UInt32.toNat ops)
    (hfit : ∀ c, .commit c ∈ ops → c.Fits) :
    (versioned H).run ops = build H (versions BlockCommit.level UInt32.toNat ops) := by
  have hskip : ∀ k : DbKey, False → IsExec k := fun _ h => h.elim
  suffices hrep : AgreesOff (fun _ => False) ((versioned H).run ops)
      (build H (versions BlockCommit.level UInt32.toNat ops)) ∧
      ∀ c ∈ versions BlockCommit.level UInt32.toNat ops, c.Fits from hrep.1.eq
  refine (versioned H).represents_run (fun s cs => AgreesOff (fun _ => False) s (build H cs))
    BlockCommit.Fits (AgreesOff.refl _ _) ?_ ?_ h hfit
  · intro s cs c hs _ _ _
    exact (commitBlock_of_represents hskip hs c).1
  · intro s cs hs hall hcs t
    exact rollbackTo_of_represents hskip hs hcs hall t

end RocksState

end Zalkanes
