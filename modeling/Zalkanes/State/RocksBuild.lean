import Zalkanes.State.RootOfCommit

/-!
# Databases Built by Commits

The database that a list of commits leaves (`RocksState.build`), key by key, and the relation
between databases that agree except at some keys (`RocksState.AgreesOff`). The journal format
cuts lengths off, so the results about journals ask that the lengths fit (`BlockCommit.Fits`).

## Main results

* `RocksState.decodeUndo_journal`: the stored journal of a commit that fits reads back.
* `RocksState.AgreesOff.view`, `RocksState.commitBatch_congr`: stores that agree on data keys
  look alike and commit alike.
* `RocksState.build_ledger`, `RocksState.build_heightHistory`, `RocksState.build_get_meta`: what
  a list of commits leaves.
-/

namespace Zalkanes

open Lib

/-! ### Lengths that fit -/

/-- The lengths of a commit fit the journal format: keys below `2 ^ 16` bytes, values and code
below `2 ^ 32`, and fewer than `2 ^ 32` entries. -/
structure BlockCommit.Fits (c : BlockCommit) : Prop where
  deploys : ∀ d ∈ c.deploys, d.2.2.length < 2 ^ 32
  upserts : ∀ u ∈ c.upserts, u.2.1.length < 2 ^ 16 ∧ u.2.2.length < 2 ^ 32
  deletes : ∀ d ∈ c.deletes, d.2.length < 2 ^ 16
  count : c.deploys.length + c.upserts.length + c.deletes.length < 2 ^ 32

/-- The values and the code in a ledger fit the journal format. -/
structure Ledger.Fits (l : Ledger) : Prop where
  contracts : ∀ (id : ContractId) (contract : CodeHash × Bytes),
    l.contracts[id]? = some contract → contract.2.length < 2 ^ 32
  storage : ∀ (k : ContractId × Bytes) (value : Bytes),
    l.storage[k]? = some value → value.length < 2 ^ 32

/-- An empty commit fits. -/
theorem BlockCommit.fits_empty (h : BlockHeight) (b : BlockHash) : (BlockCommit.empty h b).Fits :=
  ⟨by simp [BlockCommit.empty], by simp [BlockCommit.empty], by simp [BlockCommit.empty],
    by simp [BlockCommit.empty]⟩

/-- A commit that fits keeps the ledger within the lengths. -/
theorem Ledger.Fits.apply {l : Ledger} (hl : l.Fits) {c : BlockCommit} (hc : c.Fits) :
    (l.apply c).Fits where
  contracts id contract h := by
    rcases mem_contracts_apply h with h | h
    · exact hl.contracts id contract h
    · exact hc.deploys _ h
  storage k value h := by
    rcases mem_storage_apply h with h | h
    · exact hl.storage k value h
    · exact (hc.upserts _ h).2

/-- The ledger of commits that fit does. -/
theorem fits_ledgerOf {cs : List BlockCommit} (h : ∀ c ∈ cs, c.Fits) : (ledgerOf cs).Fits := by
  induction cs using List.reverseRecOn with
  | nil => exact ⟨by simp [ledgerOf, Ledger.empty], by simp [ledgerOf, Ledger.empty]⟩
  | append_singleton cs c ih =>
      rw [ledgerOf_append_singleton]
      exact (ih fun d hd => h d (by simp [hd])).apply (h c (by simp))

namespace RocksState

/-- The journal of a commit that fits, on a ledger that fits, fits. -/
theorem journal_fits {s : RocksState} (hs : s.ledger.Fits) {c : BlockCommit} (hc : c.Fits) :
    ∀ op ∈ s.journal c, op.Fits := by
  intro op hop
  rcases List.mem_append.mp hop with hop | hop
  · rcases List.mem_append.mp hop with hop | hop
    · obtain ⟨d, -, rfl⟩ := mem_deployOps.mp hop
      intro contract hcontract
      exact hs.contracts d.1 contract ((getElem?_ledger_contracts s d.1).trans hcontract)
    · obtain ⟨u, hu, rfl⟩ := mem_setOps.mp hop
      refine ⟨(hc.upserts u hu).1, fun value hvalue => ?_⟩
      exact hs.storage (u.1, u.2.1) value ((getElem?_ledger_storage s u.1 u.2.1).trans hvalue)
  · obtain ⟨d, hd, prev, hprev, rfl⟩ := mem_deleteOps.mp hop
    refine ⟨hc.deletes d hd, ?_⟩
    rw [effective, Option.or_eq_some_iff, getElem?_upserted, Option.join_eq_some_iff] at hprev
    rcases hprev with hprev | ⟨-, hprev⟩
    · obtain ⟨w, hw, -, hr⟩ := exists_mem_of_lastWrite hprev
      obtain ⟨u, hu, rfl⟩ := List.mem_map.mp hw
      exact Option.some.inj hr ▸ (hc.upserts u hu).2
    · exact hs.storage (d.1, d.2) prev ((getElem?_ledger_storage s d.1 d.2).trans hprev)

/-- A journal has at most one entry for each write of the commit. -/
theorem length_journal_le (s : RocksState) (c : BlockCommit) :
    (s.journal c).length ≤ c.deploys.length + c.upserts.length + c.deletes.length := by
  have := List.length_filterMap_le (fun (d : ContractId × Bytes) =>
    (s.effective c d.1 d.2).map fun prev => UndoOp.delete d.1 d.2 prev) c.deletes
  simp only [journal, deployOps, setOps, deleteOps, List.length_append, List.length_map]
  omega

/-- The stored journal of a commit that fits reads back. -/
theorem decodeUndo_journal {s : RocksState} (hs : s.ledger.Fits) {c : BlockCommit}
    (hc : c.Fits) : decodeUndo (encodeUndo (s.journal c)) = s.journal c :=
  decodeUndo_encodeUndo (journal_fits hs hc)
    (lt_of_le_of_lt (s.length_journal_le c) hc.count)

/-! ### Databases that agree -/

/-- Two databases agree, except at the keys that `skip` names. -/
structure AgreesOff (skip : DbKey → Prop) (s s' : RocksState) : Prop where
  get : ∀ k, ¬ skip k → s.get k = s'.get k
  raw : ∀ k : Bytes, (∀ dk : DbKey, dk.bytes ≠ k) → s.db[k]? = s'.db[k]?

/-- The keys of saved executions. -/
def IsExec : DbKey → Prop
  | .exec _ => True
  | .execHeight _ => True
  | _ => False

/-- The keys of the metadata. -/
def IsMeta : DbKey → Prop
  | .metaHeight => True
  | .metaHash => True
  | .metaRoot => True
  | _ => False

/-- Agreement is reflexive. -/
theorem AgreesOff.refl (skip : DbKey → Prop) (s : RocksState) : AgreesOff skip s s :=
  ⟨fun _ _ => rfl, fun _ _ => rfl⟩

/-- Agreement is symmetric. -/
theorem AgreesOff.symm {skip : DbKey → Prop} {s s' : RocksState} (h : AgreesOff skip s s') :
    AgreesOff skip s' s :=
  ⟨fun k hk => (h.get k hk).symm, fun k hk => (h.raw k hk).symm⟩

/-- Agreement is transitive. -/
theorem AgreesOff.trans {skip : DbKey → Prop} {s s' s'' : RocksState} (h : AgreesOff skip s s')
    (h' : AgreesOff skip s' s'') : AgreesOff skip s s'' :=
  ⟨fun k hk => (h.get k hk).trans (h'.get k hk), fun k hk => (h.raw k hk).trans (h'.raw k hk)⟩

/-- Leaving out more keys, stores agree on less. -/
theorem AgreesOff.mono {skip skip' : DbKey → Prop} (hle : ∀ k, skip k → skip' k)
    {s s' : RocksState} (h : AgreesOff skip s s') : AgreesOff skip' s s' :=
  ⟨fun k hk => h.get k fun hskip => hk (hle k hskip), h.raw⟩

/-- Databases that agree everywhere are equal. -/
theorem AgreesOff.eq {s s' : RocksState} (h : AgreesOff (fun _ => False) s s') : s = s' := by
  have hdb : s.db = s'.db := Std.ExtTreeMap.ext_getElem? fun k => by
    by_cases hk : ∃ dk : DbKey, dk.bytes = k
    · obtain ⟨dk, rfl⟩ := hk
      exact h.get dk fun hf => hf
    · exact h.raw k (not_exists.mp hk)
  cases s
  cases s'
  exact congrArg RocksState.mk hdb

/-- A batch keeps agreement. -/
theorem AgreesOff.write {skip : DbKey → Prop} {s s' : RocksState} (h : AgreesOff skip s s')
    (batch : WriteBatch) : AgreesOff skip (s.write batch) (s'.write batch) where
  get k hk := by rw [get_write, get_write, h.get k hk]
  raw k hk := by
    rw [getElem?_write_of_forall_ne s batch hk, getElem?_write_of_forall_ne s' batch hk,
      h.raw k hk]

section Readers

variable {skip : DbKey → Prop} {s s' : RocksState}

/-- Stores that agree on data keys look alike to their readers. -/
theorem AgreesOff.view (h : AgreesOff skip s s')
    (hcontract : ∀ id, ¬ skip (.contract id)) (hstorage : ∀ id key, ¬ skip (.storage id key)) :
    s.view = s'.view := by
  have hget : s.getContract = s'.getContract :=
    funext fun id => by rw [getContract, getContract, h.get _ (hcontract id)]
  have hstore : s.storageGet = s'.storageGet :=
    funext fun id => funext fun key => h.get _ (hstorage id key)
  have hcontracts : s.view.contracts = s'.view.contracts := by
    refine OrdMap.eq_of_pairwise_of_mem_iff Prod.fst s.view_sorted.contracts
      s'.view_sorted.contracts ?_
    rintro ⟨id, contract⟩
    rw [mem_view_contracts, mem_view_contracts, hget]
  have hstorages : s.view.storage = s'.view.storage := by
    refine OrdMap.eq_of_pairwise_of_mem_iff (fun e => (e.1, e.2.1)) s.view_sorted.storage
      s'.view_sorted.storage ?_
    rintro ⟨id, key, value⟩
    rw [mem_view_storage, mem_view_storage, hstore]
  have hhas : s.view.hasContract = s'.view.hasContract :=
    funext fun id => congrArg Option.isSome (h.get _ (hcontract id))
  have heta : ∀ v : StateView, v = ⟨v.hasContract, v.getContract, v.storageGet, v.contracts,
      v.storage⟩ := fun _ => rfl
  rw [heta s.view, heta s'.view, hhas, hcontracts, hstorages]
  exact congrArg₂ (fun g st => StateView.mk _ g st _ _) hget hstore

/-- Stores that agree on height keys have one history. -/
theorem AgreesOff.heightHistory (h : AgreesOff skip s s') (hheight : ∀ n, ¬ skip (.height n)) :
    s.heightHistory = s'.heightHistory := by
  refine OrdMap.eq_of_pairwise_of_mem_iff HeightRecord.height s.heightHistory_pairwise
    s'.heightHistory_pairwise fun r => ?_
  rw [mem_heightHistory, mem_heightHistory, h.get _ (hheight r.height)]

/-- What a commit reads, it reads alike from stores with one view. -/
theorem commitBatch_congr (H : Hashing) (h : s.view = s'.view) (c : BlockCommit) :
    s.commitBatch H c = s'.commitBatch H c := by
  have hget : s.getContract = s'.getContract := congrArg StateView.getContract h
  have hstore : s.storageGet = s'.storageGet := congrArg StateView.storageGet h
  have hledger : s.ledger = s'.ledger := congrArg StateView.ledger h
  simp only [commitBatch, dataBatch, journal, deployOps, setOps, deleteOps, effective, hget,
    hstore, hledger]

end Readers

/-! ### What a list of commits leaves -/

variable (H : Hashing)

/-- The backend as a versioned store. -/
def versioned : Versioned RocksState BlockCommit BlockHeight where
  empty := fresh
  commit s c := (s.commitBlock H c).1
  rollback s t := (s.rollbackTo t).1

/-- The store that commits `cs` to a fresh one. -/
def build (cs : List BlockCommit) : RocksState := (versioned H).build cs

/-- Without commits the store is fresh. -/
@[simp] theorem build_nil : build H [] = fresh := rfl

/-- The last commit is written as one batch. -/
theorem build_append_singleton (cs : List BlockCommit) (c : BlockCommit) :
    build H (cs ++ [c]) = (build H cs).write ((build H cs).commitBatch H c) := by
  rw [build, Versioned.build_append_singleton]
  exact congrArg Prod.fst (commitBlock_eq H _ c)

/-- A fresh store is empty. -/
@[simp] theorem get_fresh (k : DbKey) : fresh.get k = none := Std.ExtTreeMap.getElem?_empty

/-- The ledger of a fresh store is empty. -/
theorem ledger_fresh : fresh.ledger = Ledger.empty := by
  refine Ledger.ext ?_ ?_
  · refine Std.ExtTreeMap.ext_getElem? fun id => ?_
    simp [getElem?_ledger_contracts, getContract, Ledger.empty]
  · refine Std.ExtTreeMap.ext_getElem? fun k => ?_
    obtain ⟨id, key⟩ := k
    simp [getElem?_ledger_storage, storageGet, Ledger.empty]

/-- The ledger of a build is that of its commits. -/
theorem build_ledger (cs : List BlockCommit) : (build H cs).ledger = ledgerOf cs := by
  induction cs using List.reverseRecOn with
  | nil => exact ledger_fresh
  | append_singleton cs c ih =>
      rw [build_append_singleton, ledger_write_commitBatch, ih, ledgerOf_append_singleton]

/-- The raw value under a contract's key is the encoding of the contract. -/
theorem build_get_contract (cs : List BlockCommit) (id : ContractId) :
    (build H cs).get (.contract id) = ((ledgerOf cs).contracts[id]?).map contractValue := by
  induction cs using List.reverseRecOn with
  | nil => simp [ledgerOf, Ledger.empty]
  | append_singleton cs c ih =>
      rw [build_append_singleton, ledgerOf_append_singleton, Ledger.getElem?_contracts_apply,
        get_write, commitBatch, lastWrite_append, lastWrite_recordBatch_contract, Option.none_or,
        lastWrite_dataBatch_contract, ih]
      cases lastWrite c.contractWrites id <;> rfl

/-- The storage of a build is that of its commits. -/
theorem build_get_storage (cs : List BlockCommit) (id : ContractId) (key : Bytes) :
    (build H cs).get (.storage id key) = (ledgerOf cs).storage[(id, key)]? := by
  rw [← build_ledger H, getElem?_ledger_storage]
  rfl

/-- A height without a commit has neither a record nor a journal. -/
theorem build_get_of_notMem {cs : List BlockCommit} {h : BlockHeight}
    (hh : ∀ c ∈ cs, c.height ≠ h) :
    (build H cs).get (.height h) = none ∧ (build H cs).get (.undo h) = none := by
  induction cs using List.reverseRecOn with
  | nil => simp
  | append_singleton cs c ih =>
      rw [build_append_singleton, get_commitBatch_height, get_commitBatch_undo,
        if_neg (hh c (by simp)), if_neg (hh c (by simp))]
      exact ih fun d hd => hh d (by simp [hd])

/-- Only one commit has the last height. -/
theorem Increasing.height_ne_last {cs : List BlockCommit} {c : BlockCommit}
    (h : Increasing (cs ++ [c])) : ∀ d ∈ cs, d.height ≠ c.height := by
  intro d hd he
  have := h.lt_last d hd
  rw [BlockCommit.level, BlockCommit.level, he] at this
  omega

/-- The record under a height key, and the record in the history, are those of the commits. -/
theorem mem_build_heightHistory {cs : List BlockCommit} (hcs : Increasing cs)
    {r : HeightRecord} : r ∈ (build H cs).heightHistory ↔ r ∈ recordsOf H cs := by
  induction cs using List.reverseRecOn generalizing r with
  | nil => simp [mem_heightHistory, recordsOf, recordsFrom]
  | append_singleton cs c ih =>
      have hnew := Increasing.height_ne_last hcs
      have hrecord : recordAfter H cs c =
          ⟨c.height, c.zcashBlockHash, ((build H cs).ledger.apply c).root H⟩ := by
        rw [recordAfter, ledgerOf_append_singleton, build_ledger]
      rw [recordsOf_append_singleton, List.mem_append, List.mem_singleton, hrecord,
        mem_heightHistory, build_append_singleton, get_commitBatch_height]
      split
      · rename_i hh
        have hold : r ∉ recordsOf H cs := by
          intro hr
          obtain ⟨d, hd, hdr, -⟩ := exists_of_mem_recordsFrom hr
          exact hnew d hd (hdr.trans hh.symm)
        rw [or_iff_right hold, Option.some.injEq]
        constructor
        · exact fun hvalue => (eq_of_recordValue hh hvalue).symm
        · rintro rfl
          rfl
      · rename_i hh
        rw [← mem_heightHistory, ih hcs.of_append_left]
        refine (or_iff_left ?_).symm
        rintro rfl
        exact hh rfl

/-- **The history of a list of commits** is its records. -/
theorem build_heightHistory {cs : List BlockCommit} (hcs : Increasing cs) :
    (build H cs).heightHistory = recordsOf H cs := by
  refine OrdMap.eq_of_pairwise_of_mem_iff HeightRecord.height
    (build H cs).heightHistory_pairwise ?_ fun r => mem_build_heightHistory H hcs
  have hmap : ((recordsOf H cs).map HeightRecord.height).Pairwise
      fun a b => compare a b = .lt := by
    rw [map_height_recordsOf]
    exact List.pairwise_map.mpr (hcs.imp fun {c d} hlt =>
      Std.compare_eq_lt.mpr (UInt32.lt_iff_toNat_lt.mpr hlt))
  exact List.pairwise_map.mp hmap

/-- The metadata of a list of commits is that of the last record. -/
theorem build_get_meta (cs : List BlockCommit) :
    (build H cs).get .metaHeight = (recordsOf H cs).getLast?.map (fun r => be32 r.height) ∧
      (build H cs).get .metaHash =
        (recordsOf H cs).getLast?.map (fun r => r.zcashBlockHash.bytes) ∧
      (build H cs).get .metaRoot = (recordsOf H cs).getLast?.map fun r => r.stateRoot.bytes := by
  rcases List.eq_nil_or_concat cs with rfl | ⟨cs, c, rfl⟩
  · simp [recordsOf, recordsFrom]
  · rw [List.concat_eq_append, recordsOf_append_singleton, List.getLast?_concat,
      build_append_singleton, recordAfter, ledgerOf_append_singleton, ← build_ledger H]
    exact get_commitBatch_meta H (build H cs) c

/-- A commit leaves the keys of saved executions alone. -/
theorem get_commitBatch_exec (s : RocksState) (c : BlockCommit) {k : DbKey} (hk : IsExec k) :
    (s.write (s.commitBatch H c)).get k = s.get k := by
  have hne : (∀ id, DbKey.contract id ≠ k) ∧ ∀ id key, DbKey.storage id key ≠ k := by
    constructor
    · rintro id rfl
      exact hk
    · rintro id key rfl
      exact hk
  rw [get_commitBatch_of_ne H s c hne.1 hne.2, lastWrite_eq_none_iff.mpr, Option.getD_none]
  intro w hw hwk
  simp only [recordBatch, List.mem_cons, List.not_mem_nil, or_false] at hw
  rcases hw with rfl | rfl | rfl | rfl | rfl <;>
    · simp only [Write.key_put] at hwk
      subst hwk
      exact hk

end RocksState

end Zalkanes
