import Zalkanes.State.Memory

/-!
# Runs of the In-Memory Backend

A `MemoryState` reached by commits of increasing heights and rollbacks is determined by the
commits that survive: it is the store that commits exactly those to a fresh one
(`MemoryState.run_eq_build`), up to saved executions, which no rollback touches.

## Main results

* `MemoryState.build_history`, `MemoryState.build_ledger`: what a list of commits leaves.
* `MemoryState.rollbackTo_of_represents`: a rollback leaves the commits up to its target.
* `MemoryState.run_eq_build`: the normal form of a run.
-/

namespace Zalkanes

open Lib

namespace MemoryState

variable (H : Hashing)

/-- The backend as a versioned store. -/
def versioned : Versioned MemoryState BlockCommit BlockHeight where
  empty := new
  commit s c := (s.commitBlock H c).1
  rollback s t := (s.rollbackTo t).1

/-- The store that commits `cs` to a fresh one. -/
def build (cs : List BlockCommit) : MemoryState := (versioned H).build cs

/-- The store is the one built from `cs`, saved executions aside. -/
def Represents (s : MemoryState) (cs : List BlockCommit) : Prop :=
  s = { build H cs with executions := s.executions }

/-- Without commits the store is new. -/
@[simp] theorem build_nil : build H [] = new := rfl

/-- The last commit is committed last. -/
theorem build_append_singleton (cs : List BlockCommit) (c : BlockCommit) :
    build H (cs ++ [c]) = ((build H cs).commitBlock H c).1 :=
  (versioned H).build_append_singleton cs c

/-- A build represents its commits. -/
theorem represents_build (cs : List BlockCommit) : Represents H (build H cs) cs := rfl

/-! ### What a list of commits leaves -/

/-- It has their ledger. -/
theorem build_ledger (cs : List BlockCommit) : (build H cs).ledger = ledgerOf cs := by
  induction cs using List.reverseRecOn with
  | nil => rfl
  | append_singleton cs c ih =>
      rw [build_append_singleton, ledger_commitBlock, ih, ledgerOf_append_singleton]

/-- The record a commit appends. -/
theorem commitBlock_record (cs : List BlockCommit) (c : BlockCommit) :
    (⟨c.height, c.zcashBlockHash, computeRoot H ((build H cs).applyCommit c).view⟩ :
      HeightRecord) = recordAfter H cs c := by
  rw [recordAfter, ledgerOf_append_singleton, view_eq, ledger_applyCommit, build_ledger]
  rfl

/-- It has their records. -/
theorem build_history (cs : List BlockCommit) : (build H cs).history = recordsOf H cs := by
  induction cs using List.reverseRecOn with
  | nil => rfl
  | append_singleton cs c ih =>
      rw [build_append_singleton, recordsOf_append_singleton, ← commitBlock_record, ← ih]
      rfl

/-- The last commit has the last journal. -/
theorem build_undo_append_singleton (cs : List BlockCommit) (c : BlockCommit) :
    (build H (cs ++ [c])).undo = (build H cs).undo.insert c.height ((build H cs).journal c) := by
  rw [build_append_singleton]
  rfl

/-- A build has no execution records. -/
theorem build_executions (cs : List BlockCommit) : (build H cs).executions = ∅ := by
  induction cs using List.reverseRecOn with
  | nil => rfl
  | append_singleton cs c ih =>
      rw [build_append_singleton]
      exact ih

/-- The metadata is that of the last record. -/
theorem build_metadata (cs : List BlockCommit) :
    (build H cs).metadata = Metadata.ofLast (recordsOf H cs).getLast? := by
  rcases List.eq_nil_or_concat cs with rfl | ⟨cs, c, rfl⟩
  · rfl
  · rw [List.concat_eq_append, recordsOf_append_singleton, List.getLast?_concat,
      build_append_singleton, ← commitBlock_record]
    rfl

/-- Each commit has a journal, under its height. -/
theorem mem_build_undo {cs : List BlockCommit} {h : BlockHeight} :
    h ∈ (build H cs).undo ↔ h ∈ cs.map BlockCommit.height := by
  induction cs using List.reverseRecOn with
  | nil => simp [new]
  | append_singleton cs c ih =>
      rw [build_undo_append_singleton, Std.ExtTreeMap.mem_insert, ih,
        Std.LawfulEqCmp.compare_eq_iff_eq, List.map_append, List.mem_append, List.map_singleton,
        List.mem_singleton, or_comm, eq_comm]

/-- The journaled heights, in order. -/
theorem build_undo_keys {cs : List BlockCommit} (hcs : Increasing cs) :
    (build H cs).undo.keys = cs.map BlockCommit.height := by
  refine OrdMap.eq_of_pairwise_of_mem_iff (fun h => h) Std.ExtTreeMap.ordered_keys ?_ ?_
  · refine List.pairwise_map.mpr (hcs.imp fun {c d} hlt => ?_)
    exact Std.compare_eq_lt.mpr (UInt32.lt_iff_toNat_lt.mpr hlt)
  · intro h
    rw [Std.ExtTreeMap.mem_keys, mem_build_undo]

/-! ### What undoing a height does -/

/-- Undoing entries writes to the two maps and to nothing else. -/
theorem foldl_undoOp (s : MemoryState) (ops : List UndoOp) :
    ops.foldl undoOp s =
      { s with
        contracts := applyAll s.contracts (ops.flatMap UndoOp.contractUndo)
        storage := applyAll s.storage (ops.flatMap UndoOp.storageUndo) } := by
  induction ops generalizing s with
  | nil => rfl
  | cons op ops ih =>
      rw [List.foldl_cons, ih, List.flatMap_cons, List.flatMap_cons, applyAll_append,
        applyAll_append]
      rcases op with ⟨cid, key, _ | v⟩ | ⟨cid, key, prev⟩ | ⟨cid, _ | ⟨codeHash, wasm⟩⟩ <;> rfl

/-- Undoing a journaled height. -/
theorem undoHeight_of_journal {s : MemoryState} {h : BlockHeight} {ops : List UndoOp}
    (hops : s.undo[h]? = some ops) (t : BlockHeight) :
    undoHeight t s h =
      { s with
        contracts := (s.ledger.revert ops).contracts
        storage := (s.ledger.revert ops).storage
        undo := s.undo.erase h
        history := s.history.filter fun r => r.height ≤ t } := by
  rw [undoHeight, hops]
  simp only [foldl_undoOp]
  rfl

/-- Two stores hold the same ledger and journals. -/
def SameBody (s s' : MemoryState) : Prop := s.ledger = s'.ledger ∧ s.undo = s'.undo

/-- Undoing the top height of a list of commits leaves the ledger and journals of the rest. -/
theorem sameBody_undoHeight {s : MemoryState} {cs : List BlockCommit} {c : BlockCommit}
    (hcs : Increasing (cs ++ [c])) (hs : SameBody s (build H (cs ++ [c]))) (t : BlockHeight) :
    SameBody (undoHeight t s c.height) (build H cs) := by
  obtain ⟨hledger, hundo⟩ := hs
  have hnew : (build H cs).undo[c.height]? = none := by
    refine Std.ExtTreeMap.getElem?_eq_none fun hmem => ?_
    obtain ⟨d, hd, hdc⟩ := List.mem_map.mp ((mem_build_undo H).mp hmem)
    have := hcs.lt_last d hd
    rw [BlockCommit.level, BlockCommit.level, hdc] at this
    omega
  have hops : s.undo[c.height]? = some ((build H cs).journal c) := by
    rw [hundo, build_undo_append_singleton, Std.ExtTreeMap.getElem?_insert_self]
  rw [undoHeight_of_journal hops]
  constructor
  · have hrev := reverts_journal (build H cs) c
    rw [Ledger.Reverts, ← ledger_commitBlock H, ← build_append_singleton, ← hledger] at hrev
    exact Ledger.ext (congrArg Ledger.contracts hrev) (congrArg Ledger.storage hrev)
  · refine Std.ExtTreeMap.ext_getElem? fun h => ?_
    rw [hundo, build_undo_append_singleton, Std.ExtTreeMap.getElem?_erase,
      Std.ExtTreeMap.getElem?_insert]
    split
    · rename_i hh
      rw [← Std.LawfulEqCmp.eq_of_compare hh, hnew]
    · rfl

/-- What undoing heights never touches. -/
theorem undoHeights_frame (t : BlockHeight) (hs : List BlockHeight) (s : MemoryState) :
    (hs.foldl (undoHeight t) s).executions = s.executions ∧
      (hs.foldl (undoHeight t) s).history =
        if hs = [] then s.history else s.history.filter fun r => r.height ≤ t := by
  have hstep : ∀ (s : MemoryState) (h : BlockHeight),
      (undoHeight t s h).executions = s.executions ∧
        (undoHeight t s h).history = s.history.filter fun r => r.height ≤ t := by
    intro s h
    cases hops : s.undo[h]? with
    | none => simp [undoHeight, hops]
    | some ops => simp [undoHeight_of_journal hops]
  induction hs generalizing s with
  | nil => simp
  | cons h hs ih =>
      obtain ⟨hexec, hhist⟩ := ih (undoHeight t s h)
      rw [List.foldl_cons, hexec, hhist, (hstep s h).1, (hstep s h).2]
      refine ⟨rfl, ?_⟩
      split <;> simp [List.filter_filter]

/-- Undoing the heights of the upper commits leaves the ledger and journals of the lower. -/
theorem sameBody_undoHeights {low high : List BlockCommit} (hcs : Increasing (low ++ high))
    (t : BlockHeight) {s : MemoryState} (hs : SameBody s (build H (low ++ high))) :
    SameBody ((high.map BlockCommit.height).reverse.foldl (undoHeight t) s) (build H low) := by
  induction high using List.reverseRecOn generalizing s with
  | nil => simpa using hs
  | append_singleton high c ih =>
      rw [← List.append_assoc] at hcs hs
      rw [List.map_append, List.reverse_append, List.map_singleton, List.reverse_singleton,
        List.singleton_append, List.foldl_cons]
      exact ih hcs.of_append_left (sameBody_undoHeight H hcs hs t)

/-! ### The laws of the backend -/

variable {H}

/-- Saved executions do not take part in a commit. -/
theorem commitBlock_executions (s : MemoryState) (e : OrdMap TxId Execution) (c : BlockCommit) :
    ({ s with executions := e }.commitBlock H c) =
      ({ (s.commitBlock H c).1 with executions := e }, (s.commitBlock H c).2) := rfl

/-- **A commit extends the represented list** and returns the root after it. -/
theorem commitBlock_of_represents {s : MemoryState} {cs : List BlockCommit}
    (hs : Represents H s cs) (c : BlockCommit) :
    Represents H (s.commitBlock H c).1 (cs ++ [c]) ∧
      (s.commitBlock H c).2 = .ok ((ledgerOf (cs ++ [c])).root H) := by
  rw [Represents] at hs
  constructor
  · rw [Represents, hs, commitBlock_executions, build_append_singleton]
  · rw [hs, commitBlock_executions]
    exact congrArg Except.ok (congrArg HeightRecord.stateRoot (commitBlock_record H cs c))

/-- **A rollback leaves the commits up to its target.** -/
theorem rollbackTo_of_represents {s : MemoryState} {cs : List BlockCommit}
    (hs : Represents H s cs) (hcs : Increasing cs) (t : BlockHeight) :
    Represents H (s.rollbackTo t).1 (commitsUpTo t cs) := by
  have hhistory := filter_recordsOf H hcs t
  obtain ⟨high, hsplit, habove⟩ := hcs.exists_eq_append t
  have hlow : ∀ c ∈ commitsUpTo t cs, c.level ≤ t.toNat := fun c hc => by
    simpa using (List.mem_filter.mp hc).2
  generalize commitsUpTo t cs = low at hhistory hsplit hlow ⊢
  subst hsplit
  have hbody : SameBody s (build H (low ++ high)) := by rw [hs]; exact ⟨rfl, rfl⟩
  have hheights : s.heightsAbove t = (high.map BlockCommit.height).reverse := by
    rw [heightsAbove, hbody.2, build_undo_keys H hcs, insertionSort_heights_above hcs hlow habove]
  obtain ⟨hexec, hhist⟩ := undoHeights_frame t (high.map BlockCommit.height).reverse s
  obtain ⟨hledger, hundo⟩ := sameBody_undoHeights H hcs t hbody
  have hs_history : s.history = recordsOf H (low ++ high) := by rw [hs]; exact build_history H _
  have hhist' : ((high.map BlockCommit.height).reverse.foldl (undoHeight t) s).history =
      recordsOf H low := by
    rw [hhist, hs_history]
    split
    · rename_i hnil
      obtain rfl : high = [] := by simpa using hnil
      rw [List.append_nil]
    · exact hhistory
  have hcontracts := congrArg Ledger.contracts hledger
  have hstorage := congrArg Ledger.storage hledger
  rw [Represents, rollbackTo, hheights]
  simp only [restoreMetadata, hhist', hexec]
  rw [← build_metadata]
  generalize (high.map BlockCommit.height).reverse.foldl (undoHeight t) s = s' at *
  simp only [ledger] at hcontracts hstorage
  rw [hcontracts, hstorage, hundo, ← hhist', hhist', ← build_history]

/-- Execution records do not change what is represented. -/
theorem saveExecutions_of_represents {s : MemoryState} {cs : List BlockCommit}
    (hs : Represents H s cs) (executions : List Execution) :
    Represents H (s.saveExecutions executions).1 cs := by
  rw [Represents] at hs ⊢
  rw [hs]
  rfl

/-! ### Runs -/

/-- **The normal form of a run**: the store of a run of increasing commits and rollbacks is built
from its surviving commits. -/
theorem run_eq_build {ops : List StoreOp}
    (h : Rising BlockCommit.level UInt32.toNat ops) :
    (versioned H).run ops = build H (versions BlockCommit.level UInt32.toNat ops) := by
  suffices hrep : (versioned H).run ops = build H (versions BlockCommit.level UInt32.toNat ops) ∧
      ∀ c ∈ versions BlockCommit.level UInt32.toNat ops, True from hrep.1
  refine (versioned H).represents_run (fun s cs => s = build H cs) (fun _ => True) rfl ?_ ?_ h
    fun _ _ => trivial
  · rintro s cs c rfl - - -
    exact (build_append_singleton H cs c).symm
  · rintro s cs rfl - hcs t
    have hrep := rollbackTo_of_represents (represents_build H cs) hcs t
    have hexec : ((build H cs).rollbackTo t).1.executions = ∅ := by
      rw [← build_executions H cs]
      exact (undoHeights_frame t ((build H cs).heightsAbove t) (build H cs)).1
    rw [Represents, hexec, ← build_executions H (commitsUpTo t cs)] at hrep
    exact hrep

end MemoryState

end Zalkanes
