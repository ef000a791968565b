import Zalkanes.State.Root
import Zalkanes.Lib.Versions

/-!
# Journals and Histories

What both backends must agree on, stated without either of them: what an undo entry writes back
(`Ledger.revert`), and the ledger and the height records that a list of commits leaves
(`ledgerOf`, `recordsOf`).

## Main results

* `filter_recordsOf`: dropping the records above a target leaves the records of the commits up
  to it.
* `insertionSort_ge_eq_reverse`: sorting ascending heights in descending order reverses them.
-/

namespace Zalkanes

open Lib

namespace UndoOp

/-- What undoing the entry writes to the contract map. -/
def contractUndo : UndoOp → List (Write ContractId (CodeHash × Bytes))
  | deploy contract prev => [.restore contract prev]
  | _ => []

/-- What undoing the entry writes to the storage map. -/
def storageUndo : UndoOp → List (Write (ContractId × Bytes) Bytes)
  | set contract key prev => [.restore (contract, key) prev]
  | delete contract key prev => [.put (contract, key) prev]
  | deploy _ _ => []

end UndoOp

namespace Ledger

/-- Undo a journal, newest entry first. -/
def revert (l : Ledger) (ops : List UndoOp) : Ledger :=
  ⟨applyAll l.contracts (ops.reverse.flatMap UndoOp.contractUndo),
    applyAll l.storage (ops.reverse.flatMap UndoOp.storageUndo)⟩

/-- The journal `ops` takes the ledger after `c` back to `l`. -/
def Reverts (l : Ledger) (c : BlockCommit) (ops : List UndoOp) : Prop :=
  (l.apply c).revert ops = l

end Ledger

/-! ### The history of a list of commits -/

/-- A run of commits and rollbacks on a store. -/
abbrev StoreOp := VersionOp BlockCommit BlockHeight

/-- The level of a commit is its height. -/
def BlockCommit.level (c : BlockCommit) : ℕ := c.height.toNat

/-- The commits at or below a target. -/
def commitsUpTo (t : BlockHeight) (cs : List BlockCommit) : List BlockCommit :=
  cs.filter fun c => c.level ≤ t.toNat

/-- Commits with strictly increasing heights. -/
def Increasing (cs : List BlockCommit) : Prop :=
  cs.Pairwise fun c d => c.level < d.level

/-- The ledger that a list of commits leaves, from the empty one. -/
def ledgerOf (cs : List BlockCommit) : Ledger := cs.foldl Ledger.apply Ledger.empty

/-- The height records of a list of commits on a ledger: each carries the root after it. -/
def recordsFrom (H : Hashing) (l : Ledger) : List BlockCommit → List HeightRecord
  | [] => []
  | c :: cs =>
      ⟨c.height, c.zcashBlockHash, (l.apply c).root H⟩ :: recordsFrom H (l.apply c) cs

/-- The height records of a list of commits on the empty ledger. -/
def recordsOf (H : Hashing) (cs : List BlockCommit) : List HeightRecord :=
  recordsFrom H Ledger.empty cs

/-- The height record of the last of a list of commits. -/
def recordAfter (H : Hashing) (cs : List BlockCommit) (c : BlockCommit) : HeightRecord :=
  ⟨c.height, c.zcashBlockHash, (ledgerOf (cs ++ [c])).root H⟩

/-- The last commit is applied last. -/
theorem ledgerOf_append_singleton (cs : List BlockCommit) (c : BlockCommit) :
    ledgerOf (cs ++ [c]) = (ledgerOf cs).apply c := by
  simp [ledgerOf]

/-- Records are made one commit after the other. -/
theorem recordsFrom_append (H : Hashing) (l : Ledger) (cs ds : List BlockCommit) :
    recordsFrom H l (cs ++ ds) =
      recordsFrom H l cs ++ recordsFrom H (cs.foldl Ledger.apply l) ds := by
  induction cs generalizing l with
  | nil => rfl
  | cons c cs ih => rw [List.cons_append, recordsFrom, ih, recordsFrom, List.cons_append,
      List.foldl_cons]

/-- Records of more commits go on from the ledger of the first. -/
theorem recordsOf_append (H : Hashing) (cs ds : List BlockCommit) :
    recordsOf H (cs ++ ds) = recordsOf H cs ++ recordsFrom H (ledgerOf cs) ds :=
  recordsFrom_append H _ cs ds

/-- The last commit has the last record. -/
theorem recordsOf_append_singleton (H : Hashing) (cs : List BlockCommit) (c : BlockCommit) :
    recordsOf H (cs ++ [c]) = recordsOf H cs ++ [recordAfter H cs c] := by
  rw [recordsOf_append, recordAfter, ledgerOf_append_singleton]
  rfl

/-- Records have the heights of their commits. -/
theorem map_height_recordsFrom (H : Hashing) (l : Ledger) (cs : List BlockCommit) :
    (recordsFrom H l cs).map HeightRecord.height = cs.map BlockCommit.height := by
  induction cs generalizing l with
  | nil => rfl
  | cons c cs ih => rw [recordsFrom, List.map_cons, ih, List.map_cons]

/-- Records have the heights of their commits. -/
@[simp] theorem map_height_recordsOf (H : Hashing) (cs : List BlockCommit) :
    (recordsOf H cs).map HeightRecord.height = cs.map BlockCommit.height :=
  map_height_recordsFrom H _ cs

/-- Cutting increasing commits at a target: what is kept is a part from the start, and the rest
lies above. -/
theorem Increasing.exists_eq_append {cs : List BlockCommit} (h : Increasing cs)
    (t : BlockHeight) :
    ∃ high, cs = commitsUpTo t cs ++ high ∧ ∀ c ∈ high, t.toNat < c.level :=
  exists_filter_append_of_pairwise h t.toNat

/-- The first of increasing commits increase. -/
theorem Increasing.of_append_left {cs ds : List BlockCommit} (h : Increasing (cs ++ ds)) :
    Increasing cs :=
  (List.pairwise_append.mp h).1

/-- The last of increasing commits is above the others. -/
theorem Increasing.lt_last {cs : List BlockCommit} {c : BlockCommit}
    (h : Increasing (cs ++ [c])) : ∀ d ∈ cs, d.level < c.level := fun d hd =>
  (List.pairwise_append.mp h).2.2 d hd c (List.mem_singleton_self c)

/-- Cutting one height below the last commit takes it off. -/
theorem Increasing.commitsUpTo_pred {cs : List BlockCommit} {c : BlockCommit}
    (h : Increasing (cs ++ [c])) {t : BlockHeight} (ht : t.toNat + 1 = c.level) :
    commitsUpTo t (cs ++ [c]) = cs := by
  refine filter_append_eq_left (fun d hd => ?_) fun d hd => ?_
  · have hlt := h.lt_last d hd
    rw [decide_eq_true_eq]
    omega
  · rw [List.mem_singleton.mp hd, decide_eq_true_eq]
    omega

/-- Every record of a list of commits is of one of them. -/
theorem exists_of_mem_recordsFrom {H : Hashing} {l : Ledger} {cs : List BlockCommit}
    {r : HeightRecord} (h : r ∈ recordsFrom H l cs) :
    ∃ c ∈ cs, c.height = r.height ∧ c.zcashBlockHash = r.zcashBlockHash := by
  induction cs generalizing l with
  | nil => cases h
  | cons c cs ih =>
      rcases List.mem_cons.mp h with rfl | h
      · exact ⟨c, List.mem_cons_self, rfl, rfl⟩
      · obtain ⟨d, hd, hdr⟩ := ih h
        exact ⟨d, List.mem_cons_of_mem c hd, hdr⟩

/-- Dropping the records above a target leaves the records of the commits up to it. -/
theorem filter_recordsOf (H : Hashing) {cs : List BlockCommit} (h : Increasing cs)
    (t : BlockHeight) :
    (recordsOf H cs).filter (fun r => r.height ≤ t) = recordsOf H (commitsUpTo t cs) := by
  obtain ⟨high, hcs, habove⟩ := h.exists_eq_append t
  have hlow : ∀ c ∈ commitsUpTo t cs, c.level ≤ t.toNat := fun c hc => by
    simpa using (List.mem_filter.mp hc).2
  generalize commitsUpTo t cs = low at hcs hlow ⊢
  rw [hcs, recordsOf_append]
  refine filter_append_eq_left (fun r hr => ?_) fun r hr => ?_
  · obtain ⟨c, hc, hcr, -⟩ := exists_of_mem_recordsFrom hr
    have := hlow c hc
    rw [BlockCommit.level, hcr] at this
    simpa [UInt32.le_iff_toNat_le] using this
  · obtain ⟨c, hc, hcr, -⟩ := exists_of_mem_recordsFrom hr
    have := habove c hc
    rw [BlockCommit.level, hcr] at this
    simpa [UInt32.le_iff_toNat_le] using this

/-- Sorting ascending heights in descending order reverses them. -/
theorem insertionSort_ge_eq_reverse {hs : List BlockHeight}
    (h : hs.Pairwise fun a b => a.toNat < b.toNat) :
    hs.insertionSort (· ≥ ·) = hs.reverse := by
  have : Std.Total fun a b : BlockHeight => a ≥ b := ⟨fun a b => by
    simp only [ge_iff_le, UInt32.le_iff_toNat_le]
    omega⟩
  have : IsTrans BlockHeight fun a b => a ≥ b := ⟨fun a b c => by
    simp only [ge_iff_le, UInt32.le_iff_toNat_le]
    omega⟩
  refine List.Perm.eq_of_pairwise (fun a b _ _ hab hba => ?_)
    (List.pairwise_insertionSort (· ≥ ·) hs) ?_
    ((List.perm_insertionSort (· ≥ ·) hs).trans (List.reverse_perm hs).symm)
  · rw [ge_iff_le, UInt32.le_iff_toNat_le] at hab hba
    exact UInt32.toNat_inj.mp (by omega)
  · refine List.pairwise_reverse.mpr (h.imp fun {a b} hab => ?_)
    rw [ge_iff_le, UInt32.le_iff_toNat_le]
    omega

/-- The heights above a target, of increasing commits, in descending order. -/
theorem insertionSort_heights_above {low high : List BlockCommit} {t : BlockHeight}
    (h : Increasing (low ++ high)) (hlow : ∀ c ∈ low, c.level ≤ t.toNat)
    (hhigh : ∀ c ∈ high, t.toNat < c.level) :
    (((low ++ high).map BlockCommit.height).filter fun h => h > t).insertionSort (· ≥ ·) =
      (high.map BlockCommit.height).reverse := by
  rw [List.map_append, List.filter_append, List.filter_eq_nil_iff.mpr, List.nil_append,
    List.filter_eq_self.mpr, insertionSort_ge_eq_reverse]
  · exact List.pairwise_map.mpr (List.pairwise_append.mp h).2.1
  · intro a ha
    obtain ⟨c, hc, rfl⟩ := List.mem_map.mp ha
    simpa [UInt32.lt_iff_toNat_lt, BlockCommit.level] using hhigh c hc
  · intro a ha
    obtain ⟨c, hc, rfl⟩ := List.mem_map.mp ha
    simpa [UInt32.lt_iff_toNat_lt, BlockCommit.level] using hlow c hc

end Zalkanes
