import Zalkanes.State.Memory
import Zalkanes.State.RocksLedger

/-!
# The Root of a Commit

The three computations of what a commit does (the rebuilt maps of `projectedRoot`, the in-place
edits of `MemoryState` and the batch of `RocksState`) end in one ledger, so their roots agree.
The mismatch error of `RocksState.commitBlock` is unreachable.

## Main results

* `RocksState.commitBlock_eq`: what a commit returns, in any database.
* `commitBlock_root`: the projected root, the returned root, the root recomputed afterwards and
  the recorded root are one.
-/

namespace Zalkanes

open Lib

/-- In memory the projected root is that of the ledger after the commit. -/
theorem MemoryState.projectedRoot_view (H : Hashing) (s : MemoryState) (c : BlockCommit) :
    projectedRoot H s.view c = (s.ledger.apply c).root H := by
  rw [projectedRoot_eq, view_eq, Ledger.ledger_view]

/-- The computed root is that of the ledger. -/
theorem MemoryState.computeRoot_view (H : Hashing) (s : MemoryState) :
    computeRoot H s.view = s.ledger.root H := rfl

namespace RocksState

/-- In the database the projected root is that of the ledger after the commit. -/
theorem projectedRoot_view (H : Hashing) (s : RocksState) (c : BlockCommit) :
    projectedRoot H s.view c = (s.ledger.apply c).root H :=
  projectedRoot_eq H s.view c

/-- The computed root is that of the ledger. -/
theorem computeRoot_view (H : Hashing) (s : RocksState) :
    computeRoot H s.view = s.ledger.root H :=
  computeRoot_eq H s.view_sorted

/-- The batch that a commit writes. -/
def commitBatch (H : Hashing) (s : RocksState) (c : BlockCommit) : WriteBatch :=
  s.dataBatch c ++ recordBatch c (s.journal c) ((s.ledger.apply c).root H)

/-- The batch of a commit applies it to the ledger. -/
theorem ledger_write_commitBatch (H : Hashing) (s : RocksState) (c : BlockCommit) :
    (s.write (s.commitBatch H c)).ledger = s.ledger.apply c :=
  s.ledger_write_commit c _ _

/-- **A commit never reports a mismatch**: it writes its batch and returns the root of the ledger
after it. -/
theorem commitBlock_eq (H : Hashing) (s : RocksState) (c : BlockCommit) :
    s.commitBlock H c = (s.write (s.commitBatch H c), .ok ((s.ledger.apply c).root H)) := by
  have happlied := s.ledger_write_commitBatch H c
  rw [commitBatch] at happlied
  rw [commitBlock, commitBatch]
  simp only [projectedRoot_view, computeRoot_view, happlied, ne_eq, not_true_eq_false, if_false]

/-- The data batch addresses data keys only. -/
theorem lastWrite_dataBatch_of_ne (s : RocksState) (c : BlockCommit) {k : DbKey}
    (hcontract : ∀ id, .contract id ≠ k) (hstorage : ∀ id key, .storage id key ≠ k) :
    lastWrite (s.dataBatch c) k = none := by
  refine lastWrite_eq_none_iff.mpr fun w hw => ?_
  rcases List.mem_append.mp hw with hw | hw
  · rcases List.mem_append.mp hw with hw | hw
    · obtain ⟨d, -, rfl⟩ := List.mem_map.mp hw
      exact hcontract d.1
    · obtain ⟨u, -, rfl⟩ := List.mem_map.mp hw
      exact hstorage u.1 u.2.1
  · obtain ⟨d, -, hw⟩ := List.mem_filterMap.mp hw
    obtain ⟨prev, -, rfl⟩ := Option.map_eq_some_iff.mp hw
    exact hstorage d.1 d.2

/-- What a commit leaves at a key that is not data. -/
theorem get_commitBatch_of_ne (H : Hashing) (s : RocksState) (c : BlockCommit) {k : DbKey}
    (hcontract : ∀ id, .contract id ≠ k) (hstorage : ∀ id key, .storage id key ≠ k) :
    (s.write (s.commitBatch H c)).get k =
      (lastWrite (recordBatch c (s.journal c) ((s.ledger.apply c).root H)) k).getD (s.get k) := by
  rw [get_write, commitBatch, lastWrite_append, lastWrite_dataBatch_of_ne s c hcontract hstorage,
    Option.or_none]

/-- The batch holds the journal of its height. -/
theorem get_commitBatch_undo (H : Hashing) (s : RocksState) (c : BlockCommit) (h : BlockHeight) :
    (s.write (s.commitBatch H c)).get (.undo h) =
      if c.height = h then some (encodeUndo (s.journal c)) else s.get (.undo h) := by
  rw [get_commitBatch_of_ne H s c (by simp) (by simp)]
  by_cases hh : c.height = h <;> simp [recordBatch, lastWrite_cons, hh]

/-- The batch holds the record of its height. -/
theorem get_commitBatch_height (H : Hashing) (s : RocksState) (c : BlockCommit)
    (h : BlockHeight) :
    (s.write (s.commitBatch H c)).get (.height h) =
      if c.height = h then
        some (recordValue ⟨c.height, c.zcashBlockHash, (s.ledger.apply c).root H⟩)
      else s.get (.height h) := by
  rw [get_commitBatch_of_ne H s c (by simp) (by simp)]
  by_cases hh : c.height = h <;> simp [recordBatch, lastWrite_cons, hh]

/-- The batch holds the new tip. -/
theorem get_commitBatch_meta (H : Hashing) (s : RocksState) (c : BlockCommit) :
    (s.write (s.commitBatch H c)).get .metaHeight = some (be32 c.height) ∧
      (s.write (s.commitBatch H c)).get .metaHash = some c.zcashBlockHash.bytes ∧
      (s.write (s.commitBatch H c)).get .metaRoot = some ((s.ledger.apply c).root H).bytes := by
  refine ⟨?_, ?_, ?_⟩ <;>
    · rw [get_commitBatch_of_ne H s c (by simp) (by simp)]
      rfl

end RocksState

/-- **The projected root is the root of the commit.** For every store of either backend and every
commit: the commit succeeds, and the projected root is the returned root, the root recomputed
from the store afterwards, the root in the metadata and the root in the height record. -/
theorem commitBlock_root (H : Hashing) :
    (∀ (s : MemoryState) (c : BlockCommit),
      (s.commitBlock H c).2 = .ok (projectedRoot H s.view c) ∧
      computeRoot H (s.commitBlock H c).1.view = projectedRoot H s.view c ∧
      (s.commitBlock H c).1.metadata.persistedRoot = some (projectedRoot H s.view c) ∧
      (s.commitBlock H c).1.history.getLast? =
        some ⟨c.height, c.zcashBlockHash, projectedRoot H s.view c⟩) ∧
    (∀ (s : RocksState) (c : BlockCommit),
      (s.commitBlock H c).2 = .ok (projectedRoot H s.view c) ∧
      computeRoot H (s.commitBlock H c).1.view = projectedRoot H s.view c ∧
      (s.commitBlock H c).1.persistedStateRoot = some (projectedRoot H s.view c) ∧
      (s.commitBlock H c).1.get (.height c.height) =
        some (RocksState.recordValue ⟨c.height, c.zcashBlockHash, projectedRoot H s.view c⟩)) := by
  constructor
  · intro s c
    have hroot : computeRoot H (s.applyCommit c).view = projectedRoot H s.view c := by
      rw [MemoryState.computeRoot_view, MemoryState.ledger_applyCommit,
        MemoryState.projectedRoot_view]
    refine ⟨congrArg Except.ok hroot, ?_, congrArg some hroot, ?_⟩
    · rw [MemoryState.computeRoot_view, MemoryState.ledger_commitBlock,
        MemoryState.projectedRoot_view]
    · rw [← hroot]
      exact List.getLast?_concat
  · intro s c
    obtain ⟨-, -, hmeta⟩ := s.get_commitBatch_meta H c
    rw [RocksState.commitBlock_eq, RocksState.projectedRoot_view]
    refine ⟨rfl, ?_, ?_, ?_⟩
    · rw [RocksState.computeRoot_view, RocksState.ledger_write_commitBatch]
    · rw [RocksState.persistedStateRoot, hmeta, Option.bind_some, Bytes32.ofBytes?_bytes]
    · rw [RocksState.get_commitBatch_height, if_pos rfl]

end Zalkanes
