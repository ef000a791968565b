import Zalkanes.State.Journal

/-!
# The In-Memory Backend

`MemoryState` applies a commit in place and journals as it goes: upserts, then deletes, then
deploys. A rollback takes the journals above the target off, newest height first.

## Main results

* `MemoryState.ledger_commitBlock`: a commit acts on the ledger by `Ledger.apply`.
* `MemoryState.reverts_journal`: the journal of a commit reverts it.
-/

namespace Zalkanes

open Lib

/-- The position of the index: height, block hash and advisory root. -/
structure Metadata where
  indexedHeight : Option BlockHeight
  indexedBlockHash : Option BlockHash
  persistedRoot : Option StateRoot
  deriving DecidableEq

/-- `Metadata::default()`. -/
def Metadata.default : Metadata := ⟨none, none, none⟩

/-- The metadata of a height record. -/
def Metadata.ofRecord (rec : HeightRecord) : Metadata :=
  ⟨some rec.height, some rec.zcashBlockHash, some rec.stateRoot⟩

/-- The metadata restored from the last height record, if any. -/
def Metadata.ofLast : Option HeightRecord → Metadata
  | some rec => Metadata.ofRecord rec
  | none => Metadata.default

/-- The in-memory state backend. -/
structure MemoryState where
  contracts : OrdMap ContractId (CodeHash × Bytes)
  storage : OrdMap (ContractId × Bytes) Bytes
  metadata : Metadata
  history : List HeightRecord
  undo : OrdMap BlockHeight (List UndoOp)
  executions : OrdMap TxId Execution
  deriving DecidableEq

namespace MemoryState

/-- The empty store. -/
def new : MemoryState := ⟨∅, ∅, Metadata.default, [], ∅, ∅⟩

/-- The contracts and the storage of the store. -/
def ledger (s : MemoryState) : Ledger := ⟨s.contracts, s.storage⟩

/-- What the indexer reads. -/
def view (s : MemoryState) : StateView where
  hasContract id := s.contracts.contains id
  getContract id := s.contracts[id]?
  storageGet contract key := s.storage[(contract, key)]?
  contracts := s.contracts.toList
  storage := s.storage.toList.map fun ((id, key), value) => (id, key, value)

/-- It is the view of the ledger. -/
theorem view_eq (s : MemoryState) : s.view = s.ledger.view := rfl

/-! ### Commit -/

/-- The deploy loop: the contract map after it, and the replaced contract of each deploy. -/
def insertDeploys (contracts : OrdMap ContractId (CodeHash × Bytes)) :
    List (ContractId × CodeHash × Bytes) →
      OrdMap ContractId (CodeHash × Bytes) × List (Option (CodeHash × Bytes))
  | [] => (contracts, [])
  | (id, codeHash, wasm) :: deploys =>
      let prev := contracts[id]?
      let (after, prevs) := insertDeploys (contracts.insert id (codeHash, wasm)) deploys
      (after, prev :: prevs)

/-- The upsert loop: the storage after it, and the entries it journals. -/
def insertUpserts (storage : OrdMap (ContractId × Bytes) Bytes) :
    List (ContractId × Bytes × Bytes) → OrdMap (ContractId × Bytes) Bytes × List UndoOp
  | [] => (storage, [])
  | (cid, key, value) :: upserts =>
      let prev := storage[(cid, key)]?
      let (after, undo) := insertUpserts (storage.insert (cid, key) value) upserts
      (after, .set cid key prev :: undo)

/-- The delete loop: the storage after it, and the entries it journals. A key that is not there
is not journaled. -/
def removeDeletes (storage : OrdMap (ContractId × Bytes) Bytes) :
    List (ContractId × Bytes) → OrdMap (ContractId × Bytes) Bytes × List UndoOp
  | [] => (storage, [])
  | (cid, key) :: deletes =>
      let prev := storage[(cid, key)]?
      let (after, undo) := removeDeletes (storage.erase (cid, key)) deletes
      match prev with
      | some prev => (after, .delete cid key prev :: undo)
      | none => (after, undo)

/-- The journal of a commit: the upserts, the deletes, and last the deploys. -/
def journal (s : MemoryState) (commit : BlockCommit) : List UndoOp :=
  let deployPrevs := (insertDeploys s.contracts commit.deploys).2
  let (storage, sets) := insertUpserts s.storage commit.upserts
  let (_, deletes) := removeDeletes storage commit.deletes
  sets ++ deletes ++
    (commit.deploys.zip deployPrevs).map fun ((id, _, _), prev) => .deploy id prev

/-- The store after the three loops of a commit, before its metadata is written. -/
def applyCommit (s : MemoryState) (commit : BlockCommit) : MemoryState :=
  let contracts := (insertDeploys s.contracts commit.deploys).1
  let storage := (insertUpserts s.storage commit.upserts).1
  let storage := (removeDeletes storage commit.deletes).1
  { s with contracts, storage }

/-- The data, the record and the journal of a block. -/
def commitBlock (H : Hashing) (s : MemoryState) (commit : BlockCommit) :
    MemoryState × Except String StateRoot :=
  let undo := s.journal commit
  let s := s.applyCommit commit
  let root := computeRoot H s.view
  let record : HeightRecord := ⟨commit.height, commit.zcashBlockHash, root⟩
  ({ s with
      metadata := Metadata.ofRecord record
      history := s.history ++ [record]
      undo := s.undo.insert commit.height undo }, .ok root)

/-! ### Rollback -/

/-- Undo one journal entry. -/
def undoOp (s : MemoryState) : UndoOp → MemoryState
  | .set contract key (some v) => { s with storage := s.storage.insert (contract, key) v }
  | .set contract key none => { s with storage := s.storage.erase (contract, key) }
  | .delete contract key prev => { s with storage := s.storage.insert (contract, key) prev }
  | .deploy contract (some (codeHash, wasm)) =>
      { s with contracts := s.contracts.insert contract (codeHash, wasm) }
  | .deploy contract none => { s with contracts := s.contracts.erase contract }

/-- Undo the journal of one height, newest entry first, and drop the records above the target. -/
def undoHeight (target : BlockHeight) (s : MemoryState) (h : BlockHeight) : MemoryState :=
  let s :=
    match s.undo[h]? with
    | some ops => ops.reverse.foldl undoOp { s with undo := s.undo.erase h }
    | none => s
  { s with history := s.history.filter fun r => r.height ≤ target }

/-- Take the metadata from the last height record. -/
def restoreMetadata (s : MemoryState) : MemoryState :=
  { s with metadata := Metadata.ofLast s.history.getLast? }

/-- The journaled heights above the target, in descending order. -/
def heightsAbove (s : MemoryState) (target : BlockHeight) : List BlockHeight :=
  (s.undo.keys.filter fun h => h > target).insertionSort (· ≥ ·)

/-- Undoes the heights above the target, and then the metadata. -/
def rollbackTo (s : MemoryState) (target : BlockHeight) : MemoryState × Except String Unit :=
  (((s.heightsAbove target).foldl (undoHeight target) s).restoreMetadata, .ok ())

/-! ### Executions -/

/-- One record for each transaction. -/
def saveExecutions (s : MemoryState) (executions : List Execution) :
    MemoryState × Except String Unit :=
  ({ s with
      executions := executions.foldl (fun m e => m.insert e.txid e) s.executions }, .ok ())

/-- The backend as a state store. -/
def store (H : Hashing) : StateStore MemoryState where
  view := view
  indexedHeight s := s.metadata.indexedHeight
  indexedBlockHash s := s.metadata.indexedBlockHash
  persistedStateRoot s := s.metadata.persistedRoot
  heightHistory := history
  commitBlock := commitBlock H
  rollbackTo := rollbackTo
  saveExecutions := saveExecutions

/-! ### What a commit does -/

/-- Deploys put contracts. -/
theorem insertDeploys_fst (m : OrdMap ContractId (CodeHash × Bytes))
    (deploys : List (ContractId × CodeHash × Bytes)) :
    (insertDeploys m deploys).1 =
      applyAll m (deploys.map fun (id, codeHash, wasm) => .put id (codeHash, wasm)) := by
  induction deploys generalizing m with
  | nil => rfl
  | cons d deploys ih => exact ih _

/-- Sets put storage. -/
theorem insertUpserts_fst (m : OrdMap (ContractId × Bytes) Bytes)
    (upserts : List (ContractId × Bytes × Bytes)) :
    (insertUpserts m upserts).1 =
      applyAll m (upserts.map fun (id, key, value) => .put (id, key) value) := by
  induction upserts generalizing m with
  | nil => rfl
  | cons u upserts ih => exact ih _

/-- Deletes delete storage. -/
theorem removeDeletes_fst (m : OrdMap (ContractId × Bytes) Bytes)
    (deletes : List (ContractId × Bytes)) :
    (removeDeletes m deletes).1 = applyAll m (deletes.map fun (id, key) => .del (id, key)) := by
  induction deletes generalizing m with
  | nil => rfl
  | cons d deletes ih =>
      obtain ⟨cid, key⟩ := d
      rw [removeDeletes, List.map_cons, applyAll_cons, ← show _ = _ from ih _]
      cases m[(cid, key)]? <;> rfl

/-- The three loops act on the ledger by `Ledger.apply`. -/
theorem ledger_applyCommit (s : MemoryState) (c : BlockCommit) :
    (s.applyCommit c).ledger = s.ledger.apply c := by
  simp only [ledger, applyCommit, Ledger.apply, BlockCommit.contractWrites,
    BlockCommit.storageWrites, insertDeploys_fst, insertUpserts_fst, removeDeletes_fst,
    applyAll_append]

/-- **A commit acts on the ledger** as the projected root assumes. -/
theorem ledger_commitBlock (H : Hashing) (s : MemoryState) (c : BlockCommit) :
    (s.commitBlock H c).1.ledger = s.ledger.apply c :=
  s.ledger_applyCommit c

/-! ### What a journal restores -/

/-- Undoing the deploy entries restores the contract map. -/
theorem revert_insertDeploys (m : OrdMap ContractId (CodeHash × Bytes))
    (deploys : List (ContractId × CodeHash × Bytes)) :
    applyAll (insertDeploys m deploys).1
      (((deploys.zip (insertDeploys m deploys).2).map fun ((id, _, _), prev) =>
        UndoOp.deploy id prev).reverse.flatMap UndoOp.contractUndo) = m := by
  induction deploys generalizing m with
  | nil => rfl
  | cons d deploys ih =>
      obtain ⟨id, codeHash, wasm⟩ := d
      rw [insertDeploys, List.zip_cons_cons, List.map_cons, List.reverse_cons,
        List.flatMap_append, applyAll_append, show applyAll _ _ = _ from ih _]
      exact applyWrite_restore m (.put id (codeHash, wasm))

/-- Undoing the upsert entries restores the storage. -/
theorem revert_insertUpserts (m : OrdMap (ContractId × Bytes) Bytes)
    (upserts : List (ContractId × Bytes × Bytes)) :
    applyAll (insertUpserts m upserts).1
      ((insertUpserts m upserts).2.reverse.flatMap UndoOp.storageUndo) = m := by
  induction upserts generalizing m with
  | nil => rfl
  | cons u upserts ih =>
      obtain ⟨cid, key, value⟩ := u
      rw [insertUpserts, List.reverse_cons, List.flatMap_append, applyAll_append,
        show applyAll _ _ = _ from ih _]
      exact applyWrite_restore m (.put (cid, key) value)

/-- Undoing the delete entries restores the storage: a delete that was not journaled removed
nothing. -/
theorem revert_removeDeletes (m : OrdMap (ContractId × Bytes) Bytes)
    (deletes : List (ContractId × Bytes)) :
    applyAll (removeDeletes m deletes).1
      ((removeDeletes m deletes).2.reverse.flatMap UndoOp.storageUndo) = m := by
  induction deletes generalizing m with
  | nil => rfl
  | cons d deletes ih =>
      obtain ⟨cid, key⟩ := d
      have hundo := applyWrite_restore m (.del (cid, key))
      rw [removeDeletes]
      cases hprev : m[(cid, key)]? with
      | none =>
          have hsame : m.erase (cid, key) = m := by
            refine Std.ExtTreeMap.ext_getElem? fun k => ?_
            rw [show m.erase (cid, key) = applyWrite m (.del (cid, key)) from rfl,
              getElem?_applyWrite]
            split
            · rename_i hk
              rw [← hk, Write.key_del, hprev, Write.value?_del]
            · rfl
          rw [hsame]
          exact ih m
      | some prev =>
          rw [Write.key_del, hprev] at hundo
          rw [List.reverse_cons, List.flatMap_append, applyAll_append,
            show applyAll _ _ = _ from ih _]
          exact hundo

/-- The upsert and delete loops journal storage entries only. -/
theorem contractUndo_insertUpserts (m : OrdMap (ContractId × Bytes) Bytes)
    (upserts : List (ContractId × Bytes × Bytes)) :
    ∀ op ∈ (insertUpserts m upserts).2, op.contractUndo = [] := by
  induction upserts generalizing m with
  | nil => simp [insertUpserts]
  | cons u upserts ih =>
      intro op hop
      rcases List.mem_cons.mp hop with rfl | hop
      · rfl
      · exact ih _ op hop

/-- Deletes are not undone among the contracts. -/
theorem contractUndo_removeDeletes (m : OrdMap (ContractId × Bytes) Bytes)
    (deletes : List (ContractId × Bytes)) :
    ∀ op ∈ (removeDeletes m deletes).2, op.contractUndo = [] := by
  induction deletes generalizing m with
  | nil => simp [removeDeletes]
  | cons d deletes ih =>
      obtain ⟨cid, key⟩ := d
      intro op hop
      rw [removeDeletes] at hop
      cases hprev : m[(cid, key)]? with
      | none =>
          rw [hprev] at hop
          exact ih _ op hop
      | some prev =>
          rw [hprev] at hop
          rcases List.mem_cons.mp hop with rfl | hop
          · rfl
          · exact ih _ op hop

/-- **The journal of a commit reverts it.** -/
theorem reverts_journal (s : MemoryState) (c : BlockCommit) :
    s.ledger.Reverts c (s.journal c) := by
  have hdeploys : ∀ op ∈ (c.deploys.zip (insertDeploys s.contracts c.deploys).2).map
      (fun ((id, _, _), prev) => UndoOp.deploy id prev), op.storageUndo = [] := by
    intro op hop
    obtain ⟨⟨⟨id, codeHash, wasm⟩, prev⟩, -, rfl⟩ := List.mem_map.mp hop
    rfl
  have hnil : ∀ {β : Type} (f : UndoOp → List β) (l : List UndoOp), (∀ op ∈ l, f op = []) →
      l.reverse.flatMap f = [] := by
    intro β f l h
    exact List.flatMap_eq_nil_iff.mpr fun op hop => h op (List.mem_reverse.mp hop)
  rw [Ledger.Reverts, ← ledger_applyCommit]
  refine Ledger.ext ?_ ?_
  · simp only [Ledger.revert, ledger, applyCommit, journal, List.reverse_append,
      List.flatMap_append, hnil _ _ (contractUndo_insertUpserts _ _),
      hnil _ _ (contractUndo_removeDeletes _ _), List.append_nil]
    exact revert_insertDeploys s.contracts c.deploys
  · simp only [Ledger.revert, ledger, applyCommit, journal, List.reverse_append,
      List.flatMap_append, hnil _ _ hdeploys, List.nil_append, applyAll_append]
    rw [revert_removeDeletes, revert_insertUpserts]

end MemoryState

end Zalkanes
