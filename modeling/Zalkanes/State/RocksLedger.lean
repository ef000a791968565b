import Zalkanes.State.Rocks

/-!
# The Ledger of a RocksDB Store

What the readers of `RocksState` see in an arbitrary database, what a commit does to it, and
that the journal of a commit reverts it. Nothing here assumes that the backend wrote the
database.

## Main results

* `RocksState.getElem?_ledger_contracts`, `RocksState.getElem?_ledger_storage`: the ledger of a
  database is what its lookups return.
* `RocksState.ledger_write_commit`: a commit acts on the ledger by `Ledger.apply`.
* `RocksState.reverts_journal`: the journal of a commit reverts it.
-/

namespace Zalkanes

open Lib

namespace BlockCommit

/-- The upserts of a commit, as writes to the storage map. -/
def upsertWrites (c : BlockCommit) : List (Write (ContractId × Bytes) Bytes) :=
  c.upserts.map fun (id, key, value) => .put (id, key) value

/-- The deletes of a commit, as writes to the storage map. -/
def deleteWrites (c : BlockCommit) : List (Write (ContractId × Bytes) Bytes) :=
  c.deletes.map fun (id, key) => .del (id, key)

/-- Sets go before deletes. -/
theorem storageWrites_eq (c : BlockCommit) :
    c.storageWrites = c.upsertWrites ++ c.deleteWrites := rfl

end BlockCommit

namespace RocksState

/-- The contracts and the storage of the store. -/
def ledger (s : RocksState) : Ledger := s.view.ledger

/-! ### What the loops keep -/

/-- An entry that is read as a contract is one. -/
theorem visitContract_eq_some {k v : Bytes} {id : ContractId} {contract : CodeHash × Bytes} :
    visitContract (k, v) = some (id, contract) ↔
      k = contractDbKey id ∧ v = contractValue contract := by
  obtain ⟨codeHash, wasm⟩ := contract
  rw [contractValue, ← readBytes32_eq_some, contractDbKey]
  cases k with
  | nil => simp [visitContract]
  | cons tag rest =>
      rw [visitContract, List.cons.injEq]
      split
      · rename_i htag
        simp only [Option.bind_eq_bind, Option.bind_eq_some_iff, Bytes32.ofBytes?_eq_some,
          Prod.exists, Option.pure_def, Option.some.injEq, Prod.mk.injEq, htag, true_and]
        constructor
        · rintro ⟨a, rfl, ch, wasm', hv, rfl, rfl, rfl⟩
          exact ⟨rfl, hv⟩
        · rintro ⟨rfl, hv⟩
          exact ⟨id, rfl, codeHash, wasm, hv, rfl, rfl, rfl⟩
      · rename_i htag
        simp [htag]

/-- An entry that is read as storage is storage. -/
theorem visitStorage_eq_some {k v : Bytes} {id : ContractId} {key value : Bytes} :
    visitStorage (k, v) = some (id, key, value) ↔ k = storageDbKey id key ∧ v = value := by
  cases k with
  | nil => simp [visitStorage, storageDbKey]
  | cons tag rest =>
      rw [visitStorage, storageDbKey, List.cons.injEq]
      split
      · rename_i htag
        simp only [Option.map_eq_some_iff, Prod.exists, Prod.mk.injEq, htag, true_and]
        constructor
        · rintro ⟨a, key', hread, rfl, rfl, rfl⟩
          exact ⟨readBytes32_eq_some.mp hread, rfl⟩
        · rintro ⟨hrest, rfl⟩
          exact ⟨id, key, readBytes32_eq_some.mpr hrest, rfl, rfl, rfl⟩
      · rename_i htag
        simp [htag]

/-- An entry that is read as a record is one. -/
theorem visitHeight_eq_some {k v : Bytes} {r : HeightRecord} :
    visitHeight (k, v) = some r ↔ k = heightDbKey r.height ∧ v = recordValue r := by
  cases k with
  | nil => simp [visitHeight, heightDbKey]
  | cons tag rest =>
      rw [visitHeight, heightDbKey, List.cons.injEq]
      split
      · rename_i htag
        simp only [Option.bind_eq_bind, Option.bind_eq_some_iff, Prod.exists,
          readBytes32_eq_some, Bytes32.ofBytes?_eq_some, Option.pure_def, Option.some.injEq,
          htag.1, true_and]
        constructor
        · rintro ⟨hash, value, rfl, root, rfl, rfl⟩
          exact ⟨(be32_ofBe32 htag.2).symm, rfl⟩
        · rintro ⟨rfl, rfl⟩
          exact ⟨r.zcashBlockHash, r.stateRoot.bytes, rfl, r.stateRoot, rfl, by simp⟩
      · rename_i htag
        rw [not_and] at htag
        constructor
        · simp
        · rintro ⟨⟨rfl, rfl⟩, -⟩
          simp at htag

/-- A height and a value determine the record. -/
theorem eq_of_recordValue {r r' : HeightRecord} (hheight : r.height = r'.height)
    (hvalue : recordValue r = recordValue r') : r = r' := by
  have h : visitHeight (heightDbKey r.height, recordValue r) = some r :=
    visitHeight_eq_some.mpr ⟨rfl, rfl⟩
  rw [hheight, hvalue, visitHeight_eq_some.mpr ⟨rfl, rfl⟩] at h
  exact (Option.some.inj h).symm

/-- The scan lists the contracts that are there. -/
theorem mem_view_contracts {s : RocksState} {id : ContractId} {contract : CodeHash × Bytes} :
    (id, contract) ∈ s.view.contracts ↔ s.getContract id = some contract := by
  rw [view, OrdMap.mem_scanFrom, getContract, Option.bind_eq_some_iff]
  · simp only [visitContract_eq_some]
    constructor
    · rintro ⟨k, v, hkv, rfl, rfl⟩
      exact ⟨_, hkv, readBytes32_append _ _⟩
    · rintro ⟨v, hv, hread⟩
      exact ⟨_, v, hv, rfl, readBytes32_eq_some.mp hread⟩
  · rintro ⟨k, v⟩ ⟨id, contract⟩ h
    obtain ⟨rfl, -⟩ := visitContract_eq_some.mp h
    exact isLE_compare_singleton _ _

/-- The scan lists the storage that is there. -/
theorem mem_view_storage {s : RocksState} {id : ContractId} {key value : Bytes} :
    (id, key, value) ∈ s.view.storage ↔ s.storageGet id key = some value := by
  rw [view, OrdMap.mem_scanFrom, storageGet]
  · simp only [visitStorage_eq_some]
    constructor
    · rintro ⟨k, v, hkv, rfl, rfl⟩
      exact hkv
    · intro h
      exact ⟨_, value, h, rfl, rfl⟩
  · rintro ⟨k, v⟩ ⟨id, key, value⟩ h
    obtain ⟨rfl, -⟩ := visitStorage_eq_some.mp h
    exact isLE_compare_singleton _ _

/-- The scan lists the records that are there. -/
theorem mem_heightHistory {s : RocksState} {r : HeightRecord} :
    r ∈ s.heightHistory ↔ s.get (.height r.height) = some (recordValue r) := by
  rw [heightHistory, OrdMap.mem_scanFrom]
  · simp only [visitHeight_eq_some]
    constructor
    · rintro ⟨k, v, hkv, rfl, rfl⟩
      exact hkv
    · intro h
      exact ⟨_, _, h, rfl, rfl⟩
  · rintro ⟨k, v⟩ r h
    obtain ⟨rfl, -⟩ := visitHeight_eq_some.mp h
    exact isLE_compare_singleton _ _

/-! ### The order of the loops -/

/-- The iterators of every database visit distinct entries in key order. -/
theorem view_sorted (s : RocksState) : s.view.Sorted where
  contracts := by
    refine OrdMap.pairwise_scanFrom ?_
    rintro ⟨k, v⟩ ⟨k', v'⟩ ⟨id, c⟩ ⟨id', c'⟩ h h' hlt
    obtain ⟨rfl, -⟩ := visitContract_eq_some.mp h
    obtain ⟨rfl, -⟩ := visitContract_eq_some.mp h'
    simpa [contractDbKey, List.compare_cons_cons, Bytes32.compare_eq] using hlt
  storage := by
    refine OrdMap.pairwise_scanFrom ?_
    rintro ⟨k, v⟩ ⟨k', v'⟩ ⟨id, key, value⟩ ⟨id', key', value'⟩ h h' hlt
    obtain ⟨rfl, -⟩ := visitStorage_eq_some.mp h
    obtain ⟨rfl, -⟩ := visitStorage_eq_some.mp h'
    rw [storageDbKey, storageDbKey, List.compare_cons_cons, Std.ReflOrd.compare_self,
      Ordering.eq_then, compare_append (by simp)] at hlt
    exact hlt

/-- The history of every database is in height order. -/
theorem heightHistory_pairwise (s : RocksState) :
    s.heightHistory.Pairwise fun r r' => compare r.height r'.height = .lt := by
  refine OrdMap.pairwise_scanFrom ?_
  rintro ⟨k, v⟩ ⟨k', v'⟩ r r' h h' hlt
  obtain ⟨rfl, -⟩ := visitHeight_eq_some.mp h
  obtain ⟨rfl, -⟩ := visitHeight_eq_some.mp h'
  rw [heightDbKey, heightDbKey, List.compare_cons_cons, Std.ReflOrd.compare_self,
    Ordering.eq_then, compare_be32] at hlt
  rw [Std.compare_eq_lt, UInt32.lt_iff_toNat_lt]
  exact Std.compare_eq_lt.mp hlt

/-! ### The ledger -/

/-- The ledger has the contracts of the database. -/
theorem getElem?_ledger_contracts (s : RocksState) (id : ContractId) :
    s.ledger.contracts[id]? = s.getContract id := by
  refine Option.ext fun contract => ?_
  rw [← Std.ExtTreeMap.mem_toList_iff_getElem?_eq_some, ledger, s.view_sorted.toList_contracts,
    mem_view_contracts]

/-- The ledger has the storage of the database. -/
theorem getElem?_ledger_storage (s : RocksState) (id : ContractId) (key : Bytes) :
    s.ledger.storage[(id, key)]? = s.storageGet id key := by
  refine Option.ext fun value => ?_
  rw [← Std.ExtTreeMap.mem_toList_iff_getElem?_eq_some, ledger, s.view_sorted.toList_storage,
    ← mem_view_storage]
  simp

/-! ### What a commit does -/

/-- The last value a commit upserts at a key, as the log of its upserts says. -/
theorem getElem?_upserted (c : BlockCommit) (k : ContractId × Bytes) :
    (upserted c)[k]? = (lastWrite c.upsertWrites k).join := by
  have hfold : upserted c = applyAll ∅ c.upsertWrites := by
    simp [upserted, BlockCommit.upsertWrites, applyAll, List.foldl_map, applyWrite]
  rw [hfold, getElem?_applyAll]
  cases lastWrite c.upsertWrites k <;> simp

/-- The data batch does not address the bookkeeping keys, and the record batch addresses only
those. -/
theorem lastWrite_recordBatch_contract (c : BlockCommit) (undo : List UndoOp) (root : StateRoot)
    (id : ContractId) : lastWrite (recordBatch c undo root) (.contract id) = none := rfl

/-- The records of a block are not storage. -/
theorem lastWrite_recordBatch_storage (c : BlockCommit) (undo : List UndoOp) (root : StateRoot)
    (id : ContractId) (key : Bytes) :
    lastWrite (recordBatch c undo root) (.storage id key) = none := rfl

/-- The key of a storage slot in the database. -/
def slotKey (k : ContractId × Bytes) : DbKey := .storage k.1 k.2

/-- Different slots have different keys. -/
theorem slotKey_injective : Function.Injective slotKey := fun _ _ h =>
  Prod.ext (DbKey.storage.inj h).1 (DbKey.storage.inj h).2

/-- The deletes of the data batch: those that remove something. -/
def deleteBatch (s : RocksState) (c : BlockCommit) : WriteBatch :=
  c.deletes.filterMap fun (cid, key) =>
    (s.effective c cid key).map fun _ => .del (.storage cid key)

/-- The data batch is the writes of the commit under their keys in the database, less the deletes
that remove nothing. -/
theorem dataBatch_eq (s : RocksState) (c : BlockCommit) :
    s.dataBatch c = c.contractWrites.map (Write.map DbKey.contract contractValue) ++
      c.upsertWrites.map (Write.map slotKey fun value => value) ++ s.deleteBatch c := by
  rw [BlockCommit.contractWrites, BlockCommit.upsertWrites, List.map_map, List.map_map]
  rfl

/-- A delete is written if there is something to delete. -/
theorem mem_deleteBatch {s : RocksState} {c : BlockCommit} {w : Write DbKey Bytes} :
    w ∈ s.deleteBatch c ↔
      ∃ k ∈ c.deletes, (s.effective c k.1 k.2).isSome ∧ w = .del (slotKey k) := by
  rw [deleteBatch, List.mem_filterMap]
  refine exists_congr fun k => and_congr_right fun _ => ?_
  rw [Option.map_eq_some_iff, exists_and_right, Option.isSome_iff_exists, eq_comm, slotKey]

/-- What the data batch leaves under a contract's key. -/
theorem lastWrite_dataBatch_contract (s : RocksState) (c : BlockCommit) (id : ContractId) :
    lastWrite (s.dataBatch c) (.contract id) =
      (lastWrite c.contractWrites id).map (Option.map contractValue) := by
  have hupserts : lastWrite (c.upsertWrites.map (Write.map slotKey fun value => value))
      (.contract id) = none := by
    refine lastWrite_eq_none_iff.mpr fun w hw => ?_
    obtain ⟨v, -, rfl⟩ := List.mem_map.mp hw
    simp [slotKey]
  have hdeletes : lastWrite (s.deleteBatch c) (.contract id) = none := by
    refine lastWrite_eq_none_iff.mpr fun w hw => ?_
    obtain ⟨k, -, -, rfl⟩ := mem_deleteBatch.mp hw
    simp [slotKey]
  rw [dataBatch_eq, lastWrite_append, lastWrite_append, hdeletes, hupserts, Option.none_or,
    Option.none_or, lastWrite_map fun a b h => DbKey.contract.inj h]

/-- The deletes that remove something. -/
theorem lastWrite_deleteBatch (s : RocksState) (c : BlockCommit) (k : ContractId × Bytes) :
    lastWrite (s.deleteBatch c) (slotKey k) =
      if k ∈ c.deletes ∧ (s.effective c k.1 k.2).isSome then some none else none := by
  split
  · rename_i h
    refine lastWrite_of_forall ⟨.del (slotKey k), mem_deleteBatch.mpr ⟨k, h.1, h.2, rfl⟩, rfl⟩ ?_
    intro w hw _
    obtain ⟨k', -, -, rfl⟩ := mem_deleteBatch.mp hw
    rfl
  · rename_i h
    refine lastWrite_eq_none_iff.mpr fun w hw hk => h ?_
    obtain ⟨k', hmem, hsome, rfl⟩ := mem_deleteBatch.mp hw
    obtain rfl := slotKey_injective hk
    exact ⟨hmem, hsome⟩

/-- Only deleted keys are. -/
theorem lastWrite_deleteWrites (c : BlockCommit) (k : ContractId × Bytes) :
    lastWrite c.deleteWrites k = if k ∈ c.deletes then some none else none := by
  split
  · rename_i h
    refine lastWrite_of_forall ⟨.del k, List.mem_map.mpr ⟨k, h, rfl⟩, rfl⟩ ?_
    intro w hw _
    obtain ⟨k', -, rfl⟩ := List.mem_map.mp hw
    rfl
  · rename_i h
    refine lastWrite_eq_none_iff.mpr fun w hw hk => h ?_
    obtain ⟨k', hmem, rfl⟩ := List.mem_map.mp hw
    exact (show k' = k from hk) ▸ hmem

/-- What the data batch leaves under a storage key is what the commit leaves there: a delete that
is left out of the batch would have removed nothing. -/
theorem getD_lastWrite_dataBatch_storage (s : RocksState) (c : BlockCommit)
    (k : ContractId × Bytes) :
    (lastWrite (s.dataBatch c) (slotKey k)).getD (s.storageGet k.1 k.2) =
      (lastWrite c.storageWrites k).getD (s.storageGet k.1 k.2) := by
  have hdeploys : lastWrite (c.contractWrites.map (Write.map DbKey.contract contractValue))
      (slotKey k) = none := by
    refine lastWrite_eq_none_iff.mpr fun w hw => ?_
    obtain ⟨v, -, rfl⟩ := List.mem_map.mp hw
    simp [slotKey]
  rw [dataBatch_eq, lastWrite_append, lastWrite_append, lastWrite_deleteBatch, hdeploys,
    lastWrite_map slotKey_injective, Option.or_none, BlockCommit.storageWrites_eq,
    lastWrite_append, lastWrite_deleteWrites]
  by_cases hmem : k ∈ c.deletes
  · rw [if_pos hmem]
    by_cases heff : (s.effective c k.1 k.2).isSome
    · rw [if_pos ⟨hmem, heff⟩]
      rfl
    · rw [if_neg fun h => heff h.2]
      -- nothing upserted and nothing stored
      have hnone : s.effective c k.1 k.2 = none := by simpa using heff
      rw [effective, Option.or_eq_none_iff, getElem?_upserted] at hnone
      cases hlast : lastWrite c.upsertWrites k with
      | none => simp [hnone.2]
      | some r => simp_all
  · rw [if_neg hmem, if_neg fun h => hmem h.1]
    cases lastWrite c.upsertWrites k <;> simp

/-- A contract after a commit. -/
theorem getContract_write_commit (s : RocksState) (c : BlockCommit) (undo : List UndoOp)
    (root : StateRoot) (id : ContractId) :
    (s.write (s.dataBatch c ++ recordBatch c undo root)).getContract id =
      (lastWrite c.contractWrites id).getD (s.getContract id) := by
  rw [getContract, get_write, lastWrite_append, lastWrite_recordBatch_contract, Option.none_or,
    lastWrite_dataBatch_contract]
  rcases lastWrite c.contractWrites id with _ | _ | contract
  · rfl
  · rfl
  · simp [contractValue]

/-- A storage entry after a commit. -/
theorem storageGet_write_commit (s : RocksState) (c : BlockCommit) (undo : List UndoOp)
    (root : StateRoot) (k : ContractId × Bytes) :
    (s.write (s.dataBatch c ++ recordBatch c undo root)).storageGet k.1 k.2 =
      (lastWrite c.storageWrites k).getD (s.storageGet k.1 k.2) := by
  rw [storageGet, get_write, lastWrite_append, lastWrite_recordBatch_storage, Option.none_or]
  exact getD_lastWrite_dataBatch_storage s c k

/-- **A commit acts on the ledger** of any database as the projected root assumes. -/
theorem ledger_write_commit (s : RocksState) (c : BlockCommit) (undo : List UndoOp)
    (root : StateRoot) :
    (s.write (s.dataBatch c ++ recordBatch c undo root)).ledger = s.ledger.apply c := by
  refine Ledger.ext ?_ ?_
  · refine Std.ExtTreeMap.ext_getElem? fun id => ?_
    rw [Ledger.getElem?_contracts_apply, getElem?_ledger_contracts, getElem?_ledger_contracts,
      getContract_write_commit]
  · refine Std.ExtTreeMap.ext_getElem? fun k => ?_
    obtain ⟨id, key⟩ := k
    rw [Ledger.getElem?_storage_apply, getElem?_ledger_storage, getElem?_ledger_storage]
    exact storageGet_write_commit s c undo root (id, key)

/-! ### What a journal restores -/

/-- Each deploy is undone by what was there. -/
theorem mem_deployOps {s : RocksState} {c : BlockCommit} {op : UndoOp} :
    op ∈ s.deployOps c ↔ ∃ d ∈ c.deploys, op = .deploy d.1 (s.getContract d.1) := by
  simp [deployOps, eq_comm]

/-- Each set is undone by what was there. -/
theorem mem_setOps {s : RocksState} {c : BlockCommit} {op : UndoOp} :
    op ∈ s.setOps c ↔ ∃ u ∈ c.upserts, op = .set u.1 u.2.1 (s.storageGet u.1 u.2.1) := by
  simp [setOps, eq_comm]

/-- Each delete is undone by what was there, if anything was. -/
theorem mem_deleteOps {s : RocksState} {c : BlockCommit} {op : UndoOp} :
    op ∈ s.deleteOps c ↔ ∃ d ∈ c.deletes, ∃ prev, s.effective c d.1 d.2 = some prev ∧
      op = .delete d.1 d.2 prev := by
  simp [deleteOps, eq_comm]

/-- Undoing the journal writes to the contract map what its deploy entries restore. -/
theorem contractUndo_journal (s : RocksState) (c : BlockCommit) :
    (s.journal c).reverse.flatMap UndoOp.contractUndo =
      (s.deployOps c).reverse.flatMap UndoOp.contractUndo := by
  have hsets : (s.setOps c).reverse.flatMap UndoOp.contractUndo = [] := by
    refine List.flatMap_eq_nil_iff.mpr fun op hop => ?_
    obtain ⟨u, -, rfl⟩ := mem_setOps.mp (List.mem_reverse.mp hop)
    rfl
  have hdeletes : (s.deleteOps c).reverse.flatMap UndoOp.contractUndo = [] := by
    refine List.flatMap_eq_nil_iff.mpr fun op hop => ?_
    obtain ⟨d, -, prev, -, rfl⟩ := mem_deleteOps.mp (List.mem_reverse.mp hop)
    rfl
  rw [journal, List.reverse_append, List.reverse_append, List.flatMap_append,
    List.flatMap_append, hdeletes, hsets, List.nil_append, List.nil_append]

/-- Undoing the journal writes to the storage what its delete entries restore, and then what its
upsert entries restore. -/
theorem storageUndo_journal (s : RocksState) (c : BlockCommit) :
    (s.journal c).reverse.flatMap UndoOp.storageUndo =
      (s.deleteOps c).reverse.flatMap UndoOp.storageUndo ++
        (s.setOps c).reverse.flatMap UndoOp.storageUndo := by
  have hdeploys : (s.deployOps c).reverse.flatMap UndoOp.storageUndo = [] := by
    refine List.flatMap_eq_nil_iff.mpr fun op hop => ?_
    obtain ⟨d, -, rfl⟩ := mem_deployOps.mp (List.mem_reverse.mp hop)
    rfl
  rw [journal, List.reverse_append, List.reverse_append, List.flatMap_append,
    List.flatMap_append, hdeploys, List.append_nil]

/-- The deploy entries restore the contracts before the commit, at the ids it deploys. -/
theorem revert_contracts (s : RocksState) (c : BlockCommit) :
    applyAll (applyAll s.ledger.contracts c.contractWrites)
      ((s.deployOps c).reverse.flatMap UndoOp.contractUndo) = s.ledger.contracts := by
  refine applyAll_undo ?_ ?_
  · intro id r hr
    obtain ⟨w, hw, rfl, rfl⟩ := exists_mem_of_lastWrite hr
    obtain ⟨op, hop, hw⟩ := List.mem_flatMap.mp hw
    obtain ⟨d, -, rfl⟩ := mem_deployOps.mp (List.mem_reverse.mp hop)
    obtain rfl := List.mem_singleton.mp hw
    rw [Write.value?_restore, Write.key_restore, getElem?_ledger_contracts]
  · intro id hnone
    rw [lastWrite_eq_none_iff.mpr, Option.getD_none]
    intro w hw hk
    obtain ⟨d, hd, rfl⟩ := List.mem_map.mp hw
    refine lastWrite_eq_none_iff.mp hnone (.restore d.1 (s.getContract d.1)) ?_ (by simpa using hk)
    exact List.mem_flatMap.mpr
      ⟨_, List.mem_reverse.mpr (mem_deployOps.mpr ⟨d, hd, rfl⟩), List.mem_singleton_self _⟩

/-- What undoing the upsert entries leaves at a key: the value before the commit, when the commit
upserts the key. -/
theorem lastWrite_setOps (s : RocksState) (c : BlockCommit) (k : ContractId × Bytes) :
    lastWrite ((s.setOps c).reverse.flatMap UndoOp.storageUndo) k =
      if ∃ u ∈ c.upserts, (u.1, u.2.1) = k then some (s.storageGet k.1 k.2) else none := by
  split
  · rename_i h
    obtain ⟨u, hu, rfl⟩ := h
    refine lastWrite_of_forall ⟨.restore (u.1, u.2.1) (s.storageGet u.1 u.2.1), ?_, by simp⟩ ?_
    · exact List.mem_flatMap.mpr
        ⟨_, List.mem_reverse.mpr (mem_setOps.mpr ⟨u, hu, rfl⟩), List.mem_singleton_self _⟩
    · intro w hw hk
      obtain ⟨op, hop, hw⟩ := List.mem_flatMap.mp hw
      obtain ⟨u', -, rfl⟩ := mem_setOps.mp (List.mem_reverse.mp hop)
      obtain rfl := List.mem_singleton.mp hw
      obtain ⟨h1, h2⟩ := Prod.mk.inj (by simpa using hk)
      rw [Write.value?_restore, h1, h2]
  · rename_i h
    refine lastWrite_eq_none_iff.mpr fun w hw hk => h ?_
    obtain ⟨op, hop, hw⟩ := List.mem_flatMap.mp hw
    obtain ⟨u, hu, rfl⟩ := mem_setOps.mp (List.mem_reverse.mp hop)
    obtain rfl := List.mem_singleton.mp hw
    exact ⟨u, hu, by simpa using hk⟩

/-- A key that the commit does not upsert has no upserted value. -/
theorem upserted_eq_none {c : BlockCommit} {k : ContractId × Bytes}
    (h : ¬ ∃ u ∈ c.upserts, (u.1, u.2.1) = k) : (upserted c)[k]? = none := by
  rw [getElem?_upserted, lastWrite_eq_none_iff.mpr]
  · rfl
  · intro w hw hk
    obtain ⟨u, hu, rfl⟩ := List.mem_map.mp hw
    exact h ⟨u, hu, hk⟩

/-- The entries for storage restore it. A key that is upserted and deleted in one commit has an
upsert entry with its old value, and that entry comes first in the journal, so it is undone
last. -/
theorem revert_storage (s : RocksState) (c : BlockCommit) :
    applyAll (applyAll s.ledger.storage c.storageWrites)
      ((s.deleteOps c).reverse.flatMap UndoOp.storageUndo ++
        (s.setOps c).reverse.flatMap UndoOp.storageUndo) = s.ledger.storage := by
  refine applyAll_undo ?_ ?_
  · rintro ⟨cid, key⟩ r hr
    rw [lastWrite_append, lastWrite_setOps] at hr
    rw [getElem?_ledger_storage]
    split at hr
    · exact (Option.some.inj hr).symm
    · rename_i hset
      rw [Option.none_or] at hr
      obtain ⟨w, hw, hk, rfl⟩ := exists_mem_of_lastWrite hr
      obtain ⟨op, hop, hw⟩ := List.mem_flatMap.mp hw
      obtain ⟨d, -, prev, hprev, rfl⟩ := mem_deleteOps.mp (List.mem_reverse.mp hop)
      obtain rfl := List.mem_singleton.mp hw
      obtain ⟨rfl, rfl⟩ := Prod.mk.inj (show (d.1, d.2) = (cid, key) from hk)
      rw [effective, upserted_eq_none hset, Option.none_or] at hprev
      rw [hprev, Write.value?_put]
  · rintro ⟨cid, key⟩ hnone
    rw [lastWrite_append, Option.or_eq_none_iff, lastWrite_setOps] at hnone
    obtain ⟨hset, hdel⟩ := hnone
    have hset' : ¬ ∃ u ∈ c.upserts, (u.1, u.2.1) = (cid, key) := by
      intro h
      rw [if_pos h] at hset
      simp at hset
    have hups : lastWrite c.upsertWrites (cid, key) = none := by
      refine lastWrite_eq_none_iff.mpr fun w hw hk => hset' ?_
      obtain ⟨u, hu, rfl⟩ := List.mem_map.mp hw
      exact ⟨u, hu, hk⟩
    rw [BlockCommit.storageWrites_eq, lastWrite_append, hups, Option.or_none,
      getElem?_ledger_storage]
    cases hlast : lastWrite c.deleteWrites (cid, key) with
    | none => rfl
    | some r =>
        obtain ⟨w, hw, hk, rfl⟩ := exists_mem_of_lastWrite hlast
        obtain ⟨d, hd, rfl⟩ := List.mem_map.mp hw
        obtain ⟨rfl, rfl⟩ := Prod.mk.inj (show (d.1, d.2) = (cid, key) from hk)
        rw [Option.getD_some, Write.value?_del]
        -- the delete was not journaled, so there was nothing to remove
        cases hget : s.storageGet d.1 d.2 with
        | none => rfl
        | some prev =>
            refine absurd rfl (lastWrite_eq_none_iff.mp hdel (.put (d.1, d.2) prev) ?_)
            refine List.mem_flatMap.mpr ⟨.delete d.1 d.2 prev, List.mem_reverse.mpr ?_,
              List.mem_singleton_self _⟩
            exact mem_deleteOps.mpr
              ⟨d, hd, prev, by rw [effective, upserted_eq_none hset', Option.none_or, hget], rfl⟩

/-- **The journal of a commit reverts it**, in any database. -/
theorem reverts_journal (s : RocksState) (c : BlockCommit) :
    s.ledger.Reverts c (s.journal c) := by
  refine Ledger.ext ?_ ?_
  · rw [Ledger.revert, contractUndo_journal]
    exact revert_contracts s c
  · rw [Ledger.revert, storageUndo_journal]
    exact revert_storage s c

end RocksState

end Zalkanes
