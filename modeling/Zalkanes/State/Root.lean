import Zalkanes.State.Store

/-!
# The State Root

Leaves, the root over them, and the root a store would have after a commit (`projectedRoot`).
The root depends on the store only through its two maps, so we also give those maps on their own
(`Ledger`), with the effect of a commit on them (`Ledger.apply`).

## Main results

* `projectedRoot_eq`: the projected root of a commit is the root of the ledger after it.
* `Ledger.getElem?_contracts_apply`, `Ledger.getElem?_storage_apply`: what a commit leaves at a
  key.
-/

namespace Zalkanes

open Lib

/-! ### Leaves and roots -/

/-- The bytes a contract's leaf is the hash of. -/
def contractPreimage (contractId : ContractId) (codeHash : CodeHash) (wasm : Bytes) : Bytes :=
  contractId.bytes ++ codeHash.bytes ++ be32 (UInt32.ofNat wasm.length) ++ wasm

/-- The bytes a storage entry's leaf is the hash of. -/
def storagePreimage (contractId : ContractId) (key value : Bytes) : Bytes :=
  contractId.bytes ++ be16 (UInt16.ofNat key.length) ++ key ++
    be32 (UInt32.ofNat value.length) ++ value

section Roots

variable (H : Hashing)

/-- The leaf of a contract. -/
def contractLeaf (contractId : ContractId) (codeHash : CodeHash) (wasm : Bytes) : Bytes32 :=
  H.blake2b stateLeafPersonalization (contractPreimage contractId codeHash wasm)

/-- The leaf of a storage entry. -/
def storageLeaf (contractId : ContractId) (key value : Bytes) : Bytes32 :=
  H.blake2b stateLeafPersonalization (storagePreimage contractId key value)

/-- Lexicographic order on leaves. -/
def leafLE (a b : Bytes32) : Prop := (compare a b).isLE

instance : DecidableRel leafLE := fun a b => inferInstanceAs (Decidable ((compare a b).isLE))

/-- The bytes the root is the hash of: the leaves in ascending order, concatenated. -/
def rootPreimage (leaves : List Bytes32) : Bytes :=
  (leaves.insertionSort leafLE).flatMap Bytes32.bytes

/-- The root of sorted leaves. -/
def rootFromLeaves (leaves : List Bytes32) : StateRoot :=
  H.blake2b stateRootPersonalization (rootPreimage leaves)

/-- The leaf of every visited contract, then of every visited storage entry. -/
def collectLeaves (store : StateView) : List Bytes32 :=
  store.contracts.map (fun (id, codeHash, wasm) => contractLeaf H id codeHash wasm) ++
    store.storage.map fun (id, key, value) => storageLeaf H id key value

/-- The root of a store, recomputed from its entries. -/
def computeRoot (store : StateView) : StateRoot :=
  rootFromLeaves H (collectLeaves H store)

/-- The root the store would have after `commit`, computed without changing the store: rebuild
both maps, apply the deploys, the upserts and the deletes, and hash the result. -/
def projectedRoot (store : StateView) (commit : BlockCommit) : StateRoot :=
  let contractWasm := store.contracts.foldl
    (fun m (id, codeHash, wasm) => m.insert id (codeHash, wasm))
    (∅ : OrdMap ContractId (CodeHash × Bytes))
  let storageMap := store.storage.foldl
    (fun m (id, key, value) => m.insert (id, key) value) (∅ : OrdMap (ContractId × Bytes) Bytes)
  let contractWasm := commit.deploys.foldl
    (fun m (id, codeHash, wasm) => m.insert id (codeHash, wasm)) contractWasm
  let storageMap := commit.upserts.foldl
    (fun m (id, key, value) => m.insert (id, key) value) storageMap
  let storageMap := commit.deletes.foldl (fun m (id, key) => m.erase (id, key)) storageMap
  rootFromLeaves H
    (contractWasm.toList.map (fun (id, codeHash, wasm) => contractLeaf H id codeHash wasm) ++
      storageMap.toList.map fun ((id, key), value) => storageLeaf H id key value)

end Roots

/-! ### Ledgers -/

/-- The part of a store that its root commits to. -/
@[ext] structure Ledger where
  contracts : OrdMap ContractId (CodeHash × Bytes)
  storage : OrdMap (ContractId × Bytes) Bytes
  deriving DecidableEq

namespace BlockCommit

/-- The writes of a commit to the contract map. -/
def contractWrites (c : BlockCommit) : List (Write ContractId (CodeHash × Bytes)) :=
  c.deploys.map fun (id, codeHash, wasm) => .put id (codeHash, wasm)

/-- The writes of a commit to the storage map: all upserts, then all deletes. -/
def storageWrites (c : BlockCommit) : List (Write (ContractId × Bytes) Bytes) :=
  c.upserts.map (fun (id, key, value) => .put (id, key) value) ++
    c.deletes.map fun (id, key) => .del (id, key)

/-- An empty commit deploys nothing. -/
@[simp] theorem contractWrites_empty (h : BlockHeight) (b : BlockHash) :
    (empty h b).contractWrites = [] := rfl

/-- An empty commit stores nothing. -/
@[simp] theorem storageWrites_empty (h : BlockHeight) (b : BlockHash) :
    (empty h b).storageWrites = [] := rfl

end BlockCommit

namespace Ledger

/-- The ledger without contracts and storage. -/
def empty : Ledger := ⟨∅, ∅⟩

/-- The effect of a commit on the two maps. -/
def apply (l : Ledger) (c : BlockCommit) : Ledger :=
  ⟨applyAll l.contracts c.contractWrites, applyAll l.storage c.storageWrites⟩

/-- The read half of a store that holds exactly this ledger. -/
def view (l : Ledger) : StateView where
  hasContract id := l.contracts.contains id
  getContract id := l.contracts[id]?
  storageGet id key := l.storage[(id, key)]?
  contracts := l.contracts.toList
  storage := l.storage.toList.map fun ((id, key), value) => (id, key, value)

/-- The root of a ledger. -/
def root (H : Hashing) (l : Ledger) : StateRoot := computeRoot H l.view

/-- An empty commit changes nothing. -/
@[simp] theorem apply_empty (l : Ledger) (h : BlockHeight) (b : BlockHash) :
    l.apply (BlockCommit.empty h b) = l := rfl

/-- A contract after a commit. -/
theorem getElem?_contracts_apply (l : Ledger) (c : BlockCommit) (id : ContractId) :
    (l.apply c).contracts[id]? = (lastWrite c.contractWrites id).getD l.contracts[id]? :=
  getElem?_applyAll _ _ _

/-- A storage entry after a commit. -/
theorem getElem?_storage_apply (l : Ledger) (c : BlockCommit) (k : ContractId × Bytes) :
    (l.apply c).storage[k]? = (lastWrite c.storageWrites k).getD l.storage[k]? :=
  getElem?_applyAll _ _ _

/-- A contract of a ledger after a commit is one before it, or deployed by the commit. -/
theorem mem_contracts_apply {l : Ledger} {c : BlockCommit} {id : ContractId}
    {contract : CodeHash × Bytes} (h : (l.apply c).contracts[id]? = some contract) :
    l.contracts[id]? = some contract ∨ (id, contract) ∈ c.deploys := by
  rw [getElem?_contracts_apply] at h
  cases hlast : lastWrite c.contractWrites id with
  | none =>
      rw [hlast] at h
      exact Or.inl h
  | some r =>
      rw [hlast] at h
      obtain ⟨w, hw, hkey, hr⟩ := exists_mem_of_lastWrite hlast
      obtain ⟨⟨id', contract'⟩, hd, rfl⟩ := List.mem_map.mp hw
      obtain rfl : contract' = contract := Option.some.inj (hr.trans h)
      obtain rfl : id' = id := hkey
      exact Or.inr hd

/-- A storage entry of a ledger after a commit is one before it, or put by the commit. -/
theorem mem_storage_apply {l : Ledger} {c : BlockCommit} {k : ContractId × Bytes} {value : Bytes}
    (h : (l.apply c).storage[k]? = some value) :
    l.storage[k]? = some value ∨ (k.1, k.2, value) ∈ c.upserts := by
  rw [getElem?_storage_apply] at h
  cases hlast : lastWrite c.storageWrites k with
  | none =>
      rw [hlast] at h
      exact Or.inl h
  | some r =>
      rw [hlast] at h
      obtain ⟨w, hw, hkey, hr⟩ := exists_mem_of_lastWrite hlast
      rcases List.mem_append.mp hw with hw | hw
      · obtain ⟨⟨id, key, value'⟩, hu, rfl⟩ := List.mem_map.mp hw
        obtain rfl : value' = value := Option.some.inj (hr.trans h)
        obtain rfl : (id, key) = k := hkey
        exact Or.inr hu
      · obtain ⟨d, -, rfl⟩ := List.mem_map.mp hw
        cases hr.trans h

end Ledger

/-- The maps that rebuilding a store from its visited entries gives. -/
def StateView.ledger (store : StateView) : Ledger where
  contracts := applyAll ∅ (store.contracts.map fun (id, codeHash, wasm) => .put id (codeHash, wasm))
  storage := applyAll ∅ (store.storage.map fun (id, key, value) => .put (id, key) value)

/-- The iterators of the store visit distinct entries in key order. -/
structure StateView.Sorted (store : StateView) : Prop where
  contracts : store.contracts.Pairwise fun a b => compare a.1 b.1 = .lt
  storage : store.storage.Pairwise fun a b => compare (a.1, a.2.1) (b.1, b.2.1) = .lt

/-- A sorted store lists the contracts of its ledger. -/
theorem StateView.Sorted.toList_contracts {store : StateView} (h : store.Sorted) :
    store.ledger.contracts.toList = store.contracts := by
  rw [StateView.ledger, OrdMap.toList_applyAll_puts h.contracts]
  exact List.map_id _

/-- A sorted store lists the storage of its ledger. -/
theorem StateView.Sorted.toList_storage {store : StateView} (h : store.Sorted) :
    store.ledger.storage.toList = store.storage.map fun (id, key, value) => ((id, key), value) :=
  OrdMap.toList_applyAll_puts h.storage

/-- The view of a ledger is sorted. -/
theorem Ledger.view_sorted (l : Ledger) : l.view.Sorted where
  contracts := Std.ExtTreeMap.ordered_keys_toList
  storage := List.pairwise_map.mpr Std.ExtTreeMap.ordered_keys_toList

/-- The root of a store whose iterators are in order is the root of its ledger. -/
theorem computeRoot_eq (H : Hashing) {store : StateView} (h : store.Sorted) :
    computeRoot H store = store.ledger.root H := by
  simp only [Ledger.root, computeRoot, collectLeaves, Ledger.view, h.toList_contracts,
    h.toList_storage, List.map_map, Function.comp_def]

/-- The ledger of the view of a ledger is the ledger. -/
@[simp] theorem Ledger.ledger_view (l : Ledger) : l.view.ledger = l := by
  refine Ledger.ext ?_ ?_
  · exact OrdMap.applyAll_puts_toList l.contracts
  · simp only [StateView.ledger, Ledger.view, List.map_map]
    exact OrdMap.applyAll_puts_toList l.storage

/-- **The projected root** of a commit is the root of the rebuilt ledger after the commit. -/
theorem projectedRoot_eq (H : Hashing) (store : StateView) (commit : BlockCommit) :
    projectedRoot H store commit = (store.ledger.apply commit).root H := by
  simp only [projectedRoot, Ledger.root, computeRoot, collectLeaves, Ledger.view, Ledger.apply,
    StateView.ledger, BlockCommit.contractWrites, BlockCommit.storageWrites, applyAll,
    List.foldl_map, List.foldl_append, applyWrite, List.map_map, Function.comp_def]

end Zalkanes
