import Zalkanes.Indexer.Deployed
import Zalkanes.Indexer.StorageBounds
import Zalkanes.Reference.Decode
import Zalkanes.State.Commitment

/-!
# State Roots by the Reference Implementation

The program derives contract ids, hashes leaves and sorts them. The node hashes the casts of
lengths where the program raises an error for a length that does not fit, so the two agree on a
store as long as its lengths fit, as those of every reachable store do.

## Main results

* `Reference.stateRoot_eq`: the root of leaves in any order.
* `Reference.roots_agree`: ids and roots in every run, on both backends.
-/

namespace Zalkanes

open Lib

namespace Reference

/-! ### Hashing -/

/-- `struct.pack` of one integer in `w` big-endian bytes. -/
def pack (w n : ℕ) : Except Raised Bytes :=
  if n < 256 ^ w then .ok (beBytes w n) else .error .struct

/-- The personalization of ids. -/
def contractIdPersonalization : Bytes := ascii "ZalkContractId0 "

/-- The personalization of leaves. -/
def stateLeafPersonalization : Bytes := ascii "ZalkStateLeaf0  "

/-- The personalization of roots. -/
def stateRootPersonalization : Bytes := ascii "ZalkStateRoot0  "

section Hashing

variable (H : Hashing)

/-- The id of a contract, from what deployed it. -/
def contractId (networkId : ℕ) (txid : Bytes) (outputIndex : ℕ) (codeHash : Bytes) :
    Except Raised Bytes :=
  if ¬ (txid.length = 32 ∧ codeHash.length = 32) then .error (.assertion "")
  else if networkId ≥ 256 then .error (.value "bytes must be in range(0, 256)")
  else do
    let index ← pack 2 outputIndex
    let input := [UInt8.ofNat networkId] ++ txid ++ index ++ codeHash
    return (H.blake2b contractIdPersonalization input).bytes

/-- The leaf of a contract. -/
def contractLeaf (contractId codeHash wasm : Bytes) : Except Raised Bytes := do
  let length ← pack 4 wasm.length
  let input := contractId ++ codeHash ++ length ++ wasm
  return (H.blake2b stateLeafPersonalization input).bytes

/-- The leaf of a storage entry. -/
def storageLeaf (contractId key value : Bytes) : Except Raised Bytes := do
  let keyLength ← pack 2 key.length
  let valueLength ← pack 4 value.length
  let input := contractId ++ keyLength ++ key ++ valueLength ++ value
  return (H.blake2b stateLeafPersonalization input).bytes

/-- The order of byte strings. -/
def bytesLE (a b : Bytes) : Prop := (compare a b).isLE

instance : DecidableRel bytesLE := fun a b => inferInstanceAs (Decidable ((compare a b).isLE))

/-- Hash of all leaves, sorted lexicographically by digest. -/
def stateRoot (contractLeaves storageLeaves : List Bytes) : Bytes :=
  let leaves := (contractLeaves ++ storageLeaves).insertionSort bytesLE
  (H.blake2b stateRootPersonalization leaves.flatten).bytes

/-- The leaves of the contracts and of the storage entries of a store. -/
def leaves (contracts : List (ContractId × CodeHash × Bytes))
    (storage : List (ContractId × Bytes × Bytes)) : Except Raised (List Bytes) := do
  let contractLeaves ← contracts.mapM fun e => contractLeaf H e.1.bytes e.2.1.bytes e.2.2
  let storageLeaves ← storage.mapM fun e => storageLeaf H e.1.bytes e.2.1 e.2.2
  return contractLeaves ++ storageLeaves

end Hashing

section Agreement

variable (H : Hashing)

instance : Std.Total bytesLE := ⟨fun a b => by
  rw [bytesLE, bytesLE, Std.OrientedOrd.eq_swap (a := b)]
  cases compare a b <;> simp⟩

instance : IsTrans Bytes bytesLE := ⟨fun _ _ _ h h' => Std.TransCmp.isLE_trans h h'⟩

/-- **The root of leaves**, in any order and however they are split. -/
theorem stateRoot_eq (digests : List Bytes32) {first second : List Bytes}
    (h : (first ++ second).Perm (digests.map Bytes32.bytes)) :
    stateRoot H first second = (rootFromLeaves H digests).bytes := by
  have hsort : (first ++ second).insertionSort bytesLE =
      (digests.insertionSort leafLE).map Bytes32.bytes := by
    rw [List.map_insertionSort leafLE bytesLE Bytes32.bytes digests fun a _ b _ => Iff.rfl]
    have hanti : ∀ a b, bytesLE a b → bytesLE b a → a = b := fun a b hab hba =>
      Std.LawfulEqCmp.eq_of_compare (Std.OrientedCmp.isLE_antisymm hab hba)
    exact insertionSort_eq_of_perm hanti h
  have hperson : stateRootPersonalization = Zalkanes.stateRootPersonalization := by decide
  rw [stateRoot, hsort, hperson, ← List.flatMap_def]
  rfl

/-- A number of 16 bits is packed. -/
theorem pack_be16 {n : ℕ} (h : n < 2 ^ 16) : pack 2 n = .ok (be16 (UInt16.ofNat n)) := by
  rw [pack, if_pos (show n < 256 ^ 2 by omega), be16, toNat_ofNat16 h]

/-- A number of 32 bits is packed. -/
theorem pack_be32 {n : ℕ} (h : n < 2 ^ 32) : pack 4 n = .ok (be32 (UInt32.ofNat n)) := by
  rw [pack, if_pos (show n < 256 ^ 4 by omega), be32, toNat_ofNat32 h]

/-- The program derives the ids of the node. -/
theorem contractId_eq (network : Network) (txid : TxId) (outputIndex : UInt16)
    (codeHash : CodeHash) :
    contractId H network.idByte.toNat txid.bytes outputIndex.toNat codeHash.bytes =
      .ok (ContractId.derive H network txid outputIndex codeHash).bytes := by
  have hperson : contractIdPersonalization = Zalkanes.contractIdPersonalization := by decide
  have hindex : pack 2 outputIndex.toNat = .ok (be16 outputIndex) := by
    rw [pack_be16 outputIndex.toNat_lt, UInt16.ofNat_toNat]
  rw [contractId, if_neg (not_not.mpr ⟨txid.length_eq, codeHash.length_eq⟩),
    if_neg (not_le.mpr network.idByte.toNat_lt), hindex, hperson]
  simp only [bind, Except.bind, UInt8.ofNat_toNat]
  rfl

/-- It hashes contracts as the node does. -/
theorem contractLeaf_eq {wasm : Bytes} (h : wasm.length < 2 ^ 32) (id : ContractId)
    (codeHash : CodeHash) :
    contractLeaf H id.bytes codeHash.bytes wasm =
      .ok (Zalkanes.contractLeaf H id codeHash wasm).bytes := by
  have hperson : stateLeafPersonalization = Zalkanes.stateLeafPersonalization := by decide
  rw [contractLeaf, pack_be32 h, hperson]
  rfl

/-- It hashes storage as the node does. -/
theorem storageLeaf_eq {key value : Bytes} (hkey : key.length < 2 ^ 16)
    (hvalue : value.length < 2 ^ 32) (id : ContractId) :
    storageLeaf H id.bytes key value = .ok (Zalkanes.storageLeaf H id key value).bytes := by
  have hperson : stateLeafPersonalization = Zalkanes.stateLeafPersonalization := by decide
  rw [storageLeaf, pack_be16 hkey, pack_be32 hvalue, hperson]
  rfl

/-- The leaves of a store within the limits. -/
theorem leaves_eq {store : StateView} (h : store.WithinLimits) :
    leaves H store.contracts store.storage =
      .ok ((collectLeaves H store).map Bytes32.bytes) := by
  have hcontracts : (store.contracts.mapM fun e => contractLeaf H e.1.bytes e.2.1.bytes e.2.2) =
      .ok (store.contracts.map fun e => (Zalkanes.contractLeaf H e.1 e.2.1 e.2.2).bytes) :=
    mapM_eq_ok fun e he =>
      contractLeaf_eq H (lt_of_le_of_lt (h.contracts e he) (by decide)) e.1 e.2.1
  have hstorage : (store.storage.mapM fun e => storageLeaf H e.1.bytes e.2.1 e.2.2) =
      .ok (store.storage.map fun e => (Zalkanes.storageLeaf H e.1 e.2.1 e.2.2).bytes) :=
    mapM_eq_ok fun e he => storageLeaf_eq H (lt_of_le_of_lt (h.storage e he).1 (by decide))
      (lt_of_le_of_lt (h.storage e he).2 (by decide)) e.1
  rw [leaves, hcontracts, hstorage, collectLeaves, List.map_append, List.map_map, List.map_map]
  rfl

end Agreement

/-! ### Reachable stores -/

section Reachable

variable {σ : Type} (S : StateStore σ) (P : Platform) (config : IndexerConfig)

/-- The program and the node agree on every store that the indexer reaches. -/
structure RootsAgree (s₀ : σ) : Prop where
  /-- The leaves of the program, in any order, have the root that the node computes. -/
  root : ∀ s, IndexRun S P config 0 s₀ s → ∃ digests,
    leaves P.hashing (S.view s).contracts (S.view s).storage = .ok digests ∧
      ∀ first second, (first ++ second).Perm digests →
        stateRoot P.hashing first second = (computeRoot P.hashing (S.view s)).bytes
  /-- Every contract is under the id that the program derives for the DEPLOY message that brought
  it, at its output of a transaction whose block has not been rolled back. -/
  contracts : ∀ s, IndexRun S P config 0 s₀ s → ∀ e ∈ (S.view s).contracts,
    e.2.1 = P.hashing.sha256 e.2.2 ∧
      ∃ parsed s₁ s₂, ThroughBlock S P config s₀ parsed s₁ s₂ s ∧
        ∃ tx ∈ parsed.transactions, ∃ deploy : DeployMessage,
          tx.Carries deploy.outputIndex (.deploy deploy) ∧ deploy.codeHash = e.2.1 ∧
            contractId P.hashing config.network.idByte.toNat tx.txid.bytes
              deploy.outputIndex.toNat e.2.1.bytes = .ok e.1.bytes

variable {S P config}

/-- A contract is listed if it is there. -/
theorem mem_contracts_view {l : Ledger} {id : ContractId} {contract : CodeHash × Bytes} :
    (id, contract) ∈ l.view.contracts ↔ l.contracts[id]? = some contract :=
  Std.ExtTreeMap.mem_toList_iff_getElem?_eq_some

/-- The roots and the ids on every lawful store. -/
theorem rootsAgree {Rep : σ → List BlockCommit → Prop} (L : LawfulStore P.hashing S Rep)
    (hE : P.engine.Metered) {s₀ : σ} (h₀ : Rep s₀ []) : RootsAgree S P config s₀ := by
  constructor
  · intro s h
    have hlimits := (L.storageBounds hE h₀).entries s h
    exact ⟨_, leaves_eq P.hashing hlimits, fun first second hperm => stateRoot_eq _ _ hperm⟩
  · rintro s h ⟨id, codeHash, wasm⟩ he
    obtain ⟨cs, hs, hcs⟩ := L.indexed_of_run hE h₀ .nil h
    have hcontract : (S.view s).getContract id = some (codeHash, wasm) := by
      rw [L.getContract hs (hcs.regular hE)]
      rw [L.view hs (hcs.regular hE)] at he
      exact mem_contracts_view.mp he
    obtain ⟨parsed, s₁, s₂, hthrough, hauthentic⟩ :=
      (L.codeImmutable hE h₀).authentic s h id codeHash wasm hcontract
    obtain ⟨tx, htx, deploy, hcarries, hcode, hid⟩ := hauthentic.deployed
    refine ⟨hauthentic.hash.symm, parsed, s₁, s₂, hthrough, tx, htx, deploy, hcarries, hcode, ?_⟩
    rw [hid, contractId_eq]

end Reachable

/-- **The reference program and the node agree on every reachable store**, on both backends: the
ids of the contracts, and the root, whatever the order of the leaves. -/
theorem roots_agree (P : Platform) (config : IndexerConfig) (hE : P.engine.Metered) :
    RootsAgree (MemoryState.store P.hashing) P config MemoryState.new ∧
      RootsAgree (RocksState.store P.hashing P.json) P config RocksState.fresh :=
  ⟨rootsAgree (MemoryState.lawful P.hashing) hE rfl,
    rootsAgree (RocksState.lawful P.hashing P.json) hE
      (RocksState.AgreesOff.refl RocksState.IsExec RocksState.fresh)⟩

/-- The register is deployed and called: the program computes the root of the node and the id of the
register. -/
theorem roots_agree_register :
    meteredEngine.Metered ∧ ∀ (H : Hashing) (json : Execution → Except String Bytes),
      let P := meteredPlatform H json
      let S := MemoryState.store H
      ∃ result s₁ s₂, ContractRun S P registerWasm 1 [] result MemoryState.new s₁ s₂ ∧
        (∃ digests, leaves H (S.view s₂).contracts (S.view s₂).storage = .ok digests ∧
          stateRoot H [] digests.reverse = (computeRoot H (S.view s₂)).bytes) ∧
        ∃ (txid : TxId) (outputIndex : UInt16),
          contractId H Network.regtest.idByte.toNat txid.bytes outputIndex.toNat
            (CodeHash.of H registerWasm).bytes = .ok (deployedId H registerWasm).bytes := by
  refine ⟨metered_meteredEngine, fun H json => ?_⟩
  intro P S
  have hnew : MemoryState.Represents H MemoryState.new [] := rfl
  obtain ⟨result, s₁, s₂, hrun, -⟩ := (MemoryState.lawful H).exists_registerRun hnew json
  have hagree := (roots_agree P regtestConfig metered_meteredEngine).1
  obtain ⟨digests, hleaves, hroot⟩ := hagree.root s₂ hrun.indexRun
  obtain ⟨-, parsed, t, t', -, tx, -, deploy, -, -, hid⟩ := hagree.contracts s₂ hrun.indexRun
    (deployedId H registerWasm, CodeHash.of H registerWasm, registerWasm)
    (show _ ∈ s₂.ledger.view.contracts from mem_contracts_view.mpr hrun.code)
  exact ⟨result, s₁, s₂, hrun, ⟨digests, hleaves, hroot [] _ (List.reverse_perm _)⟩, tx.txid,
    deploy.outputIndex, hid⟩

end Reference

end Zalkanes
