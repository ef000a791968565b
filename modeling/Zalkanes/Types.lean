import Zalkanes.Consensus
import Zalkanes.Lib.Bytes

/-!
# Core Types

The identifiers, records and hash functions shared by all parts of the node. The source wraps
every 32-byte array in a type of its own; here they are one subtype of byte strings, `Bytes32`,
under the source's names.

The two hash functions are external, so they are parameters (`Hashing`).
-/

namespace Zalkanes

open Lib

/-- A byte array of length 32. -/
structure Bytes32 where
  bytes : Bytes
  length_eq : bytes.length = 32
  deriving DecidableEq

namespace Bytes32

/-- Bytes decide. -/
@[ext] theorem ext {a b : Bytes32} (h : a.bytes = b.bytes) : a = b := by
  cases a
  cases b
  simpa using h

attribute [simp] length_eq

instance : Ord Bytes32 := ⟨fun a b => compare a.bytes b.bytes⟩

/-- They are ordered as lists of bytes are. -/
theorem compare_eq (a b : Bytes32) : compare a b = compare a.bytes b.bytes := rfl

instance : Std.TransOrd Bytes32 :=
  inferInstanceAs (Std.TransCmp (compareOn Bytes32.bytes))

instance : Std.LawfulEqOrd Bytes32 where
  compare_self {a} := by rw [compare_eq, Std.ReflOrd.compare_self]
  eq_of_compare h := Bytes32.ext (Std.LawfulEqCmp.eq_of_compare h)

/-- The array with these bytes, when there are 32 of them. -/
def ofBytes? (bs : Bytes) : Option Bytes32 :=
  if h : bs.length = 32 then some ⟨bs, h⟩ else none

/-- The array of 32 equal bytes. -/
def replicate (b : UInt8) : Bytes32 := ⟨List.replicate 32 b, List.length_replicate⟩

/-- Its own bytes make it. -/
@[simp] theorem ofBytes?_bytes (a : Bytes32) : ofBytes? a.bytes = some a := by
  simp [ofBytes?]

/-- It is made of its own bytes only. -/
theorem ofBytes?_eq_some {bs : Bytes} {a : Bytes32} : ofBytes? bs = some a ↔ a.bytes = bs := by
  constructor
  · intro h
    unfold ofBytes? at h
    split at h
    · rw [← Option.some.inj h]
    · simp at h
  · rintro rfl
    exact ofBytes?_bytes a

/-- A string of at least 32 bytes starts with an array. -/
theorem exists_append (bs : Bytes) (h : 32 ≤ bs.length) :
    ∃ (a : Bytes32) (rest : Bytes), bs = a.bytes ++ rest ∧ rest.length + 32 = bs.length :=
  ⟨⟨bs.take 32, by rw [List.length_take]; omega⟩, bs.drop 32,
    (List.take_append_drop 32 bs).symm, by rw [List.length_drop]; omega⟩

end Bytes32

/-- Pairs are ordered by their first component, then by their second. -/
instance instOrdPair {α β : Type} [Ord α] [Ord β] : Ord (α × β) := lexOrd

/-- The hash of a block. -/
abbrev BlockHash := Bytes32

/-- The height of a block. -/
abbrev BlockHeight := UInt32

/-- The id of a transaction. -/
abbrev TxId := Bytes32

/-- The hash of the code of a contract. -/
abbrev CodeHash := Bytes32

/-- The id of a contract. -/
abbrev ContractId := Bytes32

/-- The root of a state. -/
abbrev StateRoot := Bytes32

/-! The maps of a store need these four, which are found once, here. -/

instance instLawfulBEqBytes : LawfulBEq Bytes := inferInstance

instance instLawfulBEqContract : LawfulBEq (CodeHash × Bytes) := inferInstance

instance instTransOrdStorageKey : Std.TransOrd (ContractId × Bytes) := inferInstance

instance instLawfulEqOrdStorageKey : Std.LawfulEqOrd (ContractId × Bytes) := inferInstance

/-- A reference to a block by height and hash. -/
structure BlockRef where
  height : BlockHeight
  hash : BlockHash
  deriving DecidableEq

/-- The result of executing one contract call from an indexed transaction. -/
structure Execution where
  txid : TxId
  contractId : ContractId
  opcode : UInt16
  success : Bool
  fuelUsed : ℕ
  /-- Return data bytes, empty on failure. -/
  returnData : Bytes
  /-- Trap reason, if any. -/
  error : Option String
  stateRootBefore : StateRoot
  stateRootAfter : StateRoot
  blockHeight : BlockHeight
  blockHash : BlockHash
  deriving DecidableEq

/-- A Zcash network. -/
inductive Network where
  | mainnet
  | testnet
  | regtest
  deriving DecidableEq, Repr

/-- The network's byte in the preimage of a contract id. -/
def Network.idByte : Network → UInt8
  | mainnet => 0x01
  | testnet => 0x02
  | regtest => 0x03

/-- The external hash functions: BLAKE2b with a 32-byte digest under a personalization string,
and SHA-256. -/
structure Hashing where
  /-- `Params::new().hash_length(32).personal(person).hash(input)`. -/
  blake2b : (person input : Bytes) → Bytes32
  /-- `Sha256::digest(input)`. -/
  sha256 : (input : Bytes) → Bytes32

/-- Derive the id of a contract from the network, the deploying transaction and output, and the
code hash. -/
def ContractId.derive (H : Hashing) (network : Network) (txid : TxId) (outputIndex : UInt16)
    (codeHash : CodeHash) : ContractId :=
  H.blake2b contractIdPersonalization
    (network.idByte :: txid.bytes ++ be16 outputIndex ++ codeHash.bytes)

/-- The code hash of WASM bytes. -/
def CodeHash.of (H : Hashing) (wasm : Bytes) : CodeHash := H.sha256 wasm

end Zalkanes
