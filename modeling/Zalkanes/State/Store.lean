import Zalkanes.Types
import Zalkanes.Lib.WriteLog

/-!
# The State Store Interface

The data that a block commit carries, the undo journal, the read half of a state store
(`StateView`) and the store interface itself (`StateStore`), which the indexer drives.
-/

namespace Zalkanes

open Lib

/-! ### Commits and the undo journal -/

/-- All writes a single block produced, committed atomically. -/
structure BlockCommit where
  height : BlockHeight
  zcashBlockHash : BlockHash
  /-- New contracts: id, code hash, WASM. -/
  deploys : List (ContractId × CodeHash × Bytes)
  /-- Storage upserts: contract id, key, value. -/
  upserts : List (ContractId × Bytes × Bytes)
  /-- Storage deletions: contract id, key. -/
  deletes : List (ContractId × Bytes)
  deriving DecidableEq

/-- The commit of a block without protocol effect. -/
def BlockCommit.empty (height : BlockHeight) (hash : BlockHash) : BlockCommit :=
  ⟨height, hash, [], [], []⟩

/-- A single storage mutation recorded for undo. -/
inductive UndoOp where
  /-- The key was written; `prev` is the value it had. -/
  | set (contract : ContractId) (key : Bytes) (prev : Option Bytes)
  /-- The key was deleted; `prev` is the value it had. -/
  | delete (contract : ContractId) (key : Bytes) (prev : Bytes)
  /-- A contract was deployed; `prev` is the contract it replaced. -/
  | deploy (contract : ContractId) (prev : Option (CodeHash × Bytes))
  deriving DecidableEq

/-- Per-height commit record for reorg support. -/
structure HeightRecord where
  height : BlockHeight
  zcashBlockHash : BlockHash
  stateRoot : StateRoot
  deriving DecidableEq

/-! ### Stores -/

/-- The read half of a store, as the runtime and the root computation see it: lookups, and the
entries its iterators visit, in order. -/
structure StateView where
  hasContract : ContractId → Bool
  getContract : ContractId → Option (CodeHash × Bytes)
  storageGet : ContractId → Bytes → Option Bytes
  /-- The entries `for_each_contract` visits. -/
  contracts : List (ContractId × CodeHash × Bytes)
  /-- The entries `for_each_storage` visits. -/
  storage : List (ContractId × Bytes × Bytes)

/-- A state store: what it reads, its metadata, and its writes. A write returns the store it
leaves together with its result. -/
structure StateStore (σ : Type) where
  view : σ → StateView
  indexedHeight : σ → Option BlockHeight
  indexedBlockHash : σ → Option BlockHash
  persistedStateRoot : σ → Option StateRoot
  heightHistory : σ → List HeightRecord
  commitBlock : σ → BlockCommit → σ × Except String StateRoot
  rollbackTo : σ → BlockHeight → σ × Except String Unit
  saveExecutions : σ → List Execution → σ × Except String Unit

end Zalkanes
