import Mathlib.Data.Nat.Notation
import Zalkanes.Types

/-!
# What a Transaction is Requested and Planned from

The data of `execute_request`: the request, the notes and outputs that fund it, and what it asks of
its surroundings while it plans and authorizes a transaction (`DriverEffect`): the keystore, the
note store, the transaction builders and the user. The builders and the cryptography are left open:
they answer as they like.
-/

namespace Zalkanes

open Lib

/-- A signed transaction. -/
structure SignedTx where
  bytes : Bytes
  txid : Bytes32
  deriving DecidableEq

/-- An outpoint of a transaction. -/
structure OutPoint where
  hash : Bytes32
  n : UInt32
  deriving DecidableEq

/-- A transparent funding UTXO. -/
structure FundingUtxo where
  outpoint : OutPoint
  value : ℕ
  deriving DecidableEq

/-- A funding-pool-agnostic description of a transaction. -/
inductive TxRequest where
  | prepare (carrierValues : List ℕ)
  | deploy (chunks : List Bytes) (carrierOutpoints : List OutPoint) (carrierValues : List ℕ)
      (opReturn : Bytes)
  | call (opReturn : Bytes)
  deriving DecidableEq

/-- Short human-readable kind name. -/
def TxRequest.kind : TxRequest → String
  | prepare _ => "prepare"
  | deploy _ _ _ _ => "deploy"
  | call _ => "call"

/-- The notes that were selected and reserved, as `pool:txid_hex:index`. -/
structure ShieldedSelection where
  selectedValue : ℕ
  /-- The height whose end-of-block treestate the anchors are roots of. -/
  anchorHeight : BlockHeight
  outputRefs : List String
  deriving DecidableEq

/-- What the builders commit to a plan. -/
structure BuiltPlan where
  intentHash : String
  expiryHeight : UInt32
  /-- The inputs as `pool:txid_hex:index`, joined by commas. -/
  journalInputs : String
  deriving DecidableEq

/-- What a funded command asks of its surroundings. -/
inductive DriverEffect where
  /-- Whether the wallet database is there. -/
  | walletExists
  | sessionIsArmed
  /-- Read the passphrase, decrypt the seed, open the wallet and unlock it. -/
  | unlockWallet
  /-- Build a client of the node. -/
  | nodeClient
  | scanToTip
  | balance
  /-- The transparent key, as far as there is one. -/
  | signingKey
  | transparentUtxos
  | newPlanId
  /-- Select notes and reserve them under the plan's lock owner. -/
  | selectSpends (requiredZat : ℕ) (planId : String)
  /-- The fee of the transaction that spends the notes. -/
  | getFee (request : TxRequest) (selection : ShieldedSelection)
  /-- Build the unproven transaction, and commit to it. -/
  | buildShielded (request : TxRequest) (selection : ShieldedSelection) (change : ℕ)
  | buildTransparent (request : TxRequest) (utxos : List FundingUtxo)
  /-- The user's answer, without the white space around it. -/
  | readLine
  | openJournal
  | createProofs (planId : String)
  /-- Apply every signature of the plan's transaction. -/
  | applySignatures (planId : String)
  | extractTransaction (planId : String)
  | verifyExtracted (planId : String) (tx : SignedTx)

namespace DriverEffect

/-- What a question of the driver is answered. -/
abbrev Answer : DriverEffect → Type
  | walletExists | sessionIsArmed | signingKey => Bool
  | unlockWallet | nodeClient | scanToTip | openJournal | createProofs _ | applySignatures _
  | verifyExtracted _ _ => Except String Unit
  | balance | getFee _ _ => Except String ℕ
  | transparentUtxos => Except String (List FundingUtxo)
  | newPlanId | readLine => String
  | selectSpends _ _ => Except String ShieldedSelection
  | buildShielded _ _ _ | buildTransparent _ _ => Except String BuiltPlan
  | extractTransaction _ => Except String SignedTx

/-- Whether the call belongs to planning: it authorizes nothing. -/
def plans : DriverEffect → Bool
  | createProofs _ | applySignatures _ | extractTransaction _ | verifyExtracted _ _ => false
  | _ => true

end DriverEffect

end Zalkanes
