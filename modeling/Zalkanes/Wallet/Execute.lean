import Zalkanes.Lib.Machine
import Zalkanes.Wallet.Recovery

/-!
# Funded Commands

`execute_request`, the one production send path of the command line: plan a transaction, ask the
user, record the plan in the journal, authorize it step by step, and broadcast it. A shielded plan
reserves its notes while it is planned.
-/

namespace Zalkanes

open Lib

/-- What the user asks to be funded from. -/
inductive FundingMode where
  | transparent
  | shielded
  | auto
  deriving DecidableEq

/-- Everything a funded command is told. -/
structure SpendOptions where
  network : Network
  funding : FundingMode
  dryRun : Bool
  assumeYes : Bool
  confirmMainnet : Bool

/-- The authorization stage of a plan. -/
inductive Stage where
  | planned
  | proven
  | signed
  | extracted
  deriving DecidableEq

/-- Where a plan is funded from. -/
inductive FundingPool where
  | transparent
  | shielded
  deriving DecidableEq

/-- Its name in messages. -/
def FundingPool.name : FundingPool → String
  | transparent => "transparent"
  | shielded => "shielded"

/-- A fully specified transaction, as far as it is authorized. -/
structure FundingPlan where
  pool : FundingPool
  stage : Stage
  planId : String
  intentHash : String
  kind : String
  canonicalTip : CanonicalTip
  targetHeight : UInt32
  /-- `0` disables expiry, as in transparent plans. -/
  expiryHeight : UInt32
  journalInputs : String
  /-- The anchor of the notes that are spent, in shielded plans. -/
  anchorHeight : Option BlockHeight

/-- What a plan is funded from. -/
inductive FundingSource where
  /-- The shielded wallet, and whether there is a transparent carrier key. -/
  | shielded (carrierKey : Bool)
  | transparent (utxos : List FundingUtxo)

/-- The chain that a plan is made for. -/
structure FundContext where
  network : Network
  chainTip : CanonicalTip
  targetHeight : UInt32

/-- The transaction targets the block immediately after the canonical tip. -/
def FundContext.new (network : Network) (chainTip : CanonicalTip) : FundContext :=
  ⟨network, chainTip, chainTip.height + 1⟩

namespace WalletM

/-- A call whose answer is a `Result`. -/
def ofResult {α : Type} : Except String α → WalletM α
  | .ok a => return a
  | .error e => throw e

/-- Connects to the node. -/
def nodeClient : WalletM Unit := do ofResult (← ask .nodeClient)

end WalletM

/-! ### Planning -/

/-- Money moves on the main network only if the user says so. -/
def mainnetGuard (opts : SpendOptions) : WalletM Unit :=
  -- planning moves no money, so it is not gated
  if opts.network = .mainnet ∧ opts.confirmMainnet = false ∧ opts.dryRun = false then
    throw ("refusing a mainnet money-moving command without --confirm-mainnet " ++
      "(--yes does NOT imply mainnet confirmation)")
  else return ()

/-- Open the shielded wallet, scan it and pin the tip. -/
def makeShielded : WalletM FundingSource := do
  if (← WalletM.ask .sessionIsArmed) = false then
    throw "wallet is LOCKED: run \x60zalkanes wallet unlock\x60 before a shielded spend"
  else
    WalletM.ofResult (← WalletM.ask .unlockWallet)
    WalletM.nodeClient
    WalletM.ofResult (← WalletM.ask .scanToTip)
    let _ ← WalletM.canonicalTip
    return .shielded (← WalletM.ask .signingKey)

/-- The transparent wallet, with what it may spend. -/
def makeTransparent : WalletM FundingSource := do
  return .transparent (← WalletM.ofResult (← WalletM.ask .transparentUtxos))

/-- Build the funding source for the selected mode. -/
def buildSource (opts : SpendOptions) (requiredZat : ℕ) : WalletM FundingSource := do
  let available ← WalletM.ask .walletExists
  match opts.funding with
  | .shielded =>
      if available = false then
        throw "--funding shielded requires a wallet; run \x60zalkanes wallet create\x60"
      else makeShielded
  | .transparent => makeTransparent
  | .auto =>
      if available = false then makeTransparent
      else
        let balance := (← WalletM.ask .balance).toOption.getD 0
        -- the session is looked up only where the balance covers the amount
        if balance ≥ requiredZat then
          if (← WalletM.ask .sessionIsArmed) then makeShielded else makeTransparent
        else makeTransparent

/-- The target is the block after the tip. -/
def FundContext.validate (ctx : FundContext) : WalletM Unit :=
  if ctx.targetHeight ≠ ctx.chainTip.height + 1 then
    throw ("target_height " ++ toString ctx.targetHeight ++ " must be chain_tip.height + 1 (" ++
      toString (ctx.chainTip.height + 1) ++ ")")
  else return ()

/-- ZIP-317 minimum fee. -/
def minimumFee : ℕ := 10000

/-- Maximum number of note-selection rounds before the wallet refuses to converge. -/
def maxSelectIterations : ℕ := 16

/-- Rounds of note selection, each of which reserves the notes that it selects. -/
def selectRounds (request : TxRequest) (requiredValue : ℕ) (planId : String) :
    ℕ → ℕ → WalletM (ShieldedSelection × ℕ)
  | 0, _ => throw ("shielded selection did not converge within " ++
      toString maxSelectIterations ++ " rounds")
  | rounds + 1, required => do
      let selection ← WalletM.ofResult (← WalletM.ask (.selectSpends required planId))
      let fee ← WalletM.ofResult (← WalletM.ask (.getFee request selection))
      match checkedAdd requiredValue fee with
      | none => throw "required+fee overflow"
      | some totalNeeded =>
          if selection.selectedValue > totalNeeded then return (selection, fee)
          else selectRounds request requiredValue planId rounds ((totalNeeded + 1) % 2 ^ 64)

/-- Select notes for a request, at the exact fee with one change output present. -/
def selectFor (request : TxRequest) (requiredValue : ℕ) (planId : String) :
    WalletM (ShieldedSelection × ℕ) :=
  match checkedAdd requiredValue minimumFee with
  | none => throw "required value overflow"
  | some required => selectRounds request requiredValue planId maxSelectIterations required

/-- Build the transaction of a selection. -/
def shieldedPlan (request : TxRequest) (ctx : FundContext) (planId : String)
    (selection : ShieldedSelection) (change : ℕ) : WalletM FundingPlan := do
  let built ← WalletM.ofResult (← WalletM.ask (.buildShielded request selection change))
  return ⟨.shielded, .planned, planId, built.intentHash, request.kind, ctx.chainTip,
    ctx.targetHeight, built.expiryHeight, ",".intercalate selection.outputRefs,
    selection.anchorHeight⟩

/-- Plans a call: notes that cover its fee, and the change. -/
def planCall (opReturn : Bytes) (ctx : FundContext) : WalletM FundingPlan := do
  let planId ← WalletM.ask .newPlanId
  let (selection, fee) ← selectFor (.call opReturn) 0 planId
  shieldedPlan (.call opReturn) ctx planId selection (selection.selectedValue - fee)

/-- Plans carriers: notes that cover them and the fee. -/
def planPrepare (carrierValues : List ℕ) (ctx : FundContext) : WalletM FundingPlan := do
  if carrierValues = [] then throw "PREPARE requires at least one carrier output"
  else
    let carrierTotal := carrierValues.sum % 2 ^ 64
    let planId ← WalletM.ask .newPlanId
    let (selection, fee) ← selectFor (.prepare carrierValues) carrierTotal planId
    if selection.selectedValue < carrierTotal + fee then
      throw "shielded PREPARE: insufficient selected value"
    else
      shieldedPlan (.prepare carrierValues) ctx planId selection
        (selection.selectedValue - carrierTotal - fee)

/-- Plans a request from transparent outputs. -/
def transparentPlan (request : TxRequest) (utxos : List FundingUtxo) (ctx : FundContext) :
    WalletM FundingPlan := do
  if utxos = [] then throw "no transparent funding UTXOs available"
  else
    let built ← WalletM.ofResult (← WalletM.ask (.buildTransparent request utxos))
    let planId ← WalletM.ask .newPlanId
    return ⟨.transparent, .planned, planId, built.intentHash, request.kind, ctx.chainTip,
      ctx.targetHeight, 0, built.journalInputs, none⟩

/-- Plan a transaction: nothing is proven or signed. -/
def FundingSource.plan (request : TxRequest) (ctx : FundContext) :
    FundingSource → WalletM FundingPlan
  | .shielded carrierKey => do
      ctx.validate
      match request with
      | .call opReturn => planCall opReturn ctx
      | .prepare carrierValues =>
          if carrierKey = false then throw "shielded PREPARE requires a transparent carrier key"
          else planPrepare carrierValues ctx
      | .deploy _ _ _ _ =>
          throw ("DEPLOY is a transparent carrier-input transaction; shielded funding " ++
            "applies to PREPARE and CALL (see docs/adr/0007-wallet-funding.md)")
  | .transparent utxos => do
      ctx.validate
      transparentPlan request utxos ctx

/-- Whether to go on with the plan. -/
def confirm (opts : SpendOptions) : WalletM Bool :=
  if opts.dryRun then return false
  else if opts.assumeYes then return true
  else return (← WalletM.ask .readLine) ∈ ["y", "Y", "yes"]

/-! ### Authorization -/

/-- Record a freshly planned operation: `Planned`, then `Reserved`. -/
def recordPlan (H : Hashing) (plan : FundingPlan) : WalletM Unit := do
  WalletM.createPlan
    { planId := plan.planId
      intentHash := plan.intentHash
      kind := plan.kind
      fundingMode := plan.pool.name
      -- transparent plans take no note locks
      lockOwner := if plan.pool = .shielded then lockOwnerHex H plan.planId else ""
      tipHeight := plan.canonicalTip.height
      tipHash := hexEncode plan.canonicalTip.hash.bytes
      targetHeight := plan.targetHeight
      selectedInputs := plan.journalInputs
      expiry := if plan.expiryHeight = 0 then none else some plan.expiryHeight }
  let _ ← WalletM.transition plan.planId .reserved none none

namespace FundingPlan

/-- The message for a tip that has moved. -/
def stale (plan : FundingPlan) (current : CanonicalTip) : String :=
  "StalePlan: chain state changed (planned " ++ toString plan.canonicalTip.height ++ ":" ++
    hexEncode plan.canonicalTip.hash.bytes ++ ", current " ++ toString current.height ++ ":" ++
    hexEncode current.hash.bytes ++ "); re-plan required"

/-- Reject the plan if the canonical chain has changed. -/
def checkFreshness (plan : FundingPlan) : WalletM CanonicalTip := do
  let current ← WalletM.canonicalTip
  if plan.canonicalTip ≠ current then throw (plan.stale current) else return current

/-- The plan must be at the stage. -/
def expectStage (plan : FundingPlan) (expected : Stage) : WalletM Unit :=
  if plan.stage ≠ expected then throw (plan.pool.name ++ " plan is at another stage")
  else return ()

/-- Produce the proofs, which a transparent transaction has none of. -/
def prove (plan : FundingPlan) : WalletM FundingPlan := do
  let _ ← plan.checkFreshness
  plan.expectStage .planned
  if plan.pool = .shielded then WalletM.ofResult (← WalletM.ask (.createProofs plan.planId))
  return { plan with stage := .proven }

/-- Apply the authorizing signatures. -/
def sign (plan : FundingPlan) : WalletM FundingPlan := do
  let _ ← plan.checkFreshness
  plan.expectStage .proven
  WalletM.ofResult (← WalletM.ask (.applySignatures plan.planId))
  return { plan with stage := .signed }

/-- The signed transaction, at an unchanged tip. -/
def extract (plan : FundingPlan) : WalletM SignedTx := do
  let _ ← plan.checkFreshness
  plan.expectStage .signed
  WalletM.ofResult (← WalletM.ask (.extractTransaction plan.planId))

/-- Extract the transaction, and verify it against the plan. -/
def extractVerified (plan : FundingPlan) : WalletM VerifiedTransaction := do
  let tip ← plan.checkFreshness
  let tx ← plan.extract
  WalletM.ofResult (← WalletM.ask (.verifyExtracted plan.planId tx))
  return ⟨tx, plan.planId, plan.intentHash, tip⟩

end FundingPlan

/-- The release hook of `execute_request`, which does nothing. -/
def noopRelease : ReleaseHook := fun _ => return ()

/-- Authorize a plan that was confirmed. -/
def authorize (H : Hashing) (plan : FundingPlan) : WalletM VerifiedTransaction := do
  WalletM.ofResult (← WalletM.ask .openJournal)
  recordPlan H plan
  let plan ← plan.prove
  let _ ← WalletM.transition plan.planId .proving none none
  let _ ← WalletM.transition plan.planId .proven none none
  let plan ← plan.sign
  let _ ← WalletM.transition plan.planId .signing none none
  let _ ← WalletM.transition plan.planId .signed none none
  let verified ← plan.extractVerified
  let _ ← WalletM.transition plan.planId .extracted none none
  let _ ← WalletM.transition plan.planId .verified none none
  return verified

/-- Plan, verify and broadcast. Without a result, nothing was authorized. -/
def executeRequest (H : Hashing) (opts : SpendOptions) (request : TxRequest) (requiredZat : ℕ) :
    WalletM (Option Bytes32) := do
  mainnetGuard opts
  WalletM.nodeClient
  let source ← buildSource opts requiredZat
  let tip ← WalletM.canonicalTip
  let plan ← source.plan request (.new opts.network tip)
  if (← confirm opts) = false then return none
  else
    let verified ← authorize H plan
    WalletM.nodeClient
    match ← broadcastVerified noopRelease verified with
    | .rejected msg => throw ("broadcast rejected: " ++ msg)
    | .accepted | .unknown _ => return some verified.signed.txid

end Zalkanes
