import Zalkanes.Wallet.Execute

/-!
# What a Funded Command Calls

Up to the user's answer, `execute_request` only plans: it writes no journal row and produces no
proof, no signature and no transaction (`FundingSource.plan_uses`). What it does afterwards never
moves a row to `Mined` and never releases a note lock.

## Main results

* `FundingSource.plan_uses`: the calls of planning.
* `executeRequest_uses`: the calls of a whole run.
-/

namespace Zalkanes

open Lib

/-- The calls that plan a transaction and authorize nothing. -/
def Plans : WalletEffect → Prop
  | .canonicalTip => True
  | .driver e => e.plans = true
  | _ => False

/-- The calls that authorize a recorded plan and broadcast it: no row is moved to `Mined`, and
nothing is released. -/
def Authorizes : WalletEffect → Prop
  | .canonicalTip | .sendRawTransaction _ | .driver _ => True
  | .transition _ target _ _ => target ≠ .mined
  | _ => False

/-- The calls of a funded command. -/
def Funds : WalletEffect → Prop
  | .createPlan _ => True
  | e => Authorizes e

/-- Planning is no more than authorizing. -/
theorem authorizes_of_plans {e : WalletEffect} (h : Plans e) : Authorizes e := by
  cases e <;> trivial

/-- Authorizing is no more than funding. -/
theorem funds_of_authorizes {e : WalletEffect} (h : Authorizes e) : Funds e := by
  cases e <;> trivial

section Calls

open Prog

variable {P : WalletEffect → Prop}

/-- A question uses its own effect. -/
theorem uses_ask {e : DriverEffect} (h : P (.driver e)) : (WalletM.ask e).run.Uses P :=
  .run_lift (uses_call h)

/-- A result that is there uses nothing. -/
theorem uses_ofResult {α : Type} (r : Except String α) : (WalletM.ofResult r).run.Uses P := by
  cases r <;> trivial

/-- A question of the planning. -/
theorem plans_ask {e : DriverEffect} (h : e.plans = true) : (WalletM.ask e).run.Uses Plans :=
  uses_ask h

/-- Asking for the tip is planning. -/
theorem plans_canonicalTip : WalletM.canonicalTip.run.Uses Plans := uses_call trivial

/-- So is connecting to the node. -/
theorem plans_nodeClient : WalletM.nodeClient.run.Uses Plans :=
  (plans_ask rfl).run_bind fun _ => uses_ofResult _

section Rules

variable {W : Type} {A : Answers WalletEffect.Answer W} {ok : WalletEffect → W → Prop} {w : W}

/-- A question must be allowed, and its postcondition hold of every answer. -/
theorem spec_ask {e : DriverEffect} {Q : Except String e.Answer → W → Prop} :
    Spec A ok (WalletM.ask e).run w Q ↔
      ok (.driver e) w ∧ ∀ r w', A w (.driver e) r w' → Q (.ok r) w' := by
  rw [WalletM.ask, spec_run_lift, spec_call]

/-- A result needs its postcondition now. -/
theorem spec_ofResult {α : Type} {r : Except String α} {Q : Except String α → W → Prop} :
    Spec A ok (WalletM.ofResult r).run w Q ↔ Q r w := by
  cases r <;> rfl

end Rules

/-! ### Planning -/

/-- The guard of the main network asks nothing. -/
theorem mainnetGuard_uses (opts : SpendOptions) : (mainnetGuard opts).run.Uses P := by
  rw [mainnetGuard]
  split <;> trivial

/-- Opening the shielded wallet is planning. -/
theorem makeShielded_uses : makeShielded.run.Uses Plans := by
  rw [makeShielded]
  refine (plans_ask rfl).run_bind fun armed => ?_
  split
  · trivial
  · exact (plans_ask rfl).run_bind fun _ => (uses_ofResult _).run_bind fun _ =>
      plans_nodeClient.run_bind fun _ => (plans_ask rfl).run_bind fun _ =>
      (uses_ofResult _).run_bind fun _ => plans_canonicalTip.run_bind fun _ =>
      (plans_ask rfl).run_bind fun _ => trivial

/-- Opening the transparent wallet is planning. -/
theorem makeTransparent_uses : makeTransparent.run.Uses Plans := by
  rw [makeTransparent]
  exact (plans_ask rfl).run_bind fun _ => (uses_ofResult _).run_bind fun _ => trivial

/-- Choosing where the funds come from is planning. -/
theorem buildSource_uses (opts : SpendOptions) (requiredZat : ℕ) :
    (buildSource opts requiredZat).run.Uses Plans := by
  rw [buildSource]
  refine (plans_ask rfl).run_bind fun available => ?_
  cases opts.funding with
  | shielded =>
      dsimp only
      split
      · trivial
      · exact makeShielded_uses
  | transparent => exact makeTransparent_uses
  | auto =>
      dsimp only
      split
      · exact makeTransparent_uses
      · refine (plans_ask rfl).run_bind fun balance => ?_
        split
        · refine (plans_ask rfl).run_bind fun armed => ?_
          split
          · exact makeShielded_uses
          · exact makeTransparent_uses
        · exact makeTransparent_uses

/-- Checking the context asks nothing. -/
theorem FundContext.validate_uses (ctx : FundContext) : ctx.validate.run.Uses P := by
  rw [FundContext.validate]
  split <;> trivial

/-- A round of a selection is planning. -/
theorem selectRounds_uses (request : TxRequest) (requiredValue : ℕ) (planId : String)
    (rounds required : ℕ) :
    (selectRounds request requiredValue planId rounds required).run.Uses Plans := by
  induction rounds generalizing required with
  | zero => trivial
  | succ rounds ih =>
      rw [selectRounds]
      refine (plans_ask rfl).run_bind fun _ => (uses_ofResult _).run_bind fun selection =>
        (plans_ask rfl).run_bind fun _ => (uses_ofResult _).run_bind fun fee => ?_
      cases checkedAdd requiredValue fee with
      | none => trivial
      | some totalNeeded =>
          dsimp only
          split
          · trivial
          · exact ih _

/-- A selection is planning. -/
theorem selectFor_uses (request : TxRequest) (requiredValue : ℕ) (planId : String) :
    (selectFor request requiredValue planId).run.Uses Plans := by
  unfold selectFor
  generalize checkedAdd requiredValue minimumFee = required, maxSelectIterations = rounds
  cases required with
  | none => exact uses_run_throw
  | some required => exact selectRounds_uses request requiredValue planId rounds required

-- the bound of the first round is not to be computed
attribute [local irreducible] selectFor

/-- Making a plan of what was selected is planning. -/
theorem shieldedPlan_uses (request : TxRequest) (ctx : FundContext) (planId : String)
    (selection : ShieldedSelection) (change : ℕ) :
    (shieldedPlan request ctx planId selection change).run.Uses Plans := by
  rw [shieldedPlan]
  exact (plans_ask rfl).run_bind fun _ => (uses_ofResult _).run_bind fun _ => trivial

/-- Planning a call is planning. -/
theorem planCall_uses (opReturn : Bytes) (ctx : FundContext) :
    (planCall opReturn ctx).run.Uses Plans := by
  rw [planCall]
  exact (plans_ask rfl).run_bind fun planId =>
    (selectFor_uses (.call opReturn) 0 planId).run_bind fun selected =>
      shieldedPlan_uses (.call opReturn) ctx planId selected.1
        (selected.1.selectedValue - selected.2)

/-- Planning carriers is planning. -/
theorem planPrepare_uses (carrierValues : List ℕ) (ctx : FundContext) :
    (planPrepare carrierValues ctx).run.Uses Plans := by
  rw [planPrepare]
  split
  · exact uses_run_throw
  · refine (plans_ask rfl).run_bind fun planId =>
      (selectFor_uses (.prepare carrierValues) _ planId).run_bind fun selected => ?_
    dsimp only
    split
    · exact uses_run_throw
    · exact shieldedPlan_uses (.prepare carrierValues) ctx planId selected.1 _

/-- **Planning** authorizes nothing and writes nothing to the journal. -/
theorem FundingSource.plan_uses (source : FundingSource) (request : TxRequest)
    (ctx : FundContext) : (source.plan request ctx).run.Uses Plans := by
  cases source with
  | shielded carrierKey =>
      rw [FundingSource.plan.eq_def]
      dsimp only
      refine (ctx.validate_uses).run_bind fun _ => ?_
      cases request with
      | call opReturn => exact planCall_uses _ _
      | prepare carrierValues =>
          dsimp only
          split
          · trivial
          · exact planPrepare_uses _ _
      | deploy _ _ _ _ => trivial
  | transparent utxos =>
      rw [FundingSource.plan.eq_def]
      dsimp only
      refine (ctx.validate_uses).run_bind fun _ => ?_
      rw [transparentPlan]
      split
      · trivial
      · exact (plans_ask rfl).run_bind fun _ => (uses_ofResult _).run_bind fun _ =>
          (plans_ask rfl).run_bind fun _ => trivial

/-- Asking the user is planning. -/
theorem confirm_uses (opts : SpendOptions) :
    (confirm opts).run.Uses Plans := by
  rw [confirm]
  split
  · trivial
  · split
    · trivial
    · exact (plans_ask rfl).run_bind fun _ => trivial

/-! ### Authorization -/

/-- A transition uses its own effect. -/
theorem uses_transition {planId : String} {target : JournalStage} {txid lastError : Option String}
    (h : P (.transition planId target txid lastError)) :
    (WalletM.transition planId target txid lastError).run.Uses P := uses_call h

/-- Every question is one that authorizing may ask. -/
theorem authorizes_ask (e : DriverEffect) : (WalletM.ask e).run.Uses Authorizes :=
  uses_ask trivial

/-- The moves of the driver. -/
theorem moves_uses (planId : String) {target : JournalStage} {txid lastError : Option String}
    (h : target ≠ .mined) :
    (WalletM.transition planId target txid lastError).run.Uses Authorizes := uses_transition h

/-- Recording a plan is funding. -/
theorem recordPlan_uses (H : Hashing) (plan : FundingPlan) :
    (recordPlan H plan).run.Uses Funds := by
  rw [recordPlan]
  refine Uses.run_bind (uses_call trivial) fun _ => Uses.run_bind ?_ fun _ => uses_run_pure
  exact uses_transition (show JournalStage.reserved ≠ .mined by decide)

namespace FundingPlan

variable (plan : FundingPlan)

/-- Comparing the tip is planning. -/
theorem checkFreshness_uses : plan.checkFreshness.run.Uses Plans := by
  rw [checkFreshness]
  refine plans_canonicalTip.run_bind fun current => ?_
  split <;> trivial

/-- Comparing the stage asks nothing. -/
theorem expectStage_uses (expected : Stage) : (plan.expectStage expected).run.Uses P := by
  rw [expectStage]
  split <;> trivial

/-- Comparing the tip is authorizing. -/
theorem checkFreshness_authorizes : plan.checkFreshness.run.Uses Authorizes :=
  plan.checkFreshness_uses.mono fun _ => authorizes_of_plans

/-- Proving is authorizing. -/
theorem prove_uses : plan.prove.run.Uses Authorizes := by
  rw [prove]
  refine plan.checkFreshness_authorizes.run_bind fun _ =>
    (plan.expectStage_uses _).run_bind fun _ => ?_
  split
  · exact (authorizes_ask _).run_bind fun _ => (uses_ofResult _).run_bind fun _ => uses_run_pure
  · trivial

/-- Signing is authorizing. -/
theorem sign_uses : plan.sign.run.Uses Authorizes := by
  rw [sign]
  exact plan.checkFreshness_authorizes.run_bind fun _ => (plan.expectStage_uses _).run_bind fun _ =>
    (authorizes_ask _).run_bind fun _ => (uses_ofResult _).run_bind fun _ => uses_run_pure

/-- Extracting is authorizing. -/
theorem extract_uses : plan.extract.run.Uses Authorizes := by
  rw [extract]
  exact plan.checkFreshness_authorizes.run_bind fun _ => (plan.expectStage_uses _).run_bind fun _ =>
    (authorizes_ask _).run_bind fun _ => uses_ofResult _

/-- Extracting with the final check is authorizing. -/
theorem extractVerified_uses : plan.extractVerified.run.Uses Authorizes := by
  rw [extractVerified]
  exact plan.checkFreshness_authorizes.run_bind fun _ => plan.extract_uses.run_bind fun _ =>
    (authorizes_ask _).run_bind fun _ => (uses_ofResult _).run_bind fun _ => uses_run_pure

end FundingPlan

/-- The steps of `authorize` that follow the record of the plan. -/
def authorizeRecorded (plan : FundingPlan) : WalletM VerifiedTransaction := do
  let plan ← plan.prove
  let _ ← WalletM.transition plan.planId .proving none none
  let _ ← WalletM.transition plan.planId .proven none none
  let plan ← plan.sign
  let _ ← WalletM.transition plan.planId .signing none none
  let _ ← WalletM.transition plan.planId .signed none none
  let verified ← plan.extractVerified
  let _ ← WalletM.transition plan.planId .extracted none none
  let _ ← WalletM.transition plan.planId .verified none none
  return verified

/-- A plan is recorded before it is authorized. -/
theorem authorize_eq (H : Hashing) (plan : FundingPlan) : authorize H plan = (do
    WalletM.ofResult (← WalletM.ask .openJournal)
    recordPlan H plan
    authorizeRecorded plan) := rfl

/-- What follows the record is authorizing. -/
theorem authorizeRecorded_uses (plan : FundingPlan) :
    (authorizeRecorded plan).run.Uses Authorizes := by
  rw [authorizeRecorded]
  exact plan.prove_uses.run_bind fun plan =>
    (moves_uses _ (by decide)).run_bind fun _ => (moves_uses _ (by decide)).run_bind fun _ =>
    plan.sign_uses.run_bind fun plan =>
    (moves_uses _ (by decide)).run_bind fun _ => (moves_uses _ (by decide)).run_bind fun _ =>
    plan.extractVerified_uses.run_bind fun _ =>
    (moves_uses _ (by decide)).run_bind fun _ => (moves_uses _ (by decide)).run_bind fun _ =>
    uses_run_pure

/-- Authorizing with the record is funding. -/
theorem authorize_uses (H : Hashing) (plan : FundingPlan) :
    (authorize H plan).run.Uses Funds := by
  rw [authorize_eq]
  exact (uses_ask trivial).run_bind fun _ => (uses_ofResult _).run_bind fun _ =>
    (recordPlan_uses H plan).run_bind fun _ =>
    (authorizeRecorded_uses plan).mono fun _ => funds_of_authorizes

/-- Recording what the node answered is authorizing. -/
theorem recordOutcome_uses (tx : VerifiedTransaction) (answer : TransportResult) :
    (recordOutcome noopRelease tx answer).run.Uses Authorizes := by
  cases answer with
  | accepted returned =>
      rw [recordOutcome]
      split
      · exact (moves_uses _ (by decide)).run_bind fun _ => uses_run_pure
      · exact (moves_uses _ (by decide)).run_bind fun _ => uses_run_pure
  | rejected code message =>
      exact (moves_uses _ (by decide)).run_bind fun _ =>
        uses_run_pure.run_bind fun _ => uses_run_pure
  | ambiguous message => exact (moves_uses _ (by decide)).run_bind fun _ => uses_run_pure

/-- Sending is authorizing. -/
theorem broadcastVerified_uses (tx : VerifiedTransaction) :
    (broadcastVerified noopRelease tx).run.Uses Authorizes := by
  rw [broadcastVerified]
  refine Uses.run_bind (uses_call trivial) fun current => ?_
  split
  · trivial
  · exact (moves_uses _ (by decide)).run_bind fun _ =>
      Uses.run_bind (Uses.run_lift (uses_call trivial)) fun answer => recordOutcome_uses tx answer

/-- The last steps of a funded command, which broadcast the verified transaction. -/
def broadcastFunded (verified : VerifiedTransaction) : WalletM (Option Bytes32) := do
  WalletM.nodeClient
  match ← broadcastVerified noopRelease verified with
  | .rejected msg => throw ("broadcast rejected: " ++ msg)
  | .accepted | .unknown _ => return some verified.signed.txid

/-- A request is planned, confirmed, authorized and sent, in this order. -/
theorem executeRequest_eq (H : Hashing) (opts : SpendOptions) (request : TxRequest)
    (requiredZat : ℕ) : executeRequest H opts request requiredZat = (do
      mainnetGuard opts
      WalletM.nodeClient
      let source ← buildSource opts requiredZat
      let tip ← WalletM.canonicalTip
      let plan ← source.plan request (.new opts.network tip)
      if (← confirm opts) = false then return none
      else
        let verified ← authorize H plan
        broadcastFunded verified) := rfl

/-- Sending with its outcome is authorizing. -/
theorem broadcastFunded_uses (verified : VerifiedTransaction) :
    (broadcastFunded verified).run.Uses Authorizes := by
  rw [broadcastFunded]
  refine (plans_nodeClient.mono fun _ => authorizes_of_plans).run_bind fun _ =>
    (broadcastVerified_uses verified).run_bind fun outcome => ?_
  cases outcome <;> trivial

/-- **The calls of a funded command.** -/
theorem executeRequest_uses (H : Hashing) (opts : SpendOptions) (request : TxRequest)
    (requiredZat : ℕ) : (executeRequest H opts request requiredZat).run.Uses Funds := by
  have hplans : ∀ {α : Type} {x : WalletM α}, x.run.Uses Plans → x.run.Uses Funds :=
    fun h => h.mono fun _ h => funds_of_authorizes (authorizes_of_plans h)
  rw [executeRequest_eq]
  refine (mainnetGuard_uses opts).run_bind fun _ => (hplans plans_nodeClient).run_bind fun _ =>
    (hplans (buildSource_uses opts requiredZat)).run_bind fun source =>
    (hplans plans_canonicalTip).run_bind fun tip =>
    (hplans (source.plan_uses request _)).run_bind fun plan =>
    (hplans (confirm_uses opts)).run_bind fun confirmed => ?_
  split
  · trivial
  · exact (authorize_uses H plan).run_bind fun verified =>
      (broadcastFunded_uses verified).mono fun _ => funds_of_authorizes

end Calls

end Zalkanes
