import Zalkanes.Wallet.Planning

/-!
# Runs of Funded Commands

What any number of funded commands, each of which may be interrupted, leave in the journal and among
the note locks. No command releases a lock, and every row is as `record_plan` writes it: the owner
of a shielded plan holds a lock, since its notes were reserved before the row was written
(`rows_recorded`).

## Main results

* `rows_recorded`: what the rows of a journal record, wherever the commands were interrupted.
-/

namespace Zalkanes

open Lib

/-- A funded command. -/
structure FundedCall where
  opts : SpendOptions
  request : TxRequest
  requiredZat : ℕ

/-- What a call runs. -/
def FundedCall.prog (H : Hashing) (c : FundedCall) :
    Prog WalletEffect.Answer (Except String (Option Bytes32)) :=
  (executeRequest H c.opts c.request c.requiredZat).run

/-- Some note is locked under the owner of the plan. -/
def WalletState.Holds (H : Hashing) (s : WalletState) (planId : String) : Prop :=
  ∃ l ∈ s.locks, l.ownerHex = lockOwnerHex H planId

/-- What is recorded of an operation is what `record_plan` writes of a plan. -/
inductive Operation.Recorded (H : Hashing) (s : WalletState) (operation : Operation) : Prop
  | shielded (hmode : operation.fundingMode = "shielded")
      (howner : operation.lockOwner = lockOwnerHex H operation.planId)
      (hholds : s.Holds H operation.planId)
  | transparent (hmode : operation.fundingMode = "transparent") (howner : operation.lockOwner = "")

/-- Every row is as `record_plan` writes it. -/
def WalletState.RowsRecorded (H : Hashing) (s : WalletState) : Prop :=
  ∀ planId row, s.journal.operation planId = some row → row.Recorded H s

section FundedRuns

open Prog Outside

variable {C : Type} {O : Outside} {c : C} {w w' : World C} {planId : String}

/-! ### Locks -/

/-- A funded command releases no lock. -/
theorem locks_subset_of_funds {e : WalletEffect} {r : e.Answer} (h : O.answers c w e r w')
    (he : Funds e) : w.state.locks ⊆ w'.state.locks := by
  have hsame : w'.state.locks = w.state.locks → w.state.locks ⊆ w'.state.locks :=
    fun h => h ▸ List.Subset.refl _
  cases e with
  | createPlan operation =>
      obtain ⟨⟨-, hs, -⟩ | ⟨now, ⟨j, -, -, hs⟩ | ⟨e, -, -, hs⟩⟩, -⟩ := h <;>
        exact hsame (by rw [hs])
  | transition planId target txid lastError =>
      obtain ⟨-, ⟨row, -, -, -, hs⟩ | ⟨-, hs⟩⟩ := answers_transition h <;>
        exact hsame (by rw [hs])
  | canonicalTip | sendRawTransaction _ => exact hsame (by rw [h.1])
  | driver e =>
      cases e with
      | selectSpends required planId =>
          obtain ⟨⟨-, ⟨e, -, hs⟩ | ⟨selection, -, -, -, hs⟩⟩, -⟩ := h
          · exact hsame hs
          · rw [hs]
            exact List.subset_append_left _ _
      | _ => exact hsame (by rw [h.1])
  | nonTerminalRows | txStatus _ | lockedOutputs | release _ => exact he.elim

/-- More locks hold as much. -/
theorem WalletState.Holds.mono {H : Hashing} {s s' : WalletState} (h : s.Holds H planId)
    (hs : s.locks ⊆ s'.locks) : s'.Holds H planId := by
  obtain ⟨l, hl, howner⟩ := h
  exact ⟨l, hs hl, howner⟩

/-- Funding keeps what is held. -/
theorem holds_of_funds {H : Hashing} {e : WalletEffect} {r : e.Answer}
    (hholds : w.state.Holds H planId) (he : Funds e) (h : O.answers c w e r w') :
    w'.state.Holds H planId :=
  hholds.mono (locks_subset_of_funds h he)

/-- A part of planning whose result is not asked for. -/
theorem spec_plans {α : Type} {p : Prog WalletEffect.Answer α} (hp : p.Uses Plans) :
    Spec (O.answers c) (fun e _ => Plans e) p w fun _ _ => True :=
  hp.spec w

/-- What was selected is locked. -/
theorem spec_selectRounds_holds (request : TxRequest) (requiredValue : ℕ)
    (rounds required : ℕ) :
    Spec (O.answers c) (fun e _ => Plans e)
      (selectRounds request requiredValue planId rounds required).run w fun r w' =>
        ∀ selected, r = .ok selected → w'.state.Holds O.hashing planId := by
  induction rounds generalizing required w with
  | zero => exact fun _ h => by cases h
  | succ rounds ih =>
      rw [selectRounds, spec_run_bind, spec_ask]
      refine ⟨rfl, fun r w₁ h => ?_⟩
      obtain ⟨⟨-, ⟨e, rfl, -⟩ | ⟨selection, rfl, hne, -, hlocks⟩⟩, -⟩ := h
      · exact fun _ h => by cases h
      · have hholds : w₁.state.Holds O.hashing planId := by
          obtain ⟨ref, href⟩ := List.exists_mem_of_ne_nil _ hne
          refine ⟨⟨ref, lockOwnerHex O.hashing planId⟩, ?_, rfl⟩
          rw [hlocks]
          exact List.mem_append_right _ (List.mem_map_of_mem href)
        dsimp only
        rw [spec_run_bind, spec_ofResult]
        dsimp only
        rw [spec_run_bind, spec_ask]
        refine ⟨rfl, fun fee w₂ h => ?_⟩
        have hholds₂ : w₂.state.Holds O.hashing planId :=
          holds_of_funds hholds (show Funds (.driver _) from trivial) h
        dsimp only
        rw [spec_run_bind, spec_ofResult]
        cases fee with
        | error e => exact fun _ h => by cases h
        | ok fee =>
            dsimp only
            cases checkedAdd requiredValue fee with
            | none => exact fun _ h => by cases h
            | some totalNeeded =>
                dsimp only
                by_cases henough : selection.selectedValue > totalNeeded
                · rw [if_pos henough]
                  exact fun _ _ => hholds₂
                · rw [if_neg henough]
                  exact ih _

/-- What is selected is held for the plan. -/
theorem spec_selectFor_holds (request : TxRequest) (requiredValue : ℕ) :
    Spec (O.answers c) (fun e _ => Plans e) (selectFor request requiredValue planId).run w
      fun r w' => ∀ selected, r = .ok selected → w'.state.Holds O.hashing planId := by
  unfold selectFor
  generalize checkedAdd requiredValue minimumFee = required, maxSelectIterations = rounds
  cases required with
  | none => exact fun _ h => by cases h
  | some required => exact spec_selectRounds_holds request requiredValue rounds required

-- the bound of the first round is not to be computed
attribute [local irreducible] selectFor

/-- A plan that was made, and is shielded, has its notes locked. -/
def PlanHolds (H : Hashing) (r : Except String FundingPlan) (w : World C) : Prop :=
  ∀ plan, r = .ok plan → plan.pool = .shielded → w.state.Holds H plan.planId

/-- A shielded plan is one that holds its notes. -/
theorem spec_shieldedPlan_holds {request : TxRequest} {ctx : FundContext}
    {selection : ShieldedSelection} {change : ℕ} (hholds : w.state.Holds O.hashing planId) :
    Spec (O.answers c) (fun e _ => Plans e)
      (shieldedPlan request ctx planId selection change).run w (PlanHolds O.hashing) := by
  rw [shieldedPlan, spec_run_bind, spec_ask]
  refine ⟨rfl, fun built w' h => ?_⟩
  dsimp only
  rw [spec_run_bind, spec_ofResult]
  cases built with
  | error e => exact fun _ h => by cases h
  | ok built =>
      intro plan hplan _
      rw [← Except.ok.inj hplan]
      exact holds_of_funds hholds (show Funds (.driver _) from trivial) h

/-- **Planning** locks the notes of the plan that it makes. -/
theorem FundingSource.spec_plan_holds (source : FundingSource) (request : TxRequest)
    (ctx : FundContext) :
    Spec (O.answers c) (fun e _ => Plans e) (source.plan request ctx).run w
      (PlanHolds O.hashing) := by
  have hvalidate : ∀ {Q : Except String Unit → World C → Prop},
      (∀ r, Q r w) → Spec (O.answers c) (fun e _ => Plans e) ctx.validate.run w Q := fun h => by
    rw [FundContext.validate]
    split
    · exact h _
    · exact h _
  cases source with
  | shielded carrierKey =>
      rw [FundingSource.plan.eq_def]
      dsimp only
      rw [spec_run_bind]
      refine hvalidate fun r => ?_
      cases r with
      | error e => exact fun _ h => by cases h
      | ok _ =>
          cases request with
          | call opReturn =>
              change Spec _ _ (planCall opReturn ctx).run w _
              rw [planCall, spec_run_bind, spec_ask]
              refine ⟨rfl, fun planId w₁ _ => ?_⟩
              dsimp only
              rw [spec_run_bind]
              refine (spec_selectFor_holds _ _).mono fun r w₂ h => ?_
              cases r with
              | error e => exact fun _ h => by cases h
              | ok selected => exact spec_shieldedPlan_holds (h selected rfl)
          | prepare carrierValues =>
              change Spec _ _ (ite _ _ _ : WalletM FundingPlan).run w _
              by_cases hkey : carrierKey = false
              · rw [if_pos hkey]
                exact fun _ h => by cases h
              · rw [if_neg hkey, planPrepare]
                by_cases hempty : carrierValues = []
                · rw [if_pos hempty]
                  exact fun _ h => by cases h
                · rw [if_neg hempty]
                  dsimp only
                  rw [spec_run_bind, spec_ask]
                  refine ⟨rfl, fun planId w₁ _ => ?_⟩
                  dsimp only
                  rw [spec_run_bind]
                  refine (spec_selectFor_holds _ _).mono fun r w₂ h => ?_
                  cases r with
                  | error e => exact fun _ h => by cases h
                  | ok selected =>
                      dsimp only
                      by_cases hless : selected.1.selectedValue <
                          carrierValues.sum % 2 ^ 64 + selected.2
                      · rw [if_pos hless]
                        exact fun _ h => by cases h
                      · rw [if_neg hless]
                        exact spec_shieldedPlan_holds (h selected rfl)
          | deploy _ _ _ _ => exact fun _ h => by cases h
  | transparent utxos =>
      rw [FundingSource.plan.eq_def]
      dsimp only
      rw [spec_run_bind]
      refine hvalidate fun r => ?_
      cases r with
      | error e => exact fun _ h => by cases h
      | ok _ =>
          change Spec _ _ (transparentPlan request utxos ctx).run w _
          rw [transparentPlan]
          by_cases hempty : utxos = []
          · rw [if_pos hempty]
            exact fun _ h => by cases h
          · rw [if_neg hempty, spec_run_bind, spec_ask]
            refine ⟨rfl, fun built w₁ _ => ?_⟩
            dsimp only
            rw [spec_run_bind, spec_ofResult]
            cases built with
            | error e => exact fun _ h => by cases h
            | ok built =>
                dsimp only
                rw [spec_run_bind, spec_ask]
                refine ⟨rfl, fun planId w₂ _ plan hplan hpool => ?_⟩
                rw [← Except.ok.inj hplan] at hpool
                cases hpool

/-! ### The journal -/

/-- The calls of a funded command, and the worlds that it records a plan in. -/
def RecordsPlan (H : Hashing) (e : WalletEffect) (w : World C) : Prop :=
  Funds e ∧ ∀ operation, e = .createPlan operation → operation.Recorded H w.state

/-- Authorizing records no other plan. -/
theorem records_of_authorizes {H : Hashing} {e : WalletEffect} (h : Authorizes e) :
    RecordsPlan H e w :=
  ⟨funds_of_authorizes h, fun operation he => by
    rw [he] at h
    exact h.elim⟩

/-- Planning records none. -/
theorem records_of_plans {H : Hashing} {e : WalletEffect} (h : Plans e) : RecordsPlan H e w :=
  records_of_authorizes (authorizes_of_plans h)

/-- A program that plans records none. -/
theorem spec_records_of_plans {H : Hashing} {α : Type} {p : Prog WalletEffect.Answer α}
    {Q : α → World C → Prop} (h : Spec (O.answers c) (fun e _ => Plans e) p w Q) :
    Spec (O.answers c) (RecordsPlan H) p w Q :=
  h.weaken (fun _ _ _ _ h => h) fun _ _ => records_of_plans

/-- A program that authorizes records no other plan. -/
theorem spec_records_of_authorizes {H : Hashing} {α : Type} {p : Prog WalletEffect.Answer α}
    (h : p.Uses Authorizes) : Spec (O.answers c) (RecordsPlan H) p w fun _ _ => True :=
  (h.spec w).weaken (fun _ _ _ _ h => h) fun _ _ => records_of_authorizes

/-- A plan is recorded while its notes are locked. -/
theorem spec_authorize_records {plan : FundingPlan}
    (hholds : plan.pool = .shielded → w.state.Holds O.hashing plan.planId) :
    Spec (O.answers c) (RecordsPlan O.hashing) (authorize O.hashing plan).run w
      fun _ _ => True := by
  rw [authorize_eq, spec_run_bind, spec_ask]
  refine ⟨records_of_plans rfl, fun r w' h => ?_⟩
  obtain ⟨hstate, -⟩ := h
  dsimp only
  rw [spec_run_bind, spec_ofResult]
  cases r with
  | error e => trivial
  | ok _ =>
      change Spec _ _ (recordPlan O.hashing plan >>= fun _ => authorizeRecorded plan).run w' _
      rw [spec_run_bind, recordPlan, spec_run_bind]
      refine ⟨⟨trivial, fun operation he => ?_⟩, fun r w'' _ => ?_⟩
      · cases he
        rw [hstate]
        cases hpool : plan.pool with
        | shielded => exact .shielded rfl rfl (hholds hpool)
        | transparent => exact .transparent rfl rfl
      · cases r with
        | error e => trivial
        | ok _ =>
            dsimp only
            rw [spec_done, spec_run_bind]
            refine ⟨records_of_authorizes (show JournalStage.reserved ≠ .mined by decide),
              fun r v _ => ?_⟩
            cases r with
            | error e => trivial
            | ok _ => exact spec_records_of_authorizes (authorizeRecorded_uses plan)

/-- **The calls of a funded command**, and the worlds that it records a plan in. -/
theorem FundedCall.records (O : Outside) (c : FundedCall) (w : World FundedCall) :
    Spec (O.answers c) (RecordsPlan O.hashing) (c.prog O.hashing) w fun _ _ => True := by
  rw [prog, executeRequest_eq]
  have hplans : ∀ {α : Type} {x : WalletM α} {f : α → WalletM (Option Bytes32)} {w},
      x.run.Uses Plans → (∀ a w', Spec (O.answers c) (RecordsPlan O.hashing) (f a).run w'
        fun _ _ => True) → Spec (O.answers c) (RecordsPlan O.hashing) (x >>= f).run w
          fun _ _ => True := fun hx hf => by
    rw [spec_run_bind]
    refine (spec_records_of_plans (spec_plans hx)).mono fun r w' _ => ?_
    cases r with
    | error e => trivial
    | ok a => exact hf a w'
  refine hplans (mainnetGuard_uses c.opts) fun _ w => ?_
  refine hplans plans_nodeClient fun _ w => ?_
  refine hplans (buildSource_uses c.opts c.requiredZat) fun source w => ?_
  refine hplans plans_canonicalTip fun tip w => ?_
  rw [spec_run_bind]
  refine (spec_records_of_plans (source.spec_plan_holds c.request _)).mono fun r w hholds => ?_
  cases r with
  | error e => trivial
  | ok plan =>
      dsimp only
      rw [spec_run_bind]
      have hconfirm : Spec (O.answers c) (fun e _ => Plans e) (confirm c.opts).run w fun _ w' =>
          plan.pool = .shielded → w'.state.Holds O.hashing plan.planId := by
        refine (confirm_uses c.opts).preserves (fun _ _ _ _ h he ha hpool => ?_)
          (hholds plan rfl)
        exact holds_of_funds (h hpool) (funds_of_authorizes (authorizes_of_plans he)) ha
      refine (spec_records_of_plans hconfirm).mono fun r w' hholds' => ?_
      cases r with
      | error e => trivial
      | ok confirmed =>
          dsimp only
          by_cases hno : confirmed = false
          · rw [if_pos hno]
            trivial
          · rw [if_neg hno, spec_run_bind]
            refine (spec_authorize_records hholds').mono fun r w'' _ => ?_
            cases r with
            | error e => trivial
            | ok verified => exact spec_records_of_authorizes (broadcastFunded_uses verified)

/-- A row that was recorded stays so among more locks. -/
theorem Operation.Recorded.mono {H : Hashing} {s s' : WalletState} {operation : Operation}
    (h : operation.Recorded H s) (hs : s.locks ⊆ s'.locks) : operation.Recorded H s' := by
  cases h with
  | shielded hmode howner hholds => exact .shielded hmode howner (hholds.mono hs)
  | transparent hmode howner => exact .transparent hmode howner

/-- **A step** of a funded command. -/
theorem rowsRecorded_step {H : Hashing} {e : WalletEffect} {r : e.Answer}
    (h : w.state.RowsRecorded H) (hok : RecordsPlan H e w) (ha : O.answers c w e r w') :
    w'.state.RowsRecorded H := by
  have hlocks := locks_subset_of_funds ha hok.1
  have hkeep : w'.state.journal = w.state.journal → w'.state.RowsRecorded H :=
    fun hs planId row hrow => (h planId row (hs ▸ hrow)).mono hlocks
  cases e with
  | createPlan operation =>
      have hrecorded := (hok.2 operation rfl).mono hlocks
      obtain ⟨⟨-, hs, -⟩ | ⟨now, ⟨j, hj, -, hs⟩ | ⟨e, -, -, hs⟩⟩, -⟩ := ha
      · exact hkeep (by rw [hs])
      · rcases Journal.createPlan_eq_ok hj with ⟨rfl, -⟩ | ⟨-, hrows⟩
        · exact hkeep (by rw [hs])
        · intro planId row hrow
          rw [hs, hrows] at hrow
          by_cases hplan : planId = operation.planId
          · rw [if_pos hplan, Option.some.injEq] at hrow
            rw [← hrow]
            exact hrecorded
          · rw [if_neg hplan] at hrow
            exact (h planId row hrow).mono hlocks
      · exact hkeep (by rw [hs])
  | transition planId target txid lastError =>
      obtain ⟨-, ⟨cur, hcur, -, -, hs⟩ | ⟨-, hs⟩⟩ := answers_transition ha
      · intro q row hrow
        rw [hs, Journal.operation_write] at hrow
        by_cases hq : q = planId
        · rw [if_pos hq, hq, hcur, Option.map_some, Option.some.injEq] at hrow
          rw [← hrow]
          exact (h planId cur hcur).mono hlocks
        · rw [if_neg hq] at hrow
          exact (h q row hrow).mono hlocks
      · exact hkeep (by rw [hs])
  | canonicalTip | sendRawTransaction _ | driver _ => exact hkeep (journal_of_answers ha rfl)
  | nonTerminalRows | txStatus _ | lockedOutputs | release _ => exact hok.1.elim

/-- **What the rows record**, wherever the commands were interrupted. -/
theorem rows_recorded {w w' : World FundedCall} (h : w.state.RowsRecorded O.hashing)
    (hrun : Runs O.answers (FundedCall.prog O.hashing) w w') :
    w'.state.RowsRecorded O.hashing := by
  have hcall : ∀ (c : FundedCall) (v : World FundedCall), v.state.RowsRecorded O.hashing →
      Spec (O.answers c) (fun e v => RecordsPlan O.hashing e v ∧ v.state.RowsRecorded O.hashing)
        (c.prog O.hashing) v fun _ v => v.state.RowsRecorded O.hashing := fun c v hv =>
    ((c.records O v).invariant (fun _ _ _ _ h hok ha => rowsRecorded_step h hok ha) hv).mono
      fun _ _ h => h.2
  exact hrun.invariant hcall (fun _ _ _ h => h.2) h

end FundedRuns

/-! ### A run where nothing fails -/

/-- The answers of surroundings where nothing fails: one note and one output to spend, and a node
that is at height 1. -/
def smoothDriver (s : WalletState) : (e : DriverEffect) → e.Answer × WalletState
  | .walletExists | .sessionIsArmed | .signingKey => (true, s)
  | .unlockWallet | .nodeClient | .scanToTip | .openJournal | .createProofs _
  | .applySignatures _ | .verifyExtracted _ _ => (.ok (), s)
  | .balance => (.ok 1000000, s)
  | .getFee _ _ => (.ok 10000, s)
  | .transparentUtxos => (.ok [⟨⟨.replicate 0, 0⟩, 1000000⟩], s)
  | .newPlanId => ("plan", s)
  | .readLine => ("y", s)
  | .selectSpends _ planId =>
      if s.locks.all fun l => l.outputRef ≠ "orchard:00:0" then
        (.ok ⟨1000000, 1, ["orchard:00:0"]⟩,
          { s with locks := s.locks ++ [⟨"orchard:00:0", lockOwnerHex anyOutside.hashing planId⟩] })
      else (.error "insufficient funds", s)
  | .buildShielded _ _ _ | .buildTransparent _ _ => (.ok ⟨"", 0, ""⟩, s)
  | .extractTransaction _ => (.ok ⟨[], .replicate 0⟩, s)

/-- A wallet in which nothing fails. -/
def smoothAnswer (s : WalletState) : (e : WalletEffect) → e.Answer × WalletState
  | .createPlan operation =>
      match s.journal.createPlan operation 0 with
      | .ok j => (.ok (), { s with journal := j })
      | .error e => (.error e, s)
  | .transition planId target txid lastError =>
      match s.journal.transition planId target txid lastError with
      | .ok (source, j) => (.ok source, { s with journal := j })
      | .error e => (.error e, s)
  | .nonTerminalRows | .lockedOutputs => (.error "database is locked", s)
  | .canonicalTip => (.ok ⟨1, .replicate 0⟩, s)
  | .txStatus _ => (.ok .absent, s)
  | .sendRawTransaction _ => (.rejected (-26) "bad-txns", s)
  | .release planId =>
      (.ok (), ⟨s.journal, s.locks.filter fun l =>
        l.ownerHex ≠ lockOwnerHex anyOutside.hashing planId⟩)
  | .driver e => smoothDriver s e

/-- It answers as a wallet may. -/
theorem answers_smoothAnswer (s : WalletState) (e : WalletEffect) :
    anyOutside.Answers s e (smoothAnswer s e).1 (smoothAnswer s e).2 := by
  cases e with
  | createPlan operation =>
      cases hcreate : s.journal.createPlan operation 0 with
      | ok j =>
          simp only [smoothAnswer, hcreate]
          exact Or.inr ⟨0, Or.inl ⟨j, hcreate, rfl, rfl⟩⟩
      | error e =>
          simp only [smoothAnswer, hcreate]
          exact Or.inr ⟨0, Or.inr ⟨e, hcreate, rfl, rfl⟩⟩
  | transition planId target txid lastError =>
      cases hmove : s.journal.transition planId target txid lastError with
      | ok moved =>
          simp only [smoothAnswer, hmove]
          exact Or.inr (Or.inl ⟨moved.1, moved.2, hmove, rfl, rfl⟩)
      | error e =>
          simp only [smoothAnswer, hmove]
          exact Or.inr (Or.inr ⟨e, hmove, rfl, rfl⟩)
  | nonTerminalRows | lockedOutputs => exact Or.inl ⟨trivial, rfl, _, rfl⟩
  | canonicalTip | sendRawTransaction _ => rfl
  | txStatus _ => exact ⟨rfl, trivial⟩
  | release planId => exact ⟨rfl, Or.inl ⟨rfl, rfl⟩⟩
  | driver e =>
      cases e with
      | selectSpends required planId =>
          rw [smoothAnswer, smoothDriver]
          by_cases hfree : (s.locks.all fun l => l.outputRef ≠ "orchard:00:0") = true
          · rw [if_pos hfree]
            refine ⟨rfl, Or.inr ⟨_, rfl, List.cons_ne_nil _ _, fun ref href l hl => ?_, rfl⟩⟩
            rw [List.mem_singleton.mp href]
            simpa using List.all_eq_true.mp hfree l hl
          · rw [if_neg hfree]
            exact ⟨rfl, Or.inl ⟨_, rfl, rfl⟩⟩
      | _ => rfl

/-- A call on it, with its history. -/
def FundedCall.smooth (c : FundedCall) (w : World FundedCall) (e : WalletEffect) :
    e.Answer × World FundedCall :=
  ((smoothAnswer w.state e).1, ⟨(smoothAnswer w.state e).2,
    w.history ++ [⟨c, e, (smoothAnswer w.state e).1⟩]⟩)

/-- It answers calls as a wallet may. -/
theorem FundedCall.answers_smooth (c : FundedCall) (w : World FundedCall) (e : WalletEffect) :
    anyOutside.answers c w e (c.smooth w e).1 (c.smooth w e).2 :=
  ⟨answers_smoothAnswer w.state e, rfl⟩

/-- A wallet with nothing in its journal and nothing locked. -/
def freshWorld : World FundedCall := ⟨⟨.empty, []⟩, []⟩

/-- The world after so many calls of the command, where nothing fails. -/
def FundedCall.after (c : FundedCall) (n : ℕ) : World FundedCall :=
  (Prog.runFor c.smooth n (c.prog anyOutside.hashing) freshWorld).2

/-- Each state on the way is one of a run. -/
theorem FundedCall.runs_after (c : FundedCall) (n : ℕ) :
    Prog.Runs anyOutside.answers (FundedCall.prog anyOutside.hashing) freshWorld (c.after n) :=
  .snoc (.nil _) c (Prog.visits_runFor c.answers_smooth n _ _)

/-- A call of a contract, funded so. -/
def fundedCall (funding : FundingMode) : FundedCall :=
  ⟨⟨.regtest, funding, false, true, false⟩, .call [], 0⟩

end Zalkanes
