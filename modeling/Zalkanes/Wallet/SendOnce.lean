import Zalkanes.Wallet.Broadcast

/-!
# Sending at Most Once

A plan whose row is at `Verified` is broadcast and reconciled, in any order and any number of
times, by calls that may stop at any point. Its transaction is sent at most once as long as no
write that moves the row to `Broadcasting` goes through while the row is already there
(`sends_once_of_run`). A stage may move to itself, so where the node's answer could not be written
to the journal the next broadcast of the plan sends the transaction again
(`not_sends_once_resend`).

## Main results

* `sends_once_of_run`: at most one send, and no release after a send that may have succeeded.
-/

namespace Zalkanes

open Lib

/-- The operations on a plan whose transaction is verified. -/
inductive BroadcastCall where
  | broadcast (tx : VerifiedTransaction)
  | reconcile (tip : CanonicalTip)

namespace BroadcastCall

/-- What a call returns. -/
abbrev Result : BroadcastCall → Type
  | broadcast _ => BroadcastOutcome
  | reconcile _ => ReconcileReport

/-- What a call runs. -/
def prog : (c : BroadcastCall) → Prog WalletEffect.Answer (Except String c.Result)
  | broadcast tx => (broadcastVerified WalletM.release tx).run
  | reconcile tip => (Zalkanes.reconcile WalletM.release tip).run

/-- What a call may do. -/
def Permits (O : Outside) : BroadcastCall → WalletEffect → World BroadcastCall → Prop
  | broadcast tx => BroadcastPermits (broadcast tx) tx
  | reconcile tip => ReconcilePermits O (reconcile tip) tip

/-- It does no more. -/
theorem permits (O : Outside) (c : BroadcastCall) (w : World BroadcastCall) :
    (c.prog).Spec (O.answers c) (c.Permits O) w fun _ _ => True := by
  cases c with
  | broadcast tx => exact broadcastVerified_permits O _ tx w
  | reconcile tip => exact reconcile_permits O _ tip w

end BroadcastCall

/-- Whether the entry is a submission of the plan's transaction. -/
def Happened.isSendOf (planId : String) (x : Happened BroadcastCall) : Bool :=
  match x.operation, x.effect with
  | .broadcast tx, .sendRawTransaction _ => tx.planId = planId
  | _, _ => false

/-- The submissions of the plan's transaction. -/
def World.sends (w : World BroadcastCall) (planId : String) : List (Happened BroadcastCall) :=
  w.history.filter (Happened.isSendOf planId)

/-- A plan's locks may be released: the one submission was explicitly rejected, or the transaction
was absent with the tip past its expiry and the margin. -/
def ReleaseLawful (planId : String) : BroadcastCall → World BroadcastCall → Prop
  | .broadcast tx, w => ∃ txHex code message, w.sends planId =
      [⟨.broadcast tx, .sendRawTransaction txHex, .rejected code message⟩]
  | .reconcile tip, w => ∃ row txid expiry, w.operation planId = some row ∧
      row.txid = some txid ∧ row.expiry = some expiry ∧
      w.Reported (.reconcile tip) txid .absent ∧
      expiry.toNat + expiryAbsentMargin.toNat < tip.height.toNat

/-- At most one submission so far, and every release that comes next is lawful. -/
structure SendsOnce (A : BroadcastCall → Answers WalletEffect.Answer (World BroadcastCall))
    (planId : String) (w : World BroadcastCall) : Prop where
  once : (w.sends planId).length ≤ 1
  lawful : ∀ (c : BroadcastCall) (w' : World BroadcastCall),
    Prog.Performs (A c) c.prog w (.release planId) w' → ReleaseLawful planId c w'

/-- The answer is not a write that moves the plan's row to `Broadcasting` from `Broadcasting`. -/
def NoResend (planId : String) : (e : WalletEffect) → e.Answer → Prop
  | .transition q .broadcasting _ _, r => q = planId → r ≠ Except.ok .broadcasting
  | _, _ => True

/-- The answers under which no write finds the plan's row at `Broadcasting` already. -/
def Outside.freshAnswers (O : Outside) (planId : String) (c : BroadcastCall) :
    Lib.Answers WalletEffect.Answer (World BroadcastCall) := fun w e r w' =>
  O.answers c w e r w' ∧ NoResend planId e r

section SendOnce

open Prog Outside

variable {O : Outside} {planId : String} {w w' : World BroadcastCall}

/-- Whether the entry is a write that moved the plan's row to `Broadcasting`. -/
def Happened.isMoveOf (planId : String) : Happened BroadcastCall → Bool
  | ⟨_, .transition q .broadcasting _ _, .ok _⟩ => q = planId
  | _ => false

/-- What holds at every point of the plan's runs. -/
structure SendInv (planId : String) (w : World BroadcastCall) : Prop where
  once : (w.sends planId).length ≤ 1
  /-- At `Verified` nothing was sent. -/
  unsent : ∀ row, w.operation planId = some row → row.stage = .verified → w.sends planId = []
  /-- Right after the row was moved to `Broadcasting` nothing was sent. -/
  fresh : ∀ x, w.history.getLast? = some x → x.isMoveOf planId = true → w.sends planId = []

/-- One more thing that happened. -/
theorem World.sends_append {x : Happened BroadcastCall} (hw : w'.history = w.history ++ [x])
    (planId : String) : w'.sends planId =
      w.sends planId ++ if x.isSendOf planId then [x] else [] := by
  rw [sends, hw, List.filter_append, List.filter_singleton, sends]
  cases x.isSendOf planId <;> rfl

/-- Something else than a send does not count. -/
theorem World.sends_of_not {x : Happened BroadcastCall} (hw : w'.history = w.history ++ [x])
    (hx : x.isSendOf planId = false) : w'.sends planId = w.sends planId := by
  rw [sends_append hw, hx, if_neg Bool.false_ne_true, List.append_nil]

/-- A call that leaves the journal as it was, and is neither a send nor such a write. -/
theorem SendInv.keep (h : SendInv planId w) {x : Happened BroadcastCall}
    (hhist : w'.history = w.history ++ [x]) (hs : w'.state.journal = w.state.journal)
    (hsend : x.isSendOf planId = false) (hmove : x.isMoveOf planId = false) :
    SendInv planId w' := by
  have hsends := World.sends_of_not hhist hsend
  refine ⟨hsends ▸ h.once, fun row hrow hverified => ?_, fun y hy hmoved => ?_⟩
  · rw [World.operation, hs] at hrow
    exact hsends ▸ h.unsent row hrow hverified
  · rw [hhist, List.getLast?_concat, Option.some.injEq] at hy
    rw [hy, hmoved] at hmove
    cases hmove

/-- Where the write of `Broadcasting` goes through, nothing was sent before. -/
theorem SendInv.sends_eq_nil_of_move (h : SendInv planId w) {row : OperationRow}
    (hrow : w.operation planId = some row) (hlegal : row.stage.canTransition .broadcasting = true)
    (hfresh : row.stage ≠ .broadcasting) : w.sends planId = [] := by
  refine h.unsent row hrow ?_
  revert hlegal hfresh
  cases row.stage <;> decide

/-- **A step** of a broadcast or a reconciliation. -/
theorem SendInv.step (h : SendInv planId w) {c : BroadcastCall} {e : WalletEffect} {r : e.Answer}
    (hpermits : c.Permits O e w) (ha : freshAnswers O planId c w e r w') : SendInv planId w' := by
  obtain ⟨ha, hfresh⟩ := ha
  cases e with
  | transition q target txid lastError =>
      obtain ⟨hhist, ⟨row, hrow, hlegal, rfl, hs⟩ | ⟨⟨e, rfl⟩, hs⟩⟩ := answers_transition ha
      · have hsends : w'.sends planId = w.sends planId := World.sends_of_not hhist (by
          cases c <;> rfl)
        have hverified : target ≠ .verified := by
          cases c with
          | broadcast tx =>
              obtain ⟨-, ⟨rfl, -⟩ | ⟨-, houtcome, -⟩⟩ := hpermits
              · decide
              · revert houtcome
                cases target <;> decide
          | reconcile tip =>
              obtain ⟨-, _, -, hmove⟩ := hpermits
              cases hmove <;> decide
        refine ⟨hsends ▸ h.once, fun row' hrow' hstage => ?_, fun x hx hmoved => ?_⟩
        · rw [World.operation_write hs] at hrow'
          by_cases hq : planId = q
          · -- the row was moved, and not to `Verified`
            rw [if_pos hq, World.operation, hq, hrow, Option.map_some, Option.some.injEq] at hrow'
            rw [← hrow'] at hstage
            exact absurd hstage hverified
          · rw [if_neg hq] at hrow'
            exact hsends ▸ h.unsent row' hrow' hstage
        · rw [hhist, List.getLast?_concat, Option.some.injEq] at hx
          subst hx
          rw [hsends]
          cases target with
          | broadcasting =>
              obtain rfl : q = planId := of_decide_eq_true hmoved
              exact h.sends_eq_nil_of_move hrow hlegal fun hstage =>
                hfresh rfl (congrArg Except.ok hstage)
          | _ => cases hmoved
      · refine h.keep hhist (by rw [hs]) (by cases c <;> rfl) ?_
        cases target <;> rfl
  | sendRawTransaction txHex =>
      obtain ⟨hstate, hhist⟩ := ha
      cases c with
      | reconcile tip => exact hpermits.elim
      | broadcast tx =>
          obtain ⟨-, ⟨row, hrow, hbroadcasting, -⟩, past, source, hlast⟩ := hpermits
          by_cases hplan : tx.planId = planId
          · have hnil : w.sends planId = [] := by
              refine h.fresh _ ((congrArg List.getLast? hlast).trans List.getLast?_concat) ?_
              exact decide_eq_true hplan
            have hsends : w'.sends planId = [⟨.broadcast tx, .sendRawTransaction txHex, r⟩] := by
              rw [World.sends_append hhist, hnil, List.nil_append]
              exact if_pos (decide_eq_true hplan)
            have hrow' : w'.operation planId = some row := by
              rw [World.operation_congr hstate, ← hplan, hrow]
            refine ⟨by rw [hsends]; exact le_rfl, fun row' h' hverified => ?_,
              fun x hx hmoved => ?_⟩
            · rw [hrow', Option.some.injEq] at h'
              rw [← h', hbroadcasting] at hverified
              cases hverified
            · rw [hhist, List.getLast?_concat, Option.some.injEq] at hx
              rw [← hx] at hmoved
              cases hmoved
          · exact h.keep hhist (by rw [hstate]) (decide_eq_false hplan) rfl
  | createPlan _ | driver _ => cases c <;> exact hpermits.elim
  | nonTerminalRows | canonicalTip | txStatus _ | lockedOutputs | release _ =>
      exact h.keep ha.2 (journal_of_answers ha rfl) (by cases c <;> rfl) rfl

/-- The locks are released lawfully. -/
theorem SendInv.releaseLawful (h : SendInv planId w) {c : BroadcastCall}
    (hpermits : c.Permits O (.release planId) w) : ReleaseLawful planId c w := by
  cases c with
  | broadcast tx =>
      obtain ⟨rfl, past, code, message, lastError, source, hhist⟩ := hpermits
      -- the send that was rejected is the only one
      have hmem : (⟨.broadcast tx, .sendRawTransaction (hexEncode tx.signed.bytes),
          .rejected code message⟩ : Happened BroadcastCall) ∈ w.sends tx.planId := by
        rw [World.sends, List.mem_filter, hhist]
        exact ⟨List.mem_append_right _ List.mem_cons_self, decide_eq_true rfl⟩
      obtain ⟨x, hx⟩ : ∃ x, w.sends tx.planId = [x] := by
        refine List.length_eq_one_iff.mp (le_antisymm h.once ?_)
        exact List.length_pos_of_mem hmem
      rw [hx, List.mem_singleton] at hmem
      exact ⟨_, code, message, hx.trans (by rw [hmem])⟩
  | reconcile tip =>
      obtain ⟨row, hrow, -, hexpired, ⟨txid, htxid, -, hreported⟩, -⟩ := hpermits
      obtain ⟨expiry, hexpiry, hlt⟩ := Operation.definitelyExpired_iff.mp hexpired
      exact ⟨row, txid, expiry, hrow, htxid, hexpiry, hreported, hlt⟩

/-- No more is done where transactions are not sent again. -/
theorem BroadcastCall.permits_fresh (O : Outside) (c : BroadcastCall)
    (w : World BroadcastCall) :
    (c.prog).Spec (freshAnswers O planId c) (c.Permits O) w fun _ _ => True :=
  (c.permits O w).weaken (fun _ _ _ _ h => h.1) fun _ _ h => h

/-- **At most one send.** From a plan that nothing was sent for, in particular from one whose row
was moved to `Verified`, whatever the node answers and whatever writes fail, as long as no write
that moves the row to `Broadcasting` finds it there. -/
theorem sends_once_of_run (O : Outside) (planId : String) {w w' : World BroadcastCall}
    (hhistory : w.history = [])
    (hrun : Runs (freshAnswers O planId) BroadcastCall.prog w w') :
    SendsOnce (freshAnswers O planId) planId w' := by
  have hstart : SendInv planId w := by
    have hsends : w.sends planId = [] := by rw [World.sends, hhistory, List.filter_nil]
    refine ⟨by rw [hsends]; exact Nat.zero_le _, fun _ _ _ => hsends, fun x hx _ => ?_⟩
    rw [hhistory, List.getLast?_nil] at hx
    cases hx
  have hspec : ∀ (c : BroadcastCall) (v : World BroadcastCall), SendInv planId v →
      (c.prog).Spec (freshAnswers O planId c) (fun e v => c.Permits O e v ∧ SendInv planId v) v
        fun _ v => True ∧ SendInv planId v :=
    fun c v hv => (c.permits_fresh O v).invariant (fun _ _ _ _ h hok ha => h.step hok ha) hv
  have hend : SendInv planId w' :=
    hrun.invariant (fun c v hv => (hspec c v hv).mono fun _ _ h => h.2) (fun _ _ _ h => h.2) hstart
  exact ⟨hend.once, fun c v hperforms =>
    have hpermits := (hspec c w' hend).of_performs hperforms
    hpermits.2.releaseLawful hpermits.1⟩

/-- A broadcast whose submission is ambiguous and whose outcome cannot be written sends the
transaction, and leaves the row at `Broadcasting`. -/
theorem exists_lost_answer (O : Outside) (planId : String) (hfaulty : O.faulty)
    (tx : VerifiedTransaction) {row : OperationRow}
    (hrow : w.operation tx.planId = some row)
    (hlegal : row.stage.canTransition .broadcasting = true)
    (hfresh : tx.planId = planId → row.stage ≠ .broadcasting) :
    ∃ w', Visits (freshAnswers O planId (.broadcast tx)) (BroadcastCall.broadcast tx).prog w w' ∧
      (w'.sends tx.planId).length = (w.sends tx.planId).length + 1 ∧
      ∃ row', w'.operation tx.planId = some row' ∧ row'.stage = .broadcasting := by
  let x₁ : Happened BroadcastCall := ⟨.broadcast tx, .canonicalTip, Except.ok tx.verifiedTip⟩
  let x₂ : Happened BroadcastCall :=
    ⟨.broadcast tx, .transition tx.planId .broadcasting (some tx.txidHex) none,
      Except.ok row.stage⟩
  let x₃ : Happened BroadcastCall :=
    ⟨.broadcast tx, .sendRawTransaction (hexEncode tx.signed.bytes), .ambiguous "timeout"⟩
  let x₄ : Happened BroadcastCall :=
    ⟨.broadcast tx, .transition tx.planId .broadcastUnknown none (some "timeout"),
      Except.error "journal tx: disk I/O error"⟩
  let moved : WalletState :=
    { w.state with
      journal := w.state.journal.write tx.planId .broadcasting (some tx.txidHex) none }
  let w₁ : World BroadcastCall := ⟨w.state, w.history ++ [x₁]⟩
  let w₂ : World BroadcastCall := ⟨moved, w.history ++ [x₁] ++ [x₂]⟩
  let w₃ : World BroadcastCall := ⟨moved, w.history ++ [x₁] ++ [x₂] ++ [x₃]⟩
  let w₄ : World BroadcastCall := ⟨moved, w.history ++ [x₁] ++ [x₂] ++ [x₃] ++ [x₄]⟩
  refine ⟨w₄, ?_, ?_, ?_⟩
  · have h₁ : freshAnswers O planId (.broadcast tx) w .canonicalTip (Except.ok tx.verifiedTip) w₁ :=
      ⟨⟨rfl, rfl⟩, trivial⟩
    refine .perform h₁ ?_
    change Visits _ (ite (tx.verifiedTip ≠ tx.verifiedTip) _ _ : WalletM BroadcastOutcome).run w₁ _
    rw [if_neg (not_not.mpr rfl)]
    have h₂ : freshAnswers O planId (.broadcast tx) w₁
        (.transition tx.planId .broadcasting (some tx.txidHex) none) (Except.ok row.stage) w₂ :=
      ⟨⟨Or.inr (Or.inl ⟨row.stage, _, Journal.transition_eq_ok.mpr ⟨row, hrow, rfl, hlegal, rfl⟩,
        rfl, rfl⟩), rfl⟩, fun hplan hstage => hfresh hplan (Except.ok.inj hstage)⟩
    refine .perform h₂ ?_
    have h₃ : freshAnswers O planId (.broadcast tx) w₂
        (.sendRawTransaction (hexEncode tx.signed.bytes)) (.ambiguous "timeout") w₃ :=
      ⟨⟨rfl, rfl⟩, trivial⟩
    refine .perform h₃ ?_
    have h₄ : freshAnswers O planId (.broadcast tx) w₃
        (.transition tx.planId .broadcastUnknown none (some "timeout"))
        (Except.error "journal tx: disk I/O error") w₄ :=
      ⟨⟨Or.inl ⟨hfaulty, rfl, _, rfl⟩, rfl⟩, trivial⟩
    exact .perform h₄ (.here _ _)
  · have hsends : w₄.sends tx.planId = w.sends tx.planId ++ [x₃] := by
      simp [World.sends, w₄, List.filter_append, Happened.isSendOf, x₁, x₂, x₃, x₄]
    rw [hsends, List.length_append, List.length_singleton]
  · refine ⟨row.moved .broadcasting (some tx.txidHex) none, ?_, rfl⟩
    have hwrite : w₄.operation tx.planId = if tx.planId = tx.planId then _ else _ :=
      Journal.operation_write w.state.journal _ _ _ _ _
    rw [hwrite, if_pos rfl]
    exact congrArg (Option.map _) hrow

/-- A world whose one operation is at `Verified`. -/
def verifiedWorld : World BroadcastCall where
  state := {
    journal := {
      rows := [⟨⟨⟨"plan", "", "call", "shielded", "", 1, "", 2, "", some 40⟩, .verified, none,
        none⟩, 0⟩]
      unique := List.nodup_singleton _ }
    locks := [] }
  history := []

/-- A transaction to send. -/
def verifiedTx : VerifiedTransaction := ⟨⟨[], .replicate 0⟩, "plan", "", ⟨1, .replicate 0⟩⟩

/-- An answer that is lost, and a pass that finds the transaction. -/
theorem sends_once_of_run_lost_answer : ∃ w',
    Runs (freshAnswers anyOutside "plan") BroadcastCall.prog verifiedWorld w' ∧
    (w'.sends "plan").length = 1 ∧ SendsOnce (freshAnswers anyOutside "plan") "plan" w' := by
  obtain ⟨w', hvisits, hsends, -⟩ := exists_lost_answer (w := verifiedWorld) anyOutside "plan"
    trivial verifiedTx rfl rfl fun _ => by decide
  have hrun := Runs.snoc (.nil verifiedWorld) _ hvisits
  exact ⟨w', hrun, hsends, sends_once_of_run anyOutside "plan" rfl hrun⟩

/-- The answer to the first submission is lost, and the next broadcast sends again. -/
theorem not_sends_once_resend :
    ¬ ∀ (O : Outside) (planId : String) (w w' : World BroadcastCall),
      w.state.journal.stage planId = some .verified → w.history = [] →
      Runs O.answers BroadcastCall.prog w w' → SendsOnce O.answers planId w' := by
  intro h
  have hother : verifiedTx.planId ≠ "" := by decide
  obtain ⟨w₁, hvisits₁, hsends₁, row, hrow, hstage⟩ := exists_lost_answer (w := verifiedWorld)
    anyOutside "" trivial verifiedTx rfl rfl fun hplan => absurd hplan hother
  obtain ⟨w₂, hvisits₂, hsends₂, -⟩ := exists_lost_answer anyOutside "" trivial verifiedTx hrow
    (by rw [hstage]; rfl) fun hplan => absurd hplan hother
  have hrun := Runs.snoc (.snoc (.nil verifiedWorld) _ (hvisits₁.mono fun _ _ _ _ h => h.1)) _
    (hvisits₂.mono fun _ _ _ _ h => h.1)
  have honce := (h anyOutside "plan" _ _ rfl rfl hrun).once
  have htwice : (w₂.sends "plan").length = 0 + 1 + 1 :=
    hsends₂.trans (congrArg (· + 1) hsends₁)
  omega

end SendOnce

end Zalkanes
