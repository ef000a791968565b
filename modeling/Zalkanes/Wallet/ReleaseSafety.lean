import Zalkanes.Wallet.Recovery

/-!
# Release Safety

Recovery and reconciliation never free the notes of a transaction that may still confirm. A plan
whose row is at a stage before `Signing` never was at `Signing` (`SigningInv`), because no
transition of the stage machine leads back, and recovery releases only what it has just cancelled
from such a stage.

## Main results

* `recovery_safe`: over every run, releases are safe and no move that is attempted is refused.
-/

namespace Zalkanes

open Lib

/-- The operations on the journal: what drives a plan, and the two passes. -/
inductive RecoveryCall where
  | createPlan (operation : Operation)
  | move (planId : String) (target : JournalStage) (txid lastError : Option String)
  | startupRecover (tip : CanonicalTip)
  | reconcile (tip : CanonicalTip)

namespace RecoveryCall

/-- What a call returns. -/
abbrev Result : RecoveryCall → Type
  | createPlan _ => Unit
  | move _ _ _ _ => JournalStage
  | startupRecover _ => RecoveryReport
  | reconcile _ => ReconcileReport

/-- What a call runs. -/
def prog (H : Hashing) : (c : RecoveryCall) → Prog WalletEffect.Answer (Except String c.Result)
  | createPlan operation => (WalletM.createPlan operation).run
  | move planId target txid lastError => (WalletM.transition planId target txid lastError).run
  | startupRecover tip => (Zalkanes.startupRecover WalletM.release H tip).run
  | reconcile tip => (Zalkanes.reconcile WalletM.release tip).run

/-- The tip that a pass is given. -/
def tip? : RecoveryCall → Option CanonicalTip
  | startupRecover tip | reconcile tip => some tip
  | _ => none

end RecoveryCall

/-- Whether the entry is a write that moved the plan's row to `Signing`. -/
def Happened.entersSigning {C : Type} (planId : String) : Happened C → Bool
  | ⟨_, .transition q .signing _ _, .ok _⟩ => q = planId
  | _ => false

/-- The plan's row has been at `Signing`. -/
def World.ReachedSigning {C : Type} (w : World C) (planId : String) : Prop :=
  ∃ x ∈ w.history, x.entersSigning planId = true

/-- What recovery and reconciliation may do next. -/
structure RecoverySafe (O : Outside) (w : World RecoveryCall) : Prop where
  released : ∀ c tip w' planId, c.tip? = some tip →
    Prog.Performs (O.answers c) (c.prog O.hashing) w (.release planId) w' →
    ¬ w'.ReachedSigning planId ∨
      ∃ row txid expiry, w'.operation planId = some row ∧ row.txid = some txid ∧
        row.expiry = some expiry ∧ w'.Reported c txid .absent ∧
        expiry.toNat + expiryAbsentMargin.toNat < tip.height.toNat
  legal : ∀ c tip w' planId target txid lastError, c.tip? = some tip →
    Prog.Performs (O.answers c) (c.prog O.hashing) w (.transition planId target txid lastError) w' →
    ∃ row, w'.operation planId = some row ∧ row.stage.canTransition target = true

section ReleaseSafety

open Prog Outside

variable {O : Outside} {c : RecoveryCall} {w w' : World RecoveryCall}

/-- Whether the entry is a move of the plan's row from a stage before `Signing`, to another one
than `Signing`. -/
def Happened.staysUnsigned {C : Type} (planId : String) : Happened C → Bool
  | ⟨_, .transition q target _ _, .ok source⟩ =>
      decide (q = planId) && source.beforeSigning && decide (target ≠ .signing)
  | _ => false

/-- Before `Signing` a row never was at `Signing`. -/
structure SigningInv (w : World RecoveryCall) : Prop where
  absent : ∀ planId, w.operation planId = none → ¬ w.ReachedSigning planId
  before : ∀ planId row, w.operation planId = some row → row.stage.beforeSigning = true →
    ¬ w.ReachedSigning planId
  moved : ∀ planId x, w.history.getLast? = some x → x.staysUnsigned planId = true →
    ¬ w.ReachedSigning planId

/-- A plan has reached Signing, or does now. -/
theorem World.reachedSigning_append {x : Happened RecoveryCall}
    (hhist : w'.history = w.history ++ [x]) {planId : String} :
    w'.ReachedSigning planId ↔ w.ReachedSigning planId ∨ x.entersSigning planId = true := by
  rw [ReachedSigning, hhist, ReachedSigning]
  simp only [List.mem_append, List.mem_singleton]
  constructor
  · rintro ⟨y, hy | rfl, hsigning⟩
    · exact Or.inl ⟨y, hy, hsigning⟩
    · exact Or.inr hsigning
  · rintro (⟨y, hy, hsigning⟩ | hsigning)
    · exact ⟨y, Or.inl hy, hsigning⟩
    · exact ⟨x, Or.inr rfl, hsigning⟩

/-- A call that is no transition that went through. -/
theorem SigningInv.keep (h : SigningInv w) {x : Happened RecoveryCall}
    (hhist : w'.history = w.history ++ [x]) (henters : ∀ planId, x.entersSigning planId = false)
    (hstays : ∀ planId, x.staysUnsigned planId = false)
    (hrow : ∀ planId, w'.operation planId = w.operation planId ∨ w.operation planId = none) :
    SigningInv w' := by
  have hreached : ∀ planId, w'.ReachedSigning planId ↔ w.ReachedSigning planId := fun planId => by
    rw [World.reachedSigning_append hhist, henters, or_iff_left Bool.false_ne_true]
  refine ⟨fun planId hnone => ?_, fun planId row hsome hbefore => ?_, fun planId y hy hstay => ?_⟩
  · rw [hreached]
    rcases hrow planId with heq | habsent
    · exact h.absent planId (heq ▸ hnone)
    · exact h.absent planId habsent
  · rw [hreached]
    rcases hrow planId with heq | habsent
    · exact h.before planId row (heq ▸ hsome) hbefore
    · exact h.absent planId habsent
  · rw [hhist, List.getLast?_concat, Option.some.injEq] at hy
    rw [← hy, hstays] at hstay
    cases hstay

/-- **A step.** No call makes the row of a plan that was at `Signing` look unsigned. -/
theorem SigningInv.step (h : SigningInv w) {e : WalletEffect} {r : e.Answer}
    (ha : O.answers c w e r w') : SigningInv w' := by
  cases e with
  | transition q target txid lastError =>
      obtain ⟨hhist, ⟨row, hrow, hlegal, rfl, hs⟩ | ⟨⟨e, rfl⟩, hs⟩⟩ := answers_transition ha
      · have hop := World.operation_write hs
        -- a move that does not start before `Signing` is the only one that can enter it
        have hunsigned : row.stage.beforeSigning = true → target ≠ .signing →
            ¬ w'.ReachedSigning q := by
          intro hbefore hne
          rw [World.reachedSigning_append hhist, not_or]
          refine ⟨h.before q row hrow hbefore, ?_⟩
          cases target <;> first | exact absurd rfl hne | exact Bool.false_ne_true
        have hother : ∀ planId, planId ≠ q →
            (w'.ReachedSigning planId ↔ w.ReachedSigning planId) := fun planId hne => by
          rw [World.reachedSigning_append hhist, or_iff_left]
          cases target <;> first
            | exact Bool.false_ne_true
            | exact fun heq => hne (of_decide_eq_true heq).symm
        refine ⟨fun planId hnone => ?_, fun planId row' hsome hbefore => ?_,
          fun planId x hx hstay => ?_⟩
        · rw [hop] at hnone
          by_cases hq : planId = q
          · rw [if_pos hq, hq, World.operation, hrow] at hnone
            cases hnone
          · rw [if_neg hq] at hnone
            rw [hother planId hq]
            exact h.absent planId hnone
        · rw [hop] at hsome
          by_cases hq : planId = q
          · rw [if_pos hq, hq, World.operation, hrow, Option.map_some, Option.some.injEq] at hsome
            rw [← hsome] at hbefore
            have hsource := JournalStage.beforeSigning_of_canTransition hlegal hbefore
            rw [hq]
            refine hunsigned hsource fun hsigning => ?_
            rw [OperationRow.moved, hsigning] at hbefore
            cases hbefore
          · rw [if_neg hq] at hsome
            rw [hother planId hq]
            exact h.before planId row' hsome hbefore
        · rw [hhist, List.getLast?_concat, Option.some.injEq] at hx
          rw [← hx, Happened.staysUnsigned, Bool.and_eq_true, Bool.and_eq_true] at hstay
          obtain ⟨⟨hq, hbefore⟩, hne⟩ := hstay
          rw [← of_decide_eq_true hq]
          exact hunsigned hbefore (of_decide_eq_true hne)
      · refine h.keep hhist (fun planId => ?_) (fun _ => rfl) fun planId =>
          Or.inl (World.operation_congr hs planId)
        cases target <;> rfl
  | createPlan operation =>
      obtain ⟨⟨-, hs, -⟩ | ⟨now, ⟨j, hj, -, hs⟩ | ⟨e, -, -, hs⟩⟩, hhist⟩ := ha
      · exact h.keep hhist (fun _ => rfl) (fun _ => rfl) fun planId =>
          Or.inl (World.operation_congr hs planId)
      · refine h.keep hhist (fun _ => rfl) (fun _ => rfl) fun planId => ?_
        have hop : w'.operation planId = j.operation planId := by rw [World.operation, hs]
        rcases Journal.createPlan_eq_ok hj with ⟨rfl, -⟩ | ⟨hnone, hnew⟩
        · exact Or.inl hop
        · rw [hop, hnew]
          by_cases hplan : planId = operation.planId
          · exact Or.inr (hplan ▸ hnone)
          · rw [if_neg hplan]
            exact Or.inl rfl
      · exact h.keep hhist (fun _ => rfl) (fun _ => rfl) fun planId =>
          Or.inl (World.operation_congr hs planId)
  | nonTerminalRows | canonicalTip | txStatus _ | sendRawTransaction _ | lockedOutputs
  | release _ | driver _ =>
      exact h.keep ha.2 (fun _ => rfl) (fun _ => rfl) fun planId =>
        Or.inl (World.operation_of_journal_eq (journal_of_answers ha rfl) planId)

/-- **The run lemma.** -/
theorem SigningInv.of_runs (hhistory : w.history = [])
    (hrun : Runs O.answers (RecoveryCall.prog O.hashing) w w') : SigningInv w' := by
  have hnone : ∀ planId, ¬ w.ReachedSigning planId := by
    rintro planId ⟨x, hx, -⟩
    rw [hhistory] at hx
    cases hx
  have hspec : ∀ (c : RecoveryCall) (v : World RecoveryCall), SigningInv v →
      (c.prog O.hashing).Spec (O.answers c) (fun e v => True ∧ SigningInv v) v
        fun _ v => True ∧ SigningInv v := fun c v hv =>
    (spec_iff_yields.mpr fun _ _ _ => trivial).invariant (fun _ _ _ _ h _ ha => h.step ha) hv
  refine hrun.invariant (fun c v hv => (hspec c v hv).mono fun _ _ h => h.2) (fun _ _ _ h => h.2)
    ⟨fun planId _ => hnone planId, fun planId _ _ _ => hnone planId, fun planId x hx _ => ?_⟩
  rw [hhistory, List.getLast?_nil] at hx
  cases hx

/-- The calls that a pass makes. -/
theorem RecoveryCall.permits {tip : CanonicalTip} (htip : c.tip? = some tip) :
    (c.prog O.hashing).Spec (O.answers c)
      (fun e v => RecoverPermits O c tip w e v ∨ ReconcilePermits O c tip e v) w
      fun _ _ => True := by
  cases c with
  | createPlan _ | move _ _ _ _ => cases htip
  | startupRecover tip' =>
      obtain rfl : tip' = tip := Option.some.inj htip
      exact startupRecover_permits O _ tip' w
  | reconcile tip' =>
      obtain rfl : tip' = tip := Option.some.inj htip
      exact (reconcile_permits O _ tip' w).weaken (fun _ _ _ _ h => h) fun _ _ h => Or.inr h

/-- **Recovery never frees the notes of a transaction that may still confirm**, and attempts no
illegal move: from an empty journal, over every run of plans, moves and passes, whatever the locks
and the node are said to be and wherever a call stops. -/
theorem recovery_safe (O : Outside) (locks : List LockedOutput) {w : World RecoveryCall}
    (hrun : Runs O.answers (RecoveryCall.prog O.hashing) ⟨⟨.empty, locks⟩, []⟩ w) :
    RecoverySafe O w := by
  have hinv : SigningInv w := .of_runs rfl hrun
  constructor
  · intro c tip v planId htip hperforms
    have hspec := (RecoveryCall.permits (O := O) (w := w) htip).invariant
      (fun _ _ _ _ (h : SigningInv _) _ ha => h.step ha) hinv
    obtain ⟨⟨-, -, past, lastError, source, hbefore, hhist⟩ |
      ⟨row, hrow, -, hexpired, ⟨txid, htxid, -, hreported⟩, -⟩, hinv'⟩ :=
        hspec.of_performs hperforms
    · refine Or.inl (hinv'.moved planId _ (by rw [hhist]; exact List.getLast?_concat) ?_)
      simp [Happened.staysUnsigned, hbefore]
    · obtain ⟨expiry, hexpiry, hlt⟩ := Operation.definitelyExpired_iff.mp hexpired
      exact Or.inr ⟨row, txid, expiry, hrow, htxid, hexpiry, hreported, hlt⟩
  · intro c tip v planId target txid lastError htip hperforms
    rcases (RecoveryCall.permits htip).of_performs hperforms with
      ⟨-, row, locks, -, hrow, -, hmove⟩ | ⟨-, row, hrow, hmove⟩
    · exact ⟨row, hrow, hmove.canTransition⟩
    · exact ⟨row, hrow, hmove.canTransition⟩

/-- A shielded plan. -/
def shieldedOperation : Operation :=
  ⟨"plan", "", "call", "shielded", lockOwnerHex anyOutside.hashing "plan", 1, "", 2, "", some 40⟩

/-- A plan was recorded, and its row moved to `Reserved`. -/
theorem recovery_safe_reserved : ∃ w : World RecoveryCall,
    Runs anyOutside.answers (RecoveryCall.prog anyOutside.hashing) ⟨⟨.empty, []⟩, []⟩ w ∧
    w.state.journal.stage "plan" = some .reserved ∧ RecoverySafe anyOutside w := by
  have hcreate : Journal.empty.createPlan shieldedOperation 0 =
      .ok (Journal.empty.insert shieldedOperation 0 (by simp [Journal.empty])) := rfl
  let j := Journal.empty.insert shieldedOperation 0 (by simp [Journal.empty])
  let j' := j.write "plan" .reserved none none
  let x : Happened RecoveryCall :=
    ⟨.createPlan shieldedOperation, .createPlan shieldedOperation, Except.ok ()⟩
  let x' : Happened RecoveryCall := ⟨.move "plan" .reserved none none,
    .transition "plan" .reserved none none, Except.ok .planned⟩
  have hmove : j.transition "plan" .reserved none none = .ok (.planned, j') :=
    Journal.transition_eq_ok.mpr ⟨_, rfl, rfl, by decide, rfl⟩
  have h : anyOutside.answers (.createPlan shieldedOperation) ⟨⟨.empty, []⟩, []⟩
      (.createPlan shieldedOperation) (Except.ok ()) ⟨⟨j, []⟩, [x]⟩ :=
    ⟨Or.inr ⟨0, Or.inl ⟨j, hcreate, rfl, rfl⟩⟩, rfl⟩
  have h' : anyOutside.answers (.move "plan" .reserved none none) ⟨⟨j, []⟩, [x]⟩
      (.transition "plan" .reserved none none) (Except.ok .planned) ⟨⟨j', []⟩, [x, x']⟩ :=
    ⟨Or.inr (Or.inl ⟨.planned, j', hmove, rfl, rfl⟩), rfl⟩
  have hrun : Runs anyOutside.answers (RecoveryCall.prog anyOutside.hashing)
      ⟨⟨.empty, []⟩, []⟩ ⟨⟨j', []⟩, [x, x']⟩ :=
    .snoc (.snoc (.nil _) (.createPlan shieldedOperation) (.perform h (.here _ _)))
      (.move "plan" .reserved none none) (.perform h' (.here _ _))
  exact ⟨_, hrun, rfl, recovery_safe anyOutside [] hrun⟩

end ReleaseSafety

end Zalkanes
