import Zalkanes.Wallet.Steady

/-!
# Convergence of Recovery

Startup recovery may be interrupted between any two of its calls, and a release may fail. Passes
that run to their end afterwards reach the stages and the locks that they reach without the
interruption, unless a plan was moved to a terminal stage and its locks were left behind: rows at a
terminal stage are not read again.

## Main results

* `converges_iff_not_owes`: exactly when the passes that follow an interruption converge.
-/

namespace Zalkanes

open Lib

section Moves

variable {H : Hashing} {status : String → Except String TxStatus} {tip : CanonicalTip}
  {row : OperationRow} {view locks : List LockedOutput} {target : JournalStage}

open PlanState

/-- A move of startup recovery is the one of the plan's pass, whose release is still to come where
there is one. -/
theorem RecoverMove.startup_eq (h : RecoverMove H view tip row target)
    (hview : (locksOf view (lockOwnerHex H row.planId)).Perm locks)
    (htransparent : row.fundingMode ≠ "shielded" → row.lockOwner = "") :
    (row.planState locks).startup H tip = (row.planState locks).move target ∨
      (row.planState locks).startup H tip = ((row.planState locks).move target).free ∧
        target = .cancelled ∧ row.stage.beforeSigning = true ∧ row.lockOwner ≠ "" := by
  have hcanonical : row.Canonical H := by cases h <;> assumption
  have hreads : row.ReadsAs H tip view (row.planState locks) :=
    OperationRow.readsAs_planState hview hcanonical htransparent
  have hnonempty : row.held view ≠ [] → row.lockOwner ≠ "" :=
    fun h hnone => h (if_pos hnone)
  generalize row.planState locks = x at hreads ⊢
  cases h with
  | neverReserved _ hs hnone =>
      rw [hreads.startup_planned hs, if_pos hnone]
      exact Or.inl rfl
  | catchUp _ hs hsome hm =>
      rw [hreads.startup_planned hs, if_neg hsome, if_pos hm]
      exact Or.inl rfl
  | lapsed _ hs hnone hlapsed =>
      rw [hreads.startup_reserved hs, if_pos hnone, if_pos hlapsed]
      exact Or.inl rfl
  | abandoned _ hs hsome hm =>
      rw [hreads.startup_reserved hs, if_neg hsome, if_pos hm]
      exact Or.inr ⟨rfl, rfl, by rw [hs]; rfl, hnonempty hsome⟩
  | unsigned _ hs =>
      have hbefore : row.stage.beforeSigning = true := by
        revert hs
        cases row.stage <;> decide
      rw [hreads.startup_unsigned hs]
      by_cases hnone : row.held view = []
      · rw [if_pos hnone]
        exact Or.inl rfl
      · rw [if_neg hnone]
        exact Or.inr ⟨rfl, rfl, hbefore, hnonempty hnone⟩
  | signed _ hs =>
      rw [hreads.startup_signed hs]
      exact Or.inl rfl

/-- Recovery moves plans before the broadcast phase. -/
theorem RecoverMove.isTerminal (h : RecoverMove H view tip row target) :
    row.stage.isTerminal = false ∧ row.stage.inBroadcastPhase = false := by
  cases h with
  | neverReserved _ hs | catchUp _ hs | lapsed _ hs | abandoned _ hs =>
      rw [hs]
      exact ⟨rfl, rfl⟩
  | unsigned _ hs | signed _ hs =>
      revert hs
      cases row.stage <;> decide

/-- It moves them to another stage, before that phase or terminal. -/
theorem RecoverMove.target_ne (h : RecoverMove H view tip row target) :
    target ≠ row.stage ∧ target.inBroadcastPhase = false := by
  cases h with
  | neverReserved _ hs | catchUp _ hs | lapsed _ hs | abandoned _ hs =>
      rw [hs]
      decide
  | unsigned _ hs | signed _ hs =>
      revert hs
      cases row.stage <;> decide

/-- A move of startup recovery, on the way. -/
theorem RecoverMove.toward (h : RecoverMove H view tip row target)
    (hview : (locksOf view (lockOwnerHex H row.planId)).Perm locks)
    (htransparent : row.fundingMode ≠ "shielded" → row.lockOwner = "") :
    Toward H status tip (row.planState locks) ((row.planState locks).move target) := by
  have hpass : (row.planState locks).pass H status tip = _ :=
    pass_of_not_inBroadcastPhase h.isTerminal.2
  rcases h.startup_eq hview htransparent with hx | ⟨hx, rfl, hbefore, howner⟩
  · exact .of_pass_eq (fun _ => h.target_ne.2.trans h.isTerminal.2.symm) (hpass.trans hx)
  · rw [hx] at hpass
    refine ⟨rfl, rfl, .moved ?_ (Or.inl ⟨hbefore, rfl, howner⟩)⟩
    rw [settle_of_isTerminal_pass (by rw [hpass]; rfl), hpass]

/-- A move of reconciliation leads where the passes lead. -/
theorem ReconcileMove.settle (H : Hashing) (locks : List LockedOutput)
    {reported : String → TxStatus → Prop} (h : ReconcileMove tip reported row target)
    (hreported : ∀ txid observed, reported txid observed → status txid = .ok observed) :
    target ≠ .expired ∧ ((row.planState locks).move target).settle H status tip =
        (row.planState locks).settle H status tip ∨
      target = .expired ∧ ((row.planState locks).move target).free =
        (row.planState locks).settle H status tip := by
  have hmap : ∀ txid observed, row.txid = some txid → reported txid observed →
      (row.planState locks).txid.map status = some (.ok observed) :=
    fun txid observed htxid h => by
      change row.txid.map status = _
      rw [htxid, Option.map_some, hreported txid observed h]
  have hstage : (row.planState locks).stage = row.stage := rfl
  have hexpired : (row.planState locks).operation.definitelyExpired tip =
    row.definitelyExpired tip := rfl
  generalize row.planState locks = x at hmap hstage hexpired ⊢
  cases h with
  | mined htxid h hs =>
      rw [← hstage] at hs
      rw [← reconcile_mined hs (hmap _ _ htxid h), ← pass_of_inBroadcastPhase (H := H) hs]
      exact Or.inl ⟨by decide, settle_pass x⟩
  | inMempool htxid h hs _ =>
      rw [← hstage] at hs
      rw [← reconcile_inMempool hs (hmap _ _ htxid h), ← pass_of_inBroadcastPhase (H := H) hs]
      exact Or.inl ⟨by decide, settle_pass x⟩
  | absent htxid h hs =>
      have hphase : x.stage.inBroadcastPhase = true := by
        rw [hstage, hs]
        rfl
      have hx : x.pass H status tip = _ := (pass_of_inBroadcastPhase hphase).trans
        (reconcile_absent hphase (hmap _ _ htxid h))
      have hy : (x.move .broadcastUnknown).pass H status tip = _ :=
        (pass_of_inBroadcastPhase rfl).trans (reconcile_absent rfl (hmap _ _ htxid h))
      refine Or.inl ⟨by decide, ?_⟩
      by_cases hlate : x.operation.definitelyExpired tip = true
      · rw [if_pos hlate] at hx
        rw [operation_move, if_pos hlate, move_move] at hy
        rw [settle_of_isTerminal_pass (by rw [hy]; rfl), hy,
          settle_of_isTerminal_pass (by rw [hx]; rfl), hx]
      · rw [if_neg hlate, if_pos (hstage.trans hs)] at hx
        rw [← hx, settle_pass]
  | expired htxid h hs hnot hlate =>
      rw [← hstage] at hs
      have hx : x.pass H status tip = _ := (pass_of_inBroadcastPhase hs).trans
        (reconcile_absent hs (hmap _ _ htxid h))
      rw [if_pos (hexpired.trans hlate)] at hx
      exact Or.inr ⟨rfl, by rw [settle_of_isTerminal_pass (by rw [hx]; rfl), hx]⟩

/-- Reconciliation moves plans in the broadcast phase, which stay there unless they end. -/
theorem ReconcileMove.inBroadcastPhase {reported : String → TxStatus → Prop}
    (h : ReconcileMove tip reported row target) : row.stage.inBroadcastPhase = true ∧
      (target.isTerminal = false → target.inBroadcastPhase = true) := by
  cases h with
  | mined _ _ hs => exact ⟨hs, fun h => by cases h⟩
  | inMempool _ _ hs => exact ⟨hs, fun _ => rfl⟩
  | absent _ _ hs =>
      rw [hs]
      exact ⟨rfl, fun _ => rfl⟩
  | expired _ _ hs => exact ⟨hs, fun h => by cases h⟩

/-- A move of reconciliation, on the way. -/
theorem ReconcileMove.toward {reported : String → TxStatus → Prop} {x : PlanState}
    (h : ReconcileMove tip reported row target)
    (hreported : ∀ txid observed, reported txid observed → status txid = .ok observed)
    (hx : Toward H status tip x (row.planState locks)) :
    Toward H status tip x ((row.planState locks).move target) := by
  obtain ⟨hphase, htarget⟩ := h.inBroadcastPhase
  have hterminal : (row.planState locks).stage.isTerminal = false := by
    change row.stage.isTerminal = false
    revert hphase
    cases row.stage <;> decide
  obtain ⟨hlocks, hsame, hsettle⟩ := hx.underway hterminal
  refine ⟨hx.operation, hx.txid, ?_⟩
  rcases h.settle H locks hreported with ⟨-, hnext⟩ | ⟨rfl, hfree⟩
  · rw [hsettle] at hnext
    by_cases ht : target.isTerminal = true
    · refine .settled ht ?_
      rw [← hnext]
      exact (settle_eq_self_of_terminal ht).symm
    · refine .underway hlocks ?_ hnext
      rw [stage_move, htarget (Bool.eq_false_iff.mpr ht), ← hsame]
      exact hphase.symm
  · refine .moved (hfree.trans hsettle) (Or.inr ⟨?_, rfl⟩)
    rw [← hsame]
    exact hphase

end Moves

/-! ### Interrupted passes -/

/-- Whether the entry is a write that moved the plan's row from the broadcast phase to `Expired`. -/
def Happened.expires {C : Type} (planId : String) : Happened C → Bool
  | ⟨_, .transition q .expired _ _, .ok source⟩ => decide (q = planId) && source.inBroadcastPhase
  | _ => false

/-- The wallet in a pass that started in a state with no past. -/
structure Interrupted {C : Type} (H : Hashing) (status : String → Except String TxStatus)
    (tip : CanonicalTip) (start : WalletState) (w : World C) : Prop where
  plans : ∀ planId, Option.Rel (PlanState.Toward H status tip) (start.plan H planId)
    (w.state.plan H planId)
  strays : ∀ owner,
    (∀ planId, start.journal.operation planId ≠ none → owner ≠ lockOwnerHex H planId) →
    locksOf w.state.locks owner = locksOf start.locks owner
  expired : ∀ planId entry x, w.history.getLast? = some entry → entry.expires planId = true →
    start.plan H planId = some x → x.stage.inBroadcastPhase = true

section Interrupted

variable {C : Type} {H : Hashing} {status : String → Except String TxStatus} {tip : CanonicalTip}
  {start : WalletState} {c : C} {w w' : World C}

open Prog Outside PlanState

namespace Interrupted

/-- An interrupted pass keeps the rows. -/
theorem operation_eq_none (h : Interrupted H status tip start w) (planId : String) :
    w.state.journal.operation planId = none ↔ start.journal.operation planId = none := by
  rw [← WalletState.plan_eq_none (H := H), ← WalletState.plan_eq_none (H := H)]
  have hrel := h.plans planId
  generalize start.plan H planId = x, w.state.plan H planId = y at hrel ⊢
  cases hrel with
  | none => exact Iff.rfl
  | some _ => exact iff_of_false (Option.some_ne_none _) (Option.some_ne_none _)

/-- A plan that is there now was there at the start. -/
theorem toward (h : Interrupted H status tip start w) {planId : String} {y : PlanState}
    (hy : w.state.plan H planId = some y) :
    ∃ x, start.plan H planId = some x ∧ Toward H status tip x y := by
  have hrel := h.plans planId
  rw [hy] at hrel
  cases hx : start.plan H planId with
  | none =>
      rw [hx] at hrel
      cases hrel
  | some x =>
      rw [hx] at hrel
      cases hrel with
      | some hxy => exact ⟨x, rfl, hxy⟩

/-- Nothing changed. -/
theorem keep (h : Interrupted H status tip start w) (hstate : w'.state = w.state)
    {entry : Happened C} (hhist : w'.history = w.history ++ [entry])
    (hentry : ∀ planId, entry.expires planId = false) : Interrupted H status tip start w' := by
  refine ⟨hstate ▸ h.plans, hstate ▸ h.strays, fun planId last x hlast hexpires _ => ?_⟩
  rw [hhist, List.getLast?_concat, Option.some.injEq] at hlast
  rw [← hlast, hentry] at hexpires
  cases hexpires

/-- One plan changed. -/
theorem change (hready : start.RecoveryReady H) (h : Interrupted H status tip start w)
    {planId : String} {f : PlanState → PlanState} (hchange : w.state.Becomes H planId f w'.state)
    {entry : Happened C} (hhist : w'.history = w.history ++ [entry]) {x y : PlanState}
    (hx : start.plan H planId = some x) (hy : w.state.plan H planId = some y)
    (htoward : Toward H status tip x (f y))
    (hentry : ∀ q, entry.expires q = true → q = planId ∧ x.stage.inBroadcastPhase = true) :
    Interrupted H status tip start w' := by
  have hplan : w.state.journal.operation planId ≠ none := by
    rw [Ne, ← WalletState.plan_eq_none (H := H), hy]
    exact Option.some_ne_none y
  refine ⟨fun q => ?_, fun owner howner => ?_, fun q last x' hlast hexpires hx' => ?_⟩
  · by_cases hq : q = planId
    · rw [hq, hx, hchange.plan, hy, Option.map_some]
      exact .some htoward
    · rw [hchange.plan_of_ne (hready.owners.congr h.operation_eq_none) hplan hq]
      exact h.plans q
  · rw [hchange.locks owner (howner planId ((h.operation_eq_none planId).not.mp hplan)),
      h.strays owner howner]
  · rw [hhist, List.getLast?_concat, Option.some.injEq] at hlast
    rw [← hlast] at hexpires
    obtain ⟨rfl, hphase⟩ := hentry q hexpires
    rw [hx, Option.some.injEq] at hx'
    rw [← hx']
    exact hphase

end Interrupted

/-- A release, complete or not, touches the locks of its plan only. -/
theorem becomes_of_release {planId : String} {r : Except String Unit}
    (h : (steady H status True).answers c w (.release planId) r w') :
    w.state.Becomes H planId (fun y => { y with locks := w'.state.planLocks H planId })
      w'.state := by
  obtain ⟨⟨hjournal, hlocks⟩, -⟩ := h
  have hothers : (w'.state.locks.filter fun l => l.ownerHex ≠ lockOwnerHex H planId) =
      w.state.locks.filter fun l => l.ownerHex ≠ lockOwnerHex H planId := by
    rcases hlocks with ⟨-, hlocks⟩ | ⟨-, -, -, hlocks⟩
    · rw [hlocks, List.filter_filter]
      refine List.filter_congr fun l _ => ?_
      exact Bool.and_self _
    · exact hlocks
  refine ⟨?_, fun q _ => by rw [hjournal], fun owner howner => ?_⟩
  · rw [WalletState.plan, hjournal, WalletState.plan, Option.map_map]
    rfl
  · have hfilter : ∀ locks : List LockedOutput,
        locksOf (locks.filter fun l => l.ownerHex ≠ lockOwnerHex H planId) owner =
          locksOf locks owner := fun locks => by
      rw [locksOf, List.filter_filter, locksOf]
      refine List.filter_congr fun l _ => ?_
      by_cases hl : l.ownerHex = owner
      · simp [hl, howner]
      · simp [hl]
    rw [← hfilter, hothers, hfilter]

/-- **What a call of a pass makes of the plans.** -/
theorem Interrupted.step (hready : start.RecoveryReady H) (h : Interrupted H status tip start w)
    {e : WalletEffect} {r : e.Answer}
    (hok : RecoverPermits (steady H status True) c tip ⟨start, []⟩ e w ∨
      ReconcilePermits (steady H status True) c tip e w)
    (ha : (steady H status True).answers c w e r w') : Interrupted H status tip start w' := by
  cases e with
  | createPlan _ | canonicalTip | sendRawTransaction _ | driver _ => exact (hok.elim id id).elim
  | nonTerminalRows | lockedOutputs =>
      obtain ⟨⟨-, hs, -⟩ | ⟨hs, -⟩, hhist⟩ := ha
      · exact h.keep hs hhist fun _ => rfl
      · exact h.keep hs hhist fun _ => rfl
  | txStatus _ => exact h.keep ha.1.1 ha.2 fun _ => rfl
  | transition planId target txid lastError =>
      have hnone : txid = none := by
        rcases hok with ⟨hnone, -⟩ | ⟨hnone, -⟩ <;> exact hnone
      subst hnone
      obtain ⟨hhist, ⟨row, hrow, -, rfl, hs⟩ | ⟨⟨e, rfl⟩, hs⟩⟩ := answers_transition ha
      · have hid := Journal.planId_of_operation hrow
        have hplan : w.state.plan H planId = some (row.planState (w.state.planLocks H planId)) :=
          WalletState.plan_eq_some.mpr ⟨row, hrow, rfl⟩
        rcases hok with ⟨-, row', view, hstart, hrow', hview, hmove⟩ | ⟨-, row', hrow', hmove⟩
        · obtain rfl : row' = row := Option.some.inj (hrow'.symm.trans hrow)
          have hx : start.plan H planId = some (row'.planState (start.planLocks H planId)) :=
            WalletState.plan_eq_some.mpr ⟨row', hstart, rfl⟩
          obtain ⟨x, hx', htoward⟩ := h.toward hplan
          rw [hx, Option.some.injEq] at hx'
          -- nothing was done to the plan so far
          have hlocks : w.state.planLocks H planId = start.planLocks H planId := by
            rw [← hx'] at htoward
            exact (htoward.underway hmove.isTerminal.1).1
          have hview' : (locksOf view (lockOwnerHex H row'.planId)).Perm
              (start.planLocks H planId) := by
            rw [hid]
            exact List.Perm.filter _ hview
          refine h.change hready (WalletState.becomes_write hs) hhist hx hplan ?_
            fun q hexpires => ?_
          · rw [hlocks]
            exact hmove.toward hview' (hready.transparent planId row' hstart)
          · refine absurd ?_ (Bool.eq_false_iff.mp hmove.isTerminal.2)
            cases target <;> first
              | exact (Bool.and_eq_true_iff.mp hexpires).2
              | cases hexpires
        · obtain rfl : row' = row := Option.some.inj (hrow'.symm.trans hrow)
          obtain ⟨x, hx, htoward⟩ := h.toward hplan
          have hphase := hmove.inBroadcastPhase.1
          have hterminal : row'.stage.isTerminal = false := by
            revert hphase
            cases row'.stage <;> decide
          refine h.change hready (WalletState.becomes_write hs) hhist hx hplan
            (hmove.toward (fun _ _ h => h.1.symm) htoward) fun q hexpires => ⟨?_, ?_⟩
          · cases target <;> first
              | exact (of_decide_eq_true (Bool.and_eq_true_iff.mp hexpires).1).symm
              | cases hexpires
          · exact (htoward.underway hterminal).2.1.symm.trans hphase
      · exact h.keep hs hhist fun q => by cases target <;> rfl
  | release planId =>
      have hchange := becomes_of_release ha
      have hhist := ha.2
      rcases hok with ⟨⟨row₀, view, hstart, hview, hreleasable⟩, ⟨row, hrow, hs⟩, -⟩ |
        ⟨row, hrow, hs, -, -, past, lastError, source, hsource, hpast⟩
      · have hplan : w.state.plan H planId = some (row.planState (w.state.planLocks H planId)) :=
          WalletState.plan_eq_some.mpr ⟨row, hrow, rfl⟩
        have hx : start.plan H planId = some (row₀.planState (start.planLocks H planId)) :=
          WalletState.plan_eq_some.mpr ⟨row₀, hstart, rfl⟩
        obtain ⟨x, hx', htoward⟩ := h.toward hplan
        rw [hx, Option.some.injEq] at hx'
        rw [← hx'] at htoward
        obtain ⟨hcanonical, hheld, hrow₀⟩ := hreleasable
        refine h.change hready hchange hhist hx hplan (htoward.release (Or.inl ⟨?_, hs, ?_⟩) _)
          fun q hexpires => by cases hexpires
        · change row₀.stage.beforeSigning = true
          rcases hrow₀ with ⟨hs, -⟩ | hs
          · rw [hs]
            rfl
          · revert hs
            cases row₀.stage <;> decide
        · rw [htoward.operation]
          exact fun hnone => hheld (if_pos hnone)
      · have hplan : w.state.plan H planId = some (row.planState (w.state.planLocks H planId)) :=
          WalletState.plan_eq_some.mpr ⟨row, hrow, rfl⟩
        obtain ⟨x, hx, htoward⟩ := h.toward hplan
        have hphase := h.expired planId _ x (by rw [hpast]; exact List.getLast?_concat)
          (by simp [Happened.expires, hsource]) hx
        exact h.change hready hchange hhist hx hplan
          (htoward.release (Or.inr ⟨hphase, hs⟩) _) fun q hexpires => by cases hexpires

/-- Wherever a pass is interrupted, its plans are on their way. -/
theorem Interrupted.of_visits (hready : start.RecoveryReady H)
    (hrun : Visits ((steady H status True).answers c)
      (startupRecover WalletM.release H tip).run ⟨start, []⟩ w) :
    Interrupted H status tip start w := by
  have hstart : Interrupted H status tip start (⟨start, []⟩ : World C) := by
    refine ⟨fun planId => ?_, fun _ _ => rfl, fun planId entry x hlast => by cases hlast⟩
    cases start.plan H planId with
    | none => exact .none
    | some x => exact .some (.refl x)
  have hspec :=
    (startupRecover_permits (steady H status True) c tip (⟨start, []⟩ : World C)).invariant
      (fun v e r v' hv hok ha => Interrupted.step (H := H) (c := c) hready hv hok ha) hstart
  exact hspec.of_visits (fun _ _ h => h.2) (fun _ _ h => h.2) hrun

end Interrupted

/-! ### The passes that follow -/

/-- Passes of startup recovery that run to their end, one after the other. -/
inductive Passes (H : Hashing) (status : String → Except String TxStatus) (tip : CanonicalTip) :
    ℕ → WalletState → WalletState → Prop
  | zero (s : WalletState) : Passes H status tip 0 s s
  | succ {n : ℕ} {s s' : WalletState} {report : RecoveryReport} {w : World Unit}
      (h : Passes H status tip n s s')
      (hrun : Prog.Yields ((steady H status False).answers ())
        (startupRecover WalletM.release H tip).run ⟨s', []⟩ (.ok report) w) :
      Passes H status tip (n + 1) s w.state

/-- The same stages, and the same set of held locks. -/
structure SameEnd (s s' : WalletState) : Prop where
  stage : ∀ planId, s.journal.stage planId = s'.journal.stage planId
  locks : ∀ l, l ∈ s.locks ↔ l ∈ s'.locks

/-- Enough passes lead from both states to the same stages and locks. -/
structure RecoveryConverges (H : Hashing) (status : String → Except String TxStatus)
    (tip : CanonicalTip) (s s' : WalletState) : Prop where
  run : ∀ n, (∃ v, Passes H status tip n s v) ∧ ∃ v', Passes H status tip n s' v'
  same : ∃ k, ∀ n m v v', k ≤ n → k ≤ m → Passes H status tip n s v → Passes H status tip m s' v' →
    SameEnd v v'

/-- Between the states a plan was moved to `Cancelled` from a stage before `Signing`, or expired
from the broadcast phase, and locks are left under its owner. -/
def Owes (H : Hashing) (s s' : WalletState) (planId : String) : Prop :=
  ∃ x y, s.plan H planId = some x ∧ s'.plan H planId = some y ∧ x.Owes y

section Converges

variable {H : Hashing} {status : String → Except String TxStatus} {tip : CanonicalTip} {n : ℕ}
  {s s' v v' : WalletState}

open Prog

/-- Every call is answered where nothing fails. -/
theorem exists_steady_answer {C : Type} (c : C) (w : World C) (e : WalletEffect) :
    ∃ r w', (steady H status False).answers c w e r w' := by
  suffices h : ∃ r s', (steady H status False).Answers w.state e r s' by
    obtain ⟨r, s', h⟩ := h
    exact ⟨r, ⟨s', w.history ++ [⟨c, e, r⟩]⟩, h, rfl⟩
  cases e with
  | createPlan operation =>
      cases hcreate : w.state.journal.createPlan operation 0 with
      | ok j => exact ⟨_, _, Or.inr ⟨0, Or.inl ⟨j, hcreate, rfl, rfl⟩⟩⟩
      | error e => exact ⟨_, _, Or.inr ⟨0, Or.inr ⟨e, hcreate, rfl, rfl⟩⟩⟩
  | transition planId target txid lastError =>
      cases hmove : w.state.journal.transition planId target txid lastError with
      | ok moved => exact ⟨_, _, Or.inr (Or.inl ⟨moved.1, moved.2, hmove, rfl, rfl⟩)⟩
      | error e => exact ⟨_, _, Or.inr (Or.inr ⟨e, hmove, rfl, rfl⟩)⟩
  | nonTerminalRows =>
      obtain ⟨rows, hrows⟩ := w.state.journal.exists_nonTerminalRows
      exact ⟨_, _, Or.inr ⟨rfl, rows, hrows, rfl⟩⟩
  | canonicalTip => exact ⟨.error "", _, rfl⟩
  | txStatus txid => exact ⟨_, _, rfl, rfl⟩
  | sendRawTransaction txHex => exact ⟨.ambiguous "", _, rfl⟩
  | lockedOutputs => exact ⟨_, _, Or.inr ⟨rfl, w.state.locks, List.Perm.refl _, rfl⟩⟩
  | release planId =>
      exact ⟨_, { w.state with locks := w.state.locks.filter fun l =>
        l.ownerHex ≠ lockOwnerHex H planId }, rfl, Or.inl ⟨rfl, rfl⟩⟩
  | driver e =>
      cases e with
      | selectSpends _ _ => exact ⟨.error "", w.state, rfl, Or.inl ⟨"", rfl, rfl⟩⟩
      | walletExists | sessionIsArmed | signingKey => exact ⟨true, _, rfl⟩
      | newPlanId | readLine => exact ⟨"", _, rfl⟩
      | _ => exact ⟨.error "", _, rfl⟩

/-- What is recorded of the operations is what makes a journal ready. -/
theorem WalletState.RecoveryReady.congr (h : s.RecoveryReady H)
    (hplan : ∀ p y, s'.plan H p = some y → ∃ x, s.plan H p = some x ∧ y.operation = x.operation) :
    s'.RecoveryReady H := by
  have hread : ∀ p row, s'.journal.operation p = some row → ∃ row',
      s.journal.operation p = some row' ∧ row.toOperation = row'.toOperation := fun p row hrow => by
    obtain ⟨x, hx, hoperation⟩ := hplan p _ (WalletState.plan_eq_some.mpr ⟨row, hrow, rfl⟩)
    obtain ⟨row', hrow', rfl⟩ := WalletState.plan_eq_some.mp hx
    exact ⟨row', hrow', hoperation⟩
  have hthere : ∀ p, s'.journal.operation p ≠ none → s.journal.operation p ≠ none := fun p hp => by
    obtain ⟨row, hrow⟩ := Option.ne_none_iff_exists'.mp hp
    obtain ⟨row', hrow', -⟩ := hread p row hrow
    rw [hrow']
    exact Option.some_ne_none row'
  refine ⟨fun p row hrow hmode => ?_,
    fun p q hp hq heq => h.owners p q (hthere p hp) (hthere q hq) heq⟩
  obtain ⟨row', hrow', hoperation⟩ := hread p row hrow
  rw [hoperation]
  exact h.transparent p row' hrow' (hoperation ▸ hmode)

/-- Passes keep the wallet ready for recovery. -/
theorem WalletState.BecomesAll.ready (h : s.BecomesAll H (PlanState.pass H status tip)^[n] s')
    (hready : s.RecoveryReady H) : s'.RecoveryReady H := by
  refine hready.congr fun p y hy => ?_
  rw [h.plan, Option.map_eq_some_iff] at hy
  obtain ⟨x, hx, rfl⟩ := hy
  refine ⟨x, hx, ?_⟩
  clear h
  induction n with
  | zero => rfl
  | succ n ih => rw [Function.iterate_succ_apply', PlanState.operation_pass, ih]

/-- What passes make of the plans. -/
theorem Passes.becomesAll (h : Passes H status tip n s s') (hready : s.RecoveryReady H) :
    s.BecomesAll H (PlanState.pass H status tip)^[n] s' := by
  induction h with
  | zero s => exact ⟨fun p => by rw [Function.iterate_zero, Option.map_id, id], fun _ _ => rfl⟩
  | succ h hrun ih =>
      have hlast := (spec_startupRecover_steady ((ih hready).ready hready)).of_yields hrun
      rw [Function.iterate_succ']
      exact (ih hready).trans hlast.2

/-- There are as many passes as one likes. -/
theorem exists_passes (status : String → Except String TxStatus) (tip : CanonicalTip)
    (hready : s.RecoveryReady H) (n : ℕ) : ∃ v, Passes H status tip n s v := by
  induction n with
  | zero => exact ⟨s, .zero s⟩
  | succ n ih =>
      obtain ⟨v, hv⟩ := ih
      obtain ⟨r, w, hrun⟩ := exists_yields
        (exists_steady_answer (H := H) ()) (startupRecover WalletM.release H tip).run
        (⟨v, []⟩ : World Unit)
      obtain ⟨⟨report, rfl, -⟩, -⟩ :=
        (spec_startupRecover_steady ((hv.becomesAll hready).ready hready)).of_yields hrun
      exact ⟨w.state, .succ hv hrun⟩

/-- The stage of a plan is that of its row. -/
theorem stage_eq_of_plan {x : PlanState} {planId : String} (h : s.plan H planId = some x) :
    s.journal.stage planId = some x.stage := by
  obtain ⟨row, hrow, rfl⟩ := WalletState.plan_eq_some.mp h
  rw [Journal.stage, hrow, Option.map_some]
  rfl

/-- The locks of a plan are those of its owner. -/
theorem locks_of_plan {x : PlanState} {planId : String} (h : s.plan H planId = some x) :
    x.locks = locksOf s.locks (lockOwnerHex H planId) := by
  obtain ⟨row, -, rfl⟩ := WalletState.plan_eq_some.mp h
  rfl

/-- Each lock is one of its owner. -/
theorem mem_iff_mem_locksOf {locks : List LockedOutput} {l : LockedOutput} :
    l ∈ locks ↔ l ∈ locksOf locks l.ownerHex := by
  rw [locksOf, List.mem_filter, decide_eq_true rfl, and_iff_left rfl]

/-- Where the plans and the other locks are the same, so are the stages and the locks. -/
theorem sameEnd_of_plan_eq (hplan : ∀ p, s.plan H p = s'.plan H p)
    (hstrays : ∀ owner, (∀ p, s.journal.operation p ≠ none → owner ≠ lockOwnerHex H p) →
      locksOf s.locks owner = locksOf s'.locks owner) : SameEnd s s' := by
  constructor
  · intro p
    cases hx : s.plan H p with
    | none =>
        have hnone := WalletState.plan_eq_none.mp hx
        rw [hplan] at hx
        rw [Journal.stage, hnone, Journal.stage, WalletState.plan_eq_none.mp hx]
    | some x => rw [stage_eq_of_plan hx, stage_eq_of_plan (hplan p ▸ hx)]
  · intro l
    have hlocks : locksOf s.locks l.ownerHex = locksOf s'.locks l.ownerHex := by
      by_cases howned : ∃ p, s.journal.operation p ≠ none ∧ l.ownerHex = lockOwnerHex H p
      · obtain ⟨p, hp, howner⟩ := howned
        obtain ⟨row, hrow⟩ := Option.ne_none_iff_exists'.mp hp
        have hx : s.plan H p = _ := WalletState.plan_eq_some.mpr ⟨row, hrow, rfl⟩
        rw [howner, ← locks_of_plan hx, ← locks_of_plan (hplan p ▸ hx)]
      · exact hstrays _ fun p hp howner => howned ⟨p, hp, howner⟩
    rw [mem_iff_mem_locksOf, hlocks, ← mem_iff_mem_locksOf]

/-- Where a pass was stopped, the journal is as plans are recorded. -/
theorem Interrupted.ready {C : Type} {w : World C} (h : Interrupted H status tip s w)
    (hready : s.RecoveryReady H) : w.state.RecoveryReady H :=
  hready.congr fun _ _ hy => by
    obtain ⟨x, hx, htoward⟩ := h.toward hy
    exact ⟨x, hx, htoward.operation⟩

/-- A release that was lost is not made up for. -/
theorem not_converges_of_owes {w : World Unit} (hready : s.RecoveryReady H)
    (hstop : Interrupted H status tip s w) {planId : String} (howes : Owes H s w.state planId) :
    ¬ RecoveryConverges H status tip s w.state := by
  rintro ⟨-, k, hsame⟩
  obtain ⟨x, y, hx, hy, hmay, hlocks⟩ := howes
  obtain ⟨x', hx', htoward⟩ := hstop.toward hy
  obtain rfl : x = x' := Option.some.inj (hx.symm.trans hx')
  obtain ⟨v, hv⟩ := exists_passes status tip hready (max k 2)
  obtain ⟨v', hv'⟩ := exists_passes status tip (hstop.ready hready) (max k 2)
  have hend := hsame _ _ v v' (le_max_left k 2) (le_max_left k 2) hv hv'
  have hvx : v.plan H planId = some (x.settle H status tip) := by
    rw [(hv.becomesAll hready).plan, hx, Option.map_some,
      PlanState.iterate_pass (le_max_right k 2)]
  have hvy : v'.plan H planId = some y := by
    rw [(hv'.becomesAll (hstop.ready hready)).plan, hy, Option.map_some,
      PlanState.iterate_pass (le_max_right k 2),
      PlanState.settle_eq_self_of_terminal hmay.isTerminal]
  -- the uninterrupted passes freed the locks, and the interrupted one left one
  have hstage : (x.settle H status tip).stage = y.stage := by
    have heq := hend.stage planId
    rw [stage_eq_of_plan hvx, stage_eq_of_plan hvy, Option.some.injEq] at heq
    exact heq
  have hnone := hmay.locks_settle htoward.operation hstage
  obtain ⟨l, hl⟩ := List.exists_mem_of_ne_nil y.locks hlocks
  rw [locks_of_plan hvy] at hl
  have howner : l.ownerHex = lockOwnerHex H planId := of_decide_eq_true (List.mem_filter.mp hl).2
  have hmem := (hend.locks l).mpr (List.mem_filter.mp hl).1
  rw [mem_iff_mem_locksOf, howner, ← locks_of_plan hvx, hnone] at hmem
  cases hmem

/-- Where no release was lost, two more passes settle everything. -/
theorem converges_of_forall_not_owes {w : World Unit} (hready : s.RecoveryReady H)
    (hstop : Interrupted H status tip s w) (hnone : ∀ planId, ¬ Owes H s w.state planId) :
    RecoveryConverges H status tip s w.state := by
  refine ⟨fun n => ⟨exists_passes status tip hready n,
    exists_passes status tip (hstop.ready hready) n⟩, 2, fun n m v v' hn hm hv hv' => ?_⟩
  have hall := hv.becomesAll hready
  have hall' := hv'.becomesAll (hstop.ready hready)
  refine sameEnd_of_plan_eq (H := H) (fun p => ?_) fun owner howner => ?_
  · rw [hall.plan, hall'.plan]
    have hrel := hstop.plans p
    have howes : ∀ x y, s.plan H p = some x → w.state.plan H p = some y →
        ¬ PlanState.Owes x y := fun x y hx hy howes => hnone p ⟨x, y, hx, hy, howes⟩
    generalize s.plan H p = x, w.state.plan H p = y at hrel howes ⊢
    cases hrel with
    | none => rfl
    | some htoward =>
        rw [Option.map_some, Option.map_some, PlanState.iterate_pass hn,
          PlanState.iterate_pass hm, htoward.settle_eq (howes _ _ rfl rfl)]
  · have hstray : ∀ p, s.journal.operation p ≠ none → owner ≠ lockOwnerHex H p :=
      fun p hp => howner p ((hall.operation_eq_none p).not.mpr hp)
    rw [hall.strays owner hstray, hall'.strays owner fun p hp =>
      hstray p ((hstop.operation_eq_none p).not.mp hp), hstop.strays owner hstray]

/-- A pass that is interrupted right after it cancelled its only row, at a stage from `Proving`
on. -/
theorem exists_cancelled (H : Hashing) (status : String → Except String TxStatus)
    (tip : CanonicalTip) {start : WalletState} {row : OperationRow}
    (hrows : start.journal.NonTerminalRows [row]) (hcanonical : row.Canonical H)
    (hs : row.stage.isProof = true ∨ row.stage.isSigned = true) :
    ∃ w lastError, Visits ((steady H status True).answers ())
      (startupRecover WalletM.release H tip).run ⟨start, []⟩ w ∧
      w.state = { start with
        journal := start.journal.write row.planId .cancelled none lastError } := by
  have hrow := (hrows.mem_iff.mp (List.mem_singleton_self row)).1
  have hlegal : row.stage.canTransition .cancelled = true := by
    revert hs
    cases row.stage <;> decide
  let x : Happened Unit := ⟨(), .lockedOutputs, Except.ok start.locks⟩
  let x' : Happened Unit := ⟨(), .nonTerminalRows, Except.ok [row]⟩
  have hlocks : (steady H status True).answers () ⟨start, []⟩ .lockedOutputs
      (Except.ok start.locks) ⟨start, [x]⟩ :=
    ⟨Or.inr ⟨rfl, start.locks, List.Perm.refl _, rfl⟩, rfl⟩
  have hread : (steady H status True).answers () ⟨start, [x]⟩ .nonTerminalRows
      (Except.ok [row]) ⟨start, [x, x']⟩ := ⟨Or.inr ⟨rfl, [row], hrows, rfl⟩, rfl⟩
  have hwrite : ∀ lastError, ∃ w : World Unit,
      (steady H status True).answers () ⟨start, [x, x']⟩
        (.transition row.planId .cancelled none lastError) (Except.ok row.stage) w ∧
      w.state = { start with
        journal := start.journal.write row.planId .cancelled none lastError } := fun lastError =>
    ⟨⟨_, _⟩, ⟨Or.inr (Or.inl ⟨row.stage, _, Journal.transition_eq_ok.mpr
      ⟨row, hrow, rfl, hlegal, rfl⟩, rfl, rfl⟩), rfl⟩, rfl⟩
  have hskip : ¬ (row.fundingMode = "shielded" ∧ row.lockOwner ≠ lockOwnerHex H row.planId) :=
    fun h => h.2 (hcanonical h.1)
  suffices h : ∃ w lastError, Visits ((steady H status True).answers ())
      (recoverRow WalletM.release start.locks tip ⟨[], [], [], [], []⟩ row H).run
        ⟨start, [x, x']⟩ w ∧ w.state = { start with
          journal := start.journal.write row.planId .cancelled none lastError } by
    obtain ⟨w, lastError, hvisits, hw⟩ := h
    refine ⟨w, lastError, .run_bind (.perform hlocks (.done _ _)) (.run_bind
      (.perform hread (.done _ _)) (.run_bind_left ?_)), hw⟩
    rw [List.foldlM_cons]
    exact .run_bind_left hvisits
  rw [recoverRow, if_neg hskip]
  cases hstage : row.stage with
  | proving | proven =>
      obtain ⟨w, hanswer, hw⟩ := hwrite (some "restart: pre-signing stage lost with process memory")
      exact ⟨w, _, .run_bind_left (.run_bind_left (.perform hanswer (.here _ _))), hw⟩
  | signing | signed | extracted | verified =>
      obtain ⟨w, hanswer, hw⟩ :=
        hwrite (some "restart: signing reached; locks preserved until expiry")
      exact ⟨w, _, .run_bind_left (.run_bind_left (.perform hanswer (.here _ _))), hw⟩
  | _ =>
      rw [hstage] at hs
      rcases hs with hs | hs <;> cases hs

/-- A row of a shielded plan. -/
def crashedRow (stage : JournalStage) : OperationRow :=
  ⟨⟨"plan", "", "call", "shielded", lockOwnerHex anyOutside.hashing "plan", 1, "", 2, "", none⟩,
    stage, none, none⟩

/-- One plan, with a lock of its own. -/
def onePlan (stage : JournalStage) : WalletState where
  journal := ⟨[⟨crashedRow stage, 0⟩], List.nodup_singleton _⟩
  locks := [⟨"orchard:00:0", lockOwnerHex anyOutside.hashing "plan"⟩]

/-- There is only the row of the crashed plan. -/
theorem eq_crashedRow {stage : JournalStage} {planId : String} {row : OperationRow}
    (h : (onePlan stage).journal.operation planId = some row) :
    planId = "plan" ∧ row = crashedRow stage := by
  obtain ⟨hid, createdAt, hmem⟩ := Journal.operation_eq_some.mp h
  have heq := List.mem_singleton.mp hmem
  rw [StoredRow.mk.injEq] at heq
  rw [heq.1] at hid
  exact ⟨hid.symm, heq.1⟩

/-- The wallet with this plan is ready for recovery. -/
theorem onePlan_ready (stage : JournalStage) :
    (onePlan stage).RecoveryReady anyOutside.hashing := by
  constructor
  · intro planId row hrow hmode
    rw [(eq_crashedRow hrow).2] at hmode
    exact absurd rfl hmode
  · intro p q hp hq _
    obtain ⟨row, hrow⟩ := Option.ne_none_iff_exists'.mp hp
    obtain ⟨row', hrow'⟩ := Option.ne_none_iff_exists'.mp hq
    rw [(eq_crashedRow hrow).1, (eq_crashedRow hrow').1]

/-- A pass over the one plan that stops right after it cancelled it. -/
theorem exists_onePlan_cancelled (stage : JournalStage)
    (hs : stage.isProof = true ∨ stage.isSigned = true) :
    ∃ w lastError, Visits ((steady anyOutside.hashing (fun _ => .ok .absent) True).answers ())
      (startupRecover WalletM.release anyOutside.hashing ⟨1, .replicate 0⟩).run
      ⟨onePlan stage, []⟩ w ∧ w.state = { onePlan stage with
        journal := (onePlan stage).journal.write "plan" .cancelled none lastError } := by
  have hterminal : stage.isTerminal = false := by
    revert hs
    cases stage <;> decide
  have hrows : (onePlan stage).journal.NonTerminalRows [crashedRow stage] := by
    refine ⟨[⟨crashedRow stage, 0⟩], List.Perm.of_eq ?_, List.pairwise_singleton _ _, rfl⟩
    refine (List.filter_eq_self.mpr fun row hrow => ?_).symm
    rw [List.mem_singleton.mp hrow]
    change (!stage.isTerminal) = true
    rw [hterminal]
    rfl
  exact exists_cancelled _ _ _ hrows (fun _ => rfl) hs

/-- **Recovery converges after an interruption exactly when no release was lost**: wherever a pass
stops, the passes that follow reach the stages and the locks of uninterrupted passes, unless a plan
was moved to `Cancelled` or `Expired` and its locks were left. -/
theorem converges_iff_not_owes (H : Hashing) (status : String → Except String TxStatus)
    (tip : CanonicalTip) {start : WalletState} {w : World Unit} (hready : start.RecoveryReady H)
    (hcrash : Visits ((steady H status True).answers ())
      (startupRecover WalletM.release H tip).run ⟨start, []⟩ w) :
    RecoveryConverges H status tip start w.state ↔ ∀ planId, ¬ Owes H start w.state planId := by
  have hstop : Interrupted H status tip start w := .of_visits hready hcrash
  constructor
  · exact fun h planId howes => not_converges_of_owes hready hstop howes h
  · exact converges_of_forall_not_owes hready hstop

/-- The locks of a plan that was signed are not released anyway. -/
theorem converges_iff_not_owes_signing : ∃ w : World Unit,
    w.state.journal.stage "plan" = some .cancelled ∧
    RecoveryConverges anyOutside.hashing (fun _ => .ok .absent) ⟨1, .replicate 0⟩ (onePlan .signing)
      w.state := by
  obtain ⟨w, lastError, hvisits, hw⟩ := exists_onePlan_cancelled .signing (Or.inr rfl)
  refine ⟨w, by rw [hw]; rfl, (converges_iff_not_owes _ _ _ (onePlan_ready _) hvisits).mpr ?_⟩
  rintro planId ⟨x, y, hx, -, ⟨hbefore, -⟩ | ⟨hphase, -⟩, -⟩
  · obtain ⟨row, hrow, rfl⟩ := WalletState.plan_eq_some.mp hx
    rw [(eq_crashedRow hrow).2] at hbefore
    cases hbefore
  · obtain ⟨row, hrow, rfl⟩ := WalletState.plan_eq_some.mp hx
    rw [(eq_crashedRow hrow).2] at hphase
    cases hphase

/-- The lock of a plan that was cancelled while it was proved is lost to it: no pass frees it. -/
theorem not_converges_lost_release : ∃ w : World Unit,
    Visits ((steady anyOutside.hashing (fun _ => .ok .absent) True).answers ())
      (startupRecover WalletM.release anyOutside.hashing ⟨1, .replicate 0⟩).run
      ⟨onePlan .proving, []⟩ w ∧
    ¬ RecoveryConverges anyOutside.hashing (fun _ => .ok .absent) ⟨1, .replicate 0⟩
      (onePlan .proving) w.state := by
  obtain ⟨w, lastError, hvisits, hw⟩ := exists_onePlan_cancelled .proving (Or.inl rfl)
  have hx : (onePlan .proving).plan anyOutside.hashing "plan" =
      some ((crashedRow .proving).planState (onePlan .proving).locks) := by
    refine WalletState.plan_eq_some.mpr ⟨crashedRow .proving, rfl, ?_⟩
    refine congrArg _ (List.filter_eq_self.mpr fun l hl => ?_)
    rw [List.mem_singleton.mp hl]
    exact decide_eq_true rfl
  have howner : lockOwnerHex anyOutside.hashing "plan" ≠ "" := by decide +kernel
  have hy : w.state.plan anyOutside.hashing "plan" =
      some (((crashedRow .proving).planState (onePlan .proving).locks).move .cancelled) := by
    rw [(WalletState.becomes_write hw).plan, hx, Option.map_some]
  have howes : Owes anyOutside.hashing (onePlan .proving) w.state "plan" :=
    ⟨_, _, hx, hy, Or.inl ⟨rfl, rfl, howner⟩, List.cons_ne_nil _ _⟩
  exact ⟨w, hvisits, not_converges_of_owes (onePlan_ready _)
    (.of_visits (onePlan_ready _) hvisits) howes⟩

end Converges

end Zalkanes
