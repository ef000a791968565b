import Zalkanes.Wallet.ReconcileStable
import Zalkanes.Wallet.RecoveryConverges

/-!
# Idempotence of Recovery

A pass of startup recovery leaves every plan where the next pass finds nothing to do, but for one
branch: a plan at `Planned` whose locks are held is only caught up, and the next pass cancels it.

## Main results

* `recovery_quiet_iff`: when a further pass only reads.
-/

namespace Zalkanes

open Lib

/-- A pass of startup recovery from the state only reads: it moves no row and releases nothing,
whatever fails. -/
def Quiet (H : Hashing) (status : String → Except String TxStatus) (tip : CanonicalTip)
    (s : WalletState) : Prop :=
  ∀ e v, Prog.Performs ((steady H status True).answers ())
    (startupRecover WalletM.release H tip).run ⟨s, []⟩ e v → e.reads = true

/-- The plan is at `Planned`, and locks of the recorded inputs are held for it. -/
def PlanState.CatchesUp (H : Hashing) (x : PlanState) : Prop :=
  (x.operation.fundingMode = "shielded" →
    x.operation.lockOwner = lockOwnerHex H x.operation.planId) ∧
  x.stage = .planned ∧ x.held ≠ [] ∧ inputsMatch x.operation x.held = true

section Idempotent

variable {H : Hashing} {status : String → Except String TxStatus} {tip : CanonicalTip}
  {s s' : WalletState} {x : PlanState}

open Prog Outside PlanState

/-! ### One plan -/

/-- A plan that is caught up is cancelled by the next pass. -/
theorem PlanState.CatchesUp.pass (h : x.CatchesUp H) : x.pass H status tip = x.move .reserved ∧
    (x.move .reserved).pass H status tip = (x.move .cancelled).free := by
  obtain ⟨hcanonical, hs, hheld, hmatch⟩ := h
  have howner : ¬ (x.operation.fundingMode = "shielded" ∧
      x.operation.lockOwner ≠ lockOwnerHex H x.operation.planId) := fun h => h.2 (hcanonical h.1)
  constructor
  · rw [pass_of_not_inBroadcastPhase (by rw [hs]; rfl), startup, if_neg howner, hs]
    dsimp only
    rw [if_neg hheld, if_pos hmatch]
  · rw [pass_of_not_inBroadcastPhase rfl, startup, operation_move, if_neg howner, stage_move,
      held_move]
    dsimp only
    rw [if_neg hheld, if_pos hmatch, move_move]

/-- Every other plan is settled by one pass. -/
theorem PlanState.pass_pass (h : ¬ x.CatchesUp H) :
    (x.pass H status tip).pass H status tip = x.pass H status tip := by
  by_cases hphase : x.stage.inBroadcastPhase = true
  · rw [pass_of_inBroadcastPhase hphase]
    rcases inBroadcastPhase_or_isTerminal_reconcile status tip hphase with hs | hs
    · rw [pass_of_inBroadcastPhase hs, reconcile_reconcile]
    · exact pass_eq_self_of_terminal hs
  · have hx : x.pass H status tip = x.startup H tip :=
      pass_of_not_inBroadcastPhase (Bool.eq_false_iff.mpr hphase)
    rcases startup_cases H tip x with hs | hs | ⟨hplanned, hreserved, -⟩
    · rw [hx, hs, hx, hs]
    · rw [hx]
      exact pass_eq_self_of_terminal hs
    · -- only a plan that catches up is moved to `Reserved`
      refine absurd ?_ h
      have hstage : (x.startup H tip).stage = .reserved := by rw [hreserved]; rfl
      by_cases howner : x.operation.fundingMode = "shielded" ∧
          x.operation.lockOwner ≠ lockOwnerHex H x.operation.planId
      · rw [startup, if_pos howner, hplanned] at hstage
        cases hstage
      · rw [startup, if_neg howner, hplanned] at hstage
        dsimp only at hstage
        by_cases hheld : x.held = []
        · rw [if_pos hheld] at hstage
          cases hstage
        · rw [if_neg hheld] at hstage
          by_cases hmatch : inputsMatch x.operation x.held = true
          · exact ⟨fun hmode => not_not.mp fun hne => howner ⟨hmode, hne⟩, hplanned, hheld, hmatch⟩
          · rw [if_neg hmatch, hplanned] at hstage
            cases hstage

/-- A plan that a pass leaves alone is left alone by both of its halves. -/
theorem PlanState.eq_of_pass_eq (h : x.pass H status tip = x) :
    x.startup H tip = x ∧ x.reconcile status tip = x := by
  by_cases hphase : x.stage.inBroadcastPhase = true
  · rw [pass_of_inBroadcastPhase hphase] at h
    exact ⟨startup_of_inBroadcastPhase hphase, h⟩
  · have hfalse := Bool.eq_false_iff.mpr hphase
    rw [pass_of_not_inBroadcastPhase hfalse] at h
    exact ⟨h, reconcile_of_not_inBroadcastPhase hfalse⟩

/-- No move is made where startup recovery leaves the plan alone. -/
theorem RecoverMove.startup_ne {row : OperationRow} {view locks : List LockedOutput}
    {target : JournalStage} (h : RecoverMove H view tip row target)
    (hview : (locksOf view (lockOwnerHex H row.planId)).Perm locks)
    (htransparent : row.fundingMode ≠ "shielded" → row.lockOwner = "") :
    (row.planState locks).startup H tip ≠ row.planState locks := fun heq => by
  have hstage : ((row.planState locks).startup H tip).stage = target := by
    rcases h.startup_eq hview htransparent with hx | ⟨hx, -⟩ <;> rw [hx] <;> rfl
  rw [heq] at hstage
  exact h.target_ne.1 hstage.symm

/-- A move changes the plan. -/
theorem ReconcileMove.reconcile_ne {row : OperationRow} {locks : List LockedOutput}
    {target : JournalStage} {reported : String → TxStatus → Prop}
    (h : ReconcileMove tip reported row target)
    (hreported : ∀ txid observed, reported txid observed → status txid = .ok observed) :
    (row.planState locks).reconcile status tip ≠ row.planState locks := fun heq => by
  have hmap : ∀ txid observed, row.txid = some txid → reported txid observed →
      (row.planState locks).txid.map status = some (.ok observed) :=
    fun txid observed htxid h => by
      change row.txid.map status = _
      rw [htxid, Option.map_some, hreported txid observed h]
  have hstage : ((row.planState locks).reconcile status tip).stage = row.stage := by rw [heq]; rfl
  cases h with
  | mined htxid h hs =>
      rw [reconcile_mined hs (hmap _ _ htxid h)] at hstage
      rw [← hstage] at hs
      cases hs
  | inMempool htxid h hs hnot =>
      rw [reconcile_inMempool hs (hmap _ _ htxid h)] at hstage
      exact hnot hstage.symm
  | absent htxid h hs =>
      have hphase : (row.planState locks).stage.inBroadcastPhase = true := by
        change row.stage.inBroadcastPhase = true
        rw [hs]
        rfl
      rw [reconcile_absent hphase (hmap _ _ htxid h), hs] at hstage
      by_cases hlate : row.definitelyExpired tip = true
      · rw [if_pos (show (row.planState locks).operation.definitelyExpired tip = true from hlate)]
          at hstage
        cases hstage
      · rw [if_neg (show ¬ (row.planState locks).operation.definitelyExpired tip = true from
          hlate), if_pos (show (row.planState locks).stage = .broadcasting from hs)] at hstage
        cases hstage
  | expired htxid h hs _ hlate =>
      rw [reconcile_absent hs (hmap _ _ htxid h),
        if_pos (show (row.planState locks).operation.definitelyExpired tip = true from hlate)]
        at hstage
      rw [← hstage] at hs
      cases hs

/-! ### Passes that only read -/

/-- So far the pass has only read. -/
structure OnlyRead (s : WalletState) (w : World Unit) : Prop where
  state : w.state = s
  history : ∀ entry ∈ w.history, entry.effect.reads = true

/-- **Where every plan is settled, a pass only reads.** -/
theorem quiet_of_pass_eq (hready : s.RecoveryReady H)
    (hfixed : ∀ planId x, s.plan H planId = some x → x.pass H status tip = x) :
    Quiet H status tip s := by
  have hrow : ∀ planId row, s.journal.operation planId = some row →
      (row.planState (s.planLocks H planId)).startup H tip = row.planState (s.planLocks H planId) ∧
      (row.planState (s.planLocks H planId)).reconcile status tip =
        row.planState (s.planLocks H planId) := fun planId row hrow =>
    eq_of_pass_eq (hfixed planId _ (WalletState.plan_eq_some.mpr ⟨row, hrow, rfl⟩))
  -- no call that writes is permitted in a world where nothing has changed
  have hreads : ∀ (e : WalletEffect) (w : World Unit), OnlyRead s w →
      RecoverPermits (steady H status True) () tip ⟨s, []⟩ e w ∨
        ReconcilePermits (steady H status True) () tip e w → e.reads = true := by
    intro e w hw hok
    have hmove : ∀ planId target row view, s.journal.operation planId = some row →
        view.Perm s.locks → ¬ RecoverMove H view tip row target := by
      intro planId target row view hstart hview hmove
      have hid := Journal.planId_of_operation hstart
      refine hmove.startup_ne ?_ (hready.transparent planId row hstart) (hrow planId row hstart).1
      rw [hid]
      exact List.Perm.filter _ hview
    cases e with
    | nonTerminalRows | lockedOutputs | txStatus _ => rfl
    | createPlan _ | canonicalTip | sendRawTransaction _ | driver _ => exact (hok.elim id id).elim
    | transition planId target txid lastError =>
        rcases hok with ⟨-, row, view, hstart, -, hview, h⟩ | ⟨-, row, hcur, h⟩
        · exact absurd h (hmove planId target row view hstart hview)
        · rw [World.operation, hw.state] at hcur
          exact absurd (hrow planId row hcur).2 (h.reconcile_ne fun _ _ h => h.1.symm)
    | release planId =>
        rcases hok with ⟨⟨row, view, hstart, hview, hcanonical, hheld, hcase⟩, -⟩ |
          ⟨row, -, -, -, -, past, lastError, source, -, hhist⟩
        · rcases hcase with ⟨hs, hmatch⟩ | hs
          · exact absurd (.abandoned hcanonical hs hheld hmatch)
              (hmove planId .cancelled row view hstart hview)
          · exact absurd (.unsigned hcanonical hs) (hmove planId .cancelled row view hstart hview)
        · have hlast := hw.history
            ⟨(), .transition planId .expired none lastError, Except.ok source⟩
            (by rw [hhist]; exact List.mem_append_right _ (List.mem_singleton_self _))
          cases hlast
  have hstep : ∀ (w : World Unit) (e : WalletEffect) (r : e.Answer) (w' : World Unit),
      OnlyRead s w → RecoverPermits (steady H status True) () tip ⟨s, []⟩ e w ∨
        ReconcilePermits (steady H status True) () tip e w →
      (steady H status True).answers () w e r w' → OnlyRead s w' := by
    intro w e r w' hw hok ha
    have he := hreads e w hw hok
    refine ⟨?_, fun entry hentry => ?_⟩
    · cases e with
      | nonTerminalRows | lockedOutputs =>
          obtain ⟨⟨-, hs, -⟩ | ⟨hs, -⟩, -⟩ := ha <;> exact hs.trans hw.state
      | txStatus _ => exact ha.1.1.trans hw.state
      | _ => cases he
    · rw [ha.2, List.mem_append, List.mem_singleton] at hentry
      rcases hentry with hentry | rfl
      · exact hw.history entry hentry
      · exact he
  have hspec := (startupRecover_permits (steady H status True) () tip
    (⟨s, []⟩ : World Unit)).invariant hstep ⟨rfl, fun _ hentry => by cases hentry⟩
  intro e v hperforms
  obtain ⟨hok, hv⟩ := hspec.of_performs hperforms
  exact hreads e v hv hok

/-- A pass that only reads leaves the plans as they were. -/
theorem pass_eq_of_quiet (hready : s.RecoveryReady H) (hquiet : Quiet H status tip s)
    {planId : String} (hx : s.plan H planId = some x) : x.pass H status tip = x := by
  obtain ⟨r, w, hrun⟩ := exists_yields (exists_steady_answer (H := H) ())
    (startupRecover WalletM.release H tip).run (⟨s, []⟩ : World Unit)
  have hspec : Spec ((steady H status False).answers ()) (fun e w => e.reads = true ∧ w.state = s)
      (startupRecover WalletM.release H tip).run ⟨s, []⟩ fun _ w => True ∧ w.state = s := by
    refine ((spec_of_performs hquiet).weaken (fun w e r w' h => ?_) fun _ _ h => h).invariant
      (fun w e r w' hw he ha => ?_) rfl
    · -- an answer where nothing fails is one where something may
      cases e with
      | createPlan _ => exact ⟨h.1.imp (fun h => h.1.elim) id, h.2⟩
      | transition _ _ _ _ => exact ⟨h.1.imp (fun h => h.1.elim) id, h.2⟩
      | nonTerminalRows | lockedOutputs => exact ⟨h.1.imp (fun h => h.1.elim) id, h.2⟩
      | release _ => exact ⟨⟨h.1.1, h.1.2.imp id fun h => h.1.elim⟩, h.2⟩
      | driver e => cases e <;> exact h
      | canonicalTip | txStatus _ | sendRawTransaction _ => exact h
    · cases e with
      | nonTerminalRows | lockedOutputs =>
          obtain ⟨⟨hfaulty, -⟩ | ⟨hs, -⟩, -⟩ := ha
          · exact hfaulty.elim
          · exact hs.trans hw
      | txStatus _ => exact ha.1.1.trans hw
      | _ => cases he
  have hstate := (hspec.of_yields hrun).2
  have hplan := ((spec_startupRecover_steady hready).of_yields hrun).2.plan planId
  rw [hstate, hx, Option.map_some, Option.some.injEq] at hplan
  exact hplan.symm

/-! ### After some passes -/

variable {n : ℕ}

/-- After a pass that caught a plan up, the next one does not only read. -/
theorem not_quiet_of_catchesUp (hready : s.RecoveryReady H) (hpass : Passes H status tip 1 s s')
    {planId : String} (hx : s.plan H planId = some x) (h : x.CatchesUp H) :
    ¬ Quiet H status tip s' := fun hquiet => by
  have hall := hpass.becomesAll hready
  have hplan : s'.plan H planId = some (x.move .reserved) := by
    rw [hall.plan, hx, Option.map_some, Function.iterate_one, h.pass.1]
  have hfixed := pass_eq_of_quiet (hall.ready hready) hquiet hplan
  rw [h.pass.2] at hfixed
  cases congrArg PlanState.stage hfixed

/-- A pass after enough passes is quiet. -/
theorem quiet_of_passes (hready : s.RecoveryReady H) (hpasses : Passes H status tip n s s')
    (hn : 1 ≤ n)
    (h : 2 ≤ n ∨ ∀ planId x, s.plan H planId = some x → ¬ x.CatchesUp H) :
    Quiet H status tip s' := by
  have hall := hpasses.becomesAll hready
  refine quiet_of_pass_eq (hall.ready hready) fun planId y hy => ?_
  rw [hall.plan, Option.map_eq_some_iff] at hy
  obtain ⟨x, hx, rfl⟩ := hy
  by_cases htwo : 2 ≤ n
  · rw [iterate_pass htwo, pass_settle]
  · obtain rfl : n = 1 := by omega
    exact PlanState.pass_pass ((h.resolve_left htwo) planId x hx)

/-- A planned row with an input. -/
def lockedRow : OperationRow := { crashedRow .planned with selectedInputs := "orchard:00:0" }

/-- A plan that crashed after its note was locked and before the journal recorded it. -/
def lockedPlan : WalletState where
  journal := ⟨[⟨lockedRow, 0⟩], List.nodup_singleton _⟩
  locks := [⟨"orchard:00:0", lockOwnerHex anyOutside.hashing "plan"⟩]

/-- It is the plan of the wallet. -/
theorem lockedPlan_plan : lockedPlan.plan anyOutside.hashing "plan" =
    some (lockedRow.planState lockedPlan.locks) := by
  refine WalletState.plan_eq_some.mpr ⟨_, rfl, congrArg _ (List.filter_eq_self.mpr fun l hl => ?_)⟩
  rw [List.mem_singleton.mp hl]
  exact decide_eq_true rfl

/-- The wallet is ready for recovery. -/
theorem lockedPlan_ready : lockedPlan.RecoveryReady anyOutside.hashing := by
  have hrow : ∀ planId row, lockedPlan.journal.operation planId = some row →
      planId = "plan" ∧ row.fundingMode = "shielded" := by
    intro planId row h
    obtain ⟨hid, createdAt, hmem⟩ := Journal.operation_eq_some.mp h
    have heq := List.mem_singleton.mp hmem
    rw [StoredRow.mk.injEq] at heq
    rw [heq.1] at hid ⊢
    exact ⟨hid.symm, rfl⟩
  refine ⟨fun planId row h hmode => absurd (hrow planId row h).2 hmode, fun p q hp hq _ => ?_⟩
  obtain ⟨row, hp⟩ := Option.ne_none_iff_exists'.mp hp
  obtain ⟨row', hq⟩ := Option.ne_none_iff_exists'.mp hq
  rw [(hrow p row hp).1, (hrow q row' hq).1]

/-- Its lock is there, and the row has to catch up. -/
theorem lockedPlan_catchesUp :
    (lockedRow.planState lockedPlan.locks).CatchesUp anyOutside.hashing := by
  have howner : lockOwnerHex anyOutside.hashing "plan" ≠ "" := by decide +kernel
  have hheld : (lockedRow.planState lockedPlan.locks).held = lockedPlan.locks := if_neg howner
  have hinputs : (lockedRow.planState lockedPlan.locks).operation.recordedInputs =
      lockedPlan.locks.map LockedOutput.outputRef := by decide +kernel
  refine ⟨fun _ => rfl, rfl, ?_, ?_⟩
  · rw [hheld]
    exact List.cons_ne_nil _ _
  · rw [hheld, inputsMatch, hinputs]
    exact decide_eq_true rfl

/-- **Recovery is idempotent up to rows that it catches up**: after passes of startup recovery that
ran to their end, a further one only reads, if they were two, or if no plan was at `Planned` with
locks of its recorded inputs held. Such a plan is cancelled by the second pass. -/
theorem recovery_quiet_iff (H : Hashing) (status : String → Except String TxStatus)
    (tip : CanonicalTip) {n : ℕ} {s s' : WalletState} (hready : s.RecoveryReady H)
    (hpasses : Passes H status tip n s s') (hn : 1 ≤ n) :
    Quiet H status tip s' ↔
      2 ≤ n ∨ ∀ planId x, s.plan H planId = some x → ¬ x.CatchesUp H := by
  constructor
  · intro hquiet
    by_cases htwo : 2 ≤ n
    · exact Or.inl htwo
    · obtain rfl : n = 1 := by omega
      exact Or.inr fun planId x hx h => not_quiet_of_catchesUp hready hpasses hx h hquiet
  · exact quiet_of_passes hready hpasses hn

/-- The plan that was caught up is settled after two passes. -/
theorem recovery_quiet_iff_twice : ∃ s', Passes anyOutside.hashing (fun _ => .ok .absent)
    ⟨1, .replicate 0⟩ 2 lockedPlan s' ∧
    Quiet anyOutside.hashing (fun _ => .ok .absent) ⟨1, .replicate 0⟩ s' := by
  obtain ⟨s', hpasses⟩ := exists_passes (fun _ => .ok .absent) ⟨1, .replicate 0⟩ lockedPlan_ready 2
  exact ⟨s', hpasses, (recovery_quiet_iff _ _ _ lockedPlan_ready hpasses one_le_two).mpr
    (Or.inl le_rfl)⟩

/-- One pass only catches it up, and the next one cancels it. -/
theorem not_recovery_quiet_caught_up : ∃ s', Passes anyOutside.hashing (fun _ => .ok .absent)
    ⟨1, .replicate 0⟩ 1 lockedPlan s' ∧
    ¬ Quiet anyOutside.hashing (fun _ => .ok .absent) ⟨1, .replicate 0⟩ s' := by
  obtain ⟨s', hpass⟩ := exists_passes (fun _ => .ok .absent) ⟨1, .replicate 0⟩ lockedPlan_ready 1
  exact ⟨s', hpass, not_quiet_of_catchesUp lockedPlan_ready hpass lockedPlan_plan
    lockedPlan_catchesUp⟩

end Idempotent

end Zalkanes
