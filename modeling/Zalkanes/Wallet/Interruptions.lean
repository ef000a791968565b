import Zalkanes.Wallet.FundedRuns
import Zalkanes.Wallet.RecoveryIdempotent

/-!
# Interrupted Commands

What two passes of startup recovery make of the rows that interrupted funded commands leave. A plan
before the broadcast phase is done with after the second pass, unless recovery cannot tell what its
locks mean (`Unclear`). A plan at `Broadcasting` may have been sent, and is left to what the node
says of its transaction.

## Main results

* `PlanState.isTerminal_settle`: two passes finish a plan that is clear and not yet broadcast.
* `recovery_clears`: what they make of the rows of interrupted commands.
-/

namespace Zalkanes

open Lib

/-- Two digits for each byte. -/
theorem length_hexEncode (bs : Bytes) : (hexEncode bs).toList.length = 2 * bs.length := by
  rw [hexEncode, String.toList_ofList]
  induction bs with
  | nil => rfl
  | cons b bs ih =>
      rw [List.flatMap_cons, List.length_append, ih, List.length_cons]
      simp only [List.length_cons, List.length_nil]
      omega

/-- The owner of a plan's locks has a name. -/
theorem lockOwnerHex_ne_empty (H : Hashing) (planId : String) : lockOwnerHex H planId ≠ "" := by
  intro h
  have hlength := length_hexEncode
    (H.sha256 ("zalkanes-plan-lock\x00".toUTF8.toList ++ planId.toUTF8.toList)).bytes
  rw [← lockOwnerHex, h, (H.sha256 _).length_eq] at hlength
  cases hlength

/-! ### One plan -/

namespace PlanState

variable {H : Hashing} {status : String → Except String TxStatus} {tip : CanonicalTip}
  {x : PlanState}

/-- The recorded owner is the plan's own, where it must be. -/
def Canonical (H : Hashing) (x : PlanState) : Prop :=
  x.operation.fundingMode = "shielded" →
    x.operation.lockOwner = lockOwnerHex H x.operation.planId

/-- A row that is clear names the inputs of its locks in order. -/
theorem canonical_of_not_unclear {held : List LockedOutput}
    (h : ¬ Unclear H tip x.operation x.stage held) : x.Canonical H :=
  fun hmode => not_not.mp fun hne => h (Or.inl ⟨hmode, hne⟩)

/-- Nothing is reported for a plan that is done with. -/
theorem not_anomalous_of_isTerminal (hcanonical : x.Canonical H)
    (h : x.stage.isTerminal = true) : ¬ x.Anomalous H status tip := by
  rintro ((⟨hmode, hne⟩ | ⟨hs, -⟩ | ⟨hs, -⟩) | ⟨hphase, -⟩)
  · exact hne (hcanonical hmode)
  · rw [hs] at h
    cases h
  · rw [hs] at h
    cases h
  · rw [inBroadcastPhase_of_isTerminal h] at hphase
    cases hphase

/-- A plan that is clear is done with, or was caught up with its locks. -/
theorem startup_of_not_unclear (hclear : ¬ Unclear H tip x.operation x.stage x.held)
    (hphase : x.stage.inBroadcastPhase = false) :
    (x.startup H tip).stage.isTerminal = true ∨ x.CatchesUp H := by
  have hcanonical := canonical_of_not_unclear hclear
  have howner : ¬ (x.operation.fundingMode = "shielded" ∧
      x.operation.lockOwner ≠ lockOwnerHex H x.operation.planId) := fun h => h.2 (hcanonical h.1)
  rw [startup, if_neg howner]
  cases hs : x.stage with
  | planned =>
      dsimp only
      by_cases hheld : x.held = []
      · rw [if_pos hheld]
        exact Or.inl rfl
      · have hmatch : inputsMatch x.operation x.held = true := by
          by_contra hmatch
          exact hclear (Or.inr (Or.inl ⟨hs, hheld, Bool.eq_false_iff.mpr hmatch⟩))
        exact Or.inr ⟨hcanonical, hs, hheld, hmatch⟩
  | reserved =>
      dsimp only
      refine Or.inl ?_
      by_cases hheld : x.held = []
      · have hexpired : x.operation.expired tip = true := by
          by_contra hexpired
          exact hclear
            (Or.inr (Or.inr ⟨hs, Or.inl ⟨hheld, Bool.eq_false_iff.mpr hexpired⟩⟩))
        rw [if_pos hheld, if_pos hexpired]
        rfl
      · have hmatch : inputsMatch x.operation x.held = true := by
          by_contra hmatch
          exact hclear (Or.inr (Or.inr ⟨hs, Or.inr ⟨hheld, Bool.eq_false_iff.mpr hmatch⟩⟩))
        rw [if_neg hheld, if_pos hmatch]
        rfl
  | proving | proven =>
      dsimp only
      by_cases hheld : x.held = []
      · rw [if_pos hheld]
        exact Or.inl rfl
      · rw [if_neg hheld]
        exact Or.inl rfl
  | signing | signed | extracted | verified => exact Or.inl rfl
  | broadcasting | broadcastUnknown | broadcastAccepted =>
      rw [hs] at hphase
      cases hphase
  | mined | cancelled | expired | rejected | reorged =>
      refine Or.inl ?_
      rw [hs]
      rfl

/-- **Two passes finish a plan** that is clear and not yet broadcast, and the second of them has
nothing to report for it. -/
theorem isTerminal_settle (status : String → Except String TxStatus)
    (hclear : ¬ Unclear H tip x.operation x.stage x.held)
    (hphase : x.stage.inBroadcastPhase = false) :
    (x.settle H status tip).stage.isTerminal = true ∧
      ¬ (x.pass H status tip).Anomalous H status tip := by
  have hcanonical := canonical_of_not_unclear hclear
  rcases startup_of_not_unclear hclear hphase with hterminal | hcatch
  · have hpass : x.pass H status tip = x.startup H tip := pass_of_not_inBroadcastPhase hphase
    rw [← hpass] at hterminal
    rw [settle_of_isTerminal_pass hterminal]
    refine ⟨hterminal, not_anomalous_of_isTerminal ?_ hterminal⟩
    rw [Canonical, operation_pass]
    exact hcanonical
  · -- the first pass catches the plan up, and the second one cancels it
    obtain ⟨hfirst, hsecond⟩ : x.pass H status tip = _ ∧
        (x.move .reserved).pass H status tip = _ := hcatch.pass
    obtain ⟨-, -, hheld, hmatch⟩ := hcatch
    rw [settle, hfirst, hsecond]
    refine ⟨rfl, ?_⟩
    rintro ((⟨hmode, hne⟩ | ⟨hs, -⟩ | ⟨-, ⟨hnone, -⟩ | ⟨-, hnot⟩⟩) | ⟨hs, -⟩)
    · exact hne (hcanonical hmode)
    · cases hs
    · exact hheld hnone
    · rw [operation_move, held_move, hmatch] at hnot
      cases hnot
    · cases hs

/-- **A plan at `Broadcasting`** is moved to where the node says its transaction is. -/
theorem settle_of_broadcasting (tip : CanonicalTip) (hcanonical : x.Canonical H)
    (hs : x.stage = .broadcasting)
    {observed : TxStatus} (hstatus : x.txid.map status = some (.ok observed)) :
    ((x.settle H status tip).stage.isTerminal = true ∨
      (x.settle H status tip).stage = .broadcastUnknown ∨
      (x.settle H status tip).stage = .broadcastAccepted) ∧
    ¬ (x.pass H status tip).Anomalous H status tip := by
  have hphase : x.stage.inBroadcastPhase = true := by
    rw [hs]
    rfl
  have hstage : (x.reconcile status tip).stage.isTerminal = true ∨
      (x.reconcile status tip).stage = .broadcastUnknown ∨
      (x.reconcile status tip).stage = .broadcastAccepted := by
    cases observed with
    | mined height =>
        rw [reconcile_mined hphase hstatus]
        exact Or.inl rfl
    | inMempool =>
        rw [reconcile_inMempool hphase hstatus]
        exact Or.inr (Or.inr rfl)
    | absent =>
        rw [reconcile_absent hphase hstatus]
        by_cases hlate : x.operation.definitelyExpired tip = true
        · rw [if_pos hlate]
          exact Or.inl rfl
        · rw [if_neg hlate, if_pos hs]
          exact Or.inr (Or.inl rfl)
  have hpass : x.pass H status tip = x.reconcile status tip := pass_of_inBroadcastPhase hphase
  have hcanonical' : (x.pass H status tip).Canonical H := by
    rw [Canonical, operation_pass]
    exact hcanonical
  rw [← hpass] at hstage
  rcases hstage with hterminal | hstage
  · rw [settle_of_isTerminal_pass hterminal]
    exact ⟨Or.inl hterminal, not_anomalous_of_isTerminal hcanonical' hterminal⟩
  · have hphase' : (x.pass H status tip).stage.inBroadcastPhase = true := by
      rcases hstage with hs | hs <;> rw [hs] <;> rfl
    have hsettle : x.settle H status tip = x.pass H status tip := by
      rw [settle, pass_of_inBroadcastPhase hphase', hpass, reconcile_reconcile]
    rw [hsettle]
    refine ⟨Or.inr hstage, ?_⟩
    rintro ((⟨hmode, hne⟩ | ⟨hs, -⟩ | ⟨hs, -⟩) | ⟨-, hnone⟩)
    · exact hne (hcanonical' hmode)
    · rw [hs] at hphase'
      cases hphase'
    · rw [hs] at hphase'
      cases hphase'
    · rw [hpass, x.reconcile_same.2] at hnone
      exact hnone observed hstatus

end PlanState

/-! ### The rows of interrupted commands -/

/-- The plan ids are as `new_plan_id` draws them: hex digits, and no two with one lock owner. -/
structure WalletState.PlanIdsDrawn (H : Hashing) (s : WalletState) : Prop where
  hex : ∀ planId, s.journal.operation planId ≠ none → ':' ∉ planId.toList
  owners : s.OwnersDistinct H

/-- No anomaly of the report is about the plan. -/
def RecoveryReport.Silent (report : RecoveryReport) (planId : String) : Prop :=
  ∀ message, planId ++ ": " ++ message ∉ report.anomalies

/-- A transparent plan is at `Reserved`, or a shielded one is there or at `Planned` and the locks
under its owner are not those of its recorded inputs. -/
def OperationRow.Blocked (locks : List LockedOutput) (row : OperationRow) : Prop :=
  row.fundingMode = "transparent" ∧ row.stage = .reserved ∨
    row.fundingMode = "shielded" ∧ (row.stage = .planned ∨ row.stage = .reserved) ∧
      inputsMatch row.toOperation (locksOf locks row.lockOwner) = false

instance (locks : List LockedOutput) (row : OperationRow) : Decidable (row.Blocked locks) :=
  inferInstanceAs (Decidable (_ ∨ _))

section Clears

variable {O : Outside} {H : Hashing} {status : String → Except String TxStatus}
  {tip : CanonicalTip} {s s' : WalletState} {planId : String} {row : OperationRow}
  {report : RecoveryReport}

open Prog Outside PlanState

/-- Rows as they were recorded are ready for recovery. -/
theorem WalletState.RowsRecorded.ready (h : s.RowsRecorded H) (howners : s.OwnersDistinct H) :
    s.RecoveryReady H := by
  refine ⟨fun planId row hrow hmode => ?_, howners⟩
  cases h planId row hrow with
  | shielded hshielded => exact absurd hshielded hmode
  | transparent _ howner => exact howner

/-- A row that is recorded and not blocked is clear. -/
theorem not_unclear_of_recorded (tip : CanonicalTip) (hrow : s.journal.operation planId = some row)
    (hrecorded : row.Recorded H s) (hblocked : ¬ row.Blocked s.locks) :
    ¬ Unclear H tip row.toOperation row.stage (row.planState (s.planLocks H planId)).held := by
  have hid := Journal.planId_of_operation hrow
  cases hrecorded with
  | shielded hmode howner hholds =>
      have hheld : (row.planState (s.planLocks H planId)).held = locksOf s.locks row.lockOwner := by
        rw [howner, hid]
        refine if_neg ?_
        change row.lockOwner ≠ ""
        rw [howner]
        exact lockOwnerHex_ne_empty H row.planId
      have hsome : locksOf s.locks row.lockOwner ≠ [] := by
        obtain ⟨l, hl, hlock⟩ := hholds
        refine List.ne_nil_of_mem (List.mem_filter.mpr ⟨hl, decide_eq_true ?_⟩)
        rw [hlock, howner]
      rw [hheld]
      rintro (⟨-, hne⟩ | ⟨hs, -, hmatch⟩ | ⟨hs, ⟨hnone, -⟩ | ⟨-, hmatch⟩⟩)
      · exact hne howner
      · exact hblocked (Or.inr ⟨hmode, Or.inl hs, hmatch⟩)
      · exact hsome hnone
      · exact hblocked (Or.inr ⟨hmode, Or.inr hs, hmatch⟩)
  | transparent hmode howner =>
      have hheld : (row.planState (s.planLocks H planId)).held = [] := if_pos howner
      rw [hheld]
      rintro (⟨hshielded, -⟩ | ⟨-, hne, -⟩ | ⟨hs, -⟩)
      · rw [hmode] at hshielded
        revert hshielded
        decide
      · exact hne rfl
      · exact hblocked (Or.inl ⟨hmode, hs⟩)

/-- A row as it was recorded names its inputs in order. -/
theorem canonical_of_recorded {locks : List LockedOutput} (hrecorded : row.Recorded H s) :
    (row.planState locks).Canonical H := by
  intro hmode
  cases hrecorded with
  | shielded _ howner => exact howner
  | transparent htransparent =>
      have hne : ("shielded" : String) ≠ "transparent" := by decide
      exact absurd ((Eq.symm hmode).trans htransparent) hne

/-- The first separator splits a list in one way. -/
theorem eq_of_append_cons_eq {α : Type} {a : α} {l l' r r' : List α} (hl : a ∉ l) (hl' : a ∉ l')
    (h : l ++ a :: r = l' ++ a :: r') : l = l' := by
  rcases List.append_eq_append_iff.mp h with ⟨m, rfl, hm⟩ | ⟨m, rfl, hm⟩
  · cases m with
    | nil => rw [List.append_nil]
    | cons b m =>
        rw [List.cons_append, List.cons.injEq] at hm
        rw [hm.1] at hl'
        exact absurd (List.mem_append_right _ List.mem_cons_self) hl'
  · cases m with
    | nil => rw [List.append_nil]
    | cons b m =>
        rw [List.cons_append, List.cons.injEq] at hm
        rw [hm.1] at hl
        exact absurd (List.mem_append_right _ List.mem_cons_self) hl

/-- An anomaly says which plan it is about. -/
theorem eq_of_anomaly_eq {p q message message' : String} (hp : ':' ∉ p.toList)
    (hq : ':' ∉ q.toList) (h : p ++ ": " ++ message = q ++ ": " ++ message') : p = q := by
  have hlist := congrArg String.toList h
  simp only [String.toList_append, List.append_assoc] at hlist
  exact String.toList_inj.mp (eq_of_append_cons_eq hp hq hlist)

/-- The report says nothing of a plan without an anomaly. -/
theorem silent_of_not_anomalous (hids : s.PlanIdsDrawn H) {x : PlanState}
    (hplan : s.plan H planId = some x) (hx : ¬ x.Anomalous H status tip)
    (hreport : report.Explained H status tip s) : report.Silent planId := by
  intro message hmem
  obtain ⟨q, y, message', hy, hanomalous, heq⟩ := hreport _ hmem
  have hthere : ∀ {p : String} {z : PlanState}, s.plan H p = some z →
      s.journal.operation p ≠ none := fun h hnone => by
    rw [WalletState.plan_eq_none.mpr hnone] at h
    cases h
  obtain rfl := eq_of_anomaly_eq (hids.hex _ (hthere hplan)) (hids.hex _ (hthere hy)) heq
  rw [hplan, Option.some.injEq] at hy
  exact hx (hy ▸ hanomalous)

/-- **What recovery makes of interrupted commands.** After two passes a plan whose command was
interrupted before the broadcast phase is done with, and the second pass reports no anomaly for it,
unless it is blocked; and a plan at `Broadcasting` is where the node says its transaction is. -/
theorem recovery_clears (O : Outside) {start w : World FundedCall}
    (hempty : ∀ planId, start.operation planId = none)
    (hrun : Runs O.answers (FundedCall.prog O.hashing) start w)
    (hids : w.state.PlanIdsDrawn O.hashing) (status : String → Except String TxStatus)
    (tip : CanonicalTip) {v : World Unit} (hfirst : Passes O.hashing status tip 1 w.state s)
    (hlast : Yields ((steady O.hashing status False).answers ())
      (startupRecover WalletM.release O.hashing tip).run ⟨s, []⟩ (.ok report) v)
    (hrow : w.operation planId = some row) :
    (row.stage.inBroadcastPhase = false → ¬ row.Blocked w.state.locks →
      (∃ stage, v.state.journal.stage planId = some stage ∧ stage.isTerminal = true) ∧
      report.Silent planId) ∧
    (row.stage = .broadcasting → (∃ observed, row.txid.map status = some (.ok observed)) →
      (∃ stage, v.state.journal.stage planId = some stage ∧
        (stage.isTerminal = true ∨ stage = .broadcastUnknown ∨ stage = .broadcastAccepted)) ∧
      report.Silent planId) := by
  have hrecorded := rows_recorded (fun planId row hrow => by
    have hnone : start.state.journal.operation planId = none := hempty planId
    rw [hnone] at hrow
    cases hrow) hrun
  have hready := hrecorded.ready hids.owners
  have hpass := hfirst.becomesAll hready
  obtain ⟨⟨report', hreport, hexplained⟩, hsecond⟩ :=
    (spec_startupRecover_steady (hpass.ready hready)).of_yields hlast
  obtain rfl := Except.ok.inj hreport
  have hids' : s.PlanIdsDrawn O.hashing :=
    ⟨fun p hp => hids.hex p ((hpass.operation_eq_none p).not.mp hp),
      hids.owners.congr hpass.operation_eq_none⟩
  have hx : w.state.plan O.hashing planId =
      some (row.planState (w.state.planLocks O.hashing planId)) :=
    WalletState.plan_eq_some.mpr ⟨row, hrow, rfl⟩
  have hx₁ : s.plan O.hashing planId = _ := (hpass.plan planId).trans (congrArg _ hx)
  have hx₂ : v.state.plan O.hashing planId = _ := (hsecond.plan planId).trans (congrArg _ hx₁)
  have hstage := stage_eq_of_plan hx₂
  constructor
  · intro hphase hblocked
    obtain ⟨hterminal, hquiet⟩ := isTerminal_settle status (x := row.planState _)
      (not_unclear_of_recorded tip hrow (hrecorded planId row hrow) hblocked) hphase
    exact ⟨⟨_, hstage, hterminal⟩, silent_of_not_anomalous hids' hx₁ hquiet hexplained⟩
  · rintro hs ⟨observed, hstatus⟩
    obtain ⟨hsettled, hquiet⟩ := settle_of_broadcasting tip (x := row.planState _)
      (canonical_of_recorded (hrecorded planId row hrow)) hs hstatus
    exact ⟨⟨_, hstage, hsettled⟩, silent_of_not_anomalous hids' hx₁ hquiet hexplained⟩

/-- Whether the call submits a transaction. -/
def WalletEffect.sends : WalletEffect → Bool
  | sendRawTransaction _ => true
  | _ => false

/-- A journal with one row. -/
theorem eq_of_rows (h : s.journal.rows.map (fun row => row.planId) = ["plan"]) {planId : String}
    (hplan : s.journal.operation planId ≠ none) : planId = "plan" := by
  obtain ⟨row, hrow⟩ := Option.ne_none_iff_exists'.mp hplan
  obtain ⟨hid, createdAt, hmem⟩ := Journal.operation_eq_some.mp hrow
  have hid' := List.mem_map_of_mem (f := fun row : StoredRow => row.planId) hmem
  rw [h, List.mem_singleton] at hid'
  exact hid.symm.trans hid'

/-- The ids of one plan are drawn as they should be. -/
theorem planIdsDrawn_of_rows (h : s.journal.rows.map (fun row => row.planId) = ["plan"]) :
    s.PlanIdsDrawn H := by
  refine ⟨fun p hp => ?_, fun p q hp hq _ => (eq_of_rows h hp).trans (eq_of_rows h hq).symm⟩
  rw [eq_of_rows h hp]
  decide

/-- A crash on the way leaves a wallet that is ready for recovery. -/
theorem FundedCall.ready_after (c : FundedCall) (n : ℕ)
    (h : (c.after n).state.journal.rows.map (fun row => row.planId) = ["plan"]) :
    (c.after n).state.RecoveryReady anyOutside.hashing := by
  have hrows := rows_recorded (O := anyOutside) (fun planId row hrow => by cases hrow)
    (c.runs_after n)
  exact hrows.ready (planIdsDrawn_of_rows h).owners

/-- The stages after two passes. -/
theorem Passes.stage_eq (h : Passes H status tip 2 s s') (hready : s.RecoveryReady H)
    (planId : String) : s'.journal.stage planId =
      (s.plan H planId).map fun x => (x.settle H status tip).stage := by
  have hplan := (h.becomesAll hready).plan planId
  cases hx : s.plan H planId with
  | none =>
      rw [hx] at hplan
      rw [Journal.stage, WalletState.plan_eq_none.mp hplan]
      rfl
  | some x =>
      rw [hx, Option.map_some, PlanState.iterate_pass le_rfl] at hplan
      exact stage_eq_of_plan hplan

/-- A plan that was recorded and reserved is cancelled. -/
theorem recovery_clears_reserved : ∃ (s : WalletState) (report : RecoveryReport) (v : World Unit),
    Passes anyOutside.hashing (fun _ => .ok .absent) ⟨1, .replicate 0⟩ 1
      ((fundedCall .shielded).after 16).state s ∧
    Yields ((steady anyOutside.hashing (fun _ => .ok .absent) False).answers ())
      (startupRecover WalletM.release anyOutside.hashing ⟨1, .replicate 0⟩).run ⟨s, []⟩
      (.ok report) v ∧
    (∃ stage, v.state.journal.stage "plan" = some stage ∧ stage.isTerminal = true) ∧
    report.Silent "plan" := by
  let c := fundedCall .shielded
  have hids : (c.after 16).state.journal.rows.map (fun row => row.planId) = ["plan"] := by
    decide +kernel
  obtain ⟨v, hv⟩ := exists_passes (fun _ => .ok .absent) ⟨1, .replicate 0⟩ (c.ready_after 16 hids) 2
  have hrow : ((c.after 16).operation "plan").any (fun row => !row.stage.inBroadcastPhase &&
      !decide (row.Blocked (c.after 16).state.locks)) = true := by decide +kernel
  rw [Option.any_eq_true] at hrow
  obtain ⟨row, hrow, hclear⟩ := hrow
  simp only [Bool.and_eq_true, Bool.not_eq_true', decide_eq_false_iff_not] at hclear
  cases hv with
  | succ hfirst hlast =>
      exact ⟨_, _, _, hfirst, hlast, (recovery_clears anyOutside (fun _ => rfl) (c.runs_after 16)
        (planIdsDrawn_of_rows hids) _ _ hfirst hlast hrow).1 hclear.1 hclear.2⟩

/-- Two passes leave a plan at the stage whose command was interrupted before it sent anything. -/
def LeftAt (stage : JournalStage) : Prop :=
  ∃ (w : World FundedCall) (s : WalletState),
    Runs anyOutside.answers (FundedCall.prog anyOutside.hashing) freshWorld w ∧
    (∀ x ∈ w.history, x.effect.sends = false) ∧ w.state.PlanIdsDrawn anyOutside.hashing ∧
    Passes anyOutside.hashing (fun _ => .ok .absent) ⟨1, .replicate 0⟩ 2 w.state s ∧
    s.journal.stage "plan" = some stage

/-- Each stage is where some crash leaves the plan. -/
theorem leftAt_of_after (c : FundedCall) (n : ℕ) {stage : JournalStage}
    (hids : (c.after n).state.journal.rows.map (fun row => row.planId) = ["plan"])
    (hunsent : (c.after n).history.all (fun x => !x.effect.sends) = true)
    (hstage : ((c.after n).state.plan anyOutside.hashing "plan").map (fun x => (x.settle
      anyOutside.hashing (fun _ => .ok .absent) ⟨1, .replicate 0⟩).stage) = some stage) :
    LeftAt stage := by
  have hready := c.ready_after n hids
  obtain ⟨s, hs⟩ := exists_passes (fun _ => .ok .absent) ⟨1, .replicate 0⟩ hready 2
  refine ⟨c.after n, s, c.runs_after n, fun x hx => ?_, planIdsDrawn_of_rows hids, hs,
    (hs.stage_eq hready "plan").trans hstage⟩
  simpa using List.all_eq_true.mp hunsent x hx

/-- A plan whose row was moved to `Broadcasting` and that was not sent is left at
`BroadcastUnknown`, and a transparent plan that was only reserved at `Reserved`. -/
theorem not_recovery_clears : LeftAt .broadcastUnknown ∧ LeftAt .reserved :=
  ⟨leftAt_of_after (fundedCall .transparent) 25 (by decide +kernel) (by decide +kernel)
      (by decide +kernel),
    leftAt_of_after (fundedCall .transparent) 9 (by decide +kernel) (by decide +kernel)
      (by decide +kernel)⟩

end Clears

end Zalkanes
