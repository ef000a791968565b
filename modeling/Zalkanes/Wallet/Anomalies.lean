import Zalkanes.Wallet.PlanState

/-!
# Anomalies

What recovery reports without acting on it. Every anomaly of a pass is reported for one of the rows
that were read: startup recovery found it in a case that it does not touch (`Unclear`), or the node
did not answer for it (`Unanswered`).

## Main results

* `spec_recoverRow_anomalies`, `spec_reconcileRow_errors`: the rows that an anomaly is reported for.
* `spec_foldlM_reports`: a loop over the rows reports anomalies for such rows only.
-/

namespace Zalkanes

open Lib

/-- The cases that startup recovery reports and does not touch, at a stage and with locks held. -/
def Unclear (H : Hashing) (tip : CanonicalTip) (operation : Operation) (stage : JournalStage)
    (held : List LockedOutput) : Prop :=
  (operation.fundingMode = "shielded" ∧ operation.lockOwner ≠ lockOwnerHex H operation.planId) ∨
    stage = .planned ∧ held ≠ [] ∧ inputsMatch operation held = false ∨
    stage = .reserved ∧ (held = [] ∧ operation.expired tip = false ∨
      held ≠ [] ∧ inputsMatch operation held = false)

/-- The node says nothing of the transaction of a plan that is reconciled with it. -/
def Unanswered (status : String → Except String TxStatus) (stage : JournalStage)
    (txid : Option String) : Prop :=
  stage.inBroadcastPhase = true ∧ ∀ observed, txid.map status ≠ some (.ok observed)

/-- The plans that a pass reports an anomaly for. -/
def PlanState.Anomalous (H : Hashing) (status : String → Except String TxStatus)
    (tip : CanonicalTip) (x : PlanState) : Prop :=
  Unclear H tip x.operation x.stage x.held ∨ Unanswered status x.stage x.txid

/-- The new report has the anomalies of the old one, and at most one more, about the row. -/
def ReportsFor {R : Type} (anomalies : R → List String) (report : R) (row : OperationRow)
    (P : Prop) (r : Except String R) : Prop :=
  ∀ report', r = .ok report' → anomalies report' = anomalies report ∨
    ∃ message, anomalies report' = anomalies report ++ [row.planId ++ ": " ++ message] ∧ P

section ReportsFor

variable {R : Type} {anomalies : R → List String} {report report' : R} {row : OperationRow}
  {P : Prop}

/-- An error reports nothing. -/
theorem reportsFor_error {e : String} : ReportsFor anomalies report row P (.error e) :=
  fun report' h => by cases h

/-- A report that says no more reports nothing. -/
theorem reportsFor_of_eq (h : anomalies report' = anomalies report) :
    ReportsFor anomalies report row P (.ok report') :=
  fun report'' hr => Or.inl (by rw [← Except.ok.inj hr, h])

/-- A report that says more has a reason. -/
theorem reportsFor_of_append {message : String}
    (h : anomalies report' = anomalies report ++ [row.planId ++ ": " ++ message]) (hP : P) :
    ReportsFor anomalies report row P (.ok report') :=
  fun report'' hr => Or.inr ⟨message, by rw [← Except.ok.inj hr, h], hP⟩

/-- A step after which the anomalies are as before, and another one. -/
theorem ReportsFor.congr {r : Except String R} (h : ReportsFor anomalies report' row P r)
    (hsame : anomalies report' = anomalies report) : ReportsFor anomalies report row P r := by
  intro report'' hr
  rw [← hsame]
  exact h report'' hr

end ReportsFor

section Rows

variable {W : Type} {A : Answers WalletEffect.Answer W} {w : W} {H : Hashing}
  {tip : CanonicalTip} {row : OperationRow} {view : List LockedOutput} {P : Prop}

open Prog

/-! ### Startup recovery -/

/-- The rule for a move of a row, which adds no anomaly. -/
theorem spec_recoverTransition_reports {report : RecoveryReport} {target : JournalStage}
    {err : Option String} {Q : Except String RecoveryReport → W → Prop}
    (hok : ∀ report' w', report'.anomalies = report.anomalies → Q (.ok report') w')
    (herror : ∀ e w', Q (.error e) w') :
    Spec A (fun _ _ => True) (recoverTransition report row target err).run w Q := by
  rw [recoverTransition, spec_run_bind]
  refine ⟨trivial, fun r w' _ => ?_⟩
  cases r with
  | error e => exact herror e w'
  | ok source => exact hok _ w' rfl

/-- A release reports nothing. -/
theorem spec_recoverRelease_reports {report : RecoveryReport} :
    Spec A (fun _ _ => True) (recoverRelease WalletM.release report row).run w fun r _ =>
      ReportsFor RecoveryReport.anomalies report row P r := by
  rw [recoverRelease, spec_run_bind]
  refine ⟨trivial, fun r w' _ => ?_⟩
  cases r with
  | error e => exact reportsFor_error
  | ok _ => exact reportsFor_of_eq rfl

/-- **An anomaly of startup recovery** is reported for an unclear row. -/
theorem spec_recoverRow_anomalies {report : RecoveryReport} :
    Spec A (fun _ _ => True) (recoverRow WalletM.release view tip report row H).run w fun r _ =>
      ReportsFor RecoveryReport.anomalies report row
        (Unclear H tip row.toOperation row.stage (row.held view)) r := by
  have hmove : ∀ {P : Prop} (target : JournalStage) (err : Option String),
      Spec A (fun _ _ => True) (recoverTransition report row target err).run w fun r _ =>
        ReportsFor RecoveryReport.anomalies report row P r := fun _ _ =>
    spec_recoverTransition_reports (fun _ _ h => reportsFor_of_eq h) fun _ _ => reportsFor_error
  rw [recoverRow]
  by_cases howner : row.fundingMode = "shielded" ∧ row.lockOwner ≠ lockOwnerHex H row.planId
  · rw [if_pos howner]
    exact reportsFor_of_append rfl (Or.inl howner)
  · rw [if_neg howner]
    cases hs : row.stage with
    | planned =>
        change Spec _ _ (recoverPlanned view report row).run w _
        rw [recoverPlanned]
        by_cases hheld : row.held view = []
        · rw [if_pos hheld]
          exact hmove _ _
        · rw [if_neg hheld]
          by_cases hmatch : inputsMatch row.toOperation (row.held view) = true
          · rw [if_pos hmatch]
            exact hmove _ _
          · rw [if_neg hmatch]
            exact reportsFor_of_append rfl
              (Or.inr (Or.inl ⟨rfl, hheld, Bool.eq_false_iff.mpr hmatch⟩))
    | reserved =>
        change Spec _ _ (recoverReserved _ view tip report row).run w _
        rw [recoverReserved]
        by_cases hheld : row.held view = []
        · rw [if_pos hheld]
          by_cases hexpired : row.expired tip = true
          · rw [if_pos hexpired]
            exact hmove _ _
          · rw [if_neg hexpired]
            exact reportsFor_of_append rfl
              (Or.inr (Or.inr ⟨rfl, Or.inl ⟨hheld, Bool.eq_false_iff.mpr hexpired⟩⟩))
        · rw [if_neg hheld]
          by_cases hmatch : inputsMatch row.toOperation (row.held view) = true
          · rw [if_pos hmatch, spec_run_bind]
            exact spec_recoverTransition_reports
              (fun _ _ h => spec_recoverRelease_reports.mono fun _ _ hr => hr.congr h)
              fun _ _ => reportsFor_error
          · rw [if_neg hmatch]
            exact reportsFor_of_append rfl
              (Or.inr (Or.inr ⟨rfl, Or.inr ⟨hheld, Bool.eq_false_iff.mpr hmatch⟩⟩))
    | proving | proven =>
        change Spec _ _ (recoverUnsigned _ view report row).run w _
        rw [recoverUnsigned, spec_run_bind]
        refine spec_recoverTransition_reports (fun report' w' h => ?_) fun _ _ => reportsFor_error
        change Spec _ _ (ite _ _ _ : WalletM RecoveryReport).run w' _
        by_cases hheld : row.held view = []
        · rw [if_pos hheld]
          exact reportsFor_of_eq h
        · rw [if_neg hheld]
          exact spec_recoverRelease_reports.mono fun _ _ hr => hr.congr h
    | signing | signed | extracted | verified =>
        change Spec _ _ (recoverSigned view report row).run w _
        rw [recoverSigned, spec_run_bind]
        refine spec_recoverTransition_reports (fun report' w' h => ?_) fun _ _ => reportsFor_error
        change Spec _ _ (ite _ _ _ : WalletM RecoveryReport).run w' _
        by_cases hheld : row.held view = []
        · rw [if_pos hheld]
          exact reportsFor_of_eq h
        · rw [if_neg hheld]
          exact reportsFor_of_eq h
    | _ => exact reportsFor_of_eq rfl

/-! ### Reconciliation -/

/-- A transition reports nothing. -/
theorem spec_reconcileTransition_reports {report : ReconcileReport} {target : JournalStage}
    {err : Option String} {Q : Except String ReconcileReport → W → Prop}
    (hok : ∀ report' w', report'.errors = report.errors → Q (.ok report') w')
    (herror : ∀ e w', Q (.error e) w') :
    Spec A (fun _ _ => True) (reconcileTransition report row target err).run w Q := by
  rw [reconcileTransition, spec_run_bind]
  refine ⟨trivial, fun r w' _ => ?_⟩
  cases r with
  | error e => exact herror e w'
  | ok source => exact hok _ w' rfl

/-- A transaction that is nowhere is not reported. -/
theorem spec_reconcileAbsent_reports {report : ReconcileReport} :
    Spec A (fun _ _ => True) (reconcileAbsent WalletM.release tip report row).run w fun r _ =>
      ReportsFor ReconcileReport.errors report row P r := by
  -- the end of the branch of an expired row
  have hexpire : ∀ (report' : ReconcileReport) (w' : W), report'.errors = report.errors →
      Spec A (fun _ _ => True)
        (do
          let report ← reconcileTransition report' row .expired (some "absent past expiry + margin")
          WalletM.release row.planId
          return { report with released := report.released ++ [row.planId] } :
            WalletM ReconcileReport).run w' fun r _ =>
        ReportsFor ReconcileReport.errors report row P r := fun report' w' h => by
    rw [spec_run_bind]
    refine spec_reconcileTransition_reports (fun report'' w'' h' => ?_) fun _ _ => reportsFor_error
    dsimp only
    rw [spec_run_bind]
    refine ⟨trivial, fun r _ _ => ?_⟩
    cases r with
    | error e => exact reportsFor_error
    | ok _ => exact reportsFor_of_eq (h'.trans h)
  rw [reconcileAbsent]
  by_cases hexpired : row.definitelyExpired tip = true
  · rw [if_pos hexpired]
    by_cases hs : row.stage = .broadcasting
    · rw [if_pos hs, spec_run_bind]
      exact spec_reconcileTransition_reports hexpire fun _ _ => reportsFor_error
    · rw [if_neg hs]
      exact hexpire report w rfl
  · rw [if_neg hexpired]
    by_cases hs : row.stage = .broadcasting
    · rw [if_pos hs, spec_run_bind]
      exact spec_reconcileTransition_reports (fun _ _ h => reportsFor_of_eq h)
        fun _ _ => reportsFor_error
    · rw [if_neg hs]
      exact reportsFor_of_eq rfl

/-- **An error of reconciliation** is reported for a row that the node did not answer for. -/
theorem spec_reconcileRow_errors (status : String → Except String TxStatus)
    {report : ReconcileReport}
    (hstatus : ∀ w txid r w', A w (.txStatus txid) r w' → r = status txid) :
    Spec A (fun _ _ => True) (reconcileRow WalletM.release tip report row).run w fun r _ =>
      ReportsFor ReconcileReport.errors report row (Unanswered status row.stage row.txid) r := by
  rw [reconcileRow]
  by_cases hs : row.stage.inBroadcastPhase = true
  · rw [if_pos hs]
    cases htxid : row.txid with
    | none =>
        have hmessage : row.planId ++ ": broadcast-phase row has no txid" =
            row.planId ++ ": " ++ "broadcast-phase row has no txid" := by
          rw [String.append_assoc]
          rfl
        exact reportsFor_of_append (congrArg (report.errors ++ [·]) hmessage)
          ⟨hs, fun observed h => by cases h⟩
    | some txid =>
        dsimp only
        rw [spec_run_bind, WalletM.txStatus, spec_run_lift, spec_call]
        refine ⟨trivial, fun answer w' h => ?_⟩
        obtain rfl := hstatus _ _ _ _ h
        cases hanswer : status txid with
        | error e =>
            refine reportsFor_of_append rfl ⟨hs, fun observed h => ?_⟩
            rw [Option.map_some, hanswer] at h
            cases h
        | ok observed =>
            change Spec _ _ (reconcileObserved _ tip report row observed).run w' _
            cases observed with
            | mined height =>
                rw [reconcileObserved]
                by_cases hmined : row.stage ≠ .mined
                · rw [if_pos hmined]
                  exact spec_reconcileTransition_reports (fun _ _ h => reportsFor_of_eq h)
                    fun _ _ => reportsFor_error
                · rw [if_neg hmined]
                  exact reportsFor_of_eq rfl
            | inMempool =>
                rw [reconcileObserved]
                by_cases haccepted : row.stage ≠ .broadcastAccepted
                · rw [if_pos haccepted]
                  exact spec_reconcileTransition_reports (fun _ _ h => reportsFor_of_eq h)
                    fun _ _ => reportsFor_error
                · rw [if_neg haccepted]
                  exact reportsFor_of_eq rfl
            | absent => exact spec_reconcileAbsent_reports
  · rw [if_neg hs]
    exact reportsFor_of_eq rfl

/-! ### A loop over the rows -/

/-- Every anomaly is an old one, or is reported for one of the rows. -/
def ReportsAll (old new : List String) (rows : List OperationRow) (P : OperationRow → Prop) :
    Prop :=
  ∀ a ∈ new, a ∈ old ∨ ∃ row ∈ rows, P row ∧ ∃ message, a = row.planId ++ ": " ++ message

/-- **A loop over the rows** reports anomalies for such rows only. -/
theorem spec_foldlM_reports {R : Type} {anomalies : R → List String}
    {step : R → OperationRow → WalletM R} {rows : List OperationRow} {P : OperationRow → Prop}
    (hstep : ∀ row ∈ rows, ∀ (report : R) (w : W), Spec A (fun _ _ => True) (step report row).run w
      fun r _ => ReportsFor anomalies report row (P row) r) (report : R) :
    Spec A (fun _ _ => True) (rows.foldlM step report).run w fun r _ =>
      ∀ report', r = .ok report' → ReportsAll (anomalies report) (anomalies report') rows P := by
  refine spec_run_foldlM (fun rest report' _ => (∀ row ∈ rest, row ∈ rows) ∧
    ReportsAll (anomalies report) (anomalies report') rows P)
    (fun row rest report' v hv => ?_) (fun report' v hv => ?_)
    ⟨fun row hrow => hrow, fun a ha => Or.inl ha⟩
  · have hmem := hv.1 row List.mem_cons_self
    refine (hstep row hmem report' v).mono fun r v' hr => ?_
    cases r with
    | error e => exact fun report'' h => by cases h
    | ok report'' =>
        refine ⟨fun row' hrow' => hv.1 row' (List.mem_cons_of_mem _ hrow'), fun a ha => ?_⟩
        rcases hr report'' rfl with hsame | ⟨message, happend, hP⟩
        · rw [hsame] at ha
          exact hv.2 a ha
        · rw [happend] at ha
          rcases List.mem_append.mp ha with ha | ha
          · exact hv.2 a ha
          · exact Or.inr ⟨row, hmem, hP, message, List.mem_singleton.mp ha⟩
  · intro report'' h
    rw [← Except.ok.inj h]
    exact hv.2

end Rows

end Zalkanes
