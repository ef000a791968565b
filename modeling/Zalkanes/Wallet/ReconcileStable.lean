import Zalkanes.Wallet.Broadcast

/-!
# Stability of Reconciliation

With a steady node, one pass of reconciliation leaves every row where a further pass finds nothing
to do (`OperationRow.Settled`).

## Main results

* `reconcile_stable`: no move of a pass is refused by the stage machine, and after a complete pass
  the next one only reads.
-/

namespace Zalkanes

open Lib

/-- Whether the call only reads. -/
def WalletEffect.reads : WalletEffect → Bool
  | nonTerminalRows | txStatus _ | lockedOutputs => true
  | _ => false

/-- A row that a pass leaves alone. -/
def OperationRow.Settled (status : String → Except String TxStatus) (tip : CanonicalTip)
    (row : OperationRow) : Prop :=
  row.stage.inBroadcastPhase = true → ∀ txid observed, row.txid = some txid →
    status txid = .ok observed →
    match observed with
    | .mined _ => False
    | .inMempool => row.stage = .broadcastAccepted
    | .absent => row.definitelyExpired tip = false ∧ row.stage ≠ .broadcasting

/-- Every row is left alone. -/
def Journal.Settled (status : String → Except String TxStatus) (tip : CanonicalTip) (j : Journal) :
    Prop :=
  ∀ planId row, j.operation planId = some row → row.Settled status tip

/-- The outside with a node that says the same whenever it is asked. -/
def Outside.saying (O : Outside) (status : String → Except String TxStatus) : Outside :=
  { O with txStatus := fun txid answer => answer = status txid }

/-- Whether the node says the same whenever it is asked. -/
def Outside.Steady (O : Outside) (status : String → Except String TxStatus) : Prop :=
  ∀ txid answer, O.txStatus txid answer → answer = status txid

/-- A node that says one thing is steady. -/
theorem Outside.saying_steady (O : Outside) (status : String → Except String TxStatus) :
    (O.saying status).Steady status :=
  fun _ _ h => h

section Stable

variable {C : Type} {O : Outside} {status : String → Except String TxStatus} {c : C}
  {tip : CanonicalTip} {w : World C} {report : ReconcileReport} {row : OperationRow}

open Prog Outside

/-- Rows outside of the broadcast phase are settled. -/
theorem OperationRow.settled_of_not_inBroadcastPhase (h : row.stage.inBroadcastPhase = false) :
    row.Settled status tip := fun hs => by
  rw [h] at hs
  cases hs

/-- The call settled its row, and left the others. -/
def SettlesRow {α : Type} (status : String → Except String TxStatus) (tip : CanonicalTip)
    (w : World C) (planId : String) (r : Except String α) (w' : World C) : Prop :=
  w.Frame planId w' ∧
    ∀ a, r = .ok a → ∃ row, w'.operation planId = some row ∧ row.Settled status tip

/-- An error settles nothing. -/
theorem settles_error {α : Type} {planId : String} {e : String} {w' : World C}
    (hframe : w.Frame planId w') :
    SettlesRow status tip w planId (.error e : Except String α) w' :=
  ⟨hframe, fun a h => by cases h⟩

/-- A move to a settled row. -/
theorem spec_reconcileTransition_settles {cur : OperationRow} {target : JournalStage}
    {err : Option String} (hrow : w.operation row.planId = some cur)
    (hsettled : (cur.moved target none err).Settled status tip) :
    Spec (O.answers c) (fun _ _ => True) (reconcileTransition report row target err).run w
      (SettlesRow status tip w row.planId) := by
  rw [reconcileTransition, spec_run_bind]
  refine spec_transition trivial (fun cur' w' hcur _ hs _ => ?_)
    fun e w' hs _ => settles_error (World.frame_of_state_eq _ hs)
  obtain rfl : cur = cur' := Option.some.inj (hrow.symm.trans hcur)
  refine ⟨World.frame_of_write hs, fun _ _ => ⟨_, ?_, hsettled⟩⟩
  rw [World.operation_write hs, if_pos rfl, hrow, Option.map_some]

/-- The end of the absent branch: the row expires. -/
theorem spec_expire_settles {cur : OperationRow} (hrow : w.operation row.planId = some cur) :
    Spec (O.answers c) (fun _ _ => True)
      (do
        let report ← reconcileTransition report row .expired (some "absent past expiry + margin")
        WalletM.release row.planId
        return { report with released := report.released ++ [row.planId] } :
          WalletM ReconcileReport).run w (SettlesRow status tip w row.planId) := by
  rw [spec_run_bind]
  refine Spec.mono (Q := SettlesRow status tip w row.planId) (spec_reconcileTransition_settles hrow
    (OperationRow.settled_of_not_inBroadcastPhase rfl)) fun r w' h => ?_
  cases r with
  | error e => exact settles_error h.1
  | ok report' =>
      obtain ⟨row', hrow', hsettled⟩ := h.2 report' rfl
      dsimp only
      rw [spec_run_bind]
      refine ⟨trivial, fun r w'' hanswer => ?_⟩
      have hop : ∀ q, w''.operation q = w'.operation q :=
        World.operation_of_journal_eq hanswer.1.1
      have hframe : w.Frame row.planId w'' := fun q hq => (hop q).trans (h.1 q hq)
      cases r with
      | error e => exact settles_error hframe
      | ok _ => exact ⟨hframe, fun _ _ => ⟨row', (hop _).trans hrow', hsettled⟩⟩

/-- A transaction that is nowhere is settled. -/
theorem spec_reconcileAbsent_settles {txid : String} (hrow : w.operation row.planId = some row)
    (htxid : row.txid = some txid) (habsent : status txid = .ok .absent) :
    Spec (O.answers c) (fun _ _ => True) (reconcileAbsent WalletM.release tip report row).run w
      (SettlesRow status tip w row.planId) := by
  -- a row that is not expired is settled once it is not at `Broadcasting`
  have hkept : ∀ cur : OperationRow, cur.toOperation = row.toOperation → cur.txid = row.txid →
      row.definitelyExpired tip = false → cur.stage ≠ .broadcasting → cur.Settled status tip := by
    intro cur hoperation hsame hexpired hs _ txid' observed htxid' hstatus
    rw [hsame, htxid, Option.some.injEq] at htxid'
    rw [← htxid', habsent, Except.ok.injEq] at hstatus
    subst hstatus
    exact ⟨hoperation ▸ hexpired, hs⟩
  rw [reconcileAbsent]
  by_cases hexpired : row.definitelyExpired tip = true
  · rw [if_pos hexpired]
    by_cases hb : row.stage = .broadcasting
    · rw [if_pos hb, spec_run_bind, reconcileTransition, spec_run_bind]
      refine spec_transition trivial (fun cur w' hcur _ hs _ => ?_)
        fun e w' hs _ => settles_error (World.frame_of_state_eq _ hs)
      have hmoved : w'.operation row.planId = some (cur.moved .broadcastUnknown none none) := by
        rw [World.operation_write hs, if_pos rfl, World.operation, hcur, Option.map_some]
      exact (spec_expire_settles hmoved).mono
        fun r w'' h => ⟨(World.frame_of_write hs).trans h.1, h.2⟩
    · rw [if_neg hb]
      exact spec_expire_settles hrow
  · have hlive : row.definitelyExpired tip = false := Bool.eq_false_iff.mpr hexpired
    rw [if_neg hexpired]
    by_cases hb : row.stage = .broadcasting
    · rw [if_pos hb, spec_run_bind]
      have hmoved : JournalStage.broadcastUnknown ≠ .broadcasting := by decide
      refine Spec.mono (Q := SettlesRow status tip w row.planId)
        (spec_reconcileTransition_settles hrow (hkept _ rfl rfl hlive hmoved)) fun r w' h => ?_
      cases r with
      | error e => exact settles_error h.1
      | ok report' => exact ⟨h.1, fun _ _ => h.2 report' rfl⟩
    · rw [if_neg hb]
      exact ⟨World.frame_of_state_eq _ rfl, fun _ _ => ⟨row, hrow, hkept row rfl rfl hlive hb⟩⟩

/-- The step of a pass. -/
theorem spec_reconcileRow_settles (hsteady : O.Steady status)
    (hrow : w.operation row.planId = some row) :
    Spec (O.answers c) (fun _ _ => True) (reconcileRow WalletM.release tip report row).run w
      (SettlesRow status tip w row.planId) := by
  have hkeep : row.Settled status tip → ∀ (w' : World C), w'.state = w.state →
      ∀ r : Except String ReconcileReport, SettlesRow status tip w row.planId r w' :=
    fun hsettled w' hs r => ⟨World.frame_of_state_eq _ hs,
      fun _ _ => ⟨row, (World.operation_congr hs _).trans hrow, hsettled⟩⟩
  rw [reconcileRow]
  by_cases hs : row.stage.inBroadcastPhase = true
  · rw [if_pos hs]
    cases htxid : row.txid with
    | none => exact hkeep (fun _ txid _ h => by rw [htxid] at h; cases h) w rfl _
    | some txid =>
        dsimp only
        rw [spec_run_bind, WalletM.txStatus, spec_run_lift, spec_call]
        refine ⟨trivial, fun answer w' h => ?_⟩
        obtain ⟨⟨hstate, hanswer⟩, -⟩ := h
        have hstatus : answer = status txid := hsteady _ _ hanswer
        cases answer with
        | error e =>
            refine hkeep (fun _ txid' observed h hok => ?_) w' hstate _
            rw [htxid, Option.some.injEq] at h
            rw [← h, ← hstatus] at hok
            cases hok
        | ok observed =>
            have hrow' : w'.operation row.planId = some row :=
              (World.operation_congr hstate _).trans hrow
            have hback : ∀ (r : Except String ReconcileReport) (w'' : World C),
                SettlesRow status tip w' row.planId r w'' →
                  SettlesRow status tip w row.planId r w'' :=
              fun r w'' h => ⟨(World.frame_of_state_eq _ hstate).trans h.1, h.2⟩
            change Spec _ _ (reconcileObserved _ tip report row observed).run w' _
            refine Spec.mono ?_ hback
            cases observed with
            | mined height =>
                rw [reconcileObserved, if_pos (by revert hs; cases row.stage <;> decide)]
                exact spec_reconcileTransition_settles hrow'
                  (OperationRow.settled_of_not_inBroadcastPhase rfl)
            | inMempool =>
                have hsettled : ∀ cur : OperationRow, cur.stage = .broadcastAccepted →
                    cur.txid = row.txid → cur.Settled status tip := by
                  intro cur hcur hsame _ txid' observed h hok
                  rw [hsame, htxid, Option.some.injEq] at h
                  rw [← h, ← hstatus, Except.ok.injEq] at hok
                  subst hok
                  exact hcur
                rw [reconcileObserved]
                by_cases haccepted : row.stage = .broadcastAccepted
                · rw [if_neg (not_not.mpr haccepted)]
                  exact ⟨World.frame_of_state_eq _ rfl,
                    fun _ _ => ⟨row, hrow', hsettled row haccepted rfl⟩⟩
                · rw [if_pos haccepted]
                  exact spec_reconcileTransition_settles hrow' (hsettled _ rfl rfl)
            | absent => exact spec_reconcileAbsent_settles hrow' htxid hstatus.symm
  · rw [if_neg hs]
    exact hkeep (OperationRow.settled_of_not_inBroadcastPhase (Bool.eq_false_iff.mpr hs)) w rfl _

/-- **A complete pass settles the journal.** -/
theorem spec_reconcile_settles (hsteady : O.Steady status) :
    Spec (O.answers c) (fun _ _ => True) (reconcile WalletM.release tip).run w fun r w' =>
      ∀ report, r = .ok report → w'.state.journal.Settled status tip := by
  rw [reconcile, spec_run_bind]
  refine ⟨trivial, fun r w' h => ?_⟩
  obtain ⟨⟨-, -, e, rfl⟩ | ⟨hs, rows, hrows, rfl⟩, -⟩ := h
  · exact fun report h => by cases h
  -- the rows that are left are as they were read, and the others are settled
  refine spec_run_foldlM (fun rest _ v => v.Holds rest ∧ ∀ planId row,
      v.operation planId = some row → row ∉ rest → row.Settled status tip)
    (fun row rest report v hv => ?_) (fun report v hv _ _ planId row hrow =>
      hv.2 planId row hrow List.not_mem_nil)
    ⟨.of_nonTerminalRows hrows hs, fun planId row hrow hnot => ?_⟩
  · refine (spec_reconcileRow_settles hsteady (hv.1.2 row List.mem_cons_self)).mono
      fun r w'' h => ?_
    cases r with
    | error e => exact fun report h => by cases h
    | ok report' =>
        refine ⟨hv.1.tail h.1, fun planId cur hcur hnot => ?_⟩
        by_cases hplan : planId = row.planId
        · obtain ⟨settled, hsettled, hfix⟩ := h.2 report' rfl
          rw [hplan, hsettled, Option.some.injEq] at hcur
          rw [← hcur]
          exact hfix
        · rw [h.1 planId hplan] at hcur
          refine hv.2 planId cur hcur fun hmem => ?_
          rcases List.mem_cons.mp hmem with rfl | hmem
          · exact hplan (Journal.planId_of_operation hcur).symm
          · exact hnot hmem
  · refine OperationRow.settled_of_not_inBroadcastPhase (Bool.eq_false_iff.mpr fun hphase => ?_)
    rw [World.operation_congr hs] at hrow
    have hid := Journal.planId_of_operation hrow
    refine hnot (hrows.mem_iff.mpr ⟨hid ▸ hrow, ?_⟩)
    revert hphase
    cases row.stage <;> decide

/-- **A pass over a settled journal only reads**, and it reports no action. -/
theorem spec_reconcile_reads (hsteady : O.Steady status)
    (hsettled : w.state.journal.Settled status tip) :
    Spec (O.answers c) (fun e _ => e.reads = true) (reconcile WalletM.release tip).run w fun r _ =>
      ∀ report, r = .ok report → report.actions = [] ∧ report.released = [] := by
  rw [reconcile, spec_run_bind]
  refine ⟨rfl, fun r w' h => ?_⟩
  obtain ⟨⟨-, -, e, rfl⟩ | ⟨-, rows, hrows, rfl⟩, -⟩ := h
  · exact fun report h => by cases h
  refine spec_run_foldlM (fun rest report _ => (∀ row ∈ rest, row.Settled status tip) ∧
      report.actions = [] ∧ report.released = []) (fun row rest report v hv => ?_)
    (fun report v hv report' h => ?_) ⟨fun row hrow => ?_, rfl, rfl⟩
  · obtain ⟨hrest, hactions, hreleased⟩ := hv
    have hrow := hrest row List.mem_cons_self
    have hgo : ∀ report' : ReconcileReport, report'.actions = report.actions →
        report'.released = report.released →
        (∀ row ∈ rest, row.Settled status tip) ∧ report'.actions = [] ∧ report'.released = [] :=
      fun report' ha hr => ⟨fun row' hmem => hrest row' (List.mem_cons_of_mem _ hmem),
        ha.trans hactions, hr.trans hreleased⟩
    rw [reconcileRow]
    by_cases hs : row.stage.inBroadcastPhase = true
    · rw [if_pos hs]
      cases htxid : row.txid with
      | none => exact hgo _ rfl rfl
      | some txid =>
          dsimp only
          rw [spec_run_bind, WalletM.txStatus, spec_run_lift, spec_call]
          refine ⟨rfl, fun answer w'' h => ?_⟩
          have hstatus : answer = status txid := hsteady _ _ h.1.2
          cases answer with
          | error e => exact hgo _ rfl rfl
          | ok observed =>
              have hobserved := hrow hs txid observed htxid hstatus.symm
              change Spec _ _ (reconcileObserved _ tip report row observed).run w'' _
              cases observed with
              | mined height => exact hobserved.elim
              | inMempool =>
                  rw [reconcileObserved, if_neg (not_not.mpr hobserved)]
                  exact hgo _ rfl rfl
              | absent =>
                  obtain ⟨hlive, hb⟩ := hobserved
                  rw [reconcileObserved, reconcileAbsent, hlive, if_neg Bool.false_ne_true,
                    if_neg hb]
                  exact hgo _ rfl rfl
    · rw [if_neg hs]
      exact hgo _ rfl rfl
  · cases h
    exact hv.2
  · exact hsettled row.planId row (hrows.mem_iff.mp hrow).1

/-- **Reconciliation is stable.** Whatever the journal and the locks, no move that a pass attempts
is refused by the stage machine; and after a complete pass the next one, with the same tip and
statuses, only reads and reports no action. -/
theorem reconcile_stable (O : Outside) (status : String → Except String TxStatus)
    (tip : CanonicalTip) (c : C) (start : World C) :
    (∀ planId target txid lastError v,
      Performs ((O.saying status).answers c) (reconcile WalletM.release tip).run start
        (.transition planId target txid lastError) v →
      ∃ row, v.operation planId = some row ∧ row.stage.canTransition target = true) ∧
    ∀ report w,
      Yields ((O.saying status).answers c) (reconcile WalletM.release tip).run start (.ok report)
        w →
      (∀ e v, Performs ((O.saying status).answers c) (reconcile WalletM.release tip).run w e v →
        e.reads = true) ∧
      ∀ report' v,
        Yields ((O.saying status).answers c) (reconcile WalletM.release tip).run w (.ok report') v →
        report'.actions = [] ∧ report'.released = [] := by
  have hsteady := O.saying_steady status
  refine ⟨fun planId target txid lastError v hperforms => ?_, fun report w hrun => ?_⟩
  · obtain ⟨-, row, hrow, hmove⟩ :=
      (reconcile_permits (O.saying status) c tip start).of_performs hperforms
    exact ⟨row, hrow, hmove.canTransition⟩
  · have hsettled := (spec_reconcile_settles hsteady).of_yields hrun report rfl
    have hspec := spec_reconcile_reads (c := c) hsteady hsettled
    exact ⟨fun e v hperforms => hspec.of_performs hperforms,
      fun report' v hrun' => hspec.of_yields hrun' report' rfl⟩

/-- A row whose transaction is in the mempool. -/
def acceptedRow : OperationRow :=
  ⟨⟨"plan", "", "call", "transparent", "", 1, "", 2, "", none⟩, .broadcastAccepted, some "tx", none⟩

/-- A pass over a row whose transaction is in the mempool, and what the next one does. -/
theorem reconcile_stable_inMempool :
    ∃ w : World Unit, w.state.journal.operation "plan" = some acceptedRow ∧
      ∀ e v, Performs ((anyOutside.saying fun _ => .ok .inMempool).answers ())
        (reconcile WalletM.release ⟨1, .replicate 0⟩).run w e v → e.reads = true := by
  let s : WalletState := ⟨⟨[⟨acceptedRow, 0⟩], List.nodup_singleton _⟩, []⟩
  let x : Happened Unit := ⟨(), .nonTerminalRows, Except.ok [acceptedRow]⟩
  let x' : Happened Unit := ⟨(), .txStatus "tx", Except.ok .inMempool⟩
  have hread : (anyOutside.saying fun _ => .ok .inMempool).answers () ⟨s, []⟩ .nonTerminalRows
      (Except.ok [acceptedRow]) ⟨s, [x]⟩ :=
    ⟨Or.inr ⟨rfl, [acceptedRow], ⟨_, List.Perm.refl _, List.pairwise_singleton _ _, rfl⟩, rfl⟩, rfl⟩
  have hstatus : (anyOutside.saying fun _ => .ok .inMempool).answers () ⟨s, [x]⟩
      (.txStatus "tx") (Except.ok .inMempool) ⟨s, [x, x']⟩ := ⟨⟨rfl, rfl⟩, rfl⟩
  have hrun : Yields ((anyOutside.saying fun _ => .ok .inMempool).answers ())
      (reconcile WalletM.release ⟨1, .replicate 0⟩).run ⟨s, []⟩ (.ok ⟨[], [], [], []⟩)
      ⟨s, [x, x']⟩ :=
    .perform hread (.perform hstatus (.done _ _))
  exact ⟨_, rfl, ((reconcile_stable anyOutside _ _ () ⟨s, []⟩).2 _ _ hrun).1⟩

end Stable

end Zalkanes
