import Zalkanes.Wallet.Anomalies

/-!
# Passes of Recovery

What a pass of startup recovery that nothing interrupts does to the wallet: every plan makes one
`PlanState.pass`, and no other lock is touched (`spec_startupRecover_steady`). The node and the tip
are steady: they say the same in every pass.

## Main results

* `spec_startupRecover_steady`: an uninterrupted pass is `PlanState.pass` at every plan.
-/

namespace Zalkanes

open Lib

/-- An outside that says the same whenever it is asked. The lock view lists the locks that are
held, in any order. -/
def steady (H : Hashing) (status : String → Except String TxStatus) (faulty : Prop) : Outside :=
  ⟨H, faulty, fun s locks => locks.Perm s.locks, fun txid answer => answer = status txid⟩

/-- What recovery reads of a row and of the locks under its owner. -/
def OperationRow.planState (row : OperationRow) (locks : List LockedOutput) : PlanState :=
  ⟨row.toOperation, row.txid, row.stage, locks⟩

namespace WalletState

variable (H : Hashing)

/-- The locks under the owner of a plan. -/
def planLocks (s : WalletState) (planId : String) : List LockedOutput :=
  locksOf s.locks (lockOwnerHex H planId)

/-- The plan of a row and the locks of its owner. -/
def plan (s : WalletState) (planId : String) : Option PlanState :=
  (s.journal.operation planId).map fun row => row.planState (s.planLocks H planId)

/-- No two plans have the same owner. -/
def OwnersDistinct (s : WalletState) : Prop :=
  ∀ p q, s.journal.operation p ≠ none → s.journal.operation q ≠ none →
    lockOwnerHex H p = lockOwnerHex H q → p = q

/-- The journal is as plans are recorded: only shielded plans have a lock owner, and no two plans
have the same. -/
structure RecoveryReady (s : WalletState) : Prop where
  transparent : ∀ planId row, s.journal.operation planId = some row →
    row.fundingMode ≠ "shielded" → row.lockOwner = ""
  owners : s.OwnersDistinct H

/-- One plan is changed, and no lock of another owner. -/
structure Becomes (s : WalletState) (planId : String) (f : PlanState → PlanState)
    (s' : WalletState) : Prop where
  plan : s'.plan H planId = (s.plan H planId).map f
  rows : ∀ q, q ≠ planId → s'.journal.operation q = s.journal.operation q
  locks : ∀ owner, owner ≠ lockOwnerHex H planId → locksOf s'.locks owner = locksOf s.locks owner

/-- Every plan is changed, and no lock that belongs to none. -/
structure BecomesAll (s : WalletState) (f : PlanState → PlanState) (s' : WalletState) : Prop where
  plan : ∀ planId, s'.plan H planId = (s.plan H planId).map f
  strays : ∀ owner, (∀ planId, s.journal.operation planId ≠ none → owner ≠ lockOwnerHex H planId) →
    locksOf s'.locks owner = locksOf s.locks owner

variable {H} {s s' s'' : WalletState} {planId : String} {f g : PlanState → PlanState}
  {x : PlanState}

/-- Without a row there is no plan. -/
theorem plan_eq_none : s.plan H planId = none ↔ s.journal.operation planId = none := by
  rw [plan, Option.map_eq_none_iff]

/-- The plan of a row. -/
theorem plan_eq_some : s.plan H planId = some x ↔ ∃ row, s.journal.operation planId = some row ∧
    row.planState (s.planLocks H planId) = x := by
  rw [plan, Option.map_eq_some_iff]

namespace Becomes

/-- A plan that does not change. -/
theorem refl (h : s.plan H planId = some x) (hf : f x = x) : s.Becomes H planId f s :=
  ⟨by rw [h, Option.map_some, hf], fun _ _ => rfl, fun _ _ => rfl⟩

/-- One change after the other. -/
theorem trans (h : s.Becomes H planId f s') (h' : s'.Becomes H planId g s'') :
    s.Becomes H planId (g ∘ f) s'' :=
  ⟨by rw [h'.plan, h.plan, Option.map_map],
    fun q hq => (h'.rows q hq).trans (h.rows q hq),
    fun owner howner => (h'.locks owner howner).trans (h.locks owner howner)⟩

/-- The same change, in other words. -/
theorem congr (h : s.Becomes H planId f s') (hx : s.plan H planId = some x) (hf : f x = g x) :
    s.Becomes H planId g s' :=
  ⟨by rw [h.plan, hx, Option.map_some, hf, Option.map_some], h.rows, h.locks⟩

/-- The other plans, which have owners of their own, are as they were. -/
theorem plan_of_ne (h : s.Becomes H planId f s')
    (howners : s.OwnersDistinct H) (hplan : s.journal.operation planId ≠ none) {q : String}
    (hq : q ≠ planId) : s'.plan H q = s.plan H q := by
  rw [WalletState.plan, h.rows q hq, WalletState.plan]
  cases hrow : s.journal.operation q with
  | none => rfl
  | some row =>
      have howner : lockOwnerHex H q ≠ lockOwnerHex H planId := fun heq =>
        hq (howners q planId (by rw [hrow]; exact Option.some_ne_none row) hplan heq)
      rw [planLocks, h.locks _ howner, planLocks]

end Becomes

/-- Owners are distinct among the same rows. -/
theorem OwnersDistinct.congr (h : s.OwnersDistinct H)
    (hs : ∀ p, s'.journal.operation p = none ↔ s.journal.operation p = none) :
    s'.OwnersDistinct H :=
  fun p q hp hq heq => h p q ((hs p).not.mp hp) ((hs q).not.mp hq) heq

/-- The rows stay. -/
theorem BecomesAll.operation_eq_none (h : s.BecomesAll H f s') (p : String) :
    s'.journal.operation p = none ↔ s.journal.operation p = none := by
  rw [← plan_eq_none (H := H), h.plan, Option.map_eq_none_iff, plan_eq_none]

/-- One change of all plans after the other. -/
theorem BecomesAll.trans (h : s.BecomesAll H f s') (h' : s'.BecomesAll H g s'') :
    s.BecomesAll H (g ∘ f) s'' := by
  refine ⟨fun p => by rw [h'.plan, h.plan, Option.map_map], fun owner howner => ?_⟩
  rw [h'.strays owner fun p hp => howner p ((h.operation_eq_none p).not.mp hp),
    h.strays owner howner]

/-- A write of the journal moves its plan. -/
theorem becomes_write {target : JournalStage} {lastError : Option String} (h : s' =
      { s with journal := s.journal.write planId target none lastError }) :
    s.Becomes H planId (·.move target) s' := by
  rw [h]
  refine ⟨?_, fun q hq => ?_, fun _ _ => rfl⟩
  · rw [plan, Journal.operation_write, if_pos rfl, plan, Option.map_map, Option.map_map]
    rfl
  · rw [Journal.operation_write, if_neg hq]

/-- A release takes its plan's locks. -/
theorem becomes_release (hjournal : s'.journal = s.journal) (hlocks : s'.locks =
      s.locks.filter fun l => l.ownerHex ≠ lockOwnerHex H planId) :
    s.Becomes H planId PlanState.free s' := by
  refine ⟨?_, fun q _ => by rw [hjournal], fun owner howner => ?_⟩
  · have hnone : s'.planLocks H planId = [] := by
      rw [planLocks, hlocks, locksOf, List.filter_filter, List.filter_eq_nil_iff]
      intro l _
      by_cases hl : l.ownerHex = lockOwnerHex H planId <;> simp [hl]
    rw [plan, hjournal, hnone, plan, Option.map_map]
    rfl
  · rw [hlocks, locksOf, List.filter_filter, locksOf]
    refine List.filter_congr fun l _ => ?_
    by_cases hl : l.ownerHex = owner
    · simp [hl, howner]
    · simp [hl]

/-- A state with the same journal and the same locks. -/
theorem Becomes.of_eq (h : s'.Becomes H planId f s'') (hs : s' = s) : s.Becomes H planId f s'' :=
  hs ▸ h

end WalletState

section Steady

open Prog Outside

variable {C : Type} {H : Hashing} {status : String → Except String TxStatus} {c : C} {w : World C}
  {tip : CanonicalTip} {planId : String} {x : PlanState}

/-- The call comes to its end, and one plan is changed. -/
def Changes {α : Type} (H : Hashing) (w : World C) (planId : String) (f : PlanState → PlanState)
    (r : Except String α) (w' : World C) : Prop :=
  (∃ a, r = .ok a) ∧ w.state.Becomes H planId f w'.state

/-- A legal move of a plan's row goes through. -/
theorem spec_move {target : JournalStage} {lastError : Option String}
    {Q : Except String JournalStage → World C → Prop} (hplan : w.state.plan H planId = some x)
    (hlegal : x.stage.canTransition target = true)
    (hmoved : ∀ w', w.state.Becomes H planId (·.move target) w'.state → Q (.ok x.stage) w') :
    Spec ((steady H status False).answers c) (fun _ _ => True)
      (WalletM.transition planId target none lastError).run w Q := by
  refine ⟨trivial, fun r w' h => ?_⟩
  obtain ⟨row, hrow, rfl⟩ := WalletState.plan_eq_some.mp hplan
  have hok : w.state.journal.transition planId target none lastError =
      .ok (row.stage, w.state.journal.write planId target none lastError) :=
    Journal.transition_eq_ok.mpr ⟨row, hrow, rfl, hlegal, rfl⟩
  obtain ⟨⟨hfaulty, -⟩ | ⟨source, j, hj, hr, hs⟩ | ⟨e, he, -⟩, -⟩ := h
  · exact hfaulty.elim
  · rw [hok, Except.ok.injEq, Prod.mk.injEq] at hj
    obtain ⟨rfl, rfl⟩ := hj
    rw [hr]
    exact hmoved w' (WalletState.becomes_write hs)
  · rw [hok] at he
    cases he

/-- A release takes the plan's locks. -/
theorem spec_free {Q : Except String Unit → World C → Prop}
    (hfreed : ∀ w', w.state.Becomes H planId PlanState.free w'.state → Q (.ok ()) w') :
    Spec ((steady H status False).answers c) (fun _ _ => True)
      (WalletM.release planId).run w Q := by
  refine ⟨trivial, fun r w' h => ?_⟩
  obtain ⟨⟨hjournal, ⟨rfl, hlocks⟩ | ⟨hfaulty, -⟩⟩, -⟩ := h
  · exact hfreed w' (WalletState.becomes_release hjournal hlocks)
  · exact hfaulty.elim

/-- A reported move. -/
theorem spec_recover_move {report : RecoveryReport} {row : OperationRow} {target : JournalStage}
    {err : Option String} (hplan : w.state.plan H row.planId = some x)
    (hlegal : x.stage.canTransition target = true) :
    Spec ((steady H status False).answers c) (fun _ _ => True)
      (recoverTransition report row target err).run w
      (Changes H w row.planId (·.move target)) := by
  rw [recoverTransition, spec_run_bind]
  exact spec_move hplan hlegal fun w' h => ⟨⟨_, rfl⟩, h⟩

/-- A move, and a release. -/
theorem spec_recover_release {report : RecoveryReport} {row : OperationRow}
    {target : JournalStage} {err : Option String} (hplan : w.state.plan H row.planId = some x)
    (hlegal : x.stage.canTransition target = true) :
    Spec ((steady H status False).answers c) (fun _ _ => True)
      (do
        let report ← recoverTransition report row target err
        recoverRelease WalletM.release report row : WalletM RecoveryReport).run w
      (Changes H w row.planId fun x => (x.move target).free) := by
  rw [spec_run_bind]
  refine (spec_recover_move hplan hlegal).mono fun r w' h => ?_
  obtain ⟨⟨report', rfl⟩, h⟩ := h
  dsimp only
  rw [recoverRelease, spec_run_bind]
  exact spec_free fun w'' h' => ⟨⟨_, rfl⟩, h.trans h'⟩

/-- Sorting forgets the order. -/
theorem mergeSort_eq_of_perm {xs ys : List String} (h : xs.Perm ys) :
    (xs.mergeSort fun a b => a ≤ b) = ys.mergeSort fun a b => a ≤ b := by
  have htrans : ∀ a b d : String, decide (a ≤ b) = true → decide (b ≤ d) = true →
      decide (a ≤ d) = true := fun a b d => by
    simpa only [decide_eq_true_eq] using fun hab hbd => le_trans hab hbd
  have htotal : ∀ a b : String, (decide (a ≤ b) || decide (b ≤ a)) = true := fun a b => by
    simpa only [Bool.or_eq_true, decide_eq_true_eq] using le_total a b
  refine List.Perm.eq_of_pairwise (fun a b _ _ hab hba => ?_)
    (List.pairwise_mergeSort htrans htotal xs) (List.pairwise_mergeSort htrans htotal ys)
    ((List.mergeSort_perm xs _).trans (h.trans (List.mergeSort_perm ys _).symm))
  exact le_antisymm (of_decide_eq_true hab) (of_decide_eq_true hba)

/-- Comparing inputs forgets the order of the locks. -/
theorem inputsMatch_of_perm {operation : Operation} {held held' : List LockedOutput}
    (h : held.Perm held') : inputsMatch operation held = inputsMatch operation held' := by
  rw [inputsMatch, inputsMatch, mergeSort_eq_of_perm (h.map LockedOutput.outputRef)]

/-- The locks that recovery sees held for a row are those of its plan. -/
theorem held_perm {row : OperationRow} {view locks : List LockedOutput}
    (hview : (locksOf view (lockOwnerHex H row.planId)).Perm locks)
    (hcanonical : row.Canonical H)
    (htransparent : row.fundingMode ≠ "shielded" → row.lockOwner = "") :
    (row.held view).Perm (row.planState locks).held := by
  rw [Operation.held, PlanState.held]
  by_cases hnone : row.lockOwner = ""
  · rw [if_pos hnone, if_pos (show (row.planState locks).operation.lockOwner = "" from hnone)]
  · have howner : row.lockOwner = lockOwnerHex H row.planId :=
      hcanonical (not_not.mp fun hmode => hnone (htransparent hmode))
    rw [if_neg hnone, if_neg (show ¬ (row.planState locks).operation.lockOwner = "" from hnone),
      howner]
    exact hview

/-- The same change, in other words. -/
theorem Changes.congr {α : Type} {f g : PlanState → PlanState} {r : Except String α}
    {w' : World C} (h : Changes H w planId f r w') (hplan : w.state.plan H planId = some x)
    (hf : f x = g x) : Changes H w planId g r w' :=
  ⟨h.1, h.2.congr hplan hf⟩

/-- A plan that does not change. -/
theorem changes_refl {α : Type} {f : PlanState → PlanState} (a : α)
    (hplan : w.state.plan H planId = some x) (hf : f x = x) :
    Changes H w planId f (.ok a : Except String α) w :=
  ⟨⟨a, rfl⟩, .refl hplan hf⟩

/-- Recovery reads of a row what is so of its plan. -/
structure OperationRow.ReadsAs (H : Hashing) (tip : CanonicalTip) (row : OperationRow)
    (view : List LockedOutput) (x : PlanState) : Prop where
  stage : x.stage = row.stage
  owner : ¬ (x.operation.fundingMode = "shielded" ∧
    x.operation.lockOwner ≠ lockOwnerHex H x.operation.planId)
  held : row.held view = [] ↔ x.held = []
  inputs : inputsMatch row.toOperation (row.held view) = inputsMatch x.operation x.held
  expired : row.expired tip = x.operation.expired tip

section ReadsAs

variable {row : OperationRow} {view locks : List LockedOutput}

/-- A row and the view of its locks read as its plan. -/
theorem OperationRow.readsAs_planState
    (hview : (locksOf view (lockOwnerHex H row.planId)).Perm locks)
    (hcanonical : row.Canonical H)
    (htransparent : row.fundingMode ≠ "shielded" → row.lockOwner = "") :
    row.ReadsAs H tip view (row.planState locks) := by
  have hperm := held_perm hview hcanonical htransparent
  exact ⟨rfl, fun h => h.2 (hcanonical h.1),
    ⟨fun h => (h ▸ hperm).symm.eq_nil, fun h => (h ▸ hperm).eq_nil⟩, inputsMatch_of_perm hperm, rfl⟩

namespace OperationRow.ReadsAs

/-- A planned row: it is cancelled or reserved, or left to the operator. -/
theorem startup_planned (h : row.ReadsAs H tip view x) (hs : row.stage = .planned) :
    x.startup H tip = if row.held view = [] then x.move .cancelled
      else if inputsMatch row.toOperation (row.held view) then x.move .reserved else x := by
  rw [PlanState.startup, if_neg h.owner, h.stage, hs, h.inputs]
  simp only [h.held]

/-- A reserved row: it expires, is cancelled, or left to the operator. -/
theorem startup_reserved (h : row.ReadsAs H tip view x) (hs : row.stage = .reserved) :
    x.startup H tip = if row.held view = [] then
        if row.expired tip then x.move .expired else x
      else if inputsMatch row.toOperation (row.held view) then (x.move .cancelled).free
      else x := by
  rw [PlanState.startup, if_neg h.owner, h.stage, hs, h.inputs, h.expired]
  simp only [h.held]

/-- A row without a signature is cancelled. -/
theorem startup_unsigned (h : row.ReadsAs H tip view x) (hs : row.stage.isProof = true) :
    x.startup H tip =
      if row.held view = [] then x.move .cancelled else (x.move .cancelled).free := by
  rw [PlanState.startup, if_neg h.owner, h.stage]
  cases hrow : row.stage with
  | proving | proven => simp only [h.held]
  | _ =>
      rw [hrow] at hs
      cases hs

/-- A row with a signature is cancelled, and its locks are left. -/
theorem startup_signed (h : row.ReadsAs H tip view x) (hs : row.stage.isSigned = true) :
    x.startup H tip = x.move .cancelled := by
  rw [PlanState.startup, if_neg h.owner, h.stage]
  cases hrow : row.stage with
  | signing | signed | extracted | verified => rfl
  | _ =>
      rw [hrow] at hs
      cases hs

end OperationRow.ReadsAs

section Handlers

variable {report : RecoveryReport}

/-- The code does this to a planned row. -/
theorem spec_recoverPlanned_steady (hplan : w.state.plan H row.planId = some x)
    (hreads : row.ReadsAs H tip view x) (hs : row.stage = .planned) :
    Spec ((steady H status False).answers c) (fun _ _ => True)
      (recoverPlanned view report row).run w
      (Changes H w row.planId (PlanState.startup H tip)) := by
  have hstage := hreads.stage.trans hs
  have hstartup := hreads.startup_planned hs
  rw [recoverPlanned]
  by_cases h : row.held view = []
  · rw [if_pos h] at hstartup ⊢
    exact (spec_recover_move hplan (by rw [hstage]; rfl)).mono fun r w' hc =>
      hc.congr hplan hstartup.symm
  rw [if_neg h] at hstartup ⊢
  by_cases hm : inputsMatch row.toOperation (row.held view) = true
  · rw [if_pos hm] at hstartup ⊢
    exact (spec_recover_move hplan (by rw [hstage]; rfl)).mono fun r w' hc =>
      hc.congr hplan hstartup.symm
  · rw [if_neg hm] at hstartup ⊢
    exact changes_refl _ hplan hstartup

/-- The code does this to a reserved row. -/
theorem spec_recoverReserved_steady (hplan : w.state.plan H row.planId = some x)
    (hreads : row.ReadsAs H tip view x) (hs : row.stage = .reserved) :
    Spec ((steady H status False).answers c) (fun _ _ => True)
      (recoverReserved WalletM.release view tip report row).run w
      (Changes H w row.planId (PlanState.startup H tip)) := by
  have hstage := hreads.stage.trans hs
  have hstartup := hreads.startup_reserved hs
  rw [recoverReserved]
  by_cases h : row.held view = []
  · rw [if_pos h] at hstartup ⊢
    by_cases he : row.expired tip = true
    · rw [if_pos he] at hstartup ⊢
      exact (spec_recover_move hplan (by rw [hstage]; rfl)).mono fun r w' hc =>
        hc.congr hplan hstartup.symm
    · rw [if_neg he] at hstartup ⊢
      exact changes_refl _ hplan hstartup
  rw [if_neg h] at hstartup ⊢
  by_cases hm : inputsMatch row.toOperation (row.held view) = true
  · rw [if_pos hm] at hstartup ⊢
    exact (spec_recover_release hplan (by rw [hstage]; rfl)).mono fun r w' hc =>
      hc.congr hplan hstartup.symm
  · rw [if_neg hm] at hstartup ⊢
    exact changes_refl _ hplan hstartup

/-- The code does this to a row without a signature. -/
theorem spec_recoverUnsigned_steady (hplan : w.state.plan H row.planId = some x)
    (hreads : row.ReadsAs H tip view x) (hs : row.stage.isProof = true) :
    Spec ((steady H status False).answers c) (fun _ _ => True)
      (recoverUnsigned WalletM.release view report row).run w
      (Changes H w row.planId (PlanState.startup H tip)) := by
  have hlegal : x.stage.canTransition .cancelled = true := by
    rw [hreads.stage]
    revert hs
    cases row.stage <;> decide
  have hstartup := hreads.startup_unsigned hs
  rw [recoverUnsigned]
  by_cases h : row.held view = []
  · rw [if_pos h] at hstartup
    rw [spec_run_bind]
    refine (spec_recover_move hplan hlegal).mono fun r w' hc => ?_
    obtain ⟨⟨report', rfl⟩, hb⟩ := hc
    change Spec _ _ (ite _ _ _ : WalletM RecoveryReport).run w' _
    rw [if_pos h]
    exact ⟨⟨_, rfl⟩, hb.congr hplan hstartup.symm⟩
  · rw [if_neg h] at hstartup
    simp only [if_neg h]
    exact (spec_recover_release hplan hlegal).mono fun r w' hc => hc.congr hplan hstartup.symm

/-- The code does this to a row with a signature. -/
theorem spec_recoverSigned_steady (hplan : w.state.plan H row.planId = some x)
    (hreads : row.ReadsAs H tip view x) (hs : row.stage.isSigned = true) :
    Spec ((steady H status False).answers c) (fun _ _ => True)
      (recoverSigned view report row).run w
      (Changes H w row.planId (PlanState.startup H tip)) := by
  have hlegal : x.stage.canTransition .cancelled = true := by
    rw [hreads.stage]
    revert hs
    cases row.stage <;> decide
  have hstartup := hreads.startup_signed hs
  rw [recoverSigned, spec_run_bind]
  refine (spec_recover_move hplan hlegal).mono fun r w' hc => ?_
  obtain ⟨⟨report', rfl⟩, hb⟩ := hc
  change Spec _ _ (ite _ _ _ : WalletM RecoveryReport).run w' _
  by_cases h : row.held view = []
  · rw [if_pos h]
    exact ⟨⟨_, rfl⟩, hb.congr hplan hstartup.symm⟩
  · rw [if_neg h]
    exact ⟨⟨_, rfl⟩, hb.congr hplan hstartup.symm⟩

end Handlers

/-- Recovery of one row is the first half of a pass at its plan. -/
theorem spec_recoverRow_steady {report : RecoveryReport}
    (hplan : w.state.plan H row.planId = some (row.planState locks))
    (hview : (locksOf view (lockOwnerHex H row.planId)).Perm locks)
    (htransparent : row.fundingMode ≠ "shielded" → row.lockOwner = "") :
    Spec ((steady H status False).answers c) (fun _ _ => True)
      (recoverRow WalletM.release view tip report row H).run w
      (Changes H w row.planId (PlanState.startup H tip)) := by
  rw [recoverRow]
  by_cases howner : row.fundingMode = "shielded" ∧ row.lockOwner ≠ lockOwnerHex H row.planId
  · rw [if_pos howner]
    refine changes_refl _ hplan ?_
    rw [PlanState.startup, if_pos]
    exact howner
  rw [if_neg howner]
  have hreads : row.ReadsAs H tip view (row.planState locks) := OperationRow.readsAs_planState hview
    (fun hmode => not_not.mp fun hne => howner ⟨hmode, hne⟩) htransparent
  cases hs : row.stage with
  | planned => exact spec_recoverPlanned_steady hplan hreads hs
  | reserved => exact spec_recoverReserved_steady hplan hreads hs
  | proving | proven => exact spec_recoverUnsigned_steady hplan hreads (by rw [hs]; rfl)
  | signing | signed | extracted | verified =>
      exact spec_recoverSigned_steady hplan hreads (by rw [hs]; rfl)
  | _ =>
      refine changes_refl _ hplan ?_
      rw [PlanState.startup, if_neg hreads.owner, hreads.stage, hs]

end ReadsAs

/-- A reported move of reconciliation. -/
theorem spec_reconcile_move {report : ReconcileReport} {row : OperationRow} {target : JournalStage}
    {err : Option String} (hplan : w.state.plan H row.planId = some x)
    (hlegal : x.stage.canTransition target = true) :
    Spec ((steady H status False).answers c) (fun _ _ => True)
      (reconcileTransition report row target err).run w
      (Changes H w row.planId (·.move target)) := by
  rw [reconcileTransition, spec_run_bind]
  exact spec_move hplan hlegal fun w' h => ⟨⟨_, rfl⟩, h⟩

/-- The end of the absent branch. -/
theorem spec_expire_steady {report : ReconcileReport} {row : OperationRow}
    (hplan : w.state.plan H row.planId = some x)
    (hlegal : x.stage.canTransition .expired = true) :
    Spec ((steady H status False).answers c) (fun _ _ => True)
      (do
        let report ← reconcileTransition report row .expired (some "absent past expiry + margin")
        WalletM.release row.planId
        return { report with released := report.released ++ [row.planId] } :
          WalletM ReconcileReport).run w
      (Changes H w row.planId fun x => (x.move .expired).free) := by
  rw [spec_run_bind]
  refine (spec_reconcile_move hplan hlegal).mono fun r w' h => ?_
  obtain ⟨⟨report', rfl⟩, h⟩ := h
  dsimp only
  rw [spec_run_bind]
  exact spec_free fun w'' h' => ⟨⟨_, rfl⟩, h.trans h'⟩

/-- The code does this to a row whose transaction is nowhere. -/
theorem spec_reconcileAbsent_steady {row : OperationRow} {locks : List LockedOutput}
    {report : ReconcileReport} (hplan : w.state.plan H row.planId = some (row.planState locks))
    (hs : row.stage.inBroadcastPhase = true) (hstatus : row.txid.map status = some (.ok .absent)) :
    Spec ((steady H status False).answers c) (fun _ _ => True)
      (reconcileAbsent WalletM.release tip report row).run w
      (Changes H w row.planId (PlanState.reconcile status tip)) := by
  have hx : (row.planState locks).reconcile status tip = _ :=
    PlanState.reconcile_absent hs hstatus
  rw [reconcileAbsent]
  by_cases hexpired : row.definitelyExpired tip = true
  · rw [if_pos (show (row.planState locks).operation.definitelyExpired tip = true from hexpired)]
      at hx
    rw [if_pos hexpired]
    by_cases hb : row.stage = .broadcasting
    · rw [if_pos hb, spec_run_bind]
      refine (spec_reconcile_move hplan (show row.stage.canTransition _ = true by
        rw [hb]; rfl)).mono fun r w' h => ?_
      obtain ⟨⟨report', rfl⟩, h⟩ := h
      have hplan' : w'.state.plan H row.planId =
          some ((row.planState locks).move .broadcastUnknown) := by
        rw [h.plan, hplan, Option.map_some]
      exact (spec_expire_steady hplan' rfl).mono fun r w'' hc =>
        ⟨hc.1, (h.trans hc.2).congr hplan hx.symm⟩
    · rw [if_neg hb]
      refine (spec_expire_steady hplan ?_).mono fun r w' hc => hc.congr hplan hx.symm
      change row.stage.canTransition .expired = true
      revert hs hb
      cases row.stage <;> decide
  · rw [if_neg (show ¬ (row.planState locks).operation.definitelyExpired tip = true from hexpired)]
      at hx
    rw [if_neg hexpired]
    by_cases hb : row.stage = .broadcasting
    · rw [if_pos (show (row.planState locks).stage = .broadcasting from hb)] at hx
      rw [if_pos hb, spec_run_bind]
      refine (spec_reconcile_move hplan (show row.stage.canTransition _ = true by
        rw [hb]; rfl)).mono fun r w' h => ?_
      obtain ⟨⟨report', rfl⟩, h⟩ := h
      exact ⟨⟨_, rfl⟩, h.congr hplan hx.symm⟩
    · rw [if_neg (show ¬ (row.planState locks).stage = .broadcasting from hb)] at hx
      rw [if_neg hb]
      exact changes_refl _ hplan hx

/-- Reconciliation of one row is the second half of a pass at its plan. -/
theorem spec_reconcileRow_steady {row : OperationRow} {locks : List LockedOutput}
    {report : ReconcileReport} (hplan : w.state.plan H row.planId = some (row.planState locks)) :
    Spec ((steady H status False).answers c) (fun _ _ => True)
      (reconcileRow WalletM.release tip report row).run w
      (Changes H w row.planId (PlanState.reconcile status tip)) := by
  rw [reconcileRow]
  by_cases hs : row.stage.inBroadcastPhase = true
  · rw [if_pos hs]
    cases htxid : row.txid with
    | none =>
        have hmap : (row.planState locks).txid.map status = none := by
          change row.txid.map status = none
          rw [htxid, Option.map_none]
        refine changes_refl _ hplan (PlanState.reconcile_of_forall_ne fun observed h => ?_)
        rw [hmap] at h
        cases h
    | some txid =>
        have hmap : ∀ answer, answer = status txid →
            (row.planState locks).txid.map status = some answer := fun answer h => by
          change row.txid.map status = some answer
          rw [htxid, Option.map_some, h]
        dsimp only
        rw [spec_run_bind, WalletM.txStatus, spec_run_lift, spec_call]
        refine ⟨trivial, fun answer w' h => ?_⟩
        obtain ⟨⟨hstate, hanswer⟩, -⟩ := h
        have hplan' : w'.state.plan H row.planId = some (row.planState locks) := by
          rw [hstate, hplan]
        have hback : ∀ (r : Except String ReconcileReport) (w'' : World C),
            Changes H w' row.planId (PlanState.reconcile status tip) r w'' →
            Changes H w row.planId (PlanState.reconcile status tip) r w'' :=
          fun r w'' hc => ⟨hc.1, hc.2.of_eq hstate⟩
        cases answer with
        | error e =>
            refine hback _ _ (changes_refl _ hplan' (PlanState.reconcile_of_forall_ne
              fun observed h => ?_))
            rw [hmap _ hanswer] at h
            cases h
        | ok observed =>
            change Spec _ _ (reconcileObserved _ tip report row observed).run w' _
            refine Spec.mono ?_ hback
            cases observed with
            | mined height =>
                rw [reconcileObserved, if_pos (by revert hs; cases row.stage <;> decide)]
                refine (spec_reconcile_move hplan' ?_).mono fun r w'' hc => hc.congr hplan'
                  (PlanState.reconcile_mined hs (hmap _ hanswer)).symm
                change row.stage.canTransition .mined = true
                revert hs
                cases row.stage <;> decide
            | inMempool =>
                have hx : (row.planState locks).reconcile status tip = _ :=
                  PlanState.reconcile_inMempool hs (hmap _ hanswer)
                rw [reconcileObserved]
                by_cases haccepted : row.stage = .broadcastAccepted
                · rw [if_neg (not_not.mpr haccepted)]
                  refine changes_refl _ hplan' (hx.trans ?_)
                  rw [← haccepted]
                  rfl
                · rw [if_pos haccepted]
                  refine (spec_reconcile_move hplan' ?_).mono fun r w'' hc =>
                    hc.congr hplan' hx.symm
                  change row.stage.canTransition .broadcastAccepted = true
                  revert hs
                  cases row.stage <;> decide
            | absent =>
                refine spec_reconcileAbsent_steady hplan' hs ?_
                exact hmap _ hanswer
  · rw [if_neg hs]
    exact changes_refl _ hplan
      (PlanState.reconcile_of_not_inBroadcastPhase (Bool.eq_false_iff.mpr hs))

/-- **A loop over the rows** changes the plan of each. -/
theorem spec_forEach {R : Type} {f : PlanState → PlanState}
    {step : R → OperationRow → WalletM R} {rows : List OperationRow}
    (howners : w.state.OwnersDistinct H) (hnodup : (rows.map fun row => row.planId).Nodup)
    (hrows : ∀ row ∈ rows, w.state.journal.operation row.planId ≠ none)
    (hother : ∀ p, p ∉ rows.map (fun row => row.planId) →
      (w.state.plan H p).map f = w.state.plan H p)
    (hstep : ∀ row ∈ rows, ∀ report (v : World C),
      v.state.plan H row.planId = w.state.plan H row.planId →
      Spec ((steady H status False).answers c) (fun _ _ => True) (step report row).run v
        (Changes H v row.planId f)) (report : R) :
    Spec ((steady H status False).answers c) (fun _ _ => True) (rows.foldlM step report).run w
      fun r w' => (∃ report', r = .ok report') ∧ w.state.BecomesAll H f w'.state := by
  -- the rows that are left are as they were, and the others are changed
  refine spec_run_foldlM (fun rest _ v => (∀ row ∈ rest, row ∈ rows) ∧
    (rest.map fun row => row.planId).Nodup ∧
    (∀ p, v.state.plan H p = if p ∈ rest.map (fun row => row.planId) then w.state.plan H p
      else (w.state.plan H p).map f) ∧
    ∀ owner, (∀ p, w.state.journal.operation p ≠ none → owner ≠ lockOwnerHex H p) →
      locksOf v.state.locks owner = locksOf w.state.locks owner)
    (fun row rest report v hv => ?_) (fun report v hv => ?_)
    ⟨fun row hrow => hrow, hnodup, fun p => ?_, fun _ _ => rfl⟩
  · obtain ⟨hmem, hnodup, hplan, hstrays⟩ := hv
    obtain ⟨hnotin, hnodup⟩ := List.nodup_cons.mp hnodup
    have hrow := hrows row (hmem row List.mem_cons_self)
    have hthis : v.state.plan H row.planId = w.state.plan H row.planId := by
      rw [hplan, if_pos (List.mem_map_of_mem List.mem_cons_self)]
    have hnone : ∀ p, v.state.journal.operation p = none ↔ w.state.journal.operation p = none :=
      fun p => by
        rw [← WalletState.plan_eq_none (H := H), hplan, ← WalletState.plan_eq_none (H := H)]
        by_cases hp : p ∈ (row :: rest).map fun row => row.planId
        · rw [if_pos hp]
        · rw [if_neg hp, Option.map_eq_none_iff]
    refine (hstep row (hmem row List.mem_cons_self) report v hthis).mono fun r w' hc => ?_
    obtain ⟨⟨report', rfl⟩, hb⟩ := hc
    refine ⟨fun row' hrow' => hmem row' (List.mem_cons_of_mem _ hrow'), hnodup, fun p => ?_,
      fun owner howner => ?_⟩
    · by_cases hp : p = row.planId
      · rw [hp, hb.plan, hthis, if_neg hnotin]
      · rw [hb.plan_of_ne (howners.congr hnone) ((hnone _).not.mpr hrow) hp, hplan]
        exact if_congr (by rw [List.map_cons, List.mem_cons, or_iff_right hp]) rfl rfl
    · rw [hb.locks owner (howner _ hrow), hstrays owner howner]
  · refine ⟨⟨report, rfl⟩, fun p => ?_, hv.2.2.2⟩
    rw [hv.2.2.1 p, if_neg (by rw [List.map_nil]; exact List.not_mem_nil)]
  · by_cases hp : p ∈ rows.map fun row => row.planId
    · rw [if_pos hp]
    · rw [if_neg hp, hother p hp]

/-- The plans that are not read are terminal. -/
theorem map_eq_self_of_not_mem {s : WalletState} {rows : List OperationRow}
    (hrows : s.journal.NonTerminalRows rows) {f : PlanState → PlanState}
    (hf : ∀ x : PlanState, x.stage.isTerminal = true → f x = x) (p : String)
    (hp : p ∉ rows.map fun row => row.planId) : (s.plan H p).map f = s.plan H p := by
  cases hrow : s.journal.operation p with
  | none => rw [WalletState.plan_eq_none.mpr hrow, Option.map_none]
  | some row =>
      have hid := Journal.planId_of_operation hrow
      have hterminal : row.stage.isTerminal = true := by
        by_contra hne
        refine hp (List.mem_map.mpr ⟨row, hrows.mem_iff.mpr ⟨hid ▸ hrow, ?_⟩, hid⟩)
        exact Bool.eq_false_iff.mpr hne
      rw [WalletState.plan_eq_some.mpr ⟨row, hrow, rfl⟩, Option.map_some, hf _ hterminal]

/-- Being unclear forgets the order of the locks. -/
theorem Unclear.perm {operation : Operation} {stage : JournalStage} {held held' : List LockedOutput}
    (h : Unclear H tip operation stage held) (hperm : held.Perm held') :
    Unclear H tip operation stage held' := by
  have hnil : held = [] ↔ held' = [] :=
    ⟨fun h => (h ▸ hperm).symm.eq_nil, fun h => (h ▸ hperm).eq_nil⟩
  simpa only [Unclear, ne_eq, hnil, inputsMatch_of_perm hperm] using h

/-- Every anomaly of the report is reported for a plan of the state that the pass started in. -/
def RecoveryReport.Explained (H : Hashing) (status : String → Except String TxStatus)
    (tip : CanonicalTip) (s : WalletState) (report : RecoveryReport) : Prop :=
  ∀ a ∈ report.anomalies, ∃ planId x message, s.plan H planId = some x ∧
    x.Anomalous H status tip ∧ a = planId ++ ": " ++ message

/-- **A pass of startup recovery that nothing interrupts** is a pass at every plan. -/
theorem spec_startupRecover_steady (hready : w.state.RecoveryReady H) :
    Spec ((steady H status False).answers c) (fun _ _ => True)
      (startupRecover WalletM.release H tip).run w fun r w' =>
        (∃ report, r = .ok report ∧ report.Explained H status tip w.state) ∧
          w.state.BecomesAll H (PlanState.pass H status tip) w'.state := by
  rw [startupRecover, spec_run_bind]
  refine ⟨trivial, fun r v h => ?_⟩
  obtain ⟨⟨hfaulty, -⟩ | ⟨hs, view, hview, rfl⟩, -⟩ := h
  · exact hfaulty.elim
  simp only [spec_done]
  rw [spec_run_bind]
  refine ⟨trivial, fun r v' h => ?_⟩
  obtain ⟨⟨hfaulty, -⟩ | ⟨hs', rows, hrows, rfl⟩, -⟩ := h
  · exact hfaulty.elim
  simp only [spec_done]
  rw [spec_run_bind]
  have hstate : v'.state = w.state := hs'.trans hs
  rw [hs] at hrows
  have hread : ∀ row ∈ rows, w.state.plan H row.planId =
      some (row.planState (w.state.planLocks H row.planId)) := fun row hrow =>
    WalletState.plan_eq_some.mpr ⟨row, (hrows.mem_iff.mp hrow).1, rfl⟩
  have hviewed : ∀ row : OperationRow, (locksOf view (lockOwnerHex H row.planId)).Perm
      (w.state.planLocks H row.planId) := fun row => List.Perm.filter _ hview
  have hterminal : ∀ x : PlanState, x.stage.isTerminal = true → x.startup H tip = x :=
    fun x => PlanState.startup_of_isTerminal
  refine Spec.mono ((spec_forEach (f := PlanState.startup H tip) (hstate ▸ hready.owners)
    hrows.nodup (fun row hrow => ?_) (fun p hp => ?_) (fun row hrow report u hu => ?_) _).and
    (spec_foldlM_reports (fun row _ report u => spec_recoverRow_anomalies) _))
    fun r u h => ?_
  · rw [hstate, (hrows.mem_iff.mp hrow).1]
    exact Option.some_ne_none _
  · rw [hstate]
    exact map_eq_self_of_not_mem hrows hterminal p hp
  · exact spec_recoverRow_steady (hu.trans (hstate ▸ hread row hrow)) (hviewed row)
      (hready.transparent _ row (hrows.mem_iff.mp hrow).1)
  · obtain ⟨⟨⟨report, rfl⟩, hstartup⟩, hreports⟩ := h
    have hunclear := hreports report rfl
    rw [hstate] at hstartup
    dsimp only
    rw [spec_run_bind, reconcile, spec_run_bind]
    refine ⟨trivial, fun r u' h => ?_⟩
    obtain ⟨⟨hfaulty, -⟩ | ⟨hs'', rows', hrows', rfl⟩, -⟩ := h
    · exact hfaulty.elim
    have howners : u'.state.OwnersDistinct H := by
      rw [hs'']
      exact hready.owners.congr hstartup.operation_eq_none
    rw [← hs''] at hrows' hstartup
    refine ((spec_forEach (f := PlanState.reconcile status tip) howners hrows'.nodup
      (fun row hrow => ?_)
      (map_eq_self_of_not_mem hrows' fun x hx => PlanState.reconcile_of_not_inBroadcastPhase
        (PlanState.inBroadcastPhase_of_isTerminal hx))
      (fun row hrow report v hv => ?_) _).and (spec_foldlM_reports (fun row _ report v =>
        spec_reconcileRow_errors status fun _ _ _ _ h => h.1.2) _)).mono fun r v h => ?_
    · rw [(hrows'.mem_iff.mp hrow).1]
      exact Option.some_ne_none _
    · exact spec_reconcileRow_steady
        (hv.trans (WalletState.plan_eq_some.mpr ⟨row, (hrows'.mem_iff.mp hrow).1, rfl⟩))
    · obtain ⟨⟨⟨report', rfl⟩, hreconcile⟩, herrors⟩ := h
      refine ⟨⟨_, rfl, fun a ha => ?_⟩, hstartup.trans hreconcile⟩
      rcases List.mem_append.mp ha with ha | ha
      · obtain ha | ⟨row, hrow, hP, message, rfl⟩ := hunclear a ha
        · cases ha
        refine ⟨row.planId, _, message, hread row hrow, Or.inl ?_, rfl⟩
        by_cases howner : row.fundingMode = "shielded" ∧
            row.lockOwner ≠ lockOwnerHex H row.planId
        · exact Or.inl howner
        · exact hP.perm (held_perm (hviewed row)
            (fun hmode => not_not.mp fun hne => howner ⟨hmode, hne⟩)
            (hready.transparent _ row (hrows.mem_iff.mp hrow).1))
      · obtain ha | ⟨row, hrow, hP, message, rfl⟩ := herrors report' rfl a ha
        · cases ha
        -- startup recovery moves no plan into the broadcast phase
        have hplan : u'.state.plan H row.planId = _ :=
          WalletState.plan_eq_some.mpr ⟨row, (hrows'.mem_iff.mp hrow).1, rfl⟩
        rw [hstartup.plan, Option.map_eq_some_iff] at hplan
        obtain ⟨x, hx, hplan⟩ := hplan
        refine ⟨row.planId, x, message, hx, Or.inr ?_, rfl⟩
        by_cases hphase : x.stage.inBroadcastPhase = true
        · rw [PlanState.startup_of_inBroadcastPhase hphase] at hplan
          rw [hplan]
          exact hP
        · have hnot : (x.startup H tip).stage.inBroadcastPhase = false :=
            PlanState.inBroadcastPhase_startup (Bool.eq_false_iff.mpr hphase)
          rw [hplan] at hnot
          exact absurd hP.1 (Bool.eq_false_iff.mp hnot)

end Steady

end Zalkanes
