import Zalkanes.Wallet.Interruptions

/-!
# Orphan Locks

Startup recovery reports the held locks that no row explains. The rows that it looks at are the
non-terminal ones, while locks are kept after their row was cancelled. So the report is right
exactly when every held lock that some row explains is explained by a non-terminal one
(`orphanLocks_iff`).

## Main results

* `orphanLocks_iff`: exactly when the locks that are reported are the unexplained ones.
-/

namespace Zalkanes

open Lib

/-- Some row of the journal records the owner of the lock. -/
def WalletState.Explains (s : WalletState) (l : LockedOutput) : Prop :=
  ∃ planId row, s.journal.operation planId = some row ∧ row.lockOwner = l.ownerHex

/-- Some row that is not terminal records the owner of the lock. -/
def WalletState.Attributes (s : WalletState) (l : LockedOutput) : Prop :=
  l.ownerHex ≠ "" ∧ ∃ planId row, s.journal.operation planId = some row ∧
    row.lockOwner = l.ownerHex ∧ row.stage.isTerminal = false

section OrphanLocks

open Prog Outside

variable {C : Type} {O : Outside} {c : C} {tip : CanonicalTip} {start w : World C}
  {release : ReleaseHook} {held : List LockedOutput} {report : RecoveryReport}

/-- A lock with a live owner is explained. -/
theorem WalletState.Attributes.explains {s : WalletState} {l : LockedOutput}
    (h : s.Attributes l) : s.Explains l := by
  obtain ⟨-, planId, row, hrow, howner, -⟩ := h
  exact ⟨planId, row, hrow, howner⟩

/-- The known owners are those of plans that have not ended. -/
theorem mem_knownOwners {s : WalletState} {rows : List OperationRow}
    (hrows : s.journal.NonTerminalRows rows) {l : LockedOutput} :
    l.ownerHex ∈ knownOwners rows ↔ s.Attributes l := by
  rw [knownOwners, List.mem_filter, List.mem_map, decide_eq_true_eq]
  constructor
  · rintro ⟨⟨row, hrow, howner⟩, hne⟩
    obtain ⟨hoperation, hstage⟩ := hrows.mem_iff.mp hrow
    exact ⟨hne, row.planId, row, hoperation, howner, hstage⟩
  · rintro ⟨hne, planId, row, hrow, howner, hstage⟩
    have hplan : row.planId = planId := (Journal.operation_eq_some.mp hrow).1
    rw [← hplan] at hrow
    exact ⟨⟨row, hrows.mem_iff.mpr ⟨hrow, hstage⟩, howner⟩, hne⟩

/-- The locks that are reported are those that no non-terminal row explains. -/
theorem spec_startupRecover_orphans
    (hheld : ∀ locks, O.lockView start.state locks → ∀ l, l ∈ locks ↔ l ∈ held) :
    Spec (O.answers c) (fun _ _ => True) (startupRecover release O.hashing tip).run start
      fun r _ => ∀ report, r = .ok report →
        ∀ l, l ∈ report.orphanLocks ↔ l ∈ held ∧ ¬ start.state.Attributes l := by
  rw [startupRecover, spec_run_bind]
  refine ⟨trivial, fun r w h => ?_⟩
  obtain ⟨⟨-, -, e, rfl⟩ | ⟨hs, locks, hview, rfl⟩, -⟩ := h
  · exact fun _ h => by cases h
  rw [spec_done]
  dsimp only
  rw [spec_run_bind]
  refine ⟨trivial, fun r w' h => ?_⟩
  obtain ⟨⟨-, -, e, rfl⟩ | ⟨-, rows, hrows, rfl⟩, -⟩ := h
  · exact fun _ h => by cases h
  rw [hs] at hrows
  rw [spec_done]
  dsimp only
  rw [spec_run_bind]
  refine (spec_of_performs fun _ _ _ => trivial).mono fun r w _ => ?_
  cases r with
  | error e => exact fun _ h => by cases h
  | ok report =>
      dsimp only
      rw [spec_run_bind]
      refine (spec_of_performs fun _ _ _ => trivial).mono fun r w _ => ?_
      cases r with
      | error e => exact fun _ h => by cases h
      | ok broadcast =>
          intro report' hreport l
          rw [← Except.ok.inj hreport, ← mem_knownOwners hrows, ← hheld locks hview]
          simp only [List.mem_filter, decide_eq_true_eq]

/-- **The locks that are reported are the unexplained ones exactly when** every held lock that some
row explains is explained by a row that is not terminal. -/
theorem orphanLocks_iff
    (hheld : ∀ locks, O.lockView start.state locks → ∀ l, l ∈ locks ↔ l ∈ held)
    (hrun : Yields (O.answers c) (startupRecover release O.hashing tip).run start (.ok report) w) :
    (∀ l, l ∈ report.orphanLocks ↔ l ∈ held ∧ ¬ start.state.Explains l) ↔
      ∀ l ∈ held, start.state.Explains l → start.state.Attributes l := by
  have horphans := (spec_startupRecover_orphans hheld).of_yields hrun report rfl
  constructor
  · intro h l hl hexplains
    by_contra hnot
    exact ((h l).mp ((horphans l).mpr ⟨hl, hnot⟩)).2 hexplains
  · intro h l
    rw [horphans l]
    refine and_congr_right fun hl => not_congr ⟨?_, h l hl⟩
    exact WalletState.Attributes.explains

/-- The locks of a plan under its recorded owner. -/
theorem explains_of_plan {H : Hashing} {s : WalletState} {planId : String} {x : PlanState}
    (hx : s.plan H planId = some x) {l : LockedOutput} (hl : l ∈ x.locks)
    (howner : x.operation.lockOwner = lockOwnerHex H planId) : l ∈ s.locks ∧ s.Explains l := by
  obtain ⟨row, hrow, rfl⟩ := WalletState.plan_eq_some.mp hx
  obtain ⟨hmem, hlock⟩ := List.mem_filter.mp hl
  exact ⟨hmem, planId, row, hrow, howner.trans (of_decide_eq_true hlock).symm⟩

/-- A pass after a command was interrupted at `Signing`: the lock is attributed to its row. -/
theorem orphanLocks_iff_signing : ∃ (report : RecoveryReport) (v : World Unit),
    Yields ((steady anyOutside.hashing (fun _ => .ok .absent) False).answers ())
      (startupRecover WalletM.release anyOutside.hashing ⟨1, .replicate 0⟩).run
      ⟨((fundedCall .shielded).after 23).state, []⟩ (.ok report) v ∧
    ∀ l, l ∈ report.orphanLocks ↔ l ∈ ((fundedCall .shielded).after 23).state.locks ∧
      ¬ ((fundedCall .shielded).after 23).state.Explains l := by
  have hids : ((fundedCall .shielded).after 23).state.journal.rows.map (fun row => row.planId) =
      ["plan"] := by decide +kernel
  obtain ⟨v, hv⟩ := exists_passes (fun _ => .ok .absent) ⟨1, .replicate 0⟩
    ((fundedCall .shielded).ready_after 23 hids) 1
  have hlocks : ((fundedCall .shielded).after 23).state.locks =
      [⟨"orchard:00:0", lockOwnerHex anyOutside.hashing "plan"⟩] := by decide +kernel
  have hrow : (((fundedCall .shielded).after 23).operation "plan").any (fun row =>
      row.lockOwner = lockOwnerHex anyOutside.hashing "plan" && !row.stage.isTerminal) = true := by
    decide +kernel
  obtain ⟨row, hrow, hattributes⟩ := (Option.any_eq_true _ _).mp hrow
  simp only [Bool.and_eq_true, Bool.not_eq_true', decide_eq_true_eq] at hattributes
  cases hv with
  | succ hfirst hlast =>
      cases hfirst
      refine ⟨_, _, hlast, (orphanLocks_iff (fun locks (hview : locks.Perm _) l => hview.mem_iff)
        hlast).mpr fun l hl _ => ?_⟩
      rw [hlocks, List.mem_singleton] at hl
      rw [hl]
      exact ⟨lockOwnerHex_ne_empty _ _, "plan", row, hrow, hattributes.1, hattributes.2⟩

/-- The pass after that: the row was cancelled and the lock preserved, and it is reported. -/
theorem not_orphanLocks : ∃ (s : WalletState) (report : RecoveryReport) (v : World Unit),
    Passes anyOutside.hashing (fun _ => .ok .absent) ⟨1, .replicate 0⟩ 1
      ((fundedCall .shielded).after 23).state s ∧
    Yields ((steady anyOutside.hashing (fun _ => .ok .absent) False).answers ())
      (startupRecover WalletM.release anyOutside.hashing ⟨1, .replicate 0⟩).run ⟨s, []⟩
      (.ok report) v ∧
    ¬ ∀ l, l ∈ report.orphanLocks ↔ l ∈ s.locks ∧ ¬ s.Explains l := by
  have hids : ((fundedCall .shielded).after 23).state.journal.rows.map (fun row => row.planId) =
      ["plan"] := by decide +kernel
  have hready := (fundedCall .shielded).ready_after 23 hids
  obtain ⟨v, hv⟩ := exists_passes (fun _ => .ok .absent) ⟨1, .replicate 0⟩ hready 2
  cases hv with
  | succ hfirst hlast =>
      refine ⟨_, _, _, hfirst, hlast, fun h => ?_⟩
      have hpass := hfirst.becomesAll hready
      let l : LockedOutput := ⟨"orchard:00:0", lockOwnerHex anyOutside.hashing "plan"⟩
      have hsigning : (((fundedCall .shielded).after 23).state.plan anyOutside.hashing "plan").any
          (fun x => (x.pass anyOutside.hashing (fun _ => .ok .absent) ⟨1, .replicate 0⟩).stage =
              .cancelled &&
            l ∈ (x.pass anyOutside.hashing (fun _ => .ok .absent) ⟨1, .replicate 0⟩).locks &&
            (x.pass anyOutside.hashing (fun _ => .ok .absent)
              ⟨1, .replicate 0⟩).operation.lockOwner = l.ownerHex) = true := by
        decide +kernel
      obtain ⟨x, hx, hcancelled⟩ := (Option.any_eq_true _ _).mp hsigning
      simp only [Bool.and_eq_true, decide_eq_true_eq] at hcancelled
      have hplan := hpass.plan "plan"
      rw [hx, Option.map_some] at hplan
      obtain ⟨hl, hexplains⟩ := explains_of_plan hplan hcancelled.1.2 hcancelled.2
      have horphan := ((spec_startupRecover_orphans fun locks (hview : locks.Perm _) l =>
        hview.mem_iff).of_yields hlast _ rfl l).mpr ⟨hl, ?_⟩
      · exact ((h l).mp horphan).2 hexplains
      · rintro ⟨-, planId, row, hrow, -, hstage⟩
        have hone : planId = "plan" := eq_of_rows hids fun hnone => by
          have hrow' := (hpass.operation_eq_none planId).mpr hnone
          rw [hrow'] at hrow
          cases hrow
        rw [hone] at hrow
        have hstage' := stage_eq_of_plan hplan
        rw [Journal.stage, hrow, Option.map_some, Option.some.injEq] at hstage'
        rw [hstage', Function.iterate_one, hcancelled.1.1] at hstage
        cases hstage

end OrphanLocks

end Zalkanes
