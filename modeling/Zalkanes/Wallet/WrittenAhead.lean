import Zalkanes.Wallet.FundedRuns

/-!
# Written Ahead

The rows of a funded command are to be written before what they guard: `Signing` before a signature
set is complete, `Broadcasting` with the txid before the transaction is submitted. The driver writes
`Broadcasting` first, but `Signing` only after it has signed, so where a command stops between the
two its row is at `Proven` although a signed transaction existed (`written_ahead_iff`).

## Main results

* `written_ahead_iff`: the points of a run at which the journal is ahead of it.
-/

namespace Zalkanes

open Lib

namespace JournalStage

/-- `Signing` and the stages after it, of a plan that was not given up. -/
def fromSigning : JournalStage → Bool
  | signing | signed | extracted | verified | broadcasting | broadcastUnknown
  | broadcastAccepted | mined | rejected => true
  | _ => false

/-- `Broadcasting` and the stages after it. -/
def fromBroadcasting : JournalStage → Bool
  | broadcasting | broadcastUnknown | broadcastAccepted | mined | rejected => true
  | _ => false

end JournalStage

namespace Happened

variable {C : Type}

/-- The entry is a complete set of signatures for the plan's transaction. -/
def signs (planId : String) : Happened C → Bool
  | ⟨_, .driver (.applySignatures q), .ok _⟩ => q = planId
  | _ => false

/-- The entry is the transaction that was extracted from the plan. -/
def Extracts (planId : String) (tx : SignedTx) : Happened C → Prop
  | ⟨_, .driver (.extractTransaction q), .ok tx'⟩ => q = planId ∧ tx' = tx
  | _ => False

/-- The entry is a submission. -/
def Sends (txHex : String) : Happened C → Prop
  | ⟨_, .sendRawTransaction hex, _⟩ => hex = txHex
  | _ => False

/-- The entry signs or submits, or is an attempt to write `Signing`. -/
def authorizes : Happened C → Bool
  | ⟨_, .driver (.applySignatures _), .ok _⟩ | ⟨_, .sendRawTransaction _, _⟩
  | ⟨_, .transition _ .signing _ _, _⟩ => true
  | _ => false

/-- The entry completes a set of signatures, or fails to write `Signing`. -/
def leavesUnwritten : Happened C → Bool
  | ⟨_, .driver (.applySignatures _), .ok _⟩ => true
  | ⟨_, .transition _ .signing _ _, .error _⟩ => true
  | _ => false

end Happened

/-- What was signed has its row at `Signing` or later, and what was submitted at `Broadcasting` or
later, with its txid. -/
structure WrittenAhead {C : Type} (w : World C) : Prop where
  signed : ∀ planId, (∃ x ∈ w.history, x.signs planId = true) →
    ∃ row, w.operation planId = some row ∧ row.stage.fromSigning = true
  sent : ∀ txHex, (∃ x ∈ w.history, x.Sends txHex) → ∃ planId row tx,
    w.operation planId = some row ∧ row.stage.fromBroadcasting = true ∧
    (∃ x ∈ w.history, x.Extracts planId tx) ∧ hexEncode tx.bytes = txHex ∧
    row.txid = some (hexEncode tx.txid.bytes.reverse)

/-- The last thing that happened is that the signatures were completed, or that `Signing` could not
be written. -/
def StoppedUnwritten {C : Type} (w : World C) : Prop :=
  ∃ x, w.history.getLast? = some x ∧ x.leavesUnwritten = true

section WrittenAhead

open Prog Outside

variable {C : Type} {O : Outside} {c : C} {w w' : World C} {planId : String}

/-- The journal is ahead of the run, unless it was stopped between signing and the write. -/
def AheadUnlessStopped (w : World C) : Prop := WrittenAhead w ↔ ¬ StoppedUnwritten w

/-- Broadcasting comes after signing. -/
theorem fromSigning_of_fromBroadcasting {stage : JournalStage}
    (h : stage.fromBroadcasting = true) : stage.fromSigning = true := by
  revert h
  cases stage <;> decide

/-- The last thing that happened decides. -/
theorem stoppedUnwritten_iff {x : Happened C} (h : w'.history = w.history ++ [x]) :
    StoppedUnwritten w' ↔ x.leavesUnwritten = true := by
  rw [StoppedUnwritten, h, List.getLast?_concat]
  constructor
  · rintro ⟨y, hy, hleaves⟩
    rw [Option.some.inj hy]
    exact hleaves
  · exact fun hleaves => ⟨x, rfl, hleaves⟩

/-! ### Up to the signatures -/

/-- Nothing was signed or submitted. -/
def Unauthorized (w : World C) : Prop := ∀ x ∈ w.history, x.authorizes = false

/-- Something else than authorizing keeps it so. -/
theorem Unauthorized.step (h : Unauthorized w) {e : WalletEffect} {r : e.Answer}
    (he : (⟨c, e, r⟩ : Happened C).authorizes = false) (ha : O.answers c w e r w') :
    Unauthorized w' := by
  intro x hx
  rw [ha.2, List.mem_append, List.mem_singleton] at hx
  rcases hx with hx | rfl
  · exact h x hx
  · exact he

/-- Signing authorizes. -/
theorem authorizes_of_signs {x : Happened C} (h : x.signs planId = true) : x.authorizes = true := by
  obtain ⟨c, e, r⟩ := x
  cases e with
  | driver e =>
      cases e with
      | applySignatures _ =>
          cases r with
          | ok _ => rfl
          | error _ => cases h
      | _ => cases h
  | _ => cases h

/-- Sending authorizes. -/
theorem authorizes_of_sends {x : Happened C} {txHex : String} (h : x.Sends txHex) :
    x.authorizes = true := by
  obtain ⟨c, e, r⟩ := x
  cases e with
  | sendRawTransaction _ => rfl
  | _ => exact h.elim

/-- What must not go unwritten authorizes. -/
theorem authorizes_of_leavesUnwritten {x : Happened C} (h : x.leavesUnwritten = true) :
    x.authorizes = true := by
  obtain ⟨c, e, r⟩ := x
  cases e with
  | driver e =>
      cases e with
      | applySignatures _ =>
          cases r with
          | ok _ => rfl
          | error _ => cases h
      | _ => cases h
  | transition _ target _ _ =>
      cases target with
      | signing => rfl
      | _ => cases h
  | _ => cases h

/-- Nothing that happened authorizes. -/
theorem Unauthorized.not {x : Happened C} (h : Unauthorized w) (hx : x ∈ w.history) :
    x.authorizes ≠ true := by
  rw [h x hx]
  decide

/-- Where nothing is authorized nothing is behind. -/
theorem Unauthorized.ahead (h : Unauthorized w) : AheadUnlessStopped w := by
  refine iff_of_true ⟨?_, ?_⟩ ?_
  · rintro planId ⟨x, hx, hsigns⟩
    exact absurd (authorizes_of_signs hsigns) (h.not hx)
  · rintro txHex ⟨x, hx, hsends⟩
    exact absurd (authorizes_of_sends hsends) (h.not hx)
  · rintro ⟨x, hx, hleaves⟩
    exact absurd (authorizes_of_leavesUnwritten hleaves) (h.not (List.mem_of_getLast? hx))

/-- The calls that cannot sign or submit, and do not write `Signing`. -/
def Idle : WalletEffect → Prop
  | .driver (.applySignatures _) | .sendRawTransaction _ | .transition _ .signing _ _ => False
  | _ => True

/-- Idle effects do not authorize. -/
theorem authorizes_of_idle {e : WalletEffect} (he : Idle e) (c : C) (r : e.Answer) :
    (⟨c, e, r⟩ : Happened C).authorizes = false := by
  cases e with
  | driver e =>
      cases e with
      | applySignatures _ => exact he.elim
      | _ => rfl
  | transition _ target _ _ =>
      cases target with
      | signing => exact he.elim
      | _ => rfl
  | sendRawTransaction _ => exact he.elim
  | _ => rfl

/-- Planning is idle. -/
theorem idle_of_plans {e : WalletEffect} (h : Plans e) : Idle e := by
  cases e with
  | canonicalTip => trivial
  | driver e =>
      cases e with
      | applySignatures _ => cases h
      | _ => trivial
  | _ => exact h.elim

/-- A part of the command that authorizes nothing. -/
theorem spec_unauthorized {α : Type} {p : Prog WalletEffect.Answer α} {Q : α → World C → Prop}
    (hp : p.Uses Idle) (hw : Unauthorized w)
    (hQ : ∀ r w', Unauthorized w' → Q r w') :
    Spec (O.answers c) (fun _ w => AheadUnlessStopped w) p w Q :=
  (((hp.spec w).invariant (fun _ _ _ _ h he ha => h.step (authorizes_of_idle he c _) ha) hw).weaken
    (fun _ _ _ _ h => h) fun _ _ h => h.2.ahead).mono fun r w' h => hQ r w' h.2

/-! ### After the signatures -/

/-- The calls after the signatures are written to the journal: a move of the plan's row is one to a
later stage. -/
def Continues (planId : String) : WalletEffect → Prop
  | .canonicalTip => True
  | .transition q target _ _ => q = planId ∧ target.fromSigning = true ∧ target ≠ .signing
  | .driver (.applySignatures _) => False
  | .driver _ => True
  | _ => False

/-- The plan was signed, its row is at `Signing` or later, and nothing was submitted. -/
structure Signed (planId : String) (w : World C) : Prop where
  row : ∃ row, w.operation planId = some row ∧ row.stage.fromSigning = true
  mine : ∀ q, (∃ x ∈ w.history, x.signs q = true) → q = planId
  unsent : ∀ x ∈ w.history, ∀ txHex, ¬ x.Sends txHex
  written : ¬ StoppedUnwritten w

/-- After the Signing row nothing is behind. -/
theorem Signed.ahead (h : Signed planId w) : AheadUnlessStopped w := by
  refine iff_of_true ⟨fun q hq => ?_, ?_⟩ h.written
  · rw [h.mine q hq]
    exact h.row
  · rintro txHex ⟨x, hx, hsends⟩
    exact absurd hsends (h.unsent x hx txHex)

/-- What follows does not sign again. -/
theorem not_signs_of_continues {e : WalletEffect} {r : e.Answer} (he : Continues planId e)
    (q : String) : (⟨c, e, r⟩ : Happened C).signs q ≠ true := by
  intro h
  cases e with
  | driver e =>
      cases e with
      | applySignatures _ => exact he
      | _ => cases h
  | _ => cases h

/-- It does not send. -/
theorem not_sends_of_continues {e : WalletEffect} {r : e.Answer} (he : Continues planId e)
    (txHex : String) : ¬ (⟨c, e, r⟩ : Happened C).Sends txHex := by
  intro h
  cases e with
  | sendRawTransaction _ => exact he
  | _ => exact h

/-- It leaves nothing unwritten. -/
theorem leavesUnwritten_of_continues {e : WalletEffect} {r : e.Answer} (he : Continues planId e) :
    (⟨c, e, r⟩ : Happened C).leavesUnwritten = false := by
  cases e with
  | driver e =>
      cases e with
      | applySignatures _ => exact he.elim
      | _ => rfl
  | transition q target txid lastError =>
      cases target with
      | signing => exact absurd rfl he.2.2
      | _ => rfl
  | _ => rfl

/-- What a call leaves under the plan's id, after the signatures. -/
theorem operation_of_continues {e : WalletEffect} {r : e.Answer} (he : Continues planId e)
    (ha : O.answers c w e r w') {row : OperationRow} (hrow : w.operation planId = some row) :
    w'.operation planId = some row ∨ ∃ target txid lastError, target.fromSigning = true ∧
      w'.operation planId = some (row.moved target txid lastError) := by
  cases e with
  | transition q target txid lastError =>
      obtain ⟨rfl, hfrom, -⟩ := he
      obtain ⟨-, ⟨cur, hcur, -, -, hs⟩ | ⟨-, hs⟩⟩ := answers_transition ha
      · obtain rfl : cur = row := Option.some.inj (hcur.symm.trans hrow)
        refine Or.inr ⟨target, txid, lastError, hfrom, ?_⟩
        rw [World.operation_write hs, if_pos rfl, hrow, Option.map_some]
      · exact Or.inl ((World.operation_congr hs _).trans hrow)
  | canonicalTip => exact Or.inl ((World.operation_congr ha.1 _).trans hrow)
  | driver _ =>
      exact Or.inl ((World.operation_of_journal_eq (journal_of_answers ha rfl) _).trans hrow)
  | createPlan _ | nonTerminalRows | txStatus _ | sendRawTransaction _ | lockedOutputs
  | release _ => exact he.elim

/-- It keeps the Signing row. -/
theorem Signed.step (h : Signed planId w) {e : WalletEffect} {r : e.Answer}
    (he : Continues planId e) (ha : O.answers c w e r w') : Signed planId w' := by
  have hhist : ∀ x, x ∈ w'.history ↔ x ∈ w.history ∨ x = ⟨c, e, r⟩ := fun x => by
    rw [ha.2, List.mem_append, List.mem_singleton]
  refine ⟨?_, ?_, fun x hx txHex hsends => ?_, ?_⟩
  · obtain ⟨row, hrow, hfrom⟩ := h.row
    rcases operation_of_continues he ha hrow with hsame | ⟨target, txid, lastError, htarget, hmoved⟩
    · exact ⟨row, hsame, hfrom⟩
    · exact ⟨_, hmoved, htarget⟩
  · rintro q ⟨x, hx, hsigns⟩
    rcases (hhist x).mp hx with hx | rfl
    · exact h.mine q ⟨x, hx, hsigns⟩
    · exact absurd hsigns (not_signs_of_continues he q)
  · rcases (hhist x).mp hx with hx | rfl
    · exact h.unsent x hx txHex hsends
    · exact not_sends_of_continues he txHex hsends
  · rw [stoppedUnwritten_iff ha.2, leavesUnwritten_of_continues he]
    decide

/-- A part of the command after the signatures were written. -/
theorem spec_signed {α : Type} {p : Prog WalletEffect.Answer α} {Q : α → World C → Prop}
    (hp : p.Uses (Continues planId)) (hw : Signed planId w)
    (hQ : ∀ r w', Signed planId w' → (∀ x ∈ w.history, x ∈ w'.history) → Q r w') :
    Spec (O.answers c) (fun _ w => AheadUnlessStopped w) p w Q := by
  have hinv : ∀ v e r v', (Signed planId v ∧ ∀ x ∈ w.history, x ∈ v.history) → Continues planId e →
      O.answers c v e r v' → Signed planId v' ∧ ∀ x ∈ w.history, x ∈ v'.history :=
    fun v e r v' h he ha => ⟨h.1.step he ha, fun x hx => by
      rw [ha.2]
      exact List.mem_append_left _ (h.2 x hx)⟩
  exact (((hp.spec w).invariant hinv ⟨hw, fun _ hx => hx⟩).weaken (fun _ _ _ _ h => h)
    fun _ _ h => h.2.1.ahead).mono fun r w' h => hQ r w' h.2.1 h.2.2

/-- Planning may follow. -/
theorem continues_of_plans {e : WalletEffect} (h : Plans e) : Continues planId e := by
  cases e with
  | canonicalTip => trivial
  | driver e =>
      cases e with
      | applySignatures _ => cases h
      | _ => trivial
  | _ => exact h.elim

/-- Extracting may follow. -/
theorem continues_extract (planId : String) :
    Continues planId (.driver (.extractTransaction planId)) := trivial

/-- The final check may follow. -/
theorem continues_verify (planId : String) (tx : SignedTx) :
    Continues planId (.driver (.verifyExtracted planId tx)) := trivial

/-! ### The signatures -/

/-- The plan was signed, and its row is still at `Proven`. -/
structure SignedUnwritten (planId : String) (w : World C) : Prop where
  row : ∃ row, w.operation planId = some row ∧ row.stage = .proven
  signed : ∃ x ∈ w.history, x.signs planId = true
  mine : ∀ q, (∃ x ∈ w.history, x.signs q = true) → q = planId
  unsent : ∀ x ∈ w.history, ∀ txHex, ¬ x.Sends txHex
  stopped : StoppedUnwritten w

/-- Between signing and the Signing row, only a stop is behind. -/
theorem SignedUnwritten.ahead (h : SignedUnwritten planId w) : AheadUnlessStopped w := by
  refine iff_of_false (fun hahead => ?_) (not_not.mpr h.stopped)
  obtain ⟨row, hrow, hstage⟩ := h.row
  obtain ⟨row', hrow', hfrom⟩ := hahead.signed planId h.signed
  obtain rfl : row = row' := Option.some.inj (hrow.symm.trans hrow')
  rw [hstage] at hfrom
  cases hfrom

/-- A part of planning, which leaves the journal as it is. -/
theorem spec_unauthorized_plans {α : Type} {p : Prog WalletEffect.Answer α}
    {Q : α → World C → Prop} (hp : p.Uses Plans) (hw : Unauthorized w)
    (hQ : ∀ r w', Unauthorized w' → w'.state.journal = w.state.journal → Q r w') :
    Spec (O.answers c) (fun _ w => AheadUnlessStopped w) p w Q := by
  have hinv : ∀ v e r v', (Unauthorized v ∧ v.state.journal = w.state.journal) → Plans e →
      O.answers c v e r v' → Unauthorized v' ∧ v'.state.journal = w.state.journal :=
    fun v e r v' h he ha => by
      refine ⟨h.1.step (authorizes_of_idle (idle_of_plans he) c r) ha,
        (journal_of_answers ha ?_).trans h.2⟩
      cases e with
      | canonicalTip | driver _ => rfl
      | _ => exact he.elim
  exact (((hp.spec w).invariant hinv ⟨hw, rfl⟩).weaken (fun _ _ _ _ h => h)
    fun _ _ h => h.2.1.ahead).mono fun r w' h => hQ r w' h.2.1 h.2.2

/-- A move of the plan's row before it is signed. -/
theorem spec_unauthorized_move {target : JournalStage}
    {Q : Except String JournalStage → World C → Prop} (htarget : target ≠ .signing)
    (hw : Unauthorized w)
    (hmoved : ∀ row w', Unauthorized w' →
      w'.operation planId = some (OperationRow.moved row target none none) → Q (.ok row.stage) w')
    (hfailed : ∀ e w', Unauthorized w' → Q (.error e) w') :
    Spec (O.answers c) (fun _ w => AheadUnlessStopped w)
      (WalletM.transition planId target none none).run w Q := by
  have hstep : ∀ {r : Except String JournalStage} {w' : World C}, w'.history = w.history ++
      [⟨c, .transition planId target none none, r⟩] → Unauthorized w' := fun h x hx => by
    rw [h, List.mem_append, List.mem_singleton] at hx
    rcases hx with hx | rfl
    · exact hw x hx
    · cases target <;> first | rfl | exact absurd rfl htarget
  refine spec_transition hw.ahead (fun row w' hrow _ hs hhist => ?_)
    fun e w' _ hhist => hfailed e w' (hstep hhist)
  refine hmoved row w' (hstep hhist) ?_
  rw [World.operation_write hs, if_pos rfl, World.operation, hrow, Option.map_some]

/-- `Signing` is written, or the run ends there. -/
theorem spec_writeSigning {Q : Except String JournalStage → World C → Prop}
    (hw : SignedUnwritten planId w) (hmoved : ∀ r w', Signed planId w' → Q r w')
    (hfailed : ∀ e w', SignedUnwritten planId w' → Q (.error e) w') :
    Spec (O.answers c) (fun _ w => AheadUnlessStopped w)
      (WalletM.transition planId .signing none none).run w Q := by
  have hmine : ∀ {r : Except String JournalStage} {w' : World C}, w'.history = w.history ++
      [⟨c, .transition planId .signing none none, r⟩] →
      (∀ q, (∃ x ∈ w'.history, x.signs q = true) → q = planId) ∧
        ∀ x ∈ w'.history, ∀ txHex, ¬ x.Sends txHex := fun h => by
    constructor
    · rintro q ⟨x, hx, hsigns⟩
      rw [h, List.mem_append, List.mem_singleton] at hx
      rcases hx with hx | rfl
      · exact hw.mine q ⟨x, hx, hsigns⟩
      · cases hsigns
    · intro x hx txHex hsends
      rw [h, List.mem_append, List.mem_singleton] at hx
      rcases hx with hx | rfl
      · exact hw.unsent x hx txHex hsends
      · exact hsends
  refine spec_transition hw.ahead (fun row w' hrow _ hs hhist => ?_) fun e w' hs hhist => ?_
  · refine hmoved _ w' ⟨⟨row.moved .signing none none, ?_, rfl⟩, (hmine hhist).1,
      (hmine hhist).2, ?_⟩
    · rw [World.operation_write hs, if_pos rfl, World.operation, hrow, Option.map_some]
    · rw [stoppedUnwritten_iff hhist]
      exact Bool.false_ne_true
  · obtain ⟨row, hrow, hstage⟩ := hw.row
    obtain ⟨x, hx, hsigns⟩ := hw.signed
    refine hfailed e w' ⟨⟨row, (World.operation_congr hs _).trans hrow, hstage⟩,
      ⟨x, ?_, hsigns⟩, (hmine hhist).1, (hmine hhist).2, (stoppedUnwritten_iff hhist).mpr rfl⟩
    rw [hhist]
    exact List.mem_append_left _ hx

namespace FundingPlan

variable {plan : FundingPlan}

/-- The proofs authorize nothing. -/
theorem spec_prove {Q : Except String FundingPlan → World C → Prop} (hw : Unauthorized w)
    (hok : ∀ w', Unauthorized w' → Q (.ok { plan with stage := .proven }) w')
    (herror : ∀ e w', Unauthorized w' → Q (.error e) w') :
    Spec (O.answers c) (fun _ w => AheadUnlessStopped w) plan.prove.run w Q := by
  rw [prove, spec_run_bind]
  refine spec_unauthorized_plans plan.checkFreshness_uses hw fun r w₁ h₁ _ => ?_
  cases r with
  | error e => exact herror e w₁ h₁
  | ok current =>
      dsimp only
      rw [spec_run_bind]
      refine spec_unauthorized (plan.expectStage_uses _) h₁ fun r w₂ h₂ => ?_
      cases r with
      | error e => exact herror e w₂ h₂
      | ok _ =>
          dsimp only
          by_cases hpool : plan.pool = .shielded
          · rw [if_pos hpool, spec_run_bind, spec_ask]
            refine ⟨h₂.ahead, fun proofs w₃ ha => ?_⟩
            have h₃ : Unauthorized w₃ := h₂.step rfl ha
            dsimp only
            rw [spec_run_bind, spec_ofResult]
            cases proofs with
            | error e => exact herror e w₃ h₃
            | ok _ => exact hok w₃ h₃
          · rw [if_neg hpool]
            exact hok w₂ h₂

/-- The signatures are the first thing that is guarded. -/
theorem spec_sign {Q : Except String FundingPlan → World C → Prop} (hw : Unauthorized w)
    (hrow : ∃ row, w.operation plan.planId = some row ∧ row.stage = .proven)
    (hok : ∀ w', SignedUnwritten plan.planId w' → Q (.ok { plan with stage := .signed }) w')
    (herror : ∀ e w', Unauthorized w' → Q (.error e) w') :
    Spec (O.answers c) (fun _ w => AheadUnlessStopped w) plan.sign.run w Q := by
  rw [sign, spec_run_bind]
  refine spec_unauthorized_plans plan.checkFreshness_uses hw fun r w₁ h₁ hjournal₁ => ?_
  cases r with
  | error e => exact herror e w₁ h₁
  | ok current =>
      dsimp only
      rw [spec_run_bind]
      refine spec_unauthorized_plans (plan.expectStage_uses _) h₁ fun r w₂ h₂ hjournal₂ => ?_
      cases r with
      | error e => exact herror e w₂ h₂
      | ok _ =>
          dsimp only
          rw [spec_run_bind, spec_ask]
          refine ⟨h₂.ahead, fun signatures w₃ ha => ?_⟩
          dsimp only
          rw [spec_run_bind, spec_ofResult]
          cases signatures with
          | error e => exact herror e w₃ (h₂.step rfl ha)
          | ok _ =>
              have hhist : ∀ x, x ∈ w₃.history ↔ x ∈ w₂.history ∨
                  x = ⟨c, .driver (.applySignatures plan.planId), Except.ok ()⟩ := fun x => by
                rw [ha.2, List.mem_append, List.mem_singleton]
              refine hok w₃ ⟨?_, ⟨_, (hhist _).mpr (Or.inr rfl), decide_eq_true rfl⟩, ?_, ?_,
                (stoppedUnwritten_iff ha.2).mpr rfl⟩
              · obtain ⟨row, hrow, hstage⟩ := hrow
                refine ⟨row, ?_, hstage⟩
                rw [World.operation_of_journal_eq (journal_of_answers ha rfl),
                  World.operation_of_journal_eq hjournal₂, World.operation_of_journal_eq hjournal₁,
                  hrow]
              · rintro q ⟨x, hx, hsigns⟩
                rcases (hhist x).mp hx with hx | rfl
                · exact absurd (authorizes_of_signs hsigns) (h₂.not hx)
                · exact (of_decide_eq_true hsigns).symm
              · intro x hx txHex hsends
                rcases (hhist x).mp hx with hx | rfl
                · exact absurd (authorizes_of_sends hsends) (h₂.not hx)
                · exact hsends

/-- A transaction that is extracted and verified is the plan's own. -/
theorem spec_extractVerified {Q : Except String VerifiedTransaction → World C → Prop}
    (hw : Signed plan.planId w)
    (hok : ∀ tx w', Signed plan.planId w' → tx.planId = plan.planId →
      (∃ x ∈ w'.history, x.Extracts plan.planId tx.signed) → Q (.ok tx) w')
    (herror : ∀ e w', Signed plan.planId w' → Q (.error e) w') :
    Spec (O.answers c) (fun _ w => AheadUnlessStopped w) plan.extractVerified.run w Q := by
  have hfresh : plan.checkFreshness.run.Uses (Continues plan.planId) :=
    plan.checkFreshness_uses.mono fun _ => continues_of_plans
  rw [extractVerified, spec_run_bind]
  refine spec_signed hfresh hw fun r w₁ h₁ _ => ?_
  cases r with
  | error e => exact herror e w₁ h₁
  | ok tip =>
      dsimp only
      rw [spec_run_bind, extract, spec_run_bind]
      refine spec_signed hfresh h₁ fun r w₂ h₂ _ => ?_
      cases r with
      | error e => exact herror e w₂ h₂
      | ok _ =>
          dsimp only
          rw [spec_run_bind]
          refine spec_signed (plan.expectStage_uses _) h₂ fun r w₃ h₃ _ => ?_
          cases r with
          | error e => exact herror e w₃ h₃
          | ok _ =>
              dsimp only
              rw [spec_run_bind, spec_ask]
              refine ⟨h₃.ahead, fun extracted w₄ ha => ?_⟩
              have h₄ : Signed plan.planId w₄ := h₃.step (continues_extract plan.planId) ha
              dsimp only
              rw [spec_ofResult]
              cases extracted with
              | error e => exact herror e w₄ h₄
              | ok tx =>
                  dsimp only
                  rw [spec_run_bind, spec_ask]
                  refine ⟨h₄.ahead, fun verified w₅ ha' => ?_⟩
                  have h₅ : Signed plan.planId w₅ := h₄.step (continues_verify plan.planId tx) ha'
                  dsimp only
                  rw [spec_run_bind, spec_ofResult]
                  cases verified with
                  | error e => exact herror e w₅ h₅
                  | ok _ =>
                      refine hok _ w₅ h₅ rfl
                        ⟨⟨c, .driver (.extractTransaction plan.planId), Except.ok tx⟩, ?_, rfl, rfl⟩
                      rw [ha'.2, ha.2]
                      exact List.mem_append_left _
                        (List.mem_append_right _ (List.mem_singleton.mpr rfl))

end FundingPlan

/-! ### The submission -/

/-- The verified transaction may have been submitted, and its row says so. -/
structure Submitting (tx : VerifiedTransaction) (w : World C) : Prop where
  row : ∃ row, w.operation tx.planId = some row ∧ row.stage.fromBroadcasting = true ∧
    row.txid = some tx.txidHex
  extracted : ∃ x ∈ w.history, x.Extracts tx.planId tx.signed
  mine : ∀ q, (∃ x ∈ w.history, x.signs q = true) → q = tx.planId
  sent : ∀ x ∈ w.history, ∀ txHex, x.Sends txHex → hexEncode tx.signed.bytes = txHex
  written : ¬ StoppedUnwritten w

variable {tx : VerifiedTransaction}

/-- After the Broadcasting row nothing is behind. -/
theorem Submitting.ahead (h : Submitting tx w) : AheadUnlessStopped w := by
  obtain ⟨row, hrow, hfrom, htxid⟩ := h.row
  refine iff_of_true ⟨fun q hq => ?_, ?_⟩ h.written
  · rw [h.mine q hq]
    exact ⟨row, hrow, fromSigning_of_fromBroadcasting hfrom⟩
  · rintro txHex ⟨x, hx, hsends⟩
    exact ⟨tx.planId, row, tx.signed, hrow, hfrom, h.extracted, h.sent x hx txHex hsends, htxid⟩

/-- Neither a call that submits the transaction nor one that records its outcome changes that. -/
theorem Submitting.step (h : Submitting tx w) {e : WalletEffect} {r : e.Answer}
    (hhist : w'.history = w.history ++ [⟨c, e, r⟩])
    (hrow : ∃ row, w'.operation tx.planId = some row ∧ row.stage.fromBroadcasting = true ∧
      row.txid = some tx.txidHex)
    (hsigns : ∀ q, (⟨c, e, r⟩ : Happened C).signs q ≠ true)
    (hsends : ∀ txHex, (⟨c, e, r⟩ : Happened C).Sends txHex →
      hexEncode tx.signed.bytes = txHex)
    (hleaves : (⟨c, e, r⟩ : Happened C).leavesUnwritten = false) : Submitting tx w' := by
  have hmem : ∀ x, x ∈ w'.history ↔ x ∈ w.history ∨ x = ⟨c, e, r⟩ := fun x => by
    rw [hhist, List.mem_append, List.mem_singleton]
  refine ⟨hrow, ?_, ?_, fun x hx txHex hsent => ?_, ?_⟩
  · obtain ⟨x, hx, hextracts⟩ := h.extracted
    exact ⟨x, (hmem x).mpr (Or.inl hx), hextracts⟩
  · rintro q ⟨x, hx, hx'⟩
    rcases (hmem x).mp hx with hx | rfl
    · exact h.mine q ⟨x, hx, hx'⟩
    · exact absurd hx' (hsigns q)
  · rcases (hmem x).mp hx with hx | rfl
    · exact h.sent x hx txHex hsent
    · exact hsends txHex hsent
  · rw [stoppedUnwritten_iff hhist, hleaves]
    exact Bool.false_ne_true

/-- The outcome is recorded with the txid kept. -/
theorem spec_recordsOutcome {target : JournalStage} {lastError : Option String}
    {Q : Except String JournalStage → World C → Prop} (htarget : target.fromBroadcasting = true)
    (hw : Submitting tx w) (hQ : ∀ r w', Submitting tx w' → Q r w') :
    Spec (O.answers c) (fun _ w => AheadUnlessStopped w)
      (WalletM.transition tx.planId target none lastError).run w Q := by
  have hleaves : ∀ r : Except String JournalStage,
      (⟨c, .transition tx.planId target none lastError, r⟩ : Happened C).leavesUnwritten = false :=
    fun r => by cases target <;> first | rfl | cases htarget
  obtain ⟨row, hrow, hfrom, htxid⟩ := hw.row
  refine spec_transition hw.ahead (fun cur w' hcur _ hs hhist => ?_) fun e w' hs hhist => ?_
  · obtain rfl : cur = row := Option.some.inj (hcur.symm.trans hrow)
    refine hQ _ w' (hw.step hhist ⟨cur.moved target none lastError, ?_, htarget, htxid⟩
      (fun _ h => Bool.false_ne_true h) (fun _ h => h.elim) (hleaves _))
    rw [World.operation_write hs, if_pos rfl, hrow, Option.map_some]
  · exact hQ _ w' (hw.step hhist ⟨row, (World.operation_congr hs _).trans hrow, hfrom, htxid⟩
      (fun _ h => Bool.false_ne_true h) (fun _ h => h.elim) (hleaves _))

/-- Recording the outcome keeps the rows ahead. -/
theorem spec_recordOutcome_ahead {answer : TransportResult} (hw : Submitting tx w) :
    Spec (O.answers c) (fun _ w => AheadUnlessStopped w) (recordOutcome noopRelease tx answer).run w
      fun _ w' => Submitting tx w' := by
  cases answer with
  | accepted returned =>
      rw [recordOutcome]
      by_cases hother : returned ≠ tx.txidHex
      · rw [if_pos hother, spec_run_bind]
        refine spec_recordsOutcome rfl hw fun r w' h => ?_
        cases r <;> exact h
      · rw [if_neg hother, spec_run_bind]
        refine spec_recordsOutcome rfl hw fun r w' h => ?_
        cases r <;> exact h
  | rejected code message =>
      rw [recordOutcome, spec_run_bind]
      refine spec_recordsOutcome rfl hw fun r w' h => ?_
      cases r <;> exact h
  | ambiguous message =>
      rw [recordOutcome, spec_run_bind]
      refine spec_recordsOutcome rfl hw fun r w' h => ?_
      cases r <;> exact h

/-- **The submission** is preceded by `Broadcasting` with the txid. -/
theorem spec_broadcastVerified_ahead (hw : Signed tx.planId w)
    (hextracted : ∃ x ∈ w.history, x.Extracts tx.planId tx.signed) :
    Spec (O.answers c) (fun _ w => AheadUnlessStopped w) (broadcastVerified noopRelease tx).run w
      fun _ w' => AheadUnlessStopped w' := by
  rw [broadcastVerified, spec_run_bind]
  refine spec_signed (p := WalletM.canonicalTip.run) ?_ hw fun r w₁ h₁ hkeep₁ => ?_
  · exact plans_canonicalTip.mono fun _ => continues_of_plans
  cases r with
  | error e => exact h₁.ahead
  | ok current =>
      dsimp only
      by_cases hstale : current ≠ tx.verifiedTip
      · rw [if_pos hstale]
        exact h₁.ahead
      · rw [if_neg hstale, spec_run_bind]
        refine ⟨h₁.ahead, fun r w₂ ha => ?_⟩
        have hsigned : Signed tx.planId w₂ := h₁.step
          (show Continues _ (.transition _ _ _ _) from ⟨rfl, rfl, by decide⟩) ha
        obtain ⟨hhist, ⟨row, hrow, -, rfl, hs⟩ | ⟨⟨e, rfl⟩, -⟩⟩ := answers_transition ha
        · have h₂ : Submitting tx w₂ := by
            refine ⟨⟨row.moved .broadcasting (some tx.txidHex) none, ?_, rfl, rfl⟩, ?_,
              hsigned.mine, fun x hx txHex hsends => absurd hsends (hsigned.unsent x hx txHex),
              hsigned.written⟩
            · rw [World.operation_write hs, if_pos rfl, World.operation, hrow, Option.map_some]
            · obtain ⟨x, hx, hextracts⟩ := hextracted
              refine ⟨x, ?_, hextracts⟩
              rw [hhist]
              exact List.mem_append_left _ (hkeep₁ x hx)
          rw [spec_done]
          dsimp only
          rw [spec_run_bind, WalletM.sendRawTransaction, spec_run_lift, spec_call]
          refine ⟨h₂.ahead, fun answer w₃ ha => ?_⟩
          obtain ⟨row', hrow', hfrom, htxid⟩ := h₂.row
          have h₃ : Submitting tx w₃ := h₂.step ha.2
            ⟨row', (World.operation_congr ha.1 _).trans hrow', hfrom, htxid⟩
            (fun _ h => Bool.false_ne_true h) (fun _ h => h) rfl
          exact (spec_recordOutcome_ahead h₃).mono fun _ _ h => h.ahead
        · exact hsigned.ahead

/-! ### The whole command -/

/-- Sending keeps the rows ahead. -/
theorem spec_broadcastFunded_ahead (hw : Signed tx.planId w)
    (hextracted : ∃ x ∈ w.history, x.Extracts tx.planId tx.signed) :
    Spec (O.answers c) (fun _ w => AheadUnlessStopped w) (broadcastFunded tx).run w
      fun _ w' => AheadUnlessStopped w' := by
  rw [broadcastFunded, spec_run_bind]
  refine spec_signed (plans_nodeClient.mono fun _ => continues_of_plans) hw
    fun r w₁ h₁ hkeep => ?_
  cases r with
  | error e => exact h₁.ahead
  | ok _ =>
      obtain ⟨x, hx, hextracts⟩ := hextracted
      dsimp only
      rw [spec_run_bind]
      refine (spec_broadcastVerified_ahead h₁ ⟨x, hkeep x hx, hextracts⟩).mono fun r w₂ h₂ => ?_
      cases r with
      | error e => exact h₂
      | ok outcome => cases outcome <;> exact h₂

/-- A plan that was signed is extracted, verified, and recorded as such. -/
theorem spec_signed_move {target : JournalStage} {Q : Except String JournalStage → World C → Prop}
    (htarget : target.fromSigning = true) (hne : target ≠ .signing) (hw : Signed planId w)
    (hQ : ∀ r w', Signed planId w' → (∀ x ∈ w.history, x ∈ w'.history) → Q r w') :
    Spec (O.answers c) (fun _ w => AheadUnlessStopped w)
      (WalletM.transition planId target none none).run w Q :=
  spec_signed (uses_transition ⟨rfl, htarget, hne⟩) hw hQ

/-- The steps of `authorize` that follow the write of `Signing`. -/
def authorizeSigned (plan : FundingPlan) : WalletM VerifiedTransaction := do
  let _ ← WalletM.transition plan.planId .signed none none
  let verified ← plan.extractVerified
  let _ ← WalletM.transition plan.planId .extracted none none
  let _ ← WalletM.transition plan.planId .verified none none
  return verified

/-- The plan is proved, signed and then recorded as signing. -/
theorem authorizeRecorded_eq (plan : FundingPlan) : authorizeRecorded plan = (do
    let plan ← plan.prove
    let _ ← WalletM.transition plan.planId .proving none none
    let _ ← WalletM.transition plan.planId .proven none none
    let plan ← plan.sign
    let _ ← WalletM.transition plan.planId .signing none none
    authorizeSigned plan) := rfl

/-- Recording a plan is idle. -/
theorem recordPlan_idle (H : Hashing) (plan : FundingPlan) : (recordPlan H plan).run.Uses Idle := by
  rw [recordPlan]
  refine Uses.run_bind (uses_call trivial) fun _ => Uses.run_bind ?_ fun _ => uses_run_pure
  exact uses_transition (show Idle (.transition _ .reserved _ _) from trivial)

/-- After the Signing row, extraction keeps it. -/
theorem FundingPlan.spec_authorizeSigned {plan : FundingPlan}
    {Q : Except String VerifiedTransaction → World C → Prop} (hw : Signed plan.planId w)
    (hok : ∀ tx w', Signed tx.planId w' → (∃ x ∈ w'.history, x.Extracts tx.planId tx.signed) →
      Q (.ok tx) w')
    (herror : ∀ e w', AheadUnlessStopped w' → Q (.error e) w') :
    Spec (O.answers c) (fun _ w => AheadUnlessStopped w) (authorizeSigned plan).run w Q := by
  rw [authorizeSigned, spec_run_bind]
  refine spec_signed_move rfl (by decide) hw fun r w₁ h₁ _ => ?_
  cases r with
  | error e => exact herror e w₁ h₁.ahead
  | ok _ =>
      dsimp only
      rw [spec_run_bind]
      refine plan.spec_extractVerified h₁ (fun tx w₂ h₂ hplan hextracts => ?_)
        fun e w₂ h₂ => herror e w₂ h₂.ahead
      dsimp only
      rw [spec_run_bind]
      refine spec_signed_move rfl (by decide) h₂ fun r w₃ h₃ hkeep₃ => ?_
      cases r with
      | error e => exact herror e w₃ h₃.ahead
      | ok _ =>
          dsimp only
          rw [spec_run_bind]
          refine spec_signed_move rfl (by decide) h₃ fun r w₄ h₄ hkeep₄ => ?_
          cases r with
          | error e => exact herror e w₄ h₄.ahead
          | ok _ =>
              obtain ⟨x, hx, hextracts⟩ := hextracts
              rw [← hplan] at h₄ hextracts
              exact hok tx w₄ h₄ ⟨x, hkeep₄ x (hkeep₃ x hx), hextracts⟩

/-- **Authorization**: what guards the signatures is written after them. -/
theorem spec_authorizeRecorded_ahead {plan : FundingPlan}
    {Q : Except String VerifiedTransaction → World C → Prop} (hw : Unauthorized w)
    (hok : ∀ tx w', Signed tx.planId w' → (∃ x ∈ w'.history, x.Extracts tx.planId tx.signed) →
      Q (.ok tx) w')
    (herror : ∀ e w', AheadUnlessStopped w' → Q (.error e) w') :
    Spec (O.answers c) (fun _ w => AheadUnlessStopped w) (authorizeRecorded plan).run w Q := by
  rw [authorizeRecorded_eq, spec_run_bind]
  refine plan.spec_prove hw (fun w₁ h₁ => ?_) fun e w₁ h₁ => herror e w₁ h₁.ahead
  dsimp only
  rw [spec_run_bind]
  refine spec_unauthorized_move (by decide) h₁ (fun row w₂ h₂ _ => ?_)
    fun e w₂ h₂ => herror e w₂ h₂.ahead
  dsimp only
  rw [spec_run_bind]
  refine spec_unauthorized_move (by decide) h₂ (fun row w₃ h₃ hrow => ?_)
    fun e w₃ h₃ => herror e w₃ h₃.ahead
  dsimp only
  rw [spec_run_bind]
  refine FundingPlan.spec_sign h₃ ⟨_, hrow, rfl⟩ (fun w₄ h₄ => ?_)
    fun e w₄ h₄ => herror e w₄ h₄.ahead
  dsimp only
  rw [spec_run_bind]
  refine spec_writeSigning h₄ (fun r w₅ h₅ => ?_) fun e w₅ h₅ => herror e w₅ h₅.ahead
  cases r with
  | error e => exact herror e w₅ h₅.ahead
  | ok _ => exact FundingPlan.spec_authorizeSigned h₅ hok herror

/-- A whole request keeps the rows ahead, unless it stops after signing. -/
theorem spec_executeRequest_ahead (H : Hashing) (opts : SpendOptions) (request : TxRequest)
    (requiredZat : ℕ) (hw : Unauthorized w) :
    Spec (O.answers c) (fun _ w => AheadUnlessStopped w)
      (executeRequest H opts request requiredZat).run w fun _ w' => AheadUnlessStopped w' := by
  have hidle : ∀ {α : Type} {x : WalletM α} {f : α → WalletM (Option Bytes32)} {w : World C},
      x.run.Uses Idle → Unauthorized w → (∀ a w', Unauthorized w' →
        Spec (O.answers c) (fun _ w => AheadUnlessStopped w) (f a).run w'
          fun _ w' => AheadUnlessStopped w') →
      Spec (O.answers c) (fun _ w => AheadUnlessStopped w) (x >>= f).run w
        fun _ w' => AheadUnlessStopped w' := fun hx hw hf => by
    rw [spec_run_bind]
    refine spec_unauthorized hx hw fun r w' h => ?_
    cases r with
    | error e => exact h.ahead
    | ok a => exact hf a w' h
  have hplans : ∀ {α : Type} {x : WalletM α}, x.run.Uses Plans → x.run.Uses Idle :=
    fun h => h.mono fun _ => idle_of_plans
  rw [executeRequest_eq]
  refine hidle (mainnetGuard_uses opts) hw fun _ w h => ?_
  refine hidle (hplans plans_nodeClient) h fun _ w h => ?_
  refine hidle (hplans (buildSource_uses opts requiredZat)) h fun source w h => ?_
  refine hidle (hplans plans_canonicalTip) h fun tip w h => ?_
  refine hidle (hplans (source.plan_uses request _)) h fun plan w h => ?_
  refine hidle (hplans (confirm_uses opts)) h fun confirmed w h => ?_
  by_cases hno : confirmed = false
  · rw [if_pos hno]
    exact h.ahead
  · rw [if_neg hno, spec_run_bind, authorize_eq]
    change Spec _ _ (WalletM.ask .openJournal >>= fun opened => WalletM.ofResult opened >>= fun _ =>
      recordPlan H plan >>= fun _ => authorizeRecorded plan).run w _
    rw [spec_run_bind, spec_ask]
    refine ⟨h.ahead, fun opened w₁ ha => ?_⟩
    have h₁ : Unauthorized w₁ := h.step rfl ha
    dsimp only
    rw [spec_run_bind, spec_ofResult]
    cases opened with
    | error e => exact h₁.ahead
    | ok _ =>
        dsimp only
        rw [spec_run_bind]
        refine spec_unauthorized (recordPlan_idle H plan) h₁ fun r w₂ h₂ => ?_
        cases r with
        | error e => exact h₂.ahead
        | ok _ =>
            exact spec_authorizeRecorded_ahead h₂ (fun tx w' => spec_broadcastFunded_ahead)
              fun e w' h => h

/-- **The journal is ahead of a run** at each of its points, except where the run is stopped, by a
crash or by the failing write, after the plan was signed and before `Signing` is written. -/
theorem written_ahead_iff (O : Outside) (c : FundedCall) {start w : World FundedCall}
    (hhistory : start.history = [])
    (hrun : Visits (O.answers c) (c.prog O.hashing) start w) :
    WrittenAhead w ↔ ¬ StoppedUnwritten w := by
  have hstart : Unauthorized start := fun x hx => by
    rw [hhistory] at hx
    cases hx
  exact (spec_executeRequest_ahead O.hashing c.opts c.request c.requiredZat hstart).of_visits
    (fun _ _ h => h) (fun _ _ h => h) hrun

/-- A funded call that was sent, and answered with a rejection. -/
theorem written_ahead_iff_sent :
    Visits (anyOutside.answers (fundedCall .transparent))
      ((fundedCall .transparent).prog anyOutside.hashing) freshWorld
      ((fundedCall .transparent).after 27) ∧
    WrittenAhead ((fundedCall .transparent).after 27) := by
  have hrun : Visits (anyOutside.answers (fundedCall .transparent))
      ((fundedCall .transparent).prog anyOutside.hashing) freshWorld
      ((fundedCall .transparent).after 27) :=
    visits_runFor (fundedCall .transparent).answers_smooth 27 _ _
  refine ⟨hrun, (written_ahead_iff anyOutside _ rfl hrun).mpr ?_⟩
  rintro ⟨x, hx, hleaves⟩
  have hwritten : ((fundedCall .transparent).after 27).history.getLast?.any
      Happened.leavesUnwritten = false := by
    decide +kernel
  rw [hx, Option.any_some, hleaves] at hwritten
  cases hwritten

/-- A crash right after the signatures: the plan is signed, and its row is at `Proven`. -/
theorem not_written_ahead :
    Visits (anyOutside.answers (fundedCall .transparent))
      ((fundedCall .transparent).prog anyOutside.hashing) freshWorld
      ((fundedCall .transparent).after 14) ∧
    ¬ WrittenAhead ((fundedCall .transparent).after 14) := by
  refine ⟨visits_runFor (fundedCall .transparent).answers_smooth 14 _ _, fun h => ?_⟩
  have hsigned : ((fundedCall .transparent).after 14).history.any (fun x => x.signs "plan") =
      true := by
    decide +kernel
  obtain ⟨row, hrow, hfrom⟩ := h.signed "plan" (List.any_eq_true.mp hsigned)
  have hstage : (((fundedCall .transparent).after 14).operation "plan").any
      (fun row => row.stage.fromSigning) = false := by
    decide +kernel
  rw [hrow, Option.any_some, hfrom] at hstage
  cases hstage

end WrittenAhead

end Zalkanes
