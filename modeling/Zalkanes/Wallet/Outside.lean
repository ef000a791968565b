import Zalkanes.Lib.Effects
import Zalkanes.Wallet.Journal
import Zalkanes.Wallet.Request

/-!
# What the Wallet Talks to

The wallet acts on two databases that share no transaction, its operation journal and its store
of note locks, and on one Zebra node. This module lists the calls it makes to them
(`WalletEffect`) and how they may answer (`Outside.Answers`): a write may fail and then leaves
nothing, the node answers as it likes, and a release that fails may have removed some of the locks
it was asked to remove. What happened is kept in the order it happened (`World.history`).

## Main results

* `Outside.answers_transition`: a journal transition goes through, is refused, or fails.
-/

namespace Zalkanes

open Lib

/-- `hex::encode`. -/
def hexEncode (bs : Bytes) : String :=
  String.ofList (bs.flatMap fun b =>
    [Nat.digitChar (b.toNat / 16), Nat.digitChar (b.toNat % 16)])

/-- The canonical chain identity a wallet plan is pinned to. -/
abbrev CanonicalTip := BlockRef

/-- The transport-level result of submitting one raw transaction. -/
inductive TransportResult where
  /-- The node accepted a transaction, and returned this txid. -/
  | accepted (txid : String)
  /-- The node explicitly rejected the transaction. -/
  | rejected (code : ℤ) (message : String)
  /-- Anything else: the transaction may or may not have reached the node. -/
  | ambiguous (message : String)
  deriving DecidableEq

/-- The chain-side status of a transaction. -/
inductive TxStatus where
  | mined (height : BlockHeight)
  | inMempool
  | absent
  deriving DecidableEq

/-- One held note lock. -/
structure LockedOutput where
  /-- `pool:txid_hex:index`. -/
  outputRef : String
  ownerHex : String
  deriving DecidableEq

/-- The lock owner of a plan. -/
def lockOwnerHex (H : Hashing) (planId : String) : String :=
  hexEncode (H.sha256 ("zalkanes-plan-lock\x00".toUTF8.toList ++ planId.toUTF8.toList)).bytes

/-! ### The calls -/

/-- A call to the world outside the wallet's process. -/
inductive WalletEffect where
  | createPlan (operation : Operation)
  | transition (planId : String) (target : JournalStage) (txid lastError : Option String)
  | nonTerminalRows
  | canonicalTip
  | txStatus (txid : String)
  | sendRawTransaction (txHex : String)
  | lockedOutputs
  | release (planId : String)
  | driver (e : DriverEffect)

/-- Whether the call writes to the journal. -/
def WalletEffect.writesJournal : WalletEffect → Bool
  | createPlan _ | transition _ _ _ _ => true
  | _ => false

/-- What a call returns. -/
abbrev WalletEffect.Answer : WalletEffect → Type
  | createPlan _ => Except String Unit
  | transition _ _ _ _ => Except String JournalStage
  | nonTerminalRows => Except String (List OperationRow)
  | canonicalTip => Except String CanonicalTip
  | txStatus _ => Except String TxStatus
  | sendRawTransaction _ => TransportResult
  | lockedOutputs => Except String (List LockedOutput)
  | release _ => Except String Unit
  | driver e => e.Answer

/-- What the wallet's code runs in: calls to the outside, and early returns with an error. -/
abbrev WalletM := ExceptT String (Prog WalletEffect.Answer)

namespace WalletM

/-- Inserts the row of a plan. -/
def createPlan (operation : Operation) : WalletM Unit :=
  .mk (Prog.call (WalletEffect.createPlan operation))

/-- Moves the row of a plan. -/
def transition (planId : String) (target : JournalStage) (txid lastError : Option String) :
    WalletM JournalStage :=
  .mk (Prog.call (WalletEffect.transition planId target txid lastError))

/-- Lists the rows of plans that have not ended. -/
def nonTerminalRows : WalletM (List OperationRow) := .mk (Prog.call WalletEffect.nonTerminalRows)

/-- Asks for the tip. -/
def canonicalTip : WalletM CanonicalTip := .mk (Prog.call WalletEffect.canonicalTip)

/-- The status query, whose error the caller handles. -/
def txStatus (txid : String) : WalletM (Except String TxStatus) :=
  ExceptT.lift (Prog.call (WalletEffect.txStatus txid))

/-- Sends a transaction; the error is an answer. -/
def sendRawTransaction (txHex : String) : WalletM TransportResult :=
  ExceptT.lift (Prog.call (WalletEffect.sendRawTransaction txHex))

/-- Lists the locks. -/
def lockedOutputs : WalletM (List LockedOutput) := .mk (Prog.call WalletEffect.lockedOutputs)

/-- The release of a plan's note locks, by the shielded wallet. -/
def release (planId : String) : WalletM Unit := .mk (Prog.call (WalletEffect.release planId))

/-- A call whose answer is not a `Result`. -/
def ask (e : DriverEffect) : WalletM e.Answer :=
  ExceptT.lift (Prog.call (WalletEffect.driver e))

end WalletM

/-! ### The answers -/

/-- What outlives the wallet's process. -/
structure WalletState where
  journal : Journal
  locks : List LockedOutput

/-- The behaviour of the outside that the wallet does not decide. -/
structure Outside where
  hashing : Hashing
  /-- Whether reads, writes and releases may fail. -/
  faulty : Prop
  /-- What the lock view may report. -/
  lockView : WalletState → List LockedOutput → Prop
  /-- What the node may say of a transaction. -/
  txStatus : String → Except String TxStatus → Prop

namespace Outside

variable (O : Outside)

/-- The call fails, and has left nothing. -/
def Fails {α : Type} (s s' : WalletState) (r : Except String α) : Prop :=
  O.faulty ∧ s' = s ∧ ∃ e, r = .error e

/-- How a call is answered, and what it leaves. -/
def Answers (s : WalletState) : (e : WalletEffect) → e.Answer → WalletState → Prop
  | .createPlan operation, r, s' =>
      O.Fails s s' r ∨ ∃ now,
        (∃ j, s.journal.createPlan operation now = .ok j ∧ r = Except.ok () ∧
          s' = { s with journal := j }) ∨
        (∃ e, s.journal.createPlan operation now = .error e ∧ r = Except.error e ∧ s' = s)
  | .transition planId target txid lastError, r, s' =>
      O.Fails s s' r ∨
        (∃ source j, s.journal.transition planId target txid lastError = .ok (source, j) ∧
          r = Except.ok source ∧ s' = { s with journal := j }) ∨
        (∃ e, s.journal.transition planId target txid lastError = .error e ∧
          r = Except.error e ∧ s' = s)
  | .nonTerminalRows, r, s' =>
      O.Fails s s' r ∨ s' = s ∧ ∃ rows, s.journal.NonTerminalRows rows ∧ r = Except.ok rows
  | .canonicalTip, _, s' => s' = s
  | .txStatus txid, r, s' => s' = s ∧ O.txStatus txid r
  | .sendRawTransaction _, _, s' => s' = s
  | .lockedOutputs, r, s' =>
      O.Fails s s' r ∨ s' = s ∧ ∃ locks, O.lockView s locks ∧ r = Except.ok locks
  | .release planId, r, s' =>
      s'.journal = s.journal ∧
        ((r = Except.ok () ∧
            s'.locks = s.locks.filter fun l => l.ownerHex ≠ lockOwnerHex O.hashing planId) ∨
          (O.faulty ∧ (∃ e, r = Except.error e) ∧ s'.locks.Sublist s.locks ∧
            (s'.locks.filter fun l => l.ownerHex ≠ lockOwnerHex O.hashing planId) =
              s.locks.filter fun l => l.ownerHex ≠ lockOwnerHex O.hashing planId))
  -- the selection leaves out the notes that are locked, and locks what it returns
  | .driver (.selectSpends _ planId), r, s' =>
      s'.journal = s.journal ∧
        ((∃ e, r = Except.error e ∧ s'.locks = s.locks) ∨
          ∃ selection, r = Except.ok selection ∧ selection.outputRefs ≠ [] ∧
            (∀ ref ∈ selection.outputRefs, ∀ l ∈ s.locks, l.outputRef ≠ ref) ∧
            s'.locks = s.locks ++ selection.outputRefs.map fun ref =>
              ⟨ref, lockOwnerHex O.hashing planId⟩)
  | .driver _, _, s' => s' = s

end Outside

/-- Something that happened: a call, which of the wallet's operations made it, and the answer. -/
structure Happened (C : Type) where
  operation : C
  effect : WalletEffect
  answer : effect.Answer

/-- The wallet's state and its past. -/
structure World (C : Type) where
  state : WalletState
  history : List (Happened C)

namespace Outside

variable {C : Type}

/-- The answers to the calls of one operation, recorded. -/
def answers (O : Outside) (c : C) : Lib.Answers WalletEffect.Answer (World C) := fun w e r w' =>
  O.Answers w.state e r w'.state ∧ w'.history = w.history ++ [⟨c, e, r⟩]

variable {O : Outside} {c : C} {w w' : World C}

/-- Every other call leaves the journal as it was. -/
theorem journal_of_answers {e : WalletEffect} {r : e.Answer} (h : O.answers c w e r w')
    (he : e.writesJournal = false) : w'.state.journal = w.state.journal := by
  cases e with
  | createPlan _ | transition _ _ _ _ => cases he
  | nonTerminalRows | lockedOutputs => obtain ⟨⟨-, hs, -⟩ | ⟨hs, -⟩, -⟩ := h <;> rw [hs]
  | canonicalTip | sendRawTransaction _ => rw [h.1]
  | txStatus _ => rw [h.1.1]
  | release _ => exact h.1.1
  | driver e =>
      cases e with
      | selectSpends _ _ => exact h.1.1
      | _ => rw [h.1]

/-- **A transition** goes through along the stage machine, or leaves the journal as it was. -/
theorem answers_transition {planId : String} {target : JournalStage}
    {txid lastError : Option String} {r : Except String JournalStage}
    (h : O.answers c w (.transition planId target txid lastError) r w') :
    w'.history = w.history ++ [⟨c, .transition planId target txid lastError, r⟩] ∧
    ((∃ row, w.state.journal.operation planId = some row ∧
        row.stage.canTransition target = true ∧ r = .ok row.stage ∧
        w'.state = { w.state with journal := w.state.journal.write planId target txid lastError }) ∨
      (∃ e, r = .error e) ∧ w'.state = w.state) := by
  obtain ⟨⟨-, hs, hr⟩ | ⟨source, j, hj, hr, hs⟩ | ⟨e, -, hr, hs⟩, hhist⟩ := h
  · exact ⟨hhist, Or.inr ⟨hr, hs⟩⟩
  · obtain ⟨row, hrow, rfl, hlegal, rfl⟩ := Journal.transition_eq_ok.mp hj
    exact ⟨hhist, Or.inl ⟨row, hrow, hlegal, hr, hs⟩⟩
  · exact ⟨hhist, Or.inr ⟨⟨e, hr⟩, hs⟩⟩

/-- The rule for a transition. -/
theorem spec_transition {ok : WalletEffect → World C → Prop}
    {Q : Except String JournalStage → World C → Prop} {planId : String} {target : JournalStage}
    {txid lastError : Option String} (hok : ok (.transition planId target txid lastError) w)
    (hmoved : ∀ row w', w.state.journal.operation planId = some row →
      row.stage.canTransition target = true →
      w'.state = { w.state with journal := w.state.journal.write planId target txid lastError } →
      w'.history = w.history ++
        [⟨c, .transition planId target txid lastError, Except.ok row.stage⟩] →
      Q (.ok row.stage) w')
    (hfailed : ∀ e w', w'.state = w.state →
      w'.history = w.history ++ [⟨c, .transition planId target txid lastError, Except.error e⟩] →
      Q (.error e) w') :
    Prog.Spec (O.answers c) ok (WalletM.transition planId target txid lastError).run w Q := by
  refine ⟨hok, fun r w' h => ?_⟩
  obtain ⟨hhist, ⟨row, hrow, hlegal, rfl, hs⟩ | ⟨⟨e, rfl⟩, hs⟩⟩ := answers_transition h
  · exact hmoved row w' hrow hlegal hs hhist
  · exact hfailed e w' hs hhist

end Outside

/-- An outside that may answer anything, and where everything may fail. -/
def anyOutside : Outside :=
  ⟨⟨fun _ _ => .replicate 0, fun _ => .replicate 0⟩, True, fun _ _ => True, fun _ _ => True⟩

namespace World

variable {C : Type}

/-- The row of a plan. -/
def operation (w : World C) (planId : String) : Option OperationRow :=
  w.state.journal.operation planId

/-- In the operation, the node said this of the transaction. -/
def Reported (w : World C) (c : C) (txid : String) (status : TxStatus) : Prop :=
  ⟨c, .txStatus txid, (Except.ok status : Except String TxStatus)⟩ ∈ w.history

/-- The same journal has the same rows. -/
theorem operation_of_journal_eq {w w' : World C} (h : w'.state.journal = w.state.journal)
    (planId : String) : w'.operation planId = w.operation planId := by
  rw [operation, h, operation]

/-- The same wallet has the same rows. -/
theorem operation_congr {w w' : World C} (h : w'.state = w.state) (planId : String) :
    w'.operation planId = w.operation planId :=
  operation_of_journal_eq (congrArg WalletState.journal h) planId

/-- A write changes one row. -/
theorem operation_write {w w' : World C} {planId : String} {target : JournalStage}
    {txid lastError : Option String} (h : w'.state =
      { w.state with journal := w.state.journal.write planId target txid lastError })
    (q : String) : w'.operation q =
      if q = planId then (w.operation q).map fun row => row.moved target txid lastError
      else w.operation q := by
  rw [operation, h]
  exact Journal.operation_write _ _ _ _ _ _

/-- What was reported stays reported. -/
theorem Reported.mono {w w' : World C} {c : C} {txid : String} {status : TxStatus}
    (h : w.Reported c txid status) {new : List (Happened C)} (hw : w'.history = w.history ++ new) :
    w'.Reported c txid status := by
  rw [Reported, hw]
  exact List.mem_append_left _ h

end World

end Zalkanes
