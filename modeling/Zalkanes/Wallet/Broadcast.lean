import Mathlib
import Zalkanes.Wallet.Outside

/-!
# Broadcast and Reconciliation

How a verified transaction is sent, and how the rows of operations whose transaction was, or may
have been, sent are reconciled with the chain. Both act through the calls of `WalletEffect` alone,
so each is described by saying of every call in which world it is made
(`broadcastVerified_permits`, `reconcile_permits`).

## Main results

* `broadcastVerified_permits`: a transaction is sent right after its row was moved to
  `Broadcasting`, and its locks are released right after its rejection.
* `reconcile_permits`: every move of a row is legal, and locks are released where the transaction
  was reported absent with the tip past its expiry and the margin.
-/

namespace Zalkanes

open Lib

/-- A transaction that was verified against its plan. -/
structure VerifiedTransaction where
  signed : SignedTx
  planId : String
  intentHash : String
  verifiedTip : CanonicalTip
  deriving DecidableEq

/-- The txid in display order. -/
def VerifiedTransaction.txidHex (tx : VerifiedTransaction) : String :=
  hexEncode tx.signed.txid.bytes.reverse

/-- Releases the note reservations of one plan. -/
abbrev ReleaseHook := String → WalletM Unit

/-- The classified outcome of one broadcast. -/
inductive BroadcastOutcome where
  | accepted
  | rejected (message : String)
  | unknown (message : String)
  deriving DecidableEq

/-- The message for a tip that has moved since the final check. -/
def stalePlan (verified current : CanonicalTip) : String :=
  "StalePlan: canonical tip changed since verification (verified " ++
    toString verified.height ++ ":" ++ hexEncode verified.hash.bytes ++ ", current " ++
    toString current.height ++ ":" ++ hexEncode current.hash.bytes ++
    "); not broadcast — re-plan required"

/-- The message for a transaction that the node refuses. -/
def rejectedMessage (code : ℤ) (message : String) : String :=
  "rejected (code " ++ toString code ++ "): " ++ message

/-- Record the node's answer to the submission. -/
def recordOutcome (release : ReleaseHook) (tx : VerifiedTransaction) :
    TransportResult → WalletM BroadcastOutcome
  | .accepted returned =>
      if returned ≠ tx.txidHex then do
        -- the node accepted something else
        let msg := "accepted txid mismatch: node returned " ++ returned
        let _ ← WalletM.transition tx.planId .broadcastUnknown none (some msg)
        return .unknown msg
      else do
        let _ ← WalletM.transition tx.planId .broadcastAccepted none none
        return .accepted
  | .rejected code message => do
      let msg := rejectedMessage code message
      let _ ← WalletM.transition tx.planId .rejected none (some msg)
      release tx.planId
      return .rejected msg
  | .ambiguous message => do
      let _ ← WalletM.transition tx.planId .broadcastUnknown none (some message)
      return .unknown message

/-- Broadcast a verified transaction. -/
def broadcastVerified (release : ReleaseHook) (tx : VerifiedTransaction) :
    WalletM BroadcastOutcome := do
  let current ← WalletM.canonicalTip
  if current ≠ tx.verifiedTip then throw (stalePlan tx.verifiedTip current)
  else
    let _ ← WalletM.transition tx.planId .broadcasting (some tx.txidHex) none
    let answer ← WalletM.sendRawTransaction (hexEncode tx.signed.bytes)
    recordOutcome release tx answer

/-! ### Reconciliation -/

/-- One reconciliation action taken on a journal row. -/
structure ReconcileAction where
  planId : String
  source : JournalStage
  target : JournalStage
  deriving DecidableEq

/-- The result of one reconciliation pass. -/
structure ReconcileReport where
  actions : List ReconcileAction
  /-- Plans whose locks were released. -/
  released : List String
  /-- Rows that remain ambiguous. -/
  stillUnknown : List String
  /-- Rows that could not be examined. -/
  errors : List String
  deriving DecidableEq

/-- Blocks past the expiry before an absent transaction is deemed impossible to mine. -/
def expiryAbsentMargin : UInt32 := 6

/-- `u32::saturating_add`. -/
def saturatingAdd32 (a b : UInt32) : UInt32 := UInt32.ofNat (min (a.toNat + b.toNat) (2 ^ 32 - 1))

/-- Whether a transaction that is absent at the tip can no longer be mined. -/
def Operation.definitelyExpired (operation : Operation) (tip : CanonicalTip) : Bool :=
  match operation.expiry with
  | some e => tip.height > saturatingAdd32 e expiryAbsentMargin
  | none => false

/-- A saturating sum stops at the largest word. -/
theorem toNat_saturatingAdd32 (a b : UInt32) :
    (saturatingAdd32 a b).toNat = min (a.toNat + b.toNat) (2 ^ 32 - 1) := by
  rw [saturatingAdd32, UInt32.toNat_ofNat']
  exact Nat.mod_eq_of_lt (by omega)

/-- The tip is beyond the expiry and its margin. -/
theorem Operation.definitelyExpired_iff {operation : Operation} {tip : CanonicalTip} :
    operation.definitelyExpired tip = true ↔ ∃ expiry, operation.expiry = some expiry ∧
      expiry.toNat + expiryAbsentMargin.toNat < tip.height.toNat := by
  rw [definitelyExpired]
  cases operation.expiry with
  | none => simp
  | some expiry =>
      have htip := tip.height.toNat_lt
      simp only [decide_eq_true_eq, gt_iff_lt, UInt32.lt_iff_toNat_lt, toNat_saturatingAdd32,
        Option.some.injEq, exists_eq_left']
      omega

namespace JournalStage

/-- The stages that are reconciled by txid. -/
def inBroadcastPhase : JournalStage → Bool
  | broadcasting | broadcastUnknown | broadcastAccepted => true
  | _ => false

end JournalStage

/-- Move a row, and report it. -/
def reconcileTransition (report : ReconcileReport) (row : OperationRow) (target : JournalStage)
    (err : Option String) : WalletM ReconcileReport := do
  let source ← WalletM.transition row.planId target none err
  return { report with actions := report.actions ++ [⟨row.planId, source, target⟩] }

/-- The transaction is absent. -/
def reconcileAbsent (release : ReleaseHook) (tip : CanonicalTip) (report : ReconcileReport)
    (row : OperationRow) : WalletM ReconcileReport :=
  if row.definitelyExpired tip then do
    -- through the ambiguous stage, which is the legal path
    let report ← if row.stage = .broadcasting
      then reconcileTransition report row .broadcastUnknown none
      else pure report
    let report ← reconcileTransition report row .expired (some "absent past expiry + margin")
    release row.planId
    return { report with released := report.released ++ [row.planId] }
  else if row.stage = .broadcasting then do
    let report ← reconcileTransition report row .broadcastUnknown
      (some "absent after restart; send outcome unknown")
    return { report with stillUnknown := report.stillUnknown ++ [row.planId] }
  else
    return { report with stillUnknown := report.stillUnknown ++ [row.planId] }

/-- Act on what the node says of a row's transaction. -/
def reconcileObserved (release : ReleaseHook) (tip : CanonicalTip) (report : ReconcileReport)
    (row : OperationRow) : TxStatus → WalletM ReconcileReport
  | .mined _ =>
      if row.stage ≠ .mined then reconcileTransition report row .mined none else return report
  | .inMempool =>
      if row.stage ≠ .broadcastAccepted then
        reconcileTransition report row .broadcastAccepted none
      else return report
  | .absent => reconcileAbsent release tip report row

/-- Reconcile one row. -/
def reconcileRow (release : ReleaseHook) (tip : CanonicalTip) (report : ReconcileReport)
    (row : OperationRow) : WalletM ReconcileReport :=
  if row.stage.inBroadcastPhase then
    match row.txid with
    | none => return { report with
        errors := report.errors ++ [row.planId ++ ": broadcast-phase row has no txid"] }
    | some txid => do
        match ← WalletM.txStatus txid with
        | .error e => return { report with errors := report.errors ++ [row.planId ++ ": " ++ e] }
        | .ok observed => reconcileObserved release tip report row observed
  else return report

/-- Reconcile every broadcast-phase row of the journal against the node, by txid. -/
def reconcile (release : ReleaseHook) (tip : CanonicalTip) : WalletM ReconcileReport := do
  let rows ← WalletM.nonTerminalRows
  rows.foldlM (reconcileRow release tip) ⟨[], [], [], []⟩

/-! ### What a broadcast does -/

/-- The stages that record the node's answer to a submission. -/
def JournalStage.isOutcome : JournalStage → Bool
  | broadcastUnknown | broadcastAccepted | rejected => true
  | _ => false

/-- The calls that a broadcast makes, and the worlds it makes them in. -/
def BroadcastPermits {C : Type} (c : C) (tx : VerifiedTransaction) : WalletEffect → World C → Prop
  | .canonicalTip, _ => True
  | .transition planId target txid _, w => planId = tx.planId ∧
      ((target = .broadcasting ∧ txid = some tx.txidHex) ∨
        (txid = none ∧ target.isOutcome = true ∧ ∃ past answer, w.history =
          past ++ [⟨c, .sendRawTransaction (hexEncode tx.signed.bytes), answer⟩]))
  | .sendRawTransaction txHex, w => txHex = hexEncode tx.signed.bytes ∧
      (∃ row, w.operation tx.planId = some row ∧ row.stage = .broadcasting ∧
        row.txid = some tx.txidHex) ∧
      ∃ past source, w.history = past ++
        [⟨c, .transition tx.planId .broadcasting (some tx.txidHex) none, Except.ok source⟩]
  | .release planId, w => planId = tx.planId ∧ ∃ past code message lastError source, w.history =
      past ++ [⟨c, .sendRawTransaction (hexEncode tx.signed.bytes), .rejected code message⟩,
        ⟨c, .transition tx.planId .rejected none lastError, Except.ok source⟩]
  | _, _ => False

section Broadcast

variable {C : Type} {O : Outside} {c : C} {w : World C} {tx : VerifiedTransaction}

open Prog Outside

/-- After the submission the outcome is recorded, and a rejection releases the locks. -/
theorem spec_recordOutcome {answer : TransportResult} {past : List (Happened C)}
    (hsent : w.history =
      past ++ [⟨c, .sendRawTransaction (hexEncode tx.signed.bytes), answer⟩]) :
    Spec (O.answers c) (BroadcastPermits c tx) (recordOutcome WalletM.release tx answer).run w
      fun _ _ => True := by
  have hrecord : ∀ target lastError, target.isOutcome = true →
      BroadcastPermits c tx (.transition tx.planId target none lastError) w :=
    fun target _ htarget => ⟨rfl, Or.inr ⟨rfl, htarget, past, answer, hsent⟩⟩
  cases answer with
  | accepted returned =>
      rw [recordOutcome]
      by_cases hreturned : returned = tx.txidHex
      · rw [if_neg (not_not.mpr hreturned), spec_run_bind]
        exact spec_transition (hrecord _ _ rfl) (fun _ _ _ _ _ _ => trivial)
          fun _ _ _ _ => trivial
      · rw [if_pos hreturned]
        dsimp only
        rw [spec_run_bind]
        exact spec_transition (hrecord _ _ rfl) (fun _ _ _ _ _ _ => trivial)
          fun _ _ _ _ => trivial
  | rejected code message =>
      rw [recordOutcome, spec_run_bind]
      refine spec_transition (hrecord _ _ rfl) (fun row w' _ _ _ hhist => ?_)
        fun _ _ _ _ => trivial
      dsimp only
      rw [spec_run_bind]
      refine ⟨⟨rfl, past, code, message, some (rejectedMessage code message), row.stage, ?_⟩,
        fun r _ _ => ?_⟩
      · rw [hhist, hsent, List.append_assoc]
        rfl
      · cases r <;> trivial
  | ambiguous message =>
      rw [recordOutcome, spec_run_bind]
      exact spec_transition (hrecord _ _ rfl) (fun _ _ _ _ _ _ => trivial)
        fun _ _ _ _ => trivial

/-- **The calls of a broadcast**, and the worlds it makes them in. -/
theorem broadcastVerified_permits (O : Outside) (c : C) (tx : VerifiedTransaction)
    (w : World C) :
    Spec (O.answers c) (BroadcastPermits c tx) (broadcastVerified WalletM.release tx).run w
      fun _ _ => True := by
  rw [broadcastVerified, spec_run_bind]
  refine ⟨trivial, fun r w' _ => ?_⟩
  cases r with
  | error _ => trivial
  | ok current =>
      change Spec _ _ (ite _ _ _ : WalletM BroadcastOutcome).run w' _
      by_cases hcurrent : current = tx.verifiedTip
      · rw [if_neg (not_not.mpr hcurrent), spec_run_bind]
        refine spec_transition ⟨rfl, Or.inl ⟨rfl, rfl⟩⟩ (fun row w'' hrow _ hs hhist => ?_)
          fun _ _ _ _ => trivial
        dsimp only
        rw [spec_run_bind, WalletM.sendRawTransaction, spec_run_lift, spec_call]
        refine ⟨⟨rfl, ⟨row.moved .broadcasting (some tx.txidHex) none, ?_, rfl, rfl⟩, w'.history,
          row.stage, hhist⟩, fun answer w''' h => spec_recordOutcome h.2⟩
        rw [World.operation_write hs, if_pos rfl, World.operation, hrow, Option.map_some]
      · rw [if_pos hcurrent]
        trivial

end Broadcast

/-! ### What reconciliation does -/

/-- The moves of a row in a reconciliation pass. -/
inductive ReconcileMove (tip : CanonicalTip) (reported : String → TxStatus → Prop)
    (row : OperationRow) : JournalStage → Prop
  | mined {txid : String} {height : BlockHeight} (htxid : row.txid = some txid)
      (h : reported txid (.mined height)) (hs : row.stage.inBroadcastPhase = true) :
      ReconcileMove tip reported row .mined
  | inMempool {txid : String} (htxid : row.txid = some txid) (h : reported txid .inMempool)
      (hs : row.stage.inBroadcastPhase = true) (hnot : row.stage ≠ .broadcastAccepted) :
      ReconcileMove tip reported row .broadcastAccepted
  | absent {txid : String} (htxid : row.txid = some txid) (h : reported txid .absent)
      (hs : row.stage = .broadcasting) : ReconcileMove tip reported row .broadcastUnknown
  | expired {txid : String} (htxid : row.txid = some txid) (h : reported txid .absent)
      (hs : row.stage.inBroadcastPhase = true) (hnot : row.stage ≠ .broadcasting)
      (hexpired : row.definitelyExpired tip = true) : ReconcileMove tip reported row .expired

/-- **Every move of a reconciliation pass is legal.** -/
theorem ReconcileMove.canTransition {tip : CanonicalTip} {reported : String → TxStatus → Prop}
    {row : OperationRow} {target : JournalStage} (h : ReconcileMove tip reported row target) :
    row.stage.canTransition target = true := by
  cases h with
  | mined _ _ hs =>
      revert hs
      cases row.stage <;> decide
  | inMempool _ _ hs hnot =>
      revert hs hnot
      cases row.stage <;> decide
  | absent _ _ hs => rw [hs]; decide
  | expired _ _ hs hnot _ =>
      revert hs hnot
      cases row.stage <;> decide

variable {C : Type}

/-- The calls that a reconciliation pass makes, and the worlds it makes them in. -/
def ReconcilePermits (O : Outside) (c : C) (tip : CanonicalTip) : WalletEffect → World C → Prop
  | .transition planId target txid _, w => txid = none ∧ ∃ row, w.operation planId = some row ∧
      ReconcileMove tip (fun txid status => O.txStatus txid (.ok status) ∧
        w.Reported c txid status) row target
  | .release planId, w => ∃ row, w.operation planId = some row ∧ row.stage = .expired ∧
      row.definitelyExpired tip = true ∧
      (∃ txid, row.txid = some txid ∧ O.txStatus txid (.ok .absent) ∧
        w.Reported c txid .absent) ∧
      ∃ past lastError source, source.inBroadcastPhase = true ∧ w.history = past ++
        [⟨c, .transition planId .expired none lastError, Except.ok source⟩]
  | .nonTerminalRows, _ | .txStatus _, _ => True
  | _, _ => False

section Reconcile

variable {O : Outside} {c : C} {tip : CanonicalTip} {w : World C} {report : ReconcileReport}
  {row : OperationRow}

open Prog Outside

/-- The rows of the other plans are as they were. -/
def World.Frame (w : World C) (planId : String) (w' : World C) : Prop :=
  ∀ q, q ≠ planId → w'.operation q = w.operation q

/-- Where nothing is written the frame is kept. -/
theorem World.frame_of_state_eq {w w' : World C} (planId : String) (h : w'.state = w.state) :
    w.Frame planId w' := fun q _ => operation_congr h q

/-- A write to the row of a plan keeps the frame. -/
theorem World.frame_of_write {w w' : World C} {planId : String} {target : JournalStage}
    {txid lastError : Option String} (h : w'.state =
      { w.state with journal := w.state.journal.write planId target txid lastError }) :
    w.Frame planId w' := fun q hq => by rw [operation_write h, if_neg hq]

/-- Two steps that keep the frame keep it. -/
theorem World.Frame.trans {w w' w'' : World C} {planId : String} (h : w.Frame planId w')
    (h' : w'.Frame planId w'') : w.Frame planId w'' := fun q hq => (h' q hq).trans (h q hq)

/-- The rule for a move of a row. -/
theorem spec_reconcileTransition {cur : OperationRow} {target : JournalStage}
    {err : Option String} {Q : Except String ReconcileReport → World C → Prop}
    (hrow : w.operation row.planId = some cur)
    (hmove : ReconcileMove tip (fun txid status => O.txStatus txid (.ok status) ∧
      w.Reported c txid status) cur target)
    (hmoved : ∀ report' w', w.Frame row.planId w' →
      w'.operation row.planId = some (cur.moved target none err) →
      w'.history = w.history ++
        [⟨c, .transition row.planId target none err, Except.ok cur.stage⟩] →
      Q (.ok report') w')
    (hfailed : ∀ e w', w.Frame row.planId w' → Q (.error e) w') :
    Spec (O.answers c) (ReconcilePermits O c tip)
      (reconcileTransition report row target err).run w Q := by
  rw [reconcileTransition, spec_run_bind]
  refine spec_transition ⟨rfl, cur, hrow, hmove⟩ (fun cur' w' hcur _ hs hhist => ?_)
    fun e w' hs _ => hfailed e w' (World.frame_of_state_eq _ hs)
  obtain rfl : cur = cur' := Option.some.inj (hrow.symm.trans hcur)
  refine hmoved _ w' (World.frame_of_write hs) ?_ hhist
  rw [World.operation_write hs, if_pos rfl, hrow, Option.map_some]

/-- The end of the absent branch: the row expires, and its locks are released. -/
theorem spec_expire {cur : OperationRow} {txid : String}
    (hrow : w.operation row.planId = some cur) (htxid : cur.txid = some txid)
    (hstatus : O.txStatus txid (.ok .absent)) (hreported : w.Reported c txid .absent)
    (hs : cur.stage.inBroadcastPhase = true) (hnot : cur.stage ≠ .broadcasting)
    (hexpired : cur.definitelyExpired tip = true) :
    Spec (O.answers c) (ReconcilePermits O c tip)
      (do
        let report ← reconcileTransition report row .expired (some "absent past expiry + margin")
        WalletM.release row.planId
        return { report with released := report.released ++ [row.planId] } :
          WalletM ReconcileReport).run w fun _ w' => w.Frame row.planId w' := by
  rw [spec_run_bind]
  refine spec_reconcileTransition hrow (.expired htxid ⟨hstatus, hreported⟩ hs hnot hexpired)
    (fun report' w' hframe hrow' hhist => ?_) fun e w' hframe => hframe
  dsimp only
  rw [spec_run_bind]
  refine ⟨⟨_, hrow', rfl, hexpired, ⟨txid, htxid, hstatus, hreported.mono hhist⟩,
    w.history, _, cur.stage, hs, hhist⟩, fun r w'' h => ?_⟩
  have hframe' : w.Frame row.planId w'' := fun q hq => by
    rw [World.operation, h.1.1]
    exact hframe q hq
  cases r with
  | ok _ => exact hframe'
  | error e => exact hframe'

/-- A transaction that is nowhere changes its own row only. -/
theorem spec_reconcileAbsent {txid : String} (hrow : w.operation row.planId = some row)
    (htxid : row.txid = some txid) (hstatus : O.txStatus txid (.ok .absent))
    (hreported : w.Reported c txid .absent) (hs : row.stage.inBroadcastPhase = true) :
    Spec (O.answers c) (ReconcilePermits O c tip)
      (reconcileAbsent WalletM.release tip report row).run w fun _ w' =>
        w.Frame row.planId w' := by
  rw [reconcileAbsent]
  by_cases hexpired : row.definitelyExpired tip = true
  · rw [if_pos hexpired]
    by_cases hbroadcasting : row.stage = .broadcasting
    · rw [if_pos hbroadcasting, spec_run_bind]
      refine spec_reconcileTransition hrow (.absent htxid ⟨hstatus, hreported⟩ hbroadcasting)
        (fun report' w' hframe hrow' hhist => ?_) fun e w' hframe => hframe
      refine (spec_expire hrow' htxid hstatus (hreported.mono hhist) rfl
        (show JournalStage.broadcastUnknown ≠ .broadcasting by decide)
        hexpired).mono fun r w'' hframe' => hframe.trans hframe'
    · rw [if_neg hbroadcasting]
      exact spec_expire hrow htxid hstatus hreported hs hbroadcasting hexpired
  · rw [if_neg hexpired]
    by_cases hbroadcasting : row.stage = .broadcasting
    · rw [if_pos hbroadcasting, spec_run_bind]
      exact spec_reconcileTransition hrow (.absent htxid ⟨hstatus, hreported⟩ hbroadcasting)
        (fun report' w' hframe _ _ => hframe) fun e w' hframe => hframe
    · rw [if_neg hbroadcasting]
      exact World.frame_of_state_eq _ rfl

/-- The step of the pass: one row, which is as it was read. -/
theorem spec_reconcileRow (hrow : w.operation row.planId = some row) :
    Spec (O.answers c) (ReconcilePermits O c tip)
      (reconcileRow WalletM.release tip report row).run w fun _ w' =>
        w.Frame row.planId w' := by
  rw [reconcileRow]
  by_cases hs : row.stage.inBroadcastPhase = true
  · rw [if_pos hs]
    cases htxid : row.txid with
    | none => exact World.frame_of_state_eq _ rfl
    | some txid =>
        dsimp only
        rw [spec_run_bind, WalletM.txStatus, spec_run_lift, spec_call]
        refine ⟨trivial, fun r w' h => ?_⟩
        obtain ⟨⟨hstate, hstatus⟩, hhist⟩ := h
        have hframe : w.Frame row.planId w' := World.frame_of_state_eq _ hstate
        cases r with
        | error e => exact hframe
        | ok observed =>
            have hrow' : w'.operation row.planId = some row :=
              (World.operation_congr hstate _).trans hrow
            have hreported : w'.Reported c txid observed := by
              rw [World.Reported, hhist]
              exact List.mem_append_right _ (List.mem_singleton_self _)
            have htrans : ∀ (_ : Except String ReconcileReport) (w'' : World C),
                w'.Frame row.planId w'' → w.Frame row.planId w'' :=
              fun _ _ hframe' => hframe.trans hframe'
            change Spec _ _ (reconcileObserved _ tip report row observed).run w' _
            refine Spec.mono ?_ htrans
            cases observed with
            | mined height =>
                rw [reconcileObserved, if_pos (by revert hs; cases row.stage <;> decide)]
                exact spec_reconcileTransition hrow' (.mined htxid ⟨hstatus, hreported⟩ hs)
                  (fun _ _ hframe' _ _ => hframe') fun _ _ hframe' => hframe'
            | inMempool =>
                rw [reconcileObserved]
                by_cases haccepted : row.stage = .broadcastAccepted
                · rw [if_neg (not_not.mpr haccepted)]
                  exact World.frame_of_state_eq _ rfl
                · rw [if_pos haccepted]
                  exact spec_reconcileTransition hrow'
                    (.inMempool htxid ⟨hstatus, hreported⟩ hs haccepted)
                    (fun _ _ hframe' _ _ => hframe') fun _ _ hframe' => hframe'
            | absent => exact spec_reconcileAbsent hrow' htxid hstatus hreported hs
  · rw [if_neg hs]
    exact World.frame_of_state_eq _ rfl

/-- The rows still to come are as they were read. -/
def World.Holds (w : World C) (rows : List OperationRow) : Prop :=
  (rows.map fun row => row.planId).Nodup ∧ ∀ row ∈ rows, w.operation row.planId = some row

/-- The rows that were listed are there. -/
theorem World.Holds.of_nonTerminalRows {w w' : World C} {rows : List OperationRow}
    (h : w.state.journal.NonTerminalRows rows) (hs : w'.state = w.state) : w'.Holds rows :=
  ⟨h.nodup, fun _ hrow => (operation_congr hs _).trans (h.mem_iff.mp hrow).1⟩

/-- The others still are after one was treated. -/
theorem World.Holds.tail {w w' : World C} {rows : List OperationRow}
    (h : w.Holds (row :: rows)) (hframe : w.Frame row.planId w') : w'.Holds rows := by
  obtain ⟨hnotin, hnodup⟩ := List.nodup_cons.mp h.1
  refine ⟨hnodup, fun row' hrow' => ?_⟩
  have hne : row'.planId ≠ row.planId := fun heq => hnotin (by
    rw [List.mem_map]
    exact ⟨row', hrow', heq⟩)
  rw [hframe _ hne]
  exact h.2 row' (List.mem_cons_of_mem _ hrow')

/-- **The calls of a reconciliation pass**, and the worlds it makes them in. -/
theorem reconcile_permits (O : Outside) (c : C) (tip : CanonicalTip) (w : World C) :
    Spec (O.answers c) (ReconcilePermits O c tip) (reconcile WalletM.release tip).run w
      fun _ _ => True := by
  rw [reconcile, spec_run_bind]
  refine ⟨trivial, fun r w' h => ?_⟩
  obtain ⟨⟨-, -, e, rfl⟩ | ⟨hs, rows, hrows, rfl⟩, -⟩ := h
  · trivial
  · refine spec_run_foldlM (fun rows _ w => w.Holds rows) (fun row rows report w hholds => ?_)
      (fun _ _ _ => trivial) (.of_nonTerminalRows hrows hs)
    refine (spec_reconcileRow (hholds.2 row List.mem_cons_self)).mono fun r w' hframe => ?_
    cases r with
    | ok _ => exact hholds.tail hframe
    | error _ => trivial

end Reconcile

end Zalkanes
