import Zalkanes.Wallet.Broadcast

/-!
# Startup Recovery

After a restart every row of the journal that is not terminal is reconciled with the note locks
that are held, and then with the chain. As in reconciliation, what recovery does is described by
saying of every call in which world it is made (`startupRecover_permits`).

## Main results

* `RecoverMove.canTransition`: every move of a row is legal.
* `startupRecover_permits`: the locks of a plan are released right after its row was cancelled at
  a stage before `Signing`, or as in reconciliation.
-/

namespace Zalkanes

open Lib

/-- What startup recovery did and what it refused to touch. -/
structure RecoveryReport where
  transitions : List (String × JournalStage × JournalStage)
  released : List String
  /-- Plans that were cancelled while their locks stay held. -/
  preserved : List String
  orphanLocks : List LockedOutput
  anomalies : List String
  deriving DecidableEq

/-- The locks of an owner. -/
def locksOf (locks : List LockedOutput) (ownerHex : String) : List LockedOutput :=
  locks.filter fun l => l.ownerHex = ownerHex

/-- The recorded inputs of an operation: `split(',')`, without empty texts. -/
def Operation.recordedInputs (operation : Operation) : List String :=
  ((operation.selectedInputs.toList.splitOn ',').map String.ofList).filter fun input => input ≠ ""

/-- Whether the locks are those of the recorded inputs. -/
def inputsMatch (operation : Operation) (held : List LockedOutput) : Bool :=
  operation.recordedInputs.mergeSort (fun a b => a ≤ b) =
    (held.map LockedOutput.outputRef).mergeSort (fun a b => a ≤ b)

namespace Operation

/-- The locks held for an operation. -/
def held (operation : Operation) (locks : List LockedOutput) : List LockedOutput :=
  if operation.lockOwner = "" then [] else locksOf locks operation.lockOwner

/-- The tip is beyond the expiry. -/
def expired (operation : Operation) (tip : CanonicalTip) : Bool :=
  match operation.expiry with
  | some e => tip.height > e
  | none => false

/-- Whether the recorded lock owner is the one of the plan, where it must be. -/
def Canonical (H : Hashing) (operation : Operation) : Prop :=
  operation.fundingMode = "shielded" → operation.lockOwner = lockOwnerHex H operation.planId

end Operation

/-- Move a row, and report it. -/
def recoverTransition (report : RecoveryReport) (row : OperationRow) (target : JournalStage)
    (err : Option String) : WalletM RecoveryReport := do
  let source ← WalletM.transition row.planId target none err
  return { report with transitions := report.transitions ++ [(row.planId, source, target)] }

/-- Says something of a row. -/
def anomaly (report : RecoveryReport) (row : OperationRow) (message : String) :
    WalletM RecoveryReport :=
  return { report with anomalies := report.anomalies ++ [row.planId ++ ": " ++ message] }

/-- Release a plan's locks, and report it. -/
def recoverRelease (release : ReleaseHook) (report : RecoveryReport) (row : OperationRow) :
    WalletM RecoveryReport := do
  release row.planId
  return { report with released := report.released ++ [row.planId] }

section Rows

variable (release : ReleaseHook) (locks : List LockedOutput) (tip : CanonicalTip)
  (report : RecoveryReport) (row : OperationRow)

/-- A row that was planned when the process stopped. -/
def recoverPlanned : WalletM RecoveryReport :=
  if row.held locks = [] then
    recoverTransition report row .cancelled (some "restart: planned, never reserved")
  else if inputsMatch row.toOperation (row.held locks) then
    -- the lock store moved, but the journal missed it
    recoverTransition report row .reserved none
  else anomaly report row "planned, but held locks do not match recorded inputs; not touched"

/-- A row that was reserved when the process stopped. -/
def recoverReserved : WalletM RecoveryReport :=
  if row.held locks = [] then
    if row.expired tip then
      recoverTransition report row .expired
        (some "restart: reservation no longer held and plan expired")
    else anomaly report row "reserved, but no locks held and not expired; not touched"
  else if inputsMatch row.toOperation (row.held locks) then do
    let report ← recoverTransition report row .cancelled
      (some "restart: reservation held, authorization not persisted")
    recoverRelease release report row
  else anomaly report row "reserved, but held locks do not match recorded inputs; not touched"

/-- A row at `Proving` or `Proven`. -/
def recoverUnsigned : WalletM RecoveryReport := do
  let report ← recoverTransition report row .cancelled
    (some "restart: pre-signing stage lost with process memory")
  if row.held locks = [] then return report
  else recoverRelease release report row

/-- A row from `Signing` to `Verified`. -/
def recoverSigned : WalletM RecoveryReport := do
  let report ← recoverTransition report row .cancelled
    (some "restart: signing reached; locks preserved until expiry")
  if row.held locks = [] then return report
  else return { report with preserved := report.preserved ++ [row.planId] }

/-- Recover one row. -/
def recoverRow (H : Hashing) : WalletM RecoveryReport :=
  if row.fundingMode = "shielded" ∧ row.lockOwner ≠ lockOwnerHex H row.planId then
    anomaly report row "journal lock_owner does not match canonical derivation; not touched"
  else
    match row.stage with
    | .planned => recoverPlanned locks report row
    | .reserved => recoverReserved release locks tip report row
    | .proving | .proven => recoverUnsigned release locks report row
    | .signing | .signed | .extracted | .verified => recoverSigned locks report row
    | _ => return report

end Rows

/-- The owners that the rows know. -/
def knownOwners (rows : List OperationRow) : List String :=
  (rows.map fun row => row.lockOwner).filter fun owner => owner ≠ ""

/-- Reconcile every non-terminal journal row against the lock store, the node and the tip. -/
def startupRecover (release : ReleaseHook) (H : Hashing) (tip : CanonicalTip) :
    WalletM RecoveryReport := do
  let allLocks ← WalletM.lockedOutputs
  let rows ← WalletM.nonTerminalRows
  let report ← rows.foldlM (fun report row => recoverRow release allLocks tip report row H)
    ⟨[], [], [], [], []⟩
  let broadcast ← reconcile release tip
  return { report with
    transitions := report.transitions ++
      broadcast.actions.map fun action => (action.planId, action.source, action.target)
    released := report.released ++ broadcast.released
    anomalies := report.anomalies ++ broadcast.errors
    orphanLocks := allLocks.filter fun l => l.ownerHex ∉ knownOwners rows }

/-! ### What recovery does -/

namespace JournalStage

/-- The stages at which a plan's proofs are under way, or done, and nothing is signed. -/
def isProof : JournalStage → Bool
  | proving | proven => true
  | _ => false

/-- The stages at which a signed transaction may exist, and is not sent. -/
def isSigned : JournalStage → Bool
  | signing | signed | extracted | verified => true
  | _ => false

end JournalStage

/-- The moves of a row in startup recovery, under a view of the locks. -/
inductive RecoverMove (H : Hashing) (locks : List LockedOutput) (tip : CanonicalTip)
    (row : OperationRow) : JournalStage → Prop
  | neverReserved (hrow : row.Canonical H) (hs : row.stage = .planned)
      (hheld : row.held locks = []) : RecoverMove H locks tip row .cancelled
  | catchUp (hrow : row.Canonical H) (hs : row.stage = .planned) (hheld : row.held locks ≠ [])
      (hmatch : inputsMatch row.toOperation (row.held locks) = true) :
      RecoverMove H locks tip row .reserved
  | lapsed (hrow : row.Canonical H) (hs : row.stage = .reserved) (hheld : row.held locks = [])
      (hexpired : row.expired tip = true) : RecoverMove H locks tip row .expired
  | abandoned (hrow : row.Canonical H) (hs : row.stage = .reserved) (hheld : row.held locks ≠ [])
      (hmatch : inputsMatch row.toOperation (row.held locks) = true) :
      RecoverMove H locks tip row .cancelled
  | unsigned (hrow : row.Canonical H) (hs : row.stage.isProof = true) :
      RecoverMove H locks tip row .cancelled
  | signed (hrow : row.Canonical H) (hs : row.stage.isSigned = true) :
      RecoverMove H locks tip row .cancelled

/-- **Every move of startup recovery is legal.** -/
theorem RecoverMove.canTransition {H : Hashing} {locks : List LockedOutput} {tip : CanonicalTip}
    {row : OperationRow} {target : JournalStage} (h : RecoverMove H locks tip row target) :
    row.stage.canTransition target = true := by
  cases h with
  | neverReserved _ hs => rw [hs]; decide
  | catchUp _ hs => rw [hs]; decide
  | lapsed _ hs => rw [hs]; decide
  | abandoned _ hs => rw [hs]; decide
  | unsigned _ hs =>
      revert hs
      cases row.stage <;> decide
  | signed _ hs =>
      revert hs
      cases row.stage <;> decide

/-- The rows whose locks startup recovery releases, under a view of the locks. -/
def OperationRow.Releasable (H : Hashing) (locks : List LockedOutput) (row : OperationRow) : Prop :=
  row.Canonical H ∧ row.held locks ≠ [] ∧
    (row.stage = .reserved ∧ inputsMatch row.toOperation (row.held locks) = true ∨
      row.stage.isProof = true)

variable {C : Type}

/-- The calls that startup recovery makes before it reconciles, and the worlds it makes them in. A
row is moved once, from where recovery found it. -/
def RecoverPermits (O : Outside) (c : C) (tip : CanonicalTip) (start : World C) :
    WalletEffect → World C → Prop
  | .transition planId target txid _, w => txid = none ∧ ∃ row locks,
      start.operation planId = some row ∧ w.operation planId = some row ∧
      O.lockView start.state locks ∧ RecoverMove O.hashing locks tip row target
  | .release planId, w =>
      (∃ row locks, start.operation planId = some row ∧ O.lockView start.state locks ∧
        row.Releasable O.hashing locks) ∧
      (∃ row, w.operation planId = some row ∧ row.stage = .cancelled) ∧
      ∃ past lastError source, source.beforeSigning = true ∧ w.history = past ++
        [⟨c, .transition planId .cancelled none lastError, Except.ok source⟩]
  | .lockedOutputs, _ | .nonTerminalRows, _ => True
  | _, _ => False

section Recover

variable {O : Outside} {c : C} {tip : CanonicalTip} {start w : World C} {report : RecoveryReport}
  {row : OperationRow} {locks : List LockedOutput}

open Prog Outside

/-- The rule for a move of a row. -/
theorem spec_recoverTransition {target : JournalStage} {err : Option String}
    {Q : Except String RecoveryReport → World C → Prop}
    (hstart : start.operation row.planId = some row) (hrow : w.operation row.planId = some row)
    (hview : O.lockView start.state locks)
    (hmove : RecoverMove O.hashing locks tip row target)
    (hmoved : ∀ report' w', w.Frame row.planId w' →
      w'.operation row.planId = some (row.moved target none err) →
      w'.history = w.history ++
        [⟨c, .transition row.planId target none err, Except.ok row.stage⟩] →
      Q (.ok report') w')
    (hfailed : ∀ e w', w.Frame row.planId w' → Q (.error e) w') :
    Spec (O.answers c) (RecoverPermits O c tip start)
      (recoverTransition report row target err).run w Q := by
  rw [recoverTransition, spec_run_bind]
  refine spec_transition ⟨rfl, row, locks, hstart, hrow, hview, hmove⟩
    (fun row' w' hrow' _ hs hhist => ?_)
    fun e w' hs _ => hfailed e w' (World.frame_of_state_eq _ hs)
  obtain rfl : row = row' := Option.some.inj (hrow.symm.trans hrow')
  refine hmoved _ w' (World.frame_of_write hs) ?_ hhist
  rw [World.operation_write hs, if_pos rfl, hrow, Option.map_some]

/-- A cancelled row's locks are released. -/
theorem spec_recoverRelease {err : Option String}
    (hstart : start.operation row.planId = some row) (hview : O.lockView start.state locks)
    (hreleasable : row.Releasable O.hashing locks)
    (hrow : w.operation row.planId = some (row.moved .cancelled none err))
    {past : List (Happened C)} (hhist : w.history = past ++
      [⟨c, .transition row.planId .cancelled none err, Except.ok row.stage⟩]) :
    Spec (O.answers c) (RecoverPermits O c tip start)
      (recoverRelease WalletM.release report row).run w fun _ w' => w.Frame row.planId w' := by
  rw [recoverRelease, spec_run_bind]
  have hbefore : row.stage.beforeSigning = true := by
    obtain ⟨-, -, ⟨hs, -⟩ | hs⟩ := hreleasable
    · rw [hs]
      rfl
    · revert hs
      cases row.stage <;> decide
  refine ⟨⟨⟨row, locks, hstart, hview, hreleasable⟩, ⟨_, hrow, rfl⟩, past, err, row.stage,
    hbefore, hhist⟩, fun r w' h => ?_⟩
  have hframe : w.Frame row.planId w' := fun q _ => by rw [World.operation, h.1.1, World.operation]
  cases r with
  | ok _ => exact hframe
  | error _ => exact hframe

/-- The step of the pass: one row, which is as it was read. -/
theorem spec_recoverRow (hstart : start.operation row.planId = some row)
    (hrow : w.operation row.planId = some row) (hview : O.lockView start.state locks) :
    Spec (O.answers c) (RecoverPermits O c tip start)
      (recoverRow WalletM.release locks tip report row O.hashing).run w fun _ w' =>
        w.Frame row.planId w' := by
  have hkeep : w.Frame row.planId w := World.frame_of_state_eq _ rfl
  rw [recoverRow]
  by_cases howner : row.fundingMode = "shielded" ∧ row.lockOwner ≠ lockOwnerHex O.hashing row.planId
  · rw [if_pos howner]
    exact hkeep
  · rw [if_neg howner]
    have hcanonical : row.Canonical O.hashing := fun hmode =>
      not_not.mp fun hne => howner ⟨hmode, hne⟩
    cases hs : row.stage with
    | planned =>
        change Spec _ _ (recoverPlanned locks report row).run w _
        rw [recoverPlanned]
        by_cases hheld : row.held locks = []
        · rw [if_pos hheld]
          exact spec_recoverTransition hstart hrow hview (.neverReserved hcanonical hs hheld)
            (fun _ _ hframe _ _ => hframe) fun _ _ hframe => hframe
        · rw [if_neg hheld]
          by_cases hmatch : inputsMatch row.toOperation (row.held locks) = true
          · rw [if_pos hmatch]
            exact spec_recoverTransition hstart hrow hview (.catchUp hcanonical hs hheld hmatch)
              (fun _ _ hframe _ _ => hframe) fun _ _ hframe => hframe
          · rw [if_neg hmatch]
            exact hkeep
    | reserved =>
        change Spec _ _ (recoverReserved _ locks tip report row).run w _
        rw [recoverReserved]
        by_cases hheld : row.held locks = []
        · rw [if_pos hheld]
          by_cases hexpired : row.expired tip = true
          · rw [if_pos hexpired]
            exact spec_recoverTransition hstart hrow hview (.lapsed hcanonical hs hheld hexpired)
              (fun _ _ hframe _ _ => hframe) fun _ _ hframe => hframe
          · rw [if_neg hexpired]
            exact hkeep
        · rw [if_neg hheld]
          by_cases hmatch : inputsMatch row.toOperation (row.held locks) = true
          · rw [if_pos hmatch, spec_run_bind]
            exact spec_recoverTransition hstart hrow hview (.abandoned hcanonical hs hheld hmatch)
              (fun _ w' hframe hrow' hhist =>
                (spec_recoverRelease hstart hview ⟨hcanonical, hheld, Or.inl ⟨hs, hmatch⟩⟩ hrow'
                  hhist).mono fun _ _ hframe' => hframe.trans hframe')
              fun _ _ hframe => hframe
          · rw [if_neg hmatch]
            exact hkeep
    | proving | proven =>
        change Spec _ _ (recoverUnsigned _ locks report row).run w _
        have hproof : row.stage.isProof = true := by
          rw [hs]
          rfl
        rw [recoverUnsigned, spec_run_bind]
        refine spec_recoverTransition hstart hrow hview (.unsigned hcanonical hproof)
          (fun report' w' hframe hrow' hhist => ?_) fun _ _ hframe => hframe
        change Spec _ _ (ite _ _ _ : WalletM RecoveryReport).run w' _
        by_cases hheld : row.held locks = []
        · rw [if_pos hheld]
          exact hframe
        · rw [if_neg hheld]
          exact (spec_recoverRelease hstart hview ⟨hcanonical, hheld, Or.inr hproof⟩ hrow'
            hhist).mono fun _ _ hframe' => hframe.trans hframe'
    | signing | signed | extracted | verified =>
        change Spec _ _ (recoverSigned locks report row).run w _
        rw [recoverSigned, spec_run_bind]
        refine spec_recoverTransition hstart hrow hview (.signed hcanonical (by rw [hs]; rfl))
          (fun report' w' hframe _ _ => ?_) fun _ _ hframe => hframe
        change Spec _ _ (ite _ _ _ : WalletM RecoveryReport).run w' _
        by_cases hheld : row.held locks = []
        · rw [if_pos hheld]
          exact hframe
        · rw [if_neg hheld]
          exact hframe
    | _ => exact hkeep

/-- **The calls of startup recovery**, and the worlds it makes them in. -/
theorem startupRecover_permits (O : Outside) (c : C) (tip : CanonicalTip) (start : World C) :
    Spec (O.answers c)
      (fun e w => RecoverPermits O c tip start e w ∨ ReconcilePermits O c tip e w)
      (startupRecover WalletM.release O.hashing tip).run start fun _ _ => True := by
  rw [startupRecover, spec_run_bind]
  refine ⟨Or.inl trivial, fun r w h => ?_⟩
  obtain ⟨⟨-, -, e, rfl⟩ | ⟨hs, locks, hview, rfl⟩, -⟩ := h
  · trivial
  simp only [spec_done]
  rw [spec_run_bind]
  refine ⟨Or.inl trivial, fun r w' h => ?_⟩
  obtain ⟨⟨-, -, e, rfl⟩ | ⟨hs', rows, hrows, rfl⟩, -⟩ := h
  · trivial
  simp only [spec_done]
  rw [spec_run_bind]
  have hstate : w'.state = start.state := hs'.trans hs
  refine Spec.weaken (fun _ _ _ _ h => h) (fun _ _ h => Or.inl h) (spec_run_foldlM
    (fun rows _ w => w.Holds rows ∧ ∀ row ∈ rows, start.operation row.planId = some row)
    (fun row rows report w hholds => ?_) (fun report w _ => ?_)
    ⟨.of_nonTerminalRows hrows hs', fun row hrow => ?_⟩)
  · refine (spec_recoverRow (hholds.2 row List.mem_cons_self) (hholds.1.2 row List.mem_cons_self)
      hview).mono fun r w' hframe => ?_
    cases r with
    | ok _ =>
        exact ⟨hholds.1.tail hframe, fun row hrow => hholds.2 row (List.mem_cons_of_mem _ hrow)⟩
    | error _ => trivial
  · dsimp only
    rw [spec_run_bind]
    refine ((reconcile_permits O c tip w).weaken (fun _ _ _ _ h => h) fun _ _ h => Or.inr h).mono
      fun r w' _ => ?_
    cases r <;> trivial
  · rw [← World.operation_congr hs]
    exact (hrows.mem_iff.mp hrow).1

end Recover

end Zalkanes
