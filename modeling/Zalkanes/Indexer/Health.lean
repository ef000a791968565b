import Zalkanes.Indexer.Converge

/-!
# The Health of the Indexing Loop

`run` starts a tick whenever its interval fires and records how the tick ended: in the status that
readiness is derived from, or by returning when the local database failed. Time passes, the node
replaces its chain and the stop flag changes at any moment in between.

The records that the loop makes are kept in a history variable, so that the status can be compared
with what happened.

## Main results

* `IndexerStatus.assess_eq_dead`, `IndexerStatus.exists_assess_eq_healthy`,
  `IndexerStatus.assess_eq_starting`, `IndexerStatus.assess_eq_stalled`: what the liveness says
  about the status.
* `resume_reports`: what a tick returns is what it found and what it left.
-/

namespace Zalkanes

open Lib

/-! ### The status -/

/-- The loop's liveness bookkeeping. Moments are counted in nanoseconds. -/
structure IndexerStatus where
  startedAt : ℕ
  /-- Last tick that completed without an upstream failure. -/
  lastTickOk : Option ℕ
  /-- Last time the indexer advanced, or confirmed it is at the chain tip. -/
  lastProgress : Option ℕ
  indexedHeight : Option BlockHeight
  tipHeight : Option BlockHeight
  consecutiveFailures : UInt32
  totalFailures : UInt64
  lastError : Option String
  /-- Set once and never cleared. -/
  dead : Option String
  deriving DecidableEq

/-- What is said of the loop. -/
inductive Liveness where
  | starting
  | healthy (caughtUp : Bool)
  | stalled (since : ℕ) (lastError : Option String)
  | dead (reason : String)
  deriving DecidableEq

namespace IndexerStatus

/-- The loop starts. -/
def newAt (startedAt : ℕ) : IndexerStatus where
  startedAt := startedAt
  lastTickOk := none
  lastProgress := none
  indexedHeight := none
  tipHeight := none
  consecutiveFailures := 0
  totalFailures := 0
  lastError := none
  dead := none

/-- A tick has succeeded. -/
def recordTickOk (s : IndexerStatus) (indexed : Option BlockHeight) (tip : BlockHeight)
    (advanced : Bool) (now : ℕ) : IndexerStatus :=
  { s with
    lastTickOk := some now
    lastProgress := if advanced then some now else s.lastProgress
    indexedHeight := indexed
    tipHeight := some tip
    consecutiveFailures := 0 }

/-- A tick has failed; the counters saturate. -/
def recordFailure (s : IndexerStatus) (err : String) (indexed : Option BlockHeight) :
    IndexerStatus :=
  { s with
    consecutiveFailures := UInt32.ofNat (min (s.consecutiveFailures.toNat + 1) (2 ^ 32 - 1))
    totalFailures := UInt64.ofNat (min (s.totalFailures.toNat + 1) (2 ^ 64 - 1))
    lastError := some err
    indexedHeight := indexed }

/-- The loop has returned an error. -/
def markDead (s : IndexerStatus) (reason : String) : IndexerStatus :=
  { s with dead := some reason, lastError := some reason }

/-- Derive readiness. Times are subtracted as `saturating_duration_since` does. -/
def assess (s : IndexerStatus) (now : ℕ) (staleAfter : ℕ) : Liveness :=
  match s.dead with
  | some reason => .dead reason
  | none =>
      match s.lastProgress with
      | some t =>
          if now - t ≤ staleAfter then
            .healthy <| match s.indexedHeight, s.tipHeight with
              | some i, some t => decide (i ≥ t)
              | _, _ => false
          else .stalled (now - t) s.lastError
      | none =>
          if now - s.startedAt ≤ staleAfter then .starting
          else .stalled (now - s.startedAt) s.lastError

section Assess

variable {s : IndexerStatus} {now : ℕ} {staleAfter : ℕ}

/-- A dead loop is dead, however recently it made progress. -/
theorem assess_eq_dead {reason : String} :
    s.assess now staleAfter = .dead reason ↔ s.dead = some reason := by
  unfold assess
  cases hdead : s.dead with
  | some reason' => simp
  | none =>
      cases s.lastProgress <;> dsimp only <;> split_ifs <;> simp

/-- It is healthy if it is not dead and progress is recent. -/
theorem exists_assess_eq_healthy :
    (∃ caughtUp, s.assess now staleAfter = .healthy caughtUp) ↔
      s.dead = none ∧ ∃ t, s.lastProgress = some t ∧ now ≤ t + staleAfter := by
  unfold assess
  cases hdead : s.dead with
  | some reason' => simp
  | none =>
      cases hprogress : s.lastProgress with
      | none =>
          dsimp only
          split_ifs <;> simp
      | some t =>
          dsimp only
          split_ifs with hle
          · exact ⟨fun _ => ⟨rfl, t, rfl, by omega⟩, fun _ => ⟨_, rfl⟩⟩
          · simp
            omega

/-- It is starting if the start is recent and there is no progress yet. -/
theorem assess_eq_starting :
    s.assess now staleAfter = .starting ↔
      s.dead = none ∧ s.lastProgress = none ∧ now ≤ s.startedAt + staleAfter := by
  unfold assess
  cases hdead : s.dead with
  | some reason' => simp
  | none =>
      cases hprogress : s.lastProgress with
      | none =>
          dsimp only
          split_ifs with hle
          · simp
            omega
          · simp
            omega
      | some t =>
          dsimp only
          split_ifs <;> simp

/-- It is stalled if neither is recent. -/
theorem assess_eq_stalled {since : ℕ} {lastError : Option String}
    (h : s.assess now staleAfter = .stalled since lastError) :
    s.dead = none ∧ staleAfter < since ∧
      now = s.lastProgress.getD s.startedAt + since ∧ lastError = s.lastError := by
  unfold assess at h
  cases hdead : s.dead with
  | some reason' =>
      rw [hdead] at h
      cases h
  | none =>
      rw [hdead] at h
      cases hprogress : s.lastProgress with
      | none =>
          rw [hprogress] at h
          dsimp only at h
          split_ifs at h with hle
          cases h
          exact ⟨rfl, by omega, by rw [Option.getD_none]; omega, rfl⟩
      | some t =>
          rw [hprogress] at h
          dsimp only at h
          split_ifs at h with hle
          cases h
          exact ⟨rfl, by omega, by rw [Option.getD_some]; omega, rfl⟩

/-- A healthy loop is caught up when its status has an indexed height at the tip. -/
theorem caughtUp_iff {caughtUp : Bool} (h : s.assess now staleAfter = .healthy caughtUp) :
    caughtUp = true ↔ ∃ i t, s.indexedHeight = some i ∧ s.tipHeight = some t ∧ t ≤ i := by
  obtain ⟨hdead, t, hprogress, hle⟩ := exists_assess_eq_healthy.mp ⟨caughtUp, h⟩
  unfold assess at h
  rw [hdead, hprogress] at h
  dsimp only at h
  rw [if_pos (by omega)] at h
  rw [← Liveness.healthy.inj h]
  cases s.indexedHeight with
  | none => simp
  | some i =>
      cases s.tipHeight with
      | none => simp
      | some tip => simp

end Assess

end IndexerStatus

/-! ### The loop -/

/-- Whether the indexed height moved, or the indexer is at the tip. -/
def TickOutcome.advanced (o : TickOutcome) : Bool :=
  decide (o.indexedAfter ≠ o.indexedBefore) || o.indexedAfter.any (· ≥ o.tip)

/-- How a tick ended, when that was recorded, and the indexed height then. -/
structure TickRecord where
  time : ℕ
  result : Except SyncError TickOutcome
  indexed : Option BlockHeight

/-- The loop beside its upstream node, with its bookkeeping. -/
structure Node (σ : Type) where
  sync : Sync σ
  /-- The chain tip most recently observed, shared with the RPC server. -/
  tipHandle : Option BlockRef
  health : IndexerStatus
  now : ℕ
  /-- A tick has started, and how it ended has not been recorded. -/
  ticking : Bool
  /-- What `run` returned. -/
  exit : Option (Except String Unit)
  /-- A history variable, which nothing reads: the records made so far. -/
  log : List TickRecord

section Loop

variable {σ : Type} (S : StateStore σ) (P : Platform) (config : IndexerConfig)

/-- A node whose loop has just started. -/
def Node.init (chain : Chain) (store : σ) (now : ℕ) : Node σ where
  sync := .init chain store
  tipHandle := none
  health := .newAt now
  now := now
  ticking := false
  exit := none
  log := []

/-- Run the tick on with an answer. A tip that it gets is shared at once. -/
def Node.answer (n : Node σ) (source : ChainSource) (await : Await) : Node σ :=
  { n with
    sync := n.sync.answer S P config source await
    tipHandle := match await, source.tip with
      | .tip _, .ok tip => some tip
      | _, _ => n.tipHandle }

/-- Record how the tick ended. A fatal error ends the loop. -/
def Node.record (n : Node σ) (result : Except SyncError TickOutcome) : Node σ :=
  let indexed := S.indexedHeight n.sync.store
  let n := { n with ticking := false, log := n.log ++ [TickRecord.mk n.now result indexed] }
  match result with
  | .ok outcome =>
      { n with
        health := n.health.recordTickOk outcome.indexedAfter outcome.tip outcome.advanced n.now }
  | .error (.transient e) => { n with health := n.health.recordFailure e indexed }
  | .error (.fatal e) => { n with health := n.health.markDead e, exit := some (.error e) }

/-- What can happen next. -/
inductive NodeStep (chains : Set Chain) (n : Node σ) : Node σ → Prop
  | clock (d : ℕ) : NodeStep chains n { n with now := n.now + d }
  | replace (chain : Chain) (h : chain ∈ chains) :
      NodeStep chains n { n with sync := { n.sync with canonical := chain } }
  | stop (stop : Bool) : NodeStep chains n { n with sync := { n.sync with stop := stop } }
  /-- The interval fires. -/
  | begin (hticking : n.ticking = false) (hexit : n.exit = none) (hstop : n.sync.stop = false) :
      NodeStep chains n { n with sync := n.sync.begin S, ticking := true }
  /-- It fires after a stop request. -/
  | quit (hticking : n.ticking = false) (hexit : n.exit = none) (hstop : n.sync.stop = true) :
      NodeStep chains n { n with exit := some (.ok ()) }
  | call (await : Await) (h : n.sync.control.await? = some await) :
      NodeStep chains n (n.answer S P config n.sync.canonical.source await)
  | unreachable (await : Await) (e : String) (h : n.sync.control.await? = some await) :
      NodeStep chains n (n.answer S P config (.unreachable e) await)
  | record (result : Except SyncError TickOutcome) (hticking : n.ticking = true)
      (h : n.sync.control = .returned result) : NodeStep chains n (n.record S result)

/-- Runs of the loop. -/
abbrev NodeRun (chains : Set Chain) : Node σ → Node σ → Prop :=
  Relation.ReflTransGen (NodeStep S P config chains)

end Loop

/-! ### What a tick returns -/

section Reports

variable {σ : Type} (S : StateStore σ)

/-- The tick has started from this height and got this tip. If it is suspended it remembers both,
and if it has returned `Ok` it says so, and what the indexed height is now. -/
structure Reports (before : Option BlockHeight) (tip : BlockRef) (r : σ × Control) : Prop where
  await : ∀ await, r.2.await? = some await → await.locals? = some ⟨before, tip⟩
  outcome : ∀ o, r.2 = .returned (.ok o) → o = ⟨tip.height, before, S.indexedHeight r.1⟩

variable {S} {P : Platform} {config : IndexerConfig} {stop : Bool} {locals : TickLocals} {s : σ}

/-- A tick that failed reports nothing. -/
theorem reports_of_ended {before : Option BlockHeight} {tip : BlockRef} {control : Control}
    (hawait : control.await? = none) (hok : ∀ o, control ≠ .returned (.ok o)) :
    Reports S before tip (s, control) :=
  ⟨fun await h => (Option.some_ne_none await (h.symm.trans hawait)).elim,
    fun o h => absurd h (hok o)⟩

/-- A tick that waits remembers where it started. -/
theorem reports_of_awaiting {before : Option BlockHeight} {tip : BlockRef} {await : Await}
    (h : await.locals? = some ⟨before, tip⟩) : Reports S before tip (s, .awaiting await) :=
  ⟨fun await' hawait => Option.some.inj hawait ▸ h, fun o h => by cases h⟩

/-- A tick that goes on after a result reports if it does for each value. -/
theorem reports_orReturn {α : Type} {before : Option BlockHeight} {tip : BlockRef}
    {r : Except SyncError α} {next : α → σ × Control}
    (h : ∀ a, r = .ok a → Reports S before tip (next a)) :
    Reports S before tip (orReturn s r next) := by
  cases r with
  | error e => exact reports_of_ended rfl fun o h => by cases h
  | ok a => exact h a rfl

/-- A tick that goes on after a possible panic reports if it does for each value. -/
theorem reports_orPanic {α : Type} {before : Option BlockHeight} {tip : BlockRef}
    {r : Except Panic α} {next : α → σ × Control}
    (h : ∀ a, r = .ok a → Reports S before tip (next a)) :
    Reports S before tip (orPanic s r next) := by
  cases r with
  | error p => exact reports_of_ended rfl fun o h => by cases h
  | ok a => exact h a rfl

/-- The end of a tick reports where it started and where it ended. -/
theorem reports_finish : Reports S locals.indexedBefore locals.tip (finish S locals s) where
  await await h := by cases h
  outcome o h := (Except.ok.inj (Control.returned.inj h)).symm

/-- A tick that asks for the next block reports. -/
theorem reports_nextBlock :
    Reports S locals.indexedBefore locals.tip (nextBlock S P stop locals s) := by
  rcases nextBlock_cases S P stop locals s with h | ⟨p, h⟩ | ⟨-, h⟩ <;> rw [h]
  · exact reports_finish
  · exact reports_of_ended rfl fun o h => by cases h
  · exact reports_of_awaiting rfl

/-- A tick that fast-forwards reports. -/
theorem reports_fastForward :
    Reports S locals.indexedBefore locals.tip (fastForward S P config stop locals s) := by
  unfold fastForward
  split
  · dsimp only
    split_ifs
    · exact reports_of_awaiting rfl
    · exact reports_nextBlock
    · exact reports_nextBlock
  · exact reports_nextBlock

/-- A tick that looks for the fork reports. -/
theorem reports_handleReorg :
    Reports S locals.indexedBefore locals.tip (handleReorg S P config stop locals s) := by
  unfold handleReorg
  split
  · exact reports_of_awaiting rfl
  · exact reports_fastForward

/-- **What a tick returns** is what it found and what it left: each answer keeps that. -/
theorem resume_reports {await : Await} (source : ChainSource)
    (h : await.locals? = some locals) :
    Reports S locals.indexedBefore locals.tip (await.resume S P config stop source s) := by
  cases await with
  | tip => cases h
  | reorgHash locals' height ourHash =>
      obtain rfl := Option.some.inj h
      refine reports_orReturn fun canonical _ => ?_
      split_ifs
      · exact reports_fastForward
      · refine reports_orPanic fun target _ => ?_
        dsimp only
        exact reports_orReturn fun _ _ => reports_handleReorg
  | targetHash locals' target =>
      obtain rfl := Option.some.inj h
      refine reports_orReturn fun hash _ => ?_
      dsimp only
      exact reports_orReturn fun _ _ => reports_nextBlock
  | nextHash locals' nextHeight =>
      obtain rfl := Option.some.inj h
      refine reports_orReturn fun hash _ => ?_
      split_ifs
      · exact reports_orPanic fun r _ => reports_orReturn fun _ _ => reports_nextBlock
      · exact reports_of_awaiting rfl
  | rawBlock locals' nextHeight hash =>
      obtain rfl := Option.some.inj h
      exact reports_orReturn fun raw _ => reports_orReturn fun parsed _ =>
        reports_orPanic fun r _ => reports_orReturn fun _ _ => reports_nextBlock

/-- The first answer gets the tip. -/
theorem resume_tip_reports {before : Option BlockHeight} {source : ChainSource} {tip : BlockRef}
    (h : source.tip = .ok tip) :
    Reports S before tip (Await.resume S P config stop source s (.tip before)) := by
  rw [Await.resume, h]
  show Reports S (TickLocals.mk before tip).indexedBefore (TickLocals.mk before tip).tip _
  exact reports_handleReorg

end Reports

end Zalkanes
