import Zalkanes.Indexer.HealthRuns
import Zalkanes.Rpc.View

/-!
# Readiness

The node answers `/ready` and `zalkanes_getInfo` from the liveness of its indexing loop, which a
probe assesses when it is asked. `zalkanes_getInfo` also says whether the node is syncing, which it
derives from the store and the shared tip, not from the liveness.

## Main results

* `readiness_truthful`: what `/ready` and `zalkanes_getInfo` say about the run of the loop.
-/

namespace Zalkanes

open Lib

/-! ### The probe -/

/-- A point-in-time report from the indexing loop's bookkeeping. -/
structure LivenessReport where
  liveness : Liveness
  indexedHeight : Option BlockHeight
  tipHeight : Option BlockHeight
  lastProgressSecsAgo : Option ℕ
  lastTickOkSecsAgo : Option ℕ
  consecutiveFailures : UInt32
  totalFailures : UInt64
  lastError : Option String
  deadReason : Option String

/-- `Duration::as_secs`. -/
def asSecs (nanoseconds : ℕ) : ℕ := nanoseconds / 10 ^ 9

/-- What the probe of a loop with this status reports at this moment. -/
def probeReport (health : IndexerStatus) (staleAfter now : ℕ) : LivenessReport where
  liveness := health.assess now staleAfter
  indexedHeight := health.indexedHeight
  tipHeight := health.tipHeight
  lastProgressSecsAgo := health.lastProgress.map fun t => asSecs (now - t)
  lastTickOkSecsAgo := health.lastTickOk.map fun t => asSecs (now - t)
  consecutiveFailures := health.consecutiveFailures
  totalFailures := health.totalFailures
  lastError := health.lastError
  deadReason := health.dead

/-! ### The handler -/

/-- The handler of requests, with what its probe reports now. -/
structure RpcHandler (σ : Type) where
  state : σ
  chainTip : Option BlockRef
  network : Network
  /-- Nothing when the handler serves a store without a loop. -/
  indexer : Option LivenessReport

/-- Liveness of the indexing loop, as exposed by `zalkanes_getInfo`. -/
structure IndexerInfo where
  /-- `starting` | `healthy` | `syncing` | `stalled` | `dead` -/
  state : String
  alive : Bool
  advancing : Bool
  indexedHeight : Option BlockHeight
  tipHeight : Option BlockHeight
  lastProgressSecsAgo : Option ℕ
  lastTickOkSecsAgo : Option ℕ
  consecutiveFailures : UInt32
  totalFailures : UInt64
  lastError : Option String
  deadReason : Option String

/-- Response for `zalkanes_getInfo`. -/
structure InfoResponse where
  protocolVersion : UInt8
  protocolManifestHash : String
  network : String
  indexedHeight : Option BlockHeight
  chainTipHeight : Option BlockHeight
  indexedBlockHash : Option String
  stateRoot : String
  syncing : Bool
  indexer : Option IndexerInfo

/-- The name of a network, as the node writes it. -/
def Network.zebraName : Network → String
  | .mainnet => "main"
  | .testnet => "test"
  | .regtest => "regtest"

/-- The state that a liveness is exposed as, and whether the loop is alive and advancing. -/
def Liveness.exposed : Liveness → String × Bool × Bool
  | .starting => ("starting", true, false)
  | .healthy true => ("healthy", true, true)
  | .healthy false => ("syncing", true, true)
  | .stalled _ _ => ("stalled", true, false)
  | .dead _ => ("dead", false, false)

/-- Only a dead loop is not alive. -/
theorem Liveness.alive_eq_false_iff (l : Liveness) :
    l.exposed.2.1 = false ↔ ∃ reason, l = .dead reason := by
  cases l with
  | healthy caughtUp => cases caughtUp <;> simp [exposed]
  | _ => simp [exposed]

/-- Only a healthy loop advances. -/
theorem Liveness.advancing_eq_true_iff (l : Liveness) :
    l.exposed.2.2 = true ↔ ∃ caughtUp, l = .healthy caughtUp := by
  cases l with
  | healthy caughtUp => cases caughtUp <;> simp [exposed]
  | _ => simp [exposed]

/-- The report, as it is serialized. -/
def indexerInfo (r : LivenessReport) : IndexerInfo where
  state := r.liveness.exposed.1
  alive := r.liveness.exposed.2.1
  advancing := r.liveness.exposed.2.2
  indexedHeight := r.indexedHeight
  tipHeight := r.tipHeight
  lastProgressSecsAgo := r.lastProgressSecsAgo
  lastTickOkSecsAgo := r.lastTickOkSecsAgo
  consecutiveFailures := r.consecutiveFailures
  totalFailures := r.totalFailures
  lastError := r.lastError
  deadReason := r.deadReason

/-- Readiness state for the health endpoint. -/
inductive HealthState where
  | starting
  | syncing
  | caughtUp
  | unhealthy
  deriving DecidableEq

section Handler

variable {σ : Type} (S : StateStore σ) (P : Platform) (hex : Hex) (manifestHash : String)

/-- The syncing flag: not at the shared tip, as far as the handler knows. -/
def RpcHandler.syncing (handler : RpcHandler σ) : Bool :=
  match S.indexedHeight handler.state, handler.chainTip.map BlockRef.height with
  | some i, some t => decide (i < t)
  | _, _ => true

/-- `zalkanes_getInfo`. -/
def RpcHandler.getInfo (handler : RpcHandler σ) : InfoResponse where
  protocolVersion := 0
  protocolManifestHash := manifestHash
  network := handler.network.zebraName
  indexedHeight := S.indexedHeight handler.state
  chainTipHeight := handler.chainTip.map BlockRef.height
  indexedBlockHash := (S.indexedBlockHash handler.state).map fun h => hex.encode h.bytes
  stateRoot := getStateRoot S P hex handler.state
  syncing := handler.syncing S
  indexer := handler.indexer.map indexerInfo

/-- Readiness, and a one-line reason for the response body. -/
def RpcHandler.readiness (handler : RpcHandler σ) : HealthState × String :=
  match handler.indexer.map LivenessReport.liveness with
  | some (.dead reason) => (.unhealthy, "unhealthy: indexer dead: " ++ reason)
  | some (.stalled since lastError) =>
      (.unhealthy, "unhealthy: indexer stalled for " ++ toString (asSecs since) ++ "s" ++
        (lastError.map fun e => " (last error: " ++ e ++ ")").getD "")
  | some .starting => (.starting, "starting")
  | some (.healthy true) => (.caughtUp, "caught_up")
  | some (.healthy false) => (.syncing, "syncing")
  | none =>
      match S.indexedHeight handler.state, handler.chainTip.map BlockRef.height with
      | some i, some t => if i ≥ t then (.caughtUp, "caught_up") else (.syncing, "syncing")
      | some _, none => (.syncing, "syncing")
      | _, _ => (.starting, "starting")

/-- The status of the response to a request for this path, and its body. -/
def RpcHandler.health (handler : RpcHandler σ) (path : String) : String × String :=
  if path = "/health" then ("200 OK", "alive\n")
  else if path = "/ready" then
    let status := match (handler.readiness S).1 with
      | .caughtUp => "200 OK"
      | .syncing => "202 Accepted"
      | .starting => "200 OK"
      | .unhealthy => "503 Service Unavailable"
    (status, (handler.readiness S).2 ++ "\n")
  else ("404 Not Found", "not_found\n")

/-- The handler of a node: it shares the store and the tip with the loop, and has its probe. -/
def Node.handler (n : Node σ) (network : Network) (staleAfter : ℕ) : RpcHandler σ where
  state := n.sync.store
  chainTip := n.tipHandle
  network := network
  indexer := some (probeReport n.health staleAfter n.now)

end Handler

/-! ### Truth -/

/-- What `/ready` and `zalkanes_getInfo` say about a run that started at this moment. -/
structure Node.ReadinessTruthful {σ : Type} (S : StateStore σ) (P : Platform) (hex : Hex)
    (manifestHash : String) (network : Network) (staleAfter startedAt : ℕ) (n : Node σ) :
    Prop where
  /-- Not ready: the loop has returned an error, or nothing has advanced recently and it did not
  start recently either. -/
  unavailable : ((n.handler network staleAfter).health S "/ready").1 = "503 Service Unavailable" ↔
    (∃ e, n.exit = some (.error e)) ∨
      (∀ r ∈ n.log, r.Advanced → r.time + staleAfter < n.now) ∧
        ((∀ r ∈ n.log, ¬ r.Advanced) → startedAt + staleAfter < n.now)
  /-- Ready and caught up: between ticks, the store is at the tip that the last tick to return `Ok`
  got. -/
  caughtUp : ((n.handler network staleAfter).readiness S).1 = .caughtUp → n.ticking = false →
    ∃ before r after o h, n.log = before ++ r :: after ∧ r.result = .ok o ∧
      (∀ r' ∈ after, ∀ o', r'.result ≠ .ok o') ∧
        S.indexedHeight n.sync.store = some h ∧ o.tip ≤ h
  /-- After a tick that returned `Ok` recently, and until the next one starts, the syncing flag and
  the readiness agree. -/
  agree : n.ticking = false → ∀ before r o, n.log = before ++ [r] → r.result = .ok o →
    ∀ caughtUp, n.health.assess n.now staleAfter = .healthy caughtUp →
      (((n.handler network staleAfter).getInfo S P hex manifestHash).syncing = false ↔
        ((n.handler network staleAfter).readiness S).1 = .caughtUp)
  /-- The flags of `zalkanes_getInfo` are those of the loop. -/
  info : ∃ info, ((n.handler network staleAfter).getInfo S P hex manifestHash).indexer = some info ∧
    (info.alive = false ↔ ∃ e, n.exit = some (.error e)) ∧
    (info.advancing = true ↔ (∀ e, n.exit ≠ some (.error e)) ∧
      ∃ r ∈ n.log, r.Advanced ∧ n.now ≤ r.time + staleAfter)

section Truthful

variable {σ : Type} {S : StateStore σ} {P : Platform} {hex : Hex} {manifestHash : String}
  {network : Network} {staleAfter startedAt : ℕ} {height : Option BlockHeight} {n : Node σ}

/-- With a probe attached, the status is that of its liveness. -/
theorem Node.health_ready (n : Node σ) :
    ((n.handler network staleAfter).health S "/ready").1 = "503 Service Unavailable" ↔
      (∃ reason, n.health.assess n.now staleAfter = .dead reason) ∨
        ∃ since lastError, n.health.assess n.now staleAfter = .stalled since lastError := by
  have hpath : ("/ready" : String) ≠ "/health" := by decide
  rw [RpcHandler.health, if_neg hpath, if_pos rfl, RpcHandler.readiness]
  dsimp only [handler, Option.map_some, probeReport]
  cases hassess : n.health.assess n.now staleAfter with
  | starting => simp
  | healthy caughtUp => cases caughtUp <;> simp
  | stalled since lastError => simp
  | dead reason => simp

/-- A node is ready and caught up as its loop is. -/
theorem Node.readiness_caughtUp (n : Node σ) :
    ((n.handler network staleAfter).readiness S).1 = .caughtUp ↔
      n.health.assess n.now staleAfter = .healthy true := by
  rw [RpcHandler.readiness]
  dsimp only [handler, Option.map_some, probeReport]
  cases hassess : n.health.assess n.now staleAfter with
  | starting => simp
  | healthy caughtUp => cases caughtUp <;> simp
  | stalled since lastError => simp
  | dead reason => simp

/-- When the last tick returned `Ok`, the status has the tip that is shared, and the indexed height
of the store. -/
theorem Node.Recorded.heights_eq (hn : n.Recorded S startedAt height) (hticking : n.ticking = false)
    {before : List TickRecord} {r : TickRecord} {o : TickOutcome} (hlog : n.log = before ++ [r])
    (ho : r.result = .ok o) :
    n.health.indexedHeight = S.indexedHeight n.sync.store ∧
      n.health.tipHeight = n.tipHandle.map BlockRef.height := by
  have hafter := hn.indexedAfter_eq r (by simp [hlog]) o ho
  rw [(hn.resting hticking).2, hn.tip hticking before r o hlog ho, hn.health, hlog,
    replay_append_singleton, heightAfter_append_singleton, IndexerStatus.apply, ho]
  exact ⟨hafter, rfl⟩

/-- A node whose health was recorded is truthful. -/
theorem Node.Recorded.readinessTruthful (hn : n.Recorded S startedAt height) :
    n.ReadinessTruthful S P hex manifestHash network staleAfter startedAt := by
  have htrue := hn.healthTruthful staleAfter
  refine ⟨?_, fun h hticking => htrue.caughtUp (n.readiness_caughtUp.mp h) hticking,
    fun hticking before r o hlog ho caughtUp hassess => ?_, ?_⟩
  · rw [n.health_ready, hn.stalled_iff, exists_congr htrue.dead]
    by_cases hexit : ∃ e, n.exit = some (.error e)
    · simp [hexit]
    · simp [not_exists.mp hexit]
  · obtain ⟨hindexed, htip⟩ := hn.heights_eq hticking hlog ho
    rw [n.readiness_caughtUp, hassess, Liveness.healthy.injEq, IndexerStatus.caughtUp_iff hassess,
      hindexed, htip]
    dsimp only [RpcHandler.getInfo, RpcHandler.syncing, handler]
    cases S.indexedHeight n.sync.store with
    | none => simp
    | some i =>
        cases n.tipHandle.map BlockRef.height with
        | none => simp
        | some t => simp [UInt32.not_lt]
  · refine ⟨_, rfl, ?_, ?_⟩
    · rw [← exists_congr htrue.dead]
      exact Liveness.alive_eq_false_iff _
    · rw [← htrue.healthy]
      exact Liveness.advancing_eq_true_iff _

end Truthful

/-- **What the node says about itself is true**, in every state of every run of its loop. -/
theorem readiness_truthful {σ : Type} {S : StateStore σ} {P : Platform} {config : IndexerConfig}
    {chains : Set Chain} {chain : Chain} {store : σ} {startedAt : ℕ} {n : Node σ}
    (h : NodeRun S P config chains (.init chain store startedAt) n) (hex : Hex)
    (manifestHash : String) (network : Network) (staleAfter : ℕ) :
    n.ReadinessTruthful S P hex manifestHash network staleAfter startedAt :=
  (Node.recorded_of_run h).readinessTruthful

/-- The first tick does not reach the node, and two minutes pass. -/
theorem readiness_truthful_unreachable :
    ∃ n, NodeRun (MemoryState.store lengthHashing) genesisPlatform lateConfig {genesisChain}
        (.init genesisChain MemoryState.new 7) n ∧
      ((n.handler .regtest (120 * 10 ^ 9)).health (MemoryState.store lengthHashing) "/ready") =
        ("503 Service Unavailable", "unhealthy: indexer stalled for 121s (last error: " ++
          "fetching chain tip: connection refused)\n") ∧
      ∀ hex manifestHash, n.ReadinessTruthful (MemoryState.store lengthHashing) genesisPlatform hex
        manifestHash .regtest (120 * 10 ^ 9) 7 := by
  have hrun := ((((Relation.ReflTransGen.refl
    (r := NodeStep (MemoryState.store lengthHashing) genesisPlatform lateConfig {genesisChain})
      (a := .init genesisChain MemoryState.new 7)).tail (.begin rfl rfl rfl)).tail
        (.unreachable _ "connection refused" rfl)).tail (.record _ rfl rfl)).tail
          (.clock (121 * 10 ^ 9))
  exact ⟨_, hrun, by decide, fun hex manifestHash =>
    readiness_truthful hrun hex manifestHash .regtest (120 * 10 ^ 9)⟩

end Zalkanes
