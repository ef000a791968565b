import Zalkanes.Indexer.HealthRuns

/-!
# Health on a Stable Chain

When the node's chain stays what it is, and has so far been replaced between ticks only, the health
of the indexing loop settles. If a tick converges on the chain then the next one that is not
interrupted makes the loop caught up. If the chain is shorter than what is indexed then no tick
moves the store, none returns `Ok` and none is fatal: the loop lives on, and is reported as stalled
as soon as what came before is stale.

## Main results

* `Node.Recorded.exists_caughtUp`: a loop whose tick converges can be caught up.
* `Node.Stuck.step`, `Node.stuck_of_run`: a loop whose chain is too short is stuck.
* `health_on_stable_chain`: both, for every store that runs of the loop leave in which chains are
  replaced between ticks only.
-/

namespace Zalkanes

open Lib

/-! ### The loop as a run of ticks -/

/-- The node's chain is replaced by this one. -/
def Node.follow {σ : Type} (n : Node σ) (chain : Chain) : Node σ :=
  { n with sync := { n.sync with canonical := chain } }

section Runs

variable {σ : Type} (S : StateStore σ) (P : Platform) (config : IndexerConfig)

/-- Runs in which the node replaces its chain between ticks only. -/
abbrev NodeRunBetween (chains : Set Chain) : Node σ → Node σ → Prop :=
  Relation.ReflTransGen fun n n' => NodeStep S P config chains n n' ∧
    (n'.sync.canonical ≠ n.sync.canonical → n.ticking = false)

variable {S P config} {chains : Set Chain} {n n' : Node σ} {startedAt : ℕ}

/-- Such a run is a run. -/
theorem NodeRunBetween.nodeRun (h : NodeRunBetween S P config chains n n') :
    NodeRun S P config chains n n' :=
  Relation.ReflTransGen.mono (fun _ _ hstep => hstep.1) _ _ h

/-- Recording a tick keeps the tick. -/
@[simp] theorem Node.sync_record (n : Node σ) (result : Except SyncError TickOutcome) :
    (n.record S result).sync = n.sync := by
  unfold record
  split <;> rfl

/-- A step of the loop is one of the ticks, or does not touch them. -/
theorem NodeStep.sync (h : NodeStep S P config chains n n')
    (hresting : n.ticking = false → n.sync.control.await? = none)
    (hbetween : n'.sync.canonical ≠ n.sync.canonical → n.ticking = false) :
    SyncRun S P config chains BetweenTicks n.sync n'.sync := by
  have hsingle : ∀ {event y}, SyncStep S P config chains n.sync event y →
      BetweenTicks event n.sync → SyncRun S P config chains BetweenTicks n.sync y :=
    fun {event y} hstep hcond => .single ⟨event, hstep, hcond⟩
  cases h with
  | clock d => exact .refl
  | replace chain hchain =>
      by_cases hsame : chain = n.sync.canonical
      · subst hsame
        exact .refl
      · exact hsingle (.replace chain hchain) fun _ _ => hresting (hbetween hsame)
  | stop stop => exact hsingle (.stop stop) fun _ h => by cases h
  | begin hticking => exact hsingle (.begin (hresting hticking)) fun _ h => by cases h
  | quit => exact .refl
  | call await hawait => exact hsingle (.call await hawait) fun _ h => by cases h
  | unreachable await e hawait =>
      exact hsingle (.unreachable await e hawait) fun _ h => by cases h
  | record result => exact Node.sync_record (S := S) n result ▸ .refl

/-- A run of the loop is a run of its ticks. -/
theorem NodeRunBetween.sync {chain : Chain} {store : σ}
    (h : NodeRunBetween S P config chains (.init chain store startedAt) n) :
    SyncRun S P config chains BetweenTicks (.init chain store) n.sync := by
  induction h with
  | refl => exact .refl
  | tail hrun hstep ih =>
      have hrecorded := Node.recorded_of_run (NodeRunBetween.nodeRun hrun)
      exact ih.trans (hstep.1.sync (fun hticking => (hrecorded.resting hticking).1) hstep.2)

end Runs

/-! ### Catching up -/

section CaughtUp

variable {σ : Type} {S : StateStore σ} {P : Platform} {config : IndexerConfig} {chain : Chain}
  {n : Node σ} {staleAfter : ℕ}

/-- What the calls of a tick leave as it is, and the tip that it shares once it has asked. -/
structure Node.Continues (chain : Chain) (n n' : Node σ) : Prop where
  canonical : n'.sync.canonical = chain
  stop : n'.sync.stop = false
  ticking : n'.ticking = true
  exit : n'.exit = n.exit
  health : n'.health = n.health
  tip : n'.tipHandle = some chain.tip ∨ ∃ before, n'.sync.control = .awaiting (.tip before)

/-- The calls of a tick are made by the loop. -/
theorem Node.run_of_tickReaches {m : Node σ} (hm : n.Continues chain m) {r : σ × Control}
    (h : TickReaches S P config chain (m.sync.store, m.sync.control) r) :
    ∃ m', NodeRun S P config {chain} m m' ∧ n.Continues chain m' ∧
      m'.sync.store = r.1 ∧ m'.sync.control = r.2 := by
  induction h with
  | refl => exact ⟨m, .refl, hm, rfl, rfl⟩
  | tail _ hstep ih =>
      obtain ⟨m', hrun, hm', hstore, hcontrol⟩ := ih
      obtain ⟨await, hawait, rfl⟩ := hstep
      rw [← hcontrol] at hawait
      have hcall := hrun.tail (.call await (Control.await?_eq_some.mpr hawait))
      rw [hm'.canonical] at hcall
      refine ⟨_, hcall, ⟨hm'.canonical, hm'.stop, hm'.ticking, hm'.exit, hm'.health, ?_⟩, ?_, ?_⟩
      · cases hlocals : await.locals? with
        | none =>
            cases await with
            | tip before => exact Or.inl (tipHandle_answer_tip rfl)
            | _ => cases hlocals
        | some locals =>
            rw [tipHandle_answer_of_locals _ hlocals]
            refine hm'.tip.imp_right ?_
            rintro ⟨before, htip⟩
            obtain rfl := Control.awaiting.inj (hawait.symm.trans htip)
            cases hlocals
      · rw [← hstore, ← hm'.stop]
        rfl
      · rw [← hstore, ← hm'.stop]
        rfl

/-- **A loop whose tick converges on its chain can be caught up**, and is when that tick is not
interrupted. -/
theorem Node.Recorded.exists_caughtUp {startedAt : ℕ} {height : Option BlockHeight}
    (hn : n.Recorded S startedAt height) (hticking : n.ticking = false) (hexit : n.exit = none)
    (hstop : n.sync.stop = false) (hcanonical : n.sync.canonical = chain)
    (h : Converges S P config chain n.sync.store) (staleAfter : ℕ) :
    ∃ n', NodeRun S P config {chain} n n' ∧ n'.ticking = false ∧ n'.tipHandle = some chain.tip ∧
      n'.health.assess n'.now staleAfter = .healthy true ∧
        S.indexedHeight n'.sync.store = some chain.tip.height ∧
          IndexOf S P config chain n'.sync.store chain.tip.height := by
  obtain ⟨s', outcome, hreaches, hheight, -, hindex⟩ := h
  have hbegin : NodeStep S P config {chain} n { n with sync := n.sync.begin S, ticking := true } :=
    .begin hticking hexit hstop
  obtain ⟨m', hcalls, hm', rfl, hcontrol⟩ :=
    Node.run_of_tickReaches (n := n) (m := { n with sync := n.sync.begin S, ticking := true })
      ⟨hcanonical, hstop, rfl, rfl, rfl, Or.inr ⟨_, rfl⟩⟩ hreaches
  have hrun : NodeRun S P config {chain} n m' := hcalls.head hbegin
  have htip : m'.tipHandle = some chain.tip := by
    refine hm'.tip.resolve_right ?_
    rintro ⟨before, htip⟩
    cases hcontrol.symm.trans htip
  obtain ⟨-, hafter, hotip⟩ :=
    ((hn.run hrun).ticking hm'.ticking).2.truthful hcontrol (o := outcome) rfl
  rw [htip] at hotip
  rw [hheight] at hafter
  have hadvanced : outcome.advanced = true := by
    rw [TickOutcome.advanced, hafter, ← Option.some.inj hotip]
    simp
  refine ⟨_, hrun.tail (.record (.ok outcome) hm'.ticking hcontrol), rfl, htip, ?_, hheight, hindex⟩
  show (m'.health.recordTickOk outcome.indexedAfter outcome.tip outcome.advanced m'.now).assess
    m'.now staleAfter = .healthy true
  have hdead : m'.health.dead = none := by
    rw [hm'.health, hn.dead_eq_none_iff, hexit]
    exact fun e he => by cases he
  rw [IndexerStatus.recordTickOk, IndexerStatus.assess, hdead, hadvanced, hafter,
    ← Option.some.inj hotip]
  simp

end CaughtUp

/-! ### A chain that is too short -/

section Stuck

variable {σ : Type} (S : StateStore σ)

/-- The loop has gone on from where it was, on a chain that is shorter than what is indexed: the
store is as it was, and every tick since then has failed or will fail. -/
structure Node.Stuck (chain : Chain) (height : BlockHeight) (hash : BlockHash) (n n' : Node σ) :
    Prop where
  canonical : n'.sync.canonical = chain
  store : n'.sync.store = n.sync.store
  now : n.now ≤ n'.now
  log : ∃ since, n'.log = n.log ++ since ∧ ∀ r ∈ since, r.failed = true
  exit : ∀ e, n'.exit ≠ some (.error e)
  resting : n'.ticking = false → n'.sync.control.await? = none
  ticking : n'.ticking = true → n'.sync.control = .awaiting (.tip (some height)) ∨
    (∃ locals, n'.sync.control = .awaiting (.reorgHash locals height hash)) ∨
      ∃ e, n'.sync.control = .returned (.error (.transient e))

variable {S} {P : Platform} {config : IndexerConfig} {chain : Chain} {height : BlockHeight}
  {hash : BlockHash} {n n' : Node σ}

/-- There is no block above the tip. -/
theorem Chain.blockHash_of_lt (h : chain.tip.height < height) :
    ∃ e, chain.source.blockHash height = .error e := by
  cases hblock : chain.source.blockHash height with
  | error e => exact ⟨e, rfl⟩
  | ok hash => exact absurd (Chain.exists_has_iff.mp ⟨hash, hblock⟩) (UInt32.not_le.mpr h)

/-- What the next answer does: the store is as it was, and the tick asks for the hash at the height
that is indexed or fails. -/
theorem Node.Stuck.answer (h : n.Stuck chain height hash n')
    (hheight : S.indexedHeight n.sync.store = some height)
    (hhash : S.indexedBlockHash n.sync.store = some hash) (hlt : chain.tip.height < height)
    {await : Await} (hawait : n'.sync.control.await? = some await) {source : ChainSource}
    (hsource : source = chain.source ∨ ∃ e, source = .unreachable e) :
    n.Stuck chain height hash (n'.answer S P config source await) := by
  have hticking : n'.ticking = true := by
    by_contra hfalse
    rw [h.resting (Bool.eq_false_iff.mpr hfalse)] at hawait
    cases hawait
  have hnext : ∃ control,
      await.resume S P config n'.sync.stop source n'.sync.store = (n'.sync.store, control) ∧
        ((∃ locals, control = .awaiting (.reorgHash locals height hash)) ∨
          ∃ e, control = .returned (.error (.transient e))) := by
    rcases hsource with rfl | ⟨e, rfl⟩
    · rcases h.ticking hticking with hcontrol | ⟨locals, hcontrol⟩ | ⟨e, hcontrol⟩ <;>
        rw [hcontrol] at hawait
      · obtain rfl := Option.some.inj hawait
        refine ⟨_, ?_, Or.inl ⟨⟨some height, chain.tip⟩, rfl⟩⟩
        show handleReorg S P config n'.sync.stop ⟨some height, chain.tip⟩ n'.sync.store = _
        rw [handleReorg, h.store, hheight, hhash]
      · obtain rfl := Option.some.inj hawait
        obtain ⟨e, he⟩ := Chain.blockHash_of_lt hlt
        have hresume : Await.resume S P config n'.sync.stop chain.source n'.sync.store
            (.reorgHash locals height hash) = (n'.sync.store, .returned (.error (.transient
              ("fetching canonical block hash for reorg check" ++ ": " ++ e)))) := by
          rw [Await.resume, he]
          rfl
        exact ⟨_, hresume, Or.inr ⟨_, rfl⟩⟩
      · cases hawait
    · obtain ⟨message, hmessage⟩ : ∃ message, Await.resume S P config n'.sync.stop
          (.unreachable e) n'.sync.store await =
            (n'.sync.store, .returned (.error (.transient message))) :=
        await.resume_unreachable e
      exact ⟨_, hmessage, Or.inr ⟨message, rfl⟩⟩
  obtain ⟨control, hresume, hcontrol⟩ := hnext
  have hsync : (n'.answer S P config source await).sync = { n'.sync with control := control } := by
    show n'.sync.answer S P config source await = _
    rw [Sync.answer, hresume]
  exact
    { canonical := hsync ▸ h.canonical
      store := hsync ▸ h.store
      now := h.now
      log := h.log
      exit := h.exit
      resting := fun hfalse => absurd hticking (Bool.eq_false_iff.mp hfalse)
      ticking := fun _ => hsync ▸ Or.inr hcontrol }

/-- A loop whose chain is too short stays so. -/
theorem Node.Stuck.step {m : Node σ} (h : n.Stuck chain height hash n')
    (hheight : S.indexedHeight n.sync.store = some height)
    (hhash : S.indexedBlockHash n.sync.store = some hash) (hlt : chain.tip.height < height)
    (hstep : NodeStep S P config {chain} n' m) : n.Stuck chain height hash m := by
  cases hstep with
  | clock d => exact { h with now := h.now.trans (Nat.le_add_right _ d) }
  | replace chain' hchain' => exact { h with canonical := hchain' }
  | stop stop => exact { h with }
  | begin =>
      refine { h with
        resting := fun hfalse => by cases hfalse
        ticking := fun _ => Or.inl ?_ }
      rw [Sync.begin, h.store, hheight]
  | quit hticking => exact { h with exit := fun e he => by cases he }
  | call await hawait => exact h.answer hheight hhash hlt hawait (Or.inl (by rw [h.canonical]))
  | unreachable await e hawait => exact h.answer hheight hhash hlt hawait (Or.inr ⟨e, rfl⟩)
  | record result hticking hcontrol =>
      obtain ⟨e, rfl⟩ : ∃ e, result = .error (.transient e) := by
        rcases h.ticking hticking with hc | ⟨locals, hc⟩ | ⟨e, hc⟩ <;> rw [hcontrol] at hc <;>
          cases hc
        exact ⟨e, rfl⟩
      obtain ⟨since, hlog, hfailed⟩ := h.log
      refine { h with
        log := ⟨since ++ [⟨n'.now, .error (.transient e), S.indexedHeight n'.sync.store⟩], ?_, ?_⟩
        resting := fun _ => ?_
        ticking := fun htrue => by cases htrue }
      · rw [← List.append_assoc, ← hlog]
        rfl
      · intro r hr
        rcases List.mem_append.mp hr with hr | hr
        · exact hfailed r hr
        · rw [List.mem_singleton.mp hr]
          rfl
      · show n'.sync.control.await? = none
        rw [hcontrol]
        rfl

/-- **A loop whose chain is too short is stuck**: in every run on that chain. -/
theorem Node.stuck_of_run (hresting : n.ticking = false ∧ n.sync.control.await? = none)
    (hexit : n.exit = none) (hcanonical : n.sync.canonical = chain)
    (hheight : S.indexedHeight n.sync.store = some height)
    (hhash : S.indexedBlockHash n.sync.store = some hash) (hlt : chain.tip.height < height)
    (h : NodeRun S P config {chain} n n') : n.Stuck chain height hash n' := by
  induction h with
  | refl =>
      exact
        { canonical := hcanonical
          store := rfl
          now := le_refl _
          log := ⟨[], (List.append_nil _).symm, fun r hr => absurd hr List.not_mem_nil⟩
          exit := by simp [hexit]
          resting := fun _ => hresting.2
          ticking := fun htrue => by simp [hresting.1] at htrue }
  | tail _ hstep ih => exact ih.step hheight hhash hlt hstep

end Stuck

/-! ### Both backends -/

section Settles

variable {σ : Type} (S : StateStore σ) (P : Platform) (config : IndexerConfig)

/-- What the health of a loop between ticks comes to when the node's chain stays this one. -/
structure Node.SettlesOn (staleAfter : ℕ) (new : Chain) (n : Node σ) : Prop where
  /-- A chain that can be indexed, and is not shorter than what is: the loop can catch up. -/
  caughtUp : (∀ h, S.indexedHeight n.sync.store = some h → h ≤ new.tip.height) →
    (new.freshIndex P config new.tip.height.toNat).isSome → new.tip.height.toNat < 2 ^ 32 - 1 →
      n.sync.stop = false →
        ∃ n', NodeRun S P config {new} (n.follow new) n' ∧ n'.ticking = false ∧
          n'.tipHandle = some new.tip ∧ n'.health.assess n'.now staleAfter = .healthy true ∧
            IndexOf S P config new n'.sync.store new.tip.height
  /-- A chain that is shorter: nothing changes, and the loop is stalled once that is stale. -/
  stalled : ∀ h, S.indexedHeight n.sync.store = some h → new.tip.height < h →
    ∀ n', NodeRun S P config {new} (n.follow new) n' →
      n'.sync.store = n.sync.store ∧ (∀ e, n'.exit ≠ some (.error e)) ∧
        (n.now + staleAfter < n'.now →
          ∃ since lastError, n'.health.assess n'.now staleAfter = .stalled since lastError)

/-- The health settles of every loop that has not returned and is between ticks, if the node has
replaced its chain between ticks only so far. (A chain that is replaced within a tick may leave a
store that is mixed of two chains, which is a fresh index of neither.) -/
def HealthSettles (s₀ : σ) : Prop :=
  ∀ (chains : Set Chain) (new : Chain), Linked (insert new chains) →
    SharedGenesis (insert new chains) → (∀ c ∈ chains, c.tip.height.toNat < 2 ^ 32 - 1) →
      ∀ c ∈ chains, ∀ startedAt n, NodeRunBetween S P config chains (.init c s₀ startedAt) n →
        n.ticking = false → n.exit = none → 1 ≤ new.tip.height.toNat →
          ∀ staleAfter, n.SettlesOn S P config staleAfter new

end Settles

section Stalled

variable {σ : Type} {S : StateStore σ} {P : Platform} {config : IndexerConfig}

/-- A failed tick did not advance. -/
theorem TickRecord.not_advanced_of_failed {r : TickRecord} (h : r.failed = true) :
    ¬ r.Advanced := by
  rintro ⟨o, ho, -⟩
  rw [failed, ho] at h
  cases h

/-- The health settles on every lawful store that saves its records. -/
theorem LawfulStore.healthSettles {Rep : σ → List BlockCommit → Prop}
    (L : LawfulStore P.hashing S Rep) (hE : P.engine.Metered)
    (hsave : ∀ s es, (S.saveExecutions s es).2 = .ok ()) {s₀ : σ} (h₀ : Rep s₀ []) :
    HealthSettles S P config s₀ := by
  intro chains new hlinked hgenesis hheights c hc startedAt n hrun hticking hexit hpos staleAfter
  have hn := Node.recorded_of_run hrun.nodeRun
  have hresting := (hn.resting hticking).1
  have hfollow : NodeStep S P config {new} n (n.follow new) := .replace new rfl
  have hnew := hn.step hfollow
  refine ⟨fun hle hfresh htip hstop => ?_, fun h hh hlt n' hrun' => ?_⟩
  · have hconverges := (L.convergesIff hE hsave h₀ chains new hlinked hgenesis hheights c hc n.sync
      hrun.sync hresting hpos).mpr ⟨hle, hfresh, htip⟩
    obtain ⟨n', hrun', hticking', htip', hhealthy, -, hindex⟩ :=
      hnew.exists_caughtUp hticking hexit hstop rfl hconverges staleAfter
    exact ⟨n', hrun', hticking', htip', hhealthy, hindex⟩
  · have hlinked' : Linked chains := fun a ha b hb =>
      hlinked a (Set.image_mono (Set.subset_insert new chains) ha) b
        (Set.image_mono (Set.subset_insert new chains) hb)
    obtain ⟨-, chain, -, cs, hs, hcs, -⟩ :=
      L.tracks_canonical_of_run hE hlinked' h₀ hheights hc hrun.sync
    have hreg := hcs.indexed.regular hE
    have hlast := L.indexedHeight hs hreg
    rw [hh] at hlast
    obtain ⟨d, hd, rfl⟩ := Option.map_eq_some_iff.mp hlast.symm
    obtain ⟨hheight, hhash⟩ := L.indexed_of_getLast? hs hreg hd
    have hstuck := Node.stuck_of_run (n := n.follow new) ⟨hticking, hresting⟩ hexit rfl hheight
      hhash hlt hrun'
    refine ⟨hstuck.store, hstuck.exit, fun hnow => ?_⟩
    obtain ⟨since, hlog, hfailed⟩ := hstuck.log
    have hstarted := hn.started
    refine (hnew.run hrun').stalled_iff.mpr ⟨hstuck.exit, fun r hr hadv => ?_, fun _ => by omega⟩
    rw [hlog] at hr
    rcases List.mem_append.mp hr with hr | hr
    · have hpast := hn.past r hr
      omega
    · exact absurd hadv (TickRecord.not_advanced_of_failed (hfailed r hr))

end Stalled

/-- **The health on a stable chain**, on both backends. -/
theorem health_on_stable_chain (P : Platform) (config : IndexerConfig) (hE : P.engine.Metered)
    (hjson : ∀ execution, ∃ bytes, P.json execution = .ok bytes) :
    HealthSettles (MemoryState.store P.hashing) P config MemoryState.new ∧
      HealthSettles (RocksState.store P.hashing P.json) P config RocksState.fresh :=
  ⟨(MemoryState.lawful P.hashing).healthSettles hE (fun _ _ => rfl) rfl,
    (RocksState.lawful P.hashing P.json).healthSettles hE
      (fun s es => RocksState.saveExecutions_ok hjson s es)
      (RocksState.AgreesOff.refl RocksState.IsExec RocksState.fresh)⟩

/-- The loop of a node with the register, on the database. -/
theorem health_on_stable_chain_register :
    meteredEngine.Metered ∧
      (∀ e : Execution, ∃ bytes, (.ok e.json : Except String Bytes) = .ok bytes) ∧
      ∀ H : Hashing,
        let P := meteredPlatform H fun e => .ok e.json
        HealthSettles (MemoryState.store H) P regtestConfig MemoryState.new ∧
          HealthSettles (RocksState.store H P.json) P regtestConfig RocksState.fresh :=
  ⟨metered_meteredEngine, fun _ => ⟨_, rfl⟩, fun H =>
    health_on_stable_chain (meteredPlatform H fun e => .ok e.json) regtestConfig
      metered_meteredEngine fun _ => ⟨_, rfl⟩⟩

end Zalkanes
