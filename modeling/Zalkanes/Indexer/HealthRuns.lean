import Zalkanes.Indexer.Health
import Zalkanes.Indexer.ReorgLoop

/-!
# The History Behind the Health

The status of the loop is its history, replayed (`IndexerStatus.replay`), and the history is what
happened to the store (`Node.Recorded`). So the liveness that the node reports can be read as a
statement about the run.

## Main results

* `Node.recorded_of_run`: the history of every run is true.
* `health_truthful`: what the assessed liveness says about the run.
-/

namespace Zalkanes

open Lib

/-! ### The history -/

/-- What a record does to the status. -/
def IndexerStatus.apply (s : IndexerStatus) (r : TickRecord) : IndexerStatus :=
  match r.result with
  | .ok o => s.recordTickOk o.indexedAfter o.tip o.advanced r.time
  | .error (.transient e) => s.recordFailure e r.indexed
  | .error (.fatal e) => s.markDead e

/-- The status after these records. -/
def IndexerStatus.replay (startedAt : ℕ) (log : List TickRecord) : IndexerStatus :=
  log.foldl apply (newAt startedAt)

/-- A tick that moved the indexed height, or found the indexer at the tip. -/
def TickRecord.Advanced (r : TickRecord) : Prop := ∃ o, r.result = .ok o ∧ o.advanced = true

/-- A tick that failed, and is tried again. -/
def TickRecord.failed (r : TickRecord) : Bool :=
  match r.result with
  | .error (.transient _) => true
  | _ => false

/-- No tick failed for good. -/
def NoFatal (log : List TickRecord) : Prop := ∀ r ∈ log, ∀ e, r.result ≠ .error (.fatal e)

/-- The indexed height after these records. -/
def heightAfter (height : Option BlockHeight) (log : List TickRecord) : Option BlockHeight :=
  (log.getLast?.map TickRecord.indexed).getD height

/-- What a tick that returned `Ok` said about the indexed height is true. -/
def TickRecord.Truthful (r : TickRecord) (before : Option BlockHeight) : Prop :=
  ∀ o, r.result = .ok o → o.indexedBefore = before ∧ o.indexedAfter = r.indexed

section Replay

variable {startedAt : ℕ} {log : List TickRecord} {r : TickRecord}

/-- The last tick is replayed last. -/
theorem replay_append_singleton (startedAt : ℕ) (log : List TickRecord) (r : TickRecord) :
    IndexerStatus.replay startedAt (log ++ [r]) = (IndexerStatus.replay startedAt log).apply r := by
  rw [IndexerStatus.replay, List.foldl_append]
  rfl

/-- None of the ticks was fatal, nor the last. -/
theorem NoFatal.of_append (h : NoFatal (log ++ [r])) :
    NoFatal log ∧ ∀ e, r.result ≠ .error (.fatal e) :=
  ⟨fun r' hr' => h r' (by simp [hr']), h r (by simp)⟩

/-- The last tick says where it left the store. -/
@[simp] theorem heightAfter_append_singleton (height : Option BlockHeight)
    (log : List TickRecord) (r : TickRecord) : heightAfter height (log ++ [r]) = r.indexed := by
  rw [heightAfter, List.getLast?_concat]
  rfl

/-- After a tick the start does not matter. -/
theorem heightAfter_of_ne_nil {height height' : Option BlockHeight} (h : log ≠ []) :
    heightAfter height log = heightAfter height' log := by
  rw [heightAfter, heightAfter, List.getLast?_eq_getLast_of_ne_nil h]
  rfl

/-- The start stays what it is. -/
theorem replay_startedAt : (IndexerStatus.replay startedAt log).startedAt = startedAt := by
  induction log using List.reverseRecOn with
  | nil => rfl
  | append_singleton log r ih =>
      rw [replay_append_singleton, IndexerStatus.apply]
      split <;> exact ih

/-- Without a fatal tick it is not dead. -/
theorem replay_dead_of_noFatal (h : NoFatal log) :
    (IndexerStatus.replay startedAt log).dead = none := by
  induction log using List.reverseRecOn with
  | nil => rfl
  | append_singleton log r ih =>
      obtain ⟨hlog, hr⟩ := h.of_append
      rw [replay_append_singleton, IndexerStatus.apply]
      split
      · exact ih hlog
      · exact ih hlog
      · rename_i e he
        exact absurd he (hr e)

/-- A fatal tick kills it. -/
theorem replay_dead_of_fatal {e : String} (h : r.result = .error (.fatal e)) :
    (IndexerStatus.replay startedAt (log ++ [r])).dead = some e := by
  rw [replay_append_singleton, IndexerStatus.apply, h]
  rfl

/-- The last progress is that of the last tick that made any. -/
theorem replay_lastProgress (startedAt : ℕ) (log : List TickRecord) :
    (∀ t, (IndexerStatus.replay startedAt log).lastProgress = some t →
      ∃ r ∈ log, r.Advanced ∧ r.time = t) ∧
    ∀ r ∈ log, r.Advanced → (log.map TickRecord.time).Pairwise (· ≤ ·) →
      ∃ t, (IndexerStatus.replay startedAt log).lastProgress = some t ∧ r.time ≤ t := by
  induction log using List.reverseRecOn with
  | nil => exact ⟨fun t h => (by cases h), fun r hr => absurd hr List.not_mem_nil⟩
  | append_singleton log r ih =>
      obtain ⟨ihSome, ihMem⟩ := ih
      have hkept : (IndexerStatus.replay startedAt (log ++ [r])).lastProgress =
          (IndexerStatus.replay startedAt log).lastProgress ∧ ¬ r.Advanced ∨
          (IndexerStatus.replay startedAt (log ++ [r])).lastProgress = some r.time ∧
            r.Advanced := by
        rw [replay_append_singleton, IndexerStatus.apply]
        split
        · rename_i o ho
          rw [IndexerStatus.recordTickOk]
          cases hadv : o.advanced
          · refine Or.inl ⟨rfl, ?_⟩
            rintro ⟨o', ho', hadv'⟩
            obtain rfl := Except.ok.inj (ho.symm.trans ho')
            rw [hadv] at hadv'
            cases hadv'
          · exact Or.inr ⟨rfl, o, ho, hadv⟩
        · rename_i e he
          exact Or.inl ⟨rfl, fun ⟨o, ho, _⟩ => by rw [he] at ho; cases ho⟩
        · rename_i e he
          exact Or.inl ⟨rfl, fun ⟨o, ho, _⟩ => by rw [he] at ho; cases ho⟩
      rcases hkept with ⟨hsame, hnot⟩ | ⟨hnow, hadv⟩
      · rw [hsame]
        refine ⟨fun t ht => ?_, fun r' hr' hadv htimes => ?_⟩
        · obtain ⟨r', hr', h⟩ := ihSome t ht
          exact ⟨r', by simp [hr'], h⟩
        · rw [List.map_append, List.pairwise_append] at htimes
          rcases List.mem_append.mp hr' with hr' | hr'
          · exact ihMem r' hr' hadv htimes.1
          · exact absurd (List.mem_singleton.mp hr' ▸ hadv) hnot
      · rw [hnow]
        refine ⟨fun t ht => ⟨r, by simp, hadv, Option.some.inj ht⟩, fun r' hr' _ htimes => ?_⟩
        rw [List.map_append, List.pairwise_append] at htimes
        refine ⟨r.time, rfl, ?_⟩
        rcases List.mem_append.mp hr' with hr' | hr'
        · exact htimes.2.2 _ (List.mem_map_of_mem hr') _ (by simp)
        · rw [List.mem_singleton.mp hr']

/-- The indexed height is that of the last record. -/
theorem replay_indexedHeight (hfatal : NoFatal log)
    (hafter : ∀ r ∈ log, ∀ o, r.result = .ok o → o.indexedAfter = r.indexed) :
    (IndexerStatus.replay startedAt log).indexedHeight = heightAfter none log := by
  induction log using List.reverseRecOn with
  | nil => rfl
  | append_singleton log r ih =>
      rw [replay_append_singleton, heightAfter_append_singleton, IndexerStatus.apply]
      split
      · rename_i o ho
        exact hafter r (by simp) o ho
      · rfl
      · rename_i e he
        exact absurd he (hfatal.of_append.2 e)

/-- The tip is that of the last tick that returned `Ok`. -/
theorem replay_tipHeight {tip : BlockHeight}
    (h : (IndexerStatus.replay startedAt log).tipHeight = some tip) :
    ∃ before r after o, log = before ++ r :: after ∧ r.result = .ok o ∧ o.tip = tip ∧
      ∀ r' ∈ after, ∀ o', r'.result ≠ .ok o' := by
  induction log using List.reverseRecOn with
  | nil => cases h
  | append_singleton log r ih =>
      have hkept : (∃ o, r.result = .ok o ∧ o.tip = tip) ∨
          (∀ o, r.result ≠ .ok o) ∧
            (IndexerStatus.replay startedAt log).tipHeight = some tip := by
        rw [replay_append_singleton, IndexerStatus.apply] at h
        split at h
        · rename_i o ho
          exact Or.inl ⟨o, ho, Option.some.inj h⟩
        · rename_i e he
          exact Or.inr ⟨by simp [he], h⟩
        · rename_i e he
          exact Or.inr ⟨by simp [he], h⟩
      rcases hkept with ⟨o, ho, htip⟩ | ⟨hr, hlog⟩
      · exact ⟨log, r, [], o, rfl, ho, htip, fun r' hr' => absurd hr' List.not_mem_nil⟩
      · obtain ⟨before, r₀, after, o, rfl, ho, htip, hafter⟩ := ih hlog
        refine ⟨before, r₀, after ++ [r], o, by simp, ho, htip, fun r' hr' => ?_⟩
        rcases List.mem_append.mp hr' with hr' | hr'
        · exact hafter r' hr'
        · rw [List.mem_singleton.mp hr']
          exact hr

/-- The failures are counted, up to what the counters hold. -/
theorem replay_failures :
    (IndexerStatus.replay startedAt log).totalFailures.toNat =
        min (log.countP TickRecord.failed) (2 ^ 64 - 1) ∧
      (NoFatal log → (IndexerStatus.replay startedAt log).consecutiveFailures.toNat =
        min (log.reverse.takeWhile TickRecord.failed).length (2 ^ 32 - 1)) := by
  induction log using List.reverseRecOn with
  | nil => exact ⟨rfl, fun _ => rfl⟩
  | append_singleton log r ih =>
      obtain ⟨ihTotal, ihConsecutive⟩ := ih
      rw [replay_append_singleton, IndexerStatus.apply, List.countP_append,
        List.countP_singleton, List.reverse_concat, List.takeWhile_cons]
      split
      · rename_i o ho
        have hfailed : r.failed = false := by rw [TickRecord.failed, ho]
        rw [hfailed]
        exact ⟨ihTotal, fun _ => rfl⟩
      · rename_i e he
        have hfailed : r.failed = true := by rw [TickRecord.failed, he]
        rw [hfailed, if_pos rfl, if_pos rfl, List.length_cons]
        refine ⟨?_, fun hfatal => ?_⟩
        · rw [IndexerStatus.recordFailure, UInt64.toNat_ofNat_of_lt' (by simp), ihTotal]
          omega
        · have hlog := ihConsecutive hfatal.of_append.1
          rw [IndexerStatus.recordFailure, UInt32.toNat_ofNat_of_lt' (by simp), hlog]
          omega
      · rename_i e he
        have hfailed : r.failed = false := by rw [TickRecord.failed, he]
        rw [hfailed]
        exact ⟨ihTotal, fun hfatal => absurd he (hfatal.of_append.2 e)⟩

end Replay

/-! ### The history is true -/

section Recorded

variable {σ : Type} (S : StateStore σ)

/-- A tick that has started from this height: it waits for the tip, or has got it and shared it, or
has ended without an outcome. -/
def Node.Started (before : Option BlockHeight) (n : Node σ) : Prop :=
  n.sync.control = .awaiting (.tip before) ∨
    (∃ tip, n.tipHandle = some tip ∧ Reports S before tip (n.sync.store, n.sync.control)) ∨
    n.sync.control.await? = none ∧ ∀ o, n.sync.control ≠ .returned (.ok o)

/-- The status is the history, replayed, and the history is what happened to the store. -/
structure Node.Recorded (startedAt : ℕ) (height : Option BlockHeight) (n : Node σ) :
    Prop where
  health : n.health = .replay startedAt n.log
  times : (n.log.map TickRecord.time).Pairwise (· ≤ ·)
  started : startedAt ≤ n.now
  past : ∀ r ∈ n.log, r.time ≤ n.now
  truthful : ∀ before r after, n.log = before ++ r :: after →
    r.Truthful (heightAfter height before)
  noFatal : (∀ e, n.exit ≠ some (.error e)) → NoFatal n.log
  exit : ∀ e, n.exit = some (.error e) →
    ∃ before r, n.log = before ++ [r] ∧ r.result = .error (.fatal e)
  resting : n.ticking = false → n.sync.control.await? = none ∧
    S.indexedHeight n.sync.store = heightAfter height n.log
  tip : n.ticking = false → ∀ before r o, n.log = before ++ [r] → r.result = .ok o →
    n.tipHandle.map BlockRef.height = some o.tip
  ticking : n.ticking = true → n.exit = none ∧ n.Started S (heightAfter height n.log)

variable {S} {P : Platform} {config : IndexerConfig} {n : Node σ} {startedAt : ℕ}
  {height : Option BlockHeight}

/-- A node that has started is recorded. -/
theorem Node.recorded_init (chain : Chain) (store : σ) (now : ℕ) :
    (Node.init chain store now).Recorded S now (S.indexedHeight store) where
  health := rfl
  times := List.Pairwise.nil
  started := le_refl now
  past r hr := absurd hr List.not_mem_nil
  truthful before r after h := by simp [init] at h
  noFatal _ r hr := absurd hr List.not_mem_nil
  exit e h := by cases h
  resting _ := ⟨rfl, rfl⟩
  tip _ before r o h := by simp [init] at h
  ticking h := by cases h

/-- A tip that is answered is shared. -/
theorem Node.tipHandle_answer_tip {before : Option BlockHeight} {source : ChainSource}
    {tip : BlockRef} (h : source.tip = .ok tip) :
    (n.answer S P config source (.tip before)).tipHandle = some tip := by
  unfold answer
  rw [h]

/-- Later answers of a tick share nothing. -/
theorem Node.tipHandle_answer_of_locals {await : Await} {locals : TickLocals}
    (source : ChainSource) (h : await.locals? = some locals) :
    (n.answer S P config source await).tipHandle = n.tipHandle := by
  cases await with
  | tip => cases h
  | reorgHash => rfl
  | targetHash => rfl
  | nextHash => rfl
  | rawBlock => rfl

/-- An answer keeps where the tick started. -/
theorem Node.Started.answer {before : Option BlockHeight} {await : Await} (source : ChainSource)
    (hn : n.Started S before) (h : n.sync.control.await? = some await) :
    (n.answer S P config source await).Started S before := by
  rcases hn with hcontrol | ⟨tip, htip, hreports⟩ | ⟨hnone, -⟩
  · obtain rfl : Await.tip before = await := by
      rw [hcontrol] at h
      exact Option.some.inj h
    cases hsource : source.tip with
    | ok tip =>
        exact Or.inr (Or.inl ⟨tip, tipHandle_answer_tip hsource, resume_tip_reports hsource⟩)
    | error e =>
        have hcontrol' : (n.answer S P config source (.tip before)).sync.control =
            .returned (.error (.transient ("fetching chain tip" ++ ": " ++ e))) := by
          show (Await.resume S P config n.sync.stop source n.sync.store (.tip before)).2 = _
          rw [Await.resume, hsource]
          rfl
        exact Or.inr (Or.inr ⟨hcontrol' ▸ rfl, fun o ho => by rw [hcontrol'] at ho; cases ho⟩)
  · have hlocals := hreports.await await h
    exact Or.inr (Or.inl ⟨tip, (tipHandle_answer_of_locals source hlocals).trans htip,
      resume_reports source hlocals⟩)
  · rw [hnone] at h
    cases h

/-- An answer keeps the record. -/
theorem Node.Recorded.answer {await : Await} (source : ChainSource)
    (hn : n.Recorded S startedAt height) (h : n.sync.control.await? = some await) :
    (n.answer S P config source await).Recorded S startedAt height := by
  have hticking : n.ticking = true := by
    by_contra hfalse
    rw [(hn.resting (Bool.eq_false_iff.mpr hfalse)).1] at h
    cases h
  obtain ⟨hexit, hstarted⟩ := hn.ticking hticking
  have hresting : n.ticking ≠ false := by simp [hticking]
  exact { hn with
    resting := fun hfalse => absurd hfalse hresting
    tip := fun hfalse => absurd hfalse hresting
    ticking := fun _ => ⟨hexit, hstarted.answer source h⟩ }

/-- A tick that ends tells where it started and where it ended. -/
theorem Node.Started.truthful {before : Option BlockHeight} {result : Except SyncError TickOutcome}
    (hn : n.Started S before) (h : n.sync.control = .returned result) {o : TickOutcome}
    (ho : result = .ok o) :
    o.indexedBefore = before ∧ o.indexedAfter = S.indexedHeight n.sync.store ∧
      n.tipHandle.map BlockRef.height = some o.tip := by
  subst ho
  rcases hn with hcontrol | ⟨tip, htip, hreports⟩ | ⟨-, hnone⟩
  · rw [hcontrol] at h
    cases h
  · rw [hreports.outcome o h, htip]
    exact ⟨rfl, rfl, rfl⟩
  · exact absurd h (hnone o)

/-- A record that is true of the tick that ended. -/
theorem Node.Recorded.record {result : Except SyncError TickOutcome}
    (hn : n.Recorded S startedAt height) (hticking : n.ticking = true)
    (h : n.sync.control = .returned result) :
    (n.record S result).Recorded S startedAt height := by
  obtain ⟨hexit, hstarted⟩ := hn.ticking hticking
  have hfatal : NoFatal n.log := hn.noFatal fun e he => by simp [hexit] at he
  set r : TickRecord := ⟨n.now, result, S.indexedHeight n.sync.store⟩ with hr
  obtain ⟨hlog, hhealth, hnow, hsync, htip, hdone⟩ :
      (n.record S result).log = n.log ++ [r] ∧ (n.record S result).health = n.health.apply r ∧
        (n.record S result).now = n.now ∧ (n.record S result).sync = n.sync ∧
          (n.record S result).tipHandle = n.tipHandle ∧ (n.record S result).ticking = false := by
    unfold Node.record IndexerStatus.apply
    split <;> exact ⟨rfl, rfl, rfl, rfl, rfl, rfl⟩
  have hexits : (∀ e, (n.record S result).exit ≠ some (.error e)) ∧
      (∀ e, result ≠ .error (.fatal e)) ∨
        ∃ e, (n.record S result).exit = some (.error e) ∧ result = .error (.fatal e) := by
    unfold Node.record
    split
    · exact Or.inl ⟨by simp [hexit], by simp⟩
    · exact Or.inl ⟨by simp [hexit], by simp⟩
    · exact Or.inr ⟨_, rfl, rfl⟩
  refine ⟨?_, ?_, hnow.symm ▸ hn.started, ?_, ?_, ?_, ?_, fun _ => ?_,
    fun _ before r' o hsplit ho => ?_, ?_⟩
  · rw [hhealth, hlog, replay_append_singleton, hn.health]
  · rw [hlog, List.map_append, List.pairwise_append]
    refine ⟨hn.times, List.pairwise_singleton _ _, fun t ht t' ht' => ?_⟩
    obtain ⟨r', hr', rfl⟩ := List.mem_map.mp ht
    obtain rfl := List.mem_singleton.mp ht'
    exact hn.past r' hr'
  · intro r' hr'
    rw [hlog] at hr'
    rw [hnow]
    rcases List.mem_append.mp hr' with hr' | hr'
    · exact hn.past r' hr'
    · rw [List.mem_singleton.mp hr']
  · intro before r' after hsplit
    rw [hlog] at hsplit
    rcases List.eq_nil_or_concat after with rfl | ⟨after, last, rfl⟩
    · obtain ⟨rfl, heq⟩ := List.append_inj' hsplit rfl
      obtain rfl := (List.cons.inj heq).1
      intro o ho
      obtain ⟨hbefore, hafter, -⟩ := hstarted.truthful h ho
      exact ⟨hbefore, hafter⟩
    · have happend : n.log ++ [r] = (before ++ r' :: after) ++ [last] := by simpa using hsplit
      exact hn.truthful before r' after (List.append_inj_left' happend rfl)
  · intro hnone r' hr'
    rw [hlog] at hr'
    rcases hexits with ⟨-, hr₀⟩ | ⟨e, he, -⟩
    · rcases List.mem_append.mp hr' with hr' | hr'
      · exact hfatal r' hr'
      · rw [List.mem_singleton.mp hr']
        exact hr₀
    · exact absurd he (hnone e)
  · intro e he
    rcases hexits with ⟨hnone, -⟩ | ⟨e', he', hresult⟩
    · exact absurd he (hnone e)
    · rw [he'] at he
      obtain rfl := Except.error.inj (Option.some.inj he)
      exact ⟨n.log, r, hlog, hresult⟩
  · rw [hsync, hlog, heightAfter_append_singleton, h]
    exact ⟨rfl, rfl⟩
  · rw [hlog] at hsplit
    obtain ⟨-, heq⟩ := List.append_inj' hsplit rfl
    obtain rfl := (List.cons.inj heq).1
    rw [htip]
    exact (hstarted.truthful h ho).2.2
  · intro htrue
    rw [hdone] at htrue
    cases htrue

/-- Each step keeps the history true. -/
theorem Node.Recorded.step {chains : Set Chain} {n' : Node σ} (hn : n.Recorded S startedAt height)
    (h : NodeStep S P config chains n n') : n'.Recorded S startedAt height := by
  cases h with
  | clock d =>
      exact { hn with
        started := hn.started.trans (Nat.le_add_right _ d)
        past := fun r hr => (hn.past r hr).trans (Nat.le_add_right _ d) }
  | replace chain => exact { hn with }
  | stop stop => exact { hn with }
  | begin hticking hexit =>
      refine { hn with
        resting := fun hfalse => by cases hfalse
        tip := fun hfalse => by cases hfalse
        ticking := fun _ => ⟨hexit, Or.inl ?_⟩ }
      rw [Sync.begin, (hn.resting hticking).2]
  | quit hticking hexit =>
      exact { hn with
        noFatal := fun _ => hn.noFatal (by simp [hexit])
        exit := fun e he => by cases he
        ticking := fun htrue => by simp [hticking] at htrue }
  | call await hawait => exact hn.answer _ hawait
  | unreachable await e hawait => exact hn.answer _ hawait
  | record result hticking hcontrol => exact hn.record hticking hcontrol

/-- **The run lemma**: every node of a run is recorded. -/
theorem Node.Recorded.run {chains : Set Chain} {n' : Node σ} (hn : n.Recorded S startedAt height)
    (h : NodeRun S P config chains n n') : n'.Recorded S startedAt height := by
  induction h with
  | refl => exact hn
  | tail _ hstep ih => exact ih.step hstep

/-- **The history of every run is true.** -/
theorem Node.recorded_of_run {chains : Set Chain} {chain : Chain} {store : σ}
    (h : NodeRun S P config chains (.init chain store startedAt) n) :
    n.Recorded S startedAt (S.indexedHeight store) :=
  (recorded_init chain store startedAt).run h

end Recorded

/-! ### Liveness -/

/-- What the assessed liveness says about a run that started at this moment, with a store of this
height. -/
structure Node.HealthTruthful {σ : Type} (S : StateStore σ) (staleAfter : ℕ) (startedAt : ℕ)
    (height : Option BlockHeight) (n : Node σ) : Prop where
  /-- Dead: the loop has returned that error. -/
  dead : ∀ reason, n.health.assess n.now staleAfter = .dead reason ↔
    n.exit = some (.error reason)
  /-- Healthy: it has not, and some tick advanced recently. -/
  healthy : (∃ caughtUp, n.health.assess n.now staleAfter = .healthy caughtUp) ↔
    (∀ e, n.exit ≠ some (.error e)) ∧ ∃ r ∈ n.log, r.Advanced ∧ n.now ≤ r.time + staleAfter
  starting : n.health.assess n.now staleAfter = .starting ↔
    (∀ e, n.exit ≠ some (.error e)) ∧ (∀ r ∈ n.log, ¬ r.Advanced) ∧
      n.now ≤ startedAt + staleAfter
  /-- Stalled: nothing has advanced in that span, nor did the loop start in it. -/
  stalled : ∀ since lastError, n.health.assess n.now staleAfter = .stalled since lastError →
    staleAfter < since ∧ (∀ e, n.exit ≠ some (.error e)) ∧
      (∀ r ∈ n.log, r.Advanced → r.time + since ≤ n.now) ∧
      ((∀ r ∈ n.log, ¬ r.Advanced) → n.now = startedAt + since)
  /-- A tick advanced if it returned `Ok`, and the indexed height is not the one that was recorded
  before it, or is at the tip that it got. -/
  advanced : ∀ before r after, n.log = before ++ r :: after →
    (r.Advanced ↔ ∃ o, r.result = .ok o ∧
      (r.indexed ≠ heightAfter height before ∨ ∃ h, r.indexed = some h ∧ o.tip ≤ h))
  /-- Caught up: between ticks, the store is at the tip which the last tick to return `Ok` got. -/
  caughtUp : n.health.assess n.now staleAfter = .healthy true → n.ticking = false →
    ∃ before r after o h, n.log = before ++ r :: after ∧ r.result = .ok o ∧
      (∀ r' ∈ after, ∀ o', r'.result ≠ .ok o') ∧
        S.indexedHeight n.sync.store = some h ∧ o.tip ≤ h
  totalFailures : n.health.totalFailures.toNat =
    min (n.log.countP TickRecord.failed) (2 ^ 64 - 1)
  /-- The failures since the last tick that returned `Ok`. -/
  consecutiveFailures : (∀ e, n.exit ≠ some (.error e)) →
    n.health.consecutiveFailures.toNat =
      min (n.log.reverse.takeWhile TickRecord.failed).length (2 ^ 32 - 1)

section Truthful

variable {σ : Type} {S : StateStore σ} {n : Node σ} {startedAt : ℕ}
  {height : Option BlockHeight}

/-- The loop has not failed exactly when its status has no reason for it. -/
theorem Node.Recorded.dead_eq_none_iff (hn : n.Recorded S startedAt height) :
    n.health.dead = none ↔ ∀ e, n.exit ≠ some (.error e) := by
  constructor
  · intro hdead e he
    obtain ⟨before, r, hlog, hr⟩ := hn.exit e he
    rw [hn.health, hlog, replay_dead_of_fatal hr] at hdead
    cases hdead
  · intro hnone
    rw [hn.health]
    exact replay_dead_of_noFatal (hn.noFatal hnone)

/-- It is dead exactly if the loop returned this error. -/
theorem Node.Recorded.dead_eq_some_iff (hn : n.Recorded S startedAt height) {e : String} :
    n.health.dead = some e ↔ n.exit = some (.error e) := by
  have hsome : ∀ e, n.exit = some (.error e) → n.health.dead = some e := by
    intro e he
    obtain ⟨before, r, hlog, hr⟩ := hn.exit e he
    rw [hn.health, hlog, replay_dead_of_fatal hr]
  refine ⟨fun hdead => ?_, hsome e⟩
  by_contra hne
  have hnone : n.health.dead = none := hn.dead_eq_none_iff.mpr fun e' he' => by
    obtain rfl := Option.some.inj (hdead.symm.trans (hsome e' he'))
    exact hne he'
  rw [hnone] at hdead
  cases hdead

/-- It has made no progress exactly if no tick advanced. -/
theorem Node.Recorded.lastProgress_eq_none_iff (hn : n.Recorded S startedAt height) :
    n.health.lastProgress = none ↔ ∀ r ∈ n.log, ¬ r.Advanced := by
  rw [hn.health]
  obtain ⟨hsome, hmem⟩ := replay_lastProgress startedAt n.log
  constructor
  · intro hnone r hr hadv
    obtain ⟨t, ht, -⟩ := hmem r hr hadv hn.times
    rw [hnone] at ht
    cases ht
  · intro hnot
    by_contra hne
    obtain ⟨t, ht⟩ := Option.ne_none_iff_exists'.mp hne
    obtain ⟨r, hr, hadv, -⟩ := hsome t ht
    exact hnot r hr hadv

/-- It knows when it was started. -/
theorem Node.Recorded.startedAt_eq (hn : n.Recorded S startedAt height) :
    n.health.startedAt = startedAt := hn.health ▸ replay_startedAt

/-- What the ticks that returned `Ok` said of the indexed height is in the records. -/
theorem Node.Recorded.indexedAfter_eq (hn : n.Recorded S startedAt height) :
    ∀ r ∈ n.log, ∀ o, r.result = .ok o → o.indexedAfter = r.indexed := by
  intro r hr o ho
  obtain ⟨before, after, hlog⟩ := List.append_of_mem hr
  exact (hn.truthful before r after hlog o ho).2

/-- A tick that reports the truth advanced when the store did, or is at the tip. -/
theorem TickRecord.Truthful.advanced_iff {r : TickRecord} {before : Option BlockHeight}
    (h : r.Truthful before) :
    r.Advanced ↔ ∃ o, r.result = .ok o ∧
      (r.indexed ≠ before ∨ ∃ h, r.indexed = some h ∧ o.tip ≤ h) := by
  refine exists_congr fun o => and_congr_right fun ho => ?_
  obtain ⟨hbefore, hafter⟩ := h o ho
  rw [TickOutcome.advanced, hbefore, hafter, Bool.or_eq_true, decide_eq_true_iff,
    Option.any_eq_true]
  simp

/-- Its health is truthful. -/
theorem Node.Recorded.healthTruthful (hn : n.Recorded S startedAt height) (staleAfter : ℕ) :
    n.HealthTruthful S staleAfter startedAt height where
  dead reason := IndexerStatus.assess_eq_dead.trans hn.dead_eq_some_iff
  healthy := by
    rw [IndexerStatus.exists_assess_eq_healthy, hn.dead_eq_none_iff]
    refine and_congr_right fun _ => ?_
    obtain ⟨hsome, hmem⟩ := replay_lastProgress startedAt n.log
    rw [← hn.health] at hsome hmem
    constructor
    · rintro ⟨t, ht, hle⟩
      obtain ⟨r, hr, hadv, rfl⟩ := hsome t ht
      exact ⟨r, hr, hadv, hle⟩
    · rintro ⟨r, hr, hadv, hle⟩
      obtain ⟨t, ht, hlater⟩ := hmem r hr hadv hn.times
      exact ⟨t, ht, by omega⟩
  starting := by
    rw [IndexerStatus.assess_eq_starting, hn.dead_eq_none_iff, hn.lastProgress_eq_none_iff,
      hn.startedAt_eq]
  stalled since lastError h := by
    obtain ⟨hdead, hsince, hnow, -⟩ := IndexerStatus.assess_eq_stalled h
    refine ⟨hsince, hn.dead_eq_none_iff.mp hdead, fun r hr hadv => ?_, fun hnot => ?_⟩
    · obtain ⟨t, ht, hlater⟩ :=
        (replay_lastProgress startedAt n.log).2 r hr hadv hn.times
      rw [← hn.health] at ht
      rw [ht, Option.getD_some] at hnow
      omega
    · rw [hn.lastProgress_eq_none_iff.mpr hnot, Option.getD_none, hn.startedAt_eq] at hnow
      exact hnow
  advanced before r after h := (hn.truthful before r after h).advanced_iff
  caughtUp h hticking := by
    obtain ⟨i, tip, hindexed, htip, hle⟩ := (IndexerStatus.caughtUp_iff h).mp rfl
    obtain ⟨hdead, -⟩ := IndexerStatus.exists_assess_eq_healthy.mp ⟨true, h⟩
    rw [hn.health] at htip
    obtain ⟨before, r, after, o, hlog, ho, rfl, hafter⟩ := replay_tipHeight htip
    have hstore : S.indexedHeight n.sync.store = some i := by
      rw [(hn.resting hticking).2, hlog, heightAfter_of_ne_nil (by simp), ← hlog,
        ← hindexed, hn.health]
      exact (replay_indexedHeight (hn.noFatal (hn.dead_eq_none_iff.mp hdead))
        hn.indexedAfter_eq).symm
    exact ⟨before, r, after, o, i, hlog, ho, hafter, hstore, hle⟩
  totalFailures := hn.health ▸ replay_failures.1
  consecutiveFailures h := hn.health ▸ replay_failures.2 (hn.noFatal h)

/-- A loop is stalled when it lives on, and neither an advance nor its start is recent. -/
theorem Node.Recorded.stalled_iff (hn : n.Recorded S startedAt height) {staleAfter : ℕ} :
    (∃ since lastError, n.health.assess n.now staleAfter = .stalled since lastError) ↔
      (∀ e, n.exit ≠ some (.error e)) ∧
        (∀ r ∈ n.log, r.Advanced → r.time + staleAfter < n.now) ∧
          ((∀ r ∈ n.log, ¬ r.Advanced) → startedAt + staleAfter < n.now) := by
  have htrue := hn.healthTruthful staleAfter
  constructor
  · rintro ⟨since, lastError, h⟩
    obtain ⟨hsince, hexit, hadvanced, hstart⟩ := htrue.stalled since lastError h
    refine ⟨hexit, fun r hr hadv => ?_, fun hnot => ?_⟩
    · have hle := hadvanced r hr hadv
      omega
    · have hnow := hstart hnot
      omega
  · rintro ⟨hexit, hadvanced, hstart⟩
    cases hassess : n.health.assess n.now staleAfter with
    | starting =>
        obtain ⟨-, hnot, hle⟩ := htrue.starting.mp hassess
        have hlt := hstart hnot
        omega
    | healthy caughtUp =>
        obtain ⟨-, r, hr, hadv, hle⟩ := htrue.healthy.mp ⟨caughtUp, hassess⟩
        have hlt := hadvanced r hr hadv
        omega
    | stalled since lastError => exact ⟨since, lastError, rfl⟩
    | dead reason => exact absurd ((htrue.dead reason).mp hassess) (hexit reason)

end Truthful

/-- **The liveness that a node reports is true**, in every state of every run. -/
theorem health_truthful {σ : Type} {S : StateStore σ} {P : Platform} {config : IndexerConfig}
    {chains : Set Chain} {chain : Chain} {store : σ} {startedAt : ℕ} {n : Node σ}
    (h : NodeRun S P config chains (.init chain store startedAt) n) (staleAfter : ℕ) :
    n.HealthTruthful S staleAfter startedAt (S.indexedHeight store) :=
  (Node.recorded_of_run h).healthTruthful staleAfter

/-- The first tick does not reach the node. -/
theorem health_truthful_unreachable :
    ∃ n, NodeRun (MemoryState.store lengthHashing) genesisPlatform lateConfig {genesisChain}
        (.init genesisChain MemoryState.new 7) n ∧ n.log.length = 1 ∧
      n.HealthTruthful (MemoryState.store lengthHashing) 120 7 none := by
  have hrun := (((Relation.ReflTransGen.refl
    (r := NodeStep (MemoryState.store lengthHashing) genesisPlatform lateConfig {genesisChain})
      (a := .init genesisChain MemoryState.new 7)).tail (.begin rfl rfl rfl)).tail
        (.unreachable _ "connection refused" rfl)).tail (.record _ rfl rfl)
  exact ⟨_, hrun, rfl, health_truthful hrun 120⟩

end Zalkanes
