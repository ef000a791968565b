import Zalkanes.Indexer.Records

/-!
# Execution Records and the Chain

Saved records are not part of the undo journal: a rollback leaves the records of the blocks it takes
back, and readers go on reporting them. On RocksDB a block that is processed at a height of the
history also takes the place of the block of that height, whose records stay.

## Main results

* `ChainStep.followsChain_iff`: which steps keep to records of the chain.
* `followsChain_of_run`: both backends, over runs of blocks and rollbacks.
-/

namespace Zalkanes

open Lib

/-- What the indexer can be told to do. -/
inductive ChainEvent where
  | block (block : BlockInput)
  | rollback (target : BlockHeight)

section Steps

variable {σ : Type} (S : StateStore σ) (P : Platform) (config : IndexerConfig)
  (X : RecordReaders σ)

/-- An event, and the calls and records that it produces. -/
inductive ChainStep : σ → ChainEvent → List (CallContext × CallResult) → List Execution → σ → Prop
  | block {s s' : σ} (block : BlockInput) {a : Option BlockAcc} {res : Except String BlockExecution}
      (hacc : block.acc P config (S.view s) = .ok a)
      (hprocess : block.process S P config s = .ok (s', res)) :
      ChainStep s (.block block) (block.produced a).calls (block.produced a).executions s'
  | rollback (s : σ) (t : BlockHeight) :
      ChainStep s (.rollback t) [] [] (S.rollbackTo s t).1

/-- Every reported record is of a block of the history. -/
structure FollowsChain (s : σ) : Prop where
  execution : ∀ txid e, X.execution s txid = some e → S.Recorded s e.blockHeight e.blockHash
  atHeight : ∀ h, ∀ e ∈ X.executionsAtHeight s h, S.Recorded s e.blockHeight e.blockHash

/-- The event leaves no record without its block. A rollback does not go below a reported record;
and where a commit replaces the record of its height, a block that is processed at the height of a
reported record of another block calls for the same transaction again. -/
def ChainEvent.KeepsRecords (replaces : Bool) (s : σ) (calls : List (CallContext × CallResult)) :
    ChainEvent → Prop
  | .rollback t => ∀ txid e, X.execution s txid = some e → e.blockHeight ≤ t
  | .block b => replaces → ¬ b.Skipped P config → ∀ txid e, X.execution s txid = some e →
      e.blockHeight = b.height → e.blockHash = b.hash ∨ ∃ call ∈ calls, call.1.txid = txid

/-- Runs of events each of which keeps the records with their blocks, and the records that were
produced. -/
inductive ChainRun (replaces : Bool) (s₀ : σ) : List Execution → σ → Prop
  | refl : ChainRun replaces s₀ [] s₀
  | tail {produced : List Execution} {s s' : σ} (h : ChainRun replaces s₀ produced s)
      {ev : ChainEvent} {calls : List (CallContext × CallResult)} {es : List Execution}
      (hstep : ChainStep S P config s ev calls es s')
      (hkeeps : ev.KeepsRecords P config X replaces s calls) :
      ChainRun replaces s₀ (produced ++ es) s'

end Steps

section Laws

variable {σ : Type} {S : StateStore σ} {P : Platform} {config : IndexerConfig}
  {X : RecordReaders σ} {E : Execution → Prop} {Keeps : σ → Records → Prop} {replaces : Bool}
  {Journaled : σ → Prop} {s s' s₀ : σ} {r : Records}

/-- Records that are reported at a height are reported under their transactions. -/
theorem followsChain_iff (hs : X.Serves s r) :
    FollowsChain S X s ↔
      ∀ txid e, r.find txid = some e → S.Recorded s e.blockHeight e.blockHash := by
  constructor
  · intro h txid e he
    exact h.execution txid e ((hs.execution txid).trans he)
  · intro h
    refine ⟨fun txid e he => h txid e ((hs.execution txid).symm.trans he), fun height e he => ?_⟩
    have hmem := List.mem_of_mem_filter ((hs.atHeight height).mem_iff.mp he)
    exact h _ e (Keyed.mem_values.mp hmem)

/-- The laws after a step. -/
theorem ChainStep.keeps (hS : S.Committing P.hashing) (L : RecordLaws S X E Keeps)
    (C : HistoryLaws S replaces Journaled) (hs : Keeps s r) (hj : Journaled s) {ev : ChainEvent}
    {calls : List (CallContext × CallResult)} {es : List Execution}
    (h : ChainStep S P config s ev calls es s') (hE : ∀ e ∈ es, E e) :
    Keeps s' (r.saveAll es) ∧ Journaled s' := by
  cases h with
  | rollback t => exact ⟨L.rollbackTo hs t, (C.rollbackTo hj t).1⟩
  | block block hacc hprocess =>
      obtain ⟨a', hacc', hcases⟩ := BlockInput.process_effect hS hprocess
      obtain rfl := Except.ok.inj (hacc.symm.trans hacc')
      rcases hcases with ⟨-, rfl, rfl⟩ | ⟨-, c, -, -, ⟨rfl, rfl⟩ | ⟨acc, rfl, rfl⟩⟩
      · exact ⟨hs, hj⟩
      · exact ⟨L.commitBlock hs c, (C.commitBlock hj c).1⟩
      · exact ⟨(L.saveExecutions (L.commitBlock hs c) _ hE).1,
          (C.saveExecutions (C.commitBlock hj c).1 _).1⟩

/-- **Which steps keep to records of the chain.** -/
theorem ChainStep.followsChain_iff (hS : S.Committing P.hashing) (L : RecordLaws S X E Keeps)
    (C : HistoryLaws S replaces Journaled) (hs : Keeps s r) (hj : Journaled s)
    (hchain : FollowsChain S X s) {ev : ChainEvent} {calls : List (CallContext × CallResult)}
    {es : List Execution} (h : ChainStep S P config s ev calls es s') (hE : ∀ e ∈ es, E e) :
    FollowsChain S X s' ↔ ev.KeepsRecords P config X replaces s calls := by
  have hserves := L.serves hs
  have hs' := (h.keeps hS L C hs hj hE).1
  have hold := (Zalkanes.followsChain_iff hserves).mp hchain
  rw [Zalkanes.followsChain_iff (L.serves hs')]
  cases h with
  | rollback t =>
      have hrecorded := (C.rollbackTo hj t).2
      constructor
      · intro hnew txid e he
        rw [hserves.execution] at he
        exact ((hrecorded _ _).mp (hnew txid e he)).2
      · intro hkeeps txid e he
        exact (hrecorded _ _).mpr ⟨hold txid e he,
          hkeeps txid e ((hserves.execution txid).trans he)⟩
  | @block _ block a _ hacc hprocess =>
      obtain ⟨hisOf, hblock⟩ := BlockInput.records_of_acc hacc
      have htxids := map_txid_of_isOf hisOf
      -- a call of the transaction is a record of it
      have hcalled : ∀ txid, (∃ call ∈ (block.produced a).calls, call.1.txid = txid) ↔
          ∃ e ∈ (block.produced a).executions, e.txid = txid := by
        intro txid
        rw [← List.mem_map, ← htxids, List.mem_map]
      obtain ⟨a', hacc', hcases⟩ := BlockInput.process_effect hS hprocess
      obtain rfl := Except.ok.inj (hacc.symm.trans hacc')
      rcases hcases with ⟨hskip, rfl, rfl⟩ | ⟨hskip, c, hheight, hhash, hcommit⟩
      · exact ⟨fun _ _ hnot => absurd hskip hnot, fun _ => hold⟩
      have hrecorded : ∀ h hash, S.Recorded s' h hash ↔
          h = block.height ∧ hash = block.hash ∨
            S.Recorded s h hash ∧ ¬ (replaces ∧ h = block.height) := by
        intro h hash
        have hsame : S.Recorded s' h hash ↔ S.Recorded (S.commitBlock s c).1 h hash := by
          rcases hcommit with ⟨-, rfl⟩ | ⟨acc, -, rfl⟩
          · exact Iff.rfl
          · rw [StateStore.Recorded, (C.saveExecutions (C.commitBlock hj c).1 _).2]
            exact Iff.rfl
        rw [hsame, (C.commitBlock hj c).2, hheight, hhash]
      constructor
      · intro hnew hreplaces _ txid e he hh
        rw [hcalled]
        by_cases hagain : ∃ e ∈ (block.produced a).executions, e.txid = txid
        · exact Or.inr hagain
        · have hfind : (r.saveAll (block.produced a).executions).find txid = some e := by
            rw [Keyed.find_saveAll, List.find?_eq_none.mpr, Option.none_or, ← hserves.execution, he]
            intro e' he' heq
            exact hagain ⟨e', List.mem_reverse.mp he', of_decide_eq_true heq⟩
          rcases (hrecorded _ _).mp (hnew txid e hfind) with ⟨-, hb⟩ | ⟨-, hnot⟩
          · exact Or.inl hb
          · exact absurd ⟨hreplaces, hh⟩ hnot
      · intro hkeeps txid e he
        rw [hrecorded]
        rcases Keyed.mem_of_find_saveAll he with he | ⟨he, hother⟩
        · exact Or.inl (hblock e he)
        · by_cases hsame : replaces ∧ e.blockHeight = block.height
          · have he' := (hserves.execution txid).trans he
            rcases hkeeps hsame.1 hskip txid e he' hsame.2 with hb | hagain
            · exact Or.inl ⟨hsame.2, hb⟩
            · obtain ⟨e', he', heq⟩ := (hcalled txid).mp hagain
              exact absurd heq (hother e' he')
          · exact Or.inr ⟨hold txid e he, hsame⟩

/-- What the laws say after a run. -/
theorem ChainRun.keeps (hS : S.Committing P.hashing) (L : RecordLaws S X E Keeps)
    (C : HistoryLaws S replaces Journaled) (h₀ : Keeps s₀ .empty) (hj : Journaled s₀)
    {produced : List Execution} (h : ChainRun S P config X replaces s₀ produced s)
    (hE : ∀ e ∈ produced, E e) :
    Keeps s (Keyed.empty.saveAll produced) ∧ Journaled s ∧ FollowsChain S X s := by
  induction h with
  | refl =>
      refine ⟨h₀, hj, (Zalkanes.followsChain_iff (L.serves h₀)).mpr fun txid e he => ?_⟩
      rw [Keyed.find_empty] at he
      cases he
  | @tail produced s s' _ ev calls es hstep hkeeps ih =>
      obtain ⟨hs, hj, hchain⟩ := ih fun e he => hE e (List.mem_append_left _ he)
      have hes : ∀ e ∈ es, E e := fun e he => hE e (List.mem_append_right _ he)
      obtain ⟨hs', hj'⟩ := hstep.keeps hS L C hs hj hes
      rw [Keyed.saveAll_append]
      exact ⟨hs', hj', (hstep.followsChain_iff hS L C hs hj hchain hes).mpr hkeeps⟩

/-- **Which runs keep to records of the chain**, for a store under the laws. -/
theorem ChainRun.followsChain (hS : S.Committing P.hashing) (L : RecordLaws S X E Keeps)
    (C : HistoryLaws S replaces Journaled) (h₀ : Keeps s₀ .empty) (hj : Journaled s₀)
    {produced : List Execution} (h : ChainRun S P config X replaces s₀ produced s)
    (hE : ∀ e ∈ produced, E e) :
    FollowsChain S X s ∧ ∀ ev calls es s', ChainStep S P config s ev calls es s' →
      (∀ e ∈ es, E e) → (FollowsChain S X s' ↔ ev.KeepsRecords P config X replaces s calls) := by
  obtain ⟨hs, hj, hchain⟩ := h.keeps hS L C h₀ hj hE
  exact ⟨hchain, fun ev calls es s' hstep hes => hstep.followsChain_iff hS L C hs hj hchain hes⟩

end Laws

/-- **When the reported records follow the chain.** In every run of blocks and rollbacks in which no
event leaves a record without its block, every reported record is of a block of the history; and
the first event that does leave one ends that. -/
theorem followsChain_of_run (P : Platform) (config : IndexerConfig)
    (fromJson : Bytes → Option Execution) :
    (∀ produced s, ChainRun (MemoryState.store P.hashing) P config MemoryState.readers false
        MemoryState.new produced s →
      FollowsChain (MemoryState.store P.hashing) MemoryState.readers s ∧
        ∀ ev calls es s', ChainStep (MemoryState.store P.hashing) P config s ev calls es s' →
          (FollowsChain (MemoryState.store P.hashing) MemoryState.readers s' ↔
            ev.KeepsRecords P config MemoryState.readers false s calls)) ∧
    ∀ produced s, ChainRun (RocksState.store P.hashing P.json) P config
        (RocksState.readers fromJson) true RocksState.fresh produced s →
      (∀ e ∈ produced, Encodes P.json fromJson e) →
      FollowsChain (RocksState.store P.hashing P.json) (RocksState.readers fromJson) s ∧
        ∀ ev calls es s', ChainStep (RocksState.store P.hashing P.json) P config s ev calls es s' →
          (∀ e ∈ es, Encodes P.json fromJson e) →
          (FollowsChain (RocksState.store P.hashing P.json) (RocksState.readers fromJson) s' ↔
            ev.KeepsRecords P config (RocksState.readers fromJson) true s calls) := by
  refine ⟨fun produced s h => ?_, fun produced s h hjson => ?_⟩
  · obtain ⟨hchain, hstep⟩ := h.followsChain (MemoryState.committing _)
      (MemoryState.recordLaws _) (MemoryState.historyLaws _) rfl
      (fun rec hrec => absurd hrec List.not_mem_nil) fun _ _ => trivial
    exact ⟨hchain, fun ev calls es s' h => hstep ev calls es s' h fun _ _ => trivial⟩
  · exact h.followsChain (RocksState.committing _ _) (RocksState.recordLaws _)
      (RocksState.historyLaws _) (RocksState.keepsRecords_fresh fromJson)
      RocksState.journaled_fresh hjson

/-- All runs of blocks and rollbacks. -/
abbrev AnyChainRun {σ : Type} (S : StateStore σ) (P : Platform) (config : IndexerConfig) :
    σ → σ → Prop :=
  Relation.ReflTransGen fun s s' => ∃ ev calls es, ChainStep S P config s ev calls es s'

section Rollback

variable {σ : Type} {S : StateStore σ} {P : Platform} {X : RecordReaders σ} {s₀ : σ}

/-- A block on a store without records. -/
theorem chainRun_block (replaces : Bool) (hserves : X.Serves s₀ .empty) {p : ParsedBlock}
    (hheight : 1 ≤ p.height) {acc : BlockAcc}
    (hacc : processTransactions P regtestConfig (S.view s₀) p = .ok acc) :
    ∃ s, ChainRun S P regtestConfig X replaces s₀ acc.executions s ∧
      AnyChainRun S P regtestConfig s₀ s ∧ ∀ e ∈ acc.executions, e.blockHeight = p.height := by
  obtain ⟨hblock, s, res, hprocess⟩ := exists_process_of_transactions S hheight hacc
  have hstep := ChainStep.block (.parsed p) hblock hprocess
  have hnone : ∀ txid e, X.execution s₀ txid ≠ some e := by
    intro txid e h
    rw [hserves.execution, Keyed.find_empty] at h
    cases h
  have hrun : ChainRun S P regtestConfig X replaces s₀ ([] ++ acc.executions) s :=
    ChainRun.refl.tail hstep fun _ _ txid e h => absurd h (hnone txid e)
  exact ⟨s, hrun, .single ⟨_, _, _, hstep⟩,
    fun e he => ((BlockInput.records_of_acc hblock).2 e he).1⟩

/-- The record of a block at height 1 does not follow the chain once the block is rolled back. -/
theorem not_followsChain_rollbackTo {E : Execution → Prop} {Keeps : σ → Records → Prop}
    {replaces : Bool} {Journaled : σ → Prop} (hS : S.Committing P.hashing)
    (L : RecordLaws S X E Keeps) (C : HistoryLaws S replaces Journaled) (h₀ : Keeps s₀ .empty)
    (hj : Journaled s₀) (hE : ∀ e, E e)
    (hmissing : (S.view s₀).getContract registerId = none) :
    ∃ s, AnyChainRun S P regtestConfig s₀ s ∧ ¬ FollowsChain S X s := by
  obtain ⟨acc, e, hacc, he⟩ := (exists_acc_callBlock P regtestConfig hmissing).1
  obtain ⟨s, hrun, hany, hheight⟩ := chainRun_block replaces (L.serves h₀) (by decide) hacc
  rw [he] at hrun hheight
  obtain ⟨hs, hj, hbefore⟩ := hrun.keeps hS L C h₀ hj fun e _ => hE e
  have hfound : X.execution s e.txid = some e := by
    rw [(L.serves hs).execution]
    exact Keyed.find_saveAll_of_nodup _ (by simp) (by simp)
  have hstep : ChainStep S P regtestConfig s (.rollback 0) [] [] (S.rollbackTo s 0).1 :=
    .rollback s 0
  refine ⟨(S.rollbackTo s 0).1, hany.tail ⟨_, _, _, hstep⟩, fun hchain => ?_⟩
  have hkeeps := (hstep.followsChain_iff hS L C hs hj hbefore fun e _ => hE e).mp hchain
  have hle := hkeeps e.txid e hfound
  rw [hheight e (by simp)] at hle
  exact absurd hle (by decide)

end Rollback

/-- The record of one call in one block follows the chain. -/
theorem followsChain_of_run_call :
    ∀ H : Hashing, ∃ (json : Execution → Except String Bytes) (fromJson : Bytes → Option Execution)
      (e : Execution) (s : RocksState),
      ChainRun (RocksState.store H json) (registerPlatform H json) regtestConfig
          (RocksState.readers fromJson) true RocksState.fresh [e] s ∧
        (∀ e' ∈ [e], Encodes json fromJson e') ∧
        FollowsChain (RocksState.store H json) (RocksState.readers fromJson) s := by
  intro H
  set P := registerPlatform H fun e => .ok e.json with hP
  have hmissing : RocksState.fresh.view.getContract registerId = none := rfl
  obtain ⟨acc, e, hacc, he⟩ := (exists_acc_callBlock P regtestConfig hmissing).1
  let fromJson : Bytes → Option Execution := fun bytes => if bytes = e.json then some e else none
  have hfresh := RocksState.keepsRecords_fresh fromJson
  have hserves : (RocksState.readers fromJson).Serves RocksState.fresh .empty :=
    ⟨hfresh.execution, hfresh.atHeight⟩
  obtain ⟨s, hrun, -⟩ :=
    chainRun_block (S := RocksState.store H P.json) true hserves (by decide) hacc
  rw [he] at hrun
  have hencodes : ∀ e' ∈ [e], Encodes P.json fromJson e' := by
    intro e' he'
    rw [List.mem_singleton.mp he']
    exact ⟨e.json, rfl, if_pos rfl⟩
  exact ⟨P.json, fromJson, e, s, hrun, hencodes,
    ((followsChain_of_run P regtestConfig fromJson).2 _ s hrun hencodes).1⟩

/-- A block with one call, rolled back: its record is still reported. -/
theorem not_followsChain_rollback :
    ¬ ∃ P : Platform,
      (∀ s, AnyChainRun (MemoryState.store P.hashing) P regtestConfig MemoryState.new s →
          FollowsChain (MemoryState.store P.hashing) MemoryState.readers s) ∨
        ∃ fromJson : Bytes → Option Execution, (∀ e, Encodes P.json fromJson e) ∧
          ∀ s, AnyChainRun (RocksState.store P.hashing P.json) P regtestConfig RocksState.fresh s →
            FollowsChain (RocksState.store P.hashing P.json) (RocksState.readers fromJson) s := by
  rintro ⟨P, hmemory | ⟨fromJson, hjson, hrocks⟩⟩
  · have hnew : MemoryState.new.executions = (Keyed.empty : Records).map := rfl
    obtain ⟨s, hrun, hnot⟩ := not_followsChain_rollbackTo (P := P)
      (MemoryState.committing P.hashing) (MemoryState.recordLaws _) (MemoryState.historyLaws _)
      hnew (fun rec hrec => absurd hrec List.not_mem_nil) (fun _ => trivial) rfl
    exact hnot (hmemory s hrun)
  · obtain ⟨s, hrun, hnot⟩ := not_followsChain_rollbackTo (P := P)
      (RocksState.committing P.hashing P.json) (RocksState.recordLaws _)
      (RocksState.historyLaws _) (RocksState.keepsRecords_fresh fromJson)
      RocksState.journaled_fresh hjson rfl
    exact hnot (hrocks s hrun)

end Zalkanes
