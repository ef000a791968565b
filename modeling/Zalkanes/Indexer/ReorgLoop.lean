import Zalkanes.Indexer.RootChain
import Zalkanes.Indexer.Converge

/-!
# The Reorg Loop

`handle_reorg` compares the hash of the block indexed last with the canonical one, and rolls back
to one height below as long as they differ. In a store whose recorded heights increase each pass
takes the last record off the history, so the loop ends at the fork, unless it gets to a block at
height 0 that is not canonical: there is no height below it.

## Main results

* `Await.indexRun_resume`: what a tick does to its store.
* `Stacked.reorgEnds_iff`: when the loop ends at the fork, for a store whose heights increase.
* `reorgEnds_iff`: the same for every store that ticks lead to.
-/

namespace Zalkanes

open Lib

/-! ### The loop -/

/-- How a pass of a loop ends: the loop is left, goes on, or is left with an error. -/
inductive LoopPass (σ : Type) where
  | done (store : σ)
  | again (store : σ)
  | failed (store : σ) (e : SyncError)
  | panicked (p : Panic)

section Loop

variable {σ : Type} (S : StateStore σ) (P : Platform)
  (canonical : BlockHeight → Except String BlockHash)

/-- One pass of the loop, where the source answers with these hashes. -/
def reorgPass (s : σ) : LoopPass σ :=
  match S.indexedHeight s, S.indexedBlockHash s with
  | some height, some ourHash =>
      match transient (canonical height) "fetching canonical block hash for reorg check" with
      | .error e => .failed s e
      | .ok hash =>
          if hash = ourHash then .done s
          else
            match plainSub32 P.overflowChecks height 1 with
            | .error p => .panicked p
            | .ok target =>
                match S.rollbackTo s target with
                | (s, .error e) => .failed s (.fatal ("rolling back a reorged block: " ++ e))
                | (s, .ok ()) => .again s
  | _, _ => .done s

/-- `handle_reorg`, for at most so many passes. -/
def reorgLoop : ℕ → σ → Option (LoopPass σ)
  | 0, _ => none
  | n + 1, s =>
      match reorgPass S P canonical s with
      | .again s => reorgLoop n s
      | pass => some pass

end Loop

/-- The record is of a canonical block. -/
def HeightRecord.Canonical (canonical : BlockHeight → Except String BlockHash)
    (rec : HeightRecord) : Prop :=
  canonical rec.height = .ok rec.zcashBlockHash

section Loop

variable {σ : Type} (S : StateStore σ) (P : Platform)
  (canonical : BlockHeight → Except String BlockHash)

/-- The source has a canonical hash at every recorded height. -/
def DefinedOn (s : σ) : Prop := ∀ rec ∈ S.heightHistory s, ∃ hash, canonical rec.height = .ok hash

/-- Where the loop is to end: at the highest record that is canonical, with the records up to it, or
at the empty store if there is none. -/
inductive EndsAtFork (s s' : σ) : Prop
  | fork (rec : HeightRecord) (hrec : rec ∈ S.heightHistory s)
      (hcanonical : rec.Canonical canonical)
      (hhighest : ∀ rec' ∈ S.heightHistory s, rec'.Canonical canonical → rec'.height ≤ rec.height)
      (hheight : S.indexedHeight s' = some rec.height)
      (hhash : S.indexedBlockHash s' = some rec.zcashBlockHash)
      (hhistory : S.heightHistory s' =
        (S.heightHistory s).filter fun rec' => rec'.height ≤ rec.height)
  | empty (hnone : ∀ rec ∈ S.heightHistory s, ¬ rec.Canonical canonical)
      (hheight : S.indexedHeight s' = none) (hhistory : S.heightHistory s' = [])

/-- The loop terminates, without a panic or an error, and ends at the fork. The empty store has no
contract and no storage either. -/
def ReorgEnds (s : σ) : Prop :=
  ∃ n s', reorgLoop S P canonical n s = some (.done s') ∧ EndsAtFork S canonical s s' ∧
    (P.engine.Metered → S.heightHistory s' = [] → S.view s' = Ledger.empty.view)

end Loop

/-! ### What a tick does to its store -/

/-- The call is about the block above the indexed height. -/
def Await.asksNext : Await → Bool
  | .nextHash _ _ => true
  | .rawBlock _ _ _ => true
  | _ => false

/-- The loop of a tick does not go on above the last height there is. -/
def Sync.DoesNotWrap {σ : Type} (S : StateStore σ) (event : SyncEvent) (x : Sync σ) : Prop :=
  event = .call → ∀ await, x.control.await? = some await → await.asksNext = true →
    S.indexedHeight x.store ≠ some (2 ^ 32 - 1)

section Runs

variable {σ : Type} {S : StateStore σ} {P : Platform} {config : IndexerConfig} {stop : Bool}
  {s : σ} {source : ChainSource}

/-- The next height is above the indexed one unless it wraps. -/
theorem below_nextHeight_of_ne (h : S.indexedHeight s ≠ some (2 ^ 32 - 1)) :
    S.Below s (S.nextHeight s) := by
  intro top htop
  rw [StateStore.nextHeight, htop]
  change top < top + 1
  have hne : top.toNat ≠ 2 ^ 32 - 1 := fun heq => h (htop.trans (congrArg some
    (UInt32.toNat_inj.mp heq)))
  have hlt := top.toNat_lt
  have hone : (1 : UInt32).toNat = 1 := rfl
  rw [UInt32.lt_iff_toNat_lt, UInt32.toNat_add, hone]
  omega

/-- **What running a tick on does to its store** are steps of the indexer. -/
theorem Await.indexRun_resume {await : Await} (hcurrent : await.Current S config s)
    (hwrap : await.asksNext = true → S.indexedHeight s ≠ some (2 ^ 32 - 1)) :
    IndexRun S P config 0 s (await.resume S P config stop source s).1 := by
  cases await with
  | tip indexedBefore =>
      rw [resume]
      cases transient source.tip "fetching chain tip" with
      | error e => exact .refl
      | ok tip =>
          change IndexRun S P config 0 s (handleReorg S P config stop ⟨indexedBefore, tip⟩ s).1
          rw [handleReorg_fst]
  | reorgHash locals height ourHash =>
      rw [resume]
      cases transient (source.blockHash height) _ with
      | error e => exact .refl
      | ok canonical =>
          dsimp only [orReturn]
          by_cases heq : canonical = ourHash
          · rw [if_pos heq, fastForward_fst]
          · rw [if_neg heq]
            cases plainSub32 P.overflowChecks height 1 with
            | error p => exact .refl
            | ok target =>
                have hstep : IndexStep S P config 0 s (S.rollbackTo s target).1 :=
                  .rollback target (Nat.zero_le _)
                dsimp only [orPanic]
                cases fatal (S.rollbackTo s target).2 _ with
                | error e => exact .single hstep
                | ok u =>
                    dsimp only
                    rw [handleReorg_fst]
                    exact .single hstep
  | targetHash locals target =>
      rw [resume]
      cases transient (source.blockHash target) _ with
      | error e => exact .refl
      | ok hash =>
          have hstep : IndexStep S P config 0 s (S.commitBlock s (.empty target hash)).1 :=
            .empty target hash hcurrent.1
          dsimp only [orReturn]
          cases fatal (S.commitBlock s (.empty target hash)).2 _ with
          | error e => exact .single hstep
          | ok root =>
              dsimp only
              rw [nextBlock_fst]
              exact .single hstep
  | nextHash locals nextHeight =>
      have habove := below_nextHeight_of_ne (hwrap rfl)
      rw [← hcurrent.1] at habove
      rw [resume]
      cases transient (source.blockHash nextHeight) _ with
      | error e => exact .refl
      | ok hash =>
          have hstep : IndexStep S P config 0 s (S.commitBlock s (.empty nextHeight hash)).1 :=
            .empty nextHeight hash habove
          rw [← commitEmptyBlock_fst] at hstep
          dsimp only [orReturn]
          by_cases hbelow : config.belowActivation nextHeight = true
          · rw [if_pos hbelow, processZcashBlock_below hbelow]
            dsimp only [orPanic]
            cases fatal (commitEmptyBlock S s nextHeight hash).2 _ with
            | error e => exact .single hstep
            | ok block =>
                dsimp only
                rw [nextBlock_fst]
                exact .single hstep
          · rw [if_neg hbelow]
  | rawBlock locals nextHeight hash =>
      have habove := below_nextHeight_of_ne (hwrap rfl)
      rw [← hcurrent.1] at habove
      rw [resume]
      cases transient (source.rawBlock hash) _ with
      | error e => exact .refl
      | ok raw =>
          dsimp only [orReturn]
          cases hparse : transient (parseBlock P raw nextHeight hash config.network) _ with
          | error e => exact .refl
          | ok parsed =>
              obtain ⟨hheight, -⟩ := parseBlock_eq_ok (transient_eq_ok hparse)
              dsimp only
              cases hprocess : processParsedBlock S P config s parsed with
              | error p => exact .refl
              | ok done =>
                  have hstep : IndexStep S P config 0 s done.1 :=
                    .block parsed (hheight ▸ habove) hprocess
                  dsimp only [orPanic]
                  cases fatal done.2 _ with
                  | error e => exact .single hstep
                  | ok exec =>
                      dsimp only
                      rw [nextBlock_fst]
                      exact .single hstep

/-- **The store of a run of ticks** is one that the indexer leads to. -/
theorem SyncRun.indexRun {chains : Set Chain} {chain : Chain} {s₀ : σ} {x : Sync σ}
    (h : SyncRun S P config chains (Sync.DoesNotWrap S) (.init chain s₀) x) :
    IndexRun S P config 0 s₀ x.store := by
  induction h with
  | refl => exact .refl
  | @tail x y hrun hstep ih =>
      have hcurrent := SyncRun.resumable hrun
      obtain ⟨event, hstep, hwrap⟩ := hstep
      cases hstep with
      | replace => exact ih
      | stop => exact ih
      | begin => exact ih
      | call await hawait =>
          exact ih.trans (Await.indexRun_resume (hcurrent await hawait) (hwrap rfl await hawait))
      | unreachable await e hawait =>
          obtain ⟨message, hresume⟩ : ∃ message, await.resume S P config x.stop (.unreachable e)
              x.store = (x.store, .returned (.error (.transient message))) :=
            await.resume_unreachable e
          change IndexRun S P config 0 s₀
            (await.resume S P config x.stop (.unreachable e) x.store).1
          rw [hresume]
          exact ih

end Runs

/-! ### Histories whose heights increase -/

/-- The heights of the history increase. -/
def StateStore.Ordered {σ : Type} (S : StateStore σ) (s : σ) : Prop :=
  (S.heightHistory s).Pairwise fun rec rec' => rec.height < rec'.height

/-- What happens to a history whose heights increase: a commit above it puts a record on top, and a
rollback takes the records above its target off. -/
structure StackLaws {σ : Type} (S : StateStore σ) (Journaled : σ → Prop) : Prop where
  index : IndexLaws S
  commitBlock : ∀ {s}, Journaled s → S.Ordered s → ∀ c,
    (∀ rec ∈ S.heightHistory s, rec.height < c.height) → Journaled (S.commitBlock s c).1 ∧
      ∃ root, S.heightHistory (S.commitBlock s c).1 =
        S.heightHistory s ++ [⟨c.height, c.zcashBlockHash, root⟩]
  rollbackTo : ∀ {s}, Journaled s → ∀ t, Journaled (S.rollbackTo s t).1 ∧
    (S.rollbackTo s t).2 = .ok () ∧
      S.heightHistory (S.rollbackTo s t).1 =
        (S.heightHistory s).filter fun rec => rec.height ≤ t
  saveExecutions : ∀ {s}, Journaled s → ∀ es, Journaled (S.saveExecutions s es).1 ∧
    S.heightHistory (S.saveExecutions s es).1 = S.heightHistory s

/-- The memory store is a stack of blocks. -/
theorem MemoryState.stackLaws (H : Hashing) : StackLaws (store H) Journaled where
  index := indexLaws H
  commitBlock hs _ c _ := ⟨((historyLaws H).commitBlock hs c).1, _, rfl⟩
  rollbackTo hs t := ⟨((historyLaws H).rollbackTo hs t).1, rfl, history_rollbackTo hs t⟩
  saveExecutions hs es := (historyLaws H).saveExecutions hs es

/-- Two histories with the same records are equal if the heights of both increase. -/
theorem history_ext {rs rs' : List HeightRecord}
    (hrs : rs.Pairwise fun rec rec' => rec.height < rec'.height)
    (hrs' : rs'.Pairwise fun rec rec' => rec.height < rec'.height)
    (hmem : ∀ rec, rec ∈ rs ↔ rec ∈ rs') : rs = rs' :=
  OrdMap.eq_of_pairwise_of_mem_iff HeightRecord.height
    (hrs.imp fun hlt => Std.compare_eq_lt.mpr hlt) (hrs'.imp fun hlt => Std.compare_eq_lt.mpr hlt)
    hmem

/-- The records of the database are in the order of their heights. -/
theorem RocksState.ordered (H : Hashing) (json : Execution → Except String Bytes)
    (s : RocksState) : (store H json).Ordered s :=
  s.heightHistory_pairwise.imp fun hlt => Std.compare_eq_lt.mp hlt

/-- The database is a stack of blocks. -/
theorem RocksState.stackLaws (H : Hashing) (json : Execution → Except String Bytes) :
    StackLaws (store H json) Journaled where
  index := indexLaws H
  commitBlock {s} hs _ c habove := by
    refine ⟨((@historyLaws json H).commitBlock hs c).1, (s.ledger.apply c).root H, ?_⟩
    have heq : ((store H json).commitBlock s c).1 = s.write (s.commitBatch H c) :=
      congrArg Prod.fst (s.commitBlock_eq H c)
    refine history_ext (ordered H json _) ?_ fun rec => ?_
    · refine List.pairwise_append.mpr ⟨ordered H json s,
        List.pairwise_singleton _ _, fun rec hrec rec' hrec' => ?_⟩
      rw [List.mem_singleton.mp hrec']
      exact habove rec hrec
    · rw [heq]
      change rec ∈ (s.write (s.commitBatch H c)).heightHistory ↔ rec ∈ s.heightHistory ++ _
      rw [mem_heightHistory_commitBatch, List.mem_append, List.mem_singleton, or_comm]
      exact or_congr_left ⟨And.left, fun hrec => ⟨hrec, (UInt32.ne_of_lt (habove rec hrec))⟩⟩
  rollbackTo {s} hs t := by
    refine ⟨((@historyLaws json H).rollbackTo hs t).1, rfl, ?_⟩
    refine history_ext (ordered H json _)
      ((ordered H json s).filter _) fun rec => ?_
    rw [List.mem_filter, decide_eq_true_eq]
    exact mem_heightHistory_rollbackTo hs t
  saveExecutions hs es := (@historyLaws json H).saveExecutions hs es

/-- The heights of the history increase, and the last record is what the store has indexed. -/
structure StateStore.Stacked {σ : Type} (S : StateStore σ) (Journaled : σ → Prop) (s : σ) :
    Prop where
  journaled : Journaled s
  ordered : S.Ordered s
  indexedHeight : S.indexedHeight s = (S.heightHistory s).getLast?.map HeightRecord.height
  indexedBlockHash :
    S.indexedBlockHash s = (S.heightHistory s).getLast?.map HeightRecord.zcashBlockHash

section Stacked

variable {σ : Type} {S : StateStore σ} {Journaled : σ → Prop} {P : Platform}
  {config : IndexerConfig} {s s' : σ}

/-- The last record is the highest one. -/
theorem StateStore.Ordered.le_last {rs : List HeightRecord} {last : HeightRecord}
    (hs : S.Ordered s) (hhistory : S.heightHistory s = rs ++ [last]) :
    (∀ rec ∈ rs, rec.height < last.height) ∧ ∀ rec ∈ rs ++ [last], rec.height ≤ last.height := by
  rw [StateStore.Ordered, hhistory] at hs
  have hlt : ∀ rec ∈ rs, rec.height < last.height := fun rec hrec =>
    (List.pairwise_append.mp hs).2.2 rec hrec last (List.mem_singleton.mpr rfl)
  refine ⟨hlt, fun rec hrec => ?_⟩
  rcases List.mem_append.mp hrec with hrec | hrec
  · exact UInt32.le_of_lt (hlt rec hrec)
  · rw [List.mem_singleton.mp hrec]
    exact UInt32.le_refl _

/-- Blocks below the next one have lower records. -/
theorem StateStore.Stacked.above (hs : S.Stacked Journaled s) {height : BlockHeight}
    (h : S.Below s height) : ∀ rec ∈ S.heightHistory s, rec.height < height := by
  intro rec hrec
  rcases List.eq_nil_or_concat (S.heightHistory s) with hnil | ⟨rs, last, hhistory⟩
  · rw [hnil] at hrec
    cases hrec
  · rw [List.concat_eq_append] at hhistory
    have hlast := hs.indexedHeight
    rw [hhistory, List.getLast?_concat] at hlast
    have hle := (hs.ordered.le_last hhistory).2 rec (hhistory ▸ hrec)
    exact UInt32.lt_of_le_of_lt hle (h last.height hlast)

variable (L : StackLaws S Journaled)

include L

/-- A commit on top keeps the stack. -/
theorem StackLaws.stacked_commitBlock (hs : S.Stacked Journaled s) {c : BlockCommit}
    (h : S.Below s c.height) : S.Stacked Journaled (S.commitBlock s c).1 := by
  have habove := hs.above h
  obtain ⟨hjournaled, root, hhistory⟩ := L.commitBlock hs.journaled hs.ordered c habove
  obtain ⟨hheight, hhash⟩ := L.index.commitBlock s c
  refine ⟨hjournaled, ?_, ?_, ?_⟩
  · rw [StateStore.Ordered, hhistory]
    refine List.pairwise_append.mpr ⟨hs.ordered, List.pairwise_singleton _ _,
      fun rec hrec rec' hrec' => ?_⟩
    rw [List.mem_singleton.mp hrec']
    exact habove rec hrec
  · rw [hheight, hhistory, List.getLast?_concat]
    rfl
  · rw [hhash, hhistory, List.getLast?_concat]
    rfl

/-- A rollback keeps the stack. -/
theorem StackLaws.stacked_rollbackTo (hs : S.Stacked Journaled s) (t : BlockHeight) :
    S.Stacked Journaled (S.rollbackTo s t).1 := by
  obtain ⟨hjournaled, -, hhistory⟩ := L.rollbackTo hs.journaled t
  obtain ⟨hheight, hhash⟩ := L.index.rollbackTo s t
  refine ⟨hjournaled, ?_, hheight, hhash⟩
  rw [StateStore.Ordered, hhistory]
  exact List.Pairwise.filter _ hs.ordered

/-- Execution records keep the stack. -/
theorem StackLaws.stacked_saveExecutions (hs : S.Stacked Journaled s) (es : List Execution) :
    S.Stacked Journaled (S.saveExecutions s es).1 := by
  obtain ⟨hjournaled, hhistory⟩ := L.saveExecutions hs.journaled es
  obtain ⟨hheight, hhash⟩ := L.index.saveExecutions s es
  refine ⟨hjournaled, ?_, ?_, ?_⟩
  · rw [StateStore.Ordered, hhistory]
    exact hs.ordered
  · rw [hheight, hhistory, hs.indexedHeight]
  · rw [hhash, hhistory, hs.indexedBlockHash]

/-- What the indexer does to its store keeps its heights increasing. -/
theorem StackLaws.stacked_step {floor : ℕ} (hs : S.Stacked Journaled s)
    (h : IndexStep S P config floor s s') : S.Stacked Journaled s' := by
  cases h with
  | block parsed hbelow h =>
      rcases processParsedBlock_cases h with ⟨-, rfl⟩ | ⟨c, hc, hs'⟩
      · exact hs
      · rw [← (height_blockCommit hc).1] at hbelow
        have hcommit := L.stacked_commitBlock hs hbelow
        rcases hs' with rfl | ⟨es, rfl⟩
        · exact hcommit
        · exact L.stacked_saveExecutions hcommit es
  | empty height hash hbelow => exact L.stacked_commitBlock hs hbelow
  | rollback target => exact L.stacked_rollbackTo hs target

/-- **The run lemma**: a run keeps the stack. -/
theorem StackLaws.stacked_of_run {floor : ℕ} (hs : S.Stacked Journaled s)
    (h : IndexRun S P config floor s s') : S.Stacked Journaled s' := by
  induction h with
  | refl => exact hs
  | tail _ hstep ih => exact L.stacked_step ih hstep

/-! ### Where the loop ends -/

variable {canonical : BlockHeight → Except String BlockHash}

/-- A pass on a store with a last record. -/
theorem StackLaws.reorgPass_of_last (hs : S.Stacked Journaled s) {rs : List HeightRecord}
    {last : HeightRecord} (hhistory : S.heightHistory s = rs ++ [last]) {hash : BlockHash}
    (hhash : canonical last.height = .ok hash) :
    reorgPass S P canonical s =
      if hash = last.zcashBlockHash then .done s
      else
        match plainSub32 P.overflowChecks last.height 1 with
        | .error p => .panicked p
        | .ok target => .again (S.rollbackTo s target).1 := by
  have hheight := hs.indexedHeight
  have hour := hs.indexedBlockHash
  rw [hhistory, List.getLast?_concat] at hheight hour
  rw [reorgPass, hheight, hour]
  dsimp only [Option.map_some]
  rw [hhash]
  dsimp only [transient, Except.mapError]
  by_cases heq : hash = last.zcashBlockHash
  · rw [if_pos heq, if_pos heq]
  · rw [if_neg heq, if_neg heq]
    cases plainSub32 P.overflowChecks last.height 1 with
    | error p => rfl
    | ok target =>
        obtain ⟨-, hok, -⟩ := L.rollbackTo hs.journaled target
        rcases hrb : S.rollbackTo s target with ⟨s', r⟩
        rw [hrb] at hok
        obtain rfl : r = _ := hok
        dsimp only
        rw [hrb]

/-- Rolling back to one height below the last record takes it off the history. -/
theorem StackLaws.history_rollbackTo_pred (hs : S.Stacked Journaled s) {rs : List HeightRecord}
    {last : HeightRecord} (hhistory : S.heightHistory s = rs ++ [last])
    (hpos : last.height ≠ 0) {target : BlockHeight}
    (htarget : plainSub32 P.overflowChecks last.height 1 = .ok target) :
    S.heightHistory (S.rollbackTo s target).1 = rs := by
  have hone : (1 : UInt32).toNat = 1 := rfl
  have hle : (1 : UInt32) ≤ last.height := by
    have hne : last.height.toNat ≠ 0 := fun h => hpos (UInt32.toNat_inj.mp h)
    exact UInt32.le_iff_toNat_le.mpr (by omega)
  obtain ⟨hsub, hnat⟩ := plainSub32_eq_ok P.overflowChecks hle
  obtain rfl := Except.ok.inj (hsub.symm.trans htarget)
  rw [(L.rollbackTo hs.journaled _).2.2, hhistory]
  refine filter_append_eq_left (fun rec hrec => ?_) fun rec hrec => ?_
  · have hlt := UInt32.lt_iff_toNat_lt.mp ((hs.ordered.le_last hhistory).1 rec hrec)
    rw [decide_eq_true_eq, UInt32.le_iff_toNat_le]
    omega
  · rw [List.mem_singleton.mp hrec, decide_eq_true_eq, UInt32.le_iff_toNat_le]
    have := UInt32.le_iff_toNat_le.mp hle
    omega

/-- **The loop ends at the fork** if it does not get to a block at height 0 that is not
canonical. -/
theorem StackLaws.exists_reorgLoop (hs : S.Stacked Journaled s) (hdefined : DefinedOn S canonical s)
    (hzero : (∃ rec ∈ S.heightHistory s, rec.height = 0) →
      ∃ rec ∈ S.heightHistory s, rec.Canonical canonical) :
    ∃ n s', reorgLoop S P canonical n s = some (.done s') ∧ EndsAtFork S canonical s s' ∧
      IndexRun S P config 0 s s' := by
  generalize hhistory : S.heightHistory s = rs at hzero
  induction rs using List.reverseRecOn generalizing s with
  | nil =>
      have hheight := hs.indexedHeight
      rw [hhistory] at hheight
      have hpass : reorgPass S P canonical s = .done s := by
        rw [reorgPass, hheight]
        rfl
      refine ⟨1, s, by rw [reorgLoop, hpass], .empty (fun rec hrec => ?_) hheight hhistory, .refl⟩
      rw [hhistory] at hrec
      cases hrec
  | append_singleton rs last ih =>
      obtain ⟨hbelow, hle⟩ := hs.ordered.le_last hhistory
      have hlast : last ∈ S.heightHistory s := hhistory ▸ List.mem_append_right _ (by simp)
      obtain ⟨hash, hhash⟩ := hdefined last hlast
      have hpass := L.reorgPass_of_last (P := P) hs hhistory hhash
      by_cases heq : hash = last.zcashBlockHash
      · -- the last record is canonical
        rw [if_pos heq] at hpass
        have hheight := hs.indexedHeight
        have hour := hs.indexedBlockHash
        rw [hhistory, List.getLast?_concat] at hheight hour
        rw [heq] at hhash
        refine ⟨1, s, by rw [reorgLoop, hpass], .fork last hlast hhash
          (fun rec hrec _ => hle rec (hhistory ▸ hrec)) hheight hour ?_, .refl⟩
        rw [hhistory, List.filter_eq_self.mpr fun rec hrec => decide_eq_true (hle rec hrec)]
      · rw [if_neg heq] at hpass
        have hnot : ¬ last.Canonical canonical := fun hcanonical =>
          heq (Except.ok.inj (hhash.symm.trans hcanonical))
        -- below a record at height 0 there is no other one
        have hpos : last.height ≠ 0 := by
          intro hlast0
          obtain ⟨rec, hrec, hcanonical⟩ := hzero ⟨last, by simp, hlast0⟩
          rcases List.mem_append.mp hrec with hrec | hrec
          · exact absurd (hlast0 ▸ hbelow rec hrec) (UInt32.not_lt_zero)
          · exact hnot (List.mem_singleton.mp hrec ▸ hcanonical)
        have hone : (1 : UInt32) ≤ last.height := by
          have hne : last.height.toNat ≠ 0 := fun h => hpos (UInt32.toNat_inj.mp h)
          have : (1 : UInt32).toNat = 1 := rfl
          exact UInt32.le_iff_toNat_le.mpr (by omega)
        have htarget := (plainSub32_eq_ok P.overflowChecks hone).1
        rw [htarget] at hpass
        have hkept := L.history_rollbackTo_pred (P := P) hs hhistory hpos htarget
        obtain ⟨n, s', hloop, hends, hrun⟩ := ih (L.stacked_rollbackTo hs (last.height - 1))
          (fun rec hrec => hdefined rec (by
            rw [hhistory]
            exact List.mem_append_left _ (hkept ▸ hrec))) hkept
          (fun ⟨rec, hrec, hrec0⟩ => by
            obtain ⟨rec', hrec', hcanonical⟩ := hzero ⟨rec, List.mem_append_left _ hrec, hrec0⟩
            rcases List.mem_append.mp hrec' with hrec' | hrec'
            · exact ⟨rec', hrec', hcanonical⟩
            · exact absurd (List.mem_singleton.mp hrec' ▸ hcanonical) hnot)
        refine ⟨n + 1, s', by rw [reorgLoop, hpass]; exact hloop, ?_,
          .head (.rollback (last.height - 1) (Nat.zero_le _)) hrun⟩
        cases hends with
        | fork rec hrec hcanonical hhighest hheight hourHash hrest =>
            rw [hkept] at hrec hhighest hrest
            refine .fork rec (hhistory ▸ List.mem_append_left _ hrec) hcanonical
              (fun rec' hrec' hcanonical' => ?_) hheight hourHash ?_
            · rw [hhistory] at hrec'
              rcases List.mem_append.mp hrec' with hrec' | hrec'
              · exact hhighest rec' hrec' hcanonical'
              · exact absurd (List.mem_singleton.mp hrec' ▸ hcanonical') hnot
            · have habove : ¬ last.height ≤ rec.height := UInt32.not_le.mpr (hbelow rec hrec)
              rw [hrest, hhistory, List.filter_append, List.filter_singleton]
              simp [habove]
        | empty hnone hheight hrest =>
            rw [hkept] at hnone
            refine .empty (fun rec hrec => ?_) hheight hrest
            rw [hhistory] at hrec
            rcases List.mem_append.mp hrec with hrec | hrec
            · exact hnone rec hrec
            · exact List.mem_singleton.mp hrec ▸ hnot

/-- **The loop does not end** where it gets to a block at height 0 that is not canonical: it
panics, or wraps to the last height there is and finds the same block again. -/
theorem StackLaws.reorgLoop_ne_done (hs : S.Stacked Journaled s)
    (hdefined : DefinedOn S canonical s) (hzero : ∃ rec ∈ S.heightHistory s, rec.height = 0)
    (hnone : ∀ rec ∈ S.heightHistory s, ¬ rec.Canonical canonical) (n : ℕ) (s' : σ) :
    reorgLoop S P canonical n s ≠ some (.done s') := by
  induction n generalizing s with
  | zero => exact fun h => (nomatch h)
  | succ n ih =>
      obtain ⟨rec₀, hrec₀, hrec₀0⟩ := hzero
      obtain ⟨rs, last, hhistory⟩ := List.eq_nil_or_concat (S.heightHistory s) |>.resolve_left
        (List.ne_nil_of_mem hrec₀)
      rw [List.concat_eq_append] at hhistory
      have hlast : last ∈ S.heightHistory s := hhistory ▸ List.mem_append_right _ (by simp)
      obtain ⟨hash, hhash⟩ := hdefined last hlast
      have hpass := L.reorgPass_of_last (P := P) hs hhistory hhash
      have hne : hash ≠ last.zcashBlockHash := by
        rintro rfl
        exact hnone last hlast hhash
      rw [if_neg hne] at hpass
      cases htarget : plainSub32 P.overflowChecks last.height 1 with
      | error p =>
          rw [htarget] at hpass
          rw [reorgLoop, hpass]
          exact fun h => (nomatch h)
      | ok target =>
          rw [htarget] at hpass
          rw [reorgLoop, hpass]
          obtain ⟨-, -, hrolled⟩ := L.rollbackTo hs.journaled target
          have hsub : ∀ rec ∈ S.heightHistory (S.rollbackTo s target).1,
              rec ∈ S.heightHistory s := fun rec hrec => by
            rw [hrolled] at hrec
            exact List.mem_of_mem_filter hrec
          refine ih (L.stacked_rollbackTo hs target) (fun rec hrec => hdefined rec (hsub rec hrec))
            ⟨rec₀, ?_, hrec₀0⟩ fun rec hrec => hnone rec (hsub rec hrec)
          rw [hrolled]
          refine List.mem_filter.mpr ⟨hrec₀, decide_eq_true ?_⟩
          rw [hrec₀0]
          exact UInt32.zero_le

end Stacked

/-! ### The loop inside a tick -/

section Tick

variable {σ : Type} {S : StateStore σ} {P : Platform} {config : IndexerConfig} {s s' : σ}
  {locals : TickLocals}

/-- What follows a pass of the loop in a tick. -/
theorem Await.resume_reorgHash {stop : Bool} {source : ChainSource} {height : BlockHeight}
    {ourHash : BlockHash} (h : (Await.reorgHash locals height ourHash).Current S config s) :
    (Await.reorgHash locals height ourHash).resume S P config stop source s =
      match reorgPass S P source.blockHash s with
      | .done s => fastForward S P config stop locals s
      | .again s => handleReorg S P config stop locals s
      | .failed s e => (s, .returned (.error e))
      | .panicked p => (s, .panicked p) := by
  rw [resume, reorgPass, h.1, h.2]
  dsimp only
  cases transient (source.blockHash height) "fetching canonical block hash for reorg check" with
  | error e => rfl
  | ok hash =>
      dsimp only [orReturn]
      by_cases heq : hash = ourHash
      · rw [if_pos heq, if_pos heq]
      · rw [if_neg heq, if_neg heq]
        cases plainSub32 P.overflowChecks height 1 with
        | error p => rfl
        | ok target =>
            change orReturn (S.rollbackTo s target).1 (fatal (S.rollbackTo s target).2 _)
              (fun _ => handleReorg S P config stop locals (S.rollbackTo s target).1) = _
            rcases hrb : S.rollbackTo s target with ⟨s', e | u⟩
            · dsimp only
              rw [hrb]
              rfl
            · dsimp only
              rw [hrb]
              rfl

/-- **A tick goes through the passes of the loop** on a chain that stays canonical. -/
theorem tickReaches_of_reorgLoop {chain : Chain} {n : ℕ}
    (h : reorgLoop S P chain.source.blockHash n s = some (.done s')) :
    TickReaches S P config chain (handleReorg S P config false locals s)
      (fastForward S P config false locals s') := by
  induction n generalizing s with
  | zero => cases h
  | succ n ih =>
      rw [reorgLoop] at h
      rcases handleReorg_cases S P config false locals s with ⟨hnone, hreorg⟩ |
        ⟨height, ourHash, hheight, hhash, hreorg⟩
      · -- nothing is indexed
        have hpass : reorgPass S P chain.source.blockHash s = .done s := by
          rw [reorgPass]
          rcases hnone with hnone | hnone
          · rw [hnone]
          · rw [hnone]
            cases S.indexedHeight s <;> rfl
        rw [hpass] at h
        obtain rfl := LoopPass.done.inj (Option.some.inj h)
        rw [hreorg]
      · have hstep : TickStep S P config chain (handleReorg S P config false locals s)
            ((Await.reorgHash locals height ourHash).resume S P config false chain.source s) :=
          ⟨_, congrArg Prod.snd hreorg, by rw [hreorg]⟩
        rw [Await.resume_reorgHash ⟨hheight, hhash⟩] at hstep
        cases hpass : reorgPass S P chain.source.blockHash s with
        | done s₁ =>
            rw [hpass] at h hstep
            obtain rfl := LoopPass.done.inj (Option.some.inj h)
            exact .single hstep
        | again s₁ =>
            rw [hpass] at h hstep
            exact .head hstep (ih h)
        | failed s₁ e =>
            rw [hpass] at h
            cases h
        | panicked p =>
            rw [hpass] at h
            cases h

end Tick

/-! ### Stores that ticks lead to -/

section Reachable

variable {σ : Type} (S : StateStore σ) (P : Platform) (config : IndexerConfig)

/-- If a block at height 0 is recorded, some recorded block is canonical. -/
def ForkRecorded (canonical : BlockHeight → Except String BlockHash) (s : σ) : Prop :=
  (∃ rec ∈ S.heightHistory s, rec.height = 0) → ∃ rec ∈ S.heightHistory s, rec.Canonical canonical

/-- When the reorg loop ends at the fork, for every store of a run of ticks from `s₀` that does not
go on above the last height there is, and every source with a canonical hash at the recorded
heights. -/
def ReorgEndsIff (s₀ : σ) : Prop :=
  ∀ (chains : Set Chain) (chain : Chain) (x : Sync σ),
    SyncRun S P config chains (Sync.DoesNotWrap S) (.init chain s₀) x →
      ∀ canonical, DefinedOn S canonical x.store →
        (ReorgEnds S P canonical x.store ↔ ForkRecorded S canonical x.store)

variable {S P config}

/-- A store without records that the indexer leads to has no contract and no storage. -/
theorem LawfulStore.view_of_history_nil {Rep : σ → List BlockCommit → Prop}
    (W : LawfulStore P.hashing S Rep) {s₀ s : σ} (h₀ : Rep s₀ []) (hE : P.engine.Metered)
    (hrun : IndexRun S P config 0 s₀ s) (hnil : S.heightHistory s = []) :
    S.view s = Ledger.empty.view := by
  obtain ⟨cs, hs, hcs⟩ := W.indexed_of_run hE h₀ .nil hrun
  have hreg := hcs.regular hE
  rw [W.heightHistory hs hreg] at hnil
  rcases List.eq_nil_or_concat cs with rfl | ⟨cs, c, rfl⟩
  · exact W.view hs hreg
  · rw [List.concat_eq_append, recordsOf_append_singleton] at hnil
    simp at hnil

/-- The loop ends at the fork just when it has to, for every store under the laws. -/
theorem StackLaws.reorgEndsIff {Journaled : σ → Prop} (L : StackLaws S Journaled)
    {Rep : σ → List BlockCommit → Prop} (W : LawfulStore P.hashing S Rep) {s₀ : σ}
    (h₀ : Rep s₀ []) (hstacked : S.Stacked Journaled s₀) : ReorgEndsIff S P config s₀ := by
  intro chains chain x hrun canonical hdefined
  have hindex := SyncRun.indexRun hrun
  have hs := L.stacked_of_run hstacked hindex
  constructor
  · rintro ⟨n, s', hloop, -⟩ hzero
    by_contra hnone
    refine L.reorgLoop_ne_done hs hdefined hzero (fun rec hrec hcanonical => ?_) n s' hloop
    exact hnone ⟨rec, hrec, hcanonical⟩
  · intro hfork
    obtain ⟨n, s', hloop, hends, (hback : IndexRun S P config 0 x.store s')⟩ :=
      L.exists_reorgLoop hs hdefined hfork
    exact ⟨n, s', hloop, hends, fun hE hnil =>
      W.view_of_history_nil h₀ hE (hindex.trans hback) hnil⟩

end Reachable

/-- A new store is a stack. -/
theorem MemoryState.stacked_new (H : Hashing) : (store H).Stacked Journaled new :=
  ⟨fun _ hrec => (nomatch hrec), .nil, rfl, rfl⟩

/-- A fresh store is a stack. -/
theorem RocksState.stacked_fresh (H : Hashing) (json : Execution → Except String Bytes) :
    (store H json).Stacked Journaled fresh := by
  have W := lawful H json
  have hfresh := AgreesOff.refl IsExec fresh
  have hhistory := W.heightHistory hfresh Regular.nil
  refine ⟨journaled_fresh, ordered _ _ _, ?_, ?_⟩
  · rw [W.indexedHeight hfresh Regular.nil, hhistory]
    rfl
  · rw [W.indexedBlockHash hfresh Regular.nil, hhistory]
    rfl

/-- **When the reorg loop terminates at the fork**, on both backends: it does, unless a block at
height 0 is recorded and no recorded block is canonical. -/
theorem reorgEnds_iff (P : Platform) (config : IndexerConfig) :
    ReorgEndsIff (MemoryState.store P.hashing) P config MemoryState.new ∧
      ReorgEndsIff (RocksState.store P.hashing P.json) P config RocksState.fresh :=
  ⟨(MemoryState.stackLaws P.hashing).reorgEndsIff (MemoryState.lawful P.hashing) rfl
      (MemoryState.stacked_new _),
    (RocksState.stackLaws P.hashing P.json).reorgEndsIff (RocksState.lawful P.hashing P.json)
      (RocksState.AgreesOff.refl _ _) (RocksState.stacked_fresh _ _)⟩

/-! ### Another genesis block -/

/-- A chain that is no longer than its genesis block. -/
def genesisChain : Chain := ⟨[forkBlock 0], by decide, by decide⟩

/-- The node that indexes it; it reads no raw block. -/
def genesisPlatform : Platform := registerPlatform lengthHashing fun _ => .ok []

/-- The hashes of a chain with another genesis block. -/
def otherHashes (_ : BlockHeight) : Except String BlockHash := .ok (forkBlock 1).hash

/-- A tick on a chain at height 0 indexes its genesis block below the activation height, and the
reorg loop does not end on a chain with another one. -/
theorem StackLaws.exists_not_reorgEnds {σ : Type} {S : StateStore σ} {P : Platform}
    {Journaled : σ → Prop} (L : StackLaws S Journaled) {Rep : σ → List BlockCommit → Prop}
    (W : LawfulStore P.hashing S Rep) {s₀ : σ} (h₀ : Rep s₀ [])
    (hstacked : S.Stacked Journaled s₀) :
    ∃ x : Sync σ,
      SyncRun S P lateConfig {genesisChain} (fun _ _ => True) (.init genesisChain s₀) x ∧
      DefinedOn S otherHashes x.store ∧ ¬ ReorgEnds S P otherHashes x.store := by
  have hrun : SyncRun S P lateConfig {genesisChain} (fun _ _ => True) (.init genesisChain s₀) _ :=
    W.firstTick genesisChain h₀ (by decide) (by decide) (fun _ => trivial) fun _ _ => trivial
  refine ⟨_, hrun, fun rec _ => ⟨_, rfl⟩, ?_⟩
  rintro ⟨n, s', hloop, -⟩
  have hnone : S.indexedHeight s₀ = none := W.indexedHeight h₀ Regular.nil
  have hbelow : S.Below s₀ genesisChain.tip.height := fun top htop => by
    rw [hnone] at htop
    cases htop
  have hempty : S.heightHistory s₀ = [] := W.heightHistory h₀ Regular.nil
  obtain ⟨-, root, hhistory⟩ := L.commitBlock hstacked.journaled hstacked.ordered
    (.empty genesisChain.tip.height genesisChain.tip.hash) (hstacked.above hbelow)
  rw [hempty, List.nil_append] at hhistory
  refine L.reorgLoop_ne_done (L.stacked_commitBlock hstacked hbelow) (fun rec _ => ⟨_, rfl⟩)
    ⟨_, hhistory ▸ List.mem_singleton.mpr rfl, rfl⟩ (fun rec hrec hcanonical => ?_) n s' hloop
  rw [hhistory] at hrec
  obtain rfl := List.mem_singleton.mp hrec
  have hne : (forkBlock 1).hash ≠ (forkBlock 0).hash := by decide
  exact hne (Except.ok.inj hcanonical)

/-- **A genesis block that is not canonical any more**: the height below it underflows, on both
backends and in both build profiles. -/
theorem not_reorgEnds_genesis :
    let P := genesisPlatform
    (∃ x, SyncRun (MemoryState.store P.hashing) P lateConfig {genesisChain} (fun _ _ => True)
          (.init genesisChain MemoryState.new) x ∧
        DefinedOn (MemoryState.store P.hashing) otherHashes x.store ∧
          ¬ ReorgEnds (MemoryState.store P.hashing) P otherHashes x.store) ∧
      ∃ x, SyncRun (RocksState.store P.hashing P.json) P lateConfig {genesisChain} (fun _ _ => True)
          (.init genesisChain RocksState.fresh) x ∧
        DefinedOn (RocksState.store P.hashing P.json) otherHashes x.store ∧
          ¬ ReorgEnds (RocksState.store P.hashing P.json) P otherHashes x.store := by
  generalize genesisPlatform = P
  exact ⟨(MemoryState.stackLaws P.hashing).exists_not_reorgEnds (MemoryState.lawful P.hashing) rfl
      (MemoryState.stacked_new _),
    (RocksState.stackLaws P.hashing P.json).exists_not_reorgEnds
      (RocksState.lawful P.hashing P.json) (RocksState.AgreesOff.refl _ _)
      (RocksState.stacked_fresh _ _)⟩

end Zalkanes
