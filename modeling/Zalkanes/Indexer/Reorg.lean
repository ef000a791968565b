import Zalkanes.Indexer.FreshIndex

/-!
# Reorgs During a Tick

The loop compares one stored hash with the canonical chain, and then appends blocks by their
height. The chain may be replaced in between. A store follows one chain (`Tracks`) as long as
every block that is appended comes from a chain that still has the block indexed last
(`Sync.AppendsOnTop`).

## Main results

* `LawfulStore.tracks_resume`: what running a tick on leaves of this.
* `reorg_consistent`: the store is consistent in every run that appends on top.
-/

namespace Zalkanes

open Lib

/-- A hash names one block: chains that have it agree up to its height. -/
def Linked (chains : Set Chain) : Prop := HashLinked UpstreamBlock.hash (Chain.blocks '' chains)

section Linked

variable {P : Platform} {config : IndexerConfig} {chains : Set Chain} {chain e : Chain}
  {cs : List BlockCommit}

/-- Linked chains with one block in common agree up to it. -/
theorem Linked.agreeUpTo (h : Linked chains) (hchain : chain ∈ chains) (he : e ∈ chains)
    {height : BlockHeight} {hash : BlockHash} (hhas : chain.Has height hash)
    (hhas' : e.Has height hash) : AgreeUpTo height.toNat chain.blocks e.blocks := by
  obtain ⟨block, hblock, hhash⟩ := Chain.has_iff.mp hhas
  obtain ⟨block', hblock', hhash'⟩ := Chain.has_iff.mp hhas'
  exact HashLinked.agreeUpTo h (Set.mem_image_of_mem _ hchain) (Set.mem_image_of_mem _ he) hblock
    hblock' (hhash.trans hhash'.symm)

/-- A raw block comes from the height of its hash, and the chains agree up to it. -/
theorem Linked.rawBlock (h : Linked chains) (hchain : chain ∈ chains) (he : e ∈ chains)
    {height : BlockHeight} {hash : BlockHash} {raw : Bytes} (hhas : chain.Has height hash)
    (hraw : e.source.rawBlock hash = .ok raw) :
    ∃ block, e.blocks[height.toNat]? = some block ∧ block.hash = hash ∧ block.raw = raw ∧
      AgreeUpTo height.toNat chain.blocks e.blocks := by
  obtain ⟨block, hblock, hhash⟩ := Chain.has_iff.mp hhas
  obtain ⟨block', hfind, rfl⟩ := Chain.rawBlock_source.mp hraw
  have he' := Set.mem_image_of_mem Chain.blocks he
  obtain ⟨hhash', i, hi⟩ := (HashLinked.find?_eq_some_iff h he').mp hfind
  obtain ⟨rfl, hagree⟩ := h _ (Set.mem_image_of_mem _ hchain) _ he' _ _ _ _ hblock hi
    (hhash.trans hhash'.symm)
  exact ⟨block', hi, hhash', rfl, hagree⟩

/-- Commits of one chain are those of another that has the last of them. -/
theorem Chain.Follows.of_has (h : Linked chains) (hchain : chain ∈ chains) (he : e ∈ chains)
    (hcs : chain.Follows P config cs)
    (hlast : ∀ c, cs.getLast? = some c → e.Has c.height c.zcashBlockHash) :
    e.Follows P config cs := by
  rcases List.eq_nil_or_concat cs with rfl | ⟨cs, c, rfl⟩
  · exact .nil
  · rw [List.concat_eq_append] at hcs hlast ⊢
    have hhas : chain.Has c.height c.zcashBlockHash :=
      Chain.has_iff.mpr (hcs.hash_eq c (by simp))
    refine hcs.congr ?_
    rw [lastLevel_append_singleton]
    exact h.agreeUpTo hchain he hhas (hlast c (by simp))

end Linked

/-! ### Appending on top -/

/-- The height of the block that is appended with the awaited hash. -/
def Await.appends : Await → Option BlockHeight
  | .targetHash _ target => some target
  | .nextHash _ nextHeight => some nextHeight
  | _ => none

section Conditions

variable {σ : Type} (S : StateStore σ) (P : Platform) (config : IndexerConfig)

/-- If the tick waits for the hash of a block that it appends then, this block is above the
indexed height, and the canonical chain has the block that was indexed last. -/
def Sync.AppendsOnTop (x : Sync σ) : Prop :=
  ∀ await height, x.control.await? = some await → await.appends = some height →
    ∀ top hash, S.indexedHeight x.store = some top → S.indexedBlockHash x.store = some hash →
      top < height ∧ x.canonical.Has top hash

/-- The store is that of a fresh index of the chain up to a height. -/
structure IndexOf (chain : Chain) (s : σ) (height : BlockHeight) : Prop where
  records : ∀ r ∈ S.heightHistory s, chain.Has r.height r.zcashBlockHash
  fresh : ∃ l, chain.freshIndex P config height.toNat = some l ∧ S.view s = l.view ∧
    S.persistedStateRoot s = some (l.root P.hashing)

/-- In every run from the store whose steps meet the condition, once a tick has returned `Ok` and
the indexed hash is canonical, the store is that of a fresh index of the canonical chain. -/
def ReorgConsistent (s₀ : σ) (cond : SyncEvent → Sync σ → Prop) : Prop :=
  ∀ chains, Linked chains → ∀ chain ∈ chains, ∀ x,
    SyncRun S P config chains cond (.init chain s₀) x →
      ∀ outcome, x.control = .returned (.ok outcome) →
        ∀ height hash, S.indexedHeight x.store = some height →
          S.indexedBlockHash x.store = some hash → x.canonical.Has height hash →
            IndexOf S P config x.canonical x.store height

/-- What a waiting tick has learned from chain `e`, while the store follows `chain`. -/
def Await.Learned (s : σ) (chain e : Chain) : Await → Prop
  | .tip _ => True
  | .reorgHash _ _ _ => True
  | .targetHash _ _ => chain = e
  | .nextHash _ _ => chain = e
  | .rawBlock _ nextHeight hash => chain = e ∧ e.Has nextHeight hash ∧ S.Below s nextHeight

/-- The store follows one of the chains, and a tick past its reorg check has learned about it
from chain `e`. -/
def Tracks (Rep : σ → List BlockCommit → Prop) (chains : Set Chain) (e : Chain)
    (r : σ × Control) : Prop :=
  ∃ chain ∈ chains, ∃ cs, Rep r.1 cs ∧ chain.Follows P config cs ∧
    ∀ await, r.2.await? = some await → await.Learned S r.1 chain e

end Conditions

/-! ### Running a tick on -/

namespace LawfulStore

variable {σ : Type} {S : StateStore σ} {P : Platform} {Rep : σ → List BlockCommit → Prop}
  (L : LawfulStore P.hashing S Rep) {config : IndexerConfig} {chains : Set Chain} {chain e : Chain}
  {s : σ} {cs : List BlockCommit} {stop : Bool} {locals : TickLocals}

omit L in
/-- A tick that ended tracks the chain that its store follows. -/
theorem tracks_of_ended (hchain : chain ∈ chains) (hs : Rep s cs)
    (hcs : chain.Follows P config cs) {control : Control} (h : control.await? = none) :
    Tracks S P config Rep chains e (s, control) :=
  ⟨chain, hchain, cs, hs, hcs, fun await hawait => by rw [h] at hawait; cases hawait⟩

omit L in
/-- A tick that goes on after a result tracks a chain if it does for each value. -/
theorem tracks_orReturn {α : Type} {r : Except SyncError α} {next : α → σ × Control}
    (hchain : chain ∈ chains) (hs : Rep s cs) (hcs : chain.Follows P config cs)
    (h : ∀ a, r = .ok a → Tracks S P config Rep chains e (next a)) :
    Tracks S P config Rep chains e (orReturn s r next) := by
  cases r with
  | error e => exact tracks_of_ended hchain hs hcs rfl
  | ok a => exact h a rfl

omit L in
/-- A tick that goes on after a possible panic tracks a chain if it does for each value. -/
theorem tracks_orPanic {α : Type} {r : Except Panic α} {next : α → σ × Control}
    (hchain : chain ∈ chains) (hs : Rep s cs) (hcs : chain.Follows P config cs)
    (h : ∀ a, r = .ok a → Tracks S P config Rep chains e (next a)) :
    Tracks S P config Rep chains e (orPanic s r next) := by
  cases r with
  | error p => exact tracks_of_ended hchain hs hcs rfl
  | ok a => exact h a rfl

omit L in
/-- A tick that asks for the next block tracks the chain. -/
theorem tracks_nextBlock (he : e ∈ chains) (hs : Rep s cs) (hcs : e.Follows P config cs) :
    Tracks S P config Rep chains e (nextBlock S P stop locals s) := by
  refine ⟨e, he, cs, by rwa [nextBlock_fst], hcs, fun await hawait => ?_⟩
  rcases nextBlock_cases S P stop locals s with h | ⟨p, h⟩ | ⟨-, h⟩ <;> rw [h] at hawait
  · cases hawait
  · cases hawait
  · obtain rfl := Option.some.inj hawait
    rfl

omit L in
/-- A tick that fast-forwards tracks the chain. -/
theorem tracks_fastForward (he : e ∈ chains) (hs : Rep s cs) (hcs : e.Follows P config cs) :
    Tracks S P config Rep chains e (fastForward S P config stop locals s) := by
  rcases fastForward_cases S P config stop locals s with h | ⟨act, -, -, -, h⟩ <;> rw [h]
  · exact tracks_nextBlock he hs hcs
  · refine ⟨e, he, cs, hs, hcs, fun await hawait => ?_⟩
    obtain rfl := Option.some.inj hawait
    rfl

include L

/-- The last commit is what the store reports as indexed. -/
theorem indexed_of_getLast? (hs : Rep s cs) (hcs : Regular cs) {c : BlockCommit}
    (hc : cs.getLast? = some c) :
    S.indexedHeight s = some c.height ∧ S.indexedBlockHash s = some c.zcashBlockHash := by
  rw [L.indexedHeight hs hcs, L.indexedBlockHash hs hcs, hc]
  exact ⟨rfl, rfl⟩

/-- A tick that looks for the fork tracks one of the chains. -/
theorem tracks_handleReorg (hE : P.engine.Metered) (hchain : chain ∈ chains) (he : e ∈ chains)
    (hs : Rep s cs) (hcs : chain.Follows P config cs) :
    Tracks S P config Rep chains e (handleReorg S P config stop locals s) := by
  rcases handleReorg_cases S P config stop locals s with ⟨hnone, h⟩ |
    ⟨height, ourHash, -, -, h⟩ <;> rw [h]
  · refine tracks_fastForward he hs ?_
    rcases List.eq_nil_or_concat cs with rfl | ⟨cs, c, rfl⟩
    · exact .nil
    · rw [List.concat_eq_append] at hs hcs
      obtain ⟨hheight, hhash⟩ := L.indexed_of_getLast? hs (hcs.indexed.regular hE)
        List.getLast?_concat
      rw [hheight, hhash] at hnone
      rcases hnone with hnone | hnone <;> cases hnone
  · refine ⟨chain, hchain, cs, hs, hcs, fun await hawait => ?_⟩
    obtain rfl := Option.some.inj hawait
    trivial

/-- An empty block of the chain below the activation height keeps the store on the chain. -/
theorem follows_empty (hE : P.engine.Metered) (hs : Rep s cs) (hcs : e.Follows P config cs)
    {height : BlockHeight} {hash : BlockHash} (hhas : e.Has height hash)
    (hbelow : config.belowActivation height = true) (habove : S.Below s height) :
    e.Follows P config (cs ++ [.empty height hash]) := by
  obtain ⟨block, hblock, rfl⟩ := Chain.has_iff.mp hhas
  exact hcs.append (L.level_lt hs (hcs.indexed.regular hE) habove)
    (Chain.commitAt_below hblock hbelow) (Or.inl hbelow)

/-- The height above the indexed one, if it does not wrap. -/
theorem toNat_nextHeight (hs : Rep s cs) (hcs : Regular cs) (h : S.Below s (S.nextHeight s)) :
    (S.nextHeight s).toNat = lastLevel cs + 1 := by
  have hindexed := L.indexedHeight hs hcs
  unfold StateStore.nextHeight at h ⊢
  rcases List.eq_nil_or_concat cs with rfl | ⟨cs, c, rfl⟩
  · rw [hindexed]
    rfl
  · rw [List.concat_eq_append, List.getLast?_concat] at hindexed
    have hlt := UInt32.lt_iff_toNat_lt.mp (h c.height hindexed)
    rw [hindexed, List.concat_eq_append, lastLevel_append_singleton, BlockCommit.level]
    rw [hindexed] at hlt
    change (c.height + 1).toNat = _
    change _ < (c.height + 1).toNat at hlt
    have hlt32 := c.height.toNat_lt
    have hone : (1 : UInt32).toNat = 1 := rfl
    rw [UInt32.toNat_add, hone] at hlt ⊢
    omega

/-- A block of the chain from the activation height on keeps the store on the chain. -/
theorem follows_block (hE : P.engine.Metered) (hs : Rep s cs) (hcs : e.Follows P config cs)
    {height : BlockHeight} {block : UpstreamBlock} {parsed : ParsedBlock}
    (hblock : e.blocks[height.toNat]? = some block)
    (hbelow : config.belowActivation height = false)
    (hparse : parseBlock P block.raw height block.hash config.network = .ok parsed)
    (hnext : height = S.nextHeight s) (habove : S.Below s height) {s' : σ}
    {res : Except String BlockExecution}
    (h : processParsedBlock S P config s parsed = .ok (s', res)) :
    ∃ cs', Rep s' cs' ∧ e.Follows P config cs' ∧
      ((∃ c, blockCommit P config (ledgerOf cs).view parsed = .ok (some c)) →
        lastLevel cs' = height.toNat) := by
  have hreg := hcs.indexed.regular hE
  obtain ⟨hheight, -⟩ := parseBlock_eq_ok hparse
  obtain ⟨new, hnew, hs', -⟩ := L.block_indexed hE hs hcs.indexed (hheight ▸ habove) h
  cases new with
  | none =>
      rw [Option.toList_none, List.append_nil] at hs'
      refine ⟨cs, hs', hcs, fun ⟨c, hc⟩ => ?_⟩
      rw [L.view hs hreg, hc] at hnew
      cases hnew
  | some c =>
      have hcheight : c.height = height := (height_blockCommit hnew).1.trans hheight
      have hclevel : c.level = height.toNat := by rw [BlockCommit.level, hcheight]
      rw [L.view hs hreg] at hnew
      refine ⟨_, hs', hcs.append ?_ ?_ (Or.inr ?_), fun _ => ?_⟩
      · rw [hclevel]
        exact L.level_lt hs hreg habove
      · rw [hcheight]
        exact Chain.commitAt_block hblock hbelow hparse hnew
      · subst hnext
        rw [hclevel, L.toNat_nextHeight hs hreg habove]
      · rw [Option.toList_some, lastLevel_append_singleton, hclevel]

/-- **Running a tick on keeps the store on one of the chains**, if what it appends is on top. -/
theorem tracks_resume (hE : P.engine.Metered) (hlinked : Linked chains) {e' : Chain}
    (he' : e' ∈ chains) {await : Await} (h : Tracks S P config Rep chains e (s, .awaiting await))
    (hcurrent : await.Current S config s)
    (htop : ∀ height, await.appends = some height → ∀ top hash, S.indexedHeight s = some top →
      S.indexedBlockHash s = some hash → top < height ∧ e'.Has top hash) :
    Tracks S P config Rep chains e' (await.resume S P config stop e'.source s) := by
  obtain ⟨chain, hchain, cs, hs, hcs, hlearned⟩ := h
  have hreg := hcs.indexed.regular hE
  replace hlearned := hlearned await rfl
  -- the chain that answers has the last commit, so the store follows it too
  have honTop : ∀ height, await.appends = some height →
      e'.Follows P config cs ∧ S.Below s height := by
    intro height happends
    refine ⟨hcs.of_has hlinked hchain he' fun c hc => ?_, fun top hindexed => ?_⟩
    · obtain ⟨hheight, hhash⟩ := L.indexed_of_getLast? hs hreg hc
      exact (htop height happends _ _ hheight hhash).2
    · have hlast := L.indexedHeight hs hreg
      rw [hindexed] at hlast
      obtain ⟨c, hc, rfl⟩ := Option.map_eq_some_iff.mp hlast.symm
      obtain ⟨hheight, hhash⟩ := L.indexed_of_getLast? hs hreg hc
      exact (htop height happends _ _ hheight hhash).1
  cases await with
  | tip indexedBefore =>
      exact tracks_orReturn hchain hs hcs fun tip _ => L.tracks_handleReorg hE hchain he' hs hcs
  | reorgHash locals height ourHash =>
      refine tracks_orReturn hchain hs hcs fun canonical hcanonical => ?_
      by_cases heq : canonical = ourHash
      · rw [if_pos heq]
        refine tracks_fastForward he' hs (hcs.of_has hlinked hchain he' fun c hc => ?_)
        obtain ⟨hheight, hhash⟩ := L.indexed_of_getLast? hs hreg hc
        obtain rfl := Option.some.inj (hheight.symm.trans hcurrent.1)
        obtain rfl := Option.some.inj (hhash.symm.trans hcurrent.2)
        rw [← heq]
        exact transient_eq_ok hcanonical
      · rw [if_neg heq]
        refine tracks_orPanic hchain hs hcs fun target _ => ?_
        have hs' := (L.rollbackTo hs hreg target).1
        have hcs' := hcs.commitsUpTo target hreg.increasing
        exact tracks_orReturn hchain hs' hcs' fun _ _ =>
          L.tracks_handleReorg hE hchain he' hs' hcs'
  | targetHash locals target =>
      refine tracks_orReturn hchain hs hcs fun hash hhash => ?_
      obtain ⟨hcs', habove⟩ := honTop target rfl
      have hs'' := (L.commitBlock hs (.empty target hash)).1
      have hcs'' := L.follows_empty hE hs hcs' (transient_eq_ok hhash) hcurrent.2.1 habove
      exact tracks_orReturn he' hs'' hcs'' fun _ _ => tracks_nextBlock he' hs'' hcs''
  | nextHash locals nextHeight =>
      refine tracks_orReturn hchain hs hcs fun hash hhash => ?_
      obtain ⟨hcs', habove⟩ := honTop nextHeight rfl
      by_cases hbelow : config.belowActivation nextHeight = true
      · rw [if_pos hbelow, processZcashBlock_below hbelow]
        have hs'' := (L.commitBlock hs (.empty nextHeight hash)).1
        rw [← commitEmptyBlock_fst] at hs''
        have hcs'' := L.follows_empty hE hs hcs' (transient_eq_ok hhash) hbelow habove
        exact tracks_orReturn he' hs'' hcs'' fun _ _ => tracks_nextBlock he' hs'' hcs''
      · rw [if_neg hbelow]
        refine ⟨e', he', cs, hs, hcs', fun await hawait => ?_⟩
        obtain rfl := Option.some.inj hawait
        exact ⟨rfl, transient_eq_ok hhash, habove⟩
  | rawBlock locals nextHeight hash =>
      obtain ⟨rfl, hhas, habove⟩ := hlearned
      refine tracks_orReturn hchain hs hcs fun raw hraw => ?_
      refine tracks_orReturn hchain hs hcs fun parsed hparsed => ?_
      refine tracks_orPanic hchain hs hcs fun done hdone => ?_
      obtain ⟨block, hblock, rfl, rfl, hagree⟩ :=
        hlinked.rawBlock hchain he' hhas (transient_eq_ok hraw)
      have hlast : lastLevel cs ≤ nextHeight.toNat := by
        have hnext := L.toNat_nextHeight hs hreg (hcurrent.1 ▸ habove)
        rw [← hcurrent.1] at hnext
        omega
      obtain ⟨cs', hs', hcs', -⟩ := L.follows_block hE hs (hcs.congr (hagree.mono hlast)) hblock
        hcurrent.2.2 (transient_eq_ok hparsed) hcurrent.1 habove hdone
      exact tracks_orReturn he' hs' hcs' fun _ _ => tracks_nextBlock he' hs' hcs'

/-! ### Runs -/

/-- A step that appends on top keeps the store on one of the chains. -/
theorem tracks_step (hE : P.engine.Metered) (hlinked : Linked chains) {x y : Sync σ}
    {event : SyncEvent} (hstep : SyncStep S P config chains x event y)
    (hcanonical : x.canonical ∈ chains)
    (htracks : Tracks S P config Rep chains e (x.store, x.control))
    (hcurrent : Resumable S config (x.store, x.control))
    (hcond : event = .call → x.AppendsOnTop S) :
    y.canonical ∈ chains ∧ ∃ e', (e' = e ∨ e' = x.canonical) ∧
      Tracks S P config Rep chains e' (y.store, y.control) := by
  cases hstep with
  | replace chain hreplace => exact ⟨hreplace, e, Or.inl rfl, htracks⟩
  | stop => exact ⟨hcanonical, e, Or.inl rfl, htracks⟩
  | begin =>
      obtain ⟨chain, hchain, cs, hs, hcs, -⟩ := htracks
      refine ⟨hcanonical, e, Or.inl rfl, chain, hchain, cs, hs, hcs, fun await hawait => ?_⟩
      obtain rfl := Option.some.inj hawait
      trivial
  | call await hawait =>
      have hcurrent := hcurrent await hawait
      rw [Control.await?_eq_some.mp hawait] at htracks
      exact ⟨hcanonical, x.canonical, Or.inr rfl, L.tracks_resume hE hlinked hcanonical htracks
        hcurrent fun height happends => hcond rfl await height hawait happends⟩
  | unreachable await message hawait =>
      obtain ⟨chain, hchain, cs, hs, hcs, -⟩ := htracks
      obtain ⟨error, hresume⟩ : ∃ error, await.resume S P config x.stop (.unreachable message)
          x.store = (x.store, .returned (.error (.transient error))) :=
        await.resume_unreachable message
      refine ⟨hcanonical, e, Or.inl rfl, ?_⟩
      change Tracks S P config Rep chains e
        (await.resume S P config x.stop (.unreachable message) x.store)
      rw [hresume]
      exact tracks_of_ended hchain hs hcs rfl

/-- **In a run that appends on top, the store follows one of the chains.** -/
theorem tracks_of_run (hE : P.engine.Metered) (hlinked : Linked chains) {s₀ : σ} (h₀ : Rep s₀ [])
    (hchain : chain ∈ chains) {x : Sync σ}
    (h : SyncRun S P config chains (fun event x => event = .call → x.AppendsOnTop S)
      (.init chain s₀) x) :
    x.canonical ∈ chains ∧ ∃ e, Tracks S P config Rep chains e (x.store, x.control) := by
  induction h with
  | refl => exact ⟨hchain, chain, tracks_of_ended hchain h₀ .nil rfl⟩
  | tail hrun hstep ih =>
      obtain ⟨hcanonical, e, htracks⟩ := ih
      obtain ⟨event, hstep, hcond⟩ := hstep
      obtain ⟨hcanonical', e', -, htracks'⟩ := L.tracks_step hE hlinked hstep hcanonical htracks
        (SyncRun.resumable hrun) hcond
      exact ⟨hcanonical', e', htracks'⟩

/-- A store that follows a chain is that of a fresh index up to the indexed height. -/
theorem indexOf_of_follows (hE : P.engine.Metered) (hs : Rep s cs) (hcs : e.Follows P config cs)
    {height : BlockHeight} (hheight : S.indexedHeight s = some height) :
    IndexOf S P config e s height := by
  have hreg := hcs.indexed.regular hE
  have hlast := L.indexedHeight hs hreg
  rw [hheight] at hlast
  obtain ⟨c, hc, rfl⟩ := Option.map_eq_some_iff.mp hlast.symm
  constructor
  · intro r hr
    rw [L.heightHistory hs hreg] at hr
    obtain ⟨d, hd, hdheight, hdhash⟩ := exists_of_mem_recordsFrom hr
    obtain ⟨block, hblock, hhash⟩ := hcs.hash_eq d hd
    rw [← hdheight, ← hdhash]
    exact Chain.has_iff.mpr ⟨block, hblock, hhash⟩
  · have hlevel : lastLevel cs = c.height.toNat := by
      rw [lastLevel, hc]
      rfl
    refine ⟨ledgerOf cs, hlevel ▸ hcs.freshIndex, L.view hs hreg, ?_⟩
    rw [L.persistedStateRoot hs hreg, hc]
    rfl

/-- The store is consistent in every run that appends on top, for every lawful store. -/
theorem reorgConsistent (hE : P.engine.Metered) {s₀ : σ} (h₀ : Rep s₀ []) :
    ReorgConsistent S P config s₀ fun event x => event = .call → x.AppendsOnTop S := by
  intro chains hlinked chain hchain x hrun outcome _ height hash hheight hhash hhas
  obtain ⟨hcanonical, e, follower, hfollower, cs, hs, hcs, -⟩ :=
    L.tracks_of_run hE hlinked h₀ hchain hrun
  refine L.indexOf_of_follows hE hs (hcs.of_has hlinked hfollower hcanonical fun c hc => ?_) hheight
  obtain ⟨hheight', hhash'⟩ := L.indexed_of_getLast? hs (hcs.indexed.regular hE) hc
  obtain rfl := Option.some.inj (hheight'.symm.trans hheight)
  obtain rfl := Option.some.inj (hhash'.symm.trans hhash)
  exact hhas

end LawfulStore

/-! ### A fork below the activation height -/

/-- A block, named by its hash. -/
def forkBlock (n : UInt8) : UpstreamBlock := ⟨.replicate n, []⟩

/-- The chain that the node replaces. -/
def oldChain : Chain := ⟨[forkBlock 0, forkBlock 1], by decide, by decide⟩

/-- The chain that the node replaces it with. -/
def newChain : Chain := ⟨[forkBlock 0, forkBlock 2, forkBlock 3], by decide, by decide⟩

/-- The two chains are linked. -/
theorem linked_fork : Linked {oldChain, newChain} := by
  refine hashLinked_of_forall_fin ?_
  rintro _ ⟨c, rfl | rfl, rfl⟩ _ ⟨d, rfl | rfl, rfl⟩ <;> decide

/-- No block is interpreted before height 10. -/
def lateConfig : IndexerConfig := ⟨.regtest, some 10⟩

section Fork

variable {σ : Type} {S : StateStore σ} {P : Platform} {config : IndexerConfig}
  {chains : Set Chain} {cond : SyncEvent → Sync σ → Prop} {x₀ x : Sync σ}

/-- A run goes on with an answer of the node. -/
theorem SyncRun.call (h : SyncRun S P config chains cond x₀ x) {await : Await}
    (hawait : x.control = .awaiting await) (hcond : cond .call x) {r : σ × Control}
    (hr : await.resume S P config x.stop x.canonical.source x.store = r) :
    SyncRun S P config chains cond x₀ { x with store := r.1, control := r.2 } := by
  refine h.tail ⟨.call, ?_, hcond⟩
  rw [← hr]
  exact .call await (Control.await?_eq_some.mpr hawait)

/-- A run goes on with a new tick. -/
theorem SyncRun.begin (h : SyncRun S P config chains cond x₀ x) (hidle : x.control.await? = none)
    (hcond : cond .begin x) : SyncRun S P config chains cond x₀ (x.begin S) :=
  h.tail ⟨.begin, .begin hidle, hcond⟩

/-- A run goes on with another chain. -/
theorem SyncRun.replace (h : SyncRun S P config chains cond x₀ x) {chain : Chain}
    (hchain : chain ∈ chains) (hcond : cond (.replace chain) x) :
    SyncRun S P config chains cond x₀ { x with canonical := chain } :=
  h.tail ⟨.replace chain, .replace chain hchain, hcond⟩

/-- On a store without an indexed block, every answer is appended on top. -/
theorem appendsOnTop_of_empty {s : σ} (h : S.indexedHeight s = none) {x : Sync σ}
    (hx : x.store = s) : x.AppendsOnTop S := by
  intro await height _ _ top hash htop
  rw [hx, h] at htop
  cases htop

variable (S P) in
/-- Below the activation height, the fast-forward goes to the tip. -/
theorem fastForward_late (locals : TickLocals) {s : σ} (hbelow : S.Below s locals.tip.height)
    (hmin : min (10 - 1) locals.tip.height = locals.tip.height) :
    fastForward S P lateConfig false locals s =
      (s, .awaiting (.targetHash locals locals.tip.height)) := by
  have hact : lateConfig.activationHeight = some 10 := rfl
  have hall : (S.indexedHeight s).all (· < locals.tip.height) = true := by
    cases hindexed : S.indexedHeight s with
    | none => rfl
    | some top => exact decide_eq_true (hbelow top hindexed)
  rw [fastForward, hact]
  dsimp only
  rw [if_pos (by decide), hmin, if_pos hall]

variable {Rep : σ → List BlockCommit → Prop} (L : LawfulStore P.hashing S Rep)

include L

/-- A tick that has fast-forwarded to the tip returns. -/
theorem LawfulStore.resume_targetHash_tip (chain : Chain) (locals : TickLocals) {s : σ}
    {cs : List BlockCommit} (hs : Rep s cs)
    (hreg : Regular (cs ++ [.empty locals.tip.height chain.tip.hash]))
    (hhas : chain.Has locals.tip.height chain.tip.hash)
    (hnext : locals.tip.height < locals.tip.height + 1) :
    Await.resume S P lateConfig false chain.source s (.targetHash locals locals.tip.height) =
      finish S locals (S.commitBlock s (.empty locals.tip.height chain.tip.hash)).1 := by
  obtain ⟨hs', hok⟩ := L.commitBlock hs (.empty locals.tip.height chain.tip.hash)
  have hindexed := L.indexedHeight hs' hreg
  rw [List.getLast?_concat, Option.map_some] at hindexed
  have hheight : S.nextHeight (S.commitBlock s (.empty locals.tip.height chain.tip.hash)).1 =
      locals.tip.height + 1 := by
    rw [StateStore.nextHeight, hindexed]
    rfl
  have hbelow : S.Below (S.commitBlock s (.empty locals.tip.height chain.tip.hash)).1
      (S.nextHeight (S.commitBlock s (.empty locals.tip.height chain.tip.hash)).1) := by
    intro top htop
    rw [hheight]
    obtain rfl := Option.some.inj (hindexed.symm.trans htop)
    exact hnext
  rw [Await.resume, hhas]
  change orReturn (S.commitBlock s (.empty locals.tip.height chain.tip.hash)).1
    (fatal (S.commitBlock s (.empty locals.tip.height chain.tip.hash)).2 _) _ = _
  rw [hok]
  change nextBlock S P false locals _ = _
  rw [nextBlock_of_below S P hbelow, hheight, if_pos hnext]

/-- A first tick commits an empty block at the tip. -/
theorem LawfulStore.firstTick (chain : Chain) {s₀ : σ} (h₀ : Rep s₀ [])
    (hmin : min (10 - 1) chain.tip.height = chain.tip.height)
    (hnext : chain.tip.height < chain.tip.height + 1)
    (hbegins : ∀ x, cond .begin x) (hcalls : ∀ x, x.store = s₀ → cond .call x) :
    SyncRun S P lateConfig chains cond (.init chain s₀) ⟨chain, false,
      (S.commitBlock s₀ (.empty chain.tip.height chain.tip.hash)).1,
      (finish S ⟨none, chain.tip⟩
        (S.commitBlock s₀ (.empty chain.tip.height chain.tip.hash)).1).2⟩ := by
  have hnone : S.indexedHeight s₀ = none := L.indexedHeight h₀ Regular.nil
  have hbelow : S.Below s₀ chain.tip.height := fun top htop => by
    rw [hnone] at htop
    cases htop
  have hfirst : handleReorg S P lateConfig false ⟨none, chain.tip⟩ s₀ =
      (s₀, .awaiting (.targetHash ⟨none, chain.tip⟩ chain.tip.height)) := by
    rw [handleReorg, hnone]
    exact fastForward_late S P ⟨none, chain.tip⟩ hbelow hmin
  have hbegin : (Sync.init chain s₀).begin S = ⟨chain, false, s₀, .awaiting (.tip none)⟩ := by
    rw [Sync.begin, Sync.init, hnone]
  have hrun₁ : SyncRun S P lateConfig chains cond (.init chain s₀) ((Sync.init chain s₀).begin S) :=
    SyncRun.begin .refl rfl (hbegins _)
  rw [hbegin] at hrun₁
  have hrun₂ := SyncRun.call hrun₁ rfl (hcalls _ rfl) (r := _) hfirst
  have hreg : Regular ([] ++ [.empty chain.tip.height chain.tip.hash]) :=
    Regular.nil.append_singleton (by simp) (BlockCommit.fits_empty _ _)
  exact SyncRun.call hrun₂ rfl (hcalls _ rfl)
    (L.resume_targetHash_tip chain ⟨none, chain.tip⟩ h₀ hreg chain.has_tip hnext)

/-- A run through a reorg between two ticks: the first tick indexes the tip of the old chain, and
the second rolls it back and indexes the tip of the new one. -/
theorem LawfulStore.exists_forkRun {s₀ : σ} (h₀ : Rep s₀ []) :
    ∃ x, SyncRun S P lateConfig {oldChain, newChain}
        (fun event x => event = .call → x.AppendsOnTop S) (.init oldChain s₀) x ∧
      x.canonical = newChain ∧ (∃ outcome, x.control = .returned (.ok outcome)) ∧
        S.indexedHeight x.store = some newChain.tip.height ∧
          S.indexedBlockHash x.store = some newChain.tip.hash := by
  have hnone : S.indexedHeight s₀ = none := L.indexedHeight h₀ Regular.nil
  have hfirst : SyncRun S P lateConfig {oldChain, newChain}
      (fun event x => event = .call → x.AppendsOnTop S) (.init oldChain s₀) _ :=
    L.firstTick oldChain h₀ (by decide) (by decide) (fun _ h => nomatch h) fun _ hx _ =>
      appendsOnTop_of_empty hnone hx
  have hcs₁ : Regular ([] ++ [.empty oldChain.tip.height oldChain.tip.hash]) :=
    Regular.nil.append_singleton (by simp) (BlockCommit.fits_empty _ _)
  have hs₁ := (L.commitBlock h₀ (.empty oldChain.tip.height oldChain.tip.hash)).1
  set s₁ := (S.commitBlock s₀ (.empty oldChain.tip.height oldChain.tip.hash)).1
  have hheight₁ : S.indexedHeight s₁ = some oldChain.tip.height := L.indexedHeight hs₁ hcs₁
  have hhash₁ : S.indexedBlockHash s₁ = some oldChain.tip.hash := L.indexedBlockHash hs₁ hcs₁
  -- the rollback takes the old block back
  obtain ⟨hs₂, hok₂⟩ := L.rollbackTo hs₁ hcs₁ 0
  have hnone₂ : S.indexedHeight (S.rollbackTo s₁ 0).1 = none := L.indexedHeight hs₂ Regular.nil
  set s₂ := (S.rollbackTo s₁ 0).1
  have hs₃ := (L.commitBlock hs₂ (.empty newChain.tip.height newChain.tip.hash)).1
  have hcs₃ : Regular (commitsUpTo 0 ([] ++ [.empty oldChain.tip.height oldChain.tip.hash]) ++
      [.empty newChain.tip.height newChain.tip.hash]) :=
    Regular.nil.append_singleton (by simp) (BlockCommit.fits_empty _ _)
  let locals : TickLocals := ⟨some oldChain.tip.height, newChain.tip⟩
  have hcheck : handleReorg S P lateConfig false locals s₁ =
      (s₁, .awaiting (.reorgHash locals oldChain.tip.height oldChain.tip.hash)) := by
    rw [handleReorg, hheight₁, hhash₁]
  have hback : Await.resume S P lateConfig false newChain.source s₁
      (.reorgHash locals oldChain.tip.height oldChain.tip.hash) =
        (s₂, .awaiting (.targetHash locals locals.tip.height)) := by
    have hbelow : S.Below s₂ locals.tip.height := fun top htop => by
      rw [hnone₂] at htop
      cases htop
    have hreorg : handleReorg S P lateConfig false locals s₂ =
        (s₂, .awaiting (.targetHash locals locals.tip.height)) := by
      rw [handleReorg, hnone₂]
      exact fastForward_late S P locals hbelow (by decide)
    -- the new chain has another block at height 1
    change orReturn s₂ (fatal (S.rollbackTo s₁ 0).2 "rolling back a reorged block")
      (fun _ => handleReorg S P lateConfig false locals s₂) = _
    rw [hok₂]
    exact hreorg
  have hquiet : ∀ {control : Control} {await : Await}, control = .awaiting await →
      await.appends = none → ∀ s, Sync.AppendsOnTop S ⟨newChain, false, s, control⟩ := by
    rintro _ await rfl hnone s await' height hawait hheight
    obtain rfl := Option.some.inj hawait
    rw [hnone] at hheight
    cases hheight
  have hrun₁ := SyncRun.begin (SyncRun.replace hfirst (Or.inr rfl) fun h => nomatch h) rfl
    fun h => nomatch h
  have hbegin : Sync.begin S ⟨newChain, false, s₁, (finish S ⟨none, oldChain.tip⟩ s₁).2⟩ =
      ⟨newChain, false, s₁, .awaiting (.tip (some oldChain.tip.height))⟩ := by
    rw [Sync.begin, hheight₁]
  change SyncRun S P lateConfig _ _ _
    (Sync.begin S ⟨newChain, false, s₁, (finish S ⟨none, oldChain.tip⟩ s₁).2⟩) at hrun₁
  rw [hbegin] at hrun₁
  have hrun₂ := SyncRun.call hrun₁ rfl (fun _ => hquiet rfl rfl _) (r := _) hcheck
  have hrun₃ := SyncRun.call hrun₂ rfl (fun _ => hquiet rfl rfl _) hback
  have hrun₄ := SyncRun.call hrun₃ rfl (fun _ => appendsOnTop_of_empty hnone₂ rfl)
    (L.resume_targetHash_tip newChain locals hs₂ hcs₃ newChain.has_tip (by decide))
  exact ⟨_, hrun₄, rfl, ⟨_, rfl⟩, L.indexedHeight hs₃ hcs₃, L.indexedBlockHash hs₃ hcs₃⟩

/-- A chain that replaces the old one between the reorg check and the fast-forward leaves a record
of the old chain below one of its own. -/
theorem LawfulStore.not_reorgConsistent {s₀ : σ} (h₀ : Rep s₀ []) :
    ¬ ReorgConsistent S P lateConfig s₀ fun _ _ => True := by
  intro hconsistent
  have hold : oldChain ∈ ({oldChain, newChain} : Set Chain) := Or.inl rfl
  have hnew : newChain ∈ ({oldChain, newChain} : Set Chain) := Or.inr rfl
  have hfirst : SyncRun S P lateConfig {oldChain, newChain} (fun _ _ => True)
      (.init oldChain s₀) _ :=
    L.firstTick oldChain h₀ (by decide) (by decide) (fun _ => trivial) fun _ _ => trivial
  have hcs₁ : Regular ([] ++ [.empty oldChain.tip.height oldChain.tip.hash]) :=
    Regular.nil.append_singleton (by simp) (BlockCommit.fits_empty _ _)
  have hs₁ := (L.commitBlock h₀ (.empty oldChain.tip.height oldChain.tip.hash)).1
  have hcs₂ : Regular ([] ++ [.empty oldChain.tip.height oldChain.tip.hash] ++
      [.empty newChain.tip.height newChain.tip.hash]) :=
    hcs₁.append_singleton (by decide) (BlockCommit.fits_empty _ _)
  have hs₂ := (L.commitBlock hs₁ (.empty newChain.tip.height newChain.tip.hash)).1
  set s₁ := (S.commitBlock s₀ (.empty oldChain.tip.height oldChain.tip.hash)).1
  set s₂ := (S.commitBlock s₁ (.empty newChain.tip.height newChain.tip.hash)).1
  have hheight₁ : S.indexedHeight s₁ = some oldChain.tip.height := L.indexedHeight hs₁ hcs₁
  have hhash₁ : S.indexedBlockHash s₁ = some oldChain.tip.hash := L.indexedBlockHash hs₁ hcs₁
  let locals : TickLocals := ⟨some oldChain.tip.height, newChain.tip⟩
  -- the second tick gets the tip from the new chain, and passes its reorg check on the old one
  have hcheck : handleReorg S P lateConfig false locals s₁ =
      (s₁, .awaiting (.reorgHash locals oldChain.tip.height oldChain.tip.hash)) := by
    rw [handleReorg, hheight₁, hhash₁]
  have hbelow : S.Below s₁ locals.tip.height := by
    intro top htop
    obtain rfl := Option.some.inj (hheight₁.symm.trans htop)
    decide
  have hpass : Await.resume S P lateConfig false oldChain.source s₁
      (.reorgHash locals oldChain.tip.height oldChain.tip.hash) =
        (s₁, .awaiting (.targetHash locals locals.tip.height)) := by
    rw [Await.resume_reorgHash_self oldChain.has_tip]
    exact fastForward_late S P locals hbelow (by decide)
  have hrun₁ := SyncRun.begin (SyncRun.replace hfirst hnew trivial) rfl trivial
  have hbegin : Sync.begin S ⟨newChain, false, s₁, (finish S ⟨none, oldChain.tip⟩ s₁).2⟩ =
      ⟨newChain, false, s₁, .awaiting (.tip (some oldChain.tip.height))⟩ := by
    rw [Sync.begin, hheight₁]
  change SyncRun S P lateConfig _ _ _
    (Sync.begin S ⟨newChain, false, s₁, (finish S ⟨none, oldChain.tip⟩ s₁).2⟩) at hrun₁
  rw [hbegin] at hrun₁
  have hrun₂ := SyncRun.replace (SyncRun.call hrun₁ rfl trivial (r := _) hcheck) hold trivial
  have hrun₃ := SyncRun.replace (SyncRun.call hrun₂ rfl trivial hpass) hnew trivial
  have hrun₄ := SyncRun.call hrun₃ rfl trivial
    (L.resume_targetHash_tip newChain locals hs₁ hcs₂ newChain.has_tip (by decide))
  have hindex := hconsistent _ linked_fork oldChain hold _ hrun₄ _ rfl newChain.tip.height
    newChain.tip.hash (L.indexedHeight hs₂ hcs₂) (L.indexedBlockHash hs₂ hcs₂) newChain.has_tip
  have hrecord : newChain.Has oldChain.tip.height oldChain.tip.hash :=
    hindex.records ⟨oldChain.tip.height, oldChain.tip.hash,
      (ledgerOf [.empty oldChain.tip.height oldChain.tip.hash]).root P.hashing⟩ (by
        change _ ∈ S.heightHistory s₂
        rw [L.heightHistory hs₂ hcs₂]
        exact List.mem_cons_self)
  obtain ⟨block, hblock, hhash⟩ := Chain.has_iff.mp hrecord
  obtain rfl := Option.some.inj hblock
  exact absurd hhash (by decide)

end Fork

/-- **The store survives reorgs at any moment** on both backends, in every run of ticks that
appends each block on top of a block that is still canonical. -/
theorem reorg_consistent (P : Platform) (config : IndexerConfig) (hE : P.engine.Metered) :
    ReorgConsistent (MemoryState.store P.hashing) P config MemoryState.new
        (fun event x => event = .call → x.AppendsOnTop (MemoryState.store P.hashing)) ∧
      ReorgConsistent (RocksState.store P.hashing P.json) P config RocksState.fresh
        fun event x => event = .call → x.AppendsOnTop (RocksState.store P.hashing P.json) :=
  ⟨(MemoryState.lawful P.hashing).reorgConsistent hE rfl,
    (RocksState.lawful P.hashing P.json).reorgConsistent hE
      (RocksState.AgreesOff.refl RocksState.IsExec RocksState.fresh)⟩

/-- A reorg between two ticks: the database ends as a fresh index of the new chain. -/
theorem reorg_consistent_register :
    meteredEngine.Metered ∧ ∀ (H : Hashing) (json : Execution → Except String Bytes),
      let P := meteredPlatform H json
      let S := RocksState.store H json
      ∃ x, SyncRun S P lateConfig {oldChain, newChain}
          (fun event x => event = .call → x.AppendsOnTop S) (.init oldChain RocksState.fresh) x ∧
        x.canonical = newChain ∧ S.indexedHeight x.store = some 2 ∧
          IndexOf S P lateConfig newChain x.store 2 := by
  refine ⟨metered_meteredEngine, fun H json => ?_⟩
  intro P S
  have hfresh := RocksState.AgreesOff.refl RocksState.IsExec RocksState.fresh
  have L : LawfulStore P.hashing S _ := RocksState.lawful H json
  obtain ⟨x, hrun, hcanonical, ⟨outcome, hreturned⟩, hheight, hhash⟩ :=
    L.exists_forkRun (P := P) hfresh
  have hindex := (reorg_consistent P lateConfig metered_meteredEngine).2 {oldChain, newChain}
    linked_fork oldChain (Or.inl rfl) x hrun outcome hreturned newChain.tip.height
    newChain.tip.hash hheight hhash (hcanonical ▸ newChain.has_tip)
  exact ⟨x, hrun, hcanonical, hheight, hcanonical ▸ hindex⟩

/-- On the old chain, a tick indexes block 1; in the next tick, the new chain replaces the old one
after the reorg check, and block 2 of the new chain is indexed above block 1 of the old one. -/
theorem not_reorg_consistent_fork :
    ¬ ∃ P : Platform,
      ReorgConsistent (MemoryState.store P.hashing) P lateConfig MemoryState.new
          (fun _ _ => True) ∨
        ReorgConsistent (RocksState.store P.hashing P.json) P lateConfig RocksState.fresh
          fun _ _ => True := by
  rintro ⟨P, hmemory | hrocks⟩
  · have hnew : MemoryState.Represents P.hashing MemoryState.new [] := rfl
    exact (MemoryState.lawful P.hashing).not_reorgConsistent hnew hmemory
  · exact (RocksState.lawful P.hashing P.json).not_reorgConsistent
      (RocksState.AgreesOff.refl RocksState.IsExec RocksState.fresh) hrocks

end Zalkanes
