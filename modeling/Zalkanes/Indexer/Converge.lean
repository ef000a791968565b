import Zalkanes.Indexer.Reorg

/-!
# Convergence on a Stable Chain

A tick that runs against one chain goes through three phases: it rolls back until the canonical
chain has the block that was indexed last, it fast-forwards below the activation height, and it
indexes block by block up to the tip. The first phase asks for the canonical hash at the indexed
height, so it fails for good when the chain is shorter than what is indexed.

## Main results

* `LawfulStore.reaches_fastForward`, `LawfulStore.reaches_nextBlock`, `LawfulStore.reaches_tip`:
  the three phases.
* `converges_iff`: when a tick converges.
-/

namespace Zalkanes

open Lib

/-! ### Ticks on a stable chain -/

/-- The chains have the same genesis block. -/
def SharedGenesis (chains : Set Chain) : Prop :=
  ∀ c ∈ chains, ∀ d ∈ chains, c.blocks[0]? = d.blocks[0]?

/-- Whether the node replaces its chain between ticks only. -/
def BetweenTicks {σ : Type} (event : SyncEvent) (x : Sync σ) : Prop :=
  ∀ chain, event = .replace chain → x.control.await? = none

section Definitions

variable {σ : Type} (S : StateStore σ) (P : Platform) (config : IndexerConfig) (chain : Chain)

/-- One call of a tick which the chain answers, without a stop request. -/
def TickStep (r r' : σ × Control) : Prop :=
  ∃ await, r.2 = .awaiting await ∧ r' = await.resume S P config false chain.source r.1

/-- What a tick gets to while the chain stays canonical. -/
abbrev TickReaches : σ × Control → σ × Control → Prop :=
  Relation.ReflTransGen (TickStep S P config chain)

/-- A tick that starts on this store while the chain stays canonical returns `Ok` and leaves the
store of a fresh index at the tip. -/
def Converges (s : σ) : Prop :=
  ∃ s' outcome, TickReaches S P config chain (s, .awaiting (.tip (S.indexedHeight s)))
      (s', .returned (.ok outcome)) ∧
    S.indexedHeight s' = some chain.tip.height ∧ S.indexedBlockHash s' = some chain.tip.hash ∧
      IndexOf S P config chain s' chain.tip.height

/-- When a tick converges on a new chain: exactly when the chain is not shorter than what is
indexed, it can be indexed, and its tip is not the last height there is. The store is one that
earlier ticks leave, each of which ran against one of the chains. -/
def ConvergesIff (s₀ : σ) : Prop :=
  ∀ (chains : Set Chain) (new : Chain), Linked (insert new chains) →
    SharedGenesis (insert new chains) → (∀ c ∈ chains, c.tip.height.toNat < 2 ^ 32 - 1) →
      ∀ c ∈ chains, ∀ x, SyncRun S P config chains BetweenTicks (.init c s₀) x →
        x.control.await? = none → 1 ≤ new.tip.height.toNat →
          (Converges S P config new x.store ↔
            (∀ h, S.indexedHeight x.store = some h → h ≤ new.tip.height) ∧
              (new.freshIndex P config new.tip.height.toNat).isSome ∧
                new.tip.height.toNat < 2 ^ 32 - 1)

/-- Every tick converges, on every chain that can be indexed. -/
def ConvergesAlways (s₀ : σ) : Prop :=
  ∀ (chains : Set Chain) (new : Chain), Linked (insert new chains) →
    SharedGenesis (insert new chains) →
      ∀ c ∈ chains, ∀ x, SyncRun S P config chains BetweenTicks (.init c s₀) x →
        x.control.await? = none → 1 ≤ new.tip.height.toNat → new.tip.height.toNat < 2 ^ 32 - 1 →
          (new.freshIndex P config new.tip.height.toNat).isSome → Converges S P config new x.store

end Definitions

section Tips

variable {chain : Chain}

/-- Chains that have different blocks at a height have them above the genesis block. -/
theorem SharedGenesis.pos_of_ne {chains : Set Chain} (hgenesis : SharedGenesis chains)
    {c d : Chain} (hc : c ∈ chains) (hd : d ∈ chains) {height : BlockHeight}
    {hash hash' : BlockHash} (hhas : c.Has height hash) (hhas' : d.Has height hash')
    (hne : hash ≠ hash') : 1 ≤ height.toNat := by
  by_contra hzero
  obtain ⟨block, hblock, rfl⟩ := Chain.has_iff.mp hhas
  obtain ⟨block', hblock', rfl⟩ := Chain.has_iff.mp hhas'
  have hheight : height.toNat = 0 := by omega
  rw [hheight] at hblock hblock'
  rw [← hgenesis c hc d hd, hblock] at hblock'
  exact hne (congrArg _ (Option.some.inj hblock'))

/-- The last level of commits of a chain is at most its tip. -/
theorem Chain.Follows.lastLevel_le_tip {P : Platform} {config : IndexerConfig}
    {cs : List BlockCommit} (hcs : chain.Follows P config cs) :
    lastLevel cs ≤ chain.tip.height.toNat := by
  rcases List.eq_nil_or_concat cs with rfl | ⟨cs, c, rfl⟩
  · exact Nat.zero_le _
  · rw [List.concat_eq_append] at hcs ⊢
    rw [lastLevel_append_singleton]
    have hhas := Chain.has_iff.mpr (hcs.hash_eq c (by simp))
    exact UInt32.le_iff_toNat_le.mp (Chain.exists_has_iff.mp ⟨_, hhas⟩)

end Tips

namespace LawfulStore

variable {σ : Type} {S : StateStore σ} {P : Platform} {Rep : σ → List BlockCommit → Prop}
  (L : LawfulStore P.hashing S Rep) {config : IndexerConfig} {chains : Set Chain} {chain e : Chain}
  {s : σ} {cs : List BlockCommit} {locals : TickLocals}

include L

/-! ### Stores that earlier ticks leave -/

/-- The chain has the last block that the store has indexed. -/
theorem has_of_follows (hE : P.engine.Metered) (hs : Rep s cs) (hcs : e.Follows P config cs)
    {top : BlockHeight} {hash : BlockHash} (htop : S.indexedHeight s = some top)
    (hhash : S.indexedBlockHash s = some hash) : e.Has top hash ∧ lastLevel cs = top.toNat := by
  have hreg := hcs.indexed.regular hE
  have hlast := L.indexedHeight hs hreg
  rw [htop] at hlast
  obtain ⟨c, hc, rfl⟩ := Option.map_eq_some_iff.mp hlast.symm
  rw [L.indexedBlockHash hs hreg, hc] at hhash
  obtain rfl := Option.some.inj hhash
  refine ⟨Chain.has_iff.mpr (hcs.hash_eq c (List.mem_of_getLast? hc)), ?_⟩
  rw [lastLevel, hc]
  rfl

/-- The loop does not wrap on a chain whose tip is not the last height there is. -/
theorem below_nextHeight (hE : P.engine.Metered) (hs : Rep s cs) (hcs : e.Follows P config cs)
    (htip : e.tip.height.toNat < 2 ^ 32 - 1) : S.Below s (S.nextHeight s) := by
  have hreg := hcs.indexed.regular hE
  intro top htop
  have hlast := L.indexedHeight hs hreg
  rw [htop] at hlast
  obtain ⟨c, hc, rfl⟩ := Option.map_eq_some_iff.mp hlast.symm
  have hhas := Chain.has_iff.mpr (hcs.hash_eq c (List.mem_of_getLast? hc))
  have hle := UInt32.le_iff_toNat_le.mp (Chain.exists_has_iff.mp ⟨_, hhas⟩)
  have hone : (1 : UInt32).toNat = 1 := rfl
  rw [StateStore.nextHeight, htop, UInt32.lt_iff_toNat_lt]
  change _ < (c.height + 1).toNat
  rw [UInt32.toNat_add, hone]
  omega

/-- While a tick runs against one chain, it appends on top. -/
theorem appendsOnTop_of_tracks (hE : P.engine.Metered) {x : Sync σ}
    (htracks : Tracks S P config Rep chains x.canonical (x.store, x.control))
    (hcurrent : Resumable S config (x.store, x.control))
    (htip : x.canonical.tip.height.toNat < 2 ^ 32 - 1) : x.AppendsOnTop S := by
  intro await height hawait happends top hash htop hhash
  obtain ⟨chain, -, cs, hs, hcs, hlearned⟩ := htracks
  replace hlearned := hlearned await hawait
  replace hcurrent := hcurrent await hawait
  cases await with
  | tip => cases happends
  | reorgHash => cases happends
  | rawBlock => cases happends
  | targetHash locals target =>
      obtain rfl := Option.some.inj happends
      rw [show chain = x.canonical from hlearned] at hcs
      exact ⟨hcurrent.1 top htop, (L.has_of_follows hE hs hcs htop hhash).1⟩
  | nextHash locals nextHeight =>
      obtain rfl := Option.some.inj happends
      rw [show chain = x.canonical from hlearned] at hcs
      refine ⟨?_, (L.has_of_follows hE hs hcs htop hhash).1⟩
      rw [hcurrent.1]
      exact L.below_nextHeight hE hs hcs htip top htop

/-- **Ticks that run against one chain each keep the store on the chain** they run against. -/
theorem tracks_canonical_of_run (hE : P.engine.Metered) (hlinked : Linked chains) {s₀ : σ}
    (h₀ : Rep s₀ []) (hheights : ∀ c ∈ chains, c.tip.height.toNat < 2 ^ 32 - 1)
    (hchain : chain ∈ chains) {x : Sync σ}
    (h : SyncRun S P config chains BetweenTicks (.init chain s₀) x) :
    x.canonical ∈ chains ∧ Tracks S P config Rep chains x.canonical (x.store, x.control) := by
  induction h with
  | refl => exact ⟨hchain, tracks_of_ended hchain h₀ .nil rfl⟩
  | tail hrun hstep ih =>
      obtain ⟨hcanonical, htracks⟩ := ih
      obtain ⟨event, hstep, hbetween⟩ := hstep
      have hcurrent := SyncRun.resumable hrun
      obtain ⟨hcanonical', e', he', htracks'⟩ := L.tracks_step hE hlinked hstep hcanonical htracks
        hcurrent fun _ => L.appendsOnTop_of_tracks hE htracks hcurrent (hheights _ hcanonical)
      refine ⟨hcanonical', ?_⟩
      obtain rfl := he'.elim id id
      cases hstep with
      | replace chain hreplace =>
          obtain ⟨chain', hchain', cs, hs, hcs, -⟩ := htracks'
          exact tracks_of_ended hchain' hs hcs (hbetween chain rfl)
      | stop => exact htracks'
      | begin => exact htracks'
      | call => exact htracks'
      | unreachable => exact htracks'

/-! ### The three phases -/

/-- **Phase one**: the tick rolls back until the chain has the block that was indexed last. -/
theorem reaches_fastForward (hE : P.engine.Metered) (hlinked : Linked chains)
    (hgenesis : SharedGenesis chains) (hchain : chain ∈ chains) (he : e ∈ chains)
    (hs : Rep s cs) (hcs : chain.Follows P config cs)
    (hle : ∀ c, cs.getLast? = some c → c.height ≤ e.tip.height) :
    ∃ s' cs', Rep s' cs' ∧ e.Follows P config cs' ∧
      TickReaches S P config e (handleReorg S P config false locals s)
        (fastForward S P config false locals s') := by
  induction cs using List.reverseRecOn generalizing s with
  | nil =>
      refine ⟨s, [], hs, .nil, ?_⟩
      rcases handleReorg_cases S P config false locals s with ⟨-, h⟩ | ⟨height, -, hheight, -, -⟩
      · rw [h]
      · rw [L.indexedHeight hs Regular.nil] at hheight
        cases hheight
  | append_singleton cs c ih =>
      have hreg := hcs.indexed.regular hE
      obtain ⟨hheight, hhash⟩ := L.indexed_of_getLast? hs hreg List.getLast?_concat
      rcases handleReorg_cases S P config false locals s with ⟨hnone, -⟩ |
        ⟨height, ourHash, hheight', hhash', h⟩
      · rw [hheight, hhash] at hnone
        rcases hnone with hnone | hnone <;> cases hnone
      obtain rfl := Option.some.inj (hheight.symm.trans hheight')
      obtain rfl := Option.some.inj (hhash.symm.trans hhash')
      have hlec := hle c List.getLast?_concat
      obtain ⟨canonical, hcanonical⟩ := Chain.exists_has_iff.mpr hlec
      have hstep : TickStep S P config e (handleReorg S P config false locals s)
          (Await.resume S P config false e.source s (.reorgHash locals c.height
            c.zcashBlockHash)) := ⟨_, congrArg Prod.snd h, by rw [h]⟩
      rw [Await.resume, hcanonical] at hstep
      change TickStep S P config e _ (if canonical = c.zcashBlockHash then _ else _) at hstep
      by_cases heq : canonical = c.zcashBlockHash
      · rw [if_pos heq] at hstep
        refine ⟨s, cs ++ [c], hs, hcs.of_has hlinked hchain he fun d hd => ?_, .single hstep⟩
        rw [List.getLast?_concat] at hd
        obtain rfl := Option.some.inj hd
        exact heq ▸ hcanonical
      · rw [if_neg heq] at hstep
        -- the genesis block is shared, so the height is positive
        have hpos : 1 ≤ c.height.toNat := hgenesis.pos_of_ne hchain he
          (Chain.has_iff.mpr (hcs.hash_eq c (by simp))) hcanonical (Ne.symm heq)
        obtain ⟨hsub, hsubNat⟩ := plainSub32_eq_ok P.overflowChecks (a := c.height) (b := 1)
          (UInt32.le_iff_toNat_le.mpr hpos)
        have hone : (1 : UInt32).toNat = 1 := rfl
        obtain ⟨hs', hok⟩ := L.rollbackTo hs hreg (c.height - 1)
        rw [hreg.increasing.commitsUpTo_pred (by rw [BlockCommit.level]; omega)] at hs'
        rw [hsub] at hstep
        change TickStep S P config e _ (orReturn (S.rollbackTo s (c.height - 1)).1
          (fatal (S.rollbackTo s (c.height - 1)).2 _) _) at hstep
        rw [hok] at hstep
        change TickStep S P config e _
          (handleReorg S P config false locals (S.rollbackTo s (c.height - 1)).1) at hstep
        obtain ⟨hcs', -, -⟩ := hcs.of_append_singleton
        obtain ⟨s'', cs'', hs'', hcs'', hreaches⟩ := ih hs' hcs' fun d hd => by
          have hlt := hreg.increasing.lt_last d (List.mem_of_getLast? hd)
          exact UInt32.le_iff_toNat_le.mpr (hlt.le.trans (UInt32.le_iff_toNat_le.mp hlec))
        exact ⟨s'', cs'', hs'', hcs'', .head hstep hreaches⟩

/-- An empty block of the chain is committed without an error. -/
theorem commit_empty (hE : P.engine.Metered) (hs : Rep s cs) (hcs : e.Follows P config cs)
    {height : BlockHeight} {hash : BlockHash} (hhas : e.Has height hash)
    (hbelow : config.belowActivation height = true) (habove : S.Below s height) :
    ∃ s', Rep s' (cs ++ [.empty height hash]) ∧
      e.Follows P config (cs ++ [.empty height hash]) ∧
        ∃ root, S.commitBlock s (.empty height hash) = (s', .ok root) := by
  obtain ⟨hs', hok⟩ := L.commitBlock hs (.empty height hash)
  exact ⟨_, hs', L.follows_empty hE hs hcs hhas hbelow habove, _, Prod.ext rfl hok⟩

/-- **Phase two**: the tick fast-forwards to its target, if it has to. -/
theorem reaches_nextBlock (hE : P.engine.Metered) (hs : Rep s cs) (hcs : e.Follows P config cs)
    (htip : locals.tip = e.tip) :
    ∃ s' cs', Rep s' cs' ∧ e.Follows P config cs' ∧
      TickReaches S P config e (fastForward S P config false locals s)
        (nextBlock S P false locals s') := by
  rcases fastForward_cases S P config false locals s with h | ⟨act, -, -, -, h⟩
  · exact ⟨s, cs, hs, hcs, by rw [h]⟩
  · have hawait : (fastForward S P config false locals s).2.await? =
        some (.targetHash locals (min (act - 1) locals.tip.height)) := by rw [h]; rfl
    obtain ⟨habove, hbelow, hle⟩ := resumable_fastForward _ hawait
    rw [fastForward_fst] at habove
    obtain ⟨hash, hhash⟩ := Chain.exists_has_iff.mpr
      (UInt32.le_trans hle (UInt32.le_of_eq (congrArg BlockRef.height htip)))
    obtain ⟨s', hs', hcs', root, hcommit⟩ := L.commit_empty hE hs hcs hhash hbelow habove
    refine ⟨s', _, hs', hcs', .single ⟨_, congrArg Prod.snd h, ?_⟩⟩
    rw [h, Await.resume, hhash]
    change _ = orReturn (S.commitBlock s _).1 (fatal (S.commitBlock s _).2 _) fun _ =>
      nextBlock S P false locals (S.commitBlock s _).1
    rw [hcommit]
    rfl

/-- A block of the chain is processed without an error. -/
theorem process_block (hE : P.engine.Metered) (hs : Rep s cs) (hcs : e.Follows P config cs)
    (hsave : ∀ s es, (S.saveExecutions s es).2 = .ok ()) {height : BlockHeight}
    {parsed : ParsedBlock} {c : BlockCommit} (hheight : parsed.height = height)
    (hbelow : config.belowActivation height = false)
    (hc : blockCommit P config (ledgerOf cs).view parsed = .ok (some c)) :
    ∃ s' exec, processParsedBlock S P config s parsed = .ok (s', .ok exec) := by
  rw [← L.view hs (hcs.indexed.regular hE)] at hc
  unfold IndexerConfig.belowActivation at hbelow
  unfold blockCommit at hc
  unfold processParsedBlock
  cases hact : config.activationHeight with
  | none =>
      rw [hact] at hc
      cases hc
  | some act =>
      rw [hact] at hc hbelow
      have hge : ¬ parsed.height < act := hheight ▸ of_decide_eq_false hbelow
      dsimp only at hc ⊢
      rw [if_neg hge] at hc ⊢
      obtain ⟨acc, hacc, -⟩ := map_eq_ok hc
      have hcommit := (L.commitBlock hs acc.commit).2
      rw [hacc]
      rcases hres : S.commitBlock s acc.commit with ⟨s₁, r₁⟩
      rw [hres] at hcommit
      obtain rfl : r₁ = _ := hcommit
      have hsaved := hsave s₁ acc.executions
      rcases hres' : S.saveExecutions s₁ acc.executions with ⟨s₂, r₂⟩
      rw [hres'] at hsaved
      obtain rfl : r₂ = _ := hsaved
      simp only [bind, Except.bind, hres, hres', pure, Except.pure]
      exact ⟨_, _, rfl⟩

/-- A step of the third phase: the loop indexes one more block of the chain. -/
theorem reaches_nextBlock_succ (hE : P.engine.Metered) (hlinked : Linked chains) (he : e ∈ chains)
    (hsave : ∀ s es, (S.saveExecutions s es).2 = .ok ())
    (htip : e.tip.height.toNat < 2 ^ 32 - 1) (hlocals : locals.tip = e.tip) (hs : Rep s cs)
    (hcs : e.Follows P config cs) (hlt : lastLevel cs < e.tip.height.toNat)
    (hfresh : (e.freshIndex P config (lastLevel cs + 1)).isSome) :
    ∃ s' cs', Rep s' cs' ∧ e.Follows P config cs' ∧ lastLevel cs' = lastLevel cs + 1 ∧
      TickReaches S P config e (nextBlock S P false locals s) (nextBlock S P false locals s') := by
  have hreg := hcs.indexed.regular hE
  have habove := L.below_nextHeight hE hs hcs htip
  have hnext := L.toNat_nextHeight hs hreg habove
  have hnot : ¬ S.nextHeight s > locals.tip.height := by
    rw [hlocals, gt_iff_lt, UInt32.not_lt, UInt32.le_iff_toNat_le]
    omega
  have hloop := nextBlock_of_below S P habove locals
  rw [if_neg hnot] at hloop
  obtain ⟨hash, hhash⟩ := Chain.exists_has_iff.mpr (UInt32.not_lt.mp (hlocals ▸ hnot))
  have hstep : TickStep S P config e (nextBlock S P false locals s)
      (Await.resume S P config false e.source s (.nextHash locals (S.nextHeight s))) :=
    ⟨_, congrArg Prod.snd hloop, by rw [hloop]⟩
  rw [Await.resume, hhash] at hstep
  change TickStep S P config e _ (if config.belowActivation _ = true then _ else _) at hstep
  by_cases hbelow : config.belowActivation (S.nextHeight s) = true
  · rw [if_pos hbelow, processZcashBlock_below hbelow] at hstep
    obtain ⟨s', hs', hcs', root, hcommit⟩ := L.commit_empty hE hs hcs hhash hbelow habove
    have hlevel : lastLevel (cs ++ [.empty (S.nextHeight s) hash]) = lastLevel cs + 1 := by
      rw [lastLevel_append_singleton]
      exact hnext
    rw [commitEmptyBlock, hcommit] at hstep
    exact ⟨s', _, hs', hcs', hlevel, .single hstep⟩
  · rw [if_neg hbelow] at hstep
    have hbelow' := Bool.eq_false_iff.mpr hbelow
    have hheight : UInt32.ofNat (lastLevel cs + 1) = S.nextHeight s := by
      rw [← hnext]
      exact UInt32.ofNat_toNat
    rw [Chain.freshIndex, hcs.freshIndex, Option.bind_some, Option.isSome_map, hheight] at hfresh
    obtain ⟨c, hc⟩ := Option.isSome_iff_exists.mp hfresh
    obtain ⟨block, hblock, hcheight, -, ⟨htrue, -⟩ | ⟨-, parsed, hparse, hcommit⟩⟩ :=
      Chain.commitAt_eq_some hc
    · exact absurd htrue hbelow
    obtain rfl : block.hash = hash :=
      Chain.Has.unique (Chain.has_iff.mpr ⟨block, hblock, rfl⟩) hhash
    have hraw : e.source.rawBlock block.hash = .ok block.raw := by
      refine Chain.rawBlock_source.mpr ⟨block, ?_, rfl⟩
      exact (HashLinked.find?_eq_some_iff hlinked (Set.mem_image_of_mem _ he)).mpr ⟨rfl, _, hblock⟩
    obtain ⟨s', exec, hprocess⟩ := L.process_block hE hs hcs hsave (parseBlock_eq_ok hparse).1
      hbelow' hcommit
    obtain ⟨cs', hs', hcs', hlevel⟩ := L.follows_block hE hs hcs hblock hbelow' hparse rfl habove
      hprocess
    have hstep' : TickStep S P config e
        (s, .awaiting (.rawBlock locals (S.nextHeight s) block.hash))
        (nextBlock S P false locals s') := by
      refine ⟨_, rfl, ?_⟩
      rw [Await.resume, hraw]
      change _ = orReturn s (transient (parseBlock P block.raw _ _ _) _) _
      rw [hparse]
      change _ = orPanic s (processParsedBlock S P config s parsed) _
      rw [hprocess]
      rfl
    exact ⟨s', cs', hs', hcs', (hlevel ⟨c, hcommit⟩).trans hnext, .head hstep (.single hstep')⟩

/-- **Phase three**: the loop indexes every block up to the tip, and returns. -/
theorem reaches_tip (hE : P.engine.Metered) (hlinked : Linked chains) (he : e ∈ chains)
    (hsave : ∀ s es, (S.saveExecutions s es).2 = .ok ())
    (htip : e.tip.height.toNat < 2 ^ 32 - 1) (hlocals : locals.tip = e.tip)
    (hfresh : (e.freshIndex P config e.tip.height.toNat).isSome) (n : ℕ) (hs : Rep s cs)
    (hcs : e.Follows P config cs) (hn : lastLevel cs + n = e.tip.height.toNat) :
    ∃ s' cs', Rep s' cs' ∧ e.Follows P config cs' ∧ lastLevel cs' = e.tip.height.toNat ∧
      TickReaches S P config e (nextBlock S P false locals s) (finish S locals s') := by
  induction n generalizing s cs with
  | zero =>
      have habove := L.below_nextHeight hE hs hcs htip
      have hnext := L.toNat_nextHeight hs (hcs.indexed.regular hE) habove
      have hgt : S.nextHeight s > locals.tip.height := by
        rw [hlocals, gt_iff_lt, UInt32.lt_iff_toNat_lt]
        omega
      have hloop := nextBlock_of_below S P habove locals
      rw [if_pos hgt] at hloop
      exact ⟨s, cs, hs, hcs, hn, by rw [hloop]⟩
  | succ n ih =>
      obtain ⟨s₁, cs₁, hs₁, hcs₁, hlevel, hreaches₁⟩ := L.reaches_nextBlock_succ hE hlinked he hsave
        htip hlocals hs hcs (by omega) (Chain.isSome_freshIndex_of_le (by omega) hfresh)
      obtain ⟨s', cs', hs', hcs', hlast, hreaches⟩ := ih hs₁ hcs₁ (by omega)
      exact ⟨s', cs', hs', hcs', hlast, hreaches₁.trans hreaches⟩

/-- A tick on a chain that is not shorter than what is indexed converges. -/
theorem converges (hE : P.engine.Metered) (hlinked : Linked chains)
    (hgenesis : SharedGenesis chains) (hchain : chain ∈ chains) (he : e ∈ chains)
    (hsave : ∀ s es, (S.saveExecutions s es).2 = .ok ()) (hs : Rep s cs)
    (hcs : chain.Follows P config cs)
    (hle : ∀ h, S.indexedHeight s = some h → h ≤ e.tip.height) (hpos : 1 ≤ e.tip.height.toNat)
    (htip : e.tip.height.toNat < 2 ^ 32 - 1)
    (hfresh : (e.freshIndex P config e.tip.height.toNat).isSome) :
    Converges S P config e s := by
  let locals : TickLocals := ⟨S.indexedHeight s, e.tip⟩
  have hlocals : locals.tip = e.tip := rfl
  have hstart : TickStep S P config e (s, .awaiting (.tip (S.indexedHeight s)))
      (handleReorg S P config false locals s) := ⟨_, rfl, rfl⟩
  have hreg := hcs.indexed.regular hE
  obtain ⟨s₁, cs₁, hs₁, hcs₁, hreaches₁⟩ := L.reaches_fastForward hE hlinked hgenesis hchain he hs
    hcs fun c hc => hle _ (L.indexed_of_getLast? hs hreg hc).1
  obtain ⟨s₂, cs₂, hs₂, hcs₂, hreaches₂⟩ := L.reaches_nextBlock hE hs₁ hcs₁ hlocals
  obtain ⟨s', cs', hs', hcs', hlast, hreaches₃⟩ := L.reaches_tip hE hlinked he hsave htip
    hlocals hfresh (e.tip.height.toNat - lastLevel cs₂) hs₂ hcs₂
    (Nat.add_sub_cancel' hcs₂.lastLevel_le_tip)
  have hreg' := hcs'.indexed.regular hE
  -- the tip is above 0, so something is indexed
  obtain ⟨c, hc⟩ : ∃ c, cs'.getLast? = some c := by
    refine Option.isSome_iff_exists.mp (Option.isSome_iff_ne_none.mpr fun hnone => ?_)
    rw [lastLevel, hnone] at hlast
    change 0 = _ at hlast
    omega
  obtain ⟨hheight, hhash⟩ := L.indexed_of_getLast? hs' hreg' hc
  have hcheight : c.height = e.tip.height := by
    rw [lastLevel, hc] at hlast
    exact UInt32.toNat_inj.mp hlast
  rw [hcheight] at hheight
  have hhas := (L.has_of_follows hE hs' hcs' hheight hhash).1
  refine ⟨s', _, .head hstart (hreaches₁.trans (hreaches₂.trans hreaches₃)), hheight, ?_,
    L.indexOf_of_follows hE hs' hcs' hheight⟩
  rw [hhash, hhas.unique e.has_tip]

end LawfulStore

/-! ### When a tick does not converge -/

section Diverges

variable {σ : Type} {S : StateStore σ} {P : Platform} {config : IndexerConfig} {chain : Chain}

/-- A tick on a stable chain has one way to go. -/
theorem TickStep.unique {r r' r'' : σ × Control} (h : TickStep S P config chain r r')
    (h' : TickStep S P config chain r r'') : r' = r'' := by
  obtain ⟨await, hawait, rfl⟩ := h
  obtain ⟨await', hawait', rfl⟩ := h'
  obtain rfl := Control.awaiting.inj (hawait.symm.trans hawait')
  rfl

/-- A tick that has returned stays there. -/
theorem TickReaches.eq_of_returned {s : σ} {result : Except SyncError TickOutcome}
    {r : σ × Control} (h : TickReaches S P config chain (s, .returned result) r) :
    r = (s, .returned result) := by
  rcases Relation.ReflTransGen.cases_head h with heq | ⟨r', ⟨await, hawait, -⟩, -⟩
  · exact heq.symm
  · cases hawait

/-- A tick returns in one way. -/
theorem TickReaches.returned_unique {r : σ × Control} {s s' : σ}
    {result result' : Except SyncError TickOutcome}
    (h : TickReaches S P config chain r (s, .returned result))
    (h' : TickReaches S P config chain r (s', .returned result')) :
    result = result' := by
  have hunique : Relator.RightUnique (TickStep S P config chain) := fun _ _ _ => TickStep.unique
  rcases Relation.ReflTransGen.total_of_right_unique hunique h h' with hreaches | hreaches
  · have heq := eq_of_returned hreaches
    exact (Control.returned.inj (congrArg Prod.snd heq)).symm
  · have heq := eq_of_returned hreaches
    exact Control.returned.inj (congrArg Prod.snd heq)

/-- **A chain shorter than what is indexed fails every tick**, at the reorg check. -/
theorem not_converges_of_lt {s : σ} {top : BlockHeight} {hash : BlockHash}
    (htop : S.indexedHeight s = some top) (hhash : S.indexedBlockHash s = some hash)
    (hlt : chain.tip.height < top) : ¬ Converges S P config chain s := by
  rintro ⟨s', outcome, hreaches, -⟩
  let locals : TickLocals := ⟨S.indexedHeight s, chain.tip⟩
  have hstart : TickStep S P config chain (s, .awaiting (.tip (S.indexedHeight s)))
      (s, .awaiting (.reorgHash locals top hash)) := by
    refine ⟨_, rfl, ?_⟩
    change _ = handleReorg S P config false locals s
    rw [handleReorg, htop, hhash]
  have hnone : ∀ canonical, chain.source.blockHash top ≠ .ok canonical := by
    intro canonical hcanonical
    exact UInt32.not_le.mpr hlt (Chain.exists_has_iff.mp ⟨canonical, hcanonical⟩)
  cases hanswer : chain.source.blockHash top with
  | ok canonical => exact hnone canonical hanswer
  | error e =>
      have hfails : TickStep S P config chain (s, .awaiting (.reorgHash locals top hash))
          (s, .returned (.error (.transient
            ("fetching canonical block hash for reorg check: " ++ e)))) := by
        refine ⟨_, rfl, ?_⟩
        rw [Await.resume, hanswer]
        rfl
      have hresult := TickReaches.returned_unique (.head hstart (.single hfails)) hreaches
      cases hresult

/-! ### The last height there is -/

/-- The locals of a waiting tick. -/
def Await.locals? : Await → Option TickLocals
  | .tip _ => none
  | .reorgHash locals _ _ => some locals
  | .targetHash locals _ => some locals
  | .nextHash locals _ => some locals
  | .rawBlock locals _ _ => some locals

/-- The tick has not returned `Ok`, and the tip it knows is at the last height there is. -/
def Unfinished (r : σ × Control) : Prop :=
  (∀ outcome, r.2 ≠ .returned (.ok outcome)) ∧
    ∀ await locals, r.2.await? = some await → await.locals? = some locals →
      locals.tip.height.toNat = 2 ^ 32 - 1

/-- A tick that waits for a tip at the last height is unfinished. -/
theorem unfinished_awaiting {s : σ} {await : Await} {locals : TickLocals}
    (hlocals : await.locals? = some locals) (hmax : locals.tip.height.toNat = 2 ^ 32 - 1) :
    Unfinished (s, .awaiting await) := by
  refine ⟨fun outcome h => (nomatch h), fun await' locals' hawait hlocals' => ?_⟩
  obtain rfl := Option.some.inj hawait
  obtain rfl := Option.some.inj (hlocals.symm.trans hlocals')
  exact hmax

/-- A tick that goes on after a result is unfinished if it is for each value. -/
theorem unfinished_orReturn {α : Type} {s : σ} {r : Except SyncError α} {next : α → σ × Control}
    (h : ∀ a, r = .ok a → Unfinished (next a)) : Unfinished (orReturn s r next) := by
  cases r with
  | error e => exact ⟨fun outcome h => (nomatch h), fun await locals h => (nomatch h)⟩
  | ok a => exact h a rfl

/-- A tick that goes on after a possible panic is unfinished if it is for each value. -/
theorem unfinished_orPanic {α : Type} {s : σ} {r : Except Panic α} {next : α → σ × Control}
    (h : ∀ a, r = .ok a → Unfinished (next a)) : Unfinished (orPanic s r next) := by
  cases r with
  | error p => exact ⟨fun outcome h => (nomatch h), fun await locals h => (nomatch h)⟩
  | ok a => exact h a rfl

section Last

variable {s : σ} {locals : TickLocals} (hmax : locals.tip.height.toNat = 2 ^ 32 - 1)

include hmax

/-- No height is above the last one, so the loop goes on. -/
theorem unfinished_nextBlock : Unfinished (nextBlock S P false locals s) := by
  rw [nextBlock, if_neg Bool.false_ne_true]
  refine unfinished_orPanic fun next _ => ?_
  have hnot : ¬ next > locals.tip.height := by
    have hlt := next.toNat_lt
    rw [gt_iff_lt, UInt32.not_lt, UInt32.le_iff_toNat_le]
    omega
  rw [if_neg hnot]
  exact unfinished_awaiting rfl hmax

/-- A tick that fast-forwards to the last height is unfinished. -/
theorem unfinished_fastForward : Unfinished (fastForward S P config false locals s) := by
  rcases fastForward_cases S P config false locals s with h | ⟨act, -, -, -, h⟩ <;> rw [h]
  · exact unfinished_nextBlock hmax
  · exact unfinished_awaiting rfl hmax

/-- A tick that looks for the fork below the last height is unfinished. -/
theorem unfinished_handleReorg : Unfinished (handleReorg S P config false locals s) := by
  rcases handleReorg_cases S P config false locals s with ⟨-, h⟩ | ⟨height, ourHash, -, -, h⟩ <;>
    rw [h]
  · exact unfinished_fastForward hmax
  · exact unfinished_awaiting rfl hmax

end Last

/-- On a chain that ends at the last height there is, a tick never finishes. -/
theorem TickStep.unfinished {r r' : σ × Control} (h : TickStep S P config chain r r')
    (hmax : chain.tip.height.toNat = 2 ^ 32 - 1) (hr : Unfinished r) : Unfinished r' := by
  obtain ⟨await, hawait, rfl⟩ := h
  replace hr := hr.2 await
  rw [hawait] at hr
  cases await with
  | tip indexedBefore =>
      refine unfinished_orReturn fun tip htip => unfinished_handleReorg ?_
      rw [← Except.ok.inj (transient_eq_ok htip)]
      exact hmax
  | reorgHash locals height ourHash =>
      have hlocals := hr locals rfl rfl
      refine unfinished_orReturn fun canonical _ => ?_
      by_cases heq : canonical = ourHash
      · rw [if_pos heq]
        exact unfinished_fastForward hlocals
      · rw [if_neg heq]
        exact unfinished_orPanic fun target _ => unfinished_orReturn fun _ _ =>
          unfinished_handleReorg hlocals
  | targetHash locals target =>
      exact unfinished_orReturn fun hash _ => unfinished_orReturn fun _ _ =>
        unfinished_nextBlock (hr locals rfl rfl)
  | nextHash locals nextHeight =>
      have hlocals := hr locals rfl rfl
      refine unfinished_orReturn fun hash _ => ?_
      by_cases hbelow : config.belowActivation nextHeight = true
      · rw [if_pos hbelow]
        exact unfinished_orPanic fun _ _ => unfinished_orReturn fun _ _ =>
          unfinished_nextBlock hlocals
      · rw [if_neg hbelow]
        exact unfinished_awaiting rfl hlocals
  | rawBlock locals nextHeight hash =>
      exact unfinished_orReturn fun raw _ => unfinished_orReturn fun parsed _ =>
        unfinished_orPanic fun _ _ => unfinished_orReturn fun _ _ =>
          unfinished_nextBlock (hr locals rfl rfl)

/-- A chain up to the last height is never caught up with. -/
theorem not_converges_of_max {s : σ} (hmax : chain.tip.height.toNat = 2 ^ 32 - 1) :
    ¬ Converges S P config chain s := by
  rintro ⟨s', outcome, hreaches, -⟩
  have hall : ∀ r, TickReaches S P config chain
      (s, .awaiting (.tip (S.indexedHeight s))) r → Unfinished r := by
    intro r hr
    induction hr with
    | refl =>
        refine ⟨fun outcome h => (nomatch h), fun await locals hawait hlocals => ?_⟩
        obtain rfl := Option.some.inj hawait
        cases hlocals
    | tail _ hstep ih => exact hstep.unfinished hmax ih
  exact (hall _ hreaches).1 outcome rfl

end Diverges

namespace LawfulStore

variable {σ : Type} {S : StateStore σ} {P : Platform} {Rep : σ → List BlockCommit → Prop}
  (L : LawfulStore P.hashing S Rep) {config : IndexerConfig}

include L

/-- When a tick converges, for every lawful store. -/
theorem convergesIff (hE : P.engine.Metered) (hsave : ∀ s es, (S.saveExecutions s es).2 = .ok ())
    {s₀ : σ} (h₀ : Rep s₀ []) : ConvergesIff S P config s₀ := by
  intro chains new hlinked hgenesis hheights c hc x hrun _ hpos
  have hlinked' : Linked chains := fun a ha b hb =>
    hlinked a (Set.image_mono (Set.subset_insert new chains) ha) b
      (Set.image_mono (Set.subset_insert new chains) hb)
  obtain ⟨-, chain, hchain, cs, hs, hcs, -⟩ :=
    L.tracks_canonical_of_run hE hlinked' h₀ hheights hc hrun
  have hreg := hcs.indexed.regular hE
  constructor
  · intro hconverges
    refine ⟨fun h hh => ?_, ?_, ?_⟩
    · by_contra hlt
      have hlast := L.indexedHeight hs hreg
      rw [hh] at hlast
      obtain ⟨d, hd, rfl⟩ := Option.map_eq_some_iff.mp hlast.symm
      obtain ⟨hheight, hhash⟩ := L.indexed_of_getLast? hs hreg hd
      exact not_converges_of_lt hheight hhash (UInt32.not_le.mp hlt) hconverges
    · obtain ⟨s', outcome, -, -, -, hindex⟩ := hconverges
      obtain ⟨l, hl, -⟩ := hindex.fresh
      exact Option.isSome_iff_exists.mpr ⟨l, hl⟩
    · by_contra hnot
      have hlt := new.tip.height.toNat_lt
      exact not_converges_of_max (by omega) hconverges
  · rintro ⟨hle, hfresh, htip⟩
    exact L.converges hE hlinked hgenesis (Set.mem_insert_of_mem new hchain)
      (Set.mem_insert new chains) hsave hs hcs hle hpos htip hfresh

end LawfulStore

/-- **When a tick converges on a stable chain**, on both backends: exactly when the chain is not
shorter than what is indexed, and can be indexed. -/
theorem converges_iff (P : Platform) (config : IndexerConfig) (hE : P.engine.Metered)
    (hjson : ∀ execution, ∃ bytes, P.json execution = .ok bytes) :
    ConvergesIff (MemoryState.store P.hashing) P config MemoryState.new ∧
      ConvergesIff (RocksState.store P.hashing P.json) P config RocksState.fresh :=
  ⟨(MemoryState.lawful P.hashing).convergesIff hE (fun _ _ => rfl) rfl,
    (RocksState.lawful P.hashing P.json).convergesIff hE
      (fun s es => RocksState.saveExecutions_ok hjson s es)
      (RocksState.AgreesOff.refl RocksState.IsExec RocksState.fresh)⟩

/-- After a tick on the old chain, the next tick converges on the new one, which is longer. -/
theorem converges_iff_register :
    meteredEngine.Metered ∧
      (∀ e : Execution, ∃ bytes, (.ok e.json : Except String Bytes) = .ok bytes) ∧
      ∀ H : Hashing,
        let P := meteredPlatform H fun e => .ok e.json
        let S := RocksState.store H P.json
        ∃ x, SyncRun S P lateConfig {oldChain} BetweenTicks (.init oldChain RocksState.fresh) x ∧
          S.indexedHeight x.store = some 1 ∧ Converges S P lateConfig newChain x.store := by
  refine ⟨metered_meteredEngine, fun _ => ⟨_, rfl⟩, fun H => ?_⟩
  intro P S
  have hfresh : RocksState.AgreesOff RocksState.IsExec RocksState.fresh (RocksState.build H []) :=
    RocksState.AgreesOff.refl RocksState.IsExec RocksState.fresh
  have L : LawfulStore P.hashing S _ := RocksState.lawful H P.json
  have hrun : SyncRun S P lateConfig {oldChain} BetweenTicks
      (.init oldChain RocksState.fresh) _ :=
    L.firstTick oldChain hfresh (by decide) (by decide)
      (fun _ _ h => (nomatch h)) fun _ _ _ h => (nomatch h)
  have hcs : Regular ([] ++ [.empty oldChain.tip.height oldChain.tip.hash]) :=
    Regular.nil.append_singleton (by simp) (BlockCommit.fits_empty _ _)
  have hs := (L.commitBlock hfresh (.empty oldChain.tip.height oldChain.tip.hash)).1
  have hheight := L.indexedHeight hs hcs
  have hlinked : Linked (insert newChain {oldChain}) :=
    Set.pair_comm oldChain newChain ▸ linked_fork
  have hgenesis : SharedGenesis (insert newChain {oldChain}) := by
    rintro _ (rfl | rfl) _ (rfl | rfl) <;> rfl
  have hindexable : newChain.freshIndex P lateConfig newChain.tip.height.toNat = some .empty :=
    Chain.freshIndex_below (by decide) (by decide)
  refine ⟨_, hrun, hheight, ((converges_iff P lateConfig metered_meteredEngine
    fun _ => ⟨_, rfl⟩).2 {oldChain} newChain hlinked hgenesis ?_ oldChain rfl _ hrun rfl
    (by decide)).mpr ⟨?_, ?_, by decide⟩⟩
  · rintro _ rfl
    decide
  · intro h hh
    obtain rfl := Option.some.inj (hh.symm.trans hheight)
    decide
  · rw [hindexable]
    rfl

/-- A chain that is shorter than what an earlier tick has indexed keeps a tick from converging. -/
theorem LawfulStore.not_convergesAlways {σ : Type} {S : StateStore σ} {P : Platform}
    {Rep : σ → List BlockCommit → Prop} (L : LawfulStore P.hashing S Rep) {s₀ : σ}
    (h₀ : Rep s₀ []) : ¬ ConvergesAlways S P lateConfig s₀ := by
  intro hconverges
  have hrun : SyncRun S P lateConfig {newChain} BetweenTicks (.init newChain s₀) _ :=
    L.firstTick newChain h₀ (by decide) (by decide)
      (fun _ _ h => (nomatch h)) fun _ _ _ h => (nomatch h)
  have hcs : Regular ([] ++ [.empty newChain.tip.height newChain.tip.hash]) :=
    Regular.nil.append_singleton (by simp) (BlockCommit.fits_empty _ _)
  have hs := (L.commitBlock h₀ (.empty newChain.tip.height newChain.tip.hash)).1
  have hgenesis : SharedGenesis (insert oldChain {newChain}) := by
    rintro _ (rfl | rfl) _ (rfl | rfl) <;> rfl
  have hfresh : oldChain.freshIndex P lateConfig oldChain.tip.height.toNat = some .empty :=
    Chain.freshIndex_below (by decide) (by decide)
  refine not_converges_of_lt (L.indexedHeight hs hcs) (L.indexedBlockHash hs hcs) ?_
    (hconverges {newChain} oldChain linked_fork hgenesis newChain rfl _ hrun rfl (by decide)
      (by decide) (by rw [hfresh]; rfl))
  decide

/-- A tick indexes a chain of two blocks; then the node's chain has one block, and no tick returns
`Ok`. -/
theorem not_converges_shorter :
    ¬ ∃ P : Platform,
      ConvergesAlways (MemoryState.store P.hashing) P lateConfig MemoryState.new ∨
        ConvergesAlways (RocksState.store P.hashing P.json) P lateConfig RocksState.fresh := by
  rintro ⟨P, hmemory | hrocks⟩
  · have hnew : MemoryState.Represents P.hashing MemoryState.new [] := rfl
    exact (MemoryState.lawful P.hashing).not_convergesAlways hnew hmemory
  · exact (RocksState.lawful P.hashing P.json).not_convergesAlways
      (RocksState.AgreesOff.refl RocksState.IsExec RocksState.fresh) hrocks

end Zalkanes
