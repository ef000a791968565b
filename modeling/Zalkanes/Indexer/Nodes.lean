import Zalkanes.Indexer.ReorgLoop

/-!
# Agreement of Nodes

Nodes do not talk to each other. Each indexes the chains that its own upstream node serves, on the
backend that it was started with, and rolls back and fast-forwards at moments of its own. Still the
hash of the block that was indexed last determines the state: two nodes that report the same hash
report the same state root.

## Main results

* `LawfulStore.nodesAgree`: agreement, for stores that represent lists of commits.
* `nodes_agree`: agreement for every pair of backends.
-/

namespace Zalkanes

open Lib

section Records

variable {chain : Chain} {P : Platform} {config : IndexerConfig} {cs : List BlockCommit}

/-- A height record carries the root after the commits up to it. -/
theorem exists_prefix_of_mem_recordsOf {H : Hashing} {r : HeightRecord}
    (h : r ∈ recordsOf H cs) :
    ∃ before d after, cs = before ++ d :: after ∧ r = recordAfter H before d := by
  induction cs using List.reverseRecOn with
  | nil => cases h
  | append_singleton cs c ih =>
      rw [recordsOf_append_singleton, List.mem_append, List.mem_singleton] at h
      rcases h with h | rfl
      · obtain ⟨before, d, after, rfl, hr⟩ := ih h
        exact ⟨before, d, after ++ [c], by simp, hr⟩
      · exact ⟨cs, c, [], rfl, rfl⟩

/-- A height record of a chain has the hash of its block, and the root of a fresh index up to it. -/
theorem Chain.Follows.of_mem_recordsOf (h : chain.Follows P config cs) {r : HeightRecord}
    (hr : r ∈ recordsOf P.hashing cs) :
    chain.Has r.height r.zcashBlockHash ∧ ∃ l,
      chain.freshIndex P config r.height.toNat = some l ∧ r.stateRoot = l.root P.hashing := by
  obtain ⟨before, d, after, rfl, rfl⟩ := exists_prefix_of_mem_recordsOf hr
  have hsplit : chain.Follows P config (before ++ [d] ++ after) := by simpa using h
  have hprefix : chain.Follows P config (before ++ [d]) := hsplit.of_append
  have hfresh := hprefix.freshIndex
  rw [lastLevel_append_singleton] at hfresh
  exact ⟨Chain.has_iff.mpr (h.hash_eq d (by simp)), _, hfresh, rfl⟩

end Records

section Agreement

variable {σ τ : Type} (S : StateStore σ) (T : StateStore τ) (P : Platform)

/-- Two stores are of one state: they report the same height, state and root, and where both have
recorded a height they have recorded the same block and the same root. -/
structure SameState (s : σ) (t : τ) : Prop where
  height : S.indexedHeight s = T.indexedHeight t
  view : S.view s = T.view t
  root : S.persistedStateRoot s = T.persistedStateRoot t
  history : ∀ r ∈ S.heightHistory s, ∀ r' ∈ T.heightHistory t, r.height = r'.height → r = r'

/-- Two loops on these stores, each of which appends on top, are of one state whenever they report
the same indexed hash. -/
def NodesAgree (config : IndexerConfig) (s₀ : σ) (t₀ : τ) : Prop :=
  ∀ chains chains', Linked (chains ∪ chains') → ∀ c ∈ chains, ∀ c' ∈ chains', ∀ x y,
    SyncRun S P config chains (fun event x => event = .call → x.AppendsOnTop S) (.init c s₀) x →
    SyncRun T P config chains' (fun event y => event = .call → y.AppendsOnTop T) (.init c' t₀) y →
      ∀ hash, S.indexedBlockHash x.store = some hash → T.indexedBlockHash y.store = some hash →
        SameState S T x.store y.store

end Agreement

namespace LawfulStore

variable {σ τ : Type} {S : StateStore σ} {T : StateStore τ} {P : Platform}
  {Rep : σ → List BlockCommit → Prop} {Rep' : τ → List BlockCommit → Prop}
  (L : LawfulStore P.hashing S Rep) (L' : LawfulStore P.hashing T Rep') {config : IndexerConfig}
  {chain : Chain} {s : σ} {t : τ} {cs ds : List BlockCommit}

include L in
/-- The last commit of a store with an indexed hash. -/
theorem exists_getLast?_of_indexedBlockHash (hs : Rep s cs) (hreg : Regular cs) {hash : BlockHash}
    (h : S.indexedBlockHash s = some hash) :
    ∃ c, cs.getLast? = some c ∧ c.zcashBlockHash = hash := by
  rw [L.indexedBlockHash hs hreg] at h
  exact Option.map_eq_some_iff.mp h

include L L' in
/-- Stores that follow one chain to one height are of one state. -/
theorem sameState_of_follows (hE : P.engine.Metered) (hs : Rep s cs) (ht : Rep' t ds)
    (hcs : chain.Follows P config cs) (hds : chain.Follows P config ds) {height : BlockHeight}
    (hheight : S.indexedHeight s = some height) (hheight' : T.indexedHeight t = some height) :
    SameState S T s t := by
  obtain ⟨-, l, hl, hview, hroot⟩ := L.indexOf_of_follows hE hs hcs hheight
  obtain ⟨-, l', hl', hview', hroot'⟩ := L'.indexOf_of_follows hE ht hds hheight'
  obtain rfl := Option.some.inj (hl.symm.trans hl')
  refine ⟨hheight.trans hheight'.symm, hview.trans hview'.symm, hroot.trans hroot'.symm,
    fun r hr r' hr' heq => ?_⟩
  rw [L.heightHistory hs (hcs.indexed.regular hE)] at hr
  rw [L'.heightHistory ht (hds.indexed.regular hE)] at hr'
  obtain ⟨hhas, m, hm, hstate⟩ := hcs.of_mem_recordsOf hr
  obtain ⟨hhas', m', hm', hstate'⟩ := hds.of_mem_recordsOf hr'
  rw [← heq] at hhas' hm'
  obtain rfl := Option.some.inj (hm.symm.trans hm')
  rw [HeightRecord.mk.injEq]
  exact ⟨heq, hhas.unique hhas', hstate.trans hstate'.symm⟩

include L L' in
/-- **The indexed hash determines the state**, on every pair of lawful stores. -/
theorem nodesAgree (hE : P.engine.Metered) {s₀ : σ} {t₀ : τ} (h₀ : Rep s₀ []) (h₀' : Rep' t₀ []) :
    NodesAgree S T P config s₀ t₀ := by
  intro chains chains' hlinked c hc c' hc' x y hx hy hash hhash hhash'
  have hleft : Linked chains := fun a ha b hb =>
    hlinked a (Set.image_mono Set.subset_union_left ha) b (Set.image_mono Set.subset_union_left hb)
  have hright : Linked chains' := fun a ha b hb =>
    hlinked a (Set.image_mono Set.subset_union_right ha) b
      (Set.image_mono Set.subset_union_right hb)
  obtain ⟨-, -, e, he, cs, hs, hcs, -⟩ := L.tracks_of_run hE hleft h₀ hc hx
  obtain ⟨-, -, e', he', ds, ht, hds, -⟩ := L'.tracks_of_run hE hright h₀' hc' hy
  obtain ⟨d, hd, hdhash⟩ := L.exists_getLast?_of_indexedBlockHash hs (hcs.indexed.regular hE) hhash
  obtain ⟨d', hd', hdhash'⟩ :=
    L'.exists_getLast?_of_indexedBlockHash ht (hds.indexed.regular hE) hhash'
  obtain ⟨block, hblock, hbhash⟩ := hcs.hash_eq d (List.mem_of_getLast? hd)
  obtain ⟨block', hblock', hbhash'⟩ := hds.hash_eq d' (List.mem_of_getLast? hd')
  -- a hash names one block, so both have it at one height
  obtain ⟨hlevel, -⟩ := hlinked _ (Set.mem_image_of_mem _ (Set.mem_union_left chains' he)) _
    (Set.mem_image_of_mem _ (Set.mem_union_right chains he')) _ _ _ _ hblock hblock'
    (by rw [hbhash, hbhash', hdhash, hdhash'])
  have hheight : d'.height = d.height := UInt32.toNat_inj.mp hlevel.symm
  have hfollows : e.Follows P config ds := by
    refine hds.of_has hlinked (Set.mem_union_right chains he') (Set.mem_union_left chains' he)
      fun c hc => ?_
    obtain rfl := Option.some.inj (hd'.symm.trans hc)
    rw [hheight, hdhash', ← hdhash]
    exact Chain.has_iff.mpr ⟨block, hblock, hbhash⟩
  refine L.sameState_of_follows L' hE hs ht hcs hfollows
    (L.indexed_of_getLast? hs (hcs.indexed.regular hE) hd).1 ?_
  rw [← hheight]
  exact (L'.indexed_of_getLast? ht (hds.indexed.regular hE) hd').1

end LawfulStore

/-- **Nodes that report the same indexed hash are of one state**, whatever backends they run on,
whatever forks each of them has been through, and at every moment of a tick. -/
theorem nodes_agree (P : Platform) (config : IndexerConfig) (hE : P.engine.Metered) :
    let M := MemoryState.store P.hashing
    let R := RocksState.store P.hashing P.json
    NodesAgree M M P config MemoryState.new MemoryState.new ∧
      NodesAgree M R P config MemoryState.new RocksState.fresh ∧
      NodesAgree R R P config RocksState.fresh RocksState.fresh := by
  have memory := MemoryState.lawful P.hashing
  have rocks := RocksState.lawful P.hashing P.json
  have hnew : MemoryState.Represents P.hashing MemoryState.new [] := rfl
  have hfresh := RocksState.AgreesOff.refl RocksState.IsExec RocksState.fresh
  exact ⟨memory.nodesAgree memory hE hnew hnew, memory.nodesAgree rocks hE hnew hfresh,
    rocks.nodesAgree rocks hE hfresh hfresh⟩

/-- A node in memory that has been through a reorg and one with a database that has not: both report
the tip of the new chain, and they are of one state. -/
theorem nodes_agree_register :
    meteredEngine.Metered ∧ ∀ (H : Hashing) (json : Execution → Except String Bytes),
      let P := meteredPlatform H json
      let M := MemoryState.store H
      let R := RocksState.store H json
      ∃ x y, SyncRun M P lateConfig {oldChain, newChain}
          (fun event x => event = .call → x.AppendsOnTop M) (.init oldChain MemoryState.new) x ∧
        SyncRun R P lateConfig {newChain}
          (fun event y => event = .call → y.AppendsOnTop R) (.init newChain RocksState.fresh) y ∧
        M.indexedBlockHash x.store = some newChain.tip.hash ∧
        R.indexedBlockHash y.store = some newChain.tip.hash ∧ SameState M R x.store y.store := by
  refine ⟨metered_meteredEngine, fun H json => ?_⟩
  intro P M R
  have hnew : MemoryState.Represents P.hashing MemoryState.new [] := rfl
  have hfresh := RocksState.AgreesOff.refl RocksState.IsExec RocksState.fresh
  have memory : LawfulStore P.hashing M _ := MemoryState.lawful H
  have rocks : LawfulStore P.hashing R _ := RocksState.lawful H json
  obtain ⟨x, hx, -, -, -, hhash⟩ := memory.exists_forkRun (P := P) hnew
  have hnone : R.indexedHeight RocksState.fresh = none := rocks.indexedHeight hfresh Regular.nil
  have hy : SyncRun R P lateConfig {newChain} (fun event y => event = .call → y.AppendsOnTop R)
      (.init newChain RocksState.fresh) _ :=
    rocks.firstTick newChain hfresh (by decide) (by decide) (fun _ h => nomatch h) fun _ hy _ =>
      appendsOnTop_of_empty hnone hy
  have hcs : Regular ([] ++ [.empty newChain.tip.height newChain.tip.hash]) :=
    Regular.nil.append_singleton (by simp) (BlockCommit.fits_empty _ _)
  have hhash' := rocks.indexedBlockHash (rocks.commitBlock hfresh
    (.empty newChain.tip.height newChain.tip.hash)).1 hcs
  have hlinked : Linked ({oldChain, newChain} ∪ {newChain}) := by
    rw [Set.union_eq_self_of_subset_right (by simp)]
    exact linked_fork
  exact ⟨x, _, hx, hy, hhash, hhash', (nodes_agree P lateConfig metered_meteredEngine).2.1
    _ _ hlinked oldChain (Or.inl rfl) newChain rfl _ _ hx hy _ hhash hhash'⟩

end Zalkanes
