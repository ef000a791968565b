import Zalkanes.Wallet.Scan

/-!
# The Scanned Blocks

A wallet that puts a block only after the parent of the block stores linked blocks: each one above
the birthday has its parent below it (`ScanSetting.Linked`). Linked blocks are those of every
canonical chain that has the last one of them.

Whether a scan keeps the blocks linked depends on the previous hash it carries through its loop. It
asks the node for that hash after a put and after a rewind, so it has to be the stored one.

## Main results

* `ScanSetting.Linked.has_of_le`: a linked wallet follows every chain that has its tip.
* `ScanSetting.keeps_resume`: what a scan does up to its next call keeps the stored blocks linked.
* `ScanSetting.integrity_of_run`: which runs leave only canonical blocks below a canonical tip.
-/

namespace Zalkanes

open Lib

/-! ### What a scan keeps -/

section Keeps

variable {σ K N B : Type} (W : ScanSetting σ K N B)

/-- Every stored block above the birthday has its parent stored below it, and nothing is stored
below the birthday. -/
structure ScanSetting.Linked (s : σ) : Prop where
  birthday_le : ∀ h hash, W.blocks s h = some hash → W.birthday ≤ h
  parent : ∀ h h' hash, W.birthday ≤ h → h'.toNat = h.toNat + 1 →
    W.blocks s h' = some hash → W.blocks s h = some (W.parent hash)

/-- Nothing is stored above this height. -/
def ScanSetting.TopAt (s : σ) (top : BlockHeight) : Prop :=
  ∀ h, top < h → W.blocks s h = none

/-- What the variables of the loop say of the stored blocks: the previous hash is the one of the
last stored block. -/
def ScanSetting.LoopAt (s : σ) (loop : ScanLoop N) : Prop :=
  match loop.prevHash with
  | none => loop.height = W.birthday ∧ W.Fresh s
  | some prev => W.blocks s (loop.height - 1) = some prev ∧ W.TopAt s (loop.height - 1)

/-- What a suspended scan remembers of the stored blocks. -/
def ScanSetting.Remembers (s : σ) : ScanAwait K N → Prop
  | .boundaryHash _ loop _ _ => W.LoopAt s loop
  | .rewoundHash _ height below _ => below = height - 1 ∧ W.TopAt s below
  | .fromState _ loop below => below = loop.height - 1 ∧ W.LoopAt s loop
  | .expectedHash _ loop state | .getBlock _ loop state _ =>
      W.LoopAt s loop ∧ state.height = loop.height - 1 ∧
        ∀ prev, loop.prevHash = some prev → state.hash = prev
  | .putHash _ height _ => W.TopAt s height
  | _ => True

/-- What a scan leaves. -/
def ScanSetting.Keeps (r : σ × ScanControl K N) : Prop :=
  W.Linked r.1 ∧ ∀ await, r.2.await? = some await → W.Remembers r.1 await

end Keeps

/-- The next height does not wrap around. -/
theorem toNat_nextHeight {h : BlockHeight} (hfits : h.toNat + 1 < 2 ^ 32) :
    (h + 1).toNat = h.toNat + 1 :=
  (plainAdd32_eq_ok true hfits).2

/-- From a height down to another one, step by step. -/
theorem descend {P : BlockHeight → Prop} {base top k : BlockHeight}
    (hstep : ∀ h h' : BlockHeight, base ≤ h → h'.toNat = h.toNat + 1 → P h' → P h)
    (htop : P top) (hk : base ≤ k) (hle : k ≤ top) : P k := by
  obtain ⟨n, hn⟩ := Nat.exists_eq_add_of_le (UInt32.le_iff_toNat_le.mp hle)
  induction n generalizing k with
  | zero =>
      have heq : k = top := UInt32.toNat_inj.mp hn.symm
      rwa [heq]
  | succ n ih =>
      have hfits := top.toNat_lt
      have hnext : (k + 1).toNat = k.toNat + 1 := toNat_nextHeight (by omega)
      refine hstep k (k + 1) hk hnext (ih (UInt32.le_trans hk ?_) ?_ ?_)
      · rw [UInt32.le_iff_toNat_le]
        omega
      · rw [UInt32.le_iff_toNat_le]
        omega
      · omega

/-- A linked chain has the parent of each of its blocks one below it. -/
theorem Chain.LinkedBy.has_parent {parent : BlockHash → BlockHash} {chain : Chain}
    (hchain : chain.LinkedBy parent) {h h' : BlockHeight} {hash : BlockHash}
    (hnext : h'.toNat = h.toNat + 1) (hhas : chain.Has h' hash) : chain.Has h (parent hash) := by
  obtain ⟨block', hblock', rfl⟩ := Chain.has_iff.mp hhas
  rw [hnext] at hblock'
  obtain ⟨hlt, -⟩ := List.getElem?_eq_some_iff.mp hblock'
  have hblock := List.getElem?_eq_getElem (Nat.lt_of_succ_lt hlt)
  exact Chain.has_iff.mpr ⟨_, hblock, hchain _ _ _ hblock hblock'⟩

namespace ScanSetting

variable {σ K N B : Type} {W : ScanSetting σ K N B} {s s' : σ}

/-- What is linked depends on the stored blocks alone. -/
theorem Linked.congr (hs : W.Linked s) (heq : W.blocks s' = W.blocks s) :
    W.Linked s' where
  birthday_le h hash hhash := hs.birthday_le h hash (heq ▸ hhash)
  parent h h' hash hle hnext hhash := by
    rw [heq] at hhash ⊢
    exact hs.parent h h' hash hle hnext hhash

/-- The stored heights have no gap. -/
theorem Linked.stored_of_le (hs : W.Linked s) {top h : BlockHeight}
    (htop : ∃ hash, W.blocks s top = some hash) (hbirthday : W.birthday ≤ h) (hle : h ≤ top) :
    ∃ hash, W.blocks s h = some hash := by
  have hstep : ∀ h h' : BlockHeight, W.birthday ≤ h → h'.toNat = h.toNat + 1 →
      (∃ hash, W.blocks s h' = some hash) → ∃ hash, W.blocks s h = some hash := by
    rintro h h' hbase hnext ⟨hash, hhash⟩
    exact ⟨_, hs.parent h h' hash hbase hnext hhash⟩
  exact descend hstep htop hbirthday hle

/-- **A linked wallet follows every chain that has its tip.** -/
theorem Linked.has_of_le (hs : W.Linked s) {chain : Chain}
    (hchain : chain.LinkedBy W.parent) {ref : BlockRef}
    (htop : W.blocks s ref.height = some ref.hash) (hhas : chain.Has ref.height ref.hash)
    {h : BlockHeight} {hash : BlockHash} (hbirthday : W.birthday ≤ h) (hle : h ≤ ref.height)
    (hhash : W.blocks s h = some hash) : chain.Has h hash := by
  have hstep : ∀ h h' : BlockHeight, W.birthday ≤ h → h'.toNat = h.toNat + 1 →
      (∃ hash, W.blocks s h' = some hash ∧ chain.Has h' hash) →
        ∃ hash, W.blocks s h = some hash ∧ chain.Has h hash := by
    rintro h h' hbase hnext ⟨hash, hhash, hhas⟩
    exact ⟨_, hs.parent h h' hash hbase hnext hhash, hchain.has_parent hnext hhas⟩
  obtain ⟨hash', hhash', hhas'⟩ := descend hstep ⟨_, htop, hhas⟩ hbirthday hle
  obtain rfl := Option.some.inj (hhash.symm.trans hhash')
  exact hhas'

/-- A wallet without the block at its birthday stores none. -/
theorem Linked.fresh (hs : W.Linked s) (hnone : W.blocks s W.birthday = none) :
    W.Fresh s := by
  intro h
  cases hhash : W.blocks s h with
  | none => rfl
  | some hash =>
      obtain ⟨hash', hhash'⟩ := hs.stored_of_le ⟨hash, hhash⟩ (UInt32.le_refl _)
        (hs.birthday_le h hash hhash)
      rw [hnone] at hhash'
      cases hhash'

/-- Nothing is stored above a height after which a block is missing. -/
theorem Linked.topAt (hs : W.Linked s) {ref : BlockRef}
    (hhash : W.blocks s ref.height = some ref.hash)
    (hnone : ∀ h : BlockHeight, h.toNat = ref.height.toNat + 1 → W.blocks s h = none) :
    W.TopAt s ref.height := by
  intro h hlt
  cases hstored : W.blocks s h with
  | none => rfl
  | some hash =>
      have hfits := h.toNat_lt
      have hltNat := UInt32.lt_iff_toNat_lt.mp hlt
      have hnext : (ref.height + 1).toNat = ref.height.toNat + 1 := toNat_nextHeight (by omega)
      have hbirthday := UInt32.le_iff_toNat_le.mp (hs.birthday_le _ _ hhash)
      have hbelow : W.birthday ≤ ref.height + 1 := UInt32.le_iff_toNat_le.mpr (by omega)
      have hle : ref.height + 1 ≤ h := UInt32.le_iff_toNat_le.mpr (by omega)
      obtain ⟨hash', hhash'⟩ := hs.stored_of_le ⟨hash, hstored⟩ hbelow hle
      rw [hnone _ hnext] at hhash'
      cases hhash'

/-- **Putting the next block keeps the wallet linked.** -/
theorem Linked.put (hs : W.Linked s) {loop : ScanLoop N} (hloop : W.LoopAt s loop)
    {state : ChainState} {header : BlockHeader} (hstate : state.height = loop.height - 1)
    (hprev : ∀ prev, loop.prevHash = some prev → state.hash = prev)
    (hheight : loop.height.toNat = state.height.toNat + 1)
    (hheader : header.prevBlock = state.hash) (hparent : header.prevBlock = W.parent header.hash)
    (hblocks : W.blocks s' = Function.update (W.blocks s) loop.height (some header.hash)) :
    W.Linked s' ∧ W.TopAt s' loop.height := by
  have habove : ∀ h, loop.height < h → W.blocks s h = none := by
    intro h hlt
    rw [UInt32.lt_iff_toNat_lt] at hlt
    cases hnone : loop.prevHash with
    | none =>
        rw [LoopAt, hnone] at hloop
        exact hloop.2 h
    | some prev =>
        rw [LoopAt, hnone] at hloop
        refine hloop.2 h ?_
        rw [← hstate, UInt32.lt_iff_toNat_lt]
        omega
  have hother : ∀ h, h ≠ loop.height → W.blocks s' h = W.blocks s h := by
    intro h hne
    rw [hblocks, Function.update_of_ne hne]
  have hself : W.blocks s' loop.height = some header.hash := by
    rw [hblocks, Function.update_self]
  have htop : W.TopAt s' loop.height := fun h hlt => by
    rw [hother h (UInt32.ne_of_lt hlt).symm]
    exact habove h hlt
  refine ⟨⟨fun h hash hhash => ?_, fun h h' hash hbirthday hnext hhash => ?_⟩, htop⟩
  · by_cases heq : h = loop.height
    · subst heq
      cases hnone : loop.prevHash with
      | none =>
          rw [LoopAt, hnone] at hloop
          exact UInt32.le_of_eq hloop.1.symm
      | some prev =>
          rw [LoopAt, hnone, ← hstate] at hloop
          have hle := UInt32.le_iff_toNat_le.mp (hs.birthday_le _ _ hloop.1)
          exact UInt32.le_iff_toNat_le.mpr (by omega)
    · rw [hother h heq] at hhash
      exact hs.birthday_le h hash hhash
  · by_cases heq : h' = loop.height
    · subst heq
      have hbelow : h = state.height := UInt32.toNat_inj.mp (by omega)
      obtain rfl := Option.some.inj (hself.symm.trans hhash)
      have hne : h ≠ loop.height := by
        rintro rfl
        omega
      rw [hother h hne]
      cases hnone : loop.prevHash with
      | none =>
          -- nothing is stored below the birthday
          rw [LoopAt, hnone] at hloop
          have hle := UInt32.le_iff_toNat_le.mp hbirthday
          rw [← hloop.1] at hle
          omega
      | some prev =>
          rw [LoopAt, hnone, ← hstate, ← hbelow] at hloop
          rw [hloop.1, ← hparent, hheader, hprev prev hnone]
    · rw [hother h' heq] at hhash
      have hstored := hs.parent h h' hash hbirthday hnext hhash
      by_cases hlast : h = loop.height
      · subst hlast
        rw [habove h' (UInt32.lt_iff_toNat_lt.mpr (by omega))] at hhash
        cases hhash
      · rw [hother h hlast]
        exact hstored

/-- A rewind keeps the wallet linked. -/
theorem Linked.rewind (hs : W.Linked s) {top : BlockHeight}
    (hblocks : ∀ h, W.blocks s' h = if h ≤ top then W.blocks s h else none) :
    W.Linked s' ∧ W.TopAt s' top := by
  refine ⟨⟨fun h hash hhash => ?_, fun h h' hash hbirthday hnext hhash => ?_⟩, fun h hlt => ?_⟩
  · rw [hblocks] at hhash
    by_cases hle : h ≤ top
    · rw [if_pos hle] at hhash
      exact hs.birthday_le h hash hhash
    · rw [if_neg hle] at hhash
      cases hhash
  · rw [hblocks] at hhash ⊢
    by_cases hle : h' ≤ top
    · rw [if_pos hle] at hhash
      rw [UInt32.le_iff_toNat_le] at hle
      rw [if_pos (UInt32.le_iff_toNat_le.mpr (by omega))]
      exact hs.parent h h' hash hbirthday hnext hhash
    · rw [if_neg hle] at hhash
      cases hhash
  · rw [hblocks, if_neg (UInt32.not_le.mpr hlt)]

/-! ### What a scan does up to its next call -/

/-- A scan that returns keeps a linked store. -/
theorem keeps_returned (hs : W.Linked s) (result : Except String CanonicalTip) :
    W.Keeps (s, .returned result) :=
  ⟨hs, fun _ h => nomatch h⟩

/-- So does one that waits, if it remembers what is true. -/
theorem keeps_awaiting (hs : W.Linked s) {await : ScanAwait K N}
    (hrem : W.Remembers s await) : W.Keeps (s, .awaiting await) :=
  ⟨hs, fun _ h => Option.some.inj h ▸ hrem⟩

/-- Going on after a result keeps the store linked if it does for each value. -/
theorem keeps_orFail {α : Type} {r : Except String α} {what : String}
    {next : α → σ × ScanControl K N} (hs : W.Linked s) (h : ∀ a, r = .ok a → W.Keeps (next a)) :
    W.Keeps (orFail s r what next) := by
  cases r with
  | error e => exact keeps_returned hs _
  | ok a => exact h a rfl

/-- Going on after a possible panic keeps the store linked if it does for each value. -/
theorem keeps_orAbort {α : Type} {r : Except Panic α}
    {next : α → σ × ScanControl K N} (hs : W.Linked s) (h : ∀ a, r = .ok a → W.Keeps (next a)) :
    W.Keeps (orAbort s r next) := by
  cases r with
  | error p => exact ⟨hs, fun _ h => nomatch h⟩
  | ok a => exact h a rfl

variable {D : ScanDb σ K N B}

/-- Going on with the next range keeps the store linked. -/
theorem keeps_nextScan (hD : D ∈ W.dbs) (hs : W.Linked s) {locals : ScanLocals K}
    {loop : ScanLoop N} (hloop : W.LoopAt s loop) :
    W.Keeps (nextScan D W.overflowChecks locals loop s) := by
  rw [nextScan]
  by_cases hle : loop.height ≤ locals.target.height
  · rw [if_pos hle]
    refine keeps_orAbort hs fun below hbelow => keeps_awaiting hs ?_
    exact ⟨plainSub32_ok hbelow, hloop⟩
  · rw [if_neg hle]
    have hs' := hs.congr ((W.lawful D hD).updateChainTip s locals.target.height)
    exact keeps_orFail hs' fun _ _ => keeps_awaiting hs' trivial

/-- Rewinding keeps the store linked. -/
theorem keeps_rewindToCommonAncestor (hs : W.Linked s) {locals : ScanLocals K}
    {height : BlockHeight} : W.Keeps (rewindToCommonAncestor D locals height s) :=
  keeps_orFail hs fun _ _ => keeps_awaiting hs trivial

/-- Checking the block at the boundary keeps the store linked. -/
theorem keeps_checkBoundary (hD : D ∈ W.dbs) (hs : W.Linked s)
    {locals : ScanLocals K} {loop : ScanLoop N} (hloop : W.LoopAt s loop) :
    W.Keeps (checkBoundary D W.overflowChecks locals loop s) := by
  rw [checkBoundary]
  cases hprev : loop.prevHash with
  | none => exact keeps_nextScan hD hs hloop
  | some prev =>
      refine keeps_orAbort hs fun scannedTip _ => keeps_orFail hs fun walletHash _ => ?_
      by_cases hahead : scannedTip > locals.target.height
      · rw [if_pos hahead]
        exact keeps_rewindToCommonAncestor hs
      · rw [if_neg hahead]
        exact keeps_awaiting hs hloop

/-- **What a scan does up to its next call keeps the stored blocks linked**, where the hash it asks
for again is the one that is stored. -/
theorem keeps_resume (hD : D ∈ W.dbs) {source : CanonicalChainSource} {await : ScanAwait K N}
    (hs : W.Linked s) (hrem : W.Remembers s await)
    (hstate : ∀ h state, source.treeState h = .ok state → state.height = h)
    (hreread : ∀ h, await.rereads = some h → ∀ hash, source.blockHash h = .ok hash →
      W.blocks s h = some hash) :
    W.Keeps (await.resume D W.overflowChecks W.readBlock source s) := by
  have L := W.lawful D hD
  cases await with
  | canonicalTip =>
      refine keeps_orFail hs fun target _ => keeps_orFail hs fun keys _ =>
        keeps_orFail hs fun nullifiers _ => keeps_orFail hs fun birthday hbirthday =>
          keeps_orFail hs fun scanned hscanned => ?_
      obtain rfl := L.accountBirthday s birthday hbirthday
      cases scanned with
      | none =>
          exact keeps_checkBoundary hD hs ⟨rfl, hs.fresh (L.fullyScanned_none s hscanned)⟩
      | some ref =>
          refine keeps_orAbort hs fun start hstart => keeps_checkBoundary hD hs ?_
          obtain ⟨hstored, hnext⟩ := L.fullyScanned_some s ref hscanned
          have hbelow : start - 1 = ref.height := by
            rw [plainAdd32_ok hstart, UInt32.add_sub_cancel]
          change W.blocks s (start - 1) = some ref.hash ∧ W.TopAt s (start - 1)
          rw [hbelow]
          exact ⟨hstored, hs.topAt hstored hnext⟩
  | boundaryHash locals loop boundary walletHash =>
      refine keeps_orFail hs fun hash _ => ?_
      by_cases hne : walletHash ≠ some hash
      · rw [if_pos hne]
        exact keeps_rewindToCommonAncestor hs
      · rw [if_neg hne]
        exact keeps_nextScan hD hs hrem
  | zebraHash locals height walletHash =>
      refine keeps_orFail hs fun hash _ => ?_
      by_cases heq : walletHash = some hash
      · rw [if_pos heq]
        exact keeps_awaiting hs trivial
      · rw [if_neg heq]
        by_cases hle : height ≤ locals.birthday
        · rw [if_pos hle]
          exact keeps_returned hs _
        · rw [if_neg hle]
          exact keeps_orAbort hs fun _ _ => keeps_rewindToCommonAncestor hs
  | ancestorState locals height =>
      refine keeps_orFail hs fun state hanswer => ?_
      rcases hrewind : D.rewindToChainState s state with ⟨s', e | ⟨⟩⟩
      · exact keeps_returned (hs.congr (L.rewind_error s s' state e hrewind)) _
      · obtain ⟨hs', htop⟩ := hs.rewind (L.rewind_ok s s' state hrewind)
        rw [hstate _ _ hanswer] at htop
        refine keeps_orAbort hs' fun next hnext => keeps_orFail hs' fun nullifiers _ =>
          keeps_orAbort hs' fun below hbelow => keeps_awaiting hs' ?_
        have heq : below = height := by
          rw [plainSub32_ok hbelow, plainAdd32_ok hnext, UInt32.add_sub_cancel]
        exact ⟨plainSub32_ok hbelow, heq ▸ htop⟩
  | rewoundHash locals height below nullifiers =>
      obtain ⟨hbelow, htop⟩ := hrem
      refine keeps_orFail hs fun hash hanswer => keeps_nextScan hD hs ?_
      have hstored := hreread below rfl hash hanswer
      rw [hbelow] at hstored htop
      exact ⟨hstored, htop⟩
  | fromState locals loop below =>
      obtain ⟨hbelow, hloop⟩ := hrem
      refine keeps_orFail hs fun state hanswer => ?_
      by_cases hreorg : loop.prevHash.any (state.hash ≠ ·) = true
      · rw [if_pos hreorg]
        exact keeps_rewindToCommonAncestor hs
      · rw [if_neg hreorg]
        refine keeps_awaiting hs ⟨hloop, hbelow ▸ hstate _ _ hanswer, fun prev hprev => ?_⟩
        rw [hprev, Option.any_some, decide_eq_true_eq, not_not] at hreorg
        exact hreorg
  | expectedHash locals loop state =>
      exact keeps_orFail hs fun expected _ => keeps_awaiting hs hrem
  | getBlock locals loop state expected =>
      obtain ⟨hloop, hheight, hprev⟩ := hrem
      refine keeps_orFail hs fun raw _ => keeps_orFail hs fun header hread => ?_
      by_cases hne : header.hash ≠ expected
      · rw [if_pos hne]
        exact keeps_returned hs _
      · rw [if_neg hne]
        refine keeps_orFail hs fun scanned hscan => ?_
        rcases hput : D.putBlocks s state scanned with ⟨s', e | ⟨⟩⟩
        · exact keeps_returned (hs.congr (L.put_error s s' state scanned e hput)) _
        · obtain ⟨hnext, hheader, hblocks⟩ := L.put_ok _ _ _ _ _ _ _ _ hscan hput
          obtain ⟨hs', htop⟩ := hs.put hloop hheight hprev hnext hheader
            (W.readBlock_prev raw header hread) hblocks
          exact keeps_awaiting hs' htop
  | putHash locals height nullifiers =>
      refine keeps_orFail hs fun hash hanswer => keeps_orAbort hs fun next hnext =>
        keeps_nextScan hD hs ?_
      have hbelow : next - 1 = height := by
        rw [plainAdd32_ok hnext, UInt32.add_sub_cancel]
      change W.blocks s (next - 1) = some hash ∧ W.TopAt s (next - 1)
      rw [hbelow]
      exact ⟨hreread height rfl hash hanswer, hrem⟩
  | finalHash locals =>
      refine keeps_orFail hs fun hash _ => ?_
      by_cases hne : hash ≠ locals.target.hash
      · rw [if_pos hne]
        exact keeps_returned hs _
      · rw [if_neg hne]
        exact keeps_returned hs _

/-! ### Runs of scans -/

/-- The node answers from one of its chains, and the stored blocks are linked. -/
structure Holds (W : ScanSetting σ K N B) (x : Scan σ K N) : Prop where
  canonical : x.canonical ∈ W.chains
  keeps : W.Keeps (x.store, x.control)

/-- **One step** that rereads what is stored. -/
theorem Holds.step {x y : Scan σ K N} {event : ScanEvent} (hx : W.Holds x)
    (hstep : ScanStep W x event y) (hcond : W.RereadsStored event x) : W.Holds y := by
  obtain ⟨hchain, hs, hrem⟩ := hx
  cases hstep with
  | replace chain h => exact ⟨h, hs, hrem⟩
  | begin h => exact ⟨hchain, keeps_awaiting hs trivial⟩
  | call D hD await h =>
      refine ⟨hchain, keeps_resume hD hs (hrem await h) (fun height state hanswer => ?_)
        fun height hreads hash hanswer => hcond rfl await h height hreads hash hanswer⟩
      obtain ⟨hash, -, rfl⟩ := map_eq_ok hanswer
      rfl
  | unreachable D hD await e h =>
      exact ⟨hchain, keeps_resume hD hs (hrem await h) (fun _ _ hanswer => nomatch hanswer)
        fun _ _ _ hanswer => nomatch hanswer⟩

/-- **Runs that reread what is stored**: when a scan has succeeded and its tip is canonical, every
block below it is. -/
theorem integrity_of_run {chain : Chain} (hchain : chain ∈ W.chains) {s₀ : σ} (hfresh : W.Fresh s₀)
    {x : Scan σ K N} (hrun : ScanRun W W.RereadsStored (.init chain s₀) x) : W.Integrity x := by
  have hx : W.Holds x := by
    induction hrun with
    | refl =>
        refine ⟨hchain, ⟨fun h hash hhash => ?_, fun h h' hash _ _ hhash => ?_⟩,
          fun _ h => nomatch h⟩
        · cases (hfresh h).symm.trans hhash
        · cases (hfresh h').symm.trans hhash
    | tail _ hlast ih =>
        obtain ⟨event, hstep, hcond⟩ := hlast
        exact ih.step hstep hcond
  intro target _ ref htip hhas h hash hbirthday hle hhash
  exact hx.keeps.1.has_of_le (W.linked _ hx.canonical) htip.1 hhas hbirthday hle hhash

end ScanSetting

/-! ### Runs that are computed -/

section Play

variable {σ K N B : Type} (W : ScanSetting σ K N B) (D : ScanDb σ K N B) (chains : List Chain)

/-- Whether the node now answers with the hash that is stored at this height. -/
def ScanSetting.answersStored (x : Scan σ K N) (h : BlockHeight) : Bool :=
  match x.canonical.source.blockHash h with
  | .ok hash => W.blocks x.store h = some hash
  | .error _ => true

/-- The node answers as the store says. -/
theorem ScanSetting.answersStored_iff {x : Scan σ K N} {h : BlockHeight} :
    W.answersStored x h = true ↔
      ∀ hash, x.canonical.Has h hash → W.blocks x.store h = some hash := by
  rw [answersStored]
  unfold Chain.Has
  cases x.canonical.source.blockHash h with
  | ok hash => simp
  | error e => simp

instance ScanSetting.decidableRereadsStored (event : ScanEvent) (x : Scan σ K N) :
    Decidable (W.RereadsStored event x) :=
  decidable_of_iff
    (event.isCall = true →
      ((x.control.await?.bind ScanAwait.rereads).all (W.answersStored x)) = true) <| by
    constructor
    · rintro h rfl await hawait height hreads
      have hall := h rfl
      rw [hawait, Option.bind_some, hreads, Option.all_some] at hall
      exact W.answersStored_iff.mp hall
    · intro h hcall
      cases event with
      | replace | begin | unreachable => cases hcall
      | call =>
          cases hawait : x.control.await? with
          | none => rfl
          | some await =>
              rw [Option.bind_some]
              cases hreads : await.rereads with
              | none => rfl
              | some height => exact W.answersStored_iff.mpr (h rfl await hawait height hreads)

/-- The state after an event, if it can happen. -/
def Scan.next? (x : Scan σ K N) : ScanEvent → Option (Scan σ K N)
  | .replace chain => if chain ∈ chains then some { x with canonical := chain } else none
  | .begin =>
      match x.control.await? with
      | none => some { x with control := .awaiting .canonicalTip }
      | some _ => none
  | .call => x.control.await?.map (x.answer W D x.canonical.canonicalSource)
  | .unreachable e => x.control.await?.map (x.answer W D (.unreachable e))

/-- These events lead through these states, and each meets a condition. -/
def Scan.Follows (cond : ScanEvent → Scan σ K N → Prop) :
    Scan σ K N → List (ScanEvent × Scan σ K N) → Prop
  | _, [] => True
  | x, (event, y) :: steps =>
      cond event x ∧ x.next? W D chains event = some y ∧ Follows cond y steps

instance Scan.decidableFollows [DecidableEq (Scan σ K N)]
    (cond : ScanEvent → Scan σ K N → Prop) [∀ event x, Decidable (cond event x)] :
    ∀ (x : Scan σ K N) (steps : List (ScanEvent × Scan σ K N)),
      Decidable (Scan.Follows W D chains cond x steps)
  | _, [] => .isTrue trivial
  | x, (event, y) :: steps =>
      have := decidableFollows cond y steps
      inferInstanceAs (Decidable
        (cond event x ∧ x.next? W D chains event = some y ∧ Scan.Follows W D chains cond y steps))

variable {W D chains}

/-- An event that can be computed is a step. -/
theorem Scan.step_of_next? (hD : D ∈ W.dbs) (hchains : ∀ chain ∈ chains, chain ∈ W.chains)
    {x y : Scan σ K N} {event : ScanEvent} (h : x.next? W D chains event = some y) :
    ScanStep W x event y := by
  cases event with
  | replace chain =>
      rw [next?] at h
      by_cases hmem : chain ∈ chains
      · rw [if_pos hmem] at h
        obtain rfl := Option.some.inj h
        exact .replace chain (hchains chain hmem)
      · rw [if_neg hmem] at h
        cases h
  | begin =>
      rw [next?] at h
      cases hawait : x.control.await? with
      | none =>
          rw [hawait] at h
          obtain rfl := Option.some.inj h
          exact .begin hawait
      | some await =>
          rw [hawait] at h
          cases h
  | call =>
      obtain ⟨await, hawait, rfl⟩ := Option.map_eq_some_iff.mp h
      exact .call D hD await hawait
  | unreachable e =>
      obtain ⟨await, hawait, rfl⟩ := Option.map_eq_some_iff.mp h
      exact .unreachable D hD await e hawait

/-- The states that are led through are a run. -/
theorem Scan.run_of_follows (hD : D ∈ W.dbs) (hchains : ∀ chain ∈ chains, chain ∈ W.chains)
    {cond : ScanEvent → Scan σ K N → Prop} {x y : Scan σ K N}
    {steps : List (ScanEvent × Scan σ K N)} (h : Scan.Follows W D chains cond x steps)
    (hlast : (steps.map Prod.snd).getLastD x = y) : ScanRun W cond x y := by
  induction steps generalizing x with
  | nil =>
      obtain rfl := hlast
      exact .refl
  | cons step steps ih =>
      obtain ⟨event, z⟩ := step
      obtain ⟨hcond, hnext, hrest⟩ := h
      rw [List.map_cons, List.getLastD_cons] at hlast
      exact .head ⟨event, step_of_next? hD hchains hnext, hcond⟩ (ih hrest hlast)

end Play

/-! ### Two branches -/

/-- The blocks of two branches from a genesis block: 1 and 2, and 3 and 4. -/
def branchBlock (n : UInt8) : UpstreamBlock := ⟨.replicate n, [n]⟩

/-- The block before each of them. -/
def branchParent (hash : BlockHash) : BlockHash :=
  if hash = .replicate 2 then .replicate 1
  else if hash = .replicate 4 then .replicate 3
  else .replicate 0

/-- A node reads a raw block of one byte. -/
def readBranchBlock : Bytes → Except String BlockHeader
  | [n] => .ok ⟨.replicate n, branchParent (.replicate n)⟩
  | _ => .error "not a block"

/-- A chain of three blocks. -/
def firstBranch : Chain := ⟨[branchBlock 0, branchBlock 1, branchBlock 2], by decide, by decide⟩

/-- Another one, which forks at the first block. -/
def secondBranch : Chain := ⟨[branchBlock 0, branchBlock 3, branchBlock 4], by decide, by decide⟩

/-- Blocks that name their parents are linked. -/
theorem linkedBy_branch {a b c : UpstreamBlock} {hne : [a, b, c] ≠ []}
    {hfits : [a, b, c].length ≤ 2 ^ 32} (hb : a.hash = branchParent b.hash)
    (hc : b.hash = branchParent c.hash) :
    Chain.LinkedBy branchParent ⟨[a, b, c], hne, hfits⟩ := by
  intro i block block' h h'
  match i with
  | 0 =>
      obtain rfl := Option.some.inj h
      obtain rfl := Option.some.inj h'
      exact hb
  | 1 =>
      obtain rfl := Option.some.inj h
      obtain rfl := Option.some.inj h'
      exact hc
  | i + 2 => cases h'

/-- A wallet database that lists its blocks, the last one first. -/
def listDb (birthday : BlockHeight) :
    ScanDb (List (BlockHeight × BlockHash)) Unit Unit (BlockHeight × BlockHash) where
  unifiedFullViewingKeys _ := .ok ()
  unspentNullifiers _ := .ok ()
  accountBirthday _ := .ok birthday
  blockFullyScanned
    | [] => .ok none
    | (h, hash) :: s =>
        if ((h, hash) :: s).lookup (h + 1) = none then .ok (some ⟨h, hash⟩)
        else .error "blocks out of order"
  getBlockHash s h := .ok (s.lookup h)
  scanBlock _ _ state height header :=
    if height.toNat = state.height.toNat + 1 ∧ header.prevBlock = state.hash then
      .ok (height, header.hash)
    else .error "block does not continue the chain"
  updateWith _ _ := ()
  putBlocks s _ scanned := (scanned :: s, .ok ())
  rewindToChainState s state := (s.filter fun block => block.1 ≤ state.height, .ok ())
  updateChainTip s _ := (s, .ok ())

/-- Blocks up to a height are looked up up to it. -/
theorem lookup_filter_le (s : List (BlockHeight × BlockHash)) (top h : BlockHeight) :
    (s.filter fun block => block.1 ≤ top).lookup h = if h ≤ top then s.lookup h else none := by
  induction s with
  | nil => exact (ite_self none).symm
  | cons block s ih =>
      obtain ⟨k, hash⟩ := block
      by_cases heq : h = k
      · subst heq
        by_cases hle : h ≤ top
        · rw [List.filter_cons_of_pos (by rwa [decide_eq_true_eq]), List.lookup_cons_self,
            if_pos hle, List.lookup_cons_self]
        · rw [List.filter_cons_of_neg (by rwa [decide_eq_true_eq]), ih, if_neg hle, if_neg hle]
      · rw [List.lookup_cons, beq_false_of_ne heq]
        by_cases hle : k ≤ top
        · rw [List.filter_cons_of_pos (by rwa [decide_eq_true_eq]), List.lookup_cons,
            beq_false_of_ne heq]
          exact ih
        · rw [List.filter_cons_of_neg (by rwa [decide_eq_true_eq])]
          exact ih

/-- A list of blocks is a lawful database. -/
theorem lawful_listDb (birthday : BlockHeight) :
    (listDb birthday).Lawful (fun s h => s.lookup h) birthday where
  accountBirthday _ _ h := (Except.ok.inj h).symm
  fullyScanned_some s ref h := by
    cases s with
    | nil => cases h
    | cons block s =>
        obtain ⟨top, hash⟩ := block
        change (if ((top, hash) :: s).lookup (top + 1) = none then _ else _) = _ at h
        by_cases hnone : ((top, hash) :: s).lookup (top + 1) = none
        · rw [if_pos hnone] at h
          obtain rfl := Option.some.inj (Except.ok.inj h)
          refine ⟨List.lookup_cons_self, fun k (hk : k.toNat = top.toNat + 1) => ?_⟩
          have hfits := k.toNat_lt
          have heq : k = top + 1 :=
            UInt32.toNat_inj.mp (hk.trans (toNat_nextHeight (by omega)).symm)
          rw [heq]
          exact hnone
        · rw [if_neg hnone] at h
          cases h
  fullyScanned_none s h := by
    cases s with
    | nil => rfl
    | cons block s =>
        obtain ⟨top, hash⟩ := block
        change (if ((top, hash) :: s).lookup (top + 1) = none then _ else _) = _ at h
        by_cases hnone : ((top, hash) :: s).lookup (top + 1) = none
        · rw [if_pos hnone] at h
          cases h
        · rw [if_neg hnone] at h
          cases h
  getBlockHash _ _ _ h := (Except.ok.inj h).symm
  put_ok s s' keys nullifiers state height header scanned hscan hput := by
    change (if _ then Except.ok (height, header.hash) else _) = _ at hscan
    obtain ⟨rfl, -⟩ := Prod.mk.inj hput
    by_cases hcond : height.toNat = state.height.toNat + 1 ∧ header.prevBlock = state.hash
    · rw [if_pos hcond] at hscan
      obtain rfl := Except.ok.inj hscan
      refine ⟨hcond.1, hcond.2, funext fun h => ?_⟩
      by_cases heq : h = height
      · subst heq
        rw [Function.update_self, List.lookup_cons_self]
      · rw [Function.update_of_ne heq, List.lookup_cons, beq_false_of_ne heq]
    · rw [if_neg hcond] at hscan
      cases hscan
  put_error _ _ _ _ _ h := nomatch (Prod.mk.inj h).2
  rewind_ok s s' state h k := by
    obtain ⟨rfl, -⟩ := Prod.mk.inj h
    exact lookup_filter_le s state.height k
  rewind_error _ _ _ _ h := nomatch (Prod.mk.inj h).2
  updateChainTip _ _ := rfl

/-- A wallet with birthday 1 and a node that changes between the two branches. -/
def branchSetting :
    ScanSetting (List (BlockHeight × BlockHash)) Unit Unit (BlockHeight × BlockHash) where
  overflowChecks := true
  readBlock := readBranchBlock
  parent := branchParent
  readBlock_prev raw header h := by
    match raw with
    | [n] =>
        obtain rfl := Except.ok.inj h
        rfl
    | [] | _ :: _ :: _ => cases h
  chains := {firstBranch, secondBranch}
  linked chain h := by
    rcases h with rfl | rfl
    · exact linkedBy_branch (by decide) (by decide)
    · exact linkedBy_branch (by decide) (by decide)
  blocks s h := s.lookup h
  birthday := 1
  dbs := {listDb 1}
  lawful D h := by
    obtain rfl := h
    exact lawful_listDb 1

/-- A wallet's first scan, up to its first block on the first branch. -/
def scanFirst : List (ScanEvent × Scan (List (BlockHeight × BlockHash)) Unit Unit) :=
  let locals : ScanLocals Unit := ⟨firstBranch.tip, (), 1⟩
  let loop : ScanLoop Unit := ⟨1, none, ()⟩
  [(.begin, ⟨firstBranch, [], .awaiting .canonicalTip⟩),
    (.call, ⟨firstBranch, [], .awaiting (.fromState locals loop 0)⟩),
    (.call, ⟨firstBranch, [], .awaiting (.expectedHash locals loop ⟨0, .replicate 0⟩)⟩),
    (.call, ⟨firstBranch, [],
      .awaiting (.getBlock locals loop ⟨0, .replicate 0⟩ (.replicate 1))⟩),
    (.call, ⟨firstBranch, [(1, .replicate 1)], .awaiting (.putHash locals 1 ())⟩)]

/-- The rest of the scan on a chain of the blocks `a` and `b`. -/
def scanSecond (chain : Chain) (a b : UInt8) (result : Except String CanonicalTip) :
    List (ScanEvent × Scan (List (BlockHeight × BlockHash)) Unit Unit) :=
  let locals : ScanLocals Unit := ⟨firstBranch.tip, (), 1⟩
  let loop : ScanLoop Unit := ⟨2, some (.replicate a), ()⟩
  let both : List (BlockHeight × BlockHash) := [(2, .replicate b), (1, .replicate 1)]
  [(.call, ⟨chain, [(1, .replicate 1)], .awaiting (.fromState locals loop 1)⟩),
    (.call, ⟨chain, [(1, .replicate 1)],
      .awaiting (.expectedHash locals loop ⟨1, .replicate a⟩)⟩),
    (.call, ⟨chain, [(1, .replicate 1)],
      .awaiting (.getBlock locals loop ⟨1, .replicate a⟩ (.replicate b))⟩),
    (.call, ⟨chain, both, .awaiting (.putHash locals 2 ())⟩),
    (.call, ⟨chain, both, .awaiting (.finalHash locals)⟩),
    (.call, ⟨chain, both, .returned result⟩)]

/-- The wallet's second scan finds the last block it has stored on the second branch. -/
def scanAgain : List (ScanEvent × Scan (List (BlockHeight × BlockHash)) Unit Unit) :=
  let locals : ScanLocals Unit := ⟨secondBranch.tip, (), 1⟩
  let loop : ScanLoop Unit := ⟨3, some (.replicate 4), ()⟩
  let both : List (BlockHeight × BlockHash) := [(2, .replicate 4), (1, .replicate 1)]
  [(.begin, ⟨secondBranch, both, .awaiting .canonicalTip⟩),
    (.call, ⟨secondBranch, both,
      .awaiting (.boundaryHash locals loop 2 (some (.replicate 4)))⟩),
    (.call, ⟨secondBranch, both, .awaiting (.finalHash locals)⟩),
    (.call, ⟨secondBranch, both, .returned (.ok secondBranch.tip)⟩)]

/-- Both chains are served. -/
theorem branchSetting_serves :
    ∀ chain ∈ [firstBranch, secondBranch], chain ∈ branchSetting.chains := by
  intro chain h
  change chain = firstBranch ∨ chain = secondBranch
  simpa using h

/-- A wallet that scans a branch which stays canonical stores that branch. -/
theorem integrity_firstBranch :
    ∃ x, branchSetting.Fresh [] ∧ branchSetting.Integrity x ∧
      x.control = .returned (.ok firstBranch.tip) ∧
      x.store = [(2, .replicate 2), (1, .replicate 1)] := by
  have hfresh : branchSetting.Fresh [] := fun _ => rfl
  have hfollows : Scan.Follows branchSetting (listDb 1) [firstBranch, secondBranch]
      branchSetting.RereadsStored (.init firstBranch [])
      (scanFirst ++ scanSecond firstBranch 1 2 (.ok firstBranch.tip)) := by
    decide +kernel
  have hrun := Scan.run_of_follows rfl branchSetting_serves hfollows rfl
  exact ⟨_, hfresh, branchSetting.integrity_of_run (Or.inl rfl) hfresh hrun, rfl, rfl⟩

/-- **A reorg between a put and the hash that is asked for after it**: the first scan ends in an
error, the second one succeeds on the second branch, and the wallet stores block 1 of the first. -/
theorem not_integrity_reread :
    ∃ x, branchSetting.Fresh [] ∧
      ScanRun branchSetting (fun _ _ => True) (.init firstBranch []) x ∧
      ¬ branchSetting.Integrity x := by
  have hfollows : Scan.Follows branchSetting (listDb 1) [firstBranch, secondBranch]
      (fun _ _ => True) (.init firstBranch [])
      (scanFirst ++
        (.replace secondBranch, ⟨secondBranch, [(1, .replicate 1)],
          .awaiting (.putHash ⟨firstBranch.tip, (), 1⟩ 1 ())⟩) ::
        scanSecond secondBranch 3 4 (.error ("canonical tip changed while scanning (" ++
          hexEncode (Bytes32.replicate 4).bytes ++ " != " ++
          hexEncode (Bytes32.replicate 2).bytes ++ "); re-run sync")) ++
        scanAgain) := by
    decide +kernel
  have hrun := Scan.run_of_follows rfl branchSetting_serves hfollows rfl
  refine ⟨_, fun _ => rfl, hrun, fun hintegrity => ?_⟩
  have htip : branchSetting.ScannedTip [(2, .replicate 4), (1, .replicate 1)]
      ⟨2, .replicate 4⟩ := by
    refine ⟨rfl, fun h hlt => ?_⟩
    have hone : h ≠ 1 := (UInt32.ne_of_lt (UInt32.lt_trans (by decide) hlt)).symm
    change List.lookup h [(2, Bytes32.replicate 4), (1, Bytes32.replicate 1)] = none
    rw [List.lookup_cons, beq_false_of_ne (UInt32.ne_of_lt hlt).symm]
    change List.lookup h [(1, Bytes32.replicate 1)] = none
    rw [List.lookup_cons, beq_false_of_ne hone]
    rfl
  have hhas := hintegrity _ rfl ⟨2, .replicate 4⟩ htip rfl 1 (.replicate 1) (by decide)
    (by decide) rfl
  exact absurd (Except.ok.inj hhas) (by decide)

end Zalkanes
