import Zalkanes.Indexer.Runs

/-!
# The Sync Loop

`tick` brings a store up to the chain of an upstream node: it rolls back what a reorg has
replaced, skips ahead below the activation height, and indexes block by block up to the tip. It
asks the node one question at a time and is suspended until the answer comes (`Await`); in
between it runs without interruption (`Await.resume`). The node answers from the chain that is
canonical when it is asked, and may replace that chain whenever it likes (`SyncStep`).

The tip handle and the health bookkeeping of the loop only report; `Indexer.Health` adds them.

## Main results

* `SyncStep.resumable`: what a suspended tick remembers of the store stays true.
-/

namespace Zalkanes

open Lib

/-! ### Upstream -/

/-- A block of a chain, as the upstream node serves it. -/
structure UpstreamBlock where
  hash : BlockHash
  raw : Bytes
  deriving DecidableEq

/-- A chain: its blocks by height, the first one is the genesis block. -/
structure Chain where
  blocks : List UpstreamBlock
  nonempty : blocks ≠ []
  fits : blocks.length ≤ 2 ^ 32
  deriving DecidableEq

/-- The last block of a chain. -/
def Chain.tip (chain : Chain) : BlockRef where
  height := UInt32.ofNat (chain.blocks.length - 1)
  hash := (chain.blocks.getLast chain.nonempty).hash

/-- A source of block data: what its calls return at some moment. -/
structure ChainSource where
  tip : Except String BlockRef
  blockHash : BlockHeight → Except String BlockHash
  rawBlock : BlockHash → Except String Bytes

/-- What the node answers when this chain is canonical. It serves the blocks of the chain. -/
def Chain.source (chain : Chain) : ChainSource where
  tip := .ok chain.tip
  blockHash height :=
    match chain.blocks[height.toNat]? with
    | some block => .ok block.hash
    | none => .error "Provided index is greater than the current tip"
  rawBlock hash :=
    match chain.blocks.find? fun block => decide (block.hash = hash) with
    | some block => .ok block.raw
    | none => .error "Block not found"

/-- The hash of the chain at a height. -/
def Chain.Has (chain : Chain) (height : BlockHeight) (hash : BlockHash) : Prop :=
  chain.source.blockHash height = .ok hash

/-- A chain has a block where it is. -/
theorem Chain.has_iff {chain : Chain} {height : BlockHeight} {hash : BlockHash} :
    chain.Has height hash ↔
      ∃ block, chain.blocks[height.toNat]? = some block ∧ block.hash = hash := by
  rw [Has, source]
  dsimp only
  cases chain.blocks[height.toNat]? with
  | none => simp
  | some block => simp

/-- The source serves the first block with the hash. -/
theorem Chain.rawBlock_source {chain : Chain} {hash : BlockHash} {raw : Bytes} :
    chain.source.rawBlock hash = .ok raw ↔
      ∃ block, (chain.blocks.find? fun block => decide (block.hash = hash)) = some block ∧
        block.raw = raw := by
  rw [source]
  dsimp only
  cases chain.blocks.find? fun block => decide (block.hash = hash) with
  | none => simp
  | some block => simp

section Tips

variable {chain : Chain} {height : BlockHeight}

/-- The tip is at the height of the last block. -/
theorem Chain.toNat_tip_height (chain : Chain) :
    chain.tip.height.toNat + 1 = chain.blocks.length := by
  have hpos := List.length_pos_iff.mpr chain.nonempty
  have hfits := chain.fits
  have hsize : UInt32.size = 2 ^ 32 := rfl
  have htip : chain.tip.height.toNat = chain.blocks.length - 1 :=
    UInt32.toNat_ofNat_of_lt' (by omega)
  omega

/-- The chain serves every height up to its tip, and no other. -/
theorem Chain.exists_has_iff : (∃ hash, chain.Has height hash) ↔ height ≤ chain.tip.height := by
  have htip := chain.toNat_tip_height
  rw [UInt32.le_iff_toNat_le]
  constructor
  · rintro ⟨hash, hhas⟩
    obtain ⟨block, hblock, -⟩ := Chain.has_iff.mp hhas
    obtain ⟨hlt, -⟩ := List.getElem?_eq_some_iff.mp hblock
    omega
  · intro hle
    have hlt : height.toNat < chain.blocks.length := by omega
    exact ⟨_, Chain.has_iff.mpr ⟨_, List.getElem?_eq_getElem hlt, rfl⟩⟩

/-- A chain has its tip. -/
theorem Chain.has_tip (chain : Chain) : chain.Has chain.tip.height chain.tip.hash := by
  have htip := chain.toNat_tip_height
  refine Chain.has_iff.mpr ⟨chain.blocks.getLast chain.nonempty, ?_, rfl⟩
  rw [List.getLast_eq_getElem, List.getElem?_eq_some_iff]
  refine ⟨by omega, ?_⟩
  congr 1
  omega

/-- There is one block at a height. -/
theorem Chain.Has.unique {hash hash' : BlockHash} (h : chain.Has height hash)
    (h' : chain.Has height hash') : hash = hash' :=
  Except.ok.inj (Eq.trans (Eq.symm h) h')

end Tips

/-- The node cannot be reached. -/
def ChainSource.unreachable (e : String) : ChainSource where
  tip := .error e
  blockHash _ := .error e
  rawBlock _ := .error e

/-! ### Ticks -/

/-- Blocks below the activation height are not interpreted. -/
def IndexerConfig.belowActivation (config : IndexerConfig) (height : BlockHeight) : Bool :=
  config.activationHeight.any (height < ·)

/-- Why a tick did not complete. -/
inductive SyncError where
  /-- Upstream or block-decoding failure: retry next tick. -/
  | transient (message : String)
  /-- Local state failure: the loop must stop. -/
  | fatal (message : String)
  deriving DecidableEq

/-- An error that the loop retries. -/
def transient {α : Type} (r : Except String α) (what : String) : Except SyncError α :=
  r.mapError fun e => .transient (what ++ ": " ++ e)

/-- An error that ends the loop. -/
def fatal {α : Type} (r : Except String α) (what : String) : Except SyncError α :=
  r.mapError fun e => .fatal (what ++ ": " ++ e)

/-- Naming the error keeps the result. -/
theorem transient_eq_ok {α : Type} {r : Except String α} {what : String} {a : α}
    (h : transient r what = .ok a) : r = .ok a := by
  cases r with
  | error e => cases h
  | ok b => rw [Except.ok.inj h]

/-- What one tick achieved. -/
structure TickOutcome where
  tip : BlockHeight
  indexedBefore : Option BlockHeight
  indexedAfter : Option BlockHeight
  deriving DecidableEq

/-- The locals of a tick once it knows the tip. -/
structure TickLocals where
  indexedBefore : Option BlockHeight
  tip : BlockRef
  deriving DecidableEq

/-- The call that a suspended tick waits for. -/
inductive Await where
  /-- `tip()`, at the start. -/
  | tip (indexedBefore : Option BlockHeight)
  /-- `block_hash(height)` in `handle_reorg`. -/
  | reorgHash (locals : TickLocals) (height : BlockHeight) (ourHash : BlockHash)
  /-- `block_hash(target)` of the fast-forward. -/
  | targetHash (locals : TickLocals) (target : BlockHeight)
  /-- `block_hash(next_height)` in the loop. -/
  | nextHash (locals : TickLocals) (nextHeight : BlockHeight)
  /-- `raw_block(hash)` in the loop. -/
  | rawBlock (locals : TickLocals) (nextHeight : BlockHeight) (hash : BlockHash)
  deriving DecidableEq

/-- What the loop is doing. -/
inductive Control where
  /-- No tick has started yet. -/
  | idle
  | awaiting (await : Await)
  /-- The tick has returned. -/
  | returned (result : Except SyncError TickOutcome)
  | panicked (p : Panic)

/-- The call that the loop waits for, if it does. -/
def Control.await? : Control → Option Await
  | awaiting await => some await
  | _ => none

/-- A tick awaits what it awaits. -/
theorem Control.await?_eq_some {control : Control} {await : Await} :
    control.await? = some await ↔ control = .awaiting await := by
  cases control <;> simp [await?]

section Tick

variable {σ : Type} (S : StateStore σ) (P : Platform) (config : IndexerConfig)

/-- `r?`: an error ends the tick. -/
def orReturn {α : Type} (store : σ) (r : Except SyncError α) (next : α → σ × Control) :
    σ × Control :=
  match r with
  | .error e => (store, .returned (.error e))
  | .ok a => next a

/-- A panic ends the tick. -/
def orPanic {α : Type} (store : σ) (r : Except Panic α) (next : α → σ × Control) :
    σ × Control :=
  match r with
  | .error p => (store, .panicked p)
  | .ok a => next a

/-- The tick returns. -/
def finish (locals : TickLocals) (store : σ) : σ × Control :=
  (store, .returned (.ok ⟨locals.tip.height, locals.indexedBefore, S.indexedHeight store⟩))

/-- The head of the loop that indexes every block up to the tip. -/
def nextBlock (stop : Bool) (locals : TickLocals) (store : σ) : σ × Control :=
  if stop then finish S locals store
  else
    let indexed := S.indexedHeight store
    let next := match indexed with
      | none => .ok 1
      | some h => plainAdd32 P.overflowChecks h 1
    orPanic store next fun nextHeight =>
      if nextHeight > locals.tip.height then finish S locals store
      else (store, .awaiting (.nextHash locals nextHeight))

/-- Fast-forward below the activation height, but not past the tip. -/
def fastForward (stop : Bool) (locals : TickLocals) (store : σ) : σ × Control :=
  match config.activationHeight with
  | some act =>
      if act > 1 then
        let target := min (act - 1) locals.tip.height
        if (S.indexedHeight store).all (· < target) then
          (store, .awaiting (.targetHash locals target))
        else nextBlock S P stop locals store
      else nextBlock S P stop locals store
  | none => nextBlock S P stop locals store

/-- Compare the stored hash at the indexed height with the canonical chain. -/
def handleReorg (stop : Bool) (locals : TickLocals) (store : σ) : σ × Control :=
  match S.indexedHeight store, S.indexedBlockHash store with
  | some height, some ourHash => (store, .awaiting (.reorgHash locals height ourHash))
  | _, _ => fastForward S P config stop locals store

/-- Run a suspended tick on with the answer of the source, up to its next call. `stop` is the
value of the flag if it is loaded on the way. -/
def Await.resume (stop : Bool) (source : ChainSource) (store : σ) : Await → σ × Control
  | .tip indexedBefore =>
      orReturn store (transient source.tip "fetching chain tip") fun tip =>
        handleReorg S P config stop ⟨indexedBefore, tip⟩ store
  | .reorgHash locals height ourHash =>
      orReturn store (transient (source.blockHash height)
        "fetching canonical block hash for reorg check") fun canonical =>
          if canonical = ourHash then fastForward S P config stop locals store
          else
            orPanic store (plainSub32 P.overflowChecks height 1) fun target =>
              let (store, rolledBack) := S.rollbackTo store target
              orReturn store (fatal rolledBack "rolling back a reorged block") fun () =>
                handleReorg S P config stop locals store
  | .targetHash locals target =>
      orReturn store (transient (source.blockHash target)
        "fetching block hash for the fast-forward target") fun hash =>
          let (store, root) := S.commitBlock store (.empty target hash)
          orReturn store (fatal root "committing the fast-forward block") fun _ =>
            nextBlock S P stop locals store
  | .nextHash locals nextHeight =>
      orReturn store (transient (source.blockHash nextHeight)
        "fetching canonical block hash") fun hash =>
          if config.belowActivation nextHeight then
            -- no raw fetch below activation
            orPanic store (processZcashBlock S P config store nextHeight hash [])
              fun (store, block) =>
                orReturn store (fatal block "committing a pre-activation block") fun _ =>
                  nextBlock S P stop locals store
          else (store, .awaiting (.rawBlock locals nextHeight hash))
  | .rawBlock locals nextHeight hash =>
      orReturn store (transient (source.rawBlock hash) "fetching raw block") fun raw =>
        orReturn store (transient (parseBlock P raw nextHeight hash config.network)
          "parsing block") fun parsed =>
            orPanic store (processParsedBlock S P config store parsed) fun (store, exec) =>
              orReturn store (fatal exec "processing block against local state") fun _ =>
                nextBlock S P stop locals store

end Tick

/-! ### The node and the loop -/

/-- The loop beside its upstream node. -/
structure Sync (σ : Type) where
  /-- The chain that the node answers from. -/
  canonical : Chain
  stop : Bool
  store : σ
  control : Control

section Sync

variable {σ : Type} (S : StateStore σ) (P : Platform) (config : IndexerConfig)

/-- Before the first tick. -/
def Sync.init (chain : Chain) (store : σ) : Sync σ := ⟨chain, false, store, .idle⟩

/-- A tick starts. -/
def Sync.begin (x : Sync σ) : Sync σ :=
  { x with control := .awaiting (.tip (S.indexedHeight x.store)) }

/-- The call that the tick waits for is answered by this source. -/
def Sync.answer (x : Sync σ) (source : ChainSource) (await : Await) : Sync σ :=
  let (store, control) := await.resume S P config x.stop source x.store
  { x with store := store, control := control }

/-- What can happen next. -/
inductive SyncEvent where
  /-- The node replaces its chain. -/
  | replace (chain : Chain)
  /-- The stop flag changes. -/
  | stop (stop : Bool)
  /-- A tick starts. -/
  | begin
  /-- The node answers the tick from its chain. -/
  | call
  /-- The node cannot be reached. -/
  | unreachable (e : String)

/-- The steps of the loop and its node; the chains are those that may become canonical. -/
inductive SyncStep (chains : Set Chain) (x : Sync σ) : SyncEvent → Sync σ → Prop
  | replace (chain : Chain) (h : chain ∈ chains) :
      SyncStep chains x (.replace chain) { x with canonical := chain }
  | stop (stop : Bool) : SyncStep chains x (.stop stop) { x with stop := stop }
  | begin (h : x.control.await? = none) : SyncStep chains x .begin (x.begin S)
  | call (await : Await) (h : x.control.await? = some await) :
      SyncStep chains x .call (x.answer S P config x.canonical.source await)
  | unreachable (await : Await) (e : String) (h : x.control.await? = some await) :
      SyncStep chains x (.unreachable e) (x.answer S P config (.unreachable e) await)

/-- Runs whose steps all meet a condition. -/
abbrev SyncRun (chains : Set Chain) (cond : SyncEvent → Sync σ → Prop) : Sync σ → Sync σ → Prop :=
  Relation.ReflTransGen fun x y => ∃ event, SyncStep S P config chains x event y ∧ cond event x

end Sync

/-! ### What a suspended tick remembers -/

section Resumable

variable {σ : Type} (S : StateStore σ) (config : IndexerConfig)

/-- The height that the loop asks for next; the addition may wrap. -/
def StateStore.nextHeight (s : σ) : BlockHeight := (S.indexedHeight s).elim 1 (· + 1)

/-- What a tick remembers of the store while it waits for a call is true of the store. -/
def Await.Current (s : σ) : Await → Prop
  | .tip indexedBefore => indexedBefore = S.indexedHeight s
  | .reorgHash _ height ourHash =>
      S.indexedHeight s = some height ∧ S.indexedBlockHash s = some ourHash
  | .targetHash locals target =>
      S.Below s target ∧ config.belowActivation target = true ∧ target ≤ locals.tip.height
  | .nextHash locals nextHeight =>
      nextHeight = S.nextHeight s ∧ nextHeight ≤ locals.tip.height
  | .rawBlock locals nextHeight _ =>
      nextHeight = S.nextHeight s ∧ nextHeight ≤ locals.tip.height ∧
        config.belowActivation nextHeight = false

/-- The tick has ended, or what it remembers of the store is true. -/
def Resumable (r : σ × Control) : Prop :=
  ∀ await, r.2.await? = some await → await.Current S config r.1

end Resumable

section Local

variable {σ : Type} {S : StateStore σ} {P : Platform} {config : IndexerConfig} {stop : Bool}
  {locals : TickLocals} {s : σ}

/-- Below the activation height, an empty block is committed. -/
theorem processZcashBlock_below {height : BlockHeight} {hash : BlockHash} {raw : Bytes}
    (h : config.belowActivation height = true) :
    processZcashBlock S P config s height hash raw = .ok (commitEmptyBlock S s height hash) := by
  unfold IndexerConfig.belowActivation at h
  unfold processZcashBlock
  cases hact : config.activationHeight with
  | none =>
      rw [hact] at h
      cases h
  | some act =>
      rw [hact] at h
      have hlt : height < act := of_decide_eq_true h
      exact if_pos hlt

/-- A tick that goes on after a result can be resumed if it can for each value. -/
theorem resumable_orReturn {α : Type} {r : Except SyncError α} {next : α → σ × Control}
    (h : ∀ a, r = .ok a → Resumable S config (next a)) :
    Resumable S config (orReturn s r next) := by
  cases r with
  | error e => exact fun await hawait => nomatch hawait
  | ok a => exact h a rfl

/-- A tick that goes on after a possible panic can be resumed if it can for each value. -/
theorem resumable_orPanic {α : Type} {r : Except Panic α} {next : α → σ × Control}
    (h : ∀ a, r = .ok a → Resumable S config (next a)) :
    Resumable S config (orPanic s r next) := by
  cases r with
  | error p => exact fun await hawait => nomatch hawait
  | ok a => exact h a rfl

variable (S P config stop locals s) in
/-- The loop returns, panics on the height, or asks for the hash of the next block. -/
theorem nextBlock_cases :
    nextBlock S P stop locals s = finish S locals s ∨
      (∃ p, nextBlock S P stop locals s = (s, .panicked p)) ∨
      S.nextHeight s ≤ locals.tip.height ∧
        nextBlock S P stop locals s = (s, .awaiting (.nextHash locals (S.nextHeight s))) := by
  unfold nextBlock
  by_cases hstop : stop = true
  · exact Or.inl (if_pos hstop)
  rw [if_neg hstop]
  have hloop : ∀ next, next = S.nextHeight s →
      (if next > locals.tip.height then finish S locals s
        else (s, .awaiting (.nextHash locals next))) = finish S locals s ∨
      S.nextHeight s ≤ locals.tip.height ∧
        (if next > locals.tip.height then finish S locals s
          else (s, .awaiting (.nextHash locals next))) =
            (s, .awaiting (.nextHash locals (S.nextHeight s))) := by
    rintro _ rfl
    by_cases hgt : S.nextHeight s > locals.tip.height
    · exact Or.inl (if_pos hgt)
    · exact Or.inr ⟨UInt32.not_lt.mp hgt, if_neg hgt⟩
  unfold StateStore.nextHeight at hloop ⊢
  cases hindexed : S.indexedHeight s with
  | none =>
      rw [hindexed] at hloop
      exact (hloop 1 rfl).imp_right Or.inr
  | some h =>
      rw [hindexed] at hloop
      dsimp only
      cases hadd : plainAdd32 P.overflowChecks h 1 with
      | error p => exact Or.inr (Or.inl ⟨p, rfl⟩)
      | ok next => exact (hloop next (plainAdd32_ok hadd)).imp_right Or.inr

/-- Asking for the next block keeps the store. -/
@[simp] theorem nextBlock_fst : (nextBlock S P stop locals s).1 = s := by
  rcases nextBlock_cases S P stop locals s with h | ⟨p, h⟩ | ⟨-, h⟩ <;> rw [h]
  rfl

/-- A tick that asks for the next block can be resumed. -/
theorem resumable_nextBlock : Resumable S config (nextBlock S P stop locals s) := by
  rcases nextBlock_cases S P stop locals s with h | ⟨p, h⟩ | ⟨hle, h⟩ <;> rw [h] <;>
    intro await hawait
  · cases hawait
  · cases hawait
  · obtain rfl := Option.some.inj hawait
    exact ⟨rfl, hle⟩

variable (S P) in
/-- What the loop does when its height does not wrap and it is not asked to stop. -/
theorem nextBlock_of_below (h : S.Below s (S.nextHeight s)) (locals : TickLocals) :
    nextBlock S P false locals s =
      if S.nextHeight s > locals.tip.height then finish S locals s
      else (s, .awaiting (.nextHash locals (S.nextHeight s))) := by
  unfold StateStore.nextHeight at h ⊢
  rw [nextBlock, if_neg Bool.false_ne_true]
  cases hindexed : S.indexedHeight s with
  | none => rfl
  | some top =>
      have hlt : top < top + 1 := by
        rw [hindexed] at h
        exact h top hindexed
      have hone : (1 : UInt32).toNat = 1 := rfl
      have hnat := UInt32.lt_iff_toNat_lt.mp hlt
      rw [UInt32.toNat_add, hone] at hnat
      have hadd := (plainAdd32_eq_ok P.overflowChecks (a := top) (b := 1) (by omega)).1
      dsimp only
      rw [hadd]
      rfl

variable (S P config stop locals s) in
/-- The fast-forward asks for the hash of its target, or is skipped. -/
theorem fastForward_cases :
    fastForward S P config stop locals s = nextBlock S P stop locals s ∨
      ∃ act, config.activationHeight = some act ∧ 1 < act ∧
        S.Below s (min (act - 1) locals.tip.height) ∧
        fastForward S P config stop locals s =
          (s, .awaiting (.targetHash locals (min (act - 1) locals.tip.height))) := by
  unfold fastForward
  cases hact : config.activationHeight with
  | none => exact Or.inl rfl
  | some act =>
      dsimp only
      by_cases hgt : act > 1
      · rw [if_pos hgt]
        by_cases hbelow : (S.indexedHeight s).all (· < min (act - 1) locals.tip.height) = true
        · refine Or.inr ⟨act, rfl, hgt, fun h hh => ?_, if_pos hbelow⟩
          rw [hh] at hbelow
          have hlt : h < min (act - 1) locals.tip.height := of_decide_eq_true hbelow
          exact hlt
        · exact Or.inl (if_neg hbelow)
      · exact Or.inl (if_neg hgt)

/-- Fast-forwarding keeps the store until the hash is there. -/
@[simp] theorem fastForward_fst : (fastForward S P config stop locals s).1 = s := by
  rcases fastForward_cases S P config stop locals s with h | ⟨act, -, -, -, h⟩ <;> rw [h]
  exact nextBlock_fst

/-- A tick that fast-forwards can be resumed. -/
theorem resumable_fastForward : Resumable S config (fastForward S P config stop locals s) := by
  rcases fastForward_cases S P config stop locals s with h | ⟨act, hact, hgt, hbelow, h⟩ <;> rw [h]
  · exact resumable_nextBlock
  · intro await hawait
    obtain rfl := Option.some.inj hawait
    have hmin := toNat_min32 (act - 1) locals.tip.height
    have hsub := UInt32.toNat_sub_of_le act 1 (UInt32.le_of_lt hgt)
    have hpos := UInt32.lt_iff_toNat_lt.mp hgt
    have hone : (1 : UInt32).toNat = 1 := rfl
    refine ⟨hbelow, ?_, UInt32.le_iff_toNat_le.mpr (by omega)⟩
    rw [IndexerConfig.belowActivation, hact]
    exact decide_eq_true (UInt32.lt_iff_toNat_lt.mpr (by omega))

variable (S P config stop locals s) in
/-- The reorg check asks for the canonical hash at the indexed height, or there is nothing to
check. -/
theorem handleReorg_cases :
    (S.indexedHeight s = none ∨ S.indexedBlockHash s = none) ∧
        handleReorg S P config stop locals s = fastForward S P config stop locals s ∨
      ∃ height ourHash, S.indexedHeight s = some height ∧ S.indexedBlockHash s = some ourHash ∧
        handleReorg S P config stop locals s =
          (s, .awaiting (.reorgHash locals height ourHash)) := by
  unfold handleReorg
  cases hheight : S.indexedHeight s with
  | none => exact Or.inl ⟨Or.inl rfl, rfl⟩
  | some height =>
      cases hhash : S.indexedBlockHash s with
      | none => exact Or.inl ⟨Or.inr rfl, rfl⟩
      | some ourHash => exact Or.inr ⟨height, ourHash, rfl, rfl, rfl⟩

/-- Looking for the fork keeps the store until it is found. -/
@[simp] theorem handleReorg_fst : (handleReorg S P config stop locals s).1 = s := by
  rcases handleReorg_cases S P config stop locals s with ⟨-, h⟩ | ⟨height, ourHash, -, -, h⟩ <;>
    rw [h]
  exact fastForward_fst

/-- A tick that looks for the fork can be resumed. -/
theorem resumable_handleReorg : Resumable S config (handleReorg S P config stop locals s) := by
  rcases handleReorg_cases S P config stop locals s with ⟨-, h⟩ |
    ⟨height, ourHash, hheight, hhash, h⟩ <;> rw [h]
  · exact resumable_fastForward
  · intro await hawait
    obtain rfl := Option.some.inj hawait
    exact ⟨hheight, hhash⟩

/-- A tick that is resumed with something true remembers something true at its next call. -/
theorem Await.Current.resume {await : Await} {source : ChainSource}
    (h : await.Current S config s) :
    Resumable S config (await.resume S P config stop source s) := by
  cases await with
  | tip indexedBefore => exact resumable_orReturn fun tip _ => resumable_handleReorg
  | reorgHash locals height ourHash =>
      refine resumable_orReturn fun canonical _ => ?_
      by_cases heq : canonical = ourHash
      · rw [if_pos heq]
        exact resumable_fastForward
      · rw [if_neg heq]
        exact resumable_orPanic fun target _ => resumable_orReturn fun _ _ => resumable_handleReorg
  | targetHash locals target =>
      exact resumable_orReturn fun hash _ => resumable_orReturn fun _ _ => resumable_nextBlock
  | nextHash locals nextHeight =>
      refine resumable_orReturn fun hash _ => ?_
      by_cases hbelow : config.belowActivation nextHeight = true
      · rw [if_pos hbelow]
        exact resumable_orPanic fun _ _ => resumable_orReturn fun _ _ => resumable_nextBlock
      · rw [if_neg hbelow]
        intro await hawait
        obtain rfl := Option.some.inj hawait
        exact ⟨h.1, h.2, Bool.eq_false_iff.mpr hbelow⟩
  | rawBlock locals nextHeight hash =>
      exact resumable_orReturn fun raw _ => resumable_orReturn fun parsed _ =>
        resumable_orPanic fun _ _ => resumable_orReturn fun _ _ => resumable_nextBlock

/-- **What a suspended tick remembers of the store stays true**, whatever the node does. -/
theorem SyncStep.resumable {chains : Set Chain} {x y : Sync σ} {event : SyncEvent}
    (h : SyncStep S P config chains x event y) (hx : Resumable S config (x.store, x.control)) :
    Resumable S config (y.store, y.control) := by
  cases h with
  | replace => exact hx
  | stop => exact hx
  | begin =>
      intro await hawait
      obtain rfl := Option.some.inj hawait
      rfl
  | call await hawait => exact (hx await hawait).resume
  | unreachable await e hawait => exact (hx await hawait).resume

/-- **The run lemma**: every state of a run can be resumed. -/
theorem SyncRun.resumable {chains : Set Chain} {cond : SyncEvent → Sync σ → Prop} {chain : Chain}
    {s₀ : σ} {x : Sync σ} (h : SyncRun S P config chains cond (.init chain s₀) x) :
    Resumable S config (x.store, x.control) := by
  induction h with
  | refl => exact fun await hawait => nomatch hawait
  | tail _ hstep ih =>
      obtain ⟨event, hstep, -⟩ := hstep
      exact hstep.resumable ih

/-- The reorg check passes. -/
theorem Await.resume_reorgHash_self {source : ChainSource} {height : BlockHeight}
    {ourHash : BlockHash} (h : source.blockHash height = .ok ourHash) :
    (Await.reorgHash locals height ourHash).resume S P config stop source s =
      fastForward S P config stop locals s := by
  rw [resume, h]
  simp only [transient, Except.mapError, orReturn, if_true]

/-- Nothing happens to the store when the node cannot be reached. -/
theorem Await.resume_unreachable (await : Await) (e : String) :
    ∃ message, await.resume S P config stop (.unreachable e) s =
      (s, .returned (.error (.transient message))) := by
  cases await <;> exact ⟨_, rfl⟩

end Local

end Zalkanes
