import Zalkanes.Indexer.ReorgLoop

/-!
# The Catch-Up Loop

The last phase of a tick reads the indexed height back from the store, and indexes the next block as
long as there is one up to the tip. So the loop ends because every pass that goes on raises the
indexed height. A pass without an activation height goes on and commits nothing, and above the last
height there is the next height wraps to 0.

## Main results

* `catchUpPass_raises_iff`: which passes raise the indexed height.
* `catchesUp_of_raises`: the loop ends if every pass that goes on raises the indexed height.
* `catchesUp_iff`: exactly when the loop ends and each of its passes raises the indexed height.
-/

namespace Zalkanes

open Lib

section Loop

variable {σ : Type} (S : StateStore σ) (P : Platform) (config : IndexerConfig)

/-- The body of the loop for the next height, where the source answers its calls. -/
def catchUpBlock (source : ChainSource) (s : σ) (nextHeight : BlockHeight) : LoopPass σ :=
  match transient (source.blockHash nextHeight) "fetching canonical block hash" with
  | .error e => .failed s e
  | .ok hash =>
      if config.belowActivation nextHeight then
        match processZcashBlock S P config s nextHeight hash [] with
        | .error p => .panicked p
        | .ok (s, .error e) => .failed s (.fatal ("committing a pre-activation block: " ++ e))
        | .ok (s, .ok _) => .again s
      else
        match transient (source.rawBlock hash) "fetching raw block" with
        | .error e => .failed s e
        | .ok raw =>
            match transient (parseBlock P raw nextHeight hash config.network) "parsing block" with
            | .error e => .failed s e
            | .ok parsed =>
                match processParsedBlock S P config s parsed with
                | .error p => .panicked p
                | .ok (s, .error e) =>
                    .failed s (.fatal ("processing block against local state: " ++ e))
                | .ok (s, .ok _) => .again s

/-- One pass of the loop up to this tip, where the stop flag is not set. -/
def catchUpPass (source : ChainSource) (tip : BlockHeight) (s : σ) : LoopPass σ :=
  let next : Except Panic BlockHeight := match S.indexedHeight s with
    | none => .ok 1
    | some h => plainAdd32 P.overflowChecks h 1
  match next with
  | .error p => .panicked p
  | .ok nextHeight =>
      if nextHeight > tip then .done s else catchUpBlock S P config source s nextHeight

/-- The store after so many passes that went on; each of them has a source of its own. -/
inductive CatchUpPasses (sources : ℕ → ChainSource) (tip : BlockHeight) (s : σ) : ℕ → σ → Prop
  | zero : CatchUpPasses sources tip s 0 s
  | succ {n : ℕ} {s₁ s₂ : σ} (h : CatchUpPasses sources tip s n s₁)
      (hpass : catchUpPass S P config (sources n) tip s₁ = .again s₂) :
      CatchUpPasses sources tip s (n + 1) s₂

/-- The indexed height is raised. -/
def StateStore.Raises (s s' : σ) : Prop :=
  ∃ height, S.indexedHeight s' = some height ∧ ∀ h, S.indexedHeight s = some h → h < height

/-- The loop ends, and every pass that goes on raises the indexed height. -/
def CatchesUp (sources : ℕ → ChainSource) (tip : BlockHeight) (s : σ) : Prop :=
  (∃ n s₁, CatchUpPasses S P config sources tip s n s₁ ∧
      ∀ s₂, catchUpPass S P config (sources n) tip s₁ ≠ .again s₂) ∧
    ∀ n s₁ s₂, CatchUpPasses S P config sources tip s n s₁ →
      catchUpPass S P config (sources n) tip s₁ = .again s₂ → S.Raises s₁ s₂

/-- When the loop catches up: exactly where no pass goes on without an activation height, or from
the last height there is. With an activation height it is enough that neither the tip nor the store
is at that height. -/
structure CatchesUpIff : Prop where
  exact : ∀ sources tip s, CatchesUp S P config sources tip s ↔
    ∀ n s₁ s₂, CatchUpPasses S P config sources tip s n s₁ →
      catchUpPass S P config (sources n) tip s₁ = .again s₂ →
        config.activationHeight ≠ none ∧ S.indexedHeight s₁ ≠ some (2 ^ 32 - 1)
  activated : config.activationHeight ≠ none → ∀ sources (tip : BlockHeight) s,
    tip.toNat < 2 ^ 32 - 1 → S.indexedHeight s ≠ some (2 ^ 32 - 1) →
      CatchesUp S P config sources tip s

end Loop

/-! ### What a pass does -/

section Pass

variable {σ : Type} {S : StateStore σ} {P : Platform} {config : IndexerConfig}
  {source : ChainSource} {tip : BlockHeight} {s s' : σ}

/-- Processing a block leaves its height as the indexed one, or nothing at all without an activation
height. -/
theorem indexedHeight_processParsedBlock (hS : S.Committing P.hashing) (I : IndexLaws S)
    {parsed : ParsedBlock} {res : Except String BlockExecution}
    (h : processParsedBlock S P config s parsed = .ok (s', res)) :
    config.activationHeight = none ∧ s' = s ∨
      config.activationHeight ≠ none ∧ S.indexedHeight s' = some parsed.height := by
  rcases BlockInput.processParsedBlock_effect hS h with hnone | ⟨act, hact, hcases⟩
  · exact .inl hnone
  · refine .inr ⟨by rw [hact]; exact Option.some_ne_none act, ?_⟩
    rcases hcases with ⟨-, rfl⟩ | ⟨-, acc, hacc, rfl⟩
    · exact (I.commitBlock s _).1
    · rw [(I.saveExecutions _ _).1, (I.commitBlock s _).1, (commit_processTransactions hacc).1]

/-- A pass that goes on is the body of the loop for the next height. -/
theorem catchUpPass_eq_again (h : catchUpPass S P config source tip s = .again s') :
    S.nextHeight s ≤ tip ∧
      catchUpBlock S P config source s (S.nextHeight s) = .again s' := by
  have hnext : ∀ next : Except Panic BlockHeight,
      (∀ nextHeight, next = .ok nextHeight → nextHeight = S.nextHeight s) →
      (match next with
        | .error p => .panicked p
        | .ok nextHeight =>
            if nextHeight > tip then .done s
            else catchUpBlock S P config source s nextHeight) = LoopPass.again s' →
      S.nextHeight s ≤ tip ∧
        catchUpBlock S P config source s (S.nextHeight s) = .again s' := by
    intro next hnext hagain
    cases next with
    | error p => cases hagain
    | ok nextHeight =>
        obtain rfl := hnext nextHeight rfl
        dsimp only at hagain
        by_cases hgt : S.nextHeight s > tip
        · rw [if_pos hgt] at hagain
          cases hagain
        · rw [if_neg hgt] at hagain
          exact ⟨UInt32.not_lt.mp hgt, hagain⟩
  rw [catchUpPass] at h
  refine hnext _ (fun nextHeight heq => ?_) h
  rw [StateStore.nextHeight]
  cases hindexed : S.indexedHeight s with
  | none =>
      rw [hindexed] at heq
      exact (Except.ok.inj heq).symm
  | some top =>
      rw [hindexed] at heq
      exact plainAdd32_ok heq

/-- **A pass that goes on** commits the next block, or nothing without an activation height. -/
theorem indexedHeight_catchUpBlock (hS : S.Committing P.hashing) (I : IndexLaws S)
    {nextHeight : BlockHeight}
    (h : catchUpBlock S P config source s nextHeight = .again s') :
    config.activationHeight = none ∧ s' = s ∨
      config.activationHeight ≠ none ∧ S.indexedHeight s' = some nextHeight := by
  rw [catchUpBlock] at h
  cases hhash : transient (source.blockHash nextHeight) "fetching canonical block hash" with
  | error e =>
      rw [hhash] at h
      cases h
  | ok hash =>
      rw [hhash] at h
      dsimp only at h
      by_cases hbelow : config.belowActivation nextHeight = true
      · rw [if_pos hbelow, processZcashBlock_below hbelow] at h
        have hact : config.activationHeight ≠ none := by
          intro hnone
          rw [IndexerConfig.belowActivation, hnone] at hbelow
          cases hbelow
        have hfst : (commitEmptyBlock S s nextHeight hash).1 =
            (S.commitBlock s (.empty nextHeight hash)).1 := commitEmptyBlock_fst
        rcases hc : commitEmptyBlock S s nextHeight hash with ⟨s₁, e | block⟩
        · rw [hc] at h
          cases h
        · rw [hc] at h hfst
          obtain rfl := LoopPass.again.inj h
          refine .inr ⟨hact, ?_⟩
          change s₁ = _ at hfst
          rw [hfst]
          exact (I.commitBlock s _).1
      · rw [if_neg hbelow] at h
        cases hraw : transient (source.rawBlock hash) "fetching raw block" with
        | error e =>
            rw [hraw] at h
            cases h
        | ok raw =>
            rw [hraw] at h
            dsimp only at h
            cases hparse : transient (parseBlock P raw nextHeight hash config.network)
                "parsing block" with
            | error e =>
                rw [hparse] at h
                cases h
            | ok parsed =>
                rw [hparse] at h
                dsimp only at h
                cases hprocess : processParsedBlock S P config s parsed with
                | error p =>
                    rw [hprocess] at h
                    cases h
                | ok done =>
                    obtain ⟨s₁, e | block⟩ := done
                    · rw [hprocess] at h
                      cases h
                    · rw [hprocess] at h
                      obtain rfl := LoopPass.again.inj h
                      rw [← (parseBlock_eq_ok (transient_eq_ok hparse)).1]
                      exact indexedHeight_processParsedBlock hS I hprocess

/-- The next height is above the indexed one just where it does not wrap. -/
theorem below_nextHeight_iff :
    S.Below s (S.nextHeight s) ↔ S.indexedHeight s ≠ some (2 ^ 32 - 1) := by
  refine ⟨fun h hmax => ?_, below_nextHeight_of_ne⟩
  have hlt := h _ hmax
  rw [StateStore.nextHeight, hmax] at hlt
  exact absurd hlt (by decide)

/-- **Which passes raise the indexed height**: those with an activation height that are not made
from the last height there is. -/
theorem catchUpPass_raises_iff (hS : S.Committing P.hashing) (I : IndexLaws S)
    (h : catchUpPass S P config source tip s = .again s') :
    S.Raises s s' ↔
      config.activationHeight ≠ none ∧ S.indexedHeight s ≠ some (2 ^ 32 - 1) := by
  rcases indexedHeight_catchUpBlock hS I (catchUpPass_eq_again h).2 with
    ⟨hnone, rfl⟩ | ⟨hact, hheight⟩
  · refine ⟨fun ⟨height, hheight, hlt⟩ => ?_, fun hcond => absurd hnone hcond.1⟩
    exact absurd (hlt height hheight) (UInt32.lt_irrefl height)
  · rw [← below_nextHeight_iff]
    constructor
    · rintro ⟨height, hheight', hlt⟩
      obtain rfl := Option.some.inj (hheight.symm.trans hheight')
      exact ⟨hact, hlt⟩
    · exact fun hcond => ⟨_, hheight, hcond.2⟩

end Pass

/-! ### The loop -/

section Loop

variable {σ : Type} {S : StateStore σ} {P : Platform} {config : IndexerConfig}
  {sources : ℕ → ChainSource} {tip : BlockHeight} {s s' : σ} {n : ℕ}

/-- How far the store has got. -/
def StateStore.progress (S : StateStore σ) (s : σ) : ℕ :=
  (S.indexedHeight s).elim 0 fun h => h.toNat + 1

/-- There is an end to progress. -/
theorem StateStore.progress_le (S : StateStore σ) (s : σ) : S.progress s ≤ 2 ^ 32 := by
  rw [progress]
  cases S.indexedHeight s with
  | none => exact Nat.zero_le _
  | some h => exact h.toNat_lt

/-- Raising the store is progress. -/
theorem StateStore.Raises.progress_lt (h : S.Raises s s') : S.progress s < S.progress s' := by
  obtain ⟨height, hheight, hlt⟩ := h
  rw [progress, progress, hheight]
  cases hindexed : S.indexedHeight s with
  | none => exact Nat.succ_pos _
  | some top => exact Nat.succ_lt_succ (UInt32.lt_iff_toNat_lt.mp (hlt top hindexed))

/-- Passes that raise the indexed height are no more than there are heights. -/
theorem CatchUpPasses.le_progress
    (hraises : ∀ n s₁ s₂, CatchUpPasses S P config sources tip s n s₁ →
      catchUpPass S P config (sources n) tip s₁ = .again s₂ → S.Raises s₁ s₂)
    (h : CatchUpPasses S P config sources tip s n s') : n ≤ S.progress s' := by
  induction h with
  | zero => exact Nat.zero_le _
  | succ h hpass ih => exact ih.trans_lt (hraises _ _ _ h hpass).progress_lt

/-- **The loop ends if every pass that goes on raises the indexed height.** -/
theorem catchesUp_of_raises
    (hraises : ∀ n s₁ s₂, CatchUpPasses S P config sources tip s n s₁ →
      catchUpPass S P config (sources n) tip s₁ = .again s₂ → S.Raises s₁ s₂) :
    CatchesUp S P config sources tip s := by
  refine ⟨?_, hraises⟩
  by_contra hforever
  have hpasses : ∀ n, ∃ s₁, CatchUpPasses S P config sources tip s n s₁ := by
    intro n
    induction n with
    | zero => exact ⟨s, .zero⟩
    | succ n ih =>
        obtain ⟨s₁, h₁⟩ := ih
        by_contra hnone
        exact hforever ⟨n, s₁, h₁, fun s₂ hpass => hnone ⟨s₂, h₁.succ hpass⟩⟩
  obtain ⟨s₁, h₁⟩ := hpasses (2 ^ 32 + 1)
  have hle := (h₁.le_progress hraises).trans (S.progress_le s₁)
  omega

/-- A loop whose passes all go on with an activation height, and not from the last height there is,
catches up, and no other one. -/
theorem catchesUp_iff_passes (hS : S.Committing P.hashing) (I : IndexLaws S) :
    CatchesUp S P config sources tip s ↔
      ∀ n s₁ s₂, CatchUpPasses S P config sources tip s n s₁ →
        catchUpPass S P config (sources n) tip s₁ = .again s₂ →
          config.activationHeight ≠ none ∧ S.indexedHeight s₁ ≠ some (2 ^ 32 - 1) := by
  constructor
  · intro h n s₁ s₂ hpasses hpass
    exact (catchUpPass_raises_iff hS I hpass).mp (h.2 n s₁ s₂ hpasses hpass)
  · intro h
    exact catchesUp_of_raises fun n s₁ s₂ hpasses hpass =>
      (catchUpPass_raises_iff hS I hpass).mpr (h n s₁ s₂ hpasses hpass)

/-- With an activation height, no pass starts from a height above the tip but the first one. -/
theorem CatchUpPasses.indexedHeight_ne (hS : S.Committing P.hashing) (I : IndexLaws S)
    (hact : config.activationHeight ≠ none) (htip : tip.toNat < 2 ^ 32 - 1)
    (hs : S.indexedHeight s ≠ some (2 ^ 32 - 1)) (h : CatchUpPasses S P config sources tip s n s') :
    S.indexedHeight s' ≠ some (2 ^ 32 - 1) := by
  cases h with
  | zero => exact hs
  | succ h hpass =>
      obtain ⟨hle, hblock⟩ := catchUpPass_eq_again hpass
      rcases indexedHeight_catchUpBlock hS I hblock with ⟨hnone, -⟩ | ⟨-, hheight⟩
      · exact absurd hnone hact
      · rw [hheight]
        intro hmax
        rw [Option.some.inj hmax, UInt32.le_iff_toNat_le] at hle
        exact absurd hle (Nat.not_le.mpr htip)

/-- When the loop catches up, for every store under the laws. -/
theorem StateStore.Committing.catchesUpIff (hS : S.Committing P.hashing) (I : IndexLaws S) :
    CatchesUpIff S P config where
  exact _ _ _ := catchesUp_iff_passes hS I
  activated hact _ _ _ htip hs := (catchesUp_iff_passes hS I).mpr fun _ _ _ hpasses _ =>
    ⟨hact, hpasses.indexedHeight_ne hS I hact htip hs⟩

end Loop

/-! ### The loop inside a tick -/

section Tick

variable {σ : Type} (S : StateStore σ) (P : Platform) (config : IndexerConfig)

/-- One call of a tick which the source answers, without a stop request. -/
def AnsweredStep (source : ChainSource) (r r' : σ × Control) : Prop :=
  ∃ await, r.2 = .awaiting await ∧ r' = await.resume S P config false source r.1

/-- What a tick gets to after a pass on this store. -/
def LoopPass.control (locals : TickLocals) (s : σ) : LoopPass σ → σ × Control
  | .done s' => finish S locals s'
  | .again s' => nextBlock S P false locals s'
  | .failed s' e => (s', .returned (.error e))
  | .panicked p => (s, .panicked p)

/-- From the first call of the loop's body, a tick gets to where the body ends. -/
theorem reaches_catchUpBlock (source : ChainSource) (locals : TickLocals) (s : σ)
    (nextHeight : BlockHeight) :
    Relation.ReflTransGen (AnsweredStep S P config source)
      (s, .awaiting (.nextHash locals nextHeight))
      ((catchUpBlock S P config source s nextHeight).control S P locals s) := by
  refine .head ⟨_, rfl, rfl⟩ ?_
  rw [Await.resume, catchUpBlock]
  cases transient (source.blockHash nextHeight) "fetching canonical block hash" with
  | error e => exact .refl
  | ok hash =>
      dsimp only [orReturn]
      by_cases hbelow : config.belowActivation nextHeight = true
      · rw [if_pos hbelow, if_pos hbelow]
        cases processZcashBlock S P config s nextHeight hash [] with
        | error p => exact .refl
        | ok done =>
            obtain ⟨s', e | block⟩ := done
            · exact .refl
            · exact .refl
      · rw [if_neg hbelow, if_neg hbelow]
        refine .head ⟨_, rfl, rfl⟩ ?_
        rw [Await.resume]
        cases transient (source.rawBlock hash) "fetching raw block" with
        | error e => exact .refl
        | ok raw =>
            dsimp only [orReturn]
            cases transient (parseBlock P raw nextHeight hash config.network)
                "parsing block" with
            | error e => exact .refl
            | ok parsed =>
                dsimp only
                cases processParsedBlock S P config s parsed with
                | error p => exact .refl
                | ok done =>
                    obtain ⟨s', e | block⟩ := done
                    · exact .refl
                    · exact .refl

/-- **A tick goes through the passes of the loop.** -/
theorem reaches_catchUpPass (source : ChainSource) (locals : TickLocals) (s : σ) :
    Relation.ReflTransGen (AnsweredStep S P config source) (nextBlock S P false locals s)
      ((catchUpPass S P config source locals.tip.height s).control S P locals s) := by
  have hhead : ∀ nextHeight : BlockHeight, Relation.ReflTransGen (AnsweredStep S P config source)
      (if nextHeight > locals.tip.height then finish S locals s
        else (s, .awaiting (.nextHash locals nextHeight)))
      ((if nextHeight > locals.tip.height then .done s
        else catchUpBlock S P config source s nextHeight).control S P locals s) := by
    intro nextHeight
    by_cases hgt : nextHeight > locals.tip.height
    · rw [if_pos hgt, if_pos hgt]
      exact .refl
    · rw [if_neg hgt, if_neg hgt]
      exact reaches_catchUpBlock S P config source locals s nextHeight
  rw [nextBlock, if_neg Bool.false_ne_true, catchUpPass]
  cases S.indexedHeight s with
  | none => exact hhead 1
  | some h =>
      dsimp only
      cases plainAdd32 P.overflowChecks h 1 with
      | error p => exact .refl
      | ok nextHeight => exact hhead nextHeight

end Tick

/-- **When the catch-up loop makes progress**, on both backends and in every configuration. -/
theorem catchesUp_iff (P : Platform) (config : IndexerConfig) :
    CatchesUpIff (MemoryState.store P.hashing) P config ∧
      CatchesUpIff (RocksState.store P.hashing P.json) P config :=
  ⟨(MemoryState.committing _).catchesUpIff (MemoryState.indexLaws _),
    (RocksState.committing _ _).catchesUpIff (RocksState.indexLaws _)⟩

/-! ### Mainnet -/

/-- Mainnet, which has no activation height. -/
def mainnetConfig : IndexerConfig := ⟨.mainnet, none⟩

/-- A node that decodes every raw block as an empty one of height 1. -/
def emptyBlockPlatform (H : Hashing) (json : Execution → Except String Bytes) : Platform :=
  { registerPlatform H json with readBlock := fun _ _ => .ok ⟨1, []⟩ }

/-- A source whose calls all succeed. -/
def servingSource : ChainSource where
  tip := .ok ⟨1, .replicate 1⟩
  blockHash _ := .ok (.replicate 1)
  rawBlock _ := .ok []

/-- Without an activation height, a pass on the empty store goes on from the same store. -/
theorem catchUpPass_mainnet {σ : Type} (S : StateStore σ) (H : Hashing)
    (json : Execution → Except String Bytes) {s : σ} (hs : S.indexedHeight s = none) :
    catchUpPass S (emptyBlockPlatform H json) mainnetConfig servingSource 1 s = .again s := by
  rw [catchUpPass, hs]
  rfl

/-- So the passes never end. -/
theorem passes_mainnet {σ : Type} (S : StateStore σ) (H : Hashing)
    (json : Execution → Except String Bytes) {s : σ} (hs : S.indexedHeight s = none) (n : ℕ) :
    CatchUpPasses S (emptyBlockPlatform H json) mainnetConfig (fun _ => servingSource) 1 s n s := by
  induction n with
  | zero => exact .zero
  | succ n ih => exact ih.succ (catchUpPass_mainnet S H json hs)

/-- **Mainnet spins on its first block**: every pass goes on and the indexed height stays. -/
theorem not_catchesUp_mainnet :
    let P := emptyBlockPlatform lengthHashing fun _ => .ok []
    ((∀ n, CatchUpPasses (MemoryState.store P.hashing) P mainnetConfig (fun _ => servingSource) 1
          MemoryState.new n MemoryState.new) ∧
        ¬ CatchesUp (MemoryState.store P.hashing) P mainnetConfig (fun _ => servingSource) 1
          MemoryState.new) ∧
      (∀ n, CatchUpPasses (RocksState.store P.hashing P.json) P mainnetConfig
          (fun _ => servingSource) 1 RocksState.fresh n RocksState.fresh) ∧
        ¬ CatchesUp (RocksState.store P.hashing P.json) P mainnetConfig (fun _ => servingSource) 1
          RocksState.fresh := by
  generalize lengthHashing = H
  generalize (fun _ => .ok [] : Execution → Except String Bytes) = json
  intro P
  have hspins : ∀ {σ : Type} (S : StateStore σ) (s : σ), S.indexedHeight s = none →
      ¬ CatchesUp S (emptyBlockPlatform H json) mainnetConfig (fun _ => servingSource) 1 s := by
    intro σ S s hs hcatches
    obtain ⟨height, hheight, -⟩ := hcatches.2 0 s s .zero (catchUpPass_mainnet S H json hs)
    rw [hs] at hheight
    cases hheight
  have hnone : (RocksState.store H json).indexedHeight RocksState.fresh = none :=
    (RocksState.lawful H json).indexedHeight (RocksState.AgreesOff.refl _ _) .nil
  exact ⟨⟨passes_mainnet _ H json rfl, hspins _ _ rfl⟩,
    passes_mainnet _ H json hnone, hspins _ _ hnone⟩

end Zalkanes
