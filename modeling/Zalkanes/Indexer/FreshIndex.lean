import Zalkanes.Indexer.Sync
import Zalkanes.Lib.HashChain

/-!
# Fresh Indexes of a Chain

What indexing a chain from scratch leaves (`Chain.freshIndex`), and the lists of commits that come
from indexing it with gaps below the activation height (`Chain.Follows`), as the fast-forward
leaves them.

## Main results

* `Chain.Follows.freshIndex`: such commits leave what a fresh index up to the last one leaves.
* `Chain.Follows.congr`: they follow every chain that agrees up to the last one.
-/

namespace Zalkanes

open Lib

/-- The height of the last commit; 0 if there is none. -/
def lastLevel (cs : List BlockCommit) : ℕ := (cs.getLast?.map BlockCommit.level).getD 0

/-- The last commit has the last level. -/
@[simp] theorem lastLevel_append_singleton (cs : List BlockCommit) (c : BlockCommit) :
    lastLevel (cs ++ [c]) = c.level := by
  simp [lastLevel]

section Definitions

variable (P : Platform) (config : IndexerConfig) (chain : Chain)

/-- What the block of the chain at a height commits on a ledger. There is nothing if the block
does not parse or its processing panics. -/
def Chain.commitAt (l : Ledger) (height : BlockHeight) : Option BlockCommit :=
  chain.blocks[height.toNat]?.bind fun block =>
    if config.belowActivation height then some (.empty height block.hash)
    else
      (parseBlock P block.raw height block.hash config.network).toOption.bind fun parsed =>
        (blockCommit P config l.view parsed).toOption.join

/-- A fresh index of the chain up to a height: its blocks above the genesis block, one by one. -/
def Chain.freshIndex : ℕ → Option Ledger
  | 0 => some .empty
  | n + 1 =>
      (freshIndex n).bind fun l => (chain.commitAt P config l (UInt32.ofNat (n + 1))).map l.apply

/-- The commits come from indexing the chain: block by block, but for gaps below the activation
height. -/
inductive Chain.Follows : List BlockCommit → Prop
  | nil : Follows []
  | append {cs : List BlockCommit} {c : BlockCommit} (h : Follows cs)
      (hlt : ∀ d ∈ cs, d.level < c.level)
      (hc : chain.commitAt P config (ledgerOf cs) c.height = some c)
      (hnext : config.belowActivation c.height = true ∨ c.level = lastLevel cs + 1) :
      Follows (cs ++ [c])

end Definitions

section Lemmas

variable {P : Platform} {config : IndexerConfig} {chain chain' : Chain} {cs : List BlockCommit}

/-! ### Commits of a chain -/

/-- Lower heights are below activation too. -/
theorem belowActivation_mono {height height' : BlockHeight} (hle : height' ≤ height)
    (h : config.belowActivation height = true) : config.belowActivation height' = true := by
  unfold IndexerConfig.belowActivation at h ⊢
  cases hact : config.activationHeight with
  | none =>
      rw [hact] at h
      cases h
  | some act =>
      rw [hact] at h
      have hlt : height < act := of_decide_eq_true h
      exact decide_eq_true (UInt32.lt_of_le_of_lt hle hlt)

/-- The commit of a block of the chain: empty below the activation height, and what processing
the block makes from there on. -/
theorem Chain.commitAt_eq_some {l : Ledger} {height : BlockHeight} {c : BlockCommit}
    (h : chain.commitAt P config l height = some c) :
    ∃ block, chain.blocks[height.toNat]? = some block ∧ c.height = height ∧
      c.zcashBlockHash = block.hash ∧
      (config.belowActivation height = true ∧ c = .empty height block.hash ∨
        config.belowActivation height = false ∧
          ∃ parsed, parseBlock P block.raw height block.hash config.network = .ok parsed ∧
            blockCommit P config l.view parsed = .ok (some c)) := by
  obtain ⟨block, hblock, h⟩ := Option.bind_eq_some_iff.mp h
  refine ⟨block, hblock, ?_⟩
  by_cases hbelow : config.belowActivation height = true
  · rw [if_pos hbelow] at h
    obtain rfl := Option.some.inj h
    exact ⟨rfl, rfl, Or.inl ⟨hbelow, rfl⟩⟩
  · rw [if_neg hbelow] at h
    obtain ⟨parsed, hparsed, h⟩ := Option.bind_eq_some_iff.mp h
    cases hparse : parseBlock P block.raw height block.hash config.network with
    | error e =>
        rw [hparse] at hparsed
        cases hparsed
    | ok parsed' =>
        rw [hparse] at hparsed
        obtain rfl := Option.some.inj hparsed
        cases hcommit : blockCommit P config l.view parsed' with
        | error p =>
            rw [hcommit] at h
            cases h
        | ok commit =>
            rw [hcommit] at h
            obtain rfl : commit = some c := h
            obtain ⟨hheight, hhash⟩ := height_blockCommit hcommit
            obtain ⟨hheight', hhash'⟩ := parseBlock_eq_ok hparse
            exact ⟨hheight.trans hheight', hhash.trans hhash',
              Or.inr ⟨Bool.eq_false_iff.mpr hbelow, parsed', rfl, hcommit⟩⟩

/-- Below activation the commit is empty. -/
theorem Chain.commitAt_below {l : Ledger} {height : BlockHeight} {block : UpstreamBlock}
    (hblock : chain.blocks[height.toNat]? = some block)
    (hbelow : config.belowActivation height = true) :
    chain.commitAt P config l height = some (.empty height block.hash) := by
  rw [commitAt, hblock, Option.bind_some, if_pos hbelow]

/-- Else it is that of the block. -/
theorem Chain.commitAt_block {l : Ledger} {height : BlockHeight} {block : UpstreamBlock}
    {parsed : ParsedBlock} {c : BlockCommit} (hblock : chain.blocks[height.toNat]? = some block)
    (hbelow : config.belowActivation height = false)
    (hparse : parseBlock P block.raw height block.hash config.network = .ok parsed)
    (hc : blockCommit P config l.view parsed = .ok (some c)) :
    chain.commitAt P config l height = some c := by
  rw [commitAt, hblock, Option.bind_some, hbelow, if_neg Bool.false_ne_true, hparse]
  exact congrArg (fun r => r.toOption.join) hc

/-- Chains that agree up to a height commit the same at it. -/
theorem Chain.commitAt_congr {n : ℕ} (h : AgreeUpTo n chain.blocks chain'.blocks) (l : Ledger)
    {height : BlockHeight} (hle : height.toNat ≤ n) :
    chain'.commitAt P config l height = chain.commitAt P config l height := by
  rw [commitAt, commitAt, h.getElem?_eq hle]

/-! ### Following a chain -/

namespace Chain.Follows

/-- The commits of a chain are an index. -/
theorem indexed (h : chain.Follows P config cs) : Indexed P config cs := by
  induction h with
  | nil => exact .nil
  | append _ hlt hc _ ih =>
      obtain ⟨block, -, -, -, ⟨-, heq⟩ | ⟨-, parsed, -, hcommit⟩⟩ := commitAt_eq_some hc
      · rw [heq] at hlt ⊢
        exact ih.empty _ _ hlt
      · exact ih.block parsed hcommit hlt

/-- The commits have the hashes of the chain. -/
theorem hash_eq (h : chain.Follows P config cs) :
    ∀ c ∈ cs, ∃ block, chain.blocks[c.level]? = some block ∧ block.hash = c.zcashBlockHash := by
  induction h with
  | nil => simp
  | append _ _ hc _ ih =>
      intro d hd
      rcases List.mem_append.mp hd with hd | hd
      · exact ih d hd
      · obtain rfl := List.mem_singleton.mp hd
        obtain ⟨block, hblock, -, hhash, -⟩ := commitAt_eq_some hc
        exact ⟨block, hblock, hhash.symm⟩

/-- Commits that follow a chain end with one of its blocks. -/
theorem of_append_singleton {c : BlockCommit} (h : chain.Follows P config (cs ++ [c])) :
    chain.Follows P config cs ∧ (∀ d ∈ cs, d.level < c.level) ∧
      chain.commitAt P config (ledgerOf cs) c.height = some c := by
  generalize hes : cs ++ [c] = es at h
  cases h with
  | nil => simp at hes
  | append h hlt hc hnext =>
      obtain ⟨rfl, hlast⟩ := List.append_inj' hes rfl
      obtain rfl := List.singleton_injective hlast
      exact ⟨h, hlt, hc⟩

/-- The first of them follow it. -/
theorem of_append {ds : List BlockCommit} (h : chain.Follows P config (cs ++ ds)) :
    chain.Follows P config cs := by
  induction ds using List.reverseRecOn with
  | nil => rwa [List.append_nil] at h
  | append_singleton ds d ih =>
      rw [← List.append_assoc] at h
      exact ih h.of_append_singleton.1

/-- Rolling back leaves commits of the chain. -/
theorem commitsUpTo (h : chain.Follows P config cs) (t : BlockHeight) (hcs : Increasing cs) :
    chain.Follows P config (commitsUpTo t cs) := by
  obtain ⟨high, hsplit, -⟩ := hcs.exists_eq_append t
  exact of_append (hsplit ▸ h)

/-- **Following is a matter of the blocks up to the last commit.** -/
theorem congr (h : chain.Follows P config cs)
    (hagree : AgreeUpTo (lastLevel cs) chain.blocks chain'.blocks) :
    chain'.Follows P config cs := by
  induction h with
  | nil => exact .nil
  | @append cs c h hlt hc hnext ih =>
      rw [lastLevel_append_singleton] at hagree
      have hle : lastLevel cs ≤ c.level := by
        rcases List.eq_nil_or_concat cs with rfl | ⟨cs, d, rfl⟩
        · exact Nat.zero_le _
        · rw [List.concat_eq_append, lastLevel_append_singleton]
          exact (hlt d (by simp)).le
      exact (ih (hagree.mono hle)).append hlt ((commitAt_congr hagree _ le_rfl).trans hc) hnext

/-! ### Fresh indexes -/

/-- Below the activation height, nothing is there. -/
theorem ledgerOf_below (h : chain.Follows P config cs)
    (hbelow : ∀ c ∈ cs, config.belowActivation c.height = true) : ledgerOf cs = .empty := by
  induction h with
  | nil => rfl
  | append _ _ hc _ ih =>
      obtain ⟨block, -, -, -, ⟨-, heq⟩ | ⟨hfalse, -⟩⟩ := commitAt_eq_some hc
      · rw [ledgerOf_append_singleton, heq, Ledger.apply_empty]
        exact ih fun d hd => hbelow d (List.mem_append_left _ hd)
      · rw [hbelow _ (by simp)] at hfalse
        cases hfalse

end Chain.Follows

/-- A chain that can be indexed can be indexed up to any height below. -/
theorem Chain.isSome_freshIndex_of_le {m n : ℕ} (hle : m ≤ n)
    (h : (chain.freshIndex P config n).isSome) : (chain.freshIndex P config m).isSome := by
  induction n, hle using Nat.le_induction with
  | base => exact h
  | succ n _ ih =>
      refine ih ?_
      rw [freshIndex] at h
      obtain ⟨after, hafter⟩ := Option.isSome_iff_exists.mp h
      obtain ⟨l, hl, -⟩ := Option.bind_eq_some_iff.mp hafter
      exact Option.isSome_iff_exists.mpr ⟨l, hl⟩

/-- A fresh index up to a height below activation is empty. -/
theorem Chain.freshIndex_below {n : ℕ} (hn : n < chain.blocks.length)
    (hbelow : config.belowActivation (UInt32.ofNat n) = true) :
    chain.freshIndex P config n = some .empty := by
  induction n with
  | zero => rfl
  | succ n ih =>
      have hfits := chain.fits
      have hsize : UInt32.size = 2 ^ 32 := rfl
      have hnat : (UInt32.ofNat (n + 1)).toNat = n + 1 := UInt32.toNat_ofNat_of_lt' (by omega)
      have hnat' : (UInt32.ofNat n).toNat = n := UInt32.toNat_ofNat_of_lt' (by omega)
      have hle : UInt32.ofNat n ≤ UInt32.ofNat (n + 1) := by
        rw [UInt32.le_iff_toNat_le]
        omega
      have hblock : chain.blocks[(UInt32.ofNat (n + 1)).toNat]? = some chain.blocks[n + 1] := by
        rw [hnat]
        exact List.getElem?_eq_getElem hn
      rw [freshIndex, ih (by omega) (belowActivation_mono hle hbelow), Option.bind_some,
        commitAt_below hblock hbelow, Option.map_some, Ledger.apply_empty]

/-- **Commits that follow a chain leave what a fresh index leaves** up to the last of them. -/
theorem Chain.Follows.freshIndex (h : chain.Follows P config cs) :
    chain.freshIndex P config (lastLevel cs) = some (ledgerOf cs) := by
  induction h with
  | nil => rfl
  | @append cs c h hlt hc hnext ih =>
      obtain ⟨block, hblock, -, -, hcases⟩ := commitAt_eq_some hc
      have hlevel : UInt32.ofNat c.level = c.height := UInt32.ofNat_toNat
      rw [lastLevel_append_singleton, ledgerOf_append_singleton]
      by_cases hbelow : config.belowActivation c.height = true
      · -- all commits are empty
        have hempty : ledgerOf (cs ++ [c]) = .empty := by
          refine (h.append hlt hc hnext).ledgerOf_below fun d hd => ?_
          refine belowActivation_mono (UInt32.le_iff_toNat_le.mpr ?_) hbelow
          rcases List.mem_append.mp hd with hd | hd
          · exact (hlt d hd).le
          · rw [List.mem_singleton.mp hd]
        rw [← ledgerOf_append_singleton, hempty]
        refine freshIndex_below ?_ (hlevel ▸ hbelow)
        obtain ⟨hlength, -⟩ := List.getElem?_eq_some_iff.mp hblock
        exact hlength
      · have hsucc := hnext.resolve_left hbelow
        rw [hsucc] at hlevel ⊢
        rw [Chain.freshIndex, ih, Option.bind_some, hlevel, hc, Option.map_some]

end Lemmas

end Zalkanes
