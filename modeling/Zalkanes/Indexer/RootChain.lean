import Zalkanes.State.Commitment
import Zalkanes.Indexer.Records

/-!
# The Roots of Execution Records

A record names the root before its call and the root after it. The root after is that of the store
with everything that is pending in the block; the root before is that of the store before the
block, whatever is pending. So the roots of the records of a block chain exactly as long as what is
pending before each call changes nothing in the state.

A commit that is pending is not kept by the code; `CallTimeline` follows a block and notes it down
for each call.

## Main results

* `CallTimeline.facts`: what the records of a block hold, and how their commits follow each other.
* `rootsChain_iff`: exactly when the roots of the records of a block chain.
-/

namespace Zalkanes

open Lib

/-- An executed call: what was pending before it, what it returned, and its record. -/
structure CallRecord where
  pending : BlockCommit
  result : CallResult
  execution : Execution

/-- What is pending after the call. -/
def CallRecord.leaves (x : CallRecord) : BlockCommit :=
  x.result.writes.foldl applyStorageWrite x.pending

/-- What processing a block goes through, and the calls that it has executed. -/
inductive CallTimeline (P : Platform) (config : IndexerConfig) (store : StateView)
    (txs : List ParsedTransaction) (acc₀ : BlockAcc) : BlockAcc → List CallRecord → Prop
  | start : CallTimeline P config store txs acc₀ acc₀ []
  | limits {acc : BlockAcc} {calls : List CallRecord}
      (h : CallTimeline P config store txs acc₀ acc calls) (limits : BlockLimits) :
      CallTimeline P config store txs acc₀ { acc with limits := limits } calls
  | deploy {acc : BlockAcc} {calls : List CallRecord}
      (h : CallTimeline P config store txs acc₀ acc calls) {tx : ParsedTransaction} (htx : tx ∈ txs)
      (deploy : DeployMessage) (hcarries : tx.Carries deploy.outputIndex (.deploy deploy)) :
      CallTimeline P config store txs acc₀ (handleDeploy P config store acc tx deploy) calls
  | call {acc : TxAcc} {calls : List CallRecord}
      (h : CallTimeline P config store txs acc₀ acc.block calls) {tx : ParsedTransaction}
      (htx : tx ∈ txs) (contractId : ContractId) (opcode : UInt16) (input : Bytes)
      {result : CallResult} {e : Execution}
      (hexec : execute P.engine P.overflowChecks (callContext acc tx contractId opcode input)
        store = .ok result)
      (he : (recordCall P store acc (callContext acc tx contractId opcode input)
        result).block.executions = acc.block.executions ++ [e]) :
      CallTimeline P config store txs acc₀
        (recordCall P store acc (callContext acc tx contractId opcode input) result).block
        (calls ++ [⟨acc.block.commit, result, e⟩])

section Roots

variable (H : Hashing) (store : StateView)

/-- The second record starts where the first one ended, up to the deploys accepted in between. -/
structure CallRecord.Follows (x y : CallRecord) : Prop where
  before : y.execution.stateRootBefore =
    projectedRoot H store { x.leaves with deploys := y.pending.deploys }
  chained : y.pending.deploys = x.pending.deploys →
    y.execution.stateRootBefore = x.execution.stateRootAfter

/-- The roots of the records chain, from the state before the block to the block's final root. -/
structure RootsChain (calls : List CallRecord) (deploys : List (ContractId × CodeHash × Bytes))
    (final : StateRoot) : Prop where
  first : ∀ x ∈ calls.head?, x.execution.stateRootBefore =
    projectedRoot H store { x.pending with upserts := [], deletes := [] }
  next : calls.IsChain (CallRecord.Follows H store)
  failed : ∀ x ∈ calls, x.execution.success = false →
    x.execution.stateRootAfter = x.execution.stateRootBefore
  last : ∀ x ∈ calls.getLast?, deploys = x.pending.deploys → x.execution.stateRootAfter = final

/-- Whatever is pending before a call leaves the entries of the state as they were before the
block, as they are encoded for the leaves. -/
def EntriesKept (calls : List CallRecord) : Prop :=
  ∀ x ∈ calls, (store.ledger.apply x.pending).leafInputs.Perm store.ledger.leafInputs

/-- The hash functions do not collide on the states of the block. -/
def NoCollision (calls : List CallRecord) : Prop :=
  ∀ x ∈ calls, CollisionFree H store (store.ledger.apply x.pending).view

end Roots

/-! ### What a timeline holds -/

section Facts

variable {P : Platform} {config : IndexerConfig} {store : StateView}
  {txs : List ParsedTransaction} {acc₀ acc : BlockAcc} {calls : List CallRecord}

/-- The roots of a record: of the store before the block, and of what is pending after the call. -/
structure CallRecord.Recorded (H : Hashing) (store : StateView) (x : CallRecord) : Prop where
  before : x.execution.stateRootBefore = computeRoot H store
  after : x.execution.stateRootAfter = projectedRoot H store x.leaves
  failed : x.execution.success = false → x.leaves = x.pending

/-- How the records of a block and their commits follow each other. -/
structure CallTimeline.Facts (H : Hashing) (store : StateView) (commit : BlockCommit)
    (calls : List CallRecord) : Prop where
  recorded : ∀ x ∈ calls, x.Recorded H store
  first : ∀ x ∈ calls.head?, x.pending.upserts = [] ∧ x.pending.deletes = []
  next : calls.IsChain fun x y => y.pending = { x.leaves with deploys := y.pending.deploys }
  deploys : ∀ x ∈ calls, x.pending.deploys <+: commit.deploys
  last : ∀ x ∈ calls.getLast?, commit = { x.leaves with deploys := commit.deploys }
  none : calls = [] → commit.upserts = [] ∧ commit.deletes = []

/-- Two commits that differ in their deploys at most. -/
theorem eq_with_deploys_iff {c d : BlockCommit} : c = { d with deploys := c.deploys } ↔
    c.height = d.height ∧ c.zcashBlockHash = d.zcashBlockHash ∧ c.upserts = d.upserts ∧
      c.deletes = d.deletes := by
  obtain ⟨height, hash, deploys, upserts, deletes⟩ := c
  simp

/-- A call that is recorded has the roots before and after it. -/
theorem recorded_recordCall {acc : TxAcc} {ctx : CallContext} {result : CallResult}
    {e : Execution}
    (he : (recordCall P store acc ctx result).block.executions = acc.block.executions ++ [e]) :
    CallRecord.Recorded P.hashing store ⟨acc.block.commit, result, e⟩ := by
  obtain rfl := List.singleton_inj.mp (List.append_cancel_left he)
  refine ⟨rfl, ?_, fun hfailed => ?_⟩
  · rw [CallRecord.leaves, ← parts_writes]
    rfl
  · cases result with
    | success output fuelUsed writes => cases hfailed
    | _ => rfl

/-- **What the records of a block hold.** -/
theorem CallTimeline.facts (h : CallTimeline P config store txs acc₀ acc calls)
    (h₀ : acc₀.commit.upserts = [] ∧ acc₀.commit.deletes = []) :
    CallTimeline.Facts P.hashing store acc.commit calls := by
  induction h with
  | start =>
      exact ⟨fun x hx => (nomatch hx), fun x hx => (nomatch hx), .nil, fun x hx => (nomatch hx),
        fun x hx => (nomatch hx), fun _ => h₀⟩
  | limits _ limits ih => exact ih
  | @deploy acc calls _ tx htx deploy hcarries ih =>
      obtain ⟨hheight, hhash, hupserts, hdeletes, -⟩ :=
        handleDeploy_frame P config store acc tx deploy
      refine ⟨ih.recorded, ih.first, ih.next, fun x hx => (ih.deploys x hx).trans ?_,
        fun x hx => ?_, fun hnil => ?_⟩
      · rcases handleDeploy_cases P config store acc tx deploy with heq | ⟨wasm, -, -, -, heq⟩
        · rw [heq]
        · rw [heq]
          exact List.prefix_append _ _
      · obtain ⟨hx₁, hx₂, hx₃, hx₄⟩ := eq_with_deploys_iff.mp (ih.last x hx)
        exact eq_with_deploys_iff.mpr ⟨hheight.trans hx₁, hhash.trans hx₂, hupserts.trans hx₃,
          hdeletes.trans hx₄⟩
      · obtain ⟨hx₁, hx₂⟩ := ih.none hnil
        exact ⟨hupserts.trans hx₁, hdeletes.trans hx₂⟩
  | @call acc calls _ tx htx contractId opcode input result e hexec he ih =>
      have hnew := recorded_recordCall he
      have hdeploys : (recordCall P store acc (callContext acc tx contractId opcode input)
          result).block.commit.deploys = acc.block.commit.deploys := by
        rw [recordCall_commit, foldl_applyStorageWrite]
      refine ⟨fun x hx => ?_, fun x hx => ?_, ?_, fun x hx => ?_, fun x hx => ?_, fun hnil => ?_⟩
      · rcases List.mem_append.mp hx with hx | hx
        · exact ih.recorded x hx
        · rw [List.mem_singleton.mp hx]
          exact hnew
      · cases calls with
        | nil =>
            obtain rfl := Option.some.inj hx
            exact ih.none rfl
        | cons y ys => exact ih.first x hx
      · refine List.isChain_append.mpr ⟨ih.next, .singleton _, fun x hx y hy => ?_⟩
        obtain rfl := Option.some.inj hy
        exact ih.last x hx
      · rw [hdeploys]
        rcases List.mem_append.mp hx with hx | hx
        · exact ih.deploys x hx
        · rw [List.mem_singleton.mp hx]
      · rw [List.getLast?_concat] at hx
        obtain rfl := Option.some.inj hx
        rw [recordCall_commit]
        rfl
      · exact absurd hnil (List.append_ne_nil_of_right_ne_nil _ (List.cons_ne_nil _ _))

/-- A chain of changes has a timeline. -/
theorem exists_timeline (h : BlockAcc.Effects P config store txs acc₀ acc) :
    ∃ calls, CallTimeline P config store txs acc₀ acc calls := by
  induction h with
  | refl => exact ⟨[], .start⟩
  | tail _ hlast ih =>
      obtain ⟨calls, hcalls⟩ := ih
      obtain ⟨tx, htx, heff⟩ := hlast
      cases heff with
      | limits _ limits => exact ⟨calls, hcalls.limits limits⟩
      | deploy _ deploy hcarries => exact ⟨calls, hcalls.deploy htx deploy hcarries⟩
      | call acc contractId opcode input result hexec =>
          exact ⟨_, hcalls.call htx contractId opcode input hexec rfl⟩

/-- The records of a timeline are those that the block keeps. -/
theorem CallTimeline.executions_eq (h : CallTimeline P config store txs acc₀ acc calls)
    (h₀ : acc₀.executions = []) : calls.map CallRecord.execution = acc.executions := by
  induction h with
  | start => exact h₀.symm
  | limits _ limits ih => exact ih
  | @deploy acc calls _ tx htx deploy hcarries ih =>
      rcases handleDeploy_cases P config store acc tx deploy with heq | ⟨wasm, -, -, -, heq⟩
      · rw [heq]
        exact ih
      · rw [heq]
        exact ih
  | call _ htx contractId opcode input hexec he ih =>
      rw [List.map_append, ih, he]
      rfl

/-- The calls of a block are its results. -/
theorem CallTimeline.results_eq (h : CallTimeline P config store txs acc₀ acc calls)
    (h₀ : acc₀.results = []) : calls.map CallRecord.result = acc.results.map Prod.snd := by
  induction h with
  | start => rw [h₀, List.map_nil, List.map_nil]
  | limits _ limits ih => exact ih
  | @deploy acc calls _ tx htx deploy hcarries ih =>
      obtain ⟨-, -, -, -, hresults⟩ := handleDeploy_frame P config store acc tx deploy
      rw [hresults]
      exact ih
  | call _ htx contractId opcode input hexec he ih =>
      rw [List.map_append, ih, recordCall_results, List.map_append]
      rfl

end Facts

/-! ### When the roots chain -/

section Chains

variable {H : Hashing} {store : StateView} {commit : BlockCommit} {calls : List CallRecord}

/-- What holds of the first element, and of every element that follows another one. -/
theorem forall_of_isChain {α : Type} {p : α → Prop} {xs : List α} (hfirst : ∀ x ∈ xs.head?, p x)
    (hnext : xs.IsChain fun _ y => p y) : ∀ x ∈ xs, p x := by
  induction xs with
  | nil => exact fun x hx => (nomatch hx)
  | cons x xs ih =>
      refine List.forall_mem_cons.mpr ⟨hfirst x rfl, ih (fun y hy => ?_) hnext.tail⟩
      cases xs with
      | nil => cases hy
      | cons z zs =>
          obtain rfl := Option.some.inj hy
          exact (List.isChain_cons_cons.mp hnext).1

/-- The roots of the records chain exactly if nothing that is pending before a call changes the
root. -/
theorem CallTimeline.Facts.rootsChain_iff_roots (h : CallTimeline.Facts H store commit calls) :
    RootsChain H store calls commit.deploys (projectedRoot H store commit) ↔
      ∀ x ∈ calls, computeRoot H store = projectedRoot H store x.pending := by
  -- the commits that the claims about the first record and about the next one project
  have hfirst : ∀ x ∈ calls.head?, { x.pending with upserts := [], deletes := [] } = x.pending := by
    intro x hx
    obtain ⟨hupserts, hdeletes⟩ := h.first x hx
    rw [← hupserts, ← hdeletes]
  have hmemHead : ∀ x ∈ calls.head?, x ∈ calls := fun x hx => List.mem_of_mem_head? hx
  constructor
  · intro hchain
    refine forall_of_isChain (fun x hx => ?_) ?_
    · rw [← (h.recorded x (hmemHead x hx)).before, hchain.first x hx, hfirst x hx]
    · refine List.isChain_iff_getElem.mpr fun i hi => ?_
      have hfollows := List.isChain_iff_getElem.mp hchain.next i hi
      have hpending := List.isChain_iff_getElem.mp h.next i hi
      rw [← (h.recorded _ (List.getElem_mem hi)).before, hfollows.before, ← hpending]
  · intro hroots
    refine ⟨fun x hx => ?_, ?_, fun x hx hfailed => ?_, fun x hx hdeploys => ?_⟩
    · rw [hfirst x hx, (h.recorded x (hmemHead x hx)).before, hroots x (hmemHead x hx)]
    · refine h.next.imp_of_mem_imp fun x y hx hy hpending => ?_
      have hbefore : y.execution.stateRootBefore =
          projectedRoot H store { x.leaves with deploys := y.pending.deploys } := by
        rw [← hpending, (h.recorded y hy).before, hroots y hy]
      refine ⟨hbefore, fun hdeploys => ?_⟩
      have hsame : x.leaves.deploys = x.pending.deploys := by
        rw [CallRecord.leaves, foldl_applyStorageWrite]
      rw [hbefore, (h.recorded x hx).after, hdeploys, ← hsame]
    · rw [(h.recorded x hx).after, (h.recorded x hx).failed hfailed, (h.recorded x hx).before,
        hroots x hx]
    · have hsame : x.leaves.deploys = x.pending.deploys := by
        rw [CallRecord.leaves, foldl_applyStorageWrite]
      rw [(h.recorded x (List.mem_of_mem_getLast? hx)).after, h.last x hx, hdeploys, ← hsame]

end Chains

/-! ### Blocks -/

/-- The calls that processing a block executes, each with what was pending before it, and the commit
of the block. -/
inductive BlockCalls (P : Platform) (config : IndexerConfig) (store : StateView)
    (parsed : ParsedBlock) : BlockCommit → List CallRecord → Prop
  | uninterpreted
      (h : ∀ activation, config.activationHeight = some activation → parsed.height < activation) :
      BlockCalls P config store parsed (.empty parsed.height parsed.hash) []
  | interpreted {activation : BlockHeight} {acc : BlockAcc} {calls : List CallRecord}
      (hact : config.activationHeight = some activation) (hge : ¬ parsed.height < activation)
      (hacc : processTransactions P config store parsed = .ok acc)
      (h : CallTimeline P config store parsed.transactions (.init parsed.height parsed.hash) acc
        calls) : BlockCalls P config store parsed acc.commit calls

/-- The roots of the records of a block chain where the entries of the state are kept, and nowhere
else unless the hash functions collide. -/
def ChainWhenKept (P : Platform) (config : IndexerConfig) (store : StateView)
    (parsed : ParsedBlock) (be : BlockExecution) : Prop :=
  (∃ commit calls, BlockCalls P config store parsed commit calls) ∧
  ∀ commit calls, BlockCalls P config store parsed commit calls →
    calls.map CallRecord.execution = be.executions ∧
    (EntriesKept store calls →
      RootsChain P.hashing store calls commit.deploys be.stateRootAfter) ∧
    (NoCollision P.hashing store calls →
      RootsChain P.hashing store calls commit.deploys be.stateRootAfter → EntriesKept store calls)

section Blocks

variable {σ : Type} {S : StateStore σ} {P : Platform} {config : IndexerConfig} {s s' : σ}
  {parsed : ParsedBlock} {be : BlockExecution} {store : StateView} {commit : BlockCommit}
  {calls : List CallRecord}

/-- The calls of a block are in order. -/
theorem BlockCalls.facts (h : BlockCalls P config store parsed commit calls) :
    CallTimeline.Facts P.hashing store commit calls := by
  cases h with
  | uninterpreted =>
      have hstart : CallTimeline P config store [] (.init parsed.height parsed.hash)
          (.init parsed.height parsed.hash) [] := .start
      exact hstart.facts ⟨rfl, rfl⟩
  | interpreted _ _ _ h => exact h.facts ⟨rfl, rfl⟩

/-- The calls of a block and its commit are those of its result. -/
theorem processParsedBlock_calls (hS : S.Committing P.hashing)
    (h : processParsedBlock S P config s parsed = .ok (s', .ok be)) :
    (∃ commit calls, BlockCalls P config (S.view s) parsed commit calls) ∧
    ∀ commit calls, BlockCalls P config (S.view s) parsed commit calls →
      calls.map CallRecord.execution = be.executions ∧
      (calls ≠ [] → be.stateRootAfter = projectedRoot P.hashing (S.view s) commit) := by
  unfold processParsedBlock at h
  cases hact : config.activationHeight with
  | none =>
      rw [hact] at h
      obtain rfl := Except.ok.inj (Prod.mk.inj (Except.ok.inj h)).2
      refine ⟨⟨_, _, .uninterpreted fun activation hsome => ?_⟩, fun commit calls hcalls => ?_⟩
      · rw [hact] at hsome
        cases hsome
      · cases hcalls with
        | uninterpreted => exact ⟨rfl, absurd rfl⟩
        | interpreted hact' =>
            rw [hact] at hact'
            cases hact'
  | some activation =>
      rw [hact] at h
      dsimp only at h
      by_cases hlt : parsed.height < activation
      · rw [if_pos hlt] at h
        have hnone : be.executions = [] := by
          rw [commitEmptyBlock] at h
          rcases hc : S.commitBlock s (.empty parsed.height parsed.hash) with ⟨s₁, e | root⟩
          · rw [hc] at h
            cases h
          · rw [hc] at h
            obtain rfl := Except.ok.inj (Prod.mk.inj (Except.ok.inj h)).2
            rfl
        refine ⟨⟨_, _, .uninterpreted fun activation' hsome => ?_⟩, fun commit calls hcalls => ?_⟩
        · rwa [← Option.some.inj (hact.symm.trans hsome)]
        · cases hcalls with
          | uninterpreted => exact ⟨hnone.symm, absurd rfl⟩
          | interpreted hact' hge =>
              obtain rfl := Option.some.inj (hact.symm.trans hact')
              exact absurd hlt hge
      · rw [if_neg hlt] at h
        obtain ⟨acc, hacc, h⟩ := bind_eq_ok h
        have hroot := (hS.commitBlock s acc.commit).2
        rcases hc : S.commitBlock s acc.commit with ⟨s₁, r₁⟩
        rw [hc] at hroot h
        obtain rfl : r₁ = _ := hroot
        dsimp only at h
        rcases hsave : S.saveExecutions s₁ acc.executions with ⟨s₂, e | u⟩
        · rw [hsave] at h
          cases h
        rw [hsave] at h
        obtain rfl := Except.ok.inj (Prod.mk.inj (Except.ok.inj h)).2
        obtain ⟨calls, hcalls⟩ := exists_timeline (processTransactions_effects hacc)
        refine ⟨⟨_, calls, .interpreted hact hlt hacc hcalls⟩, fun commit calls hcalls => ?_⟩
        cases hcalls with
        | uninterpreted hbelow => exact absurd (hbelow activation hact) hlt
        | interpreted _ _ hacc' htimeline =>
            obtain rfl := Except.ok.inj (hacc.symm.trans hacc')
            exact ⟨htimeline.executions_eq rfl, fun _ => (projectedRoot_eq _ _ _).symm⟩

/-- What is pending keeps the root where it keeps the entries. -/
theorem root_eq_of_perm (H : Hashing) (hs : store.Sorted)
    (h : (store.ledger.apply commit).leafInputs.Perm store.ledger.leafInputs) :
    computeRoot H store = projectedRoot H store commit := by
  rw [projectedRoot_eq]
  refine congrArg (H.blake2b stateRootPersonalization) (rootPreimage_eq_of_perm H ?_)
  rw [hs.leafInputs_eq, (Ledger.view_sorted _).leafInputs_eq, Ledger.ledger_view]
  exact h.symm

/-- What is pending keeps the entries where it keeps the root, unless there is a collision. -/
theorem perm_of_root_eq {H : Hashing} (hs : store.Sorted)
    (hfree : CollisionFree H store (store.ledger.apply commit).view)
    (h : computeRoot H store = projectedRoot H store commit) :
    (store.ledger.apply commit).leafInputs.Perm store.ledger.leafInputs := by
  rw [projectedRoot_eq] at h
  have hperm := perm_of_computeRoot_eq hfree h
  rw [hs.leafInputs_eq, (Ledger.view_sorted _).leafInputs_eq, Ledger.ledger_view] at hperm
  exact hperm.symm

/-- The records of a block on any store under the laws. -/
theorem StateStore.Committing.chainWhenKept (hS : S.Committing P.hashing)
    (h : processParsedBlock S P config s parsed = .ok (s', .ok be)) :
    ChainWhenKept P config (S.view s) parsed be := by
  obtain ⟨hexists, hall⟩ := processParsedBlock_calls hS h
  refine ⟨hexists, fun commit calls hcalls => ?_⟩
  obtain ⟨hexecutions, hroot⟩ := hall commit calls hcalls
  have hfinal : RootsChain P.hashing (S.view s) calls commit.deploys be.stateRootAfter ↔
      ∀ x ∈ calls, computeRoot P.hashing (S.view s) =
        projectedRoot P.hashing (S.view s) x.pending := by
    by_cases hnil : calls = []
    · subst hnil
      exact ⟨fun _ x hx => (nomatch hx), fun _ => ⟨fun x hx => (nomatch hx), .nil,
        fun x hx => (nomatch hx), fun x hx => (nomatch hx)⟩⟩
    · rw [hroot hnil]
      exact hcalls.facts.rootsChain_iff_roots
  exact ⟨hexecutions,
    fun hkept => hfinal.mpr fun x hx => root_eq_of_perm _ (hS.sorted s) (hkept x hx),
    fun hfree hchain x hx => perm_of_root_eq (hS.sorted s) (hfree x hx) (hfinal.mp hchain x hx)⟩

end Blocks

/-- **When the roots of execution records chain.** For every store of either backend and every
block: the records' roots chain if what is pending before each call keeps the entries of the state,
and only then, unless the hash functions collide. -/
theorem rootsChain_iff (P : Platform) (config : IndexerConfig) :
    (∀ (s s' : MemoryState) (parsed : ParsedBlock) (be : BlockExecution),
      processParsedBlock (MemoryState.store P.hashing) P config s parsed = .ok (s', .ok be) →
        ChainWhenKept P config ((MemoryState.store P.hashing).view s) parsed be) ∧
    ∀ (s s' : RocksState) (parsed : ParsedBlock) (be : BlockExecution),
      processParsedBlock (RocksState.store P.hashing P.json) P config s parsed = .ok (s', .ok be) →
        ChainWhenKept P config ((RocksState.store P.hashing P.json).view s) parsed be :=
  ⟨fun _ _ _ _ h => (MemoryState.committing _).chainWhenKept h,
    fun _ _ _ _ h => (RocksState.committing _ _).chainWhenKept h⟩

/-! ### A set before another call -/

/-- Hash functions that keep the length of what is hashed. -/
def lengthHashing : Hashing :=
  ⟨fun _ input => .replicate (UInt8.ofNat input.length), fun _ => .replicate 0⟩

/-- Their root counts the entries. -/
theorem root_lengthHashing (l : Ledger) : l.root lengthHashing =
    .replicate (UInt8.ofNat (32 * (l.contracts.size + l.storage.size))) := by
  change Bytes32.replicate
    (UInt8.ofNat (rootPreimage (collectLeaves lengthHashing l.view)).length) = _
  have hlength : ∀ leaves : List Bytes32, (rootPreimage leaves).length = 32 * leaves.length := by
    intro leaves
    rw [rootPreimage, List.length_flatMap, ← (List.perm_insertionSort leafLE leaves).length_eq]
    simp [Nat.mul_comm]
  rw [hlength, collectLeaves, List.length_append, List.length_map, List.length_map, Ledger.view]
  simp

/-- What is inserted into an empty map is its only entry. -/
theorem size_insert_empty {α β : Type} {cmp : α → α → Ordering} [Std.TransCmp cmp] (key : α)
    (value : β) : ((∅ : Std.ExtTreeMap α β cmp).insert key value).size = 1 := by
  simp [Std.ExtTreeMap.size_insert]

/-- The register's code is the only entry once it is deployed. -/
theorem sizes_deployRegister (H : Hashing) :
    (Ledger.empty.apply (deployRegister H)).contracts.size = 1 ∧
      (Ledger.empty.apply (deployRegister H)).storage = ∅ :=
  ⟨size_insert_empty _ _, rfl⟩

/-- A key set in the register's storage is a second entry. -/
theorem root_apply_lengthHashing {l : Ledger} {commit : BlockCommit} {key : ContractId × Bytes}
    {value : Bytes} (hstorage : l.storage = ∅) (hcontracts : commit.contractWrites = [])
    (hwrites : commit.storageWrites = [.put key value]) :
    (l.apply commit).root lengthHashing =
      .replicate (UInt8.ofNat (32 * (l.contracts.size + 1))) := by
  rw [root_lengthHashing, Ledger.apply, hcontracts, hwrites, hstorage]
  exact congrArg (fun n => Bytes32.replicate (UInt8.ofNat (32 * (l.contracts.size + n))))
    (size_insert_empty key value)

/-- A block whose calls are known has a result on the in-memory store. -/
theorem exists_result_of_blockCalls {P : Platform} {config : IndexerConfig} {s : MemoryState}
    {parsed : ParsedBlock} {activation : BlockHeight} {results : List (CallContext × CallResult)}
    (hact : config.activationHeight = some activation) (hge : ¬ parsed.height < activation)
    (h : blockCalls P config ((MemoryState.store P.hashing).view s) parsed = .ok results) :
    ∃ acc s' be, processTransactions P config ((MemoryState.store P.hashing).view s) parsed =
        .ok acc ∧ acc.results = results ∧
      processParsedBlock (MemoryState.store P.hashing) P config s parsed = .ok (s', .ok be) := by
  rw [blockCalls, hact] at h
  dsimp only at h
  rw [if_neg hge] at h
  obtain ⟨acc, hacc, hresults⟩ := map_eq_ok h
  have hprocess : ∃ s' be,
      processParsedBlock (MemoryState.store P.hashing) P config s parsed = .ok (s', .ok be) := by
    rw [processParsedBlock, hact]
    dsimp only
    rw [if_neg hge, hacc]
    exact ⟨_, _, rfl⟩
  obtain ⟨s', be, hprocess⟩ := hprocess
  exact ⟨acc, s', be, hacc, hresults, hprocess⟩

/-- The register's key set in its storage. -/
def setRegister : BlockCommit :=
  ⟨2, Bytes32.replicate 2, [], [(registerId, [0], [0])], []⟩

/-- A set and then a take in one block: the roots chain only if the key that is set leaves the root
as it is. -/
theorem exists_setThenTake (H : Hashing) (json : Execution → Except String Bytes) :
    ∃ s' be commit calls,
      processParsedBlock (MemoryState.store H) (registerPlatform H json) regtestConfig
        (registerStore H) (registerBlock 1 2) = .ok (s', .ok be) ∧
      BlockCalls (registerPlatform H json) regtestConfig
        ((MemoryState.store H).view (registerStore H)) (registerBlock 1 2) commit calls ∧
      (RootsChain H ((MemoryState.store H).view (registerStore H)) calls commit.deploys
          be.stateRootAfter →
        (Ledger.empty.apply (deployRegister H)).root H =
          ((Ledger.empty.apply (deployRegister H)).apply setRegister).root H) := by
  have hcode := getContract_registerStore H
  have hledger : ((MemoryState.store H).view (registerStore H)).ledger =
      Ledger.empty.apply (deployRegister H) :=
    ((MemoryState.committing H).commitBlock MemoryState.new
      (deployRegister H)).1
  have hsorted := (MemoryState.committing H).sorted (registerStore H)
  have hmissing : ((MemoryState.store H).view
      (registerStore H)).storageGet registerId [0] = none := by
    rw [(MemoryState.committing H).storageGet, hledger, Ledger.getElem?_storage_apply]
    rfl
  have hact : regtestConfig.activationHeight = some 1 := rfl
  have hge : ¬ (registerBlock 1 2).height < 1 := by decide
  have hresults : blockCalls (registerPlatform H json) regtestConfig
      ((MemoryState.store (registerPlatform H json).hashing).view
        (registerStore H)) (registerBlock 1 2) = .ok _ :=
    blockCalls_registerBlock rfl rfl (execute_register_set _ rfl rfl hcode)
      ((execute_register_take _ _ rfl rfl hcode).1 hmissing)
  obtain ⟨acc, s', be, hacc, hcalls, hprocess⟩ :=
    exists_result_of_blockCalls hact hge hresults
  obtain ⟨calls, htimeline⟩ := exists_timeline (processTransactions_effects hacc)
  refine ⟨s', be, acc.commit, calls, hprocess, .interpreted hact hge hacc htimeline,
    fun hchain => ?_⟩
  have hfacts := htimeline.facts ⟨rfl, rfl⟩
  have hdeploys : acc.commit.deploys = [] := by
    change processTransactions (registerPlatform H json) regtestConfig
      ((MemoryState.store H).view (registerStore H)) (registerBlock 1 2) =
        .ok acc at hacc
    have hcommit : blockCommit (registerPlatform H json) regtestConfig
        ((MemoryState.store H).view (registerStore H))
        (registerBlock 1 2) = .ok (some acc.commit) := by
      rw [blockCommit, hact]
      dsimp only
      rw [if_neg hge, hacc]
      rfl
    refine List.map_eq_nil_iff.mp (contractWrites_blockCommit (fun tx htx => ?_) hcommit)
    simp only [registerBlock, List.mem_cons, List.not_mem_nil, or_false] at htx
    rcases htx with rfl | rfl <;> exact callsOnly_registerTx rfl
  have hmap := htimeline.results_eq rfl
  rw [hcalls] at hmap
  obtain ⟨x, ys, rfl, hx, hmap⟩ := List.map_eq_cons_iff.mp hmap
  obtain ⟨y, zs, rfl, -, hmap⟩ := List.map_eq_cons_iff.mp hmap
  obtain rfl := List.map_eq_nil_iff.mp hmap
  -- the second record starts from the root before the block
  have hfollows := (List.isChain_cons_cons.mp hchain.next).1
  have hpending := (List.isChain_cons_cons.mp hfacts.next).1
  have hbefore : y.execution.stateRootBefore = computeRoot H
      ((MemoryState.store H).view (registerStore H)) :=
    (hfacts.recorded y (by simp)).before
  have hnone : y.pending.deploys = [] := by
    have hprefix := hfacts.deploys y (by simp)
    rwa [hdeploys, List.prefix_nil] at hprefix
  obtain ⟨hupserts, hdeletes⟩ := hfacts.first x rfl
  have hwrites : y.pending.contractWrites = [] ∧
      y.pending.storageWrites = [.put (registerId, [0]) [0]] := by
    rw [BlockCommit.contractWrites, BlockCommit.storageWrites, hnone, hpending, CallRecord.leaves,
      hx, foldl_applyStorageWrite]
    dsimp only
    rw [hupserts, hdeletes]
    exact ⟨rfl, rfl⟩
  have hroot := hfollows.before
  rw [← hpending, hbefore, computeRoot_eq _ hsorted, projectedRoot_eq, hledger] at hroot
  rw [hroot, Ledger.apply, Ledger.apply, hwrites.1, hwrites.2]
  rfl

/-- **A set and then a take in one block**: the second record starts from the root before the
block, where the first one does not end. -/
theorem not_rootsChain_setThenTake :
    ∃ s' be commit calls,
      processParsedBlock (MemoryState.store lengthHashing)
        (registerPlatform lengthHashing fun _ => .ok []) regtestConfig
        (registerStore lengthHashing) (registerBlock 1 2) = .ok (s', .ok be) ∧
      BlockCalls (registerPlatform lengthHashing fun _ => .ok []) regtestConfig
        ((MemoryState.store lengthHashing).view (registerStore lengthHashing)) (registerBlock 1 2)
        commit calls ∧
      ¬ RootsChain lengthHashing
        ((MemoryState.store lengthHashing).view (registerStore lengthHashing)) calls
        commit.deploys be.stateRootAfter := by
  obtain ⟨s', be, commit, calls, hprocess, hcalls, hroots⟩ := exists_setThenTake lengthHashing _
  refine ⟨s', be, commit, calls, hprocess, hcalls, fun hchain => ?_⟩
  obtain ⟨hcontracts, hstorage⟩ := sizes_deployRegister lengthHashing
  have hroot := hroots hchain
  rw [root_lengthHashing, root_apply_lengthHashing hstorage rfl rfl, hcontracts, hstorage] at hroot
  exact absurd hroot (by decide)

end Zalkanes
