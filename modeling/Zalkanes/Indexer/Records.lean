import Zalkanes.State.Records
import Zalkanes.Indexer.Replay
import Zalkanes.Indexer.Sequential

/-!
# Execution Records

Every executed call makes one record, and a block saves the records of its calls after its commit.
They are saved under the id of the transaction, so a transaction that makes two calls keeps the
record of the last one only.

## Main results

* `records_of_acc`: the records of a block are those of its calls.
* `BlockRun.keeps`: what a store keeps of the records of a run.
* `noRecordLost_iff`: when the readers report every record of a run.
-/

namespace Zalkanes

open Lib

/-! ### The records of a block -/

/-- The record says what the call was and what came of it. -/
structure Execution.IsOf (e : Execution) (call : CallContext × CallResult) : Prop where
  txid : e.txid = call.1.txid
  contractId : e.contractId = call.1.contractId
  opcode : e.opcode = call.1.opcode
  result : (e.success, e.fuelUsed, e.returnData, e.error) =
    (call.2.parts.1, call.2.parts.2.1, call.2.parts.2.2.1, call.2.parts.2.2.2.1)

section Block

variable {P : Platform} {config : IndexerConfig} {store : StateView}

/-- **One record for each executed call**, in the order of the calls. -/
theorem isOf_processTransactions {parsed : ParsedBlock} {acc : BlockAcc}
    (h : processTransactions P config store parsed = .ok acc) :
    List.Forall₂ Execution.IsOf acc.executions acc.results := by
  refine (processTransactions_effects h).invariant
    (I := fun acc => List.Forall₂ Execution.IsOf acc.executions acc.results) ?_ .nil
  rintro tx - acc acc' heff hI
  cases heff with
  | limits => exact hI
  | deploy _ deploy =>
      rcases handleDeploy_cases P config store acc tx deploy with heq | ⟨wasm, -, -, -, heq⟩
      · rwa [heq]
      · rwa [heq]
  | call acc contractId opcode input result hexec =>
      exact List.rel_append hI (.cons ⟨rfl, rfl, rfl, rfl⟩ .nil)

/-- The records of a block carry its height and its hash. -/
theorem block_processTransactions {parsed : ParsedBlock} {acc : BlockAcc}
    (h : processTransactions P config store parsed = .ok acc) :
    ∀ e ∈ acc.executions, e.blockHeight = parsed.height ∧ e.blockHash = parsed.hash := by
  suffices hsuff : (acc.commit.height = parsed.height ∧ acc.commit.zcashBlockHash = parsed.hash) ∧
      ∀ e ∈ acc.executions, e.blockHeight = parsed.height ∧ e.blockHash = parsed.hash from hsuff.2
  refine (processTransactions_effects h).invariant (I := fun acc =>
    (acc.commit.height = parsed.height ∧ acc.commit.zcashBlockHash = parsed.hash) ∧
      ∀ e ∈ acc.executions, e.blockHeight = parsed.height ∧ e.blockHash = parsed.hash) ?_
    ⟨⟨rfl, rfl⟩, fun e he => absurd he List.not_mem_nil⟩
  rintro tx - acc acc' heff ⟨hcommit, hI⟩
  cases heff with
  | limits => exact ⟨hcommit, hI⟩
  | deploy _ deploy =>
      rcases handleDeploy_cases P config store acc tx deploy with heq | ⟨wasm, -, -, -, heq⟩
      · rw [heq]
        exact ⟨hcommit, hI⟩
      · rw [heq]
        exact ⟨hcommit, hI⟩
  | call acc contractId opcode input result hexec =>
      have hcommit' : (recordCall P store acc (callContext acc tx contractId opcode input)
          result).block.commit.height = parsed.height ∧
          (recordCall P store acc (callContext acc tx contractId opcode input)
            result).block.commit.zcashBlockHash = parsed.hash := by
        rw [recordCall_commit, foldl_applyStorageWrite]
        exact hcommit
      refine ⟨hcommit', fun e he => ?_⟩
      rcases List.mem_append.mp he with he | he
      · exact hI e he
      · rw [List.mem_singleton.mp he]
        exact hcommit'

end Block

namespace BlockInput

/-- The hash of the block. -/
def hash : BlockInput → BlockHash
  | raw _ hash _ => hash
  | parsed block => block.hash

/-- What the transactions of a block accumulate, where they are interpreted: from the activation
height on, and if the bytes parse. -/
def acc (P : Platform) (config : IndexerConfig) (store : StateView) :
    BlockInput → Except Panic (Option BlockAcc)
  | raw height hash bytes =>
      match config.activationHeight with
      | none => .ok none
      | some activation =>
          if height < activation then .ok none
          else
            match parseBlock P bytes height hash config.network with
            | .error _ => .ok none
            | .ok block => (processTransactions P config store block).map some
  | parsed block =>
      match config.activationHeight with
      | none => .ok none
      | some activation =>
          if block.height < activation then .ok none
          else (processTransactions P config store block).map some

end BlockInput

/-- What a block leaves behind for its readers: the calls it executes, and their records. -/
structure Produced where
  height : BlockHeight
  hash : BlockHash
  calls : List (CallContext × CallResult)
  executions : List Execution

/-- What a block with such an accumulator produces. -/
def BlockInput.produced (block : BlockInput) (acc : Option BlockAcc) : Produced :=
  ⟨block.height, block.hash, (acc.map BlockAcc.results).getD [],
    (acc.map BlockAcc.executions).getD []⟩

namespace BlockInput

variable {σ : Type} {S : StateStore σ} {P : Platform} {config : IndexerConfig} {s s' : σ}
  {res : Except String BlockExecution} {block : BlockInput} {a : Option BlockAcc}

/-- The transactions that a block accumulates are those of a block of its height and hash. -/
theorem exists_of_acc {store : StateView} {acc : BlockAcc}
    (h : block.acc P config store = .ok (some acc)) :
    ∃ parsed : ParsedBlock, parsed.height = block.height ∧ parsed.hash = block.hash ∧
      processTransactions P config store parsed = .ok acc := by
  cases block with
  | parsed block =>
      simp only [BlockInput.acc] at h
      split at h
      · cases h
      · split at h
        · cases h
        · obtain ⟨acc', hacc, heq⟩ := map_eq_ok h
          rw [← Option.some.inj heq]
          exact ⟨block, rfl, rfl, hacc⟩
  | raw height hash bytes =>
      simp only [BlockInput.acc] at h
      split at h
      · cases h
      · split at h
        · cases h
        · split at h
          · cases h
          · rename_i parsed hparse
            obtain ⟨acc', hacc, heq⟩ := map_eq_ok h
            obtain ⟨hheight, hhash⟩ := parseBlock_eq_ok hparse
            rw [← Option.some.inj heq]
            exact ⟨parsed, hheight, hhash, hacc⟩

/-- **The records of a block are those of its calls**, and carry its height and its hash. -/
theorem records_of_acc {store : StateView} (h : block.acc P config store = .ok a) :
    List.Forall₂ Execution.IsOf (block.produced a).executions (block.produced a).calls ∧
      ∀ e ∈ (block.produced a).executions,
        e.blockHeight = block.height ∧ e.blockHash = block.hash := by
  cases a with
  | none => exact ⟨.nil, fun e he => absurd he List.not_mem_nil⟩
  | some acc =>
      obtain ⟨parsed, hheight, hhash, hacc⟩ := exists_of_acc h
      refine ⟨isOf_processTransactions hacc, fun e he => ?_⟩
      rw [← hheight, ← hhash]
      exact block_processTransactions hacc e he

/-- What processing a parsed block does: nothing without an activation height, an empty commit
below it, and from it on the commit of the block, after which its records are saved. -/
theorem processParsedBlock_effect (hS : S.Committing P.hashing) {p : ParsedBlock}
    (h : processParsedBlock S P config s p = .ok (s', res)) :
    config.activationHeight = none ∧ s' = s ∨
      ∃ activation, config.activationHeight = some activation ∧
        (p.height < activation ∧ s' = (S.commitBlock s (.empty p.height p.hash)).1 ∨
          ¬ p.height < activation ∧ ∃ acc, processTransactions P config (S.view s) p = .ok acc ∧
            s' = (S.saveExecutions (S.commitBlock s acc.commit).1 acc.executions).1) := by
  unfold processParsedBlock at h
  cases hact : config.activationHeight with
  | none =>
      rw [hact] at h
      exact Or.inl ⟨rfl, (Prod.mk.inj (Except.ok.inj h)).1.symm⟩
  | some activation =>
      rw [hact] at h
      dsimp only at h
      refine Or.inr ⟨activation, rfl, ?_⟩
      by_cases hlt : p.height < activation
      · rw [if_pos hlt] at h
        exact Or.inl ⟨hlt, by rw [← commitEmptyBlock_fst, Except.ok.inj h]⟩
      · rw [if_neg hlt] at h
        obtain ⟨acc, hacc, h⟩ := bind_eq_ok h
        refine Or.inr ⟨hlt, acc, hacc, ?_⟩
        have hcommit := (hS.commitBlock s acc.commit).2
        rcases hc : S.commitBlock s acc.commit with ⟨s₁, r₁⟩
        rw [hc] at hcommit h
        obtain rfl : r₁ = _ := hcommit
        dsimp only at h ⊢
        rcases hsave : S.saveExecutions s₁ acc.executions with ⟨s₂, e | u⟩
        · rw [hsave] at h
          exact (Prod.mk.inj (Except.ok.inj h)).1.symm
        · rw [hsave] at h
          exact (Prod.mk.inj (Except.ok.inj h)).1.symm

/-- **What processing a block does**: it is skipped, or makes a commit of its height and hash, and
if it is interpreted saves its records after it. -/
theorem process_effect (hS : S.Committing P.hashing)
    (h : block.process S P config s = .ok (s', res)) :
    ∃ a, block.acc P config (S.view s) = .ok a ∧
      (block.Skipped P config ∧ a = none ∧ s' = s ∨
        ¬ block.Skipped P config ∧ ∃ c : BlockCommit, c.height = block.height ∧
          c.zcashBlockHash = block.hash ∧
            (a = none ∧ s' = (S.commitBlock s c).1 ∨ ∃ acc, a = some acc ∧
              s' = (S.saveExecutions (S.commitBlock s c).1 acc.executions).1)) := by
  cases block with
  | parsed p =>
      rcases processParsedBlock_effect hS h with ⟨hact, rfl⟩ | ⟨activation, hact, hcases⟩
      · exact ⟨none, by simp only [acc, hact], Or.inl ⟨hact, rfl, rfl⟩⟩
      · have hskip : ¬ (parsed p).Skipped P config := fun hnone => by
          rw [Skipped, hact] at hnone
          cases hnone
        rcases hcases with ⟨hlt, hs'⟩ | ⟨hge, acc, hacc, hs'⟩
        · refine ⟨none, ?_, Or.inr ⟨hskip, _, rfl, rfl, Or.inl ⟨rfl, hs'⟩⟩⟩
          simp only [BlockInput.acc, hact, if_pos hlt]
        · obtain ⟨hheight, hhash⟩ := commit_processTransactions hacc
          refine ⟨some acc, ?_, Or.inr ⟨hskip, _, hheight, hhash, Or.inr ⟨acc, rfl, hs'⟩⟩⟩
          simp only [BlockInput.acc, hact, if_neg hge, hacc, Except.map]
  | raw height hash bytes =>
      change processZcashBlock S P config s height hash bytes = _ at h
      unfold processZcashBlock at h
      cases hact : config.activationHeight with
      | none =>
          rw [hact] at h
          refine ⟨none, by simp only [acc, hact], Or.inl ⟨fun activation hsome => ?_, rfl, ?_⟩⟩
          · rw [hact] at hsome
            cases hsome
          · dsimp only at h
            split at h
            · exact (Prod.mk.inj (Except.ok.inj h)).1.symm
            · rcases processParsedBlock_effect hS h with ⟨-, hs'⟩ | ⟨activation, hsome, -⟩
              · exact hs'
              · rw [hact] at hsome
                cases hsome
      | some activation =>
          rw [hact] at h
          dsimp only at h
          by_cases hlt : height < activation
          · rw [if_pos hlt] at h
            refine ⟨none, by simp only [acc, hact, if_pos hlt], Or.inr ⟨fun hskip => ?_,
              .empty height hash, rfl, rfl, Or.inl ⟨rfl, ?_⟩⟩⟩
            · exact absurd hlt (UInt32.not_lt.mpr (hskip activation hact).1)
            · rw [← commitEmptyBlock_fst, Except.ok.inj h]
          · rw [if_neg hlt] at h
            cases hparse : parseBlock P bytes height hash config.network with
            | error e =>
                rw [hparse] at h
                refine ⟨none, by simp only [acc, hact, if_neg hlt, hparse], Or.inl
                  ⟨fun activation' hact' => ?_, rfl, (Prod.mk.inj (Except.ok.inj h)).1.symm⟩⟩
                obtain rfl := Option.some.inj (hact.symm.trans hact')
                exact ⟨UInt32.not_lt.mp hlt, e, hparse⟩
            | ok p =>
                rw [hparse] at h
                obtain ⟨hheight, hhash⟩ := parseBlock_eq_ok hparse
                have hskip : ¬ (raw height hash bytes).Skipped P config := fun hskip => by
                  obtain ⟨-, e, he⟩ := hskip activation hact
                  rw [hparse] at he
                  cases he
                rcases processParsedBlock_effect hS h with ⟨hnone, -⟩ | ⟨activation', hact', hcases⟩
                · rw [hact] at hnone
                  cases hnone
                · obtain rfl := Option.some.inj (hact.symm.trans hact')
                  rcases hcases with ⟨hlt', -⟩ | ⟨-, acc, hacc, hs'⟩
                  · exact absurd (hheight ▸ hlt') hlt
                  · obtain ⟨hh, hb⟩ := commit_processTransactions hacc
                    refine ⟨some acc, ?_, Or.inr ⟨hskip, _, hh.trans hheight, hb.trans hhash,
                      Or.inr ⟨acc, rfl, hs'⟩⟩⟩
                    simp only [BlockInput.acc, hact, if_neg hlt, hparse, hacc, Except.map]

end BlockInput

/-! ### Runs of blocks -/

section Runs

variable {σ : Type} (S : StateStore σ) (P : Platform) (config : IndexerConfig)

/-- A run of blocks of any heights, with what each of them produced. -/
inductive BlockRun (s₀ : σ) : List Produced → σ → Prop
  | nil : BlockRun s₀ [] s₀
  | block {log : List Produced} {s s' : σ} (h : BlockRun s₀ log s) (block : BlockInput)
      {a : Option BlockAcc} {res : Except String BlockExecution}
      (hacc : block.acc P config (S.view s) = .ok a)
      (hprocess : block.process S P config s = .ok (s', res)) :
      BlockRun s₀ (log ++ [block.produced a]) s'

end Runs

/-- The record is encoded, and read back. -/
def Encodes (json : Execution → Except String Bytes) (fromJson : Bytes → Option Execution)
    (e : Execution) : Prop :=
  ∃ bytes, json e = .ok bytes ∧ fromJson bytes = some e

/-- The records that the blocks of a run produced. -/
def executionsOf (log : List Produced) : List Execution := log.flatMap Produced.executions

/-- The calls that the blocks of a run executed. -/
def callsOf (log : List Produced) : List (CallContext × CallResult) := log.flatMap Produced.calls

/-- The readers of a store report everything that was produced: at the height of a block the
records of all blocks of that height, and the record itself under the id of its transaction. -/
def NoRecordLost {σ : Type} (X : RecordReaders σ) (s : σ) (log : List Produced) : Prop :=
  (∀ b ∈ log, (X.executionsAtHeight s b.height).Perm
      (executionsOf (log.filter fun b' => b'.height = b.height))) ∧
    ∀ b ∈ log, ∀ e ∈ b.executions, X.execution s e.txid = some e

section Runs

variable {σ : Type} {S : StateStore σ} {P : Platform} {config : IndexerConfig}
  {X : RecordReaders σ} {E : Execution → Prop} {Keeps : σ → Records → Prop} {s₀ s : σ}
  {log : List Produced}

/-- Every block of a run has one record for each call, of its height and hash. -/
theorem BlockRun.records (h : BlockRun S P config s₀ log s) :
    ∀ b ∈ log, List.Forall₂ Execution.IsOf b.executions b.calls ∧
      ∀ e ∈ b.executions, e.blockHeight = b.height ∧ e.blockHash = b.hash := by
  induction h with
  | nil => exact fun b hb => absurd hb List.not_mem_nil
  | block _ block hacc _ ih =>
      intro b hb
      rcases List.mem_append.mp hb with hb | hb
      · exact ih b hb
      · rw [List.mem_singleton.mp hb]
        exact BlockInput.records_of_acc hacc

/-- **A run keeps the records it produced**, under the ids of their transactions. -/
theorem BlockRun.keeps (hS : S.Committing P.hashing) (L : RecordLaws S X E Keeps)
    (h : BlockRun S P config s₀ log s) (h₀ : Keeps s₀ .empty)
    (hE : ∀ e ∈ executionsOf log, E e) : Keeps s (Keyed.empty.saveAll (executionsOf log)) := by
  induction h with
  | nil => exact h₀
  | @block log s s' hrun block a res hacc hprocess ih =>
      rw [executionsOf, List.flatMap_append, List.flatMap_singleton] at hE ⊢
      have hs := ih fun e he => hE e (List.mem_append_left _ he)
      rw [Keyed.saveAll_append]
      obtain ⟨a', hacc', hcases⟩ := BlockInput.process_effect hS hprocess
      obtain rfl := Except.ok.inj (hacc.symm.trans hacc')
      rcases hcases with ⟨-, rfl, rfl⟩ | ⟨-, c, -, -, ⟨rfl, rfl⟩ | ⟨acc, rfl, rfl⟩⟩
      · exact hs
      · exact L.commitBlock hs c
      · exact (L.saveExecutions (L.commitBlock hs c) _ fun e he =>
          hE e (List.mem_append_right _ he)).1

/-- The ids of the transactions of the records are those of the calls. -/
theorem map_txid_of_isOf {es : List Execution} {calls : List (CallContext × CallResult)}
    (h : List.Forall₂ Execution.IsOf es calls) :
    es.map Execution.txid = calls.map fun call => call.1.txid := by
  induction h with
  | nil => rfl
  | cons hone _ ih => rw [List.map_cons, List.map_cons, hone.txid, ih]

/-- Records are of the transactions of their calls. -/
theorem map_txid_executionsOf
    (h : ∀ b ∈ log, List.Forall₂ Execution.IsOf b.executions b.calls) :
    (executionsOf log).map Execution.txid = (callsOf log).map fun call => call.1.txid := by
  rw [executionsOf, callsOf, List.map_flatMap, List.map_flatMap]
  exact List.flatMap_congr fun b hb => map_txid_of_isOf (h b hb)

/-- The records of the first block come first. -/
theorem executionsOf_cons (b : Produced) (log : List Produced) :
    executionsOf (b :: log) = b.executions ++ executionsOf log :=
  List.flatMap_cons

/-- The records of the blocks of a height are the records of that height. -/
theorem executionsOf_filter (hheight : ∀ b ∈ log, ∀ e ∈ b.executions, e.blockHeight = b.height)
    (h : BlockHeight) :
    executionsOf (log.filter fun b => b.height = h) =
      (executionsOf log).filter fun e => e.blockHeight = h := by
  induction log with
  | nil => rfl
  | cons b log ih =>
      have hlog := ih fun b' hb' => hheight b' (by simp [hb'])
      rw [executionsOf_cons, List.filter_append, ← hlog]
      by_cases hb : b.height = h
      · have hall : (b.executions.filter fun e => e.blockHeight = h) = b.executions :=
          List.filter_eq_self.mpr fun e he =>
            decide_eq_true ((hheight b (by simp) e he).trans hb)
        rw [List.filter_cons_of_pos (by simpa using hb), executionsOf_cons, hall]
      · have hnone : (b.executions.filter fun e => e.blockHeight = h) = [] := by
          refine List.filter_eq_nil_iff.mpr fun e he => ?_
          rw [hheight b (by simp) e he]
          simpa using hb
        rw [List.filter_cons_of_neg (by simpa using hb), hnone, List.nil_append]

/-- **When no record of a run is lost**, for a store under the laws. -/
theorem BlockRun.noRecordLost_iff_nodup (hS : S.Committing P.hashing) (L : RecordLaws S X E Keeps)
    (h : BlockRun S P config s₀ log s) (h₀ : Keeps s₀ .empty)
    (hE : ∀ e ∈ executionsOf log, E e) :
    NoRecordLost X s log ↔ ((callsOf log).map fun call => call.1.txid).Nodup := by
  have hserves := L.serves (h.keeps hS L h₀ hE)
  have hrecords := h.records
  have hheight : ∀ b ∈ log, ∀ e ∈ b.executions, e.blockHeight = b.height :=
    fun b hb e he => ((hrecords b hb).2 e he).1
  rw [← map_txid_executionsOf fun b hb => (hrecords b hb).1,
    ← Keyed.all_found_iff Execution.blockHeight]
  constructor
  · rintro ⟨hperm, hfind⟩
    refine ⟨fun height => ?_, fun e he => ?_⟩
    · by_cases hblock : ∃ b ∈ log, b.height = height
      · obtain ⟨b, hb, rfl⟩ := hblock
        exact (hserves.atHeight _).symm.trans (executionsOf_filter hheight _ ▸ hperm b hb)
      · -- a height without a block has no records
        have hnone : ∀ e ∈ executionsOf log, ¬ e.blockHeight = height := by
          intro e he heq
          obtain ⟨b, hb, he⟩ := List.mem_flatMap.mp he
          exact hblock ⟨b, hb, (hheight b hb e he).symm.trans heq⟩
        rw [List.filter_eq_nil_iff.mpr, List.filter_eq_nil_iff.mpr]
        · exact fun e he => by simpa using hnone e he
        · intro e he
          rcases Keyed.mem_of_find_saveAll (Keyed.mem_values.mp he) with he | ⟨he, -⟩
          · simpa using hnone e he
          · rw [Keyed.find_empty] at he
            cases he
    · obtain ⟨b, hb, he⟩ := List.mem_flatMap.mp he
      rw [← hserves.execution]
      exact hfind b hb e he
  · rintro ⟨hperm, hfind⟩
    refine ⟨fun b _ => ?_, fun b hb e he => ?_⟩
    · rw [executionsOf_filter hheight]
      exact (hserves.atHeight _).trans (hperm _)
    · rw [hserves.execution]
      exact hfind e (List.mem_flatMap.mpr ⟨b, hb, he⟩)

end Runs

/-- **When no record is lost.** In every run of blocks each executed call makes one record; and the
readers report every record just when no two executed calls of the run are of one transaction. -/
theorem noRecordLost_iff (P : Platform) (config : IndexerConfig)
    (fromJson : Bytes → Option Execution) :
    (∀ log s, BlockRun (MemoryState.store P.hashing) P config MemoryState.new log s →
      (∀ b ∈ log, List.Forall₂ Execution.IsOf b.executions b.calls) ∧
        (NoRecordLost MemoryState.readers s log ↔
          ((callsOf log).map fun call => call.1.txid).Nodup)) ∧
    ∀ log s, BlockRun (RocksState.store P.hashing P.json) P config RocksState.fresh log s →
      (∀ e ∈ executionsOf log, Encodes P.json fromJson e) →
      (∀ b ∈ log, List.Forall₂ Execution.IsOf b.executions b.calls) ∧
        (NoRecordLost (RocksState.readers fromJson) s log ↔
          ((callsOf log).map fun call => call.1.txid).Nodup) :=
  ⟨fun _ _ h => ⟨fun b hb => (h.records b hb).1,
      h.noRecordLost_iff_nodup (MemoryState.committing _) (MemoryState.recordLaws _) rfl
        fun _ _ => trivial⟩,
    fun _ _ h hjson => ⟨fun b hb => (h.records b hb).1,
      h.noRecordLost_iff_nodup (RocksState.committing _ _) (RocksState.recordLaws _)
        (RocksState.keepsRecords_fresh fromJson) hjson⟩⟩

/-! ### Calls of a contract that is not there -/

section Missing

variable (P : Platform) (config : IndexerConfig) {store : StateView}

/-- The accumulator with one more message counted. -/
def TxAcc.countMessage (acc : TxAcc) : TxAcc :=
  { acc.setLimits { acc.block.limits with messages := acc.block.limits.messages + 1 } with
    messages := acc.messages + 1 }

/-- A call of a contract that is not there, made while no fuel is used and the message caps are
not reached: it makes a record, and nothing else. -/
theorem processOutputs_missing {tx : ParsedTransaction} {outIdx : UInt16} {scriptPubkey : Bytes}
    {call : CallMessage} (hmessage : outputMessage scriptPubkey = some (.call call))
    (hmissing : store.getContract call.contractId = none) {acc : TxAcc}
    (hfuel : acc.fuelUsed = 0 ∧ acc.block.limits.fuelUsed = 0) (htx : acc.messages < 16)
    (hblock : acc.block.limits.messages < 16) (outputs : List (UInt16 × Bytes)) :
    processOutputs P config store tx ((outIdx, scriptPubkey) :: outputs) acc =
      processOutputs P config store tx outputs (recordCall P store acc.countMessage
        (callContext acc.countMessage tx call.contractId call.opcode call.input)
        .contractNotFound) := by
  have hadd : ∀ n : UInt32, n < 16 →
      plainAdd32 P.overflowChecks n 1 = .ok (n + 1) ∧ n + 1 ≤ 16 := by
    intro n hn
    have hn' : n.toNat < 16 := UInt32.lt_iff_toNat_lt.mp hn
    have hone : (1 : UInt32).toNat = 1 := rfl
    refine ⟨by rw [plainAdd32, if_pos (by omega)], UInt32.le_iff_toNat_le.mpr ?_⟩
    rw [UInt32.toNat_add, hone, show (16 : UInt32).toNat = 16 from rfl]
    omega
  have hcaps : ¬ (acc.messages + 1 > maxZalkMessagesPerTx ∨
      acc.block.limits.messages + 1 > maxZalkMessagesPerBlock) := by
    rintro (h | h)
    · exact absurd h (UInt32.not_lt.mpr (hadd _ htx).2)
    · exact absurd h (UInt32.not_lt.mpr (UInt32.le_trans (hadd _ hblock).2 (by decide)))
  have hlimit : ¬ fuelLimit acc.countMessage = 0 := by
    change ¬ min (min _ (_ - acc.fuelUsed)) (_ - acc.block.limits.fuelUsed) = 0
    rw [hfuel.1, hfuel.2]
    decide
  rw [processOutputs, hmessage]
  simp only [(hadd _ htx).1, (hadd _ hblock).1, bind, Except.bind]
  rw [if_neg hcaps, handleMessage, handleCall]
  have hcall : executeCall P store acc.countMessage tx call.contractId call.opcode call.input =
      .ok (recordCall P store acc.countMessage
        (callContext acc.countMessage tx call.contractId call.opcode call.input)
        .contractNotFound) := by
    rw [executeCall, if_neg hlimit]
    dsimp only
    rw [(execute_contractNotFound_iff rfl).mpr hmissing]
    rfl
  change executeCall P store acc.countMessage tx call.contractId call.opcode call.input >>=
    processOutputs P config store tx outputs = _
  rw [hcall]
  rfl

end Missing

/-- A block of one transaction that calls the register, once or twice. -/
def callBlock (outputs : List (UInt16 × Bytes)) : ParsedBlock :=
  ⟨1, Bytes32.replicate 1, [⟨Bytes32.replicate 3, outputs, []⟩]⟩

/-- The records of a block that calls the register where it is not deployed. -/
theorem exists_acc_callBlock (P : Platform) (config : IndexerConfig) {store : StateView}
    (hmissing : store.getContract registerId = none) :
    (∃ acc e, processTransactions P config store (callBlock [(0, registerScript 0)]) = .ok acc ∧
      acc.executions = [e]) ∧
    ∃ acc e e', processTransactions P config store
        (callBlock [(0, registerScript 0), (1, registerScript 1)]) = .ok acc ∧
      acc.executions = [e, e'] ∧ e.txid = e'.txid ∧ e.opcode = 0 ∧ e'.opcode = 1 := by
  have hfirst : outputMessage (registerScript 0) = some (.call ⟨registerId, 0, []⟩) := rfl
  have hsecond : outputMessage (registerScript 1) = some (.call ⟨registerId, 1, []⟩) := rfl
  have hzero : (0 : UInt32) < 16 := by decide
  have hone : (0 + 1 : UInt32) < 16 := by decide
  constructor
  · have hrun : ∃ acc, processTransactions P config store (callBlock [(0, registerScript 0)]) =
        .ok acc ∧ ∃ e, acc.executions = [e] := by
      rw [processTransactions, callBlock, List.foldlM_cons, processTransaction,
        processOutputs_missing P config hfirst hmissing ⟨rfl, rfl⟩ hzero hzero]
      exact ⟨_, rfl, _, rfl⟩
    obtain ⟨acc, hacc, e, he⟩ := hrun
    exact ⟨acc, e, hacc, he⟩
  · have hrun : ∃ acc, processTransactions P config store
        (callBlock [(0, registerScript 0), (1, registerScript 1)]) = .ok acc ∧
        acc.executions.map (fun e => (e.txid, e.opcode)) =
          [(Bytes32.replicate 3, 0), (Bytes32.replicate 3, 1)] := by
      rw [processTransactions, callBlock, List.foldlM_cons, processTransaction,
        processOutputs_missing P config hfirst hmissing ⟨rfl, rfl⟩ hzero hzero,
        processOutputs_missing P config hsecond hmissing ⟨rfl, rfl⟩ hone hone]
      exact ⟨_, rfl, rfl⟩
    obtain ⟨acc, hacc, hmap⟩ := hrun
    obtain ⟨e, es, hes, he, hmap⟩ := List.map_eq_cons_iff.mp hmap
    obtain ⟨e', es', rfl, he', hmap⟩ := List.map_eq_cons_iff.mp hmap
    obtain rfl := List.map_eq_nil_iff.mp hmap
    obtain ⟨htxid, hopcode⟩ := Prod.mk.inj he
    obtain ⟨htxid', hopcode'⟩ := Prod.mk.inj he'
    exact ⟨acc, e, e', hacc, hes, htxid.trans htxid'.symm, hopcode, hopcode'⟩

/-- A block can be processed where its transactions can. -/
theorem exists_process_of_transactions {σ : Type} (S : StateStore σ) {P : Platform} {s : σ}
    {p : ParsedBlock} (hheight : 1 ≤ p.height) {acc : BlockAcc}
    (hacc : processTransactions P regtestConfig (S.view s) p = .ok acc) :
    (BlockInput.parsed p).acc P regtestConfig (S.view s) = .ok (some acc) ∧
      ∃ s' res, (BlockInput.parsed p).process S P regtestConfig s = .ok (s', res) := by
  have hact : regtestConfig.activationHeight = some 1 := rfl
  have hlt : ¬ p.height < 1 := UInt32.not_lt.mpr hheight
  constructor
  · simp only [BlockInput.acc, hact, if_neg hlt, hacc, Except.map]
  · have hcommit : blockCommit P regtestConfig (S.view s) p = .ok (some acc.commit) := by
      rw [blockCommit, hact]
      dsimp only
      rw [if_neg hlt, hacc]
      rfl
    exact exists_processParsedBlock hcommit

/-- One call in one block is not lost. -/
theorem noRecordLost_once :
    ∀ H : Hashing, ∃ (json : Execution → Except String Bytes) (fromJson : Bytes → Option Execution)
      (log : List Produced) (s : RocksState),
      BlockRun (RocksState.store H json) (registerPlatform H json) regtestConfig RocksState.fresh
          log s ∧
        (executionsOf log).length = 1 ∧ (∀ e ∈ executionsOf log, Encodes json fromJson e) ∧
        (∀ b ∈ log, List.Forall₂ Execution.IsOf b.executions b.calls) ∧
        (NoRecordLost (RocksState.readers fromJson) s log ↔
          ((callsOf log).map fun call => call.1.txid).Nodup) := by
  intro H
  set P := registerPlatform H fun e => .ok e.json with hP
  have hmissing : RocksState.fresh.view.getContract registerId = none := rfl
  obtain ⟨acc, e, hacc, he⟩ := (exists_acc_callBlock P regtestConfig hmissing).1
  obtain ⟨hblock, s, res, hprocess⟩ :=
    exists_process_of_transactions (RocksState.store H P.json) (by decide) hacc
  have hrun := BlockRun.nil.block (.parsed _) hblock hprocess
  rw [List.nil_append] at hrun
  let fromJson : Bytes → Option Execution := fun bytes => if bytes = e.json then some e else none
  have hlog : executionsOf [(BlockInput.parsed (callBlock [(0, registerScript 0)])).produced
      (some acc)] = [e] := (List.append_nil _).trans he
  have hencodes : ∀ e' ∈ executionsOf [(BlockInput.parsed (callBlock
      [(0, registerScript 0)])).produced (some acc)], Encodes P.json fromJson e' := by
    rw [hlog]
    intro e' he'
    rw [List.mem_singleton.mp he']
    exact ⟨e.json, rfl, if_pos rfl⟩
  exact ⟨P.json, fromJson, _, s, hrun, by rw [hlog]; rfl, hencodes,
    (noRecordLost_iff P regtestConfig fromJson).2 _ _ hrun hencodes⟩

/-- A transaction with two calls: one record under its id, whatever the backend and its reader of
records are. -/
theorem not_noRecordLost_twice :
    ¬ ∃ P : Platform,
      (∀ log s, BlockRun (MemoryState.store P.hashing) P regtestConfig MemoryState.new log s →
          NoRecordLost MemoryState.readers s log) ∨
        ∃ fromJson : Bytes → Option Execution, ∀ log s,
          BlockRun (RocksState.store P.hashing P.json) P regtestConfig RocksState.fresh log s →
            NoRecordLost (RocksState.readers fromJson) s log := by
  have hlost : ∀ {σ : Type} (S : StateStore σ) (P : Platform) (X : RecordReaders σ) (s₀ : σ),
      (S.view s₀).getContract registerId = none →
        ¬ ∀ log s, BlockRun S P regtestConfig s₀ log s → NoRecordLost X s log := by
    intro σ S P X s₀ hmissing hall
    obtain ⟨acc, e, e', hacc, hes, htxid, hopcode, hopcode'⟩ :=
      (exists_acc_callBlock P regtestConfig hmissing).2
    obtain ⟨hblock, s, res, hprocess⟩ := exists_process_of_transactions S (by decide) hacc
    have hrun := BlockRun.nil.block (.parsed _) hblock hprocess
    have hfind := (hall _ s hrun).2 _ (List.mem_singleton.mpr rfl)
    have hexecutions : ((BlockInput.parsed (callBlock [(0, registerScript 0),
      (1, registerScript 1)])).produced (some acc)).executions = [e, e'] := hes
    have he := hfind e (by rw [hexecutions]; simp)
    have he' := hfind e' (by rw [hexecutions]; simp)
    rw [htxid, he'] at he
    rw [Option.some.inj he, hopcode] at hopcode'
    exact absurd hopcode' (by decide)
  rintro ⟨P, hmemory | ⟨fromJson, hrocks⟩⟩
  · exact hlost _ P _ MemoryState.new rfl hmemory
  · exact hlost _ P _ RocksState.fresh rfl hrocks

end Zalkanes
