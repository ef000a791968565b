import Zalkanes.Indexer.Budget
import Zalkanes.Runtime.Metering
import Zalkanes.State.RocksBuild

/-!
# The Commit of a Block Fits the Journal

The block's fuel pays for every write of its calls, and its byte cap for every deploy, so the
number of entries in its commit stays far below the `2 ^ 32` that the journal format counts to,
however many transactions the block has.

## Main results

* `fits_blockCommit`: the commit of a block fits the journal format.
-/

namespace Zalkanes

open Lib

section CommitSize

variable {P : Platform} {config : IndexerConfig} {store : StateView}

/-- The writes of a call are paid for, whatever its result is. -/
theorem length_callResult_writes_le (hE : P.engine.Metered) {ctx : CallContext}
    {result : CallResult}
    (h : execute P.engine P.overflowChecks ctx store = .ok result) :
    result.writes.length ≤ result.fuelUsed := by
  cases result with
  | success output fuelUsed writes => exact length_writes_le_fuelUsed hE h
  | trap reason fuelUsed => exact Nat.zero_le _
  | fuelExhausted fuelUsed => exact Nat.zero_le _
  | invalidModule reason => exact Nat.zero_le _
  | contractNotFound => exact Nat.zero_le _

/-- The fuel of the calls of a block is within the budget of the block. -/
theorem fuelUsed_results_le {parsed : ParsedBlock} {acc : BlockAcc}
    (h : processTransactions P config store parsed = .ok acc) :
    (acc.results.map fun r => r.2.fuelUsed).sum ≤ maxFuelPerZcashBlock := by
  have hbudget :
      min (BlockAcc.init parsed.height parsed.hash).limits.fuelUsed maxFuelPerZcashBlock +
      ((handledTransactions P config store parsed.transactions
        (BlockAcc.init parsed.height parsed.hash)).flatten.map Handled.fuel).sum ≤
      maxFuelPerZcashBlock :=
    Pays.transactions (fun acc => min acc.limits.fuelUsed maxFuelPerZcashBlock) pays_blockFuel _ _
  have hresults : acc.results =
      (handledTransactions P config store parsed.transactions
        (BlockAcc.init parsed.height parsed.hash)).flatten.flatMap Handled.calls :=
    (results_eq_handledTransactions h).trans (List.nil_append _)
  have hsum : ∀ hs : List Handled,
      ((hs.flatMap Handled.calls).map fun r => r.2.fuelUsed).sum = (hs.map Handled.fuel).sum := by
    intro hs
    induction hs with
    | nil => rfl
    | cons h hs ih =>
        rw [List.flatMap_cons, List.map_append, List.sum_append, ih, List.map_cons, List.sum_cons,
          Handled.fuel]
  rw [hresults, hsum]
  exact (Nat.le_add_left _ _).trans hbudget

/-- **The commit of a block fits the journal format**, when the engine meters fuel. -/
theorem fits_processTransactions (hE : P.engine.Metered) {parsed : ParsedBlock} {acc : BlockAcc}
    (h : processTransactions P config store parsed = .ok acc) : acc.commit.Fits := by
  have hlimits := withinLimits_processTransactions h
  have hdeploys := length_deploys_processTransactions h
  obtain ⟨hputs, hdels⟩ := splits_processTransactions h
  have hwrites : acc.commit.upserts.length + acc.commit.deletes.length =
      (writeLog acc.results).length := by
    rw [List.length_eq_length_filter_add (l := writeLog acc.results) Write.isPut, ← hputs, ← hdels,
      List.length_map, List.length_map]
  have hlog : (writeLog acc.results).length ≤ (acc.results.map fun r => r.2.fuelUsed).sum := by
    rw [writeLog, List.length_flatMap]
    refine List.sum_le_sum fun r hr => ?_
    rw [List.length_map]
    exact length_callResult_writes_le hE (execute_of_mem_results h r hr)
  have hfuel := fuelUsed_results_le h
  have hblock : maxFuelPerZcashBlock = 1000000000 := rfl
  have hbytes : maxDeployBytesPerBlock = 4194304 := rfl
  exact ⟨fun d hd => lt_of_le_of_lt (hlimits.deploys d hd) (by decide),
    fun u hu => ⟨lt_of_le_of_lt (hlimits.upserts u hu).1 (by decide),
      lt_of_le_of_lt (hlimits.upserts u hu).2 (by decide)⟩,
    fun d hd => lt_of_le_of_lt (hlimits.deletes d hd) (by decide), by omega⟩

/-- A block commits what fits the journal. -/
theorem fits_blockCommit (hE : P.engine.Metered) {parsed : ParsedBlock} {commit : BlockCommit}
    (h : blockCommit P config store parsed = .ok (some commit)) : commit.Fits := by
  rcases blockCommit_eq_some h with rfl | ⟨acc, hacc, rfl⟩
  · exact BlockCommit.fits_empty _ _
  · exact fits_processTransactions hE hacc

end CommitSize

/-! ### A metered register -/

/-- The engine of the register when it also runs out of fuel: no run of the register takes more
than 20 units. -/
def meteredEngine : Engine :=
  { registerEngine with
    instantiate := fun _ fuel => .ok (some fun opcode inputLen =>
      if fuel < 20 then .done 0 (.error "all fuel consumed by WebAssembly")
      else registerDispatch fuel opcode inputLen) }

/-- The engine is metered. -/
theorem metered_meteredEngine : meteredEngine.Metered := by
  intro m fuel dispatch hdispatch opcode inputLen
  obtain rfl := Option.some.inj (Except.ok.inj hdispatch)
  dsimp only
  by_cases hfuel : fuel < 20
  · rw [if_pos hfuel]
    exact Nat.zero_le _
  · rw [if_neg hfuel, registerDispatch]
    split
    · exact ⟨by omega, fun _ _ => by rw [Guest.Metered]; omega⟩
    split
    · exact ⟨by omega, fun _ _ => by rw [Guest.Metered]; omega⟩
    · refine ⟨by omega, fun code _ => ?_⟩
      dsimp only
      split
      · rw [Guest.Metered]
        omega
      · exact ⟨by omega, fun _ _ => by rw [Guest.Metered]; omega⟩

/-- The metered engine parses what the engine of the register does. -/
theorem parseModuleContained_meteredEngine (wasm : Bytes) :
    parseModuleContained meteredEngine wasm = parseModuleContained registerEngine wasm := by
  unfold parseModuleContained
  cases hparse : registerEngine.parse wasm with
  | none =>
      rw [show meteredEngine.parse wasm = none from hparse]
      rfl
  | some parsed =>
      rw [show meteredEngine.parse wasm = some parsed from hparse]
      cases parsed <;> rfl

/-- With fuel for a run of the register, the metered engine is the register's. -/
theorem execute_meteredEngine {overflowChecks : Bool} {ctx : CallContext} (store : StateView)
    (hfuel : 20 ≤ ctx.fuelLimit) :
    execute meteredEngine overflowChecks ctx store =
      execute registerEngine overflowChecks ctx store := by
  rw [execute, execute]
  split
  · rfl
  cases store.getContract ctx.contractId with
  | none => rfl
  | some contract =>
      dsimp only
      rw [parseModuleContained_meteredEngine]
      cases parseModuleContained registerEngine contract.2 with
      | error reason => rfl
      | ok m => simp only [meteredEngine, registerEngine, if_neg (Nat.not_lt.mpr hfuel)]

/-- A node with this engine. -/
def meteredPlatform (H : Hashing) (json : Execution → Except String Bytes) : Platform :=
  { registerPlatform H json with engine := meteredEngine }

end Zalkanes
