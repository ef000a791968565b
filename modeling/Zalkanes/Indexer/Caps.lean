import Zalkanes.Indexer.Calls

/-!
# What the Caps Decide

The counters of messages and bytes do not depend on what the messages of a block do: they are
charged before a message is handled. So which messages the caps refuse can be read off the block
(`ParsedBlock.caps`), and processing a block is handling the others without counting
(`decidedTransactions`).

## Main results

* `handleMessage_eq`: handling a message is charging it, and then handling it without counting if
  the byte caps admit it.
* `processOutputs_eq_decided`, `foldlM_eq_decided`: processing, in terms of what the caps decide.
-/

namespace Zalkanes

open Lib

/-! ### Counters -/

/-- The message and byte counters of a block. -/
structure Counters where
  messages : UInt32
  carrierBytes : ℕ
  deployBytes : ℕ
  deriving DecidableEq

namespace Counters

/-- Charge the bytes that a message declares in an output. -/
def charge (k : Counters) (outIdx : UInt16) : Message → Counters
  | .deploy m =>
      if m.outputIndex ≠ outIdx then k
      else { k with
        carrierBytes := saturatingAdd k.carrierBytes m.codeLength.toNat
        deployBytes := saturatingAdd k.deployBytes m.codeLength.toNat }
  | .call _ => k
  | .callCarrier m =>
      { k with carrierBytes := saturatingAdd k.carrierBytes m.inputLength.toNat }

/-- After the charge for a message, the byte caps refuse it. -/
def refuses (k : Counters) (outIdx : UInt16) : Message → Bool
  | .deploy m => m.outputIndex = outIdx ∧
      (k.carrierBytes > maxCarrierBytesPerBlock ∨ k.deployBytes > maxDeployBytesPerBlock)
  | .call _ => false
  | .callCarrier _ => k.carrierBytes > maxCarrierBytesPerBlock

end Counters

/-- The counters among the limits. -/
def BlockLimits.counters (limits : BlockLimits) : Counters :=
  ⟨limits.messages, limits.carrierBytes, limits.deployBytes⟩

/-- Replace the counters of a block, but not its fuel. -/
def BlockAcc.withCounters (acc : BlockAcc) (k : Counters) : BlockAcc :=
  { acc with limits := ⟨acc.limits.fuelUsed, k.messages, k.carrierBytes, k.deployBytes⟩ }

/-- Replace the counters of a transaction and its block, but not their fuel. -/
def TxAcc.withCounters (acc : TxAcc) (txMessages : UInt32) (k : Counters) : TxAcc :=
  { acc with block := acc.block.withCounters k, messages := txMessages }

/-! ### Decisions -/

/-- What the caps decide of the output of a transaction: whether a message in it is refused. -/
abbrev CapDecision := Except Panic Bool

/-- All messages are refused. -/
def refuseAll (outputs : List (UInt16 × Bytes)) : List CapDecision :=
  outputs.map fun output => .ok (outputMessage output.2).isSome

/-- What the caps decide of outputs, from these counters, and the counters after them. -/
def capOutputs (overflowChecks : Bool) :
    List (UInt16 × Bytes) → UInt32 → Counters → List CapDecision × Counters
  | [], _, k => ([], k)
  | (outIdx, scriptPubkey) :: outputs, txMessages, k =>
      match outputMessage scriptPubkey with
      | none =>
          let rest := capOutputs overflowChecks outputs txMessages k
          (.ok false :: rest.1, rest.2)
      | some message =>
          match plainAdd32 overflowChecks txMessages 1, plainAdd32 overflowChecks k.messages 1 with
          | .ok txMessages, .ok messages =>
              let k := { k with messages := messages }
              if txMessages > maxZalkMessagesPerTx ∨ messages > maxZalkMessagesPerBlock then
                (.ok true :: refuseAll outputs, k)
              else
                let k := k.charge outIdx message
                let rest := capOutputs overflowChecks outputs txMessages k
                (.ok (k.refuses outIdx message) :: rest.1, rest.2)
          | .error p, _ => (.error p :: refuseAll outputs, k)
          | _, .error p => (.error p :: refuseAll outputs, k)

/-- What the caps decide of the outputs of transactions. -/
def capTransactions (overflowChecks : Bool) :
    List ParsedTransaction → Counters → List (List CapDecision)
  | [], _ => []
  | tx :: txs, k =>
      let decided := capOutputs overflowChecks tx.outputs 0 k
      decided.1 :: capTransactions overflowChecks txs decided.2

/-- **What the caps decide of a block.** -/
def ParsedBlock.caps (overflowChecks : Bool) (parsed : ParsedBlock) : List (List CapDecision) :=
  capTransactions overflowChecks parsed.transactions ⟨0, 0, 0⟩

/-! ### Outcomes -/

/-- What becomes of a message: the contracts that are deployed, and the calls that are made, with
their results and their execution records. -/
structure Outcome where
  deploys : List (ContractId × CodeHash × Bytes) := []
  calls : List (CallContext × CallResult) := []
  executions : List Execution := []

/-- What is added to the accumulator of a block. -/
def BlockAcc.outcome (before after : BlockAcc) : Outcome where
  deploys := after.commit.deploys.drop before.commit.deploys.length
  calls := after.results.drop before.results.length
  executions := after.executions.drop before.executions.length

/-- Nothing has been done since. -/
@[simp] theorem BlockAcc.outcome_self (acc : BlockAcc) : acc.outcome acc = {} := by
  simp only [outcome, List.drop_length]

section Outcomes

variable (P : Platform) (config : IndexerConfig) (store : StateView)

/-- What becomes of the outputs of a transaction, one by one. -/
def outputOutcomes (tx : ParsedTransaction) : List (UInt16 × Bytes) → TxAcc → List Outcome
  | [], _ => []
  | (outIdx, scriptPubkey) :: outputs, acc =>
      match outputMessage scriptPubkey with
      | none => {} :: outputOutcomes tx outputs acc
      | some message =>
          match plainAdd32 P.overflowChecks acc.messages 1,
            plainAdd32 P.overflowChecks acc.block.limits.messages 1 with
          | .ok txMessages, .ok messages =>
              let acc := { acc.setLimits { acc.block.limits with messages := messages } with
                messages := txMessages }
              if txMessages > maxZalkMessagesPerTx ∨ messages > maxZalkMessagesPerBlock then
                {} :: outputs.map fun _ => {}
              else
                match handleMessage P config store acc tx outIdx message with
                | .ok after => acc.block.outcome after.block :: outputOutcomes tx outputs after
                | .error _ => []
          | _, _ => []

/-- What becomes of the outputs of transactions. -/
def transactionOutcomes : List ParsedTransaction → BlockAcc → List (List Outcome)
  | [], _ => []
  | tx :: txs, acc => outputOutcomes P config store tx tx.outputs ⟨acc, 0, 0⟩ ::
      match processTransaction P config store acc tx with
      | .ok acc => transactionOutcomes txs acc
      | .error _ => []

/-- What becomes of the outputs of a block. -/
def ParsedBlock.outcomes (parsed : ParsedBlock) : List (List Outcome) :=
  transactionOutcomes P config store parsed.transactions (BlockAcc.init parsed.height parsed.hash)

/-! ### Processing without counting -/

/-- Handle a message that the caps admit, without counting. -/
def handleAdmitted (acc : TxAcc) (tx : ParsedTransaction) (outIdx : UInt16) :
    Message → Except Panic TxAcc
  | .deploy deploy =>
      if deploy.outputIndex ≠ outIdx then .ok acc
      else .ok { acc with block := handleDeploy P config store acc.block tx deploy }
  | .call call => handleCall P store acc tx call
  | .callCarrier call => handleCallCarrier P store acc tx call

/-- Go through outputs with what the caps have decided, without counting: the outcomes, and the
accumulator afterwards. -/
def decidedOutputs (tx : ParsedTransaction) :
    List (UInt16 × Bytes) → List CapDecision → TxAcc → List Outcome × Except Panic TxAcc
  | (outIdx, scriptPubkey) :: outputs, decision :: decisions, acc =>
      let skip :=
        let rest := decidedOutputs tx outputs decisions acc
        ({} :: rest.1, rest.2)
      match outputMessage scriptPubkey, decision with
      | none, _ => skip
      | some _, .error p => ([], .error p)
      | some _, .ok true => skip
      | some message, .ok false =>
          match handleAdmitted P config store acc tx outIdx message with
          | .error p => ([], .error p)
          | .ok after =>
              let rest := decidedOutputs tx outputs decisions after
              (acc.block.outcome after.block :: rest.1, rest.2)
  | _, _, acc => ([], .ok acc)

/-- Go through transactions with what the caps have decided. -/
def decidedTransactions :
    List ParsedTransaction → List (List CapDecision) → BlockAcc →
      List (List Outcome) × Except Panic BlockAcc
  | tx :: txs, decisions :: rest, acc =>
      let here := decidedOutputs P config store tx tx.outputs decisions ⟨acc, 0, 0⟩
      match here.2 with
      | .error p => ([here.1], .error p)
      | .ok after =>
          let later := decidedTransactions txs rest after.block
          (here.1 :: later.1, later.2)
  | _, _, acc => ([], .ok acc)

end Outcomes

section Decided

variable {P : Platform} {config : IndexerConfig} {store : StateView}

/-! ### Handling a message -/

/-- The last counters count. -/
@[simp] theorem TxAcc.withCounters_withCounters (acc : TxAcc) (m m' : UInt32) (k k' : Counters) :
    (acc.withCounters m k).withCounters m' k' = acc.withCounters m' k' := rfl

/-- Those of the block are set in the block. -/
@[simp] theorem TxAcc.block_withCounters (acc : TxAcc) (m : UInt32) (k : Counters) :
    (acc.withCounters m k).block = acc.block.withCounters k := rfl

/-- The last counters count. -/
@[simp] theorem BlockAcc.withCounters_withCounters (acc : BlockAcc) (k k' : Counters) :
    (acc.withCounters k).withCounters k' = acc.withCounters k' := rfl

/-- Counters are no outcome. -/
@[simp] theorem BlockAcc.outcome_withCounters (before after : BlockAcc) (k k' : Counters) :
    (before.withCounters k).outcome (after.withCounters k') = before.outcome after := rfl

variable (P config store) in
/-- **Handling a message**: its bytes are charged, and unless the byte caps refuse it then, it is
handled without counting. -/
theorem handleMessage_eq (acc : TxAcc) (tx : ParsedTransaction) (outIdx : UInt16)
    (message : Message) :
    handleMessage P config store acc tx outIdx message =
      let k := acc.block.limits.counters.charge outIdx message
      if k.refuses outIdx message then .ok (acc.withCounters acc.messages k)
      else handleAdmitted P config store (acc.withCounters acc.messages k) tx outIdx message := by
  cases message with
  | deploy deploy =>
      by_cases hindex : deploy.outputIndex = outIdx
      · simp only [handleMessage, handleAdmitted, Counters.charge, Counters.refuses, hindex, ne_eq,
          not_true_eq_false, if_false, true_and, decide_eq_true_eq]
        rfl
      · simp only [handleMessage, handleAdmitted, Counters.charge, Counters.refuses, hindex, ne_eq,
          not_false_eq_true, if_true, false_and, decide_false, Bool.false_eq_true, if_false]
        rfl
  | call call => rfl
  | callCarrier call =>
      rw [handleMessage]
      dsimp only
      by_cases hcap : saturatingAdd acc.block.limits.carrierBytes call.inputLength.toNat >
        maxCarrierBytesPerBlock
      · rw [if_pos hcap]
        exact (if_pos (decide_eq_true hcap)).symm
      · rw [if_neg hcap]
        exact (if_neg fun h => hcap (of_decide_eq_true h)).symm

/-- A deploy does not look at the counters. -/
theorem handleDeploy_withCounters (acc : BlockAcc) (tx : ParsedTransaction)
    (deploy : DeployMessage) (k : Counters) :
    handleDeploy P config store (acc.withCounters k) tx deploy =
      (handleDeploy P config store acc tx deploy).withCounters k := by
  unfold handleDeploy
  split
  · rfl
  dsimp only
  split
  · rfl
  split <;> rfl

/-- A call does not look at the counters. -/
theorem executeCall_withCounters (acc : TxAcc) (tx : ParsedTransaction) (contractId : ContractId)
    (opcode : UInt16) (input : Bytes) (m : UInt32) (k : Counters) :
    executeCall P store (acc.withCounters m k) tx contractId opcode input =
      (executeCall P store acc tx contractId opcode input).map (·.withCounters m k) := by
  have hfuel : fuelLimit (acc.withCounters m k) = fuelLimit acc := rfl
  have hctx : callContext (acc.withCounters m k) tx contractId opcode input =
      callContext acc tx contractId opcode input := rfl
  rw [executeCall, executeCall, hfuel, hctx]
  split
  · rfl
  · dsimp only
    cases execute P.engine P.overflowChecks (callContext acc tx contractId opcode input) store <;>
      rfl

/-- Handling without counting does not look at the counters. -/
theorem handleAdmitted_withCounters (acc : TxAcc) (tx : ParsedTransaction) (outIdx : UInt16)
    (message : Message) (m : UInt32) (k : Counters) :
    handleAdmitted P config store (acc.withCounters m k) tx outIdx message =
      (handleAdmitted P config store acc tx outIdx message).map (·.withCounters m k) := by
  cases message with
  | deploy deploy =>
      simp only [handleAdmitted]
      split
      · rfl
      · rw [TxAcc.block_withCounters, handleDeploy_withCounters]
        rfl
  | call call => exact executeCall_withCounters acc tx _ _ _ m k
  | callCarrier call =>
      simp only [handleAdmitted, handleCallCarrier]
      split
      · rfl
      · exact executeCall_withCounters acc tx _ _ _ m k

variable (P config store) in
/-- The outputs do not look at the counters, once the caps have decided. -/
theorem decidedOutputs_withCounters (tx : ParsedTransaction) (outputs : List (UInt16 × Bytes))
    (decisions : List CapDecision) (acc : TxAcc) (m : UInt32) (k : Counters) :
    decidedOutputs P config store tx outputs decisions (acc.withCounters m k) =
      ((decidedOutputs P config store tx outputs decisions acc).1,
        (decidedOutputs P config store tx outputs decisions acc).2.map (·.withCounters m k)) := by
  induction outputs generalizing decisions acc with
  | nil => rfl
  | cons output outputs ih =>
      cases decisions with
      | nil => rfl
      | cons decision decisions =>
          simp only [decidedOutputs]
          cases outputMessage output.2 with
          | none => simp only [ih]
          | some message =>
              rcases decision with p | refused
              · rfl
              cases refused with
              | true => simp only [ih]
              | false =>
                  dsimp only
                  rw [handleAdmitted_withCounters]
                  cases handleAdmitted P config store acc tx output.1 message with
                  | error p => rfl
                  | ok after =>
                      simp only [Except.map, ih]
                      rfl

/-- When all messages are refused, nothing happens. -/
theorem decidedOutputs_refuseAll (tx : ParsedTransaction) (outputs : List (UInt16 × Bytes))
    (acc : TxAcc) :
    decidedOutputs P config store tx outputs (refuseAll outputs) acc =
      (outputs.map fun _ => {}, .ok acc) := by
  induction outputs with
  | nil => rfl
  | cons output outputs ih =>
      simp only [refuseAll, List.map_cons, decidedOutputs]
      rw [refuseAll] at ih
      cases outputMessage output.2 with
      | none => simp only [ih]
      | some message => simp only [Option.isSome_some, ih]

/-! ### Processing -/

variable (P config store) in
/-- **Going through outputs**, in terms of what the caps decide. -/
theorem processOutputs_eq_decided (tx : ParsedTransaction) (outputs : List (UInt16 × Bytes))
    (acc : TxAcc) :
    let decided := capOutputs P.overflowChecks outputs acc.messages acc.block.limits.counters
    outputOutcomes P config store tx outputs acc =
        (decidedOutputs P config store tx outputs decided.1 acc).1 ∧
      processOutputs P config store tx outputs acc =
        (decidedOutputs P config store tx outputs decided.1 acc).2.map
          (·.block.withCounters decided.2) := by
  induction outputs generalizing acc with
  | nil => exact ⟨rfl, rfl⟩
  | cons output outputs ih =>
      obtain ⟨outIdx, scriptPubkey⟩ := output
      rw [outputOutcomes, processOutputs, capOutputs]
      cases hmessage : outputMessage scriptPubkey with
      | none =>
          simp only [decidedOutputs, hmessage]
          exact ⟨congrArg _ (ih acc).1, (ih acc).2⟩
      | some message =>
          have hcounters : acc.block.limits.counters.messages = acc.block.limits.messages := rfl
          rw [hcounters]
          cases plainAdd32 P.overflowChecks acc.messages 1 with
          | error p =>
              simp only [decidedOutputs, hmessage]
              exact ⟨trivial, rfl⟩
          | ok txMessages =>
          cases plainAdd32 P.overflowChecks acc.block.limits.messages 1 with
          | error p =>
              simp only [decidedOutputs, hmessage]
              exact ⟨trivial, rfl⟩
          | ok messages =>
              simp only [bind, Except.bind]
              by_cases hcaps : txMessages > maxZalkMessagesPerTx ∨
                  messages > maxZalkMessagesPerBlock
              · simp only [if_pos hcaps, decidedOutputs, hmessage, decidedOutputs_refuseAll]
                exact ⟨trivial, rfl⟩
              · simp only [if_neg hcaps]
                -- counting the message and charging its bytes gives `k`
                generalize hk :
                  Counters.charge { acc.block.limits.counters with messages := messages }
                    outIdx message = k
                have hhandle : handleMessage P config store
                    { acc.setLimits { acc.block.limits with messages := messages } with
                      messages := txMessages } tx outIdx message =
                    if k.refuses outIdx message then .ok (acc.withCounters txMessages k)
                    else handleAdmitted P config store (acc.withCounters txMessages k) tx outIdx
                      message := by
                  rw [handleMessage_eq, ← hk]
                  rfl
                have hrest : ∀ acc : TxAcc,
                    outputOutcomes P config store tx outputs (acc.withCounters txMessages k) =
                        (decidedOutputs P config store tx outputs
                          (capOutputs P.overflowChecks outputs txMessages k).1 acc).1 ∧
                      processOutputs P config store tx outputs (acc.withCounters txMessages k) =
                        (decidedOutputs P config store tx outputs
                          (capOutputs P.overflowChecks outputs txMessages k).1 acc).2.map
                            (·.block.withCounters
                              (capOutputs P.overflowChecks outputs txMessages k).2) := by
                  intro acc
                  obtain ⟨houtcomes, hprocess⟩ := ih (acc.withCounters txMessages k)
                  rw [decidedOutputs_withCounters] at houtcomes hprocess
                  refine ⟨houtcomes, hprocess.trans ?_⟩
                  change Except.map _ (Except.map _ (decidedOutputs P config store tx outputs
                    (capOutputs P.overflowChecks outputs txMessages k).1 acc).2) = _
                  cases (decidedOutputs P config store tx outputs
                    (capOutputs P.overflowChecks outputs txMessages k).1 acc).2 <;> rfl
                rw [hhandle]
                cases hrefuses : k.refuses outIdx message with
                | true =>
                    simp only [if_true, decidedOutputs, hmessage]
                    refine ⟨?_, (hrest acc).2⟩
                    rw [(hrest acc).1]
                    exact congrArg (List.cons · _) acc.block.outcome_self
                | false =>
                    simp only [Bool.false_eq_true, if_false, decidedOutputs, hmessage,
                      handleAdmitted_withCounters]
                    cases handleAdmitted P config store acc tx outIdx message with
                    | error p => exact ⟨rfl, rfl⟩
                    | ok after => exact ⟨congrArg (List.cons _) (hrest after).1, (hrest after).2⟩

variable (P config store) in
/-- The transactions do not look at the counters, once the caps have decided. -/
theorem decidedTransactions_withCounters (txs : List ParsedTransaction)
    (decisions : List (List CapDecision)) (acc : BlockAcc) (k : Counters) :
    decidedTransactions P config store txs decisions (acc.withCounters k) =
      ((decidedTransactions P config store txs decisions acc).1,
        (decidedTransactions P config store txs decisions acc).2.map (·.withCounters k)) := by
  induction txs generalizing decisions acc with
  | nil => rfl
  | cons tx txs ih =>
      cases decisions with
      | nil => rfl
      | cons here rest =>
          have houtputs := decidedOutputs_withCounters P config store tx tx.outputs here
            ⟨acc, 0, 0⟩ 0 k
          rw [decidedTransactions, decidedTransactions]
          dsimp only
          rw [show TxAcc.mk (acc.withCounters k) 0 0 = TxAcc.withCounters ⟨acc, 0, 0⟩ 0 k from rfl,
            houtputs]
          dsimp only
          cases (decidedOutputs P config store tx tx.outputs here ⟨acc, 0, 0⟩).2 with
          | error p => rfl
          | ok after =>
              simp only [Except.map, TxAcc.block_withCounters, ih]

/-- The accumulator of a block apart from its counters. -/
def BlockAcc.uncounted (acc : BlockAcc) : BlockAcc := acc.withCounters ⟨0, 0, 0⟩

variable (P config store) in
/-- **Going through transactions**, in terms of what the caps decide. -/
theorem foldlM_eq_decided (txs : List ParsedTransaction) (acc : BlockAcc) :
    let decisions := capTransactions P.overflowChecks txs acc.limits.counters
    transactionOutcomes P config store txs acc =
        (decidedTransactions P config store txs decisions acc).1 ∧
      (txs.foldlM (processTransaction P config store) acc).map BlockAcc.uncounted =
        (decidedTransactions P config store txs decisions acc).2.map BlockAcc.uncounted := by
  induction txs generalizing acc with
  | nil => exact ⟨rfl, rfl⟩
  | cons tx txs ih =>
      obtain ⟨houtcomes, hprocess⟩ := processOutputs_eq_decided P config store tx tx.outputs
        ⟨acc, 0, 0⟩
      dsimp only at houtcomes hprocess
      rw [transactionOutcomes, List.foldlM_cons, capTransactions]
      dsimp only
      rw [decidedTransactions, processTransaction, houtcomes, hprocess]
      dsimp only
      cases (decidedOutputs P config store tx tx.outputs
          (capOutputs P.overflowChecks tx.outputs 0 acc.limits.counters).1 ⟨acc, 0, 0⟩).2 with
      | error p => exact ⟨rfl, rfl⟩
      | ok after =>
          generalize (capOutputs P.overflowChecks tx.outputs 0 acc.limits.counters).2 = k
          obtain ⟨hrest, hfold⟩ := ih (after.block.withCounters k)
          rw [decidedTransactions_withCounters] at hrest hfold
          refine ⟨congrArg (List.cons _) hrest, hfold.trans ?_⟩
          dsimp only
          change Except.map _ (Except.map _ (decidedTransactions P config store txs
            (capTransactions P.overflowChecks txs k) after.block).2) = _
          cases (decidedTransactions P config store txs
            (capTransactions P.overflowChecks txs k) after.block).2 <;> rfl

end Decided

end Zalkanes
