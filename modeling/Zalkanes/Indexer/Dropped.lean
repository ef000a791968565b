import Zalkanes.Indexer.Budget
import Zalkanes.Indexer.Caps

/-!
# Messages Without Carrier Data

A message whose carrier data does not reconstruct does nothing but count against the caps. So
dropping it from its block changes nothing as long as the caps decide the same of the other
messages; when they do not, a valid message may be refused because of it.

## Main results

* `decidedTransactions_dropped`: dropping such messages, any number of them, once the caps have
  decided.
* `dropping_invalid_message`: dropping one from a block.
* `not_invalidHasNoEffect_crowdedBlock`: one that crowds a valid call out of its transaction.
-/

namespace Zalkanes

open Lib

/-! ### Dropping messages -/

/-- The carrier data of the message does not reconstruct. -/
def Message.Unreconstructable (P : Platform) (tx : ParsedTransaction) : Message → Prop
  | .deploy m => ∃ e,
      reconstruct P.hashing (carrierChunks tx) m.chunkCount m.codeLength m.codeHash =
      .error e
  | .call _ => False
  | .callCarrier m => ∃ e, reconstruct P.hashing (carrierChunks tx) m.carrierCount m.inputLength
      m.inputHash = .error e

/-- Replace the script of an output. -/
def ParsedTransaction.setScript (tx : ParsedTransaction) (j : ℕ) (script : Bytes) :
    ParsedTransaction :=
  { tx with outputs := tx.outputs.modify j fun output => (output.1, script) }

/-- Replace the script of an output of a transaction. -/
def ParsedBlock.setScript (parsed : ParsedBlock) (i j : ℕ) (script : Bytes) : ParsedBlock :=
  { parsed with transactions := parsed.transactions.modify i fun tx => tx.setScript j script }

/-- This output of this transaction carries a message whose carrier data does not reconstruct. -/
def ParsedBlock.InvalidAt (P : Platform) (parsed : ParsedBlock) (i j : ℕ) : Prop :=
  ∃ tx outIdx script message, parsed.transactions[i]? = some tx ∧
    tx.outputs[j]? = some (outIdx, script) ∧ outputMessage script = some message ∧
      message.Unreconstructable P tx

/-- The two blocks do the same to the store, and so does each of their outputs. -/
structure SameEffect {σ : Type} (S : StateStore σ) (P : Platform) (config : IndexerConfig) (s : σ)
    (parsed parsed' : ParsedBlock) : Prop where
  outcomes : parsed'.outcomes P config (S.view s) = parsed.outcomes P config (S.view s)
  processed : processParsedBlock S P config s parsed' = processParsedBlock S P config s parsed

/-- Dropping a message whose carrier data does not reconstruct from a block has no effect. -/
def InvalidHasNoEffect {σ : Type} (S : StateStore σ) (P : Platform) (config : IndexerConfig)
    (s : σ) : Prop :=
  ∀ (parsed : ParsedBlock) (i j : ℕ) (script : Bytes), parsed.InvalidAt P i j →
    outputMessage script = none → SameEffect S P config s parsed (parsed.setScript i j script)

/-- The second output is the first one, or a message whose carrier data does not reconstruct is
dropped from it. -/
inductive DropsInvalid (P : Platform) (tx : ParsedTransaction) :
    UInt16 × Bytes → UInt16 × Bytes → Prop
  | same (output : UInt16 × Bytes) : DropsInvalid P tx output output
  | dropped (outIdx : UInt16) {script script' : Bytes} {message : Message}
      (hmessage : outputMessage script = some message) (hinvalid : message.Unreconstructable P tx)
      (hnone : outputMessage script' = none) : DropsInvalid P tx (outIdx, script) (outIdx, script')

/-- Such messages are dropped from the outputs of a transaction. -/
def ParsedTransaction.DropsInvalid (P : Platform) (tx tx' : ParsedTransaction) : Prop :=
  List.Forall₂ (Zalkanes.DropsInvalid P tx) tx.outputs tx'.outputs ∧
    tx' = { tx with outputs := tx'.outputs }

/-- The decisions about outputs without a message are as the caps make them. -/
def SparesNone (outputs : List (UInt16 × Bytes)) (decisions : List CapDecision) : Prop :=
  List.Forall₂ (fun output decision => outputMessage output.2 = none → decision = .ok false)
    outputs decisions

/-- Refusing all spares none. -/
theorem sparesNone_refuseAll (outputs : List (UInt16 × Bytes)) :
    SparesNone outputs (refuseAll outputs) := by
  induction outputs with
  | nil => exact .nil
  | cons output outputs ih =>
      refine .cons (fun hnone => ?_) ih
      dsimp only
      rw [hnone]
      rfl

/-- The caps spare no invalid message. -/
theorem sparesNone_capOutputs (overflowChecks : Bool) (outputs : List (UInt16 × Bytes))
    (txMessages : UInt32) (k : Counters) :
    SparesNone outputs (capOutputs overflowChecks outputs txMessages k).1 := by
  induction outputs generalizing txMessages k with
  | nil => exact .nil
  | cons output outputs ih =>
      rw [capOutputs]
      cases hmessage : outputMessage output.2 with
      | none => exact .cons (fun _ => rfl) (ih _ _)
      | some message =>
          have hsome : ∀ decision : CapDecision, outputMessage output.2 = none →
              decision = .ok false := fun _ hnone => by
            rw [hmessage] at hnone
            cases hnone
          cases plainAdd32 overflowChecks txMessages 1 with
          | error p => exact .cons (hsome _) (sparesNone_refuseAll outputs)
          | ok txMessages =>
          cases plainAdd32 overflowChecks k.messages 1 with
          | error p => exact .cons (hsome _) (sparesNone_refuseAll outputs)
          | ok messages =>
              dsimp only
              split
              · exact .cons (hsome _) (sparesNone_refuseAll outputs)
              · exact .cons (hsome _) (ih _ _)

/-- The caps spare no invalid message of any transaction. -/
theorem sparesNone_capTransactions (overflowChecks : Bool) (txs : List ParsedTransaction)
    (k : Counters) :
    List.Forall₂ (fun tx decisions => SparesNone tx.outputs decisions) txs
      (capTransactions overflowChecks txs k) := by
  induction txs generalizing k with
  | nil => exact .nil
  | cons tx txs ih => exact .cons (sparesNone_capOutputs _ _ _ _) (ih _)

section Dropping

variable {P : Platform} {config : IndexerConfig} {store : StateView}

/-- Handling a message whose carrier data does not reconstruct does nothing. -/
theorem handleAdmitted_of_unreconstructable {acc : TxAcc} {tx : ParsedTransaction}
    {outIdx : UInt16} {message : Message} (h : message.Unreconstructable P tx) :
    handleAdmitted P config store acc tx outIdx message = .ok acc := by
  cases message with
  | deploy deploy =>
      obtain ⟨e, he⟩ := h
      simp only [handleAdmitted, handleDeploy, he, ite_self]
  | call call => exact h.elim
  | callCarrier call =>
      obtain ⟨e, he⟩ := h
      simp only [handleAdmitted, handleCallCarrier, he]

/-- Handling a message does not look at the outputs of its transaction. -/
theorem handleAdmitted_outputs (acc : TxAcc) (tx : ParsedTransaction)
    (outputs : List (UInt16 × Bytes)) (outIdx : UInt16) (message : Message) :
    handleAdmitted P config store acc { tx with outputs := outputs } outIdx message =
      handleAdmitted P config store acc tx outIdx message := by
  cases message <;> rfl

variable (config store) in
/-- Dropping messages whose carrier data does not reconstruct, once the caps have decided. -/
theorem decidedOutputs_dropped {tx : ParsedTransaction} {outputs outputs' : List (UInt16 × Bytes)}
    (hdrop : List.Forall₂ (DropsInvalid P tx) outputs outputs') {decisions : List CapDecision}
    (hspares : SparesNone outputs' decisions) (others : List (UInt16 × Bytes)) (acc : TxAcc) :
    decidedOutputs P config store { tx with outputs := others } outputs' decisions acc =
      decidedOutputs P config store tx outputs decisions acc := by
  induction hdrop generalizing decisions acc with
  | nil => rfl
  | @cons output output' outputs outputs' hhead htail ih =>
      cases hspares with
      | @cons _ decision _ decisions hspare hspares =>
          cases hhead with
          | same output =>
              simp only [decidedOutputs, handleAdmitted_outputs, ih hspares]
          | dropped outIdx hmessage hinvalid hnone =>
              -- the caps admit the message, and handling it does nothing
              obtain rfl := hspare hnone
              simp only [decidedOutputs, hmessage, hnone,
                handleAdmitted_of_unreconstructable hinvalid, BlockAcc.outcome_self, ih hspares]

variable (config store) in
/-- **Dropping messages from a block**, once the caps have decided. -/
theorem decidedTransactions_dropped {txs txs' : List ParsedTransaction}
    (hdrop : List.Forall₂ (ParsedTransaction.DropsInvalid P) txs txs')
    {decisions : List (List CapDecision)}
    (hspares : List.Forall₂ (fun tx decisions => SparesNone tx.outputs decisions) txs' decisions)
    (acc : BlockAcc) :
    decidedTransactions P config store txs' decisions acc =
      decidedTransactions P config store txs decisions acc := by
  induction hdrop generalizing decisions acc with
  | nil => rfl
  | @cons tx tx' txs txs' hhead htail ih =>
      cases hspares with
      | cons hspare hspares =>
          obtain ⟨houtputs, htx⟩ := hhead
          have hhere := decidedOutputs_dropped config store houtputs hspare tx'.outputs
            ⟨acc, 0, 0⟩
          rw [← htx] at hhere
          simp only [decidedTransactions, hhere, ih hspares]

/-- A block is processed by what its accumulator holds apart from the counters. -/
theorem processParsedBlock_congr {σ : Type} (S : StateStore σ) (s : σ)
    {parsed parsed' : ParsedBlock} (hheight : parsed'.height = parsed.height)
    (hhash : parsed'.hash = parsed.hash)
    (h : (processTransactions P config (S.view s) parsed').map BlockAcc.uncounted =
      (processTransactions P config (S.view s) parsed).map BlockAcc.uncounted) :
    processParsedBlock S P config s parsed' = processParsedBlock S P config s parsed := by
  unfold processParsedBlock
  rw [hheight, hhash]
  split
  · rfl
  split
  · rfl
  cases hacc' : processTransactions P config (S.view s) parsed' with
  | error p =>
      rw [hacc'] at h
      cases hacc : processTransactions P config (S.view s) parsed with
      | error q =>
          rw [hacc] at h
          rw [Except.error.inj h]
      | ok acc =>
          rw [hacc] at h
          cases h
  | ok acc' =>
      rw [hacc'] at h
      cases hacc : processTransactions P config (S.view s) parsed with
      | error q =>
          rw [hacc] at h
          cases h
      | ok acc =>
          rw [hacc] at h
          have huncounted : acc'.uncounted = acc.uncounted := Except.ok.inj h
          have hcommit : acc'.commit = acc.commit :=
            show acc'.uncounted.commit = acc.uncounted.commit by rw [huncounted]
          have hexecutions : acc'.executions = acc.executions :=
            show acc'.uncounted.executions = acc.uncounted.executions by rw [huncounted]
          have hdeployed : acc'.deployed = acc.deployed :=
            show acc'.uncounted.deployed = acc.uncounted.deployed by rw [huncounted]
          simp only [bind, Except.bind, hcommit, hexecutions, hdeployed]

/-- A list and itself, changed at one place. -/
theorem forall₂_modify {α : Type} {R : α → α → Prop} (hrefl : ∀ a, R a a) {f : α → α}
    {l : List α} {i : ℕ} (h : ∀ a, l[i]? = some a → R a (f a)) :
    List.Forall₂ R l (l.modify i f) := by
  induction l generalizing i with
  | nil =>
      rw [List.modify_nil]
      exact .nil
  | cons a l ih =>
      cases i with
      | zero => exact .cons (h a rfl) (List.forall₂_same.mpr fun b _ => hrefl b)
      | succ i => exact .cons (hrefl a) (ih fun b hb => h b hb)

/-- A message is dropped from the block at one place. -/
theorem dropsInvalid_setScript {parsed : ParsedBlock} {i j : ℕ} {script : Bytes}
    (h : parsed.InvalidAt P i j) (hscript : outputMessage script = none) :
    List.Forall₂ (ParsedTransaction.DropsInvalid P) parsed.transactions
      (parsed.setScript i j script).transactions := by
  obtain ⟨tx, outIdx, script', message, htx, houtput, hmessage, hinvalid⟩ := h
  refine forall₂_modify (fun tx => ⟨List.forall₂_same.mpr fun output _ => .same output, rfl⟩) ?_
  intro tx' htx'
  obtain rfl : tx = tx' := Option.some.inj (htx.symm.trans htx')
  refine ⟨forall₂_modify .same fun output houtput' => ?_, rfl⟩
  obtain rfl : (outIdx, script') = output := Option.some.inj (houtput.symm.trans houtput')
  exact .dropped outIdx hmessage hinvalid hscript

/-- **Dropping a message whose carrier data does not reconstruct** has no effect, on any store, as
long as the caps decide the same of every output. -/
theorem dropping_invalid_message (P : Platform) (config : IndexerConfig) {parsed : ParsedBlock}
    {i j : ℕ} {script : Bytes} (h : parsed.InvalidAt P i j) (hscript : outputMessage script = none)
    (hcaps : (parsed.setScript i j script).caps P.overflowChecks = parsed.caps P.overflowChecks)
    {σ : Type} (S : StateStore σ) (s : σ) :
    SameEffect S P config s parsed (parsed.setScript i j script) := by
  have hinit : (BlockAcc.init parsed.height parsed.hash).limits.counters = ⟨0, 0, 0⟩ := rfl
  obtain ⟨houtcomes, hfold⟩ := foldlM_eq_decided P config (S.view s) parsed.transactions
    (BlockAcc.init parsed.height parsed.hash)
  obtain ⟨houtcomes', hfold'⟩ := foldlM_eq_decided P config (S.view s)
    (parsed.setScript i j script).transactions (BlockAcc.init parsed.height parsed.hash)
  have hspares := sparesNone_capTransactions P.overflowChecks
    (parsed.setScript i j script).transactions ⟨0, 0, 0⟩
  have hdropped := decidedTransactions_dropped config (S.view s) (dropsInvalid_setScript h hscript)
    hspares (BlockAcc.init parsed.height parsed.hash)
  rw [ParsedBlock.caps, ParsedBlock.caps] at hcaps
  rw [hinit] at houtcomes hfold houtcomes' hfold'
  rw [hcaps] at hdropped houtcomes' hfold'
  constructor
  · exact houtcomes'.trans ((congrArg Prod.fst hdropped).trans houtcomes.symm)
  · refine processParsedBlock_congr S s rfl rfl (hfold'.trans (.trans ?_ hfold.symm))
    rw [hdropped]

end Dropping

/-! ### A crowded transaction -/

/-- The script of a DEPLOY message in the first output, with code of one byte in one chunk. -/
def hollowDeployScript : Bytes :=
  0x6a :: 0x2d :: protocolMagic ++ [protocolV0, msgDeploy] ++ (Bytes32.replicate 7).bytes ++
    be32 1 ++ [1] ++ be16 0

/-- The id of a contract that is not there. -/
def strayId : ContractId := Bytes32.replicate 8

/-- The script of a call of it. -/
def strayScript : Bytes :=
  0x6a :: 0x2a :: protocolMagic ++ [protocolV0, msgCall] ++ strayId.bytes ++ be16 0 ++ be16 0

/-- A transaction without inputs: the DEPLOY message, so many calls of the contract that is not
there, and a call of the register that sets its key. -/
def crowdedTx (n : ℕ) : ParsedTransaction :=
  ⟨Bytes32.replicate 3, (hollowDeployScript :: List.replicate n strayScript ++
    [registerScript 1]).zipIdx.map fun (script, idx) => (UInt16.ofNat idx, script), []⟩

/-- A block with one such transaction. -/
def crowdedBlock (n : ℕ) : ParsedBlock := ⟨2, Bytes32.replicate 2, [crowdedTx n]⟩

/-- Its first message is invalid. -/
theorem invalidAt_crowdedBlock (P : Platform) (n : ℕ) : (crowdedBlock n).InvalidAt P 0 0 :=
  ⟨_, 0, hollowDeployScript, .deploy ⟨Bytes32.replicate 7, 1, 1, 0⟩, rfl, rfl, rfl, _, rfl⟩

/-- 14 messages are within the caps, with and without the invalid one. -/
theorem dropping_invalid_message_crowdedBlock :
    ((crowdedBlock 14).setScript 0 0 []).caps true = (crowdedBlock 14).caps true ∧
      ∀ (H : Hashing) (json : Execution → Except String Bytes),
        SameEffect (MemoryState.store H) (registerPlatform H json) regtestConfig (registerStore H)
          (crowdedBlock 14) ((crowdedBlock 14).setScript 0 0 []) :=
  have hcaps : ((crowdedBlock 14).setScript 0 0 []).caps true = (crowdedBlock 14).caps true := by
    decide +kernel
  ⟨hcaps, fun H json => dropping_invalid_message (registerPlatform H json) regtestConfig
    (invalidAt_crowdedBlock _ 14) rfl hcaps (MemoryState.store H) (registerStore H)⟩

section Crowded

variable {P : Platform} {config : IndexerConfig} {store : StateView} {tx : ParsedTransaction}

/-- What becomes of the outputs of a block of one transaction. -/
theorem outcomes_singleton {height : BlockHeight} {hash : BlockHash} {decisions : List CapDecision}
    (hcaps : ParsedBlock.caps P.overflowChecks ⟨height, hash, [tx]⟩ = [decisions]) :
    ParsedBlock.outcomes P config store ⟨height, hash, [tx]⟩ =
      [(decidedOutputs P config store tx tx.outputs decisions
        ⟨BlockAcc.init height hash, 0, 0⟩).1] := by
  rw [ParsedBlock.caps] at hcaps
  rw [ParsedBlock.outcomes, (foldlM_eq_decided P config store _ _).1]
  change (decidedTransactions P config store [tx] (capTransactions P.overflowChecks [tx] ⟨0, 0, 0⟩)
    _).1 = _
  rw [hcaps, decidedTransactions]
  cases (decidedOutputs P config store tx tx.outputs decisions
    ⟨BlockAcc.init height hash, 0, 0⟩).2 <;> rfl

variable (P config tx) in
/-- Calls of a contract that is not there take no fuel. -/
theorem decidedOutputs_strays (hstray : store.getContract strayId = none)
    {outputs : List (UInt16 × Bytes)}
    (houtputs : ∀ output ∈ outputs, outputMessage output.2 = some (.call ⟨strayId, 0, []⟩))
    (acc : TxAcc) (hfuel : acc.fuelUsed = 0 ∧ acc.block.limits.fuelUsed = 0) :
    ∃ (before : List Outcome) (acc' : TxAcc), before.length = outputs.length ∧
      (acc'.fuelUsed = 0 ∧ acc'.block.limits.fuelUsed = 0) ∧ ∀ rest decisions,
        (decidedOutputs P config store tx (outputs ++ rest)
          (outputs.map (fun _ => .ok false) ++ decisions) acc).1 =
        before ++ (decidedOutputs P config store tx rest decisions acc').1 := by
  induction outputs generalizing acc with
  | nil => exact ⟨[], acc, rfl, hfuel, fun _ _ => rfl⟩
  | cons output outputs ih =>
      have hmessage := houtputs output (by simp)
      have hexec : execute P.engine P.overflowChecks (callContext acc tx strayId 0 []) store =
          .ok .contractNotFound := (execute_contractNotFound_iff rfl).mpr hstray
      have hpos : ¬ fuelLimit acc = 0 := by
        rw [fuelLimit, hfuel.1, hfuel.2]
        decide
      obtain ⟨after, hhandle, hafter⟩ : ∃ after,
          handleAdmitted P config store acc tx output.1 (.call ⟨strayId, 0, []⟩) = .ok after ∧
            after.fuelUsed = 0 ∧ after.block.limits.fuelUsed = 0 := by
        refine ⟨recordCall P store acc (callContext acc tx strayId 0 []) .contractNotFound, ?_,
          ?_, ?_⟩
        · rw [handleAdmitted, handleCall, executeCall, if_neg hpos]
          dsimp only
          rw [hexec]
          rfl
        · change saturatingAdd acc.fuelUsed 0 = 0
          rw [hfuel.1]
          rfl
        · change saturatingAdd acc.block.limits.fuelUsed 0 = 0
          rw [hfuel.2]
          rfl
      obtain ⟨before, acc', hlength, hfuel', hrest⟩ :=
        ih (fun o ho => houtputs o (by simp [ho])) after hafter
      refine ⟨acc.block.outcome after.block :: before, acc', congrArg Nat.succ hlength, hfuel',
        fun rest decisions => ?_⟩
      simp only [List.cons_append, List.map_cons, decidedOutputs, hmessage, hhandle,
        hrest rest decisions]

variable (config tx) in
/-- A call of the register that is made has an outcome. -/
theorem decidedOutputs_register (H : Hashing) (json : Execution → Except String Bytes)
    {codeHash : CodeHash}
    (hregister : store.getContract registerId = some (codeHash, registerWasm)) (acc : TxAcc)
    (hfuel : acc.fuelUsed = 0 ∧ acc.block.limits.fuelUsed = 0) (outIdx : UInt16) :
    ∃ outcome : Outcome, outcome.calls ≠ [] ∧
      (decidedOutputs (registerPlatform H json) config store tx [(outIdx, registerScript 1)]
        [.ok false] acc).1 = [outcome] := by
  have hmessage : outputMessage (registerScript 1) = some (.call ⟨registerId, 1, []⟩) := rfl
  have hpos : ¬ fuelLimit acc = 0 := by
    rw [fuelLimit, hfuel.1, hfuel.2]
    decide
  obtain ⟨result, hexec⟩ : ∃ result, execute registerEngine true
      (callContext acc tx registerId 1 []) store = .ok result :=
    ⟨_, execute_register_set codeHash rfl rfl hregister⟩
  have hhandle : handleAdmitted (registerPlatform H json) config store acc tx outIdx
      (.call ⟨registerId, 1, []⟩) = .ok (recordCall (registerPlatform H json) store acc
        (callContext acc tx registerId 1 []) result) := by
    rw [handleAdmitted, handleCall, executeCall, if_neg hpos]
    change (execute registerEngine true (callContext acc tx registerId 1 []) store).map _ = _
    rw [hexec]
    rfl
  refine ⟨acc.block.outcome (recordCall (registerPlatform H json) store acc
    (callContext acc tx registerId 1 []) result).block, ?_, ?_⟩
  · rw [BlockAcc.outcome, recordCall_results, List.drop_left]
    exact List.cons_ne_nil _ _
  · simp only [decidedOutputs, hmessage, hhandle]

end Crowded

/-- **A message without carrier data that crowds out a call**: with it, the transaction has one
message more than its cap, and the call of the register is refused. -/
theorem not_invalidHasNoEffect_crowdedBlock :
    ¬ ∃ (H : Hashing) (json : Execution → Except String Bytes),
      InvalidHasNoEffect (MemoryState.store H) (registerPlatform H json) regtestConfig
        (registerStore H) := by
  rintro ⟨H, json, hnoEffect⟩
  have houtcomes := (hnoEffect (crowdedBlock 15) 0 0 [] (invalidAt_crowdedBlock _ 15) rfl).outcomes
  have hregister := getContract_registerStore H
  have hstray : ((MemoryState.store H).view (registerStore H)).getContract strayId = none := by
    rw [registerStore, (MemoryState.committing H).getContract,
      ((MemoryState.committing H).commitBlock MemoryState.new (deployRegister H)).1,
      Ledger.getElem?_contracts_apply]
    rfl
  generalize (MemoryState.store H).view (registerStore H) = store at houtcomes hregister hstray
  -- the outputs after the first: stray calls, and the call of the register
  set strays : List (UInt16 × Bytes) :=
    (List.range 15).map fun i => (UInt16.ofNat (i + 1), strayScript) with hstrays
  have hmessages : ∀ output ∈ strays,
      outputMessage output.2 = some (.call ⟨strayId, 0, []⟩) := by
    intro output houtput
    obtain ⟨i, -, rfl⟩ := List.mem_map.mp houtput
    rfl
  have hcaps : (crowdedBlock 15).caps true =
      [.ok false :: (strays.map (fun _ => .ok false) ++ [.ok true])] := by decide +kernel
  have hcaps' : ((crowdedBlock 15).setScript 0 0 []).caps true =
      [.ok false :: (strays.map (fun _ => .ok false) ++ [.ok false])] := by decide +kernel
  have houtputs : (crowdedTx 15).outputs =
      (0, hollowDeployScript) :: (strays ++ [(16, registerScript 1)]) := by decide +kernel
  have houtputs' : ((crowdedTx 15).setScript 0 []).outputs =
      (0, []) :: (strays ++ [(16, registerScript 1)]) := by decide +kernel
  have hhollow : outputMessage hollowDeployScript =
      some (.deploy ⟨Bytes32.replicate 7, 1, 1, 0⟩) := rfl
  have hinvalid : Message.Unreconstructable (registerPlatform H json) (crowdedTx 15)
      (.deploy ⟨Bytes32.replicate 7, 1, 1, 0⟩) := ⟨_, rfl⟩
  obtain ⟨before, acc, -, -, hrest⟩ := decidedOutputs_strays (registerPlatform H json)
    regtestConfig (crowdedTx 15) hstray hmessages ⟨BlockAcc.init 2 (Bytes32.replicate 2), 0, 0⟩
    ⟨rfl, rfl⟩
  obtain ⟨before', acc', -, hfuel, hrest'⟩ := decidedOutputs_strays (registerPlatform H json)
    regtestConfig ((crowdedTx 15).setScript 0 []) hstray hmessages
    ⟨BlockAcc.init 2 (Bytes32.replicate 2), 0, 0⟩ ⟨rfl, rfl⟩
  obtain ⟨outcome, hcalls, hlast⟩ := decidedOutputs_register regtestConfig
    ((crowdedTx 15).setScript 0 []) H json hregister acc' hfuel 16
  have hfull : (crowdedBlock 15).outcomes (registerPlatform H json) regtestConfig store =
      [{} :: (before ++ [({} : Outcome)])] := by
    rw [crowdedBlock, outcomes_singleton hcaps, houtputs]
    simp only [decidedOutputs, hhollow, handleAdmitted_of_unreconstructable hinvalid,
      BlockAcc.outcome_self, hrest]
    cases outputMessage (registerScript 1) <;> rfl
  have hdropped : ((crowdedBlock 15).setScript 0 0 []).outcomes (registerPlatform H json)
      regtestConfig store = [{} :: (before' ++ [outcome])] := by
    change ParsedBlock.outcomes _ _ _ ⟨2, Bytes32.replicate 2, [(crowdedTx 15).setScript 0 []]⟩ = _
    have hnone : outputMessage [] = none := rfl
    rw [outcomes_singleton hcaps', houtputs']
    simp only [decidedOutputs] at hlast
    simp only [decidedOutputs, hnone, hrest', hlast]
  rw [hfull, hdropped] at houtcomes
  have htail := (List.cons.inj (List.cons.inj houtcomes).1).2
  have hsame := (List.append_inj' htail rfl).2
  rw [(List.cons.inj hsame).1] at hcalls
  exact hcalls rfl

end Zalkanes
