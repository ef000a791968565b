import Zalkanes.Protocol
import Zalkanes.Carrier
import Zalkanes.Runtime.Execute
import Zalkanes.State.Root

/-!
# Block Processing

From the messages of a block to its commit. Calls are executed against the store before the
block, and their writes are collected in two lists, the upserts and the deletes of the commit.

Only `ParsedBlock`s are processed here; `parseBlock` reads them off the bytes of a block, with the
block reader of the Zcash libraries as a parameter.
-/

namespace Zalkanes

open Lib

/-! ### Blocks -/

/-- A parsed transparent transaction. -/
structure ParsedTransaction where
  txid : TxId
  /-- Output index and script for every transparent output. -/
  outputs : List (UInt16 × Bytes)
  /-- Input index and script for every transparent input. -/
  inputs : List (UInt32 × Bytes)
  deriving DecidableEq

/-- A parsed block, reduced to the data Zalkanes cares about. -/
structure ParsedBlock where
  height : BlockHeight
  hash : BlockHash
  /-- All transactions in consensus order. -/
  transactions : List ParsedTransaction
  deriving DecidableEq

/-- A transaction as the Zcash libraries read it: the txid, and the output and input scripts of
the transparent bundle, if there is one. -/
structure ZcashTransaction where
  txid : TxId
  transparentBundle : Option (List Bytes × List Bytes)

/-- A block as the Zcash libraries read it. -/
structure ZcashBlock where
  claimedHeight : UInt32
  vtx : List ZcashTransaction

/-- What the node is built with: the external hash functions, engine, block reader and encoder of
execution records, and whether the build checks overflows. -/
structure Platform where
  hashing : Hashing
  engine : Engine
  /-- `Block::read` under the parameters of the network. -/
  readBlock : Network → Bytes → Except String ZcashBlock
  /-- `serde_json::to_vec` on an execution record. -/
  json : Execution → Except String Bytes
  overflowChecks : Bool

/-- A transaction reduced to what Zalkanes reads: its scripts, numbered. -/
def ZcashTransaction.parsed (tx : ZcashTransaction) : ParsedTransaction where
  txid := tx.txid
  outputs := match tx.transparentBundle with
    | some (vout, _) => vout.zipIdx.map fun (script, idx) => (UInt16.ofNat idx, script)
    | none => []
  inputs := match tx.transparentBundle with
    | some (_, vin) => vin.zipIdx.map fun (script, idx) => (UInt32.ofNat idx, script)
    | none => []

/-- Parse a raw Zcash block. The coinbase height must agree with the caller's height. -/
def parseBlock (P : Platform) (raw : Bytes) (height : BlockHeight) (hash : BlockHash)
    (network : Network) : Except String ParsedBlock :=
  match P.readBlock network raw with
  | .error e => .error ("failed to deserialize Zcash block: " ++ e)
  | .ok block =>
      if block.claimedHeight ≠ height then
        .error ("block height mismatch: chain source said " ++ toString height ++
          ", coinbase claims " ++ toString block.claimedHeight)
      else .ok ⟨height, hash, block.vtx.map ZcashTransaction.parsed⟩

/-! ### Configuration -/

/-- Configuration for the block indexer. -/
structure IndexerConfig where
  network : Network
  /-- Moves the activation height on regtest only. -/
  regtestActivationOverride : Option BlockHeight

/-- The block height at which protocol interpretation begins; `none` means never. -/
def IndexerConfig.activationHeight (config : IndexerConfig) : Option BlockHeight :=
  match config.network with
  | .mainnet => mainnetActivationHeight
  | .testnet => testnetActivationHeight
  | .regtest => config.regtestActivationOverride.or regtestActivationHeight

/-! ### Accumulators -/

/-- Per-block resource accounting. -/
structure BlockLimits where
  fuelUsed : ℕ := 0
  messages : UInt32 := 0
  carrierBytes : ℕ := 0
  deployBytes : ℕ := 0
  deriving DecidableEq

/-- What processing a block accumulates. `results` is not in the source: it lists the calls that
are executed, with what `execute` returned, so that theorems can speak about them. -/
structure BlockAcc where
  commit : BlockCommit
  executions : List Execution
  deployed : List ContractId
  limits : BlockLimits
  results : List (CallContext × CallResult)

/-- What processing a transaction accumulates besides. -/
structure TxAcc where
  block : BlockAcc
  fuelUsed : ℕ
  messages : UInt32

/-- Executions produced by processing one block. -/
structure BlockExecution where
  height : BlockHeight
  blockHash : BlockHash
  stateRootBefore : StateRoot
  stateRootAfter : StateRoot
  executions : List Execution
  /-- Deployments accepted this block. -/
  deployed : List ContractId

/-! ### Messages -/

section Process

variable (P : Platform) (config : IndexerConfig) (store : StateView)

/-- Carrier chunks from transparent inputs, in order. -/
def carrierChunks (tx : ParsedTransaction) : List Chunk :=
  tx.inputs.filterMap fun (_, scriptSig) =>
    (chunkFromScriptSig scriptSig).map fun (index, data) => ⟨index, data⟩

/-- A contract is deployed once, with the code that was hashed. -/
def handleDeploy (acc : BlockAcc) (tx : ParsedTransaction) (deploy : DeployMessage) : BlockAcc :=
  match reconstruct P.hashing (carrierChunks tx) deploy.chunkCount deploy.codeLength
      deploy.codeHash with
  | .error _ => acc
  | .ok wasm =>
      let contractId :=
        ContractId.derive P.hashing config.network tx.txid deploy.outputIndex deploy.codeHash
      if store.hasContract contractId then acc
      else
        match validateModule P.engine wasm with
        | .error _ => acc
        | .ok () =>
            { acc with
              commit := { acc.commit with
                deploys := acc.commit.deploys ++ [(contractId, deploy.codeHash, wasm)] }
              deployed := acc.deployed ++ [contractId] }

/-- Append a write to the upserts or to the deletes of the pending commit. -/
def applyStorageWrite (commit : BlockCommit) : StorageWrite → BlockCommit
  | .set cid key value => { commit with upserts := commit.upserts ++ [(cid, key, value)] }
  | .delete cid key => { commit with deletes := commit.deletes ++ [(cid, key)] }

/-- Success flag, fuel, output, error and writes of a call. -/
def CallResult.parts : CallResult → Bool × ℕ × Bytes × Option String × List StorageWrite
  | .success output fuelUsed writes => (true, fuelUsed, output, none, writes)
  | .trap reason fuelUsed => (false, fuelUsed, [], some reason, [])
  | .fuelExhausted fuelUsed => (false, fuelUsed, [], some "fuel exhausted", [])
  | .invalidModule reason => (false, 0, [], some reason, [])
  | .contractNotFound => (false, 0, [], some "contract not found", [])

/-- The fuel a call gets: the per-call cap, or what is left of the transaction or the block. -/
def fuelLimit (acc : TxAcc) : ℕ :=
  min (min maxFuelPerCall (maxFuelPerZcashTx - acc.fuelUsed))
    (maxFuelPerZcashBlock - acc.block.limits.fuelUsed)

/-- The context of a call, at the height of the pending commit. -/
def callContext (acc : TxAcc) (tx : ParsedTransaction) (contractId : ContractId)
    (opcode : UInt16) (input : Bytes) : CallContext where
  contractId := contractId
  caller := none
  txid := tx.txid
  blockHeight := acc.block.commit.height
  opcode := opcode
  input := input
  fuelLimit := fuelLimit acc
  depth := 0

/-- Account for the result of a call: fuel, writes and execution record. -/
def recordCall (acc : TxAcc) (ctx : CallContext) (result : CallResult) : TxAcc :=
  let (success, fuelUsed, output, error, writes) := result.parts
  let limits := { acc.block.limits with
    fuelUsed := saturatingAdd acc.block.limits.fuelUsed fuelUsed }
  let commit := writes.foldl applyStorageWrite acc.block.commit
  let execution : Execution := {
    txid := ctx.txid
    contractId := ctx.contractId
    opcode := ctx.opcode
    success := success
    fuelUsed := fuelUsed
    returnData := output
    error := error
    stateRootBefore := computeRoot P.hashing store
    stateRootAfter := projectedRoot P.hashing store commit
    blockHeight := commit.height
    blockHash := commit.zcashBlockHash }
  { block := { acc.block with
      commit := commit
      executions := acc.block.executions ++ [execution]
      limits := limits
      results := acc.block.results ++ [(ctx, result)] }
    fuelUsed := saturatingAdd acc.fuelUsed fuelUsed
    messages := acc.messages }

/-- A call runs on the store before the block, if there is fuel. -/
def executeCall (acc : TxAcc) (tx : ParsedTransaction) (contractId : ContractId)
    (opcode : UInt16) (input : Bytes) : Except Panic TxAcc :=
  if fuelLimit acc = 0 then .ok acc
  else
    let ctx := callContext acc tx contractId opcode input
    (execute P.engine P.overflowChecks ctx store).map fun result =>
      recordCall P store acc ctx result

/-- A call whose input is inline. -/
def handleCall (acc : TxAcc) (tx : ParsedTransaction) (call : CallMessage) : Except Panic TxAcc :=
  executeCall P store acc tx call.contractId call.opcode call.input

/-- A call whose input comes by carrier. -/
def handleCallCarrier (acc : TxAcc) (tx : ParsedTransaction) (call : CallCarrierMessage) :
    Except Panic TxAcc :=
  match reconstruct P.hashing (carrierChunks tx) call.carrierCount call.inputLength
      call.inputHash with
  | .error _ => .ok acc
  | .ok calldata => executeCall P store acc tx call.contractId call.opcode calldata

/-- Change the resource accounting of the block. -/
def TxAcc.setLimits (acc : TxAcc) (limits : BlockLimits) : TxAcc :=
  { acc with block := { acc.block with limits := limits } }

/-- Handle one message, within the byte caps of the block. -/
def handleMessage (acc : TxAcc) (tx : ParsedTransaction) (outIdx : UInt16) :
    Message → Except Panic TxAcc
  | .deploy deploy =>
      if deploy.outputIndex ≠ outIdx then .ok acc
      else
        -- declared bytes count before the reconstruction
        let length := deploy.codeLength.toNat
        let limits := { acc.block.limits with
          carrierBytes := saturatingAdd acc.block.limits.carrierBytes length
          deployBytes := saturatingAdd acc.block.limits.deployBytes length }
        let acc := acc.setLimits limits
        if limits.carrierBytes > maxCarrierBytesPerBlock ∨
            limits.deployBytes > maxDeployBytesPerBlock then .ok acc
        else .ok { acc with block := handleDeploy P config store acc.block tx deploy }
  | .call call => handleCall P store acc tx call
  | .callCarrier call =>
      let limits := { acc.block.limits with
        carrierBytes := saturatingAdd acc.block.limits.carrierBytes call.inputLength.toNat }
      let acc := acc.setLimits limits
      if limits.carrierBytes > maxCarrierBytesPerBlock then .ok acc
      else handleCallCarrier P store acc tx call

/-- The message in an output, if there is a well-formed one. -/
def outputMessage (scriptPubkey : Bytes) : Option Message :=
  match extractOpReturnData scriptPubkey with
  | none => none
  | some payload =>
      match parseOpReturn payload with
      | .ok message => message
      | .error _ => none

/-- Go through the outputs of a transaction. Past a message cap, the rest is skipped. -/
def processOutputs (tx : ParsedTransaction) :
    List (UInt16 × Bytes) → TxAcc → Except Panic BlockAcc
  | [], acc => .ok acc.block
  | (outIdx, scriptPubkey) :: outputs, acc =>
      match outputMessage scriptPubkey with
      | none => processOutputs tx outputs acc
      | some message => do
          let txMessages ← plainAdd32 P.overflowChecks acc.messages 1
          let messages ← plainAdd32 P.overflowChecks acc.block.limits.messages 1
          let acc := { acc.setLimits { acc.block.limits with messages := messages } with
            messages := txMessages }
          if txMessages > maxZalkMessagesPerTx ∨ messages > maxZalkMessagesPerBlock then
            return acc.block
          else
            let acc ← handleMessage P config store acc tx outIdx message
            processOutputs tx outputs acc

/-- The outputs of a transaction, from nothing. -/
def processTransaction (acc : BlockAcc) (tx : ParsedTransaction) : Except Panic BlockAcc :=
  processOutputs P config store tx tx.outputs ⟨acc, 0, 0⟩

/-- The accumulator a block starts with. -/
def BlockAcc.init (height : BlockHeight) (hash : BlockHash) : BlockAcc where
  commit := .empty height hash
  executions := []
  deployed := []
  limits := {}
  results := []

/-- Go through the transactions of a block. -/
def processTransactions (parsed : ParsedBlock) : Except Panic BlockAcc :=
  parsed.transactions.foldlM (processTransaction P config store)
    (BlockAcc.init parsed.height parsed.hash)

end Process

/-! ### Blocks -/

section Blocks

variable {σ : Type} (S : StateStore σ) (P : Platform) (config : IndexerConfig)

/-- Commit an empty block: below the activation height a block has no protocol effect. -/
def commitEmptyBlock (store : σ) (height : BlockHeight) (hash : BlockHash) :
    σ × Except String BlockExecution :=
  match S.commitBlock store (.empty height hash) with
  | (store, .error e) => (store, .error e)
  | (store, .ok root) => (store, .ok ⟨height, hash, root, root, [], []⟩)

/-- Process an already-parsed block against a store. -/
def processParsedBlock (store : σ) (parsed : ParsedBlock) :
    Except Panic (σ × Except String BlockExecution) :=
  match config.activationHeight with
  | none =>
      let root := computeRoot P.hashing (S.view store)
      .ok (store, .ok ⟨parsed.height, parsed.hash, root, root, [], []⟩)
  | some activation =>
      if parsed.height < activation then
        .ok (commitEmptyBlock S store parsed.height parsed.hash)
      else do
        let stateRootBefore := computeRoot P.hashing (S.view store)
        let acc ← processTransactions P config (S.view store) parsed
        match S.commitBlock store acc.commit with
        | (store, .error e) => return (store, .error e)
        | (store, .ok stateRootAfter) =>
            match S.saveExecutions store acc.executions with
            | (store, .error e) => return (store, .error e)
            | (store, .ok ()) =>
                return (store, .ok ⟨parsed.height, parsed.hash, stateRootBefore, stateRootAfter,
                  acc.executions, acc.deployed⟩)

/-- Process a raw Zcash block against a store. -/
def processZcashBlock (store : σ) (height : BlockHeight) (blockHash : BlockHash)
    (rawBlock : Bytes) : Except Panic (σ × Except String BlockExecution) :=
  match config.activationHeight with
  | some activation =>
      if height < activation then .ok (commitEmptyBlock S store height blockHash)
      else
        match parseBlock P rawBlock height blockHash config.network with
        | .error e => .ok (store, .error e)
        | .ok parsed => processParsedBlock S P config store parsed
  | none =>
      match parseBlock P rawBlock height blockHash config.network with
      | .error e => .ok (store, .error e)
      | .ok parsed => processParsedBlock S P config store parsed

end Blocks

end Zalkanes
