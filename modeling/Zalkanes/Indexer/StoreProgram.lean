import Zalkanes.Indexer.Process
import Zalkanes.Lib.Effects
import Zalkanes.Runtime.Calls
import Zalkanes.State.RootOfCommit

/-!
# Block Processing, Read by Read

Block processing over RocksDB as a program: each lookup, each pass over the contracts or over the
storage entries, and each write is a call to the store, made where the source makes it. What a read
is answered is left open here.

## Main definitions

* `processParsedBlockM`: the program.

## Main results

* `eval_processTransactionsM`, `batch_eval_commitReadsP`: answered as a store answers, the parts of
  the program that read compute what block processing computes on that store.
* `Truthful.yields_processParsedBlockM`: where no read fails, the program is block processing.
-/

namespace Zalkanes

open Lib

/-! ### Calls to the store -/

/-- A read of the store. -/
inductive StoreRead where
  | hasContract (id : ContractId)
  | getContract (id : ContractId)
  | storageGet (id : ContractId) (key : Bytes)
  /-- What `for_each_contract` visits. -/
  | contracts
  /-- What `for_each_storage` visits. -/
  | storage

/-- What a read returns. -/
abbrev StoreRead.Answer : StoreRead → Type
  | hasContract _ => Bool
  | getContract _ => Option (CodeHash × Bytes)
  | storageGet _ _ => Option Bytes
  | contracts => List (ContractId × CodeHash × Bytes)
  | storage => List (ContractId × Bytes × Bytes)

/-- The answers of a store whose reads do not fail. -/
def StateView.answer (v : StateView) : (query : StoreRead) → query.Answer
  | .hasContract id => v.hasContract id
  | .getContract id => v.getContract id
  | .storageGet id key => v.storageGet id key
  | .contracts => v.contracts
  | .storage => v.storage

/-- A call to the store. -/
inductive StoreCall where
  | read (query : StoreRead)
  | write (batch : WriteBatch)

/-- What the database answers. -/
abbrev StoreCall.Answer : StoreCall → Type
  | .read query => query.Answer
  | .write _ => Unit

/-- Code that reads the store. -/
abbrev ReadP := Prog StoreRead.Answer

/-- Code that reads the store and may panic. -/
abbrev ReadM := ExceptT Panic ReadP

/-- Code that reads and writes the store. -/
abbrev StoreP := Prog StoreCall.Answer

/-- Code that only reads, among code that writes. -/
def reading {α : Type} (p : ReadP α) : StoreP α := p.inject StoreCall.read

namespace ReadP

/-- Whether there is a contract. -/
def hasContract (id : ContractId) : ReadP Bool := Prog.call (StoreRead.hasContract id)

/-- A contract. -/
def getContract (id : ContractId) : ReadP (Option (CodeHash × Bytes)) :=
  Prog.call (StoreRead.getContract id)

/-- A storage entry. -/
def storageGet (id : ContractId) (key : Bytes) : ReadP (Option Bytes) :=
  Prog.call (StoreRead.storageGet id key)

/-- A pass over the contracts. -/
def contracts : ReadP (List (ContractId × CodeHash × Bytes)) := Prog.call StoreRead.contracts

/-- A pass over the storage. -/
def storage : ReadP (List (ContractId × Bytes × Bytes)) := Prog.call StoreRead.storage

section Eval

variable (v : StateView)

/-- Answered by a store, it is what the store says. -/
@[simp] theorem eval_hasContract (id : ContractId) :
    (hasContract id).eval v.answer = v.hasContract id := rfl

/-- Answered by a store, it is what the store says. -/
@[simp] theorem eval_getContract (id : ContractId) :
    (getContract id).eval v.answer = v.getContract id := rfl

/-- Answered by a store, it is what the store says. -/
@[simp] theorem eval_storageGet (id : ContractId) (key : Bytes) :
    (storageGet id key).eval v.answer = v.storageGet id key := rfl

/-- Answered by a store, it lists the contracts. -/
@[simp] theorem eval_contracts : contracts.eval v.answer = v.contracts := rfl

/-- Answered by a store, it lists the storage. -/
@[simp] theorem eval_storage : storage.eval v.answer = v.storage := rfl

end Eval

end ReadP

/-! ### Roots -/

/-- A store of which only the visited entries are known. -/
def visited (contracts : List (ContractId × CodeHash × Bytes))
    (storage : List (ContractId × Bytes × Bytes)) : StateView :=
  { Ledger.empty.view with contracts := contracts, storage := storage }

/-- The root, from two passes. -/
def computeRootP (H : Hashing) : ReadP StateRoot := do
  let contracts ← ReadP.contracts
  let storage ← ReadP.storage
  return computeRoot H (visited contracts storage)

/-- The root after a commit, from two passes. -/
def projectedRootP (H : Hashing) (commit : BlockCommit) : ReadP StateRoot := do
  let contracts ← ReadP.contracts
  let storage ← ReadP.storage
  return projectedRoot H (visited contracts storage) commit

/-- Without failing reads it is the root. -/
@[simp] theorem eval_computeRootP (H : Hashing) (v : StateView) :
    (computeRootP H).eval v.answer = computeRoot H v := rfl

/-- Without failing reads it is the root after the commit. -/
@[simp] theorem eval_projectedRootP (H : Hashing) (commit : BlockCommit) (v : StateView) :
    (projectedRootP H commit).eval v.answer = projectedRoot H v commit := rfl

/-! ### Calls of contracts -/

/-- The value a contract reads under one of its keys: the overlay's, else the stored one. -/
def HostState.lookupP (host : HostState) (key : Bytes) : ReadP (Option Bytes) :=
  match host.overlay[key]? with
  | some v => pure v
  | none => ReadP.storageGet host.contractId key

/-- Without failing reads a lookup is one. -/
@[simp] theorem HostState.eval_lookupP (host : HostState) (key : Bytes) :
    (host.lookupP key).eval host.base.answer = host.lookup key := by
  rw [lookupP, lookup]
  cases host.overlay[key]? <;> rfl

/-- `storage_get`, the host function that reads the store. -/
def storageGetM (caller : Caller) (keyPtr keyLen valPtr : Int32) : ReadM (Int32 × Caller) :=
  match caller.memory with
  | none => .mk (pure caller.refuse)
  | some data =>
      let s := asUsize keyPtr
      let e := saturatingAdd s (asUsize keyLen)
      if e > data.length then .mk (pure caller.refuse)
      else do
        let key ← .mk (pure (slice data s e))
        match ← ExceptT.lift (caller.data.lookupP key) with
        | none => .mk (pure caller.refuse)
        | some v =>
            let vlen := v.length
            let dst := asUsize valPtr
            match checkedAdd dst vlen with
            | none => .mk (pure caller.refuse)
            | some stop =>
                if stop > data.length then .mk (pure caller.refuse)
                else do
                  let data ← .mk (pure (copyFromSlice data dst stop v))
                  return (Int32.ofNat vlen, { caller with memory := some data })

/-- Run a host call. -/
def HostCall.runM (overflowChecks : Bool) (caller : Caller) : HostCall → ReadM (Int32 × Caller)
  | .storageGet keyPtr keyLen valPtr => storageGetM caller keyPtr keyLen valPtr
  | c => .mk (pure (c.run overflowChecks caller))

/-- Run a module to its end. -/
def Guest.runM (overflowChecks : Bool) :
    Guest → HostState → ReadM (ℕ × Except String Int32 × HostState)
  | done fuelLeft result, host => return (fuelLeft, result, host)
  | call c memory resume, host => do
      let (code, caller) ← c.runM overflowChecks ⟨memory, host⟩
      (resume code caller.memory).runM overflowChecks caller.data

/-- Without failing reads `storage_get` is itself. -/
theorem eval_storageGetM (caller : Caller) (keyPtr keyLen valPtr : Int32) :
    (storageGetM caller keyPtr keyLen valPtr).run.eval caller.data.base.answer =
      storageGet caller keyPtr keyLen valPtr := by
  rw [storageGetM, storageGet]
  cases caller.memory with
  | none => rfl
  | some data =>
      dsimp only
      split
      · rfl
      · rw [Prog.eval_run_bind]
        refine congrArg _ (funext fun key => ?_)
        rw [Prog.eval_run_lift_bind, HostState.eval_lookupP]
        cases caller.data.lookup key with
        | none => rfl
        | some v =>
            dsimp only
            cases checkedAdd (asUsize valPtr) v.length with
            | none => rfl
            | some stop =>
                dsimp only
                split
                · rfl
                · exact Prog.eval_run_bind _ _

/-- Without failing reads a host call is itself. -/
theorem HostCall.eval_runM (overflowChecks : Bool) (caller : Caller) (c : HostCall) :
    (c.runM overflowChecks caller).run.eval caller.data.base.answer =
      c.run overflowChecks caller := by
  cases c with
  | storageGet keyPtr keyLen valPtr => exact eval_storageGetM caller keyPtr keyLen valPtr
  | _ => rfl

/-- Without failing reads a guest runs as it is. -/
theorem Guest.eval_runM (overflowChecks : Bool) (g : Guest) (host : HostState) :
    (g.runM overflowChecks host).run.eval host.base.answer = g.run overflowChecks host := by
  induction g generalizing host with
  | done fuelLeft result => rfl
  | call c memory resume ih =>
      rw [runM, run, Prog.eval_run_bind]
      have hcall := HostCall.eval_runM overflowChecks ⟨memory, host⟩ c
      dsimp only at hcall
      rw [hcall]
      cases hrun : c.run overflowChecks ⟨memory, host⟩ with
      | error p => rfl
      | ok r =>
          obtain ⟨code, caller⟩ := r
          have hbase : caller.data.base = host.base := by
            cases HostCall.effect_of_run hrun <;> rfl
          change ((resume code caller.memory).runM overflowChecks caller.data).run.eval
            host.base.answer = (resume code caller.memory).run overflowChecks caller.data
          rw [← hbase]
          exact ih code caller.memory caller.data

section Programs

variable (P : Platform) (config : IndexerConfig) (base : StateView)

/-- Execute a contract call, buffering writes. The store that the host state names is not read;
its reads are calls like the others. -/
def executeM (E : Engine) (overflowChecks : Bool) (ctx : CallContext) : ReadM CallResult :=
  if ctx.depth > maxCallDepth then
    return .trap ("call depth " ++ toString ctx.depth ++ " exceeds MAX_CALL_DEPTH " ++
      toString maxCallDepth) 0
  else do
    match ← ExceptT.lift (ReadP.getContract ctx.contractId) with
    | none => return .contractNotFound
    | some (_, wasm) =>
        match parseModuleContained E wasm with
        | .error reason => return .invalidModule reason
        | .ok m =>
            match E.setFuel ctx.fuelLimit with
            | some e => return .trap ("set_fuel failed: " ++ e) 0
            | none =>
                match E.instantiate m ctx.fuelLimit with
                | .error (e, fuelLeft) =>
                    return .trap ("instantiation error: " ++ e) (ctx.fuelLimit - fuelLeft)
                | .ok none => return .trap "missing 'dispatch' export" 0
                | .ok (some dispatch) => do
                    let opcode := Int32.ofNat ctx.opcode.toNat
                    let inputLen := Int32.ofNat ctx.input.length
                    let (fuelLeft, result, host) ← (dispatch opcode inputLen).runM overflowChecks
                      (.init ctx base)
                    return .ofDispatch ctx.fuelLimit fuelLeft result host

/-- Without failing reads a call is executed as it is. -/
theorem eval_executeM (E : Engine) (overflowChecks : Bool) (ctx : CallContext) :
    (executeM base E overflowChecks ctx).run.eval base.answer =
      execute E overflowChecks ctx base := by
  rw [executeM, execute]
  split
  · rfl
  rw [Prog.eval_run_lift_bind, ReadP.eval_getContract]
  rcases base.getContract ctx.contractId with _ | ⟨_, wasm⟩
  · rfl
  dsimp only
  cases parseModuleContained E wasm with
  | error reason => rfl
  | ok m =>
      dsimp only
      cases E.setFuel ctx.fuelLimit with
      | some e => rfl
      | none =>
          dsimp only
          rcases E.instantiate m ctx.fuelLimit with ⟨e, fuelLeft⟩ | _ | dispatch
          · rfl
          · rfl
          · have hrun := Guest.eval_runM overflowChecks
              (dispatch (Int32.ofNat ctx.opcode.toNat) (Int32.ofNat ctx.input.length))
              (.init ctx base)
            rw [HostState.init] at hrun ⊢
            dsimp only at hrun ⊢
            rw [Prog.eval_run_bind, hrun]
            rfl

/-! ### Messages -/

/-- A deploy asks whether the contract is there. -/
def handleDeployP (acc : BlockAcc) (tx : ParsedTransaction) (deploy : DeployMessage) :
    ReadP BlockAcc :=
  match reconstruct P.hashing (carrierChunks tx) deploy.chunkCount deploy.codeLength
      deploy.codeHash with
  | .error _ => pure acc
  | .ok wasm => do
      let contractId :=
        ContractId.derive P.hashing config.network tx.txid deploy.outputIndex deploy.codeHash
      if ← ReadP.hasContract contractId then return acc
      else
        match validateModule P.engine wasm with
        | .error _ => return acc
        | .ok () =>
            return { acc with
              commit := { acc.commit with
                deploys := acc.commit.deploys ++ [(contractId, deploy.codeHash, wasm)] }
              deployed := acc.deployed ++ [contractId] }

/-- Without failing reads it is the deploy. -/
theorem eval_handleDeployP (acc : BlockAcc) (tx : ParsedTransaction) (deploy : DeployMessage) :
    (handleDeployP P config acc tx deploy).eval base.answer =
      handleDeploy P config base acc tx deploy := by
  rw [handleDeployP, handleDeploy]
  cases reconstruct P.hashing (carrierChunks tx) deploy.chunkCount deploy.codeLength
      deploy.codeHash with
  | error e => rfl
  | ok wasm =>
      dsimp only
      rw [Prog.eval_bind, ReadP.eval_hasContract]
      split
      · rfl
      · cases validateModule P.engine wasm <;> rfl

/-- Account for the result of a call, with the root that was computed before it. -/
def recordCallP (acc : TxAcc) (ctx : CallContext) (stateRootBefore : StateRoot)
    (result : CallResult) : ReadP TxAcc := do
  let (success, fuelUsed, output, error, writes) := result.parts
  let limits := { acc.block.limits with
    fuelUsed := saturatingAdd acc.block.limits.fuelUsed fuelUsed }
  let commit := writes.foldl applyStorageWrite acc.block.commit
  let stateRootAfter ← projectedRootP P.hashing commit
  let execution : Execution := {
    txid := ctx.txid
    contractId := ctx.contractId
    opcode := ctx.opcode
    success := success
    fuelUsed := fuelUsed
    returnData := output
    error := error
    stateRootBefore := stateRootBefore
    stateRootAfter := stateRootAfter
    blockHeight := commit.height
    blockHash := commit.zcashBlockHash }
  return {
    block := { acc.block with
      commit := commit
      executions := acc.block.executions ++ [execution]
      limits := limits
      results := acc.block.results ++ [(ctx, result)] }
    fuelUsed := saturatingAdd acc.fuelUsed fuelUsed
    messages := acc.messages }

/-- A call reads the root before it, and then runs. -/
def executeCallM (acc : TxAcc) (tx : ParsedTransaction) (contractId : ContractId)
    (opcode : UInt16) (input : Bytes) : ReadM TxAcc :=
  if fuelLimit acc = 0 then return acc
  else do
    let ctx := callContext acc tx contractId opcode input
    let stateRootBefore ← ExceptT.lift (computeRootP P.hashing)
    let result ← executeM base P.engine P.overflowChecks ctx
    ExceptT.lift (recordCallP P acc ctx stateRootBefore result)

/-- Without failing reads a call is recorded as it is. -/
theorem eval_recordCallP (acc : TxAcc) (ctx : CallContext) (result : CallResult) :
    (recordCallP P acc ctx (computeRoot P.hashing base) result).eval base.answer =
      recordCall P base acc ctx result := by
  cases result <;> rfl

/-- Without failing reads it is the call. -/
theorem eval_executeCallM (acc : TxAcc) (tx : ParsedTransaction) (contractId : ContractId)
    (opcode : UInt16) (input : Bytes) :
    (executeCallM P base acc tx contractId opcode input).run.eval base.answer =
      executeCall P base acc tx contractId opcode input := by
  rw [executeCallM, executeCall]
  split
  · rfl
  · rw [Prog.eval_run_lift_bind, eval_computeRootP, Prog.eval_run_bind, eval_executeM]
    dsimp only
    cases execute P.engine P.overflowChecks (callContext acc tx contractId opcode input) base with
    | error p => rfl
    | ok result =>
        refine (Prog.eval_run_lift _).trans ?_
        rw [eval_recordCallP]
        rfl

/-- A call whose input is inline. -/
def handleCallM (acc : TxAcc) (tx : ParsedTransaction) (call : CallMessage) : ReadM TxAcc :=
  executeCallM P base acc tx call.contractId call.opcode call.input

/-- A call whose input comes by carrier. -/
def handleCallCarrierM (acc : TxAcc) (tx : ParsedTransaction) (call : CallCarrierMessage) :
    ReadM TxAcc :=
  match reconstruct P.hashing (carrierChunks tx) call.carrierCount call.inputLength
      call.inputHash with
  | .error _ => return acc
  | .ok calldata => executeCallM P base acc tx call.contractId call.opcode calldata

/-- Handle one message, within the byte caps of the block. -/
def handleMessageM (acc : TxAcc) (tx : ParsedTransaction) (outIdx : UInt16) :
    Message → ReadM TxAcc
  | .deploy deploy =>
      if deploy.outputIndex ≠ outIdx then return acc
      else
        let length := deploy.codeLength.toNat
        let limits := { acc.block.limits with
          carrierBytes := saturatingAdd acc.block.limits.carrierBytes length
          deployBytes := saturatingAdd acc.block.limits.deployBytes length }
        let acc := acc.setLimits limits
        if limits.carrierBytes > maxCarrierBytesPerBlock ∨
            limits.deployBytes > maxDeployBytesPerBlock then return acc
        else do
          let block ← ExceptT.lift (handleDeployP P config acc.block tx deploy)
          return { acc with block := block }
  | .call call => handleCallM P base acc tx call
  | .callCarrier call =>
      let limits := { acc.block.limits with
        carrierBytes := saturatingAdd acc.block.limits.carrierBytes call.inputLength.toNat }
      let acc := acc.setLimits limits
      if limits.carrierBytes > maxCarrierBytesPerBlock then return acc
      else handleCallCarrierM P base acc tx call

/-- Without failing reads a message is handled as it is. -/
theorem eval_handleMessageM (acc : TxAcc) (tx : ParsedTransaction) (outIdx : UInt16)
    (message : Message) :
    (handleMessageM P config base acc tx outIdx message).run.eval base.answer =
      handleMessage P config base acc tx outIdx message := by
  cases message with
  | deploy deploy =>
      rw [handleMessageM, handleMessage]
      split
      · rfl
      · dsimp only
        split
        · rfl
        · rw [Prog.eval_run_lift_bind, eval_handleDeployP]
          rfl
  | call call => exact eval_executeCallM P base acc tx call.contractId call.opcode call.input
  | callCarrier call =>
      rw [handleMessageM, handleMessage]
      dsimp only
      split
      · rfl
      · rw [handleCallCarrierM, handleCallCarrier]
        cases reconstruct P.hashing (carrierChunks tx) call.carrierCount call.inputLength
            call.inputHash with
        | error e => rfl
        | ok calldata => exact eval_executeCallM P base _ tx call.contractId call.opcode calldata

/-- Go through the outputs of a transaction. Past a message cap, the rest is skipped. -/
def processOutputsM (tx : ParsedTransaction) : List (UInt16 × Bytes) → TxAcc → ReadM BlockAcc
  | [], acc => return acc.block
  | (outIdx, scriptPubkey) :: outputs, acc =>
      match outputMessage scriptPubkey with
      | none => processOutputsM tx outputs acc
      | some message => do
          let txMessages ← .mk (pure (plainAdd32 P.overflowChecks acc.messages 1))
          let messages ← .mk (pure (plainAdd32 P.overflowChecks acc.block.limits.messages 1))
          let acc := { acc.setLimits { acc.block.limits with messages := messages } with
            messages := txMessages }
          if txMessages > maxZalkMessagesPerTx ∨ messages > maxZalkMessagesPerBlock then
            return acc.block
          else
            let acc ← handleMessageM P config base acc tx outIdx message
            processOutputsM tx outputs acc

/-- Without failing reads the outputs of a transaction are processed as they are. -/
theorem eval_processOutputsM (tx : ParsedTransaction) (outputs : List (UInt16 × Bytes))
    (acc : TxAcc) : (processOutputsM P config base tx outputs acc).run.eval base.answer =
      processOutputs P config base tx outputs acc := by
  induction outputs generalizing acc with
  | nil => rfl
  | cons output outputs ih =>
      obtain ⟨outIdx, scriptPubkey⟩ := output
      rw [processOutputsM, processOutputs]
      cases outputMessage scriptPubkey with
      | none => exact ih acc
      | some message =>
          dsimp only
          rw [Prog.eval_run_bind]
          refine congrArg _ (funext fun txMessages => ?_)
          rw [Prog.eval_run_bind]
          refine congrArg _ (funext fun messages => ?_)
          split
          · rfl
          · rw [Prog.eval_run_bind, eval_handleMessageM]
            exact congrArg _ (funext ih)

/-- The outputs of a transaction, from nothing. -/
def processTransactionM (acc : BlockAcc) (tx : ParsedTransaction) : ReadM BlockAcc :=
  processOutputsM P config base tx tx.outputs ⟨acc, 0, 0⟩

/-- Go through the transactions of a block. -/
def processTransactionsM (parsed : ParsedBlock) : ReadM BlockAcc :=
  parsed.transactions.foldlM (processTransactionM P config base)
    (BlockAcc.init parsed.height parsed.hash)

/-- **Answered as a store answers, block processing reads what it reads from that store.** -/
theorem eval_processTransactionsM (parsed : ParsedBlock) :
    (processTransactionsM P config base parsed).run.eval base.answer =
      processTransactions P config base parsed :=
  Prog.eval_run_foldlM (fun acc tx => eval_processOutputsM P config base tx tx.outputs ⟨acc, 0, 0⟩)
    parsed.transactions _

end Programs

/-! ### Commits -/

/-- What a commit reads for its journal and its batch. -/
structure CommitReads where
  deployOps : List UndoOp
  setOps : List UndoOp
  /-- For each delete that removes something: the contract, the key, and what it removes. -/
  removed : List (ContractId × Bytes × Bytes)

/-- What a delete effectively removes: the commit's own upsert, else the stored value. -/
def removedP (commit : BlockCommit) (cid : ContractId) (key : Bytes) :
    ReadP (Option (ContractId × Bytes × Bytes)) := do
  let prev ← match (RocksState.upserted commit)[(cid, key)]? with
    | some v => pure (some v)
    | none => ReadP.storageGet cid key
  return prev.map fun prev => (cid, key, prev)

/-- What is read for the journal of a commit. -/
def commitReadsP (commit : BlockCommit) : ReadP CommitReads := do
  let deployOps ← commit.deploys.mapM fun (id, _, _) => do
    return UndoOp.deploy id (← ReadP.getContract id)
  let setOps ← commit.upserts.mapM fun (cid, key, _) => do
    return UndoOp.set cid key (← ReadP.storageGet cid key)
  let removed ← commit.deletes.mapM fun (cid, key) => removedP commit cid key
  return ⟨deployOps, setOps, removed.filterMap fun entry => entry⟩

/-- The batch of a commit. -/
def CommitReads.batch (reads : CommitReads) (commit : BlockCommit) (root : StateRoot) :
    WriteBatch :=
  commit.deploys.map (fun (id, codeHash, wasm) =>
      .put (.contract id) (RocksState.contractValue (codeHash, wasm))) ++
    commit.upserts.map (fun (cid, key, value) => .put (.storage cid key) value) ++
    reads.removed.map (fun (cid, key, _) => .del (.storage cid key)) ++
    RocksState.recordBatch commit
      (reads.deployOps ++ reads.setOps ++
        reads.removed.map fun (cid, key, prev) => .delete cid key prev) root

/-- Commit a block: read the journal, project the root, write, and compute the root again. -/
def commitBlockP (H : Hashing) (commit : BlockCommit) : StoreP (Except String StateRoot) := do
  let reads ← reading (commitReadsP commit)
  let root ← reading (projectedRootP H commit)
  Prog.call (StoreCall.write (reads.batch commit root))
  let applied ← reading (computeRootP H)
  if applied ≠ root then
    return .error ("post-commit state root mismatch at height " ++ toString commit.height ++
      ": projected " ++ RocksState.asHex root ++ " != applied " ++ RocksState.asHex applied)
  else return .ok root

/-- The records are encoded, and then written as one batch. -/
def saveExecutionsP (json : Execution → Except String Bytes) (executions : List Execution) :
    StoreP (Except String Unit) :=
  match executions.mapM fun e => (json e).map fun bytes => (e, bytes) with
  | .error e => return .error e
  | .ok encoded => do
      Prog.call (StoreCall.write (encoded.flatMap fun (e, bytes) =>
        [.put (.exec e.txid) bytes, .put (.execHeight e.blockHeight) []]))
      return .ok ()

/-- Without failing reads a delete removes what is there. -/
theorem eval_removedP (s : RocksState) (commit : BlockCommit) (cid : ContractId) (key : Bytes) :
    (removedP commit cid key).eval s.view.answer =
      (s.effective commit cid key).map fun prev => (cid, key, prev) := by
  rw [removedP, RocksState.effective]
  cases (RocksState.upserted commit)[(cid, key)]? <;> rfl

/-- Without failing reads the journal is the journal. -/
theorem eval_commitReadsP (s : RocksState) (commit : BlockCommit) :
    (commitReadsP commit).eval s.view.answer = ⟨s.deployOps commit, s.setOps commit,
      commit.deletes.filterMap fun (cid, key) =>
        (s.effective commit cid key).map fun prev => (cid, key, prev)⟩ := by
  simp only [commitReadsP, Prog.eval_bind, Prog.eval_pure, Prog.eval_mapM, List.filterMap_map]
  exact congrArg (CommitReads.mk _ _)
    (List.filterMap_congr fun k _ => eval_removedP s commit k.1 k.2)

/-- **What a commit reads from a store** makes up the batch of the commit there. -/
theorem batch_eval_commitReadsP (s : RocksState) (commit : BlockCommit) (root : StateRoot) :
    ((commitReadsP commit).eval s.view.answer).batch commit root =
      s.dataBatch commit ++ RocksState.recordBatch commit (s.journal commit) root := by
  rw [eval_commitReadsP, CommitReads.batch, RocksState.dataBatch, RocksState.journal,
    RocksState.deleteOps, List.map_filterMap, List.map_filterMap]
  simp only [Option.map_map]
  rfl

/-! ### Blocks -/

section Blocks

variable (P : Platform) (config : IndexerConfig) (base : StateView)

/-- Commit an empty block. -/
def commitEmptyBlockP (height : BlockHeight) (hash : BlockHash) :
    StoreP (Except String BlockExecution) := do
  match ← commitBlockP P.hashing (.empty height hash) with
  | .error e => return .error e
  | .ok root => return .ok ⟨height, hash, root, root, [], []⟩

/-- Commit what the transactions of a block have accumulated, and save its execution records. -/
def finishBlockP (parsed : ParsedBlock) (stateRootBefore : StateRoot) (acc : BlockAcc) :
    StoreP (Except String BlockExecution) := do
  match ← commitBlockP P.hashing acc.commit with
  | .error e => return .error e
  | .ok stateRootAfter =>
      match ← saveExecutionsP P.json acc.executions with
      | .error e => return .error e
      | .ok () => return .ok ⟨parsed.height, parsed.hash, stateRootBefore, stateRootAfter,
          acc.executions, acc.deployed⟩

/-- Process an already-parsed block. -/
def processParsedBlockM (parsed : ParsedBlock) :
    StoreP (Except Panic (Except String BlockExecution)) :=
  match config.activationHeight with
  | none => do
      let stateRootBefore ← reading (computeRootP P.hashing)
      let stateRootAfter ← reading (computeRootP P.hashing)
      return .ok (.ok ⟨parsed.height, parsed.hash, stateRootBefore, stateRootAfter, [], []⟩)
  | some activation =>
      if parsed.height < activation then
        return .ok (← commitEmptyBlockP P parsed.height parsed.hash)
      else do
        let stateRootBefore ← reading (computeRootP P.hashing)
        match ← reading (processTransactionsM P config base parsed).run with
        | .error panic => return .error panic
        | .ok acc => return .ok (← finishBlockP P parsed stateRootBefore acc)

end Blocks

/-! ### Runs without failures -/

/-- Reads may be answered as the store answers them, and writes are applied. -/
structure Truthful (A : Answers StoreCall.Answer RocksState) : Prop where
  read (s : RocksState) (query : StoreRead) : A s (.read query) (s.view.answer query) s
  write (s : RocksState) (batch : WriteBatch) : A s (.write batch) () (s.write batch)

section Truthful

variable {A : Answers StoreCall.Answer RocksState} {P : Platform} {config : IndexerConfig}
  {H : Hashing} {s : RocksState}

/-- A truthful database may answer what it holds. -/
theorem Truthful.yields_reading {α : Type} (hA : Truthful A) (p : ReadP α) (s : RocksState) :
    Prog.Yields A (reading p) s (p.eval s.view.answer) s :=
  Prog.yields_inject.mpr (Prog.yields_eval (hA.read s) p)

/-- A commit whose two passes over the store are answered consistently. -/
theorem Truthful.yields_commitBlockP (hA : Truthful A) {c : BlockCommit}
    {contracts contracts' : List (ContractId × CodeHash × Bytes)}
    {storage storage' : List (ContractId × Bytes × Bytes)} {root : StateRoot} {s' : RocksState}
    (hroot : root = projectedRoot H (visited contracts storage) c)
    (hs' : s' = s.write (s.dataBatch c ++ RocksState.recordBatch c (s.journal c) root))
    (hcontracts : A s (.read .contracts) contracts s) (hstorage : A s (.read .storage) storage s)
    (hcontracts' : A s' (.read .contracts) contracts' s')
    (hstorage' : A s' (.read .storage) storage' s')
    (happlied : computeRoot H (visited contracts' storage') = root) :
    Prog.Yields A (commitBlockP H c) s (.ok root) s' := by
  have hprojected : Prog.Yields A (reading (projectedRootP H c)) s root s :=
    Prog.yields_inject.mpr (.perform hcontracts (.perform hstorage (hroot ▸ .done _ _)))
  have hwrite : A s (.write (((commitReadsP c).eval s.view.answer).batch c root)) () s' := by
    rw [batch_eval_commitReadsP, hs']
    exact hA.write s _
  have hcompute : Prog.Yields A (reading (computeRootP H)) s' root s' :=
    Prog.yields_inject.mpr (.perform hcontracts' (.perform hstorage' (happlied ▸ .done _ _)))
  rw [commitBlockP]
  refine Prog.yields_bind.mpr ⟨_, s, hA.yields_reading (commitReadsP c) s, ?_⟩
  refine Prog.yields_bind.mpr ⟨root, s, hprojected, ?_⟩
  refine Prog.yields_bind.mpr ⟨(), s', Prog.yields_call.mpr hwrite, ?_⟩
  refine Prog.yields_bind.mpr ⟨root, s', hcompute, ?_⟩
  rw [if_neg (not_not.mpr rfl)]
  exact .done _ _

/-- A commit, as the model has it: without failures, the roots agree. -/
theorem Truthful.yields_commitBlock (hA : Truthful A) (s : RocksState) (c : BlockCommit) :
    Prog.Yields A (commitBlockP H c) s (.ok ((s.ledger.apply c).root H))
      (s.write (s.commitBatch H c)) := by
  have happlied : computeRoot H (s.write (s.commitBatch H c)).view = (s.ledger.apply c).root H := by
    rw [RocksState.computeRoot_view, RocksState.ledger_write_commitBatch]
  exact hA.yields_commitBlockP (RocksState.projectedRoot_view H s c).symm rfl
    (hA.read s .contracts) (hA.read s .storage) (hA.read _ .contracts) (hA.read _ .storage) happlied

/-- It may save the records. -/
theorem Truthful.yields_saveExecutionsP (hA : Truthful A) (json : Execution → Except String Bytes)
    (s : RocksState) (executions : List Execution) :
    Prog.Yields A (saveExecutionsP json executions) s (s.saveExecutions json executions).2
      (s.saveExecutions json executions).1 := by
  rw [saveExecutionsP, RocksState.saveExecutions]
  cases executions.mapM fun e => (json e).map fun bytes => (e, bytes) with
  | error e => exact .done _ _
  | ok encoded => exact .perform (hA.write s _) (.done _ _)

/-- **Without failures, the program processes a block as the model does.** -/
theorem Truthful.yields_processParsedBlockM (hA : Truthful A) {s' : RocksState}
    {parsed : ParsedBlock} {res : Except String BlockExecution}
    (h : processParsedBlock (RocksState.store P.hashing P.json) P config s parsed =
      .ok (s', res)) :
    Prog.Yields A (processParsedBlockM P config s.view parsed) s (.ok res) s' := by
  have hstore := fun c : BlockCommit =>
    show (RocksState.store P.hashing P.json).commitBlock s c = _ from s.commitBlock_eq P.hashing c
  have hroot := hA.yields_reading (computeRootP P.hashing) s
  unfold processParsedBlock at h
  unfold processParsedBlockM
  cases hact : config.activationHeight with
  | none =>
      rw [hact] at h
      obtain ⟨rfl, rfl⟩ := Prod.mk.inj (Except.ok.inj h)
      exact Prog.yields_bind.mpr ⟨_, s, hroot, Prog.yields_bind.mpr ⟨_, s, hroot, .done _ _⟩⟩
  | some activation =>
      rw [hact] at h
      dsimp only at h ⊢
      split at h
      · rename_i hlt
        rw [if_pos hlt]
        rw [commitEmptyBlock, hstore] at h
        obtain ⟨rfl, rfl⟩ := Prod.mk.inj (Except.ok.inj h)
        exact Prog.yields_bind.mpr ⟨_, _, Prog.yields_bind.mpr
          ⟨_, _, hA.yields_commitBlock s _, .done _ _⟩, .done _ _⟩
      · rename_i hge
        rw [if_neg hge]
        obtain ⟨acc, hacc, h⟩ := bind_eq_ok h
        have hread := hA.yields_reading (processTransactionsM P config s.view parsed).run s
        rw [eval_processTransactionsM,
          show processTransactions P config s.view parsed = .ok acc from hacc] at hread
        refine Prog.yields_bind.mpr ⟨_, s, hroot, Prog.yields_bind.mpr ⟨_, s, hread, ?_⟩⟩
        rw [hstore] at h
        have hsave := hA.yields_saveExecutionsP P.json
          (s.write (s.commitBatch P.hashing acc.commit)) acc.executions
        dsimp only at h
        split at h
        all_goals
          rename_i hres
          rw [show RocksState.saveExecutions P.json _ _ = _ from hres] at hsave
          obtain ⟨rfl, rfl⟩ := Prod.mk.inj (Except.ok.inj h)
          exact Prog.yields_bind.mpr ⟨_, _, Prog.yields_bind.mpr ⟨_, _,
            hA.yields_commitBlock s acc.commit, Prog.yields_bind.mpr ⟨_, _, hsave, .done _ _⟩⟩,
            .done _ _⟩

end Truthful

end Zalkanes
