import Zalkanes.Indexer.Process
import Zalkanes.Runtime.Calls

/-!
# What Processing a Block Can Do

Every change to the accumulator of a block is one of three: the resource accounting changes, a
deploy is accepted, or a call is executed and recorded (`BlockAcc.Effect`). What the three
preserve holds of the commit that a block ends with.

## Main results

* `processTransactions_effects`: processing a block is a chain of such changes.
* `execute_of_mem_results`: the recorded calls, executed on the store before the block.
* `storageWrites_processTransactions`: the commit of a block separates the puts of its calls from
  their deletes.
-/

namespace Zalkanes

open Lib

/-- The transaction carries the message in the output of this index. -/
def ParsedTransaction.Carries (tx : ParsedTransaction) (outIdx : UInt16) (message : Message) :
    Prop :=
  ∃ scriptPubkey, (outIdx, scriptPubkey) ∈ tx.outputs ∧ outputMessage scriptPubkey = some message

section Effects

variable (P : Platform) (config : IndexerConfig) (store : StateView)

/-- The changes that the messages of a transaction make to the accumulator of the block. -/
inductive BlockAcc.Effect (tx : ParsedTransaction) : BlockAcc → BlockAcc → Prop
  | limits (acc : BlockAcc) (limits : BlockLimits) : Effect tx acc { acc with limits := limits }
  | deploy (acc : BlockAcc) (deploy : DeployMessage)
      (h : tx.Carries deploy.outputIndex (.deploy deploy)) :
      Effect tx acc (handleDeploy P config store acc tx deploy)
  | call (acc : TxAcc) (contractId : ContractId) (opcode : UInt16) (input : Bytes)
      (result : CallResult)
      (h : execute P.engine P.overflowChecks (callContext acc tx contractId opcode input) store =
        .ok result) :
      Effect tx acc.block
        (recordCall P store acc (callContext acc tx contractId opcode input) result).block

/-- Chains of changes. -/
abbrev BlockAcc.Effects (txs : List ParsedTransaction) : BlockAcc → BlockAcc → Prop :=
  Relation.ReflTransGen fun acc acc' => ∃ tx ∈ txs, BlockAcc.Effect P config store tx acc acc'

end Effects

section Chains

variable {P : Platform} {config : IndexerConfig} {store : StateView}
  {txs : List ParsedTransaction} {tx : ParsedTransaction}

/-- A call has effects of the block. -/
theorem executeCall_effects (htx : tx ∈ txs) {acc acc' : TxAcc} {contractId : ContractId}
    {opcode : UInt16} {input : Bytes}
    (h : executeCall P store acc tx contractId opcode input = .ok acc') :
    BlockAcc.Effects P config store txs acc.block acc'.block := by
  unfold executeCall at h
  split at h
  · rw [Except.ok.inj h]
  · obtain ⟨result, hexec, rfl⟩ := map_eq_ok h
    exact .single ⟨tx, htx, .call acc contractId opcode input result hexec⟩

/-- A message has effects of the block. -/
theorem handleMessage_effects (htx : tx ∈ txs) {acc acc' : TxAcc} {outIdx : UInt16}
    {message : Message} (hcarries : tx.Carries outIdx message)
    (h : handleMessage P config store acc tx outIdx message = .ok acc') :
    BlockAcc.Effects P config store txs acc.block acc'.block := by
  have hlimits : ∀ limits, BlockAcc.Effects P config store txs acc.block
      (acc.setLimits limits).block := fun limits => .single ⟨tx, htx, .limits acc.block limits⟩
  cases message with
  | deploy deploy =>
      simp only [handleMessage] at h
      split at h
      · rw [Except.ok.inj h]
      rename_i hindex
      split at h
      · exact Except.ok.inj h ▸ hlimits _
      · rw [← Except.ok.inj h]
        refine (hlimits _).tail ⟨tx, htx, .deploy _ deploy ?_⟩
        rwa [not_not.mp hindex]
  | call call => exact executeCall_effects htx h
  | callCarrier call =>
      simp only [handleMessage] at h
      split at h
      · exact Except.ok.inj h ▸ hlimits _
      · unfold handleCallCarrier at h
        split at h
        · exact Except.ok.inj h ▸ hlimits _
        · exact (hlimits _).trans (executeCall_effects htx h)

/-- The outputs of a transaction have effects of the block. -/
theorem processOutputs_effects (htx : tx ∈ txs) {outputs : List (UInt16 × Bytes)}
    (houtputs : ∀ output ∈ outputs, output ∈ tx.outputs) {acc : TxAcc} {acc' : BlockAcc}
    (h : processOutputs P config store tx outputs acc = .ok acc') :
    BlockAcc.Effects P config store txs acc.block acc' := by
  induction outputs generalizing acc with
  | nil => rw [Except.ok.inj h]
  | cons output outputs ih =>
      obtain ⟨outIdx, scriptPubkey⟩ := output
      have hrest : ∀ output ∈ outputs, output ∈ tx.outputs := fun output houtput =>
        houtputs output (by simp [houtput])
      unfold processOutputs at h
      split at h
      · exact ih hrest h
      · rename_i message hmessage
        have hcarries : tx.Carries outIdx message :=
          ⟨scriptPubkey, houtputs _ (by simp), hmessage⟩
        obtain ⟨txMessages, -, h⟩ := bind_eq_ok h
        obtain ⟨messages, -, h⟩ := bind_eq_ok h
        have hlimits : BlockAcc.Effects P config store txs acc.block
            (acc.setLimits { acc.block.limits with messages := messages }).block :=
          .single ⟨tx, htx, .limits acc.block _⟩
        simp only at h
        split at h
        · exact Except.ok.inj h ▸ hlimits
        · obtain ⟨acc₁, hacc₁, h⟩ := bind_eq_ok h
          have hhandled := handleMessage_effects htx hcarries hacc₁
          exact (hlimits.trans hhandled).trans (ih hrest h)

/-- Transactions have effects of the block. -/
theorem foldlM_processTransaction_effects {acc acc' : BlockAcc} {rest : List ParsedTransaction}
    (hrest : ∀ tx ∈ rest, tx ∈ txs)
    (h : rest.foldlM (processTransaction P config store) acc = .ok acc') :
    BlockAcc.Effects P config store txs acc acc' := by
  induction rest generalizing acc with
  | nil => rw [Except.ok.inj h]
  | cons tx rest ih =>
      rw [List.foldlM_cons] at h
      obtain ⟨acc₁, htx, h⟩ := bind_eq_ok h
      exact (processOutputs_effects (hrest tx (by simp)) (fun _ houtput => houtput) htx).trans
        (ih (fun t ht => hrest t (by simp [ht])) h)

/-- **Processing a block is a chain of changes**, made by its transactions. -/
theorem processTransactions_effects {parsed : ParsedBlock} {acc : BlockAcc}
    (h : processTransactions P config store parsed = .ok acc) :
    BlockAcc.Effects P config store parsed.transactions
      (BlockAcc.init parsed.height parsed.hash) acc :=
  foldlM_processTransaction_effects (fun _ htx => htx) h

/-- **The invariant rule of a block**: what every change preserves, the chain preserves. -/
theorem BlockAcc.Effects.invariant {I : BlockAcc → Prop} {acc acc' : BlockAcc}
    (h : BlockAcc.Effects P config store txs acc acc')
    (hstep : ∀ tx ∈ txs, ∀ acc acc', BlockAcc.Effect P config store tx acc acc' → I acc → I acc')
    (hI : I acc) : I acc' := by
  induction h with
  | refl => exact hI
  | tail _ hlast ih =>
      obtain ⟨tx, htx, heff⟩ := hlast
      exact hstep tx htx _ _ heff ih

/-! ### Deploys and calls -/

variable (P config store) in
/-- What a deploy can do: nothing, or append one contract. -/
theorem handleDeploy_cases (acc : BlockAcc) (tx : ParsedTransaction) (deploy : DeployMessage) :
    handleDeploy P config store acc tx deploy = acc ∨
      ∃ wasm, reconstruct P.hashing (carrierChunks tx) deploy.chunkCount deploy.codeLength
          deploy.codeHash = .ok wasm ∧
        store.hasContract (ContractId.derive P.hashing config.network tx.txid deploy.outputIndex
          deploy.codeHash) = false ∧
        validateModule P.engine wasm = .ok () ∧
        handleDeploy P config store acc tx deploy =
          { acc with
            commit := { acc.commit with
              deploys := acc.commit.deploys ++ [(ContractId.derive P.hashing config.network tx.txid
                deploy.outputIndex deploy.codeHash, deploy.codeHash, wasm)] }
            deployed := acc.deployed ++ [ContractId.derive P.hashing config.network tx.txid
              deploy.outputIndex deploy.codeHash] } := by
  unfold handleDeploy
  cases hrec : reconstruct P.hashing (carrierChunks tx) deploy.chunkCount deploy.codeLength
      deploy.codeHash with
  | error e => exact Or.inl rfl
  | ok wasm =>
      dsimp only
      split
      · exact Or.inl rfl
      · rename_i hnew
        cases hvalid : validateModule P.engine wasm with
        | error e => exact Or.inl rfl
        | ok u => exact Or.inr ⟨wasm, rfl, Bool.eq_false_iff.mpr hnew, hvalid, rfl⟩

variable (P config store) in
/-- What a deploy leaves alone. -/
theorem handleDeploy_frame (acc : BlockAcc) (tx : ParsedTransaction) (deploy : DeployMessage) :
    let acc' := handleDeploy P config store acc tx deploy
    acc'.commit.height = acc.commit.height ∧
      acc'.commit.zcashBlockHash = acc.commit.zcashBlockHash ∧
      acc'.commit.upserts = acc.commit.upserts ∧ acc'.commit.deletes = acc.commit.deletes ∧
      acc'.results = acc.results := by
  rcases handleDeploy_cases P config store acc tx deploy with heq | ⟨wasm, -, -, -, heq⟩
  · simp only [heq, and_self]
  · simp only [heq, and_self]

/-- The last part of a result is its writes. -/
theorem parts_writes (result : CallResult) : result.parts.2.2.2.2 = result.writes := by
  cases result <;> rfl

/-- The writes of a call, appended to a commit. -/
theorem foldl_applyStorageWrite (commit : BlockCommit) (writes : List StorageWrite) :
    writes.foldl applyStorageWrite commit =
      { commit with
        upserts := commit.upserts ++ writes.filterMap fun
          | .set cid key value => some (cid, key, value)
          | .delete _ _ => none
        deletes := commit.deletes ++ writes.filterMap fun
          | .set _ _ _ => none
          | .delete cid key => some (cid, key) } := by
  induction writes generalizing commit with
  | nil => simp
  | cons w writes ih =>
      rw [List.foldl_cons, ih]
      cases w <;> simp [applyStorageWrite]

/-- The commit after a call. -/
theorem recordCall_commit (acc : TxAcc) (ctx : CallContext) (result : CallResult) :
    (recordCall P store acc ctx result).block.commit =
      result.writes.foldl applyStorageWrite acc.block.commit := by
  rw [← parts_writes]
  rfl

/-- A call that is recorded is a result. -/
theorem recordCall_results (acc : TxAcc) (ctx : CallContext) (result : CallResult) :
    (recordCall P store acc ctx result).block.results = acc.block.results ++ [(ctx, result)] :=
  rfl

/-- Height and hash of the commit of a block are those of the block. -/
theorem commit_processTransactions {parsed : ParsedBlock} {acc : BlockAcc}
    (h : processTransactions P config store parsed = .ok acc) :
    acc.commit.height = parsed.height ∧ acc.commit.zcashBlockHash = parsed.hash := by
  refine (processTransactions_effects h).invariant (I := fun acc =>
    acc.commit.height = parsed.height ∧ acc.commit.zcashBlockHash = parsed.hash) ?_ ⟨rfl, rfl⟩
  rintro tx - acc acc' heff hI
  cases heff with
  | limits => exact hI
  | deploy _ deploy =>
      obtain ⟨hheight, hhash, -⟩ := handleDeploy_frame P config store acc tx deploy
      rw [hheight, hhash]
      exact hI
  | call acc contractId opcode input result hexec =>
      rw [recordCall_commit, foldl_applyStorageWrite]
      exact hI

/-! ### The calls of a block -/

/-- **Every call of a block is executed on the store before the block.** -/
theorem execute_of_mem_results {parsed : ParsedBlock} {acc : BlockAcc}
    (h : processTransactions P config store parsed = .ok acc) :
    ∀ r ∈ acc.results, execute P.engine P.overflowChecks r.1 store = .ok r.2 := by
  refine (processTransactions_effects h).invariant (I := fun acc =>
    ∀ r ∈ acc.results, execute P.engine P.overflowChecks r.1 store = .ok r.2) ?_
    (fun r hr => absurd hr List.not_mem_nil)
  rintro tx - acc acc' heff hI r hr
  cases heff with
  | limits => exact hI r hr
  | deploy _ deploy =>
      obtain ⟨-, -, -, -, hresults⟩ := handleDeploy_frame P config store acc tx deploy
      exact hI r (hresults ▸ hr)
  | call acc contractId opcode input result hexec =>
      rw [recordCall_results, List.mem_append, List.mem_singleton] at hr
      rcases hr with hr | rfl
      · exact hI r hr
      · exact hexec

/-- The write that a storage write makes to the storage map. -/
def StorageWrite.write : StorageWrite → Write (ContractId × Bytes) Bytes
  | set cid key value => .put (cid, key) value
  | delete cid key => .del (cid, key)

/-- The writes of the calls of a block, in block order. -/
def writeLog (results : List (CallContext × CallResult)) :
    List (Write (ContractId × Bytes) Bytes) :=
  results.flatMap fun r => r.2.writes.map StorageWrite.write

/-- The log goes on with the writes of the last call. -/
theorem writeLog_append_singleton (results : List (CallContext × CallResult))
    (r : CallContext × CallResult) :
    writeLog (results ++ [r]) = writeLog results ++ r.2.writes.map StorageWrite.write := by
  rw [writeLog, writeLog, List.flatMap_append, List.flatMap_singleton]

/-- The upserts of a commit are the puts of a log, and its deletes the deletes. -/
def BlockCommit.Splits (c : BlockCommit) (log : List (Write (ContractId × Bytes) Bytes)) : Prop :=
  c.upserts.map (fun u => Write.put (u.1, u.2.1) u.2.2) = log.filter (·.isPut) ∧
    c.deletes.map (fun d => Write.del (d.1, d.2)) = log.filter (!·.isPut)

/-- Appending the writes of a call to a commit and to a log. -/
theorem BlockCommit.Splits.append {c : BlockCommit} {log : List (Write (ContractId × Bytes) Bytes)}
    (h : c.Splits log) (writes : List StorageWrite) :
    (writes.foldl applyStorageWrite c).Splits (log ++ writes.map StorageWrite.write) := by
  induction writes generalizing c log with
  | nil => simpa using h
  | cons w writes ih =>
      rw [List.foldl_cons, List.map_cons, ← List.singleton_append, ← List.append_assoc]
      refine ih ?_
      obtain ⟨hputs, hdels⟩ := h
      rw [Splits, List.filter_append, List.filter_append, ← hputs, ← hdels]
      cases w with
      | set cid key value => exact ⟨List.map_append, (List.append_nil _).symm⟩
      | delete cid key => exact ⟨(List.append_nil _).symm, List.map_append⟩

/-- **The commit of a block separates the puts of its calls from their deletes.** -/
theorem splits_processTransactions {parsed : ParsedBlock} {acc : BlockAcc}
    (h : processTransactions P config store parsed = .ok acc) :
    acc.commit.Splits (writeLog acc.results) := by
  refine (processTransactions_effects h).invariant
    (I := fun acc => acc.commit.Splits (writeLog acc.results)) ?_ ⟨rfl, rfl⟩
  rintro tx - acc acc' heff hI
  cases heff with
  | limits => exact hI
  | deploy _ deploy =>
      obtain ⟨-, -, hupserts, hdeletes, hresults⟩ := handleDeploy_frame P config store acc tx
        deploy
      rw [BlockCommit.Splits, hupserts, hdeletes, hresults]
      exact hI
  | call acc contractId opcode input result hexec =>
      rw [recordCall_commit, recordCall_results, writeLog_append_singleton]
      exact hI.append result.writes

/-- A block writes what its calls set, and then what they delete. -/
theorem storageWrites_processTransactions {parsed : ParsedBlock} {acc : BlockAcc}
    (h : processTransactions P config store parsed = .ok acc) :
    acc.commit.storageWrites = putsThenDels (writeLog acc.results) := by
  obtain ⟨hputs, hdels⟩ := splits_processTransactions h
  rw [putsThenDels, ← hputs, ← hdels]
  rfl

end Chains

end Zalkanes
