import Zalkanes.Indexer.Block

/-!
# The Calls of a Block

The calls that a block executes, in block order, and what the messages of its transactions ask
for. Processing a block makes its commit or leaves the store as it is, and the commit writes what
these calls write.

## Main results

* `processParsedBlock_cases`: what processing a block does to a store.
* `requests_of_blockCalls`: the executed calls are asked for by the messages of the block, in order.
* `fuelUsed_le`: a call uses at most the fuel it gets.
-/

namespace Zalkanes

open Lib

/-! ### What a block does -/

section Blocks

variable (P : Platform) (config : IndexerConfig) (store : StateView)

/-- The commit of a block, if it makes one. -/
def blockCommit (parsed : ParsedBlock) : Except Panic (Option BlockCommit) :=
  match config.activationHeight with
  | none => .ok none
  | some activation =>
      if parsed.height < activation then .ok (some (.empty parsed.height parsed.hash))
      else (processTransactions P config store parsed).map fun acc => some acc.commit

/-- The calls that a block executes, in block order, with what `execute` returned. -/
def blockCalls (parsed : ParsedBlock) : Except Panic (List (CallContext × CallResult)) :=
  match config.activationHeight with
  | none => .ok []
  | some activation =>
      if parsed.height < activation then .ok []
      else (processTransactions P config store parsed).map BlockAcc.results

end Blocks

section Cases

variable {σ : Type} {S : StateStore σ} {P : Platform} {config : IndexerConfig}

/-- A block that parses has the height and the hash it was asked for. -/
theorem parseBlock_eq_ok {raw : Bytes} {height : BlockHeight} {hash : BlockHash}
    {network : Network} {parsed : ParsedBlock}
    (h : parseBlock P raw height hash network = .ok parsed) :
    parsed.height = height ∧ parsed.hash = hash := by
  unfold parseBlock at h
  split at h
  · cases h
  · split at h
    · cases h
    · rw [← Except.ok.inj h]
      exact ⟨rfl, rfl⟩

/-- The commit of a block is empty, or what its transactions make. -/
theorem blockCommit_eq_some {store : StateView} {parsed : ParsedBlock} {commit : BlockCommit}
    (h : blockCommit P config store parsed = .ok (some commit)) :
    commit = .empty parsed.height parsed.hash ∨
      ∃ acc, processTransactions P config store parsed = .ok acc ∧ commit = acc.commit := by
  unfold blockCommit at h
  split at h
  · cases h
  · split at h
    · exact Or.inl (Option.some.inj (Except.ok.inj h)).symm
    · obtain ⟨acc, hacc, hcommit⟩ := map_eq_ok h
      exact Or.inr ⟨acc, hacc, (Option.some.inj hcommit).symm⟩

/-- The commit of a block has its height and its hash. -/
theorem height_blockCommit {store : StateView} {parsed : ParsedBlock} {commit : BlockCommit}
    (h : blockCommit P config store parsed = .ok (some commit)) :
    commit.height = parsed.height ∧ commit.zcashBlockHash = parsed.hash := by
  rcases blockCommit_eq_some h with rfl | ⟨acc, hacc, rfl⟩
  · exact ⟨rfl, rfl⟩
  · exact commit_processTransactions hacc

/-- An empty block is committed. -/
theorem commitEmptyBlock_fst {s : σ} {height : BlockHeight} {hash : BlockHash} :
    (commitEmptyBlock S s height hash).1 = (S.commitBlock s (.empty height hash)).1 := by
  unfold commitEmptyBlock
  rcases S.commitBlock s (.empty height hash) with ⟨s', e | root⟩ <;> rfl

/-- What processing a block does to a store: nothing, or the commit of the block, and maybe saving
execution records after it. -/
theorem processParsedBlock_cases {s s' : σ} {parsed : ParsedBlock}
    {res : Except String BlockExecution}
    (h : processParsedBlock S P config s parsed = .ok (s', res)) :
    blockCommit P config (S.view s) parsed = .ok none ∧ s' = s ∨
      ∃ commit, blockCommit P config (S.view s) parsed = .ok (some commit) ∧
        (s' = (S.commitBlock s commit).1 ∨
          ∃ es, s' = (S.saveExecutions (S.commitBlock s commit).1 es).1) := by
  unfold processParsedBlock at h
  unfold blockCommit
  cases hact : config.activationHeight with
  | none =>
      rw [hact] at h
      obtain ⟨rfl, -⟩ := Prod.mk.inj (Except.ok.inj h)
      exact Or.inl ⟨rfl, rfl⟩
  | some activation =>
      rw [hact] at h
      dsimp only at h ⊢
      split at h
      · rename_i hlt
        refine Or.inr ⟨_, if_pos hlt, Or.inl ?_⟩
        unfold commitEmptyBlock at h
        split at h <;> rename_i hcommit <;> obtain ⟨rfl, -⟩ := Prod.mk.inj (Except.ok.inj h) <;>
          rw [hcommit]
      · rename_i hge
        obtain ⟨acc, hacc, h⟩ := bind_eq_ok h
        refine Or.inr ⟨acc.commit, (if_neg hge).trans (by rw [hacc]; rfl), ?_⟩
        split at h
        · rename_i hcommit
          obtain ⟨rfl, -⟩ := Prod.mk.inj (Except.ok.inj h)
          exact Or.inl (by rw [hcommit])
        · rename_i hcommit
          rw [hcommit]
          split at h <;> rename_i hsave <;> obtain ⟨rfl, -⟩ := Prod.mk.inj (Except.ok.inj h) <;>
            exact Or.inr ⟨acc.executions, by rw [hsave]⟩

/-- Processing a block panics only where its transactions do. -/
theorem exists_processParsedBlock {s : σ} {parsed : ParsedBlock} {commit : Option BlockCommit}
    (h : blockCommit P config (S.view s) parsed = .ok commit) :
    ∃ s' res, processParsedBlock S P config s parsed = .ok (s', res) := by
  unfold blockCommit at h
  unfold processParsedBlock
  cases hact : config.activationHeight with
  | none => exact ⟨_, _, rfl⟩
  | some activation =>
      rw [hact] at h
      dsimp only at h ⊢
      split
      · exact ⟨_, _, rfl⟩
      · rename_i hge
        rw [if_neg hge] at h
        obtain ⟨acc, hacc, -⟩ := map_eq_ok h
        rw [hacc]
        simp only [bind, Except.bind]
        split
        · exact ⟨_, _, rfl⟩
        · split <;> exact ⟨_, _, rfl⟩

/-- The commit of a block separates the puts of its calls from their deletes. -/
theorem storageWrites_blockCommit {store : StateView} {parsed : ParsedBlock} {commit : BlockCommit}
    (h : blockCommit P config store parsed = .ok (some commit)) :
    ∃ calls, blockCalls P config store parsed = .ok calls ∧
      commit.storageWrites = putsThenDels (writeLog calls) := by
  unfold blockCommit at h
  unfold blockCalls
  cases hact : config.activationHeight with
  | none => rw [hact] at h; cases h
  | some activation =>
      rw [hact] at h
      dsimp only at h ⊢
      split at h
      · rename_i hlt
        obtain rfl := Option.some.inj (Except.ok.inj h)
        exact ⟨[], if_pos hlt, rfl⟩
      · rename_i hge
        obtain ⟨acc, hacc, hcommit⟩ := map_eq_ok h
        obtain rfl := Option.some.inj hcommit
        exact ⟨acc.results, (if_neg hge).trans (by rw [hacc]; rfl),
          storageWrites_processTransactions hacc⟩

/-- A block that makes no commit makes no calls. -/
theorem blockCalls_of_blockCommit_none {store : StateView} {parsed : ParsedBlock}
    (h : blockCommit P config store parsed = .ok none) :
    blockCalls P config store parsed = .ok [] := by
  unfold blockCommit at h
  unfold blockCalls
  cases hact : config.activationHeight with
  | none => rfl
  | some activation =>
      rw [hact] at h
      dsimp only at h
      split at h
      · cases h
      · obtain ⟨acc, -, hcommit⟩ := map_eq_ok h
        cases hcommit

end Cases

/-! ### Requests -/

/-- What a message asks for: the part of the context of a call that the transaction decides. -/
structure CallRequest where
  txid : TxId
  contractId : ContractId
  opcode : UInt16
  input : Bytes
  deriving DecidableEq

/-- What the call was asked for. -/
def CallContext.request (ctx : CallContext) : CallRequest :=
  ⟨ctx.txid, ctx.contractId, ctx.opcode, ctx.input⟩

/-- The context of a requested call, at a height and with so much fuel. -/
def CallRequest.context (request : CallRequest) (height : BlockHeight) (fuelLimit : ℕ) :
    CallContext where
  contractId := request.contractId
  caller := none
  txid := request.txid
  blockHeight := height
  opcode := request.opcode
  input := request.input
  fuelLimit := fuelLimit
  depth := 0

section Requests

variable (H : Hashing)

/-- The call a message asks for, if its input can be read. -/
def Message.request? (tx : ParsedTransaction) : Message → Option CallRequest
  | .deploy _ => none
  | .call m => some ⟨tx.txid, m.contractId, m.opcode, m.input⟩
  | .callCarrier m =>
      match reconstruct H (carrierChunks tx) m.carrierCount m.inputLength m.inputHash with
      | .error _ => none
      | .ok calldata => some ⟨tx.txid, m.contractId, m.opcode, calldata⟩

/-- The calls that some outputs of a transaction ask for. -/
def outputRequests (tx : ParsedTransaction) (outputs : List (UInt16 × Bytes)) : List CallRequest :=
  outputs.filterMap fun output => (outputMessage output.2).bind fun message =>
    message.request? H tx

/-- What the outputs of a transaction ask for. -/
def ParsedTransaction.requests (tx : ParsedTransaction) : List CallRequest :=
  outputRequests H tx tx.outputs

/-- The calls that the messages of a block ask for, in block order. -/
def ParsedBlock.requests (parsed : ParsedBlock) : List CallRequest :=
  parsed.transactions.flatMap fun tx => tx.requests H

end Requests

section Messages

variable {P : Platform} {config : IndexerConfig} {store : StateView}

/-- A deploy has no result. -/
theorem results_handleDeploy (acc : BlockAcc) (tx : ParsedTransaction) (deploy : DeployMessage) :
    (handleDeploy P config store acc tx deploy).results = acc.results :=
  (handleDeploy_frame P config store acc tx deploy).2.2.2.2

/-- A message adds at most the call it asks for. -/
theorem results_handleMessage {acc acc' : TxAcc} {tx : ParsedTransaction} {outIdx : UInt16}
    {message : Message} (h : handleMessage P config store acc tx outIdx message = .ok acc') :
    ∃ new, acc'.block.results = acc.block.results ++ new ∧
      (new.map fun r => r.1.request).Sublist (message.request? P.hashing tx).toList := by
  have hcall : ∀ {acc : TxAcc} {contractId : ContractId} {opcode : UInt16} {input : Bytes},
      executeCall P store acc tx contractId opcode input = .ok acc' →
      ∃ new, acc'.block.results = acc.block.results ++ new ∧
        (new.map fun r => r.1.request).Sublist
          [(⟨tx.txid, contractId, opcode, input⟩ : CallRequest)] := by
    intro acc contractId opcode input h
    unfold executeCall at h
    split at h
    · obtain rfl := Except.ok.inj h
      exact ⟨[], (List.append_nil _).symm, List.nil_sublist _⟩
    · obtain ⟨result, -, rfl⟩ := map_eq_ok h
      exact ⟨[(_, result)], rfl, List.Sublist.refl _⟩
  cases message with
  | deploy deploy =>
      simp only [handleMessage] at h
      split at h
      · obtain rfl := Except.ok.inj h
        exact ⟨[], (List.append_nil _).symm, List.nil_sublist _⟩
      split at h
      · rw [← Except.ok.inj h]
        exact ⟨[], (List.append_nil _).symm, List.nil_sublist _⟩
      · rw [← Except.ok.inj h]
        refine ⟨[], ?_, List.nil_sublist _⟩
        rw [List.append_nil]
        exact (results_handleDeploy _ tx deploy).trans rfl
  | call call => exact hcall h
  | callCarrier call =>
      simp only [handleMessage] at h
      split at h
      · rw [← Except.ok.inj h]
        exact ⟨[], (List.append_nil _).symm, List.nil_sublist _⟩
      · unfold handleCallCarrier at h
        split at h
        · rw [← Except.ok.inj h]
          exact ⟨[], (List.append_nil _).symm, List.nil_sublist _⟩
        · rename_i calldata hrec
          obtain ⟨new, hnew, hsub⟩ := hcall h
          simp only [Message.request?, hrec]
          exact ⟨new, hnew, hsub⟩

/-- The outputs of a transaction add a part of the calls they ask for. -/
theorem results_sublist_processOutputs {tx : ParsedTransaction} {outputs : List (UInt16 × Bytes)}
    {acc : TxAcc} {acc' : BlockAcc} (h : processOutputs P config store tx outputs acc = .ok acc') :
    ∃ new, acc'.results = acc.block.results ++ new ∧
      (new.map fun r => r.1.request).Sublist (outputRequests P.hashing tx outputs) := by
  induction outputs generalizing acc with
  | nil =>
      rw [← Except.ok.inj h]
      exact ⟨[], (List.append_nil _).symm, List.nil_sublist _⟩
  | cons output outputs ih =>
      obtain ⟨outIdx, scriptPubkey⟩ := output
      unfold processOutputs at h
      split at h
      · rename_i hmessage
        obtain ⟨new, hnew, hsub⟩ := ih h
        refine ⟨new, hnew, ?_⟩
        rwa [outputRequests, List.filterMap_cons_none (by rw [hmessage]; rfl)]
      · rename_i message hmessage
        obtain ⟨txMessages, -, h⟩ := bind_eq_ok h
        obtain ⟨messages, -, h⟩ := bind_eq_ok h
        dsimp only at h
        split at h
        · rw [← Except.ok.inj h]
          exact ⟨[], (List.append_nil _).symm, List.nil_sublist _⟩
        · obtain ⟨acc₁, hhandled, h⟩ := bind_eq_ok h
          obtain ⟨new, hnew, hsub⟩ := results_handleMessage hhandled
          obtain ⟨new', hnew', hsub'⟩ := ih h
          refine ⟨new ++ new', by rw [hnew', hnew, List.append_assoc]; rfl, ?_⟩
          have hcons : outputRequests P.hashing tx ((outIdx, scriptPubkey) :: outputs) =
              (message.request? P.hashing tx).toList ++ outputRequests P.hashing tx outputs := by
            rw [outputRequests, List.filterMap_cons, hmessage]
            cases hreq : message.request? P.hashing tx <;> simp [hreq, outputRequests]
          rw [List.map_append, hcons]
          exact hsub.append hsub'

/-- **The calls of a block are asked for by its messages, in order**; a message that a cap drops
makes no call. -/
theorem requests_of_blockCalls {parsed : ParsedBlock} {calls : List (CallContext × CallResult)}
    (h : blockCalls P config store parsed = .ok calls) :
    (calls.map fun r => r.1.request).Sublist (parsed.requests P.hashing) := by
  have hfold : ∀ {txs : List ParsedTransaction} {acc acc' : BlockAcc},
      txs.foldlM (processTransaction P config store) acc = .ok acc' →
      ∃ new, acc'.results = acc.results ++ new ∧
        (new.map fun r => r.1.request).Sublist (txs.flatMap fun tx => tx.requests P.hashing) := by
    intro txs
    induction txs with
    | nil =>
        intro acc acc' h
        rw [← Except.ok.inj h]
        exact ⟨[], (List.append_nil _).symm, List.nil_sublist _⟩
    | cons tx txs ih =>
        intro acc acc' h
        rw [List.foldlM_cons] at h
        obtain ⟨acc₁, htx, h⟩ := bind_eq_ok h
        obtain ⟨new, hnew, hsub⟩ := results_sublist_processOutputs htx
        obtain ⟨new', hnew', hsub'⟩ := ih h
        refine ⟨new ++ new', by rw [hnew', hnew, List.append_assoc], ?_⟩
        rw [List.map_append, List.flatMap_cons]
        exact hsub.append hsub'
  unfold blockCalls at h
  split at h
  · rw [← Except.ok.inj h]
    exact List.nil_sublist _
  split at h
  · rw [← Except.ok.inj h]
    exact List.nil_sublist _
  · obtain ⟨acc, hacc, rfl⟩ := map_eq_ok h
    obtain ⟨new, hnew, hsub⟩ := hfold hacc
    rw [hnew]
    exact hsub

end Messages

/-! ### Fuel -/

/-- Fuel used by a call. -/
def CallResult.fuelUsed (result : CallResult) : ℕ := result.parts.2.1

/-- A call uses at most the fuel it gets. -/
theorem fuelUsed_le {E : Engine} {overflowChecks : Bool} {ctx : CallContext} {state : StateView}
    {result : CallResult} (h : execute E overflowChecks ctx state = .ok result) :
    result.fuelUsed ≤ ctx.fuelLimit := by
  unfold execute at h
  split at h
  · obtain rfl := Except.ok.inj h
    exact Nat.zero_le _
  split at h
  · obtain rfl := Except.ok.inj h
    exact Nat.zero_le _
  split at h
  · obtain rfl := Except.ok.inj h
    exact Nat.zero_le _
  split at h
  · obtain rfl := Except.ok.inj h
    exact Nat.zero_le _
  split at h
  · obtain rfl := Except.ok.inj h
    exact Nat.sub_le _ _
  · obtain rfl := Except.ok.inj h
    exact Nat.zero_le _
  · obtain ⟨⟨fuelLeft, result, host⟩, -, h⟩ := bind_eq_ok h
    obtain rfl := Except.ok.inj h
    unfold CallResult.ofDispatch
    dsimp only
    split
    · split <;> exact Nat.sub_le _ _
    · split <;> exact Nat.sub_le _ _

end Zalkanes
