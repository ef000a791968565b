import Zalkanes.Indexer.Caps
import Zalkanes.Indexer.TxCalls

/-!
# The Calls Within the Caps

The caps on messages and bytes admit some of the calls that the messages of a block ask for
(`ParsedBlock.admitted`). Those are made one after the other, on the store before the block, each
with the fuel that is left for it (`makeBlockCalls`); only a call for which no fuel is left is not
made.

## Main results

* `makeBlockCalls_of_blockCalls`: the calls of a block are exactly those.
* `requests_of_withinCaps`: within the caps, all that the messages ask for is called.
-/

namespace Zalkanes

open Lib

/-! ### Admitted requests -/

/-- The calls that some outputs of a transaction ask for in messages that the caps on messages and
bytes do not refuse. -/
def admittedRequests (H : Hashing) (tx : ParsedTransaction) (outputs : List (UInt16 × Bytes))
    (decisions : List CapDecision) : List CallRequest :=
  (outputs.zip decisions).filterMap fun entry =>
    match entry.2 with
    | .ok false => (outputMessage entry.1.2).bind fun message => message.request? H tx
    | _ => none

/-- The calls that the messages of a block ask for and the caps on messages and bytes admit,
transaction by transaction. -/
def ParsedBlock.admitted (H : Hashing) (overflowChecks : Bool) (parsed : ParsedBlock) :
    List (List CallRequest) :=
  List.zipWith (fun tx decisions => admittedRequests H tx tx.outputs decisions)
    parsed.transactions (parsed.caps overflowChecks)

/-- The fuel that calls use together. -/
def fuelOf (calls : List (CallContext × CallResult)) : ℕ :=
  (calls.map fun r => r.2.fuelUsed).sum

section Made

variable (P : Platform) (store : StateView) (height : BlockHeight)

/-- **The calls of a transaction**, on one store, after so much fuel of the transaction and of the
block: each request is executed with the fuel that is left for a call, and it is passed over only
when none is left. -/
def makeCalls : List CallRequest → (txFuel blockFuel : ℕ) →
    Except Panic (List (CallContext × CallResult))
  | [], _, _ => .ok []
  | request :: requests, txFuel, blockFuel =>
      let fuelLimit := min (min maxFuelPerCall (maxFuelPerZcashTx - txFuel))
        (maxFuelPerZcashBlock - blockFuel)
      if fuelLimit = 0 then makeCalls requests txFuel blockFuel
      else do
        let ctx := request.context height fuelLimit
        let result ← execute P.engine P.overflowChecks ctx store
        let rest ← makeCalls requests (txFuel + result.fuelUsed) (blockFuel + result.fuelUsed)
        return (ctx, result) :: rest

/-- The calls of transactions, one after the other, on one store. -/
def makeBlockCalls : List (List CallRequest) → (blockFuel : ℕ) →
    Except Panic (List (CallContext × CallResult))
  | [], _ => .ok []
  | requests :: rest, blockFuel => do
      let here ← makeCalls P store height requests 0 blockFuel
      let later ← makeBlockCalls rest (blockFuel + fuelOf here)
      return here ++ later

end Made

/-- The messages of a block are **within the caps**: none of them is refused, and its calls use up
neither the fuel of a transaction nor that of the block. -/
structure ParsedBlock.WithinCaps (overflowChecks : Bool) (parsed : ParsedBlock)
    (calls : List (CallContext × CallResult)) : Prop where
  admits : ∀ decisions ∈ parsed.caps overflowChecks, ∀ decision ∈ decisions, decision = .ok false
  txFuel : ∀ txid, fuelOf (calls.filter fun r => r.1.txid = txid) < maxFuelPerZcashTx
  blockFuel : fuelOf calls < maxFuelPerZcashBlock

/-- No calls use no fuel. -/
@[simp] theorem fuelOf_nil : fuelOf [] = 0 := rfl

/-- The first call uses its own. -/
@[simp] theorem fuelOf_cons (r : CallContext × CallResult)
    (calls : List (CallContext × CallResult)) :
    fuelOf (r :: calls) = r.2.fuelUsed + fuelOf calls := by
  simp [fuelOf]

/-- Calls use what both parts do. -/
@[simp] theorem fuelOf_append (calls calls' : List (CallContext × CallResult)) :
    fuelOf (calls ++ calls') = fuelOf calls + fuelOf calls' := by
  simp [fuelOf]

/-! ### What the caps admit is called -/

section Admitted

variable {P : Platform} {config : IndexerConfig} {store : StateView}

/-- The fuel of a transaction and of a block is within their caps. -/
structure TxAcc.Fueled (acc : TxAcc) : Prop where
  tx : acc.fuelUsed ≤ maxFuelPerZcashTx
  block : acc.block.limits.fuelUsed ≤ maxFuelPerZcashBlock

/-- The second accumulator is the first one after these calls. -/
structure TxAcc.Calls (acc acc' : TxAcc) (calls : List (CallContext × CallResult)) : Prop where
  fueled : acc'.Fueled
  results : acc'.block.results = acc.block.results ++ calls
  txFuel : acc'.fuelUsed = acc.fuelUsed + fuelOf calls
  blockFuel : acc'.block.limits.fuelUsed = acc.block.limits.fuelUsed + fuelOf calls
  height : acc'.block.commit.height = acc.block.commit.height

/-- Calls after calls. -/
theorem TxAcc.Calls.trans {acc acc' acc'' : TxAcc} {calls calls' : List (CallContext × CallResult)}
    (h : acc.Calls acc' calls) (h' : acc'.Calls acc'' calls') :
    acc.Calls acc'' (calls ++ calls') where
  fueled := h'.fueled
  results := by rw [h'.results, h.results, List.append_assoc]
  txFuel := by rw [h'.txFuel, h.txFuel, fuelOf_append, Nat.add_assoc]
  blockFuel := by rw [h'.blockFuel, h.blockFuel, fuelOf_append, Nat.add_assoc]
  height := h'.height.trans h.height

/-- A call that is made is recorded, and its fuel is counted in full: the sums stay within the
caps, so none of them saturates. -/
theorem TxAcc.Fueled.calls_recordCall {acc : TxAcc} (h : acc.Fueled) {ctx : CallContext}
    (hctx : ctx.fuelLimit = fuelLimit acc) {result : CallResult}
    (hexec : execute P.engine P.overflowChecks ctx store = .ok result) :
    acc.Calls (recordCall P store acc ctx result) [(ctx, result)] := by
  have hused := fuelUsed_le hexec
  have htx := h.tx
  have hblock := h.block
  rw [hctx, fuelLimit] at hused
  have htxFuel : (recordCall P store acc ctx result).fuelUsed =
      acc.fuelUsed + result.fuelUsed := by
    change saturatingAdd acc.fuelUsed result.fuelUsed = _
    simp only [saturatingAdd, maxFuelPerCall, maxFuelPerZcashTx] at *
    omega
  have hblockFuel : (recordCall P store acc ctx result).block.limits.fuelUsed =
      acc.block.limits.fuelUsed + result.fuelUsed := by
    change saturatingAdd acc.block.limits.fuelUsed result.fuelUsed = _
    simp only [saturatingAdd, maxFuelPerCall, maxFuelPerZcashBlock] at *
    omega
  refine ⟨⟨?_, ?_⟩, recordCall_results acc ctx result, ?_, ?_, ?_⟩
  · rw [htxFuel]
    omega
  · rw [hblockFuel]
    omega
  · rw [htxFuel, fuelOf_cons, fuelOf_nil, Nat.add_zero]
  · rw [hblockFuel, fuelOf_cons, fuelOf_nil, Nat.add_zero]
  · rw [recordCall_commit, foldl_applyStorageWrite]

/-- What an admitted message does: a deploy makes no call, and a call message makes the call it
asks for, if its input can be read. -/
theorem handleAdmitted_cases {acc after : TxAcc} {tx : ParsedTransaction} {outIdx : UInt16}
    {message : Message} (hfuel : acc.Fueled)
    (h : handleAdmitted P config store acc tx outIdx message = .ok after) :
    message.request? P.hashing tx = none ∧ acc.Calls after [] ∨
      ∃ request, message.request? P.hashing tx = some request ∧
        executeCall P store acc tx request.contractId request.opcode request.input =
          .ok after := by
  have hnone : ∀ block : BlockAcc, block.results = acc.block.results →
      block.limits = acc.block.limits → block.commit.height = acc.block.commit.height →
      acc.Calls { acc with block := block } [] := by
    intro block hresults hlimits hheight
    refine ⟨⟨hfuel.tx, ?_⟩, hresults.trans (List.append_nil _).symm, rfl, ?_, hheight⟩
    · exact hlimits ▸ hfuel.block
    · exact congrArg BlockLimits.fuelUsed hlimits
  cases message with
  | deploy deploy =>
      simp only [handleAdmitted] at h
      refine Or.inl ⟨rfl, ?_⟩
      split at h
      · rw [← Except.ok.inj h]
        exact hnone acc.block rfl rfl rfl
      · rw [← Except.ok.inj h]
        refine hnone _ (results_handleDeploy acc.block tx deploy) ?_
          (handleDeploy_frame P config store acc.block tx deploy).1
        rcases handleDeploy_cases P config store acc.block tx deploy with
          heq | ⟨_, -, -, -, heq⟩ <;> rw [heq]
  | call call => exact Or.inr ⟨_, rfl, h⟩
  | callCarrier call =>
      simp only [handleAdmitted, handleCallCarrier] at h
      simp only [Message.request?]
      cases hrec : reconstruct P.hashing (carrierChunks tx) call.carrierCount call.inputLength
          call.inputHash with
      | error e =>
          rw [hrec] at h
          rw [← Except.ok.inj h]
          exact Or.inl ⟨rfl, hnone acc.block rfl rfl rfl⟩
      | ok calldata =>
          rw [hrec] at h
          exact Or.inr ⟨_, rfl, h⟩

/-- Executing a request is its step of `makeCalls`: it is passed over exactly when no fuel is
left. -/
theorem makeCalls_cons_of_executeCall {acc next : TxAcc} {tx : ParsedTransaction}
    {request : CallRequest} (hfuel : acc.Fueled) (htxid : request.txid = tx.txid)
    (h : executeCall P store acc tx request.contractId request.opcode request.input = .ok next) :
    ∃ calls, acc.Calls next calls ∧ ∀ requests rest,
      makeCalls P store acc.block.commit.height requests next.fuelUsed
        next.block.limits.fuelUsed = .ok rest →
      makeCalls P store acc.block.commit.height (request :: requests) acc.fuelUsed
        acc.block.limits.fuelUsed = .ok (calls ++ rest) := by
  have hctx : callContext acc tx request.contractId request.opcode request.input =
      request.context acc.block.commit.height (fuelLimit acc) := by
    rw [callContext, CallRequest.context, htxid]
  rw [executeCall, hctx] at h
  split at h
  · rename_i hempty
    obtain rfl := Except.ok.inj h
    refine ⟨[], ⟨hfuel, (List.append_nil _).symm, rfl, rfl, rfl⟩, fun requests rest hrest => ?_⟩
    rw [makeCalls]
    exact (if_pos hempty).trans hrest
  · rename_i hleft
    obtain ⟨result, hexec, rfl⟩ := map_eq_ok h
    have hcalls := hfuel.calls_recordCall rfl hexec
    refine ⟨_, hcalls, fun requests rest hrest => ?_⟩
    rw [hcalls.txFuel, hcalls.blockFuel, fuelOf_cons, fuelOf_nil, Nat.add_zero] at hrest
    rw [makeCalls]
    refine (if_neg hleft).trans ?_
    change (execute P.engine P.overflowChecks (request.context acc.block.commit.height
      (fuelLimit acc)) store >>= _) = _
    rw [hexec]
    simp only [bind, Except.bind]
    rw [hrest]
    rfl

/-- **Going through outputs with what the caps have decided makes the admitted calls.** -/
theorem makeCalls_of_decidedOutputs {tx : ParsedTransaction} {outputs : List (UInt16 × Bytes)}
    {decisions : List CapDecision} {acc after : TxAcc} (hfuel : acc.Fueled)
    (h : (decidedOutputs P config store tx outputs decisions acc).2 = .ok after) :
    ∃ calls, makeCalls P store acc.block.commit.height
        (admittedRequests P.hashing tx outputs decisions) acc.fuelUsed acc.block.limits.fuelUsed =
          .ok calls ∧ acc.Calls after calls := by
  have hdone : ∀ {acc after : TxAcc}, acc.Fueled → Except.ok (ε := Panic) acc = .ok after →
      ∃ calls, makeCalls P store acc.block.commit.height [] acc.fuelUsed
        acc.block.limits.fuelUsed = .ok calls ∧ acc.Calls after calls := by
    intro acc after hfuel h
    obtain rfl := Except.ok.inj h
    exact ⟨[], rfl, hfuel, (List.append_nil _).symm, rfl, rfl, rfl⟩
  induction outputs generalizing decisions acc with
  | nil => exact hdone hfuel (by simpa [decidedOutputs] using h)
  | cons output outputs ih =>
      cases decisions with
      | nil => exact hdone hfuel (by simpa [decidedOutputs] using h)
      | cons decision decisions =>
          rw [admittedRequests, List.zip_cons_cons]
          cases hmessage : outputMessage output.2 with
          | none =>
              simp only [decidedOutputs, hmessage] at h
              rw [List.filterMap_cons_none (by rcases decision with p | _ | _ <;> simp [hmessage])]
              exact ih hfuel h
          | some message =>
              simp only [decidedOutputs, hmessage] at h
              rcases decision with p | refused
              · cases h
              cases refused with
              | true =>
                  rw [List.filterMap_cons_none rfl]
                  exact ih hfuel h
              | false =>
                  dsimp only at h
                  cases hhandled : handleAdmitted P config store acc tx output.1 message with
                  | error p => rw [hhandled] at h; cases h
                  | ok next =>
                      rw [hhandled] at h
                      rcases handleAdmitted_cases hfuel hhandled with
                        ⟨hnone, hcalls⟩ | ⟨request, hrequest, hexec⟩
                      · obtain ⟨rest, hrest, hafter⟩ := ih hcalls.fueled h
                        rw [hcalls.height, hcalls.txFuel, hcalls.blockFuel] at hrest
                        rw [List.filterMap_cons_none (by simp [hmessage, hnone])]
                        exact ⟨rest, hrest, hcalls.trans hafter⟩
                      · obtain ⟨calls, hcalls, hcons⟩ :=
                          makeCalls_cons_of_executeCall hfuel (txid_of_request? hrequest) hexec
                        obtain ⟨rest, hrest, hafter⟩ := ih hcalls.fueled h
                        rw [hcalls.height] at hrest
                        rw [List.filterMap_cons_some (b := request) (by simp [hmessage, hrequest])]
                        exact ⟨calls ++ rest, hcons _ rest hrest, hcalls.trans hafter⟩

/-- Going through transactions with what the caps have decided makes the admitted calls. -/
theorem makeBlockCalls_of_decidedTransactions {txs : List ParsedTransaction}
    {decisions : List (List CapDecision)} {acc after : BlockAcc}
    (hfuel : acc.limits.fuelUsed ≤ maxFuelPerZcashBlock)
    (h : (decidedTransactions P config store txs decisions acc).2 = .ok after) :
    ∃ calls, makeBlockCalls P store acc.commit.height
        (List.zipWith (fun tx decisions => admittedRequests P.hashing tx tx.outputs decisions)
          txs decisions) acc.limits.fuelUsed = .ok calls ∧
      after.results = acc.results ++ calls := by
  induction txs generalizing decisions acc with
  | nil =>
      obtain rfl : acc = after := by simpa [decidedTransactions] using h
      exact ⟨[], rfl, (List.append_nil _).symm⟩
  | cons tx txs ih =>
      cases decisions with
      | nil =>
          obtain rfl : acc = after := by simpa [decidedTransactions] using h
          exact ⟨[], rfl, (List.append_nil _).symm⟩
      | cons here rest =>
          rw [decidedTransactions] at h
          dsimp only at h
          cases hhere : (decidedOutputs P config store tx tx.outputs here ⟨acc, 0, 0⟩).2 with
          | error p => rw [hhere] at h; cases h
          | ok next =>
              rw [hhere] at h
              obtain ⟨calls, hmade, hcalls⟩ :=
                makeCalls_of_decidedOutputs ⟨Nat.zero_le _, hfuel⟩ hhere
              obtain ⟨later, hlater, hafter⟩ := ih hcalls.fueled.block h
              rw [hcalls.height, hcalls.blockFuel] at hlater
              refine ⟨calls ++ later, ?_, ?_⟩
              · rw [List.zipWith_cons_cons, makeBlockCalls, hmade]
                simp only [bind, Except.bind]
                rw [hlater]
                rfl
              · rw [hafter, hcalls.results, List.append_assoc]

/-- **The calls of a block are those that the caps admit**, as long as there is fuel for them. -/
theorem makeBlockCalls_of_blockCalls {parsed : ParsedBlock}
    {calls : List (CallContext × CallResult)} (h : blockCalls P config store parsed = .ok calls)
    {activation : BlockHeight} (hact : config.activationHeight = some activation)
    (hge : activation ≤ parsed.height) :
    makeBlockCalls P store parsed.height (parsed.admitted P.hashing P.overflowChecks) 0 =
      .ok calls := by
  unfold blockCalls at h
  rw [hact] at h
  dsimp only at h
  rw [if_neg (UInt32.not_lt.mpr hge)] at h
  obtain ⟨acc, hacc, rfl⟩ := map_eq_ok h
  have hdecided := (foldlM_eq_decided P config store parsed.transactions
    (BlockAcc.init parsed.height parsed.hash)).2
  rw [show parsed.transactions.foldlM (processTransaction P config store)
    (BlockAcc.init parsed.height parsed.hash) = .ok acc from hacc] at hdecided
  obtain ⟨after, hafter, huncounted⟩ := map_eq_ok hdecided.symm
  obtain ⟨calls, hcalls, hresults⟩ :=
    makeBlockCalls_of_decidedTransactions (Nat.zero_le _) hafter
  have hresults' : acc.results = after.results := (congrArg BlockAcc.results huncounted).symm
  rw [hresults', hresults]
  exact hcalls

end Admitted

/-! ### Blocks within the caps -/

section WithinCaps

variable {P : Platform} {store : StateView} {height : BlockHeight}

/-- The caps decide something of every output. -/
theorem length_capOutputs (overflowChecks : Bool) (outputs : List (UInt16 × Bytes))
    (txMessages : UInt32) (k : Counters) :
    (capOutputs overflowChecks outputs txMessages k).1.length = outputs.length := by
  induction outputs generalizing txMessages k with
  | nil => rfl
  | cons output outputs ih =>
      rw [capOutputs]
      split
      · exact congrArg Nat.succ (ih _ _)
      · split
        · dsimp only
          split
          · simp [refuseAll]
          · exact congrArg Nat.succ (ih _ _)
        · simp [refuseAll]
        · simp [refuseAll]

/-- Outputs that the caps do not refuse have all their requests admitted. -/
theorem admittedRequests_of_admits {H : Hashing} {tx : ParsedTransaction}
    {outputs : List (UInt16 × Bytes)} {decisions : List CapDecision}
    (hlength : decisions.length = outputs.length)
    (h : ∀ decision ∈ decisions, decision = .ok false) :
    admittedRequests H tx outputs decisions = outputRequests H tx outputs := by
  induction outputs generalizing decisions with
  | nil => rw [admittedRequests, List.zip_nil_left]; rfl
  | cons output outputs ih =>
      cases decisions with
      | nil => simp at hlength
      | cons decision decisions =>
          obtain ⟨rfl, hrest⟩ := List.forall_mem_cons.mp h
          have hih := ih (by simpa using hlength) hrest
          rw [admittedRequests, outputRequests] at hih ⊢
          rw [List.zip_cons_cons, List.filterMap_cons, List.filterMap_cons, hih]

/-- A block whose messages the caps do not refuse has all its requests admitted. -/
theorem admitted_of_admits {H : Hashing} {overflowChecks : Bool} {parsed : ParsedBlock}
    (h : ∀ decisions ∈ parsed.caps overflowChecks, ∀ decision ∈ decisions, decision = .ok false) :
    parsed.admitted H overflowChecks = parsed.transactions.map fun tx => tx.requests H := by
  have htxs : ∀ (txs : List ParsedTransaction) (k : Counters),
      (∀ decisions ∈ capTransactions overflowChecks txs k, ∀ decision ∈ decisions,
        decision = .ok false) →
      List.zipWith (fun tx decisions => admittedRequests H tx tx.outputs decisions) txs
        (capTransactions overflowChecks txs k) = txs.map fun tx => tx.requests H := by
    intro txs
    induction txs with
    | nil => exact fun _ _ => rfl
    | cons tx txs ih =>
        intro k h
        obtain ⟨hhere, hrest⟩ := List.forall_mem_cons.mp h
        rw [capTransactions, List.zipWith_cons_cons, List.map_cons, ih _ hrest,
          admittedRequests_of_admits (length_capOutputs _ _ _ _) hhere]
        rfl
  exact htxs parsed.transactions _ h

/-- While there is fuel left, the calls of a transaction are its requests. -/
theorem requests_of_makeCalls {requests : List CallRequest} {txFuel blockFuel : ℕ}
    {calls : List (CallContext × CallResult)}
    (h : makeCalls P store height requests txFuel blockFuel = .ok calls)
    (htx : txFuel + fuelOf calls < maxFuelPerZcashTx)
    (hblock : blockFuel + fuelOf calls < maxFuelPerZcashBlock) :
    calls.map (·.1.request) = requests := by
  induction requests generalizing txFuel blockFuel calls with
  | nil => rw [← Except.ok.inj h]; rfl
  | cons request requests ih =>
      rw [makeCalls] at h
      dsimp only at h
      split at h
      · rename_i hempty
        simp only [maxFuelPerCall] at hempty
        omega
      · obtain ⟨result, -, h⟩ := bind_eq_ok h
        obtain ⟨rest, hrest, h⟩ := bind_eq_ok h
        obtain rfl := Except.ok.inj h
        rw [fuelOf_cons] at htx hblock
        rw [List.map_cons, ih hrest (by dsimp only at htx; omega) (by dsimp only at hblock; omega)]
        rfl

/-- The calls of a transaction are made of its requests. -/
theorem request_of_mem_makeCalls {requests : List CallRequest} {txFuel blockFuel : ℕ}
    {calls : List (CallContext × CallResult)}
    (h : makeCalls P store height requests txFuel blockFuel = .ok calls) :
    ∀ r ∈ calls, r.1.request ∈ requests := by
  induction requests generalizing txFuel blockFuel calls with
  | nil =>
      rw [← Except.ok.inj h]
      exact fun r hr => absurd hr List.not_mem_nil
  | cons request requests ih =>
      rw [makeCalls] at h
      dsimp only at h
      split at h
      · exact fun r hr => List.mem_cons_of_mem _ (ih h r hr)
      · obtain ⟨result, -, h⟩ := bind_eq_ok h
        obtain ⟨rest, hrest, h⟩ := bind_eq_ok h
        obtain rfl := Except.ok.inj h
        intro r hr
        rcases List.mem_cons.mp hr with rfl | hr
        · exact List.mem_cons_self
        · exact List.mem_cons_of_mem _ (ih hrest r hr)

/-- While there is fuel left, the calls of transactions are their requests. -/
theorem requests_of_makeBlockCalls {H : Hashing} {txs : List ParsedTransaction} {blockFuel : ℕ}
    {calls : List (CallContext × CallResult)}
    (h : makeBlockCalls P store height (txs.map fun tx => tx.requests H) blockFuel = .ok calls)
    (htx : ∀ txid, fuelOf (calls.filter fun r => r.1.txid = txid) < maxFuelPerZcashTx)
    (hblock : blockFuel + fuelOf calls < maxFuelPerZcashBlock) :
    calls.map (·.1.request) = txs.flatMap fun tx => tx.requests H := by
  induction txs generalizing blockFuel calls with
  | nil => rw [← Except.ok.inj h]; rfl
  | cons tx txs ih =>
      rw [List.map_cons, makeBlockCalls] at h
      obtain ⟨here, hhere, h⟩ := bind_eq_ok h
      obtain ⟨later, hlater, h⟩ := bind_eq_ok h
      obtain rfl := Except.ok.inj h
      rw [fuelOf_append] at hblock
      have hfilter : ∀ txid, fuelOf (here.filter fun r => r.1.txid = txid) +
          fuelOf (later.filter fun r => r.1.txid = txid) < maxFuelPerZcashTx := by
        intro txid
        have := htx txid
        rwa [List.filter_append, fuelOf_append] at this
      -- the calls of a transaction carry its id, so its fuel is counted under that id
      have hsame : here.filter (fun r => r.1.txid = tx.txid) = here := by
        refine List.filter_eq_self.mpr fun r hr => decide_eq_true ?_
        exact txid_of_mem_requests (request_of_mem_makeCalls hhere r hr)
      have hheld := hfilter tx.txid
      rw [hsame] at hheld
      rw [List.map_append, List.flatMap_cons,
        requests_of_makeCalls hhere (by omega) (by omega),
        ih hlater (fun txid => by have := hfilter txid; omega) (by omega)]

/-- **Within the caps, all that the messages of a block ask for is called**, in order. -/
theorem requests_of_withinCaps {config : IndexerConfig} {parsed : ParsedBlock}
    {calls : List (CallContext × CallResult)} (h : blockCalls P config store parsed = .ok calls)
    {activation : BlockHeight} (hact : config.activationHeight = some activation)
    (hge : activation ≤ parsed.height) (hcaps : parsed.WithinCaps P.overflowChecks calls) :
    calls.map (·.1.request) = parsed.requests P.hashing := by
  have hmade := makeBlockCalls_of_blockCalls h hact hge
  rw [admitted_of_admits hcaps.admits] at hmade
  exact requests_of_makeBlockCalls hmade hcaps.txFuel (by have := hcaps.blockFuel; omega)

end WithinCaps

end Zalkanes
