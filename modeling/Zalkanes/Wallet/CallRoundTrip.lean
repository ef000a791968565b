import Zalkanes.Indexer.TxCalls
import Zalkanes.Rpc.View
import Zalkanes.Wallet.FinalPools

/-!
# The CALL Pipeline

The command line encodes a call into an OP_RETURN payload; the wallet plans, signs and verifies a
transaction around it, transparent or shielded; and the indexer reads the payload back from the
transaction and executes it. The client makes inline calls only, so that the payload is within the
80 bytes of a standard OP_RETURN.

## Main results

* `callOutputs_of_transparent`, `callOutputs_of_shielded`: what the two final checks leave of the
  outputs of a CALL.
* `contract_call_executes`: the indexer executes what the command line was asked for, once.
-/

namespace Zalkanes

open Lib

/-! ### The command line -/

/-- The request that `contract_call` makes of its arguments. -/
def contractCall (hex : Hex) (contractId : String) (opcode : UInt16) (inputHex : String) :
    Except String TxRequest :=
  match (hex.decode contractId).bind Bytes32.ofBytes? with
  | none => .error "contract id must be 32 hex bytes"
  | some id =>
      match hex.decode inputHex with
      | none => .error "input must be hex"
      | some input =>
          if input.length > maxCallInlineBytes.toNat then
            .error ("input is " ++ toString input.length ++
              " bytes but an inline CALL carries at most " ++ toString maxCallInlineBytes ++
              " bytes; larger inputs need a CALL_CARRIER transaction, which this CLI does not " ++
              "build yet (see docs/developers/calling-contracts.md)")
          else .ok (.call (encodeCall ⟨id, opcode, input⟩))

/-- What the arguments ask for. -/
structure Asks (hex : Hex) (contractId : String) (opcode : UInt16) (inputHex : String)
    (msg : CallMessage) : Prop where
  contractId : (hex.decode contractId).bind Bytes32.ofBytes? = some msg.contractId
  opcode : opcode = msg.opcode
  input : hex.decode inputHex = some msg.input
  inRange : msg.InRange

/-- The request is the CALL that the words ask for. -/
theorem contractCall_eq_ok {hex : Hex} {contractId : String} {opcode : UInt16} {inputHex : String}
    {request : TxRequest} (h : contractCall hex contractId opcode inputHex = .ok request) :
    ∃ msg, Asks hex contractId opcode inputHex msg ∧ request = .call (encodeCall msg) := by
  rw [contractCall] at h
  cases hid : (hex.decode contractId).bind Bytes32.ofBytes? with
  | none =>
      rw [hid] at h
      cases h
  | some id =>
      rw [hid] at h
      dsimp only at h
      cases hinput : hex.decode inputHex with
      | none =>
          rw [hinput] at h
          cases h
      | some input =>
          rw [hinput] at h
          dsimp only at h
          split_ifs at h with hlength
          exact ⟨⟨id, opcode, input⟩, ⟨hid, rfl, hinput, Nat.not_lt.mp hlength⟩,
            (Except.ok.inj h).symm⟩

/-! ### The transaction -/

/-- The outputs of a transaction that pays to an OP_RETURN, and to a key if at all. -/
def CallOutputs (payload : Bytes) (bundle : TransparentBundle) : Prop :=
  ∃ change, bundle.vout = ⟨0, opReturnScript payload⟩ :: change ∧
    ∀ o ∈ change, outputMessage o.scriptPubkey = none

section Verified

variable {H : Hashing} {hash160 : Hash160} {payload : Bytes} {tx : SignedTx}

/-- A transparent CALL that passes the final check. -/
theorem callOutputs_of_transparent {read : Bytes → Except String Transaction}
    {funding : TransparentFunding} {plan : TransparentPlan} {parsed : Transaction}
    (hplan : funding.plan hash160 (.call payload) = .ok plan) (hread : read tx.bytes = .ok parsed)
    (h : plan.verifyExtracted H read tx = .ok ()) :
    ∃ bundle, parsed.transparentBundle = some bundle ∧ CallOutputs payload bundle := by
  obtain ⟨bundle, hbundle, hverified⟩ := verified_of_verifyExtracted hread h
  refine ⟨bundle, hbundle, ?_⟩
  rw [TransparentFunding.plan] at hplan
  split_ifs at hplan
  obtain ⟨prepared, hprepared, hplan⟩ := bind_eq_ok hplan
  cases hplan
  rw [TransparentFunding.buildPlan] at hprepared
  split at hprepared
  · cases hprepared
  rw [callPlan] at hprepared
  split at hprepared
  · cases hprepared
  rename_i change hchange
  cases hprepared
  refine ⟨_, hverified.outputs, fun o ho => ?_⟩
  rw [List.mem_singleton.mp ho]
  rfl

/-- A shielded CALL that passes the final check. -/
theorem callOutputs_of_shielded {K : Type} {W : PoolBackend K} {T : TxReader} {plan : PoolPlan K}
    {branchId : UInt32} {txVersion : String} {changeCmx : Option Bytes32}
    {final : ShieldedTransaction} (hplan : W.planCall payload = .ok plan)
    (hread : T.read branchId tx.bytes = .ok final)
    (h : plan.verifyExtracted T branchId txVersion changeCmx tx = .ok ()) :
    ∃ bundle, final.transparentBundle = some bundle ∧ CallOutputs payload bundle := by
  obtain ⟨final', hread', hcompared⟩ := verifyExtracted_compared h
  obtain rfl := Except.ok.inj (hread.symm.trans hread')
  rw [PoolBackend.planCall] at hplan
  obtain ⟨⟨sel, fee⟩, -, hplan⟩ := bind_eq_ok hplan
  obtain ⟨-, -, -, -, houtputs, -⟩ := PoolBackend.assembleAndBuild_eq_ok hplan
  refine ⟨_, hcompared.transparent, [], ?_, by simp⟩
  rw [houtputs]
  rfl

end Verified

/-! ### The indexer -/

/-- The indexer executes the call for the transaction, and nothing else for it. -/
structure ExecutesOnce (P : Platform) (config : IndexerConfig) (msg : CallMessage)
    (tx : ParsedTransaction) : Prop where
  /-- As the first transaction of an active block, with the full fuel of a call. -/
  first : ∀ store parsed activation later calls, config.activationHeight = some activation →
    activation ≤ parsed.height → parsed.transactions = tx :: later →
    blockCalls P config store parsed = .ok calls → ∃ result others,
      execute P.engine P.overflowChecks
        ((msg.request tx.txid).context parsed.height maxFuelPerCall) store = .ok result ∧
      calls = ((msg.request tx.txid).context parsed.height maxFuelPerCall, result) :: others
  /-- In any block, unless a cap drops it. -/
  once : ∀ store parsed calls, (parsed.transactions.map ParsedTransaction.txid).Nodup →
    tx ∈ parsed.transactions → blockCalls P config store parsed = .ok calls →
    ((calls.map fun r => r.1.request).filter fun r => r.txid = tx.txid).Sublist
      [msg.request tx.txid]

section Executes

variable {P : Platform} {config : IndexerConfig} {store : StateView} {msg : CallMessage}
  {tx : ParsedTransaction}

/-- Outputs without a message ask for nothing. -/
theorem outputRequests_of_no_message {outputs : List (UInt16 × Bytes)}
    (h : ∀ output ∈ outputs, outputMessage output.2 = none) :
    outputRequests P.hashing tx outputs = [] := by
  rw [outputRequests, List.filterMap_eq_nil_iff]
  intro output houtput
  rw [h output houtput]
  rfl

/-- Of a block whose transactions have different ids, the requests under an id are those of its
transaction. -/
theorem filter_requests {txs : List ParsedTransaction}
    (hnodup : (txs.map ParsedTransaction.txid).Nodup) (htx : tx ∈ txs) :
    ((txs.flatMap fun tx => tx.requests P.hashing).filter fun r => r.txid = tx.txid) =
      tx.requests P.hashing := by
  induction txs with
  | nil => cases htx
  | cons tx' txs ih =>
      rw [List.map_cons, List.nodup_cons] at hnodup
      obtain ⟨hnew, hnodup⟩ := hnodup
      have hkeep : ∀ {t : ParsedTransaction}, t.txid = tx.txid →
          ((t.requests P.hashing).filter fun r => r.txid = tx.txid) = t.requests P.hashing :=
        fun ht => List.filter_eq_self.mpr fun r hr =>
          decide_eq_true ((txid_of_mem_requests hr).trans ht)
      have hdrop : ∀ {t : ParsedTransaction}, t.txid ≠ tx.txid →
          ((t.requests P.hashing).filter fun r => r.txid = tx.txid) = [] :=
        fun ht => List.filter_eq_nil_iff.mpr fun r hr heq =>
          ht ((txid_of_mem_requests hr).symm.trans (of_decide_eq_true heq))
      rw [List.flatMap_cons, List.filter_append]
      rcases List.mem_cons.mp htx with rfl | hmem
      · have hrest : ((txs.flatMap fun t => t.requests P.hashing).filter
            fun r => r.txid = tx.txid) = [] := by
          refine List.filter_eq_nil_iff.mpr fun r hr heq => hnew ?_
          obtain ⟨t, ht, hr⟩ := List.mem_flatMap.mp hr
          rw [← of_decide_eq_true heq, txid_of_mem_requests hr]
          exact List.mem_map_of_mem ht
        rw [hkeep rfl, hrest, List.append_nil]
      · have hne : tx'.txid ≠ tx.txid := fun heq => hnew (by
          rw [heq]
          exact List.mem_map_of_mem hmem)
        rw [hdrop hne, ih hnodup hmem, List.nil_append]

/-- Later transactions add calls. -/
theorem results_foldlM {txs : List ParsedTransaction} {acc acc' : BlockAcc}
    (h : txs.foldlM (processTransaction P config store) acc = .ok acc') :
    ∃ later, acc'.results = acc.results ++ later := by
  induction txs generalizing acc with
  | nil =>
      rw [← Except.ok.inj h]
      exact ⟨[], (List.append_nil _).symm⟩
  | cons tx txs ih =>
      rw [List.foldlM_cons] at h
      obtain ⟨acc₁, htx, h⟩ := bind_eq_ok h
      obtain ⟨new, hnew, -⟩ := results_sublist_processOutputs htx
      obtain ⟨later, hlater⟩ := ih h
      exact ⟨new ++ later, by rw [hlater, hnew, List.append_assoc]⟩

/-- **A transaction with the payload in its first output** is executed as the call. -/
theorem executesOnce (hrange : msg.InRange) {outIdx : UInt16} {others : List (UInt16 × Bytes)}
    (houtputs : tx.outputs = (outIdx, opReturnScript (encodeCall msg)) :: others)
    (hothers : ∀ output ∈ others, outputMessage output.2 = none) :
    ExecutesOnce P config msg tx := by
  have hmessage : outputMessage (opReturnScript (encodeCall msg)) = some (.call msg) :=
    outputMessage_encode (show (Message.call msg).InRange from hrange)
  have hcallsOnly : CallsOnly tx.outputs := by
    intro output houtput deploy
    rw [houtputs] at houtput
    rcases List.mem_cons.mp houtput with rfl | hmem
    · rw [hmessage]
      simp
    · rw [hothers output hmem]
      simp
  constructor
  · intro store parsed activation later calls hact hge htxs hcalls
    have hroom : (BlockAcc.init parsed.height parsed.hash).limits.Room 0 :=
      ⟨Nat.zero_le _, Nat.zero_le _, Nat.zero_le _⟩
    have hresults := results_processTransaction (P := P) config store (Nat.zero_le 2) hcallsOnly
      hroom
    unfold blockCalls at hcalls
    rw [hact] at hcalls
    dsimp only at hcalls
    rw [if_neg (UInt32.not_lt.mpr hge)] at hcalls
    obtain ⟨acc, hacc, rfl⟩ := map_eq_ok hcalls
    rw [processTransactions, htxs, List.foldlM_cons] at hacc
    obtain ⟨acc₁, hfirst, hrest⟩ := bind_eq_ok hacc
    obtain ⟨others', hlater⟩ := results_foldlM hrest
    rw [hfirst, houtputs, txCalls_of_request hmessage rfl hothers] at hresults
    obtain ⟨mine, hmine, hacc₁⟩ := map_eq_ok hresults.symm
    obtain ⟨result, hresult, rfl⟩ := map_eq_ok hmine
    refine ⟨result, others', hresult, ?_⟩
    rw [hlater, ← hacc₁]
    rfl
  · intro store parsed calls hnodup htx hcalls
    have hsub := (requests_of_blockCalls hcalls).filter fun r => r.txid = tx.txid
    rw [ParsedBlock.requests, filter_requests hnodup htx] at hsub
    have hrequests : tx.requests P.hashing = [msg.request tx.txid] := by
      have hnone : outputRequests P.hashing tx others = [] := outputRequests_of_no_message hothers
      rw [outputRequests] at hnone
      rw [ParsedTransaction.requests, outputRequests, houtputs, List.filterMap_cons, hmessage,
        hnone]
      rfl
    rwa [hrequests] at hsub

/-- The indexer's reading of a transaction of these outputs. -/
theorem executesOnce_parseTransaction {tx : Transaction} {bundle : TransparentBundle} (txid : TxId)
    (hrange : msg.InRange) (hbundle : tx.transparentBundle = some bundle)
    (houtputs : CallOutputs (encodeCall msg) bundle) :
    ExecutesOnce P config msg (parseTransaction txid tx) := by
  obtain ⟨change, hvout, hchange⟩ := houtputs
  have hparsed : (parseTransaction txid tx).outputs = (0, opReturnScript (encodeCall msg)) ::
      (change.zipIdx 1).map fun e => (UInt16.ofNat e.2, e.1.scriptPubkey) := by
    rw [parseTransaction, hbundle]
    dsimp only
    rw [hvout, List.zipIdx_cons, List.map_cons]
    rfl
  refine executesOnce hrange hparsed ?_
  · intro output houtput
    obtain ⟨⟨o, i⟩, ho, rfl⟩ := List.mem_map.mp houtput
    exact hchange o (List.fst_mem_of_mem_zipIdx ho)

end Executes

/-- The transparent part of a transaction, which is all that the indexer reads. -/
def ShieldedTransaction.transparentPart (tx : ShieldedTransaction) : Transaction :=
  ⟨tx.version, tx.expiryHeight, tx.transparentBundle⟩

/-- **What the command line is asked for is what the indexer executes.** Of every call that
`contract_call` takes, the payload fits a standard OP_RETURN; and when a transaction around it
passes the final check of the transparent or of the shielded plan, the indexer makes this call for
the transaction and no other: once at most in every block, and with the full fuel as its first
transaction. -/
theorem contract_call_executes {hex : Hex} {contractId inputHex : String} {opcode : UInt16}
    {request : TxRequest} (h : contractCall hex contractId opcode inputHex = .ok request) :
    ∃ msg, Asks hex contractId opcode inputHex msg ∧ (encodeCall msg).length ≤ 80 ∧
      request = .call (encodeCall msg) ∧
      (∀ H hash160 read tx parsed txid P config, ∀ (funding : TransparentFunding) plan,
        funding.plan hash160 request = .ok plan → read tx.bytes = .ok parsed →
        plan.verifyExtracted H read tx = .ok () →
        ExecutesOnce P config msg (parseTransaction txid parsed)) ∧
      ∀ (K : Type) (W : PoolBackend K) T plan branchId txVersion changeCmx tx final txid P config,
        W.planCall (encodeCall msg) = .ok plan → T.read branchId tx.bytes = .ok final →
        plan.verifyExtracted T branchId txVersion changeCmx tx = .ok () →
        ExecutesOnce P config msg (parseTransaction txid final.transparentPart) := by
  obtain ⟨msg, hasks, rfl⟩ := contractCall_eq_ok h
  refine ⟨msg, hasks, length_encodeCall_le hasks.inRange, rfl, ?_, ?_⟩
  · intro H hash160 read tx parsed txid P config funding plan hplan hread hverified
    obtain ⟨bundle, hbundle, houtputs⟩ := callOutputs_of_transparent hplan hread hverified
    exact executesOnce_parseTransaction txid hasks.inRange hbundle houtputs
  · intro K W T plan branchId txVersion changeCmx tx final txid P config hplan hread hverified
    obtain ⟨bundle, hbundle, houtputs⟩ := callOutputs_of_shielded hplan hread hverified
    exact executesOnce_parseTransaction txid hasks.inRange hbundle houtputs

/-- A call without input, paid for with one note. -/
theorem contract_call_executes_oneNote : ∃ msg, ∀ P config,
    ExecutesOnce P config msg (parseTransaction (.replicate 8)
      (oneNoteFinal (encodeCall msg)).transparentPart) := by
  have hrequest : contractCall ⟨fun _ => "", fun s => some (List.replicate s.length 7)⟩
      "0123456789abcdef0123456789abcdef" 1 "" =
      .ok (.call (encodeCall ⟨.replicate 7, 1, []⟩)) := rfl
  obtain ⟨msg, -, -, hmsg, -, hshielded⟩ := contract_call_executes hrequest
  have hplan : oneNoteBackend.planCall (encodeCall msg) = .ok { oneNotePlan with
      transparentOutputs := [⟨0, opReturnScript (encodeCall msg)⟩] } := rfl
  refine ⟨msg, fun P config => hshielded Unit oneNoteBackend (oneNoteReader (encodeCall msg)) _ 5
    "v6" (some (.replicate 5)) ⟨[], .replicate 8⟩ _ _ P config hplan rfl ?_⟩
  rw [← TxRequest.call.inj hmsg]
  rfl

end Zalkanes
