import Zalkanes.Indexer.DeployRoundTrip
import Zalkanes.Wallet.Prepared

/-!
# The Final Check of a Transparent Transaction

Before it is broadcast, the signed transaction is parsed again and compared with its plan: version,
expiry, inputs, outputs, the contents of the scriptSigs and the fee; for a DEPLOY, the code is
reconstructed from the final scriptSigs. The indexer reads the same transaction with readers of its
own, and besides compares the output that the DEPLOY message names with the one that carries it.

## Main results

* `verifyScriptSigs_eq_ok`: what the indexer reads from the scriptSigs was compared with
  the plan.
* `deploy_accepted_iff`: exactly when the indexer accepts the deploy of a verified transaction.
-/

namespace Zalkanes

open Lib

/-! ### The transparent funding source -/

/-- A transparent signing key and its UTXOs. -/
structure TransparentFunding where
  key : SigningKey
  utxos : List FundingUtxo

/-- A prepared transparent plan, as far as the final check reads it. -/
structure TransparentPlan where
  prepared : PreparedTx
  request : TxRequest

namespace TransparentFunding

/-- What may be spent, with its value. -/
def outpointsAndValues (funding : TransparentFunding) : List (OutPoint × ℕ) :=
  funding.utxos.map fun u => (u.outpoint, u.value)

/-- The transaction of a request. -/
def buildPlan (hash160 : Hash160) (funding : TransparentFunding) :
    TxRequest → Except String PreparedTx
  | .prepare carrierValues =>
      if carrierValues = [] then .error "PREPARE requires at least one carrier output"
      else preparePlan hash160 funding.key funding.outpointsAndValues carrierValues
  | .deploy chunks carrierOutpoints carrierValues opReturn =>
      deployPlan hash160 funding.key carrierOutpoints carrierValues chunks opReturn
  | .call opReturn =>
      match funding.utxos with
      | [] => .error "no funding UTXO for CALL"
      | utxo :: _ => callPlan hash160 funding.key utxo.outpoint utxo.value opReturn

/-- Plan a request, in a context that was validated. -/
def plan (hash160 : Hash160) (funding : TransparentFunding) (request : TxRequest) :
    Except String TransparentPlan :=
  if funding.utxos = [] then .error "no transparent funding UTXOs available"
  else do
    let prepared ← funding.buildPlan hash160 request
    return ⟨prepared, request⟩

end TransparentFunding

/-! ### Transactions as they are read -/

/-- The versions of transactions. -/
inductive TxVersion where
  | sprout (version : UInt32)
  | v3
  | v4
  | v5
  | v6
  deriving DecidableEq

/-- An input. -/
structure TxIn where
  prevout : OutPoint
  scriptSig : Bytes
  deriving DecidableEq

/-- The transparent part of a transaction. -/
structure TransparentBundle where
  vin : List TxIn
  vout : List SpendOutput
  deriving DecidableEq

/-- A transaction as librustzcash reads it, as far as its transparent part goes. -/
structure Transaction where
  version : TxVersion
  expiryHeight : UInt32
  transparentBundle : Option TransparentBundle
  deriving DecidableEq

/-- The transaction as the indexer reads it. -/
def parseTransaction (txid : TxId) (tx : Transaction) : ParsedTransaction :=
  match tx.transparentBundle with
  | none => ⟨txid, [], []⟩
  | some bundle =>
      ⟨txid, bundle.vout.zipIdx.map fun (txout, i) => (UInt16.ofNat i, txout.scriptPubkey),
        bundle.vin.zipIdx.map fun (txin, i) => (UInt32.ofNat i, txin.scriptSig)⟩

/-! ### The final check -/

/-- The invariant at which the final check fails. -/
inductive VerifyError where
  | parse (e : String)
  | version (got : TxVersion)
  | expiry (got : UInt32)
  | noTransparentBundle
  | inputCount (got expected : ℕ)
  | prevout (input : ℕ)
  | outputCount (got expected : ℕ)
  | outputValue (output : ℕ)
  | outputScript (output : ℕ)
  | p2pkhPushCount (input got : ℕ)
  | p2pkhPubkey (input : ℕ)
  | p2pkhSignature (input : ℕ)
  | carrierPushCount (input got : ℕ)
  | carrierIndex (input : ℕ)
  | carrierRedeem (input : ℕ)
  | carrierSignature (input : ℕ)
  | carrierBytes (input : ℕ)
  | opReturnParse (e : ParseError)
  | notDeploy
  | reconstruction (e : CarrierError)
  | outputOverflow
  | negativeFee
  | fee (extracted planned : ℕ)
  deriving DecidableEq

/-- The prevouts, in order, from input `i` on. -/
def verifyPrevouts : ℕ → List (TxIn × SpendInput) → Except VerifyError Unit
  | _, [] => .ok ()
  | i, (vin, planIn) :: rest =>
      if vin.prevout ≠ planIn.outpoint then .error (.prevout i) else verifyPrevouts (i + 1) rest

/-- The outputs, in order, from output `i` on. -/
def verifyOutputs : ℕ → List (SpendOutput × SpendOutput) → Except VerifyError Unit
  | _, [] => .ok ()
  | i, (vout, planOut) :: rest =>
      if vout.value ≠ planOut.value then .error (.outputValue i)
      else if vout.scriptPubkey ≠ planOut.scriptPubkey then .error (.outputScript i)
      else verifyOutputs (i + 1) rest

/-- The final contents of one scriptSig, and the chunk it carries. -/
def verifyScriptSig (i : ℕ) (scriptSig : Bytes) : SpendKind → Except VerifyError (Option Chunk)
  | .p2pkh key =>
      let pushes := parseScriptPushes scriptSig
      if pushes.length ≠ 2 then .error (.p2pkhPushCount i pushes.length)
      else if pushes.getD 1 [] ≠ key.compressedPubkey then .error (.p2pkhPubkey i)
      else if (pushes.getD 0 []).head? ≠ some 0x30 then .error (.p2pkhSignature i)
      else .ok none
  | .carrier _ chunkIndex chunkData redeemScript =>
      let pushes := parseScriptPushes scriptSig
      if pushes.length < 4 then .error (.carrierPushCount i pushes.length)
      else if pushes.getD 0 [] ≠ [chunkIndex] then .error (.carrierIndex i)
      else if pushes.getD (pushes.length - 1) [] ≠ redeemScript then .error (.carrierRedeem i)
      else if (pushes.getD (pushes.length - 2) []).head? ≠ some 0x30 then
        .error (.carrierSignature i)
      else
        let data := ((pushes.drop 1).take (pushes.length - 3)).flatten
        if data ≠ chunkData then .error (.carrierBytes i) else .ok (some ⟨chunkIndex, data⟩)

/-- The scriptSigs, in order, from input `i` on, and the chunks they carry. -/
def verifyScriptSigs : ℕ → List (Bytes × SpendInput) → Except VerifyError (List Chunk)
  | _, [] => .ok []
  | i, (scriptSig, planIn) :: rest => do
      let chunk ← verifyScriptSig i scriptSig planIn.kind
      let chunks ← verifyScriptSigs (i + 1) rest
      return chunk.toList ++ chunks

/-- The code of a DEPLOY, from the final scriptSigs. -/
def verifyDeploy (H : Hashing) (finalChunks : List Chunk) : TxRequest → Except VerifyError Unit
  | .deploy _ _ _ opReturn =>
      match parseOpReturn opReturn with
      | .error e => .error (.opReturnParse e)
      | .ok (some (.deploy d)) =>
          match reconstruct H finalChunks d.chunkCount d.codeLength d.codeHash with
          | .error e => .error (.reconstruction e)
          | .ok _ => .ok ()
      | .ok _ => .error .notDeploy
  | _ => .ok ()

/-- The sum of the values, while it fits in 64 bits. -/
def checkedSum (values : List ℕ) : Option ℕ :=
  values.foldlM (fun acc v => checkedAdd acc v) 0

/-- Compare the signed transaction with its plan. -/
def TransparentPlan.verifyExtracted (H : Hashing) (read : Bytes → Except String Transaction)
    (plan : TransparentPlan) (tx : SignedTx) : Except VerifyError Unit := do
  let parsed ← (read tx.bytes).mapError .parse
  if parsed.version ≠ .v5 then throw (.version parsed.version)
  else if parsed.expiryHeight ≠ 0 then throw (.expiry parsed.expiryHeight)
  else
    match parsed.transparentBundle with
    | none => throw .noTransparentBundle
    | some bundle =>
        let inputs := plan.prepared.inputs
        let outputs := plan.prepared.outputs
        if bundle.vin.length ≠ inputs.length then
          throw (.inputCount bundle.vin.length inputs.length)
        else
          verifyPrevouts 0 (bundle.vin.zip inputs)
          if bundle.vout.length ≠ outputs.length then
            throw (.outputCount bundle.vout.length outputs.length)
          else
            verifyOutputs 0 (bundle.vout.zip outputs)
            let finalChunks ← verifyScriptSigs 0 ((bundle.vin.map TxIn.scriptSig).zip inputs)
            verifyDeploy H finalChunks plan.request
            let inSum := (inputs.map SpendInput.value).sum % 2 ^ 64
            match checkedSum (bundle.vout.map SpendOutput.value) with
            | none => throw .outputOverflow
            | some outSum =>
                match checkedSub inSum outSum with
                | none => throw .negativeFee
                | some actualFee =>
                    if actualFee ≠ plan.prepared.fee then
                      throw (.fee actualFee plan.prepared.fee)
                    else return ()

/-! ### What the check binds -/

/-- The chunk of a carrier input. -/
def SpendKind.chunk? : SpendKind → Option Chunk
  | p2pkh _ => none
  | carrier _ chunkIndex chunkData _ => some ⟨chunkIndex, chunkData⟩

/-- The chunk in a scriptSig, as the indexer collects it. -/
def readChunk (scriptSig : Bytes) : Option Chunk :=
  (chunkFromScriptSig scriptSig).map fun (index, data) => ⟨index, data⟩

/-- A scriptSig that passes carries the chunk of the plan, for the indexer too. -/
theorem verifyScriptSig_eq_ok {i : ℕ} {scriptSig : Bytes} {kind : SpendKind}
    {chunk : Option Chunk} (h : verifyScriptSig i scriptSig kind = .ok chunk) :
    chunk = kind.chunk? ∧ readChunk scriptSig = kind.chunk? := by
  cases kind with
  | p2pkh key =>
      rw [verifyScriptSig] at h
      split_ifs at h with hcount hpubkey hsignature
      cases h
      refine ⟨rfl, ?_⟩
      rw [readChunk, chunkFromScriptSig]
      dsimp only
      rw [if_pos (by omega)]
      rfl
  | carrier key index data redeem =>
      rw [verifyScriptSig] at h
      dsimp only at h
      split_ifs at h with hcount hindex hredeem hsignature hbytes
      cases h
      rw [not_not] at hindex hbytes
      rw [SpendKind.chunk?, ← hbytes]
      refine ⟨rfl, ?_⟩
      rw [readChunk, chunkFromScriptSig]
      generalize parseScriptPushes scriptSig = pushes at hcount hindex
      dsimp only
      rw [if_neg hcount]
      cases pushes with
      | nil => exact absurd (show (0 : ℕ) < 4 by decide) hcount
      | cons first parts =>
          obtain rfl : first = [index] := hindex
          rfl

/-- **What the indexer reads from the scriptSigs** is what was compared with the plan. -/
theorem verifyScriptSigs_eq_ok {i : ℕ} {pairs : List (Bytes × SpendInput)} {cs : List Chunk}
    (h : verifyScriptSigs i pairs = .ok cs) :
    cs = pairs.filterMap (fun p => p.2.kind.chunk?) ∧
      cs = pairs.filterMap (fun p => readChunk p.1) := by
  induction pairs generalizing i cs with
  | nil =>
      cases h
      exact ⟨rfl, rfl⟩
  | cons pair pairs ih =>
      obtain ⟨scriptSig, planIn⟩ := pair
      rw [verifyScriptSigs] at h
      obtain ⟨chunk, hchunk, h⟩ := bind_eq_ok h
      obtain ⟨rest, hrest, h⟩ := bind_eq_ok h
      cases h
      obtain ⟨rfl, hread⟩ := verifyScriptSig_eq_ok hchunk
      obtain ⟨hplan, hindexer⟩ := ih hrest
      have hcons : ∀ o : Option Chunk, ∀ f : Bytes × SpendInput → Option Chunk,
          f (scriptSig, planIn) = o → rest = pairs.filterMap f →
          o.toList ++ rest = ((scriptSig, planIn) :: pairs).filterMap f := by
        rintro o f rfl hrest
        rw [List.filterMap_cons, ← hrest]
        cases f (scriptSig, planIn) <;> rfl
      exact ⟨hcons _ _ rfl hplan, hcons _ _ hread hindexer⟩

/-- Outputs that pass are the planned ones. -/
theorem verifyOutputs_eq_ok {i : ℕ} {vouts planOuts : List SpendOutput}
    (hlength : vouts.length = planOuts.length)
    (h : verifyOutputs i (vouts.zip planOuts) = .ok ()) : vouts = planOuts := by
  induction vouts generalizing i planOuts with
  | nil => exact (List.length_eq_zero_iff.mp hlength.symm).symm
  | cons vout vouts ih =>
      cases planOuts with
      | nil => cases hlength
      | cons planOut planOuts =>
          rw [List.zip_cons_cons, verifyOutputs] at h
          split_ifs at h with hvalue hscript
          rw [not_not] at hvalue hscript
          obtain rfl : vout = planOut := by
            cases vout
            cases planOut
            rw [SpendOutput.mk.injEq]
            exact ⟨hvalue, hscript⟩
          rw [ih (Nat.succ_injective hlength) h]

/-- What is known of a transaction that passes. -/
structure Verified (H : Hashing) (plan : TransparentPlan) (bundle : TransparentBundle) : Prop where
  outputs : bundle.vout = plan.prepared.outputs
  chunks : bundle.vin.filterMap (fun vin => readChunk vin.scriptSig) =
    plan.prepared.inputs.filterMap fun i => i.kind.chunk?
  deploy : verifyDeploy H (plan.prepared.inputs.filterMap fun i => i.kind.chunk?) plan.request =
    .ok ()

/-- A transaction that passes has a bundle which is verified. -/
theorem verified_of_verifyExtracted {H : Hashing} {read : Bytes → Except String Transaction}
    {plan : TransparentPlan} {tx : SignedTx} {parsed : Transaction}
    (hread : read tx.bytes = .ok parsed) (h : plan.verifyExtracted H read tx = .ok ()) :
    ∃ bundle, parsed.transparentBundle = some bundle ∧ Verified H plan bundle := by
  rw [TransparentPlan.verifyExtracted, hread] at h
  obtain ⟨parsed', hparsed, h⟩ := bind_eq_ok h
  cases hparsed
  split_ifs at h with hversion hexpiry
  split at h
  · cases h
  rename_i bundle hbundle
  dsimp only at h
  by_cases hinputs : bundle.vin.length ≠ plan.prepared.inputs.length
  · rw [if_pos hinputs] at h
    cases h
  rw [if_neg hinputs] at h
  obtain ⟨⟨⟩, hprevouts, h⟩ := bind_eq_ok h
  by_cases houtputs : bundle.vout.length ≠ plan.prepared.outputs.length
  · rw [if_pos houtputs] at h
    cases h
  rw [if_neg houtputs] at h
  obtain ⟨⟨⟩, hcompare, h⟩ := bind_eq_ok h
  obtain ⟨cs, hcs, h⟩ := bind_eq_ok h
  obtain ⟨⟨⟩, hdeploy, h⟩ := bind_eq_ok h
  rw [not_not] at hinputs houtputs
  obtain ⟨hplan, hindexer⟩ := verifyScriptSigs_eq_ok hcs
  have hsnd : ((bundle.vin.map TxIn.scriptSig).zip plan.prepared.inputs).map Prod.snd =
      plan.prepared.inputs := List.map_snd_zip (by rw [List.length_map, hinputs])
  have hfst : ((bundle.vin.map TxIn.scriptSig).zip plan.prepared.inputs).map Prod.fst =
      bundle.vin.map TxIn.scriptSig := List.map_fst_zip (by rw [List.length_map, hinputs])
  have hplan' : cs = plan.prepared.inputs.filterMap fun i => i.kind.chunk? := by
    rw [hplan, ← hsnd, List.filterMap_map, hsnd]
    rfl
  have hindexer' : cs = bundle.vin.filterMap fun vin => readChunk vin.scriptSig := by
    rw [hindexer]
    have := congrArg (List.filterMap readChunk) hfst
    rwa [List.filterMap_map, List.filterMap_map] at this
  exact ⟨bundle, hbundle, verifyOutputs_eq_ok houtputs hcompare, hindexer'.symm.trans hplan',
    hplan' ▸ hdeploy⟩

/-- A result goes on. -/
theorem ok_bind {ε α β : Type} (a : α) (f : α → Except ε β) : (Except.ok a >>= f) = f a := rfl

/-- The planned inputs pass. -/
theorem verifyPrevouts_of_eq (i : ℕ) {vin : List TxIn} {inputs : List SpendInput}
    (h : vin.map TxIn.prevout = inputs.map SpendInput.outpoint) :
    verifyPrevouts i (vin.zip inputs) = .ok () := by
  induction vin generalizing i inputs with
  | nil => rfl
  | cons txin vin ih =>
      cases inputs with
      | nil => rfl
      | cons input inputs =>
          rw [List.map_cons, List.map_cons, List.cons.injEq] at h
          rw [List.zip_cons_cons, verifyPrevouts, if_neg (not_not.mpr h.1)]
          exact ih (i + 1) h.2

/-- The planned outputs pass. -/
theorem verifyOutputs_self (i : ℕ) (outputs : List SpendOutput) :
    verifyOutputs i (outputs.zip outputs) = .ok () := by
  induction outputs generalizing i with
  | nil => rfl
  | cons output outputs ih =>
      rw [List.zip_cons_cons, verifyOutputs, if_neg (not_not.mpr rfl), if_neg (not_not.mpr rfl)]
      exact ih (i + 1)

/-- **A transaction that is signed as planned passes.** -/
theorem verifyExtracted_of_planned {H : Hashing} {plan : TransparentPlan} {vin : List TxIn}
    {cs : List Chunk} {outSum : ℕ}
    (hprevouts : vin.map TxIn.prevout = plan.prepared.inputs.map SpendInput.outpoint)
    (hscripts : verifyScriptSigs 0 ((vin.map TxIn.scriptSig).zip plan.prepared.inputs) = .ok cs)
    (hdeploy : verifyDeploy H cs plan.request = .ok ())
    (hsum : checkedSum (plan.prepared.outputs.map SpendOutput.value) = some outSum)
    (hfee : (plan.prepared.inputs.map SpendInput.value).sum % 2 ^ 64 =
      outSum + plan.prepared.fee) (tx : SignedTx) :
    plan.verifyExtracted H
      (fun _ => .ok ⟨.v5, 0, some ⟨vin, plan.prepared.outputs⟩⟩) tx = .ok () := by
  have hlength : vin.length = plan.prepared.inputs.length := by
    rw [← List.length_map TxIn.prevout, hprevouts, List.length_map]
  rw [TransparentPlan.verifyExtracted, Except.mapError, ok_bind, if_neg (not_not.mpr rfl),
    if_neg (not_not.mpr rfl)]
  dsimp only
  rw [if_neg (not_not.mpr hlength), verifyPrevouts_of_eq 0 hprevouts, ok_bind,
    if_neg (not_not.mpr rfl), verifyOutputs_self, ok_bind, hscripts, ok_bind, hdeploy, ok_bind,
    hsum]
  dsimp only
  rw [checkedSub_eq_some.mpr hfee]
  dsimp only
  rw [if_neg (not_not.mpr rfl)]
  rfl

/-! ### The deploy of a verified transaction -/

section Deploy

variable {H : Hashing} {hash160 : Hash160} {funding : TransparentFunding} {pieces : List Bytes}
  {outpoints : List OutPoint} {values : List ℕ} {opReturn : Bytes}

/-- The chunks of the carrier inputs are those of the pieces. -/
theorem chunks_carrierInputs {key : SigningKey} (hvalues : outpoints.length = values.length)
    (hpieces : outpoints.length = pieces.length) :
    (carrierInputs hash160 key outpoints values pieces).filterMap (fun i => i.kind.chunk?) =
      chunksOf pieces := by
  have hsnd : ((outpoints.zip values).zip pieces).map Prod.snd = pieces :=
    List.map_snd_zip (by rw [List.length_zip]; omega)
  conv_rhs => rw [chunksOf, ← hsnd, List.zipIdx_map, List.map_map]
  rw [carrierInputs, List.filterMap_map, ← List.filterMap_eq_map]
  rfl

/-- What a deploy plan is made of. -/
theorem deploy_of_plan {plan : TransparentPlan}
    (h : funding.plan hash160 (.deploy pieces outpoints values opReturn) = .ok plan) :
    plan.request = .deploy pieces outpoints values opReturn ∧
      (plan.prepared.inputs.filterMap fun i => i.kind.chunk?) = chunksOf pieces ∧
      ∃ change, plan.prepared.outputs =
        ⟨0, opReturnScript opReturn⟩ :: changeOutputs hash160 funding.key change := by
  rw [TransparentFunding.plan] at h
  split_ifs at h
  obtain ⟨prepared, hprepared, h⟩ := bind_eq_ok h
  cases h
  rw [TransparentFunding.buildPlan, deployPlan] at hprepared
  split_ifs at hprepared with hmismatch
  rw [not_or, not_not, not_not] at hmismatch
  obtain ⟨hpieces, hvalues⟩ := hmismatch
  dsimp only at hprepared
  split at hprepared
  · cases hprepared
  rename_i change hchange
  cases hprepared
  exact ⟨rfl, chunks_carrierInputs hvalues hpieces, change, rfl⟩

/-- A change output carries no message. -/
theorem outputMessage_changeOutputs {key : SigningKey} {change : ℕ} {o : SpendOutput}
    (h : o ∈ changeOutputs hash160 key change) : outputMessage o.scriptPubkey = none := by
  rw [script_of_mem_changeOutputs h]
  rfl

/-- The message of a deploy plan is in its first output. -/
theorem eq_first_of_outputMessage {key : SigningKey} {change : ℕ} {outIdx : UInt16}
    {scriptPubkey : Bytes} {message : Message}
    (hmem : (outIdx, scriptPubkey) ∈ (⟨0, opReturnScript opReturn⟩ ::
      changeOutputs hash160 key change).zipIdx.map fun e => (UInt16.ofNat e.2, e.1.scriptPubkey))
    (hmessage : outputMessage scriptPubkey = some message) :
    outIdx = 0 ∧ scriptPubkey = opReturnScript opReturn := by
  obtain ⟨⟨txout, i⟩, htxout, heq⟩ := List.mem_map.mp hmem
  obtain ⟨rfl, rfl⟩ := Prod.mk.inj heq
  rw [List.zipIdx_cons, List.mem_cons] at htxout
  rcases htxout with heq | hchange
  · obtain ⟨rfl, rfl⟩ := Prod.mk.inj heq
    exact ⟨rfl, rfl⟩
  · rw [outputMessage_changeOutputs (List.fst_mem_of_mem_zipIdx hchange)] at hmessage
    cases hmessage

/-- The indexer reads the chunks of the inputs. -/
theorem carrierChunks_parseTransaction (txid : TxId) {parsed : Transaction}
    {bundle : TransparentBundle} (hbundle : parsed.transparentBundle = some bundle) :
    carrierChunks (parseTransaction txid parsed) =
      bundle.vin.filterMap fun vin => readChunk vin.scriptSig := by
  rw [carrierChunks, parseTransaction, hbundle]
  conv_rhs => rw [← List.zipIdx_map_fst 0 bundle.vin, List.filterMap_map]
  rw [List.filterMap_map]
  rfl

/-- The message of a deploy, and what its chunks reconstruct. -/
theorem deploy_of_verifyDeploy
    (h : verifyDeploy H (chunksOf pieces) (.deploy pieces outpoints values opReturn) = .ok ()) :
    ∃ deploy, parseOpReturn opReturn = .ok (some (.deploy deploy)) ∧
      outputMessage (opReturnScript opReturn) = some (.deploy deploy) ∧
      reconstruct H (chunksOf pieces) deploy.chunkCount deploy.codeLength deploy.codeHash =
        .ok pieces.flatten := by
  rw [verifyDeploy] at h
  split at h
  · cases h
  · rename_i deploy hparse
    refine ⟨deploy, hparse, ?_, ?_⟩
    · obtain ⟨-, rfl⟩ := (parseOpReturn_eq_some_iff _ _).mp hparse
      have hlength : (Message.deploy deploy).encode.length < 2 ^ 16 := by
        simp [Message.encode, encodeDeploy, header, protocolMagic]
      rw [outputMessage, extractOpReturnData_opReturnScript hlength]
      dsimp only
      rw [hparse]
    · split at h
      · cases h
      · rename_i wasm hwasm
        rw [hwasm, reconstruct_chunksOf hwasm]
  · cases h

/-- The indexer finds a DEPLOY message that names the output that carries it, and the inputs
reconstruct the code. -/
def IndexerAccepts (H : Hashing) (tx : ParsedTransaction) (code : Bytes) : Prop :=
  ∃ outIdx scriptPubkey deploy, (outIdx, scriptPubkey) ∈ tx.outputs ∧
    outputMessage scriptPubkey = some (.deploy deploy) ∧ deploy.outputIndex = outIdx ∧
    reconstruct H (carrierChunks tx) deploy.chunkCount deploy.codeLength deploy.codeHash = .ok code

/-- The DEPLOY message names the first output, which the plan puts it into. -/
def NamesFirstOutput (opReturn : Bytes) : Prop :=
  ∃ deploy, parseOpReturn opReturn = .ok (some (.deploy deploy)) ∧ deploy.outputIndex = 0

/-- **The indexer accepts the deploy of a verified transaction** exactly when its message names the
first output. -/
theorem deploy_accepted_iff (H : Hashing) (hash160 : Hash160)
    (read : Bytes → Except String Transaction) (txid : TxId) {funding : TransparentFunding}
    {pieces : List Bytes} {outpoints : List OutPoint} {values : List ℕ} {opReturn : Bytes}
    {plan : TransparentPlan} {tx : SignedTx} {parsed : Transaction}
    (hplan : funding.plan hash160 (.deploy pieces outpoints values opReturn) = .ok plan)
    (hread : read tx.bytes = .ok parsed) (hverify : plan.verifyExtracted H read tx = .ok ()) :
    IndexerAccepts H (parseTransaction txid parsed) pieces.flatten ↔ NamesFirstOutput opReturn := by
  obtain ⟨bundle, hbundle, houtputs, hchunks, hdeploy⟩ :=
    verified_of_verifyExtracted hread hverify
  obtain ⟨hrequest, hpieces, change, hplanOutputs⟩ := deploy_of_plan hplan
  rw [hpieces] at hchunks hdeploy
  rw [hrequest] at hdeploy
  obtain ⟨deploy, hparse, hmessage, hreconstruct⟩ := deploy_of_verifyDeploy hdeploy
  have hcarrier : carrierChunks (parseTransaction txid parsed) = chunksOf pieces :=
    (carrierChunks_parseTransaction txid hbundle).trans hchunks
  have hread : (parseTransaction txid parsed).outputs =
      (⟨0, opReturnScript opReturn⟩ :: changeOutputs hash160 funding.key change).zipIdx.map
        fun e => (UInt16.ofNat e.2, e.1.scriptPubkey) := by
    rw [parseTransaction, hbundle, ← hplanOutputs, ← houtputs]
  constructor
  · rintro ⟨outIdx, scriptPubkey, deploy', hmem, hsome, hindex, -⟩
    rw [hread] at hmem
    obtain ⟨rfl, rfl⟩ := eq_first_of_outputMessage hmem hsome
    rw [hmessage, Option.some.injEq, Message.deploy.injEq] at hsome
    exact ⟨deploy, hparse, hsome ▸ hindex⟩
  · rintro ⟨deploy', hparse', hindex⟩
    rw [hparse', Except.ok.injEq, Option.some.injEq, Message.deploy.injEq] at hparse
    refine ⟨0, opReturnScript opReturn, deploy, ?_, hmessage, hparse ▸ hindex,
      by rw [hcarrier, hreconstruct]⟩
    rw [hread]
    exact List.mem_cons_self

end Deploy

/-! ### A deploy of one byte -/

/-- Hashes that are all zero. -/
def someHashing : Hashing := ⟨fun _ _ => .replicate 0, fun _ => .replicate 0⟩

/-- A deploy of one byte, whose message names this output. -/
def oneByteOpReturn (outputIndex : UInt16) : Bytes :=
  encodeDeploy (deployMessage someHashing [0] [[0]] outputIndex)

/-- One output to spend. -/
def oneByteFunding : TransparentFunding := ⟨someKey, [⟨someOutpoint, 50000⟩]⟩

/-- The payload is a DEPLOY of one byte. -/
theorem parseOpReturn_oneByte (outputIndex : UInt16) :
    parseOpReturn (oneByteOpReturn outputIndex) =
      .ok (some (.deploy (deployMessage someHashing [0] [[0]] outputIndex))) :=
  (parseOpReturn_eq_some_iff _ _).mpr ⟨⟨show (0 : UInt32) < 1 by decide,
    show (1 : UInt32) ≤ maxCodeBytes by decide, show (0 : UInt8) < 1 by decide⟩, rfl⟩

/-- The plan of the deploy. -/
def oneBytePlan (outputIndex : UInt16) : TransparentPlan where
  prepared := ⟨carrierInputs someHash160 someKey [someOutpoint] [50000] [[0]],
    ⟨0, opReturnScript (oneByteOpReturn outputIndex)⟩ :: changeOutputs someHash160 someKey 35000,
    15000, 35000, 50000⟩
  request := .deploy [[0]] [someOutpoint] [50000] (oneByteOpReturn outputIndex)

/-- The transaction of the plan, as it is signed. -/
def oneByteTransaction (outputIndex : UInt16) : Transaction :=
  ⟨.v5, 0, some ⟨[⟨someOutpoint, carrierScriptSig 0 [0] [0x30]
    (redeemScript someKey.compressedPubkey)⟩], (oneBytePlan outputIndex).prepared.outputs⟩⟩

/-- One byte is one push. -/
theorem chunks_oneByte : chunks maxPushSize [(0 : UInt8)] = [[0]] := by
  rw [chunks, dif_neg (by decide), chunks, dif_pos (by decide)]
  rfl

/-- The plan of this deploy. -/
theorem plan_oneByte (outputIndex : UInt16) :
    oneByteFunding.plan someHash160
      (.deploy [[0]] [someOutpoint] [50000] (oneByteOpReturn outputIndex)) =
        .ok (oneBytePlan outputIndex) := by
  have hcarrier : carrierScriptSigLen ([0] : Bytes).length = 115 := by
    rw [carrierScriptSigLen, carrierPushesLen_length, chunks_oneByte]
    decide
  have hscript : (opReturnScript (oneByteOpReturn outputIndex)).length = 47 := by
    have hlength : (oneByteOpReturn outputIndex).length = 45 := by
      simp [oneByteOpReturn, encodeDeploy, header, protocolMagic]
    rw [opReturnScript, List.length_cons, length_pushData, hlength]
    rfl
  have hplan : deployPlan someHash160 someKey [someOutpoint] [50000] [[0]]
      (oneByteOpReturn outputIndex) = .ok (oneBytePlan outputIndex).prepared := by
    rw [deployPlan, if_neg (by decide), List.map_singleton, hcarrier]
    dsimp only
    rw [hscript, length_p2pkhScriptPubkey]
    rfl
  rw [TransparentFunding.plan, if_neg (by decide), TransparentFunding.buildPlan]
  exact congrArg (fun r => r >>= fun prepared => Except.ok (⟨prepared, _⟩ : TransparentPlan)) hplan

/-- Whatever output its message names, the deploy passes the final check. -/
theorem verifyExtracted_oneByte (outputIndex : UInt16) :
    (oneBytePlan outputIndex).verifyExtracted someHashing
      (fun _ => .ok (oneByteTransaction outputIndex)) ⟨[], .replicate 0⟩ = .ok () := by
  have hpushes := parseScriptPushes_carrierScriptSig 0 [0]
    (show ([0x30] : Bytes).length < 2 ^ 16 by decide)
    (show (redeemScript someKey.compressedPubkey).length < 2 ^ 16 by decide)
  rw [chunks_oneByte] at hpushes
  have hscripts : verifyScriptSigs 0 [(carrierScriptSig 0 [0] [0x30]
      (redeemScript someKey.compressedPubkey), ⟨someOutpoint, 50000,
        p2shScriptPubkey someHash160 (redeemScript someKey.compressedPubkey),
        redeemScript someKey.compressedPubkey,
        .carrier someKey 0 [0] (redeemScript someKey.compressedPubkey)⟩)] = .ok [⟨0, [0]⟩] := by
    rw [verifyScriptSigs, verifyScriptSig, hpushes]
    rfl
  have hdeploy : verifyDeploy someHashing [⟨0, [0]⟩] (oneBytePlan outputIndex).request =
      .ok () := by
    rw [oneBytePlan, verifyDeploy, parseOpReturn_oneByte]
    rfl
  have hsum : checkedSum ((oneBytePlan outputIndex).prepared.outputs.map SpendOutput.value) =
      some 35000 := by
    change checkedSum [0, 35000] = some 35000
    decide
  have hfee : ((oneBytePlan outputIndex).prepared.inputs.map SpendInput.value).sum % 2 ^ 64 =
      35000 + (oneBytePlan outputIndex).prepared.fee := by
    change ([50000] : List ℕ).sum % 2 ^ 64 = 35000 + 15000
    decide
  exact @verifyExtracted_of_planned _ (oneBytePlan outputIndex) [⟨someOutpoint, _⟩] _ _ rfl hscripts
    hdeploy hsum hfee _

/-- A deploy whose message names the first output. -/
theorem deploy_accepted_iff_first :
    IndexerAccepts someHashing (parseTransaction (.replicate 2) (oneByteTransaction 0)) [0] :=
  (deploy_accepted_iff someHashing someHash160 (fun _ => .ok (oneByteTransaction 0))
    (.replicate 2) (plan_oneByte 0) rfl (verifyExtracted_oneByte 0)).mpr
      ⟨_, parseOpReturn_oneByte 0, rfl⟩

/-- A deploy whose message names the second output, where the change goes. -/
theorem not_deploy_accepted_second :
    oneByteFunding.plan someHash160
      (.deploy [[0]] [someOutpoint] [50000] (oneByteOpReturn 1)) = .ok (oneBytePlan 1) ∧
    (oneBytePlan 1).verifyExtracted someHashing (fun _ => .ok (oneByteTransaction 1))
      ⟨[], .replicate 0⟩ = .ok () ∧
    ¬ IndexerAccepts someHashing (parseTransaction (.replicate 2) (oneByteTransaction 1)) [0] := by
  refine ⟨plan_oneByte 1, verifyExtracted_oneByte 1, ?_⟩
  rintro ⟨outIdx, scriptPubkey, deploy, hmem, hmessage, hindex, -⟩
  have houtputs : (parseTransaction (.replicate 2) (oneByteTransaction 1)).outputs =
      [(0, opReturnScript (oneByteOpReturn 1)),
        (1, p2pkhScriptPubkey someHash160 someKey.compressedPubkey)] := rfl
  rw [houtputs, List.mem_pair] at hmem
  rcases hmem with heq | heq
  · obtain ⟨rfl, rfl⟩ := Prod.mk.inj heq
    have hone : outputMessage (opReturnScript (oneByteOpReturn 1)) =
        some (.deploy (deployMessage someHashing [0] [[0]] 1)) := by decide +kernel
    rw [hone, Option.some.injEq, Message.deploy.injEq] at hmessage
    rw [← hmessage] at hindex
    exact absurd hindex (by decide)
  · obtain ⟨rfl, rfl⟩ := Prod.mk.inj heq
    cases hmessage

end Zalkanes
