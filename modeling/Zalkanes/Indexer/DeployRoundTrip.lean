import Zalkanes.Transaction
import Zalkanes.Indexer.Calls

/-!
# The Deploy Pipeline

From code to a DEPLOY transaction and back. The chunks of a transaction reconstruct the code in
whatever order the inputs come, because each chunk carries the index of its slot.

## Main results

* `placeChunks_eq_ok`: chunks with different indices in range land in their slots.
* `reconstruct_of_perm`: the chunks of a code reconstruct it, in any order.
* `deploy_round_trip`: the whole pipeline.
* `blockCommit_deploy`: the block of the transaction deploys the code.
-/

namespace Zalkanes

open Lib

/-! ### Slots -/

/-- Chunks with different indices in range, placed into free slots: each is in its slot, and the
other slots are as they were. -/
theorem placeChunks_eq_ok {chunkCount : UInt8} {cs : List Chunk}
    (hrange : ∀ c ∈ cs, c.index < chunkCount) (hnodup : (cs.map Chunk.index).Nodup)
    (slots : List (Option Bytes)) (hlength : slots.length = chunkCount.toNat)
    (hfree : ∀ c ∈ cs, slots[c.index.toNat]? = some none) :
    ∃ slots', placeChunks chunkCount cs slots = .ok slots' ∧ slots'.length = slots.length ∧
      (∀ c ∈ cs, slots'[c.index.toNat]? = some (some c.data)) ∧
      ∀ i, (∀ c ∈ cs, c.index.toNat ≠ i) → slots'[i]? = slots[i]? := by
  induction cs generalizing slots with
  | nil => exact ⟨slots, rfl, rfl, fun _ hc => absurd hc List.not_mem_nil, fun _ _ => rfl⟩
  | cons c cs ih =>
      rw [List.map_cons, List.nodup_cons] at hnodup
      have hindex := hrange c (by simp)
      have hmine := hfree c (by simp)
      have hne : ∀ d ∈ cs, c.index.toNat ≠ d.index.toNat := fun d hd heq =>
        hnodup.1 (List.mem_map.mpr ⟨d, hd, (UInt8.toNat_inj.mp heq).symm⟩)
      obtain ⟨slots', hplace, hlength', hplaced, hothers⟩ :=
        ih (fun d hd => hrange d (by simp [hd])) hnodup.2 (slots.set c.index.toNat (some c.data))
          (by rw [List.length_set, hlength]) (fun d hd => by
            rw [List.getElem?_set_ne (hne d hd)]
            exact hfree d (by simp [hd]))
      refine ⟨slots', ?_, hlength'.trans List.length_set, ?_, ?_⟩
      · rw [placeChunks, if_neg (UInt8.not_le.mpr hindex), if_neg]
        · exact hplace
        · rw [List.getD_eq_getElem?_getD, hmine]
          exact Bool.false_ne_true
      · intro d hd
        rcases List.mem_cons.mp hd with rfl | hd
        · rw [hothers d.index.toNat fun e he heq => hne e he heq.symm, List.getElem?_set_self]
          rw [hlength]
          exact UInt8.lt_iff_toNat_lt.mp hindex
        · exact hplaced d hd
      · intro i hi
        rw [hothers i fun d hd => hi d (by simp [hd]), List.getElem?_set_ne (hi c (by simp))]

/-- Slots that are filled are joined. -/
theorem concatSlots_map_some (i : ℕ) (datas : List Bytes) :
    concatSlots i (datas.map some) = .ok datas.flatten := by
  induction datas generalizing i with
  | nil => rfl
  | cons data datas ih =>
      rw [List.map_cons, concatSlots, ih]
      rfl

/-! ### Reconstruction -/

/-- The chunks of a list of pieces: each piece with its position. -/
def chunksOf (pieces : List Bytes) : List Chunk :=
  pieces.zipIdx.map fun (data, i) => ⟨UInt8.ofNat i, data⟩

/-- A chunk is a piece at its position. -/
theorem mem_chunksOf {pieces : List Bytes} {c : Chunk} :
    c ∈ chunksOf pieces ↔ ∃ i, pieces[i]? = some c.data ∧ c.index = UInt8.ofNat i := by
  rw [chunksOf, List.mem_map]
  constructor
  · rintro ⟨⟨data, i⟩, hmem, rfl⟩
    exact ⟨i, List.mem_zipIdx_iff_getElem?.mp hmem, rfl⟩
  · rintro ⟨i, hdata, hindex⟩
    exact ⟨(c.data, i), List.mem_zipIdx_iff_getElem?.mpr hdata, by dsimp only; rw [← hindex]⟩

/-- The chunks of pieces are numbered. -/
theorem map_index_chunksOf (pieces : List Bytes) :
    (chunksOf pieces).map Chunk.index = (List.range pieces.length).map UInt8.ofNat := by
  rw [chunksOf, List.map_map, List.range_eq_range', ← List.zipIdx_map_snd, List.map_map]
  rfl

/-- The chunks of up to 255 pieces, in any order, fill the slots with the pieces. -/
theorem placeChunks_of_perm {pieces : List Bytes} (hcount : pieces.length ≤ 255) {cs : List Chunk}
    (hperm : cs.Perm (chunksOf pieces)) :
    placeChunks (UInt8.ofNat pieces.length) cs (List.replicate pieces.length none) =
      .ok (pieces.map some) := by
  have hposition : ∀ i ≤ pieces.length, (UInt8.ofNat i).toNat = i := fun i hi => by
    rw [UInt8.toNat_ofNat', Nat.mod_eq_of_lt (by omega)]
  have hcast := hposition _ le_rfl
  have hindex : ∀ c ∈ cs, pieces[c.index.toNat]? = some c.data := by
    intro c hc
    obtain ⟨i, hdata, hi⟩ := mem_chunksOf.mp (hperm.mem_iff.mp hc)
    rwa [hi, hposition i (List.getElem?_eq_some_iff.mp hdata).1.le]
  have hnodup : (cs.map Chunk.index).Nodup := by
    rw [(hperm.map Chunk.index).nodup_iff, map_index_chunksOf]
    refine List.nodup_range.map_on fun i hi j hj heq => ?_
    rw [← hposition i (List.mem_range.mp hi).le, heq, hposition j (List.mem_range.mp hj).le]
  obtain ⟨slots, hplace, hslots, hplaced, -⟩ := placeChunks_eq_ok (fun c hc => by
      rw [UInt8.lt_iff_toNat_lt, hcast]
      exact (List.getElem?_eq_some_iff.mp (hindex c hc)).1)
    hnodup (List.replicate pieces.length none) (by rw [List.length_replicate, hcast])
    (fun c hc => List.getElem?_replicate_of_lt (List.getElem?_eq_some_iff.mp (hindex c hc)).1)
  rw [hplace]
  refine congrArg Except.ok (List.ext_getElem? fun i => ?_)
  rw [List.length_replicate] at hslots
  rcases Nat.lt_or_ge i pieces.length with hi | hi
  · have hmem : (⟨UInt8.ofNat i, pieces[i]⟩ : Chunk) ∈ cs :=
      hperm.mem_iff.mpr (mem_chunksOf.mpr ⟨i, List.getElem?_eq_getElem hi, rfl⟩)
    have hslot := hplaced _ hmem
    rw [hposition i hi.le] at hslot
    rw [hslot, List.getElem?_map, List.getElem?_eq_getElem hi]
    rfl
  · rw [List.getElem?_eq_none (by omega), List.getElem?_eq_none (by simpa using hi)]

/-- There are as many. -/
theorem length_chunksOf (pieces : List Bytes) : (chunksOf pieces).length = pieces.length := by
  rw [chunksOf, List.length_map, List.length_zipIdx]

/-- The chunks of a code reconstruct it, in any order. -/
theorem reconstruct_of_perm (H : Hashing) {wasm : Bytes} (hpos : 1 ≤ wasm.length)
    (hmax : wasm.length ≤ maxCodeBytes.toNat) {cs : List Chunk}
    (hperm : cs.Perm (chunksOf (chunks chunkPayloadSize wasm))) :
    reconstruct H cs (UInt8.ofNat (chunks chunkPayloadSize wasm).length)
      (UInt32.ofNat wasm.length) (CodeHash.of H wasm) = .ok wasm := by
  have hmaxCode : maxCodeBytes.toNat = 262144 := rfl
  have hmaxChunks : maxChunks.toNat = 188 := rfl
  have hflatten := flatten_chunks (show 0 < chunkPayloadSize by decide) wasm
  have hcount := (splitChunks_eq_ok hpos hmax).2
  generalize chunks chunkPayloadSize wasm = pieces at hperm hflatten hcount
  have hcast : (UInt8.ofNat pieces.length).toNat = pieces.length := by
    rw [UInt8.toNat_ofNat', Nat.mod_eq_of_lt (by omega)]
  have hlength : cs.length = pieces.length := by rw [hperm.length_eq, length_chunksOf]
  have hwasm : (UInt32.ofNat wasm.length).toNat = wasm.length := toNat_ofNat32 (by omega)
  have hdeclared : ¬ (UInt32.ofNat wasm.length = 0 ∨ UInt32.ofNat wasm.length > maxCodeBytes) := by
    refine pos_and_le_iff.mp ⟨UInt32.lt_iff_toNat_lt.mpr ?_, UInt32.le_iff_toNat_le.mpr ?_⟩
    · rw [hwasm]
      exact hpos
    · rw [hwasm]
      exact hmax
  rw [reconstruct, if_neg hdeclared, if_neg (by rw [hlength, hcast]; exact not_not.mpr rfl), hcast,
    placeChunks_of_perm (by omega) hperm]
  simp only [bind, Except.bind, concatSlots_map_some, hflatten]
  rw [if_neg (by rw [hwasm]; exact not_not.mpr rfl), if_neg (not_not.mpr rfl)]
  rfl

/-- What chunks of pieces reconstruct is the pieces, one after the other. -/
theorem reconstruct_chunksOf {H : Hashing} {pieces : List Bytes} {chunkCount : UInt8}
    {codeLength : UInt32} {codeHash : CodeHash} {wasm : Bytes}
    (h : reconstruct H (chunksOf pieces) chunkCount codeLength codeHash = .ok wasm) :
    wasm = pieces.flatten := by
  rw [reconstruct] at h
  split_ifs at h with hdeclared hcount
  rw [length_chunksOf, not_not] at hcount
  obtain rfl : chunkCount = UInt8.ofNat pieces.length := by rw [hcount, UInt8.ofNat_toNat]
  have hle : pieces.length ≤ 255 := by
    have hlt := (UInt8.ofNat pieces.length).toNat_lt
    omega
  rw [← hcount, placeChunks_of_perm hle (List.Perm.refl _)] at h
  simp only [bind, Except.bind, concatSlots_map_some] at h
  split_ifs at h
  cases h
  rfl

/-! ### The pipeline -/

/-- The scriptSigs of a deploy transaction: one carrier input for each piece of the code, each with
a signature of its own, and P2PKH inputs, each with a signature and a key. -/
def deployScriptSigs (pieces : List Bytes) (signatures : ℕ → Bytes) (redeem : Bytes)
    (payers : List (Bytes × Bytes)) : List Bytes :=
  pieces.zipIdx.map (fun (data, i) =>
      carrierScriptSig (UInt8.ofNat i) data (signatures i) redeem) ++
    payers.map fun (signature, pubkey) => p2pkhScriptSig signature pubkey

/-- The DEPLOY message for a code that is split into so many pieces. -/
def deployMessage (H : Hashing) (wasm : Bytes) (pieces : List Bytes) (outputIndex : UInt16) :
    DeployMessage :=
  ⟨CodeHash.of H wasm, UInt32.ofNat wasm.length, UInt8.ofNat pieces.length, outputIndex⟩

/-- A signature with its sighash byte. -/
def IsSignature (signature : Bytes) : Prop := 1 ≤ signature.length ∧ signature.length ≤ 73

/-- The chunk that a scriptSig carries, if it is that of a carrier input. -/
def carriedChunk (scriptSig : Bytes) : Option Chunk :=
  (chunkFromScriptSig scriptSig).map fun (index, data) => ⟨index, data⟩

/-- The chunks of a transaction are what its scriptSigs carry. -/
theorem carrierChunks_eq (tx : ParsedTransaction) :
    carrierChunks tx = (tx.inputs.map Prod.snd).filterMap carriedChunk := by
  rw [List.filterMap_map]
  rfl

/-- The scriptSigs of a deploy carry its chunks, in order. -/
theorem filterMap_deployScriptSigs {pieces : List Bytes} (hpieces : ∀ piece ∈ pieces, piece ≠ [])
    {signatures : ℕ → Bytes} (hsignatures : ∀ i, IsSignature (signatures i)) {redeem : Bytes}
    (hredeem : redeem.length = 36) {payers : List (Bytes × Bytes)}
    (hpayers : ∀ p ∈ payers, IsSignature p.1 ∧ p.2.length = 33) :
    (deployScriptSigs pieces signatures redeem payers).filterMap carriedChunk =
      chunksOf pieces := by
  have hcarrier : ∀ p ∈ pieces.zipIdx,
      carriedChunk (carrierScriptSig (UInt8.ofNat p.2) p.1 (signatures p.2) redeem) =
        some ⟨UInt8.ofNat p.2, p.1⟩ := by
    intro p hmem
    have hdata := hpieces p.1 (List.mem_of_getElem? (List.mem_zipIdx_iff_getElem?.mp hmem))
    have hsignature := (hsignatures p.2).2
    rw [carriedChunk, chunkFromScriptSig_carrierScriptSig _ hdata (by omega) (by omega)]
    rfl
  have hp2pkh : ∀ p ∈ payers, carriedChunk (p2pkhScriptSig p.1 p.2) = none := by
    intro p hmem
    obtain ⟨⟨-, hsignature⟩, hpubkey⟩ := hpayers p hmem
    rw [carriedChunk, chunkFromScriptSig_p2pkhScriptSig (by omega) (by omega)]
    rfl
  rw [deployScriptSigs, List.filterMap_append, List.filterMap_map, List.filterMap_map]
  refine (congrArg₂ (· ++ ·) (List.filterMap_congr hcarrier)
    (List.filterMap_eq_nil_iff.mpr hp2pkh)).trans ?_
  rw [List.append_nil, chunksOf, ← List.filterMap_eq_map]
  rfl

/-- The chunks of a deploy transaction, whose scriptSigs come in any order, are those of its
pieces. -/
theorem carrierChunks_perm {pieces : List Bytes} (hpieces : ∀ piece ∈ pieces, piece ≠ [])
    {signatures : ℕ → Bytes} (hsignatures : ∀ i, IsSignature (signatures i)) {redeem : Bytes}
    (hredeem : redeem.length = 36) {payers : List (Bytes × Bytes)}
    (hpayers : ∀ p ∈ payers, IsSignature p.1 ∧ p.2.length = 33) {tx : ParsedTransaction}
    (hinputs : (tx.inputs.map Prod.snd).Perm (deployScriptSigs pieces signatures redeem payers)) :
    (carrierChunks tx).Perm (chunksOf pieces) := by
  rw [carrierChunks_eq, ← filterMap_deployScriptSigs hpieces hsignatures hredeem hpayers]
  exact hinputs.filterMap carriedChunk

/-- The message of a deploy is read back from its OP_RETURN output. -/
theorem outputMessage_deployMessage (H : Hashing) {wasm : Bytes} (hpos : 1 ≤ wasm.length)
    (hmax : wasm.length ≤ maxCodeBytes.toNat) (outputIndex : UInt16) :
    outputMessage (opReturnScript (encodeDeploy
        (deployMessage H wasm (chunks chunkPayloadSize wasm) outputIndex))) =
      some (.deploy (deployMessage H wasm (chunks chunkPayloadSize wasm) outputIndex)) := by
  have hmaxCode : maxCodeBytes.toNat = 262144 := rfl
  have hmaxChunks : maxChunks.toNat = 188 := rfl
  have hcount := (splitChunks_eq_ok hpos hmax).2
  have hsome : 0 < (chunks chunkPayloadSize wasm).length := by
    refine List.length_pos_iff.mpr fun hnil => ?_
    have hflatten := flatten_chunks (show 0 < chunkPayloadSize by decide) wasm
    rw [hnil, List.flatten_nil] at hflatten
    rw [← hflatten, List.length_nil] at hpos
    omega
  generalize chunks chunkPayloadSize wasm = pieces at hcount hsome ⊢
  have hrange : (Message.deploy (deployMessage H wasm pieces outputIndex)).InRange := by
    have hcode : (UInt32.ofNat wasm.length).toNat = wasm.length := toNat_ofNat32 (by omega)
    have hchunks : (UInt8.ofNat pieces.length).toNat = pieces.length := by
      rw [UInt8.toNat_ofNat', Nat.mod_eq_of_lt (by omega)]
    refine ⟨UInt32.lt_iff_toNat_lt.mpr ?_, UInt32.le_iff_toNat_le.mpr ?_,
      UInt8.lt_iff_toNat_lt.mpr ?_⟩
    · exact hcode.symm ▸ hpos
    · exact hcode.symm ▸ hmax
    · exact hchunks.symm ▸ hsome
  have hlength : (encodeDeploy (deployMessage H wasm pieces outputIndex)).length < 2 ^ 16 := by
    simp [encodeDeploy, header, protocolMagic]
  have hparse := (parseOpReturn_eq_some_iff _ _).mpr ⟨hrange, rfl⟩
  rw [outputMessage, extractOpReturnData_opReturnScript hlength]
  dsimp only
  rw [show encodeDeploy (deployMessage H wasm pieces outputIndex) =
    (Message.deploy (deployMessage H wasm pieces outputIndex)).encode from rfl, hparse]

/-- **The deploy pipeline.** Code within the limit is split into pieces; its DEPLOY message is read
back from the OP_RETURN output; and from a transaction with the carrier inputs of the pieces and
any P2PKH inputs, in any order, exactly the code is reconstructed. -/
theorem deploy_round_trip (H : Hashing) {wasm : Bytes} (hpos : 1 ≤ wasm.length)
    (hmax : wasm.length ≤ maxCodeBytes.toNat) (outputIndex : UInt16) :
    ∃ pieces, splitChunks wasm = .ok pieces ∧
      let deploy := deployMessage H wasm pieces outputIndex
      outputMessage (opReturnScript (encodeDeploy deploy)) = some (.deploy deploy) ∧
      ∀ (signatures : ℕ → Bytes) (redeem : Bytes) (payers : List (Bytes × Bytes))
        (tx : ParsedTransaction),
        (∀ i, IsSignature (signatures i)) → redeem.length = 36 →
        (∀ p ∈ payers, IsSignature p.1 ∧ p.2.length = 33) →
        (tx.inputs.map Prod.snd).Perm (deployScriptSigs pieces signatures redeem payers) →
        reconstruct H (carrierChunks tx) deploy.chunkCount deploy.codeLength deploy.codeHash =
          .ok wasm := by
  refine ⟨chunks chunkPayloadSize wasm, (splitChunks_eq_ok hpos hmax).1,
    outputMessage_deployMessage H hpos hmax outputIndex, ?_⟩
  intro signatures redeem payers tx hsignatures hredeem hpayers hinputs
  have hpieces : ∀ piece ∈ chunks chunkPayloadSize wasm, piece ≠ [] := fun piece hpiece =>
    List.length_pos_iff.mp (length_of_mem_chunks (by decide) hpiece).1
  exact reconstruct_of_perm H hpos hmax
    (carrierChunks_perm hpieces hsignatures hredeem hpayers hinputs)

/-! ### The block of a deploy -/

section DeployBlock

variable {P : Platform} {config : IndexerConfig} {store : StateView} {tx : ParsedTransaction}

/-- A deploy whose code is there, valid and under a new id is accepted. -/
theorem handleDeploy_of_reconstruct {deploy : DeployMessage} {wasm : Bytes}
    (hrec : reconstruct P.hashing (carrierChunks tx) deploy.chunkCount deploy.codeLength
      deploy.codeHash = .ok wasm)
    (hnew : store.hasContract (ContractId.derive P.hashing config.network tx.txid
      deploy.outputIndex deploy.codeHash) = false)
    (hvalid : validateModule P.engine wasm = .ok ()) (acc : BlockAcc) :
    let contractId := ContractId.derive P.hashing config.network tx.txid deploy.outputIndex
      deploy.codeHash
    handleDeploy P config store acc tx deploy =
      { acc with
        commit := { acc.commit with
          deploys := acc.commit.deploys ++ [(contractId, deploy.codeHash, wasm)] }
        deployed := acc.deployed ++ [contractId] } := by
  intro contractId
  rw [handleDeploy, hrec]
  dsimp only
  rw [hnew, hvalid]
  rfl

/-- A DEPLOY message within the byte caps of the block is handled as a deploy. -/
theorem handleMessage_deploy {acc : TxAcc} {deploy : DeployMessage} {carrier deployed : ℕ}
    (hcarrier : saturatingAdd acc.block.limits.carrierBytes deploy.codeLength.toNat = carrier)
    (hdeployed : saturatingAdd acc.block.limits.deployBytes deploy.codeLength.toNat = deployed)
    (hcaps : ¬ (carrier > maxCarrierBytesPerBlock ∨ deployed > maxDeployBytesPerBlock)) :
    let counted := acc.setLimits { acc.block.limits with
      carrierBytes := carrier
      deployBytes := deployed }
    handleMessage P config store acc tx deploy.outputIndex (.deploy deploy) =
      .ok { counted with block := handleDeploy P config store counted.block tx deploy } := by
  subst hcarrier hdeployed
  rw [handleMessage, if_neg (not_not.mpr rfl)]
  dsimp only
  rw [if_neg hcaps]

/-- **A block with the transaction of the pipeline deploys the code**, if it is valid and its id is
new. -/
theorem blockCommit_deploy {activation height : BlockHeight} (hash : BlockHash) {wasm : Bytes}
    (hactivation : config.activationHeight = some activation) (hge : activation ≤ height)
    (hpos : 1 ≤ wasm.length) (hmax : wasm.length ≤ maxCodeBytes.toNat)
    (hvalid : validateModule P.engine wasm = .ok ())
    (houtputs : tx.outputs = [(0, opReturnScript (encodeDeploy
      (deployMessage P.hashing wasm (chunks chunkPayloadSize wasm) 0)))])
    (hchunks : (carrierChunks tx).Perm (chunksOf (chunks chunkPayloadSize wasm)))
    (hnew : store.hasContract (ContractId.derive P.hashing config.network tx.txid 0
      (CodeHash.of P.hashing wasm)) = false) :
    blockCommit P config store ⟨height, hash, [tx]⟩ =
      .ok (some ⟨height, hash, [(ContractId.derive P.hashing config.network tx.txid 0
        (CodeHash.of P.hashing wasm), CodeHash.of P.hashing wasm, wasm)], [], []⟩) := by
  have hmessage := outputMessage_deployMessage P.hashing hpos hmax 0
  have hreconstruct := reconstruct_of_perm P.hashing hpos hmax hchunks
  set deploy := deployMessage P.hashing wasm (chunks chunkPayloadSize wasm) 0
  have hrec : reconstruct P.hashing (carrierChunks tx) deploy.chunkCount deploy.codeLength
      deploy.codeHash = .ok wasm := hreconstruct
  have hlength : saturatingAdd 0 deploy.codeLength.toNat = wasm.length := by
    have hmaxCode : maxCodeBytes.toNat = 262144 := rfl
    rw [show deploy.codeLength.toNat = wasm.length from
      toNat_ofNat32 (lt_of_le_of_lt hmax (by decide)), saturatingAdd]
    omega
  have hcaps : ¬ (wasm.length > maxCarrierBytesPerBlock ∨
      wasm.length > maxDeployBytesPerBlock) := by
    have hmaxCode : maxCodeBytes.toNat = 262144 := rfl
    rw [maxCarrierBytesPerBlock, maxDeployBytesPerBlock]
    omega
  have hone : plainAdd32 P.overflowChecks 0 1 = .ok 1 := by
    cases P.overflowChecks <;> rfl
  have hprocess : processTransactions P config store ⟨height, hash, [tx]⟩ =
      .ok (handleDeploy P config store
        { BlockAcc.init height hash with limits := ⟨0, 1, wasm.length, wasm.length⟩ } tx
        deploy) := by
    change (processTransaction P config store (BlockAcc.init height hash) tx >>= _) = _
    rw [processTransaction, houtputs, processOutputs, hmessage]
    change ((plainAdd32 P.overflowChecks 0 1 >>= fun txMessages =>
      plainAdd32 P.overflowChecks 0 1 >>= _) >>= _) = _
    rw [hone]
    simp only [bind, Except.bind]
    rw [if_neg (by decide), show (0 : UInt16) = deploy.outputIndex from rfl,
      handleMessage_deploy hlength hlength hcaps]
    rfl
  rw [blockCommit, hactivation]
  dsimp only
  rw [if_neg (UInt32.not_lt.mpr hge), hprocess, handleDeploy_of_reconstruct hrec hnew hvalid]
  rfl

end DeployBlock

/-- A transaction that deploys one byte, with a P2PKH input in front of the carrier. -/
def oneByteTx : ParsedTransaction where
  txid := Bytes32.replicate 1
  outputs := []
  inputs := [(0, p2pkhScriptSig [0x30] (List.replicate 33 2)),
    (1, carrierScriptSig 0 [0x00] [0x30] (redeemScript (List.replicate 33 2)))]

/-- One byte of code comes back. -/
theorem deploy_round_trip_oneByte :
    1 ≤ ([0x00] : Bytes).length ∧ ([0x00] : Bytes).length ≤ maxCodeBytes.toNat ∧
      ∀ H : Hashing, reconstruct H (carrierChunks oneByteTx) 1 1 (CodeHash.of H [0x00]) =
        .ok [0x00] := by
  have hpos : 1 ≤ ([0x00] : Bytes).length := by decide
  have hmax : ([0x00] : Bytes).length ≤ maxCodeBytes.toNat := by decide
  refine ⟨hpos, hmax, fun H => ?_⟩
  obtain ⟨pieces, hsplit, -, hreconstruct⟩ := deploy_round_trip H hpos hmax 0
  have hpieces : chunks chunkPayloadSize [(0x00 : UInt8)] = [[0x00]] :=
    chunks_of_length_le (by decide) (by decide)
  obtain rfl : [[0x00]] = pieces := by
    rw [← hpieces]
    exact Except.ok.inj hsplit
  exact hreconstruct (fun _ => [0x30]) (redeemScript (List.replicate 33 2))
    [([0x30], List.replicate 33 2)] oneByteTx (fun _ => ⟨by decide, by decide⟩) (by decide)
    (fun p hp => List.mem_singleton.mp hp ▸ ⟨⟨by decide, by decide⟩, by decide⟩)
    (List.Perm.swap _ _ _)

end Zalkanes
