import Zalkanes.Wallet.Prepared

/-!
# Deploying in Two Stages

`contract_deploy` locks money in the carriers of a PREPARE before it plans the DEPLOY that spends
them. It sizes the carriers by a probe: a DEPLOY plan over placeholder outpoints and values, which
tells the fee. The fee depends on the code and not on the values, so the DEPLOY over the real
carriers pays the fee of the probe.

## Main results

* `deployPlan_eq_ok`: a DEPLOY plan succeeds when its carriers are worth the fee, and what it is
  then.
* `contractDeploy_recoversCarriers`: the probe succeeds, PREPARE makes the carriers first, and
  DEPLOY spends them all and returns 50,000 zatoshi or more.
-/

namespace Zalkanes

open Lib

/-! ### Sizing the carriers -/

/-- The OP_RETURN payload of the deploy. -/
def deployOpReturn (H : Hashing) (wasm : Bytes) (pieces : List Bytes) : Bytes :=
  encodeDeploy {
    codeHash := CodeHash.of H wasm
    codeLength := UInt32.ofNat wasm.length
    chunkCount := UInt8.ofNat pieces.length
    outputIndex := 0 }

/-- The first `n` outputs of a transaction. -/
def firstOutpoints (txid : Bytes32) (n : ℕ) : List OutPoint :=
  (List.range n).map fun i => ⟨txid, UInt32.ofNat i⟩

/-- The outpoints that the probe spends. -/
def probeOutpoints (n : ℕ) : List OutPoint := firstOutpoints (.replicate 0xEE) n

/-- The values that the probe spends: large enough for the fee of any deploy. -/
def probeValues (n : ℕ) : List ℕ := List.replicate n 1000000000

/-- What each carrier is worth: an equal part of the fee and the change, rounded up. -/
def carrierEach (deployFee n : ℕ) : ℕ := (deployFee + 50000) ⌈/⌉ n

/-- One value for each carrier. -/
def carrierValues (deployFee n : ℕ) : List ℕ := List.replicate n (carrierEach deployFee n)

section Plan

variable (H : Hashing) (hash160 : Hash160) (key : SigningKey)

/-- The plan from which `contract_deploy` takes the fee. -/
def probePlan (wasm : Bytes) (pieces : List Bytes) : Except String PreparedTx :=
  deployPlan hash160 key (probeOutpoints pieces.length) (probeValues pieces.length) pieces
    (deployOpReturn H wasm pieces)

/-- The carrier output of a value. -/
def carrierOutput (value : ℕ) : SpendOutput :=
  ⟨value, p2shScriptPubkey hash160 (redeemScript key.compressedPubkey)⟩

/-- The two stages with carriers for this fee: what PREPARE puts first, and how DEPLOY spends it
whatever id the PREPARE has. -/
structure RecoversCarriers (pieces : List Bytes) (opReturn : Bytes) (deployFee : ℕ) : Prop where
  prepare : ∀ utxos prepared,
    preparePlan hash160 key utxos (carrierValues deployFee pieces.length) = .ok prepared →
      prepared.outputs.take pieces.length =
        (carrierValues deployFee pieces.length).map (carrierOutput hash160 key)
  deploy : ∀ prepareTxid, ∃ plan,
    deployPlan hash160 key (firstOutpoints prepareTxid pieces.length)
        (carrierValues deployFee pieces.length) pieces opReturn = .ok plan ∧
      plan.fee = deployFee ∧
      plan.Balances [⟨0, opReturnScript opReturn⟩]
        (p2pkhScriptPubkey hash160 key.compressedPubkey) ∧
      50000 ≤ plan.change ∧
      plan.inputs.map (fun input => (input.outpoint, input.value, input.scriptPubkey)) =
        ((firstOutpoints prepareTxid pieces.length).zip
          ((carrierValues deployFee pieces.length).map (carrierOutput hash160 key))).map
          fun (outpoint, output) => (outpoint, output.value, output.scriptPubkey)

/-! ### The fee -/

/-- The fee of a DEPLOY plan. -/
def deployPlanFee (pieces : List Bytes) (opReturn : Bytes) : ℕ :=
  zip317FeeFromSizes (pieces.map fun c => inputSerializedSize (carrierScriptSigLen c.length)).sum
    (outputSerializedSize (opReturnScript opReturn).length +
      outputSerializedSize (p2pkhScriptPubkey hash160 key.compressedPubkey).length)

variable {hash160 key}

/-- **A DEPLOY plan succeeds** when the carriers are worth its fee. -/
theorem deployPlan_eq_ok {outpoints : List OutPoint} {values : List ℕ} {pieces : List Bytes}
    {opReturn : Bytes} (hpieces : outpoints.length = pieces.length)
    (hvalues : outpoints.length = values.length) (hsum : values.sum < 2 ^ 64)
    (hfee : deployPlanFee hash160 key pieces opReturn ≤ values.sum) :
    deployPlan hash160 key outpoints values pieces opReturn =
      .ok ⟨carrierInputs hash160 key outpoints values pieces,
        ⟨0, opReturnScript opReturn⟩ ::
          changeOutputs hash160 key (values.sum - deployPlanFee hash160 key pieces opReturn),
        deployPlanFee hash160 key pieces opReturn,
        values.sum - deployPlanFee hash160 key pieces opReturn, values.sum⟩ := by
  have hchange : checkedSub values.sum (deployPlanFee hash160 key pieces opReturn) =
      some (values.sum - deployPlanFee hash160 key pieces opReturn) := if_pos hfee
  rw [deployPlan, if_neg (not_or.mpr ⟨not_not.mpr hpieces, not_not.mpr hvalues⟩)]
  simp only [Nat.mod_eq_of_lt hsum]
  rw [← deployPlanFee, hchange]

/-- A pushed byte costs at most three more. -/
theorem carrierPushesLen_le (len remaining : ℕ) :
    carrierPushesLen len remaining ≤ len + 4 * remaining := by
  fun_induction carrierPushesLen len remaining with
  | case1 len => exact Nat.le_add_right _ _
  | case2 len remaining hpos part ih =>
      have hpart : part ≤ remaining ∧ 0 < part := by
        have : 0 < maxPushSize := by decide
        omega
      have hpush : pushOverhead part ≤ 3 := by
        rw [pushOverhead]
        split_ifs <;> omega
      omega

/-- A carrier input has at most 6000 bytes. -/
theorem inputSerializedSize_carrier_le {len : ℕ} (h : len ≤ chunkPayloadSize) :
    inputSerializedSize (carrierScriptSigLen len) ≤ 6000 := by
  have hpushes := carrierPushesLen_le 2 len
  have hredeem : pushOverhead redeemScriptLen + redeemScriptLen = 37 := rfl
  rw [chunkPayloadSize] at h
  rw [inputSerializedSize, serializedScriptSize, carrierScriptSigLen, hredeem, maxSignatureLen]
  split_ifs <;> omega

/-- A DEPLOY has 45 bytes. -/
theorem length_deployOpReturn (wasm : Bytes) (pieces : List Bytes) :
    (deployOpReturn H wasm pieces).length = 45 := by
  simp [deployOpReturn, encodeDeploy, header, protocolMagic]

/-- The fee of a deploy is less than the probe has for each chunk. -/
theorem deployPlanFee_le {wasm : Bytes} {pieces : List Bytes} (hsome : 0 < pieces.length)
    (hsmall : ∀ piece ∈ pieces, piece.length ≤ chunkPayloadSize) :
    deployPlanFee hash160 key pieces (deployOpReturn H wasm pieces) ≤ 250000 * pieces.length := by
  have hin : (pieces.map fun c => inputSerializedSize (carrierScriptSigLen c.length)).sum ≤
      pieces.length * 6000 := by
    refine (List.sum_le_card_nsmul _ 6000 fun size hsize => ?_).trans_eq ?_
    · obtain ⟨piece, hpiece, rfl⟩ := List.mem_map.mp hsize
      exact inputSerializedSize_carrier_le (hsmall piece hpiece)
    · rw [List.length_map, smul_eq_mul]
  have hout : outputSerializedSize (opReturnScript (deployOpReturn H wasm pieces)).length +
      outputSerializedSize (p2pkhScriptPubkey hash160 key.compressedPubkey).length = 90 := by
    rw [opReturnScript, List.length_cons, length_pushData, length_deployOpReturn,
      length_p2pkhScriptPubkey]
    rfl
  rw [deployPlanFee, hout]
  refine (zip317FeeFromSizes_mono hin le_rfl).trans ?_
  rw [zip317FeeFromSizes, Nat.ceilDiv_eq_add_pred_div, Nat.ceilDiv_eq_add_pred_div]
  omega

/-! ### The stages -/

/-- There are as many. -/
@[simp] theorem length_firstOutpoints (txid : Bytes32) (n : ℕ) :
    (firstOutpoints txid n).length = n := by
  simp [firstOutpoints]

/-- The carriers are worth the fee and 50,000 zatoshi, and little more. -/
theorem sum_carrierValues (deployFee : ℕ) {n : ℕ} (hn : 0 < n) :
    deployFee + 50000 ≤ (carrierValues deployFee n).sum ∧
      (carrierValues deployFee n).sum < deployFee + 50000 + n := by
  rw [carrierValues, List.sum_replicate, smul_eq_mul, carrierEach]
  refine ⟨le_smul_ceilDiv hn, ?_⟩
  rw [Nat.ceilDiv_eq_add_pred_div]
  have := Nat.mul_div_le (deployFee + 50000 + n - 1) n
  omega

/-- PREPARE makes its carriers first. -/
theorem take_outputs_of_preparePlan {utxos : List (OutPoint × ℕ)} {values : List ℕ}
    {prepared : PreparedTx} (h : preparePlan hash160 key utxos values = .ok prepared) :
    prepared.outputs.take values.length = values.map (carrierOutput hash160 key) := by
  rw [preparePlan] at h
  split_ifs at h with hnone hempty
  dsimp only at h
  split at h
  · cases h
  cases h
  exact List.take_left' (List.length_map _)

/-- The inputs of DEPLOY are the outputs of PREPARE. -/
theorem map_output_carrierInputs {outpoints : List OutPoint} {values : List ℕ}
    {pieces : List Bytes} (hpieces : values.length = pieces.length) :
    (carrierInputs hash160 key outpoints values pieces).map
        (fun input => (input.outpoint, input.value, input.scriptPubkey)) =
      (outpoints.zip (values.map (carrierOutput hash160 key))).map
        fun (outpoint, output) => (outpoint, output.value, output.scriptPubkey) := by
  rw [map_carrierInputs _ ((fun x : OutPoint × ℕ => (x.1, x.2, p2shScriptPubkey hash160
      (redeemScript key.compressedPubkey))) ∘ Prod.fst) fun _ _ => rfl, ← List.map_map,
    List.map_fst_zip (by rw [List.length_zip]; omega), List.zip_map_right, List.map_map]
  rfl

/-- Code that splits has a number of pieces that the protocol allows. -/
theorem splitChunks_of_ok {wasm : Bytes} {pieces : List Bytes} (h : splitChunks wasm = .ok pieces) :
    0 < pieces.length ∧ pieces.length ≤ maxChunks.toNat ∧
      ∀ piece ∈ pieces, piece.length ≤ chunkPayloadSize := by
  have hsize : 0 < chunkPayloadSize := by decide
  rw [splitChunks, carrierInputCount] at h
  split_ifs at h with hlength
  · cases h
  dsimp only at h
  split_ifs at h with hcount
  · cases h
  obtain rfl : chunks chunkPayloadSize wasm = pieces := Except.ok.inj h
  refine ⟨?_, ?_, fun piece hpiece => (length_of_mem_chunks hsize hpiece).2⟩
  · rw [length_chunks hsize, Nat.pos_iff_ne_zero, Ne, ← Nat.le_zero, ceilDiv_le_iff_le_mul hsize]
    have := not_or.mp hlength
    omega
  · rw [length_chunks hsize]
    exact Nat.not_lt.mp hcount

/-- The deploy pays back what the carriers were given. -/
theorem recoversCarriers {pieces : List Bytes} {opReturn : Bytes} (hsome : 0 < pieces.length)
    (hfee : deployPlanFee hash160 key pieces opReturn + 50000 + pieces.length < 2 ^ 64) :
    RecoversCarriers hash160 key pieces opReturn (deployPlanFee hash160 key pieces opReturn) := by
  generalize hvalues : carrierValues (deployPlanFee hash160 key pieces opReturn) pieces.length =
    values
  obtain ⟨hworth, hlittle⟩ := sum_carrierValues (deployPlanFee hash160 key pieces opReturn) hsome
  have hlength : values.length = pieces.length := by rw [← hvalues, carrierValues,
    List.length_replicate]
  rw [hvalues] at hworth hlittle
  constructor
  · intro utxos prepared h
    rw [hvalues] at h ⊢
    rw [← hlength]
    exact take_outputs_of_preparePlan h
  · intro prepareTxid
    have hplan := deployPlan_eq_ok
      (length_firstOutpoints prepareTxid pieces.length)
      ((length_firstOutpoints prepareTxid pieces.length).trans hlength.symm)
      (hlittle.trans hfee) (Nat.le_of_add_right_le hworth)
    have hsound := deployPlan_sound hplan (hlittle.trans hfee)
    rw [hvalues]
    refine ⟨_, hplan, rfl, hsound.toBalances, ?_, map_output_carrierInputs hlength⟩
    exact Nat.le_sub_of_add_le' hworth

/-- **A two-stage deploy never strands its carriers.** For every code that is split into chunks and
every key, the probe succeeds, and with carriers for the fee of the probe PREPARE makes the
carriers first and DEPLOY spends all of them, for that fee and at least 50,000 zatoshi of
change. -/
theorem contractDeploy_recoversCarriers (H : Hashing) (hash160 : Hash160) (key : SigningKey)
    {wasm : Bytes} {pieces : List Bytes} (hsplit : splitChunks wasm = .ok pieces) :
    ∃ probe, probePlan H hash160 key wasm pieces = .ok probe ∧
      RecoversCarriers hash160 key pieces (deployOpReturn H wasm pieces) probe.fee := by
  obtain ⟨hsome, hmax, hsmall⟩ := splitChunks_of_ok hsplit
  rw [show maxChunks.toNat = 188 from rfl] at hmax
  have hfee : deployPlanFee hash160 key pieces (deployOpReturn H wasm pieces) ≤
      250000 * pieces.length := deployPlanFee_le H hsome hsmall
  have hsum : (probeValues pieces.length).sum = pieces.length * 1000000000 := by
    rw [probeValues, List.sum_replicate, smul_eq_mul]
  refine ⟨_, deployPlan_eq_ok (length_firstOutpoints _ _) ?_ ?_ ?_, recoversCarriers hsome ?_⟩
  · rw [probeOutpoints, length_firstOutpoints, probeValues, List.length_replicate]
  · omega
  · omega
  · omega

end Plan

/-- The two stages of a contract of five chunks. -/
theorem contractDeploy_recoversCarriers_five :
    let H : Hashing := ⟨fun _ _ => .replicate 0, fun _ => .replicate 0⟩
    let wasm : Bytes := List.replicate 7000 0
    ∃ probe, probePlan H someHash160 someKey wasm (chunks chunkPayloadSize wasm) = .ok probe ∧
      RecoversCarriers someHash160 someKey (chunks chunkPayloadSize wasm)
        (deployOpReturn H wasm (chunks chunkPayloadSize wasm)) probe.fee := by
  intro H wasm
  have hlength : wasm.length = 7000 := List.length_replicate
  have hmax : maxCodeBytes.toNat = 262144 := rfl
  exact contractDeploy_recoversCarriers H someHash160 someKey
    (splitChunks_eq_ok (by omega) (by omega)).1

end Zalkanes
