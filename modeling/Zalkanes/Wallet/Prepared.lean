import Zalkanes.Transaction
import Zalkanes.Wallet.Request

/-!
# Prepared Transactions

The unsigned transparent transactions of PREPARE, DEPLOY and CALL, with their fee and change. The
fee is that of estimated script sizes; the scripts themselves are built later, around signatures of
up to 73 bytes.

## Main results

* `carrierScriptSigLen_length`: the estimate of a carrier scriptSig is its length around the longest
  signature.
* `preparedTx_sound`: value is conserved, and the fee is that of the signed transaction or more.
-/

namespace Zalkanes

open Lib

/-! ### Keys and scripts -/

/-- The hash of a key or a redeem script. -/
abbrev Hash160 := (data : Bytes) → {hash : Bytes // hash.length = 20}

/-- A transparent signing key, as far as transactions show it. -/
structure SigningKey where
  compressedPubkey : Bytes
  length_eq : compressedPubkey.length = 33
  deriving DecidableEq

/-- Build a P2PKH scriptPubKey. -/
def p2pkhScriptPubkey (hash160 : Hash160) (pubkey : Bytes) : Bytes :=
  0x76 :: 0xa9 :: 0x14 :: (hash160 pubkey).val ++ [0x88, 0xac]

/-- Build a P2SH scriptPubKey. -/
def p2shScriptPubkey (hash160 : Hash160) (redeem : Bytes) : Bytes :=
  0xa9 :: 0x14 :: (hash160 redeem).val ++ [0x87]

/-- A P2PKH script has 25 bytes. -/
@[simp] theorem length_p2pkhScriptPubkey (hash160 : Hash160) (pubkey : Bytes) :
    (p2pkhScriptPubkey hash160 pubkey).length = 25 := by
  simp [p2pkhScriptPubkey, (hash160 pubkey).property]

/-- A P2SH script has 23 bytes. -/
@[simp] theorem length_p2shScriptPubkey (hash160 : Hash160) (redeem : Bytes) :
    (p2shScriptPubkey hash160 redeem).length = 23 := by
  simp [p2shScriptPubkey, (hash160 redeem).property]

/-- A redeem script has 36 bytes. -/
@[simp] theorem length_redeemScript (key : SigningKey) :
    (redeemScript key.compressedPubkey).length = 36 := by
  simp [redeemScript, key.length_eq]

/-! ### Transactions -/

/-- How a transparent input is spent. -/
inductive SpendKind where
  | p2pkh (key : SigningKey)
  | carrier (key : SigningKey) (chunkIndex : UInt8) (chunkData redeemScript : Bytes)
  deriving DecidableEq

/-- An output to spend. -/
structure SpendInput where
  outpoint : OutPoint
  value : ℕ
  /-- The script of the output that is spent. -/
  scriptPubkey : Bytes
  /-- The script that is hashed for the signature. -/
  scriptCode : Bytes
  kind : SpendKind
  deriving DecidableEq

/-- An output to make. -/
structure SpendOutput where
  value : ℕ
  scriptPubkey : Bytes
  deriving DecidableEq

/-- An unsigned transaction: the inputs, outputs, and fee and change arithmetic. -/
structure PreparedTx where
  inputs : List SpendInput
  outputs : List SpendOutput
  fee : ℕ
  change : ℕ
  selectedValue : ℕ
  deriving DecidableEq

/-- The scriptSig that is built around a signature. -/
def SpendKind.scriptSig (signature : Bytes) : SpendKind → Bytes
  | p2pkh key => p2pkhScriptSig signature key.compressedPubkey
  | carrier _ chunkIndex chunkData redeem => carrierScriptSig chunkIndex chunkData signature redeem

/-! ### Serialization -/

/-- The `w` low bytes of a number, least significant first. -/
def leBytes (w n : ℕ) : Bytes := (beBytes w n).reverse

/-- A number of `w` bytes has `w` bytes. -/
@[simp] theorem length_leBytes (w n : ℕ) : (leBytes w n).length = w := by simp [leBytes]

/-- A length, in 1, 3, 5 or 9 bytes. -/
def writeCompactSize (n : ℕ) : Bytes :=
  if n < 0xfd then leBytes 1 n
  else if n ≤ 0xffff then 0xfd :: leBytes 2 n
  else if n ≤ 0xffffffff then 0xfe :: leBytes 4 n
  else 0xff :: leBytes 8 n

/-- A script behind its length. -/
def writeScript (script : Bytes) : Bytes := writeCompactSize script.length ++ script

/-- An input: the outpoint, the scriptSig and the final sequence number. -/
def writeTxIn (outpoint : OutPoint) (scriptSig : Bytes) : Bytes :=
  outpoint.hash.bytes ++ leBytes 4 outpoint.n.toNat ++ writeScript scriptSig ++
    leBytes 4 0xffffffff

/-- The bytes of an output. -/
def writeTxOut (output : SpendOutput) : Bytes :=
  leBytes 8 output.value ++ writeScript output.scriptPubkey

/-- The scriptSigs of the transaction, around these signatures. -/
def PreparedTx.scriptSigs (plan : PreparedTx) (signatures : List Bytes) : List Bytes :=
  plan.inputs.zipWith (fun input signature => input.kind.scriptSig signature) signatures

/-- The serialized inputs of the signed transaction. -/
def PreparedTx.writeInputs (plan : PreparedTx) (signatures : List Bytes) : Bytes :=
  ((plan.inputs.map SpendInput.outpoint).zipWith writeTxIn (plan.scriptSigs signatures)).flatten

/-- The bytes of all outputs. -/
def PreparedTx.writeOutputs (plan : PreparedTx) : Bytes := plan.outputs.flatMap writeTxOut

/-! ### Estimates -/

/-- ZIP-317 conventional fee from serialized input and output byte sizes. -/
def zip317FeeFromSizes (totalInputBytes totalOutputBytes : ℕ) : ℕ :=
  let inActions := totalInputBytes ⌈/⌉ 150
  let outActions := totalOutputBytes ⌈/⌉ 34
  5000 * max (max inActions outActions) 2

/-- Push-opcode overhead for so many bytes. -/
def pushOverhead (len : ℕ) : ℕ :=
  if len ≤ 75 then 1 else if len ≤ 255 then 2 else 3

/-- Maximum DER-encoded ECDSA signature length and the sighash byte. -/
def maxSignatureLen : ℕ := 73

/-- The length of a redeem script. -/
def redeemScriptLen : ℕ := 36

/-- Serialized size of a script. -/
def serializedScriptSize (len : ℕ) : ℕ :=
  (if len < 0xfd then 1 else if len ≤ 0xffff then 3 else 5) + len

/-- The bytes of an input with a scriptSig of that length. -/
def inputSerializedSize (scriptSigLen : ℕ) : ℕ := 36 + serializedScriptSize scriptSigLen + 4

/-- The bytes of an output with a script of that length. -/
def outputSerializedSize (scriptPubkeyLen : ℕ) : ℕ := 8 + serializedScriptSize scriptPubkeyLen

/-- The most bytes of a P2PKH scriptSig. -/
def p2pkhScriptSigLen : ℕ := (1 + maxSignatureLen) + (1 + 33)

/-- The pushes of the chunk data, added to `len`. -/
def carrierPushesLen (len remaining : ℕ) : ℕ :=
  if remaining = 0 then len
  else
    let part := min remaining maxPushSize
    carrierPushesLen (len + (pushOverhead part + part)) (remaining - part)
termination_by remaining
decreasing_by
  have : 0 < maxPushSize := by decide
  omega

/-- Length of a carrier scriptSig for a given chunk payload. -/
def carrierScriptSigLen (chunkLen : ℕ) : ℕ :=
  carrierPushesLen 2 chunkLen + (1 + maxSignatureLen) +
    (pushOverhead redeemScriptLen + redeemScriptLen)

/-! ### Plans -/

/-- `u64::checked_sub`. -/
def checkedSub (a b : ℕ) : Option ℕ := if b ≤ a then some (a - b) else none

/-- A checked difference is the difference, if there is one. -/
theorem checkedSub_eq_some {a b n : ℕ} : checkedSub a b = some n ↔ a = b + n := by
  rw [checkedSub]
  split_ifs with h
  · rw [Option.some.injEq]
    omega
  · refine iff_of_false (by simp) ?_
    omega

section Plans

variable (hash160 : Hash160) (key : SigningKey)

/-- The change goes back to the key, when there is any. -/
def changeOutputs (change : ℕ) : List SpendOutput :=
  if change > 0 then [⟨change, p2pkhScriptPubkey hash160 key.compressedPubkey⟩] else []

/-- The P2PKH inputs of the funding UTXOs. -/
def fundingInputs (fundingUtxos : List (OutPoint × ℕ)) : List SpendInput :=
  fundingUtxos.map fun (outpoint, value) =>
    ⟨outpoint, value, p2pkhScriptPubkey hash160 key.compressedPubkey,
      p2pkhScriptPubkey hash160 key.compressedPubkey, .p2pkh key⟩

/-- The carrier inputs, each with its chunk. -/
def carrierInputs (outpoints : List OutPoint) (values : List ℕ) (chunks : List Bytes) :
    List SpendInput :=
  let redeem := redeemScript key.compressedPubkey
  ((outpoints.zip values).zip chunks).zipIdx.map fun (((outpoint, value), chunk), i) =>
    ⟨outpoint, value, p2shScriptPubkey hash160 redeem, redeem,
      .carrier key (UInt8.ofNat i) chunk redeem⟩

/-- Compute the PREPARE plan. -/
def preparePlan (fundingUtxos : List (OutPoint × ℕ)) (carrierValues : List ℕ) :
    Except String PreparedTx :=
  if fundingUtxos = [] then .error "no funding UTXOs"
  else if carrierValues = [] then .error "PREPARE requires at least one carrier output"
  else
    let pubkey := key.compressedPubkey
    let redeem := redeemScript pubkey
    let carrierScript := p2shScriptPubkey hash160 redeem
    let carrierTotal := carrierValues.sum % 2 ^ 64
    let fundingTotal := (fundingUtxos.map Prod.snd).sum % 2 ^ 64
    let inSize := (fundingUtxos.map fun _ => inputSerializedSize p2pkhScriptSigLen).sum
    let outSize := (carrierValues.map fun _ => outputSerializedSize carrierScript.length).sum +
      outputSerializedSize (p2pkhScriptPubkey hash160 pubkey).length
    let fee := zip317FeeFromSizes inSize outSize
    match (checkedSub fundingTotal carrierTotal).bind fun v => checkedSub v fee with
    | none => .error "funding UTXOs too small for PREPARE"
    | some change =>
        .ok ⟨fundingInputs hash160 key fundingUtxos,
          (carrierValues.map fun v => ⟨v, carrierScript⟩) ++ changeOutputs hash160 key change,
          fee, change, fundingTotal⟩

/-- Compute the DEPLOY plan. -/
def deployPlan (carrierOutpoints : List OutPoint) (carrierValues : List ℕ) (chunks : List Bytes)
    (opReturn : Bytes) : Except String PreparedTx :=
  if carrierOutpoints.length ≠ chunks.length ∨ carrierOutpoints.length ≠ carrierValues.length then
    .error "carrier outpoints/values/chunks length mismatch"
  else
    let pubkey := key.compressedPubkey
    let inSize := (chunks.map fun c => inputSerializedSize (carrierScriptSigLen c.length)).sum
    let script := opReturnScript opReturn
    let outSize := outputSerializedSize script.length +
      outputSerializedSize (p2pkhScriptPubkey hash160 pubkey).length
    let fee := zip317FeeFromSizes inSize outSize
    let carrierTotal := carrierValues.sum % 2 ^ 64
    match checkedSub carrierTotal fee with
    | none => .error "carrier values too small for DEPLOY fee"
    | some change =>
        .ok ⟨carrierInputs hash160 key carrierOutpoints carrierValues chunks,
          ⟨0, script⟩ :: changeOutputs hash160 key change, fee, change, carrierTotal⟩

/-- Compute the CALL plan. Its change output is there even when it pays nothing. -/
def callPlan (fundingOutpoint : OutPoint) (fundingValue : ℕ) (opReturn : Bytes) :
    Except String PreparedTx :=
  let pubkey := key.compressedPubkey
  let script := opReturnScript opReturn
  let inSize := inputSerializedSize p2pkhScriptSigLen
  let outSize := outputSerializedSize script.length +
    outputSerializedSize (p2pkhScriptPubkey hash160 pubkey).length
  let fee := zip317FeeFromSizes inSize outSize
  match checkedSub fundingValue fee with
  | none => .error "funding UTXO too small for CALL"
  | some change =>
      .ok ⟨fundingInputs hash160 key [(fundingOutpoint, fundingValue)],
        [⟨0, script⟩, ⟨change, p2pkhScriptPubkey hash160 pubkey⟩], fee, change, fundingValue⟩

end Plans

/-! ### Sizes -/

/-- A push is its header and its data. -/
theorem length_pushData (data : Bytes) :
    (pushData data).length = pushOverhead data.length + data.length := by
  rw [pushData, pushOverhead]
  by_cases hsmall : data.length ≤ 75
  · rw [if_pos (show data.length < 0x4c by omega), if_pos hsmall, List.length_cons, Nat.add_comm]
  · rw [if_neg (show ¬ data.length < 0x4c by omega), if_neg hsmall]
    by_cases hmedium : data.length ≤ 255
    · rw [if_pos hmedium, if_pos hmedium, List.length_cons, List.length_cons]
      omega
    · rw [if_neg hmedium, if_neg hmedium, List.length_cons, List.length_cons, List.length_cons]
      omega

/-- The loop of the estimate goes through the pieces of the data. -/
theorem carrierPushesLen_length (len : ℕ) (data : Bytes) :
    carrierPushesLen len data.length =
      len + ((chunks maxPushSize data).flatMap pushData).length := by
  have hsize : maxPushSize ≠ 0 := by decide
  fun_induction chunks maxPushSize data generalizing len with
  | case1 data h =>
      rw [carrierPushesLen, if_pos (h.resolve_left hsize)]
      rfl
  | case2 data h ih =>
      have htake : (data.take maxPushSize).length = min data.length maxPushSize := by
        rw [List.length_take, Nat.min_comm]
      have hrest : data.length - min data.length maxPushSize = (data.drop maxPushSize).length := by
        rw [List.length_drop]
        omega
      rw [carrierPushesLen, if_neg fun hzero => h (Or.inr hzero)]
      dsimp only
      rw [hrest, ih, List.flatMap_cons, List.length_append, length_pushData, htake]
      omega

/-- **The estimate of a carrier scriptSig** is its length around the longest signature. -/
theorem carrierScriptSigLen_length (index : UInt8) (data : Bytes) {signature redeem : Bytes}
    (hredeem : redeem.length = redeemScriptLen) (hsignature : signature.length ≤ maxSignatureLen) :
    (carrierScriptSig index data signature redeem).length + (maxSignatureLen - signature.length) =
      carrierScriptSigLen data.length := by
  have hindex : (pushData [index]).length = 2 := rfl
  have hpush : pushOverhead signature.length = 1 := by
    rw [maxSignatureLen] at hsignature
    exact if_pos (by omega)
  rw [carrierScriptSig, List.length_append, List.length_append, List.length_append, hindex,
    length_pushData signature, length_pushData redeem, hpush, hredeem, carrierScriptSigLen,
    carrierPushesLen_length]
  omega

/-- What is estimated for the scriptSig of an input. -/
def SpendKind.scriptSigLen : SpendKind → ℕ
  | p2pkh _ => p2pkhScriptSigLen
  | carrier _ _ chunkData _ => carrierScriptSigLen chunkData.length

/-- The redeem script of a carrier is as long as those of keys. -/
def SpendKind.Redeems : SpendKind → Prop
  | p2pkh _ => True
  | carrier _ _ _ redeem => redeem.length = redeemScriptLen

/-- A scriptSig is no longer than its estimate. -/
theorem SpendKind.length_scriptSig_le {kind : SpendKind} (hkind : kind.Redeems)
    {signature : Bytes} (hsignature : signature.length ≤ maxSignatureLen) :
    (kind.scriptSig signature).length ≤ kind.scriptSigLen := by
  cases kind with
  | p2pkh key =>
      have hpush : pushOverhead signature.length = 1 := by
        rw [maxSignatureLen] at hsignature
        exact if_pos (by omega)
      rw [scriptSig, p2pkhScriptSig, List.length_append, length_pushData, length_pushData, hpush,
        key.length_eq, scriptSigLen, p2pkhScriptSigLen]
      exact Nat.add_le_add_right (Nat.add_le_add_left hsignature 1) _
  | carrier key index data redeem =>
      have hlen := carrierScriptSigLen_length index data hkind hsignature
      rw [scriptSig, scriptSigLen]
      omega

/-- The bytes of a length of 32 bits. -/
theorem length_writeCompactSize {n : ℕ} (h : n < 2 ^ 32) :
    (writeCompactSize n).length = if n < 0xfd then 1 else if n ≤ 0xffff then 3 else 5 := by
  rw [writeCompactSize]
  split_ifs with hone hthree hfive
  · rw [length_leBytes]
  · rw [List.length_cons, length_leBytes]
  · rw [List.length_cons, length_leBytes]
  · omega

/-- A script that is no longer than estimated takes no more than estimated. -/
theorem length_writeScript_le {script : Bytes} {len : ℕ} (h : script.length ≤ len)
    (hshort : script.length < 2 ^ 32) : (writeScript script).length ≤ serializedScriptSize len := by
  rw [writeScript, List.length_append, length_writeCompactSize hshort, serializedScriptSize]
  split_ifs <;> omega

/-- An input has 40 bytes beside its scriptSig. -/
theorem length_writeTxIn (outpoint : OutPoint) (scriptSig : Bytes) :
    (writeTxIn outpoint scriptSig).length = 36 + (writeScript scriptSig).length + 4 := by
  simp only [writeTxIn, List.length_append, Bytes32.length_eq, length_leBytes]

/-- An output has 8 bytes beside its script. -/
theorem length_writeTxOut (output : SpendOutput) :
    (writeTxOut output).length = 8 + (writeScript output.scriptPubkey).length := by
  simp [writeTxOut]

/-- More bytes, no less fee. -/
theorem zip317FeeFromSizes_mono {totalIn totalIn' totalOut totalOut' : ℕ} (hin : totalIn ≤ totalIn')
    (hout : totalOut ≤ totalOut') :
    zip317FeeFromSizes totalIn totalOut ≤ zip317FeeFromSizes totalIn' totalOut' := by
  have hmono : ∀ {size n m : ℕ}, n ≤ m → n ⌈/⌉ size ≤ m ⌈/⌉ size := fun {size n m} h => by
    rw [Nat.ceilDiv_eq_add_pred_div, Nat.ceilDiv_eq_add_pred_div]
    exact Nat.div_le_div_right (by omega)
  exact Nat.mul_le_mul_left _ (max_le_max_right _ (max_le_max (hmono hin) (hmono hout)))

/-! ### Value and fee -/

namespace PreparedTx

/-- The inputs pay for the outputs and the fee. Besides the payments, there is at most one output,
which pays the change to the key. -/
structure Balances (plan : PreparedTx) (payments : List SpendOutput) (changeScript : Bytes) :
    Prop where
  conserved : (plan.inputs.map SpendInput.value).sum =
    (plan.outputs.map SpendOutput.value).sum + plan.fee
  change : ∃ rest, plan.outputs = payments ++ rest ∧ rest.length ≤ 1 ∧
    (∀ o ∈ rest, o.scriptPubkey = changeScript) ∧
    (rest.map SpendOutput.value).sum = plan.change

/-- One signature of at most 73 bytes for each input. -/
def Signs (plan : PreparedTx) (signatures : List Bytes) : Prop :=
  signatures.length = plan.inputs.length ∧ ∀ s ∈ signatures, s.length ≤ maxSignatureLen

/-- The fee is at least that of the signed transaction. -/
def FeeSuffices (plan : PreparedTx) (signatures : List Bytes) : Prop :=
  zip317FeeFromSizes (plan.writeInputs signatures).length plan.writeOutputs.length ≤ plan.fee

/-- Every script of the signed transaction is shorter than 4 GiB. -/
def ShortScripts (plan : PreparedTx) (signatures : List Bytes) : Prop :=
  ∀ script ∈ plan.scriptSigs signatures ++ plan.outputs.map SpendOutput.scriptPubkey,
    script.length < 2 ^ 32

/-- The signed inputs are no larger than estimated. -/
theorem length_writeInputs_le {plan : PreparedTx} {signatures : List Bytes}
    (hredeem : ∀ i ∈ plan.inputs, i.kind.Redeems)
    (hsignatures : ∀ s ∈ signatures, s.length ≤ maxSignatureLen)
    (hshort : ∀ script ∈ plan.scriptSigs signatures, script.length < 2 ^ 32) :
    (plan.writeInputs signatures).length ≤
      (plan.inputs.map fun i => inputSerializedSize i.kind.scriptSigLen).sum := by
  rw [writeInputs]
  rw [scriptSigs] at hshort ⊢
  generalize plan.inputs = inputs at hredeem hshort
  induction inputs generalizing signatures with
  | nil => exact le_rfl
  | cons input inputs ih =>
      cases signatures with
      | nil => exact Nat.zero_le _
      | cons signature signatures =>
          have hscript := SpendKind.length_scriptSig_le (hredeem input List.mem_cons_self)
            (hsignatures signature List.mem_cons_self)
          have hwrite := length_writeScript_le hscript (hshort _ List.mem_cons_self)
          have hrest := ih (fun s hs => hsignatures s (List.mem_cons_of_mem _ hs))
            (fun i hi => hredeem i (List.mem_cons_of_mem _ hi))
            fun s hs => hshort s (List.mem_cons_of_mem _ hs)
          rw [List.zipWith_cons_cons, List.map_cons, List.zipWith_cons_cons, List.flatten_cons,
            List.length_append, length_writeTxIn, List.map_cons, List.sum_cons, inputSerializedSize]
          omega

/-- The outputs are as large as estimated. -/
theorem length_writeOutputs_le {plan : PreparedTx}
    (hshort : ∀ o ∈ plan.outputs, o.scriptPubkey.length < 2 ^ 32) :
    plan.writeOutputs.length ≤
      (plan.outputs.map fun o => outputSerializedSize o.scriptPubkey.length).sum := by
  rw [writeOutputs, List.length_flatMap]
  refine List.sum_le_sum fun o ho => ?_
  rw [length_writeTxOut, outputSerializedSize]
  exact Nat.add_le_add_left (length_writeScript_le le_rfl (hshort o ho)) 8

/-- A fee of the estimated sizes is that of the signed transaction or more. -/
theorem feeSuffices_of_estimate {plan : PreparedTx} {inSize outSize : ℕ}
    (hfee : plan.fee = zip317FeeFromSizes inSize outSize)
    (hin : (plan.inputs.map fun i => inputSerializedSize i.kind.scriptSigLen).sum = inSize)
    (hout : (plan.outputs.map fun o => outputSerializedSize o.scriptPubkey.length).sum ≤ outSize)
    (hredeem : ∀ i ∈ plan.inputs, i.kind.Redeems) {signatures : List Bytes}
    (hsigns : plan.Signs signatures) (hshort : plan.ShortScripts signatures) :
    plan.FeeSuffices signatures := by
  rw [FeeSuffices, hfee, ← hin]
  refine zip317FeeFromSizes_mono (length_writeInputs_le hredeem hsigns.2 fun script hscript =>
    hshort script (List.mem_append_left _ hscript)) ?_
  refine (length_writeOutputs_le fun o ho => ?_).trans hout
  exact hshort _ (List.mem_append_right _ (List.mem_map_of_mem ho))

/-- What is proved of a plan: value is conserved, and its fee suffices for every signing. -/
structure Sound (plan : PreparedTx) (payments : List SpendOutput) (changeScript : Bytes) : Prop
    extends plan.Balances payments changeScript where
  fee : ∀ signatures, plan.Signs signatures → plan.ShortScripts signatures →
    plan.FeeSuffices signatures

end PreparedTx

section Sound

variable {hash160 : Hash160} {key : SigningKey}

/-- Funding inputs have the values of their outputs. -/
theorem map_value_fundingInputs (utxos : List (OutPoint × ℕ)) :
    (fundingInputs hash160 key utxos).map SpendInput.value = utxos.map Prod.snd := by
  rw [fundingInputs, List.map_map]
  rfl

/-- Funding inputs are P2PKH inputs. -/
theorem kind_of_mem_fundingInputs {utxos : List (OutPoint × ℕ)} {i : SpendInput}
    (h : i ∈ fundingInputs hash160 key utxos) : i.kind = .p2pkh key := by
  obtain ⟨utxo, -, rfl⟩ := List.mem_map.mp h
  rfl

/-- Funding inputs have one estimate. -/
theorem estimates_fundingInputs (utxos : List (OutPoint × ℕ)) :
    (fundingInputs hash160 key utxos).map (fun i => inputSerializedSize i.kind.scriptSigLen) =
      utxos.map fun _ => inputSerializedSize p2pkhScriptSigLen := by
  rw [fundingInputs, List.map_map]
  rfl

/-- The change is what is returned. -/
theorem sum_changeOutputs (change : ℕ) :
    ((changeOutputs hash160 key change).map SpendOutput.value).sum = change := by
  rw [changeOutputs]
  split
  · exact List.sum_singleton
  · rename_i hzero
    exact (Nat.eq_zero_of_not_pos hzero).symm

/-- Change is one output at most. -/
theorem length_changeOutputs_le (change : ℕ) : (changeOutputs hash160 key change).length ≤ 1 := by
  rw [changeOutputs]
  split <;> simp

/-- Change goes to the wallet's own script. -/
theorem script_of_mem_changeOutputs {change : ℕ} {o : SpendOutput}
    (h : o ∈ changeOutputs hash160 key change) :
    o.scriptPubkey = p2pkhScriptPubkey hash160 key.compressedPubkey := by
  rw [changeOutputs] at h
  split at h
  · rw [List.mem_singleton.mp h]
  · cases h

/-- Change is within the estimate for one output. -/
theorem estimate_changeOutputs_le (change : ℕ) :
    ((changeOutputs hash160 key change).map fun o =>
      outputSerializedSize o.scriptPubkey.length).sum ≤
      outputSerializedSize (p2pkhScriptPubkey hash160 key.compressedPubkey).length := by
  rw [changeOutputs]
  split
  · exact List.sum_singleton.le
  · exact Nat.zero_le _

/-- A reading of the carrier inputs that does not depend on their positions. -/
theorem map_carrierInputs {α : Type} {outpoints : List OutPoint} {values : List ℕ}
    {pieces : List Bytes} (f : SpendInput → α) (g : (OutPoint × ℕ) × Bytes → α)
    (h : ∀ x i, f ⟨x.1.1, x.1.2, p2shScriptPubkey hash160 (redeemScript key.compressedPubkey),
      redeemScript key.compressedPubkey,
      .carrier key (UInt8.ofNat i) x.2 (redeemScript key.compressedPubkey)⟩ = g x) :
    (carrierInputs hash160 key outpoints values pieces).map f =
      ((outpoints.zip values).zip pieces).map g := by
  rw [carrierInputs, List.map_map]
  conv_rhs => rw [← List.zipIdx_map_fst 0 ((outpoints.zip values).zip pieces), List.map_map]
  exact List.map_congr_left fun x _ => h x.1 x.2

/-- Carrier inputs have the values of their outputs. -/
theorem map_value_carrierInputs {outpoints : List OutPoint} {values : List ℕ}
    {pieces : List Bytes} (hvalues : outpoints.length = values.length)
    (hpieces : outpoints.length = pieces.length) :
    (carrierInputs hash160 key outpoints values pieces).map SpendInput.value = values := by
  rw [map_carrierInputs SpendInput.value (fun x => x.1.2) fun _ _ => rfl,
    show (fun x : (OutPoint × ℕ) × Bytes => x.1.2) = Prod.snd ∘ Prod.fst from rfl, ← List.map_map,
    List.map_fst_zip (by rw [List.length_zip]; omega), List.map_snd_zip (by omega)]

/-- Each carrier input has the estimate of its piece. -/
theorem estimates_carrierInputs {outpoints : List OutPoint} {values : List ℕ}
    {pieces : List Bytes} (hvalues : outpoints.length = values.length)
    (hpieces : outpoints.length = pieces.length) :
    (carrierInputs hash160 key outpoints values pieces).map
        (fun i => inputSerializedSize i.kind.scriptSigLen) =
      pieces.map fun c => inputSerializedSize (carrierScriptSigLen c.length) := by
  rw [map_carrierInputs _ ((fun c => inputSerializedSize (carrierScriptSigLen c.length)) ∘ Prod.snd)
    fun _ _ => rfl, ← List.map_map, List.map_snd_zip (by rw [List.length_zip]; omega)]

/-- Carrier inputs redeem the wallet's own carrier script. -/
theorem redeems_of_mem_carrierInputs {outpoints : List OutPoint} {values : List ℕ}
    {pieces : List Bytes} {i : SpendInput}
    (h : i ∈ carrierInputs hash160 key outpoints values pieces) : i.kind.Redeems := by
  obtain ⟨x, -, rfl⟩ := List.mem_map.mp h
  exact length_redeemScript key

/-- What prepares carriers is sound. -/
theorem preparePlan_sound {utxos : List (OutPoint × ℕ)} {carrierValues : List ℕ}
    {plan : PreparedTx} (h : preparePlan hash160 key utxos carrierValues = .ok plan)
    (hutxos : (utxos.map Prod.snd).sum < 2 ^ 64) (hvalues : carrierValues.sum < 2 ^ 64) :
    plan.Sound (carrierValues.map fun v =>
        ⟨v, p2shScriptPubkey hash160 (redeemScript key.compressedPubkey)⟩)
      (p2pkhScriptPubkey hash160 key.compressedPubkey) := by
  rw [preparePlan] at h
  split_ifs at h with hnone hempty
  dsimp only at h
  rw [Nat.mod_eq_of_lt hutxos, Nat.mod_eq_of_lt hvalues] at h
  split at h
  · cases h
  rename_i change hchange
  cases h
  obtain ⟨left, hleft, hfee⟩ := Option.bind_eq_some_iff.mp hchange
  have htotal := checkedSub_eq_some.mp hleft
  have hrest := checkedSub_eq_some.mp hfee
  refine ⟨⟨?_, _, rfl, length_changeOutputs_le _, fun o => script_of_mem_changeOutputs,
    sum_changeOutputs change⟩, fun signatures => PreparedTx.feeSuffices_of_estimate rfl ?_ ?_ ?_⟩
  · dsimp only
    have hpayments : (carrierValues.map fun v => (⟨v, p2shScriptPubkey hash160
        (redeemScript key.compressedPubkey)⟩ : SpendOutput)).map SpendOutput.value =
        carrierValues := by
      rw [List.map_map]
      exact List.map_id carrierValues
    rw [map_value_fundingInputs, List.map_append, List.sum_append, sum_changeOutputs, hpayments]
    omega
  · dsimp only
    rw [estimates_fundingInputs]
  · dsimp only
    rw [List.map_append, List.sum_append, List.map_map]
    exact Nat.add_le_add_left (estimate_changeOutputs_le change) _
  · intro i hi
    rw [kind_of_mem_fundingInputs hi]
    exact trivial

/-- What deploys is sound. -/
theorem deployPlan_sound {outpoints : List OutPoint} {values : List ℕ} {pieces : List Bytes}
    {opReturn : Bytes} {plan : PreparedTx}
    (h : deployPlan hash160 key outpoints values pieces opReturn = .ok plan)
    (hvalues : values.sum < 2 ^ 64) :
    plan.Sound [⟨0, opReturnScript opReturn⟩] (p2pkhScriptPubkey hash160 key.compressedPubkey) := by
  rw [deployPlan] at h
  split_ifs at h with hmismatch
  rw [not_or, not_not, not_not] at hmismatch
  obtain ⟨hpieces, hlength⟩ := hmismatch
  dsimp only at h
  rw [Nat.mod_eq_of_lt hvalues] at h
  split at h
  · cases h
  rename_i change hchange
  cases h
  have htotal := checkedSub_eq_some.mp hchange
  refine ⟨⟨?_, _, rfl, length_changeOutputs_le _, fun o => script_of_mem_changeOutputs,
    sum_changeOutputs change⟩, fun signatures => PreparedTx.feeSuffices_of_estimate rfl ?_ ?_ ?_⟩
  · dsimp only
    rw [map_value_carrierInputs hlength hpieces, List.map_cons, List.sum_cons, sum_changeOutputs]
    dsimp only
    omega
  · dsimp only
    rw [estimates_carrierInputs hlength hpieces]
  · dsimp only
    rw [List.map_cons, List.sum_cons]
    exact Nat.add_le_add_left (estimate_changeOutputs_le change) _
  · exact fun i => redeems_of_mem_carrierInputs

/-- What calls is sound. -/
theorem callPlan_sound {outpoint : OutPoint} {value : ℕ} {opReturn : Bytes} {plan : PreparedTx}
    (h : callPlan hash160 key outpoint value opReturn = .ok plan) :
    plan.Sound [⟨0, opReturnScript opReturn⟩] (p2pkhScriptPubkey hash160 key.compressedPubkey) := by
  rw [callPlan] at h
  split at h
  · cases h
  rename_i change hchange
  cases h
  have htotal := checkedSub_eq_some.mp hchange
  refine ⟨⟨?_, [⟨change, p2pkhScriptPubkey hash160 key.compressedPubkey⟩], rfl, le_rfl,
    fun o ho => by rw [List.mem_singleton.mp ho], List.sum_singleton⟩,
    fun signatures => PreparedTx.feeSuffices_of_estimate rfl ?_ ?_ ?_⟩
  · dsimp only
    rw [map_value_fundingInputs, List.map_singleton, List.sum_singleton, List.map_cons,
      List.map_singleton, List.sum_cons, List.sum_singleton]
    dsimp only
    omega
  · dsimp only
    rw [estimates_fundingInputs, List.map_singleton, List.sum_singleton]
  · dsimp only
    rw [List.map_cons, List.map_singleton, List.sum_cons, List.sum_singleton]
  · intro i hi
    rw [kind_of_mem_fundingInputs hi]
    exact trivial

/-- **Value is conserved, and the fee suffices**, in every plan of a PREPARE, DEPLOY or CALL. -/
theorem preparedTx_sound (hash160 : Hash160) (key : SigningKey) :
    (∀ utxos carrierValues plan, preparePlan hash160 key utxos carrierValues = .ok plan →
      (utxos.map Prod.snd).sum < 2 ^ 64 → carrierValues.sum < 2 ^ 64 →
      plan.Sound (carrierValues.map fun v =>
          ⟨v, p2shScriptPubkey hash160 (redeemScript key.compressedPubkey)⟩)
        (p2pkhScriptPubkey hash160 key.compressedPubkey)) ∧
    (∀ outpoints values pieces opReturn plan,
      deployPlan hash160 key outpoints values pieces opReturn = .ok plan →
      values.sum < 2 ^ 64 → pieces.length ≤ 255 →
      plan.Sound [⟨0, opReturnScript opReturn⟩]
        (p2pkhScriptPubkey hash160 key.compressedPubkey)) ∧
    ∀ outpoint value opReturn plan, callPlan hash160 key outpoint value opReturn = .ok plan →
      value < 2 ^ 64 →
      plan.Sound [⟨0, opReturnScript opReturn⟩] (p2pkhScriptPubkey hash160 key.compressedPubkey) :=
  ⟨fun _ _ _ => preparePlan_sound, fun _ _ _ _ _ h hvalues _ => deployPlan_sound h hvalues,
    fun _ _ _ _ h _ => callPlan_sound h⟩

end Sound

/-- A key and a hash to compute with. -/
def someKey : SigningKey := ⟨List.replicate 33 2, List.length_replicate⟩

/-- A hash of zeros. -/
def someHash160 : Hash160 := fun _ => ⟨List.replicate 20 0, List.length_replicate⟩

/-- An output to spend. -/
def someOutpoint : OutPoint := ⟨.replicate 1, 0⟩

/-- A plan of each kind. -/
theorem preparedTx_sound_each :
    (∃ plan, preparePlan someHash160 someKey [(someOutpoint, 100000)] [50000] = .ok plan ∧
      plan.Sound [⟨50000, p2shScriptPubkey someHash160 (redeemScript someKey.compressedPubkey)⟩]
        (p2pkhScriptPubkey someHash160 someKey.compressedPubkey)) ∧
    (∃ plan, deployPlan someHash160 someKey [someOutpoint] [50000] [[0]] [1] = .ok plan ∧
      plan.Sound [⟨0, opReturnScript [1]⟩]
        (p2pkhScriptPubkey someHash160 someKey.compressedPubkey)) ∧
    ∃ plan, callPlan someHash160 someKey someOutpoint 50000 [1] = .ok plan ∧
      plan.Sound [⟨0, opReturnScript [1]⟩]
        (p2pkhScriptPubkey someHash160 someKey.compressedPubkey) := by
  obtain ⟨hprepare, hdeploy, hcall⟩ := preparedTx_sound someHash160 someKey
  have hcarrier : carrierScriptSigLen 1 = 115 := by
    rw [carrierScriptSigLen, carrierPushesLen, if_neg (by decide)]
    dsimp only
    rw [carrierPushesLen, if_pos (by decide)]
    decide
  refine ⟨⟨_, rfl, hprepare [(someOutpoint, 100000)] [50000] _ rfl (by decide) (by decide)⟩, ?_,
    ⟨_, rfl, hcall someOutpoint 50000 [1] _ rfl (by decide)⟩⟩
  have hplan : ∃ plan,
      deployPlan someHash160 someKey [someOutpoint] [50000] [[0]] [1] = .ok plan := by
    rw [deployPlan, if_neg (by decide)]
    simp only [List.map_singleton, List.length_singleton, hcarrier]
    exact ⟨_, rfl⟩
  obtain ⟨plan, hplan⟩ := hplan
  exact ⟨plan, hplan, hdeploy _ _ _ _ _ hplan (by decide) (by decide)⟩

/-- With a script of 4 GiB, the estimate leaves out 4 bytes of the length in front of the script,
and with them one logical action. -/
theorem not_feeSuffices_of_length {payload : Bytes} (hlength : payload.length = 2 ^ 32 - 4) :
    ∃ plan, callPlan someHash160 someKey someOutpoint (10 ^ 12) payload = .ok plan ∧
      ∃ signatures, plan.Signs signatures ∧ ¬ plan.FeeSuffices signatures := by
  have hscript : (opReturnScript payload).length = 2 ^ 32 := by
    rw [opReturnScript, List.length_cons, length_pushData, hlength, pushOverhead,
      if_neg (by decide), if_neg (by decide)]
    omega
  have hchange : checkedSub (10 ^ 12) 631612845000 = some 368387155000 := by
    rw [checkedSub_eq_some]
    norm_num
  have hfee : zip317FeeFromSizes (inputSerializedSize p2pkhScriptSigLen)
      (outputSerializedSize (2 ^ 32) + outputSerializedSize 25) = 631612845000 := by decide
  have hplan : callPlan someHash160 someKey someOutpoint (10 ^ 12) payload =
      .ok ⟨fundingInputs someHash160 someKey [(someOutpoint, 10 ^ 12)],
        [⟨0, opReturnScript payload⟩,
          ⟨368387155000, p2pkhScriptPubkey someHash160 someKey.compressedPubkey⟩],
        631612845000, 368387155000, 10 ^ 12⟩ := by
    rw [callPlan, hscript, length_p2pkhScriptPubkey, hfee, hchange]
  have hsize : (writeScript (opReturnScript payload)).length = 9 + 2 ^ 32 := by
    rw [writeScript, List.length_append, hscript, writeCompactSize, if_neg (by decide),
      if_neg (by decide), if_neg (by decide), List.length_cons, length_leBytes]
  have hchangeSize : (writeScript (p2pkhScriptPubkey someHash160
      someKey.compressedPubkey)).length = 26 := by decide
  have hactual : 631612845000 < zip317FeeFromSizes 0 (8 + (9 + 2 ^ 32) + (8 + 26)) := by decide
  have hshort : ∀ plan : PreparedTx, plan.outputs = [⟨0, opReturnScript payload⟩,
      ⟨368387155000, p2pkhScriptPubkey someHash160 someKey.compressedPubkey⟩] →
      plan.fee = 631612845000 → ¬ plan.FeeSuffices [[]] := fun plan houtputs hplanFee => by
    rw [PreparedTx.FeeSuffices, not_le, hplanFee, PreparedTx.writeOutputs, houtputs,
      List.flatMap_cons, List.flatMap_singleton, List.length_append, length_writeTxOut, hsize,
      length_writeTxOut, hchangeSize]
    exact hactual.trans_le (zip317FeeFromSizes_mono (Nat.zero_le _) le_rfl)
  exact ⟨_, hplan, [[]], ⟨rfl, by simp⟩, hshort _ rfl rfl⟩

/-- A message that makes its script 4 GiB long. -/
theorem not_preparedTx_sound_huge : ∃ plan,
    callPlan someHash160 someKey someOutpoint (10 ^ 12) (List.replicate (2 ^ 32 - 4) 0) =
      .ok plan ∧
    ∃ signatures, plan.Signs signatures ∧ ¬ plan.FeeSuffices signatures :=
  not_feeSuffices_of_length List.length_replicate

end Zalkanes
