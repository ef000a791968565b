import Zalkanes.Carrier
import Zalkanes.Wire

/-!
# Transaction Scripts

The scripts of the transactions that the node builds: data pushes, the OP_RETURN output of a
message, the scriptSigs of carrier and P2PKH inputs, and the chunks that code is split into. What
these scripts push, the script readers read back.

## Main results

* `parseScriptPushes_flatMap`: the pushes of a push-only script.
* `extractOpReturnData_opReturnScript`, `chunkFromScriptSig_carrierScriptSig`: the readers undo
  the builders.
* `splitChunks_eq_ok`: code within the limit is split into at most 188 chunks.
-/

namespace Zalkanes

open Lib

/-! ### Script builders -/

/-- Maximum single-push data size in Zcash script. -/
def maxPushSize : ℕ := 520

/-- The frozen protocol chunk payload size. -/
def chunkPayloadSize : ℕ := 1400

/-- Encode a standard data push. -/
def pushData (data : Bytes) : Bytes :=
  let n := data.length
  if n < 0x4c then UInt8.ofNat n :: data
  else if n ≤ 0xff then 0x4c :: UInt8.ofNat n :: data
  else 0x4d :: UInt8.ofNat (n &&& 0xff) :: UInt8.ofNat (n >>> 8) :: data

/-- Build an OP_RETURN scriptPubKey. -/
def opReturnScript (payload : Bytes) : Bytes := 0x6a :: pushData payload

/-- The redeem script of a carrier: push the key, OP_CHECKSIG, OP_NOP. -/
def redeemScript (pubkey : Bytes) : Bytes := 0x21 :: pubkey ++ [0xac, 0x61]

/-- Build a carrier scriptSig: the index, the data in parts, a signature and the redeem script. -/
def carrierScriptSig (chunkIndex : UInt8) (chunkData signature redeem : Bytes) : Bytes :=
  pushData [chunkIndex] ++ (chunks maxPushSize chunkData).flatMap pushData ++
    pushData signature ++ pushData redeem

/-- Build a standard P2PKH scriptSig. -/
def p2pkhScriptSig (signature pubkey : Bytes) : Bytes := pushData signature ++ pushData pubkey

/-- Number of carrier inputs required for a WASM byte length. -/
def carrierInputCount (wasmLen : ℕ) : Except String UInt8 :=
  if wasmLen = 0 ∨ UInt32.ofNat wasmLen > maxCodeBytes then
    .error ("invalid WASM length " ++ toString wasmLen)
  else
    let n := wasmLen ⌈/⌉ chunkPayloadSize
    if n > maxChunks.toNat then
      .error ("WASM requires " ++ toString n ++ " chunks, exceeding the " ++ toString maxChunks ++
        "-chunk carrier limit")
    else .ok (UInt8.ofNat n)

/-- Split WASM bytes into canonical chunks. -/
def splitChunks (wasm : Bytes) : Except String (List Bytes) := do
  let _ ← carrierInputCount wasm.length
  return chunks chunkPayloadSize wasm

/-! ### Reading pushes back -/

/-- Data that was put somewhere is pushed from there. -/
theorem pushAt_append {before data : Bytes} {start : ℕ} (hstart : before.length = start)
    (rest : Bytes) :
    pushAt (before ++ (data ++ rest)) start data.length = some (data, start + data.length) := by
  rw [pushAt, if_neg (by simp [← hstart]), take_drop_append hstart rfl]

/-- OP_PUSHDATA1: the length is in the next byte. -/
theorem parsePush_pushdata1 (n : UInt8) (rest : Bytes) :
    parsePush (0x4c :: n :: rest) = pushAt (0x4c :: n :: rest) 2 n.toNat := by
  have htake : take? 1 ([n] ++ rest) = some ([n], rest) := take?_append rfl rest
  rw [List.singleton_append] at htake
  rw [parsePush, if_neg (by decide), if_neg (by decide), if_pos rfl, htake]
  rfl

/-- OP_PUSHDATA2: the length is in the next two bytes, the low one first. -/
theorem parsePush_pushdata2 (low high : UInt8) (rest : Bytes) :
    parsePush (0x4d :: low :: high :: rest) =
      pushAt (0x4d :: low :: high :: rest) 3 (low.toNat + 256 * high.toNat) := by
  have htake : take? 2 ([low, high] ++ rest) = some ([low, high], rest) := take?_append rfl rest
  rw [List.cons_append, List.singleton_append] at htake
  rw [parsePush, if_neg (by decide), if_neg (by decide), if_neg (by decide), if_pos rfl, htake]
  rfl

/-- A push is read back, and it is consumed. -/
theorem parsePush_pushData {data : Bytes} (h : data.length < 2 ^ 16) (rest : Bytes) :
    parsePush (pushData data ++ rest) = some (data, (pushData data).length) := by
  have hread : ∀ before : Bytes, pushAt (before ++ (data ++ rest)) before.length data.length =
      some (data, before.length + data.length) := fun before => pushAt_append rfl rest
  rw [pushData]
  split
  · rename_i hsmall
    have hop : (UInt8.ofNat data.length).toNat = data.length := by
      rw [UInt8.toNat_ofNat', Nat.mod_eq_of_lt (by omega)]
    have hpush := hread [UInt8.ofNat data.length]
    rw [List.cons_append, parsePush]
    split
    · rename_i hzero
      rw [hzero] at hop
      obtain rfl := List.length_eq_zero_iff.mp hop.symm
      rfl
    · rw [if_pos (UInt8.le_iff_toNat_le.mpr (by rw [hop]; exact Nat.lt_succ_iff.mp hsmall)), hop]
      refine hpush.trans ?_
      rw [List.length_singleton, List.length_cons, Nat.add_comm]
  split
  · rename_i hsmall hmedium
    have hlen : (UInt8.ofNat data.length).toNat = data.length := by
      rw [UInt8.toNat_ofNat', Nat.mod_eq_of_lt (by omega)]
    have hpush := hread [0x4c, UInt8.ofNat data.length]
    rw [List.cons_append, List.cons_append, parsePush_pushdata1, hlen]
    refine hpush.trans ?_
    rw [List.length_cons, List.length_singleton, List.length_cons, List.length_cons, Nat.add_comm]
  · have hlen : (UInt8.ofNat (data.length &&& 0xff)).toNat +
        256 * (UInt8.ofNat (data.length >>> 8)).toNat = data.length := by
      rw [UInt8.toNat_ofNat', UInt8.toNat_ofNat', Nat.and_two_pow_sub_one_eq_mod (n := 8),
        Nat.shiftRight_eq_div_pow]
      omega
    have hpush := hread [0x4d, UInt8.ofNat (data.length &&& 0xff), UInt8.ofNat (data.length >>> 8)]
    rw [List.cons_append, List.cons_append, List.cons_append, parsePush_pushdata2, hlen]
    refine hpush.trans ?_
    rw [List.length_cons, List.length_cons, List.length_singleton, List.length_cons,
      List.length_cons, List.length_cons, Nat.add_comm]

/-- Even an empty push has an opcode. -/
theorem pushData_ne_nil (data : Bytes) : pushData data ≠ [] := by
  rw [pushData]
  split
  · exact List.cons_ne_nil _ _
  split <;> exact List.cons_ne_nil _ _

/-- The pushes of a push-only script. -/
theorem parseScriptPushes_flatMap (datas : List Bytes) (h : ∀ data ∈ datas, data.length < 2 ^ 16) :
    parseScriptPushes (datas.flatMap pushData) = datas := by
  induction datas with
  | nil => rw [List.flatMap_nil, parseScriptPushes, dif_pos rfl]
  | cons data datas ih =>
      have hrest := ih fun d hd => h d (by simp [hd])
      have hpush := parsePush_pushData (h data (by simp)) (datas.flatMap pushData)
      rw [List.flatMap_cons, parseScriptPushes, dif_neg]
      · split
        · rename_i hnone
          rw [hpush] at hnone
          cases hnone
        · rename_i payload consumed hsome
          rw [hpush] at hsome
          obtain ⟨rfl, rfl⟩ := Prod.mk.inj (Option.some.inj hsome)
          rw [List.drop_left, hrest]
      · simp [pushData_ne_nil]

/-- The data of an OP_RETURN output is the payload it was built from. -/
theorem extractOpReturnData_opReturnScript {payload : Bytes} (h : payload.length < 2 ^ 16) :
    extractOpReturnData (opReturnScript payload) = some payload := by
  have hpush := parsePush_pushData h []
  rw [List.append_nil] at hpush
  rw [opReturnScript, extractOpReturnData, if_neg (by decide), if_neg (pushData_ne_nil payload),
    hpush]
  dsimp only
  rw [if_neg (by simp)]

/-- The pushes of a carrier scriptSig. -/
theorem parseScriptPushes_carrierScriptSig (index : UInt8) (data : Bytes)
    {signature redeem : Bytes} (hsignature : signature.length < 2 ^ 16)
    (hredeem : redeem.length < 2 ^ 16) :
    parseScriptPushes (carrierScriptSig index data signature redeem) =
      [index] :: (chunks maxPushSize data ++ [signature, redeem]) := by
  have hpieces : ∀ piece ∈ chunks maxPushSize data, 0 < piece.length ∧ piece.length ≤ 520 :=
    fun piece => length_of_mem_chunks (by decide)
  rw [← parseScriptPushes_flatMap ([index] :: (chunks maxPushSize data ++ [signature, redeem]))]
  · simp [carrierScriptSig]
  · intro d hd
    simp only [List.mem_cons, List.mem_append, List.not_mem_nil, or_false] at hd
    rcases hd with rfl | hd | rfl | rfl
    · simp
    · have := hpieces d hd
      omega
    · exact hsignature
    · exact hredeem

/-- Data that is not empty has a chunk. -/
theorem chunks_ne_nil {data : Bytes} (hdata : data ≠ []) :
    0 < (chunks maxPushSize data).length := by
  refine List.length_pos_iff.mpr fun hnil => hdata ?_
  rw [← flatten_chunks (show 0 < maxPushSize by decide) data, hnil, List.flatten_nil]

/-- The chunk of a carrier input is the one it was built from. -/
theorem chunkFromScriptSig_carrierScriptSig (index : UInt8) {data signature redeem : Bytes}
    (hdata : data ≠ []) (hsignature : signature.length < 2 ^ 16)
    (hredeem : redeem.length < 2 ^ 16) :
    chunkFromScriptSig (carrierScriptSig index data signature redeem) = some (index, data) := by
  have hsome := chunks_ne_nil hdata
  have hlen : ([index] :: (chunks maxPushSize data ++ [signature, redeem])).length =
      (chunks maxPushSize data).length + 3 := by simp
  rw [chunkFromScriptSig, parseScriptPushes_carrierScriptSig index data hsignature hredeem]
  dsimp only
  rw [hlen, if_neg (by omega), Nat.add_sub_cancel, List.take_left,
    flatten_chunks (by decide)]

/-- A P2PKH input carries no chunk. -/
theorem chunkFromScriptSig_p2pkhScriptSig {signature pubkey : Bytes}
    (hsignature : signature.length < 2 ^ 16) (hpubkey : pubkey.length < 2 ^ 16) :
    chunkFromScriptSig (p2pkhScriptSig signature pubkey) = none := by
  have hpushes : parseScriptPushes (p2pkhScriptSig signature pubkey) = [signature, pubkey] := by
    rw [← parseScriptPushes_flatMap [signature, pubkey]]
    · simp [p2pkhScriptSig]
    · intro d hd
      simp only [List.mem_cons, List.not_mem_nil, or_false] at hd
      rcases hd with rfl | rfl
      · exact hsignature
      · exact hpubkey
  rw [chunkFromScriptSig, hpushes]
  exact if_pos (by simp)

/-- **Code within the limit is split** into at most 188 chunks. -/
theorem splitChunks_eq_ok {wasm : Bytes} (hpos : 1 ≤ wasm.length)
    (hmax : wasm.length ≤ maxCodeBytes.toNat) :
    splitChunks wasm = .ok (chunks chunkPayloadSize wasm) ∧
      (chunks chunkPayloadSize wasm).length ≤ maxChunks.toNat := by
  have hcode : maxCodeBytes.toNat = 262144 := rfl
  have hle : wasm.length ⌈/⌉ chunkPayloadSize ≤ maxChunks.toNat := by
    rw [Nat.ceilDiv_eq_add_pred_div, chunkPayloadSize, show maxChunks.toNat = 188 from rfl]
    omega
  refine ⟨?_, (length_chunks (by decide) wasm).trans_le hle⟩
  have hlength : ¬ (wasm.length = 0 ∨ UInt32.ofNat wasm.length > maxCodeBytes) := by
    rw [not_or, gt_iff_lt, UInt32.not_lt, UInt32.le_iff_toNat_le, toNat_ofNat32 (by omega)]
    exact ⟨by omega, hmax⟩
  rw [splitChunks, carrierInputCount, if_neg hlength]
  dsimp only
  rw [if_neg (Nat.not_lt.mpr hle)]
  rfl

end Zalkanes
