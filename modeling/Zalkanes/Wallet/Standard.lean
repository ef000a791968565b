import Zalkanes.Wallet.ScriptSigs
import Zalkanes.Wallet.TwoStageDeploy

/-!
# Standard ScriptSigs

Zebra relays a transaction only if each of its scriptSigs is push-only, of at most 1650 bytes, in
pushes of at most 520. How much data this leaves to a carrier is computed as if every push had the
longest header (`maxStandardCarrierPayload`), so that up to two bytes are given away where the last
push would be short.

## Main results

* `carrierPushesLen_eq`: what the pushes of a chunk take.
* `carrier_standard`: the budget is safe, and exact up to the header of the last push.
* `scriptSigs_standard`: every transaction that is planned is signed with standard scriptSigs.
-/

namespace Zalkanes

open Lib

/-- Zebra's `MAX_STANDARD_SCRIPTSIG_SIZE`. -/
def maxStandardScriptSigSize : ℕ := 1650

/-- Maximum carrier chunk payload that fits. Where the rest alone does not fit, the source subtracts
below zero, which panics with overflow checks and wraps in a release build: that is none here, and
no theorem is about it. -/
def maxStandardCarrierPayload (signatureLen redeemScriptLen : ℕ) : Option ℕ :=
  let chunkIndex := 2
  let sigPush := 1 + signatureLen
  let redeemPush := pushOverhead redeemScriptLen + redeemScriptLen
  let fixed := chunkIndex + sigPush + redeemPush
  (checkedSub maxStandardScriptSigSize fixed).map fun remaining =>
    let pushes := remaining / (maxPushSize + 3)
    let leftover := remaining % (maxPushSize + 3)
    pushes * maxPushSize + (leftover - 3)

/-! ### The budget of a carrier -/

/-- What the last push of a chunk takes. -/
def lastPushLen (n : ℕ) : ℕ := if n = 0 then 0 else pushOverhead n + n

/-- **The pushes of a chunk**: whole ones, and a last one that may be shorter. -/
theorem carrierPushesLen_eq (len remaining : ℕ) : carrierPushesLen len remaining =
    len + (remaining / 520 * 523 + lastPushLen (remaining % 520)) := by
  fun_induction carrierPushesLen len remaining with
  | case1 len => rfl
  | case2 len remaining hpos part ih =>
      rw [ih]
      by_cases hwhole : 520 ≤ remaining
      · have hpart : part = 520 := Nat.min_eq_right hwhole
        have hpush : pushOverhead 520 = 3 := rfl
        have hmod : (remaining - 520) % 520 = remaining % 520 := by omega
        rw [hpart, hpush, hmod]
        omega
      · have hpart : part = remaining := Nat.min_eq_left (by rw [maxPushSize]; omega)
        have hdiv : remaining / 520 = 0 := Nat.div_eq_of_lt (by omega)
        have hmod : remaining % 520 = remaining := Nat.mod_eq_of_lt (by omega)
        rw [hpart, Nat.sub_self, hdiv, hmod, lastPushLen, lastPushLen, if_pos rfl, if_neg hpos]
        omega

/-- A last push is read off its room. -/
theorem lastPushLen_le_iff {n room : ℕ} (h : room ≤ 1 ∨ 258 ≤ room) :
    lastPushLen n ≤ room ↔ n ≤ room - 3 := by
  rw [lastPushLen, pushOverhead]
  split_ifs <;> omega

/-- A last push with three bytes for its header fits. -/
theorem lastPushLen_le (n room : ℕ) (h : n ≤ room - 3) : lastPushLen n ≤ room := by
  rw [lastPushLen, pushOverhead]
  split_ifs <;> omega

/-- One that fits leaves at most two bytes of these. -/
theorem le_of_lastPushLen_le (n room : ℕ) (h : lastPushLen n ≤ room) : n ≤ room - 3 + 2 := by
  rw [lastPushLen, pushOverhead] at h
  split_ifs at h <;> omega

/-- What the header and the data of a carrier's last push may take. -/
def lastPushRoom (signatureLen redeemScriptLen : ℕ) : ℕ :=
  (maxStandardScriptSigSize -
    (2 + (1 + signatureLen) + (pushOverhead redeemScriptLen + redeemScriptLen))) % 523

section Budget

variable {n room : ℕ}

/-- All pushes fit within the budget. -/
theorem pushesLen_le (h : n ≤ room / 523 * 520 + (room % 523 - 3)) :
    n / 520 * 523 + lastPushLen (n % 520) ≤ room := by
  rcases Nat.lt_or_ge (n / 520) (room / 523) with hlt | hge
  · have hlast := lastPushLen_le (n % 520) 522 (by omega)
    omega
  · -- as many whole pushes, and the last ones are compared
    have hlast := lastPushLen_le (n % 520) (room % 523) (by omega)
    omega

/-- Pushes that fit exceed the budget by two bytes at most. -/
theorem le_of_pushesLen_le (h : n / 520 * 523 + lastPushLen (n % 520) ≤ room) :
    n ≤ room / 523 * 520 + (room % 523 - 3) + 2 := by
  rcases Nat.lt_or_ge (n / 520) (room / 523) with hlt | hge
  · omega
  · have hlast := le_of_lastPushLen_le (n % 520) (room % 523) (by omega)
    omega

/-- For most rooms the budget is exact. -/
theorem pushesLen_le_iff (hroom : room % 523 ≤ 1 ∨ 258 ≤ room % 523) :
    n / 520 * 523 + lastPushLen (n % 520) ≤ room ↔ n ≤ room / 523 * 520 + (room % 523 - 3) := by
  refine ⟨fun h => ?_, pushesLen_le⟩
  rcases Nat.lt_or_ge (n / 520) (room / 523) with hlt | hge
  · omega
  · have hlast := (lastPushLen_le_iff (n := n % 520) hroom).mp (by omega)
    omega

end Budget

/-- **The budget of a carrier**: what is within it is standard, what is standard exceeds it by two
bytes at most, and it is exact where the last push is not left a short room. -/
theorem carrier_standard (index : UInt8) (data : Bytes) {signature redeem : Bytes} {budget : ℕ}
    (hsignature : signature.length ≤ 75)
    (hbudget : maxStandardCarrierPayload signature.length redeem.length = some budget) :
    (data.length ≤ budget →
      (carrierScriptSig index data signature redeem).length ≤ maxStandardScriptSigSize) ∧
    ((carrierScriptSig index data signature redeem).length ≤ maxStandardScriptSigSize →
      data.length ≤ budget + 2) ∧
    (lastPushRoom signature.length redeem.length ≤ 1 ∨
        258 ≤ lastPushRoom signature.length redeem.length →
      ((carrierScriptSig index data signature redeem).length ≤ maxStandardScriptSigSize ↔
        data.length ≤ budget)) := by
  have hindex : (pushData [index]).length = 2 := rfl
  have hpush : pushOverhead signature.length = 1 := if_pos hsignature
  have hdata := carrierPushesLen_length 0 data
  rw [carrierPushesLen_eq, Nat.zero_add, Nat.zero_add] at hdata
  rw [maxStandardCarrierPayload] at hbudget
  obtain ⟨room, hroom, rfl⟩ := Option.map_eq_some_iff.mp hbudget
  have hroom := checkedSub_eq_some.mp hroom
  have hlength : (carrierScriptSig index data signature redeem).length ≤
      maxStandardScriptSigSize ↔
        data.length / 520 * 523 + lastPushLen (data.length % 520) ≤ room := by
    rw [carrierScriptSig, List.length_append, List.length_append, List.length_append, hindex,
      length_pushData signature, length_pushData redeem, hpush, ← hdata, hroom]
    omega
  have hlast : lastPushRoom signature.length redeem.length = room % 523 := by
    rw [lastPushRoom, hroom, Nat.add_sub_cancel_left]
  rw [hlength, hlast]
  exact ⟨pushesLen_le, le_of_pushesLen_le, pushesLen_le_iff⟩

/-- The longest data around a signature of 73 bytes and the redeem script of a key. -/
theorem carrier_standard_longest :
    (carrierScriptSig 0 (List.replicate 1528 7) (List.replicate 73 0x30)
      (List.replicate 36 0xac)).length ≤ maxStandardScriptSigSize := by
  have hbudget : maxStandardCarrierPayload (List.replicate 73 (0x30 : UInt8)).length
      (List.replicate 36 (0xac : UInt8)).length = some 1528 := by
    rw [List.length_replicate, List.length_replicate]
    rfl
  exact (carrier_standard 0 (List.replicate 1528 7)
    (List.length_replicate.trans_le (by decide)) hbudget).1 List.length_replicate.le

/-! ### The scriptSigs of a plan -/

/-- Zebra's standard for a scriptSig. -/
structure StandardScriptSig (script : Bytes) : Prop where
  size : script.length ≤ maxStandardScriptSigSize
  pushes : ∃ datas, Pushes script datas ∧ ∀ data ∈ datas, data.length ≤ maxPushSize

/-- A push that is built is a push that is read. -/
theorem isPush_pushData {data : Bytes} (h : data.length < 2 ^ 16) :
    IsPush (pushData data) data := by
  have hread := parsePush_pushData h []
  obtain ⟨push, rest, hpush, hdata, hlength⟩ := parsePush_eq_some.mp hread
  have hrest : rest = [] := by
    have := congrArg List.length hdata
    rw [List.append_nil, List.length_append] at this
    exact List.eq_nil_of_length_eq_zero (by omega)
  rw [hrest, List.append_nil, List.append_nil] at hdata
  rwa [hdata]

/-- Pushes one behind the other. -/
theorem pushes_flatMap (datas : List Bytes) (h : ∀ data ∈ datas, data.length ≤ maxPushSize) :
    Pushes (datas.flatMap pushData) datas := by
  refine ⟨datas.map pushData, List.flatMap_def, ?_⟩
  rw [List.forall₂_map_left_iff, List.forall₂_same]
  intro data hdata
  have := h data hdata
  rw [maxPushSize] at this
  exact isPush_pushData (by omega)

/-- A carrier has a chunk of code, and the redeem script of a key. -/
def SpendKind.Fits : SpendKind → Prop
  | p2pkh _ => True
  | carrier _ _ chunkData redeem =>
      chunkData.length ≤ chunkPayloadSize ∧ redeem.length = redeemScriptLen

/-- A chunk of code is within the budget. -/
theorem chunkPayloadSize_le_budget {signatureLen : ℕ} (h : signatureLen ≤ maxSignatureLen) :
    ∃ budget, maxStandardCarrierPayload signatureLen redeemScriptLen = some budget ∧
      chunkPayloadSize ≤ budget := by
  have hredeem : pushOverhead redeemScriptLen + redeemScriptLen = 37 := rfl
  rw [maxSignatureLen] at h
  have hroom : checkedSub maxStandardScriptSigSize (2 + (1 + signatureLen) + 37) =
      some (1610 - signatureLen) := by
    rw [checkedSub_eq_some, maxStandardScriptSigSize]
    omega
  rw [maxStandardCarrierPayload, hredeem, hroom]
  refine ⟨_, rfl, ?_⟩
  dsimp only
  rw [chunkPayloadSize, maxPushSize]
  omega

/-- **The scriptSig of an input** is standard, around every signature. -/
theorem SpendKind.scriptSig_standard {kind : SpendKind} (hfits : kind.Fits) {signature : Bytes}
    (hsignature : signature.length ≤ maxSignatureLen) :
    StandardScriptSig (kind.scriptSig signature) := by
  have hshort : signature.length ≤ 520 := hsignature.trans (by decide)
  cases kind with
  | p2pkh key =>
      have hredeems : (SpendKind.p2pkh key).Redeems := trivial
      have hlength := SpendKind.length_scriptSig_le hredeems hsignature
      have hpubkey : key.compressedPubkey.length ≤ 520 := key.length_eq.trans_le (by decide)
      have hstandard : p2pkhScriptSigLen ≤ maxStandardScriptSigSize := by decide
      refine ⟨hlength.trans hstandard, [signature, key.compressedPubkey], ?_, ?_⟩
      · have hpushes := pushes_flatMap [signature, key.compressedPubkey]
          (by simpa using ⟨hshort, hpubkey⟩)
        simpa [SpendKind.scriptSig, p2pkhScriptSig] using hpushes
      · simpa using ⟨hshort, hpubkey⟩
  | carrier key index data redeem =>
      obtain ⟨hdata, hredeem⟩ := hfits
      obtain ⟨budget, hbudget, hle⟩ := chunkPayloadSize_le_budget hsignature
      rw [← hredeem] at hbudget
      have hsize := (carrier_standard index data (hsignature.trans (by decide)) hbudget).1
        (hdata.trans hle)
      have hdatas : ∀ d ∈ [index] :: (chunks maxPushSize data ++ [signature, redeem]),
          d.length ≤ maxPushSize := by
        intro d hd
        simp only [List.mem_cons, List.mem_append, List.not_mem_nil, or_false] at hd
        rcases hd with rfl | hd | rfl | rfl
        · exact (show (1 : ℕ) ≤ 520 by decide)
        · exact (length_of_mem_chunks (by decide) hd).2
        · exact hshort
        · exact hredeem.trans_le (by decide)
      refine ⟨hsize, _, ?_, hdatas⟩
      have hpushes := pushes_flatMap _ hdatas
      simpa [SpendKind.scriptSig, carrierScriptSig] using hpushes

/-- Every scriptSig of the signed transaction is standard. -/
def PreparedTx.Standard (plan : PreparedTx) (signatures : List Bytes) : Prop :=
  ∀ script ∈ plan.scriptSigs signatures, StandardScriptSig script

/-- Inputs that fit make a standard transaction. -/
theorem PreparedTx.standard_of_fits {plan : PreparedTx} {signatures : List Bytes}
    (hsignatures : ∀ signature ∈ signatures, signature.length ≤ maxSignatureLen)
    (hfits : ∀ i ∈ plan.inputs, i.kind.Fits) : plan.Standard signatures := by
  intro script hscript
  rw [PreparedTx.scriptSigs, ← List.map_uncurry_zip_eq_zipWith] at hscript
  obtain ⟨⟨input, signature⟩, hmem, rfl⟩ := List.mem_map.mp hscript
  obtain ⟨hinput, hsignature⟩ := List.of_mem_zip hmem
  exact SpendKind.scriptSig_standard (hfits input hinput) (hsignatures signature hsignature)

section Plans

variable {hash160 : Hash160} {key : SigningKey}

/-- Funding inputs fit. -/
theorem fits_of_mem_fundingInputs {utxos : List (OutPoint × ℕ)} {i : SpendInput}
    (h : i ∈ fundingInputs hash160 key utxos) : i.kind.Fits := by
  rw [kind_of_mem_fundingInputs h]
  exact trivial

/-- Carrier inputs fit. -/
theorem fits_of_mem_carrierInputs {outpoints : List OutPoint} {values : List ℕ}
    {pieces : List Bytes} (hsmall : ∀ piece ∈ pieces, piece.length ≤ chunkPayloadSize)
    {i : SpendInput} (h : i ∈ carrierInputs hash160 key outpoints values pieces) :
    i.kind.Fits := by
  obtain ⟨⟨⟨⟨outpoint, value⟩, piece⟩, n⟩, hmem, rfl⟩ := List.mem_map.mp h
  have hpiece := (List.of_mem_zip (List.fst_mem_of_mem_zipIdx hmem)).2
  exact ⟨hsmall piece hpiece, length_redeemScript key⟩

/-- **Every transaction that is planned** is signed with standard scriptSigs: a PREPARE, a CALL, and
a DEPLOY of any code that is split into chunks. -/
theorem scriptSigs_standard (hash160 : Hash160) (key : SigningKey) {signatures : List Bytes}
    (hsignatures : ∀ signature ∈ signatures, signature.length ≤ maxSignatureLen) :
    (∀ utxos carrierValues plan, preparePlan hash160 key utxos carrierValues = .ok plan →
      plan.Standard signatures) ∧
    (∀ wasm pieces outpoints values opReturn plan, splitChunks wasm = .ok pieces →
      deployPlan hash160 key outpoints values pieces opReturn = .ok plan →
      plan.Standard signatures) ∧
    ∀ outpoint value opReturn plan, callPlan hash160 key outpoint value opReturn = .ok plan →
      plan.Standard signatures := by
  refine ⟨fun utxos carrierValues plan h => ?_, fun wasm pieces outpoints values opReturn plan
    hsplit h => ?_, fun outpoint value opReturn plan h => ?_⟩
  · rw [preparePlan] at h
    split_ifs at h with hnone hempty
    dsimp only at h
    split at h
    · cases h
    cases h
    exact PreparedTx.standard_of_fits hsignatures fun i => fits_of_mem_fundingInputs
  · have hsmall := (splitChunks_of_ok hsplit).2.2
    rw [deployPlan] at h
    split_ifs at h with hmismatch
    dsimp only at h
    split at h
    · cases h
    cases h
    exact PreparedTx.standard_of_fits hsignatures fun i => fits_of_mem_carrierInputs hsmall
  · rw [callPlan] at h
    split at h
    · cases h
    cases h
    exact PreparedTx.standard_of_fits hsignatures fun i => fits_of_mem_fundingInputs

end Plans

/-- A DEPLOY of one byte of code. -/
theorem scriptSigs_standard_byte : ∃ plan,
    deployPlan someHash160 someKey [someOutpoint] [1000000000] [[0]]
      (deployOpReturn ⟨fun _ _ => .replicate 0, fun _ => .replicate 0⟩ [0] [[0]]) = .ok plan ∧
    plan.Standard [List.replicate 71 0x30] := by
  have hfee : deployPlanFee someHash160 someKey [[0]]
      (deployOpReturn ⟨fun _ _ => .replicate 0, fun _ => .replicate 0⟩ [0] [[0]]) ≤ 250000 :=
    deployPlanFee_le _ (by decide) (by decide)
  have hplan := @deployPlan_eq_ok someHash160 someKey [someOutpoint] [1000000000] [[0]]
    (deployOpReturn ⟨fun _ _ => .replicate 0, fun _ => .replicate 0⟩ [0] [[0]]) rfl rfl (by decide)
    (hfee.trans (by decide))
  have hsplit : splitChunks [0] = .ok [[0]] := by
    rw [(splitChunks_eq_ok (by decide) (by decide)).1]
    simp [chunks, chunkPayloadSize]
  refine ⟨_, hplan, (scriptSigs_standard someHash160 someKey ?_).2.1 [0] [[0]] [someOutpoint]
    [1000000000] _ _ hsplit hplan⟩
  simp [maxSignatureLen]

end Zalkanes
