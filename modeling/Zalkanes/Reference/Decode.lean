import Zalkanes.Wire

/-!
# The Reference Implementation

The repository has a second implementation of what consensus depends on, a Python program that is
written against the specification of the protocol, so that it catches where the behaviour of the
node became the protocol by accident. Here its decoder of messages is embedded, and compared with
the parser of the node.

Integers of Python are natural numbers, as none of them is ever negative.

## Main results

* `Reference.decodeOpReturn_eq_some_iff`: what the program decodes.
* `Reference.decoders_agree`: on which payloads the two disagree.
-/

namespace Zalkanes

open Lib

attribute [ext] DeployMessage CallMessage CallCarrierMessage

namespace Reference

/-- What the program raises. -/
inductive Raised where
  /-- `ValueError`. -/
  | value (message : String)
  /-- A failed `assert`; some of them have no message. -/
  | assertion (message : String)
  /-- `IndexError`. -/
  | index
  /-- `KeyError`. -/
  | key
  /-- `struct.error`. -/
  | struct
  deriving DecidableEq

/-! ### Constants -/

/-- `PROTOCOL_MAGIC` of the program. -/
def protocolMagic : Bytes := [0x5A, 0x41, 0x4C, 0x4B]

/-- `PROTOCOL_V0` of the program. -/
def protocolV0 : UInt8 := 0x00

/-- `MSG_DEPLOY` of the program. -/
def msgDeploy : UInt8 := 0x01

/-- `MSG_CALL` of the program. -/
def msgCall : UInt8 := 0x02

/-- `MSG_CALL_CARRIER` of the program. -/
def msgCallCarrier : UInt8 := 0x03

/-- `MAX_CODE_BYTES` of the program. -/
def maxCodeBytes : ℕ := 262144

/-- `MAX_CALL_INLINE_BYTES` of the program. -/
def maxCallInlineBytes : ℕ := 38

/-! ### Byte strings -/

/-- `bs[a:b]`. -/
def slice (bs : Bytes) (a b : ℕ) : Bytes := (bs.drop a).take (b - a)

/-- `bs[i]`. -/
def index (bs : Bytes) (i : ℕ) : Except Raised UInt8 :=
  match bs[i]? with
  | some b => .ok b
  | none => .error .index

/-- `struct.unpack` of one big-endian integer of `w` bytes. -/
def unpack (w : ℕ) (bs : Bytes) : Except Raised ℕ :=
  if bs.length = w then .ok (beValue bs) else .error .struct

/-! ### Decoding -/

/-- A decoded message; the program returns tuples. -/
inductive Decoded where
  | deploy (codeHash : Bytes) (codeLength chunkCount outputIndex : ℕ)
  | call (contractId : Bytes) (opcode : ℕ) (input : Bytes)
  | callCarrier (contractId : Bytes) (opcode : ℕ) (inputHash : Bytes)
      (inputLength carrierCount : ℕ)
  deriving DecidableEq

/-- The body of a DEPLOY. -/
def decodeDeploy (body : Bytes) : Except Raised Decoded :=
  if body.length ≠ 39 then .error (.assertion "deploy trailing/truncated")
  else do
    let codeHash := slice body 0 32
    let codeLength ← unpack 4 (slice body 32 36)
    let chunkCount ← index body 36
    let outputIndex ← unpack 2 (slice body 37 39)
    return .deploy codeHash codeLength chunkCount.toNat outputIndex

/-- The body of a CALL, whose lengths are asserted. -/
def decodeCall (body : Bytes) : Except Raised Decoded := do
  let contractId := slice body 0 32
  let opcode ← unpack 2 (slice body 32 34)
  let inputLength ← unpack 2 (slice body 34 36)
  if inputLength > maxCallInlineBytes then .error (.assertion "inline input over limit")
  else
    let input := body.drop 36
    if input.length ≠ inputLength then .error (.assertion "input length mismatch")
    else return .call contractId opcode input

/-- The body of a CALL_CARRIER. -/
def decodeCallCarrier (body : Bytes) : Except Raised Decoded :=
  if body.length ≠ 71 then .error (.assertion "call_carrier trailing/truncated")
  else do
    let contractId := slice body 0 32
    let opcode ← unpack 2 (slice body 32 34)
    let inputHash := slice body 34 66
    let inputLength ← unpack 4 (slice body 66 70)
    let carrierCount ← index body 70
    return .callCarrier contractId opcode inputHash inputLength carrierCount.toNat

/-- A payload: none if it is empty or has other magic bytes. -/
def decodeOpReturn (payload : Bytes) : Except Raised (Option Decoded) :=
  if payload = [] then .ok none
  else if slice payload 0 4 ≠ protocolMagic then .ok none
  else do
    let version ← index payload 4
    if version ≠ protocolV0 then .error (.value "unknown version")
    else
      let msgType ← index payload 5
      let body := payload.drop 6
      if msgType = msgDeploy then (decodeDeploy body).map some
      else if msgType = msgCall then (decodeCall body).map some
      else if msgType = msgCallCarrier then (decodeCallCarrier body).map some
      else .error (.value "unknown message type")

/-- The tuple that stands for a message. -/
def Decoded.of : Message → Decoded
  | .deploy m => .deploy m.codeHash.bytes m.codeLength.toNat m.chunkCount.toNat m.outputIndex.toNat
  | .call m => .call m.contractId.bytes m.opcode.toNat m.input
  | .callCarrier m => .callCarrier m.contractId.bytes m.opcode.toNat m.inputHash.bytes
      m.inputLength.toNat m.carrierCount.toNat

/-- What the program checks of the fields of a message: only the length of an inline input. -/
def Checks : Message → Prop
  | .call m => m.input.length ≤ maxCallInlineBytes
  | _ => True

/-! ### Fields -/

section Fields

variable {p f r : Bytes} {a b : ℕ}

/-- A slice between two ends. -/
theorem slice_append (ha : p.length = a) (hb : a + f.length = b) :
    slice (p ++ (f ++ r)) a b = f :=
  take_drop_append ha (by omega) r

/-- A byte behind others. -/
theorem index_append (ha : p.length = a) (x : UInt8) : index (p ++ x :: r) a = .ok x := by
  rw [index, List.getElem?_append_right ha.le, ha, Nat.sub_self, List.getElem?_cons_zero]

/-- Words of 32 bits come back. -/
theorem unpack_be32 (n : UInt32) : unpack 4 (be32 n) = .ok n.toNat := by
  rw [unpack, if_pos (length_be32 n), be32, beValue_beBytes,
    Nat.mod_eq_of_lt (by simpa using n.toNat_lt)]

/-- Words of 16 bits come back. -/
theorem unpack_be16 (n : UInt16) : unpack 2 (be16 n) = .ok n.toNat := by
  rw [unpack, if_pos (length_be16 n), be16, beValue_beBytes,
    Nat.mod_eq_of_lt (by simpa using n.toNat_lt)]

end Fields

/-! ### Bodies -/

/-- The fields of a DEPLOY decode. -/
theorem decodeDeploy_append (m : DeployMessage) :
    decodeDeploy (m.codeHash.bytes ++ (be32 m.codeLength ++ m.chunkCount :: be16 m.outputIndex)) =
      .ok (.of (.deploy m)) := by
  obtain ⟨codeHash, codeLength, chunkCount, outputIndex⟩ := m
  dsimp only
  have hhash := slice_append (p := []) (f := codeHash.bytes)
    (r := be32 codeLength ++ chunkCount :: be16 outputIndex) (a := 0) (b := 32) rfl (by simp)
  have hlength := slice_append (f := be32 codeLength) (r := chunkCount :: be16 outputIndex)
    codeHash.length_eq (b := 36) (by simp)
  have hcount := index_append (p := codeHash.bytes ++ be32 codeLength)
    (r := be16 outputIndex) (a := 36) (by simp) chunkCount
  have hindex := slice_append (p := codeHash.bytes ++ (be32 codeLength ++ [chunkCount]))
    (f := be16 outputIndex) (r := []) (a := 37) (b := 39) (by simp) (by simp)
  rw [List.append_assoc] at hcount
  rw [List.append_nil, List.append_assoc, List.append_assoc, List.singleton_append] at hindex
  rw [List.nil_append] at hhash
  rw [decodeDeploy, if_neg (by simp)]
  simp only [bind, Except.bind, pure, Except.pure, hhash, hlength, hcount, hindex, unpack_be32,
    unpack_be16]
  rfl

/-- The fields of a CALL decode, if their lengths are right. -/
theorem decodeCall_append (contractId : ContractId) (opcode inputLength : UInt16)
    (input : Bytes) :
    decodeCall (contractId.bytes ++ (be16 opcode ++ (be16 inputLength ++ input))) =
      if inputLength.toNat > maxCallInlineBytes then
        .error (.assertion "inline input over limit")
      else if input.length ≠ inputLength.toNat then .error (.assertion "input length mismatch")
      else .ok (.of (.call ⟨contractId, opcode, input⟩)) := by
  have hid := slice_append (p := []) (f := contractId.bytes)
    (r := be16 opcode ++ (be16 inputLength ++ input)) (a := 0) (b := 32) rfl (by simp)
  have hopcode := slice_append (f := be16 opcode) (r := be16 inputLength ++ input)
    contractId.length_eq (b := 34) (by simp)
  have hlength := slice_append (p := contractId.bytes ++ be16 opcode)
    (f := be16 inputLength) (r := input) (a := 34) (b := 36) (by simp) (by simp)
  have hinput : (contractId.bytes ++ (be16 opcode ++ (be16 inputLength ++ input))).drop 36 =
      input := by
    rw [← List.append_assoc, ← List.append_assoc]
    exact List.drop_left' (by simp)
  rw [List.append_assoc] at hlength
  rw [List.nil_append] at hid
  rw [decodeCall]
  simp only [bind, Except.bind, hid, hopcode, hlength, hinput, unpack_be16]
  rfl

/-- The fields of a CALL_CARRIER decode. -/
theorem decodeCallCarrier_append (m : CallCarrierMessage) :
    decodeCallCarrier (m.contractId.bytes ++ (be16 m.opcode ++ (m.inputHash.bytes ++
      (be32 m.inputLength ++ [m.carrierCount])))) = .ok (.of (.callCarrier m)) := by
  obtain ⟨contractId, opcode, inputHash, inputLength, carrierCount⟩ := m
  dsimp only
  have hid := slice_append (p := []) (f := contractId.bytes)
    (r := be16 opcode ++ (inputHash.bytes ++ (be32 inputLength ++ [carrierCount])))
    (a := 0) (b := 32) rfl (by simp)
  have hopcode := slice_append (f := be16 opcode)
    (r := inputHash.bytes ++ (be32 inputLength ++ [carrierCount])) contractId.length_eq
    (b := 34) (by simp)
  have hhash := slice_append (p := contractId.bytes ++ be16 opcode) (f := inputHash.bytes)
    (r := be32 inputLength ++ [carrierCount]) (a := 34) (b := 66) (by simp) (by simp)
  have hlength := slice_append (p := contractId.bytes ++ (be16 opcode ++ inputHash.bytes))
    (f := be32 inputLength) (r := [carrierCount]) (a := 66) (b := 70) (by simp) (by simp)
  have hcount := index_append (p := contractId.bytes ++ (be16 opcode ++ (inputHash.bytes ++
    be32 inputLength))) (r := []) (a := 70) (by simp) carrierCount
  rw [List.append_assoc] at hhash
  rw [List.append_assoc, List.append_assoc] at hlength
  rw [List.append_assoc, List.append_assoc, List.append_assoc] at hcount
  rw [List.nil_append] at hid
  rw [decodeCallCarrier, if_neg (by simp)]
  simp only [bind, Except.bind, pure, Except.pure, hid, hopcode, hhash, hlength, hcount,
    unpack_be32, unpack_be16]
  rfl

/-- A body decodes to the DEPLOY whose fields it has. -/
theorem decodeDeploy_eq_ok_iff {body : Bytes} {d : Decoded} :
    decodeDeploy body = .ok d ↔ ∃ m : DeployMessage, d = .of (.deploy m) ∧
      m.codeHash.bytes ++ (be32 m.codeLength ++ m.chunkCount :: be16 m.outputIndex) = body := by
  constructor
  · intro h
    have hlen : body.length = 39 := by
      rw [decodeDeploy] at h
      split_ifs at h with hlen
      exact not_not.mp hlen
    obtain ⟨codeHash, rest, rfl, hrest⟩ := Bytes32.exists_append body (by omega)
    obtain ⟨codeLength, rest, rfl, hrest⟩ := exists_be32_append rest (by omega)
    obtain ⟨chunkCount, rest, rfl⟩ := List.exists_cons_of_length_pos (l := rest) (by omega)
    rw [List.length_cons] at hrest
    obtain ⟨outputIndex, rest, rfl, hrest⟩ := exists_be16_append rest (by omega)
    obtain rfl : rest = [] := by
      simp only [List.length_append, Bytes32.length_eq, length_be32, List.length_cons,
        length_be16] at hlen
      exact List.length_eq_zero_iff.mp (by omega)
    rw [List.append_nil] at h ⊢
    have happend := decodeDeploy_append ⟨codeHash, codeLength, chunkCount, outputIndex⟩
    exact ⟨_, Except.ok.inj (h.symm.trans happend), rfl⟩
  · rintro ⟨m, rfl, rfl⟩
    exact decodeDeploy_append m

/-- A body decodes to the CALL whose fields it has. -/
theorem decodeCall_eq_ok_iff {body : Bytes} {d : Decoded} :
    decodeCall body = .ok d ↔ ∃ m : CallMessage, d = .of (.call m) ∧ Checks (.call m) ∧
      m.contractId.bytes ++ (be16 m.opcode ++
        (be16 (UInt16.ofNat m.input.length) ++ m.input)) = body := by
  constructor
  · intro h
    -- both integers unpack, so their two bytes are there
    have hlen : 36 ≤ body.length := by
      by_contra hshort
      rw [decodeCall] at h
      have hslice : (slice body 34 36).length ≠ 2 := by
        rw [slice, List.length_take, List.length_drop]
        omega
      obtain ⟨opcode, -, h⟩ := bind_eq_ok h
      rw [unpack, if_neg hslice] at h
      cases h
    obtain ⟨contractId, rest, rfl, hrest⟩ := Bytes32.exists_append body (by omega)
    obtain ⟨opcode, rest, rfl, hrest'⟩ := exists_be16_append rest (by omega)
    obtain ⟨inputLength, input, rfl, -⟩ := exists_be16_append rest (by omega)
    rw [decodeCall_append] at h
    split_ifs at h with hmax hlength
    rw [not_not] at hlength
    refine ⟨⟨contractId, opcode, input⟩, (Except.ok.inj h).symm, ?_, ?_⟩
    · rw [Checks, hlength]
      exact not_lt.mp hmax
    · dsimp only
      rw [hlength, UInt16.ofNat_toNat]
  · rintro ⟨m, rfl, hcheck, rfl⟩
    have hle : m.input.length ≤ 38 := hcheck
    have hcast : (UInt16.ofNat m.input.length).toNat = m.input.length := toNat_ofNat16 (by omega)
    rw [decodeCall_append, hcast, if_neg (not_lt.mpr hcheck), if_neg (not_not.mpr rfl)]

/-- A body decodes to the CALL_CARRIER whose fields it has. -/
theorem decodeCallCarrier_eq_ok_iff {body : Bytes} {d : Decoded} :
    decodeCallCarrier body = .ok d ↔ ∃ m : CallCarrierMessage, d = .of (.callCarrier m) ∧
      m.contractId.bytes ++ (be16 m.opcode ++ (m.inputHash.bytes ++
        (be32 m.inputLength ++ [m.carrierCount]))) = body := by
  constructor
  · intro h
    have hlen : body.length = 71 := by
      rw [decodeCallCarrier] at h
      split_ifs at h with hlen
      exact not_not.mp hlen
    obtain ⟨contractId, rest, rfl, hrest⟩ := Bytes32.exists_append body (by omega)
    obtain ⟨opcode, rest, rfl, hrest'⟩ := exists_be16_append rest (by omega)
    obtain ⟨inputHash, rest, rfl, hrest''⟩ := Bytes32.exists_append rest (by omega)
    obtain ⟨inputLength, rest, rfl, hcount⟩ := exists_be32_append rest (by omega)
    obtain ⟨carrierCount, rfl⟩ := List.length_eq_one_iff.mp (show rest.length = 1 by omega)
    have happend := decodeCallCarrier_append
      ⟨contractId, opcode, inputHash, inputLength, carrierCount⟩
    exact ⟨_, Except.ok.inj (h.symm.trans happend), rfl⟩
  · rintro ⟨m, rfl, rfl⟩
    exact decodeCallCarrier_append m

/-! ### Payloads -/

/-- Behind a header the type byte chooses the decoder. -/
theorem decodeOpReturn_header (msgType : UInt8) (body : Bytes) :
    decodeOpReturn (header msgType ++ body) =
      if msgType = msgDeploy then (decodeDeploy body).map some
      else if msgType = msgCall then (decodeCall body).map some
      else if msgType = msgCallCarrier then (decodeCallCarrier body).map some
      else .error (.value "unknown message type") := by
  rw [decodeOpReturn, if_neg (by simp [header])]
  rfl

/-- A payload that decodes to a message has a header. -/
theorem exists_header_of_decodeOpReturn {payload : Bytes} {d : Decoded}
    (h : decodeOpReturn payload = .ok (some d)) :
    ∃ msgType body, payload = header msgType ++ body := by
  rw [decodeOpReturn] at h
  split at h
  · cases h
  split at h
  · cases h
  rename_i hmagic
  rw [not_not, slice, List.drop_zero] at hmagic
  obtain ⟨version, hversion, h⟩ := bind_eq_ok h
  split at h
  · cases h
  rename_i hv0
  obtain ⟨msgType, htype, -⟩ := bind_eq_ok h
  have hget : ∀ {i : ℕ} {b : UInt8}, index payload i = .ok b → payload[i]? = some b := by
    intro i b hb
    rw [index] at hb
    split at hb
    · rename_i hb'
      rw [hb', Except.ok.inj hb]
    · cases hb
  have hdrop : payload.drop 4 = version :: msgType :: payload.drop 6 := by
    refine List.ext_getElem? fun i => ?_
    match i with
    | 0 => rw [List.getElem?_drop, hget hversion, List.getElem?_cons_zero]
    | 1 => rw [List.getElem?_drop, hget htype, List.getElem?_cons_succ, List.getElem?_cons_zero]
    | i + 2 =>
        rw [List.getElem?_drop, List.getElem?_cons_succ, List.getElem?_cons_succ,
          List.getElem?_drop]
        congr 1
        omega
  refine ⟨msgType, payload.drop 6, ?_⟩
  rw [← List.take_append_drop 4 payload, hdrop, hmagic, not_not.mp hv0]
  simp [header, protocolMagic, Zalkanes.protocolMagic, protocolV0, Zalkanes.protocolV0]

/-- **What the program decodes** is the encoding of a message whose inline input is short. -/
theorem decodeOpReturn_eq_some_iff {payload : Bytes} {d : Decoded} :
    decodeOpReturn payload = .ok (some d) ↔
      ∃ m : Message, d = .of m ∧ Checks m ∧ m.encode = payload := by
  constructor
  · intro h
    obtain ⟨msgType, body, rfl⟩ := exists_header_of_decodeOpReturn h
    rw [decodeOpReturn_header] at h
    split_ifs at h with hdeploy hcall hcarrier
    · obtain ⟨d', hd, hd'⟩ := map_eq_ok h
      obtain rfl := Option.some.inj hd'
      obtain ⟨m, rfl, rfl⟩ := decodeDeploy_eq_ok_iff.mp hd
      exact ⟨.deploy m, rfl, trivial, by rw [hdeploy]; rfl⟩
    · obtain ⟨d', hd, hd'⟩ := map_eq_ok h
      obtain rfl := Option.some.inj hd'
      obtain ⟨m, rfl, hcheck, rfl⟩ := decodeCall_eq_ok_iff.mp hd
      exact ⟨.call m, rfl, hcheck, by rw [hcall]; rfl⟩
    · obtain ⟨d', hd, hd'⟩ := map_eq_ok h
      obtain rfl := Option.some.inj hd'
      obtain ⟨m, rfl, rfl⟩ := decodeCallCarrier_eq_ok_iff.mp hd
      exact ⟨.callCarrier m, rfl, trivial, by rw [hcarrier]; rfl⟩
  · rintro ⟨m, rfl, hcheck, rfl⟩
    cases m with
    | deploy m =>
        rw [Message.encode, encodeDeploy, decodeOpReturn_header, if_pos (by decide),
          decodeDeploy_append]
        rfl
    | call m =>
        have hdecode := decodeCall_eq_ok_iff.mpr ⟨m, rfl, hcheck, rfl⟩
        rw [Message.encode, encodeCall, decodeOpReturn_header, if_neg (by decide),
          if_pos (by decide), hdecode]
        rfl
    | callCarrier m =>
        rw [Message.encode, encodeCallCarrier, decodeOpReturn_header, if_neg (by decide),
          if_neg (by decide), if_pos (by decide), decodeCallCarrier_append]
        rfl

/-- Different messages decode differently. -/
theorem Decoded.of_injective : Function.Injective Decoded.of := by
  intro m m' h
  cases m with
  | deploy m =>
      cases m' with
      | deploy m' =>
          obtain ⟨hhash, hlength, hcount, hindex⟩ := Decoded.deploy.inj h
          exact congrArg Message.deploy (DeployMessage.ext (Bytes32.ext hhash)
            (UInt32.toNat_inj.mp hlength) (UInt8.toNat_inj.mp hcount) (UInt16.toNat_inj.mp hindex))
      | _ => cases h
  | call m =>
      cases m' with
      | call m' =>
          obtain ⟨hid, hopcode, hinput⟩ := Decoded.call.inj h
          exact congrArg Message.call
            (CallMessage.ext (Bytes32.ext hid) (UInt16.toNat_inj.mp hopcode) hinput)
      | _ => cases h
  | callCarrier m =>
      cases m' with
      | callCarrier m' =>
          obtain ⟨hid, hopcode, hhash, hlength, hcount⟩ := Decoded.callCarrier.inj h
          exact congrArg Message.callCarrier (CallCarrierMessage.ext (Bytes32.ext hid)
            (UInt16.toNat_inj.mp hopcode) (Bytes32.ext hhash) (UInt32.toNat_inj.mp hlength)
            (UInt8.toNat_inj.mp hcount))
      | _ => cases h

/-- What the program skips: all that does not start with the four magic bytes. -/
theorem decodeOpReturn_eq_none_iff {payload : Bytes} :
    decodeOpReturn payload = .ok none ↔ ¬ Zalkanes.protocolMagic <+: payload := by
  rw [List.prefix_iff_eq_take]
  constructor
  · intro h hmagic
    have hne : payload ≠ [] := by
      rintro rfl
      cases hmagic
    have hslice : slice payload 0 4 = protocolMagic := hmagic.symm
    rw [decodeOpReturn, if_neg hne, if_neg (not_not.mpr hslice)] at h
    obtain ⟨version, -, h⟩ := bind_eq_ok h
    split at h
    · cases h
    obtain ⟨msgType, -, h⟩ := bind_eq_ok h
    dsimp only at h
    split_ifs at h
    all_goals
      obtain ⟨d, -, hd⟩ := map_eq_ok h
      cases hd
  · intro hmagic
    rw [decodeOpReturn]
    split
    · rfl
    · exact if_pos fun h => hmagic h.symm

/-- What the node skips: of that, it does not skip the magic bytes cut short. -/
theorem parseOpReturn_eq_none_iff {payload : Bytes} :
    parseOpReturn payload = .ok none ↔ ¬ Zalkanes.protocolMagic <+: payload ∧
      (payload = [] ∨ ¬ payload <+: Zalkanes.protocolMagic) := by
  have hmagic : Zalkanes.protocolMagic.length = 4 := rfl
  by_cases hempty : payload = []
  · rw [parseOpReturn, if_pos hempty, hempty]
    simp [Zalkanes.protocolMagic]
  rw [parseOpReturn, if_neg hempty, or_iff_right hempty]
  by_cases hlen : payload.length < 6
  · rw [if_pos hlen]
    have hprefix :
        Zalkanes.protocolMagic.take (min payload.length Zalkanes.protocolMagic.length) <+: payload ↔
          Zalkanes.protocolMagic <+: payload ∨ payload <+: Zalkanes.protocolMagic := by
      rcases le_total payload.length 4 with hle | hge
      · rw [hmagic, min_eq_left hle]
        constructor
        · intro h
          refine Or.inr ?_
          rw [← h.eq_of_length (by rw [List.length_take, hmagic, min_eq_left hle])]
          exact List.take_prefix _ _
        · rintro (h | h)
          · have heq := h.eq_of_length (le_antisymm h.length_le (hmagic ▸ hle))
            rw [← heq]
            exact List.take_prefix _ _
          · rw [← List.prefix_iff_eq_take.mp h]
      · rw [hmagic, min_eq_right hge, ← hmagic, List.take_length]
        refine (or_iff_left_of_imp fun h => ?_).symm
        rw [h.eq_of_length (le_antisymm h.length_le (hmagic ▸ hge))]
    rw [← not_or, ← hprefix]
    split_ifs with h
    · exact iff_of_false (fun h => by cases h) (not_not.mpr h)
    · exact iff_of_true rfl h
  · rw [if_neg hlen]
    have hlong : ¬ payload <+: Zalkanes.protocolMagic := fun h => by
      have := h.length_le
      omega
    rw [and_iff_left hlong, List.prefix_iff_eq_take, hmagic]
    constructor
    · intro h heq
      rw [if_neg (not_not.mpr heq.symm)] at h
      dsimp only at h
      split_ifs at h
      all_goals
        obtain ⟨m, -, hm⟩ := map_eq_ok h
        cases hm
    · exact fun h => if_pos fun heq => h heq.symm

/-! ### Agreement -/

/-- What the two decoders make of a payload. -/
structure DecodersAgree (payload : Bytes) : Prop where
  /-- The node accepts a message exactly when the program does and all its fields are in range. -/
  message : ∀ m : Message, parseOpReturn payload = .ok (some m) ↔
    decodeOpReturn payload = .ok (some (.of m)) ∧ m.InRange
  /-- What the program accepts is the encoding of a message, which the node refuses if a field of
  it is out of range. -/
  decoded : ∀ d, decodeOpReturn payload = .ok (some d) → ∃ m : Message, d = .of m ∧
    m.encode = payload ∧ (¬ m.InRange → ∃ e, parseOpReturn payload = .error e)
  /-- Both skip the same payloads, but the magic bytes cut short, which the node refuses. -/
  skipped : parseOpReturn payload = .ok none ↔ decodeOpReturn payload = .ok none ∧
    (payload = [] ∨ ¬ payload <+: Zalkanes.protocolMagic)
  /-- What the program refuses, the node refuses. -/
  refused : ∀ r, decodeOpReturn payload = .error r → ∃ e, parseOpReturn payload = .error e

/-- **The decoders of the node and of the reference program agree** on every payload but two kinds,
which the node refuses: messages with a field out of range, which the program does not check, and
the magic bytes cut short, which the program skips. -/
theorem decoders_agree (payload : Bytes) : DecodersAgree payload := by
  have hmessage : ∀ m : Message, parseOpReturn payload = .ok (some m) ↔
      decodeOpReturn payload = .ok (some (.of m)) ∧ m.InRange := by
    intro m
    rw [parseOpReturn_eq_some_iff, decodeOpReturn_eq_some_iff]
    constructor
    · rintro ⟨hrange, hencode⟩
      refine ⟨⟨m, rfl, ?_, hencode⟩, hrange⟩
      cases m with
      | call m => exact hrange
      | _ => trivial
    · rintro ⟨⟨m', hm, -, hencode⟩, hrange⟩
      obtain rfl := Decoded.of_injective hm
      exact ⟨hrange, hencode⟩
  have hskipped : parseOpReturn payload = .ok none ↔ decodeOpReturn payload = .ok none ∧
      (payload = [] ∨ ¬ payload <+: Zalkanes.protocolMagic) := by
    rw [parseOpReturn_eq_none_iff, decodeOpReturn_eq_none_iff]
  have herror : parseOpReturn payload ≠ .ok none →
      (∀ m, parseOpReturn payload ≠ .ok (some m)) → ∃ e, parseOpReturn payload = .error e := by
    intro hnone hsome
    cases hparse : parseOpReturn payload with
    | error e => exact ⟨e, rfl⟩
    | ok result =>
        cases result with
        | none => exact absurd hparse hnone
        | some m => exact absurd hparse (hsome m)
  refine ⟨hmessage, fun d hd => ?_, hskipped, fun r hr => ?_⟩
  · obtain ⟨m, rfl, -, hencode⟩ := decodeOpReturn_eq_some_iff.mp hd
    refine ⟨m, rfl, hencode, fun hrange => herror (fun h => ?_) fun m' h => ?_⟩
    · rw [(hskipped.mp h).1] at hd
      cases hd
    · obtain ⟨hd', hrange'⟩ := (hmessage m').mp h
      rw [hd, Except.ok.injEq, Option.some.injEq] at hd'
      exact hrange (Decoded.of_injective hd' ▸ hrange')
  · refine herror (fun h => ?_) fun m h => ?_
    · rw [(hskipped.mp h).1] at hr
      cases hr
    · rw [((hmessage m).mp h).1] at hr
      cases hr

/-- A DEPLOY of no code is a message to the program, and refused by the node. -/
example : decodeOpReturn (encodeDeploy ⟨Bytes32.replicate 1, 0, 1, 0⟩) =
      .ok (some (.of (.deploy ⟨Bytes32.replicate 1, 0, 1, 0⟩))) ∧
    parseOpReturn (encodeDeploy ⟨Bytes32.replicate 1, 0, 1, 0⟩) =
      .error (.codeLengthExceedsMax 0 Zalkanes.maxCodeBytes) := by
  decide

end Reference

end Zalkanes
