import Zalkanes.Protocol
import Zalkanes.Lib.Machine

/-!
# The Wire Format

The encoders of the messages, and what the parser accepts: it accepts the encodings of the
messages whose fields are in its ranges and nothing else. Its ranges are wider than those of the
protocol specification in two places, so the grammar of the specification is a definition of its
own (`WellFormed`).

## Main results

* `parseDeploy_eq_ok_iff`, `parseCall_eq_ok_iff`, `parseCallCarrier_eq_ok_iff`: the bodies.
* `parseOpReturn_eq_some_iff`: parsing and encoding are inverse to each other.
* `parseOpReturn_accepts_iff`: on which payloads the parser agrees with the specification.
-/

namespace Zalkanes

open Lib

/-! ### Encoders -/

/-- The header of a payload. -/
def header (msgType : UInt8) : Bytes := protocolMagic ++ [protocolV0, msgType]

/-- Serialize a DEPLOY message into an OP_RETURN payload. -/
def encodeDeploy (msg : DeployMessage) : Bytes :=
  header msgDeploy ++ (msg.codeHash.bytes ++ (be32 msg.codeLength ++
    msg.chunkCount :: be16 msg.outputIndex))

/-- Serialize a CALL message into an OP_RETURN payload. -/
def encodeCall (msg : CallMessage) : Bytes :=
  let inputLen := UInt16.ofNat msg.input.length
  header msgCall ++ (msg.contractId.bytes ++ (be16 msg.opcode ++ (be16 inputLen ++ msg.input)))

/-- Serialize a CALL_CARRIER message into an OP_RETURN payload. -/
def encodeCallCarrier (msg : CallCarrierMessage) : Bytes :=
  header msgCallCarrier ++ (msg.contractId.bytes ++ (be16 msg.opcode ++ (msg.inputHash.bytes ++
    (be32 msg.inputLength ++ [msg.carrierCount]))))

/-- The encoding of a message. -/
def Message.encode : Message → Bytes
  | deploy m => encodeDeploy m
  | call m => encodeCall m
  | callCarrier m => encodeCallCarrier m

/-! ### The ranges of the parser -/

/-- The fields that a DEPLOY may have. -/
def DeployMessage.InRange (m : DeployMessage) : Prop :=
  0 < m.codeLength ∧ m.codeLength ≤ maxCodeBytes ∧ 0 < m.chunkCount

/-- The inputs that a CALL may have. -/
def CallMessage.InRange (m : CallMessage) : Prop :=
  m.input.length ≤ maxCallInlineBytes.toNat

/-- The fields that a CALL_CARRIER may have. -/
def CallCarrierMessage.InRange (m : CallCarrierMessage) : Prop :=
  0 < m.inputLength ∧ m.inputLength ≤ maxCallInputBytes ∧
    0 < m.carrierCount ∧ m.carrierCount ≤ maxCallCarrierChunks

/-- The fields of the message are in the ranges that the parser checks. -/
def Message.InRange : Message → Prop
  | deploy m => m.InRange
  | call m => m.InRange
  | callCarrier m => m.InRange

instance (m : DeployMessage) : Decidable m.InRange := inferInstanceAs (Decidable (_ ∧ _ ∧ _))

instance (m : CallMessage) : Decidable m.InRange := inferInstanceAs (Decidable (_ ≤ _))

instance (m : CallCarrierMessage) : Decidable m.InRange :=
  inferInstanceAs (Decidable (_ ∧ _ ∧ _ ∧ _))

instance : (m : Message) → Decidable m.InRange
  | .deploy m => inferInstanceAs (Decidable m.InRange)
  | .call m => inferInstanceAs (Decidable m.InRange)
  | .callCarrier m => inferInstanceAs (Decidable m.InRange)

/-! ### Bodies -/

/-- Where 32 bytes were put they are read. -/
theorem bytes32At_append {before : Bytes} {start : ℕ} (hstart : before.length = start) (a : Bytes32)
    (rest : Bytes) : bytes32At (before ++ (a.bytes ++ rest)) start = .ok a := by
  rw [bytes32At, take_drop_append hstart a.length_eq, Bytes32.ofBytes?_bytes]

/-- They are read at the start. -/
theorem bytes32At_zero (a : Bytes32) (rest : Bytes) : bytes32At (a.bytes ++ rest) 0 = .ok a :=
  bytes32At_append (List.length_nil (α := UInt8)) a rest

/-- A byte is read where it was put. -/
theorem getD_append_cons {before : Bytes} {n : ℕ} (hbefore : before.length = n) (b : UInt8)
    (rest : Bytes) : (before ++ b :: rest).getD n 0 = b := by
  rw [List.getD_append_right _ _ _ _ hbefore.le, hbefore, Nat.sub_self, List.getD_cons_zero]

/-- A `u32` is in a range that starts at one unless it is zero or above the bound. -/
theorem pos_and_le_iff {n max : UInt32} : 0 < n ∧ n ≤ max ↔ ¬ (n = 0 ∨ n > max) := by
  rw [not_or, gt_iff_lt, UInt32.not_lt, UInt32.pos_iff_ne_zero]

/-- What the parser of DEPLOY bodies does with a body of the right length. -/
theorem parseDeploy_append (m : DeployMessage) :
    parseDeploy (m.codeHash.bytes ++ (be32 m.codeLength ++ m.chunkCount :: be16 m.outputIndex)) =
      if m.codeLength = 0 ∨ m.codeLength > maxCodeBytes then
        .error (.codeLengthExceedsMax m.codeLength maxCodeBytes)
      else if m.chunkCount = 0 then .error .truncated
      else .ok m := by
  obtain ⟨codeHash, codeLength, chunkCount, outputIndex⟩ := m
  dsimp only
  have hlen : (codeHash.bytes ++ (be32 codeLength ++ chunkCount :: be16 outputIndex)).length =
      39 := by simp
  have hlength := take_drop_append codeHash.length_eq (length_be32 codeLength)
    (chunkCount :: be16 outputIndex)
  have hbefore : (codeHash.bytes ++ be32 codeLength).length = 36 := by simp
  have hcount := getD_append_cons hbefore chunkCount (be16 outputIndex)
  have hbefore' : (codeHash.bytes ++ (be32 codeLength ++ [chunkCount])).length = 37 := by simp
  have hindex := take_drop_append hbefore' (length_be16 outputIndex) []
  rw [List.append_assoc] at hcount
  rw [List.append_nil, List.append_assoc, List.append_assoc, List.singleton_append] at hindex
  rw [parseDeploy, hlen, if_neg (by omega), if_neg (by omega), bytes32At_zero]
  simp only [bind, Except.bind, hlength, hcount, hindex, ofBe32_be32, ofBe16_be16]
  rfl

/-- A body parses to the DEPLOY that it encodes, and to no other. -/
theorem parseDeploy_eq_ok_iff {body : Bytes} {m : DeployMessage} :
    parseDeploy body = .ok m ↔ m.InRange ∧
      m.codeHash.bytes ++ (be32 m.codeLength ++ m.chunkCount :: be16 m.outputIndex) = body := by
  constructor
  · intro h
    have hlen : body.length = 39 := by
      rw [parseDeploy] at h
      split_ifs at h
      omega
    obtain ⟨codeHash, rest, rfl, hrest⟩ := Bytes32.exists_append body (by omega)
    obtain ⟨codeLength, rest, rfl, hrest⟩ := exists_be32_append rest (by omega)
    obtain ⟨chunkCount, rest, rfl⟩ := List.exists_cons_of_length_pos (l := rest) (by omega)
    rw [List.length_cons] at hrest
    obtain ⟨outputIndex, rest, rfl, hrest⟩ := exists_be16_append rest (by omega)
    obtain rfl : rest = [] := by
      simp only [List.length_append, Bytes32.length_eq, length_be32, List.length_cons,
        length_be16] at hlen
      exact List.length_eq_zero_iff.mp (by omega)
    rw [List.append_nil] at h ⊢
    rw [parseDeploy_append ⟨codeHash, codeLength, chunkCount, outputIndex⟩] at h
    split_ifs at h with hrange hcount
    obtain rfl := Except.ok.inj h
    obtain ⟨hpos, hmax⟩ := pos_and_le_iff.mpr hrange
    exact ⟨⟨hpos, hmax, UInt8.pos_iff_ne_zero.mpr hcount⟩, rfl⟩
  · rintro ⟨⟨hpos, hmax, hcount⟩, rfl⟩
    rw [parseDeploy_append, if_neg (pos_and_le_iff.mp ⟨hpos, hmax⟩),
      if_neg (UInt8.pos_iff_ne_zero.mp hcount)]

/-- What the parser of CALL bodies does with a body that has all fixed fields. -/
theorem parseCall_append (contractId : ContractId) (opcode inputLength : UInt16) (input : Bytes) :
    parseCall (contractId.bytes ++ (be16 opcode ++ (be16 inputLength ++ input))) =
      if inputLength.toUInt32 > maxCallInlineBytes then
        .error (.inputLengthExceedsMax inputLength.toUInt32 maxCallInlineBytes)
      else if input.length ≠ inputLength.toNat then
        .error (.inputLengthMismatch inputLength input.length)
      else .ok ⟨contractId, opcode, input⟩ := by
  have hlen : ¬ (contractId.bytes ++ (be16 opcode ++ (be16 inputLength ++ input))).length < 36 := by
    simp
    omega
  have hopcode := take_drop_append contractId.length_eq (length_be16 opcode)
    (be16 inputLength ++ input)
  have hfields : (contractId.bytes ++ be16 opcode).length = 34 := by simp
  have hlength := take_drop_append hfields (length_be16 inputLength) input
  have hinput : (contractId.bytes ++ (be16 opcode ++ (be16 inputLength ++ input))).drop 36 =
      input := by
    rw [← List.append_assoc, ← List.append_assoc]
    exact List.drop_left' (by simp)
  rw [List.append_assoc] at hlength
  rw [parseCall, if_neg hlen, bytes32At_zero]
  simp only [bind, Except.bind, hopcode, hlength, hinput, ofBe16_be16]
  rfl

/-- A body parses to the CALL that it encodes, and to no other. -/
theorem parseCall_eq_ok_iff {body : Bytes} {m : CallMessage} :
    parseCall body = .ok m ↔ m.InRange ∧ m.contractId.bytes ++ (be16 m.opcode ++
      (be16 (UInt16.ofNat m.input.length) ++ m.input)) = body := by
  constructor
  · intro h
    have hlen : 36 ≤ body.length := by
      rw [parseCall] at h
      split_ifs at h
      omega
    obtain ⟨contractId, rest, rfl, hrest⟩ := Bytes32.exists_append body (by omega)
    obtain ⟨opcode, rest, rfl, hrest'⟩ := exists_be16_append rest (by omega)
    obtain ⟨inputLength, input, rfl, -⟩ := exists_be16_append rest (by omega)
    rw [parseCall_append] at h
    split_ifs at h with hmax hlength
    obtain rfl := Except.ok.inj h
    rw [not_not] at hlength
    have hle := UInt32.le_iff_toNat_le.mp (UInt32.not_lt.mp hmax)
    rw [UInt16.toNat_toUInt32, ← hlength] at hle
    refine ⟨hle, ?_⟩
    dsimp only
    rw [hlength, UInt16.ofNat_toNat]
  · rintro ⟨hrange, rfl⟩
    have hle : m.input.length ≤ 38 := hrange
    have hcast : (UInt16.ofNat m.input.length).toNat = m.input.length := toNat_ofNat16 (by omega)
    rw [parseCall_append, if_neg, if_neg (not_not.mpr hcast.symm)]
    rw [gt_iff_lt, UInt32.not_lt, UInt32.le_iff_toNat_le, UInt16.toNat_toUInt32, hcast]
    exact hrange

/-- What the parser of CALL_CARRIER bodies does with a body of the right length. -/
theorem parseCallCarrier_append (m : CallCarrierMessage) :
    parseCallCarrier (m.contractId.bytes ++ (be16 m.opcode ++ (m.inputHash.bytes ++
        (be32 m.inputLength ++ [m.carrierCount])))) =
      if m.inputLength = 0 ∨ m.inputLength > maxCallInputBytes then
        .error (.carrierInputLengthExceedsMax m.inputLength maxCallInputBytes)
      else if m.carrierCount = 0 ∨ m.carrierCount > maxCallCarrierChunks then
        .error (.carrierCountExceedsMax m.carrierCount maxCallCarrierChunks)
      else .ok m := by
  obtain ⟨contractId, opcode, inputHash, inputLength, carrierCount⟩ := m
  dsimp only
  have hlen : (contractId.bytes ++ (be16 opcode ++ (inputHash.bytes ++
      (be32 inputLength ++ [carrierCount])))).length = 71 := by simp
  have hopcode := take_drop_append contractId.length_eq (length_be16 opcode)
    (inputHash.bytes ++ (be32 inputLength ++ [carrierCount]))
  have hbefore : (contractId.bytes ++ be16 opcode).length = 34 := by simp
  have hhash := bytes32At_append hbefore inputHash (be32 inputLength ++ [carrierCount])
  have hbefore' : (contractId.bytes ++ (be16 opcode ++ inputHash.bytes)).length = 66 := by simp
  have hlength := take_drop_append hbefore' (length_be32 inputLength) [carrierCount]
  have hfields : (contractId.bytes ++ (be16 opcode ++ (inputHash.bytes ++
      be32 inputLength))).length = 70 := by simp
  have hcount := getD_append_cons hfields carrierCount []
  rw [List.append_assoc] at hhash
  rw [List.append_assoc, List.append_assoc] at hlength
  rw [List.append_assoc, List.append_assoc, List.append_assoc] at hcount
  rw [parseCallCarrier, hlen, if_neg (by omega), if_neg (by omega), bytes32At_zero]
  simp only [bind, Except.bind, hopcode, hhash, hlength, hcount, ofBe32_be32, ofBe16_be16]
  rfl

/-- A body parses to the CALL_CARRIER that it encodes, and to no other. -/
theorem parseCallCarrier_eq_ok_iff {body : Bytes} {m : CallCarrierMessage} :
    parseCallCarrier body = .ok m ↔ m.InRange ∧ m.contractId.bytes ++ (be16 m.opcode ++
      (m.inputHash.bytes ++ (be32 m.inputLength ++ [m.carrierCount]))) = body := by
  constructor
  · intro h
    have hlen : body.length = 71 := by
      rw [parseCallCarrier] at h
      split_ifs at h
      omega
    obtain ⟨contractId, rest, rfl, hrest⟩ := Bytes32.exists_append body (by omega)
    obtain ⟨opcode, rest, rfl, hrest'⟩ := exists_be16_append rest (by omega)
    obtain ⟨inputHash, rest, rfl, hrest''⟩ := Bytes32.exists_append rest (by omega)
    obtain ⟨inputLength, rest, rfl, hcount⟩ := exists_be32_append rest (by omega)
    obtain ⟨carrierCount, rfl⟩ := List.length_eq_one_iff.mp (show rest.length = 1 by omega)
    rw [parseCallCarrier_append ⟨contractId, opcode, inputHash, inputLength, carrierCount⟩] at h
    split_ifs at h with hlength hcarriers
    obtain rfl := Except.ok.inj h
    obtain ⟨hpos, hmax⟩ := pos_and_le_iff.mpr hlength
    rw [not_or, gt_iff_lt, UInt8.not_lt] at hcarriers
    exact ⟨⟨hpos, hmax, UInt8.pos_iff_ne_zero.mpr hcarriers.1, hcarriers.2⟩, rfl⟩
  · rintro ⟨⟨hpos, hmax, hcount, hcountMax⟩, rfl⟩
    rw [parseCallCarrier_append, if_neg (pos_and_le_iff.mp ⟨hpos, hmax⟩), if_neg]
    rw [not_or, gt_iff_lt, UInt8.not_lt]
    exact ⟨UInt8.pos_iff_ne_zero.mp hcount, hcountMax⟩

/-! ### Payloads -/

/-- Behind a header the type byte chooses the parser. -/
theorem parseOpReturn_header (msgType : UInt8) (body : Bytes) :
    parseOpReturn (header msgType ++ body) =
      if msgType = msgDeploy then (parseDeploy body).map fun m => some (.deploy m)
      else if msgType = msgCall then (parseCall body).map fun m => some (.call m)
      else if msgType = msgCallCarrier then
        (parseCallCarrier body).map fun m => some (.callCarrier m)
      else .error (.unknownMessageType msgType) := by
  have hlen : ¬ (header msgType ++ body).length < 6 := by
    simp [header, protocolMagic]
  rw [parseOpReturn, if_neg (by simp [header]), if_neg hlen]
  rfl

/-- A payload that parses to a message has a header. -/
theorem exists_header_of_parseOpReturn {payload : Bytes} {m : Message}
    (h : parseOpReturn payload = .ok (some m)) :
    ∃ msgType body, payload = header msgType ++ body := by
  rw [parseOpReturn] at h
  split at h
  · cases h
  split at h
  · split at h <;> cases h
  rename_i hlen
  split at h
  · cases h
  rename_i hmagic
  dsimp only at h
  split at h
  · cases h
  rename_i hversion
  rw [not_not] at hmagic hversion
  obtain ⟨version, rest, hrest⟩ := List.exists_cons_of_length_pos (l := payload.drop 4)
    (by rw [List.length_drop]; omega)
  have hlength := congrArg List.length hrest
  rw [List.length_drop, List.length_cons] at hlength
  obtain ⟨msgType, body, rfl⟩ := List.exists_cons_of_length_pos (l := rest) (by omega)
  have hpayload : payload = protocolMagic ++ version :: msgType :: body := by
    rw [← hmagic, ← hrest, List.take_append_drop]
  rw [hpayload, getD_append_cons (show protocolMagic.length = 4 from rfl)] at hversion
  refine ⟨msgType, body, ?_⟩
  rw [hpayload, hversion, header, List.append_assoc]
  rfl

/-- A payload parses to a message exactly when the fields of the message are in the ranges of the
parser and the payload is the encoding of the message. -/
theorem parseOpReturn_eq_some_iff (payload : Bytes) (m : Message) :
    parseOpReturn payload = .ok (some m) ↔ m.InRange ∧ m.encode = payload := by
  constructor
  · intro h
    obtain ⟨msgType, body, rfl⟩ := exists_header_of_parseOpReturn h
    rw [parseOpReturn_header] at h
    split_ifs at h with hdeploy hcall hcarrier
    · obtain ⟨d, hd, hm⟩ := map_eq_ok h
      obtain rfl := Option.some.inj hm
      obtain ⟨hrange, rfl⟩ := parseDeploy_eq_ok_iff.mp hd
      exact ⟨hrange, by rw [hdeploy]; rfl⟩
    · obtain ⟨c, hc, hm⟩ := map_eq_ok h
      obtain rfl := Option.some.inj hm
      obtain ⟨hrange, rfl⟩ := parseCall_eq_ok_iff.mp hc
      exact ⟨hrange, by rw [hcall]; rfl⟩
    · obtain ⟨c, hc, hm⟩ := map_eq_ok h
      obtain rfl := Option.some.inj hm
      obtain ⟨hrange, rfl⟩ := parseCallCarrier_eq_ok_iff.mp hc
      exact ⟨hrange, by rw [hcarrier]; rfl⟩
  · rintro ⟨hrange, rfl⟩
    cases m with
    | deploy d =>
        have hparse := parseDeploy_eq_ok_iff.mpr ⟨hrange, rfl⟩
        rw [Message.encode, encodeDeploy, parseOpReturn_header, if_pos rfl, hparse]
        rfl
    | call c =>
        have hparse := parseCall_eq_ok_iff.mpr ⟨hrange, rfl⟩
        rw [Message.encode, encodeCall, parseOpReturn_header, if_neg (by decide), if_pos rfl,
          hparse]
        rfl
    | callCarrier c =>
        have hparse := parseCallCarrier_eq_ok_iff.mpr ⟨hrange, rfl⟩
        rw [Message.encode, encodeCallCarrier, parseOpReturn_header, if_neg (by decide),
          if_neg (by decide), if_pos rfl, hparse]
        rfl

/-- **Encoding and parsing are inverse to each other**: a message in range is what its encoding
parses to, and a payload that parses to a message is its encoding. -/
theorem wire_codec_bijective (m : Message) (payload : Bytes) :
    (m.InRange → parseOpReturn m.encode = .ok (some m)) ∧
      (parseOpReturn payload = .ok (some m) → m.InRange ∧ m.encode = payload) :=
  ⟨fun h => (parseOpReturn_eq_some_iff m.encode m).mpr ⟨h, rfl⟩,
    (parseOpReturn_eq_some_iff payload m).mp⟩

/-! ### The specified grammar -/

/-- The well-formed messages of protocol v0: sections 2, 5 and 6 of its specification, but for the
conditions on the context of a message. -/
inductive WellFormed : Bytes → Prop
  | deploy (codeHash : Bytes32) (codeLength : UInt32) (chunkCount : UInt8) (outputIndex : UInt16)
      (hlength : 1 ≤ codeLength.toNat ∧ codeLength.toNat ≤ 262144)
      (hcount : 1 ≤ chunkCount.toNat ∧ chunkCount.toNat ≤ 188) :
      WellFormed (protocolMagic ++ [0x00, 0x01] ++ codeHash.bytes ++ be32 codeLength ++
        [chunkCount] ++ be16 outputIndex)
  | call (contractId : Bytes32) (opcode inputLength : UInt16) (input : Bytes)
      (hlength : inputLength.toNat = input.length) (hmax : input.length ≤ 38) :
      WellFormed (protocolMagic ++ [0x00, 0x02] ++ contractId.bytes ++ be16 opcode ++
        be16 inputLength ++ input)
  | callCarrier (contractId : Bytes32) (opcode : UInt16) (inputHash : Bytes32)
      (inputLength : UInt32) (carrierCount : UInt8)
      (hlength : 39 ≤ inputLength.toNat ∧ inputLength.toNat ≤ 65536)
      (hcount : 1 ≤ carrierCount.toNat ∧ carrierCount.toNat ≤ 47) :
      WellFormed (protocolMagic ++ [0x00, 0x03] ++ contractId.bytes ++ be16 opcode ++
        inputHash.bytes ++ be32 inputLength ++ [carrierCount])

/-- What the specification rejects in a message that the parser accepts: more chunks than the
largest contract needs, or a carrier for an input that fits the payload. -/
def Message.OutOfSpec : Message → Prop
  | deploy m => m.chunkCount > maxChunks
  | call _ => False
  | callCarrier m => m.inputLength.toNat ≤ maxCallInlineBytes.toNat

/-- The specified grammar, as a condition on the encoded message. -/
theorem wellFormed_iff {payload : Bytes} :
    WellFormed payload ↔ ∃ m : Message, m.InRange ∧ ¬ m.OutOfSpec ∧ m.encode = payload := by
  constructor
  · rintro (⟨codeHash, codeLength, chunkCount, outputIndex, ⟨hpos, hmax⟩, hcount, hcountMax⟩ |
      ⟨contractId, opcode, inputLength, input, hlength, hmax⟩ |
      ⟨contractId, opcode, inputHash, inputLength, carrierCount, ⟨hlength, hmax⟩, hcount,
        hcountMax⟩)
    · refine ⟨.deploy ⟨codeHash, codeLength, chunkCount, outputIndex⟩, ⟨UInt32.lt_iff_toNat_lt.mpr
        hpos, UInt32.le_iff_toNat_le.mpr hmax, UInt8.lt_iff_toNat_lt.mpr hcount⟩,
        UInt8.not_lt.mpr (UInt8.le_iff_toNat_le.mpr hcountMax), ?_⟩
      simp [Message.encode, encodeDeploy, header, protocolV0, msgDeploy]
    · refine ⟨.call ⟨contractId, opcode, input⟩, hmax, id, ?_⟩
      simp [Message.encode, encodeCall, header, protocolV0, msgCall, ← hlength]
    · have hpos : 0 < inputLength.toNat := by omega
      refine ⟨.callCarrier ⟨contractId, opcode, inputHash, inputLength, carrierCount⟩,
        ⟨UInt32.lt_iff_toNat_lt.mpr hpos, UInt32.le_iff_toNat_le.mpr hmax,
          UInt8.lt_iff_toNat_lt.mpr hcount, UInt8.le_iff_toNat_le.mpr hcountMax⟩,
        not_le.mpr hlength, ?_⟩
      simp [Message.encode, encodeCallCarrier, header, protocolV0, msgCallCarrier]
  · rintro ⟨m, hrange, hspec, rfl⟩
    cases m with
    | deploy m =>
        obtain ⟨hpos, hmax, hcount⟩ := hrange
        have hwell := WellFormed.deploy m.codeHash m.codeLength m.chunkCount m.outputIndex
          ⟨UInt32.lt_iff_toNat_lt.mp hpos, UInt32.le_iff_toNat_le.mp hmax⟩
          ⟨UInt8.lt_iff_toNat_lt.mp hcount, UInt8.le_iff_toNat_le.mp (UInt8.not_lt.mp hspec)⟩
        simpa [Message.encode, encodeDeploy, header, protocolV0, msgDeploy] using hwell
    | call m =>
        have hle : m.input.length ≤ 38 := hrange
        have hwell := WellFormed.call m.contractId m.opcode (UInt16.ofNat m.input.length) m.input
          (toNat_ofNat16 (by omega)) hle
        simpa [Message.encode, encodeCall, header, protocolV0, msgCall] using hwell
    | callCarrier m =>
        obtain ⟨-, hmax, hcount, hcountMax⟩ := hrange
        have hwell := WellFormed.callCarrier m.contractId m.opcode m.inputHash m.inputLength
          m.carrierCount ⟨not_le.mp hspec, UInt32.le_iff_toNat_le.mp hmax⟩
          ⟨UInt8.lt_iff_toNat_lt.mp hcount, UInt8.le_iff_toNat_le.mp hcountMax⟩
        simpa [Message.encode, encodeCallCarrier, header, protocolV0, msgCallCarrier] using hwell

/-- Different messages have different encodings. -/
theorem Message.encode_injOn {m m' : Message} (hm : m.InRange) (hm' : m'.InRange)
    (h : m.encode = m'.encode) : m = m' := by
  have hparse := (parseOpReturn_eq_some_iff m'.encode m).mpr ⟨hm, h⟩
  have hparse' := (parseOpReturn_eq_some_iff m'.encode m').mpr ⟨hm', rfl⟩
  exact Option.some.inj (Except.ok.inj (hparse.symm.trans hparse'))

/-- **On which payloads the parser agrees with the specification**: all but the encodings of a
DEPLOY with more than 188 chunks or a CALL_CARRIER with at most 38 bytes of input, which it
accepts. -/
theorem parseOpReturn_accepts_iff (payload : Bytes) :
    ((∃ m, parseOpReturn payload = .ok (some m)) ↔ WellFormed payload) ↔
      ¬ ∃ m : Message, m.InRange ∧ m.OutOfSpec ∧ m.encode = payload := by
  have haccepts : (∃ m, parseOpReturn payload = .ok (some m)) ↔
      ∃ m : Message, m.InRange ∧ m.encode = payload :=
    exists_congr fun m => parseOpReturn_eq_some_iff payload m
  rw [haccepts, wellFormed_iff]
  constructor
  · rintro hagree ⟨m, hrange, hout, hencode⟩
    obtain ⟨m', hrange', hspec, hencode'⟩ := hagree.mp ⟨m, hrange, hencode⟩
    obtain rfl := Message.encode_injOn hrange hrange' (hencode.trans hencode'.symm)
    exact hspec hout
  · intro hnot
    constructor
    · rintro ⟨m, hrange, hencode⟩
      exact ⟨m, hrange, fun hout => hnot ⟨m, hrange, hout, hencode⟩, hencode⟩
    · rintro ⟨m, hrange, -, hencode⟩
      exact ⟨m, hrange, hencode⟩

/-- **A DEPLOY with 189 chunks, and a CALL_CARRIER with one byte of input**: the parser accepts
both, the specification neither. -/
theorem accepts_outside_grammar :
    (¬ ((∃ m, parseOpReturn (encodeDeploy ⟨Bytes32.replicate 0xab, 1, 189, 0⟩) = .ok (some m)) ↔
      WellFormed (encodeDeploy ⟨Bytes32.replicate 0xab, 1, 189, 0⟩))) ∧
    ¬ ((∃ m, parseOpReturn (encodeCallCarrier ⟨Bytes32.replicate 1, 0, Bytes32.replicate 2, 1,
        1⟩) = .ok (some m)) ↔
      WellFormed (encodeCallCarrier ⟨Bytes32.replicate 1, 0, Bytes32.replicate 2, 1, 1⟩)) := by
  have hrejects : ∀ m : Message, m.InRange → m.OutOfSpec → ¬ WellFormed m.encode := by
    intro m hrange hout hwell
    obtain ⟨m', hrange', hspec, hencode⟩ := wellFormed_iff.mp hwell
    obtain rfl := Message.encode_injOn hrange' hrange hencode
    exact hspec hout
  constructor
  · intro hagree
    exact hrejects (.deploy ⟨Bytes32.replicate 0xab, 1, 189, 0⟩) (by decide)
      (show (189 : UInt8) > maxChunks by decide) (hagree.mp ⟨_, rfl⟩)
  · intro hagree
    exact hrejects (.callCarrier ⟨Bytes32.replicate 1, 0, Bytes32.replicate 2, 1, 1⟩) (by decide)
      (show (1 : UInt32).toNat ≤ maxCallInlineBytes.toNat by decide) (hagree.mp ⟨_, rfl⟩)

end Zalkanes
