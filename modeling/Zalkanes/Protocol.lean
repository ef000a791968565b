import Zalkanes.Types

/-!
# Protocol Messages

The parser of Zalkanes v0 messages in OP_RETURN payloads. A payload without the magic bytes is
skipped (`.ok none`); one with them that is malformed is an error.
-/

namespace Zalkanes

open Lib

/-- A DEPLOY message parsed from an OP_RETURN payload. -/
structure DeployMessage where
  /-- SHA-256 of the WASM bytes. -/
  codeHash : CodeHash
  /-- Declared total byte length of the WASM module. -/
  codeLength : UInt32
  /-- Number of carrier inputs carrying WASM chunks. -/
  chunkCount : UInt8
  /-- Output index of this OP_RETURN within the transaction. -/
  outputIndex : UInt16
  deriving DecidableEq

/-- A CALL message (inline input). -/
structure CallMessage where
  contractId : ContractId
  opcode : UInt16
  input : Bytes
  deriving DecidableEq

/-- A CALL_CARRIER message: the calldata is in carrier inputs, committed to by hash and length. -/
structure CallCarrierMessage where
  contractId : ContractId
  opcode : UInt16
  inputHash : Bytes32
  inputLength : UInt32
  carrierCount : UInt8
  deriving DecidableEq

/-- A parsed Zalkanes protocol message. -/
inductive Message where
  | deploy (m : DeployMessage)
  | call (m : CallMessage)
  | callCarrier (m : CallCarrierMessage)
  deriving DecidableEq

/-- Why a payload is no message. -/
inductive ParseError where
  | unknownVersion (version : UInt8)
  | unknownMessageType (ty : UInt8)
  | truncated
  | trailingBytes
  | codeLengthExceedsMax (length max : UInt32)
  | inputLengthExceedsMax (length max : UInt32)
  | carrierInputLengthExceedsMax (length max : UInt32)
  | inputLengthMismatch (declared : UInt16) (actual : ℕ)
  | carrierCountExceedsMax (count max : UInt8)
  deriving DecidableEq

/-- The 32 bytes from `start` on; the callers have checked that they are there. -/
def bytes32At (body : Bytes) (start : ℕ) : Except ParseError Bytes32 :=
  match Bytes32.ofBytes? ((body.drop start).take 32) with
  | some bs => .ok bs
  | none => .error .truncated

/-- The body of a DEPLOY. -/
def parseDeploy (body : Bytes) : Except ParseError DeployMessage :=
  -- code_hash (32) + code_length (4) + chunk_count (1) + output_index (2)
  if body.length < 39 then .error .truncated
  else if body.length > 39 then .error .trailingBytes
  else do
    let codeHash ← bytes32At body 0
    let codeLength := ofBe32 ((body.drop 32).take 4)
    if codeLength = 0 ∨ codeLength > maxCodeBytes then
      .error (.codeLengthExceedsMax codeLength maxCodeBytes)
    else
      let chunkCount := body.getD 36 0
      if chunkCount = 0 then .error .truncated
      else
        let outputIndex := ofBe16 ((body.drop 37).take 2)
        return ⟨codeHash, codeLength, chunkCount, outputIndex⟩

/-- The body of a CALL. -/
def parseCall (body : Bytes) : Except ParseError CallMessage :=
  -- contract_id (32) + opcode (2) + input_length (2)
  if body.length < 36 then .error .truncated
  else do
    let contractId ← bytes32At body 0
    let opcode := ofBe16 ((body.drop 32).take 2)
    let inputLength := ofBe16 ((body.drop 34).take 2)
    if inputLength.toUInt32 > maxCallInlineBytes then
      .error (.inputLengthExceedsMax inputLength.toUInt32 maxCallInlineBytes)
    else
      let inputData := body.drop 36
      if inputData.length ≠ inputLength.toNat then
        .error (.inputLengthMismatch inputLength inputData.length)
      else return ⟨contractId, opcode, inputData⟩

/-- The body of a CALL_CARRIER. -/
def parseCallCarrier (body : Bytes) : Except ParseError CallCarrierMessage :=
  -- contract_id (32) + opcode (2) + input_hash (32) + input_length (4) + carrier_count (1)
  if body.length < 71 then .error .truncated
  else if body.length > 71 then .error .trailingBytes
  else do
    let contractId ← bytes32At body 0
    let opcode := ofBe16 ((body.drop 32).take 2)
    let inputHash ← bytes32At body 34
    let inputLength := ofBe32 ((body.drop 66).take 4)
    if inputLength = 0 ∨ inputLength > maxCallInputBytes then
      .error (.carrierInputLengthExceedsMax inputLength maxCallInputBytes)
    else
      let carrierCount := body.getD 70 0
      if carrierCount = 0 ∨ carrierCount > maxCallCarrierChunks then
        .error (.carrierCountExceedsMax carrierCount maxCallCarrierChunks)
      else return ⟨contractId, opcode, inputHash, inputLength, carrierCount⟩

/-- Parse a Zalkanes protocol message from an OP_RETURN payload. -/
def parseOpReturn (payload : Bytes) : Except ParseError (Option Message) :=
  if payload = [] then .ok none
  else if payload.length < 6 then
    -- a prefix of the magic, or the magic and a part of the header, is a truncated message
    if protocolMagic.take (min payload.length protocolMagic.length) <+: payload then
      .error .truncated
    else .ok none
  else if payload.take 4 ≠ protocolMagic then .ok none
  else
    let version := payload.getD 4 0
    if version ≠ protocolV0 then .error (.unknownVersion version)
    else
      let msgType := payload.getD 5 0
      let body := payload.drop 6
      if msgType = msgDeploy then (parseDeploy body).map fun m => some (.deploy m)
      else if msgType = msgCall then (parseCall body).map fun m => some (.call m)
      else if msgType = msgCallCarrier then
        (parseCallCarrier body).map fun m => some (.callCarrier m)
      else .error (.unknownMessageType msgType)

end Zalkanes
