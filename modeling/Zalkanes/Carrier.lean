import Zalkanes.Types

/-!
# Carrier Data

Reading the pushes of scripts, the chunks they carry, and the reconstruction of the carried bytes
from their chunks. Scripts are only read, never executed.
-/

namespace Zalkanes

open Lib

/-- A single chunk extracted from a carrier scriptSig. -/
structure Chunk where
  index : UInt8
  data : Bytes
  deriving DecidableEq

/-- Why chunks are not put together. -/
inductive CarrierError where
  | invalidLength (length : UInt32)
  | wrongChunkCount (expected got : UInt8)
  | chunkOutOfRange (index count : UInt8)
  | duplicateChunk (index : UInt8)
  | missingChunk (index : UInt8)
  | lengthMismatch (expected got : UInt32)
  | hashMismatch (expected actual : CodeHash)
  deriving DecidableEq

/-! ### Scripts -/

/-- A little-endian number. -/
def leValue (bs : Bytes) : ℕ := bs.foldr (fun b n => b.toNat + 256 * n) 0

/-- The push of `n` bytes after a header of `start` bytes: the bytes, and how many are consumed. -/
def pushAt (script : Bytes) (start n : ℕ) : Option (Bytes × ℕ) :=
  if script.length < start + n then none
  else some ((script.drop start).take n, start + n)

/-- Parse a single push opcode at the start of `script`. -/
def parsePush (script : Bytes) : Option (Bytes × ℕ) :=
  match script with
  | [] => none
  | op :: rest =>
      if op = 0x00 then some ([], 1)
      else if op ≤ 0x4b then pushAt script 1 op.toNat
      else if op = 0x4c then do
        let n ← take? 1 rest
        pushAt script 2 (leValue n.1)
      else if op = 0x4d then do
        let n ← take? 2 rest
        pushAt script 3 (leValue n.1)
      else if op = 0x4e then do
        let n ← take? 4 rest
        pushAt script 5 (leValue n.1)
      else none

/-- A push consumes at least its opcode. -/
theorem parsePush_pos {script payload : Bytes} {consumed : ℕ}
    (h : parsePush script = some (payload, consumed)) : 0 < consumed := by
  have hat : ∀ {start n : ℕ}, 0 < start → pushAt script start n = some (payload, consumed) →
      0 < consumed := by
    intro start n hstart hpush
    unfold pushAt at hpush
    split at hpush
    · cases hpush
    · obtain ⟨-, rfl⟩ := Prod.mk.inj (Option.some.inj hpush)
      omega
  unfold parsePush at h
  split at h
  · cases h
  · split at h
    · obtain ⟨-, rfl⟩ := Prod.mk.inj (Option.some.inj h)
      omega
    split at h
    · exact hat (by omega) h
    split at h
    · obtain ⟨n, -, hpush⟩ := Option.bind_eq_some_iff.mp h
      exact hat (by omega) hpush
    split at h
    · obtain ⟨n, -, hpush⟩ := Option.bind_eq_some_iff.mp h
      exact hat (by omega) hpush
    split at h
    · obtain ⟨n, -, hpush⟩ := Option.bind_eq_some_iff.mp h
      exact hat (by omega) hpush
    · cases h

/-- Extract the data payload of an OP_RETURN output. -/
def extractOpReturnData (script : Bytes) : Option Bytes :=
  match script with
  | [] => none
  | op :: rest =>
      if op ≠ 0x6a then none
      else if rest = [] then some []
      else
        match parsePush rest with
        | none => none
        | some (payload, consumed) => if consumed ≠ rest.length then none else some payload

set_option linter.unusedVariables false in
/-- Parse the pushes of a scriptSig in order, up to the first that does not parse. -/
def parseScriptPushes (script : Bytes) : List Bytes :=
  if hempty : script = [] then []
  else
    match hpush : parsePush script with
    | none => []
    | some (payload, consumed) => payload :: parseScriptPushes (script.drop consumed)
termination_by script.length
decreasing_by
  have := parsePush_pos hpush
  have := List.length_pos_iff.mpr hempty
  rw [List.length_drop]
  omega

/-- Extract a carrier chunk from a scriptSig: the index, the data parts, a signature and a redeem
script. -/
def chunkFromScriptSig (script : Bytes) : Option (UInt8 × Bytes) :=
  let pushes := parseScriptPushes script
  if pushes.length < 4 then none
  else
    match pushes with
    | [index] :: parts => some (index, (parts.take (pushes.length - 3)).flatten)
    | _ => none

/-! ### Reconstruction -/

/-- Put the chunks into their slots, in the order of the inputs. -/
def placeChunks (chunkCount : UInt8) :
    List Chunk → List (Option Bytes) → Except CarrierError (List (Option Bytes))
  | [], indexed => .ok indexed
  | chunk :: chunks, indexed =>
      if chunk.index ≥ chunkCount then .error (.chunkOutOfRange chunk.index chunkCount)
      else if (indexed.getD chunk.index.toNat none).isSome then
        .error (.duplicateChunk chunk.index)
      else placeChunks chunkCount chunks (indexed.set chunk.index.toNat (some chunk.data))

/-- Concatenate the slots, from slot `i` on; all of them must be filled. -/
def concatSlots : ℕ → List (Option Bytes) → Except CarrierError Bytes
  | _, [] => .ok []
  | i, some data :: slots => (concatSlots (i + 1) slots).map fun rest => data ++ rest
  | i, none :: _ => .error (.missingChunk (UInt8.ofNat i))

/-- Reconstruct the carried bytes from their chunks. -/
def reconstruct (H : Hashing) (chunks : List Chunk) (chunkCount : UInt8)
    (expectedLength : UInt32) (expectedHash : CodeHash) : Except CarrierError Bytes :=
  if expectedLength = 0 ∨ expectedLength > maxCodeBytes then
    .error (.invalidLength expectedLength)
  else if chunks.length ≠ chunkCount.toNat then
    .error (.wrongChunkCount chunkCount (UInt8.ofNat chunks.length))
  else do
    let indexed ← placeChunks chunkCount chunks (List.replicate chunkCount.toNat none)
    let wasm ← concatSlots 0 indexed
    if wasm.length ≠ expectedLength.toNat then
      .error (.lengthMismatch expectedLength (UInt32.ofNat wasm.length))
    else
      let actualHash := CodeHash.of H wasm
      if actualHash ≠ expectedHash then .error (.hashMismatch expectedHash actualHash)
      else return wasm

end Zalkanes
