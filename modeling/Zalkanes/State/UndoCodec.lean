import Zalkanes.State.Journal

/-!
# The Undo Journal Codec

The byte format in which `RocksState` keeps its journals. Lengths are written with the casts of
the source, so a key of `2 ^ 16` bytes or more, a value or code of `2 ^ 32` bytes or more, and a
journal of `2 ^ 32` entries or more are written with a truncated length.

## Main results

* `undoJournal_round_trip`: a journal whose lengths fit reads back, and not as a legacy one.
* `decodeUndo_encodeUndo_of_count`: what is read back when only the entry count is truncated.
-/

namespace Zalkanes

open Lib

/-! ### Writing -/

/-- The first four bytes of a journal in the current format; a legacy journal starts with its
entry count. -/
def undoV2Marker : Bytes := [0xFF, 0xFF, 0xFF, 0xFE]

/-- The bytes of one undo operation. -/
def encodeOp : UndoOp → Bytes
  | .set contract key prev =>
      0x01 :: (contract.bytes ++ (be16 (UInt16.ofNat key.length) ++ (key ++
        match prev with
        | some p => 0x01 :: (be32 (UInt32.ofNat p.length) ++ p)
        | none => [0x00])))
  | .delete contract key prev =>
      0x02 :: (contract.bytes ++ (be16 (UInt16.ofNat key.length) ++ (key ++
        (be32 (UInt32.ofNat prev.length) ++ prev))))
  | .deploy contract prev =>
      0x03 :: (contract.bytes ++
        match prev with
        | some (codeHash, wasm) =>
            0x01 :: (codeHash.bytes ++ (be32 (UInt32.ofNat wasm.length) ++ wasm))
        | none => [0x00])

/-- A marker, a count and the operations. -/
def encodeUndo (ops : List UndoOp) : Bytes :=
  undoV2Marker ++ (be32 (UInt32.ofNat ops.length) ++ ops.flatMap encodeOp)

/-! ### Reading -/

/-- Take one byte off the front. -/
def readByte : Bytes → Option (UInt8 × Bytes)
  | [] => none
  | b :: bytes => some (b, bytes)

/-- Take 32 bytes off the front. -/
def readBytes32 (bytes : Bytes) : Option (Bytes32 × Bytes) :=
  if h : bytes.length < 32 then none
  else some (⟨bytes.take 32, List.length_take_of_le (by omega)⟩, bytes.drop 32)

/-- Read one entry, or stop. A legacy journal stands for a deploy by a `set` of the empty key
without a previous value. -/
def decodeOp (legacy : Bool) (bytes : Bytes) : Option (UndoOp × Bytes) := do
  let (tag, bytes) ← readByte bytes
  let (cid, bytes) ← readBytes32 bytes
  if tag = 0x03 then
    let (hasPrev, bytes) ← readByte bytes
    if hasPrev = 0x01 then
      let (ch, bytes) ← readBytes32 bytes
      let (wlen, bytes) ← readU32 bytes
      let (wasm, bytes) ← take? wlen.toNat bytes
      return (.deploy cid (some (ch, wasm)), bytes)
    else
      return (.deploy cid none, bytes)
  else
    let (keyLen, bytes) ← readU16 bytes
    let (key, bytes) ← take? keyLen.toNat bytes
    if tag = 0x01 then
      let (hasPrev, bytes) ← readByte bytes
      if hasPrev = 0x01 then
        let (plen, bytes) ← readU32 bytes
        let (p, bytes) ← take? plen.toNat bytes
        return (.set cid key (some p), bytes)
      else if legacy && key.isEmpty then
        return (.deploy cid none, bytes)
      else
        return (.set cid key none, bytes)
    else if tag = 0x02 then
      let (plen, bytes) ← readU32 bytes
      let (prev, bytes) ← take? plen.toNat bytes
      return (.delete cid key prev, bytes)
    else
      none

/-- Read at most `n` entries; stop at the first that does not read. -/
def decodeOps (legacy : Bool) : ℕ → Bytes → List UndoOp
  | 0, _ => []
  | n + 1, bytes =>
      match decodeOp legacy bytes with
      | none => []
      | some (op, rest) => op :: decodeOps legacy n rest

/-- Read a journal of either format. -/
def decodeUndo (bytes : Bytes) : List UndoOp :=
  if bytes.length < 4 then []
  else
    let legacy := bytes.take 4 ≠ undoV2Marker
    let bytes := if legacy then bytes else bytes.drop 4
    if bytes.length < 4 then []
    else decodeOps legacy (ofBe32 (bytes.take 4)).toNat (bytes.drop 4)

/-! ### Lengths that fit -/

/-- The lengths of an entry survive the casts of the format. -/
def UndoOp.Fits : UndoOp → Prop
  | .set _ key prev => key.length < 2 ^ 16 ∧ ∀ p ∈ prev, p.length < 2 ^ 32
  | .delete _ key prev => key.length < 2 ^ 16 ∧ prev.length < 2 ^ 32
  | .deploy _ prev => ∀ p ∈ prev, p.2.length < 2 ^ 32

/-- A byte is read off the front. -/
@[simp] theorem readByte_cons (b : UInt8) (bytes : Bytes) :
    readByte (b :: bytes) = some (b, bytes) := rfl

/-- 32 bytes are read off the front. -/
@[simp] theorem readBytes32_append (a : Bytes32) (rest : Bytes) :
    readBytes32 (a.bytes ++ rest) = some (a, rest) := by
  have hlen : ¬ (a.bytes ++ rest).length < 32 := by simp
  rw [readBytes32, dif_neg hlen]
  simp only [Option.some.injEq, Prod.mk.injEq]
  refine ⟨Bytes32.ext ?_, ?_⟩
  · exact List.take_left' a.length_eq
  · exact List.drop_left' a.length_eq

/-- What is read is in front. -/
theorem readBytes32_eq_some {bytes : Bytes} {a : Bytes32} {rest : Bytes} :
    readBytes32 bytes = some (a, rest) ↔ bytes = a.bytes ++ rest := by
  constructor
  · intro h
    rw [readBytes32] at h
    split at h
    · simp at h
    · obtain ⟨rfl, rfl⟩ := Prod.mk.inj (Option.some.inj h)
      exact (List.take_append_drop 32 bytes).symm
  · rintro rfl
    exact readBytes32_append a rest

/-- A field behind its own length reads back when the length was not truncated. -/
theorem take?_mod {field : Bytes} {m : ℕ} (h : field.length < m) (rest : Bytes) :
    take? (field.length % m) (field ++ rest) = some (field, rest) :=
  take?_append (Nat.mod_eq_of_lt h).symm rest

/-- An entry reads back. -/
theorem decodeOp_encodeOp {op : UndoOp} (h : op.Fits) (rest : Bytes) :
    decodeOp false (encodeOp op ++ rest) = some (op, rest) := by
  cases op with
  | set contract key prev =>
      obtain ⟨hkey, hprev⟩ := h
      have hkey' := take?_mod (m := 65536) hkey
      cases prev with
      | none => simp [encodeOp, decodeOp, hkey']
      | some p =>
          have hp := take?_mod (m := 4294967296) (hprev p rfl)
          simp [encodeOp, decodeOp, hkey', hp]
  | delete contract key prev =>
      obtain ⟨hkey, hprev⟩ := h
      have hkey' := take?_mod (m := 65536) hkey
      have hprev' := take?_mod (m := 4294967296) hprev
      simp [encodeOp, decodeOp, hkey', hprev']
  | deploy contract prev =>
      cases prev with
      | none => simp [encodeOp, decodeOp]
      | some p =>
          obtain ⟨codeHash, wasm⟩ := p
          have hwasm := take?_mod (m := 4294967296) (h _ rfl)
          simp [encodeOp, decodeOp, hwasm]

/-- Reading `n` of the entries that were written. -/
theorem decodeOps_flatMap {ops : List UndoOp} (h : ∀ op ∈ ops, op.Fits) (n : ℕ) :
    decodeOps false n (ops.flatMap encodeOp) = ops.take n := by
  induction n generalizing ops with
  | zero => rfl
  | succ n ih =>
      cases ops with
      | nil => rfl
      | cons op ops =>
          rw [List.flatMap_cons, decodeOps, decodeOp_encodeOp (h op List.mem_cons_self)]
          simp only [List.take_succ_cons]
          rw [ih fun op' hop' => h op' (List.mem_cons_of_mem _ hop')]

/-- The test that tells a legacy journal from one in the current format. -/
def IsLegacy (bytes : Bytes) : Prop := bytes.take 4 ≠ undoV2Marker

instance (bytes : Bytes) : Decidable (IsLegacy bytes) := inferInstanceAs (Decidable (_ ≠ _))

/-- The marker is not that of the old format. -/
theorem not_isLegacy_append (bytes : Bytes) : ¬ IsLegacy (undoV2Marker ++ bytes) :=
  not_not.mpr (List.take_left' rfl)

/-- Behind the marker, the entries are those of the current format. -/
theorem decodeUndo_append (count : UInt32) (body : Bytes) :
    decodeUndo (undoV2Marker ++ (be32 count ++ body)) = decodeOps false count.toNat body := by
  have hmarker : (undoV2Marker ++ (be32 count ++ body)).take 4 = undoV2Marker :=
    List.take_left' rfl
  have hbody : (undoV2Marker ++ (be32 count ++ body)).drop 4 = be32 count ++ body :=
    List.drop_left' rfl
  have hlen : ¬ (undoV2Marker ++ (be32 count ++ body)).length < 4 := by simp [undoV2Marker]
  have hlen' : ¬ (be32 count ++ body).length < 4 := by simp
  rw [decodeUndo, if_neg hlen]
  simp only [hmarker, ne_eq, not_true_eq_false, if_false, hbody, if_neg hlen', decide_false]
  rw [List.take_left' (length_be32 _), List.drop_left' (length_be32 _), ofBe32_be32]

/-- **A journal whose entries fit** reads back up to the truncated count of its entries. -/
theorem decodeUndo_encodeUndo_of_count {ops : List UndoOp} (h : ∀ op ∈ ops, op.Fits) :
    decodeUndo (encodeUndo ops) = ops.take (UInt32.ofNat ops.length).toNat := by
  rw [encodeUndo, decodeUndo_append, decodeOps_flatMap h]

/-- **A journal whose lengths fit reads back.** -/
theorem decodeUndo_encodeUndo {ops : List UndoOp} (h : ∀ op ∈ ops, op.Fits)
    (hcount : ops.length < 2 ^ 32) : decodeUndo (encodeUndo ops) = ops := by
  rw [decodeUndo_encodeUndo_of_count h, toNat_ofNat32 hcount, List.take_length]

/-- **The round trip of the undo journal.** What was written is in the current format, and it
reads back: every entry, in order and of its kind, with its previous value or without one. -/
theorem undoJournal_round_trip {ops : List UndoOp} (hcount : ops.length < 2 ^ 32)
    (hops : ∀ op ∈ ops, op.Fits) :
    decodeUndo (encodeUndo ops) = ops ∧ ¬ IsLegacy (encodeUndo ops) :=
  ⟨decodeUndo_encodeUndo hops hcount, not_isLegacy_append _⟩

/-- Empty keys with an empty previous value and without one, beside new and replaced contracts. -/
def mixedJournal : List UndoOp :=
  let id := Bytes32.replicate 1
  [.set id [] none, .set id [] (some []), .set id [7] (some [8]), .delete id [] [],
    .deploy id none, .deploy id (some (id, [0]))]

/-- The journal with one entry of each shape. -/
theorem undoJournal_round_trip_mixed :
    decodeUndo (encodeUndo mixedJournal) = mixedJournal ∧ ¬ IsLegacy (encodeUndo mixedJournal) := by
  refine undoJournal_round_trip (by decide) fun op hop => ?_
  simp only [mixedJournal, List.mem_cons, List.not_mem_nil, or_false] at hop
  rcases hop with rfl | rfl | rfl | rfl | rfl | rfl <;> simp [UndoOp.Fits]

end Zalkanes
