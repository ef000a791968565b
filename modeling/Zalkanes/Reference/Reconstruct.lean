import Zalkanes.Indexer.Reconstruction
import Zalkanes.Reference.Decode

/-!
# Reconstruction by the Reference Implementation

The program fills a dictionary with the chunks and joins its entries, the node fills slots.

## Main results

* `Reference.fill_eq`, `Reference.join_eq`: the two loops agree.
* `Reference.reconstructions_agree`: so does the outcome, on all chunks.
-/

namespace Zalkanes

open Lib

namespace Reference

/-- The loop over the chunks, which fills a dictionary. -/
def fill (chunkCount : ℕ) :
    List (ℕ × Bytes) → List (ℕ × Bytes) → Except Raised (List (ℕ × Bytes))
  | [], indexed => .ok indexed
  | chunk :: chunks, indexed =>
      if chunk.1 ≥ chunkCount then .error (.value "chunk out of range")
      else if (indexed.lookup chunk.1).isSome then .error (.value "duplicate chunk")
      else fill chunkCount chunks (chunk :: indexed)

/-- `indexed[i]`. -/
def entry (indexed : List (ℕ × Bytes)) (i : ℕ) : Except Raised Bytes :=
  match indexed.lookup i with
  | some data => .ok data
  | none => .error .key

/-- `reconstruct` of the program, with a dictionary. -/
def reconstruct (H : Hashing) (chunks : List (ℕ × Bytes)) (chunkCount expectedLength : ℕ)
    (expectedHash : Bytes) : Except Raised Bytes :=
  if expectedLength = 0 ∨ expectedLength > maxCodeBytes then .error (.value "invalid length")
  else if chunks.length ≠ chunkCount then .error (.value "wrong chunk count")
  else do
    let indexed ← fill chunkCount chunks []
    let parts ← (List.range chunkCount).mapM (entry indexed)
    let out := parts.flatten
    if out.length ≠ expectedLength then .error (.value "length mismatch")
    else if (H.sha256 out).bytes ≠ expectedHash then .error (.value "hash mismatch")
    else return out

/-- What the program raises where the node reports an error. -/
def Raised.ofCarrier : CarrierError → Raised
  | .invalidLength _ => .value "invalid length"
  | .wrongChunkCount _ _ => .value "wrong chunk count"
  | .chunkOutOfRange _ _ => .value "chunk out of range"
  | .duplicateChunk _ => .value "duplicate chunk"
  | .missingChunk _ => .key
  | .lengthMismatch _ _ => .value "length mismatch"
  | .hashMismatch _ _ => .value "hash mismatch"

section Reconstruct

variable {slots : List (Option Bytes)} {indexed : List (ℕ × Bytes)} {chunkCount : UInt8}

/-- The slots hold what the dictionary holds. -/
def Holds (slots : List (Option Bytes)) (indexed : List (ℕ × Bytes)) : Prop :=
  ∀ i < slots.length, slots[i]? = some (indexed.lookup i)

/-- A slot and an entry of the dictionary are filled alike. -/
theorem Holds.insert (h : Holds slots indexed) (index : ℕ) (data : Bytes) :
    Holds (slots.set index (some data)) ((index, data) :: indexed) := by
  intro i hi
  rw [List.length_set] at hi
  rw [List.getElem?_set, List.lookup_cons]
  by_cases heq : index = i
  · rw [if_pos heq, if_pos (heq ▸ hi), beq_iff_eq.mpr heq.symm]
  · rw [if_neg heq, h i hi, beq_eq_false_iff_ne.mpr (Ne.symm heq)]

/-- The chunks, as the program gets them. -/
def pairs (cs : List Chunk) : List (ℕ × Bytes) := cs.map fun c => (c.index.toNat, c.data)

/-- **The loops over the chunks agree**, and so do the slots and the dictionary after them. -/
theorem fill_eq (h : Holds slots indexed) (hlength : slots.length = chunkCount.toNat)
    (cs : List Chunk) :
    (∃ e, placeChunks chunkCount cs slots = .error e ∧
      fill chunkCount.toNat (pairs cs) indexed = .error (.ofCarrier e)) ∨
    ∃ slots' indexed', placeChunks chunkCount cs slots = .ok slots' ∧
      fill chunkCount.toNat (pairs cs) indexed = .ok indexed' ∧
      Holds slots' indexed' ∧ slots'.length = chunkCount.toNat := by
  induction cs generalizing slots indexed with
  | nil => exact Or.inr ⟨slots, indexed, rfl, rfl, h, hlength⟩
  | cons c cs ih =>
      rw [pairs, List.map_cons, placeChunks, fill]
      by_cases hrange : c.index ≥ chunkCount
      · rw [if_pos hrange, if_pos (UInt8.le_iff_toNat_le.mp hrange)]
        exact Or.inl ⟨_, rfl, rfl⟩
      have hlt : c.index.toNat < slots.length := by
        rw [hlength]
        exact UInt8.lt_iff_toNat_lt.mp (UInt8.not_le.mp hrange)
      have hslot : slots.getD c.index.toNat none = indexed.lookup c.index.toNat := by
        rw [List.getD_eq_getElem?_getD, h _ hlt, Option.getD_some]
      have hrange' : ¬ (c.index.toNat, c.data).1 ≥ chunkCount.toNat :=
        not_le.mpr (hlength ▸ hlt)
      rw [if_neg hrange, if_neg hrange', hslot]
      split_ifs
      · exact Or.inl ⟨_, rfl, rfl⟩
      · exact ih (h.insert _ _) (by rw [List.length_set, hlength])

/-- **Joining the slots** from one of them on. -/
theorem join_eq (i : ℕ) (h : ∀ j < slots.length, slots[j]? = some (indexed.lookup (i + j))) :
    ((List.range' i slots.length).mapM (entry indexed)).map List.flatten =
      (concatSlots i slots).mapError Raised.ofCarrier := by
  induction slots generalizing i with
  | nil => rfl
  | cons slot slots ih =>
      have hslot : indexed.lookup i = slot := by
        have hzero := h 0 (Nat.succ_pos _)
        rw [List.getElem?_cons_zero, Nat.add_zero] at hzero
        exact (Option.some.inj hzero).symm
      have hrest := ih (i + 1) fun j hj => by
        have hsucc := h (j + 1) (Nat.succ_lt_succ hj)
        rw [List.getElem?_cons_succ] at hsucc
        rw [hsucc]
        congr 2
        omega
      rw [List.length_cons, List.range'_succ, List.mapM_cons, entry, hslot]
      cases slot with
      | none => rfl
      | some data =>
          rw [concatSlots]
          cases hparts : (List.range' (i + 1) slots.length).mapM (entry indexed) with
          | error r =>
              rw [hparts] at hrest
              cases hconcat : concatSlots (i + 1) slots with
              | error e =>
                  rw [hconcat] at hrest
                  exact hrest
              | ok out =>
                  rw [hconcat] at hrest
                  cases hrest
          | ok parts =>
              rw [hparts] at hrest
              cases hconcat : concatSlots (i + 1) slots with
              | error e =>
                  rw [hconcat] at hrest
                  cases hrest
              | ok out =>
                  rw [hconcat] at hrest
                  exact congrArg (fun out => Except.ok (data ++ out)) (Except.ok.inj hrest)

end Reconstruct

/-! ### Agreement -/

/-- **The reconstructions of the node and of the reference program have the same outcome** on all
chunks: the same bytes, or the same kind of fault. -/
theorem reconstructions_agree (H : Hashing) (cs : List Chunk) (chunkCount : UInt8)
    (expectedLength : UInt32) (expectedHash : CodeHash) :
    reconstruct H (pairs cs) chunkCount.toNat expectedLength.toNat expectedHash.bytes =
      (Zalkanes.reconstruct H cs chunkCount expectedLength expectedHash).mapError
        Raised.ofCarrier := by
  rw [reconstruct, Zalkanes.reconstruct]
  have hlimit : expectedLength = 0 ∨ expectedLength > Zalkanes.maxCodeBytes ↔
      expectedLength.toNat = 0 ∨ expectedLength.toNat > maxCodeBytes := by
    rw [← UInt32.toNat_inj, gt_iff_lt, UInt32.lt_iff_toNat_lt]
    exact Iff.rfl
  by_cases hinvalid : expectedLength = 0 ∨ expectedLength > Zalkanes.maxCodeBytes
  · rw [if_pos hinvalid, if_pos (hlimit.mp hinvalid)]
    rfl
  rw [if_neg hinvalid, if_neg (mt hlimit.mpr hinvalid), pairs, List.length_map]
  by_cases hcount : cs.length ≠ chunkCount.toNat
  · rw [if_pos hcount, if_pos hcount]
    rfl
  rw [if_neg hcount, if_neg hcount]
  have hempty : Holds (List.replicate chunkCount.toNat none) [] := by
    intro i hi
    rw [List.length_replicate] at hi
    rw [List.getElem?_replicate, if_pos hi]
    rfl
  rcases fill_eq hempty List.length_replicate cs with ⟨e, hplace, hfill⟩ |
    ⟨slots, indexed, hplace, hfill, hholds, hlength⟩
  · rw [pairs] at hfill
    rw [hplace, hfill]
    rfl
  · have hjoin := join_eq 0 fun j hj => by
      rw [Nat.zero_add]
      exact hholds j hj
    rw [pairs] at hfill
    rw [hplace, hfill, List.range_eq_range', ← hlength]
    simp only [bind, Except.bind]
    cases hparts : (List.range' 0 slots.length).mapM (entry indexed) with
    | error r =>
        rw [hparts] at hjoin
        cases hconcat : concatSlots 0 slots with
        | error e =>
            rw [hconcat] at hjoin
            exact hjoin
        | ok out =>
            rw [hconcat] at hjoin
            cases hjoin
    | ok parts =>
        rw [hparts] at hjoin
        cases hconcat : concatSlots 0 slots with
        | error e =>
            rw [hconcat] at hjoin
            cases hjoin
        | ok out =>
            rw [hconcat] at hjoin
            obtain rfl := Except.ok.inj hjoin
            dsimp only
            by_cases hlen : parts.flatten.length ≠ expectedLength.toNat
            · rw [if_pos hlen, if_pos hlen]
              rfl
            rw [if_neg hlen, if_neg hlen]
            have hbytes : (H.sha256 parts.flatten).bytes ≠ expectedHash.bytes ↔
                CodeHash.of H parts.flatten ≠ expectedHash :=
              not_congr ⟨fun heq => Bytes32.ext heq, fun heq => congrArg Bytes32.bytes heq⟩
            by_cases hhash : CodeHash.of H parts.flatten ≠ expectedHash
            · rw [if_pos hhash, if_pos (hbytes.mpr hhash)]
              rfl
            · rw [if_neg hhash, if_neg (mt hbytes.mp hhash)]
              rfl

end Reference

end Zalkanes
