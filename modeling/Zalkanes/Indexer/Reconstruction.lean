import Zalkanes.Indexer.DeployRoundTrip

/-!
# Reconstruction

Which chunks `reconstruct` accepts, and what it makes of them. A complete set of chunks is, in some
order, the chunks of its own pieces (`reassembles_iff`), so what placing the chunks into slots does
is known from `placeChunks_of_perm`, whatever the order they come in.

## Main results

* `reassembles_of_placeChunks`: chunks that were placed are a complete set.
* `reconstruct_iff`: exactly when the chunks reconstruct a code.
-/

namespace Zalkanes

open Lib

/-- The chunks are one for each index below the count, and their data in the order of the indexes
is the code. -/
structure Reassembles (cs : List Chunk) (chunkCount : UInt8) (wasm : Bytes) : Prop where
  indexes : (cs.map Chunk.index).Perm ((List.range chunkCount.toNat).map UInt8.ofNat)
  concat : ((cs.mergeSort fun c d => c.index ≤ d.index).map Chunk.data).flatten = wasm

/-- Split WASM bytes into carrier chunks of `chunk_size` bytes each; a size of 0 is a panic. -/
def split (wasm : Bytes) (chunkSize : ℕ) : Option (List Chunk) :=
  if chunkSize > 0 then
    some ((chunks chunkSize wasm).zipIdx.map fun (data, i) => ⟨UInt8.ofNat i, data⟩)
  else none

section Reconstruction

variable {cs cs' : List Chunk} {chunkCount : UInt8} {wasm : Bytes} {pieces : List Bytes}

/-! ### Complete sets -/

/-- A number of 8 bits survives the byte. -/
theorem toNat_ofNat8 {n : ℕ} (h : n ≤ 255) : (UInt8.ofNat n).toNat = n := by
  rw [UInt8.toNat_ofNat', Nat.mod_eq_of_lt (by omega)]

/-- Chunks whose indexes are those of the positions are the chunks of their data. -/
theorem eq_chunksOf (h : cs.map Chunk.index = (List.range cs.length).map UInt8.ofNat) :
    cs = chunksOf (cs.map Chunk.data) := by
  refine List.ext_getElem? fun i => ?_
  have hindex := congrArg (fun l => l[i]?) h
  simp only [List.getElem?_map] at hindex
  rw [chunksOf, List.getElem?_map, List.getElem?_zipIdx, List.getElem?_map]
  rcases Nat.lt_or_ge i cs.length with hi | hi
  · rw [List.getElem?_range hi, Option.map_some, Option.map_eq_some_iff] at hindex
    obtain ⟨c, hc, hindex⟩ := hindex
    rw [hc]
    simp only [Option.map_some, Nat.zero_add, ← hindex]
  · rw [List.getElem?_eq_none hi]
    rfl

/-- Positions increase. -/
theorem pairwise_positions {n : ℕ} (h : n ≤ 255) :
    ((List.range n).map UInt8.ofNat).Pairwise (· < ·) := by
  rw [List.pairwise_map]
  refine List.Pairwise.imp_of_mem (fun hi hj hlt => ?_) List.pairwise_lt_range
  have hi' := List.mem_range.mp hi
  have hj' := List.mem_range.mp hj
  rw [UInt8.lt_iff_toNat_lt, toNat_ofNat8 (by omega), toNat_ofNat8 (by omega)]
  exact hlt

/-- Sorted chunks are sorted. -/
theorem pairwise_mergeSort_index (cs : List Chunk) :
    (cs.mergeSort fun c d => c.index ≤ d.index).Pairwise fun c d => c.index ≤ d.index := by
  refine (List.pairwise_mergeSort (fun a b c hab hbc => ?_) (fun a b => ?_) cs).imp
    fun h => of_decide_eq_true h
  · rw [decide_eq_true_eq] at *
    exact UInt8.le_trans hab hbc
  · rw [Bool.or_eq_true, decide_eq_true_eq, decide_eq_true_eq]
    exact UInt8.le_total _ _

/-- The chunks of pieces have their bytes. -/
theorem map_data_chunksOf (pieces : List Bytes) : (chunksOf pieces).map Chunk.data = pieces := by
  rw [chunksOf, List.map_map]
  exact List.zipIdx_map_fst 0 pieces

/-- The chunks of pieces, in any order, are sorted into the order of the pieces. -/
theorem mergeSort_of_perm (hcount : pieces.length ≤ 255) (hperm : cs.Perm (chunksOf pieces)) :
    (cs.mergeSort fun c d => c.index ≤ d.index) = chunksOf pieces := by
  have hsorted : (chunksOf pieces).Pairwise fun c d => c.index < d.index := by
    rw [← List.pairwise_map (f := Chunk.index) (R := (· < ·)), map_index_chunksOf]
    exact pairwise_positions hcount
  refine List.Perm.eq_of_pairwise (fun c d hc hd hcd hdc => ?_) (pairwise_mergeSort_index cs)
    (hsorted.imp fun h => UInt8.le_of_lt h) ((List.mergeSort_perm _ _).trans hperm)
  -- no two of the chunks have the same index
  have hmem := hperm.mem_iff.mp ((List.mergeSort_perm _ _).mem_iff.mp hc)
  exact List.inj_on_of_nodup_map (by
    rw [map_index_chunksOf]
    exact (pairwise_positions hcount).imp fun h => UInt8.ne_of_lt h) hmem hd
    (UInt8.le_antisymm hcd hdc)

/-- **A complete set** is the chunks of the pieces of the code, in some order. -/
theorem reassembles_iff : Reassembles cs chunkCount wasm ↔
    ∃ pieces, pieces.length = chunkCount.toNat ∧ cs.Perm (chunksOf pieces) ∧
      pieces.flatten = wasm := by
  have hmax := chunkCount.toNat_lt
  constructor
  · intro h
    let sorted := cs.mergeSort fun c d => c.index ≤ d.index
    have hperm : sorted.Perm cs := List.mergeSort_perm _ _
    have hlength : sorted.length = chunkCount.toNat := by
      rw [hperm.length_eq, ← List.length_map (f := Chunk.index), h.indexes.length_eq,
        List.length_map, List.length_range]
    have hindexes : sorted.map Chunk.index = (List.range sorted.length).map UInt8.ofNat := by
      rw [hlength]
      exact List.Perm.eq_of_pairwise (fun _ _ _ _ => UInt8.le_antisymm)
        (List.pairwise_map.mpr (pairwise_mergeSort_index cs))
        ((pairwise_positions (by omega)).imp fun h => UInt8.le_of_lt h)
        ((hperm.map _).trans h.indexes)
    have heq := eq_chunksOf hindexes
    exact ⟨sorted.map Chunk.data, by rw [List.length_map, hlength], heq ▸ hperm.symm, h.concat⟩
  · rintro ⟨pieces, hlength, hperm, hflatten⟩
    refine ⟨?_, ?_⟩
    · rw [← hlength, ← map_index_chunksOf]
      exact hperm.map _
    · rw [mergeSort_of_perm (by omega) hperm, map_data_chunksOf, hflatten]

/-- The order of the chunks does not matter. -/
theorem Reassembles.of_perm (h : Reassembles cs chunkCount wasm) (hperm : cs'.Perm cs) :
    Reassembles cs' chunkCount wasm := by
  obtain ⟨pieces, hlength, hchunks, hflatten⟩ := reassembles_iff.mp h
  exact reassembles_iff.mpr ⟨pieces, hlength, hperm.trans hchunks, hflatten⟩

/-! ### Slots -/

/-- Chunks that were placed are in range, in slots that were free, and no two of them in one. -/
theorem placeChunks_eq_ok_elim {slots slots' : List (Option Bytes)}
    (hlength : slots.length = chunkCount.toNat) (h : placeChunks chunkCount cs slots = .ok slots') :
    (∀ c ∈ cs, c.index < chunkCount ∧ slots[c.index.toNat]? = some none) ∧
      (cs.map Chunk.index).Nodup := by
  induction cs generalizing slots with
  | nil => exact ⟨fun _ hc => absurd hc List.not_mem_nil, List.nodup_nil⟩
  | cons c cs ih =>
      rw [placeChunks] at h
      split_ifs at h with hrange hfilled
      have hlt : c.index < chunkCount := UInt8.not_le.mp hrange
      have hslot : c.index.toNat < slots.length := by
        rw [hlength]
        exact UInt8.lt_iff_toNat_lt.mp hlt
      obtain ⟨hrest, hnodup⟩ := ih (by rw [List.length_set, hlength]) h
      have hmine : slots[c.index.toNat]? = some none := by
        rw [List.getD_eq_getElem?_getD, List.getElem?_eq_getElem hslot, Option.getD_some,
          Option.isSome_iff_ne_none, not_not] at hfilled
        rw [List.getElem?_eq_getElem hslot, hfilled]
      have hne : ∀ d ∈ cs, c.index ≠ d.index := fun d hd heq => by
        have hfree := (hrest d hd).2
        rw [← heq, List.getElem?_set_self hslot] at hfree
        cases hfree
      refine ⟨fun d hd => ?_, List.nodup_cons.mpr ⟨fun hmem => ?_, hnodup⟩⟩
      · rcases List.mem_cons.mp hd with rfl | hd
        · exact ⟨hlt, hmine⟩
        · obtain ⟨hdlt, hfree⟩ := hrest d hd
          refine ⟨hdlt, ?_⟩
          rwa [List.getElem?_set_ne fun heq => hne d hd (UInt8.toNat_inj.mp heq)] at hfree
      · obtain ⟨d, hd, heq⟩ := List.mem_map.mp hmem
        exact hne d hd heq.symm

/-- Placing chunks does not miss any. -/
theorem placeChunks_ne_missingChunk {slots : List (Option Bytes)} {e : CarrierError}
    (h : placeChunks chunkCount cs slots = .error e) (i : UInt8) : e ≠ .missingChunk i := by
  induction cs generalizing slots with
  | nil => cases h
  | cons c cs ih =>
      rw [placeChunks] at h
      split_ifs at h
      · cases h
        exact CarrierError.noConfusion
      · cases h
        exact CarrierError.noConfusion
      · exact ih h

/-- **Chunks that were placed are a complete set**, as there are as many of them as slots. -/
theorem reassembles_of_placeChunks {slots : List (Option Bytes)}
    (hcount : cs.length = chunkCount.toNat)
    (h : placeChunks chunkCount cs (List.replicate chunkCount.toNat none) = .ok slots) :
    ∃ pieces : List Bytes, slots = pieces.map some ∧ Reassembles cs chunkCount pieces.flatten := by
  obtain ⟨hrange, hnodup⟩ := placeChunks_eq_ok_elim List.length_replicate h
  have hsubset : cs.map Chunk.index ⊆ (List.range chunkCount.toNat).map UInt8.ofNat := by
    intro i hi
    obtain ⟨c, hc, rfl⟩ := List.mem_map.mp hi
    exact List.mem_map.mpr ⟨c.index.toNat,
      List.mem_range.mpr (UInt8.lt_iff_toNat_lt.mp (hrange c hc).1), UInt8.ofNat_toNat⟩
  have hindexes := (List.subperm_of_subset hnodup hsubset).perm_of_length_le
    (by rw [List.length_map, List.length_range, List.length_map, hcount])
  have hset : Reassembles cs chunkCount _ := ⟨hindexes, rfl⟩
  obtain ⟨pieces, hlength, hperm, hflatten⟩ := reassembles_iff.mp hset
  have hmax := chunkCount.toNat_lt
  have hplace := placeChunks_of_perm (by omega) hperm
  rw [hlength, UInt8.ofNat_toNat, h] at hplace
  refine ⟨pieces, Except.ok.inj hplace, ?_⟩
  rw [hflatten]
  exact hset

/-! ### Reconstruction -/

variable {H : Hashing} {expectedLength : UInt32} {expectedHash : CodeHash}

/-- What the code itself has to satisfy. -/
structure Authentic (H : Hashing) (expectedLength : UInt32) (expectedHash : CodeHash)
    (wasm : Bytes) : Prop where
  length : wasm.length = expectedLength.toNat
  pos : 1 ≤ wasm.length
  max : wasm.length ≤ maxCodeBytes.toNat
  hash : CodeHash.of H wasm = expectedHash

/-- Chunks that reassemble to what was hashed are reconstructed. -/
theorem reconstruct_of_reassembles (hset : Reassembles cs chunkCount wasm)
    (hwasm : Authentic H expectedLength expectedHash wasm) :
    reconstruct H cs chunkCount expectedLength expectedHash = .ok wasm := by
  obtain ⟨pieces, hlength, hperm, hflatten⟩ := reassembles_iff.mp hset
  have hmax := chunkCount.toNat_lt
  have hdeclared : ¬ (expectedLength = 0 ∨ expectedLength > maxCodeBytes) := by
    refine pos_and_le_iff.mp ⟨UInt32.lt_iff_toNat_lt.mpr ?_, UInt32.le_iff_toNat_le.mpr ?_⟩
    · rw [← hwasm.length]
      exact hwasm.pos
    · rw [← hwasm.length]
      exact hwasm.max
  have hplace := placeChunks_of_perm (by omega) hperm
  rw [hlength, UInt8.ofNat_toNat] at hplace
  rw [reconstruct, if_neg hdeclared, if_neg (by
    rw [hperm.length_eq, length_chunksOf, hlength]
    exact not_not.mpr rfl), hplace]
  simp only [bind, Except.bind, concatSlots_map_some, hflatten]
  rw [if_neg (not_not.mpr hwasm.length), if_neg (not_not.mpr hwasm.hash)]
  rfl

/-- What becomes of chunks: they are accepted, or refused for another reason than a missing one. -/
theorem reconstruct_cases :
    (∃ wasm, reconstruct H cs chunkCount expectedLength expectedHash = .ok wasm ∧
      Reassembles cs chunkCount wasm ∧ Authentic H expectedLength expectedHash wasm) ∨
    ∃ e, reconstruct H cs chunkCount expectedLength expectedHash = .error e ∧
      ∀ i, e ≠ .missingChunk i := by
  rw [reconstruct]
  by_cases hdeclared : expectedLength = 0 ∨ expectedLength > maxCodeBytes
  · rw [if_pos hdeclared]
    exact Or.inr ⟨_, rfl, fun _ => CarrierError.noConfusion⟩
  rw [if_neg hdeclared]
  by_cases hcount : cs.length ≠ chunkCount.toNat
  · rw [if_pos hcount]
    exact Or.inr ⟨_, rfl, fun _ => CarrierError.noConfusion⟩
  rw [if_neg hcount]
  cases hplace : placeChunks chunkCount cs (List.replicate chunkCount.toNat none) with
  | error e => exact Or.inr ⟨e, rfl, placeChunks_ne_missingChunk hplace⟩
  | ok slots =>
      obtain ⟨pieces, rfl, hset⟩ := reassembles_of_placeChunks (not_not.mp hcount) hplace
      simp only [bind, Except.bind, concatSlots_map_some]
      obtain ⟨hpos, hmax⟩ := pos_and_le_iff.mpr hdeclared
      by_cases hlength : pieces.flatten.length ≠ expectedLength.toNat
      · rw [if_pos hlength]
        exact Or.inr ⟨_, rfl, fun _ => CarrierError.noConfusion⟩
      rw [if_neg hlength]
      rw [not_not] at hlength
      by_cases hhash : CodeHash.of H pieces.flatten ≠ expectedHash
      · rw [if_pos hhash]
        exact Or.inr ⟨_, rfl, fun _ => CarrierError.noConfusion⟩
      · rw [if_neg hhash]
        refine Or.inl ⟨_, rfl, hset, hlength, ?_, ?_, not_not.mp hhash⟩
        · rw [hlength]
          exact UInt32.lt_iff_toNat_lt.mp hpos
        · rw [hlength]
          exact UInt32.le_iff_toNat_le.mp hmax

/-- Chunks are reconstructed exactly if they reassemble to what was hashed. -/
theorem reconstruct_eq_ok_iff : reconstruct H cs chunkCount expectedLength expectedHash = .ok wasm ↔
    Reassembles cs chunkCount wasm ∧ Authentic H expectedLength expectedHash wasm := by
  constructor
  · intro h
    rcases reconstruct_cases with ⟨wasm', hok, haccepted⟩ | ⟨e, herror, -⟩
    · rw [h, Except.ok.injEq] at hok
      rw [hok]
      exact haccepted
    · rw [h] at herror
      cases herror
  · exact fun ⟨hset, hwasm⟩ => reconstruct_of_reassembles hset hwasm

/-- A split is into chunks of one size. -/
theorem split_eq_some {chunkSize : ℕ} (h : split wasm chunkSize = some cs) :
    0 < chunkSize ∧ cs = chunksOf (chunks chunkSize wasm) := by
  rw [split] at h
  split_ifs at h with hpos
  exact ⟨hpos, (Option.some.inj h).symm⟩

/-- Up to 255 chunks of a code are a complete set. -/
theorem reassembles_split {chunkSize : ℕ} (h : split wasm chunkSize = some cs)
    (hcount : cs.length ≤ 255) : Reassembles cs (UInt8.ofNat cs.length) wasm := by
  obtain ⟨hpos, rfl⟩ := split_eq_some h
  exact reassembles_iff.mpr ⟨chunks chunkSize wasm, by rw [toNat_ofNat8 hcount, length_chunksOf],
    List.Perm.refl _, flatten_chunks hpos wasm⟩

/-- **Chunks reconstruct a code exactly when** they are a complete set of its chunks and it is the
code that was declared. The order of the chunks does not matter for that, none is ever found to be
missing, and what `split` makes of a code reconstructs it. -/
theorem reconstruct_iff (H : Hashing) :
    (∀ cs chunkCount expectedLength expectedHash wasm,
      reconstruct H cs chunkCount expectedLength expectedHash = .ok wasm ↔
        Reassembles cs chunkCount wasm ∧ wasm.length = expectedLength.toNat ∧ 1 ≤ wasm.length ∧
        wasm.length ≤ maxCodeBytes.toNat ∧ CodeHash.of H wasm = expectedHash) ∧
    (∀ cs cs', cs'.Perm cs → ∀ chunkCount expectedLength expectedHash wasm,
      reconstruct H cs' chunkCount expectedLength expectedHash = .ok wasm ↔
        reconstruct H cs chunkCount expectedLength expectedHash = .ok wasm) ∧
    (∀ cs chunkCount expectedLength expectedHash i,
      reconstruct H cs chunkCount expectedLength expectedHash ≠ .error (.missingChunk i)) ∧
    ∀ wasm chunkSize cs cs', 1 ≤ wasm.length → wasm.length ≤ maxCodeBytes.toNat →
      split wasm chunkSize = some cs → cs.length ≤ 255 → cs'.Perm cs →
      reconstruct H cs' (UInt8.ofNat cs.length) (UInt32.ofNat wasm.length) (CodeHash.of H wasm) =
        .ok wasm := by
  refine ⟨fun cs chunkCount expectedLength expectedHash wasm => ?_,
    fun cs cs' hperm chunkCount expectedLength expectedHash wasm => ?_,
    fun cs chunkCount expectedLength expectedHash i h => ?_,
    fun wasm chunkSize cs cs' hpos hmax hsplit hcount hperm => ?_⟩
  · rw [reconstruct_eq_ok_iff]
    exact and_congr_right fun _ =>
      ⟨fun h => ⟨h.length, h.pos, h.max, h.hash⟩, fun ⟨h₁, h₂, h₃, h₄⟩ => ⟨h₁, h₂, h₃, h₄⟩⟩
  · rw [reconstruct_eq_ok_iff, reconstruct_eq_ok_iff]
    exact and_congr_left fun _ => ⟨fun h => h.of_perm hperm.symm, fun h => h.of_perm hperm⟩
  · rcases reconstruct_cases with ⟨wasm, hok, -⟩ | ⟨e, herror, hne⟩
    · rw [h] at hok
      cases hok
    · rw [h, Except.error.injEq] at herror
      exact hne i herror.symm
  · have hcode : maxCodeBytes.toNat = 262144 := rfl
    have hset := (reassembles_split hsplit hcount).of_perm hperm
    exact reconstruct_of_reassembles hset ⟨(toNat_ofNat32 (by omega)).symm, hpos, hmax, rfl⟩

/-- Of chunks that are refused, the order decides which fault is found: an index out of range, or
one that is there twice. -/
theorem not_reconstruct_order :
    ¬ ∀ (H : Hashing) (cs cs' : List Chunk) (chunkCount : UInt8) (expectedLength : UInt32)
      (expectedHash : CodeHash), cs'.Perm cs →
        reconstruct H cs' chunkCount expectedLength expectedHash =
          reconstruct H cs chunkCount expectedLength expectedHash := by
  intro h
  let H : Hashing := ⟨fun _ _ => .replicate 0, fun _ => .replicate 0⟩
  have heq := h H [⟨0, []⟩, ⟨0, []⟩, ⟨3, []⟩] [⟨3, []⟩, ⟨0, []⟩, ⟨0, []⟩] 3 1 (CodeHash.of H [])
    (by decide)
  have hrange : reconstruct H [⟨3, []⟩, ⟨0, []⟩, ⟨0, []⟩] 3 1 (CodeHash.of H []) =
      .error (.chunkOutOfRange 3 3) := by decide
  have htwice : reconstruct H [⟨0, []⟩, ⟨0, []⟩, ⟨3, []⟩] 3 1 (CodeHash.of H []) =
      .error (.duplicateChunk 0) := by decide
  rw [hrange, htwice] at heq
  cases heq

end Reconstruction

end Zalkanes
