import Zalkanes.State.RocksRollback

/-!
# Crashes inside a Rollback

A rollback of `RocksState` is one batch for each undone height and then three writes to the
metadata. A process that dies between two of them leaves one of the states of
`RocksState.rollbackTrace`, and the next start reads the metadata of that state.

`ConsistentAt` says that the metadata names the last remaining height record and that the data
is that of its height. The states between the first undo batch and the last metadata write break
it, because the metadata is rewritten only after every height is undone: `CrashPointSafe` says
exactly which of them do not.

## Main results

* `RocksState.getElem?_rollbackTrace`: the state at a crash point.
* `RocksState.consistentAt_iff`: consistency is a matter of the three metadata keys.
* `RocksState.crash_consistent_iff`: the crash points that leave a consistent store.
-/

namespace Zalkanes

open Lib

namespace RocksState

variable (H : Hashing)

/-- The commits that the last remaining height record stands for. -/
def remaining (cs : List BlockCommit) (s : RocksState) : List BlockCommit :=
  match s.heightHistory.getLast? with
  | some rec => commitsUpTo rec.height cs
  | none => []

/-- The metadata is that of the last remaining height record, and the data is that of its height
in the history `cs`. Without a record the metadata is absent and the store empty. -/
def ConsistentAt (cs : List BlockCommit) (s : RocksState) : Prop :=
  s.get .metaHeight = s.heightHistory.getLast?.map (fun rec => be32 rec.height) ∧
    s.get .metaHash = s.heightHistory.getLast?.map (fun rec => rec.zcashBlockHash.bytes) ∧
    s.get .metaRoot = s.heightHistory.getLast?.map (fun rec => rec.stateRoot.bytes) ∧
    s.ledger = ledgerOf (remaining cs s)

/-- The record that a rollback to `t` makes the last one. -/
def survivor (s : RocksState) (t : BlockHeight) : Option HeightRecord :=
  (s.heightHistory.filter fun rec => rec.height ≤ t).getLast?

/-- The crash points, counted in durable writes, after which the metadata is that of the last
remaining record: before the first write, after the last one, or where what is still to be
written is what is there already. -/
def CrashPointSafe (s : RocksState) (t : BlockHeight) (j : ℕ) : Prop :=
  s.heightsAbove t = [] ∨ j = 0 ∨ (s.heightsAbove t).length + 3 ≤ j ∨
    ((s.heightsAbove t).length < j ∧
      (j = (s.heightsAbove t).length + 1 →
        (s.survivor t).map HeightRecord.zcashBlockHash =
          s.heightHistory.getLast?.map HeightRecord.zcashBlockHash) ∧
      (s.survivor t).map HeightRecord.stateRoot =
        s.heightHistory.getLast?.map HeightRecord.stateRoot)

/-! ### The states of a trace -/

/-- The metadata are three writes. -/
theorem length_metadataWrites (s : RocksState) : s.metadataWrites.length = 3 := by
  rw [metadataWrites]
  cases s.heightHistory.getLast? <;> rfl

/-- **The state at a crash point**: the first `j` heights are undone, and of the metadata as much
is written as comes before the crash. -/
theorem getElem?_rollbackTrace {s s' : RocksState} {t : BlockHeight} {j : ℕ}
    (h : (s.rollbackTrace t)[j]? = some s') :
    let undone := ((s.heightsAbove t).take j).foldl undoHeight s
    s' = (undone.metadataWrites.take (j - (s.heightsAbove t).length)).foldl write undone ∧
      j ≤ (s.heightsAbove t).length + 3 := by
  rw [rollbackTrace, List.getElem?_append, List.length_scanl] at h
  split at h
  · rename_i hj
    rw [List.getElem?_scanl, if_pos (by omega)] at h
    have hzero : j - (s.heightsAbove t).length = 0 := by omega
    simp only [hzero, List.take_zero, List.foldl_nil]
    exact ⟨(Option.some.inj h).symm, by omega⟩
  · rename_i hj
    have hall : (s.heightsAbove t).take j = s.heightsAbove t := List.take_of_length_le (by omega)
    rw [List.getElem?_tail, List.getElem?_scanl, length_metadataWrites] at h
    split at h
    · have hidx : j - ((s.heightsAbove t).length + 1) + 1 = j - (s.heightsAbove t).length := by
        omega
      simp only [hall, ← hidx]
      exact ⟨(Option.some.inj h).symm, by omega⟩
    · simp at h

/-- The states while heights are being undone. -/
theorem getElem?_rollbackTrace_of_le {s : RocksState} {t : BlockHeight} {j : ℕ}
    (h : j ≤ (s.heightsAbove t).length) :
    (s.rollbackTrace t)[j]? = some (((s.heightsAbove t).take j).foldl undoHeight s) := by
  rw [rollbackTrace, List.getElem?_append_left (by rw [List.length_scanl]; omega),
    List.getElem?_scanl, if_pos h]

/-- Undoing a height leaves the metadata alone. -/
theorem get_undoHeight_meta (s : RocksState) (h : BlockHeight) {k : DbKey} (hk : IsMeta k) :
    (s.undoHeight h).get k = s.get k := by
  rw [undoHeight]
  cases s.get (.undo h) with
  | none => rfl
  | some ops =>
      have hcontract : ∀ id, DbKey.contract id ≠ k := by
        rintro id rfl
        exact hk
      have hstorage : ∀ id key, DbKey.storage id key ≠ k := by
        rintro id key rfl
        exact hk
      have hrest : ¬ (k = .height h ∨ k = .undo h) := by
        rintro (rfl | rfl) <;> exact hk
      simp only [get_write]
      rw [lastWrite_undoBatch, if_neg hrest, lastWrite_map_undoWrite_of_ne hcontract hstorage,
        Option.getD_none]

/-- Undoing blocks leaves the metadata alone. -/
theorem get_undoHeights_meta (s : RocksState) (hs : List BlockHeight) {k : DbKey}
    (hk : IsMeta k) : (hs.foldl undoHeight s).get k = s.get k := by
  induction hs generalizing s with
  | nil => rfl
  | cons h hs ih => rw [List.foldl_cons, ih, get_undoHeight_meta s h hk]

/-- The metadata after the first `i` of the three writes. -/
theorem get_take_metadataWrites (s : RocksState) (i : ℕ) :
    let s' := (s.metadataWrites.take i).foldl write s
    let last := s.heightHistory.getLast?
    s'.get .metaHeight =
        (if 1 ≤ i then last.map (fun rec => be32 rec.height) else s.get .metaHeight) ∧
      s'.get .metaHash =
        (if 2 ≤ i then last.map (fun rec => rec.zcashBlockHash.bytes) else s.get .metaHash) ∧
      s'.get .metaRoot =
        (if 3 ≤ i then last.map (fun rec => rec.stateRoot.bytes) else s.get .metaRoot) := by
  simp only [metadataWrites]
  cases s.heightHistory.getLast? <;> rcases i with _ | _ | _ | i <;>
    simp [get_write, lastWrite_cons]

/-- The metadata writes leave every other key alone, however many of them are made. -/
theorem agreesOff_take_metadataWrites (s : RocksState) (i : ℕ) :
    AgreesOff IsMeta ((s.metadataWrites.take i).foldl write s) s := by
  have hone : ∀ (s : RocksState), ∀ batch ∈ s.metadataWrites, ∀ s' : RocksState,
      AgreesOff IsMeta (s'.write batch) s' := by
    intro s batch hbatch s'
    refine ⟨fun k hk => ?_, fun k hk => getElem?_write_of_forall_ne _ _ hk⟩
    rw [get_write, lastWrite_eq_none_iff.mpr, Option.getD_none]
    intro w hw hwk
    have hkey : IsMeta w.key := by
      rw [metadataWrites] at hbatch
      cases hlast : s.heightHistory.getLast? with
      | none =>
          rw [hlast] at hbatch
          simp only [List.mem_cons, List.not_mem_nil, or_false] at hbatch
          rcases hbatch with rfl | rfl | rfl <;> simp at hw <;> subst hw <;> trivial
      | some rec =>
          rw [hlast] at hbatch
          simp only [List.mem_cons, List.not_mem_nil, or_false] at hbatch
          rcases hbatch with rfl | rfl | rfl <;> simp at hw <;> subst hw <;> trivial
    exact hk (hwk ▸ hkey)
  have hall : ∀ batches : List WriteBatch, (∀ b ∈ batches, b ∈ s.metadataWrites) →
      ∀ s' : RocksState, AgreesOff IsMeta (batches.foldl write s') s' := by
    intro batches
    induction batches with
    | nil => exact fun _ s' => AgreesOff.refl _ s'
    | cons batch batches ih =>
        intro hmem s'
        exact (ih (fun b hb => hmem b (by simp [hb])) _).trans
          (hone s batch (hmem batch (by simp)) s')
  exact hall _ (fun b hb => List.mem_of_mem_take hb) s

/-! ### When the metadata is right -/

section Consistency

variable {H}

/-- The commits up to the last of a part from the start are that part. -/
theorem commitsUpTo_last {cs ds : List BlockCommit} {c : BlockCommit}
    (hcs : Increasing (cs ++ [c] ++ ds)) :
    commitsUpTo c.height (cs ++ [c] ++ ds) = cs ++ [c] := by
  obtain ⟨hleft, -, habove⟩ := List.pairwise_append.mp hcs
  refine filter_append_eq_left (fun d hd => ?_) fun d hd => ?_
  · rw [List.mem_append, List.mem_singleton] at hd
    rcases hd with hd | rfl
    · exact decide_eq_true (Increasing.lt_last hleft d hd).le
    · exact decide_eq_true le_rfl
  · have := habove c (by simp) d hd
    rw [decide_eq_true_eq, not_le]
    exact this

/-- **Consistency is a matter of the three metadata keys** for a store that holds a part of the
history from its start. -/
theorem consistentAt_iff {s : RocksState} {ds rest : List BlockCommit}
    (hcs : Increasing (ds ++ rest)) (hs : AgreesOff IsMeta s (build H ds)) :
    ConsistentAt (ds ++ rest) s ↔
      s.get .metaHeight = (build H ds).get .metaHeight ∧
        s.get .metaHash = (build H ds).get .metaHash ∧
        s.get .metaRoot = (build H ds).get .metaRoot := by
  have hhistory : s.heightHistory = recordsOf H ds := by
    rw [hs.heightHistory (fun n => (fun h => h : ¬ IsMeta (.height n))),
      build_heightHistory H hcs.of_append_left]
  have hledger : s.ledger = ledgerOf ds := by
    rw [← build_ledger H]
    exact congrArg StateView.ledger
      (hs.view (fun id => (fun h => h : ¬ IsMeta (.contract id)))
        fun id key => (fun h => h : ¬ IsMeta (.storage id key)))
  have hremaining : remaining (ds ++ rest) s = ds := by
    rw [remaining, hhistory]
    rcases List.eq_nil_or_concat ds with rfl | ⟨ds, c, rfl⟩
    · rfl
    · rw [List.concat_eq_append] at hcs ⊢
      rw [recordsOf_append_singleton, List.getLast?_concat]
      exact commitsUpTo_last hcs
  obtain ⟨hheight, hhash, hroot⟩ := build_get_meta H ds
  rw [ConsistentAt, hremaining, hledger, hhistory, hheight, hhash, hroot]
  simp

/-- The last record of increasing commits is not at the height of an earlier part's last one. -/
theorem height_last_ne {ds rest : List BlockCommit} (hcs : Increasing (ds ++ rest))
    (hrest : rest ≠ []) :
    (build H (ds ++ rest)).get .metaHeight ≠ (build H ds).get .metaHeight := by
  obtain ⟨rest, c, rfl⟩ := (List.eq_nil_or_concat rest).resolve_left hrest
  rw [List.concat_eq_append, ← List.append_assoc] at hcs ⊢
  rw [(build_get_meta H _).1, (build_get_meta H ds).1, recordsOf_append_singleton,
    List.getLast?_concat]
  intro heq
  cases hlast : (recordsOf H ds).getLast? with
  | none => simp [hlast] at heq
  | some rec =>
      rw [hlast] at heq
      have hmem : rec ∈ recordsOf H ds := List.mem_of_getLast? hlast
      obtain ⟨d, hd, hdr, -⟩ := exists_of_mem_recordsFrom hmem
      have hne := Increasing.height_ne_last hcs d (List.mem_append_left _ hd)
      exact hne (hdr.trans (be32_injective (Option.some.inj heq)).symm)

/-- What undoing the last `j` heights of a history leaves. -/
theorem exists_undo_take {low high : List BlockCommit} (hcs : Increasing (low ++ high))
    (hfit : ∀ c ∈ low ++ high, c.Fits) {j : ℕ} (hj : j ≤ high.length) :
    ∃ kept rest, low ++ high = kept ++ rest ∧ rest.length = j ∧
      AgreesOff IsMeta (((high.map BlockCommit.height).reverse.take j).foldl undoHeight
        (build H (low ++ high))) (build H kept) := by
  have hsplit : low ++ high =
      (low ++ high.take (high.length - j)) ++ high.drop (high.length - j) := by
    rw [List.append_assoc, List.take_append_drop]
  have htake : (high.map BlockCommit.height).reverse.take j =
      ((high.drop (high.length - j)).map BlockCommit.height).reverse := by
    rw [List.take_reverse, List.length_map, List.map_drop]
  refine ⟨_, _, hsplit, by rw [List.length_drop]; omega, ?_⟩
  rw [htake]
  generalize low ++ high.take (high.length - j) = kept at hsplit ⊢
  rw [hsplit] at hcs hfit ⊢
  exact (agreesOff_undoHeights (fun k (h : False) => h.elim) hcs hfit
    (AgreesOff.refl _ _)).mono fun k hk => hk.resolve_left id

/-- The parts of a history that a rollback to `t` keeps and undoes, as the store before it
reports them. -/
theorem exists_parts {cs : List BlockCommit} (hcs : Increasing cs) (t : BlockHeight) :
    ∃ low high, cs = low ++ high ∧
      (build H cs).heightsAbove t = (high.map BlockCommit.height).reverse ∧
      (build H cs).survivor t = (recordsOf H low).getLast? := by
  obtain ⟨high, hsplit, habove⟩ := hcs.exists_eq_append t
  have hlow : ∀ c ∈ commitsUpTo t cs, c.level ≤ t.toNat := fun c hc => by
    simpa using (List.mem_filter.mp hc).2
  have hsurvivor : (build H cs).survivor t = (recordsOf H (commitsUpTo t cs)).getLast? := by
    rw [survivor, build_heightHistory H hcs, filter_recordsOf H hcs]
  refine ⟨commitsUpTo t cs, high, hsplit, ?_, hsurvivor⟩
  generalize commitsUpTo t cs = low at hsplit hlow
  subst hsplit
  rw [heightsAbove, build_heightHistory H hcs, map_height_recordsOf,
    insertionSort_heights_above hcs hlow habove]

/-- While heights are being undone, the metadata names the height of the first one undone, which
has no record any more. -/
theorem consistentAt_undo_take_iff {low high : List BlockCommit} (hcs : Increasing (low ++ high))
    (hfit : ∀ c ∈ low ++ high, c.Fits) {j : ℕ} (hj : j ≤ high.length) :
    ConsistentAt (low ++ high) (((high.map BlockCommit.height).reverse.take j).foldl undoHeight
      (build H (low ++ high))) ↔ j = 0 := by
  obtain ⟨kept, rest, hsplit, hlen, hagrees⟩ := exists_undo_take (H := H) hcs hfit hj
  have hheight := get_undoHeights_meta (build H (low ++ high))
    ((high.map BlockCommit.height).reverse.take j) (k := .metaHeight) trivial
  have hhash := get_undoHeights_meta (build H (low ++ high))
    ((high.map BlockCommit.height).reverse.take j) (k := .metaHash) trivial
  have hroot := get_undoHeights_meta (build H (low ++ high))
    ((high.map BlockCommit.height).reverse.take j) (k := .metaRoot) trivial
  generalize ((high.map BlockCommit.height).reverse.take j).foldl undoHeight
    (build H (low ++ high)) = s at hagrees hheight hhash hroot ⊢
  rw [hsplit] at hcs hheight hhash hroot ⊢
  rw [consistentAt_iff hcs hagrees, hheight, hhash, hroot]
  constructor
  · rintro ⟨hmeta, -, -⟩
    by_contra hne
    have hrest : rest ≠ [] := by
      rintro rfl
      exact hne hlen.symm
    exact height_last_ne hcs hrest hmeta
  · rintro rfl
    rw [List.length_eq_zero_iff.mp hlen, List.append_nil]
    exact ⟨rfl, rfl, rfl⟩

/-- Reading a field of a record through its bytes loses nothing. -/
theorem map_bytes_eq_iff (field : HeightRecord → Bytes32) (o o' : Option HeightRecord) :
    o.map (fun rec => (field rec).bytes) = o'.map (fun rec => (field rec).bytes) ↔
      o.map field = o'.map field := by
  have hinj : Function.Injective (Option.map Bytes32.bytes) :=
    Option.map_injective fun a b h => Bytes32.ext h
  rw [← hinj.eq_iff, Option.map_map, Option.map_map]
  rfl

/-- Once every height is undone, `i` metadata writes make the store consistent if what the other
writes would change is the same already. -/
theorem consistentAt_take_metadataWrites_iff {low high : List BlockCommit}
    (hcs : Increasing (low ++ high)) (hfit : ∀ c ∈ low ++ high, c.Fits) {i : ℕ} (hi : 1 ≤ i) :
    let undone := (high.map BlockCommit.height).reverse.foldl undoHeight (build H (low ++ high))
    let before := (recordsOf H (low ++ high)).getLast?
    let after := (recordsOf H low).getLast?
    ConsistentAt (low ++ high) ((undone.metadataWrites.take i).foldl write undone) ↔
      (i < 2 → after.map HeightRecord.zcashBlockHash = before.map HeightRecord.zcashBlockHash) ∧
      (i < 3 → after.map HeightRecord.stateRoot = before.map HeightRecord.stateRoot) := by
  intro undone before after
  have hagrees : AgreesOff IsMeta undone (build H low) :=
    (agreesOff_undoHeights (fun k (h : False) => h.elim) hcs hfit
      (AgreesOff.refl _ _)).mono fun k hk => hk.resolve_left id
  have hhistory : undone.heightHistory = recordsOf H low := by
    rw [hagrees.heightHistory (fun n => (fun h => h : ¬ IsMeta (.height n))),
      build_heightHistory H hcs.of_append_left]
  obtain ⟨hheight, hhash, hroot⟩ := get_take_metadataWrites undone i
  obtain ⟨-, hhash', hroot'⟩ := build_get_meta H (low ++ high)
  obtain ⟨hheight'', hhash'', hroot''⟩ := build_get_meta H low
  rw [consistentAt_iff hcs ((agreesOff_take_metadataWrites undone i).trans hagrees), hheight,
    hhash, hroot, hheight'', hhash'', hroot'', hhistory, if_pos hi,
    get_undoHeights_meta (build H (low ++ high)) _ (k := .metaHash) trivial,
    get_undoHeights_meta (build H (low ++ high)) _ (k := .metaRoot) trivial, hhash', hroot',
    ← map_bytes_eq_iff, ← map_bytes_eq_iff, eq_self_iff_true, true_and]
  refine and_congr ?_ ?_
  · split
    · exact iff_of_true rfl fun h => by omega
    · exact ⟨fun h _ => h.symm, fun h => (h (by omega)).symm⟩
  · split
    · exact iff_of_true rfl fun h => by omega
    · exact ⟨fun h _ => h.symm, fun h => (h (by omega)).symm⟩

end Consistency

/-- **Crash consistency of a rollback**: exactly at the safe crash points does the store that is
found again have the metadata and the data of its last remaining record. -/
theorem crash_consistent_iff {cs : List BlockCommit} (hcs : Increasing cs)
    (hfit : ∀ c ∈ cs, c.Fits) (t : BlockHeight) {j : ℕ} {s : RocksState}
    (hj : ((build H cs).rollbackTrace t)[j]? = some s) :
    ConsistentAt cs s ↔ CrashPointSafe (build H cs) t j := by
  obtain ⟨hs, hle⟩ := getElem?_rollbackTrace hj
  obtain ⟨low, high, rfl, habove, hsurvivor⟩ := exists_parts (H := H) hcs t
  have hlen : ((build H (low ++ high)).heightsAbove t).length = high.length := by
    rw [habove, List.length_reverse, List.length_map]
  have hnil : (build H (low ++ high)).heightsAbove t = [] ↔ high.length = 0 := by
    rw [← hlen, List.length_eq_zero_iff]
  rw [CrashPointSafe, hnil, hlen, hsurvivor, build_heightHistory H hcs]
  rw [hlen] at hs hle
  rw [habove] at hs
  rcases Nat.lt_or_ge high.length j with hlt | hge
  · have hiff := consistentAt_take_metadataWrites_iff (H := H) hcs hfit
      (show 1 ≤ j - high.length by omega)
    rw [List.take_of_length_le (by rw [List.length_reverse, List.length_map]; omega)] at hs
    rw [hs]
    refine hiff.trans ⟨?_, ?_⟩
    · rintro ⟨hhash, hroot⟩
      by_cases hlast : high.length + 3 ≤ j
      · exact Or.inr (Or.inr (Or.inl hlast))
      · exact Or.inr (Or.inr (Or.inr ⟨hlt, fun hone => hhash (by omega), hroot (by omega)⟩))
    · rintro (hzero | hzero | hlast | ⟨-, hhash, hroot⟩)
      · rw [List.length_eq_zero_iff.mp hzero, List.append_nil]
        exact ⟨fun _ => rfl, fun _ => rfl⟩
      · omega
      · exact ⟨fun h => by omega, fun h => by omega⟩
      · exact ⟨fun h => hhash (by omega), fun _ => hroot⟩
  · rw [Nat.sub_eq_zero_of_le hge, List.take_zero, List.foldl_nil] at hs
    rw [hs, consistentAt_undo_take_iff hcs hfit hge]
    omega

/-- Two blocks that set one key to two values. -/
def twoBlocks : List BlockCommit :=
  [⟨1, Bytes32.replicate 1, [], [(Bytes32.replicate 9, [], [1])], []⟩,
    ⟨2, Bytes32.replicate 2, [], [(Bytes32.replicate 9, [], [2])], []⟩]

/-- The two blocks increase. -/
theorem increasing_twoBlocks : Increasing twoBlocks := by
  simp [Increasing, twoBlocks, BlockCommit.level]

/-- The two blocks fit. -/
theorem fits_twoBlocks : ∀ c ∈ twoBlocks, c.Fits := by
  intro c hc
  simp only [twoBlocks, List.mem_cons, List.not_mem_nil, or_false] at hc
  rcases hc with rfl | rfl <;> exact ⟨by simp, by simp, by simp, by simp⟩

/-- A rollback of the two blocks to 1 undoes the second. -/
theorem heightsAbove_twoBlocks (H : Hashing) : (build H twoBlocks).heightsAbove 1 = [2] := by
  rw [heightsAbove, build_heightHistory H increasing_twoBlocks, map_height_recordsOf]
  decide

/-- The condition at a rollback of the two blocks to the first, after its one batch of undo. -/
theorem crash_consistent_iff_twoBlocks :
    Increasing twoBlocks ∧ (∀ c ∈ twoBlocks, c.Fits) ∧
      ∀ H : Hashing, ∃ s, ((build H twoBlocks).rollbackTrace 1)[1]? = some s ∧
        (ConsistentAt twoBlocks s ↔ CrashPointSafe (build H twoBlocks) 1 1) := by
  refine ⟨increasing_twoBlocks, fits_twoBlocks, fun H => ?_⟩
  have hj := getElem?_rollbackTrace_of_le (s := build H twoBlocks) (t := 1) (j := 1)
    (by simp [heightsAbove_twoBlocks])
  exact ⟨_, hj, crash_consistent_iff H increasing_twoBlocks fits_twoBlocks 1 hj⟩

/-- **A crash after the undo batch** of height 2 leaves a store whose metadata names height 2 and
whose records and data are those of height 1. -/
theorem crash_inside_rollback :
    Increasing twoBlocks ∧ ∀ H : Hashing, ∃ s, ((build H twoBlocks).rollbackTrace 1)[1]? = some s ∧
      s.indexedHeight = some 2 ∧ ¬ ConsistentAt twoBlocks s := by
  refine ⟨increasing_twoBlocks, fun H => ?_⟩
  have hj := getElem?_rollbackTrace_of_le (s := build H twoBlocks) (t := 1) (j := 1)
    (by simp [heightsAbove_twoBlocks])
  refine ⟨_, hj, ?_, ?_⟩
  · rw [indexedHeight, get_undoHeights_meta _ _ (k := .metaHeight) trivial,
      (build_get_meta H twoBlocks).1]
    simp [twoBlocks, recordsOf, recordsFrom]
  · rw [heightsAbove_twoBlocks]
    have hsplit : twoBlocks = twoBlocks.take 1 ++ twoBlocks.drop 1 := rfl
    exact (consistentAt_undo_take_iff (hsplit ▸ increasing_twoBlocks) (hsplit ▸ fits_twoBlocks)
      (j := 1) le_rfl).not.mpr one_ne_zero

end RocksState

end Zalkanes
