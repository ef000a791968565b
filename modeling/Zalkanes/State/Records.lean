import Zalkanes.Lib.KeyedLog
import Zalkanes.State.Backend

/-!
# Saved Execution Records

Both backends save an execution record under the id of its transaction, and outside the undo
journal: a later record of the transaction replaces it, and neither a commit nor a rollback
touches it (`RecordLaws`). Which heights and hashes the history holds after a commit or a rollback
is said for any store whose recorded heights have a journal (`HistoryLaws`), in whatever order
its blocks came.

## Main results

* `MemoryState.recordLaws`, `RocksState.recordLaws`: what the readers of records report.
* `MemoryState.historyLaws`, `RocksState.historyLaws`: what the history holds.
-/

namespace Zalkanes

open Lib

/-- Execution records under the ids of their transactions. -/
abbrev Records := Keyed Execution.txid

/-- The readers of saved execution records. -/
structure RecordReaders (σ : Type) where
  execution : σ → TxId → Option Execution
  executionsAtHeight : σ → BlockHeight → List Execution

/-- The readers report these records. -/
structure RecordReaders.Serves {σ : Type} (X : RecordReaders σ) (s : σ) (r : Records) : Prop where
  execution : ∀ txid, X.execution s txid = r.find txid
  atHeight : ∀ h, (X.executionsAtHeight s h).Perm (r.values.filter fun e => e.blockHeight = h)

/-- What happens to the records a store keeps: saving them, if they encode, and nothing else. -/
structure RecordLaws {σ : Type} (S : StateStore σ) (X : RecordReaders σ)
    (Encodes : Execution → Prop) (Keeps : σ → Records → Prop) : Prop where
  serves : ∀ {s r}, Keeps s r → X.Serves s r
  commitBlock : ∀ {s r}, Keeps s r → ∀ c, Keeps (S.commitBlock s c).1 r
  rollbackTo : ∀ {s r}, Keeps s r → ∀ t, Keeps (S.rollbackTo s t).1 r
  saveExecutions : ∀ {s r}, Keeps s r → ∀ es, (∀ e ∈ es, Encodes e) →
    Keeps (S.saveExecutions s es).1 (r.saveAll es) ∧ (S.saveExecutions s es).2 = .ok ()

/-- The history has a record of this height and hash. -/
def StateStore.Recorded {σ : Type} (S : StateStore σ) (s : σ) (h : BlockHeight)
    (hash : BlockHash) : Prop :=
  ∃ rec ∈ S.heightHistory s, rec.height = h ∧ rec.zcashBlockHash = hash

/-- What happens to the history. With `replaces`, a commit replaces the record of its height. -/
structure HistoryLaws {σ : Type} (S : StateStore σ) (replaces : Bool)
    (Journaled : σ → Prop) : Prop where
  commitBlock : ∀ {s}, Journaled s → ∀ c, Journaled (S.commitBlock s c).1 ∧ ∀ h hash,
    S.Recorded (S.commitBlock s c).1 h hash ↔
      h = c.height ∧ hash = c.zcashBlockHash ∨
        S.Recorded s h hash ∧ ¬ (replaces ∧ h = c.height)
  rollbackTo : ∀ {s}, Journaled s → ∀ t, Journaled (S.rollbackTo s t).1 ∧ ∀ h hash,
    S.Recorded (S.rollbackTo s t).1 h hash ↔ S.Recorded s h hash ∧ h ≤ t
  saveExecutions : ∀ {s}, Journaled s → ∀ es, Journaled (S.saveExecutions s es).1 ∧
    S.heightHistory (S.saveExecutions s es).1 = S.heightHistory s

/-- What a store reports as indexed, in any state: the block of the last commit, and after a
rollback the last one that the history keeps. -/
structure IndexLaws {σ : Type} (S : StateStore σ) : Prop where
  commitBlock : ∀ s c, S.indexedHeight (S.commitBlock s c).1 = some c.height ∧
    S.indexedBlockHash (S.commitBlock s c).1 = some c.zcashBlockHash
  rollbackTo : ∀ s t,
    S.indexedHeight (S.rollbackTo s t).1 =
        (S.heightHistory (S.rollbackTo s t).1).getLast?.map HeightRecord.height ∧
      S.indexedBlockHash (S.rollbackTo s t).1 =
        (S.heightHistory (S.rollbackTo s t).1).getLast?.map HeightRecord.zcashBlockHash
  saveExecutions : ∀ s es,
    S.indexedHeight (S.saveExecutions s es).1 = S.indexedHeight s ∧
      S.indexedBlockHash (S.saveExecutions s es).1 = S.indexedBlockHash s

/-! ### The in-memory backend -/

namespace MemoryState

/-- The record of a transaction. -/
def execution (s : MemoryState) (txid : TxId) : Option Execution := s.executions[txid]?

/-- The records of a height, in the order of their transactions. -/
def executionsAtHeight (s : MemoryState) (height : BlockHeight) : List Execution :=
  (s.executions.toList.map Prod.snd).filter fun e => e.blockHeight = height

/-- How records are read in memory. -/
def readers : RecordReaders MemoryState := ⟨execution, executionsAtHeight⟩

/-- The memory store keeps the records that it was given. -/
theorem recordLaws (H : Hashing) :
    RecordLaws (store H) readers (fun _ => True) fun s r => s.executions = r.map where
  serves {s r} hs := by
    constructor
    · intro txid
      change s.executions[txid]? = r.map[txid]?
      rw [hs]
    · intro h
      change ((s.executions.toList.map Prod.snd).filter _).Perm _
      rw [hs]
      exact List.Perm.refl _
  commitBlock hs c := hs
  rollbackTo hs t := ((undoHeights_frame t _ _).1).trans hs
  saveExecutions {s r} hs es hes := by
    refine ⟨?_, rfl⟩
    change es.foldl (fun m e => m.insert e.txid e) s.executions = (r.saveAll es).map
    rw [hs]
    clear hs hes
    induction es generalizing r with
    | nil => rfl
    | cons e es ih => exact ih (r := r.save e)

/-- Every recorded height has a journal. -/
def Journaled (s : MemoryState) : Prop := ∀ rec ∈ s.history, rec.height ∈ s.undo

/-- Undoing heights takes their journals off. -/
theorem mem_undo_undoHeights (t : BlockHeight) (hs : List BlockHeight) (s : MemoryState)
    {h : BlockHeight} (hh : h ∉ hs) (hundo : h ∈ s.undo) :
    h ∈ (hs.foldl (undoHeight t) s).undo := by
  induction hs generalizing s with
  | nil => exact hundo
  | cons h' hs ih =>
      rw [List.mem_cons, not_or] at hh
      refine ih _ hh.2 ?_
      cases hops : s.undo[h']? with
      | none => simpa only [undoHeight, hops] using hundo
      | some ops =>
          rw [undoHeight_of_journal hops]
          exact Std.ExtTreeMap.mem_erase.mpr ⟨fun he =>
            hh.1 (Std.LawfulEqCmp.eq_of_compare he).symm, hundo⟩

/-- A rollback keeps the history up to its target. -/
theorem history_rollbackTo {s : MemoryState} (hs : s.Journaled) (t : BlockHeight) :
    (s.rollbackTo t).1.history = s.history.filter fun rec => rec.height ≤ t := by
  change ((s.heightsAbove t).foldl (undoHeight t) s).history = _
  rw [(undoHeights_frame t _ _).2]
  split
  · rename_i hnone
    symm
    refine List.filter_eq_self.mpr fun rec hrec => decide_eq_true (UInt32.not_lt.mp fun hlt => ?_)
    have habove : rec.height ∈ s.heightsAbove t := by
      rw [heightsAbove, List.mem_insertionSort, List.mem_filter]
      exact ⟨Std.ExtTreeMap.mem_keys.mpr (hs rec hrec), decide_eq_true hlt⟩
    rw [hnone] at habove
    cases habove
  · rfl

/-- The memory store keeps one record for each height. -/
theorem historyLaws (H : Hashing) : HistoryLaws (store H) false Journaled where
  commitBlock {s} hs c := by
    have hhistory : (s.commitBlock H c).1.history =
        s.history ++ [⟨c.height, c.zcashBlockHash, computeRoot H (s.applyCommit c).view⟩] := rfl
    constructor
    · intro rec hrec
      rw [show ((store H).commitBlock s c).1.history = _ from hhistory, List.mem_append,
        List.mem_singleton] at hrec
      refine Std.ExtTreeMap.mem_insert.mpr ?_
      rcases hrec with hrec | rfl
      · exact Or.inr (hs rec hrec)
      · exact Or.inl Std.ReflOrd.compare_self
    · intro h hash
      rw [StateStore.Recorded, show (store H).heightHistory ((store H).commitBlock s c).1 = _ from
        hhistory]
      simp only [List.mem_append, List.mem_singleton, Bool.false_eq_true, false_and,
        not_false_eq_true, and_true]
      constructor
      · rintro ⟨rec, hrec | rfl, rfl, rfl⟩
        · exact Or.inr ⟨rec, hrec, rfl, rfl⟩
        · exact Or.inl ⟨rfl, rfl⟩
      · rintro (⟨rfl, rfl⟩ | ⟨rec, hrec, rfl, rfl⟩)
        · exact ⟨_, Or.inr rfl, rfl, rfl⟩
        · exact ⟨rec, Or.inl hrec, rfl, rfl⟩
  rollbackTo {s} hs t := by
    have hhistory := history_rollbackTo hs t
    constructor
    · intro rec hrec
      rw [show ((store H).rollbackTo s t).1.history = _ from hhistory, List.mem_filter] at hrec
      refine mem_undo_undoHeights t _ s ?_ (hs rec hrec.1)
      rw [heightsAbove, List.mem_insertionSort, List.mem_filter]
      exact fun h => absurd (of_decide_eq_true hrec.2) (UInt32.not_le.mpr (of_decide_eq_true h.2))
    · intro h hash
      rw [StateStore.Recorded, show (store H).heightHistory ((store H).rollbackTo s t).1 = _ from
        hhistory]
      simp only [List.mem_filter, decide_eq_true_eq]
      constructor
      · rintro ⟨rec, ⟨hrec, hle⟩, rfl, rfl⟩
        exact ⟨⟨rec, hrec, rfl, rfl⟩, hle⟩
      · rintro ⟨⟨rec, hrec, rfl, rfl⟩, hle⟩
        exact ⟨rec, ⟨hrec, hle⟩, rfl, rfl⟩
  saveExecutions hs _ := ⟨hs, rfl⟩

/-- What the memory store says of its tip is in its history. -/
theorem indexLaws (H : Hashing) : IndexLaws (store H) where
  commitBlock _ _ := ⟨rfl, rfl⟩
  rollbackTo s t := by
    change (Metadata.ofLast (s.rollbackTo t).1.history.getLast?).indexedHeight = _ ∧
      (Metadata.ofLast (s.rollbackTo t).1.history.getLast?).indexedBlockHash = _
    change _ = Option.map _ (s.rollbackTo t).1.history.getLast? ∧
      _ = Option.map _ (s.rollbackTo t).1.history.getLast?
    cases (s.rollbackTo t).1.history.getLast? <;> exact ⟨rfl, rfl⟩
  saveExecutions _ _ := ⟨rfl, rfl⟩

end MemoryState

/-! ### The RocksDB backend -/

namespace RocksState

section Readers

variable (fromJson : Bytes → Option Execution)

/-- `fromJson` is `serde_json::from_slice` on a record. -/
def execution (s : RocksState) (txid : TxId) : Option Execution :=
  (s.get (.exec txid)).bind fromJson

/-- The loop over the records keeps what reads back under a key that starts with `e`. -/
def visitExecution : Bytes × Bytes → Option Execution
  | ([], _) => none
  | (tag :: _, value) => if tag = 0x65 then fromJson value else none

/-- The records of a height that decode, in the order of their keys. -/
def executionsAtHeight (s : RocksState) (height : BlockHeight) : List Execution :=
  (s.db.scanFrom [0x65] (visitExecution fromJson)).filter fun e => e.blockHeight = height

/-- How records are read in the database. -/
def readers : RecordReaders RocksState := ⟨execution fromJson, executionsAtHeight fromJson⟩

/-- The database keeps these records, and nothing else under a key that starts with `e`. -/
structure KeepsRecords (s : RocksState) (r : Records) : Prop where
  execution : ∀ txid, s.execution fromJson txid = r.find txid
  keys : ∀ rest v, s.db[(0x65 : UInt8) :: rest]? = some v → ∃ txid : TxId, rest = txid.bytes

variable {fromJson}

/-- What the loop over the records visits. -/
theorem KeepsRecords.find_of_visit {s : RocksState} {r : Records} (hs : KeepsRecords fromJson s r)
    {k v : Bytes} {e : Execution} (hkv : s.db[k]? = some v)
    (hvisit : visitExecution fromJson (k, v) = some e) :
    k = execDbKey e.txid ∧ r.find e.txid = some e := by
  cases k with
  | nil => cases hvisit
  | cons tag rest =>
      rw [visitExecution] at hvisit
      split at hvisit
      · rename_i htag
        subst htag
        obtain ⟨txid, rfl⟩ := hs.keys rest v hkv
        have hfind : r.find txid = some e := by
          rw [← hs.execution, RocksState.execution, show s.get (.exec txid) = some v from hkv]
          exact hvisit
        have htxid : e.txid = txid := Keyed.key_of_find hfind
        rw [htxid]
        exact ⟨rfl, hfind⟩
      · cases hvisit

/-- The records of a height are those that were saved for it. -/
theorem KeepsRecords.atHeight {s : RocksState} {r : Records} (hs : KeepsRecords fromJson s r)
    (h : BlockHeight) :
    (s.executionsAtHeight fromJson h).Perm (r.values.filter fun e => e.blockHeight = h) := by
  refine List.Perm.filter _ ?_
  have hnodup : (s.db.scanFrom [0x65] (visitExecution fromJson)).Nodup := by
    refine List.nodup_iff_pairwise_ne.mpr (OrdMap.pairwise_scanFrom_of_mem ?_)
    rintro k v k' v' e e' hkv hkv' hvisit hvisit' hlt rfl
    rw [(hs.find_of_visit hkv hvisit).1, (hs.find_of_visit hkv' hvisit').1,
      Std.ReflOrd.compare_self] at hlt
    cases hlt
  refine (List.perm_ext_iff_of_nodup hnodup r.nodup_map_values.of_map).mpr fun e => ?_
  rw [Keyed.mem_values, OrdMap.mem_scanFrom]
  · constructor
    · rintro ⟨k, v, hkv, hvisit⟩
      exact (hs.find_of_visit hkv hvisit).2
    · intro h
      rw [← hs.execution, RocksState.execution, Option.bind_eq_some_iff] at h
      obtain ⟨v, hv, hfrom⟩ := h
      exact ⟨_, v, hv, hfrom⟩
  · rintro ⟨k, v⟩ e hvisit
    cases k with
    | nil => cases hvisit
    | cons tag rest =>
        rw [visitExecution] at hvisit
        split at hvisit
        · rename_i htag
          rw [htag]
          exact isLE_compare_singleton _ _
        · cases hvisit

/-- A key under `e` is that of a transaction, or no key of the backend. -/
theorem txid_or_foreign (rest : Bytes) :
    (∃ txid : TxId, rest = txid.bytes) ∨ ∀ dk : DbKey, dk.bytes ≠ 0x65 :: rest := by
  by_cases hrest : ∃ txid : TxId, execDbKey txid = 0x65 :: rest
  · obtain ⟨txid, htxid⟩ := hrest
    exact Or.inl ⟨txid, (List.cons.inj htxid).2.symm⟩
  · refine Or.inr fun dk hdk => ?_
    cases dk <;> simp_all [DbKey.bytes, contractDbKey, storageDbKey, heightDbKey, undoDbKey,
      execHeightDbKey]

/-- Databases with the same records under `e`, and the same entries besides. -/
theorem KeepsRecords.congr {skip : DbKey → Prop} {s s' : RocksState} {r : Records}
    (hs : KeepsRecords fromJson s r) (hskip : ∀ txid, ¬ skip (.exec txid))
    (h : AgreesOff skip s' s) : KeepsRecords fromJson s' r := by
  constructor
  · intro txid
    rw [← hs.execution, RocksState.execution, RocksState.execution, h.get _ (hskip txid)]
  · intro rest v hv
    rcases txid_or_foreign rest with htxid | hforeign
    · exact htxid
    · rw [h.raw _ hforeign] at hv
      exact hs.keys rest v hv

variable (fromJson) in
/-- A fresh store keeps none. -/
theorem keepsRecords_fresh : KeepsRecords fromJson fresh .empty := by
  constructor
  · intro txid
    rw [Keyed.find_empty, RocksState.execution, get_fresh]
    rfl
  · intro rest v hv
    simp [fresh] at hv

/-- Saving one record. -/
theorem KeepsRecords.save {s : RocksState} {r : Records} (hs : KeepsRecords fromJson s r)
    {e : Execution} {bytes : Bytes} (hbytes : fromJson bytes = some e) :
    KeepsRecords fromJson
      (s.write [.put (.exec e.txid) bytes, .put (.execHeight e.blockHeight) []]) (r.save e) := by
  have hget : ∀ txid, (s.write [.put (.exec e.txid) bytes,
      .put (.execHeight e.blockHeight) []]).get (.exec txid) =
        if e.txid = txid then some bytes else s.get (.exec txid) := by
    intro txid
    by_cases htxid : e.txid = txid <;> simp [get_write, lastWrite_cons, htxid]
  constructor
  · intro txid
    rw [Keyed.find_save, ← hs.execution, RocksState.execution, RocksState.execution, hget]
    split
    · exact hbytes
    · rfl
  · intro rest v hv
    rcases txid_or_foreign rest with htxid | hforeign
    · exact htxid
    · rw [getElem?_write_of_forall_ne _ _ hforeign] at hv
      exact hs.keys rest v hv

end Readers

/-- Undoing a height leaves the records, the metadata and what is no key of the backend. -/
theorem agreesOff_undoHeight_exec (s : RocksState) (h : BlockHeight) :
    AgreesOff (fun k => ¬ IsExec k) (s.undoHeight h) s := by
  rw [undoHeight]
  split
  · refine ⟨fun k hk => ?_, fun k hk => getElem?_write_of_forall_ne _ _ hk⟩
    have hexec : IsExec k := not_not.mp hk
    rw [get_write, lastWrite_undoBatch]
    cases k <;> first
      | exact absurd hexec id
      | rw [if_neg (by simp), lastWrite_map_undoWrite_of_ne (by simp) (by simp)]; rfl
  · exact .refl _ _

/-- Undoing blocks leaves the records alone. -/
theorem agreesOff_undoHeights_exec (hs : List BlockHeight) (s : RocksState) :
    AgreesOff (fun k => ¬ IsExec k) (hs.foldl undoHeight s) s := by
  induction hs generalizing s with
  | nil => exact .refl _ s
  | cons h hs ih => exact (ih _).trans (s.agreesOff_undoHeight_exec h)

/-- A rollback leaves the records. -/
theorem agreesOff_rollbackTo_exec (s : RocksState) (t : BlockHeight) :
    AgreesOff (fun k => ¬ IsExec k) (s.rollbackTo t).1 s := by
  have hmeta : ∀ s s' : RocksState,
      AgreesOff (fun k => ¬ IsExec k) (s.metadataWrites.foldl write s') s' := by
    intro s s'
    refine ⟨fun k hk => get_metadataWrites s s' fun hmeta => ?_, fun k hk => ?_⟩
    · cases k <;> first
        | exact hmeta
        | exact hk (fun h => h)
    · rw [metadataWrites]
      cases s.heightHistory.getLast? <;>
        simp only [List.foldl_cons, List.foldl_nil, getElem?_write_of_forall_ne _ _ hk]
  exact (hmeta _ _).trans (agreesOff_undoHeights_exec (s.heightsAbove t) s)

/-- One batch after the other. -/
theorem write_append (s : RocksState) (batch batch' : WriteBatch) :
    s.write (batch ++ batch') = (s.write batch).write batch' := by
  rw [write, List.map_append, applyAll_append]
  rfl

variable {json : Execution → Except String Bytes} {fromJson : Bytes → Option Execution}

/-- Records that encode and read back are saved. -/
theorem KeepsRecords.saveExecutions {s : RocksState} {r : Records}
    (hs : KeepsRecords fromJson s r) (es : List Execution)
    (hes : ∀ e ∈ es, ∃ bytes, json e = .ok bytes ∧ fromJson bytes = some e) :
    KeepsRecords fromJson (s.saveExecutions json es).1 (r.saveAll es) ∧
      (s.saveExecutions json es).2 = .ok () := by
  have hencode : ∀ es : List Execution,
      (∀ e ∈ es, ∃ bytes, json e = .ok bytes ∧ fromJson bytes = some e) →
      ∃ encoded, (es.mapM fun e => (json e).map fun bytes => (e, bytes)) = .ok encoded ∧
        encoded.map Prod.fst = es ∧ ∀ p ∈ encoded, fromJson p.2 = some p.1 := by
    intro es
    induction es with
    | nil => exact fun _ => ⟨[], rfl, rfl, by simp⟩
    | cons e es ih =>
        intro hes
        obtain ⟨bytes, hbytes, hfrom⟩ := hes e (by simp)
        obtain ⟨encoded, hencoded, hmap, hall⟩ := ih fun e' he' => hes e' (by simp [he'])
        refine ⟨(e, bytes) :: encoded, ?_, by rw [List.map_cons, hmap], ?_⟩
        · rw [List.mapM_cons, hbytes, hencoded]
          rfl
        · exact List.forall_mem_cons.mpr ⟨hfrom, hall⟩
  obtain ⟨encoded, hencoded, rfl, hall⟩ := hencode es hes
  rw [RocksState.saveExecutions, hencoded]
  refine ⟨?_, rfl⟩
  clear hencoded hes
  dsimp only
  induction encoded generalizing s r with
  | nil => exact hs
  | cons p encoded ih =>
      have hone := hs.save (hall p (by simp))
      have hrest := ih hone fun q hq => hall q (by simp [hq])
      rwa [List.flatMap_cons, write_append]

/-- The database keeps the records that it was given, if they encode. -/
theorem recordLaws (H : Hashing) :
    RecordLaws (store H json) (readers fromJson)
      (fun e => ∃ bytes, json e = .ok bytes ∧ fromJson bytes = some e)
      (KeepsRecords fromJson) where
  serves hs := ⟨hs.execution, hs.atHeight⟩
  commitBlock {s r} hs c := by
    have heq : ((store H json).commitBlock s c).1 = s.write (s.commitBatch H c) :=
      congrArg Prod.fst (s.commitBlock_eq H c)
    have hagree : AgreesOff (fun k => ¬ IsExec k) (s.write (s.commitBatch H c)) s :=
      ⟨fun k hk => get_commitBatch_exec H s c (not_not.mp hk),
        fun k hk => getElem?_write_of_forall_ne s _ hk⟩
    rw [heq]
    exact hs.congr (fun txid h => h trivial) hagree
  rollbackTo {s r} hs t := hs.congr (fun txid h => h trivial) (s.agreesOff_rollbackTo_exec t)
  saveExecutions hs es hes := hs.saveExecutions es hes

/-- Every recorded height has a journal. -/
def Journaled (s : RocksState) : Prop :=
  ∀ rec ∈ s.heightHistory, (s.get (.undo rec.height)).isSome

/-- A fresh store has a journal for each of its blocks. -/
theorem journaled_fresh : fresh.Journaled := by
  intro rec hrec
  rw [mem_heightHistory, get_fresh] at hrec
  cases hrec

/-- Undoing a height that has a journal takes its record and its journal off. -/
theorem get_undoHeight (s : RocksState) (h h' : BlockHeight) :
    (s.undoHeight h).get (.height h') =
        (if h' = h ∧ (s.get (.undo h)).isSome then none else s.get (.height h')) ∧
      (s.undoHeight h).get (.undo h') = if h' = h then none else s.get (.undo h') := by
  rw [undoHeight]
  cases hops : s.get (.undo h) with
  | none =>
      by_cases hh : h' = h
      · subst hh
        simp [hops]
      · simp [hh]
  | some ops =>
      by_cases hh : h' = h
      · simp [get_write, lastWrite_undoBatch, hh]
      · have hother : ∀ k : DbKey, k = .height h' ∨ k = .undo h' →
            (s.write (undoBatch h (decodeUndo ops))).get k = s.get k := by
          rintro k (rfl | rfl) <;>
            rw [get_write, lastWrite_undoBatch, if_neg (by simp [hh]),
              lastWrite_map_undoWrite_of_ne (by simp) (by simp), Option.getD_none]
        simp [hother, hh]

/-- Undoing heights that have journals takes their records and journals off. -/
theorem get_undoHeights (hs : List BlockHeight) (s : RocksState) (h : BlockHeight) :
    (hs.foldl undoHeight s).get (.height h) =
        (if h ∈ hs ∧ (s.get (.undo h)).isSome then none else s.get (.height h)) ∧
      (hs.foldl undoHeight s).get (.undo h) = if h ∈ hs then none else s.get (.undo h) := by
  induction hs generalizing s with
  | nil => simp
  | cons h' hs ih =>
      obtain ⟨hheight, hundo⟩ := ih (s.undoHeight h')
      obtain ⟨hheight', hundo'⟩ := s.get_undoHeight h' h
      rw [List.foldl_cons, hheight, hundo, hheight', hundo']
      by_cases hh : h = h'
      · subst hh
        by_cases hmem : h ∈ hs <;> simp [hmem]
      · simp [hh]

/-- The history after a rollback. -/
theorem mem_heightHistory_rollbackTo {s : RocksState} (hs : s.Journaled) (t : BlockHeight)
    {rec : HeightRecord} :
    rec ∈ (s.rollbackTo t).1.heightHistory ↔ rec ∈ s.heightHistory ∧ rec.height ≤ t := by
  have hget : (s.rollbackTo t).1.get (.height rec.height) =
      ((s.heightsAbove t).foldl undoHeight s).get (.height rec.height) :=
    get_metadataWrites _ _ fun h => h
  have habove : rec.height ∈ s.heightsAbove t ↔
      (∃ rec' ∈ s.heightHistory, rec'.height = rec.height) ∧ t < rec.height := by
    rw [heightsAbove, List.mem_insertionSort, List.mem_filter, List.mem_map]
    simp
  rw [mem_heightHistory, hget, (get_undoHeights _ s rec.height).1]
  by_cases hle : rec.height ≤ t
  · rw [if_neg fun h => UInt32.not_lt.mpr hle (habove.mp h.1).2, ← mem_heightHistory]
    exact (and_iff_left hle).symm
  · refine ⟨fun h => ?_, fun h => absurd h.2 hle⟩
    split at h
    · cases h
    · rename_i hnot
      have hrec := mem_heightHistory.mpr h
      exact absurd ⟨habove.mpr ⟨⟨rec, hrec, rfl⟩, UInt32.not_le.mp hle⟩, hs rec hrec⟩ hnot

/-- A commit records its block, over an older one at its height. -/
theorem mem_heightHistory_commitBatch (H : Hashing) (s : RocksState) (c : BlockCommit)
    {rec : HeightRecord} :
    rec ∈ (s.write (s.commitBatch H c)).heightHistory ↔
      rec = ⟨c.height, c.zcashBlockHash, (s.ledger.apply c).root H⟩ ∨
        rec ∈ s.heightHistory ∧ rec.height ≠ c.height := by
  rw [mem_heightHistory, get_commitBatch_height, mem_heightHistory]
  by_cases hh : c.height = rec.height
  · rw [if_pos hh, Option.some.injEq, or_iff_left fun h => h.2 hh.symm]
    constructor
    · exact fun hvalue => (eq_of_recordValue hh hvalue).symm
    · rintro rfl
      rfl
  · rw [if_neg hh, or_iff_right, and_iff_left (Ne.symm hh)]
    rintro rfl
    exact hh rfl

/-- The database keeps one record for each height. -/
theorem historyLaws (H : Hashing) : HistoryLaws (store H json) true Journaled where
  commitBlock {s} hs c := by
    have heq : ((store H json).commitBlock s c).1 = s.write (s.commitBatch H c) :=
      congrArg Prod.fst (s.commitBlock_eq H c)
    rw [heq]
    constructor
    · intro rec hrec
      rw [get_commitBatch_undo]
      rcases (s.mem_heightHistory_commitBatch H c).mp hrec with rfl | ⟨hrec, hne⟩
      · rw [if_pos rfl]
        rfl
      · rw [if_neg (Ne.symm hne)]
        exact hs rec hrec
    · intro h hash
      simp only [StateStore.Recorded, store, mem_heightHistory_commitBatch, true_and]
      constructor
      · rintro ⟨rec, rfl | ⟨hrec, hne⟩, rfl, rfl⟩
        · exact Or.inl ⟨rfl, rfl⟩
        · exact Or.inr ⟨⟨rec, hrec, rfl, rfl⟩, hne⟩
      · rintro (⟨rfl, rfl⟩ | ⟨⟨rec, hrec, rfl, rfl⟩, hne⟩)
        · exact ⟨_, Or.inl rfl, rfl, rfl⟩
        · exact ⟨rec, Or.inr ⟨hrec, hne⟩, rfl, rfl⟩
  rollbackTo {s} hs t := by
    constructor
    · intro rec hrec
      obtain ⟨hrec, hle⟩ := (mem_heightHistory_rollbackTo hs t).mp hrec
      have hget : (s.rollbackTo t).1.get (.undo rec.height) =
          ((s.heightsAbove t).foldl undoHeight s).get (.undo rec.height) :=
        get_metadataWrites _ _ fun h => h
      change ((s.rollbackTo t).1.get (.undo rec.height)).isSome
      rw [hget, (get_undoHeights _ s rec.height).2, if_neg]
      · exact hs rec hrec
      · rw [heightsAbove, List.mem_insertionSort, List.mem_filter]
        exact fun h => UInt32.not_lt.mpr hle (of_decide_eq_true h.2)
    · intro h hash
      change (∃ rec ∈ (s.rollbackTo t).1.heightHistory, _) ↔ (∃ rec ∈ s.heightHistory, _) ∧ _
      simp only [mem_heightHistory_rollbackTo hs]
      constructor
      · rintro ⟨rec, ⟨hrec, hle⟩, rfl, rfl⟩
        exact ⟨⟨rec, hrec, rfl, rfl⟩, hle⟩
      · rintro ⟨⟨rec, hrec, rfl, rfl⟩, hle⟩
        exact ⟨rec, ⟨hrec, hle⟩, rfl, rfl⟩
  saveExecutions {s} hs es := by
    have hagree := s.agreesOff_saveExecutions json es
    have hhistory : (s.saveExecutions json es).1.heightHistory = s.heightHistory :=
      hagree.heightHistory fun _ h => h
    refine ⟨fun rec hrec => ?_, hhistory⟩
    rw [show ((store H json).saveExecutions s es).1.get (.undo rec.height) = _ from
      hagree.get (.undo rec.height) fun h => h]
    exact hs rec (hhistory ▸ hrec)

/-- What the metadata writes leave. -/
theorem indexed_metadataWrites (s : RocksState) :
    (s.metadataWrites.foldl write s).indexedHeight =
        s.heightHistory.getLast?.map HeightRecord.height ∧
      (s.metadataWrites.foldl write s).indexedBlockHash =
        s.heightHistory.getLast?.map HeightRecord.zcashBlockHash := by
  rw [indexedHeight, indexedBlockHash, metadataWrites]
  cases s.heightHistory.getLast? <;> simp [get_write, lastWrite_cons]

/-- What the database says of its tip is in its history. -/
theorem indexLaws (H : Hashing) : IndexLaws (store H json) where
  commitBlock s c := by
    obtain ⟨hheight, hhash, -⟩ := s.get_commitBatch_meta H c
    change (s.commitBlock H c).1.indexedHeight = _ ∧ (s.commitBlock H c).1.indexedBlockHash = _
    rw [commitBlock_eq, indexedHeight, indexedBlockHash, hheight, hhash]
    simp
  rollbackTo s t := by
    set undone := (s.heightsAbove t).foldl undoHeight s with hundone
    have hhistory : (undone.metadataWrites.foldl write undone).heightHistory =
        undone.heightHistory := by
      refine OrdMap.eq_of_pairwise_of_mem_iff HeightRecord.height (heightHistory_pairwise _)
        (heightHistory_pairwise _) fun rec => ?_
      have hget := get_metadataWrites undone undone (k := .height rec.height) fun h => h
      rw [mem_heightHistory, mem_heightHistory, hget]
    change (undone.metadataWrites.foldl write undone).indexedHeight = Option.map _
        (undone.metadataWrites.foldl write undone).heightHistory.getLast? ∧
      (undone.metadataWrites.foldl write undone).indexedBlockHash = Option.map _
        (undone.metadataWrites.foldl write undone).heightHistory.getLast?
    rw [hhistory]
    exact undone.indexed_metadataWrites
  saveExecutions s es := by
    have hagree := s.agreesOff_saveExecutions json es
    constructor
    · change (s.saveExecutions json es).1.indexedHeight = s.indexedHeight
      rw [indexedHeight, indexedHeight, hagree.get .metaHeight fun h => h]
    · change (s.saveExecutions json es).1.indexedBlockHash = s.indexedBlockHash
      rw [indexedBlockHash, indexedBlockHash, hagree.get .metaHash fun h => h]

end RocksState

end Zalkanes
