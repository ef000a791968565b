import Zalkanes.State.Backend

/-!
# Agreement and Exact Rollback

The two backends report the same after every operation of a run, and a rollback of either brings
back the store that the run was in after the last surviving commit at or below the target.

Both results ask that the lengths of the commits fit the journal format of `RocksState`: a
journal of `2 ^ 32` entries, and a key of `2 ^ 16` bytes, are written with a truncated length,
and a rollback over them leaves storage behind.

## Main results

* `backends_agree`: observations and results agree after every operation.
* `rollback_exact`: rollback is exact, and what is committed afterwards gives the state of a
  fresh store.
* `rocks_rollback_of_many_upserts`, `rocks_rollback_of_longKey`: what a truncated length leaves
  behind.
-/

namespace Zalkanes

open Lib

/-- A run whose commits have strictly increasing heights, rollbacks taken into account. -/
abbrev RisingRun (ops : List StoreOp) : Prop := Rising BlockCommit.level UInt32.toNat ops

/-- The surviving commits of a run, oldest first. -/
abbrev survivingCommits (ops : List StoreOp) : List BlockCommit :=
  versions BlockCommit.level UInt32.toNat ops

/-- Every commit of the run fits the journal format. -/
def FitsRun (ops : List StoreOp) : Prop := ∀ c, .commit c ∈ ops → c.Fits

/-! ### The backends agree -/

/-- **A run of a lawful store represents its surviving commits.** -/
theorem LawfulStore.run {H : Hashing} {σ : Type} {S : StateStore σ}
    {Rep : σ → List BlockCommit → Prop} (L : LawfulStore H S Rep) {s : σ} (hs : Rep s [])
    {ops : List StoreOp} (h : RisingRun ops) (hfit : FitsRun ops) :
    Rep (S.run s ops).1 (survivingCommits ops) ∧ Regular (survivingCommits ops) := by
  induction ops using List.reverseRecOn with
  | nil => exact ⟨hs, Regular.nil⟩
  | append_singleton ops op ih =>
      obtain ⟨hops, hop⟩ := (Rising.append_singleton _ _).mp h
      obtain ⟨hrep, hreg⟩ := ih hops fun c hc => hfit c (by simp [hc])
      obtain ⟨hcommit, hrollback⟩ := L.step hrep hreg
      rw [StateStore.run_append_singleton]
      cases op with
      | commit c =>
          rw [survivingCommits, versions_append_commit]
          refine ⟨(hcommit c).1, hreg.append_singleton (fun d hd => ?_) (hfit c (by simp))⟩
          obtain ⟨v, hv, rfl⟩ := List.mem_map.mp hd
          exact hop v hv
      | rollback t =>
          rw [survivingCommits, versions_append_rollback]
          exact ⟨(hrollback t).1, hreg.commitsUpTo t⟩

/-- The results of a run of a lawful store are those of any other. -/
theorem LawfulStore.run_results {H : Hashing} {σ τ : Type} {S : StateStore σ} {S' : StateStore τ}
    {Rep : σ → List BlockCommit → Prop} {Rep' : τ → List BlockCommit → Prop}
    (L : LawfulStore H S Rep) (L' : LawfulStore H S' Rep') {s : σ} {s' : τ} (hs : Rep s [])
    (hs' : Rep' s' []) {ops : List StoreOp} (h : RisingRun ops) (hfit : FitsRun ops) :
    (S.run s ops).2 = (S'.run s' ops).2 := by
  induction ops using List.reverseRecOn with
  | nil => rfl
  | append_singleton ops op ih =>
      obtain ⟨hops, -⟩ := (Rising.append_singleton _ _).mp h
      have hfit' : FitsRun ops := fun c hc => hfit c (by simp [hc])
      obtain ⟨hrep, hreg⟩ := L.run hs hops hfit'
      obtain ⟨hrep', -⟩ := L'.run hs' hops hfit'
      obtain ⟨hcommit, hrollback⟩ := L.step hrep hreg
      obtain ⟨hcommit', hrollback'⟩ := L'.step hrep' hreg
      rw [StateStore.run_append_singleton, StateStore.run_append_singleton, ih hops hfit']
      cases op with
      | commit c => rw [(hcommit c).2, (hcommit' c).2]
      | rollback t => rw [(hrollback t).2, (hrollback' t).2]

/-- **The backends agree.** In every run of commits with strictly increasing heights and
rollbacks to any target, whose lengths fit the journal format, the two backends report the same
after every operation, and every operation returns the same from both. -/
theorem backends_agree (H : Hashing) (json : Execution → Except String Bytes)
    {ops : List StoreOp} (h : RisingRun ops) (hfit : FitsRun ops) :
    (∀ n, (MemoryState.store H).observe H
          ((MemoryState.store H).run MemoryState.new (ops.take n)).1 =
        (RocksState.store H json).observe H
          ((RocksState.store H json).run RocksState.fresh (ops.take n)).1) ∧
      ((MemoryState.store H).run MemoryState.new ops).2 =
        ((RocksState.store H json).run RocksState.fresh ops).2 := by
  have hmem := MemoryState.lawful H
  have hrocks := RocksState.lawful H json
  have hnew : MemoryState.Represents H MemoryState.new [] := rfl
  have hfresh := RocksState.AgreesOff.refl RocksState.IsExec RocksState.fresh
  refine ⟨fun n => ?_, hmem.run_results hrocks hnew hfresh h hfit⟩
  have hrise : RisingRun (ops.take n) :=
    Rising.of_append _ _ (by rwa [List.take_append_drop n ops])
  have hfit' : FitsRun (ops.take n) := fun c hc => hfit c (List.mem_of_mem_take hc)
  obtain ⟨hrep, hreg⟩ := hmem.run hnew hrise hfit'
  obtain ⟨hrep', -⟩ := hrocks.run hfresh hrise hfit'
  rw [hmem.observe hrep hreg, hrocks.observe hrep' hreg]

/-- Three blocks and a rollback: one id deployed twice, the empty key set twice and deleted, an
absent key deleted, and a height used again. -/
def overlapRun : List StoreOp :=
  [.commit ⟨5, Bytes32.replicate 5,
      [(Bytes32.replicate 1, Bytes32.replicate 2, [1]),
        (Bytes32.replicate 1, Bytes32.replicate 2, [])],
      [(Bytes32.replicate 1, [], [7]), (Bytes32.replicate 1, [], [8])],
      [(Bytes32.replicate 1, []), (Bytes32.replicate 1, [9])]⟩,
    .commit ⟨7, Bytes32.replicate 7, [], [(Bytes32.replicate 1, [], [3])], []⟩,
    .rollback 6,
    .commit ⟨7, Bytes32.replicate 8, [], [], [(Bytes32.replicate 1, [])]⟩]

/-- The run rises between its rollbacks. -/
theorem risingRun_overlapRun : RisingRun overlapRun := by
  simp [Rising, RisingFrom, Admissible, survive, overlapRun, BlockCommit.level]

/-- The commits of the run fit. -/
theorem fitsRun_overlapRun : FitsRun overlapRun := by
  intro c hc
  simp only [overlapRun, List.mem_cons, VersionOp.commit.injEq, reduceCtorEq, List.not_mem_nil,
    or_false, false_or] at hc
  rcases hc with rfl | rfl | rfl <;>
    exact ⟨by simp, by simp, by simp, by simp⟩

/-- The backends agree on a run whose block sets and deletes one key. -/
theorem backends_agree_overlapRun :
    RisingRun overlapRun ∧ FitsRun overlapRun ∧
      ∀ (H : Hashing) (json : Execution → Except String Bytes),
        (MemoryState.store H).observe H
            ((MemoryState.store H).run MemoryState.new (overlapRun.take 3)).1 =
          (RocksState.store H json).observe H
            ((RocksState.store H json).run RocksState.fresh (overlapRun.take 3)).1 :=
  ⟨risingRun_overlapRun, fitsRun_overlapRun, fun H json =>
    (backends_agree H json risingRun_overlapRun fitsRun_overlapRun).1 3⟩

/-- A block that writes one value, empty under the empty key, `n` times. -/
def repeatedUpserts (n : ℕ) : BlockCommit where
  height := 1
  zcashBlockHash := Bytes32.replicate 0
  deploys := []
  upserts := List.replicate n (Bytes32.replicate 0, [], [])
  deletes := []

/-- What rolling back a block of repeated upserts leaves when the count of its journal entries is
a multiple of `2 ^ 32`: nothing is undone. -/
theorem storageGet_rollbackTo_repeatedUpserts (H : Hashing) {n : ℕ} (hn : 0 < n)
    (hcount : n % 2 ^ 32 = 0) :
    ((RocksState.build H [repeatedUpserts n]).rollbackTo 0).1.storageGet (Bytes32.replicate 0) [] =
      some [] := by
  have hjournal : RocksState.fresh.journal (repeatedUpserts n) =
      List.replicate n (.set (Bytes32.replicate 0) [] none) := by
    simp [RocksState.journal, RocksState.deployOps, RocksState.setOps, RocksState.deleteOps,
      repeatedUpserts, RocksState.storageGet]
  have hread : decodeUndo (encodeUndo (RocksState.fresh.journal (repeatedUpserts n))) = [] := by
    rw [decodeUndo_encodeUndo_of_count, hjournal, List.length_replicate, UInt32.toNat_ofNat',
      hcount, List.take_zero]
    rw [hjournal]
    intro op hop
    rw [List.eq_of_mem_replicate hop]
    exact ⟨by simp, by simp⟩
  have hstored : (RocksState.build H [repeatedUpserts n]).get
      (.storage (Bytes32.replicate 0) []) = some [] := by
    rw [RocksState.build_get_storage, ← List.nil_append [repeatedUpserts n],
      ledgerOf_append_singleton, Ledger.getElem?_storage_apply, lastWrite_of_forall (r := some [])]
    · rfl
    · exact ⟨.put (Bytes32.replicate 0, []) [], by
        simp [BlockCommit.storageWrites, repeatedUpserts, hn.ne'], rfl⟩
    · intro w hw _
      simp only [BlockCommit.storageWrites, repeatedUpserts, List.map_replicate, List.map_nil,
        List.append_nil] at hw
      rw [List.eq_of_mem_replicate hw, Write.value?_put]
  have hlevel : 0 < (repeatedUpserts n).level := by simp [repeatedUpserts, BlockCommit.level]
  rw [RocksState.storageGet, RocksState.get_rollbackTo_single H hlevel (.storage _ _) (fun h => h),
    hread, RocksState.get_write, RocksState.lastWrite_undoBatch, if_neg (by simp)]
  exact hstored

/-- One commit rises, whatever is rolled back. -/
theorem risingRun_repeatedUpserts (n : ℕ) :
    RisingRun [.commit (repeatedUpserts n), .rollback 0] :=
  ⟨fun _ h => absurd h List.not_mem_nil, trivial, trivial⟩

/-- What the backends report after a block of repeated upserts and a rollback to height 0, when
the count of its journal entries is a multiple of `2 ^ 32`. -/
theorem observe_rollback_repeatedUpserts {n : ℕ} (hn : 0 < n) (hcount : n % 2 ^ 32 = 0)
    (H : Hashing) (json : Execution → Except String Bytes) :
    ((MemoryState.store H).observe H ((MemoryState.store H).run MemoryState.new
        [.commit (repeatedUpserts n), .rollback 0]).1).view.storageGet (Bytes32.replicate 0) [] =
          none ∧
      ((RocksState.store H json).observe H ((RocksState.store H json).run RocksState.fresh
        [.commit (repeatedUpserts n), .rollback 0]).1).view.storageGet (Bytes32.replicate 0) [] =
          some [] := by
  constructor
  · have hrep := (MemoryState.commitBlock_of_represents (MemoryState.represents_build H [])
      (repeatedUpserts n)).1
    have hroll := MemoryState.rollbackTo_of_represents hrep
      (List.pairwise_singleton _ _ : Increasing ([] ++ [repeatedUpserts n])) 0
    have hnone : commitsUpTo 0 ([] ++ [repeatedUpserts n]) = [] := by
      simp [commitsUpTo, repeatedUpserts, BlockCommit.level]
    rw [hnone] at hroll
    exact congrArg (fun s : MemoryState => s.view.storageGet (Bytes32.replicate 0) []) hroll
  · have hbuild : (RocksState.fresh.commitBlock H (repeatedUpserts n)).1 =
        RocksState.build H [repeatedUpserts n] := rfl
    have hleft := storageGet_rollbackTo_repeatedUpserts H hn hcount
    rw [← hbuild] at hleft
    exact hleft

/-- **A block of `2 ^ 32` upserts** separates the backends: after it and a rollback to height 0
the in-memory store is empty, and the database still holds the upserted key. -/
theorem rocks_rollback_of_many_upserts :
    RisingRun [.commit (repeatedUpserts (2 ^ 32)), .rollback 0] ∧
      ∀ (H : Hashing) (json : Execution → Except String Bytes),
        ((MemoryState.store H).observe H ((MemoryState.store H).run MemoryState.new
          [.commit (repeatedUpserts (2 ^ 32)), .rollback 0]).1).view.storageGet
            (Bytes32.replicate 0) [] = none ∧
        ((RocksState.store H json).observe H ((RocksState.store H json).run RocksState.fresh
          [.commit (repeatedUpserts (2 ^ 32)), .rollback 0]).1).view.storageGet
            (Bytes32.replicate 0) [] = some [] :=
  ⟨risingRun_repeatedUpserts _, observe_rollback_repeatedUpserts (by norm_num) (by norm_num)⟩

/-! ### Rollback is exact -/

/-- **Rollback is exact.** After every run of commits with strictly increasing heights and
rollbacks, a rollback to `t` leaves the store of the run right after its last surviving commit of
height at most `t`, or the empty store, in every field; and committing any suffix afterwards
gives the store that commits the surviving prefix and the suffix to a fresh one. For `RocksState`
the lengths of the commits must fit its journal format. -/
theorem rollback_exact (H : Hashing) {ops : List StoreOp} (h : RisingRun ops) (t : BlockHeight)
    (suffix : List BlockCommit) :
    ((((MemoryState.versioned H).run ops).rollbackTo t).1 =
        (MemoryState.versioned H).stateAt ops (lastSurvivor BlockCommit.level UInt32.toNat ops t) ∧
      suffix.foldl (fun s c => (s.commitBlock H c).1)
          (((MemoryState.versioned H).run ops).rollbackTo t).1 =
        (commitsUpTo t (survivingCommits ops) ++ suffix).foldl
          (fun s c => (s.commitBlock H c).1) MemoryState.new) ∧
    (FitsRun ops →
      (((RocksState.versioned H).run ops).rollbackTo t).1 =
        (RocksState.versioned H).stateAt ops (lastSurvivor BlockCommit.level UInt32.toNat ops t) ∧
      suffix.foldl (fun s c => (s.commitBlock H c).1)
          (((RocksState.versioned H).run ops).rollbackTo t).1 =
        (commitsUpTo t (survivingCommits ops) ++ suffix).foldl
          (fun s c => (s.commitBlock H c).1) RocksState.fresh) := by
  have htake : ∀ n, RisingRun (ops.take n) := fun n =>
    Rising.of_append _ _ (by rwa [List.take_append_drop n ops])
  -- the rollback is one more operation of the run
  have hroll : RisingRun (ops ++ [.rollback t]) := (Rising.append_singleton _ _).mpr ⟨h, trivial⟩
  constructor
  · have hbuild : (((MemoryState.versioned H).run ops).rollbackTo t).1 =
        (MemoryState.versioned H).build (commitsUpTo t (survivingCommits ops)) := by
      have := MemoryState.run_eq_build (H := H) hroll
      rwa [Versioned.run_append_singleton, versions_append_rollback] at this
    refine ⟨(MemoryState.versioned H).rollback_run_eq h hbuild fun n =>
      MemoryState.run_eq_build (htake n), ?_⟩
    rw [hbuild]
    exact ((MemoryState.versioned H).build_append _ suffix).symm
  · intro hfit
    have hbuild : (((RocksState.versioned H).run ops).rollbackTo t).1 =
        (RocksState.versioned H).build (commitsUpTo t (survivingCommits ops)) := by
      have := RocksState.run_eq_build H hroll fun c hc => hfit c (by simpa using hc)
      rwa [Versioned.run_append_singleton, versions_append_rollback] at this
    refine ⟨(RocksState.versioned H).rollback_run_eq h hbuild fun n =>
      RocksState.run_eq_build H (htake n) fun c hc => hfit c (List.mem_of_mem_take hc), ?_⟩
    rw [hbuild]
    exact ((RocksState.versioned H).build_append _ suffix).symm

/-- The last block of that run is rolled back. -/
theorem rollback_exact_overlapRun :
    RisingRun overlapRun ∧ FitsRun overlapRun ∧
      ∀ H : Hashing, (((RocksState.versioned H).run overlapRun).rollbackTo 6).1 =
        (RocksState.versioned H).stateAt overlapRun
          (lastSurvivor BlockCommit.level UInt32.toNat overlapRun (6 : BlockHeight)) :=
  ⟨risingRun_overlapRun, fitsRun_overlapRun, fun H =>
    ((rollback_exact H risingRun_overlapRun 6 []).2 fitsRun_overlapRun).1⟩

/-- A block that writes an empty value under `key`. -/
def upsertOne (key : Bytes) : BlockCommit where
  height := 1
  zcashBlockHash := Bytes32.replicate 0
  deploys := []
  upserts := [(Bytes32.replicate 0, key, [])]
  deletes := []

/-- The journal entry of a key that starts with a zero byte and whose length is a multiple of
`2 ^ 16` reads back as an entry of the empty key. -/
theorem decodeUndo_longKey (id : ContractId) {key rest : Bytes} (hlen : key.length % 2 ^ 16 = 0)
    (hkey : key = 0 :: rest) :
    decodeUndo (encodeUndo [.set id key none]) = [.set id [] none] := by
  have hzero : UInt16.ofNat key.length = 0 :=
    UInt16.toNat_inj.mp (by rw [UInt16.toNat_ofNat', hlen]; rfl)
  have hempty : ∀ bytes : Bytes, take? 0 bytes = some ([], bytes) := fun bytes => by simp [take?]
  have hop : decodeOp false (encodeOp (.set id key none)) =
      some (.set id [] none, rest ++ [0]) := by
    rw [encodeOp, hzero, hkey]
    simp [decodeOp, hempty]
  rw [encodeUndo, decodeUndo_append, List.flatMap_singleton]
  generalize encodeOp (.set id key none) = body at hop ⊢
  change decodeOps false 1 body = _
  rw [decodeOps, hop]
  rfl

/-- Such a key survives a rollback below the block that wrote it. -/
theorem get_rollbackTo_upsertOne (H : Hashing) {key rest : Bytes}
    (hlen : key.length % 2 ^ 16 = 0) (hkey : key = 0 :: rest) :
    ((RocksState.build H [upsertOne key]).rollbackTo 0).1.get
      (.storage (Bytes32.replicate 0) key) = some [] := by
  have hjournal : RocksState.fresh.journal (upsertOne key) =
      [.set (Bytes32.replicate 0) key none] := by
    simp [RocksState.journal, RocksState.deployOps, RocksState.setOps, RocksState.deleteOps,
      upsertOne, RocksState.storageGet]
  have hstored : (RocksState.build H [upsertOne key]).get (.storage (Bytes32.replicate 0) key) =
      some [] := by
    rw [RocksState.build_get_storage, ← List.nil_append [upsertOne key],
      ledgerOf_append_singleton, Ledger.getElem?_storage_apply]
    simp [BlockCommit.storageWrites, upsertOne, lastWrite_cons]
  have hlevel : 0 < (upsertOne key).level := by simp [upsertOne, BlockCommit.level]
  rw [RocksState.get_rollbackTo_single H hlevel (.storage _ _) (fun h => h), hjournal,
    decodeUndo_longKey _ hlen hkey, RocksState.get_write, RocksState.lastWrite_undoBatch,
    if_neg (by simp), hstored]
  -- the batch deletes the empty key, not this one
  simp [lastWrite_cons, RocksState.undoWrite, hkey]

/-- **A key of `2 ^ 16` bytes** survives a rollback below the block that wrote it: the database is
not the empty one it was before the block. -/
theorem rocks_rollback_of_longKey :
    RisingRun [.commit (upsertOne (List.replicate (2 ^ 16) 0))] ∧
      lastSurvivor BlockCommit.level UInt32.toNat
        [.commit (upsertOne (List.replicate (2 ^ 16) 0))] (0 : BlockHeight) = none ∧
      ∀ H : Hashing,
        (((RocksState.versioned H).run
          [.commit (upsertOne (List.replicate (2 ^ 16) 0))]).rollbackTo 0).1 ≠
            RocksState.fresh := by
  have hlen : (List.replicate (2 ^ 16) (0 : UInt8)).length % 2 ^ 16 = 0 := by
    rw [List.length_replicate, Nat.mod_self]
  have hkey : List.replicate (2 ^ 16) (0 : UInt8) = 0 :: List.replicate (2 ^ 16 - 1) 0 :=
    List.replicate_succ
  generalize List.replicate (2 ^ 16) (0 : UInt8) = key at hlen hkey ⊢
  refine ⟨⟨fun _ h => absurd h List.not_mem_nil, trivial⟩, ?_, fun H heq => ?_⟩
  · simp [lastSurvivor, survivors, survivorsFrom, survive, upsertOne, BlockCommit.level]
  · have hget := get_rollbackTo_upsertOne H hlen hkey
    have hrun : (RocksState.versioned H).run [.commit (upsertOne key)] =
        RocksState.build H [upsertOne key] := rfl
    rw [← hrun, heq, RocksState.get_fresh] at hget
    simp at hget

end Zalkanes
