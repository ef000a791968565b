import Mathlib.Data.Stream.Init
import Zalkanes.Indexer.ReadFaults

/-!
# Patterns of Failing Reads

A pattern says of each read of a block, in order, whether it fails: as a lookup, and at which items
as an iteration. Under a pattern the processing of a block is a function, and the runs with failing
reads are the runs under some pattern. A pattern whose failing reads all find what is there anyway
changes nothing.

## Main definitions

* `FaultPattern`, `processWithFaults`: patterns, and the processing of a block under one.
* `LosesNothing`: each read that fails along the processing without failures had nothing to find.

## Main results

* `yields_faulty_iff`: the runs with failing reads are the runs under the patterns.
* `evalState_of_losesNothing`: under a pattern that loses nothing, a program does what it does
  without failures.
* `reads_unharmed_iff`: when failing reads change no outcome of a block.
-/

namespace Zalkanes

open Lib

/-! ### Patterns -/

/-- What becomes of an item of an iteration: it is read, or it fails, or the iteration ends with an
error in its place. -/
inductive ItemFault where
  | read
  | failed (e : String)
  | stopped (e : String)

/-- An iteration over some rows, with what becomes of its items. -/
def faultyItems {α : Type} : List α → Stream' ItemFault → List (Except String α)
  | [], faults =>
      match faults.head with
      | .stopped e => [.error e]
      | _ => []
  | row :: rows, faults =>
      match faults.head with
      | .read => .ok row :: faultyItems rows faults.tail
      | .failed e => .error e :: faultyItems rows faults.tail
      | .stopped e => [.error e]

/-- How a read fails: the error of a lookup, if it is one and fails, and what becomes of the items
if it is an iteration. -/
structure ReadFault where
  lookup : Option String
  items : Stream' ItemFault

/-- A pattern of failing reads: what becomes of each read, in order. -/
abbrev FaultPattern := Stream' ReadFault

/-- The answer of a lookup. -/
def ReadFault.lookedUp (f : ReadFault) (found : Option Bytes) : Except String (Option Bytes) :=
  match f.lookup with
  | some e => .error e
  | none => .ok found

namespace RocksState

/-- What a read answers when it fails like this. -/
def answerWith (s : RocksState) (f : ReadFault) : (query : StoreRead) → query.Answer
  | .hasContract id => (okFlatten (f.lookedUp (s.get (.contract id)))).isSome
  | .getContract id => (okFlatten (f.lookedUp (s.get (.contract id)))).bind readBytes32
  | .storageGet id key => okFlatten (f.lookedUp (s.get (.storage id key)))
  | .contracts =>
      ((faultyItems (s.rowsFrom [0x63]) f.items).filterMap Except.toOption).filterMap visitContract
  | .storage =>
      ((faultyItems (s.rowsFrom [0x73]) f.items).filterMap Except.toOption).filterMap visitStorage

/-- How the database answers under a pattern: each read takes its part of the pattern, and writes
do not fail. -/
def answerPattern (w : RocksState × FaultPattern) :
    (c : StoreCall) → c.Answer × (RocksState × FaultPattern)
  | .read query => (w.1.answerWith w.2.head query, w.1, w.2.tail)
  | .write batch => ((), w.1.write batch, w.2)

end RocksState

/-- **Process a block under a pattern of failing reads**: the result, and the store afterwards. -/
def processWithFaults (P : Platform) (config : IndexerConfig) (s : RocksState)
    (parsed : ParsedBlock) (faults : FaultPattern) :
    Except Panic (Except String BlockExecution) × RocksState :=
  let r := (processParsedBlockM P config s.view parsed).evalState RocksState.answerPattern
    (s, faults)
  (r.1, r.2.1)

/-- The pattern without failures. -/
def FaultPattern.none : FaultPattern := Stream'.const ⟨.none, Stream'.const .read⟩

/-- **The pattern loses nothing**: each read that it makes fail, along the run of the program
without failures, finds what it would find anyway. -/
def LosesNothing {α : Type} : StoreP α → RocksState → FaultPattern → Prop
  | .done _, _, _ => True
  | .perform (.read query) resume, s, faults =>
      s.answerWith faults.head query = s.view.answer query ∧
        LosesNothing (resume (s.view.answer query)) s faults.tail
  | .perform (.write batch) resume, s, faults => LosesNothing (resume ()) (s.write batch) faults

/-! ### Patterns and runs -/

section Patterns

/-- A pass under a pattern is a pass with faults. -/
theorem iterates_faultyItems {α : Type} (rows : List α) (faults : Stream' ItemFault) :
    Iterates rows (faultyItems rows faults) := by
  induction rows generalizing faults with
  | nil =>
      rw [faultyItems]
      split
      · exact .stopped [] _
      · exact .done
  | cons row rows ih =>
      rw [faultyItems]
      split
      · exact .item row (ih _)
      · exact .failed row _ (ih _)
      · exact .stopped _ _

/-- Every iteration is one whose items have been told what becomes of them. -/
theorem exists_faultyItems {α : Type} {rows : List α} {items : List (Except String α)}
    (h : Iterates rows items) : ∃ faults, faultyItems rows faults = items := by
  induction h with
  | done => exact ⟨Stream'.const .read, rfl⟩
  | item row _ ih =>
      obtain ⟨faults, rfl⟩ := ih
      exact ⟨Stream'.cons .read faults, rfl⟩
  | failed row e _ ih =>
      obtain ⟨faults, rfl⟩ := ih
      exact ⟨Stream'.cons (.failed e) faults, rfl⟩
  | stopped rows e => exact ⟨Stream'.const (.stopped e), by cases rows <;> rfl⟩

namespace RocksState

variable {s s' : RocksState}

/-- A lookup under a pattern is a lookup with faults. -/
theorem looksUp_lookedUp (s : RocksState) (f : ReadFault) (k : DbKey) :
    s.LooksUp k (f.lookedUp (s.get k)) := by
  rw [ReadFault.lookedUp]
  cases f.lookup with
  | none => exact Or.inl rfl
  | some e => exact Or.inr ⟨e, rfl⟩

/-- Every lookup is one that has been told whether it fails. -/
theorem LooksUp.exists_fault {k : DbKey} {found : Except String (Option Bytes)}
    (h : s.LooksUp k found) : ∃ f : ReadFault, f.lookedUp (s.get k) = found := by
  rcases h with rfl | ⟨e, rfl⟩
  · exact ⟨⟨none, Stream'.const .read⟩, rfl⟩
  · exact ⟨⟨some e, Stream'.const .read⟩, rfl⟩

/-- **What a read may answer** is what it answers when it fails in one way or another. -/
theorem mayAnswer_iff_fault {query : StoreRead} {r : query.Answer} :
    s.MayAnswer query r ↔ ∃ f : ReadFault, s.answerWith f query = r := by
  constructor
  · intro h
    cases query with
    | hasContract id | getContract id | storageGet id key =>
        obtain ⟨found, hfound, rfl⟩ := h
        obtain ⟨f, rfl⟩ := hfound.exists_fault
        exact ⟨f, rfl⟩
    | contracts | storage =>
        obtain ⟨items, hitems, rfl⟩ := h
        obtain ⟨faults, rfl⟩ := exists_faultyItems hitems
        exact ⟨⟨none, faults⟩, rfl⟩
  · rintro ⟨f, rfl⟩
    cases query with
    | hasContract id | getContract id | storageGet id key =>
        exact ⟨_, s.looksUp_lookedUp f _, rfl⟩
    | contracts | storage => exact ⟨_, iterates_faultyItems _ _, rfl⟩

end RocksState

/-- **The runs with failing reads are the runs under the patterns.** -/
theorem yields_faulty_iff {α : Type} {p : StoreP α} {s s' : RocksState} {a : α} :
    Prog.Yields RocksState.Faulty p s a s' ↔ ∃ faults : FaultPattern,
      (p.evalState RocksState.answerPattern (s, faults)).1 = a ∧
        (p.evalState RocksState.answerPattern (s, faults)).2.1 = s' := by
  constructor
  · intro h
    induction h with
    | done a s => exact ⟨.none, rfl, rfl⟩
    | @perform e resume s s₁ s' r a h _ ih =>
        obtain ⟨faults, ha, hs'⟩ := ih
        cases e with
        | read query =>
            obtain ⟨hr, rfl⟩ := h
            obtain ⟨f, rfl⟩ := RocksState.mayAnswer_iff_fault.mp hr
            exact ⟨Stream'.cons f faults, ha, hs'⟩
        | write batch =>
            obtain rfl : s₁ = s.write batch := h
            exact ⟨faults, ha, hs'⟩
  · rintro ⟨faults, rfl, rfl⟩
    induction p generalizing s faults with
    | done a => exact .done a s
    | perform e resume ih =>
        cases e with
        | read query =>
            exact .perform ⟨RocksState.mayAnswer_iff_fault.mpr ⟨faults.head, rfl⟩, rfl⟩
              (ih _ _)
        | write batch =>
            have hwrite : RocksState.Faulty s (.write batch) () (s.write batch) := rfl
            exact .perform hwrite (ih _ _)

/-- The runs of a block with failing reads are its runs under the patterns. -/
theorem yields_processParsedBlockM_iff {P : Platform} {config : IndexerConfig} {s s' : RocksState}
    {parsed : ParsedBlock} {res : Except Panic (Except String BlockExecution)} :
    Prog.Yields RocksState.Faulty (processParsedBlockM P config s.view parsed) s res s' ↔
      ∃ faults, processWithFaults P config s parsed faults = (res, s') := by
  rw [yields_faulty_iff]
  simp only [processWithFaults, Prod.mk.injEq]

/-- How a database answers whose reads do not fail. -/
def RocksState.Honest : Answers StoreCall.Answer RocksState
  | s, .read query, r, s' => r = s.view.answer query ∧ s' = s
  | s, .write batch, _, s' => s' = s.write batch

/-- An honest database is truthful. -/
theorem truthful_honest : Truthful RocksState.Honest where
  read _ _ := ⟨rfl, rfl⟩
  write _ _ := rfl

/-- **Under a pattern that loses nothing, a program does what it does without failures.** -/
theorem evalState_of_losesNothing {α : Type} {p : StoreP α} {s s' : RocksState} {a : α}
    (h : Prog.Yields RocksState.Honest p s a s') {faults : FaultPattern}
    (hfaults : LosesNothing p s faults) :
    (p.evalState RocksState.answerPattern (s, faults)).1 = a ∧
      (p.evalState RocksState.answerPattern (s, faults)).2.1 = s' := by
  induction h generalizing faults with
  | done a s => exact ⟨rfl, rfl⟩
  | @perform e resume s s₁ s' r a h _ ih =>
      cases e with
      | read query =>
          obtain ⟨rfl, rfl⟩ := h
          obtain ⟨hread, hrest⟩ := hfaults
          rw [Prog.evalState, RocksState.answerPattern, hread]
          exact ih hrest
      | write batch =>
          obtain rfl : s₁ = s.write batch := h
          exact ih hfaults

/-- The parts of a composition lose nothing when it loses nothing. -/
theorem LosesNothing.of_bind {α β : Type} {p : StoreP α} {f : α → StoreP β} {s : RocksState}
    {faults : FaultPattern} (h : LosesNothing (p >>= f) s faults) :
    LosesNothing p s faults ∧
      let r := p.evalState RocksState.answerPattern (s, faults)
      LosesNothing (f r.1) r.2.1 r.2.2 := by
  induction p generalizing s faults with
  | done a => exact ⟨trivial, h⟩
  | perform e resume ih =>
      cases e with
      | read query =>
          obtain ⟨hread, hrest⟩ := h
          obtain ⟨hp, hf⟩ := ih _ hrest
          refine ⟨⟨hread, hp⟩, ?_⟩
          simp only [Prog.evalState, RocksState.answerPattern, hread]
          exact hf
      | write batch => exact ih _ h

/-- Code that reads leaves the store as it is, whatever fails. -/
theorem evalState_reading_store {α : Type} (p : ReadP α) (w : RocksState × FaultPattern) :
    ((reading p).evalState RocksState.answerPattern w).2.1 = w.1 := by
  induction p generalizing w with
  | done a => rfl
  | perform query resume ih => exact ih _ _

/-- Code that reads and loses nothing reads what is there. -/
theorem LosesNothing.evalState_reading {α : Type} {p : ReadP α} {s : RocksState}
    {faults : FaultPattern} (h : LosesNothing (reading p) s faults) :
    ((reading p).evalState RocksState.answerPattern (s, faults)).1 = p.eval s.view.answer := by
  induction p generalizing faults with
  | done a => rfl
  | perform query resume ih =>
      obtain ⟨hread, hrest⟩ := h
      simp only [reading, Prog.inject, Prog.evalState, RocksState.answerPattern, hread, Prog.eval]
      exact ih _ hrest

end Patterns

/-! ### The passes of a commit -/

/-- Processing a block until its commit goes over the contracts and the storage entries: the
messages are handled, and the journal of the commit is read. -/
def untilCommit (P : Platform) (config : IndexerConfig) (base : StateView) (parsed : ParsedBlock) :
    StoreP (Option BlockCommit) :=
  match config.activationHeight with
  | none => return none
  | some activation =>
      if parsed.height < activation then do
        let _ ← reading (commitReadsP (.empty parsed.height parsed.hash))
        return some (.empty parsed.height parsed.hash)
      else do
        let _ ← reading (computeRootP P.hashing)
        match ← reading (processTransactionsM P config base parsed).run with
        | .error _ => return none
        | .ok acc => do
            let _ ← reading (commitReadsP acc.commit)
            return some acc.commit

/-- The ledger that two passes see: the entries that are read. -/
def RocksState.seen (s : RocksState) (faults : FaultPattern) : Ledger :=
  (visited (s.answerWith faults.head .contracts) (s.answerWith faults.tail.head .storage)).ledger

/-- **The commit of a block sees what it needs**: the entries that fail in its passes over the
contracts and the storage entries, if there are any, are ones that the block rewrites. -/
def CommitSees (P : Platform) (config : IndexerConfig) (s : RocksState) (parsed : ParsedBlock)
    (faults : FaultPattern) : Prop :=
  let r := (untilCommit P config s.view parsed).evalState RocksState.answerPattern (s, faults)
  ∀ c, r.1 = some c → (s.seen r.2.2).apply c = s.ledger.apply c

section Passes

variable {P : Platform} {config : IndexerConfig} {s : RocksState} {parsed : ParsedBlock}
  {faults : FaultPattern} {c : BlockCommit}

/-- The batch of a commit whose passes see a part of the ledger. -/
def RocksState.batchSeeing (s : RocksState) (H : Hashing) (c : BlockCommit) (part : Ledger) :
    WriteBatch :=
  s.dataBatch c ++ RocksState.recordBatch c (s.journal c) ((part.apply c).root H)

/-- What passes see is a part of what is there. -/
theorem RocksState.seen_partOf (s : RocksState) (faults : FaultPattern) :
    (s.seen faults).PartOf s.ledger := by
  have hcontracts : (s.answerWith faults.head .contracts).Sublist s.view.contracts :=
    mayAnswer_contracts_iff.mp (mayAnswer_iff_fault.mpr ⟨_, rfl⟩)
  have hstorage : (s.answerWith faults.tail.head .storage).Sublist s.view.storage :=
    mayAnswer_storage_iff.mp (mayAnswer_iff_fault.mpr ⟨_, rfl⟩)
  have hsorted : (visited (s.answerWith faults.head .contracts)
      (s.answerWith faults.tail.head .storage)).Sorted :=
    ⟨s.view_sorted.contracts.sublist hcontracts, s.view_sorted.storage.sublist hstorage⟩
  constructor
  · intro id contract h
    have hmem := Std.ExtTreeMap.mem_toList_iff_getElem?_eq_some.mpr h
    rw [seen, hsorted.toList_contracts] at hmem
    rw [getElem?_ledger_contracts]
    exact mem_view_contracts.mp (hcontracts.subset hmem)
  · rintro ⟨id, key⟩ value h
    have hmem := Std.ExtTreeMap.mem_toList_iff_getElem?_eq_some.mpr h
    rw [seen, hsorted.toList_storage] at hmem
    obtain ⟨⟨id', key', value'⟩, he, heq⟩ := List.mem_map.mp hmem
    cases heq
    rw [getElem?_ledger_storage]
    exact mem_view_storage.mp (hstorage.subset he)

/-- A commit whose journal loses nothing writes its batch, with the root of what its passes see. -/
theorem store_commitBlockP (H : Hashing)
    (hfaults : LosesNothing (reading (commitReadsP c)) s faults) :
    let rest := ((reading (commitReadsP c)).evalState RocksState.answerPattern (s, faults)).2.2
    ((commitBlockP H c).evalState RocksState.answerPattern (s, faults)).2.1 =
      s.write (s.batchSeeing H c (s.seen rest)) := by
  have hreads := hfaults.evalState_reading
  have hstore := evalState_reading_store (commitReadsP c) (s, faults)
  intro rest
  rw [commitBlockP, Prog.evalState_bind, hreads]
  generalize hw : ((reading (commitReadsP c)).evalState RocksState.answerPattern (s, faults)).2 = w
    at hstore
  obtain ⟨s₁, rest'⟩ := w
  obtain rfl : s₁ = s := hstore
  obtain rfl : rest = rest' := congrArg Prod.snd hw
  have hprojected : (reading (projectedRootP H c)).evalState RocksState.answerPattern (s₁, rest) =
      (((s₁.seen rest).apply c).root H, s₁, rest.tail.tail) :=
    Prod.ext (projectedRoot_eq H _ c) rfl
  rw [Prog.evalState_bind, hprojected]
  dsimp only
  rw [batch_eval_commitReadsP, Prog.evalState_bind]
  change ((reading (computeRootP H) >>= _).evalState RocksState.answerPattern
    (s₁.write (s₁.batchSeeing H c (s₁.seen rest)), rest.tail.tail)).2.1 = _
  rw [Prog.evalState_bind]
  have hcheck := evalState_reading_store (computeRootP H)
    (s₁.write (s₁.batchSeeing H c (s₁.seen rest)), rest.tail.tail)
  split <;> exact hcheck

/-- Saving execution records changes nothing else, whatever fails. -/
theorem agreesOff_saveExecutionsP (json : Execution → Except String Bytes)
    (executions : List Execution) (w : RocksState × FaultPattern) :
    RocksState.AgreesOff RocksState.IsExec
      ((saveExecutionsP json executions).evalState RocksState.answerPattern w).2.1 w.1 :=
  RocksState.agreesOff_of_yields_saveExecutionsP
    (yields_faulty_iff.mpr ⟨w.2, rfl, rfl⟩)

variable (parsed) in
/-- Finishing a block is its commit, up to the execution records. -/
theorem agreesOff_finishBlockP (before : StateRoot) (acc : BlockAcc)
    (w : RocksState × FaultPattern) :
    RocksState.AgreesOff RocksState.IsExec
      ((finishBlockP P parsed before acc).evalState RocksState.answerPattern w).2.1
      ((commitBlockP P.hashing acc.commit).evalState RocksState.answerPattern w).2.1 := by
  rw [finishBlockP, Prog.evalState_bind]
  generalize (commitBlockP P.hashing acc.commit).evalState RocksState.answerPattern w = r
  obtain ⟨e | root, w₁⟩ := r
  · exact RocksState.AgreesOff.refl _ _
  · dsimp only
    rw [Prog.evalState_bind]
    have hsaved := agreesOff_saveExecutionsP P.json acc.executions w₁
    split <;> exact hsaved

/-- **What a block leaves under a pattern** that loses nothing until its commit: what its batch
makes of the store, with the root of what the passes of the commit see. -/
theorem agreesOff_processWithFaults (hc : blockCommit P config s.view parsed = .ok (some c))
    (hfaults : LosesNothing (untilCommit P config s.view parsed) s faults) :
    let r := (untilCommit P config s.view parsed).evalState RocksState.answerPattern (s, faults)
    r.1 = some c ∧ RocksState.AgreesOff RocksState.IsExec
      (processWithFaults P config s parsed faults).2
      (s.write (s.batchSeeing P.hashing c (s.seen r.2.2))) := by
  unfold blockCommit at hc
  unfold untilCommit at hfaults
  simp only [untilCommit, processWithFaults, processParsedBlockM]
  cases hact : config.activationHeight with
  | none =>
      rw [hact] at hc
      cases hc
  | some activation =>
      rw [hact] at hc hfaults
      dsimp only at hc hfaults ⊢
      split at hc
      · rename_i hlt
        obtain rfl := Option.some.inj (Except.ok.inj hc)
        rw [if_pos hlt] at hfaults
        simp only [if_pos hlt]
        refine ⟨rfl, ?_⟩
        have hstore := store_commitBlockP P.hashing hfaults.of_bind.1
        dsimp only at hstore
        simp only [Prog.evalState_bind, Prog.evalState_pure]
        rw [← hstore, commitEmptyBlockP, Prog.evalState_bind]
        generalize (commitBlockP P.hashing (BlockCommit.empty parsed.height parsed.hash)).evalState
          RocksState.answerPattern (s, faults) = r
        obtain ⟨e | root, w⟩ := r <;> exact RocksState.AgreesOff.refl _ _
      · rename_i hge
        obtain ⟨acc, hacc, hc⟩ := map_eq_ok hc
        obtain rfl := Option.some.inj hc
        rw [if_neg hge] at hfaults
        simp only [if_neg hge]
        -- the messages are handled as they are without failures, on the store as it is
        obtain ⟨-, hfaults⟩ := hfaults.of_bind
        have hroot := evalState_reading_store (computeRootP P.hashing) (s, faults)
        simp only [Prog.evalState_bind]
        generalize (reading (computeRootP P.hashing)).evalState RocksState.answerPattern
          (s, faults) = before at hroot hfaults ⊢
        obtain ⟨before, s₀, faults₀⟩ := before
        obtain rfl : s₀ = s := hroot
        obtain ⟨hmessages, hfaults⟩ := hfaults.of_bind
        have hhandled := hmessages.evalState_reading
        have hstore := evalState_reading_store (processTransactionsM P config s₀.view parsed).run
          (s₀, faults₀)
        rw [eval_processTransactionsM, hacc] at hhandled
        generalize (reading (processTransactionsM P config s₀.view parsed).run).evalState
          RocksState.answerPattern (s₀, faults₀) = handled at hhandled hstore hfaults ⊢
        obtain ⟨handled, s₁, faults₁⟩ := handled
        obtain rfl : s₁ = s₀ := hstore
        obtain rfl : handled = .ok acc := hhandled
        have hcommit := store_commitBlockP P.hashing hfaults.of_bind.1
        have hfinish := agreesOff_finishBlockP (P := P) parsed before acc (s₁, faults₁)
        dsimp only at hcommit ⊢
        rw [hcommit] at hfinish
        rw [Prog.evalState_bind, Prog.evalState_bind]
        exact ⟨rfl, hfinish⟩

/-- What the batch of a commit leaves under the last root and at its height. -/
theorem RocksState.get_batchSeeing (s : RocksState) (H : Hashing) (c : BlockCommit)
    (part : Ledger) :
    (s.write (s.batchSeeing H c part)).persistedStateRoot = some ((part.apply c).root H) ∧
      ((s.write (s.batchSeeing H c part)).get (.height c.height)).isSome := by
  constructor
  · rw [persistedStateRoot, get_write, batchSeeing, lastWrite_append]
    exact Bytes32.ofBytes?_bytes _
  · rw [get_write, batchSeeing, lastWrite_append, recordBatch]
    simp [lastWrite_cons]

/-- **Under a pattern that loses nothing until the commit**, a block at a new height is unharmed
exactly if its commit sees what it needs. -/
theorem unharmed_iff_commitSees {clean : RocksState} {cleanRes : Except String BlockExecution}
    (hclean : processParsedBlock (RocksState.store P.hashing P.json) P config s parsed =
      .ok (clean, cleanRes))
    (hnew : s.get (.height parsed.height) = none)
    (hfree : ∀ c (part : Ledger), blockCommit P config s.view parsed = .ok (some c) →
      part.PartOf s.ledger →
      CollisionFree P.hashing (part.apply c).view (s.ledger.apply c).view)
    (hfaults : LosesNothing (untilCommit P config s.view parsed) s faults) :
    Unharmed s clean (processWithFaults P config s parsed faults).1
        (processWithFaults P config s parsed faults).2 ↔
      CommitSees P config s parsed faults := by
  rcases processParsedBlock_cases hclean with ⟨hnone, rfl⟩ | ⟨c, hc, -⟩
  · have hact := activationHeight_of_blockCommit_none hnone
    have hstore : (processWithFaults P config clean parsed faults).2 = clean :=
      eq_of_activationHeight_none hact (yields_processParsedBlockM_iff.mpr ⟨faults, rfl⟩)
    refine iff_of_true (Or.inr ?_) ?_
    · rw [hstore]
      exact RocksState.SameOutcome.refl clean
    · intro c hr
      rw [untilCommit, hact] at hr
      cases hr
  obtain ⟨hr, hoff⟩ := agreesOff_processWithFaults hc hfaults
  have hcommitted := agreesOff_of_processParsedBlock hclean hc
  have hsees : CommitSees P config s parsed faults ↔ (s.seen ((untilCommit P config s.view
      parsed).evalState RocksState.answerPattern (s, faults)).2.2).apply c = s.ledger.apply c :=
    ⟨fun h => h c hr, fun h c' hr' => Option.some.inj (hr.symm.trans hr') ▸ h⟩
  rw [hsees]
  generalize ((untilCommit P config s.view parsed).evalState RocksState.answerPattern
    (s, faults)).2.2 = rest at hoff
  constructor
  · rintro (⟨-, hsame⟩ | hsame)
    · -- the commit has recorded its height
      rw [hsame] at hoff
      have hrecord := (s.get_batchSeeing P.hashing c (s.seen rest)).2
      rw [← hoff.get (.height c.height) (fun h => h), (height_blockCommit hc).1, hnew] at hrecord
      cases hrecord
    · refine (s.seen_partOf rest).apply_eq_of_root_eq (hfree c _ hc (s.seen_partOf rest)) ?_
      refine Option.some.inj ?_
      rw [← (s.get_batchSeeing P.hashing c (s.seen rest)).1,
        ← (s.get_batchSeeing P.hashing c s.ledger).1, ← hoff.sameOutcome.persistedStateRoot,
        hsame.persistedStateRoot, hcommitted.sameOutcome.persistedStateRoot]
      rfl
  · intro hledger
    refine Or.inr (RocksState.AgreesOff.sameOutcome ?_)
    refine hoff.trans ?_
    rw [RocksState.batchSeeing, hledger]
    exact hcommitted.symm

/-- **When failing reads change no outcome of a block.** A pattern that loses nothing leaves the
result and the store that no failure leaves. One that loses nothing until the commit of a block at
a new height leaves the outcome exactly if the commit sees what it needs. And no pattern changes the
outcome exactly if no block is committed, or the store has neither contracts nor storage to
lose. -/
theorem reads_unharmed_iff {clean : RocksState} {cleanRes : Except String BlockExecution}
    (hs : s.ContractsWhole) (hjson : ∀ execution, ∃ bytes, P.json execution = .ok bytes)
    (hclean : processParsedBlock (RocksState.store P.hashing P.json) P config s parsed =
      .ok (clean, cleanRes))
    (hfree : ∀ c (part : Ledger), blockCommit P config s.view parsed = .ok (some c) →
      part.PartOf s.ledger →
      CollisionFree P.hashing (part.apply c).view (s.ledger.apply c).view) :
    (∀ faults, LosesNothing (processParsedBlockM P config s.view parsed) s faults →
      processWithFaults P config s parsed faults = (.ok cleanRes, clean)) ∧
    (∀ faults, s.get (.height parsed.height) = none →
      LosesNothing (untilCommit P config s.view parsed) s faults →
      (Unharmed s clean (processWithFaults P config s parsed faults).1
          (processWithFaults P config s parsed faults).2 ↔
        CommitSees P config s parsed faults)) ∧
    ((∀ faults, Unharmed s clean (processWithFaults P config s parsed faults).1
        (processWithFaults P config s parsed faults).2) ↔
      config.activationHeight = none ∨ s.view.contracts = [] ∧ s.view.storage = []) := by
  refine ⟨fun faults hfaults => ?_, fun faults hnew hfaults =>
    unharmed_iff_commitSees hclean hnew hfree hfaults, ?_⟩
  · obtain ⟨hres, hstore⟩ := evalState_of_losesNothing
      (truthful_honest.yields_processParsedBlockM hclean) hfaults
    exact Prod.ext hres hstore
  · rw [← forall_unharmed_iff hs hjson hclean fun c hc => hfree c _ hc s.ledger.empty_partOf]
    constructor
    · intro h res s' hrun
      obtain ⟨faults, hfaults⟩ := yields_processParsedBlockM_iff.mp hrun
      have hunharmed := h faults
      rwa [hfaults] at hunharmed
    · exact fun h faults => h _ _ (yields_processParsedBlockM_iff.mpr ⟨faults, rfl⟩)

end Passes

/-! ### A store with a contract -/

/-- A commit applies to the ledger. -/
theorem RocksState.ledger_commitBlock (H : Hashing) (s : RocksState) (c : BlockCommit) :
    (s.commitBlock H c).1.ledger = s.ledger.apply c := by
  rw [commitBlock_eq, ledger_write_commitBatch]

/-- Without faults a pass lists everything. -/
theorem faultyItems_read {α : Type} (rows : List α) :
    faultyItems rows (Stream'.const .read) = rows.map .ok := by
  induction rows with
  | nil => rfl
  | cons row rows ih => exact congrArg (List.cons _) ih

/-- A read that does not fail answers with what is there. -/
theorem RocksState.answerWith_read (s : RocksState) (query : StoreRead) :
    s.answerWith ⟨none, Stream'.const .read⟩ query = s.view.answer query := by
  have hitems : ∀ rows : List (Bytes × Bytes),
      (faultyItems rows (Stream'.const .read)).filterMap Except.toOption = rows := by
    intro rows
    rw [faultyItems_read, List.filterMap_map]
    exact List.filterMap_some
  cases query with
  | hasContract id | getContract id | storageGet id key => rfl
  | contracts | storage =>
      rw [answerWith, hitems]
      rfl

/-- A pattern without failures loses nothing. -/
theorem losesNothing_none {α : Type} (p : StoreP α) (s : RocksState) :
    LosesNothing p s .none := by
  induction p generalizing s with
  | done a => trivial
  | perform e resume ih =>
      cases e with
      | read query => exact ⟨s.answerWith_read query, ih _ s⟩
      | write batch => exact ih _ _

/-- An iteration that fails at its first item finds nothing. -/
theorem RocksState.answerWith_stopped_storage (s : RocksState) (lookup : Option String)
    (e : String) : s.answerWith ⟨lookup, Stream'.const (.stopped e)⟩ .storage = [] := by
  have hitems : ∀ rows : List (Bytes × Bytes),
      faultyItems rows (Stream'.const (.stopped e)) = [.error e] := by
    intro rows
    cases rows <;> rfl
  rw [answerWith, hitems]
  rfl

/-- A pattern whose failures are in the passes of the root before a block, and lose nothing there,
loses nothing. -/
theorem losesNothing_processParsedBlockM {P : Platform} {config : IndexerConfig} {s : RocksState}
    {parsed : ParsedBlock} {activation : BlockHeight} {contracts storage : ReadFault}
    (hact : config.activationHeight = some activation) (hge : ¬ parsed.height < activation)
    (hcontracts : s.answerWith contracts .contracts = s.view.contracts)
    (hstorage : s.answerWith storage .storage = s.view.storage) :
    LosesNothing (processParsedBlockM P config s.view parsed) s
      (Stream'.cons contracts (Stream'.cons storage FaultPattern.none)) := by
  rw [processParsedBlockM, hact]
  dsimp only
  rw [if_neg hge]
  exact ⟨hcontracts, hstorage, losesNothing_none _ s⟩

/-- As many contracts are listed as there are. -/
theorem Ledger.length_contracts_view (l : Ledger) : l.view.contracts.length = l.contracts.size :=
  Std.ExtTreeMap.length_toList

/-- As much storage is listed as there is. -/
theorem Ledger.length_storage_view (l : Ledger) : l.view.storage.length = l.storage.size := by
  rw [view, List.length_map, Std.ExtTreeMap.length_toList]

/-- Hash functions that keep the length collide on nothing that is hashed for a part of a small
ledger and for the ledger, if its entries have different lengths. -/
theorem Ledger.PartOf.collisionFree_lengthHashing {part l : Ledger} (h : part.PartOf l)
    {c : BlockCommit} (hsize : (l.apply c).contracts.size + (l.apply c).storage.size < 8)
    (hleaf : Set.InjOn (fun input : Bytes => UInt8.ofNat input.length)
      {x | x ∈ Zalkanes.leafInputs (l.apply c).view}) :
    CollisionFree lengthHashing (part.apply c).view (l.apply c).view := by
  have hcontracts := h.sublist_contracts_apply c
  have hstorage := h.sublist_storage_apply c
  have hmem : ∀ x, x ∈ Zalkanes.leafInputs (part.apply c).view ∨
      x ∈ Zalkanes.leafInputs (l.apply c).view → x ∈ Zalkanes.leafInputs (l.apply c).view := by
    rintro x (hx | hx)
    · exact ((hcontracts.map _).append (hstorage.map _)).subset hx
    · exact hx
  have hreplicate : ∀ a b : UInt8, Bytes32.replicate a = Bytes32.replicate b → a = b := by
    intro a b hab
    have hbytes := congrArg Bytes32.bytes hab
    exact (List.replicate_inj.mp hbytes).2.resolve_left (by decide)
  constructor
  · intro x hx y hy hxy
    exact hleaf (hmem x hx) (hmem y hy) (hreplicate _ _ hxy)
  · -- preimages of one length come from ledgers of one size
    refine Set.injOn_pair.mpr fun hroot => ?_
    change (part.apply c).root lengthHashing = (l.apply c).root lengthHashing at hroot
    rw [root_lengthHashing, root_lengthHashing] at hroot
    have hsizes := congrArg UInt8.toNat (hreplicate _ _ hroot)
    simp only [UInt8.toNat_ofNat', ← length_contracts_view, ← length_storage_view] at hsizes
    rw [← length_contracts_view, ← length_storage_view] at hsize
    have hcontractsLe := hcontracts.length_le
    have hstorageLe := hstorage.length_le
    have hcontracts := hcontracts.eq_of_length (by omega)
    have hstorage := hstorage.eq_of_length (by omega)
    rw [collectLeaves, collectLeaves, hcontracts, hstorage]

/-- The ledger of a database with the register. -/
theorem RocksState.ledger_deployRegister :
    (fresh.commitBlock lengthHashing (deployRegister lengthHashing)).1.ledger =
      Ledger.empty.apply (deployRegister lengthHashing) := by
  rw [← ledger_fresh]
  exact ledger_commitBlock lengthHashing fresh _

/-- Setting its key collides with no part of it. -/
theorem collisionFree_setRegister {part : Ledger} {c : BlockCommit}
    (hpart : part.PartOf (Ledger.empty.apply (deployRegister lengthHashing)))
    (hc : (Ledger.empty.apply (deployRegister lengthHashing)).apply c =
      (Ledger.empty.apply (deployRegister lengthHashing)).apply setRegister) :
    CollisionFree lengthHashing (part.apply c).view
      ((Ledger.empty.apply (deployRegister lengthHashing)).apply c).view := by
  refine hpart.collisionFree_lengthHashing ?_ ?_
  · rw [hc]
    decide +kernel
  · rw [hc]
    have hlengths : ((leafInputs ((Ledger.empty.apply (deployRegister lengthHashing)).apply
      setRegister).view).map fun input => UInt8.ofNat input.length).Nodup := by decide +kernel
    exact fun x hx y hy => List.inj_on_of_nodup_map hlengths hx hy

/-- **Failing reads make a node accept a block with another root**: the register is deployed, and
no item of the iterations of the next block's commit is read. -/
theorem not_reads_unharmed :
    let P := registerPlatform lengthHashing fun _ => .ok []
    let s := (RocksState.fresh.commitBlock lengthHashing (deployRegister lengthHashing)).1
    let parsed : ParsedBlock := ⟨2, .replicate 2, []⟩
    ∃ clean cleanRes, processParsedBlock (RocksState.store lengthHashing P.json) P regtestConfig s
          parsed = .ok (clean, cleanRes) ∧
      ∃ faults be s', processWithFaults P regtestConfig s parsed faults = (.ok (.ok be), s') ∧
        ¬ Unharmed s clean (.ok (.ok be)) s' := by
  intro P s parsed
  have hledger : s.ledger = Ledger.empty.apply (deployRegister lengthHashing) :=
    RocksState.ledger_deployRegister
  clear_value s
  have hc : blockCommit P regtestConfig s.view parsed = .ok (some (.empty 2 (.replicate 2))) := rfl
  have hjson : ∀ execution, ∃ bytes, P.json execution = .ok bytes := fun _ => ⟨[], rfl⟩
  have hclean : ∃ clean cleanRes, processParsedBlock (RocksState.store P.hashing P.json) P
      regtestConfig s parsed = .ok (clean, cleanRes) := exists_processParsedBlock hc
  obtain ⟨clean, cleanRes, hclean⟩ := hclean
  obtain ⟨be, s', hrun, hroot⟩ := exists_yields_rootOfNothing hjson hclean hc
  obtain ⟨faults, hfaults⟩ := yields_processParsedBlockM_iff.mp hrun
  refine ⟨clean, cleanRes, hclean, faults, be, s', hfaults, fun hunharmed => ?_⟩
  have hroots := hroot hunharmed
  rw [Ledger.apply_empty, Ledger.apply_empty, hledger, show P.hashing = lengthHashing from rfl,
    root_lengthHashing, root_lengthHashing, (sizes_deployRegister lengthHashing).1,
    (sizes_deployRegister lengthHashing).2] at hroots
  change Bytes32.replicate (UInt8.ofNat (32 * 0)) = Bytes32.replicate (UInt8.ofNat (32 * 1))
    at hroots
  exact absurd hroots (by decide)

/-- Where a failing read had nothing to find: the register is deployed, and the storage pass of the
root before the next block fails at its first item. The key is set as it is without failures, while
other failures would do harm. -/
theorem reads_unharmed_iff_register :
    let P := registerPlatform lengthHashing fun _ => .ok []
    let s := (RocksState.fresh.commitBlock lengthHashing (deployRegister lengthHashing)).1
    let faults : FaultPattern := Stream'.cons ⟨none, Stream'.const .read⟩
      (Stream'.cons ⟨none, Stream'.const (.stopped "corruption")⟩ FaultPattern.none)
    ∃ clean res, processParsedBlock (RocksState.store lengthHashing P.json) P regtestConfig s
          (registerBlock₁ 2 1 1) = .ok (clean, res) ∧
      clean.storageGet registerId [0] = some [0] ∧
      processWithFaults P regtestConfig s (registerBlock₁ 2 1 1) faults = (.ok res, clean) ∧
      ¬ ∀ faults, Unharmed s clean (processWithFaults P regtestConfig s (registerBlock₁ 2 1 1)
        faults).1 (processWithFaults P regtestConfig s (registerBlock₁ 2 1 1) faults).2 := by
  intro P s faults
  have hledger : s.ledger = Ledger.empty.apply (deployRegister lengthHashing) :=
    RocksState.ledger_deployRegister
  have hs : s.ContractsWhole := RocksState.contractsWhole_fresh.commitBlock _ _
  clear_value s
  have hjson : ∀ execution, ∃ bytes, P.json execution = .ok bytes := fun _ => ⟨[], rfl⟩
  have hcode : s.view.getContract registerId =
      some (CodeHash.of lengthHashing registerWasm, registerWasm) := by
    change s.getContract registerId = _
    rw [← s.getElem?_ledger_contracts, hledger, Ledger.getElem?_contracts_apply]
    rfl
  have hcalls : blockCalls P regtestConfig s.view (registerBlock₁ 2 1 1) = _ :=
    blockCalls_registerBlock₁ 1 (show (1 : UInt32) ≤ 2 by decide) rfl
      (execute_register_set _ rfl rfl hcode)
  have honly : ∀ tx ∈ (registerBlock₁ 2 1 1).transactions, CallsOnly tx.outputs :=
    fun tx htx => List.mem_singleton.mp htx ▸ callsOnly_registerTx rfl
  obtain ⟨clean, res, hclean⟩ := exists_processParsedBlock_of_blockCalls
    (S := RocksState.store lengthHashing P.json) hcalls
  -- the block is a call that sets the key
  have hS := RocksState.committing lengthHashing P.json
  obtain ⟨calls, hcalls', -, hstorage⟩ := ledger_of_callsOnly hS honly hclean
  obtain rfl := Except.ok.inj (hcalls'.symm.trans hcalls)
  have happly : ∀ c, blockCommit P regtestConfig s.view (registerBlock₁ 2 1 1) = .ok (some c) →
      s.ledger.apply c = (Ledger.empty.apply (deployRegister lengthHashing)).apply setRegister := by
    intro c hc
    obtain ⟨calls, hcalls', hwrites⟩ := storageWrites_blockCommit hc
    obtain rfl := Except.ok.inj (hcalls'.symm.trans hcalls)
    rw [Ledger.apply, contractWrites_blockCommit honly hc, hwrites, hledger]
    rfl
  have hfree : ∀ c (part : Ledger),
      blockCommit P regtestConfig s.view (registerBlock₁ 2 1 1) = .ok (some c) →
      part.PartOf s.ledger →
      CollisionFree P.hashing (part.apply c).view (s.ledger.apply c).view := by
    intro c part hc hpart
    have hset := happly c hc
    rw [hledger] at hpart hset ⊢
    exact collisionFree_setRegister hpart hset
  obtain ⟨hlossless, -, hall⟩ := reads_unharmed_iff hs hjson hclean hfree
  refine ⟨clean, res, hclean, ?_, hlossless faults ?_, fun h => ?_⟩
  · change ((RocksState.store lengthHashing P.json).view clean).storageGet registerId [0] = _
    rw [hS.storageGet, hstorage, getElem?_applyAll]
    rfl
  · -- the storage pass over a store without storage
    refine losesNothing_processParsedBlockM (show regtestConfig.activationHeight = some 1 from rfl)
      (show ¬ (2 : UInt32) < 1 by decide) (s.answerWith_read .contracts) ?_
    rw [s.answerWith_stopped_storage]
    refine (List.eq_nil_iff_forall_not_mem.mpr ?_).symm
    rintro ⟨id, key, value⟩ he
    have hget := RocksState.mem_view_storage.mp he
    rw [← s.getElem?_ledger_storage, hledger, (sizes_deployRegister lengthHashing).2] at hget
    cases hget
  · rcases hall.mp h with hact | ⟨hcontracts, -⟩
    · cases hact
    · rw [RocksState.getContract_of_empty hcontracts] at hcode
      cases hcode

end Zalkanes
