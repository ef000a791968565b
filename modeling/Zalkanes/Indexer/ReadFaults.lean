import Zalkanes.Indexer.Deployed
import Zalkanes.Indexer.RootChain
import Zalkanes.Indexer.Sequential
import Zalkanes.Indexer.StoreProgram
import Zalkanes.State.Commitment
import Zalkanes.State.RocksRollback

/-!
# Failing Reads

A read of the database may fail. The store drops the error: a lookup that fails finds nothing
(`.ok().flatten()`), and an item that fails is left out of its iteration (`iter.flatten()`). So a
read answers with what is stored, or with less, and the block goes on. A failing read is harmless
where there is nothing to lose: where no block is committed, and in a store without contracts and
storage.

## Main definitions

* `RocksState.MayAnswer`: what a read may answer.
* `Unharmed`: the outcome of a block that failing reads did not change.

## Main results

* `RocksState.mayAnswer_contracts_iff`, `RocksState.mayAnswer_storage_iff`: an iteration answers
  with any part of its entries.
* `Ledger.PartOf.apply_eq_of_root_eq`: what a commit makes of a part of a ledger has another root.
* `forall_unharmed_iff`: when no run with failing reads changes the outcome.
-/

namespace Zalkanes

open Lib

/-! ### Lookups and iterations -/

/-- `.ok().flatten()`. -/
def okFlatten {α : Type} : Except String (Option α) → Option α
  | .ok value => value
  | .error _ => none

/-- An iteration over some rows: each item is read or fails, and a failing item may be the last. -/
inductive Iterates {α : Type} : List α → List (Except String α) → Prop
  | done : Iterates [] []
  | item (row : α) {rows : List α} {items : List (Except String α)} (h : Iterates rows items) :
      Iterates (row :: rows) (.ok row :: items)
  | failed (row : α) (e : String) {rows : List α} {items : List (Except String α)}
      (h : Iterates rows items) : Iterates (row :: rows) (.error e :: items)
  | stopped (rows : List α) (e : String) : Iterates rows [.error e]

/-- `iter.flatten()` yields a part of the rows. -/
theorem Iterates.sublist {α : Type} {rows : List α} {items : List (Except String α)}
    (h : Iterates rows items) : (items.filterMap Except.toOption).Sublist rows := by
  induction h with
  | done => exact List.Sublist.refl []
  | item row _ ih => exact ih.cons_cons row
  | failed row e _ ih => exact ih.cons row
  | stopped rows e => exact List.nil_sublist rows

/-- It may yield any part of the rows. -/
theorem exists_iterates {α : Type} {part rows : List α} (h : part.Sublist rows) :
    ∃ items, Iterates rows items ∧ items.filterMap Except.toOption = part := by
  induction h with
  | slnil => exact ⟨[], .done, rfl⟩
  | cons row _ ih =>
      obtain ⟨items, hitems, hpart⟩ := ih
      exact ⟨_, .failed row "" hitems, hpart⟩
  | cons_cons row _ ih =>
      obtain ⟨items, hitems, hpart⟩ := ih
      exact ⟨_, .item row hitems, congrArg (List.cons row) hpart⟩

namespace RocksState

/-- A lookup returns what is stored, or it fails. -/
def LooksUp (s : RocksState) (k : DbKey) (found : Except String (Option Bytes)) : Prop :=
  found = .ok (s.get k) ∨ ∃ e, found = .error e

/-- The rows from a key on. -/
def rowsFrom (s : RocksState) (start : Bytes) : List (Bytes × Bytes) :=
  s.db.toList.filter fun row => (compare start row.1).isLE

/-- What a read may answer, when the database may fail. -/
def MayAnswer (s : RocksState) : (query : StoreRead) → query.Answer → Prop
  | .hasContract id, r => ∃ found, s.LooksUp (.contract id) found ∧ r = (okFlatten found).isSome
  | .getContract id, r =>
      ∃ found, s.LooksUp (.contract id) found ∧ r = (okFlatten found).bind readBytes32
  | .storageGet id key, r => ∃ found, s.LooksUp (.storage id key) found ∧ r = okFlatten found
  | .contracts, r => ∃ items, Iterates (s.rowsFrom [0x63]) items ∧
      r = (items.filterMap Except.toOption).filterMap visitContract
  | .storage, r => ∃ items, Iterates (s.rowsFrom [0x73]) items ∧
      r = (items.filterMap Except.toOption).filterMap visitStorage

/-- How the database answers: reads may fail, writes do not. -/
def Faulty : Answers StoreCall.Answer RocksState
  | s, .read query, r, s' => s.MayAnswer query r ∧ s' = s
  | s, .write batch, _, s' => s' = s.write batch

variable {s : RocksState}

/-- A lookup finds what is there, or fails and finds nothing. -/
theorem looksUp_iff {α : Type} {k : DbKey} {f : Option Bytes → α} {r : α} :
    (∃ found, s.LooksUp k found ∧ r = f (okFlatten found)) ↔ r = f (s.get k) ∨ r = f none := by
  constructor
  · rintro ⟨found, rfl | ⟨e, rfl⟩, rfl⟩
    · exact Or.inl rfl
    · exact Or.inr rfl
  · rintro (rfl | rfl)
    · exact ⟨_, Or.inl rfl, rfl⟩
    · exact ⟨_, Or.inr ⟨"", rfl⟩, rfl⟩

/-- A pass lists what is there, less what fails. -/
theorem iterates_iff {α : Type} {rows : List (Bytes × Bytes)} {visit : Bytes × Bytes → Option α}
    {r : List α} :
    (∃ items, Iterates rows items ∧ r = (items.filterMap Except.toOption).filterMap visit) ↔
      r.Sublist (rows.filterMap visit) := by
  rw [List.sublist_filterMap_iff]
  constructor
  · rintro ⟨items, hitems, rfl⟩
    exact ⟨_, hitems.sublist, rfl⟩
  · rintro ⟨part, hpart, rfl⟩
    obtain ⟨items, hitems, rfl⟩ := exists_iterates hpart
    exact ⟨items, hitems, rfl⟩

/-- A lookup answers with what is stored, or with nothing. -/
theorem mayAnswer_hasContract_iff {id : ContractId} {r : Bool} :
    s.MayAnswer (.hasContract id) r ↔ r = s.view.hasContract id ∨ r = false :=
  looksUp_iff (f := Option.isSome)

/-- A contract is found, or missed. -/
theorem mayAnswer_getContract_iff {id : ContractId} {r : Option (CodeHash × Bytes)} :
    s.MayAnswer (.getContract id) r ↔ r = s.view.getContract id ∨ r = none :=
  looksUp_iff (f := fun found => found.bind readBytes32)

/-- A storage entry is found, or missed. -/
theorem mayAnswer_storageGet_iff {id : ContractId} {key : Bytes} {r : Option Bytes} :
    s.MayAnswer (.storageGet id key) r ↔ r = s.view.storageGet id key ∨ r = none :=
  looksUp_iff (f := fun found => found)

/-- **An iteration answers with any part of its entries.** -/
theorem mayAnswer_contracts_iff {r : List (ContractId × CodeHash × Bytes)} :
    s.MayAnswer .contracts r ↔ r.Sublist s.view.contracts := iterates_iff

/-- The storage is listed, less what fails. -/
theorem mayAnswer_storage_iff {r : List (ContractId × Bytes × Bytes)} :
    s.MayAnswer .storage r ↔ r.Sublist s.view.storage := iterates_iff

/-- No failure is one of the patterns of failures. -/
theorem truthful_faulty : Truthful Faulty where
  read s query := by
    refine ⟨?_, rfl⟩
    cases query with
    | hasContract id => exact mayAnswer_hasContract_iff.mpr (Or.inl rfl)
    | getContract id => exact mayAnswer_getContract_iff.mpr (Or.inl rfl)
    | storageGet id key => exact mayAnswer_storageGet_iff.mpr (Or.inl rfl)
    | contracts => exact mayAnswer_contracts_iff.mpr (List.Sublist.refl _)
    | storage => exact mayAnswer_storage_iff.mpr (List.Sublist.refl _)
  write _ _ := rfl

/-! ### Whole contracts -/

/-- Every contract has a code hash and its code, as a commit writes them. -/
def ContractsWhole (s : RocksState) : Prop :=
  ∀ id, s.view.hasContract id = true → (s.view.getContract id).isSome

/-- A batch that writes whole contracts keeps them whole. -/
theorem ContractsWhole.write (hs : s.ContractsWhole) {batch : WriteBatch}
    (hbatch : ∀ w ∈ batch, ∀ id value, w.key = .contract id → w.value? = some value →
      ∃ contract, value = contractValue contract) : (s.write batch).ContractsWhole := by
  intro id hhas
  change ((s.write batch).get (.contract id)).isSome = true at hhas
  change (((s.write batch).get (.contract id)).bind readBytes32).isSome = true
  rw [get_write] at hhas ⊢
  cases hlast : lastWrite batch (.contract id) with
  | none =>
      rw [hlast] at hhas
      exact hs id hhas
  | some r =>
      obtain ⟨w, hw, hkey, rfl⟩ := exists_mem_of_lastWrite hlast
      rw [hlast, Option.getD_some, Option.isSome_iff_exists] at hhas
      obtain ⟨value, hvalue⟩ := hhas
      obtain ⟨contract, rfl⟩ := hbatch w hw id value hkey hvalue
      rw [Option.getD_some, hvalue, Option.bind_some, contractValue, readBytes32_append]
      rfl

/-- A fresh store has no broken contract. -/
theorem contractsWhole_fresh : fresh.ContractsWhole := fun id hhas => by
  change (fresh.get (.contract id)).isSome = true at hhas
  rw [get_fresh] at hhas
  cases hhas

/-- A commit breaks no contract. -/
theorem ContractsWhole.commitBlock (hs : s.ContractsWhole) (H : Hashing) (c : BlockCommit) :
    (s.commitBlock H c).1.ContractsWhole := by
  rw [commitBlock_eq]
  refine hs.write fun w hw id value hkey hvalue => ?_
  rcases List.mem_append.mp hw with hw | hw
  · rcases List.mem_append.mp hw with hw | hw
    · rcases List.mem_append.mp hw with hw | hw
      · obtain ⟨d, -, rfl⟩ := List.mem_map.mp hw
        exact ⟨d.2, (Option.some.inj hvalue).symm⟩
      · obtain ⟨u, -, rfl⟩ := List.mem_map.mp hw
        cases hkey
    · obtain ⟨d, -, hw⟩ := List.mem_filterMap.mp hw
      obtain ⟨prev, -, rfl⟩ := Option.map_eq_some_iff.mp hw
      cases hkey
  · simp only [recordBatch, List.mem_cons, List.not_mem_nil, or_false] at hw
    rcases hw with rfl | rfl | rfl | rfl | rfl <;> cases hkey

/-- Undoing a block breaks no contract. -/
theorem ContractsWhole.undoHeight (hs : s.ContractsWhole) (h : BlockHeight) :
    (s.undoHeight h).ContractsWhole := by
  rw [RocksState.undoHeight]
  split
  · refine hs.write fun w hw id value hkey hvalue => ?_
    rcases List.mem_append.mp hw with hw | hw
    · obtain ⟨op, -, rfl⟩ := List.mem_map.mp hw
      rcases op with ⟨contract, key, _ | v⟩ | ⟨contract, key, prev⟩ | ⟨contract, _ | prev⟩
      · cases hkey
      · cases hkey
      · cases hkey
      · cases hvalue
      · exact ⟨prev, (Option.some.inj hvalue).symm⟩
    · simp only [List.mem_cons, List.not_mem_nil, or_false] at hw
      rcases hw with rfl | rfl <;> cases hkey
  · exact hs

/-- A rollback breaks no contract. -/
theorem ContractsWhole.rollbackTo (hs : s.ContractsWhole) (target : BlockHeight) :
    (s.rollbackTo target).1.ContractsWhole := by
  have hundone : ∀ (heights : List BlockHeight) (s : RocksState), s.ContractsWhole →
      (heights.foldl RocksState.undoHeight s).ContractsWhole := by
    intro heights
    induction heights with
    | nil => exact fun s hs => hs
    | cons h heights ih => exact fun s hs => ih _ (hs.undoHeight h)
  rw [RocksState.rollbackTo]
  have hs := hundone (s.heightsAbove target) s hs
  generalize (s.heightsAbove target).foldl RocksState.undoHeight s = s at hs ⊢
  dsimp only
  rw [metadataWrites]
  split <;>
    · refine ((hs.write ?_).write ?_).write ?_ <;>
        · intro w hw id value hkey
          rw [List.mem_singleton.mp hw] at hkey
          cases hkey

/-- Execution records break no contract. -/
theorem ContractsWhole.saveExecutions (hs : s.ContractsWhole)
    (json : Execution → Except String Bytes) (executions : List Execution) :
    (s.saveExecutions json executions).1.ContractsWhole := by
  have hview : (s.saveExecutions json executions).1.view = s.view :=
    (agreesOff_saveExecutions json s executions).view (fun _ hexec => hexec) fun _ _ hexec => hexec
  rw [ContractsWhole, hview]
  exact hs

/-- **The contracts of every run of commits and rollbacks are whole.** -/
theorem contractsWhole_run (H : Hashing) (json : Execution → Except String Bytes)
    (ops : List StoreOp) : ((store H json).run fresh ops).1.ContractsWhole := by
  have hrun : ∀ s : RocksState, s.ContractsWhole →
      ((store H json).run s ops).1.ContractsWhole := by
    induction ops with
    | nil => exact fun s hs => hs
    | cons op ops ih =>
        intro s hs
        cases op with
        | commit c => exact ih _ (hs.commitBlock H c)
        | rollback target => exact ih _ (hs.rollbackTo target)
  exact hrun fresh contractsWhole_fresh

/-! ### Outcomes -/

/-- The two stores have the same contracts, storage, height records and root. -/
structure SameOutcome (s s' : RocksState) : Prop where
  contracts : s'.view.contracts = s.view.contracts
  storage : s'.view.storage = s.view.storage
  heightHistory : s'.heightHistory = s.heightHistory
  persistedStateRoot : s'.persistedStateRoot = s.persistedStateRoot

/-- A store has its own outcome. -/
theorem SameOutcome.refl (s : RocksState) : SameOutcome s s := ⟨rfl, rfl, rfl, rfl⟩

/-- Stores that agree but for execution records have one outcome. -/
theorem AgreesOff.sameOutcome {s s' : RocksState} (h : AgreesOff IsExec s' s) :
    SameOutcome s s' := by
  have hview : s'.view = s.view := h.view (fun _ hexec => hexec) fun _ _ hexec => hexec
  refine ⟨by rw [hview], by rw [hview], h.heightHistory fun _ hexec => hexec, ?_⟩
  rw [persistedStateRoot, persistedStateRoot, h.get .metaRoot fun hexec => hexec]

/-! ### A store with nothing to lose -/

/-- A contract that is found is there. -/
theorem hasContract_of_getContract {id : ContractId} {contract : CodeHash × Bytes}
    (h : s.getContract id = some contract) : s.view.hasContract id = true := by
  obtain ⟨value, hvalue, -⟩ := Option.bind_eq_some_iff.mp h
  change (s.get (.contract id)).isSome = true
  rw [hvalue]
  rfl

/-- Nothing is found where nothing is listed. -/
theorem getContract_of_empty (h : s.view.contracts = []) (id : ContractId) :
    s.view.getContract id = none := by
  refine Option.eq_none_iff_forall_ne_some.mpr fun contract hget => ?_
  have hmem := mem_view_contracts.mpr hget
  rw [h] at hmem
  cases hmem

/-- No storage is found where none is listed. -/
theorem storageGet_of_empty (h : s.view.storage = []) (id : ContractId) (key : Bytes) :
    s.view.storageGet id key = none := by
  refine Option.eq_none_iff_forall_ne_some.mpr fun value hget => ?_
  have hmem := mem_view_storage.mpr hget
  rw [h] at hmem
  cases hmem

/-- **Without contracts and storage, a failing read answers as any read does.** -/
theorem eq_answer_of_empty (hs : s.ContractsWhole) (hcontracts : s.view.contracts = [])
    (hstorage : s.view.storage = []) (query : StoreRead) (r : query.Answer) (s' : RocksState)
    (h : Faulty s (.read query) r s') : r = s.view.answer query ∧ s' = s := by
  obtain ⟨h, hs'⟩ := h
  refine ⟨?_, hs'⟩
  have hget := getContract_of_empty hcontracts
  cases query with
  | hasContract id =>
      have hnone : s.view.hasContract id = false := by
        refine Bool.eq_false_iff.mpr fun hhas => ?_
        have hsome := hs id hhas
        rw [hget id] at hsome
        cases hsome
      exact (mayAnswer_hasContract_iff.mp h).elim (fun h => h) fun h => h.trans hnone.symm
  | getContract id =>
      exact (mayAnswer_getContract_iff.mp h).elim (fun h => h) fun h => h.trans (hget id).symm
  | storageGet id key =>
      exact (mayAnswer_storageGet_iff.mp h).elim (fun h => h) fun h =>
        h.trans (storageGet_of_empty hstorage id key).symm
  | contracts =>
      have hsub := mayAnswer_contracts_iff.mp h
      rw [hcontracts, List.sublist_nil] at hsub
      exact hsub.trans hcontracts.symm
  | storage =>
      have hsub := mayAnswer_storage_iff.mp h
      rw [hstorage, List.sublist_nil] at hsub
      exact hsub.trans hstorage.symm

/-- Code that only reads leaves the store as it is. -/
theorem eq_of_yields_reading {α : Type} {p : ReadP α} {a : α} {s' : RocksState}
    (h : Prog.Yields Faulty (reading p) s a s') : s' = s :=
  (Prog.yields_inject.mp h).eq fun _ _ _ _ h => h.2

section Empty

variable {H : Hashing} {P : Platform} {config : IndexerConfig} {s' : RocksState}

/-- On an empty store a commit writes its batch, whatever fails. -/
theorem eq_write_of_empty (hs : s.ContractsWhole) (hcontracts : s.view.contracts = [])
    (hstorage : s.view.storage = []) {c : BlockCommit} {r : Except String StateRoot}
    (h : Prog.Yields Faulty (commitBlockP H c) s r s') : s' = s.write (s.commitBatch H c) := by
  have hread := eq_answer_of_empty hs hcontracts hstorage
  obtain ⟨reads, s₁, hreads, h⟩ := Prog.yields_bind.mp h
  obtain ⟨rfl, rfl⟩ := Prog.eq_eval_of_yields hread (Prog.yields_inject.mp hreads)
  obtain ⟨root, s₁, hroot, h⟩ := Prog.yields_bind.mp h
  obtain ⟨rfl, rfl⟩ := Prog.eq_eval_of_yields hread (Prog.yields_inject.mp hroot)
  obtain ⟨_, s₁, hwrite, h⟩ := Prog.yields_bind.mp h
  obtain rfl := Prog.yields_call.mp hwrite
  obtain ⟨applied, s₁, hroot, h⟩ := Prog.yields_bind.mp h
  obtain rfl := eq_of_yields_reading hroot
  rw [batch_eval_commitReadsP, eval_projectedRootP, projectedRoot_view] at h
  split at h <;> cases h <;> rfl

/-- Execution records change nothing else. -/
theorem agreesOff_of_yields_saveExecutionsP {json : Execution → Except String Bytes}
    {executions : List Execution} {r : Except String Unit}
    (h : Prog.Yields Faulty (saveExecutionsP json executions) s r s') : AgreesOff IsExec s' s := by
  have hsaved := agreesOff_saveExecutions json s executions
  rw [saveExecutionsP] at h
  rw [saveExecutions] at hsaved
  split at h
  · rename_i hencode
    rw [hencode] at hsaved
    cases h
    exact hsaved
  · rename_i hencode
    rw [hencode] at hsaved
    obtain ⟨_, s₁, hwrite, h⟩ := Prog.yields_bind.mp h
    obtain rfl := Prog.yields_call.mp hwrite
    cases h
    exact hsaved

/-- On an empty store a block is committed, whatever fails. -/
theorem agreesOff_of_empty (hs : s.ContractsWhole) (hcontracts : s.view.contracts = [])
    (hstorage : s.view.storage = []) {parsed : ParsedBlock} {c : BlockCommit}
    (hc : blockCommit P config s.view parsed = .ok (some c))
    {r : Except Panic (Except String BlockExecution)}
    (h : Prog.Yields Faulty (processParsedBlockM P config s.view parsed) s r s') :
    AgreesOff IsExec s' (s.write (s.commitBatch P.hashing c)) := by
  have hwrite : ∀ {c r s'}, Prog.Yields Faulty (commitBlockP P.hashing c) s r s' →
      s' = s.write (s.commitBatch P.hashing c) := eq_write_of_empty hs hcontracts hstorage
  unfold blockCommit at hc
  unfold processParsedBlockM at h
  cases hact : config.activationHeight with
  | none =>
      rw [hact] at hc
      cases hc
  | some activation =>
      rw [hact] at hc h
      dsimp only at hc h
      split at hc
      · rename_i hlt
        obtain rfl := Option.some.inj (Except.ok.inj hc)
        rw [if_pos hlt] at h
        obtain ⟨res, s₁, hempty, h⟩ := Prog.yields_bind.mp h
        cases h
        obtain ⟨r, s₁, hcommit, h⟩ := Prog.yields_bind.mp hempty
        obtain rfl := hwrite hcommit
        split at h <;> cases h <;> exact AgreesOff.refl IsExec _
      · rename_i hge
        obtain ⟨acc, hacc, hc⟩ := map_eq_ok hc
        obtain rfl := Option.some.inj hc
        rw [if_neg hge] at h
        obtain ⟨root, s₁, hroot, h⟩ := Prog.yields_bind.mp h
        obtain rfl := eq_of_yields_reading hroot
        obtain ⟨racc, s₁, hread, h⟩ := Prog.yields_bind.mp h
        obtain ⟨rfl, rfl⟩ := Prog.eq_eval_of_yields (eq_answer_of_empty hs hcontracts hstorage)
          (Prog.yields_inject.mp hread)
        rw [eval_processTransactionsM, hacc] at h
        obtain ⟨res, s₁, hfinish, h⟩ := Prog.yields_bind.mp h
        cases h
        obtain ⟨r, s₁, hcommit, h⟩ := Prog.yields_bind.mp hfinish
        obtain rfl := hwrite hcommit
        split at h
        · cases h
          exact AgreesOff.refl IsExec _
        · obtain ⟨saved, s₁, hsave, h⟩ := Prog.yields_bind.mp h
          split at h <;> cases h <;> exact agreesOff_of_yields_saveExecutionsP hsave

end Empty

end RocksState

/-! ### A store with something to lose -/

namespace Ledger

/-- All entries of the first ledger are entries of the second. -/
structure PartOf (part l : Ledger) : Prop where
  contracts : ∀ (id : ContractId) (contract : CodeHash × Bytes),
    part.contracts[id]? = some contract → l.contracts[id]? = some contract
  storage : ∀ (k : ContractId × Bytes) (value : Bytes),
    part.storage[k]? = some value → l.storage[k]? = some value

variable {part l : Ledger}

/-- The empty ledger is a part of every ledger. -/
theorem empty_partOf (l : Ledger) : Ledger.empty.PartOf l where
  contracts _ _ h := by simp [Ledger.empty] at h
  storage _ _ h := by simp [Ledger.empty] at h

/-- What a commit makes of a part is a part of what it makes of the ledger. -/
theorem PartOf.sublist_contracts_apply (h : part.PartOf l) (c : BlockCommit) :
    (part.apply c).view.contracts.Sublist (l.apply c).view.contracts :=
  OrdMap.sublist_toList_applyAll h.contracts c.contractWrites

/-- A commit to a part of the storage leaves a part. -/
theorem PartOf.sublist_storage_apply (h : part.PartOf l) (c : BlockCommit) :
    (part.apply c).view.storage.Sublist (l.apply c).view.storage :=
  (OrdMap.sublist_toList_applyAll h.storage c.storageWrites).map _

/-- **A commit makes the same root of a part and of the ledger** only where it makes the same of
both. -/
theorem PartOf.apply_eq_of_root_eq {H : Hashing} (h : part.PartOf l) {c : BlockCommit}
    (hfree : CollisionFree H (part.apply c).view (l.apply c).view)
    (hroot : (part.apply c).root H = (l.apply c).root H) : part.apply c = l.apply c := by
  have hcontracts := h.sublist_contracts_apply c
  have hstorage := h.sublist_storage_apply c
  have hlength := (perm_of_computeRoot_eq hfree hroot).length_eq
  simp only [Zalkanes.leafInputs, List.length_append, List.length_map] at hlength
  have hle := hcontracts.length_le
  have hle' := hstorage.length_le
  have hcontracts := hcontracts.eq_of_length (by omega)
  have hstorage := hstorage.eq_of_length (by omega)
  rw [← (part.apply c).ledger_view, ← (l.apply c).ledger_view, StateView.ledger, StateView.ledger,
    hcontracts, hstorage]

end Ledger

section Lossy

variable {P : Platform} {config : IndexerConfig} {s : RocksState} {parsed : ParsedBlock}
  {c : BlockCommit}

/-- A commit that sees nothing before it writes, and only its own entries afterwards, does not
notice. -/
theorem yields_commitBlockP_lossy (H : Hashing) (s : RocksState) (c : BlockCommit) :
    ∃ s', Prog.Yields RocksState.Faulty (commitBlockP H c) s
        (.ok ((Ledger.empty.apply c).root H)) s' ∧
      s'.persistedStateRoot = some ((Ledger.empty.apply c).root H) := by
  let root := (Ledger.empty.apply c).root H
  let s' := s.write (s.dataBatch c ++ RocksState.recordBatch c (s.journal c) root)
  have hledger : s'.ledger = s.ledger.apply c := s.ledger_write_commit c _ root
  have hcontracts : (Ledger.empty.apply c).view.contracts.Sublist s'.view.contracts := by
    rw [← s'.view_sorted.toList_contracts]
    exact (congrArg Ledger.contracts hledger) ▸ s.ledger.empty_partOf.sublist_contracts_apply c
  have hstorage : (Ledger.empty.apply c).view.storage.Sublist s'.view.storage := by
    have hview : (s.ledger.apply c).view.storage = s'.view.storage := by
      rw [← hledger, Ledger.view, RocksState.ledger]
      dsimp only
      rw [s'.view_sorted.toList_storage, List.map_map]
      exact List.map_id _
    exact hview ▸ s.ledger.empty_partOf.sublist_storage_apply c
  refine ⟨s', RocksState.truthful_faulty.yields_commitBlockP
    (projectedRoot_eq H (visited [] []) c).symm rfl
    ⟨RocksState.mayAnswer_contracts_iff.mpr (List.nil_sublist _), rfl⟩
    ⟨RocksState.mayAnswer_storage_iff.mpr (List.nil_sublist _), rfl⟩
    ⟨RocksState.mayAnswer_contracts_iff.mpr hcontracts, rfl⟩
    ⟨RocksState.mayAnswer_storage_iff.mpr hstorage, rfl⟩ rfl, ?_⟩
  rw [RocksState.persistedStateRoot, RocksState.get_write, lastWrite_append]
  exact Bytes32.ofBytes?_bytes root

/-- The records of a block are saved after its commit. -/
theorem Truthful.exists_yields_of_commit {A : Answers StoreCall.Answer RocksState}
    (hA : Truthful A) (hjson : ∀ execution, ∃ bytes, P.json execution = .ok bytes)
    (hc : blockCommit P config s.view parsed = .ok (some c)) {root : StateRoot} {s₁ : RocksState}
    (hcommit : Prog.Yields A (commitBlockP P.hashing c) s (.ok root) s₁) :
    ∃ be es, Prog.Yields A (processParsedBlockM P config s.view parsed) s (.ok (.ok be))
      (s₁.saveExecutions P.json es).1 := by
  unfold blockCommit at hc
  unfold processParsedBlockM
  cases hact : config.activationHeight with
  | none =>
      rw [hact] at hc
      cases hc
  | some activation =>
      rw [hact] at hc
      dsimp only at hc ⊢
      split at hc
      · rename_i hlt
        obtain rfl := Option.some.inj (Except.ok.inj hc)
        rw [if_pos hlt]
        exact ⟨_, [], Prog.yields_bind.mpr ⟨_, _, Prog.yields_bind.mpr ⟨_, _, hcommit, .done _ _⟩,
          .done _ _⟩⟩
      · rename_i hge
        obtain ⟨acc, hacc, hc⟩ := map_eq_ok hc
        obtain rfl := Option.some.inj hc
        rw [if_neg hge]
        have hread := hA.yields_reading (processTransactionsM P config s.view parsed).run s
        rw [eval_processTransactionsM, hacc] at hread
        have hsave := hA.yields_saveExecutionsP P.json s₁ acc.executions
        rw [RocksState.saveExecutions_ok hjson] at hsave
        exact ⟨_, acc.executions, Prog.yields_bind.mpr
          ⟨_, s, hA.yields_reading (computeRootP P.hashing) s, Prog.yields_bind.mpr
            ⟨_, s, hread, Prog.yields_bind.mpr ⟨_, _, Prog.yields_bind.mpr ⟨_, _, hcommit,
              Prog.yields_bind.mpr ⟨_, _, hsave, .done _ _⟩⟩, .done _ _⟩⟩⟩⟩

/-- Without contracts, a block writes no storage. -/
theorem storageWrites_of_empty (hcontracts : s.view.contracts = [])
    (hc : blockCommit P config s.view parsed = .ok (some c)) : c.storageWrites = [] := by
  obtain ⟨calls, hcalls, hwrites⟩ := storageWrites_blockCommit hc
  have hnil : writeLog calls = [] := by
    refine List.eq_nil_iff_forall_not_mem.mpr fun w hw => ?_
    obtain ⟨r, hr, write, hwrite, -⟩ := exists_request_of_mem_writeLog hcalls hw
    have hexec := execute_of_mem_blockCalls hcalls r hr
    have hdepth := (context_of_mem_blockCalls hcalls r hr).2
    rw [(execute_contractNotFound_iff hdepth).mpr (RocksState.getContract_of_empty hcontracts _)]
      at hexec
    rw [← Except.ok.inj hexec] at hwrite
    cases hwrite
  rw [hwrites, hnil]
  rfl

/-- **The roots of what a block makes of nothing and of the store differ**, unless the store has
nothing: a block replaces no contract, and without contracts it removes no storage entry. -/
theorem empty_of_root_eq (hc : blockCommit P config s.view parsed = .ok (some c))
    (hfree : CollisionFree P.hashing (Ledger.empty.apply c).view (s.ledger.apply c).view)
    (hroot : (Ledger.empty.apply c).root P.hashing = (s.ledger.apply c).root P.hashing) :
    s.view.contracts = [] ∧ s.view.storage = [] := by
  have hledger := s.ledger.empty_partOf.apply_eq_of_root_eq hfree hroot
  have hnone : s.view.contracts = [] := by
    refine List.eq_nil_iff_forall_not_mem.mpr fun e he => ?_
    have hget : s.getContract e.1 = some e.2 := RocksState.mem_view_contracts.mp he
    have hnew : lastWrite c.contractWrites e.1 = none := by
      refine lastWrite_eq_none_iff.mpr fun w hw hkey => ?_
      obtain ⟨d, hd, rfl⟩ := List.mem_map.mp hw
      have hhas := (authentic_of_mem_deploys hc d hd).1
      rw [show d.1 = e.1 from hkey, RocksState.hasContract_of_getContract hget] at hhas
      cases hhas
    have hmem : e ∈ (s.ledger.apply c).view.contracts := by
      refine Std.ExtTreeMap.mem_toList_iff_getElem?_eq_some.mpr ?_
      rwa [Ledger.getElem?_contracts_apply, hnew, Option.getD_none,
        RocksState.getElem?_ledger_contracts]
    rw [← hledger] at hmem
    have hempty := Std.ExtTreeMap.mem_toList_iff_getElem?_eq_some.mp hmem
    rw [Ledger.getElem?_contracts_apply, hnew] at hempty
    cases hempty
  refine ⟨hnone, List.eq_nil_iff_forall_not_mem.mpr ?_⟩
  rintro ⟨id, key, value⟩ he
  have hwrites := storageWrites_of_empty hnone hc
  have hmem : ((id, key), value) ∈ (s.ledger.apply c).storage.toList := by
    refine Std.ExtTreeMap.mem_toList_iff_getElem?_eq_some.mpr ?_
    rw [Ledger.getElem?_storage_apply, hwrites, lastWrite_nil, Option.getD_none,
      RocksState.getElem?_ledger_storage]
    exact RocksState.mem_view_storage.mp he
  rw [← hledger] at hmem
  have hempty := Std.ExtTreeMap.mem_toList_iff_getElem?_eq_some.mp hmem
  rw [Ledger.getElem?_storage_apply, hwrites] at hempty
  cases hempty

end Lossy

/-! ### Harm -/

/-- The outcome of a block is an error and the store as it was, or what the block leaves when no
read fails. -/
def Unharmed (s clean : RocksState) (res : Except Panic (Except String BlockExecution))
    (s' : RocksState) : Prop :=
  (∃ e, res = .ok (.error e)) ∧ s' = s ∨ clean.SameOutcome s'

section Unharmed

variable {P : Platform} {config : IndexerConfig} {s : RocksState} {parsed : ParsedBlock}

/-- Only a network without activation commits no block. -/
theorem activationHeight_of_blockCommit_none {store : StateView}
    (h : blockCommit P config store parsed = .ok none) : config.activationHeight = none := by
  unfold blockCommit at h
  split at h
  · assumption
  · split at h
    · cases h
    · obtain ⟨acc, -, hcommit⟩ := map_eq_ok h
      cases hcommit

/-- Without an activation height, the store stays as it is. -/
theorem eq_of_activationHeight_none (hact : config.activationHeight = none) {base : StateView}
    {res : Except Panic (Except String BlockExecution)} {s' : RocksState}
    (h : Prog.Yields RocksState.Faulty (processParsedBlockM P config base parsed) s res s') :
    s' = s := by
  unfold processParsedBlockM at h
  rw [hact] at h
  obtain ⟨before, s₁, hbefore, h⟩ := Prog.yields_bind.mp h
  obtain ⟨after, s₂, hafter, h⟩ := Prog.yields_bind.mp h
  cases h
  rw [RocksState.eq_of_yields_reading hafter, RocksState.eq_of_yields_reading hbefore]

/-- What the block leaves, up to the execution records. -/
theorem agreesOff_of_processParsedBlock {s' : RocksState} {c : BlockCommit}
    {res : Except String BlockExecution}
    (h : processParsedBlock (RocksState.store P.hashing P.json) P config s parsed = .ok (s', res))
    (hc : blockCommit P config s.view parsed = .ok (some c)) :
    RocksState.AgreesOff RocksState.IsExec s' (s.write (s.commitBatch P.hashing c)) := by
  have hwritten : (s.commitBlock P.hashing c).1 = s.write (s.commitBatch P.hashing c) := by
    rw [RocksState.commitBlock_eq]
  rcases processParsedBlock_cases h with ⟨hnone, -⟩ | ⟨c', hc', hstate⟩
  · cases hnone.symm.trans hc
  · obtain rfl := Option.some.inj (Except.ok.inj (hc'.symm.trans hc))
    rcases hstate with rfl | ⟨es, rfl⟩ <;> rw [← hwritten]
    · exact RocksState.AgreesOff.refl _ _
    · exact RocksState.agreesOff_saveExecutions P.json _ es

/-- A store that looks as the block leaves it has persisted the root of the ledger after it. -/
theorem eq_root_of_sameOutcome {clean s₁ : RocksState} {c : BlockCommit} {root : StateRoot}
    {es : List Execution} {res : Except String BlockExecution}
    (hclean : processParsedBlock (RocksState.store P.hashing P.json) P config s parsed =
      .ok (clean, res))
    (hc : blockCommit P config s.view parsed = .ok (some c))
    (hroot : s₁.persistedStateRoot = some root)
    (hsame : clean.SameOutcome (s₁.saveExecutions P.json es).1) :
    root = (s.ledger.apply c).root P.hashing := by
  have hsaved := (RocksState.agreesOff_saveExecutions P.json s₁ es).sameOutcome
  have hcommitted := (agreesOff_of_processParsedBlock hclean hc).sameOutcome
  have hmeta := (s.get_commitBatch_meta P.hashing c).2.2
  refine Option.some.inj ?_
  rw [← hroot, ← hsaved.persistedStateRoot, hsame.persistedStateRoot,
    hcommitted.persistedStateRoot, RocksState.persistedStateRoot, hmeta]
  exact Bytes32.ofBytes?_bytes _

/-- Failures under which the block is accepted, and the root of the empty store's commit is
persisted. -/
theorem exists_yields_rootOfNothing {clean : RocksState} {cleanRes : Except String BlockExecution}
    {c : BlockCommit} (hjson : ∀ execution, ∃ bytes, P.json execution = .ok bytes)
    (hclean : processParsedBlock (RocksState.store P.hashing P.json) P config s parsed =
      .ok (clean, cleanRes))
    (hc : blockCommit P config s.view parsed = .ok (some c)) :
    ∃ be s', Prog.Yields RocksState.Faulty (processParsedBlockM P config s.view parsed) s
        (.ok (.ok be)) s' ∧
      (Unharmed s clean (.ok (.ok be)) s' →
        (Ledger.empty.apply c).root P.hashing = (s.ledger.apply c).root P.hashing) := by
  obtain ⟨s₁, hcommit, hroot⟩ := yields_commitBlockP_lossy P.hashing s c
  obtain ⟨be, es, hrun⟩ := RocksState.truthful_faulty.exists_yields_of_commit hjson hc hcommit
  refine ⟨be, _, hrun, ?_⟩
  rintro (⟨⟨e, he⟩, -⟩ | hsame)
  · cases he
  · exact eq_root_of_sameOutcome hclean hc hroot hsame

/-- No run with failing reads changes the outcome of a block exactly if no block is committed, or
the store has neither contracts nor storage to lose. -/
theorem forall_unharmed_iff {clean : RocksState} {cleanRes : Except String BlockExecution}
    (hs : s.ContractsWhole) (hjson : ∀ execution, ∃ bytes, P.json execution = .ok bytes)
    (hclean : processParsedBlock (RocksState.store P.hashing P.json) P config s parsed =
      .ok (clean, cleanRes))
    (hfree : ∀ c, blockCommit P config s.view parsed = .ok (some c) →
      CollisionFree P.hashing (Ledger.empty.apply c).view (s.ledger.apply c).view) :
    (∀ res s', Prog.Yields RocksState.Faulty (processParsedBlockM P config s.view parsed) s res s' →
      Unharmed s clean res s') ↔
      config.activationHeight = none ∨ s.view.contracts = [] ∧ s.view.storage = [] := by
  rcases processParsedBlock_cases hclean with ⟨hnone, rfl⟩ | ⟨c, hc, -⟩
  · have hact := activationHeight_of_blockCommit_none hnone
    refine iff_of_true (fun res s' hrun => Or.inr ?_) (Or.inl hact)
    rw [eq_of_activationHeight_none hact hrun]
    exact RocksState.SameOutcome.refl _
  · constructor
    · intro h
      obtain ⟨be, s', hrun, hroot⟩ := exists_yields_rootOfNothing hjson hclean hc
      exact Or.inr (empty_of_root_eq hc (hfree c hc) (hroot (h _ _ hrun)))
    · rintro (hnone | ⟨hcontracts, hstorage⟩) res s' hrun
      · rw [blockCommit, hnone] at hc
        cases hc
      · have hcommitted := agreesOff_of_processParsedBlock hclean hc
        exact Or.inr ((RocksState.agreesOff_of_empty hs hcontracts hstorage hc hrun).trans
          hcommitted.symm).sameOutcome

end Unharmed

end Zalkanes
