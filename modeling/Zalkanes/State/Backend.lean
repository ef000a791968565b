import Zalkanes.State.MemoryRuns
import Zalkanes.State.RocksRollback

/-!
# Lawful Stores

What the indexer may rely on in a state store, whichever backend it is: a relation between
stores and lists of commits under which every operation acts on the list (`LawfulStore`). Both
backends are lawful, so a result proved from the laws holds of both.

## Main results

* `MemoryState.lawful`, `RocksState.lawful`.
* `MemoryState.committing`, `RocksState.committing`: what a commit does in any state.
* `LawfulStore.step`: what an operation does to the commits a store represents.
-/

namespace Zalkanes

open Lib

/-! ### Observations and runs -/

/-- Everything a store reports, saved executions aside. -/
structure Observation where
  view : StateView
  root : StateRoot
  indexedHeight : Option BlockHeight
  indexedBlockHash : Option BlockHash
  persistedStateRoot : Option StateRoot
  heightHistory : List HeightRecord

namespace StateStore

variable {σ : Type} (S : StateStore σ)

/-- What the store reports. -/
def observe (H : Hashing) (s : σ) : Observation where
  view := S.view s
  root := computeRoot H (S.view s)
  indexedHeight := S.indexedHeight s
  indexedBlockHash := S.indexedBlockHash s
  persistedStateRoot := S.persistedStateRoot s
  heightHistory := S.heightHistory s

/-- One operation, with what it returns: a commit its root, a rollback nothing. -/
def step (s : σ) : StoreOp → σ × Except String (Option StateRoot)
  | .commit c => ((S.commitBlock s c).1, (S.commitBlock s c).2.map some)
  | .rollback t => ((S.rollbackTo s t).1, (S.rollbackTo s t).2.map fun _ => none)

/-- A run from `s`: the store it ends in, and the results of its operations in order. -/
def run (s : σ) : List StoreOp → σ × List (Except String (Option StateRoot))
  | [] => (s, [])
  | op :: ops => ((run (S.step s op).1 ops).1, (S.step s op).2 :: (run (S.step s op).1 ops).2)

/-- One run after the other. -/
theorem run_append (s : σ) (ops ops' : List StoreOp) :
    S.run s (ops ++ ops') =
      ((S.run (S.run s ops).1 ops').1, (S.run s ops).2 ++ (S.run (S.run s ops).1 ops').2) := by
  induction ops generalizing s with
  | nil => rfl
  | cons op ops ih => rw [List.cons_append, run, ih, run, List.cons_append]

/-- The last operation of a run. -/
theorem run_append_singleton (s : σ) (ops : List StoreOp) (op : StoreOp) :
    S.run s (ops ++ [op]) =
      ((S.step (S.run s ops).1 op).1, (S.run s ops).2 ++ [(S.step (S.run s ops).1 op).2]) :=
  S.run_append s ops [op]

end StateStore

/-! ### The laws -/

/-- What a list of commits makes a store report. -/
def observationOf (H : Hashing) (cs : List BlockCommit) : Observation where
  view := (ledgerOf cs).view
  root := (ledgerOf cs).root H
  indexedHeight := cs.getLast?.map BlockCommit.height
  indexedBlockHash := cs.getLast?.map BlockCommit.zcashBlockHash
  persistedStateRoot := cs.getLast?.map fun _ => (ledgerOf cs).root H
  heightHistory := recordsOf H cs

/-- The commits of a store that is in use: their heights increase, and their lengths fit the
journal format. -/
structure Regular (cs : List BlockCommit) : Prop where
  increasing : Increasing cs
  fits : ∀ c ∈ cs, c.Fits

/-- No commits are regular. -/
theorem Regular.nil : Regular [] := ⟨List.Pairwise.nil, by simp⟩

/-- One more commit above the others. -/
theorem Regular.append_singleton {cs : List BlockCommit} (h : Regular cs) {c : BlockCommit}
    (hlt : ∀ d ∈ cs, d.level < c.level) (hc : c.Fits) : Regular (cs ++ [c]) where
  increasing := List.pairwise_append.mpr ⟨h.increasing, List.pairwise_singleton _ _,
    fun d hd e he => by rw [List.mem_singleton.mp he]; exact hlt d hd⟩
  fits d hd := by
    rcases List.mem_append.mp hd with hd | hd
    · exact h.fits d hd
    · rw [List.mem_singleton.mp hd]
      exact hc

/-- The commits up to a height. -/
theorem Regular.commitsUpTo {cs : List BlockCommit} (h : Regular cs) (t : BlockHeight) :
    Regular (commitsUpTo t cs) :=
  ⟨h.increasing.filter _, fun c hc => h.fits c (List.mem_of_mem_filter hc)⟩

/-- A store that behaves like the list of the commits it represents. -/
structure LawfulStore (H : Hashing) {σ : Type} (S : StateStore σ)
    (Rep : σ → List BlockCommit → Prop) : Prop where
  observe : ∀ {s cs}, Rep s cs → Regular cs → S.observe H s = observationOf H cs
  commitBlock : ∀ {s cs}, Rep s cs → ∀ c,
    Rep (S.commitBlock s c).1 (cs ++ [c]) ∧
      (S.commitBlock s c).2 = .ok ((ledgerOf (cs ++ [c])).root H)
  rollbackTo : ∀ {s cs}, Rep s cs → Regular cs → ∀ t,
    Rep (S.rollbackTo s t).1 (commitsUpTo t cs) ∧ (S.rollbackTo s t).2 = .ok ()
  saveExecutions : ∀ {s cs}, Rep s cs → ∀ es, Rep (S.saveExecutions s es).1 cs

/-- The last record is that of the last commit. -/
theorem getLast?_recordsOf (H : Hashing) (cs : List BlockCommit) :
    (recordsOf H cs).getLast? =
      cs.getLast?.map fun c => ⟨c.height, c.zcashBlockHash, (ledgerOf cs).root H⟩ := by
  rcases List.eq_nil_or_concat cs with rfl | ⟨cs, c, rfl⟩
  · rfl
  · rw [List.concat_eq_append, recordsOf_append_singleton, List.getLast?_concat,
      List.getLast?_concat]
    rfl

/-- **The in-memory backend is lawful.** -/
theorem MemoryState.lawful (H : Hashing) :
    LawfulStore H (MemoryState.store H) (MemoryState.Represents H) where
  observe {s cs} hs _ := by
    have hledger : s.ledger = ledgerOf cs := by rw [hs, ← build_ledger H]; rfl
    have hhistory : s.history = recordsOf H cs := by rw [hs, ← build_history H]
    have hmeta : s.metadata = Metadata.ofLast (recordsOf H cs).getLast? := by
      rw [hs, ← build_metadata H]
    simp only [StateStore.observe, store, observationOf, view_eq, hledger, hhistory, hmeta,
      getLast?_recordsOf]
    cases cs.getLast? <;> rfl
  commitBlock hs c := commitBlock_of_represents hs c
  rollbackTo hs hcs t := ⟨rollbackTo_of_represents hs hcs.increasing t, rfl⟩
  saveExecutions hs es := saveExecutions_of_represents hs es

/-- The readers of a built database see the ledger of its commits. -/
theorem RocksState.build_view (H : Hashing) (cs : List BlockCommit) :
    (build H cs).view = (ledgerOf cs).view := by
  have hledger := build_ledger H cs
  have hhas : (build H cs).view.hasContract = (ledgerOf cs).view.hasContract := by
    funext id
    change ((build H cs).get (.contract id)).isSome = (ledgerOf cs).contracts.contains id
    rw [build_get_contract, Option.isSome_map, Std.ExtTreeMap.isSome_getElem?_eq_contains]
  have hget : (build H cs).view.getContract = (ledgerOf cs).view.getContract := by
    funext id
    change (build H cs).getContract id = (ledgerOf cs).contracts[id]?
    rw [← hledger, getElem?_ledger_contracts]
  have hstore : (build H cs).view.storageGet = (ledgerOf cs).view.storageGet := by
    funext id key
    exact build_get_storage H cs id key
  have hcontracts : (build H cs).view.contracts = (ledgerOf cs).view.contracts := by
    rw [← (build H cs).view_sorted.toList_contracts]
    exact congrArg (fun l : Ledger => l.contracts.toList) hledger
  have hstorage : (build H cs).view.storage = (ledgerOf cs).view.storage := by
    have hlist := congrArg (fun l : Ledger => l.storage.toList) hledger
    rw [ledger, (build H cs).view_sorted.toList_storage] at hlist
    change _ = (ledgerOf cs).storage.toList.map _
    rw [← hlist, List.map_map]
    exact (List.map_id _).symm
  have heta : ∀ v : StateView, v = ⟨v.hasContract, v.getContract, v.storageGet, v.contracts,
      v.storage⟩ := fun _ => rfl
  rw [heta (build H cs).view, hhas, hget, hstore, hcontracts, hstorage]

/-- **The RocksDB backend is lawful**, whatever encodes the executions. -/
theorem RocksState.lawful (H : Hashing) (json : Execution → Except String Bytes) :
    LawfulStore H (RocksState.store H json) fun s cs => AgreesOff IsExec s (build H cs) where
  observe {s cs} hs hcs := by
    have hview : s.view = (ledgerOf cs).view := by
      rw [← build_view H, hs.view (fun _ h => h) fun _ _ h => h]
    have hhistory : s.heightHistory = recordsOf H cs := by
      rw [hs.heightHistory fun _ h => h, build_heightHistory H hcs.increasing]
    obtain ⟨hheight, hhash, hroot⟩ := build_get_meta H cs
    have hheight' : s.indexedHeight = cs.getLast?.map BlockCommit.height := by
      rw [indexedHeight, hs.get .metaHeight fun h => h, hheight, getLast?_recordsOf]
      cases cs.getLast? <;> simp
    have hhash' : s.indexedBlockHash = cs.getLast?.map BlockCommit.zcashBlockHash := by
      rw [indexedBlockHash, hs.get .metaHash fun h => h, hhash, getLast?_recordsOf]
      cases cs.getLast? <;> simp
    have hroot' : s.persistedStateRoot = cs.getLast?.map fun _ => (ledgerOf cs).root H := by
      rw [persistedStateRoot, hs.get .metaRoot fun h => h, hroot, getLast?_recordsOf]
      cases cs.getLast? <;> simp
    simp only [StateStore.observe, store, observationOf, hview, hhistory, hheight', hhash', hroot',
      Ledger.root]
  commitBlock hs c := commitBlock_of_represents (fun _ h => h) hs c
  rollbackTo hs hcs t :=
    ⟨rollbackTo_of_represents (fun _ h => h) hs hcs.increasing hcs.fits t, rfl⟩
  saveExecutions hs es := saveExecutions_of_represents json hs es

/-! ### Commits in any state -/

/-- What a store does in any state, whether or not commits led to it: its lookups are those of
its ledger, a commit acts on the ledger and returns the root after it, and saving executions
leaves the ledger alone. -/
structure StateStore.Committing (H : Hashing) {σ : Type} (S : StateStore σ) : Prop where
  sorted : ∀ s, (S.view s).Sorted
  getContract : ∀ s id, (S.view s).getContract id = (S.view s).ledger.contracts[id]?
  storageGet : ∀ s id key, (S.view s).storageGet id key = (S.view s).ledger.storage[(id, key)]?
  commitBlock : ∀ s c, (S.view (S.commitBlock s c).1).ledger = (S.view s).ledger.apply c ∧
    (S.commitBlock s c).2 = .ok (((S.view s).ledger.apply c).root H)
  saveExecutions : ∀ s es, (S.view (S.saveExecutions s es).1).ledger = (S.view s).ledger

/-- The memory store commits as the rules say. -/
theorem MemoryState.committing (H : Hashing) : (MemoryState.store H).Committing H where
  sorted s := s.ledger.view_sorted
  getContract s id := by
    change s.ledger.view.getContract id = s.ledger.view.ledger.contracts[id]?
    rw [Ledger.ledger_view]
    rfl
  storageGet s id key := by
    change s.ledger.view.storageGet id key = s.ledger.view.ledger.storage[(id, key)]?
    rw [Ledger.ledger_view]
    rfl
  commitBlock s c := by
    change (s.commitBlock H c).1.ledger.view.ledger = s.ledger.view.ledger.apply c ∧
      Except.ok (computeRoot H (s.applyCommit c).ledger.view) =
        .ok ((s.ledger.view.ledger.apply c).root H)
    rw [Ledger.ledger_view, Ledger.ledger_view, ledger_commitBlock, ledger_applyCommit]
    exact ⟨rfl, rfl⟩
  saveExecutions _ _ := rfl

/-- The database commits as the rules say. -/
theorem RocksState.committing (H : Hashing) (json : Execution → Except String Bytes) :
    (RocksState.store H json).Committing H where
  sorted s := s.view_sorted
  getContract s id := (s.getElem?_ledger_contracts id).symm
  storageGet s id key := (s.getElem?_ledger_storage id key).symm
  commitBlock s c := by
    change (s.commitBlock H c).1.ledger = s.ledger.apply c ∧
      (s.commitBlock H c).2 = .ok ((s.ledger.apply c).root H)
    rw [commitBlock_eq]
    exact ⟨s.ledger_write_commitBatch H c, rfl⟩
  saveExecutions s es :=
    congrArg StateView.ledger
      ((s.agreesOff_saveExecutions json es).view (fun _ h => h) fun _ _ h => h)

namespace LawfulStore

variable {H : Hashing} {σ : Type} {S : StateStore σ} {Rep : σ → List BlockCommit → Prop}
  (L : LawfulStore H S Rep)

include L

/-- A store shows the ledger of its commits. -/
theorem view {s : σ} {cs : List BlockCommit} (hs : Rep s cs) (hcs : Regular cs) :
    S.view s = (ledgerOf cs).view :=
  congrArg Observation.view (L.observe hs hcs)

/-- It is at the height of the last one. -/
theorem indexedHeight {s : σ} {cs : List BlockCommit} (hs : Rep s cs) (hcs : Regular cs) :
    S.indexedHeight s = cs.getLast?.map BlockCommit.height :=
  congrArg Observation.indexedHeight (L.observe hs hcs)

/-- It has the hash of the last one. -/
theorem indexedBlockHash {s : σ} {cs : List BlockCommit} (hs : Rep s cs) (hcs : Regular cs) :
    S.indexedBlockHash s = cs.getLast?.map BlockCommit.zcashBlockHash :=
  congrArg Observation.indexedBlockHash (L.observe hs hcs)

/-- It has a record for each. -/
theorem heightHistory {s : σ} {cs : List BlockCommit} (hs : Rep s cs) (hcs : Regular cs) :
    S.heightHistory s = recordsOf H cs :=
  congrArg Observation.heightHistory (L.observe hs hcs)

/-- It has the root of the ledger. -/
theorem persistedStateRoot {s : σ} {cs : List BlockCommit} (hs : Rep s cs) (hcs : Regular cs) :
    S.persistedStateRoot s = cs.getLast?.map fun _ => (ledgerOf cs).root H :=
  congrArg Observation.persistedStateRoot (L.observe hs hcs)

/-- What an operation of a run returns, as the commits it represents say. -/
theorem step {s : σ} {cs : List BlockCommit} (hs : Rep s cs) (hcs : Regular cs) :
    (∀ c, Rep (S.step s (.commit c)).1 (cs ++ [c]) ∧
      (S.step s (.commit c)).2 = .ok (some ((ledgerOf (cs ++ [c])).root H))) ∧
    ∀ t, Rep (S.step s (.rollback t)).1 (commitsUpTo t cs) ∧
      (S.step s (.rollback t)).2 = .ok none := by
  constructor
  · intro c
    obtain ⟨hrep, hres⟩ := L.commitBlock hs c
    exact ⟨hrep, by rw [StateStore.step, hres]; rfl⟩
  · intro t
    obtain ⟨hrep, hres⟩ := L.rollbackTo hs hcs t
    exact ⟨hrep, by rw [StateStore.step, hres]; rfl⟩

end LawfulStore

end Zalkanes
