import Zalkanes.Indexer.Runs

/-!
# Replayed Blocks

Neither of the two functions that process a block compares its height with the height the store
is indexed at, so a block at or below that height is committed once more. The in-memory backend
then appends a second record of the height; RocksDB overwrites the record, the journal and the
metadata, and is left as it was only by the top block again, when that block changed nothing.

## Main results

* `BlockInput.process_cases`: what processing a block does to a store, through either function.
* `MemoryState.sameIndex_process_iff`, `RocksState.sameIndex_process_iff`: when a replay leaves
  the index alone.
* `replay_noop_iff`: both backends, with the rollbacks after the replay.
-/

namespace Zalkanes

open Lib

/-! ### Blocks through either function -/

/-- A block as the indexer is handed it. -/
inductive BlockInput where
  /-- For `processZcashBlock`. -/
  | raw (height : BlockHeight) (hash : BlockHash) (bytes : Bytes)
  /-- For `processParsedBlock`. -/
  | parsed (block : ParsedBlock)

namespace BlockInput

/-- The height of the block. -/
def height : BlockInput → BlockHeight
  | raw height _ _ => height
  | parsed block => block.height

/-- Process the block against a store. -/
def process {σ : Type} (S : StateStore σ) (P : Platform) (config : IndexerConfig) (store : σ) :
    BlockInput → Except Panic (σ × Except String BlockExecution)
  | raw height hash bytes => processZcashBlock S P config store height hash bytes
  | parsed block => processParsedBlock S P config store block

/-- The block never gets to its commit: no activation height is set, or the block is raw, at or
above that height, and its bytes do not parse. -/
def Skipped (P : Platform) (config : IndexerConfig) : BlockInput → Prop
  | raw height hash bytes => ∀ activation, config.activationHeight = some activation →
      activation ≤ height ∧ ∃ e, parseBlock P bytes height hash config.network = .error e
  | parsed _ => config.activationHeight = none

/-- The block makes this commit on a store. -/
def Commits (P : Platform) (config : IndexerConfig) (store : StateView) (commit : BlockCommit) :
    BlockInput → Prop
  | raw height hash bytes => ∃ activation, config.activationHeight = some activation ∧
      if height < activation then commit = .empty height hash
      else ∃ block, parseBlock P bytes height hash config.network = .ok block ∧
        blockCommit P config store block = .ok (some commit)
  | parsed block => blockCommit P config store block = .ok (some commit)

variable {σ : Type} {S : StateStore σ} {P : Platform} {config : IndexerConfig} {s s' : σ}
  {res : Except String BlockExecution}

/-- What processing a block does to a store: nothing if the block is skipped, or else its commit,
and maybe saving execution records after it. -/
theorem process_cases {block : BlockInput} (h : block.process S P config s = .ok (s', res)) :
    block.Skipped P config ∧ s' = s ∨
      ¬ block.Skipped P config ∧ ∃ commit, block.Commits P config (S.view s) commit ∧
        (s' = (S.commitBlock s commit).1 ∨
          ∃ es, s' = (S.saveExecutions (S.commitBlock s commit).1 es).1) := by
  have hparsed : ∀ {p : ParsedBlock}, processParsedBlock S P config s p = .ok (s', res) →
      config.activationHeight = none ∧ s' = s ∨
        config.activationHeight ≠ none ∧
          ∃ commit, blockCommit P config (S.view s) p = .ok (some commit) ∧
            (s' = (S.commitBlock s commit).1 ∨
              ∃ es, s' = (S.saveExecutions (S.commitBlock s commit).1 es).1) := by
    intro p hp
    rcases processParsedBlock_cases hp with ⟨hnone, hs⟩ | ⟨commit, hcommit, hs⟩
    · refine Or.inl ⟨?_, hs⟩
      unfold blockCommit at hnone
      split at hnone
      · assumption
      · split at hnone
        · cases hnone
        · obtain ⟨acc, -, hacc⟩ := map_eq_ok hnone
          cases hacc
    · refine Or.inr ⟨fun hact => ?_, commit, hcommit, hs⟩
      rw [blockCommit, hact] at hcommit
      cases hcommit
  cases block with
  | parsed block => exact hparsed h
  | raw height hash bytes =>
      change processZcashBlock S P config s height hash bytes = _ at h
      unfold processZcashBlock at h
      cases hact : config.activationHeight with
      | none =>
          rw [hact] at h
          refine Or.inl ⟨fun activation hsome => (by rw [hact] at hsome; cases hsome), ?_⟩
          dsimp only at h
          split at h
          · exact (Prod.mk.inj (Except.ok.inj h)).1.symm
          · rcases hparsed h with ⟨-, hs⟩ | ⟨hsome, -⟩
            · exact hs
            · exact absurd hact hsome
      | some activation =>
          rw [hact] at h
          dsimp only at h
          split at h
          · rename_i hlt
            refine Or.inr ⟨fun hskip => ?_, .empty height hash, ⟨activation, hact, ?_⟩, Or.inl ?_⟩
            · exact absurd hlt (UInt32.not_lt.mpr (hskip activation hact).1)
            · rw [if_pos hlt]
            · rw [← commitEmptyBlock_fst, Except.ok.inj h]
          · rename_i hge
            split at h
            · rename_i e he
              refine Or.inl ⟨fun activation' hact' => ?_, (Prod.mk.inj (Except.ok.inj h)).1.symm⟩
              obtain rfl := Option.some.inj (hact.symm.trans hact')
              exact ⟨UInt32.not_lt.mp hge, e, he⟩
            · rename_i block hblock
              rcases hparsed h with ⟨hnone, -⟩ | ⟨-, commit, hcommit, hs⟩
              · rw [hact] at hnone
                cases hnone
              · refine Or.inr ⟨fun hskip => ?_, commit, ⟨activation, hact, ?_⟩, hs⟩
                swap
                · rw [if_neg hge]
                  exact ⟨block, hblock, hcommit⟩
                obtain ⟨-, e, he⟩ := hskip activation hact
                rw [hblock] at he
                cases he

/-- The commit of a raw block is empty, or that of the block its bytes parse to. -/
theorem Commits.raw_cases {store : StateView} {commit : BlockCommit} {height : BlockHeight}
    {hash : BlockHash} {bytes : Bytes}
    (h : (raw height hash bytes).Commits P config store commit) :
    commit = .empty height hash ∨
      ∃ block, parseBlock P bytes height hash config.network = .ok block ∧
        blockCommit P config store block = .ok (some commit) := by
  obtain ⟨activation, -, h⟩ := h
  split at h
  · exact Or.inl h
  · exact Or.inr h

/-- A block makes one commit. -/
theorem Commits.unique {store : StateView} {commit commit' : BlockCommit} {block : BlockInput}
    (h : block.Commits P config store commit) (h' : block.Commits P config store commit') :
    commit = commit' := by
  cases block with
  | parsed block => exact Option.some.inj (Except.ok.inj (h.symm.trans h'))
  | raw height hash bytes =>
      obtain ⟨activation, hact, h⟩ := h
      obtain ⟨activation', hact', h'⟩ := h'
      obtain rfl := Option.some.inj (hact.symm.trans hact')
      by_cases hlt : height < activation
      · rw [if_pos hlt] at h h'
        exact h.trans h'.symm
      · rw [if_neg hlt] at h h'
        obtain ⟨block, hblock, hcommit⟩ := h
        obtain ⟨block', hblock', hcommit'⟩ := h'
        obtain rfl := Except.ok.inj (hblock.symm.trans hblock')
        exact Option.some.inj (Except.ok.inj (hcommit.symm.trans hcommit'))

/-- The commit of a block has its height. -/
theorem Commits.height_eq {store : StateView} {commit : BlockCommit} {block : BlockInput}
    (h : block.Commits P config store commit) : commit.height = block.height := by
  cases block with
  | parsed block => exact (height_blockCommit h).1
  | raw height hash bytes =>
      rcases h.raw_cases with rfl | ⟨block, hparse, hcommit⟩
      · rfl
      · exact (height_blockCommit hcommit).1.trans (parseBlock_eq_ok hparse).1

/-- The commit of a block fits the journal format. -/
theorem Commits.fits (hE : P.engine.Metered) {store : StateView} {commit : BlockCommit}
    {block : BlockInput} (h : block.Commits P config store commit) : commit.Fits := by
  cases block with
  | parsed block => exact fits_blockCommit hE h
  | raw height hash bytes =>
      rcases h.raw_cases with rfl | ⟨block, -, hcommit⟩
      · exact BlockCommit.fits_empty _ _
      · exact fits_blockCommit hE hcommit

end BlockInput

/-! ### Blocks in height order -/

section Order

variable {σ : Type} (S : StateStore σ) (P : Platform) (config : IndexerConfig)

/-- A block is processed above the height the store is indexed at. -/
def InOrderStep (s s' : σ) : Prop :=
  ∃ (block : BlockInput) (res : Except String BlockExecution), S.Below s block.height ∧
    block.process S P config s = .ok (s', res)

/-- Runs that process blocks in height order. -/
abbrev InOrder : σ → σ → Prop := Relation.ReflTransGen (InOrderStep S P config)

/-- The block is at or below the height the store is indexed at. -/
def StateStore.AtOrBelow (s : σ) (height : BlockHeight) : Prop :=
  ∃ top, S.indexedHeight s = some top ∧ height ≤ top

end Order

/-- **A store reached by blocks in height order** represents the commits of an index. -/
theorem LawfulStore.indexed_of_inOrder {H : Hashing} {σ : Type} {S : StateStore σ}
    {Rep : σ → List BlockCommit → Prop} (L : LawfulStore H S Rep) {P : Platform}
    {config : IndexerConfig} (hE : P.engine.Metered) {s s' : σ} (hs : Rep s [])
    (h : InOrder S P config s s') : ∃ cs, Rep s' cs ∧ Indexed P config cs := by
  induction h with
  | refl => exact ⟨[], hs, .nil⟩
  | tail _ hstep ih =>
      obtain ⟨cs, hs, hcs⟩ := ih
      obtain ⟨block, res, hbelow, h⟩ := hstep
      have hreg := hcs.regular hE
      rcases BlockInput.process_cases h with ⟨-, rfl⟩ | ⟨-, c, hc, hs'⟩
      · exact ⟨cs, hs, hcs⟩
      have hrep := (L.commitBlock hs c).1
      have hlt := L.level_lt hs hreg hbelow
      rw [← hc.height_eq] at hlt
      refine ⟨cs ++ [c], ?_, ?_⟩
      · rcases hs' with rfl | ⟨es, rfl⟩
        · exact hrep
        · exact L.saveExecutions hrep es
      · have hview := L.view hs hreg
        cases block with
        | parsed block => exact hcs.block block (hview ▸ hc) hlt
        | raw height hash bytes =>
            rcases hc.raw_cases with rfl | ⟨block, -, hc⟩
            · exact hcs.empty height hash hlt
            · exact hcs.block block (hview ▸ hc) hlt

/-! ### What a replay leaves -/

/-- The second store has the contracts, the storage, the indexed position, the history and the
undo journal of the first. -/
structure MemoryState.SameIndex (s s' : MemoryState) : Prop where
  contracts : s'.contracts = s.contracts
  storage : s'.storage = s.storage
  metadata : s'.metadata = s.metadata
  history : s'.history = s.history
  undo : s'.undo = s.undo

/-- The same index differs in execution records only. -/
theorem MemoryState.SameIndex.eq {s s' : MemoryState} (h : SameIndex s s') :
    s' = { s with executions := s'.executions } := by
  obtain ⟨hcontracts, hstorage, hmetadata, hhistory, hundo⟩ := h
  cases s
  cases s'
  simp_all

/-- A rollback does not read executions. -/
theorem MemoryState.SameIndex.rollbackTo {s s' : MemoryState} (h : SameIndex s s')
    (t : BlockHeight) : SameIndex (s.rollbackTo t).1 (s'.rollbackTo t).1 := by
  have hstep : ∀ (hs : List BlockHeight) (s : MemoryState) (e : OrdMap TxId Execution),
      hs.foldl (undoHeight t) { s with executions := e } =
        { hs.foldl (undoHeight t) s with executions := e } := by
    intro hs
    induction hs with
    | nil => exact fun _ _ => rfl
    | cons height hs ih =>
        intro s e
        have hone : undoHeight t { s with executions := e } height =
            { undoHeight t s height with executions := e } := by
          cases hops : s.undo[height]? with
          | none => simp only [undoHeight, hops]
          | some ops =>
              have hops' : ({ s with executions := e } : MemoryState).undo[height]? = some ops :=
                hops
              rw [undoHeight_of_journal hops, undoHeight_of_journal hops']
              rfl
        rw [List.foldl_cons, hone, ih, List.foldl_cons]
  rw [h.eq]
  have hheights : heightsAbove { s with executions := s'.executions } t = s.heightsAbove t := rfl
  rw [MemoryState.rollbackTo, MemoryState.rollbackTo, hheights,
    hstep (s.heightsAbove t) s s'.executions]
  exact ⟨rfl, rfl, rfl, rfl, rfl⟩

/-- A rollback does not read executions. -/
theorem RocksState.AgreesOff.rollbackTo {s s' : RocksState} (h : AgreesOff IsExec s s')
    (t : BlockHeight) : AgreesOff IsExec (s.rollbackTo t).1 (s'.rollbackTo t).1 := by
  have hundo : ∀ (hs : List BlockHeight) {s s' : RocksState}, AgreesOff IsExec s s' →
      AgreesOff IsExec (hs.foldl undoHeight s) (hs.foldl undoHeight s') := by
    intro hs
    induction hs with
    | nil => exact fun h => h
    | cons height hs ih =>
        intro s s' h
        refine ih ?_
        rw [undoHeight, undoHeight, h.get (.undo height) fun hexec => hexec]
        cases s'.get (.undo height) with
        | none => exact h
        | some ops => exact h.write _
  have hwrites : ∀ (batches : List WriteBatch) {s s' : RocksState}, AgreesOff IsExec s s' →
      AgreesOff IsExec (batches.foldl RocksState.write s) (batches.foldl RocksState.write s') := by
    intro batches
    induction batches with
    | nil => exact fun h => h
    | cons batch batches ih => exact fun h => ih (h.write batch)
  have hheights : s.heightsAbove t = s'.heightsAbove t := by
    rw [heightsAbove, heightsAbove, h.heightHistory fun _ hexec => hexec]
  rw [RocksState.rollbackTo, RocksState.rollbackTo, hheights]
  have hundone := hundo (s'.heightsAbove t) h
  rw [metadataWrites, hundone.heightHistory fun _ hexec => hexec]
  exact hwrites _ hundone

/-! ### When a replay leaves the index alone -/

/-- In memory, a block that gets to its commit adds a record to the history. -/
theorem MemoryState.sameIndex_process_iff {H : Hashing} {P : Platform} {config : IndexerConfig}
    {s s' : MemoryState} {block : BlockInput} {res : Except String BlockExecution}
    (h : block.process (MemoryState.store H) P config s = .ok (s', res)) :
    SameIndex s s' ↔ block.Skipped P config := by
  rcases BlockInput.process_cases h with ⟨hskip, rfl⟩ | ⟨hskip, c, -, hs'⟩
  · exact ⟨fun _ => hskip, fun _ => ⟨rfl, rfl, rfl, rfl, rfl⟩⟩
  · refine ⟨fun hsame => ?_, fun h => absurd h hskip⟩
    have hlength : s'.history.length = s.history.length + 1 := by
      rcases hs' with rfl | ⟨es, rfl⟩ <;> exact List.length_append
    rw [hsame.history] at hlength
    omega

/-- The commit is that of the top block again, and neither of the two changes contracts or storage;
they replace the same contracts and values. -/
def ReplaysIdleTop (H : Hashing) (cs : List BlockCommit) (c : BlockCommit) : Prop :=
  ∃ below top, cs = below ++ [top] ∧ c.height = top.height ∧
    c.zcashBlockHash = top.zcashBlockHash ∧ ledgerOf cs = ledgerOf below ∧
    (ledgerOf cs).apply c = ledgerOf cs ∧
    (RocksState.build H below).journal c = (RocksState.build H below).journal top

namespace RocksState

variable {H : Hashing}

/-- The view of a built database is that of the ledger of its commits, so equal ledgers journal
alike. -/
theorem journal_build_congr {cs ds : List BlockCommit} (h : ledgerOf cs = ledgerOf ds)
    (c : BlockCommit) : (build H cs).journal c = (build H ds).journal c := by
  have hview : (build H cs).view = (build H ds).view := by rw [build_view, build_view, h]
  have hget : (build H cs).getContract = (build H ds).getContract :=
    congrArg StateView.getContract hview
  have hstore : (build H cs).storageGet = (build H ds).storageGet :=
    congrArg StateView.storageGet hview
  simp only [journal, deployOps, setOps, deleteOps, effective, hget, hstore]

/-- A database that one more commit leaves as it is. -/
theorem agreesOff_build_append_iff {cs : List BlockCommit} (hcs : Regular cs) {c : BlockCommit}
    (hc : c.Fits) :
    AgreesOff IsExec (build H cs) (build H (cs ++ [c])) ↔ ReplaysIdleTop H cs c := by
  constructor
  · intro h
    rw [build_append_singleton] at h
    obtain ⟨hheight, hhash, -⟩ := get_commitBatch_meta H (build H cs) c
    rw [← h.get .metaHeight fun h => h] at hheight
    rw [← h.get .metaHash fun h => h] at hhash
    obtain ⟨hheight', hhash', -⟩ := build_get_meta H cs
    rw [hheight'] at hheight
    rw [hhash'] at hhash
    obtain ⟨below, top, rfl⟩ : ∃ below top, cs = below ++ [top] := by
      rcases List.eq_nil_or_concat cs with rfl | ⟨below, top, rfl⟩
      · cases hheight
      · exact ⟨below, top, List.concat_eq_append⟩
    rw [recordsOf_append_singleton, List.getLast?_concat, Option.map_some,
      Option.some.injEq] at hheight hhash
    have hheight : c.height = top.height := (be32_injective hheight).symm
    have hhash : c.zcashBlockHash = top.zcashBlockHash := (Bytes32.ext hhash).symm
    -- the journal of the replay is the one that is stored
    have hfits : ∀ {ds : List BlockCommit}, (∀ d ∈ ds, d.Fits) → (build H ds).ledger.Fits :=
      fun hds => by rw [build_ledger]; exact fits_ledgerOf hds
    have hstored := h.get (.undo c.height) fun h => h
    rw [get_commitBatch_undo, if_pos rfl, build_append_singleton, get_commitBatch_undo,
      if_pos hheight.symm, ← build_append_singleton] at hstored
    have hjournal : (build H below).journal top = (build H (below ++ [top])).journal c := by
      rw [← decodeUndo_journal (hfits fun d hd => hcs.fits d (by simp [hd]))
        (hcs.fits top (by simp)), ← decodeUndo_journal (hfits hcs.fits) hc,
        Option.some.inj hstored]
    have hledger : (ledgerOf (below ++ [top])).apply c = ledgerOf (below ++ [top]) := by
      have hview := h.view (fun _ h => h) fun _ _ h => h
      have := congrArg StateView.ledger hview
      change (build H (below ++ [top])).ledger = ledger _ at this
      rw [ledger_write_commitBatch, build_ledger] at this
      exact this.symm
    -- undone on the same ledger, it gives what was there before either commit
    have hbelow : ledgerOf (below ++ [top]) = ledgerOf below := by
      have htop := (build H below).reverts_journal top
      have hc := (build H (below ++ [top])).reverts_journal c
      rw [Ledger.Reverts, build_ledger, ← ledgerOf_append_singleton] at htop
      rw [Ledger.Reverts, build_ledger, hledger, ← hjournal] at hc
      exact hc.symm.trans htop
    exact ⟨below, top, rfl, hheight, hhash, hbelow, hledger,
      (journal_build_congr hbelow c).symm.trans hjournal.symm⟩
  · rintro ⟨below, top, rfl, hheight, hhash, hbelow, hledger, hjournal⟩
    have hjournal : (build H below).journal top = (build H (below ++ [top])).journal c :=
      hjournal.symm.trans (journal_build_congr hbelow c).symm
    have hledger' : ledgerOf (below ++ [top] ++ [c]) = ledgerOf (below ++ [top]) := by
      rw [ledgerOf_append_singleton, hledger]
    have hroot : ((build H below).ledger.apply top).root H =
        ((build H (below ++ [top])).ledger.apply c).root H := by
      rw [build_ledger, build_ledger, hledger, ledgerOf_append_singleton]
    refine ⟨fun k hk => ?_, fun k hk => ?_⟩
    · obtain ⟨hheight₁, hhash₁, hroot₁⟩ := get_commitBatch_meta H (build H below) top
      obtain ⟨hheight₂, hhash₂, hroot₂⟩ := get_commitBatch_meta H (build H (below ++ [top])) c
      cases k with
      | contract id => rw [build_get_contract, build_get_contract, hledger']
      | storage id key => rw [build_get_storage, build_get_storage, hledger']
      | exec txid => exact absurd trivial hk
      | execHeight h => exact absurd trivial hk
      | height h =>
          rw [build_append_singleton H (below ++ [top]), get_commitBatch_height]
          split
          · rename_i hh
            rw [build_append_singleton, get_commitBatch_height, if_pos (hheight ▸ hh), hroot,
              hheight, hhash, build_append_singleton]
          · rfl
      | undo h =>
          rw [build_append_singleton H (below ++ [top]), get_commitBatch_undo]
          split
          · rename_i hh
            rw [build_append_singleton, get_commitBatch_undo, if_pos (hheight ▸ hh), hjournal,
              build_append_singleton]
          · rfl
      | metaHeight => rw [build_append_singleton H (below ++ [top]), hheight₂,
          build_append_singleton, hheight₁, hheight]
      | metaHash => rw [build_append_singleton H (below ++ [top]), hhash₂,
          build_append_singleton, hhash₁, hhash]
      | metaRoot => rw [build_append_singleton H (below ++ [top]), hroot₂,
          build_append_singleton, hroot₁, hroot, build_append_singleton]
    · rw [build_append_singleton H (below ++ [top])]
      exact (getElem?_write_of_forall_ne _ _ hk).symm

/-- In RocksDB, a block that gets to its commit leaves the database as it is if it is the top block
again, without effect. -/
theorem agreesOff_process_iff {P : Platform} {config : IndexerConfig} (hE : P.engine.Metered)
    {s s' : RocksState} {cs : List BlockCommit} (hs : AgreesOff IsExec s (build P.hashing cs))
    (hcs : Regular cs) {block : BlockInput} {res : Except String BlockExecution}
    (h : block.process (store P.hashing P.json) P config s = .ok (s', res)) :
    AgreesOff IsExec s s' ↔ block.Skipped P config ∨
      ∃ c, block.Commits P config s.view c ∧ ReplaysIdleTop P.hashing cs c := by
  rcases BlockInput.process_cases h with ⟨hskip, rfl⟩ | ⟨hskip, c, hc, hs'⟩
  · exact ⟨fun _ => Or.inl hskip, fun _ => .refl _ _⟩
  · have hrep : AgreesOff IsExec s' (build P.hashing (cs ++ [c])) := by
      have hcommit := ((lawful P.hashing P.json).commitBlock hs c).1
      rcases hs' with rfl | ⟨es, rfl⟩
      · exact hcommit
      · exact (lawful P.hashing P.json).saveExecutions hcommit es
    have hiff : AgreesOff IsExec s s' ↔ ReplaysIdleTop P.hashing cs c :=
      ⟨fun h => (agreesOff_build_append_iff hcs (hc.fits hE)).mp ((hs.symm.trans h).trans hrep),
        fun h => (hs.trans ((agreesOff_build_append_iff hcs (hc.fits hE)).mpr h)).trans hrep.symm⟩
    rw [hiff]
    refine ⟨fun h => Or.inr ⟨c, hc, h⟩, ?_⟩
    rintro (h | ⟨c', hc', h⟩)
    · exact absurd h hskip
    · exact hc.unique hc' ▸ h

end RocksState

/-! ### Replays -/

section Replays

variable {σ : Type} (S : StateStore σ) (P : Platform) (config : IndexerConfig)
  (Same : σ → σ → Prop)

/-- The index is left alone, and every rollback ends as it would have ended before. -/
structure NoOp (s s' : σ) : Prop where
  same : Same s s'
  rollbackTo : ∀ t, Same (S.rollbackTo s t).1 (S.rollbackTo s' t).1

/-- Replays of indexed blocks change nothing. -/
def ReplayIsNoOp (s₀ : σ) : Prop :=
  ∀ s, InOrder S P config s₀ s → ∀ block : BlockInput, S.AtOrBelow s block.height →
    ∀ s' res, block.process S P config s = .ok (s', res) → NoOp S Same s s'

end Replays

/-- **When a replay is a no-op.** On a store that blocks in height order led to, processing a block
at or below the indexed height changes nothing, and no later rollback, just when the block never
gets to its commit, or on RocksDB when it is the top block again and had no effect. -/
theorem replay_noop_iff (P : Platform) (config : IndexerConfig) (hE : P.engine.Metered) :
    (∀ s, InOrder (MemoryState.store P.hashing) P config MemoryState.new s →
      ∀ block : BlockInput, (MemoryState.store P.hashing).AtOrBelow s block.height → ∀ s' res,
        block.process (MemoryState.store P.hashing) P config s = .ok (s', res) →
          (NoOp (MemoryState.store P.hashing) MemoryState.SameIndex s s' ↔
            block.Skipped P config)) ∧
    ∀ s, InOrder (RocksState.store P.hashing P.json) P config RocksState.fresh s →
      ∃ cs, Indexed P config cs ∧
        RocksState.AgreesOff RocksState.IsExec s (RocksState.build P.hashing cs) ∧
        ∀ block : BlockInput, (RocksState.store P.hashing P.json).AtOrBelow s block.height →
          ∀ s' res,
            block.process (RocksState.store P.hashing P.json) P config s = .ok (s', res) →
              (NoOp (RocksState.store P.hashing P.json)
                  (RocksState.AgreesOff RocksState.IsExec) s s' ↔
                block.Skipped P config ∨
                  ∃ c, block.Commits P config s.view c ∧ ReplaysIdleTop P.hashing cs c) := by
  constructor
  · intro s _ block _ s' res h
    rw [← MemoryState.sameIndex_process_iff h]
    exact ⟨NoOp.same, fun hsame => ⟨hsame, hsame.rollbackTo⟩⟩
  · intro s hrun
    have hfresh := RocksState.AgreesOff.refl RocksState.IsExec RocksState.fresh
    obtain ⟨cs, hs, hcs⟩ :=
      (RocksState.lawful P.hashing P.json).indexed_of_inOrder hE hfresh hrun
    refine ⟨cs, hcs, hs, fun block _ s' res h => ?_⟩
    rw [← RocksState.agreesOff_process_iff hE hs (hcs.regular hE) h]
    exact ⟨NoOp.same, fun hsame => ⟨hsame, hsame.rollbackTo⟩⟩

/-- The register is deployed and called: the block of the call again is no no-op, while bytes at its
height that do not parse are one. -/
theorem replay_noop_register :
    meteredEngine.Metered ∧ ∀ (H : Hashing) (json : Execution → Except String Bytes),
      let P := meteredPlatform H json
      let S := MemoryState.store H
      ∃ result s₁ s₂, ContractRun S P registerWasm 1 [] result MemoryState.new s₁ s₂ ∧
        InOrder S P regtestConfig MemoryState.new s₂ ∧
        (∃ s' res, (BlockInput.parsed (callCodeBlock H registerWasm 1 [])).process S P
            regtestConfig s₂ = .ok (s', res) ∧ ¬ NoOp S MemoryState.SameIndex s₂ s') ∧
        ∃ s' res, (BlockInput.raw 2 (.replicate 2) []).process S P regtestConfig s₂ =
          .ok (s', res) ∧ NoOp S MemoryState.SameIndex s₂ s' := by
  refine ⟨metered_meteredEngine, fun H json => ?_⟩
  intro P S
  have hnew : MemoryState.Represents H MemoryState.new [] := rfl
  obtain ⟨result, s₁, s₂, hrun, -⟩ := (MemoryState.lawful H).exists_registerRun hnew json
  obtain ⟨hbelow₁, res₁, hdeploy⟩ := hrun.deploy
  obtain ⟨hbelow₂, res₂, hcall⟩ := hrun.call
  have horder : InOrder S P regtestConfig MemoryState.new s₂ :=
    .tail (.single ⟨.parsed (deployCodeBlock H registerWasm), res₁, hbelow₁, hdeploy⟩)
      ⟨.parsed (callCodeBlock H registerWasm 1 []), res₂, hbelow₂, hcall⟩
  have htop : S.AtOrBelow s₂ 2 := ⟨2, hrun.top, by decide⟩
  have hiff := (replay_noop_iff P regtestConfig metered_meteredEngine).1 s₂ horder
  have hexec : execute P.engine P.overflowChecks (callCodeContext P.hashing registerWasm 1 [])
      (S.view s₂) = _ :=
    (execute_meteredEngine _ (show 20 ≤ maxFuelPerCall by decide)).trans
      (execute_register_set _ rfl rfl hrun.code)
  have hcalls := (blockCalls_callCodeBlock P (S.view s₂) registerWasm 1
    (show ([] : Bytes).length ≤ chunkPayloadSize from Nat.zero_le _)).2
  rw [hexec] at hcalls
  obtain ⟨s', res, hagain⟩ := exists_processParsedBlock_of_blockCalls (S := S) hcalls
  refine ⟨result, s₁, s₂, hrun, horder, ⟨s', res, hagain, fun hnoop => ?_⟩, s₂, _, rfl, ?_⟩
  · cases (hiff (.parsed (callCodeBlock H registerWasm 1 [])) htop s' res hagain).mp hnoop
  · refine (hiff (.raw 2 (.replicate 2) []) htop s₂ _ rfl).mpr fun activation hactivation => ?_
    obtain rfl := Option.some.inj hactivation
    exact ⟨by decide, _, rfl⟩

section Quiet

variable {σ : Type} {S : StateStore σ} {P : Platform}

variable (S P) in
/-- A block below the activation height is committed empty. -/
theorem process_quiet (s : σ) (height : BlockHeight) (hash : BlockHash) (hlt : height < 10) :
    (BlockInput.raw height hash []).process S P ⟨.regtest, some 10⟩ s =
      .ok (commitEmptyBlock S s height hash) := by
  change processZcashBlock S P ⟨.regtest, some 10⟩ s height hash [] = _
  unfold processZcashBlock
  exact if_pos hlt

variable {Rep : σ → List BlockCommit → Prop} (L : LawfulStore P.hashing S Rep)

include L

/-- A step that commits an empty block. -/
theorem LawfulStore.quietStep {s : σ} {cs : List BlockCommit} (hs : Rep s cs) (hcs : Regular cs)
    (height : BlockHeight) (hash : BlockHash) (hlt : height < 10)
    (hnew : ∀ d ∈ cs, d.level < height.toNat) :
    InOrderStep S P ⟨.regtest, some 10⟩ s (S.commitBlock s (.empty height hash)).1 := by
  refine ⟨.raw height hash [], (commitEmptyBlock S s height hash).2, fun top htop => ?_, ?_⟩
  · rw [L.indexedHeight hs hcs, Option.map_eq_some_iff] at htop
    obtain ⟨c, hc, rfl⟩ := htop
    exact UInt32.lt_iff_toNat_lt.mpr (hnew c (List.mem_of_getLast? hc))
  · rw [process_quiet S P s height hash hlt, ← commitEmptyBlock_fst]

/-- Block 1 can be replayed after blocks 1 and 2. -/
theorem LawfulStore.quietReplay {s₀ : σ} (h₀ : Rep s₀ []) (hash : BlockHash) :
    ∃ s, InOrder S P ⟨.regtest, some 10⟩ s₀ s ∧
      Rep s [.empty 1 hash, .empty 2 hash] ∧ Regular [.empty 1 hash, .empty 2 hash] ∧
      S.AtOrBelow s 1 := by
  have hreg₁ : Regular [.empty 1 hash] :=
    Regular.nil.append_singleton (by simp) (BlockCommit.fits_empty _ _)
  have hlt : ∀ d ∈ [BlockCommit.empty 1 hash], d.level < UInt32.toNat 2 := fun d hd => by
    rw [List.mem_singleton.mp hd]
    exact Nat.one_lt_two
  have hreg₂ : Regular [.empty 1 hash, .empty 2 hash] :=
    hreg₁.append_singleton hlt (BlockCommit.fits_empty _ _)
  have hs₁ := (L.commitBlock h₀ (.empty 1 hash)).1
  have hs₂ := (L.commitBlock hs₁ (.empty 2 hash)).1
  have hstep₁ := L.quietStep h₀ Regular.nil 1 hash (by decide) (by simp)
  have hstep₂ := L.quietStep hs₁ hreg₁ 2 hash (by decide) hlt
  exact ⟨_, (Relation.ReflTransGen.single hstep₁).tail hstep₂, hs₂, hreg₂, 2,
    L.indexedHeight hs₂ hreg₂, by decide⟩

end Quiet

/-- With the activation height at 10, blocks 1 and 2 are processed, and block 1 again: in memory its
record is there twice, and RocksDB is back at height 1. -/
theorem not_replay_noop_quiet :
    ¬ ∃ P : Platform,
      ReplayIsNoOp (MemoryState.store P.hashing) P ⟨.regtest, some 10⟩ MemoryState.SameIndex
          MemoryState.new ∨
        ReplayIsNoOp (RocksState.store P.hashing P.json) P ⟨.regtest, some 10⟩
          (RocksState.AgreesOff RocksState.IsExec) RocksState.fresh := by
  let hash : BlockHash := Bytes32.replicate 0
  have hskip : ∀ P : Platform, ¬ (BlockInput.raw 1 hash []).Skipped P ⟨.regtest, some 10⟩ :=
    fun P hskip => absurd (hskip 10 rfl).1 (by decide)
  rintro ⟨P, hmemory | hrocks⟩
  · have hnew : MemoryState.Represents P.hashing MemoryState.new [] := rfl
    obtain ⟨s, hrun, -, -, hbelow⟩ := (MemoryState.lawful P.hashing).quietReplay hnew hash
    have hprocess := process_quiet (MemoryState.store P.hashing) P s 1 hash (by decide)
    have hsame := (hmemory s hrun (.raw 1 hash []) hbelow _ _ hprocess).same
    exact hskip P ((MemoryState.sameIndex_process_iff hprocess).mp hsame)
  · obtain ⟨s, hrun, hs, hreg, hbelow⟩ := (RocksState.lawful P.hashing P.json).quietReplay
      (.refl RocksState.IsExec RocksState.fresh) hash
    have hprocess :=
      process_quiet (RocksState.store P.hashing P.json) P s 1 hash (by decide)
    have hsame := (hrocks s hrun (.raw 1 hash []) hbelow _ _ hprocess).same
    have hs' := ((RocksState.lawful P.hashing P.json).commitBlock hs (.empty 1 hash)).1
    rw [← commitEmptyBlock_fst] at hs'
    obtain ⟨below, top, hcs, hheight, -⟩ := (RocksState.agreesOff_build_append_iff hreg
      (BlockCommit.fits_empty 1 hash)).mp ((hs.symm.trans hsame).trans hs')
    have hcs : [BlockCommit.empty 1 hash] ++ [BlockCommit.empty 2 hash] = below ++ [top] := hcs
    obtain ⟨-, htop⟩ := List.append_inj' hcs rfl
    rw [← List.singleton_injective htop] at hheight
    exact absurd hheight (by decide)

end Zalkanes
