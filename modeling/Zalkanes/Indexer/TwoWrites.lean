import Zalkanes.State.Crash
import Zalkanes.Indexer.Sync
import Zalkanes.Indexer.RootChain

/-!
# The Two Writes of a Block

`process_parsed_block` writes a block in two batches: its commit, and then its execution records.
Each of the two writes may fail, and the process may die before it or after it (`WriteFate`). An
indexed block is not processed again, so its records are there after a restart only if both batches
have reached the database.

## Main results

* `RocksState.Reached.keeps`: which records a store keeps, whatever became of its writes.
* `committedTogether_iff`: exactly when a block and its records are committed together.
-/

namespace Zalkanes

open Lib

/-- What becomes of a write to the database. -/
inductive WriteFate where
  | applied
  /-- The write returns an error, and nothing is written. -/
  | failed (e : String)
  /-- The process dies before the write. -/
  | diedBefore
  /-- The process dies once the batch is in the database. -/
  | diedAfter
  deriving DecidableEq

/-- The batch reaches the database. -/
def WriteFate.lands : WriteFate → Bool
  | applied | diedAfter => true
  | failed _ | diedBefore => false

namespace RocksState

/-- `db.write(batch)`: what is in the database then, and what is returned unless the process
dies. -/
def tryWrite (s : RocksState) (batch : WriteBatch) (what : String) :
    WriteFate → RocksState × Option (Except String Unit)
  | .applied => (s.write batch, some (.ok ()))
  | .failed e => (s, some (.error (what ++ ": " ++ e)))
  | .diedBefore => (s, none)
  | .diedAfter => (s.write batch, none)

/-- `commit_block` when this becomes of its write. What follows the write only compares roots. -/
def commitBlockUnder (H : Hashing) (fate : WriteFate) (s : RocksState) (commit : BlockCommit) :
    RocksState × Option (Except String StateRoot) :=
  let undo := s.journal commit
  let root := projectedRoot H s.view commit
  match s.tryWrite (s.dataBatch commit ++ recordBatch commit undo root)
      "rocksdb write batch failed" fate with
  | (s', none) => (s', none)
  | (s', some (.error e)) => (s', some (.error e))
  | (s', some (.ok ())) => (s', some (s.commitBlock H commit).2)

/-- `save_executions` when this becomes of its write. -/
def saveExecutionsUnder (json : Execution → Except String Bytes) (fate : WriteFate)
    (s : RocksState) (executions : List Execution) : RocksState × Option (Except String Unit) :=
  match executions.mapM fun e => (json e).map fun bytes => (e, bytes) with
  | .error e => (s, some (.error e))
  | .ok encoded =>
      s.tryWrite (encoded.flatMap fun (e, bytes) =>
        [.put (.exec e.txid) bytes, .put (.execHeight e.blockHeight) []])
        "rocksdb save executions" fate

end RocksState

/-! ### Processing a block -/

section Process

variable (P : Platform) (config : IndexerConfig)

/-- `process_parsed_block` when this becomes of its two writes: what is in the database then, and
what is returned unless the process dies. -/
def processParsedBlockUnder (commitFate saveFate : WriteFate) (store : RocksState)
    (parsed : ParsedBlock) : Except Panic (RocksState × Option (Except String BlockExecution)) :=
  match config.activationHeight with
  | none =>
      let root := computeRoot P.hashing store.view
      .ok (store, some (.ok ⟨parsed.height, parsed.hash, root, root, [], []⟩))
  | some activation =>
      if parsed.height < activation then
        match store.commitBlockUnder P.hashing commitFate (.empty parsed.height parsed.hash) with
        | (store, none) => .ok (store, none)
        | (store, some (.error e)) => .ok (store, some (.error e))
        | (store, some (.ok root)) =>
            .ok (store, some (.ok ⟨parsed.height, parsed.hash, root, root, [], []⟩))
      else do
        let stateRootBefore := computeRoot P.hashing store.view
        let acc ← processTransactions P config store.view parsed
        match store.commitBlockUnder P.hashing commitFate acc.commit with
        | (store, none) => return (store, none)
        | (store, some (.error e)) => return (store, some (.error e))
        | (store, some (.ok stateRootAfter)) =>
            match store.saveExecutionsUnder P.json saveFate acc.executions with
            | (store, none) => return (store, none)
            | (store, some (.error e)) => return (store, some (.error e))
            | (store, some (.ok ())) =>
                return (store, some (.ok ⟨parsed.height, parsed.hash, stateRootBefore,
                  stateRootAfter, acc.executions, acc.deployed⟩))

/-- What a restart finds in the database after a block. Nothing is written before a panic. -/
def databaseAfter (commitFate saveFate : WriteFate) (store : RocksState) (parsed : ParsedBlock) :
    RocksState :=
  match processParsedBlockUnder P config commitFate saveFate store parsed with
  | .error _ => store
  | .ok (store, _) => store

/-- The commit of a block and its execution records, if it has a commit. -/
def blockWrites (store : StateView) (parsed : ParsedBlock) :
    Option (BlockCommit × List Execution) :=
  match config.activationHeight with
  | none => none
  | some activation =>
      if parsed.height < activation then some (.empty parsed.height parsed.hash, [])
      else
        match processTransactions P config store parsed with
        | .error _ => none
        | .ok acc => some (acc.commit, acc.executions)

/-- The execution records of a block. -/
def blockRecords (store : StateView) (parsed : ParsedBlock) : List Execution :=
  ((blockWrites P config store parsed).map Prod.snd).getD []

end Process

/-! ### Blocks and their records -/

/-- The block is in the history of a store. -/
def RocksState.Indexed (s : RocksState) (parsed : ParsedBlock) : Prop :=
  ∃ rec ∈ s.heightHistory, rec.height = parsed.height ∧ rec.zcashBlockHash = parsed.hash

/-- The store reports these records at the height, each as often as it is listed. -/
def RocksState.HasRecords (fromJson : Bytes → Option Execution) (s : RocksState)
    (height : BlockHeight) (es : List Execution) : Prop :=
  es.Subperm (s.executionsAtHeight fromJson height)

/-- The block is not indexed and the store is what it was, or the block is indexed and the store
reports its records. -/
def CommittedTogether (fromJson : Bytes → Option Execution) (s s' : RocksState)
    (parsed : ParsedBlock) (es : List Execution) : Prop :=
  ¬ s'.Indexed parsed ∧ s' = s ∨ s'.Indexed parsed ∧ s'.HasRecords fromJson parsed.height es

/-- What keeps a block and its records together: both batches reach the database and no
transaction has two records, or the records are in the store already; without the first batch, a
block that is not indexed already will do. -/
def WritesSafe (fromJson : Bytes → Option Execution) (s : RocksState) (parsed : ParsedBlock)
    (commitFate saveFate : WriteFate) (es : List Execution) : Prop :=
  if commitFate.lands then
    if commitFate = .applied ∧ saveFate.lands then (es.map Execution.txid).Nodup
    else s.HasRecords fromJson parsed.height es
  else s.Indexed parsed → s.HasRecords fromJson parsed.height es

/-! ### What reaches the database -/

namespace RocksState

/-- A write changes the store if it lands. -/
theorem tryWrite_fst (s : RocksState) (batch : WriteBatch) (what : String) (fate : WriteFate) :
    (s.tryWrite batch what fate).1 = if fate.lands then s.write batch else s := by
  cases fate <;> rfl

/-- Only a commit whose write is applied returns a root. -/
theorem commitBlockUnder_eq (H : Hashing) (fate : WriteFate) (s : RocksState) (c : BlockCommit) :
    s.commitBlockUnder H fate c =
      match fate with
      | .applied => ((s.commitBlock H c).1, some (s.commitBlock H c).2)
      | .failed e => (s, some (.error ("rocksdb write batch failed" ++ ": " ++ e)))
      | .diedBefore => (s, none)
      | .diedAfter => ((s.commitBlock H c).1, none) := by
  have hbatch : s.dataBatch c ++ recordBatch c (s.journal c) (projectedRoot H s.view c) =
      s.commitBatch H c := by
    rw [projectedRoot_view]
    rfl
  rw [commitBlockUnder, hbatch, commitBlock_eq]
  cases fate <;> rfl

/-- Execution records are there if their write lands. -/
theorem saveExecutionsUnder_fst (json : Execution → Except String Bytes) (fate : WriteFate)
    (s : RocksState) (es : List Execution) :
    (s.saveExecutionsUnder json fate es).1 =
      if fate.lands then (s.saveExecutions json es).1 else s := by
  rw [saveExecutionsUnder, saveExecutions]
  cases es.mapM fun e => (json e).map fun bytes => (e, bytes) with
  | error e => simp
  | ok encoded => exact tryWrite_fst _ _ _ _

end RocksState

section Process

variable (P : Platform) (config : IndexerConfig) (commitFate saveFate : WriteFate)
  (s : RocksState) (parsed : ParsedBlock)

/-- Where both writes are applied, this is `process_parsed_block`. -/
theorem processParsedBlockUnder_applied :
    processParsedBlockUnder P config .applied .applied s parsed =
      (processParsedBlock (RocksState.store P.hashing P.json) P config s parsed).map
        fun (s', r) => (s', some r) := by
  unfold processParsedBlockUnder processParsedBlock commitEmptyBlock
  cases config.activationHeight with
  | none => rfl
  | some activation =>
      dsimp only
      by_cases hlt : parsed.height < activation
      · rw [if_pos hlt, if_pos hlt, RocksState.commitBlockUnder_eq]
        change _ = Except.ok _
        dsimp only [RocksState.store]
        rcases s.commitBlock P.hashing (.empty parsed.height parsed.hash) with
          ⟨s', e | root⟩ <;> rfl
      · rw [if_neg hlt, if_neg hlt]
        change _ >>= _ = Except.map _ (processTransactions P config s.view parsed >>= _)
        cases processTransactions P config s.view parsed with
        | error e => rfl
        | ok acc =>
            simp only [bind, Except.bind, RocksState.commitBlockUnder_eq, RocksState.store]
            rcases s.commitBlock P.hashing acc.commit with ⟨s', e | root⟩
            · rfl
            · dsimp only
              rw [RocksState.saveExecutionsUnder, RocksState.saveExecutions]
              cases acc.executions.mapM fun e => (P.json e).map fun bytes => (e, bytes) <;> rfl

/-- **What a restart finds**: the commit if the first batch reached the database, and the records
if the second one did. -/
theorem databaseAfter_eq :
    databaseAfter P config commitFate saveFate s parsed =
      match blockWrites P config s.view parsed with
      | none => s
      | some (c, es) =>
          if commitFate.lands then
            if commitFate = .applied ∧ saveFate.lands then
              ((s.commitBlock P.hashing c).1.saveExecutions P.json es).1
            else (s.commitBlock P.hashing c).1
          else s := by
  unfold databaseAfter processParsedBlockUnder blockWrites
  cases config.activationHeight with
  | none => rfl
  | some activation =>
      dsimp only
      by_cases hlt : parsed.height < activation
      · rw [if_pos hlt, if_pos hlt, RocksState.commitBlockUnder_eq, RocksState.commitBlock_eq]
        have hnil : ∀ s' : RocksState, (s'.saveExecutions P.json []).1 = s' := fun _ => rfl
        dsimp only
        rw [hnil, RocksState.commitBlock_eq, ite_self]
        cases commitFate <;> rfl
      · rw [if_neg hlt, if_neg hlt]
        cases processTransactions P config s.view parsed with
        | error e => rfl
        | ok acc =>
            simp only [bind, Except.bind, RocksState.commitBlockUnder_eq, RocksState.commitBlock_eq]
            cases commitFate with
            | applied =>
                have hsave := RocksState.saveExecutionsUnder_fst P.json saveFate
                  (s.write (s.commitBatch P.hashing acc.commit)) acc.executions
                have hlands : WriteFate.applied.lands = true := rfl
                simp only [hlands, if_true, true_and]
                rw [← hsave]
                rcases RocksState.saveExecutionsUnder P.json saveFate
                  (s.write (s.commitBatch P.hashing acc.commit)) acc.executions with
                  ⟨s', _ | e | u⟩ <;> rfl
            | _ => rfl

end Process

/-! ### The records a store keeps -/

namespace RocksState

variable {H : Hashing} {json : Execution → Except String Bytes}
  {fromJson : Bytes → Option Execution} {s : RocksState} {r : Records}

variable (H json fromJson) in
/-- The stores that commits, rollbacks and saved records lead to, whatever becomes of their
writes. -/
inductive Reached : RocksState → Prop
  | fresh : Reached fresh
  | commit {s : RocksState} (h : Reached s) (fate : WriteFate) (c : BlockCommit) :
      Reached (s.commitBlockUnder H fate c).1
  | rollback {s s' : RocksState} (h : Reached s) (t : BlockHeight) (hs' : s' ∈ s.rollbackTrace t) :
      Reached s'
  | save {s : RocksState} (h : Reached s) (fate : WriteFate) (es : List Execution)
      (hes : ∀ e ∈ es, Encodes json fromJson e) : Reached (s.saveExecutionsUnder json fate es).1

/-- No part of a rollback touches the records. -/
theorem agreesOff_rollbackTrace_exec {s' : RocksState} {t : BlockHeight}
    (hs' : s' ∈ s.rollbackTrace t) : AgreesOff (fun k => ¬ IsExec k) s' s := by
  obtain ⟨j, hj⟩ := List.getElem?_of_mem hs'
  obtain ⟨rfl, -⟩ := getElem?_rollbackTrace hj
  refine ((agreesOff_take_metadataWrites _ _).mono fun k hmeta hexec => ?_).trans
    (agreesOff_undoHeights_exec _ s)
  cases k <;> first
    | exact hmeta
    | exact hexec

/-- **Every reached store keeps records**, and nothing else where they are. -/
theorem Reached.keeps (h : Reached H json fromJson s) : ∃ r, KeepsRecords fromJson s r := by
  induction h with
  | fresh => exact ⟨_, keepsRecords_fresh fromJson⟩
  | @commit s _ fate c ih =>
      obtain ⟨r, hr⟩ := ih
      have hcommit : KeepsRecords fromJson (s.commitBlock H c).1 r :=
        (@recordLaws json fromJson H).commitBlock hr c
      refine ⟨r, ?_⟩
      rw [commitBlockUnder_eq]
      cases fate with
      | applied | diedAfter => exact hcommit
      | failed | diedBefore => exact hr
  | rollback _ t hs' ih =>
      obtain ⟨r, hr⟩ := ih
      exact ⟨r, hr.congr (fun txid h => h trivial) (agreesOff_rollbackTrace_exec hs')⟩
  | save _ fate es hes ih =>
      obtain ⟨r, hr⟩ := ih
      rw [saveExecutionsUnder_fst]
      by_cases hlands : fate.lands = true
      · rw [if_pos hlands]
        exact ⟨_, (hr.saveExecutions es hes).1⟩
      · rw [if_neg hlands]
        exact ⟨r, hr⟩

/-- The records are there if they are among those of the height. -/
theorem KeepsRecords.hasRecords_iff (hs : KeepsRecords fromJson s r) {height : BlockHeight}
    {es : List Execution} :
    s.HasRecords fromJson height es ↔
      es.Subperm (r.values.filter fun e => e.blockHeight = height) :=
  (hs.atHeight height).subperm_left

/-- A commit leaves the block indexed. -/
theorem indexed_commitBlock {parsed : ParsedBlock} {c : BlockCommit}
    (hheight : c.height = parsed.height) (hhash : c.zcashBlockHash = parsed.hash) :
    (s.commitBlock H c).1.Indexed parsed := by
  rw [commitBlock_eq]
  exact ⟨_, (s.mem_heightHistory_commitBatch H c).mpr (.inl rfl), hheight, hhash⟩

/-- Execution records do not move the tip. -/
theorem indexed_saveExecutions {parsed : ParsedBlock} {es : List Execution} :
    (s.saveExecutions json es).1.Indexed parsed ↔ s.Indexed parsed := by
  rw [Indexed, (s.agreesOff_saveExecutions json es).heightHistory fun n h => h]
  rfl

end RocksState

/-- The commit of a block is of its height and its hash, and so are its records. -/
theorem blockWrites_eq_some {P : Platform} {config : IndexerConfig} {store : StateView}
    {parsed : ParsedBlock} {c : BlockCommit} {es : List Execution}
    (h : blockWrites P config store parsed = some (c, es)) :
    (c.height = parsed.height ∧ c.zcashBlockHash = parsed.hash) ∧
      ∀ e ∈ es, e.blockHeight = parsed.height := by
  unfold blockWrites at h
  cases hact : config.activationHeight with
  | none =>
      rw [hact] at h
      cases h
  | some activation =>
      rw [hact] at h
      dsimp only at h
      by_cases hlt : parsed.height < activation
      · rw [if_pos hlt] at h
        obtain ⟨rfl, rfl⟩ := Prod.mk.inj (Option.some.inj h)
        exact ⟨⟨rfl, rfl⟩, fun e he => absurd he List.not_mem_nil⟩
      · rw [if_neg hlt] at h
        cases hacc : processTransactions P config store parsed with
        | error p =>
            rw [hacc] at h
            cases h
        | ok acc =>
            rw [hacc] at h
            obtain ⟨rfl, rfl⟩ := Prod.mk.inj (Option.some.inj h)
            exact ⟨commit_processTransactions hacc,
              fun e he => (block_processTransactions hacc e he).1⟩

/-- The stores that a restart finds after a block are reached too. -/
theorem RocksState.Reached.databaseAfter {P : Platform} {config : IndexerConfig}
    {fromJson : Bytes → Option Execution} {s : RocksState} (h : s.Reached P.hashing P.json fromJson)
    {parsed : ParsedBlock}
    (hjson : ∀ e ∈ blockRecords P config s.view parsed, Encodes P.json fromJson e)
    (commitFate saveFate : WriteFate) :
    (databaseAfter P config commitFate saveFate s parsed).Reached P.hashing P.json fromJson := by
  rw [databaseAfter_eq]
  cases hwrites : blockWrites P config s.view parsed with
  | none => exact h
  | some w =>
      obtain ⟨c, es⟩ := w
      have hrecords : blockRecords P config s.view parsed = es := by
        rw [blockRecords, hwrites]
        rfl
      rw [hrecords] at hjson
      have hcommit : (s.commitBlock P.hashing c).1.Reached P.hashing P.json fromJson := by
        have happlied := h.commit .applied c
        rwa [commitBlockUnder_eq] at happlied
      have hsave := hcommit.save .applied es hjson
      rw [saveExecutionsUnder_fst] at hsave
      dsimp only
      split_ifs
      · exact hsave
      · exact hcommit
      · exact h

/-- Where the block is indexed, its records decide. -/
theorem committedTogether_iff_of_indexed {fromJson : Bytes → Option Execution}
    {s s' : RocksState} {parsed : ParsedBlock} {es : List Execution} (h : s'.Indexed parsed) :
    CommittedTogether fromJson s s' parsed es ↔ s'.HasRecords fromJson parsed.height es :=
  ⟨fun htogether => htogether.elim (fun hnot => absurd h hnot.1) And.right,
    fun hrecords => .inr ⟨h, hrecords⟩⟩

/-- **When a block and its records are committed together.** For every store that commits,
rollbacks and saved records lead to, every block, and whatever becomes of its two writes. -/
theorem committedTogether_iff (P : Platform) (config : IndexerConfig)
    (fromJson : Bytes → Option Execution) {s : RocksState}
    (hs : s.Reached P.hashing P.json fromJson) (parsed : ParsedBlock)
    (hjson : ∀ e ∈ blockRecords P config s.view parsed, Encodes P.json fromJson e)
    (commitFate saveFate : WriteFate) :
    CommittedTogether fromJson s (databaseAfter P config commitFate saveFate s parsed) parsed
        (blockRecords P config s.view parsed) ↔
      ∀ c es, blockWrites P config s.view parsed = some (c, es) →
        WritesSafe fromJson s parsed commitFate saveFate es := by
  obtain ⟨r, hr⟩ := hs.keeps
  rw [databaseAfter_eq]
  cases hwrites : blockWrites P config s.view parsed with
  | none =>
      -- nothing is written, and there is no record
      have hnone : blockRecords P config s.view parsed = [] := by
        rw [blockRecords, hwrites]
        rfl
      rw [hnone]
      refine ⟨fun _ c es h => (nomatch h), fun _ => ?_⟩
      by_cases hindexed : s.Indexed parsed
      · exact .inr ⟨hindexed, List.nil_subperm⟩
      · exact .inl ⟨hindexed, rfl⟩
  | some w =>
      obtain ⟨c, es⟩ := w
      obtain ⟨⟨hheight, hhash⟩, hes⟩ := blockWrites_eq_some hwrites
      have hrecords : blockRecords P config s.view parsed = es := by
        rw [blockRecords, hwrites]
        rfl
      rw [hrecords] at hjson ⊢
      have hcommit : RocksState.KeepsRecords fromJson (s.commitBlock P.hashing c).1 r :=
        (@RocksState.recordLaws P.json fromJson P.hashing).commitBlock hr c
      have hindexed := RocksState.indexed_commitBlock (s := s) (H := P.hashing) hheight hhash
      have hforall : (∀ c' es', some (c, es) = some (c', es') →
          WritesSafe fromJson s parsed commitFate saveFate es') ↔
          WritesSafe fromJson s parsed commitFate saveFate es := by
        simp
      rw [hforall, WritesSafe]
      dsimp only
      by_cases hlands : commitFate.lands = true
      · rw [if_pos hlands, if_pos hlands]
        by_cases hsaved : commitFate = .applied ∧ saveFate.lands = true
        · rw [if_pos hsaved, if_pos hsaved,
            committedTogether_iff_of_indexed (RocksState.indexed_saveExecutions.mpr hindexed),
            (hcommit.saveExecutions es hjson).1.hasRecords_iff]
          exact Keyed.subperm_values_saveAll_iff r fun e he => decide_eq_true (hes e he)
        · rw [if_neg hsaved, if_neg hsaved, committedTogether_iff_of_indexed hindexed,
            hcommit.hasRecords_iff, hr.hasRecords_iff]
      · rw [if_neg hlands, if_neg hlands, CommittedTogether]
        tauto

/-- The register's block of one call on the empty store: its record, and what encodes it. -/
theorem exists_record_callBlock (H : Hashing) :
    ∃ (acc : BlockAcc) (e : Execution) (fromJson : Bytes → Option Execution),
      blockWrites (registerPlatform H fun e => .ok e.json) regtestConfig RocksState.fresh.view
          (callBlock [(0, registerScript 0)]) = some (acc.commit, [e]) ∧
        Encodes (fun e => .ok e.json) fromJson e := by
  have hmissing : RocksState.fresh.view.getContract registerId = none := rfl
  obtain ⟨acc, e, hacc, he⟩ :=
    (exists_acc_callBlock (registerPlatform H fun e => .ok e.json) regtestConfig hmissing).1
  refine ⟨acc, e, fun bytes => if bytes = e.json then some e else none, ?_, e.json, rfl, if_pos rfl⟩
  have hact : regtestConfig.activationHeight = some 1 := rfl
  have hge : ¬ (callBlock [(0, registerScript 0)]).height < 1 := by decide
  rw [blockWrites, hact]
  dsimp only
  rw [if_neg hge, hacc]
  dsimp only
  rw [he]

/-- A block is committed with its records where both writes land. -/
theorem committedTogether_applied :
    ∃ (json : Execution → Except String Bytes) (fromJson : Bytes → Option Execution)
      (e : Execution),
      blockRecords (registerPlatform lengthHashing json) regtestConfig RocksState.fresh.view
          (callBlock [(0, registerScript 0)]) = [e] ∧
        CommittedTogether fromJson RocksState.fresh
          (databaseAfter (registerPlatform lengthHashing json) regtestConfig .applied .applied
            RocksState.fresh (callBlock [(0, registerScript 0)]))
          (callBlock [(0, registerScript 0)]) (blockRecords (registerPlatform lengthHashing json)
            regtestConfig RocksState.fresh.view (callBlock [(0, registerScript 0)])) := by
  generalize lengthHashing = H
  obtain ⟨acc, e, fromJson, hwrites, hencodes⟩ := exists_record_callBlock H
  have hrecords : blockRecords (registerPlatform H fun e => .ok e.json) regtestConfig
      RocksState.fresh.view (callBlock [(0, registerScript 0)]) = [e] := by
    rw [blockRecords, hwrites]
    rfl
  refine ⟨_, fromJson, e, hrecords,
    (committedTogether_iff _ _ _ .fresh _ (fun e' he' => ?_) _ _).mpr fun c es hsome => ?_⟩
  · rw [hrecords] at he'
    rw [List.mem_singleton.mp he']
    exact hencodes
  · rw [hwrites] at hsome
    obtain ⟨-, rfl⟩ := Prod.mk.inj (Option.some.inj hsome)
    exact List.nodup_singleton e.txid

/-! ### The next tick -/

/-- A tick on a store that has the tip of the canonical chain indexed returns without a write. -/
theorem resume_of_synced {σ : Type} {S : StateStore σ} {P : Platform} {config : IndexerConfig}
    {s : σ} {chain : Chain} (hfits : chain.tip.height.toNat < 2 ^ 32 - 1)
    (hheight : S.indexedHeight s = some chain.tip.height)
    (hhash : S.indexedBlockHash s = some chain.tip.hash) (stop : Bool)
    (indexedBefore : Option BlockHeight) :
    (Await.tip indexedBefore).resume S P config stop chain.source s =
        (s, .awaiting (.reorgHash ⟨indexedBefore, chain.tip⟩ chain.tip.height chain.tip.hash)) ∧
      (Await.reorgHash ⟨indexedBefore, chain.tip⟩ chain.tip.height chain.tip.hash).resume S P config
          stop chain.source s = finish S ⟨indexedBefore, chain.tip⟩ s := by
  constructor
  · change handleReorg S P config stop ⟨indexedBefore, chain.tip⟩ s = _
    rw [handleReorg, hheight, hhash]
  · rw [Await.resume_reorgHash_self chain.has_tip]
    have hnext : nextBlock S P stop ⟨indexedBefore, chain.tip⟩ s =
        finish S ⟨indexedBefore, chain.tip⟩ s := by
      have hone : (1 : UInt32).toNat = 1 := rfl
      obtain ⟨hadd, hnat⟩ := plainAdd32_eq_ok P.overflowChecks (a := chain.tip.height) (b := 1)
        (by omega)
      have hgt : chain.tip.height + 1 > chain.tip.height := UInt32.lt_iff_toNat_lt.mpr (by omega)
      unfold nextBlock
      by_cases hstop : stop = true
      · exact if_pos hstop
      · rw [if_neg hstop, hheight]
        dsimp only
        rw [hadd]
        exact if_pos hgt
    rcases fastForward_cases S P config stop ⟨indexedBefore, chain.tip⟩ s with
      h | ⟨act, -, -, hbelow, -⟩
    · rw [h, hnext]
    · -- the target of the fast-forward is not above the tip
      have hlt := UInt32.lt_iff_toNat_lt.mp (hbelow _ hheight)
      have hmin := toNat_min32 (act - 1) chain.tip.height
      exact absurd hlt (by rw [hmin]; omega)

/-- A chain of two blocks, the second of which calls the register. -/
def callChain : Chain where
  blocks := [⟨Bytes32.replicate 0, []⟩, ⟨Bytes32.replicate 1, []⟩]
  nonempty := List.cons_ne_nil _ _
  fits := by decide

/-- **The process dies between the two writes, or the second one fails**: the block is indexed, its
record is nowhere, and the next tick finds nothing to do. -/
theorem not_committedTogether_secondWrite :
    ∃ (json : Execution → Except String Bytes) (fromJson : Bytes → Option Execution)
      (e : Execution),
      blockRecords (registerPlatform lengthHashing json) regtestConfig RocksState.fresh.view
          (callBlock [(0, registerScript 0)]) = [e] ∧ Encodes json fromJson e ∧
        ∀ fate ∈ [WriteFate.diedBefore, .failed "disk full"], ∃ s',
          databaseAfter (registerPlatform lengthHashing json) regtestConfig .applied fate
              RocksState.fresh
              (callBlock [(0, registerScript 0)]) = s' ∧
            ¬ CommittedTogether fromJson RocksState.fresh s' (callBlock [(0, registerScript 0)])
              [e] ∧
            s'.Indexed (callBlock [(0, registerScript 0)]) ∧
            ∃ locals height hash outcome,
              (Await.tip (some 1)).resume (RocksState.store lengthHashing json)
                (registerPlatform lengthHashing json)
                  regtestConfig false callChain.source s' =
                (s', .awaiting (.reorgHash locals height hash)) ∧
              (Await.reorgHash locals height hash).resume (RocksState.store lengthHashing json)
                  (registerPlatform lengthHashing json) regtestConfig false callChain.source s' =
                (s', .returned (.ok outcome)) := by
  generalize lengthHashing = H
  obtain ⟨acc, e, fromJson, hwrites, hencodes⟩ := exists_record_callBlock H
  have hrecords : blockRecords (registerPlatform H fun e => .ok e.json) regtestConfig
      RocksState.fresh.view (callBlock [(0, registerScript 0)]) = [e] := by
    rw [blockRecords, hwrites]
    rfl
  refine ⟨_, fromJson, e, hrecords, hencodes, fun fate hfate => ⟨_, rfl, ?_⟩⟩
  obtain ⟨⟨hheight, hhash⟩, -⟩ := blockWrites_eq_some hwrites
  have hlost : fate.lands = false := by
    simp only [List.mem_cons, List.not_mem_nil, or_false] at hfate
    rcases hfate with rfl | rfl <;> rfl
  have hs' : databaseAfter (registerPlatform H fun e => .ok e.json) regtestConfig .applied fate
      RocksState.fresh (callBlock [(0, registerScript 0)]) =
        (RocksState.fresh.commitBlock H acc.commit).1 := by
    rw [databaseAfter_eq, hwrites]
    dsimp only
    have happlied : WriteFate.applied.lands = true := rfl
    rw [if_pos happlied, hlost, if_neg fun h => Bool.false_ne_true h.2]
    rfl
  rw [hs']
  have hindexed := RocksState.indexed_commitBlock (s := RocksState.fresh) (H := H) hheight hhash
  have hkeeps : RocksState.KeepsRecords fromJson (RocksState.fresh.commitBlock H acc.commit).1
      .empty := (@RocksState.recordLaws (fun e => .ok e.json) fromJson H).commitBlock
        (RocksState.keepsRecords_fresh fromJson) acc.commit
  refine ⟨fun htogether => ?_, hindexed, ?_⟩
  · rw [committedTogether_iff_of_indexed hindexed, hkeeps.hasRecords_iff] at htogether
    have hempty : (Keyed.empty : Records).values = [] := rfl
    rw [hempty, List.filter_nil] at htogether
    exact absurd htogether.length_le (Nat.not_succ_le_zero 0)
  · obtain ⟨hindex, hindexHash⟩ :=
      (@RocksState.indexLaws (fun e => .ok e.json) H).commitBlock RocksState.fresh acc.commit
    rw [hheight] at hindex
    rw [hhash] at hindexHash
    have hfits : callChain.tip.height.toNat < 2 ^ 32 - 1 := by decide
    obtain ⟨htip, hreorg⟩ := resume_of_synced hfits hindex hindexHash false (some 1)
    exact ⟨_, _, _, _, htip, hreorg⟩

end Zalkanes
