import Zalkanes.Indexer.Runs

/-!
# Storage Bounds

The host functions bound the keys and values that a call writes, so those in the store of a
running indexer are within the storage limits (`StateView.WithinLimits`), and so are those of every
pending commit. Hence the casts of lengths in the leaves of the root and in the undo journal are
exact.

## Main results

* `Indexed.withinLimits`: the ledger of an index is within the limits.
* `storage_bounds`: limits and casts in every run, on both backends.
* `journals_exact`: the casts in the journals of the RocksDB backend.
-/

namespace Zalkanes

open Lib

/-! ### Limits and casts -/

/-- The code of a store is within the code limit, its keys and values within the storage limits. -/
structure StateView.WithinLimits (store : StateView) : Prop where
  contracts : ∀ e ∈ store.contracts, e.2.2.length ≤ maxCodeBytes.toNat
  storage : ∀ e ∈ store.storage, e.2.1.length ≤ maxStorageKeyBytes.toNat ∧
    e.2.2.length ≤ maxStorageValueBytes.toNat

/-- The casts of lengths in the leaves of a store are exact. -/
structure StateView.LeafCastsExact (store : StateView) : Prop where
  contractLeaf : ∀ e ∈ store.contracts, (UInt32.ofNat e.2.2.length).toNat = e.2.2.length
  storageLeaf : ∀ e ∈ store.storage, (UInt16.ofNat e.2.1.length).toNat = e.2.1.length ∧
    (UInt32.ofNat e.2.2.length).toNat = e.2.2.length

/-- Within the limits the lengths in the leaves are exact. -/
theorem StateView.WithinLimits.leafCastsExact {store : StateView} (h : store.WithinLimits) :
    store.LeafCastsExact where
  contractLeaf e he := toNat_ofNat32 (lt_of_le_of_lt (h.contracts e he) (by decide))
  storageLeaf e he :=
    ⟨toNat_ofNat16 (lt_of_le_of_lt (h.storage e he).1 (by decide)),
      toNat_ofNat32 (lt_of_le_of_lt (h.storage e he).2 (by decide))⟩

/-- The casts of lengths in a journal entry are exact. -/
def UndoOp.CastsExact : UndoOp → Prop
  | .set _ key prev => (UInt16.ofNat key.length).toNat = key.length ∧
      ∀ p ∈ prev, (UInt32.ofNat p.length).toNat = p.length
  | .delete _ key prev => (UInt16.ofNat key.length).toNat = key.length ∧
      (UInt32.ofNat prev.length).toNat = prev.length
  | .deploy _ prev => ∀ p ∈ prev, (UInt32.ofNat p.2.length).toNat = p.2.length

/-- The lengths of an undo operation that fits are exact. -/
theorem UndoOp.Fits.castsExact {op : UndoOp} (h : op.Fits) : op.CastsExact := by
  cases op with
  | set id key prev => exact ⟨toNat_ofNat16 h.1, fun p hp => toNat_ofNat32 (h.2 p hp)⟩
  | delete id key prev => exact ⟨toNat_ofNat16 h.1, toNat_ofNat32 h.2⟩
  | deploy id prev => exact fun p hp => toNat_ofNat32 (h p hp)

/-- The casts of lengths in a journal are exact, and the journal reads back. -/
structure JournalExact (ops : List UndoOp) : Prop where
  count : (UInt32.ofNat ops.length).toNat = ops.length
  entries : ∀ op ∈ ops, op.CastsExact
  decode : decodeUndo (encodeUndo ops) = ops

/-! ### Ledgers -/

section Ledgers

variable {P : Platform} {config : IndexerConfig}

/-- A commit within the limits keeps the ledger within them. -/
theorem Ledger.withinLimits_apply {l : Ledger} (hl : l.view.WithinLimits) {c : BlockCommit}
    (hc : c.WithinLimits) : (l.apply c).view.WithinLimits where
  contracts e he := by
    obtain ⟨id, contract⟩ := e
    have hafter := Std.ExtTreeMap.mem_toList_iff_getElem?_eq_some.mp he
    rcases mem_contracts_apply hafter with h | h
    · exact hl.contracts _ (Std.ExtTreeMap.mem_toList_iff_getElem?_eq_some.mpr h)
    · exact hc.deploys _ h
  storage e he := by
    obtain ⟨⟨⟨id, key⟩, value⟩, hmem, rfl⟩ := List.mem_map.mp he
    have hafter := Std.ExtTreeMap.mem_toList_iff_getElem?_eq_some.mp hmem
    rcases mem_storage_apply hafter with h | h
    · exact hl.storage _ (List.mem_map.mpr
        ⟨((id, key), value), Std.ExtTreeMap.mem_toList_iff_getElem?_eq_some.mpr h, rfl⟩)
    · exact hc.upserts _ h

/-- A block commits within the limits. -/
theorem withinLimits_blockCommit {store : StateView} {parsed : ParsedBlock} {c : BlockCommit}
    (h : blockCommit P config store parsed = .ok (some c)) : c.WithinLimits := by
  rcases blockCommit_eq_some h with rfl | ⟨acc, hacc, rfl⟩
  · exact BlockCommit.withinLimits_empty _ _
  · exact withinLimits_processTransactions hacc

/-- **The ledger of an index is within the limits.** -/
theorem Indexed.withinLimits {cs : List BlockCommit} (h : Indexed P config cs) :
    (ledgerOf cs).view.WithinLimits := by
  induction h with
  | nil => exact ⟨by simp [ledgerOf, Ledger.empty, Ledger.view],
      by simp [ledgerOf, Ledger.empty, Ledger.view]⟩
  | block h parsed hc hlt ih =>
      rw [ledgerOf_append_singleton]
      exact Ledger.withinLimits_apply ih (withinLimits_blockCommit hc)
  | empty h height hash hlt ih =>
      rw [ledgerOf_append_singleton]
      exact Ledger.withinLimits_apply ih (BlockCommit.withinLimits_empty _ _)

end Ledgers

/-! ### Reachable stores -/

section Reachable

variable {σ : Type} (S : StateStore σ) (P : Platform) (config : IndexerConfig)

/-- The limits of storage, and the casts that rely on them, in every run from a store. -/
structure StorageBounds (s₀ : σ) : Prop where
  /-- What is in the store is within the limits. -/
  entries : ∀ s, IndexRun S P config 0 s₀ s → (S.view s).WithinLimits
  /-- A call writes a bounded number of keys, and keys and values within the limits. -/
  calls : ∀ s, IndexRun S P config 0 s₀ s → ∀ ctx result,
    execute P.engine P.overflowChecks ctx (S.view s) = .ok result →
      result.writes.length ≤ maxStorageWritesPerCall.toNat ∧
        ∀ w ∈ result.writes, w.WithinLimits
  /-- The casts in the root of the store are exact. -/
  root : ∀ s, IndexRun S P config 0 s₀ s → (S.view s).LeafCastsExact
  /-- The casts in the root of every pending commit of a block are exact. -/
  projectedRoot : ∀ s, IndexRun S P config 0 s₀ s → ∀ (parsed : ParsedBlock) acc,
    BlockAcc.Effects P config (S.view s) parsed.transactions
      (BlockAcc.init parsed.height parsed.hash) acc →
        ((S.view s).ledger.apply acc.commit).view.LeafCastsExact

/-- The casts in every journal that the RocksDB backend writes in a run are exact: those of the
commits of blocks, and those of empty commits. -/
def JournalsExact : Prop :=
  ∀ s, IndexRun (RocksState.store P.hashing P.json) P config 0 RocksState.fresh s → ∀ c,
    ((∃ parsed, blockCommit P config s.view parsed = .ok (some c)) ∨
      ∃ height hash, c = .empty height hash) → JournalExact (s.journal c)

end Reachable

section Bounds

variable {H : Hashing} {σ : Type} {S : StateStore σ} {Rep : σ → List BlockCommit → Prop}
  {P : Platform} {config : IndexerConfig}

/-- Limits and casts in every run of a lawful store. -/
theorem LawfulStore.storageBounds (L : LawfulStore H S Rep) (hE : P.engine.Metered) {s₀ : σ}
    (h₀ : Rep s₀ []) : StorageBounds S P config s₀ := by
  have hentries : ∀ s, IndexRun S P config 0 s₀ s →
      (S.view s).WithinLimits ∧ (S.view s).ledger.view.WithinLimits := by
    intro s h
    obtain ⟨cs, hs, hcs⟩ := L.indexed_of_run hE h₀ .nil h
    rw [L.view hs (hcs.regular hE), Ledger.ledger_view]
    exact ⟨hcs.withinLimits, hcs.withinLimits⟩
  refine ⟨fun s h => (hentries s h).1, fun s _ ctx result hexec => writes_within_limits hexec,
    fun s h => (hentries s h).1.leafCastsExact, fun s h parsed acc hacc => ?_⟩
  have hcommit := hacc.withinLimits (BlockCommit.withinLimits_empty _ _)
  exact (Ledger.withinLimits_apply (hentries s h).2 hcommit).leafCastsExact

/-- The journals of all blocks are exact. -/
theorem journals_exact (hE : P.engine.Metered) : JournalsExact P config := by
  intro s h c hc
  have L := RocksState.lawful P.hashing P.json
  obtain ⟨cs, hs, hcs⟩ := L.indexed_of_run hE
    (RocksState.AgreesOff.refl RocksState.IsExec RocksState.fresh) .nil h
  have hreg := hcs.regular hE
  have hledger : s.ledger = ledgerOf cs := by
    have hview : s.view = (ledgerOf cs).view := L.view hs hreg
    rw [RocksState.ledger, hview, Ledger.ledger_view]
  have hfits : s.ledger.Fits := hledger ▸ fits_ledgerOf hreg.fits
  have hcommit : c.Fits := by
    rcases hc with ⟨parsed, hc⟩ | ⟨height, hash, rfl⟩
    · exact fits_blockCommit hE hc
    · exact BlockCommit.fits_empty _ _
  refine ⟨toNat_ofNat32 ?_, fun op hop => (RocksState.journal_fits hfits hcommit op hop).castsExact,
    RocksState.decodeUndo_journal hfits hcommit⟩
  exact lt_of_le_of_lt (s.length_journal_le c) hcommit.count

end Bounds

/-- **Storage bounds make the length casts exact**: in every run of the indexer on either backend,
and in the journals of the RocksDB backend. -/
theorem storage_bounds (P : Platform) (config : IndexerConfig) (hE : P.engine.Metered) :
    StorageBounds (MemoryState.store P.hashing) P config MemoryState.new ∧
      StorageBounds (RocksState.store P.hashing P.json) P config RocksState.fresh ∧
      JournalsExact P config :=
  ⟨(MemoryState.lawful P.hashing).storageBounds hE rfl,
    (RocksState.lawful P.hashing P.json).storageBounds hE
      (RocksState.AgreesOff.refl RocksState.IsExec RocksState.fresh),
    journals_exact hE⟩

/-- The register is deployed and called: its contract and its storage entry are within the limits,
and the journal of an empty block over them is exact. -/
theorem storage_bounds_register :
    meteredEngine.Metered ∧ ∀ (H : Hashing) (json : Execution → Except String Bytes),
      let P := meteredPlatform H json
      let S := RocksState.store H json
      ∃ result s₁ s₂, ContractRun S P registerWasm 1 [] result RocksState.fresh s₁ s₂ ∧
        (S.view s₂).storageGet (deployedId H registerWasm) [0] = some [0] ∧
        (S.view s₂).WithinLimits ∧ JournalExact (s₂.journal (.empty 3 (.replicate 3))) := by
  refine ⟨metered_meteredEngine, fun H json => ?_⟩
  intro P S
  obtain ⟨result, s₁, s₂, hrun, hvalue⟩ := (RocksState.lawful H json).exists_registerRun
    (RocksState.AgreesOff.refl RocksState.IsExec RocksState.fresh) json
  obtain ⟨-, hbounds, hjournals⟩ := storage_bounds P regtestConfig metered_meteredEngine
  exact ⟨result, s₁, s₂, hrun, hvalue, hbounds.entries s₂ hrun.indexRun,
    hjournals s₂ hrun.indexRun _ (Or.inr ⟨3, .replicate 3, rfl⟩)⟩

end Zalkanes
