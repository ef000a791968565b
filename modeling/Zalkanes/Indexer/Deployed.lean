import Zalkanes.Indexer.Runs

/-!
# Deployed Contracts

What a block deploys is what its DEPLOY messages say (`ParsedBlock.Authentic`), and a block
deploys only under ids that the store does not have. So the contracts of a store stay until the
block that deployed them is rolled back. A block may deploy one id twice; without a collision of
the hash functions, the two contracts are the same.

## Main results

* `authentic_of_mem_deploys`: what a block deploys.
* `Indexed.getElem?_contracts_append`: later commits leave the contracts alone.
* `code_immutable`: deployed code is authentic and stays, on both backends.
-/

namespace Zalkanes

open Lib

/-! ### What a block deploys -/

/-- The bytes a contract id is the hash of. -/
def contractIdPreimage (network : Network) (txid : TxId) (outputIndex : UInt16)
    (codeHash : CodeHash) : Bytes :=
  network.idByte :: txid.bytes ++ be16 outputIndex ++ codeHash.bytes

namespace ParsedBlock

variable (P : Platform) (config : IndexerConfig) (parsed : ParsedBlock)

/-- The contract is one that a DEPLOY message of the block deploys: validated code within the
limit, of the declared hash, under the id of the deploying transaction, output and hash. -/
structure Authentic (id : ContractId) (codeHash : CodeHash) (wasm : Bytes) : Prop where
  hash : P.hashing.sha256 wasm = codeHash
  pos : 1 ≤ wasm.length
  le : wasm.length ≤ maxCodeBytes.toNat
  valid : validateModule P.engine wasm = .ok ()
  deployed : ∃ tx ∈ parsed.transactions, ∃ deploy : DeployMessage,
    tx.Carries deploy.outputIndex (.deploy deploy) ∧ deploy.codeHash = codeHash ∧
      id = ContractId.derive P.hashing config.network tx.txid deploy.outputIndex codeHash

/-- The hash functions do not collide on what is hashed for the deploys of the block. -/
structure CollisionFree : Prop where
  ids : Set.InjOn (P.hashing.blake2b contractIdPersonalization)
    {x | ∃ tx ∈ parsed.transactions, ∃ deploy : DeployMessage,
      tx.Carries deploy.outputIndex (.deploy deploy) ∧
        x = contractIdPreimage config.network tx.txid deploy.outputIndex deploy.codeHash}
  code : Set.InjOn P.hashing.sha256
    {wasm | ∃ id codeHash, parsed.Authentic P config id codeHash wasm}

end ParsedBlock

section Deploys

variable {P : Platform} {config : IndexerConfig} {store : StateView} {parsed : ParsedBlock}

/-- The preimage of an id decides the code. -/
theorem contractIdPreimage_inj {network : Network} {txid txid' : TxId}
    {outputIndex outputIndex' : UInt16} {codeHash codeHash' : CodeHash}
    (h : contractIdPreimage network txid outputIndex codeHash =
      contractIdPreimage network txid' outputIndex' codeHash') :
    codeHash = codeHash' :=
  Bytes32.ext (List.append_inj' h (by simp)).2

/-- Without collisions, a block has one contract for an id. -/
theorem ParsedBlock.Authentic.unique (hfree : parsed.CollisionFree P config) {id : ContractId}
    {codeHash codeHash' : CodeHash} {wasm wasm' : Bytes}
    (h : parsed.Authentic P config id codeHash wasm)
    (h' : parsed.Authentic P config id codeHash' wasm') :
    codeHash = codeHash' ∧ wasm = wasm' := by
  obtain ⟨tx, htx, deploy, hcarries, rfl, hid⟩ := h.deployed
  obtain ⟨tx', htx', deploy', hcarries', rfl, hid'⟩ := h'.deployed
  have hpreimage := hfree.ids ⟨tx, htx, deploy, hcarries, rfl⟩ ⟨tx', htx', deploy', hcarries', rfl⟩
    (hid.symm.trans hid')
  have hcode := contractIdPreimage_inj hpreimage
  refine ⟨hcode, hfree.code ⟨_, _, h⟩ ⟨_, _, h'⟩ ?_⟩
  rw [h.hash, h'.hash, hcode]

/-- What a block deploys is authentic, and new. -/
theorem authentic_processTransactions {acc : BlockAcc}
    (h : processTransactions P config store parsed = .ok acc) :
    ∀ d ∈ acc.commit.deploys, store.hasContract d.1 = false ∧
      parsed.Authentic P config d.1 d.2.1 d.2.2 := by
  refine (processTransactions_effects h).invariant (I := fun acc =>
    ∀ d ∈ acc.commit.deploys, store.hasContract d.1 = false ∧
      parsed.Authentic P config d.1 d.2.1 d.2.2) ?_ (fun d hd => absurd hd List.not_mem_nil)
  intro tx htx acc acc' heff hI
  cases heff with
  | limits => exact hI
  | deploy _ deploy hcarries =>
      rcases handleDeploy_cases P config store acc tx deploy with heq |
        ⟨wasm, hrec, hnew, hvalid, heq⟩
      · rw [heq]
        exact hI
      · rw [heq]
        intro d hd
        rcases List.mem_append.mp hd with hd | hd
        · exact hI d hd
        · rw [List.mem_singleton.mp hd]
          obtain ⟨hpos, hle, hlength, hhash⟩ := reconstruct_eq_ok hrec
          refine ⟨hnew, hhash, ?_, ?_, hvalid, tx, htx, deploy, hcarries, rfl, rfl⟩
          · rw [hlength]
            exact UInt32.lt_iff_toNat_lt.mp hpos
          · rw [hlength]
            exact UInt32.le_iff_toNat_le.mp hle
  | call acc contractId opcode input result hexec =>
      rw [recordCall_commit, foldl_applyStorageWrite]
      exact hI

/-- What a block deploys is new and authentic. -/
theorem authentic_of_mem_deploys {c : BlockCommit}
    (h : blockCommit P config store parsed = .ok (some c)) :
    ∀ d ∈ c.deploys, store.hasContract d.1 = false ∧
      parsed.Authentic P config d.1 d.2.1 d.2.2 := by
  rcases blockCommit_eq_some h with rfl | ⟨acc, hacc, rfl⟩
  · exact fun d hd => absurd hd List.not_mem_nil
  · exact authentic_processTransactions hacc

/-! ### Contract maps -/

/-- A block leaves the contracts alone that the store has. -/
theorem getElem?_contracts_apply_of_blockCommit {l : Ledger} {c : BlockCommit}
    (hc : blockCommit P config l.view parsed = .ok (some c)) {id : ContractId}
    {contract : CodeHash × Bytes} (h : l.contracts[id]? = some contract) :
    (l.apply c).contracts[id]? = some contract := by
  have hnone : lastWrite c.contractWrites id = none := by
    refine lastWrite_eq_none_iff.mpr fun w hw hkey => ?_
    obtain ⟨d, hd, rfl⟩ := List.mem_map.mp hw
    have hnew : l.contracts.contains d.1 = false := (authentic_of_mem_deploys hc d hd).1
    rw [show d.1 = id from hkey, Std.ExtTreeMap.contains_eq_isSome_getElem?, h] at hnew
    cases hnew
  rw [Ledger.getElem?_contracts_apply, hnone]
  exact h

/-- Without collisions, every contract that a block deploys is there after it. -/
theorem getElem?_contracts_of_mem_deploys (hfree : parsed.CollisionFree P config)
    {l : Ledger} {c : BlockCommit} (hc : blockCommit P config store parsed = .ok (some c))
    {d : ContractId × CodeHash × Bytes} (hd : d ∈ c.deploys) :
    (l.apply c).contracts[d.1]? = some d.2 := by
  have hlast : lastWrite c.contractWrites d.1 = some (some d.2) := by
    refine (lastWrite_map_put_iff (f := Prod.fst) (g := Prod.snd) ?_).mpr ⟨d, hd, rfl, rfl⟩
    intro a ha b hb hab
    have hauthentic := (authentic_of_mem_deploys hc a ha).2
    rw [hab] at hauthentic
    obtain ⟨hcode, hwasm⟩ := hauthentic.unique hfree (authentic_of_mem_deploys hc b hb).2
    exact Prod.ext hcode hwasm
  rw [Ledger.getElem?_contracts_apply, hlast]
  rfl

/-- **Later commits leave the contracts alone.** -/
theorem Indexed.getElem?_contracts_append {cs ds : List BlockCommit}
    (h : Indexed P config (cs ++ ds)) {id : ContractId} {contract : CodeHash × Bytes}
    (hcontract : (ledgerOf cs).contracts[id]? = some contract) :
    (ledgerOf (cs ++ ds)).contracts[id]? = some contract := by
  induction ds using List.reverseRecOn with
  | nil => rwa [List.append_nil]
  | append_singleton ds d ih =>
      rw [← List.append_assoc] at h ⊢
      obtain ⟨hbefore, hlast⟩ := h.of_append_singleton
      rw [ledgerOf_append_singleton]
      rcases hlast with ⟨parsed, hc⟩ | ⟨height, hash, rfl⟩
      · exact getElem?_contracts_apply_of_blockCommit hc (ih hbefore)
      · exact ih hbefore

/-- Every contract of a ledger was deployed by one of its commits. -/
theorem exists_mem_deploys {cs : List BlockCommit} {id : ContractId}
    {contract : CodeHash × Bytes} (h : (ledgerOf cs).contracts[id]? = some contract) :
    ∃ c ∈ cs, (id, contract) ∈ c.deploys := by
  induction cs using List.reverseRecOn with
  | nil => simp [ledgerOf, Ledger.empty] at h
  | append_singleton cs c ih =>
      rw [ledgerOf_append_singleton] at h
      rcases Ledger.mem_contracts_apply h with h | h
      · obtain ⟨d, hd, hmem⟩ := ih h
        exact ⟨d, by simp [hd], hmem⟩
      · exact ⟨c, by simp, h⟩

end Deploys

/-! ### Reachable stores -/

section Reachable

variable {σ : Type} (S : StateStore σ) (P : Platform) (config : IndexerConfig)

/-- The indexer reaches `s` from `s₀` through the block, which takes it from `s₁` to `s₂`, and
does not roll the block back afterwards. -/
structure ThroughBlock (s₀ : σ) (parsed : ParsedBlock) (s₁ s₂ s : σ) : Prop where
  before : IndexRun S P config 0 s₀ s₁
  below : S.Below s₁ parsed.height
  block : ∃ res, processParsedBlock S P config s₁ parsed = .ok (s₂, res)
  after : IndexRun S P config parsed.height.toNat s₂ s

/-- Deployed code is authentic, and it stays as long as its block is not rolled back. -/
structure CodeImmutable (s₀ : σ) : Prop where
  /-- Every contract is authentic, and its block has not been rolled back. -/
  authentic : ∀ s, IndexRun S P config 0 s₀ s → ∀ id codeHash wasm,
    (S.view s).getContract id = some (codeHash, wasm) →
      ∃ parsed s₁ s₂, ThroughBlock S P config s₀ parsed s₁ s₂ s ∧
        parsed.Authentic P config id codeHash wasm
  /-- Every accepted deploy of a block is there as long as the block is. -/
  deployed : ∀ parsed s₁ s₂ s, ThroughBlock S P config s₀ parsed s₁ s₂ s →
    parsed.CollisionFree P config → ∀ c,
      blockCommit P config (S.view s₁) parsed = .ok (some c) →
        ∀ d ∈ c.deploys, (S.view s).getContract d.1 = some d.2
  /-- The contracts before and after a block are there as long as the block is. -/
  kept : ∀ parsed s₁ s₂ s, ThroughBlock S P config s₀ parsed s₁ s₂ s → ∀ id contract,
    (S.view s₁).getContract id = some contract ∨ (S.view s₂).getContract id = some contract →
      (S.view s).getContract id = some contract

end Reachable

namespace LawfulStore

variable {H : Hashing} {σ : Type} {S : StateStore σ} {Rep : σ → List BlockCommit → Prop}
  (L : LawfulStore H S Rep) {P : Platform} {config : IndexerConfig}

include L

/-- A store has the contracts of its commits. -/
theorem getContract {s : σ} {cs : List BlockCommit} (hs : Rep s cs) (hcs : Regular cs)
    (id : ContractId) : (S.view s).getContract id = (ledgerOf cs).contracts[id]? := by
  rw [L.view hs hcs]
  rfl

/-- Every commit of a reachable store that deploys something is that of a block which has not been
rolled back. -/
theorem throughBlock_of_run (hE : P.engine.Metered) {s₀ s : σ} (h₀ : Rep s₀ [])
    (h : IndexRun S P config 0 s₀ s) :
    ∃ cs, Rep s cs ∧ Indexed P config cs ∧ ∀ c ∈ cs, c.deploys = [] ∨
      ∃ parsed s₁ s₂, ThroughBlock S P config s₀ parsed s₁ s₂ s ∧
        blockCommit P config (S.view s₁) parsed = .ok (some c) := by
  induction h with
  | refl => exact ⟨[], h₀, .nil, by simp⟩
  | tail hrun hstep ih =>
      obtain ⟨cs, hs, hcs, hthrough⟩ := ih
      obtain ⟨cs', hs', hcs', hcases⟩ := L.step_indexed hE hs hcs hstep
      refine ⟨cs', hs', hcs', fun c hc => ?_⟩
      rcases hcases with ⟨new, rfl, hall, hnew⟩ | ⟨t, -, rfl, rfl⟩
      · rcases List.mem_append.mp hc with hc | hc
        · rcases hthrough c hc with hnone | ⟨parsed, s₁, s₂, ht, hcommit⟩
          · exact Or.inl hnone
          · exact Or.inr ⟨parsed, s₁, s₂, { ht with after := ht.after.tail (hall _) }, hcommit⟩
        · rcases hnew c hc with ⟨height, hash, rfl⟩ | ⟨parsed, res, hbelow, hres, hcommit⟩
          · exact Or.inl rfl
          · exact Or.inr ⟨parsed, _, _, ⟨hrun, hbelow, ⟨res, hres⟩, .refl⟩, hcommit⟩
      · obtain ⟨hmem, hle⟩ := List.mem_filter.mp hc
        rcases hthrough c hmem with hnone | ⟨parsed, s₁, s₂, ht, hcommit⟩
        · exact Or.inl hnone
        · have hfloor : parsed.height.toNat ≤ t.toNat := by
            rw [← (height_blockCommit hcommit).1]
            exact of_decide_eq_true hle
          exact Or.inr ⟨parsed, s₁, s₂, { ht with after := ht.after.tail (.rollback t hfloor) },
            hcommit⟩

/-- The commits around a block that has not been rolled back: those before it, its own if it has
one, and later ones. -/
theorem commits_of_throughBlock (hE : P.engine.Metered) {s₀ s₁ s₂ s : σ} {parsed : ParsedBlock}
    (h₀ : Rep s₀ []) (h : ThroughBlock S P config s₀ parsed s₁ s₂ s) :
    ∃ (cs : List BlockCommit) (new : Option BlockCommit) (later : List BlockCommit),
      blockCommit P config (S.view s₁) parsed = .ok new ∧ Rep s₁ cs ∧ Rep s₂ (cs ++ new.toList) ∧
        Rep s (cs ++ new.toList ++ later) ∧ Indexed P config (cs ++ new.toList ++ later) := by
  obtain ⟨cs, hs₁, hcs⟩ := L.indexed_of_run hE h₀ .nil h.before
  obtain ⟨res, hres⟩ := h.block
  obtain ⟨new, hnew, hs₂, hindexed⟩ := L.block_indexed hE hs₁ hcs h.below hres
  obtain ⟨cs', hs, hcs', later, rfl⟩ := L.prefix_of_run hE hs₂ hindexed (fun c hc => by
    rcases List.mem_append.mp hc with hc | hc
    · exact (L.level_lt hs₁ (hcs.regular hE) h.below c hc).le
    · rw [Option.mem_toList.mp hc] at hnew
      rw [BlockCommit.level, (height_blockCommit hnew).1]) h.after
  exact ⟨cs, new, later, hnew, hs₁, hs₂, hs, hcs'⟩

/-- Deployed code is authentic and stays, on every lawful store. -/
theorem codeImmutable (hE : P.engine.Metered) {s₀ : σ} (h₀ : Rep s₀ []) :
    CodeImmutable S P config s₀ where
  authentic s h id codeHash wasm hcontract := by
    obtain ⟨cs, hs, hcs, hthrough⟩ := L.throughBlock_of_run hE h₀ h
    rw [L.getContract hs (hcs.regular hE)] at hcontract
    obtain ⟨c, hc, hmem⟩ := exists_mem_deploys hcontract
    rcases hthrough c hc with hnone | ⟨parsed, s₁, s₂, ht, hcommit⟩
    · rw [hnone] at hmem
      exact absurd hmem List.not_mem_nil
    · exact ⟨parsed, s₁, s₂, ht, (authentic_of_mem_deploys hcommit _ hmem).2⟩
  deployed parsed s₁ s₂ s h hfree c hc d hd := by
    obtain ⟨cs, new, later, hnew, -, -, hs, hindexed⟩ := L.commits_of_throughBlock hE h₀ h
    obtain rfl := Except.ok.inj (hnew.symm.trans hc)
    rw [L.getContract hs (hindexed.regular hE)]
    refine hindexed.getElem?_contracts_append ?_
    rw [Option.toList_some, ledgerOf_append_singleton]
    exact getElem?_contracts_of_mem_deploys hfree hc hd
  kept parsed s₁ s₂ s h id contract hcontract := by
    obtain ⟨cs, new, later, -, hs₁, hs₂, hs, hindexed⟩ := L.commits_of_throughBlock hE h₀ h
    rw [L.getContract hs (hindexed.regular hE)]
    refine hindexed.getElem?_contracts_append ?_
    have hbefore := hindexed.of_append
    rcases hcontract with hcontract | hcontract
    · rw [L.getContract hs₁ (hbefore.of_append.regular hE)] at hcontract
      exact hbefore.getElem?_contracts_append hcontract
    · rwa [L.getContract hs₂ (hbefore.regular hE)] at hcontract

end LawfulStore

/-- **Deployed code is authentic and immutable** on both backends, in every run of the indexer. -/
theorem code_immutable (P : Platform) (config : IndexerConfig) (hE : P.engine.Metered) :
    CodeImmutable (MemoryState.store P.hashing) P config MemoryState.new ∧
      CodeImmutable (RocksState.store P.hashing P.json) P config RocksState.fresh :=
  ⟨(MemoryState.lawful P.hashing).codeImmutable hE rfl,
    (RocksState.lawful P.hashing P.json).codeImmutable hE
      (RocksState.AgreesOff.refl RocksState.IsExec RocksState.fresh)⟩

/-- The register is deployed and called: its code is that of a DEPLOY message of the run. -/
theorem code_immutable_register :
    meteredEngine.Metered ∧ ∀ (H : Hashing) (json : Execution → Except String Bytes),
      let P := meteredPlatform H json
      let S := RocksState.store H json
      ∃ result s₁ s₂, ContractRun S P registerWasm 1 [] result RocksState.fresh s₁ s₂ ∧
        ∃ parsed t t', ThroughBlock S P regtestConfig RocksState.fresh parsed t t' s₂ ∧
          parsed.Authentic P regtestConfig (deployedId H registerWasm)
            (CodeHash.of H registerWasm) registerWasm := by
  refine ⟨metered_meteredEngine, fun H json => ?_⟩
  intro P S
  obtain ⟨result, s₁, s₂, hrun, -⟩ := (RocksState.lawful H json).exists_registerRun
    (RocksState.AgreesOff.refl RocksState.IsExec RocksState.fresh) json
  exact ⟨result, s₁, s₂, hrun, (code_immutable P regtestConfig metered_meteredEngine).2.authentic
    s₂ hrun.indexRun _ _ _ hrun.code⟩

end Zalkanes
