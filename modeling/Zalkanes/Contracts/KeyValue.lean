import Zalkanes.Contracts.Runs

/-!
# The Key-Value Contract

A map in the storage of a contract. The contract does not look at what the host makes of a write,
so a call that sets a key which is too long succeeds and does nothing. In a block, deletes win: a
key that any call deleted is gone, also when a later call of the block set it.

## Main results

* `KeyValue.run_dispatch`: what a call does.
* `key_value_on_chain`: the map after a block, and what a call reads, on both backends.
-/

namespace Zalkanes

open Lib

namespace KeyValue

/-! ### The contract -/

/-- `dispatch` of the contract. -/
def dispatch (opcode _inputLen : Int32) : Contract := do
  let input ← Sdk.readInput
  match opcode.toUInt32.toUInt16.toNat with
  | 0x0001 =>
      if input.length < 2 then return -1
      else do
        let keyLen := (ofBe16 (input.take 2)).toNat
        if input.length < 2 + keyLen then return -1
        else do
          let key := (input.drop 2).take keyLen
          let value := input.drop (2 + keyLen)
          let _ ← Sdk.set key value
          return 0
  | 0x0002 => do
      match ← Sdk.get input with
      | some v =>
          let _ ← Sdk.writeOutput v
          return 0
      | none => return -1
  | 0x0003 => do
      let _ ← Sdk.delete input
      return 0
  | _ => return -1

/-! ### The map -/

/-- What the calls of the contract are for. -/
inductive Op where
  | set (key value : Bytes)
  | get (key : Bytes)
  | delete (key : Bytes)
  deriving DecidableEq

/-- The call that an opcode and an input ask for. -/
def Op.parse (opcode : UInt16) (input : Bytes) : Option Op :=
  match opcode.toNat with
  | 0x0001 =>
      if input.length < 2 then none
      else
        let keyLen := (ofBe16 (input.take 2)).toNat
        if input.length < 2 + keyLen then none
        else some (.set ((input.drop 2).take keyLen) (input.drop (2 + keyLen)))
  | 0x0002 => some (.get input)
  | 0x0003 => some (.delete input)
  | _ => none

/-- The call that a context asks for. -/
def op? (ctx : CallContext) : Option Op := Op.parse ctx.opcode (ctx.input.take sdkBufferBytes)

/-- What a call leaves at a key of the map, if anything: a write over the limits of the host is
lost. -/
def Op.effect : Op → Bytes → Option (Option Bytes)
  | set key value, key' =>
      if key = key' ∧ key.length ≤ maxStorageKeyBytes.toNat ∧
          value.length ≤ maxStorageValueBytes.toNat then some (some value)
      else none
  | get _, _ => none
  | delete key, key' =>
      if key = key' ∧ key.length ≤ maxStorageKeyBytes.toNat then some none else none

/-- A key that is read has to be there. -/
def Op.refused (storage : ContractStorage) : Op → Bool
  | get key => (storage key).isNone
  | _ => false

/-- What a call returns. -/
def Op.output (storage : ContractStorage) : Op → Bytes
  | get key => (storage key).getD []
  | _ => []

/-- The map after one call after the other, of calls that all read the map before the block: the
last one that touched the key decides, unless one of them deleted it. -/
def blockMap (storage : ContractStorage) (ops : List Op) (key : Bytes) : Option Bytes :=
  if ∃ op ∈ ops, op.effect key = some none then none
  else (ops.reverse.findSome? fun op => op.effect key).getD (storage key)

/-- What the contract runs for a call. -/
def Op.code : Op → Contract
  | set key value => do
      let _ ← Sdk.set key value
      return 0
  | get key => do
      match ← Sdk.get key with
      | some v =>
          let _ ← Sdk.writeOutput v
          return 0
      | none => return -1
  | delete key => do
      let _ ← Sdk.delete key
      return 0

/-- The contract parses its input, and refuses it or runs the call. -/
theorem dispatch_eq (opcode inputLen : Int32) :
    dispatch opcode inputLen = Sdk.readInput >>= fun input =>
      (Op.parse opcode.toUInt32.toUInt16 input).elim (pure (-1)) Op.code := by
  unfold dispatch Op.parse
  refine congrArg _ (funext fun input => ?_)
  split
  · dsimp only
    split_ifs <;> rfl
  all_goals rfl

/-! ### Calls -/

section Call

variable {ctx : CallContext} {store : StateView}

/-- A call runs the code of its operation. -/
theorem run_dispatch_eq (ctx : CallContext) (store : StateView) :
    (ctx.contract dispatch).run (.init ctx store) =
      ((op? ctx).elim (pure (-1)) Op.code).run (.init ctx store) := by
  rw [CallContext.contract, dispatch_eq, SdkCode.run_bind, toUInt16_opcodeWord]
  rfl

/-- What the host makes of a set on an overlay with room. -/
theorem run_set {host : HostState} (h : host.Room 1) (key value : Bytes) :
    ((Sdk.set key value).run host).2 =
      if key.length ≤ maxStorageKeyBytes.toNat ∧ value.length ≤ maxStorageValueBytes.toNat then
        host.put key (some value)
      else host := by
  show ((SdkCall.set key value).perform host).2 = _
  rw [SdkCall.perform, h.not_full key]
  by_cases hlimits : key.length ≤ maxStorageKeyBytes.toNat ∧
      value.length ≤ maxStorageValueBytes.toNat
  · rw [if_pos hlimits, if_neg (by simp [hlimits.1, hlimits.2])]
  · rw [if_neg hlimits, if_pos (by rw [not_and_or] at hlimits; simpa [or_assoc] using hlimits)]

/-- What the host makes of a delete on an overlay with room. -/
theorem run_delete {host : HostState} (h : host.Room 1) (key : Bytes) :
    ((Sdk.delete key).run host).2 =
      if key.length ≤ maxStorageKeyBytes.toNat then host.put key none else host := by
  show ((SdkCall.delete key).perform host).2 = _
  rw [SdkCall.perform, h.not_full key]
  by_cases hlimit : key.length ≤ maxStorageKeyBytes.toNat
  · rw [if_pos hlimit, if_neg (by simp [hlimit])]
  · rw [if_neg hlimit, if_pos (Or.inl (not_le.mp hlimit))]

/-- **What a call does** that is not refused. -/
theorem run_dispatch (hfits : store.FitsBuffer) {op : Op} (hop : op? ctx = some op)
    (h : op.refused (store.storageGet ctx.contractId) = false) :
    ∃ host, (ctx.contract dispatch).run (.init ctx store) = (0, host) ∧
      (∀ key, host.overlay[key]? = op.effect key) ∧
        host.output = op.output (store.storageGet ctx.contractId) := by
  have hroom := (HostState.room_init ctx store).mono (show 1 ≤ 256 by decide)
  have hempty : ∀ key : Bytes, (HostState.init ctx store).overlay[key]? = none :=
    fun key => Std.ExtTreeMap.getElem?_empty
  rw [run_dispatch_eq, hop]
  dsimp only [Option.elim_some]
  cases op with
  | set key value =>
      refine ⟨_, by rw [Op.code, SdkCode.run_bind, run_set hroom]; rfl, fun key' => ?_, ?_⟩
      · rw [Op.effect]
        split_ifs with hlimits heffect heffect
        · rw [HostState.getElem?_put, if_pos heffect.1]
        · rw [HostState.getElem?_put, if_neg fun heq => heffect ⟨heq, hlimits⟩, hempty]
        · exact absurd heffect.2 hlimits
        · exact hempty key'
      · split_ifs <;> rfl
  | get key =>
      obtain ⟨v, hv⟩ : ∃ v, store.storageGet ctx.contractId key = some v := by
        rw [Op.refused, Option.isNone_eq_false_iff] at h
        exact Option.isSome_iff_exists.mp h
      have hlen : v.length ≤ maxReturnDataBytes.toNat := hfits _ _ _ hv
      have hlookup : (HostState.init ctx store).lookup key = some v := hv
      refine ⟨{ HostState.init ctx store with output := v }, ?_, hempty, ?_⟩
      · rw [Op.code, SdkCode.run_bind, SdkCode.run_get, hlookup]
        dsimp only
        rw [SdkCode.run_bind, SdkCode.run_writeOutput hlen]
        rfl
      · rw [Op.output, hv]
        rfl
  | delete key =>
      refine ⟨_, by rw [Op.code, SdkCode.run_bind, run_delete hroom]; rfl, fun key' => ?_, ?_⟩
      · rw [Op.effect]
        split_ifs with hlimit heffect heffect
        · rw [HostState.getElem?_put, if_pos heffect.1]
        · rw [HostState.getElem?_put, if_neg fun heq => heffect ⟨heq, hlimit⟩, hempty]
        · exact absurd heffect.2 hlimit
        · exact hempty key'
      · split_ifs <;> rfl

/-- A call fails that asks for nothing, or for a key that is not there. -/
theorem run_dispatch_of_refused
    (h : (op? ctx).all (Op.refused (store.storageGet ctx.contractId)) = true) :
    (ctx.contract dispatch).run (.init ctx store) = (-1, .init ctx store) := by
  rw [run_dispatch_eq]
  cases hop : op? ctx with
  | none => rfl
  | some op =>
      rw [hop, Option.all_some] at h
      cases op with
      | set key value => cases h
      | delete key => cases h
      | get key =>
          have hlookup : (HostState.init ctx store).lookup key = none :=
            Option.isNone_iff_eq_none.mp h
          dsimp only [Option.elim_some]
          rw [Op.code, SdkCode.run_bind, SdkCode.run_get, hlookup]
          rfl

end Call

/-! ### Blocks -/

/-- The calls of a block to the contract that succeed. -/
def blockOps (id : ContractId) (calls : List (CallContext × CallResult)) : List Op :=
  (landed id calls).filterMap op?

section Blocks

variable {P : Platform} {store : StateView} {id : ContractId}

/-- A call that succeeds is one that the map does not refuse. -/
theorem effect_of_landed (hfits : store.FitsBuffer) {ctx : CallContext} (hid : ctx.contractId = id)
    (hrun : (ctx.contract dispatch).run (.init ctx store) = (0, ctx.outcome dispatch store)) :
    ∃ op, op? ctx = some op ∧ op.refused (store.storageGet id) = false ∧
      ∀ key, (ctx.outcome dispatch store).overlay[key]? = op.effect key := by
  subst hid
  by_cases hall : (op? ctx).all (Op.refused (store.storageGet ctx.contractId)) = true
  · rw [run_dispatch_of_refused hall] at hrun
    exact absurd (congrArg Prod.fst hrun) (show ¬ (-1 : Int32) = 0 by decide)
  · obtain ⟨op, hop, hrefused⟩ : ∃ op, op? ctx = some op ∧
        op.refused (store.storageGet ctx.contractId) = false := by
      cases hop : op? ctx with
      | none => simp [hop] at hall
      | some op => exact ⟨op, rfl, by simpa [hop] using hall⟩
    obtain ⟨host, hhost, heffect, -⟩ := run_dispatch hfits hop hrefused
    obtain rfl : host = ctx.outcome dispatch store := congrArg Prod.snd (hhost.symm.trans hrun)
    exact ⟨op, hop, hrefused, heffect⟩

/-- What calls that succeed leave. -/
theorem outcomes_landed (hfits : store.FitsBuffer) {ctxs : List CallContext}
    (hlanded : ∀ ctx ∈ ctxs, ctx.contractId = id ∧
      (ctx.contract dispatch).run (.init ctx store) = (0, ctx.outcome dispatch store))
    (key : Bytes) :
    (∀ op ∈ ctxs.filterMap op?, op.refused (store.storageGet id) = false) ∧
      (Deletes (ctxs.map fun ctx => ctx.outcome dispatch store) key ↔
        ∃ op ∈ ctxs.filterMap op?, op.effect key = some none) ∧
      lastOutcome (ctxs.map fun ctx => ctx.outcome dispatch store) key =
        (ctxs.filterMap op?).reverse.findSome? fun op => op.effect key := by
  induction ctxs with
  | nil => exact ⟨by simp, by simp [Deletes], rfl⟩
  | cons ctx ctxs ih =>
      obtain ⟨hid, hrun⟩ := hlanded ctx (by simp)
      obtain ⟨op, hop, hrefused, heffect⟩ := effect_of_landed hfits hid hrun
      obtain ⟨ihRefused, ihDeletes, ihLast⟩ := ih fun ctx' hmem => hlanded ctx' (by simp [hmem])
      rw [List.filterMap_cons_some hop, List.map_cons, lastOutcome, ihLast, heffect,
        List.reverse_cons, List.findSome?_append, List.findSome?_singleton]
      refine ⟨List.forall_mem_cons.mpr ⟨hrefused, ihRefused⟩, ?_, rfl⟩
      rw [List.exists_mem_cons_iff, ← ihDeletes, ← heffect, Deletes, List.exists_mem_cons_iff]
      rfl

/-- **The map after a block.** -/
theorem storage_block {l : Ledger} (hcode : l.view.Runs P.engine id dispatch)
    (hfits : l.view.FitsBuffer) {config : IndexerConfig} {parsed : ParsedBlock} {c : BlockCommit}
    (hc : blockCommit P config l.view parsed = .ok (some c)) :
    ∃ calls, blockCalls P config l.view parsed = .ok calls ∧
      (∀ op ∈ blockOps id calls, op.refused (l.view.storageGet id) = false) ∧
      (l.apply c).view.storageGet id = blockMap (l.view.storageGet id) (blockOps id calls) := by
  obtain ⟨calls, hcalls, hdeleted, hkept⟩ := storage_of_block hcode hfits hc
  have hlanded : ∀ ctx ∈ landed id calls, _ := fun ctx hctx =>
    run_of_mem_landed hcode hfits (execute_of_mem_blockCalls hcalls) hctx
  refine ⟨calls, hcalls, (outcomes_landed hfits hlanded []).1, funext fun key => ?_⟩
  obtain ⟨-, hdeletes, hlast⟩ := outcomes_landed hfits hlanded key
  rw [blockMap]
  split_ifs with h
  · exact hdeleted key (hdeletes.mpr h)
  · rw [hkept key (mt hdeletes.mp h), ContractStorage.overwrite_apply, outcomes, hlast]
    rfl

end Blocks

/-! ### Reachable stores -/

section Reachable

variable {σ : Type} (S : StateStore σ) (P : Platform) (config : IndexerConfig)

/-- The map in every run of the indexer, under any id with code that implements it. -/
structure KeyValueOnChain (s₀ : σ) : Prop where
  /-- All calls of a block read the map before it, deletes win, and else the last write. -/
  blocks : ∀ id s parsed s' res, IndexRun S P config 0 s₀ s →
    (S.view s).Runs P.engine id dispatch → S.Below s parsed.height →
      processParsedBlock S P config s parsed = .ok (s', res) →
        ∃ calls, blockCalls P config (S.view s) parsed = .ok calls ∧
          (∀ op ∈ blockOps id calls, op.refused ((S.view s).storageGet id) = false) ∧
          (S.view s').storageGet id =
            blockMap ((S.view s).storageGet id) (blockOps id calls)
  /-- A call that succeeds asks for something which the map does not refuse, and returns what the
  map holds. -/
  calls : ∀ s ctx, IndexRun S P config 0 s₀ s → (S.view s).Runs P.engine ctx.contractId dispatch →
    ∀ output fuelUsed writes,
      execute P.engine P.overflowChecks ctx (S.view s) = .ok (.success output fuelUsed writes) →
        ∃ op, op? ctx = some op ∧ op.refused ((S.view s).storageGet ctx.contractId) = false ∧
          output = op.output ((S.view s).storageGet ctx.contractId)

variable {S P config} {Rep : σ → List BlockCommit → Prop}

/-- The map on every lawful store. -/
theorem keyValueOnChain (L : LawfulStore P.hashing S Rep) (hE : P.engine.Metered) {s₀ : σ}
    (h₀ : Rep s₀ []) : KeyValueOnChain S P config s₀ where
  blocks id s parsed s' res hrun hcode hbelow h := by
    rcases L.block_cases hE h₀ hrun hbelow h with ⟨hview, hcalls⟩ | ⟨cs, c, hcs, hview, hview', hc⟩
    · refine ⟨[], hcalls, fun op hop => absurd hop List.not_mem_nil, ?_⟩
      rw [hview]
      funext key
      exact (if_neg (by simp [blockOps, landed])).symm
    · rw [hview] at hcode
      rw [hview, hview']
      exact storage_block hcode hcs.fitsBuffer hc
  calls s ctx hrun hcode output fuelUsed writes hexec := by
    have hfits := L.fitsBuffer_of_run hE h₀ hrun
    obtain ⟨_, _, _, ⟨codeHash, wasm, _, _, hcontract, -⟩, -⟩ := exists_run_of_execute_success hexec
    obtain ⟨host, hhost, rfl, -⟩ :=
      run_of_execute_success hcontract (hcode _ _ hcontract) hfits hexec
    have houtcome : host = ctx.outcome dispatch (S.view s) := by
      rw [CallContext.outcome, hhost]
    obtain ⟨op, hop, hrefused, -⟩ := effect_of_landed hfits rfl (houtcome ▸ hhost)
    obtain ⟨host', hhost', -, houtput⟩ := run_dispatch hfits hop hrefused
    obtain rfl : host = host' := congrArg Prod.snd (hhost.symm.trans hhost')
    exact ⟨op, hop, hrefused, houtput⟩

/-- **The map on the chain**, on both backends. -/
theorem key_value_on_chain (P : Platform) (config : IndexerConfig) (hE : P.engine.Metered) :
    KeyValueOnChain (MemoryState.store P.hashing) P config MemoryState.new ∧
      KeyValueOnChain (RocksState.store P.hashing P.json) P config RocksState.fresh :=
  ⟨keyValueOnChain (MemoryState.lawful P.hashing) hE rfl,
    keyValueOnChain (RocksState.lawful P.hashing P.json) hE
      (RocksState.AgreesOff.refl RocksState.IsExec RocksState.fresh)⟩

/-- The contract is deployed and called to set a key. -/
theorem key_value_on_chain_contract :
    (contractEngine [0] [] dispatch).Metered ∧
    ∀ (H : Hashing) (json : Execution → Except String Bytes),
      let P := contractPlatform H json [0] [] dispatch
      let S := RocksState.store H json
      ∃ result s₁ s₂, ContractRun S P [0] 1 [0, 1, 7, 9] result RocksState.fresh s₁ s₂ ∧
        (S.view s₁).storageGet (deployedId H [0]) [7] = none ∧
        (S.view s₂).storageGet (deployedId H [0]) [7] = some [9] := by
  refine ⟨contractEngine_metered [0] [] dispatch, fun H json => ?_⟩
  intro P S
  have hread : ([] ++ SdkCall.readInput.heap).length < 2 ^ 31 := by
    rw [List.nil_append, SdkCall.heap, List.length_replicate]
    decide
  have hfresh := RocksState.AgreesOff.refl RocksState.IsExec RocksState.fresh
  have hop : op? (callCodeContext H [0] 1 [0, 1, 7, 9]) = some (.set [7] [9]) := by rfl
  obtain ⟨result, s₁, s₂, hrun, hlanded⟩ := (RocksState.lawful H json).exists_run_of_contract
    hfresh json [] dispatch 1 (show ([0, 1, 7, 9] : Bytes).length ≤ chunkPayloadSize by decide)
    (show 2 ≤ maxFuelPerCall by decide) fun store _ => by
      refine ⟨⟨hread, show [7, 9].length < 2 ^ 31 by decide, trivial⟩, ?_⟩
      rw [run_dispatch_eq, hop]
      exact ⟨_, rfl⟩
  obtain ⟨hbelow, res, hcall⟩ := hrun.call
  have hexecuted : blockCalls P regtestConfig (S.view s₁) (callCodeBlock H [0] 1 [0, 1, 7, 9]) =
      .ok [(callCodeContext H [0] 1 [0, 1, 7, 9], result)] := hrun.executed
  have hlaw : KeyValueOnChain S P regtestConfig RocksState.fresh :=
    (key_value_on_chain P regtestConfig (contractEngine_metered [0] [] dispatch)).2
  obtain ⟨calls, hcalls, -, hmap⟩ := hlaw.blocks (deployedId H [0]) s₁
    (callCodeBlock H [0] 1 [0, 1, 7, 9]) s₂ res hrun.indexRun_deploy
    (fun _ _ _ => contractEngine_implements [0] [] dispatch) hbelow hcall
  obtain rfl := Except.ok.inj (hcalls.symm.trans hexecuted)
  refine ⟨result, s₁, s₂, hrun, hrun.empty [7], ?_⟩
  rw [hmap, blockOps, hlanded, List.filterMap_cons_some hop]
  rfl

end Reachable

end KeyValue

end Zalkanes
