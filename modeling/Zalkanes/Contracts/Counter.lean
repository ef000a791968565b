import Zalkanes.Contracts.Runs

/-!
# The Counter Contract

One number in the storage of a contract. All calls of a block read the number that was there before
the block, so the increments of a block count once, however many there are: over a run that never
initializes the counter, it counts blocks.

## Main results

* `Counter.run_dispatch`: what a call does.
* `Counter.valueIn_block`: what a block does.
* `counter_on_chain`: the counter counts blocks, on both backends.
-/

namespace Zalkanes

open Lib

namespace Counter

/-! ### The contract -/

/-- The key of the number. -/
def key : Bytes := ascii "counter"

/-- A number of 64 bits, as it is stored. -/
def u64ToBytes (v : ℕ) : Bytes := beBytes 8 v

/-- It is read as 0 where it has been cut short. -/
def bytesToU64 (b : Bytes) : ℕ := if b.length < 8 then 0 else beValue (b.take 8)

/-- `dispatch` of the contract. -/
def dispatch (opcode _inputLen : Int32) : Contract :=
  match opcode.toUInt32.toUInt16.toNat with
  | 0x0001 => do
      let value ← Sdk.get key
      let current := (value.map bytesToU64).getD 0
      let next := (current + 1) % 2 ^ 64
      let _ ← Sdk.set key (u64ToBytes next)
      return 0
  | 0x0002 => do
      let value ← Sdk.get key
      let val := (value.map bytesToU64).getD 0
      if ← Sdk.writeOutput (u64ToBytes val) then return 0 else return -1
  | 0x0003 => do
      let input ← Sdk.readInput
      if input.length < 8 then return -1
      else do
        let val := bytesToU64 (input.take 8)
        let _ ← Sdk.set key (u64ToBytes val)
        return 0
  | _ => return -1

/-! ### The number -/

/-- What the calls of the counter are for. -/
inductive Op where
  | increment
  | get
  | init (v : ℕ)
  deriving DecidableEq

/-- The call that a context asks for. -/
def op? (ctx : CallContext) : Option Op :=
  match ctx.opcode.toNat with
  | 0x0001 => some .increment
  | 0x0002 => some .get
  | 0x0003 =>
      let input := ctx.input.take sdkBufferBytes
      if input.length < 8 then none else some (.init (bytesToU64 (input.take 8)))
  | _ => none

/-- The number that a call writes. -/
def Op.writes (v : ℕ) : Op → Option ℕ
  | increment => some ((v + 1) % 2 ^ 64)
  | get => none
  | init v' => some v'

/-- The number, as the contract reads it. -/
def valueIn (storage : ContractStorage) : ℕ := ((storage key).map bytesToU64).getD 0

/-- Numbers of 64 bits come back. -/
theorem bytesToU64_u64ToBytes {v : ℕ} (h : v < 2 ^ 64) : bytesToU64 (u64ToBytes v) = v := by
  have hlen : (u64ToBytes v).length = 8 := length_beBytes 8 v
  rw [bytesToU64, if_neg (by omega), List.take_of_length_le (by omega), u64ToBytes,
    beValue_beBytes, Nat.mod_eq_of_lt (by omega)]

/-- What is read is such a number. -/
theorem bytesToU64_lt (b : Bytes) : bytesToU64 b < 2 ^ 64 := by
  rw [bytesToU64]
  split_ifs with h
  · decide
  · have hlt := beValue_lt (b.take 8)
    rwa [List.length_take, min_eq_left (by omega)] at hlt

/-- What a call leaves: the number that it writes, or an output. -/
def Op.leave (v : ℕ) (op : Op) (host : HostState) : HostState :=
  match op.writes v with
  | some v' => host.put key (some (u64ToBytes v'))
  | none => { host with output := u64ToBytes v }

/-- A number that is set is in the overlay. -/
theorem run_set (host : HostState) (h : host.Room 1) (v : ℕ) :
    (Sdk.set key (u64ToBytes v)).run host = (true, host.put key (some (u64ToBytes v))) :=
  SdkCode.run_set h (by decide) (by rw [u64ToBytes, length_beBytes]; decide)

/-- **What a call does.** -/
theorem run_dispatch (ctx : CallContext) (store : StateView) :
    (ctx.contract dispatch).run (.init ctx store) =
      (op? ctx).elim (-1, .init ctx store) fun op =>
        (0, op.leave (valueIn (store.storageGet ctx.contractId)) (.init ctx store)) := by
  have hroom := (HostState.room_init ctx store).mono (show 1 ≤ 256 by decide)
  rw [CallContext.contract]
  unfold dispatch op?
  rw [toUInt16_opcodeWord]
  split
  · rw [SdkCode.run_bind, SdkCode.run_get, SdkCode.run_bind, run_set _ hroom]
    rfl
  · rw [SdkCode.run_bind, SdkCode.run_get, SdkCode.run_bind,
      SdkCode.run_writeOutput (by rw [u64ToBytes, length_beBytes]; decide)]
    rfl
  · rw [SdkCode.run_bind, SdkCode.run_readInput]
    by_cases hlen : (ctx.input.take sdkBufferBytes).length < 8
    · rw [if_pos (show ((HostState.init ctx store).input.take _).length < 8 from hlen), if_pos hlen]
      rfl
    · rw [if_neg (show ¬ ((HostState.init ctx store).input.take _).length < 8 from hlen),
        if_neg hlen, SdkCode.run_bind, run_set _ hroom]
      rfl
  · rfl

/-- The contract does not delete. -/
theorem uses_dispatch (opcode inputLen : Int32) :
    (dispatch opcode inputLen).Uses SdkCall.Keeps := by
  have hget : (Sdk.get key).Uses SdkCall.Keeps := Prog.uses_call fun _ h => by cases h
  have hset : ∀ v, (Sdk.set key v).Uses SdkCall.Keeps :=
    fun _ => Prog.uses_call fun _ h => by cases h
  have hout : ∀ data, (Sdk.writeOutput data).Uses SdkCall.Keeps :=
    fun _ => Prog.uses_call fun _ h => by cases h
  have hread : Sdk.readInput.Uses SdkCall.Keeps := Prog.uses_call fun _ h => by cases h
  unfold dispatch
  split
  · exact hget.bind fun _ => (hset _).bind fun _ => trivial
  · refine hget.bind fun _ => (hout _).bind fun ok => ?_
    split_ifs <;> trivial
  · refine hread.bind fun input => ?_
    split_ifs
    · trivial
    · exact (hset _).bind fun _ => trivial
  · trivial

/-! ### Blocks -/

/-- The calls of a block to the counter that succeed. -/
def blockOps (id : ContractId) (calls : List (CallContext × CallResult)) : List Op :=
  (landed id calls).filterMap op?

/-- The number that the last of these calls writes which writes any. -/
def lastWritten (v : ℕ) : List Op → Option ℕ
  | [] => none
  | op :: ops => (lastWritten v ops).or (op.writes v)

/-- What was written last is what some call writes. -/
theorem exists_of_lastWritten {v v' : ℕ} {ops : List Op} (h : lastWritten v ops = some v') :
    ∃ op ∈ ops, op.writes v = some v' := by
  induction ops with
  | nil => cases h
  | cons op ops ih =>
      rcases Option.or_eq_some_iff.mp h with h | ⟨-, h⟩
      · obtain ⟨op', hmem, hop'⟩ := ih h
        exact ⟨op', List.mem_cons_of_mem op hmem, hop'⟩
      · exact ⟨op, List.mem_cons_self, h⟩

/-- A call writes a number of 64 bits. -/
theorem op?_writes_lt {ctx : CallContext} {op : Op} (hop : op? ctx = some op) {v v' : ℕ}
    (h : op.writes v = some v') : v' < 2 ^ 64 := by
  unfold op? at hop
  split at hop <;> try dsimp only at hop; split_ifs at hop
  · obtain rfl := Option.some.inj hop
    exact Option.some.inj h ▸ Nat.mod_lt _ (by decide)
  · obtain rfl := Option.some.inj hop
    cases h
  · obtain rfl := Option.some.inj hop
    exact Option.some.inj h ▸ bytesToU64_lt _
  · cases hop

/-- The calls of a block do. -/
theorem lastWritten_lt {id : ContractId} {calls : List (CallContext × CallResult)} {v v' : ℕ}
    (h : lastWritten v (blockOps id calls) = some v') : v' < 2 ^ 64 := by
  obtain ⟨op, hop, hwrites⟩ := exists_of_lastWritten h
  obtain ⟨ctx, -, hctx⟩ := List.mem_filterMap.mp hop
  exact op?_writes_lt hctx hwrites

/-- The commit writes the number. -/
def touches (id : ContractId) (c : BlockCommit) : Bool :=
  (lastWrite c.storageWrites (id, key)).isSome

section Blocks

variable {P : Platform} {store : StateView} {id : ContractId}

/-- What a call leaves in the overlay. -/
theorem overlay_leave (v : ℕ) (op : Op) (ctx : CallContext) (store : StateView) :
    (op.leave v (.init ctx store)).overlay[key]? =
      (op.writes v).map fun v' => some (u64ToBytes v') := by
  cases op with
  | get => simp [Op.leave, Op.writes, HostState.init]
  | increment => exact (HostState.getElem?_put ..).trans (if_pos rfl)
  | init v' => exact (HostState.getElem?_put ..).trans (if_pos rfl)

/-- What calls that succeed leave. -/
theorem lastOutcome_landed {ctxs : List CallContext}
    (hlanded : ∀ ctx ∈ ctxs, ctx.contractId = id ∧
      (ctx.contract dispatch).run (.init ctx store) = (0, ctx.outcome dispatch store)) :
    lastOutcome (ctxs.map fun ctx => ctx.outcome dispatch store) key =
      (lastWritten (valueIn (store.storageGet id)) (ctxs.filterMap op?)).map
        fun v => some (u64ToBytes v) := by
  induction ctxs with
  | nil => rfl
  | cons ctx ctxs ih =>
      obtain ⟨rfl, hrun⟩ := hlanded ctx (by simp)
      rw [run_dispatch] at hrun
      cases hop : op? ctx with
      | none =>
          rw [hop] at hrun
          exact absurd (congrArg Prod.fst hrun) (show ¬ (-1 : Int32) = 0 by decide)
      | some op =>
          rw [hop] at hrun
          have hleave : op.leave (valueIn (store.storageGet ctx.contractId)) (.init ctx store) =
              ctx.outcome dispatch store := congrArg Prod.snd hrun
          rw [List.map_cons, lastOutcome, ih fun ctx' hmem => hlanded ctx' (by simp [hmem]),
            List.filterMap_cons_some hop, lastWritten, ← hleave, overlay_leave]
          cases lastWritten _ (ctxs.filterMap op?) <;> rfl

/-- **What a block does**: the last call decides that writes a number. -/
theorem valueIn_block {l : Ledger} (hcode : l.view.Runs P.engine id dispatch)
    (hfits : l.view.FitsBuffer) {config : IndexerConfig} {parsed : ParsedBlock} {c : BlockCommit}
    (hc : blockCommit P config l.view parsed = .ok (some c)) :
    ∃ calls, blockCalls P config l.view parsed = .ok calls ∧
      valueIn ((l.apply c).view.storageGet id) =
        (lastWritten (valueIn (l.view.storageGet id)) (blockOps id calls)).getD
          (valueIn (l.view.storageGet id)) ∧
      touches id c =
        (lastWritten (valueIn (l.view.storageGet id)) (blockOps id calls)).isSome := by
  obtain ⟨calls, hcalls, -, hkept⟩ := lastWrite_of_block hcode hfits hc
  have hlast := hkept key (not_deletes_of_uses uses_dispatch calls key)
  have hlanded : ∀ ctx ∈ landed id calls, _ := fun ctx hctx =>
    run_of_mem_landed hcode hfits (execute_of_mem_blockCalls hcalls) hctx
  rw [outcomes, lastOutcome_landed hlanded] at hlast
  refine ⟨calls, hcalls, ?_, ?_⟩
  · have hstorage : (l.apply c).view.storageGet id key =
        (lastWrite c.storageWrites (id, key)).getD (l.view.storageGet id key) :=
      Ledger.getElem?_storage_apply ..
    rw [valueIn, hstorage, hlast]
    cases hwritten : lastWritten (valueIn (l.view.storageGet id)) (blockOps id calls) with
    | none =>
        rw [show (landed id calls).filterMap op? = blockOps id calls from rfl, hwritten]
        rfl
    | some v =>
        rw [show (landed id calls).filterMap op? = blockOps id calls from rfl, hwritten,
          Option.map_some, Option.getD_some, Option.map_some, Option.getD_some, Option.getD_some,
          bytesToU64_u64ToBytes (lastWritten_lt hwritten)]
  · rw [touches, hlast, Option.isSome_map]
    rfl

end Blocks

/-! ### Reachable stores -/

section Reachable

variable {σ : Type} (S : StateStore σ) (P : Platform) (config : IndexerConfig)

/-- No call of the block initializes the counter. -/
def Counts (id : ContractId) (store : StateView) (parsed : ParsedBlock) : Prop :=
  ∀ calls, blockCalls P config store parsed = .ok calls → ∀ v, .init v ∉ blockOps id calls

/-- The counter in every run of the indexer, under any id with code that implements it. -/
structure CounterOnChain (s₀ : σ) : Prop where
  /-- All calls of a block read the number before it, and the last decides that writes one. -/
  blocks : ∀ id s parsed s' res, IndexRun S P config 0 s₀ s →
    (S.view s).Runs P.engine id dispatch → S.Below s parsed.height →
      processParsedBlock S P config s parsed = .ok (s', res) →
        ∃ calls, blockCalls P config (S.view s) parsed = .ok calls ∧
          valueIn ((S.view s').storageGet id) =
            (lastWritten (valueIn ((S.view s).storageGet id)) (blockOps id calls)).getD
              (valueIn ((S.view s).storageGet id))
  /-- If no call initializes it, the number is that of the blocks which write it, and these are
  the blocks with an increment. -/
  counts : ∀ id s, AllowedRun S P config (Counts P config id) s₀ s →
    (S.view s).Runs P.engine id dispatch →
      ∃ cs, Indexed P config cs ∧ S.view s = (ledgerOf cs).view ∧
        (S.heightHistory s).map HeightRecord.height = cs.map BlockCommit.height ∧
        valueIn ((S.view s).storageGet id) = cs.countP (touches id) % 2 ^ 64 ∧
        ∀ before c, before ++ [c] <+: cs → (touches id c = true ↔
          ∃ parsed calls, blockCommit P config (ledgerOf before).view parsed = .ok (some c) ∧
            blockCalls P config (ledgerOf before).view parsed = .ok calls ∧
              .increment ∈ blockOps id calls)

variable {S P config} {Rep : σ → List BlockCommit → Prop}

/-- Calls that do not initialize the counter write its successor, if one of them increments it. -/
theorem lastWritten_of_counts {ops : List Op} (h : ∀ v, .init v ∉ ops) (v : ℕ) :
    lastWritten v ops = if .increment ∈ ops then some ((v + 1) % 2 ^ 64) else none := by
  induction ops with
  | nil => rfl
  | cons op ops ih =>
      rw [lastWritten, ih fun v' hmem => h v' (List.mem_cons_of_mem op hmem)]
      cases op with
      | increment => split_ifs <;> simp_all [Op.writes]
      | get => simp [Op.writes]
      | init v' => exact absurd List.mem_cons_self (h v')

/-- An increment writes. -/
theorem isSome_lastWritten_of_increment {ops : List Op} (h : .increment ∈ ops) (v : ℕ) :
    (lastWritten v ops).isSome = true := by
  induction ops with
  | nil => cases h
  | cons op ops ih =>
      rw [lastWritten, Option.isSome_or, Bool.or_eq_true]
      rcases List.mem_cons.mp h with rfl | h
      · exact Or.inr rfl
      · exact Or.inl (ih h)

/-- **The counter counts blocks.** -/
theorem valueIn_of_indexed {cs : List BlockCommit} (hcs : Indexed P config cs) {id : ContractId}
    (heach : EachBlock P config (Counts P config id) cs)
    (hcode : (ledgerOf cs).view.Runs P.engine id dispatch) :
    valueIn ((ledgerOf cs).view.storageGet id) = cs.countP (touches id) % 2 ^ 64 ∧
      ∀ before c, before ++ [c] <+: cs → (touches id c = true ↔
        ∃ parsed calls, blockCommit P config (ledgerOf before).view parsed = .ok (some c) ∧
          blockCalls P config (ledgerOf before).view parsed = .ok calls ∧
            .increment ∈ blockOps id calls) := by
  induction cs using List.reverseRecOn with
  | nil =>
      have hempty : (ledgerOf []).view.storageGet id key = none := by
        simp [ledgerOf, Ledger.empty, Ledger.view]
      exact ⟨by rw [valueIn, hempty]; rfl, fun before c h => by simp at h⟩
  | append_singleton cs c ih =>
      have hbefore := hcs.of_append
      have hcodeBefore : (ledgerOf cs).view.Runs P.engine id dispatch :=
        fun codeHash wasm h => hcode codeHash wasm (hcs.getElem?_contracts_append h)
      obtain ⟨ihValue, ihTouches⟩ :=
        ih hbefore (heach.of_prefix (List.prefix_append _ _)) hcodeBefore
      set v := valueIn ((ledgerOf cs).view.storageGet id) with hv
      have hblock : ∀ parsed calls,
          blockCommit P config (ledgerOf cs).view parsed = .ok (some c) →
            blockCalls P config (ledgerOf cs).view parsed = .ok calls →
              valueIn ((ledgerOf (cs ++ [c])).view.storageGet id) =
                (lastWritten v (blockOps id calls)).getD v ∧
              touches id c = (lastWritten v (blockOps id calls)).isSome := by
        intro parsed calls hc hcalls
        obtain ⟨calls', hcalls', hvalue, htouches⟩ :=
          valueIn_block hcodeBefore hbefore.fitsBuffer hc
        obtain rfl := Except.ok.inj (hcalls.symm.trans hcalls')
        rw [ledgerOf_append_singleton]
        exact ⟨hvalue, htouches⟩
      have htouched : touches id c = true ↔
          ∃ parsed calls, blockCommit P config (ledgerOf cs).view parsed = .ok (some c) ∧
            blockCalls P config (ledgerOf cs).view parsed = .ok calls ∧
              .increment ∈ blockOps id calls := by
        constructor
        · intro htrue
          rcases heach cs c List.prefix_rfl with ⟨parsed, hc, hok⟩ | ⟨height, hash, rfl⟩
          · obtain ⟨calls, hcalls, -, htouches⟩ := valueIn_block hcodeBefore hbefore.fitsBuffer hc
            rw [lastWritten_of_counts (hok calls hcalls)] at htouches
            refine ⟨parsed, calls, hc, hcalls, ?_⟩
            by_contra hnot
            rw [htouches, if_neg hnot] at htrue
            cases htrue
          · cases htrue
        · rintro ⟨parsed, calls, hc, hcalls, hmem⟩
          rw [(hblock parsed calls hc hcalls).2]
          exact isSome_lastWritten_of_increment hmem v
      refine ⟨?_, fun before d hprefix => ?_⟩
      · rw [List.countP_append, List.countP_singleton]
        rcases heach cs c List.prefix_rfl with ⟨parsed, hc, hok⟩ | ⟨height, hash, rfl⟩
        · obtain ⟨calls, hcalls, -⟩ := valueIn_block hcodeBefore hbefore.fitsBuffer hc
          obtain ⟨hvalue, htouches⟩ := hblock parsed calls hc hcalls
          rw [hvalue, htouches, lastWritten_of_counts (hok calls hcalls)]
          split_ifs with hincrement
          · rw [Option.getD_some, ihValue, Nat.mod_add_mod]
          all_goals simp_all
        · rw [show touches id (.empty height hash) = false from rfl, ledgerOf_append_singleton,
            Ledger.apply_empty]
          exact ihValue
      · rcases List.prefix_concat_iff.mp hprefix with heq | hprefix
        · obtain ⟨rfl, hlast⟩ := List.append_inj' heq rfl
          obtain rfl := List.singleton_injective hlast
          exact htouched
        · exact ihTouches before d hprefix

/-- The counter on every lawful store. -/
theorem counterOnChain (L : LawfulStore P.hashing S Rep) (hE : P.engine.Metered) {s₀ : σ}
    (h₀ : Rep s₀ []) : CounterOnChain S P config s₀ where
  blocks id s parsed s' res hrun hcode hbelow h := by
    rcases L.block_cases hE h₀ hrun hbelow h with ⟨hview, hcalls⟩ | ⟨cs, c, hcs, hview, hview', hc⟩
    · exact ⟨[], hcalls, congrArg (fun view => valueIn (view.storageGet id)) hview⟩
    · rw [hview] at hcode
      obtain ⟨calls, hcalls, hvalue, -⟩ := valueIn_block hcode hcs.fitsBuffer hc
      rw [hview, hview']
      exact ⟨calls, hcalls, hvalue⟩
  counts id s h hcode := by
    obtain ⟨cs, hs, hcs, heach⟩ := L.indexed_of_allowedRun hE h₀ h
    have hview := L.view hs (hcs.regular hE)
    have hheights := L.heightHistory hs (hcs.regular hE)
    rw [hview] at hcode ⊢
    obtain ⟨hvalue, htouches⟩ := valueIn_of_indexed hcs heach hcode
    exact ⟨cs, hcs, rfl, by rw [hheights, map_height_recordsOf], hvalue, htouches⟩

/-- **The counter on the chain**, on both backends: it counts blocks. -/
theorem counter_on_chain (P : Platform) (config : IndexerConfig) (hE : P.engine.Metered) :
    CounterOnChain (MemoryState.store P.hashing) P config MemoryState.new ∧
      CounterOnChain (RocksState.store P.hashing P.json) P config RocksState.fresh :=
  ⟨counterOnChain (MemoryState.lawful P.hashing) hE rfl,
    counterOnChain (RocksState.lawful P.hashing P.json) hE
      (RocksState.AgreesOff.refl RocksState.IsExec RocksState.fresh)⟩

/-- The counter is deployed and called: it counts the block of the call. -/
theorem counter_on_chain_contract :
    (contractEngine [0] key dispatch).Metered ∧
    ∀ (H : Hashing) (json : Execution → Except String Bytes),
      let P := contractPlatform H json [0] key dispatch
      let S := RocksState.store H json
      ∃ result s₁ s₂, ContractRun S P [0] 1 [] result RocksState.fresh s₁ s₂ ∧
        valueIn ((S.view s₁).storageGet (deployedId H [0])) = 0 ∧
        valueIn ((S.view s₂).storageGet (deployedId H [0])) = 1 := by
  refine ⟨contractEngine_metered [0] key dispatch, fun H json => ?_⟩
  intro P S
  have hget : (key ++ (SdkCall.get key).heap).length < 2 ^ 31 := by
    rw [List.length_append, SdkCall.heap, List.length_append, List.length_replicate]
    decide
  have hset : ∀ v, (key ++ (SdkCall.set key (u64ToBytes v)).heap).length < 2 ^ 31 := by
    intro v
    rw [List.length_append, SdkCall.heap, List.length_append, u64ToBytes, length_beBytes]
    decide
  have hfresh := RocksState.AgreesOff.refl RocksState.IsExec RocksState.fresh
  obtain ⟨result, s₁, s₂, hrun, hlanded⟩ := (RocksState.lawful H json).exists_run_of_contract
    hfresh json key dispatch 1 (show ([] : Bytes).length ≤ chunkPayloadSize by decide)
    (show 2 ≤ maxFuelPerCall by decide) fun store _ => ⟨⟨hget, hset _, trivial⟩, _,
      run_dispatch _ store⟩
  obtain ⟨hbelow, res, hcall⟩ := hrun.call
  have hexecuted : blockCalls P regtestConfig (S.view s₁) (callCodeBlock H [0] 1 []) =
      .ok [(callCodeContext H [0] 1 [], result)] := hrun.executed
  have hzero : valueIn ((S.view s₁).storageGet (deployedId H [0])) = 0 := by
    rw [valueIn, show (S.view s₁).storageGet (deployedId H [0]) key = none from hrun.empty key]
    rfl
  have hlaw : CounterOnChain S P regtestConfig RocksState.fresh :=
    (counter_on_chain P regtestConfig (contractEngine_metered [0] key dispatch)).2
  obtain ⟨calls, hcalls, hvalue⟩ := hlaw.blocks (deployedId H [0]) s₁
    (callCodeBlock H [0] 1 []) s₂ res hrun.indexRun_deploy
    (fun _ _ _ => contractEngine_implements [0] key dispatch) hbelow hcall
  obtain rfl := Except.ok.inj (hcalls.symm.trans hexecuted)
  refine ⟨result, s₁, s₂, hrun, hzero, hvalue.trans ?_⟩
  rw [hzero, blockOps, hlanded]
  rfl

end Reachable

end Counter

end Zalkanes
