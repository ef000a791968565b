import Zalkanes.Contracts.Sdk
import Zalkanes.Indexer.Deployed
import Zalkanes.Indexer.Sequential

/-!
# Contracts in Runs of the Indexer

Only its own calls change the storage of a contract. All calls of a block run on the storage before
the block, so they do not see each other's writes: the block overwrites the storage with what each
call that succeeded left in its overlay, in block order, except that a key which any of them deleted
holds nothing (`storage_of_block`). An invariant of a contract is shown for one block
(`Indexed.contract_invariant`), and holds in every store that a run reaches.

## Main results

* `storage_of_block`: the storage of a contract after a block.
* `Indexed.contract_invariant`: the invariant rule, for runs whose blocks are restricted.
* `LawfulStore.indexed_of_allowedRun`: the stores of such a run.
* `LawfulStore.exists_run_of_contract`: a run in which a contract is deployed and called.
-/

namespace Zalkanes

open Lib

/-- The storage of one contract. -/
abbrev ContractStorage := Bytes → Option Bytes

/-! ### The calls of a block -/

/-- The calls of a block to a contract that succeeded, in block order. -/
def landed (id : ContractId) (calls : List (CallContext × CallResult)) : List CallContext :=
  (calls.filter fun r => r.1.contractId = id && r.2.parts.1).map Prod.fst

/-- What the contract leaves in a call. -/
def CallContext.outcome (ctx : CallContext) (dispatch : Int32 → Int32 → Contract)
    (store : StateView) : HostState :=
  ((ctx.contract dispatch).run (.init ctx store)).2

/-- What the calls of a block to a contract left that succeeded, in block order. -/
def outcomes (id : ContractId) (dispatch : Int32 → Int32 → Contract) (store : StateView)
    (calls : List (CallContext × CallResult)) : List HostState :=
  (landed id calls).map fun ctx => ctx.outcome dispatch store

/-- The storage, overwritten with what one call after the other left in its overlay. -/
def ContractStorage.overwrite (storage : ContractStorage) : List HostState → ContractStorage
  | [] => storage
  | host :: hosts => overwrite (fun key => host.overlay[key]?.getD (storage key)) hosts

/-- What the last of the calls that touched a key left there. -/
def lastOutcome : List HostState → Bytes → Option (Option Bytes)
  | [], _ => none
  | host :: hosts, key => (lastOutcome hosts key).or host.overlay[key]?

/-- Whether one of the calls deleted the key. -/
def Deletes (hosts : List HostState) (key : Bytes) : Prop :=
  ∃ host ∈ hosts, host.overlay[key]? = some none

/-- The calls of a block leave one after the other. -/
theorem outcomes_append (id : ContractId) (dispatch : Int32 → Int32 → Contract) (store : StateView)
    (calls calls' : List (CallContext × CallResult)) :
    outcomes id dispatch store (calls ++ calls') =
      outcomes id dispatch store calls ++ outcomes id dispatch store calls' := by
  rw [outcomes, landed, List.filter_append, List.map_append, List.map_append]
  rfl

/-- A later call decides. -/
theorem lastOutcome_append (hosts hosts' : List HostState) (key : Bytes) :
    lastOutcome (hosts ++ hosts') key = (lastOutcome hosts' key).or (lastOutcome hosts key) := by
  induction hosts with
  | nil => simp [lastOutcome]
  | cons host hosts ih => rw [List.cons_append, lastOutcome, ih, lastOutcome, Option.or_assoc]

/-- The last call that touched a key decides it. -/
theorem ContractStorage.overwrite_apply (storage : ContractStorage) (hosts : List HostState)
    (key : Bytes) : storage.overwrite hosts key = (lastOutcome hosts key).getD (storage key) := by
  induction hosts generalizing storage with
  | nil => rfl
  | cons host hosts ih =>
      rw [overwrite, ih, lastOutcome]
      cases lastOutcome hosts key <;> rfl

section Block

variable {P : Platform} {store : StateView} {dispatch : Int32 → Int32 → Contract} {id : ContractId}

/-- The code of the contract, if it is deployed, implements the program. -/
def StateView.Runs (store : StateView) (E : Engine) (id : ContractId)
    (dispatch : Int32 → Int32 → Contract) : Prop :=
  ∀ codeHash wasm, store.getContract id = some (codeHash, wasm) → E.Implements wasm dispatch

/-- The last write of a call to a key of the contract, if it is a call to it that succeeds. -/
theorem lastWrite_of_call (hcode : store.Runs P.engine id dispatch) (hfits : store.FitsBuffer)
    {ctx : CallContext} {result : CallResult}
    (hexec : execute P.engine P.overflowChecks ctx store = .ok result) :
    (landed id [(ctx, result)] = [] ∧ ∀ key, ∀ w ∈ result.writes.map StorageWrite.write,
        w.key ≠ (id, key)) ∨
      landed id [(ctx, result)] = [ctx] ∧
        result.writes = (ctx.outcome dispatch store).writes ∧
        (ctx.outcome dispatch store).contractId = id := by
  by_cases hid : ctx.contractId = id
  · subst hid
    cases result with
    | success output fuelUsed writes =>
        obtain ⟨g, _, _, ⟨codeHash, wasm, _, _, hcontract, -⟩, -⟩ :=
          exists_run_of_execute_success hexec
        obtain ⟨host, hrun, -, hwrites⟩ :=
          run_of_execute_success hcontract (hcode _ _ hcontract) hfits hexec
        refine Or.inr ⟨?_, ?_, ?_⟩
        · simp [landed, CallResult.parts]
        · rw [CallContext.outcome, hrun]
          exact hwrites
        · exact (SdkCode.run_frame _ _).1
    | trap | fuelExhausted | invalidModule | contractNotFound =>
        exact Or.inl ⟨by simp [landed, CallResult.parts],
          fun key w hw => absurd hw (by simp [CallResult.writes])⟩
  · refine Or.inl ⟨by simp [landed, hid], fun key w hw hkey => hid ?_⟩
    obtain ⟨storageWrite, hmem, rfl⟩ := List.mem_map.mp hw
    rw [← contract_of_mem_writes hexec storageWrite hmem]
    have hfirst := congrArg Prod.fst hkey
    cases storageWrite <;> exact hfirst

/-- A call deletes what its overlay holds as deleted. -/
theorem del_mem_writes (host : HostState) (key : Bytes) :
    Write.del (host.contractId, key) ∈ host.writes.map StorageWrite.write ↔
      host.overlay[key]? = some none := by
  rw [← Std.ExtTreeMap.mem_toList_iff_getElem?_eq_some, HostState.writes, List.map_map,
    List.mem_map]
  constructor
  · rintro ⟨⟨key', value⟩, hmem, heq⟩
    cases value with
    | none =>
        obtain rfl : key' = key := congrArg Prod.snd (Write.del.inj heq)
        exact hmem
    | some value => cases heq
  · exact fun h => ⟨(key, none), h, rfl⟩

/-- What the calls of a block log at the keys of the contract. -/
theorem writeLog_of_calls (hcode : store.Runs P.engine id dispatch) (hfits : store.FitsBuffer)
    {calls : List (CallContext × CallResult)}
    (hexec : ∀ r ∈ calls, execute P.engine P.overflowChecks r.1 store = .ok r.2) (key : Bytes) :
    lastWrite (writeLog calls) (id, key) = lastOutcome (outcomes id dispatch store calls) key ∧
      (Write.del (id, key) ∈ writeLog calls ↔ Deletes (outcomes id dispatch store calls) key) := by
  induction calls using List.reverseRecOn with
  | nil => exact ⟨rfl, by simp [writeLog, outcomes, landed, Deletes]⟩
  | append_singleton calls r ih =>
      obtain ⟨ihWrite, ihDel⟩ := ih fun r hr => hexec r (by simp [hr])
      rw [writeLog_append_singleton, lastWrite_append, outcomes_append, lastOutcome_append,
        List.mem_append, ihDel, ihWrite]
      have hr := hexec r (by simp)
      rcases lastWrite_of_call hcode hfits hr with ⟨hnone, hkeys⟩ | ⟨hone, hwrites, hid⟩
      · rw [show outcomes id dispatch store [r] = [] from congrArg (List.map _) hnone,
          lastWrite_eq_none_iff.mpr (hkeys key), List.append_nil]
        exact ⟨rfl, or_iff_left fun h => hkeys key _ h rfl⟩
      · rw [show outcomes id dispatch store [r] = [r.1.outcome dispatch store] from
          congrArg (List.map _) hone, hwrites]
        constructor
        · rw [← hid, lastWrite_writes, hid]
          rfl
        · have hdel := del_mem_writes (r.1.outcome dispatch store) key
          rw [hid] at hdel
          rw [hdel]
          simp [Deletes, or_and_right, exists_or]

/-- **What a block writes to a key of a contract**: what the last of its calls left that touched
the key and succeeded, but nothing where one of them deleted it. -/
theorem lastWrite_of_block {l : Ledger} (hcode : l.view.Runs P.engine id dispatch)
    (hfits : l.view.FitsBuffer) {config : IndexerConfig} {parsed : ParsedBlock} {c : BlockCommit}
    (hc : blockCommit P config l.view parsed = .ok (some c)) :
    ∃ calls, blockCalls P config l.view parsed = .ok calls ∧
      (∀ key, Deletes (outcomes id dispatch l.view calls) key →
        lastWrite c.storageWrites (id, key) = some none) ∧
      ∀ key, ¬ Deletes (outcomes id dispatch l.view calls) key →
        lastWrite c.storageWrites (id, key) =
          lastOutcome (outcomes id dispatch l.view calls) key := by
  obtain ⟨calls, hcalls, hwrites⟩ := storageWrites_blockCommit hc
  have hexec := execute_of_mem_blockCalls hcalls
  rw [hwrites]
  refine ⟨calls, hcalls, fun key hdel => ?_, fun key hdel => ?_⟩
  · exact lastWrite_putsThenDels_of_mem ((writeLog_of_calls hcode hfits hexec key).2.mpr hdel)
  · obtain ⟨hwrite, hiff⟩ := writeLog_of_calls hcode hfits hexec key
    rw [lastWrite_putsThenDels_of_notMem (mt hiff.mp hdel), hwrite]

/-- **The storage of a contract after a block**: what its calls that succeeded left, each over
those before it, but nothing where one of them deleted. -/
theorem storage_of_block {l : Ledger} (hcode : l.view.Runs P.engine id dispatch)
    (hfits : l.view.FitsBuffer) {config : IndexerConfig} {parsed : ParsedBlock} {c : BlockCommit}
    (hc : blockCommit P config l.view parsed = .ok (some c)) :
    ∃ calls, blockCalls P config l.view parsed = .ok calls ∧
      (∀ key, Deletes (outcomes id dispatch l.view calls) key →
        (l.apply c).view.storageGet id key = none) ∧
      ∀ key, ¬ Deletes (outcomes id dispatch l.view calls) key →
        (l.apply c).view.storageGet id key =
          ContractStorage.overwrite (l.view.storageGet id) (outcomes id dispatch l.view calls)
            key := by
  have hstorage : ∀ key, (l.apply c).view.storageGet id key =
      (lastWrite c.storageWrites (id, key)).getD (l.view.storageGet id key) :=
    fun key => Ledger.getElem?_storage_apply ..
  obtain ⟨calls, hcalls, hdeleted, hkept⟩ := lastWrite_of_block hcode hfits hc
  refine ⟨calls, hcalls, fun key hdel => ?_, fun key hdel => ?_⟩
  · rw [hstorage, hdeleted key hdel]
    rfl
  · rw [hstorage, hkept key hdel, ContractStorage.overwrite_apply]

/-- A call of a block that landed is a call of the contract which succeeds. -/
theorem run_of_mem_landed (hcode : store.Runs P.engine id dispatch) (hfits : store.FitsBuffer)
    {calls : List (CallContext × CallResult)}
    (hexec : ∀ r ∈ calls, execute P.engine P.overflowChecks r.1 store = .ok r.2)
    {ctx : CallContext} (h : ctx ∈ landed id calls) :
    ctx.contractId = id ∧
      (ctx.contract dispatch).run (.init ctx store) = (0, ctx.outcome dispatch store) := by
  obtain ⟨r, hr, rfl⟩ := List.mem_map.mp h
  obtain ⟨hmem, hlanded⟩ := List.mem_filter.mp hr
  obtain ⟨hid, hsuccess⟩ := Bool.and_eq_true_iff.mp hlanded
  obtain rfl := of_decide_eq_true hid
  have hr := hexec r hmem
  generalize r.2 = result at hr hsuccess
  cases result with
  | success output fuelUsed writes =>
      obtain ⟨_, _, _, ⟨codeHash, wasm, _, _, hcontract, -⟩, -⟩ := exists_run_of_execute_success hr
      obtain ⟨host, hrun, -, -⟩ :=
        run_of_execute_success hcontract (hcode _ _ hcontract) hfits hr
      exact ⟨rfl, by rw [CallContext.outcome, hrun]⟩
  | trap | fuelExhausted | invalidModule | contractNotFound => cases hsuccess

/-- A call of the SDK other than a delete. -/
def SdkCall.Keeps (c : SdkCall) : Prop := ∀ key, c ≠ .delete key

/-- A contract that does not delete leaves no deleted key. -/
theorem not_deletes_of_uses (h : ∀ opcode inputLen, (dispatch opcode inputLen).Uses SdkCall.Keeps)
    (calls : List (CallContext × CallResult)) (key : Bytes) :
    ¬ Deletes (outcomes id dispatch store calls) key := by
  rintro ⟨host, hhost, hdel⟩
  obtain ⟨ctx, -, rfl⟩ := List.mem_map.mp hhost
  rw [CallContext.outcome, SdkCode.run] at hdel
  refine (h _ _).evalState_invariant (I := fun host : HostState => host.overlay[key]? ≠ some none)
    (fun host c hhost hkeeps => ?_) ?_ hdel
  · cases c with
    | get key => exact hhost
    | set key' value =>
        rw [SdkCall.perform]
        split_ifs
        · exact hhost
        · rw [HostState.put, Std.ExtTreeMap.getElem?_insert]
          split_ifs
          · exact fun h => by cases h
          · exact hhost
    | delete key' => exact absurd rfl (hkeeps key')
    | blockHeight => exact hhost
    | readInput => exact hhost
    | writeOutput data =>
        rw [SdkCall.perform]
        split_ifs <;> exact hhost
  · simp [HostState.init]

end Block

/-! ### Restricted runs -/

section Allowed

variable {σ : Type} (S : StateStore σ) (P : Platform) (config : IndexerConfig)
  (ok : StateView → ParsedBlock → Prop)

/-- A step of the indexer. If it processes a block, the block is allowed on the store. -/
inductive AllowedStep : σ → σ → Prop
  | block {s s' : σ} (parsed : ParsedBlock) {res : Except String BlockExecution}
      (hheight : S.Below s parsed.height)
      (h : processParsedBlock S P config s parsed = .ok (s', res)) (hok : ok (S.view s) parsed) :
      AllowedStep s s'
  | empty {s : σ} (height : BlockHeight) (hash : BlockHash) (hheight : S.Below s height) :
      AllowedStep s (S.commitBlock s (.empty height hash)).1
  | rollback {s : σ} (target : BlockHeight) : AllowedStep s (S.rollbackTo s target).1

/-- Runs of the indexer whose blocks are allowed. -/
abbrev AllowedRun : σ → σ → Prop := Relation.ReflTransGen (AllowedStep S P config ok)

/-- Each commit is that of an allowed block, or empty. -/
def EachBlock (cs : List BlockCommit) : Prop :=
  ∀ before c, before ++ [c] <+: cs →
    (∃ parsed, blockCommit P config (ledgerOf before).view parsed = .ok (some c) ∧
      ok (ledgerOf before).view parsed) ∨ ∃ height hash, c = .empty height hash

variable {S P config ok}

/-- An allowed step is a step. -/
theorem AllowedStep.indexStep {s s' : σ} (h : AllowedStep S P config ok s s') :
    IndexStep S P config 0 s s' := by
  cases h with
  | block parsed hheight h hok => exact .block parsed hheight h
  | empty height hash hheight => exact .empty height hash hheight
  | rollback target => exact .rollback target (Nat.zero_le _)

/-- An allowed run is a run. -/
theorem AllowedRun.indexRun {s s' : σ} (h : AllowedRun S P config ok s s') :
    IndexRun S P config 0 s s' :=
  Relation.ReflTransGen.mono (fun _ _ => AllowedStep.indexStep) _ _ h

/-- The first of allowed commits are allowed. -/
theorem EachBlock.of_prefix {cs ds : List BlockCommit} (h : EachBlock P config ok ds)
    (hcs : cs <+: ds) : EachBlock P config ok cs :=
  fun before c hbefore => h before c (hbefore.trans hcs)

/-- One more allowed commit. -/
theorem EachBlock.append_singleton {cs : List BlockCommit} (h : EachBlock P config ok cs)
    {c : BlockCommit} (hc : (∃ parsed, blockCommit P config (ledgerOf cs).view parsed =
      .ok (some c) ∧ ok (ledgerOf cs).view parsed) ∨ ∃ height hash, c = .empty height hash) :
    EachBlock P config ok (cs ++ [c]) := by
  intro before d hbefore
  rcases List.prefix_concat_iff.mp hbefore with heq | hprefix
  · obtain ⟨rfl, hlast⟩ := List.append_inj' heq rfl
    exact List.singleton_injective hlast ▸ hc
  · exact h before d hprefix

/-- **The stores of a restricted run** represent an index of allowed blocks. -/
theorem LawfulStore.indexed_of_allowedRun {Rep : σ → List BlockCommit → Prop}
    (L : LawfulStore P.hashing S Rep) (hE : P.engine.Metered) {s₀ s : σ} (h₀ : Rep s₀ [])
    (h : AllowedRun S P config ok s₀ s) :
    ∃ cs, Rep s cs ∧ Indexed P config cs ∧ EachBlock P config ok cs := by
  induction h with
  | refl =>
      refine ⟨[], h₀, .nil, fun before c hbefore => ?_⟩
      simp at hbefore
  | tail _ hstep ih =>
      obtain ⟨cs, hs, hcs, heach⟩ := ih
      have hreg := hcs.regular hE
      cases hstep with
      | block parsed hheight h hok =>
          obtain ⟨new, hnew, hs', hcs'⟩ := L.block_indexed hE hs hcs hheight h
          refine ⟨_, hs', hcs', ?_⟩
          cases new with
          | none => rwa [Option.toList_none, List.append_nil]
          | some c =>
              rw [L.view hs hreg] at hnew hok
              exact heach.append_singleton (Or.inl ⟨parsed, hnew, hok⟩)
      | empty height hash hheight =>
          exact ⟨_, (L.commitBlock hs _).1,
            hcs.empty height hash (L.level_lt hs hreg hheight),
            heach.append_singleton (Or.inr ⟨height, hash, rfl⟩)⟩
      | rollback target =>
          obtain ⟨high, hsplit, -⟩ := hreg.increasing.exists_eq_append target
          exact ⟨_, (L.rollbackTo hs hreg target).1, Indexed.of_append (hsplit ▸ hcs),
            heach.of_prefix ⟨high, hsplit.symm⟩⟩

/-- A block on a reachable store commits something on the index, or has no call and changes
nothing. -/
theorem LawfulStore.block_cases {Rep : σ → List BlockCommit → Prop}
    (L : LawfulStore P.hashing S Rep) (hE : P.engine.Metered) {s₀ s s' : σ} (h₀ : Rep s₀ [])
    (hrun : IndexRun S P config 0 s₀ s) {parsed : ParsedBlock}
    {res : Except String BlockExecution} (hbelow : S.Below s parsed.height)
    (h : processParsedBlock S P config s parsed = .ok (s', res)) :
    (S.view s' = S.view s ∧ blockCalls P config (S.view s) parsed = .ok []) ∨
      ∃ cs c, Indexed P config cs ∧ S.view s = (ledgerOf cs).view ∧
        S.view s' = ((ledgerOf cs).apply c).view ∧
          blockCommit P config (ledgerOf cs).view parsed = .ok (some c) := by
  obtain ⟨cs, hs, hcs⟩ := L.indexed_of_run hE h₀ .nil hrun
  obtain ⟨new, hnew, hs', hcs'⟩ := L.block_indexed hE hs hcs hbelow h
  have hview := L.view hs (hcs.regular hE)
  have hview' := L.view hs' (hcs'.regular hE)
  cases new with
  | none =>
      rw [Option.toList_none, List.append_nil, ← hview] at hview'
      exact Or.inl ⟨hview', blockCalls_of_blockCommit_none hnew⟩
  | some c =>
      rw [Option.toList_some, ledgerOf_append_singleton] at hview'
      exact Or.inr ⟨cs, c, hcs, hview, hview', hview ▸ hnew⟩

end Allowed

/-! ### The run of one contract -/

section OneContract

variable {H : Hashing} {σ : Type} {S : StateStore σ} {Rep : σ → List BlockCommit → Prop}

/-- **A contract runs on every lawful store** without blocks, in an engine of its own: it is
deployed and called, and the call succeeds if the contract ends with code 0. -/
theorem LawfulStore.exists_run_of_contract (L : LawfulStore H S Rep) {s₀ : σ} (h₀ : Rep s₀ [])
    (json : Execution → Except String Bytes) (data : Bytes) (dispatch : Int32 → Int32 → Contract)
    (opcode : UInt16) {input : Bytes} (hinput : input.length ≤ chunkPayloadSize) {n : ℕ}
    (hn : n ≤ maxFuelPerCall)
    (hcalls : ∀ store : StateView, (∀ key, store.storageGet (deployedId H [0]) key = none) →
      ((callCodeContext H [0] opcode input).contract dispatch).Fits data n
        (.init (callCodeContext H [0] opcode input) store) ∧
      ∃ host, ((callCodeContext H [0] opcode input).contract dispatch).run
        (.init (callCodeContext H [0] opcode input) store) = (0, host)) :
    ∃ result s₁ s₂,
      ContractRun S (contractPlatform H json [0] data dispatch) [0] opcode input result s₀ s₁ s₂ ∧
        landed (deployedId H [0]) [(callCodeContext H [0] opcode input, result)] =
          [callCodeContext H [0] opcode input] := by
  have hvalid : validateModule (contractEngine [0] data dispatch) [0] = .ok () := rfl
  refine LawfulStore.exists_contractRun (P := contractPlatform H json [0] data dispatch) L
    (contractEngine_metered [0] data dispatch) h₀ (by decide) (by decide) hvalid hinput
    fun store hcode hempty => ?_
  obtain ⟨hfits, host, hrun⟩ := hcalls store hempty
  have hbuffer : (HostState.init (callCodeContext H [0] opcode input) store).FitsBuffer := by
    intro key v hv
    rw [HostState.lookup, HostState.init] at hv
    simp only [Std.ExtTreeMap.getElem?_empty] at hv
    cases (hempty key).symm.trans hv
  obtain ⟨fuelUsed, hexec⟩ :=
    execute_contractEngine true rfl hcode hbuffer hfits hn hrun
  exact ⟨_, hexec, by simp [landed, CallResult.parts, callCodeContext, CallRequest.context]⟩

end OneContract

end Zalkanes
