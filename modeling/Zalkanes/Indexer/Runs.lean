import Zalkanes.Indexer.CommitSize
import Zalkanes.Indexer.DeployRoundTrip
import Zalkanes.State.Backend

/-!
# Runs of the Indexer

The indexer changes its store by processing blocks of increasing heights, by committing empty
blocks below the activation height, and by rolling back (`IndexRun`). A lawful store that it runs
on represents a list of commits, each of them what some block makes of the ledger that the commits
before it leave (`Indexed`), so what holds of these lists by induction holds of every reachable
store.

## Main results

* `Indexed.regular`: the commits of an index are regular.
* `LawfulStore.indexed_of_run`: a reachable store represents the commits of an index.
* `LawfulStore.prefix_of_run`: commits at or below the floor of a run stay.
* `LawfulStore.exists_contractRun`: a run that deploys a contract and calls it.
-/

namespace Zalkanes

open Lib

section Steps

variable {σ : Type} (S : StateStore σ) (P : Platform) (config : IndexerConfig)

/-- The store is at a height below this one, or empty. -/
def StateStore.Below (s : σ) (height : BlockHeight) : Prop :=
  ∀ h, S.indexedHeight s = some h → h < height

/-- What the indexer does to its store; rollbacks go to the floor at most. -/
inductive IndexStep (floor : ℕ) : σ → σ → Prop
  | block {s s' : σ} (parsed : ParsedBlock) {res : Except String BlockExecution}
      (hheight : S.Below s parsed.height)
      (h : processParsedBlock S P config s parsed = .ok (s', res)) : IndexStep floor s s'
  | empty {s : σ} (height : BlockHeight) (hash : BlockHash) (hheight : S.Below s height) :
      IndexStep floor s (S.commitBlock s (.empty height hash)).1
  | rollback {s : σ} (target : BlockHeight) (hfloor : floor ≤ target.toNat) :
      IndexStep floor s (S.rollbackTo s target).1

/-- Runs of the indexer. -/
abbrev IndexRun (floor : ℕ) : σ → σ → Prop := Relation.ReflTransGen (IndexStep S P config floor)

end Steps

/-! ### Indexes -/

/-- The commits of an index: each is what a block makes of the ledger before it, or empty, and
their heights increase. -/
inductive Indexed (P : Platform) (config : IndexerConfig) : List BlockCommit → Prop
  | nil : Indexed P config []
  | block {cs : List BlockCommit} (h : Indexed P config cs) (parsed : ParsedBlock) {c : BlockCommit}
      (hc : blockCommit P config (ledgerOf cs).view parsed = .ok (some c))
      (hlt : ∀ d ∈ cs, d.level < c.level) : Indexed P config (cs ++ [c])
  | empty {cs : List BlockCommit} (h : Indexed P config cs) (height : BlockHeight)
      (hash : BlockHash) (hlt : ∀ d ∈ cs, d.level < (BlockCommit.empty height hash).level) :
      Indexed P config (cs ++ [.empty height hash])

section Indexed

variable {P : Platform} {config : IndexerConfig} {cs : List BlockCommit}

/-- The commits of an index are regular. -/
theorem Indexed.regular (hE : P.engine.Metered) (h : Indexed P config cs) : Regular cs := by
  induction h with
  | nil => exact Regular.nil
  | block h parsed hc hlt ih => exact ih.append_singleton hlt (fits_blockCommit hE hc)
  | empty h height hash hlt ih => exact ih.append_singleton hlt (BlockCommit.fits_empty _ _)

/-- The last commit of an index is what a block makes of the ledger before it, or empty. -/
theorem Indexed.of_append_singleton {c : BlockCommit} (h : Indexed P config (cs ++ [c])) :
    Indexed P config cs ∧
      ((∃ parsed, blockCommit P config (ledgerOf cs).view parsed = .ok (some c)) ∨
        ∃ height hash, c = .empty height hash) := by
  generalize hes : cs ++ [c] = es at h
  cases h with
  | nil => simp at hes
  | block h parsed hc hlt =>
      obtain ⟨rfl, hlast⟩ := List.append_inj' hes rfl
      obtain rfl := List.singleton_injective hlast
      exact ⟨h, Or.inl ⟨parsed, hc⟩⟩
  | empty h height hash hlt =>
      obtain ⟨rfl, hlast⟩ := List.append_inj' hes rfl
      exact ⟨h, Or.inr ⟨height, hash, List.singleton_injective hlast⟩⟩

/-- What is left of an index when later commits are taken back is an index. -/
theorem Indexed.of_append {ds : List BlockCommit} (h : Indexed P config (cs ++ ds)) :
    Indexed P config cs := by
  induction ds using List.reverseRecOn with
  | nil => rwa [List.append_nil] at h
  | append_singleton ds d ih =>
      rw [← List.append_assoc] at h
      exact ih h.of_append_singleton.1

end Indexed

/-! ### Reachable stores -/

namespace LawfulStore

variable {H : Hashing} {σ : Type} {S : StateStore σ} {Rep : σ → List BlockCommit → Prop}
  (L : LawfulStore H S Rep) {P : Platform} {config : IndexerConfig}

include L

/-- A store below a height represents commits below that height. -/
theorem level_lt {s : σ} {cs : List BlockCommit} (hs : Rep s cs) (hcs : Regular cs)
    {height : BlockHeight} (hbelow : S.Below s height) : ∀ d ∈ cs, d.level < height.toNat := by
  intro d hd
  rcases List.eq_nil_or_concat cs with rfl | ⟨cs, c, rfl⟩
  · cases hd
  · rw [List.concat_eq_append] at hs hcs hd
    have hindexed := L.indexedHeight hs hcs
    rw [List.getLast?_concat] at hindexed
    have hlt := UInt32.lt_iff_toNat_lt.mp (hbelow c.height hindexed)
    rcases List.mem_append.mp hd with hd | hd
    · exact (hcs.increasing.lt_last d hd).trans hlt
    · rw [List.mem_singleton.mp hd]
      exact hlt

/-- A block adds its commit to those that a store represents, if it has one. -/
theorem block_indexed (hE : P.engine.Metered) {s s' : σ} {cs : List BlockCommit} (hs : Rep s cs)
    (hcs : Indexed P config cs) {parsed : ParsedBlock} {res : Except String BlockExecution}
    (hbelow : S.Below s parsed.height)
    (h : processParsedBlock S P config s parsed = .ok (s', res)) :
    ∃ new : Option BlockCommit, blockCommit P config (S.view s) parsed = .ok new ∧
      Rep s' (cs ++ new.toList) ∧ Indexed P config (cs ++ new.toList) := by
  have hreg := hcs.regular hE
  rcases processParsedBlock_cases h with ⟨hnone, rfl⟩ | ⟨c, hc, hs'⟩
  · refine ⟨none, hnone, ?_⟩
    rw [Option.toList_none, List.append_nil]
    exact ⟨hs, hcs⟩
  · have hlt := L.level_lt hs hreg hbelow
    have hview := hc
    rw [← (height_blockCommit hc).1] at hlt
    rw [L.view hs hreg] at hview
    refine ⟨some c, hc, ?_, hcs.block parsed hview hlt⟩
    have hcommit := (L.commitBlock hs c).1
    rcases hs' with rfl | ⟨es, rfl⟩
    · exact hcommit
    · exact L.saveExecutions hcommit es

/-- What a step does to the commits that a store represents: commits are added, those of the block
that is processed or empty ones, or there is a rollback. -/
theorem step_indexed (hE : P.engine.Metered) {floor : ℕ} {s s' : σ} {cs : List BlockCommit}
    (hs : Rep s cs) (hcs : Indexed P config cs) (h : IndexStep S P config floor s s') :
    ∃ cs', Rep s' cs' ∧ Indexed P config cs' ∧
      ((∃ new, cs' = cs ++ new ∧ (∀ floor', IndexStep S P config floor' s s') ∧
          ∀ c ∈ new, (∃ height hash, c = .empty height hash) ∨
            ∃ parsed res, S.Below s parsed.height ∧
              processParsedBlock S P config s parsed = .ok (s', res) ∧
              blockCommit P config (S.view s) parsed = .ok (some c)) ∨
        ∃ t : BlockHeight, floor ≤ t.toNat ∧ cs' = commitsUpTo t cs ∧
          s' = (S.rollbackTo s t).1) := by
  have hreg := hcs.regular hE
  cases h with
  | block parsed hheight hres =>
      obtain ⟨new, hnew, hs', hcs'⟩ := L.block_indexed hE hs hcs hheight hres
      refine ⟨_, hs', hcs', Or.inl ⟨_, rfl, fun _ => .block parsed hheight hres, fun c hc => ?_⟩⟩
      rw [Option.mem_toList.mp hc] at hnew
      exact Or.inr ⟨parsed, _, hheight, hres, hnew⟩
  | empty height hash hheight =>
      refine ⟨cs ++ [.empty height hash], (L.commitBlock hs _).1,
        hcs.empty height hash (L.level_lt hs hreg hheight),
        Or.inl ⟨_, rfl, fun _ => .empty height hash hheight, fun d hd => Or.inl ?_⟩⟩
      exact ⟨height, hash, List.mem_singleton.mp hd⟩
  | rollback target hfloor =>
      obtain ⟨high, hsplit, -⟩ := hreg.increasing.exists_eq_append target
      exact ⟨commitsUpTo target cs, (L.rollbackTo hs hreg target).1,
        Indexed.of_append (hsplit ▸ hcs), Or.inr ⟨target, hfloor, rfl, rfl⟩⟩

/-- **A reachable store represents the commits of an index.** -/
theorem indexed_of_run (hE : P.engine.Metered) {floor : ℕ} {s s' : σ} {cs : List BlockCommit}
    (hs : Rep s cs) (hcs : Indexed P config cs) (h : IndexRun S P config floor s s') :
    ∃ cs', Rep s' cs' ∧ Indexed P config cs' := by
  induction h with
  | refl => exact ⟨cs, hs, hcs⟩
  | tail _ hstep ih =>
      obtain ⟨cs₁, hs₁, hcs₁⟩ := ih
      obtain ⟨cs', hs', hcs', -⟩ := L.step_indexed hE hs₁ hcs₁ hstep
      exact ⟨cs', hs', hcs'⟩

/-- **Commits at or below the floor of a run stay.** -/
theorem prefix_of_run (hE : P.engine.Metered) {floor : ℕ} {s s' : σ} {cs : List BlockCommit}
    (hs : Rep s cs) (hcs : Indexed P config cs) (hfloor : ∀ c ∈ cs, c.level ≤ floor)
    (h : IndexRun S P config floor s s') :
    ∃ cs', Rep s' cs' ∧ Indexed P config cs' ∧ cs <+: cs' := by
  induction h with
  | refl => exact ⟨cs, hs, hcs, List.prefix_rfl⟩
  | tail _ hstep ih =>
      obtain ⟨cs₁, hs₁, hcs₁, hprefix⟩ := ih
      obtain ⟨cs', hs', hcs', hcases⟩ := L.step_indexed hE hs₁ hcs₁ hstep
      refine ⟨cs', hs', hcs', ?_⟩
      rcases hcases with ⟨new, rfl, -⟩ | ⟨t, ht, rfl, -⟩
      · exact hprefix.trans (List.prefix_append _ _)
      · obtain ⟨rest, rfl⟩ := hprefix
        rw [commitsUpTo, List.filter_append, List.filter_eq_self.mpr]
        · exact List.prefix_append _ _
        · intro c hc
          exact decide_eq_true ((hfloor c hc).trans ht)

end LawfulStore

/-! ### The run of a contract -/

/-- A transaction that deploys a code of one piece, with a P2PKH input in front of the carrier. -/
def deployCodeTx (H : Hashing) (wasm : Bytes) : ParsedTransaction where
  txid := Bytes32.replicate 1
  outputs := [(0, opReturnScript (encodeDeploy (deployMessage H wasm [wasm] 0)))]
  inputs := [(0, p2pkhScriptSig [0x30] (List.replicate 33 2)),
    (1, carrierScriptSig 0 wasm [0x30] (redeemScript (List.replicate 33 2)))]

/-- The id of this code. -/
def deployedId (H : Hashing) (wasm : Bytes) : ContractId :=
  ContractId.derive H .regtest (Bytes32.replicate 1) 0 (CodeHash.of H wasm)

/-- The first block deploys the code. -/
def deployCodeBlock (H : Hashing) (wasm : Bytes) : ParsedBlock :=
  ⟨1, Bytes32.replicate 1, [deployCodeTx H wasm]⟩

/-- The message that calls it: inline as far as the input fits, and else by a carrier. -/
def callMessage (H : Hashing) (wasm : Bytes) (opcode : UInt16) (input : Bytes) : Message :=
  if input.length ≤ maxCallInlineBytes.toNat then .call ⟨deployedId H wasm, opcode, input⟩
  else .callCarrier ⟨deployedId H wasm, opcode, H.sha256 input, UInt32.ofNat input.length, 1⟩

/-- A transaction with this message, and the input in a carrier. -/
def callCodeTx (H : Hashing) (wasm : Bytes) (opcode : UInt16) (input : Bytes) :
    ParsedTransaction where
  txid := Bytes32.replicate 2
  outputs := [(0, opReturnScript (callMessage H wasm opcode input).encode)]
  inputs := [(0, carrierScriptSig 0 input [0x30] (redeemScript (List.replicate 33 2)))]

/-- The second block makes one call. -/
def callCodeBlock (H : Hashing) (wasm : Bytes) (opcode : UInt16) (input : Bytes) : ParsedBlock :=
  ⟨2, Bytes32.replicate 2, [callCodeTx H wasm opcode input]⟩

/-- The context of the call. -/
def callCodeContext (H : Hashing) (wasm : Bytes) (opcode : UInt16) (input : Bytes) : CallContext :=
  (⟨Bytes32.replicate 2, deployedId H wasm, opcode, input⟩ : CallRequest).context 2 maxFuelPerCall

/-- The message is well formed and asks for the call, inline or by the carrier. -/
theorem request_callMessage (H : Hashing) (wasm : Bytes) (opcode : UInt16) {input : Bytes}
    (hinput : input.length ≤ chunkPayloadSize) :
    (callMessage H wasm opcode input).InRange ∧
      (callMessage H wasm opcode input).request? H (callCodeTx H wasm opcode input) =
        some ⟨Bytes32.replicate 2, deployedId H wasm, opcode, input⟩ := by
  have hchunk : chunkPayloadSize = 1400 := rfl
  by_cases hinline : input.length ≤ maxCallInlineBytes.toNat
  · rw [callMessage, if_pos hinline]
    exact ⟨hinline, rfl⟩
  · have hinlineMax : maxCallInlineBytes.toNat = 38 := rfl
    have hpos : 1 ≤ input.length := by omega
    have hpieces : chunks chunkPayloadSize input = [input] := chunks_of_length_le hpos hinput
    have hinputs : ((callCodeTx H wasm opcode input).inputs.map Prod.snd).Perm
        (deployScriptSigs [input] (fun _ => [0x30]) (redeemScript (List.replicate 33 2)) []) :=
      .refl _
    have hchunks : (carrierChunks (callCodeTx H wasm opcode input)).Perm (chunksOf [input]) :=
      carrierChunks_perm (fun piece hpiece => List.mem_singleton.mp hpiece ▸
          List.length_pos_iff.mp hpos) (fun _ => ⟨by decide, by decide⟩) (by decide)
        (fun p hp => absurd hp List.not_mem_nil) hinputs
    rw [← hpieces] at hchunks
    have hreconstruct := reconstruct_of_perm H hpos (hinput.trans (by decide)) hchunks
    rw [hpieces] at hreconstruct
    have hlength : (UInt32.ofNat input.length).toNat = input.length := toNat_ofNat32 (by omega)
    have hmax : maxCallInputBytes.toNat = 65536 := rfl
    rw [callMessage, if_neg hinline]
    refine ⟨⟨UInt32.lt_iff_toNat_lt.mpr ?_, UInt32.le_iff_toNat_le.mpr ?_,
      show (0 : UInt8) < 1 by decide, show (1 : UInt8) ≤ maxCallCarrierChunks by decide⟩, ?_⟩
    · rw [hlength]
      exact hpos
    · rw [hlength]
      omega
    · rw [Message.request?]
      dsimp only
      rw [show H.sha256 input = CodeHash.of H input from rfl,
        show (1 : UInt8) = UInt8.ofNat [input].length from rfl, hreconstruct]
      rfl

/-- The second block executes this call, and only this. -/
theorem blockCalls_callCodeBlock (P : Platform) (store : StateView) (wasm : Bytes)
    (opcode : UInt16) {input : Bytes} (hinput : input.length ≤ chunkPayloadSize) :
    (∀ tx ∈ (callCodeBlock P.hashing wasm opcode input).transactions, CallsOnly tx.outputs) ∧
      blockCalls P regtestConfig store (callCodeBlock P.hashing wasm opcode input) =
        (execute P.engine P.overflowChecks (callCodeContext P.hashing wasm opcode input)
          store).map fun result => [(callCodeContext P.hashing wasm opcode input, result)] := by
  obtain ⟨hrange, hrequest⟩ := request_callMessage P.hashing wasm opcode hinput
  obtain ⟨honly, hcalls⟩ := blockCalls_of_request P store
    (show regtestConfig.activationHeight = some 1 from rfl) (show (1 : UInt32) ≤ 2 by decide)
    hrange (show (callCodeTx P.hashing wasm opcode input).outputs = _ from rfl) hrequest
  exact ⟨fun tx htx => List.mem_singleton.mp htx ▸ honly, hcalls⟩

section ContractRun

variable {σ : Type} (S : StateStore σ) (P : Platform)

/-- The code is deployed by the first block and called by the second. -/
structure ContractRun (wasm : Bytes) (opcode : UInt16) (input : Bytes) (result : CallResult)
    (s₀ s₁ s₂ : σ) : Prop where
  deploy : S.Below s₀ 1 ∧ ∃ res,
    processParsedBlock S P regtestConfig s₀ (deployCodeBlock P.hashing wasm) = .ok (s₁, res)
  call : S.Below s₁ 2 ∧ ∃ res, processParsedBlock S P regtestConfig s₁
    (callCodeBlock P.hashing wasm opcode input) = .ok (s₂, res)
  executed : blockCalls P regtestConfig (S.view s₁) (callCodeBlock P.hashing wasm opcode input) =
    .ok [(callCodeContext P.hashing wasm opcode input, result)]
  /-- A contract that was just deployed has no storage. -/
  empty : ∀ key, (S.view s₁).storageGet (deployedId P.hashing wasm) key = none
  top : S.indexedHeight s₂ = some 2
  code : (S.view s₂).getContract (deployedId P.hashing wasm) =
    some (CodeHash.of P.hashing wasm, wasm)
  storage : ∀ key, (S.view s₂).storageGet (deployedId P.hashing wasm) key =
    (lastWrite (putsThenDels (result.writes.map StorageWrite.write))
      (deployedId P.hashing wasm, key)).getD none

variable {S P} {wasm : Bytes} {opcode : UInt16} {input : Bytes} {result : CallResult}

/-- The first block is a run of the indexer. -/
theorem ContractRun.indexRun_deploy {s₀ s₁ s₂ : σ}
    (h : ContractRun S P wasm opcode input result s₀ s₁ s₂) :
    IndexRun S P regtestConfig 0 s₀ s₁ :=
  have ⟨hbelow, _, hdeploy⟩ := h.deploy
  .single (.block _ hbelow hdeploy)

/-- So are both. -/
theorem ContractRun.indexRun {s₀ s₁ s₂ : σ}
    (h : ContractRun S P wasm opcode input result s₀ s₁ s₂) :
    IndexRun S P regtestConfig 0 s₀ s₂ :=
  have ⟨hbelow, _, hcall⟩ := h.call
  h.indexRun_deploy.tail (.block _ hbelow hcall)

/-- The commit of the first block. -/
theorem blockCommit_deployCodeBlock {store : StateView} (hpos : 1 ≤ wasm.length)
    (hle : wasm.length ≤ chunkPayloadSize) (hvalid : validateModule P.engine wasm = .ok ())
    (hnew : store.hasContract (deployedId P.hashing wasm) = false) :
    blockCommit P regtestConfig store (deployCodeBlock P.hashing wasm) =
      .ok (some ⟨1, Bytes32.replicate 1,
        [(deployedId P.hashing wasm, CodeHash.of P.hashing wasm, wasm)], [], []⟩) := by
  have hpieces : chunks chunkPayloadSize wasm = [wasm] := chunks_of_length_le hpos hle
  have hinputs : ((deployCodeTx P.hashing wasm).inputs.map Prod.snd).Perm
      (deployScriptSigs [wasm] (fun _ => [0x30]) (redeemScript (List.replicate 33 2))
        [([0x30], List.replicate 33 2)]) := List.Perm.swap _ _ _
  have hchunks : (carrierChunks (deployCodeTx P.hashing wasm)).Perm (chunksOf [wasm]) :=
    carrierChunks_perm (fun piece hpiece => List.mem_singleton.mp hpiece ▸
        List.length_pos_iff.mp hpos) (fun _ => ⟨by decide, by decide⟩) (by decide)
      (fun p hp => List.mem_singleton.mp hp ▸ ⟨⟨by decide, by decide⟩, by decide⟩) hinputs
  rw [← hpieces] at hchunks
  have houtputs : (deployCodeTx P.hashing wasm).outputs = [(0, opReturnScript (encodeDeploy
      (deployMessage P.hashing wasm (chunks chunkPayloadSize wasm) 0)))] := by
    rw [hpieces]
    rfl
  exact blockCommit_deploy _ (show regtestConfig.activationHeight = some 1 from rfl) (by decide)
    hpos (hle.trans (by decide)) hvalid houtputs hchunks hnew

section LawfulRun

variable {Rep : σ → List BlockCommit → Prop} (L : LawfulStore P.hashing S Rep)
  (hE : P.engine.Metered)
include L hE

/-- The first block leaves the code, and no storage of it. -/
theorem LawfulStore.exists_deployed {s₀ : σ} (h₀ : Rep s₀ []) (hpos : 1 ≤ wasm.length)
    (hle : wasm.length ≤ chunkPayloadSize) (hvalid : validateModule P.engine wasm = .ok ()) :
    ∃ s₁ res c, processParsedBlock S P regtestConfig s₀ (deployCodeBlock P.hashing wasm) =
        .ok (s₁, res) ∧ S.Below s₀ 1 ∧ Rep s₁ [c] ∧ Indexed P regtestConfig [c] ∧ c.height = 1 ∧
      (ledgerOf [c]).contracts[deployedId P.hashing wasm]? =
        some (CodeHash.of P.hashing wasm, wasm) ∧
      ∀ key : Bytes, (ledgerOf [c]).storage[(deployedId P.hashing wasm, key)]? = none := by
  have hnew : (S.view s₀).hasContract (deployedId P.hashing wasm) = false := by
    rw [L.view h₀ Regular.nil]
    rfl
  have hdeploy := blockCommit_deployCodeBlock hpos hle hvalid hnew
  obtain ⟨s₁, res, hs₁⟩ := exists_processParsedBlock (S := S) hdeploy
  have hbelow : S.Below s₀ 1 := by
    intro top htop
    rw [L.indexedHeight h₀ Regular.nil] at htop
    cases htop
  obtain ⟨new, hcommit, hrep, hindexed⟩ := L.block_indexed hE h₀ .nil hbelow hs₁
  obtain rfl := Except.ok.inj (hcommit.symm.trans hdeploy)
  refine ⟨s₁, res, _, hs₁, hbelow, hrep, hindexed, rfl, ?_, fun key => ?_⟩
  · change ((ledgerOf []).apply _).contracts[_]? = _
    rw [Ledger.getElem?_contracts_apply]
    simp [BlockCommit.contractWrites, lastWrite_cons]
  · change ((ledgerOf []).apply _).storage[_]? = _
    rw [Ledger.getElem?_storage_apply]
    simp [ledgerOf, Ledger.empty, BlockCommit.storageWrites]

/-- The second block leaves what the call wrote. -/
theorem LawfulStore.exists_called {s₁ : σ} {cs : List BlockCommit} (hs₁ : Rep s₁ cs)
    (hcs : Indexed P regtestConfig cs) (hbelow : S.Below s₁ 2)
    (hinput : input.length ≤ chunkPayloadSize)
    (hresult : execute P.engine P.overflowChecks (callCodeContext P.hashing wasm opcode input)
      (S.view s₁) = .ok result) :
    ∃ s₂ res, processParsedBlock S P regtestConfig s₁ (callCodeBlock P.hashing wasm opcode input) =
        .ok (s₂, res) ∧
      blockCalls P regtestConfig (S.view s₁) (callCodeBlock P.hashing wasm opcode input) =
        .ok [(callCodeContext P.hashing wasm opcode input, result)] ∧
      S.indexedHeight s₂ = some 2 ∧
      (∀ id, (S.view s₂).getContract id = (ledgerOf cs).contracts[id]?) ∧
      ∀ id key, (S.view s₂).storageGet id key =
        (lastWrite (putsThenDels (result.writes.map StorageWrite.write)) (id, key)).getD
          (ledgerOf cs).storage[(id, key)]? := by
  obtain ⟨honly, hcalls⟩ := blockCalls_callCodeBlock P (S.view s₁) wasm opcode hinput
  rw [hresult] at hcalls
  obtain ⟨s₂, res, hs₂⟩ := exists_processParsedBlock_of_blockCalls (S := S) hcalls
  obtain ⟨new, hcommit, hrep, hindexed⟩ := L.block_indexed hE hs₁ hcs hbelow hs₂
  cases new with
  | none =>
      obtain ⟨acc, -, hnone⟩ := map_eq_ok (show (processTransactions _ _ _ _).map
        (fun acc => some acc.commit) = .ok none from hcommit)
      cases hnone
  | some c =>
      obtain ⟨calls, hcalls', hwrites⟩ := storageWrites_blockCommit hcommit
      obtain rfl := Except.ok.inj (hcalls'.symm.trans hcalls)
      have hview : S.view s₂ = ((ledgerOf cs).apply c).view := by
        rw [← ledgerOf_append_singleton]
        exact L.view hrep (hindexed.regular hE)
      have hheight := L.indexedHeight hrep (hindexed.regular hE)
      refine ⟨s₂, res, hs₂, hcalls, ?_, fun id => ?_, fun id key => ?_⟩
      · rw [hheight, Option.toList_some, List.getLast?_concat]
        exact congrArg some (height_blockCommit hcommit).1
      · rw [hview]
        change ((ledgerOf cs).apply c).contracts[id]? = _
        rw [Ledger.getElem?_contracts_apply, contractWrites_blockCommit honly hcommit]
        rfl
      · rw [hview]
        change ((ledgerOf cs).apply c).storage[(id, key)]? = _
        rw [Ledger.getElem?_storage_apply, hwrites, writeLog, List.flatMap_singleton]

/-- **Every lawful store without blocks has such a run**, if the code is valid and the call has a
result on every store with the code and no storage of it. -/
theorem LawfulStore.exists_contractRun {s₀ : σ} (h₀ : Rep s₀ []) (hpos : 1 ≤ wasm.length)
    (hle : wasm.length ≤ chunkPayloadSize) (hvalid : validateModule P.engine wasm = .ok ())
    (hinput : input.length ≤ chunkPayloadSize) {Q : CallResult → Prop}
    (hexec : ∀ store : StateView,
      store.getContract (deployedId P.hashing wasm) = some (CodeHash.of P.hashing wasm, wasm) →
      (∀ key, store.storageGet (deployedId P.hashing wasm) key = none) →
      ∃ result, execute P.engine P.overflowChecks
        (callCodeContext P.hashing wasm opcode input) store = .ok result ∧ Q result) :
    ∃ result s₁ s₂, ContractRun S P wasm opcode input result s₀ s₁ s₂ ∧ Q result := by
  obtain ⟨s₁, res₁, c, hs₁, hbelow₀, hrep, hindexed, hheight, hcode, hempty⟩ :=
    L.exists_deployed hE h₀ hpos hle hvalid
  have hview : S.view s₁ = (ledgerOf [c]).view := L.view hrep (hindexed.regular hE)
  have hbelow₁ : S.Below s₁ 2 := by
    intro top htop
    rw [L.indexedHeight hrep (hindexed.regular hE)] at htop
    obtain rfl : c.height = top := Option.some.inj htop
    rw [hheight]
    decide
  have hempty₁ : ∀ key, (S.view s₁).storageGet (deployedId P.hashing wasm) key = none := by
    rw [hview]
    exact hempty
  obtain ⟨result, hresult, hQ⟩ := hexec (S.view s₁) (by rw [hview]; exact hcode) hempty₁
  obtain ⟨s₂, res₂, hs₂, hcalls, htop, hcontract, hstorage⟩ :=
    L.exists_called hE hrep hindexed hbelow₁ hinput hresult
  refine ⟨result, s₁, s₂, ⟨⟨hbelow₀, res₁, hs₁⟩, ⟨hbelow₁, res₂, hs₂⟩, hcalls, hempty₁, htop,
    (hcontract _).trans hcode, fun key => ?_⟩, hQ⟩
  rw [hstorage, hempty]

end LawfulRun

end ContractRun

/-- **The register runs** on every lawful store without blocks: it is deployed, and its key is
set. -/
theorem LawfulStore.exists_registerRun {H : Hashing} {σ : Type} {S : StateStore σ}
    {Rep : σ → List BlockCommit → Prop} (L : LawfulStore H S Rep) {s₀ : σ} (h₀ : Rep s₀ [])
    (json : Execution → Except String Bytes) :
    ∃ result s₁ s₂,
      ContractRun S (meteredPlatform H json) registerWasm 1 [] result s₀ s₁ s₂ ∧
        (S.view s₂).storageGet (deployedId H registerWasm) [0] = some [0] := by
  have hvalid : validateModule meteredEngine registerWasm = .ok () := by
    rw [validateModule, parseModuleContained_meteredEngine]
    decide +kernel
  have hexec : ∀ store : StateView, store.getContract (deployedId H registerWasm) =
      some (CodeHash.of H registerWasm, registerWasm) →
      (∀ key, store.storageGet (deployedId H registerWasm) key = none) → ∃ result,
      execute meteredEngine true (callCodeContext H registerWasm 1 []) store =
          .ok result ∧ result.writes = [.set (deployedId H registerWasm) [0] [0]] :=
    fun store hcode _ => ⟨_, (execute_meteredEngine _ (show 20 ≤ maxFuelPerCall by decide)).trans
      (execute_register_set _ rfl rfl hcode), rfl⟩
  obtain ⟨result, s₁, s₂, hrun, hwrites⟩ :=
    LawfulStore.exists_contractRun (P := meteredPlatform H json) L metered_meteredEngine h₀
      (by decide +kernel) (by decide +kernel) hvalid (Nat.zero_le _) hexec
  refine ⟨result, s₁, s₂, hrun, (hrun.storage [0]).trans ?_⟩
  rw [hwrites]
  change (lastWrite [.put (deployedId H registerWasm, [0]) [0]]
    (deployedId H registerWasm, [0])).getD none = some [0]
  simp [lastWrite_cons]

end Zalkanes
