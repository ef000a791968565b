import Zalkanes.Indexer.Admitted
import Zalkanes.Indexer.Writes

/-!
# One Block or Two

The calls that a block makes are those that its messages ask for within the caps, and they all read
the store before the block. So a block with two calling transactions does what two blocks with one
each do only as long as the second transaction has nothing to do with what the first wrote.

## Main results

* `execute_of_mem_blockCalls`: every call of a block is executed on the store before it.
* `reads_preBlock_state`: which calls a block makes, what they depend on, and when one block is as
  good as two.
-/

namespace Zalkanes

open Lib

/-! ### The calls of a block -/

section Calls

variable {P : Platform} {config : IndexerConfig} {store : StateView}

/-- **Every call of a block is executed on the store before the block.** -/
theorem execute_of_mem_blockCalls {parsed : ParsedBlock} {calls : List (CallContext × CallResult)}
    (h : blockCalls P config store parsed = .ok calls) :
    ∀ r ∈ calls, execute P.engine P.overflowChecks r.1 store = .ok r.2 := by
  intro r hr
  unfold blockCalls at h
  split at h
  · rw [← Except.ok.inj h] at hr
    cases hr
  split at h
  · rw [← Except.ok.inj h] at hr
    cases hr
  · obtain ⟨acc, hacc, rfl⟩ := map_eq_ok h
    exact execute_of_mem_results hacc r hr

/-- The calls of a block are made at its height, from the outside. -/
theorem context_of_mem_blockCalls {parsed : ParsedBlock}
    {calls : List (CallContext × CallResult)} (h : blockCalls P config store parsed = .ok calls) :
    ∀ r ∈ calls, r.1.blockHeight = parsed.height ∧ r.1.depth = 0 := by
  intro r hr
  unfold blockCalls at h
  split at h
  · rw [← Except.ok.inj h] at hr
    cases hr
  split at h
  · rw [← Except.ok.inj h] at hr
    cases hr
  · obtain ⟨acc, hacc, rfl⟩ := map_eq_ok h
    refine ((processTransactions_effects hacc).invariant (I := fun acc =>
      acc.commit.height = parsed.height ∧
        ∀ r ∈ acc.results, r.1.blockHeight = parsed.height ∧ r.1.depth = 0) ?_
      ⟨rfl, fun r hr => absurd hr List.not_mem_nil⟩).2 r hr
    rintro tx - acc acc' heff ⟨hheight, hI⟩
    cases heff with
    | limits => exact ⟨hheight, hI⟩
    | deploy _ deploy =>
        obtain ⟨hheight', -, -, -, hresults⟩ := handleDeploy_frame P config store acc tx deploy
        rw [hheight', hresults]
        exact ⟨hheight, hI⟩
    | call acc contractId opcode input result hexec =>
        rw [recordCall_commit, foldl_applyStorageWrite, recordCall_results]
        refine ⟨hheight, fun r hr => ?_⟩
        rcases List.mem_append.mp hr with hr | hr
        · exact hI r hr
        · rw [List.mem_singleton.mp hr]
          exact ⟨hheight, rfl⟩

/-- A call from the outside finds no contract exactly when the store has none. -/
theorem execute_contractNotFound_iff {E : Engine} {overflowChecks : Bool} {ctx : CallContext}
    (hdepth : ctx.depth = 0) :
    execute E overflowChecks ctx store = .ok .contractNotFound ↔
      store.getContract ctx.contractId = none := by
  have hle : ¬ ctx.depth > maxCallDepth := by
    rw [hdepth]
    decide
  rw [execute, if_neg hle]
  constructor
  · intro h
    split at h
    · assumption
    split at h
    · cases h
    split at h
    · cases h
    split at h
    · cases h
    · cases h
    · obtain ⟨⟨fuelLeft, result, host⟩, -, h⟩ := bind_eq_ok h
      have hres := Except.ok.inj h
      unfold CallResult.ofDispatch at hres
      dsimp only at hres
      split at hres <;> split at hres <;> cases hres
  · intro h
    rw [h]

/-- A block of transactions that only call deploys nothing. -/
theorem contractWrites_blockCommit {parsed : ParsedBlock} {commit : BlockCommit}
    (hcalls : ∀ tx ∈ parsed.transactions, CallsOnly tx.outputs)
    (h : blockCommit P config store parsed = .ok (some commit)) : commit.contractWrites = [] := by
  rcases blockCommit_eq_some h with rfl | ⟨acc, hacc, rfl⟩
  · rfl
  · have hdeploys : acc.commit.deploys = [] := by
      refine (processTransactions_effects hacc).invariant
        (I := fun acc => acc.commit.deploys = []) ?_ rfl
      rintro tx htx acc acc' heff hI
      cases heff with
      | limits => exact hI
      | deploy _ deploy hcarries =>
          obtain ⟨scriptPubkey, hmem, hmessage⟩ := hcarries
          exact absurd hmessage (hcalls tx htx _ hmem deploy)
      | call acc contractId opcode input result hexec =>
          rw [recordCall_commit, foldl_applyStorageWrite]
          exact hI
    rw [BlockCommit.contractWrites, hdeploys]
    rfl

/-- The keys that the calls of a block write to belong to contracts that its messages call. -/
theorem exists_request_of_mem_writeLog {parsed : ParsedBlock}
    {calls : List (CallContext × CallResult)} (h : blockCalls P config store parsed = .ok calls)
    {w : Write (ContractId × Bytes) Bytes} (hw : w ∈ writeLog calls) :
    ∃ r ∈ calls, ∃ storageWrite ∈ r.2.writes, w = storageWrite.write ∧
      w.key.1 = r.1.contractId ∧ r.1.request ∈ parsed.requests P.hashing := by
  obtain ⟨r, hr, hw⟩ := List.mem_flatMap.mp hw
  obtain ⟨storageWrite, hmem, rfl⟩ := List.mem_map.mp hw
  have hcontract := contract_of_mem_writes (execute_of_mem_blockCalls h r hr) storageWrite hmem
  refine ⟨r, hr, storageWrite, hmem, rfl, ?_,
    (requests_of_blockCalls h).subset (List.mem_map_of_mem hr)⟩
  rw [← hcontract]
  cases storageWrite <;> rfl

end Calls

/-! ### One block or two -/

/-- **The calls of a block.** They are asked for by its messages, in order, and each does what it
does on the store before the block, at the height of the block; it finds its contract if the
contract is deployed there. From the activation height on, they are exactly the requests that the
caps on messages and bytes admit, each made with the fuel that is left for it, and passed over only
when none is left; within the caps, they are all that the messages ask for. -/
def ReadsPreBlockState (P : Platform) (config : IndexerConfig) (store : StateView) : Prop :=
  ∀ parsed calls, blockCalls P config store parsed = .ok calls →
    (calls.map fun r => r.1.request).Sublist (parsed.requests P.hashing) ∧
    (∀ activation, config.activationHeight = some activation → activation ≤ parsed.height →
      makeBlockCalls P store parsed.height (parsed.admitted P.hashing P.overflowChecks) 0 =
          .ok calls ∧
        (parsed.WithinCaps P.overflowChecks calls →
          (calls.map fun r => r.1.request) = parsed.requests P.hashing)) ∧
    ∀ r ∈ calls, r.1.blockHeight = parsed.height ∧
      execute P.engine P.overflowChecks r.1 store = .ok r.2 ∧
      (r.2 = .contractNotFound ↔ store.getContract r.1.contractId = none)

/-- The second transaction calls no contract that a successful call of the first writes to. -/
def CallsNothingWritten (P : Platform) (config : IndexerConfig) (store : StateView)
    (first : ParsedBlock) (tx₂ : ParsedTransaction) : Prop :=
  ∀ calls, blockCalls P config store first = .ok calls → ∀ r ∈ calls, ∀ w ∈ r.2.writes,
    ∀ request ∈ tx₂.requests P.hashing, w.contract ≠ request.contractId

/-- One block with two calling transactions leaves the contracts, the storage and the root that
two blocks with one each leave, if the code they call does not ask for the height and the second
calls no contract that the first writes to. -/
def OneBlockIsTwo {σ : Type} (S : StateStore σ) (P : Platform) (config : IndexerConfig)
    (s : σ) : Prop :=
  ∀ (tx₁ tx₂ : ParsedTransaction) (height height₁ height₂ activation : BlockHeight)
    (hash hash₁ hash₂ : BlockHash),
    config.activationHeight = some activation → activation ≤ height → activation ≤ height₁ →
    activation ≤ height₂ → CallsOnly tx₁.outputs → CallsOnly tx₂.outputs →
    (∀ request ∈ tx₁.requests P.hashing ++ tx₂.requests P.hashing, ∀ codeHash wasm,
      (S.view s).getContract request.contractId = some (codeHash, wasm) →
        P.engine.IgnoresHeight wasm) →
    CallsNothingWritten P config (S.view s) ⟨height₁, hash₁, [tx₁]⟩ tx₂ →
    ∀ s' res, processParsedBlock S P config s ⟨height, hash, [tx₁, tx₂]⟩ = .ok (s', res) →
      ∃ s₁ res₁ s₂ res₂,
        processParsedBlock S P config s ⟨height₁, hash₁, [tx₁]⟩ = .ok (s₁, res₁) ∧
        processParsedBlock S P config s₁ ⟨height₂, hash₂, [tx₂]⟩ = .ok (s₂, res₂) ∧
        (S.view s₂).ledger = (S.view s').ledger ∧
        computeRoot P.hashing (S.view s₂) = computeRoot P.hashing (S.view s')

section OneBlock

variable {σ : Type} {S : StateStore σ} {P : Platform} {config : IndexerConfig}

/-- The calls of every block read the store before it, and the caps alone decide which are made. -/
theorem readsPreBlockState (store : StateView) : ReadsPreBlockState P config store := by
  intro parsed calls h
  refine ⟨requests_of_blockCalls h, fun activation hact hge =>
    ⟨makeBlockCalls_of_blockCalls h hact hge, requests_of_withinCaps h hact hge⟩, fun r hr => ?_⟩
  have hexec := execute_of_mem_blockCalls h r hr
  obtain ⟨hheight, hdepth⟩ := context_of_mem_blockCalls h r hr
  refine ⟨hheight, hexec, ?_⟩
  rw [← execute_contractNotFound_iff hdepth, hexec]
  exact ⟨fun heq => congrArg Except.ok heq, Except.ok.inj⟩

/-- A block of transactions that only call leaves the contracts and writes its log. -/
theorem ledger_of_callsOnly (hS : S.Committing P.hashing) {s s' : σ} {parsed : ParsedBlock}
    {res : Except String BlockExecution}
    (hcalls : ∀ tx ∈ parsed.transactions, CallsOnly tx.outputs)
    (h : processParsedBlock S P config s parsed = .ok (s', res)) :
    ∃ calls, blockCalls P config (S.view s) parsed = .ok calls ∧
      (S.view s').ledger.contracts = (S.view s).ledger.contracts ∧
      (S.view s').ledger.storage =
        applyAll (S.view s).ledger.storage (putsThenDels (writeLog calls)) := by
  obtain ⟨calls, hblock, hstorage⟩ := storage_processParsedBlock hS h
  refine ⟨calls, hblock, ?_, hstorage⟩
  rcases processParsedBlock_cases h with ⟨-, rfl⟩ | ⟨commit, hcommit, hs'⟩
  · rfl
  · have hledger : (S.view s').ledger = (S.view s).ledger.apply commit := by
      rcases hs' with rfl | ⟨es, rfl⟩
      · exact (hS.commitBlock s commit).1
      · rw [hS.saveExecutions]
        exact (hS.commitBlock s commit).1
    rw [hledger, Ledger.apply, contractWrites_blockCommit hcalls hcommit]
    rfl

/-- One block is two on a store that commits as the rules say. -/
theorem StateStore.Committing.oneBlockIsTwo (hS : S.Committing P.hashing) (s : σ) :
    OneBlockIsTwo S P config s := by
  intro tx₁ tx₂ height height₁ height₂ activation hash hash₁ hash₂ hact hge hge₁ hge₂ hcalls₁
    hcalls₂ hheights hseparate s' res hs'
  have hboth : ∀ tx ∈ [tx₁, tx₂], CallsOnly tx.outputs := by
    intro tx htx
    simp only [List.mem_cons, List.not_mem_nil, or_false] at htx
    rcases htx with rfl | rfl
    · exact hcalls₁
    · exact hcalls₂
  have hone : ∀ {tx : ParsedTransaction}, CallsOnly tx.outputs →
      ∀ t ∈ [tx], CallsOnly (ParsedTransaction.outputs t) :=
    fun htx t ht => List.mem_singleton.mp ht ▸ htx
  obtain ⟨calls, hblock, hcontracts, hstorage⟩ := ledger_of_callsOnly hS hboth hs'
  -- the calls of the one block are those of its transactions
  have hmem : ∃ calls₁ calls₂, txCalls P (S.view s) height tx₁ tx₁.outputs 0 0 = .ok calls₁ ∧
      txCalls P (S.view s) height tx₂ tx₂.outputs 0 0 = .ok calls₂ ∧ calls = calls₁ ++ calls₂ := by
    rw [blockCalls_eq hact hge (by simp) hboth, List.mapM_cons, List.mapM_cons, List.mapM_nil]
      at hblock
    obtain ⟨lists, hlists, rfl⟩ := map_eq_ok hblock
    obtain ⟨calls₁, hcalls₁, hlists⟩ := bind_eq_ok hlists
    obtain ⟨rest, hrest, hlists⟩ := bind_eq_ok hlists
    obtain ⟨calls₂, hcalls₂, hrest⟩ := bind_eq_ok hrest
    refine ⟨calls₁, calls₂, hcalls₁, hcalls₂, ?_⟩
    rw [← Except.ok.inj hlists, ← Except.ok.inj hrest]
    simp
  obtain ⟨calls₁, calls₂, htx₁, htx₂, rfl⟩ := hmem
  -- the first of the two blocks
  have hblock₁ : blockCalls P config (S.view s) ⟨height₁, hash₁, [tx₁]⟩ =
      .ok (calls₁.map (atHeight height₁)) := by
    rw [blockCalls_eq hact hge₁ (by simp) (hone hcalls₁), List.mapM_cons, List.mapM_nil,
      txCalls_congr (S.view s) height (fun _ _ => ⟨rfl, fun _ => rfl⟩)
        (Or.inr fun request hrequest => hheights request (List.mem_append_left _ hrequest)), htx₁]
    simp [bind, Except.bind, Except.map, pure, Except.pure]
  obtain ⟨s₁, res₁, hs₁⟩ := exists_processParsedBlock_of_blockCalls hblock₁
  obtain ⟨calls₁', hblock₁', hcontracts₁, hstorage₁⟩ := ledger_of_callsOnly hS (hone hcalls₁) hs₁
  obtain rfl : calls₁' = _ := Except.ok.inj (hblock₁'.symm.trans hblock₁)
  rw [writeLog_map_atHeight] at hstorage₁
  -- it leaves alone what the second transaction reads
  have hagree : ∀ request ∈ outputRequests P.hashing tx₂ tx₂.outputs,
      (S.view s).AgreeOn request.contractId (S.view s₁) := by
    intro request hrequest
    refine ⟨by rw [hS.getContract, hS.getContract, hcontracts₁], fun key => ?_⟩
    rw [hS.storageGet, hS.storageGet, hstorage₁, getElem?_applyAll,
      lastWrite_putsThenDels_eq_none, Option.getD_none]
    intro w hw hkey
    rw [← writeLog_map_atHeight height₁] at hw
    obtain ⟨r, hr, storageWrite, hstorageWrite, rfl, -, -⟩ :=
      exists_request_of_mem_writeLog hblock₁ hw
    refine hseparate _ hblock₁ r hr storageWrite hstorageWrite request hrequest ?_
    have hfst := congrArg Prod.fst hkey
    cases storageWrite <;> exact hfst
  have hblock₂ : blockCalls P config (S.view s₁) ⟨height₂, hash₂, [tx₂]⟩ =
      .ok (calls₂.map (atHeight height₂)) := by
    rw [blockCalls_eq hact hge₂ (by simp) (hone hcalls₂), List.mapM_cons, List.mapM_nil,
      txCalls_congr (S.view s) height hagree
        (Or.inr fun request hrequest => hheights request (List.mem_append_right _ hrequest)), htx₂]
    simp [bind, Except.bind, Except.map, pure, Except.pure]
  obtain ⟨s₂, res₂, hs₂⟩ := exists_processParsedBlock_of_blockCalls hblock₂
  obtain ⟨calls₂', hblock₂', hcontracts₂, hstorage₂⟩ := ledger_of_callsOnly hS (hone hcalls₂) hs₂
  obtain rfl : calls₂' = _ := Except.ok.inj (hblock₂'.symm.trans hblock₂)
  rw [writeLog_map_atHeight] at hstorage₂
  -- the two write logs have no key in common
  have hdisjoint : ∀ w ∈ writeLog calls₁, ∀ v ∈ writeLog calls₂, w.key ≠ v.key := by
    intro w hw v hv hkey
    rw [← writeLog_map_atHeight height₁] at hw
    rw [← writeLog_map_atHeight height₂] at hv
    obtain ⟨r, hr, storageWrite, hstorageWrite, rfl, -, -⟩ :=
      exists_request_of_mem_writeLog hblock₁ hw
    obtain ⟨r', -, -, -, -, hkey', hrequest⟩ := exists_request_of_mem_writeLog hblock₂ hv
    have hrequest' : r'.1.request ∈ tx₂.requests P.hashing := by
      simpa [ParsedBlock.requests] using hrequest
    refine hseparate _ hblock₁ r hr storageWrite hstorageWrite _ hrequest' ?_
    have hfst := (congrArg Prod.fst hkey).trans hkey'
    cases storageWrite <;> exact hfst
  have hledger : (S.view s₂).ledger = (S.view s').ledger := by
    refine Ledger.ext ?_ ?_
    · rw [hcontracts₂, hcontracts₁, hcontracts]
    · rw [hstorage₂, hstorage₁, hstorage, writeLog, writeLog, writeLog, List.flatMap_append]
      exact (applyAll_putsThenDels_append _ hdisjoint).symm
  refine ⟨s₁, res₁, s₂, res₂, hs₁, hs₂, hledger, ?_⟩
  rw [computeRoot_eq P.hashing (hS.sorted s₂), computeRoot_eq P.hashing (hS.sorted s'), hledger]

/-- **The calls of a block read the state before the block**, on both backends and from any store,
and one block is as good as two where that makes no difference. -/
theorem reads_preBlock_state (P : Platform) (config : IndexerConfig) :
    (∀ s : MemoryState, ReadsPreBlockState P config ((MemoryState.store P.hashing).view s) ∧
      OneBlockIsTwo (MemoryState.store P.hashing) P config s) ∧
    ∀ s : RocksState, ReadsPreBlockState P config ((RocksState.store P.hashing P.json).view s) ∧
      OneBlockIsTwo (RocksState.store P.hashing P.json) P config s :=
  ⟨fun s => ⟨readsPreBlockState _, (MemoryState.committing P.hashing).oneBlockIsTwo s⟩,
    fun s => ⟨readsPreBlockState _, (RocksState.committing P.hashing P.json).oneBlockIsTwo s⟩⟩

end OneBlock

/-! ### A call that would read an earlier write of its block -/

/-- A ledger after the writes of some calls. -/
def Ledger.withWrites (l : Ledger) (calls : List (CallContext × CallResult)) : Ledger :=
  ⟨l.contracts, applyAll l.storage (writeLog calls)⟩

/-- Every call of a block does what it does on the store before the block with the writes of the
earlier calls applied. -/
def ReadsEarlierWrites (P : Platform) (config : IndexerConfig) (store : StateView) : Prop :=
  ∀ parsed calls, blockCalls P config store parsed = .ok calls →
    ∀ earlier r later, calls = earlier ++ r :: later →
      execute P.engine P.overflowChecks r.1 (store.ledger.withWrites earlier).view = .ok r.2

section Register

variable {overflowChecks : Bool} {host : HostState}

/-- The register does not ask for the height. -/
theorem registerEngine_ignoresHeight : registerEngine.IgnoresHeight registerWasm := by
  intro m fuel dispatch _ hdispatch opcode inputLen
  obtain rfl := Option.some.inj (Except.ok.inj hdispatch)
  simp only [registerDispatch]
  split
  · exact ⟨id, fun _ _ => trivial⟩
  split
  · exact ⟨id, fun _ _ => trivial⟩
  · refine ⟨id, fun code memory => ?_⟩
    dsimp only
    split
    · trivial
    · exact ⟨id, fun _ _ => trivial⟩

/-- A read of the key returns -1 when it is missing, else the length of its value. -/
theorem storageGet_register (host : HostState) (n : ℕ) (hn : 2 ≤ n) :
    (host.lookup [0] = none → storageGet ⟨some (List.replicate n 0), host⟩ 0 1 1 =
      .ok (-1, ⟨some (List.replicate n 0), host⟩)) ∧
    (host.lookup [0] = some [0] → storageGet ⟨some (List.replicate n 0), host⟩ 0 1 1 =
      .ok (1, ⟨some (List.replicate n 0), host⟩)) := by
  have hkey : slice (List.replicate n 0) (asUsize 0) (saturatingAdd (asUsize 0) (asUsize 1)) =
      .ok [0] := slice_replicate n 0 1 0 (by omega) (by omega)
  have hrange :
      ¬ saturatingAdd (asUsize 0) (asUsize 1) > (List.replicate n (0 : UInt8)).length := by
    rw [List.length_replicate]
    change ¬ 1 > n
    omega
  constructor
  · intro hlookup
    rw [storageGet]
    dsimp only
    rw [if_neg hrange, hkey]
    simp only [bind, Except.bind, hlookup]
    rfl
  · intro hlookup
    have hcopy : copyFromSlice (List.replicate n 0) (asUsize 1) 2 [0] =
        .ok (List.replicate n 0) := by
      rw [copyFromSlice_eq_ok (e := 2) (by rwa [List.length_replicate]) rfl]
      change Except.ok ((List.replicate n 0).take 1 ++ List.replicate 1 0 ++
        (List.replicate n 0).drop 2) = _
      rw [List.take_replicate, List.drop_replicate, List.replicate_append_replicate,
        List.replicate_append_replicate, min_eq_left (by omega)]
      congr 2
      omega
    have hstop : checkedAdd (asUsize 1) [(0 : UInt8)].length = some 2 := rfl
    have hend : ¬ 2 > (List.replicate n (0 : UInt8)).length := by
      rw [List.length_replicate]
      omega
    rw [storageGet]
    dsimp only
    rw [if_neg hrange, hkey]
    simp only [bind, Except.bind, hlookup, hstop]
    rw [if_neg hend, hcopy]
    rfl

/-- Taking the register: it fails if nothing is there, and else deletes it. -/
theorem execute_register_take (ctx : CallContext) {store : StateView} (codeHash : CodeHash)
    (hdepth : ctx.depth = 0) (hopcode : ctx.opcode = 2)
    (hcode : store.getContract ctx.contractId = some (codeHash, registerWasm)) :
    (store.storageGet ctx.contractId [0] = none →
      execute registerEngine overflowChecks ctx store = .ok (.trap
        "dispatch returned error code -1" (ctx.fuelLimit - (ctx.fuelLimit - 20)))) ∧
    (store.storageGet ctx.contractId [0] = some [0] →
      execute registerEngine overflowChecks ctx store = .ok (.success []
        (ctx.fuelLimit - (ctx.fuelLimit - 20)) [.delete ctx.contractId [0]])) := by
  have hrun : execute registerEngine overflowChecks ctx store = _ :=
    execute_register codeHash hdepth hcode
  rw [hopcode, show Int32.ofNat (2 : UInt16).toNat = 2 from rfl, registerDispatch,
    if_neg (by decide), if_neg (by decide), Guest.run, HostCall.run] at hrun
  have hget := storageGet_register (HostState.init ctx store) 65536 (by omega)
  constructor
  · intro hmissing
    rw [hrun, hget.1 hmissing]
    rfl
  · intro hpresent
    rw [hrun, hget.2 hpresent]
    simp only [bind, Except.bind]
    rw [if_neg (by decide), Guest.run, HostCall.run, storageDelete_register _ (by omega) rfl]
    rfl

end Register

section RegisterBlocks

variable {H : Hashing} {json : Execution → Except String Bytes}

/-- A block of one register transaction. -/
def registerBlock₁ (height : BlockHeight) (n : UInt8) (opcode : UInt16) : ParsedBlock :=
  ⟨height, Bytes32.replicate n, [registerTx n opcode]⟩

/-- The call of a block of one register transaction, on any node. -/
theorem blockCalls_registerBlock₁ {P : Platform} {store : StateView} {height : BlockHeight}
    (n : UInt8)
    (hheight : 1 ≤ height) {opcode : UInt16}
    (hmessage : outputMessage (registerScript opcode) = some (.call ⟨registerId, opcode, []⟩))
    {result : CallResult}
    (hresult : execute P.engine P.overflowChecks (registerContext height n opcode) store =
      .ok result) :
    blockCalls P regtestConfig store (registerBlock₁ height n opcode) =
      .ok [(registerContext height n opcode, result)] := by
  rw [blockCalls_eq rfl hheight (by simp [registerBlock₁]) ?_]
  · simp only [registerBlock₁, List.mapM_cons, List.mapM_nil]
    rw [txCalls_registerTx height n hmessage, hresult]
    rfl
  · intro tx htx output houtput deploy heq
    rw [List.mem_singleton.mp htx] at houtput
    rw [List.mem_singleton.mp houtput, hmessage] at heq
    cases heq

/-- What a block of register transactions leaves at the key. -/
theorem exists_register_step (json : Execution → Except String Bytes) (s : MemoryState)
    {parsed : ParsedBlock}
    {calls : List (CallContext × CallResult)}
    (h : blockCalls (registerPlatform H json) regtestConfig ((MemoryState.store H).view s) parsed =
      .ok calls)
    (hcode : ((MemoryState.store H).view s).getContract registerId =
      some (CodeHash.of H registerWasm, registerWasm))
    (hcalls : ∀ tx ∈ parsed.transactions, CallsOnly tx.outputs) :
    ∃ s' res, processParsedBlock (MemoryState.store H) (registerPlatform H json) regtestConfig s
        parsed = .ok (s', res) ∧
      ((MemoryState.store H).view s').getContract registerId =
        some (CodeHash.of H registerWasm, registerWasm) ∧
      ((MemoryState.store H).view s').storageGet registerId [0] =
        (lastWrite (putsThenDels (writeLog calls)) (registerId, [0])).getD
          (((MemoryState.store H).view s).storageGet registerId [0]) := by
  have hS := MemoryState.committing H
  obtain ⟨s', res, hs'⟩ := exists_processParsedBlock_of_blockCalls (S := MemoryState.store H) h
  obtain ⟨calls', hblock, hcontracts, hstorage⟩ := ledger_of_callsOnly hS hcalls hs'
  obtain rfl : calls' = calls := Except.ok.inj (hblock.symm.trans h)
  refine ⟨s', res, hs', ?_, ?_⟩
  · rw [hS.getContract, hcontracts, ← hS.getContract, hcode]
  · rw [hS.storageGet, hstorage, getElem?_applyAll, hS.storageGet]

/-- A call to the register is only that. -/
theorem callsOnly_registerTx {n : UInt8} {opcode : UInt16}
    (hmessage : outputMessage (registerScript opcode) = some (.call ⟨registerId, opcode, []⟩)) :
    CallsOnly (registerTx n opcode).outputs := by
  intro output houtput deploy heq
  rw [List.mem_singleton.mp houtput, hmessage] at heq
  cases heq

end RegisterBlocks

/-- **A set and then a take in one block**: the code of the register does not ask for the height,
the take does not see the set, and the key is still there after the block, while it is gone after
a block with the set and a block with the take. -/
theorem set_then_take_in_block :
    registerEngine.IgnoresHeight registerWasm ∧
    (¬ ∃ (H : Hashing) (json : Execution → Except String Bytes),
      ReadsEarlierWrites (registerPlatform H json) regtestConfig
        ((MemoryState.store H).view (registerStore H))) ∧
    ∀ (H : Hashing) (json : Execution → Except String Bytes), ∃ s' res s₁ res₁ s₂ res₂,
      processParsedBlock (MemoryState.store H) (registerPlatform H json) regtestConfig
        (registerStore H) (registerBlock 1 2) = .ok (s', res) ∧
      processParsedBlock (MemoryState.store H) (registerPlatform H json) regtestConfig
        (registerStore H) (registerBlock₁ 2 1 1) = .ok (s₁, res₁) ∧
      processParsedBlock (MemoryState.store H) (registerPlatform H json) regtestConfig
        s₁ (registerBlock₁ 3 2 2) = .ok (s₂, res₂) ∧
      ((MemoryState.store H).view s').storageGet registerId [0] = some [0] ∧
      ((MemoryState.store H).view s₂).storageGet registerId [0] = none := by
  have hmissing : ∀ H, ((MemoryState.store H).view (registerStore H)).storageGet registerId [0] =
      none := by
    intro H
    rw [(MemoryState.committing H).storageGet, registerStore,
      ((MemoryState.committing H).commitBlock MemoryState.new (deployRegister H)).1,
      Ledger.getElem?_storage_apply]
    rfl
  have hcalls : ∀ (H : Hashing) (json : Execution → Except String Bytes),
      blockCalls (registerPlatform H json) regtestConfig
        ((MemoryState.store H).view (registerStore H)) (registerBlock 1 2) = _ := fun H json =>
    blockCalls_registerBlock rfl rfl
      (execute_register_set _ rfl rfl (getContract_registerStore H))
      ((execute_register_take _ _ rfl rfl (getContract_registerStore H)).1 (hmissing H))
  refine ⟨registerEngine_ignoresHeight, ?_, ?_⟩
  · rintro ⟨H, json, hreads⟩
    have hsecond := hreads _ _ (hcalls H json) [_] _ [] rfl
    have hsuccess : ∀ l : Ledger,
        l.view.getContract registerId = some (CodeHash.of H registerWasm, registerWasm) →
        l.view.storageGet registerId [0] = some [0] →
        execute registerEngine true (registerContext 2 2 2) l.view = .ok (.success []
          (maxFuelPerCall - (maxFuelPerCall - 20)) [.delete registerId [0]]) :=
      fun l hcode => (execute_register_take (registerContext 2 2 2) _ rfl rfl hcode).2
    refine absurd ((hsuccess _ ?_ ?_).symm.trans hsecond) (by simp)
    · exact ((MemoryState.committing H).getContract _ _).symm.trans (getContract_registerStore H)
    · exact (getElem?_applyAll _ _ _).trans rfl
  · intro H json
    have hcode := getContract_registerStore H
    obtain ⟨s', res, hs', -, hstorage⟩ :=
      exists_register_step json (registerStore H) (hcalls H json)
      hcode (by
        intro tx htx
        simp only [registerBlock, List.mem_cons, List.not_mem_nil, or_false] at htx
        rcases htx with rfl | rfl <;> exact callsOnly_registerTx rfl)
    obtain ⟨s₁, res₁, hs₁, hcode₁, hstorage₁⟩ := exists_register_step json
      (registerStore H) (blockCalls_registerBlock₁ 1 (show (1 : UInt32) ≤ 2 by decide) rfl
        (execute_register_set _ rfl rfl hcode)) hcode
      (fun tx htx => List.mem_singleton.mp htx ▸ callsOnly_registerTx rfl)
    have hpresent : ((MemoryState.store H).view s₁).storageGet registerId [0] = some [0] :=
      hstorage₁.trans rfl
    obtain ⟨s₂, res₂, hs₂, -, hstorage₂⟩ := exists_register_step json
      s₁ (blockCalls_registerBlock₁ 2 (show (1 : UInt32) ≤ 3 by decide) rfl
        ((execute_register_take _ _ rfl rfl hcode₁).2 hpresent)) hcode₁
      (fun tx htx => List.mem_singleton.mp htx ▸ callsOnly_registerTx rfl)
    exact ⟨s', res, s₁, res₁, s₂, res₂, hs', hs₁, hs₂, hstorage.trans rfl, hstorage₂.trans rfl⟩

end Zalkanes
