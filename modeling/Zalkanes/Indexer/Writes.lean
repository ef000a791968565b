import Zalkanes.Indexer.TxCalls
import Zalkanes.State.Backend

/-!
# The Last Write of a Block

A block applies the puts of all its calls before their deletes, so the last write of its calls to
a key decides what the key holds unless that write is a put and an earlier one a delete.

## Main results

* `storage_processParsedBlock`: the storage after a block.
* `lastWriterWins_iff`: for which keys the last write of a block decides, for both backends.
-/

namespace Zalkanes

open Lib

section Writes

variable {σ : Type} (S : StateStore σ) (P : Platform) (config : IndexerConfig)

/-- After the block, a key holds what the writes of the successful calls of the block leave when
they are applied to the storage before it, one after another in block order. -/
def LastWriterWins (s : σ) (parsed : ParsedBlock) (k : ContractId × Bytes) : Prop :=
  ∀ s' res calls, processParsedBlock S P config s parsed = .ok (s', res) →
    blockCalls P config (S.view s) parsed = .ok calls →
    (S.view s').storageGet k.1 k.2 = (applyAll (S.view s).ledger.storage (writeLog calls))[k]?

/-- The last write of the calls of the block to a key puts it, and an earlier one deletes it. -/
def PutsAfterDelete (store : StateView) (parsed : ParsedBlock) (k : ContractId × Bytes) : Prop :=
  ∃ calls, blockCalls P config store parsed = .ok calls ∧ PutAfterDel (writeLog calls) k

variable {S P config}

/-- **The storage after a block**: all puts of its calls, then all their deletes. -/
theorem storage_processParsedBlock (hS : S.Committing P.hashing) {s s' : σ} {parsed : ParsedBlock}
    {res : Except String BlockExecution}
    (h : processParsedBlock S P config s parsed = .ok (s', res)) :
    ∃ calls, blockCalls P config (S.view s) parsed = .ok calls ∧
      (S.view s').ledger.storage =
        applyAll (S.view s).ledger.storage (putsThenDels (writeLog calls)) := by
  rcases processParsedBlock_cases h with ⟨hnone, rfl⟩ | ⟨commit, hcommit, hs'⟩
  · exact ⟨[], blockCalls_of_blockCommit_none hnone, rfl⟩
  · obtain ⟨calls, hcalls, hwrites⟩ := storageWrites_blockCommit hcommit
    have hledger : (S.view s').ledger = (S.view s).ledger.apply commit := by
      rcases hs' with rfl | ⟨es, rfl⟩
      · exact (hS.commitBlock s commit).1
      · rw [hS.saveExecutions]
        exact (hS.commitBlock s commit).1
    refine ⟨calls, hcalls, ?_⟩
    rw [hledger, Ledger.apply, hwrites]

/-- A block whose calls return commits. -/
theorem exists_processParsedBlock_of_blockCalls {s : σ} {parsed : ParsedBlock}
    {calls : List (CallContext × CallResult)}
    (h : blockCalls P config (S.view s) parsed = .ok calls) :
    ∃ s' res, processParsedBlock S P config s parsed = .ok (s', res) := by
  have hcommit : ∃ commit, blockCommit P config (S.view s) parsed = .ok commit := by
    unfold blockCalls at h
    unfold blockCommit
    split
    · exact ⟨_, rfl⟩
    · rename_i activation hact
      rw [hact] at h
      dsimp only at h
      split at h
      · rename_i hlt
        exact ⟨_, if_pos hlt⟩
      · rename_i hge
        obtain ⟨acc, hacc, -⟩ := map_eq_ok h
        exact ⟨some acc.commit, (if_neg hge).trans (by rw [hacc]; rfl)⟩
  obtain ⟨commit, hcommit⟩ := hcommit
  exact exists_processParsedBlock hcommit

/-- The last writer of a key wins, unless it puts what another one deletes. -/
theorem StateStore.Committing.lastWriterWins_iff_not (hS : S.Committing P.hashing) (s : σ)
    (parsed : ParsedBlock) (k : ContractId × Bytes) :
    LastWriterWins S P config s parsed k ↔ ¬ PutsAfterDelete P config (S.view s) parsed k := by
  constructor
  · rintro hwins ⟨calls, hcalls, hput⟩
    obtain ⟨s', res, hs'⟩ := exists_processParsedBlock_of_blockCalls hcalls
    obtain ⟨calls', hcalls', hstorage⟩ := storage_processParsedBlock hS hs'
    obtain rfl : calls' = calls := Except.ok.inj (hcalls'.symm.trans hcalls)
    have hlast := hwins s' res calls' hs' hcalls
    rw [hS.storageGet, hstorage] at hlast
    exact (getElem?_applyAll_split_iff _ _ k).mp hlast hput
  · intro hnot s' res calls hs' hcalls
    obtain ⟨calls', hcalls', hstorage⟩ := storage_processParsedBlock hS hs'
    obtain rfl : calls' = calls := Except.ok.inj (hcalls'.symm.trans hcalls)
    rw [hS.storageGet, hstorage]
    exact (getElem?_applyAll_split_iff _ _ k).mpr fun hput => hnot ⟨calls', hcalls', hput⟩

/-- **When the last writer of a block wins**, on both backends and from any store: exactly at the
keys that the calls of the block do not put, last, after having deleted them. -/
theorem lastWriterWins_iff (P : Platform) (config : IndexerConfig) (parsed : ParsedBlock)
    (k : ContractId × Bytes) :
    (∀ s : MemoryState, LastWriterWins (MemoryState.store P.hashing) P config s parsed k ↔
      ¬ PutsAfterDelete P config ((MemoryState.store P.hashing).view s) parsed k) ∧
    ∀ s : RocksState, LastWriterWins (RocksState.store P.hashing P.json) P config s parsed k ↔
      ¬ PutsAfterDelete P config ((RocksState.store P.hashing P.json).view s) parsed k :=
  ⟨fun s => (MemoryState.committing P.hashing).lastWriterWins_iff_not s parsed k,
    fun s => (RocksState.committing P.hashing P.json).lastWriterWins_iff_not s parsed k⟩

end Writes

/-! ### A register -/

/-- The code of a register over the key `[0]`: `dispatch` with opcode 0 deletes the key, with
opcode 1 it sets it to `[0]`, and with any other opcode it deletes the key if it is there and fails
if it is not. The module imports `storage_delete`, `storage_set` and `storage_get` and has one page
of memory. -/
def registerWasm : Bytes :=
  [0x00, 0x61, 0x73, 0x6d, 0x01, 0x00, 0x00, 0x00,
    -- types
    0x01, 0x16, 0x03, 0x60, 0x02, 0x7f, 0x7f, 0x01, 0x7f, 0x60, 0x03, 0x7f, 0x7f, 0x7f, 0x01, 0x7f,
    0x60, 0x04, 0x7f, 0x7f, 0x7f, 0x7f, 0x01, 0x7f,
    -- imports
    0x02, 0x3a, 0x03, 0x03, 0x65, 0x6e, 0x76, 0x0e, 0x73, 0x74, 0x6f, 0x72, 0x61, 0x67, 0x65, 0x5f,
    0x64, 0x65, 0x6c, 0x65, 0x74, 0x65, 0x00, 0x00, 0x03, 0x65, 0x6e, 0x76, 0x0b, 0x73, 0x74, 0x6f,
    0x72, 0x61, 0x67, 0x65, 0x5f, 0x73, 0x65, 0x74, 0x00, 0x02, 0x03, 0x65, 0x6e, 0x76, 0x0b, 0x73,
    0x74, 0x6f, 0x72, 0x61, 0x67, 0x65, 0x5f, 0x67, 0x65, 0x74, 0x00, 0x01,
    -- functions, memory, exports
    0x03, 0x02, 0x01, 0x00, 0x05, 0x03, 0x01, 0x00, 0x01,
    0x07, 0x15, 0x02, 0x06, 0x6d, 0x65, 0x6d, 0x6f, 0x72, 0x79, 0x02, 0x00, 0x08, 0x64, 0x69, 0x73,
    0x70, 0x61, 0x74, 0x63, 0x68, 0x00, 0x03,
    -- code
    0x0a, 0x3b, 0x01, 0x39, 0x00, 0x20, 0x00, 0x45, 0x04, 0x7f, 0x41, 0x00, 0x41, 0x01, 0x10, 0x00,
    0x05, 0x20, 0x00, 0x41, 0x01, 0x46, 0x04, 0x7f, 0x41, 0x00, 0x41, 0x01, 0x41, 0x00, 0x41, 0x01,
    0x10, 0x01, 0x05, 0x41, 0x00, 0x41, 0x01, 0x41, 0x01, 0x10, 0x02, 0x41, 0x00, 0x48, 0x04, 0x7f,
    0x41, 0x7f, 0x05, 0x41, 0x00, 0x41, 0x01, 0x10, 0x00, 0x0b, 0x0b, 0x0b, 0x0b]

/-- The register in execution. -/
def registerDispatch (fuel : ℕ) (opcode _inputLen : Int32) : Guest :=
  let memory := some (List.replicate 65536 0)
  let finish (code : Int32) (_ : Option Bytes) := Guest.done (fuel - 20) (.ok code)
  if opcode = 0 then .call (.storageDelete 0 1) memory finish
  else if opcode = 1 then .call (.storageSet 0 1 0 1) memory finish
  else .call (.storageGet 0 1 1) memory fun code memory =>
    if code < 0 then finish (-1) memory else .call (.storageDelete 0 1) memory finish

/-- An engine as far as the register goes. -/
def registerEngine : Engine where
  Module := Unit
  parse wasm := if wasm = registerWasm then some (.ok ()) else some (.error "not the register")
  setFuel _ := none
  instantiate _ fuel := .ok (some (registerDispatch fuel))
  parseAll _ := [.ok (.importSection 3 [.ok ⟨"env", "storage_delete", .func⟩,
      .ok ⟨"env", "storage_set", .func⟩, .ok ⟨"env", "storage_get", .func⟩]),
    .ok (.functionSection 1), .ok (.memorySection [.ok 1]), .ok (.exportSection 2)]

/-- A node with this engine. -/
def registerPlatform (H : Hashing) (json : Execution → Except String Bytes) : Platform where
  hashing := H
  engine := registerEngine
  readBlock _ _ := .error "no block"
  json := json
  overflowChecks := true

/-- The id of the register. -/
def registerId : ContractId := Bytes32.replicate 9

section Register

variable {overflowChecks : Bool} {host : HostState}

/-- A slice of equal bytes. -/
theorem slice_replicate (n s e : ℕ) (b : UInt8) (hse : s ≤ e) (he : e ≤ n) :
    slice (List.replicate n b) s e = .ok (List.replicate (e - s) b) := by
  rw [slice_eq_ok hse (by rwa [List.length_replicate]), List.drop_replicate, List.take_replicate,
    min_eq_left (by omega)]

/-- Deleting the register. -/
theorem storageDelete_register (n : ℕ) (hn : 1 ≤ n) (hroom : host.overlayFull [0] = false) :
    storageDelete ⟨some (List.replicate n 0), host⟩ 0 1 =
      .ok (0, ⟨some (List.replicate n 0),
        { host with overlay := host.overlay.insert [0] none }⟩) := by
  have hkey : slice (List.replicate n 0) (asUsize 0) (saturatingAdd (asUsize 0) (asUsize 1)) =
      .ok [0] := slice_replicate n 0 1 0 (by omega) hn
  have hrange :
      ¬ saturatingAdd (asUsize 0) (asUsize 1) > (List.replicate n (0 : UInt8)).length := by
    rw [List.length_replicate]
    exact Nat.not_lt.mpr hn
  rw [storageDelete]
  dsimp only
  rw [if_neg (by decide), if_neg hrange, hkey]
  simp only [bind, Except.bind]
  rw [if_neg (by rw [hroom]; exact Bool.false_ne_true)]
  rfl

/-- Setting the register. -/
theorem storageSet_register (n : ℕ) (hn : 1 ≤ n) (hroom : host.overlayFull [0] = false) :
    storageSet ⟨some (List.replicate n 0), host⟩ 0 1 0 1 =
      .ok (0, ⟨some (List.replicate n 0),
        { host with overlay := host.overlay.insert [0] (some [0]) }⟩) := by
  have hkey : slice (List.replicate n 0) (asUsize 0) (saturatingAdd (asUsize 0) (asUsize 1)) =
      .ok [0] := slice_replicate n 0 1 0 (by omega) hn
  have hrange : ¬ (decide (saturatingAdd (asUsize 0) (asUsize 1) >
      (List.replicate n (0 : UInt8)).length) || decide (saturatingAdd (asUsize 0) (asUsize 1) >
      (List.replicate n (0 : UInt8)).length)) = true := by
    rw [List.length_replicate, Bool.or_self, decide_eq_true_iff]
    exact Nat.not_lt.mpr hn
  rw [storageSet]
  dsimp only
  rw [if_neg (by decide), if_neg (by decide), if_neg hrange, hkey]
  simp only [bind, Except.bind]
  rw [if_neg (by rw [hroom]; exact Bool.false_ne_true)]
  rfl

/-- A call of the register runs its `dispatch`. -/
theorem execute_register {ctx : CallContext} {store : StateView} (codeHash : CodeHash)
    (hdepth : ctx.depth = 0)
    (hcode : store.getContract ctx.contractId = some (codeHash, registerWasm)) :
    execute registerEngine overflowChecks ctx store =
      ((registerDispatch ctx.fuelLimit (Int32.ofNat ctx.opcode.toNat)
        (Int32.ofNat ctx.input.length)).run overflowChecks (.init ctx store)).map fun r =>
          CallResult.ofDispatch ctx.fuelLimit r.1 r.2.1 r.2.2 := by
  have hparse : parseModuleContained registerEngine registerWasm = .ok () := by
    have hpos : registerEngine.parse registerWasm = some (.ok ()) := by
      simp only [registerEngine, if_true]
    rw [parseModuleContained, hpos]
  rw [execute, hdepth, if_neg (by decide), hcode]
  dsimp only
  rw [hparse]
  change (registerDispatch ctx.fuelLimit (Int32.ofNat ctx.opcode.toNat)
    (Int32.ofNat ctx.input.length)).run overflowChecks (.init ctx store) >>= _ = _
  cases (registerDispatch ctx.fuelLimit (Int32.ofNat ctx.opcode.toNat)
    (Int32.ofNat ctx.input.length)).run overflowChecks (.init ctx store) <;> rfl

/-- A call that deletes the register. -/
theorem execute_register_delete {ctx : CallContext} {store : StateView} (codeHash : CodeHash)
    (hdepth : ctx.depth = 0) (hopcode : ctx.opcode = 0)
    (hcode : store.getContract ctx.contractId = some (codeHash, registerWasm)) :
    execute registerEngine overflowChecks ctx store = .ok (.success []
      (ctx.fuelLimit - (ctx.fuelLimit - 20)) [.delete ctx.contractId [0]]) := by
  rw [execute_register codeHash hdepth hcode, hopcode,
    show Int32.ofNat (0 : UInt16).toNat = 0 from rfl, registerDispatch, if_pos rfl, Guest.run,
    HostCall.run, storageDelete_register _ (by omega) rfl]
  rfl

/-- A call that sets the register. -/
theorem execute_register_set {ctx : CallContext} {store : StateView} (codeHash : CodeHash)
    (hdepth : ctx.depth = 0) (hopcode : ctx.opcode = 1)
    (hcode : store.getContract ctx.contractId = some (codeHash, registerWasm)) :
    execute registerEngine overflowChecks ctx store = .ok (.success []
      (ctx.fuelLimit - (ctx.fuelLimit - 20)) [.set ctx.contractId [0] [0]]) := by
  rw [execute_register codeHash hdepth hcode, hopcode,
    show Int32.ofNat (1 : UInt16).toNat = 1 from rfl, registerDispatch, if_neg (by decide),
    if_pos rfl, Guest.run, HostCall.run, storageSet_register _ (by omega) rfl]
  rfl

end Register

/-- A regtest node. -/
def regtestConfig : IndexerConfig := ⟨.regtest, none⟩

/-- The commit that deploys the register. -/
def deployRegister (H : Hashing) : BlockCommit :=
  ⟨1, Bytes32.replicate 1, [(registerId, CodeHash.of H registerWasm, registerWasm)], [], []⟩

/-- The script of a call of the register without input. -/
def registerScript (opcode : UInt16) : Bytes :=
  0x6a :: 0x2a :: protocolMagic ++ [protocolV0, msgCall] ++ registerId.bytes ++ be16 opcode ++
    be16 0

/-- A transaction that calls the register. -/
def registerTx (n : UInt8) (opcode : UInt16) : ParsedTransaction :=
  ⟨Bytes32.replicate n, [(0, registerScript opcode)], []⟩

/-- The block that makes two calls of the register. -/
def registerBlock (first second : UInt16) : ParsedBlock :=
  ⟨2, Bytes32.replicate 2, [registerTx 1 first, registerTx 2 second]⟩

/-- The context of the call of a register transaction. -/
def registerContext (height : BlockHeight) (n : UInt8) (opcode : UInt16) : CallContext :=
  (⟨Bytes32.replicate n, registerId, opcode, []⟩ : CallRequest).context height maxFuelPerCall

section RegisterBlock

variable {P : Platform} {store : StateView}

/-- The call of a register transaction, on any node. -/
theorem txCalls_registerTx (height : BlockHeight) (n : UInt8) {opcode : UInt16}
    (hmessage : outputMessage (registerScript opcode) = some (.call ⟨registerId, opcode, []⟩)) :
    txCalls P store height (registerTx n opcode) (registerTx n opcode).outputs 0 0 =
      (execute P.engine P.overflowChecks (registerContext height n opcode) store).map
        fun result => [(registerContext height n opcode, result)] := by
  have hfuel : min maxFuelPerCall (maxFuelPerZcashTx - 0) = maxFuelPerCall := by decide
  have hpos : ¬ maxFuelPerCall = 0 := by decide
  rw [registerTx, txCalls, hmessage]
  simp only [Message.request?, hfuel]
  rw [if_neg (by decide), if_neg hpos]
  change execute P.engine P.overflowChecks (registerContext height n opcode) store >>= _ = _
  cases execute P.engine P.overflowChecks (registerContext height n opcode) store <;> rfl

/-- The calls of a block of two register transactions. -/
theorem blockCalls_registerBlock {first second : UInt16}
    (hfirst : outputMessage (registerScript first) = some (.call ⟨registerId, first, []⟩))
    (hsecond : outputMessage (registerScript second) = some (.call ⟨registerId, second, []⟩))
    {result result' : CallResult}
    (hresult : execute P.engine P.overflowChecks (registerContext 2 1 first) store = .ok result)
    (hresult' : execute P.engine P.overflowChecks (registerContext 2 2 second) store =
      .ok result') :
    blockCalls P regtestConfig store (registerBlock first second) =
      .ok [(registerContext 2 1 first, result), (registerContext 2 2 second, result')] := by
  rw [blockCalls_eq rfl
    (show (1 : UInt32) ≤ 2 by decide) (by simp [registerBlock]) ?_]
  · simp only [registerBlock, List.mapM_cons, List.mapM_nil]
    rw [txCalls_registerTx 2 1 hfirst, txCalls_registerTx 2 2 hsecond, hresult, hresult']
    rfl
  · intro tx htx output houtput deploy heq
    simp only [registerBlock, List.mem_cons, List.not_mem_nil, or_false] at htx
    rcases htx with rfl | rfl <;>
      simp only [registerTx, List.mem_singleton] at houtput <;> subst houtput
    · rw [hfirst] at heq
      cases heq
    · rw [hsecond] at heq
      cases heq

/-- The store with the register. -/
def registerStore (H : Hashing) : MemoryState :=
  ((MemoryState.store H).commitBlock MemoryState.new (deployRegister H)).1

/-- The register is deployed. -/
theorem getContract_registerStore (H : Hashing) :
    ((MemoryState.store H).view (registerStore H)).getContract registerId =
      some (CodeHash.of H registerWasm, registerWasm) := by
  rw [registerStore, (MemoryState.committing H).getContract, ((MemoryState.committing H).commitBlock
    MemoryState.new (deployRegister H)).1, Ledger.getElem?_contracts_apply]
  rfl

end RegisterBlock

/-- **A delete and then a set in one block**: the key is gone after the block, whatever the hash
functions and the encoder of execution records are. -/
theorem not_lastWriterWins_deleteThenSet :
    ¬ ∃ (H : Hashing) (json : Execution → Except String Bytes),
      LastWriterWins (MemoryState.store H) (registerPlatform H json) regtestConfig
        (registerStore H) (registerBlock 0 1) (registerId, [0]) := by
  rintro ⟨H, json, hwins⟩
  have hcode := getContract_registerStore H
  refine ((MemoryState.committing H).lastWriterWins_iff_not (P := registerPlatform H json)
    _ _ _).mp hwins ⟨_, blockCalls_registerBlock rfl rfl (execute_register_delete _ rfl rfl hcode)
      (execute_register_set _ rfl rfl hcode), ⟨[0], ?_⟩, ?_⟩
  · rfl
  · exact List.mem_cons_self

end Zalkanes
