import Zalkanes.Runtime.Execute
import Zalkanes.State.Rocks

/-!
# What a Call Can Do

What a call can depend on and what it can change. It reads the store through the code and the
storage of its own contract only, it reads the block height only by asking for it, it writes only
to its own contract, and what it writes keeps to the storage limits.

Everything is derived from one inversion of the host calls (`HostCall.effect_of_run`).

## Main results

* `Guest.run_invariant`: what every host call preserves, a run preserves.
* `Guest.run_rebase`, `execute_congr`: runs and calls on another store that agrees on the contract.
* `contract_of_mem_writes`, `writes_within_limits`: the writes of a call.
* `contract_isolation`: what a call writes, what it depends on, and that no two keys alias.
-/

namespace Zalkanes

open Lib

/-- The call asks for the block height. -/
def HostCall.ReadsHeight : HostCall → Prop
  | .contextBlockHeight _ => True
  | _ => False

/-- No call of the module, whatever the host answers, asks for the block height. -/
def Guest.IgnoresHeight : Guest → Prop
  | done _ _ => True
  | call c _ resume => ¬ c.ReadsHeight ∧ ∀ code memory, (resume code memory).IgnoresHeight

/-- No entry point of the code asks for the block height. -/
def Engine.IgnoresHeight (E : Engine) (wasm : Bytes) : Prop :=
  ∀ m fuel dispatch, parseModuleContained E wasm = .ok m →
    E.instantiate m fuel = .ok (some dispatch) →
    ∀ opcode inputLen, (dispatch opcode inputLen).IgnoresHeight

/-- Two stores have the same code and the same storage for a contract. -/
def StateView.AgreeOn (id : ContractId) (state state' : StateView) : Prop :=
  state'.getContract id = state.getContract id ∧
    ∀ key, state'.storageGet id key = state.storageGet id key

/-! ### Host calls -/

/-- The state of a call, over another store and at another height. -/
def HostState.rebase (host : HostState) (base : StateView) (height : BlockHeight) : HostState :=
  { host with base := base, blockHeight := height }

/-- The same call on another store. -/
def Caller.rebase (caller : Caller) (base : StateView) (height : BlockHeight) : Caller :=
  { caller with data := caller.data.rebase base height }

section Rebase

variable {base : StateView} {height : BlockHeight}

/-- It looks up the same, if the stores agree on the contract. -/
theorem HostState.lookup_rebase {host : HostState}
    (hbase : ∀ key, base.storageGet host.contractId key = host.base.storageGet host.contractId key)
    (key : Bytes) : (host.rebase base height).lookup key = host.lookup key := by
  unfold HostState.lookup HostState.rebase
  dsimp only
  rw [hbase key]

section HostFunctions

variable {caller : Caller}

/-- Only `storage_get` reads the store, and only `context_block_height` the height. -/
theorem storageGet_rebase
    (hbase : ∀ key, base.storageGet caller.data.contractId key =
      caller.data.base.storageGet caller.data.contractId key)
    (keyPtr keyLen valPtr : Int32) :
    storageGet (caller.rebase base height) keyPtr keyLen valPtr =
      (storageGet caller keyPtr keyLen valPtr).map fun r => (r.1, r.2.rebase base height) := by
  obtain ⟨memory, host⟩ := caller
  simp only [storageGet, Caller.rebase]
  cases memory with
  | none => rfl
  | some data =>
      dsimp only
      split_ifs
      · rfl
      · cases slice data (asUsize keyPtr) (saturatingAdd (asUsize keyPtr) (asUsize keyLen)) with
        | error p => rfl
        | ok key =>
            simp only [bind, Except.bind, HostState.lookup_rebase hbase]
            cases host.lookup key with
            | none => rfl
            | some v =>
                dsimp only
                cases checkedAdd (asUsize valPtr) v.length with
                | none => rfl
                | some stop =>
                    dsimp only
                    split_ifs
                    · rfl
                    · cases copyFromSlice data (asUsize valPtr) stop v <;> rfl

/-- `storage_set` does the same on another store. -/
theorem storageSet_rebase (keyPtr keyLen valPtr valLen : Int32) :
    storageSet (caller.rebase base height) keyPtr keyLen valPtr valLen =
      (storageSet caller keyPtr keyLen valPtr valLen).map fun r =>
        (r.1, r.2.rebase base height) := by
  obtain ⟨memory, host⟩ := caller
  simp only [storageSet, Caller.rebase]
  split_ifs
  · rfl
  · rfl
  · cases memory with
    | none => rfl
    | some data =>
        dsimp only
        split_ifs
        · rfl
        · cases slice data (asUsize keyPtr) (saturatingAdd (asUsize keyPtr) (asUsize keyLen)) with
          | error p => rfl
          | ok key =>
              simp only [bind, Except.bind]
              cases slice data (asUsize valPtr)
                (saturatingAdd (asUsize valPtr) (asUsize valLen)) with
              | error p => rfl
              | ok val =>
                  dsimp only
                  by_cases hfull : host.overlayFull key
                  · rw [if_pos hfull]
                    exact if_pos hfull
                  · rw [if_neg hfull]
                    exact if_neg hfull

/-- `storage_delete` does the same on another store. -/
theorem storageDelete_rebase (keyPtr keyLen : Int32) :
    storageDelete (caller.rebase base height) keyPtr keyLen =
      (storageDelete caller keyPtr keyLen).map fun r => (r.1, r.2.rebase base height) := by
  obtain ⟨memory, host⟩ := caller
  simp only [storageDelete, Caller.rebase]
  cases memory with
  | none => rfl
  | some data =>
      dsimp only
      split_ifs
      · rfl
      · rfl
      · cases slice data (asUsize keyPtr) (saturatingAdd (asUsize keyPtr) (asUsize keyLen)) with
        | error p => rfl
        | ok key =>
            simp only [bind, Except.bind]
            by_cases hfull : host.overlayFull key
            · rw [if_pos hfull]
              exact if_pos hfull
            · rw [if_neg hfull]
              exact if_neg hfull

/-- `output_write` does the same on another store. -/
theorem outputWrite_rebase (ptr len : Int32) :
    outputWrite (caller.rebase base height) ptr len =
      (outputWrite caller ptr len).map fun r => (r.1, r.2.rebase base height) := by
  obtain ⟨memory, host⟩ := caller
  simp only [outputWrite, Caller.rebase]
  split_ifs
  · rfl
  · cases memory with
    | none => rfl
    | some data =>
        dsimp only
        split_ifs
        · rfl
        · cases slice data (asUsize ptr) (saturatingAdd (asUsize ptr) (asUsize len)) <;> rfl

/-- `context_block_height` does the same on another store at the same height. -/
theorem contextBlockHeight_rebase (hheight : height = caller.data.blockHeight) (outPtr : Int32) :
    contextBlockHeight (caller.rebase base height) outPtr =
      (contextBlockHeight caller outPtr).map fun r => (r.1, r.2.rebase base height) := by
  obtain ⟨memory, host⟩ := caller
  subst hheight
  simp only [contextBlockHeight, Caller.rebase, HostState.rebase]
  cases memory with
  | none => rfl
  | some data =>
      dsimp only
      cases checkedAdd (asUsize outPtr) 4 with
      | none => rfl
      | some e =>
          dsimp only
          split_ifs
          · rfl
          · cases copyFromSlice data (asUsize outPtr) e (be32 host.blockHeight) <;> rfl

/-- `input_read` does the same on another store. -/
theorem inputRead_rebase (overflowChecks : Bool) (outPtr offset len : Int32) :
    inputRead overflowChecks (caller.rebase base height) outPtr offset len =
      (inputRead overflowChecks caller outPtr offset len).map fun r =>
        (r.1, r.2.rebase base height) := by
  obtain ⟨memory, host⟩ := caller
  simp only [inputRead, Caller.rebase, HostState.rebase]
  by_cases hoff : asUsize offset ≥ host.input.length
  · refine (if_pos hoff).trans ?_
    rw [if_pos hoff]
    rfl
  · refine (if_neg hoff).trans ?_
    rw [if_neg hoff]
    cases plainAdd overflowChecks (asUsize offset) (asUsize len) with
    | error p => rfl
    | ok stop =>
        simp only [bind, Except.bind]
        cases slice host.input (asUsize offset) (min host.input.length stop) with
        | error p => rfl
        | ok bytes =>
            dsimp only
            cases memory with
            | none => rfl
            | some data =>
                dsimp only
                cases checkedAdd (asUsize outPtr) bytes.length with
                | none => rfl
                | some e =>
                    dsimp only
                    split_ifs
                    · rfl
                    · cases copyFromSlice data (asUsize outPtr) e bytes <;> rfl

end HostFunctions

/-- A host call does the same over another store that has the same storage for the contract. -/
theorem HostCall.run_rebase (overflowChecks : Bool) (c : HostCall) (caller : Caller)
    (hbase : ∀ key, base.storageGet caller.data.contractId key =
      caller.data.base.storageGet caller.data.contractId key)
    (hheight : height = caller.data.blockHeight ∨ ¬ c.ReadsHeight) :
    c.run overflowChecks (caller.rebase base height) =
      (c.run overflowChecks caller).map fun r => (r.1, r.2.rebase base height) := by
  cases c with
  | storageGet keyPtr keyLen valPtr => exact storageGet_rebase hbase keyPtr keyLen valPtr
  | storageSet keyPtr keyLen valPtr valLen => exact storageSet_rebase keyPtr keyLen valPtr valLen
  | storageDelete keyPtr keyLen => exact storageDelete_rebase keyPtr keyLen
  | outputWrite ptr len => exact outputWrite_rebase ptr len
  | contextBlockHeight outPtr =>
      exact contextBlockHeight_rebase (hheight.resolve_right fun h => h trivial) outPtr
  | inputRead outPtr offset len => exact inputRead_rebase overflowChecks outPtr offset len

end Rebase

/-! ### What a host call can do -/

/-- What a host call can do: change the memory, put an entry of bounded lengths into an overlay
with room for it, or set the output. -/
inductive Caller.Effect (caller : Caller) : Caller → Prop
  | memory (m : Option Bytes) : Effect caller { caller with memory := m }
  | overlay (key : Bytes) (value : Option Bytes)
      (hkey : key.length ≤ maxStorageKeyBytes.toNat)
      (hvalue : ∀ v, value = some v → v.length ≤ maxStorageValueBytes.toNat)
      (hroom : ¬ caller.data.overlayFull key) :
      Effect caller { caller with data := { caller.data with
        overlay := caller.data.overlay.insert key value } }
  | output (out : Bytes) (hout : out.length ≤ maxReturnDataBytes.toNat) :
      Effect caller { caller with data := { caller.data with output := out } }

/-- Refusing has no effect. -/
theorem Caller.effect_of_refuse {caller caller' : Caller} {code : Int32}
    (h : caller.refuse = .ok (code, caller')) : caller.Effect caller' := by
  obtain ⟨-, rfl⟩ := Prod.mk.inj (Except.ok.inj h)
  exact .memory caller.memory

section Effects

variable {caller caller' : Caller} {code : Int32}

/-- `storage_get` has no effect but in the memory. -/
theorem effect_of_storageGet {keyPtr keyLen valPtr : Int32}
    (h : storageGet caller keyPtr keyLen valPtr = .ok (code, caller')) : caller.Effect caller' := by
  simp only [storageGet] at h
  split at h
  · exact Caller.effect_of_refuse h
  split at h
  · exact Caller.effect_of_refuse h
  obtain ⟨key, -, h⟩ := bind_eq_ok h
  split at h
  · exact Caller.effect_of_refuse h
  split at h
  · exact Caller.effect_of_refuse h
  split at h
  · exact Caller.effect_of_refuse h
  obtain ⟨data, -, h⟩ := bind_eq_ok h
  obtain ⟨-, rfl⟩ := Prod.mk.inj (Except.ok.inj h)
  exact .memory _

/-- `storage_set` writes one key within the limits. -/
theorem effect_of_storageSet {keyPtr keyLen valPtr valLen : Int32}
    (h : storageSet caller keyPtr keyLen valPtr valLen = .ok (code, caller')) :
    caller.Effect caller' := by
  simp only [storageSet] at h
  split at h
  · exact Caller.effect_of_refuse h
  rename_i hkeyLen
  split at h
  · exact Caller.effect_of_refuse h
  rename_i hvalLen
  split at h
  · exact Caller.effect_of_refuse h
  split at h
  · exact Caller.effect_of_refuse h
  obtain ⟨key, hkey, h⟩ := bind_eq_ok h
  obtain ⟨val, hval, h⟩ := bind_eq_ok h
  split at h
  · exact Caller.effect_of_refuse h
  · rename_i hroom
    obtain ⟨-, rfl⟩ := Prod.mk.inj (Except.ok.inj h)
    refine .overlay key (some val) ?_ ?_ hroom
    · exact length_of_slice_saturating (by decide) (UInt32.not_lt.mp hkeyLen) hkey
    · rintro v ⟨⟩
      exact length_of_slice_saturating (by decide) (UInt32.not_lt.mp hvalLen) hval

/-- `storage_delete` writes one key within the limits. -/
theorem effect_of_storageDelete {keyPtr keyLen : Int32}
    (h : storageDelete caller keyPtr keyLen = .ok (code, caller')) : caller.Effect caller' := by
  simp only [storageDelete] at h
  split at h
  · exact Caller.effect_of_refuse h
  split at h
  · exact Caller.effect_of_refuse h
  rename_i hkeyLen
  split at h
  · exact Caller.effect_of_refuse h
  obtain ⟨key, hkey, h⟩ := bind_eq_ok h
  split at h
  · exact Caller.effect_of_refuse h
  · rename_i hroom
    obtain ⟨-, rfl⟩ := Prod.mk.inj (Except.ok.inj h)
    refine .overlay key none ?_ (by simp) hroom
    exact length_of_slice_saturating (by decide) (UInt32.not_lt.mp hkeyLen) hkey

/-- `output_write` sets an output within the limits. -/
theorem effect_of_outputWrite {ptr len : Int32}
    (h : outputWrite caller ptr len = .ok (code, caller')) : caller.Effect caller' := by
  simp only [outputWrite] at h
  split at h
  · exact Caller.effect_of_refuse h
  rename_i hlen
  split at h
  · exact Caller.effect_of_refuse h
  split at h
  · exact Caller.effect_of_refuse h
  obtain ⟨out, hout, h⟩ := bind_eq_ok h
  obtain ⟨-, rfl⟩ := Prod.mk.inj (Except.ok.inj h)
  exact .output out (length_of_slice_saturating (by decide) (UInt32.not_lt.mp hlen) hout)

/-- `context_block_height` has no effect but in the memory. -/
theorem effect_of_contextBlockHeight {outPtr : Int32}
    (h : contextBlockHeight caller outPtr = .ok (code, caller')) : caller.Effect caller' := by
  simp only [contextBlockHeight] at h
  split at h
  · exact Caller.effect_of_refuse h
  split at h
  · exact Caller.effect_of_refuse h
  split at h
  · exact Caller.effect_of_refuse h
  obtain ⟨data, -, h⟩ := bind_eq_ok h
  obtain ⟨-, rfl⟩ := Prod.mk.inj (Except.ok.inj h)
  exact .memory _

/-- `input_read` has no effect but in the memory. -/
theorem effect_of_inputRead {overflowChecks : Bool} {outPtr offset len : Int32}
    (h : inputRead overflowChecks caller outPtr offset len = .ok (code, caller')) :
    caller.Effect caller' := by
  simp only [inputRead] at h
  split at h
  · obtain ⟨-, rfl⟩ := Prod.mk.inj (Except.ok.inj h)
    exact .memory caller.memory
  obtain ⟨stop, -, h⟩ := bind_eq_ok h
  obtain ⟨bytes, -, h⟩ := bind_eq_ok h
  split at h
  · exact Caller.effect_of_refuse h
  split at h
  · exact Caller.effect_of_refuse h
  split at h
  · exact Caller.effect_of_refuse h
  obtain ⟨data, -, h⟩ := bind_eq_ok h
  obtain ⟨-, rfl⟩ := Prod.mk.inj (Except.ok.inj h)
  exact .memory _

/-- **Every host call has one of these effects.** -/
theorem HostCall.effect_of_run {overflowChecks : Bool} {c : HostCall}
    (h : c.run overflowChecks caller = .ok (code, caller')) : caller.Effect caller' := by
  cases c with
  | storageGet keyPtr keyLen valPtr => exact effect_of_storageGet h
  | storageSet keyPtr keyLen valPtr valLen => exact effect_of_storageSet h
  | storageDelete keyPtr keyLen => exact effect_of_storageDelete h
  | outputWrite ptr len => exact effect_of_outputWrite h
  | contextBlockHeight outPtr => exact effect_of_contextBlockHeight h
  | inputRead outPtr offset len => exact effect_of_inputRead h

end Effects

/-! ### Runs -/

/-- **The invariant rule of a run**: what every host call preserves, the run preserves. -/
theorem Guest.run_invariant {I : HostState → Prop}
    (hstep : ∀ caller caller' : Caller, caller.Effect caller' → I caller.data → I caller'.data)
    {overflowChecks : Bool} {g : Guest} {host host' : HostState} {fuelLeft : ℕ}
    {result : Except String Int32}
    (h : g.run overflowChecks host = .ok (fuelLeft, result, host')) (hI : I host) : I host' := by
  induction g generalizing host with
  | done fuelLeft result =>
      obtain ⟨-, h⟩ := Prod.mk.inj (Except.ok.inj h)
      obtain ⟨-, rfl⟩ := Prod.mk.inj h
      exact hI
  | call c memory resume ih =>
      obtain ⟨⟨code, caller⟩, hcall, h⟩ := bind_eq_ok h
      exact ih code caller.memory h (hstep _ _ (HostCall.effect_of_run hcall) hI)

/-- What a run leaves of the state of its call. -/
theorem Guest.run_frame {overflowChecks : Bool} {g : Guest} {host host' : HostState}
    {fuelLeft : ℕ} {result : Except String Int32}
    (h : g.run overflowChecks host = .ok (fuelLeft, result, host')) :
    host'.contractId = host.contractId ∧ host'.base = host.base :=
  Guest.run_invariant (I := fun s => s.contractId = host.contractId ∧ s.base = host.base)
    (fun caller caller' heff hI => by cases heff <;> exact hI) h ⟨rfl, rfl⟩

/-- **A run reads the store through the storage of its contract only**, and the block height only
if the module asks for it. -/
theorem Guest.run_rebase {overflowChecks : Bool} {base : StateView} {height : BlockHeight}
    {g : Guest} {host : HostState}
    (hbase : ∀ key, base.storageGet host.contractId key =
      host.base.storageGet host.contractId key)
    (hheight : height = host.blockHeight ∨ g.IgnoresHeight) :
    g.run overflowChecks (host.rebase base height) =
      (g.run overflowChecks host).map fun r => (r.1, r.2.1, r.2.2.rebase base height) := by
  induction g generalizing host with
  | done fuelLeft result => rfl
  | call c memory resume ih =>
      have hcall := HostCall.run_rebase overflowChecks c ⟨memory, host⟩ hbase
        (hheight.imp_right fun h => h.1)
      simp only [Guest.run]
      rw [show Caller.mk memory (host.rebase base height) =
        (Caller.mk memory host).rebase base height from rfl, hcall]
      cases hres : c.run overflowChecks ⟨memory, host⟩ with
      | error p => rfl
      | ok r =>
          obtain ⟨code, caller⟩ := r
          have hframe : caller.data.contractId = host.contractId ∧ caller.data.base = host.base ∧
              caller.data.blockHeight = host.blockHeight := by
            have heff := HostCall.effect_of_run hres
            cases heff <;> exact ⟨rfl, rfl, rfl⟩
          obtain ⟨hid, hstore, hh⟩ := hframe
          refine @ih code caller.memory caller.data ?_ ?_
          · rw [hid, hstore]
            exact hbase
          · rw [hh]
            exact hheight.imp_right fun h => h.2 code caller.memory

/-! ### Calls -/

/-- **A call depends on the store only through the code and the storage of its contract**, and on
the block height only if the code asks for it. -/
theorem execute_congr (E : Engine) (overflowChecks : Bool) (ctx : CallContext)
    {state state' : StateView} {height : BlockHeight} (hagree : state.AgreeOn ctx.contractId state')
    (hheight : height = ctx.blockHeight ∨
      ∀ codeHash wasm, state.getContract ctx.contractId = some (codeHash, wasm) →
        E.IgnoresHeight wasm) :
    execute E overflowChecks { ctx with blockHeight := height } state' =
      execute E overflowChecks ctx state := by
  unfold execute
  dsimp only
  rw [hagree.1]
  split
  · rfl
  cases hcode : state.getContract ctx.contractId with
  | none => rfl
  | some contract =>
      obtain ⟨codeHash, wasm⟩ := contract
      dsimp only
      cases hparse : parseModuleContained E wasm with
      | error reason => rfl
      | ok m =>
          dsimp only
          cases E.setFuel ctx.fuelLimit with
          | some e => rfl
          | none =>
              dsimp only
              cases hinst : E.instantiate m ctx.fuelLimit with
              | error e => rfl
              | ok dispatch =>
                  cases dispatch with
                  | none => rfl
                  | some dispatch =>
                      dsimp only
                      rw [show HostState.init { ctx with blockHeight := height } state' =
                        (HostState.init ctx state).rebase state' height from rfl,
                        Guest.run_rebase hagree.2 (hheight.imp_right fun h =>
                          h codeHash wasm hcode m ctx.fuelLimit dispatch hparse hinst _ _)]
                      cases (dispatch (Int32.ofNat ctx.opcode.toNat)
                        (Int32.ofNat ctx.input.length)).run overflowChecks
                          (HostState.init ctx state) <;> rfl

/-- The call runs this guest: its contract's code parses, instantiates and exports `dispatch`. -/
def CallRuns (E : Engine) (ctx : CallContext) (state : StateView) (g : Guest) : Prop :=
  ∃ codeHash wasm m dispatch, state.getContract ctx.contractId = some (codeHash, wasm) ∧
    parseModuleContained E wasm = .ok m ∧ E.instantiate m ctx.fuelLimit = .ok (some dispatch) ∧
    g = dispatch (Int32.ofNat ctx.opcode.toNat) (Int32.ofNat ctx.input.length)

/-- A successful call comes from a run of the module. -/
theorem exists_run_of_execute_success {E : Engine} {overflowChecks : Bool} {ctx : CallContext}
    {state : StateView} {output : Bytes} {fuelUsed : ℕ} {writes : List StorageWrite}
    (h : execute E overflowChecks ctx state = .ok (.success output fuelUsed writes)) :
    ∃ (g : Guest) (fuelLeft : ℕ) (host : HostState), CallRuns E ctx state g ∧
      g.run overflowChecks (.init ctx state) = .ok (fuelLeft, .ok 0, host) ∧
        output = host.output ∧ fuelUsed = ctx.fuelLimit - fuelLeft ∧ writes = host.writes := by
  unfold execute at h
  split at h
  · cases h
  split at h
  · cases h
  rename_i codeHash wasm hcode
  split at h
  · cases h
  rename_i m hparse
  split at h
  · cases h
  split at h
  · cases h
  · cases h
  · rename_i dispatch hinstantiate
    obtain ⟨⟨fuelLeft, result, host⟩, hrun, h⟩ := bind_eq_ok h
    refine ⟨dispatch (Int32.ofNat ctx.opcode.toNat) (Int32.ofNat ctx.input.length), fuelLeft, host,
      ⟨codeHash, wasm, m, dispatch, hcode, hparse, hinstantiate, rfl⟩, ?_⟩
    have hres := Except.ok.inj h
    unfold CallResult.ofDispatch at hres
    dsimp only at hres
    split at hres
    · split at hres
      · rename_i hcode
        subst hcode
        injection hres with houtput hfuel hwrites
        exact ⟨hrun, houtput.symm, hfuel.symm, hwrites.symm⟩
      · cases hres
    · split at hres <;> cases hres

/-- The contract a write is to. -/
def StorageWrite.contract : StorageWrite → ContractId
  | set cid _ _ => cid
  | delete cid _ => cid

/-- The writes a call produces: none unless it succeeds. -/
def CallResult.writes : CallResult → List StorageWrite
  | success _ _ writes => writes
  | _ => []

/-- **The writes of a call are to its own contract.** -/
theorem contract_of_mem_writes {E : Engine} {overflowChecks : Bool} {ctx : CallContext}
    {state : StateView} {result : CallResult}
    (h : execute E overflowChecks ctx state = .ok result) :
    ∀ w ∈ result.writes, w.contract = ctx.contractId := by
  intro w hw
  cases result with
  | success output fuelUsed writes =>
      obtain ⟨g, fuelLeft, host, -, hrun, -, -, hwrites⟩ := exists_run_of_execute_success h
      have hid : host.contractId = ctx.contractId := (Guest.run_frame hrun).1
      have hw : w ∈ host.writes := hwrites ▸ hw
      obtain ⟨⟨key, val⟩, -, rfl⟩ := List.mem_map.mp hw
      cases val <;> exact hid
  | trap reason fuelUsed => cases hw
  | fuelExhausted fuelUsed => cases hw
  | invalidModule reason => cases hw
  | contractNotFound => cases hw

/-! ### Storage limits -/

/-- A write within the storage limits. -/
def StorageWrite.WithinLimits : StorageWrite → Prop
  | set _ key value => key.length ≤ maxStorageKeyBytes.toNat ∧
      value.length ≤ maxStorageValueBytes.toNat
  | delete _ key => key.length ≤ maxStorageKeyBytes.toNat

/-- The overlay keeps to the storage limits. -/
structure HostState.WithinLimits (host : HostState) : Prop where
  size : host.overlay.size ≤ maxStorageWritesPerCall.toNat
  entries : ∀ (key : Bytes) (value : Option Bytes), host.overlay[key]? = some value →
    key.length ≤ maxStorageKeyBytes.toNat ∧
      ∀ v, value = some v → v.length ≤ maxStorageValueBytes.toNat

/-- What is within the limits stays within them. -/
theorem Caller.Effect.withinLimits {caller caller' : Caller} (h : caller.Effect caller')
    (hlim : caller.data.WithinLimits) : caller'.data.WithinLimits := by
  cases h with
  | memory m => exact ⟨hlim.size, hlim.entries⟩
  | overlay key value hkey hvalue hroom =>
      constructor
      · have hsize := hlim.size
        simp only [HostState.overlayFull, Bool.and_eq_true, decide_eq_true_eq,
          Bool.not_eq_true', not_and, Bool.not_eq_false] at hroom
        simp only [Std.ExtTreeMap.size_insert]
        split
        · exact hsize
        · rename_i hnew
          by_contra hfull
          exact hnew (Std.ExtTreeMap.contains_iff_mem.mp (hroom (by omega)))
      · intro key' value' hget
        simp only [Std.ExtTreeMap.getElem?_insert] at hget
        split at hget
        · rename_i heq
          obtain rfl := Std.LawfulEqCmp.eq_of_compare heq
          obtain rfl := Option.some.inj hget
          exact ⟨hkey, hvalue⟩
        · exact hlim.entries key' value' hget
  | output out hout => exact ⟨hlim.size, hlim.entries⟩

/-- **The writes of a call keep to the storage limits**, and there are no more of them than the
limit allows. -/
theorem writes_within_limits {E : Engine} {overflowChecks : Bool} {ctx : CallContext}
    {state : StateView} {result : CallResult}
    (h : execute E overflowChecks ctx state = .ok result) :
    result.writes.length ≤ maxStorageWritesPerCall.toNat ∧
      ∀ w ∈ result.writes, w.WithinLimits := by
  cases result with
  | success output fuelUsed writes =>
      obtain ⟨g, fuelLeft, host, -, hrun, -, -, rfl⟩ := exists_run_of_execute_success h
      have hinit : (HostState.init ctx state).WithinLimits :=
        ⟨by simp [HostState.init], by simp [HostState.init]⟩
      have hlim := Guest.run_invariant (fun _ _ heff hI => heff.withinLimits hI) hrun hinit
      constructor
      · change host.writes.length ≤ _
        rw [HostState.writes, List.length_map, Std.ExtTreeMap.length_toList]
        exact hlim.size
      · intro w hw
        obtain ⟨⟨key, val⟩, hmem, rfl⟩ := List.mem_map.mp hw
        obtain ⟨hkey, hval⟩ :=
          hlim.entries key val (Std.ExtTreeMap.mem_toList_iff_getElem?_eq_some.mp hmem)
        cases val with
        | none => exact hkey
        | some v => exact ⟨hkey, hval v rfl⟩
  | trap reason fuelUsed => exact ⟨Nat.zero_le _, by simp [CallResult.writes]⟩
  | fuelExhausted fuelUsed => exact ⟨Nat.zero_le _, by simp [CallResult.writes]⟩
  | invalidModule reason => exact ⟨Nat.zero_le _, by simp [CallResult.writes]⟩
  | contractNotFound => exact ⟨Nat.zero_le _, by simp [CallResult.writes]⟩

/-! ### Contract isolation -/

/-- The writes of a successful call are to the keys of its contract. -/
def WritesOwnKeys (E : Engine) (overflowChecks : Bool) : Prop :=
  ∀ ctx store output fuelUsed writes,
    execute E overflowChecks ctx store = .ok (.success output fuelUsed writes) →
    ∀ w ∈ writes, w.contract = ctx.contractId

/-- A call does the same on two stores that have the same code and storage for its contract. -/
def ReadsOwnStorage (E : Engine) (overflowChecks : Bool) : Prop :=
  ∀ (ctx : CallContext) (store store' : StateView), store.AgreeOn ctx.contractId store' →
    execute E overflowChecks ctx store' = execute E overflowChecks ctx store

/-- **Contract isolation**, for every engine, and so for every contract program. -/
theorem contract_isolation (E : Engine) (overflowChecks : Bool) :
    WritesOwnKeys E overflowChecks ∧ ReadsOwnStorage E overflowChecks ∧
      Function.Injective DbKey.bytes := by
  refine ⟨?_, ?_, DbKey.bytes_injective⟩
  · intro ctx store output fuelUsed writes h
    exact contract_of_mem_writes h
  · intro ctx store store' hagree
    exact execute_congr _ _ _ hagree (Or.inl (Eq.refl ctx.blockHeight))

end Zalkanes
