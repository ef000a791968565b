import Zalkanes.Indexer.Block
import Zalkanes.State.Backend

/-!
# The Overlay and Direct Storage

A call buffers its writes in an overlay. The reference here has no buffer: what a host call asks for
is read from its arguments and the memory of the module, and every accepted write is applied at once
to a private copy of the storage of the contract (`DirectState`). The overlay computes the
reference, and what is committed after a successful call is the copy.

## Main results

* `DirectState.step_direct`: a host call over the overlay is the host call over the copy.
* `Guest.runDirect_direct`: so is a run.
* `overlay_refines_direct_storage`: what is committed after a call.
-/

namespace Zalkanes

open Lib

/-! ### The reference -/

/-- The bytes that the memory of a module holds from a pointer on, for a length, if they are inside
it. An end past the address space stands for its last address. -/
def bytesAt (memory : Option Bytes) (ptr len : Int32) : Option Bytes :=
  memory.bind fun data =>
    let stop := min (asUsize ptr + asUsize len) (2 ^ 64 - 1)
    if stop ≤ data.length then some ((data.drop (asUsize ptr)).take (stop - asUsize ptr)) else none

/-- The memory of a module after bytes are put at a pointer, if they fit into it. -/
def putAt (memory : Option Bytes) (ptr : Int32) (bytes : Bytes) : Option Bytes :=
  memory.bind fun data =>
    let stop := asUsize ptr + bytes.length
    if stop < 2 ^ 64 ∧ stop ≤ data.length then
      some (data.take (asUsize ptr) ++ bytes ++ data.drop stop)
    else none

/-- The state of a call that writes to a private copy of the storage of its contract. -/
structure DirectState where
  contractId : ContractId
  input : Bytes
  output : Bytes
  blockHeight : BlockHeight
  /-- The private copy. -/
  storage : Bytes → Option Bytes
  /-- The keys written so far; how many there may be is capped. -/
  written : Finset Bytes

namespace DirectState

/-- The call without its storage, as the host functions see it that have nothing to do with it. -/
def host (d : DirectState) : HostState where
  contractId := d.contractId
  input := d.input
  output := d.output
  blockHeight := d.blockHeight
  overlay := ∅
  base := ⟨fun _ => false, fun _ => none, fun _ _ => none, [], []⟩

/-- Apply a write to the copy. -/
def write (d : DirectState) (key : Bytes) (value : Option Bytes) : DirectState :=
  { d with storage := Function.update d.storage key value, written := insert key d.written }

/-- A write to the key would be one key too many. -/
def Full (d : DirectState) (key : Bytes) : Prop :=
  maxStorageWritesPerCall.toNat ≤ d.written.card ∧ key ∉ d.written

instance (d : DirectState) (key : Bytes) : Decidable (d.Full key) :=
  inferInstanceAs (Decidable (_ ∧ _))

/-- `storage_get` over the copy: the value that the copy has under the key that the memory has at
the pointer, if there is one and it fits. -/
def get (d : DirectState) (memory : Option Bytes) (keyPtr keyLen valPtr : Int32) :
    Int32 × Option Bytes × DirectState :=
  match (bytesAt memory keyPtr keyLen).bind d.storage with
  | none => (-1, memory, d)
  | some value =>
      match putAt memory valPtr value with
      | none => (-1, memory, d)
      | some data => (Int32.ofNat value.length, some data, d)

/-- `storage_set` over the copy: a key and a value of allowed lengths that the memory has at the
pointers are accepted if there is room for the key, and then the copy has the value. -/
def set (d : DirectState) (memory : Option Bytes) (keyPtr keyLen valPtr valLen : Int32) :
    Int32 × Option Bytes × DirectState :=
  match bytesAt memory keyPtr keyLen, bytesAt memory valPtr valLen with
  | some key, some value =>
      if keyLen.toUInt32 ≤ maxStorageKeyBytes ∧ valLen.toUInt32 ≤ maxStorageValueBytes ∧
          ¬ d.Full key then (0, memory, d.write key (some value))
      else (-1, memory, d)
  | _, _ => (-1, memory, d)

/-- `storage_delete` over the copy: a key of allowed length is accepted if there is room for it, and
then the copy has nothing under it. -/
def delete (d : DirectState) (memory : Option Bytes) (keyPtr keyLen : Int32) :
    Int32 × Option Bytes × DirectState :=
  match bytesAt memory keyPtr keyLen with
  | some key =>
      if keyLen.toUInt32 ≤ maxStorageKeyBytes ∧ ¬ d.Full key then (0, memory, d.write key none)
      else (-1, memory, d)
  | none => (-1, memory, d)

/-- **A host call over the copy**: its status, the memory and the copy after it. A call that has
nothing to do with storage leaves the copy alone. -/
def step (overflowChecks : Bool) (c : HostCall) (memory : Option Bytes) (d : DirectState) :
    Except Panic (Int32 × Option Bytes × DirectState) :=
  match c with
  | .storageGet keyPtr keyLen valPtr => .ok (d.get memory keyPtr keyLen valPtr)
  | .storageSet keyPtr keyLen valPtr valLen => .ok (d.set memory keyPtr keyLen valPtr valLen)
  | .storageDelete keyPtr keyLen => .ok (d.delete memory keyPtr keyLen)
  | c => (c.run overflowChecks ⟨memory, d.host⟩).map fun (code, caller) =>
      (code, caller.memory, { d with output := caller.data.output })

/-- The state a call starts in. -/
def init (ctx : CallContext) (state : StateView) : DirectState where
  contractId := ctx.contractId
  input := ctx.input
  output := []
  blockHeight := ctx.blockHeight
  storage := state.storageGet ctx.contractId
  written := ∅

end DirectState

/-- Run a module over the copy. -/
def Guest.runDirect (overflowChecks : Bool) :
    Guest → DirectState → Except Panic (ℕ × Except String Int32 × DirectState)
  | done fuelLeft result, d => .ok (fuelLeft, result, d)
  | call c memory resume, d => do
      let (code, memory, d) ← d.step overflowChecks c memory
      (resume code memory).runDirect overflowChecks d

/-! ### The simulation -/

/-- What the overlay stands for. -/
def HostState.direct (host : HostState) : DirectState where
  contractId := host.contractId
  input := host.input
  output := host.output
  blockHeight := host.blockHeight
  storage := host.lookup
  written := host.overlay.keys.toFinset

/-- The keys that were written are those of the overlay. -/
theorem HostState.mem_written {host : HostState} {key : Bytes} :
    key ∈ host.direct.written ↔ key ∈ host.overlay := by
  rw [HostState.direct, List.mem_toFinset, Std.ExtTreeMap.mem_keys]

/-- Both states run out of room for a key at the same time. -/
theorem HostState.overlayFull_iff (host : HostState) (key : Bytes) :
    host.overlayFull key ↔ host.direct.Full key := by
  have hcard : host.direct.written.card = host.overlay.size := by
    rw [HostState.direct, List.toFinset_card_of_nodup, Std.ExtTreeMap.length_keys]
    exact Std.ExtTreeMap.nodup_keys
  rw [HostState.overlayFull, Bool.and_eq_true, decide_eq_true_iff, Bool.not_eq_true',
    ← Bool.not_eq_true, Std.ExtTreeMap.contains_iff_mem, DirectState.Full, hcard,
    HostState.mem_written]

/-- A write to the overlay is a write to the copy. -/
theorem HostState.direct_insert (host : HostState) (key : Bytes) (value : Option Bytes) :
    HostState.direct { host with overlay := host.overlay.insert key value } =
      host.direct.write key value := by
  have hstorage : HostState.lookup { host with overlay := host.overlay.insert key value } =
      Function.update host.lookup key value := by
    funext key'
    rw [HostState.lookup, Std.ExtTreeMap.getElem?_insert, Function.update_apply]
    by_cases hkey : key = key'
    · rw [if_pos (by rw [hkey, Std.ReflOrd.compare_self]), if_pos hkey.symm]
    · rw [if_neg (fun h => hkey (Std.LawfulEqOrd.eq_of_compare h)), if_neg (Ne.symm hkey)]
      rfl
  have hwritten : (host.overlay.insert key value).keys.toFinset =
      insert key host.overlay.keys.toFinset := by
    ext key'
    rw [List.mem_toFinset, Std.ExtTreeMap.mem_keys, Std.ExtTreeMap.mem_insert, Finset.mem_insert,
      List.mem_toFinset, Std.ExtTreeMap.mem_keys, Std.LawfulEqOrd.compare_eq_iff_eq, eq_comm]
  rw [HostState.direct, hstorage, hwritten]
  rfl

/-! ### The memory -/

/-- The code slices the memory where the reference finds bytes, and refuses where it does not. -/
theorem bytesAt_cases (data : Bytes) (ptr len : Int32) :
    saturatingAdd (asUsize ptr) (asUsize len) > data.length ∧ bytesAt (some data) ptr len = none ∨
      ¬ saturatingAdd (asUsize ptr) (asUsize len) > data.length ∧ ∃ bytes,
        slice data (asUsize ptr) (saturatingAdd (asUsize ptr) (asUsize len)) = .ok bytes ∧
          bytesAt (some data) ptr len = some bytes := by
  have hle := le_saturatingAdd (asUsize_lt ptr) (asUsize len)
  by_cases h : saturatingAdd (asUsize ptr) (asUsize len) > data.length
  · exact Or.inl ⟨h, if_neg (Nat.not_le.mpr h)⟩
  · have hfits : saturatingAdd (asUsize ptr) (asUsize len) ≤ data.length := Nat.not_lt.mp h
    exact Or.inr ⟨h, _, slice_eq_ok hle hfits, if_pos hfits⟩

/-- The code copies bytes to where the reference puts them, and refuses where they do not fit. -/
theorem putAt_cases (data : Bytes) (ptr : Int32) (bytes : Bytes) :
    (∀ stop, checkedAdd (asUsize ptr) bytes.length = some stop → stop > data.length) ∧
        putAt (some data) ptr bytes = none ∨
      ∃ stop data', checkedAdd (asUsize ptr) bytes.length = some stop ∧ ¬ stop > data.length ∧
        copyFromSlice data (asUsize ptr) stop bytes = .ok data' ∧
          putAt (some data) ptr bytes = some data' := by
  by_cases h : asUsize ptr + bytes.length < 2 ^ 64 ∧ asUsize ptr + bytes.length ≤ data.length
  · refine Or.inr ⟨_, _, checkedAdd_eq_some.mpr ⟨h.1, rfl⟩, Nat.not_lt.mpr h.2,
      copyFromSlice_eq_ok h.2 rfl, if_pos h⟩
  · refine Or.inl ⟨fun stop hstop => ?_, if_neg h⟩
    obtain ⟨hlt, rfl⟩ := checkedAdd_eq_some.mp hstop
    exact Nat.not_le.mp fun hle => h ⟨hlt, hle⟩

/-! ### The host functions -/

section HostFunctions

variable {overflowChecks : Bool} {memory : Option Bytes} {host : HostState}

/-- A get over the overlay answers with what the copy has. -/
theorem DirectState.step_storageGet (keyPtr keyLen valPtr : Int32) :
    host.direct.step overflowChecks (.storageGet keyPtr keyLen valPtr) memory =
      (HostCall.run overflowChecks ⟨memory, host⟩ (.storageGet keyPtr keyLen valPtr)).map fun r =>
        (r.1, r.2.memory, r.2.data.direct) := by
  simp only [step, get, HostCall.run, Zalkanes.storageGet]
  cases memory with
  | none => rfl
  | some data =>
      dsimp only
      rcases bytesAt_cases data keyPtr keyLen with ⟨hout, hbytes⟩ | ⟨hin, key, hkey, hbytes⟩
      · rw [hbytes, if_pos hout]
        rfl
      · rw [hbytes, if_neg hin, hkey]
        simp only [bind, Except.bind, Option.bind]
        change Except.ok (match host.lookup key with | none => _ | some value => _) = _
        cases host.lookup key with
        | none => rfl
        | some value =>
            dsimp only
            rcases putAt_cases data valPtr value with
              ⟨hout, hput⟩ | ⟨stop, data', hstop, hfits, hcopy, hput⟩
            · rw [hput]
              cases hstop : checkedAdd (asUsize valPtr) value.length with
              | none => rfl
              | some stop =>
                  dsimp only
                  rw [if_pos (hout stop hstop)]
                  rfl
            · rw [hput, hstop]
              dsimp only
              rw [if_neg hfits, hcopy]
              rfl

/-- A set is accepted over the overlay when it is accepted over the copy, with the same write. -/
theorem DirectState.step_storageSet (keyPtr keyLen valPtr valLen : Int32) :
    host.direct.step overflowChecks (.storageSet keyPtr keyLen valPtr valLen) memory =
      (HostCall.run overflowChecks ⟨memory, host⟩
        (.storageSet keyPtr keyLen valPtr valLen)).map fun r =>
          (r.1, r.2.memory, r.2.data.direct) := by
  have hrefuse : ∀ key val : Option Bytes, bytesAt memory keyPtr keyLen = key →
      bytesAt memory valPtr valLen = val →
      (keyLen.toUInt32 > maxStorageKeyBytes ∨ valLen.toUInt32 > maxStorageValueBytes) →
      host.direct.set memory keyPtr keyLen valPtr valLen = (-1, memory, host.direct) := by
    rintro key val hkey hval hlong
    rw [set, hkey, hval]
    rcases key with _ | key
    · rfl
    rcases val with _ | val
    · rfl
    · exact if_neg fun h => hlong.elim (UInt32.not_lt.mpr h.1) (UInt32.not_lt.mpr h.2.1)
  simp only [step, HostCall.run, Zalkanes.storageSet]
  split
  · rename_i hkeyLen
    rw [hrefuse _ _ rfl rfl (Or.inl hkeyLen)]
    rfl
  split
  · rename_i hvalLen
    rw [hrefuse _ _ rfl rfl (Or.inr hvalLen)]
    rfl
  rename_i hkeyLen hvalLen
  cases memory with
  | none => rfl
  | some data =>
      dsimp only
      rw [set]
      rcases bytesAt_cases data keyPtr keyLen with ⟨hout, hbytes⟩ | ⟨hin, key, hkey, hbytes⟩
      · rw [hbytes, decide_eq_true hout]
        rfl
      rcases bytesAt_cases data valPtr valLen with ⟨hout, hbytes'⟩ | ⟨hin', val, hval, hbytes'⟩
      · rw [hbytes, hbytes', decide_eq_true hout, Bool.or_true]
        rfl
      · rw [hbytes, hbytes', decide_eq_false hin, decide_eq_false hin', hkey, hval]
        simp only [bind, Except.bind, Bool.or_self, Bool.false_eq_true, if_false,
          UInt32.not_lt.mp hkeyLen, UInt32.not_lt.mp hvalLen, true_and]
        by_cases hfull : host.direct.Full key
        · rw [if_neg (not_not.mpr hfull), if_pos ((host.overlayFull_iff key).mpr hfull)]
          rfl
        · rw [if_pos hfull, if_neg fun h => hfull ((host.overlayFull_iff key).mp h)]
          exact congrArg (fun d => Except.ok (0, some data, d))
            (host.direct_insert key (some val)).symm

/-- A delete is accepted over the overlay when it is accepted over the copy. -/
theorem DirectState.step_storageDelete (keyPtr keyLen : Int32) :
    host.direct.step overflowChecks (.storageDelete keyPtr keyLen) memory =
      (HostCall.run overflowChecks ⟨memory, host⟩ (.storageDelete keyPtr keyLen)).map fun r =>
        (r.1, r.2.memory, r.2.data.direct) := by
  simp only [step, HostCall.run, Zalkanes.storageDelete]
  cases memory with
  | none => rfl
  | some data =>
      dsimp only
      rw [delete]
      rcases bytesAt_cases data keyPtr keyLen with ⟨hout, hbytes⟩ | ⟨hin, key, hkey, hbytes⟩
      · rw [hbytes]
        split_ifs <;> rfl
      · rw [hbytes]
        dsimp only
        by_cases hkeyLen : keyLen.toUInt32 > maxStorageKeyBytes
        · rw [if_neg fun h => UInt32.not_lt.mpr h.1 hkeyLen, if_pos hkeyLen]
          rfl
        · rw [if_neg hkeyLen, if_neg hin, hkey]
          simp only [bind, Except.bind, UInt32.not_lt.mp hkeyLen, true_and]
          by_cases hfull : host.direct.Full key
          · rw [if_neg (not_not.mpr hfull), if_pos ((host.overlayFull_iff key).mpr hfull)]
            rfl
          · rw [if_pos hfull, if_neg fun h => hfull ((host.overlayFull_iff key).mp h)]
            exact congrArg (fun d => Except.ok (0, some data, d))
              (host.direct_insert key none).symm

/-- `output_write` is the same step. -/
theorem DirectState.step_outputWrite (ptr len : Int32) :
    host.direct.step overflowChecks (.outputWrite ptr len) memory =
      (HostCall.run overflowChecks ⟨memory, host⟩ (.outputWrite ptr len)).map fun r =>
        (r.1, r.2.memory, r.2.data.direct) := by
  simp only [step, HostCall.run, Zalkanes.outputWrite]
  split_ifs
  · rfl
  · cases memory with
    | none => rfl
    | some data =>
        dsimp only
        split_ifs
        · rfl
        · cases slice data (asUsize ptr) (saturatingAdd (asUsize ptr) (asUsize len)) <;> rfl

/-- `context_block_height` is the same step. -/
theorem DirectState.step_contextBlockHeight (outPtr : Int32) :
    host.direct.step overflowChecks (.contextBlockHeight outPtr) memory =
      (HostCall.run overflowChecks ⟨memory, host⟩ (.contextBlockHeight outPtr)).map fun r =>
        (r.1, r.2.memory, r.2.data.direct) := by
  simp only [step, HostCall.run, Zalkanes.contextBlockHeight]
  cases memory with
  | none => rfl
  | some data =>
      dsimp only
      cases checkedAdd (asUsize outPtr) 4 with
      | none => rfl
      | some e =>
          dsimp only
          split_ifs
          · rfl
          · change Except.map _ (copyFromSlice data (asUsize outPtr) e
              (be32 host.blockHeight) >>= _) = _
            cases copyFromSlice data (asUsize outPtr) e (be32 host.blockHeight) <;> rfl

/-- `input_read` is the same step. -/
theorem DirectState.step_inputRead (outPtr offset len : Int32) :
    host.direct.step overflowChecks (.inputRead outPtr offset len) memory =
      (HostCall.run overflowChecks ⟨memory, host⟩ (.inputRead outPtr offset len)).map fun r =>
        (r.1, r.2.memory, r.2.data.direct) := by
  simp only [step, HostCall.run, Zalkanes.inputRead]
  by_cases hoff : asUsize offset ≥ host.input.length
  · rw [if_pos hoff]
    exact congrArg _ (if_pos hoff)
  · rw [if_neg hoff]
    refine (congrArg _ (if_neg hoff)).trans ?_
    cases plainAdd overflowChecks (asUsize offset) (asUsize len) with
    | error p => rfl
    | ok stop =>
        simp only [bind, Except.bind]
        change Except.map _ (slice host.input (asUsize offset)
          (min host.input.length stop) >>= _) = _
        cases slice host.input (asUsize offset) (min host.input.length stop) with
        | error p => rfl
        | ok bytes =>
            simp only [bind, Except.bind]
            cases memory with
            | none => rfl
            | some data =>
                dsimp only
                cases checkedAdd (asUsize outPtr) bytes.length with
                | none => rfl
                | some e =>
                    dsimp only
                    split_ifs
                    · rfl
                    · cases copyFromSlice data (asUsize outPtr) e bytes <;> rfl

end HostFunctions

/-- **A host call over the overlay is the host call over the copy**: same status code, same
memory, and the overlay stands for the copy again. -/
theorem DirectState.step_direct (overflowChecks : Bool) (c : HostCall) (memory : Option Bytes)
    (host : HostState) :
    host.direct.step overflowChecks c memory =
      (c.run overflowChecks ⟨memory, host⟩).map fun r => (r.1, r.2.memory, r.2.data.direct) := by
  cases c with
  | storageGet keyPtr keyLen valPtr => exact step_storageGet keyPtr keyLen valPtr
  | storageSet keyPtr keyLen valPtr valLen => exact step_storageSet keyPtr keyLen valPtr valLen
  | storageDelete keyPtr keyLen => exact step_storageDelete keyPtr keyLen
  | outputWrite ptr len => exact step_outputWrite ptr len
  | contextBlockHeight outPtr => exact step_contextBlockHeight outPtr
  | inputRead outPtr offset len => exact step_inputRead outPtr offset len

/-- **A run over the overlay is the run over the copy.** -/
theorem Guest.runDirect_direct (overflowChecks : Bool) (g : Guest) (host : HostState) :
    g.runDirect overflowChecks host.direct =
      (g.run overflowChecks host).map fun r => (r.1, r.2.1, r.2.2.direct) := by
  induction g generalizing host with
  | done fuelLeft result => rfl
  | call c memory resume ih =>
      rw [Guest.runDirect, Guest.run, DirectState.step_direct]
      cases c.run overflowChecks ⟨memory, host⟩ with
      | error p => rfl
      | ok r => exact ih r.1 r.2.memory r.2.data

/-- A call starts on the storage of the store. -/
theorem HostState.direct_init (ctx : CallContext) (state : StateView) :
    (HostState.init ctx state).direct = DirectState.init ctx state := by
  rfl

/-! ### Committing a call -/

/-- The commit that holds the writes of one call. -/
def CallResult.commit (result : CallResult) (height : BlockHeight) (hash : BlockHash) :
    BlockCommit :=
  result.writes.foldl applyStorageWrite (.empty height hash)

/-- The log of writes of an overlay leaves at each key what the overlay holds. -/
theorem lastWrite_writes (host : HostState) (key : Bytes) :
    lastWrite (host.writes.map StorageWrite.write) (host.contractId, key) = host.overlay[key]? := by
  have hlog : host.writes.map StorageWrite.write =
      host.overlay.toList.map fun e => Write.restore (host.contractId, e.1) e.2 := by
    rw [HostState.writes, List.map_map]
    refine List.map_congr_left fun e _ => ?_
    obtain ⟨key, val⟩ := e
    cases val <;> rfl
  rw [hlog]
  cases hget : host.overlay[key]? with
  | none =>
      refine lastWrite_eq_none_iff.mpr fun w hw hkey => ?_
      obtain ⟨e, he, rfl⟩ := List.mem_map.mp hw
      rw [Write.key_restore] at hkey
      obtain rfl : e.1 = key := congrArg Prod.snd hkey
      rw [Std.ExtTreeMap.mem_toList_iff_getElem?_eq_some.mp he] at hget
      cases hget
  | some value =>
      refine lastWrite_of_forall ⟨_, List.mem_map_of_mem
        (Std.ExtTreeMap.mem_toList_iff_getElem?_eq_some.mpr hget), Write.key_restore _ _⟩ ?_
      intro w hw hkey
      obtain ⟨e, he, rfl⟩ := List.mem_map.mp hw
      rw [Write.key_restore] at hkey
      obtain rfl : e.1 = key := congrArg Prod.snd hkey
      rw [Std.ExtTreeMap.mem_toList_iff_getElem?_eq_some.mp he] at hget
      rw [Write.value?_restore]
      exact Option.some.inj hget

/-- A call writes no key twice, so separating its puts from its deletes changes nothing. -/
theorem not_putAfterDel_writes (host : HostState) (k : ContractId × Bytes) :
    ¬ PutAfterDel (host.writes.map StorageWrite.write) k := by
  rintro ⟨⟨v, hlast⟩, hdel⟩
  obtain ⟨w, hw, hwrite⟩ := List.mem_map.mp hdel
  obtain ⟨⟨key, val⟩, hmem, rfl⟩ := List.mem_map.mp hw
  have hget := Std.ExtTreeMap.mem_toList_iff_getElem?_eq_some.mp hmem
  cases val with
  | some v => cases hwrite
  | none =>
      obtain rfl := Write.del.inj hwrite
      have hnone := (lastWrite_writes host key).symm.trans hlast
      rw [hget] at hnone
      cases hnone

/-- The commit of a call has its sets, and then its deletes. -/
theorem storageWrites_commit (result : CallResult) (height : BlockHeight) (hash : BlockHash) :
    (result.commit height hash).storageWrites =
      putsThenDels (result.writes.map StorageWrite.write) := by
  have hsplit : (BlockCommit.empty height hash).Splits [] := ⟨rfl, rfl⟩
  obtain ⟨hputs, hdels⟩ := hsplit.append result.writes
  rw [List.nil_append] at hputs hdels
  rw [putsThenDels, ← hputs, ← hdels]
  rfl

/-- Committing the writes of a call: after a success, the storage of the contract is the private
copy of the run over direct storage, and nothing else changed; after any failure there are no
writes, and nothing changed. -/
def CommitsDirectStorage {σ : Type} (S : StateStore σ) (E : Engine) (overflowChecks : Bool) :
    Prop :=
  ∀ s ctx result height hash, execute E overflowChecks ctx (S.view s) = .ok result →
    let after := S.view (S.commitBlock s (result.commit height hash)).1
    (∀ output fuelUsed writes, result = .success output fuelUsed writes →
      ∃ g fuelLeft d, CallRuns E ctx (S.view s) g ∧
        g.runDirect overflowChecks (.init ctx (S.view s)) = .ok (fuelLeft, .ok 0, d) ∧
        d.output = output ∧ (∀ key, after.storageGet ctx.contractId key = d.storage key) ∧
        ∀ id key, id ≠ ctx.contractId → after.storageGet id key = (S.view s).storageGet id key) ∧
    ((∀ output fuelUsed writes, result ≠ .success output fuelUsed writes) →
      result.writes = [] ∧ after.ledger = (S.view s).ledger)

/-- A store that commits as the rules say commits the direct storage. -/
theorem StateStore.Committing.commitsDirectStorage {H : Hashing} {σ : Type} {S : StateStore σ}
    (hS : S.Committing H) (E : Engine) (overflowChecks : Bool) :
    CommitsDirectStorage S E overflowChecks := by
  intro s ctx result height hash hexec after
  constructor
  · rintro output fuelUsed writes rfl
    obtain ⟨g, fuelLeft, host, hg, hrun, houtput, -, rfl⟩ := exists_run_of_execute_success hexec
    have hid : host.contractId = ctx.contractId := (Guest.run_frame hrun).1
    have hbase : host.base = S.view s := (Guest.run_frame hrun).2
    have hdirect := Guest.runDirect_direct overflowChecks g (HostState.init ctx (S.view s))
    rw [HostState.direct_init, hrun] at hdirect
    have hafter : ∀ k : ContractId × Bytes, after.storageGet k.1 k.2 =
        (lastWrite (host.writes.map StorageWrite.write) k).getD
          ((S.view s).storageGet k.1 k.2) := by
      intro k
      rw [hS.storageGet, (hS.commitBlock s _).1, Ledger.apply, storageWrites_commit, hS.storageGet,
        ← getElem?_applyAll]
      exact (getElem?_applyAll_split_iff _ _ k).mpr (not_putAfterDel_writes host k)
    refine ⟨g, fuelLeft, host.direct, hg, hdirect, houtput.symm, fun key => ?_,
      fun id key hne => ?_⟩
    · rw [hafter (ctx.contractId, key), ← hid, lastWrite_writes, ← hbase]
      change _ = host.lookup key
      rw [HostState.lookup]
      cases host.overlay[key]? <;> rfl
    · rw [hafter (id, key), lastWrite_eq_none_iff.mpr, Option.getD_none]
      intro w hw hkey
      obtain ⟨storageWrite, hmem, rfl⟩ := List.mem_map.mp hw
      have hcontract := contract_of_mem_writes hexec storageWrite hmem
      refine hne ((congrArg Prod.fst hkey).symm.trans ?_)
      rw [← hcontract]
      cases storageWrite <;> rfl
  · intro hfail
    have hwrites : result.writes = [] := by
      cases result with
      | success output fuelUsed writes => exact absurd rfl (hfail output fuelUsed writes)
      | trap | fuelExhausted | invalidModule | contractNotFound => rfl
    refine ⟨hwrites, ?_⟩
    rw [show after.ledger = _ from (hS.commitBlock s _).1, CallResult.commit, hwrites]
    rfl

/-- **The overlay refines direct storage**, for every engine, and so for every contract program:
every host call does what it does over a private copy that has all accepted writes, and after the
call the copy, or nothing, is committed, on both backends. -/
theorem overlay_refines_direct_storage (E : Engine) (overflowChecks : Bool) (H : Hashing)
    (json : Execution → Except String Bytes) :
    (∀ ctx state, (HostState.init ctx state).direct = DirectState.init ctx state) ∧
    (∀ (c : HostCall) (memory : Option Bytes) (host : HostState),
      host.direct.step overflowChecks c memory = (c.run overflowChecks ⟨memory, host⟩).map
        fun r => (r.1, r.2.memory, r.2.data.direct)) ∧
    (∀ (g : Guest) (host : HostState), g.runDirect overflowChecks host.direct =
      (g.run overflowChecks host).map fun r => (r.1, r.2.1, r.2.2.direct)) ∧
    CommitsDirectStorage (MemoryState.store H) E overflowChecks ∧
    CommitsDirectStorage (RocksState.store H json) E overflowChecks :=
  ⟨HostState.direct_init, DirectState.step_direct overflowChecks,
    Guest.runDirect_direct overflowChecks,
    (MemoryState.committing H).commitsDirectStorage E overflowChecks,
    (RocksState.committing H json).commitsDirectStorage E overflowChecks⟩

end Zalkanes
