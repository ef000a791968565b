import Zalkanes.Lib.Machine
import Zalkanes.State.Store

/-!
# The Host ABI

The six functions that the linker gives a contract, over the state of one call and the contract's
linear memory. Arguments are the `i32` words the module passes, cast as the code casts them, and
every slice and addition that can panic does so here.

## Main results

* `HostCall.run_returns_iff`: the host calls that return a status code are all but those that read
  the input with an offset and a length whose sum overflows.
* `inputReadOverflows_iff`: those are the reads with a negative length of at most the offset.
-/

namespace Zalkanes

open Lib

/-- The state of one contract call. -/
structure HostState where
  contractId : ContractId
  input : Bytes
  output : Bytes
  blockHeight : BlockHeight
  /-- Write buffer: reads consult this first, then the base store. -/
  overlay : OrdMap Bytes (Option Bytes)
  base : StateView

/-- What a host function sees: the memory the module exports under `memory`, if any, and the
state of the call. -/
structure Caller where
  memory : Option Bytes
  data : HostState

/-- A status code, and what the call leaves. -/
abbrev HostResult := Except Panic (Int32 × Caller)

/-- A refused host call. -/
def Caller.refuse (caller : Caller) : HostResult := .ok (-1, caller)

/-! ### The host functions -/

/-- The value a contract reads under one of its keys: the overlay's, else the stored one. -/
def HostState.lookup (host : HostState) (key : Bytes) : Option Bytes :=
  match host.overlay[key]? with
  | some v => v
  | none => host.base.storageGet host.contractId key

/-- `storage_get(key_ptr, key_len, val_ptr)`: the length of the value, or -1 if there is none. -/
def storageGet (caller : Caller) (keyPtr keyLen valPtr : Int32) : HostResult :=
  match caller.memory with
  | none => caller.refuse
  | some data =>
      let s := asUsize keyPtr
      let e := saturatingAdd s (asUsize keyLen)
      if e > data.length then caller.refuse
      else do
        let key ← slice data s e
        match caller.data.lookup key with
        | none => caller.refuse
        | some v =>
            let vlen := v.length
            let dst := asUsize valPtr
            match checkedAdd dst vlen with
            | none => caller.refuse
            | some stop =>
                if stop > data.length then caller.refuse
                else do
                  let data ← copyFromSlice data dst stop v
                  return (Int32.ofNat vlen, { caller with memory := some data })

/-- Whether the overlay has no room for a new key. -/
def HostState.overlayFull (host : HostState) (key : Bytes) : Bool :=
  host.overlay.size ≥ maxStorageWritesPerCall.toNat && !host.overlay.contains key

/-- `storage_set(key_ptr, key_len, val_ptr, val_len)`. -/
def storageSet (caller : Caller) (keyPtr keyLen valPtr valLen : Int32) : HostResult :=
  if keyLen.toUInt32 > maxStorageKeyBytes then caller.refuse
  else if valLen.toUInt32 > maxStorageValueBytes then caller.refuse
  else
    match caller.memory with
    | none => caller.refuse
    | some data =>
        let ks := asUsize keyPtr
        let ke := saturatingAdd ks (asUsize keyLen)
        let vs := asUsize valPtr
        let ve := saturatingAdd vs (asUsize valLen)
        if ke > data.length || ve > data.length then caller.refuse
        else do
          let key ← slice data ks ke
          let val ← slice data vs ve
          if caller.data.overlayFull key then caller.refuse
          else
            let overlay := caller.data.overlay.insert key (some val)
            return (0, { caller with data := { caller.data with overlay := overlay } })

/-- `storage_delete(key_ptr, key_len)`. -/
def storageDelete (caller : Caller) (keyPtr keyLen : Int32) : HostResult :=
  match caller.memory with
  | none => caller.refuse
  | some data =>
      if keyLen.toUInt32 > maxStorageKeyBytes then caller.refuse
      else
        let s := asUsize keyPtr
        let e := saturatingAdd s (asUsize keyLen)
        if e > data.length then caller.refuse
        else do
          let key ← slice data s e
          if caller.data.overlayFull key then caller.refuse
          else
            let overlay := caller.data.overlay.insert key none
            return (0, { caller with data := { caller.data with overlay := overlay } })

/-- `output_write(ptr, len)`. -/
def outputWrite (caller : Caller) (ptr len : Int32) : HostResult :=
  if len.toUInt32 > maxReturnDataBytes then caller.refuse
  else
    match caller.memory with
    | none => caller.refuse
    | some data =>
        let s := asUsize ptr
        let e := saturatingAdd s (asUsize len)
        if e > data.length then caller.refuse
        else do
          let out ← slice data s e
          return (0, { caller with data := { caller.data with output := out } })

/-- `context_block_height(out_ptr)`. -/
def contextBlockHeight (caller : Caller) (outPtr : Int32) : HostResult :=
  let height := caller.data.blockHeight
  match caller.memory with
  | none => caller.refuse
  | some data =>
      let s := asUsize outPtr
      match checkedAdd s 4 with
      | none => caller.refuse
      | some e =>
          if e > data.length then caller.refuse
          else do
            let data ← copyFromSlice data s e (be32 height)
            return (0, { caller with memory := some data })

/-- `input_read(out_ptr, offset, len)`: the number of bytes written. The end of the range read is
a plain addition. -/
def inputRead (overflowChecks : Bool) (caller : Caller) (outPtr offset len : Int32) :
    HostResult :=
  let input := caller.data.input
  let off := asUsize offset
  if off ≥ input.length then .ok (0, caller)
  else do
    let stop ← plainAdd overflowChecks off (asUsize len)
    let bytes ← slice input off (min input.length stop)
    let slen := bytes.length
    match caller.memory with
    | none => caller.refuse
    | some data =>
        let s := asUsize outPtr
        match checkedAdd s slen with
        | none => caller.refuse
        | some e =>
            if e > data.length then caller.refuse
            else do
              let data ← copyFromSlice data s e bytes
              return (Int32.ofNat slen, { caller with memory := some data })

/-- A call of a host function, with the words the module passes. -/
inductive HostCall where
  | storageGet (keyPtr keyLen valPtr : Int32)
  | storageSet (keyPtr keyLen valPtr valLen : Int32)
  | storageDelete (keyPtr keyLen : Int32)
  | outputWrite (ptr len : Int32)
  | contextBlockHeight (outPtr : Int32)
  | inputRead (outPtr offset len : Int32)
  deriving DecidableEq

/-- Run a host call. -/
def HostCall.run (overflowChecks : Bool) (caller : Caller) : HostCall → HostResult
  | .storageGet keyPtr keyLen valPtr => Zalkanes.storageGet caller keyPtr keyLen valPtr
  | .storageSet keyPtr keyLen valPtr valLen =>
      Zalkanes.storageSet caller keyPtr keyLen valPtr valLen
  | .storageDelete keyPtr keyLen => Zalkanes.storageDelete caller keyPtr keyLen
  | .outputWrite ptr len => Zalkanes.outputWrite caller ptr len
  | .contextBlockHeight outPtr => Zalkanes.contextBlockHeight caller outPtr
  | .inputRead outPtr offset len => Zalkanes.inputRead overflowChecks caller outPtr offset len

/-! ### Which calls return -/

/-- A read of the input from inside it whose offset and length, as `usize`, add up to more than
64 bits hold. -/
def InputReadOverflows (input : Bytes) : HostCall → Prop
  | .inputRead _ offset len =>
      asUsize offset < input.length ∧ 2 ^ 64 ≤ asUsize offset + asUsize len
  | _ => False

/-- The call returns a status code. -/
def HostResult.Returns (r : HostResult) : Prop := ∃ res, r = .ok res

/-- Refusing returns. -/
theorem Caller.refuse_returns (caller : Caller) : HostResult.Returns caller.refuse := ⟨_, rfl⟩

/-- `storage_get` returns. -/
theorem storageGet_returns (caller : Caller) (keyPtr keyLen valPtr : Int32) :
    HostResult.Returns (storageGet caller keyPtr keyLen valPtr) := by
  unfold storageGet
  split
  · exact caller.refuse_returns
  · rename_i data _
    dsimp only
    split
    · exact caller.refuse_returns
    · rename_i he
      rw [slice_eq_ok (le_saturatingAdd (asUsize_lt keyPtr) _) (by omega)]
      simp only [bind, Except.bind]
      split
      · exact caller.refuse_returns
      · split
        · exact caller.refuse_returns
        · rename_i stop hstop
          obtain ⟨-, hstop⟩ := checkedAdd_eq_some.mp hstop
          split
          · exact caller.refuse_returns
          · rw [copyFromSlice_eq_ok (by omega) hstop.symm]
            exact ⟨_, rfl⟩

/-- `storage_set` returns. -/
theorem storageSet_returns (caller : Caller) (keyPtr keyLen valPtr valLen : Int32) :
    HostResult.Returns (storageSet caller keyPtr keyLen valPtr valLen) := by
  unfold storageSet
  split
  · exact caller.refuse_returns
  split
  · exact caller.refuse_returns
  split
  · exact caller.refuse_returns
  · dsimp only
    split
    · exact caller.refuse_returns
    · rename_i hrange
      simp only [Bool.or_eq_true, decide_eq_true_eq, not_or, not_lt] at hrange
      rw [slice_eq_ok (le_saturatingAdd (asUsize_lt keyPtr) _) hrange.1,
        slice_eq_ok (le_saturatingAdd (asUsize_lt valPtr) _) hrange.2]
      simp only [bind, Except.bind]
      split
      · exact caller.refuse_returns
      · exact ⟨_, rfl⟩

/-- `storage_delete` returns. -/
theorem storageDelete_returns (caller : Caller) (keyPtr keyLen : Int32) :
    HostResult.Returns (storageDelete caller keyPtr keyLen) := by
  unfold storageDelete
  split
  · exact caller.refuse_returns
  split
  · exact caller.refuse_returns
  · dsimp only
    split
    · exact caller.refuse_returns
    · rw [slice_eq_ok (le_saturatingAdd (asUsize_lt keyPtr) _) (by omega)]
      simp only [bind, Except.bind]
      split
      · exact caller.refuse_returns
      · exact ⟨_, rfl⟩

/-- `output_write` returns. -/
theorem outputWrite_returns (caller : Caller) (ptr len : Int32) :
    HostResult.Returns (outputWrite caller ptr len) := by
  unfold outputWrite
  split
  · exact caller.refuse_returns
  split
  · exact caller.refuse_returns
  · dsimp only
    split
    · exact caller.refuse_returns
    · rw [slice_eq_ok (le_saturatingAdd (asUsize_lt ptr) _) (by omega)]
      exact ⟨_, rfl⟩

/-- `context_block_height` returns. -/
theorem contextBlockHeight_returns (caller : Caller) (outPtr : Int32) :
    HostResult.Returns (contextBlockHeight caller outPtr) := by
  unfold contextBlockHeight
  dsimp only
  split
  · exact caller.refuse_returns
  split
  · exact caller.refuse_returns
  · rename_i e he
    obtain ⟨-, he⟩ := checkedAdd_eq_some.mp he
    split
    · exact caller.refuse_returns
    · rw [copyFromSlice_eq_ok (by omega) (by rw [length_be32]; omega)]
      exact ⟨_, rfl⟩

/-- A read of the input returns unless its range overflows: with overflow checks the addition
panics, without them the wrapped end lies before the start. -/
theorem inputRead_returns_iff (overflowChecks : Bool) (caller : Caller)
    (outPtr offset len : Int32) :
    HostResult.Returns (inputRead overflowChecks caller outPtr offset len) ↔
      ¬ InputReadOverflows caller.data.input (.inputRead outPtr offset len) := by
  unfold inputRead InputReadOverflows
  dsimp only
  split
  · rename_i hoff
    exact iff_of_true ⟨_, rfl⟩ fun h => by omega
  rename_i hoff
  have hlen := asUsize_lt len
  by_cases hover : 2 ^ 64 ≤ asUsize offset + asUsize len
  · refine iff_of_false ?_ (not_not.mpr ⟨by omega, hover⟩)
    rintro ⟨res, hres⟩
    cases overflowChecks with
    | true =>
        rw [plainAdd, if_neg (by omega), if_pos rfl] at hres
        cases hres
    | false =>
        have hwrap : (asUsize offset + asUsize len) % 2 ^ 64 < asUsize offset := by
          have := asUsize_lt offset
          omega
        rw [plainAdd, if_neg (by omega), if_neg Bool.false_ne_true] at hres
        simp only [bind, Except.bind] at hres
        rw [slice, if_pos (lt_of_le_of_lt (min_le_right _ _) hwrap)] at hres
        cases hres
  · refine iff_of_true ?_ fun h => hover h.2
    rw [plainAdd, if_pos (by omega)]
    simp only [bind, Except.bind]
    rw [slice_eq_ok (by omega) (min_le_left _ _)]
    dsimp only
    split
    · exact caller.refuse_returns
    split
    · exact caller.refuse_returns
    · rename_i e he
      obtain ⟨-, he⟩ := checkedAdd_eq_some.mp he
      split
      · exact caller.refuse_returns
      · rw [copyFromSlice_eq_ok (by omega) he.symm]
        exact ⟨_, rfl⟩

/-- **Which host calls return a status code**, in either build profile: all but the reads of the
input whose range overflows. -/
theorem HostCall.run_returns_iff (overflowChecks : Bool) (caller : Caller) (call : HostCall) :
    HostResult.Returns (call.run overflowChecks caller) ↔
      ¬ InputReadOverflows caller.data.input call := by
  cases call with
  | storageGet keyPtr keyLen valPtr =>
      exact iff_of_true (storageGet_returns caller keyPtr keyLen valPtr) id
  | storageSet keyPtr keyLen valPtr valLen =>
      exact iff_of_true (storageSet_returns caller keyPtr keyLen valPtr valLen) id
  | storageDelete keyPtr keyLen =>
      exact iff_of_true (storageDelete_returns caller keyPtr keyLen) id
  | outputWrite ptr len => exact iff_of_true (outputWrite_returns caller ptr len) id
  | contextBlockHeight outPtr => exact iff_of_true (contextBlockHeight_returns caller outPtr) id
  | inputRead outPtr offset len =>
      exact inputRead_returns_iff overflowChecks caller outPtr offset len

/-- For an input that a Rust vector can hold, the reads that overflow are those that start inside
it and have a negative length of at most the offset. -/
theorem inputReadOverflows_iff {input : Bytes} (h : input.length < 2 ^ 63)
    (outPtr offset len : Int32) :
    InputReadOverflows input (.inputRead outPtr offset len) ↔
      0 ≤ offset.toInt ∧ offset.toInt < input.length ∧ len.toInt < 0 ∧
        0 ≤ offset.toInt + len.toInt := by
  have hoffset := offset.le_toInt
  have hoffset' := offset.toInt_lt
  have hlen := len.le_toInt
  have hlen' := len.toInt_lt
  unfold InputReadOverflows
  rcases lt_or_ge offset.toInt 0 with ho | ho <;> rcases lt_or_ge len.toInt 0 with hl | hl
  · have := asUsize_of_neg ho
    have := asUsize_of_neg hl
    omega
  · have := asUsize_of_neg ho
    have := asUsize_of_nonneg hl
    omega
  · have := asUsize_of_nonneg ho
    have := asUsize_of_neg hl
    omega
  · have := asUsize_of_nonneg ho
    have := asUsize_of_nonneg hl
    omega

/-- A call of a contract with two bytes of input, on an empty store. -/
def twoByteCall : Caller where
  memory := none
  data := ⟨Bytes32.replicate 0, [7, 7], [], 1, ∅,
    ⟨fun _ => false, fun _ => none, fun _ _ => none, [], []⟩⟩

/-- **`input_read(0, 1, -1)` panics** in both build profiles: the addition overflows, or the slice
is reversed. -/
theorem inputRead_panics :
    HostCall.run true twoByteCall (.inputRead 0 1 (-1)) = .error .overflow ∧
      HostCall.run false twoByteCall (.inputRead 0 1 (-1)) = .error .sliceOrder :=
  ⟨rfl, rfl⟩

end Zalkanes
