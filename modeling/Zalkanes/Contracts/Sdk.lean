import Zalkanes.Indexer.StorageBounds
import Zalkanes.Lib.Effects
import Zalkanes.Runtime.Overlay

/-!
# The Contract SDK

A contract that is written against the SDK sees storage as a map, and its input and output as byte
strings. The SDK implements that over the host ABI: it passes pointers into the linear memory of
the module and reads buffers that the host filled. Where things are in that memory is up to the
compiler and the allocator, so it is left open here: a module implements a contract (`Compiles`)
if each of its host calls is the one that the SDK makes for the next call of the contract, whatever
the pointers, and what the contract goes on with is what the SDK makes of the answer, if the host
fills no memory outside of the call's buffer. A module may also stop at any point, when it runs out
of fuel or of memory.

## Main results

* `SdkCall.Issues.run`: what the SDK makes of the answer of the host is what the call means.
* `Compiles.run`: so a module runs its contract, or stops with an error.
* `sdk_refines_storage`: what a call of such a contract does to a reachable store.
-/

namespace Zalkanes

open Lib

/-- A function of the SDK that a contract calls. -/
inductive SdkCall where
  | get (key : Bytes)
  | set (key value : Bytes)
  | delete (key : Bytes)
  | blockHeight
  | readInput
  | writeOutput (data : Bytes)
  deriving DecidableEq

/-- What the function returns. -/
abbrev SdkCall.Answer : SdkCall → Type
  | get _ => Option Bytes
  | set _ _ => Bool
  | delete _ => Bool
  | blockHeight => UInt32
  | readInput => Bytes
  | writeOutput _ => Bool

/-- Code that calls the SDK. -/
abbrev SdkCode (α : Type) := Prog SdkCall.Answer α

/-- A `dispatch` function. -/
abbrev Contract := SdkCode Int32

namespace Sdk

/-- `zalkanes_sdk::get`. -/
def get (key : Bytes) : SdkCode (Option Bytes) := Prog.call (SdkCall.get key)

/-- `zalkanes_sdk::set`. -/
def set (key value : Bytes) : SdkCode Bool := Prog.call (SdkCall.set key value)

/-- `zalkanes_sdk::delete`. -/
def delete (key : Bytes) : SdkCode Bool := Prog.call (SdkCall.delete key)

/-- `zalkanes_sdk::block_height`. -/
def blockHeight : SdkCode UInt32 := Prog.call SdkCall.blockHeight

/-- `zalkanes_sdk::read_input`. -/
def readInput : SdkCode Bytes := Prog.call SdkCall.readInput

/-- `zalkanes_sdk::write_output`. -/
def writeOutput (data : Bytes) : SdkCode Bool := Prog.call (SdkCall.writeOutput data)

end Sdk

/-! ### Memory -/

/-- The size of the buffers that the SDK allocates for values and for the input. -/
def sdkBufferBytes : ℕ := 65536

/-- `bytes.len() as i32`. -/
def lengthWord (bs : Bytes) : Int32 := Int32.ofNat bs.length

/-- `n` bytes of memory from a pointer on. -/
def window (memory : Bytes) (ptr : Int32) (n : ℕ) : Bytes := (memory.drop (asUsize ptr)).take n

/-- There are so many bytes of memory from the pointer on. -/
def Room (memory : Bytes) (ptr : Int32) (n : ℕ) : Prop := asUsize ptr + n ≤ memory.length

/-- The bytes are in memory where the pointer points. -/
structure At (memory : Bytes) (ptr : Int32) (bs : Bytes) : Prop where
  room : Room memory ptr bs.length
  bytes : window memory ptr bs.length = bs

/-! ### The functions of the SDK -/

/-- What a function of the SDK returns, for the code that the host returns and the memory after it,
and the buffer of the function. -/
def SdkCall.decode : (c : SdkCall) → Int32 → Int32 → Bytes → c.Answer
  | get _, buf, len, memory =>
      if len < 0 then none else some ((window memory buf sdkBufferBytes).take len.toNatClampNeg)
  | set _ _, _, rc, _ => rc == 0
  | delete _, _, rc, _ => rc == 0
  | blockHeight, buf, _, memory => ofBe32 (window memory buf 4)
  | readInput, buf, len, memory =>
      if len > 0 then (window memory buf sdkBufferBytes).take len.toNatClampNeg else []
  | writeOutput _, _, rc, _ => rc == 0

/-- The host call that a function of the SDK makes, from where its arguments and its buffer are in
memory. -/
inductive SdkCall.Issues (memory : Bytes) :
    (c : SdkCall) → HostCall → (Int32 → Bytes → c.Answer) → Prop
  | get {key : Bytes} {keyPtr buf : Int32} (hkey : At memory keyPtr key)
      (hbuf : Room memory buf sdkBufferBytes) :
      Issues memory (.get key) (.storageGet keyPtr (lengthWord key) buf)
        ((SdkCall.get key).decode buf)
  | set {key value : Bytes} {keyPtr valPtr : Int32} (hkey : At memory keyPtr key)
      (hvalue : At memory valPtr value) :
      Issues memory (.set key value)
        (.storageSet keyPtr (lengthWord key) valPtr (lengthWord value))
        ((SdkCall.set key value).decode 0)
  | delete {key : Bytes} {keyPtr : Int32} (hkey : At memory keyPtr key) :
      Issues memory (.delete key) (.storageDelete keyPtr (lengthWord key))
        ((SdkCall.delete key).decode 0)
  | blockHeight {buf : Int32} (hbuf : Room memory buf 4) :
      Issues memory .blockHeight (.contextBlockHeight buf) (SdkCall.blockHeight.decode buf)
  | readInput {buf : Int32} (hbuf : Room memory buf sdkBufferBytes) :
      Issues memory .readInput (.inputRead buf 0 (Int32.ofNat sdkBufferBytes))
        (SdkCall.readInput.decode buf)
  | writeOutput {data : Bytes} {ptr : Int32} (hdata : At memory ptr data) :
      Issues memory (.writeOutput data) (.outputWrite ptr (lengthWord data))
        ((SdkCall.writeOutput data).decode 0)

/-- The buffer that a host call fills, and its size as the SDK allocates it. -/
def HostCall.buffer : HostCall → Option (Int32 × ℕ)
  | storageGet _ _ valPtr => some (valPtr, sdkBufferBytes)
  | contextBlockHeight outPtr => some (outPtr, 4)
  | inputRead outPtr _ _ => some (outPtr, sdkBufferBytes)
  | _ => none

/-- The host call left all memory outside of its buffer alone. -/
def HostCall.KeepsOutside (h : HostCall) (memory memory' : Bytes) : Prop :=
  memory'.length = memory.length ∧ ∀ i, (∀ b ∈ h.buffer, i < asUsize b.1 ∨ asUsize b.1 + b.2 ≤ i) →
    memory'[i]? = memory[i]?

/-- The module in execution implements the contract, in a linear memory of less than 2 GiB, so
that addresses and lengths are words without a sign (the host grants far less). It goes on as the
contract does whatever the host answers, as long as the host fills no memory but the buffer of the
call: what the module keeps elsewhere, its data segments and its heap, is still there. -/
inductive Compiles : Contract → Guest → Prop
  | done {code : Int32} (fuelLeft : ℕ) : Compiles (.done code) (.done fuelLeft (.ok code))
  | call {c : SdkCall} {resume : c.Answer → Contract} {h : HostCall} {memory : Bytes}
      {decode : Int32 → Bytes → c.Answer} {next : Int32 → Option Bytes → Guest}
      (hmemory : memory.length < 2 ^ 31) (hissue : c.Issues memory h decode)
      (hrest : ∀ code memory', h.KeepsOutside memory memory' →
        Compiles (resume (decode code memory')) (next code (some memory'))) :
      Compiles (.perform c resume) (.call h (some memory) next)
  | stop {p : Contract} (fuelLeft : ℕ) (message : String) :
      Compiles p (.done fuelLeft (.error message))

/-! ### What the functions mean -/

/-- Write a key of the contract, or delete it. -/
def HostState.put (host : HostState) (key : Bytes) (value : Option Bytes) : HostState :=
  { host with overlay := host.overlay.insert key value }

/-- What a function of the SDK returns, and what it does. -/
def SdkCall.perform (host : HostState) : (c : SdkCall) → c.Answer × HostState
  | get key => (host.lookup key, host)
  | set key value =>
      if key.length > maxStorageKeyBytes.toNat ∨ value.length > maxStorageValueBytes.toNat ∨
          host.overlayFull key = true then (false, host)
      else (true, host.put key (some value))
  | delete key =>
      if key.length > maxStorageKeyBytes.toNat ∨ host.overlayFull key = true then (false, host)
      else (true, host.put key none)
  | blockHeight => (host.blockHeight, host)
  | readInput => (host.input.take sdkBufferBytes, host)
  | writeOutput data =>
      if data.length > maxReturnDataBytes.toNat then (false, host)
      else (true, { host with output := data })

/-- The values that the call can read fit the buffer of the SDK. -/
def HostState.FitsBuffer (host : HostState) : Prop :=
  ∀ key v, host.lookup key = some v → v.length ≤ sdkBufferBytes

/-- Run code on the state of a call. -/
def SdkCode.run {α : Type} (p : SdkCode α) (host : HostState) : α × HostState :=
  p.evalState SdkCall.perform host

/-! ### The SDK over the host ABI -/

section Host

variable {memory : Bytes} {host : HostState}

/-- What is in a memory is no longer than it. -/
theorem At.length_lt {ptr : Int32} {bs : Bytes} (h : At memory ptr bs)
    (hmemory : memory.length < 2 ^ 31) : bs.length < 2 ^ 31 := by
  have := h.room
  rw [Room] at this
  omega

/-- The range that a pointer and a length name is in memory, and holds the bytes. -/
theorem At.slice {ptr : Int32} {bs : Bytes} (h : At memory ptr bs)
    (hmemory : memory.length < 2 ^ 31) :
    ¬ saturatingAdd (asUsize ptr) (asUsize (lengthWord bs)) > memory.length ∧
      slice memory (asUsize ptr) (saturatingAdd (asUsize ptr) (asUsize (lengthWord bs))) =
        .ok bs := by
  have hroom : asUsize ptr + bs.length ≤ memory.length := h.room
  have hstop : saturatingAdd (asUsize ptr) (asUsize (lengthWord bs)) = asUsize ptr + bs.length := by
    rw [lengthWord, asUsize_ofNat (h.length_lt hmemory), saturatingAdd]
    omega
  have hbytes := h.bytes
  rw [hstop]
  refine ⟨by omega, ?_⟩
  rw [slice_eq_ok (by omega) hroom, Nat.add_sub_cancel_left]
  exact congrArg Except.ok hbytes

/-- Whether a length is over a limit, as the host sees it. -/
theorem lengthWord_gt_iff {bs : Bytes} (h : bs.length < 2 ^ 31) (limit : UInt32) :
    (lengthWord bs).toUInt32 > limit ↔ bs.length > limit.toNat := by
  rw [gt_iff_lt, UInt32.lt_iff_toNat_lt, lengthWord, toNat_toUInt32_ofNat (by omega)]

/-- Bytes that are copied into memory are what its window then shows, and nothing else changes. -/
theorem copy_window {s : ℕ} {src : Bytes} {room : ℕ} (hsrc : src.length ≤ room)
    (hroom : s + room ≤ memory.length) :
    let memory' := memory.take s ++ src ++ memory.drop (s + src.length)
    memory'.length = memory.length ∧ (memory'.drop s).take src.length = src ∧
      ∀ i, i < s ∨ s + room ≤ i → memory'[i]? = memory[i]? := by
  intro memory'
  have htake : (memory.take s).length = s := by
    rw [List.length_take]
    omega
  refine ⟨?_, ?_, fun i hi => ?_⟩
  · simp only [memory', List.length_append, htake, List.length_drop]
    omega
  · rw [show memory' = memory.take s ++ (src ++ memory.drop (s + src.length)) from
      List.append_assoc _ _ _]
    exact take_drop_append htake rfl _
  · rcases hi with hi | hi
    · rw [List.getElem?_append_left (by rw [List.length_append, htake]; omega),
        List.getElem?_append_left (by rw [htake]; exact hi), List.getElem?_take_of_lt hi]
    · rw [List.getElem?_append_right (by rw [List.length_append, htake]; omega),
        List.getElem?_drop, List.length_append, htake]
      congr 1
      omega

/-- The host call does what the function of the SDK means, and the SDK reads its answer. -/
def SdkCall.Means (c : SdkCall) (overflowChecks : Bool) (memory : Bytes) (host : HostState)
    (h : HostCall) (decode : Int32 → Bytes → c.Answer) : Prop :=
  ∃ code memory',
    h.run overflowChecks ⟨some memory, host⟩ = .ok (code, ⟨some memory', (c.perform host).2⟩) ∧
      decode code memory' = (c.perform host).1 ∧ h.KeepsOutside memory memory'

/-- Memory that no host function wrote to. -/
theorem HostCall.KeepsOutside.refl (h : HostCall) (memory : Bytes) :
    h.KeepsOutside memory memory := ⟨rfl, fun _ _ => rfl⟩

/-- A length below `2 ^ 31` is itself as a word. -/
theorem toNatClampNeg_ofNat {n : ℕ} (h : n < 2 ^ 31) : (Int32.ofNat n).toNatClampNeg = n := by
  rw [Int32.toNatClampNeg, Int32.toInt_ofNat_of_lt h, Int.toNat_natCast]

/-- Such a word is not negative. -/
theorem ofNat_not_neg {n : ℕ} (h : n < 2 ^ 31) : ¬ Int32.ofNat n < 0 := by
  rw [Int32.lt_iff_toInt_lt, Int32.toInt_ofNat_of_lt h, Int32.toInt_zero]
  omega

variable (overflowChecks : Bool)

/-- The host call of `get`, over a pointer to the key and a buffer, does what `get` means. -/
theorem means_get (hmemory : memory.length < 2 ^ 31) (hfits : host.FitsBuffer) {key : Bytes}
    {keyPtr buf : Int32} (hkey : At memory keyPtr key) (hbuf : Room memory buf sdkBufferBytes) :
    (SdkCall.get key).Means overflowChecks memory host (.storageGet keyPtr (lengthWord key) buf)
      ((SdkCall.get key).decode buf) := by
  obtain ⟨hrange, hslice⟩ := hkey.slice hmemory
  have hroom : asUsize buf + 65536 ≤ memory.length := hbuf
  unfold SdkCall.Means
  rw [HostCall.run, storageGet]
  dsimp only
  rw [if_neg hrange, hslice]
  simp only [bind, Except.bind, SdkCall.perform]
  cases hv : host.lookup key with
  | none => exact ⟨_, memory, rfl, rfl, .refl _ _⟩
  | some v =>
      have hlen : v.length ≤ 65536 := hfits key v hv
      have hstop : checkedAdd (asUsize buf) v.length = some (asUsize buf + v.length) :=
        checkedAdd_eq_some.mpr ⟨by omega, rfl⟩
      obtain ⟨hlength, hwindow, hkeeps⟩ := copy_window hlen hroom
      dsimp only
      rw [hstop]
      dsimp only
      rw [if_neg (by omega), copyFromSlice_eq_ok (by omega) rfl]
      refine ⟨_, _, rfl, ?_, hlength, fun i hi => hkeeps i (hi _ rfl)⟩
      rw [SdkCall.decode, if_neg (ofNat_not_neg (by omega)), toNatClampNeg_ofNat (by omega), window,
        List.take_take, min_eq_left (show v.length ≤ sdkBufferBytes from hlen), hwindow]

/-- The host call of `set`, over pointers to the key and the value, does what `set` means. -/
theorem means_set (hmemory : memory.length < 2 ^ 31) {key value : Bytes} {keyPtr valPtr : Int32}
    (hkey : At memory keyPtr key) (hvalue : At memory valPtr value) :
    (SdkCall.set key value).Means overflowChecks memory host
      (.storageSet keyPtr (lengthWord key) valPtr (lengthWord value))
      ((SdkCall.set key value).decode 0) := by
  obtain ⟨hrange, hslice⟩ := hkey.slice hmemory
  obtain ⟨hrange', hslice'⟩ := hvalue.slice hmemory
  have hkeyLen := lengthWord_gt_iff (hkey.length_lt hmemory) maxStorageKeyBytes
  have hvalueLen := lengthWord_gt_iff (hvalue.length_lt hmemory) maxStorageValueBytes
  unfold SdkCall.Means
  rw [HostCall.run, storageSet, SdkCall.perform]
  by_cases hk : key.length > maxStorageKeyBytes.toNat
  · rw [if_pos (hkeyLen.mpr hk), if_pos (Or.inl hk)]
    exact ⟨_, memory, rfl, rfl, .refl _ _⟩
  rw [if_neg (mt hkeyLen.mp hk)]
  by_cases hv : value.length > maxStorageValueBytes.toNat
  · rw [if_pos (hvalueLen.mpr hv), if_pos (Or.inr (Or.inl hv))]
    exact ⟨_, memory, rfl, rfl, .refl _ _⟩
  rw [if_neg (mt hvalueLen.mp hv)]
  dsimp only
  rw [if_neg (by simp only [Bool.or_eq_true, decide_eq_true_eq, not_or]; exact ⟨hrange, hrange'⟩),
    hslice, hslice']
  simp only [bind, Except.bind]
  by_cases hfull : host.overlayFull key = true
  · rw [if_pos hfull, if_pos (Or.inr (Or.inr hfull))]
    exact ⟨_, memory, rfl, rfl, .refl _ _⟩
  · rw [if_neg hfull, if_neg (by tauto)]
    exact ⟨_, memory, rfl, rfl, .refl _ _⟩

/-- The host call of `delete`, over a pointer to the key, does what `delete` means. -/
theorem means_delete (hmemory : memory.length < 2 ^ 31) {key : Bytes} {keyPtr : Int32}
    (hkey : At memory keyPtr key) :
    (SdkCall.delete key).Means overflowChecks memory host
      (.storageDelete keyPtr (lengthWord key)) ((SdkCall.delete key).decode 0) := by
  obtain ⟨hrange, hslice⟩ := hkey.slice hmemory
  have hkeyLen := lengthWord_gt_iff (hkey.length_lt hmemory) maxStorageKeyBytes
  unfold SdkCall.Means
  rw [HostCall.run, storageDelete, SdkCall.perform]
  dsimp only
  by_cases hk : key.length > maxStorageKeyBytes.toNat
  · rw [if_pos (hkeyLen.mpr hk), if_pos (Or.inl hk)]
    exact ⟨_, memory, rfl, rfl, .refl _ _⟩
  rw [if_neg (mt hkeyLen.mp hk), if_neg hrange, hslice]
  simp only [bind, Except.bind]
  by_cases hfull : host.overlayFull key = true
  · rw [if_pos hfull, if_pos (Or.inr hfull)]
    exact ⟨_, memory, rfl, rfl, .refl _ _⟩
  · rw [if_neg hfull, if_neg (by tauto)]
    exact ⟨_, memory, rfl, rfl, .refl _ _⟩

/-- The host call of `block_height`, over a buffer of four bytes, does what it means. -/
theorem means_blockHeight {buf : Int32} (hmemory : memory.length < 2 ^ 31)
    (hbuf : Room memory buf 4) :
    SdkCall.blockHeight.Means overflowChecks memory host (.contextBlockHeight buf)
      (SdkCall.blockHeight.decode buf) := by
  have hroom : asUsize buf + 4 ≤ memory.length := hbuf
  have hstop : checkedAdd (asUsize buf) 4 = some (asUsize buf + 4) :=
    checkedAdd_eq_some.mpr ⟨by omega, rfl⟩
  obtain ⟨hlength, hwindow, hkeeps⟩ := copy_window (length_be32 host.blockHeight).le hroom
  unfold SdkCall.Means
  rw [HostCall.run, contextBlockHeight]
  dsimp only
  rw [hstop]
  dsimp only
  rw [if_neg (by omega), copyFromSlice_eq_ok (by omega) (by rw [length_be32])]
  refine ⟨_, _, rfl, ?_, hlength, fun i hi => hkeeps i (hi _ rfl)⟩
  rw [SdkCall.decode, window]
  rw [length_be32] at hwindow
  rw [hwindow, ofBe32_be32]
  rfl

/-- The host call of `read_input`, over a buffer, does what it means. -/
theorem means_readInput {buf : Int32} (hmemory : memory.length < 2 ^ 31)
    (hbuf : Room memory buf sdkBufferBytes) :
    SdkCall.readInput.Means overflowChecks memory host
      (.inputRead buf 0 (Int32.ofNat sdkBufferBytes)) (SdkCall.readInput.decode buf) := by
  have hroom : asUsize buf + 65536 ≤ memory.length := hbuf
  have hoff : asUsize 0 = 0 := by decide
  have hsize : asUsize (Int32.ofNat sdkBufferBytes) = 65536 := asUsize_ofNat (by decide)
  unfold SdkCall.Means
  rw [HostCall.run, inputRead, SdkCall.perform, hoff, hsize]
  dsimp only
  by_cases hempty : 0 ≥ host.input.length
  · have hnil : host.input = [] := List.length_eq_zero_iff.mp (by omega)
    rw [if_pos hempty, hnil]
    exact ⟨_, memory, rfl, rfl, .refl _ _⟩
  have hbytes : slice host.input 0 (min host.input.length 65536) =
      .ok (host.input.take sdkBufferBytes) := by
    rw [slice_eq_ok (Nat.zero_le _) (min_le_left _ _), List.drop_zero, Nat.sub_zero, min_comm,
      ← List.take_take, List.take_length]
    rfl
  have hlen : (host.input.take sdkBufferBytes).length ≤ 65536 := List.length_take_le _ _
  have hpos : 0 < (host.input.take sdkBufferBytes).length := by
    rw [List.length_take, sdkBufferBytes]
    omega
  have hstop : checkedAdd (asUsize buf) (host.input.take sdkBufferBytes).length =
      some (asUsize buf + (host.input.take sdkBufferBytes).length) :=
    checkedAdd_eq_some.mpr ⟨by omega, rfl⟩
  obtain ⟨hlength, hwindow, hkeeps⟩ := copy_window hlen hroom
  rw [if_neg hempty, plainAdd, if_pos (by omega), Nat.zero_add]
  simp only [bind, Except.bind]
  rw [hbytes]
  dsimp only
  rw [hstop]
  dsimp only
  rw [if_neg (by omega), copyFromSlice_eq_ok (by omega) rfl]
  refine ⟨_, _, rfl, ?_, hlength, fun i hi => hkeeps i (hi _ rfl)⟩
  have hgt : Int32.ofNat (host.input.take sdkBufferBytes).length > 0 := by
    rw [gt_iff_lt, Int32.lt_iff_toInt_lt, Int32.toInt_ofNat_of_lt (by omega), Int32.toInt_zero]
    omega
  rw [SdkCall.decode, if_pos hgt, toNatClampNeg_ofNat (by omega), window, List.take_take,
    min_eq_left (show (host.input.take sdkBufferBytes).length ≤ sdkBufferBytes from hlen), hwindow]

/-- The host call of `write_output`, over a pointer to the data, does what it means. -/
theorem means_writeOutput (hmemory : memory.length < 2 ^ 31) {data : Bytes} {ptr : Int32}
    (hdata : At memory ptr data) :
    (SdkCall.writeOutput data).Means overflowChecks memory host
      (.outputWrite ptr (lengthWord data)) ((SdkCall.writeOutput data).decode 0) := by
  obtain ⟨hrange, hslice⟩ := hdata.slice hmemory
  have hdataLen := lengthWord_gt_iff (hdata.length_lt hmemory) maxReturnDataBytes
  unfold SdkCall.Means
  rw [HostCall.run, outputWrite, SdkCall.perform]
  by_cases hd : data.length > maxReturnDataBytes.toNat
  · rw [if_pos (hdataLen.mpr hd), if_pos hd]
    exact ⟨_, memory, rfl, rfl, .refl _ _⟩
  · rw [if_neg (mt hdataLen.mp hd), if_neg hd]
    dsimp only
    rw [if_neg hrange, hslice]
    exact ⟨_, memory, rfl, rfl, .refl _ _⟩

/-- **The SDK over the host ABI**: each function does what it means, and what it reads is in its
buffer. -/
theorem SdkCall.Issues.run (hmemory : memory.length < 2 ^ 31) (hfits : host.FitsBuffer)
    {c : SdkCall} {h : HostCall} {decode : Int32 → Bytes → c.Answer}
    (hissue : c.Issues memory h decode) : c.Means overflowChecks memory host h decode := by
  cases hissue with
  | get hkey hbuf => exact means_get overflowChecks hmemory hfits hkey hbuf
  | set hkey hvalue => exact means_set overflowChecks hmemory hkey hvalue
  | delete hkey => exact means_delete overflowChecks hmemory hkey
  | blockHeight hbuf => exact means_blockHeight overflowChecks hmemory hbuf
  | readInput hbuf => exact means_readInput overflowChecks hmemory hbuf
  | writeOutput hdata => exact means_writeOutput overflowChecks hmemory hdata

end Host

/-! ### Runs of a contract -/

section Runs

variable {host : HostState}

/-- A key that is put is looked up, and all else as before. -/
theorem HostState.lookup_put (host : HostState) (key : Bytes) (value : Option Bytes) :
    (host.put key value).lookup = Function.update host.lookup key value :=
  congrArg DirectState.storage (host.direct_insert key value)

/-- So it is in the overlay. -/
theorem HostState.getElem?_put (host : HostState) (key key' : Bytes) (value : Option Bytes) :
    (host.put key value).overlay[key']? =
      if key = key' then some value else host.overlay[key']? := by
  rw [HostState.put, Std.ExtTreeMap.getElem?_insert]
  simp only [Std.LawfulEqOrd.compare_eq_iff_eq]

/-- Putting values that fit the buffer. -/
theorem HostState.FitsBuffer.put (h : host.FitsBuffer) (key : Bytes) {value : Option Bytes}
    (hvalue : ∀ v, value = some v → v.length ≤ sdkBufferBytes) :
    (host.put key value).FitsBuffer := by
  intro key' v hv
  rw [host.lookup_put, Function.update_apply] at hv
  split_ifs at hv
  · exact hvalue v hv
  · exact h key' v hv

/-- Calls of the SDK leave values that fit the buffer. -/
theorem HostState.FitsBuffer.perform (h : host.FitsBuffer) (c : SdkCall) :
    (c.perform host).2.FitsBuffer := by
  cases c with
  | get key => exact h
  | set key value =>
      rw [SdkCall.perform]
      split_ifs with hrefused
      · exact h
      · rw [not_or, not_or, not_lt, not_lt] at hrefused
        exact h.put key fun v hv => Option.some.inj hv ▸ hrefused.2.1
  | delete key =>
      rw [SdkCall.perform]
      split_ifs
      · exact h
      · exact h.put key fun v hv => by cases hv
  | blockHeight => exact h
  | readInput => exact h
  | writeOutput data =>
      rw [SdkCall.perform]
      split_ifs <;> exact h

/-- There is room for so many more keys in the overlay. -/
def HostState.Room (host : HostState) (n : ℕ) : Prop :=
  host.overlay.size + n ≤ maxStorageWritesPerCall.toNat

/-- A call starts with room for 256 keys. -/
theorem HostState.room_init (ctx : CallContext) (store : StateView) :
    (HostState.init ctx store).Room 256 := by
  rw [Room, HostState.init, Std.ExtTreeMap.size_empty]
  decide

/-- A key that is put takes room for one. -/
theorem HostState.Room.put {n : ℕ} (h : host.Room (n + 1)) (key : Bytes) (value : Option Bytes) :
    (host.put key value).Room n := by
  have hsize : (host.put key value).overlay.size ≤ host.overlay.size + 1 :=
    Std.ExtTreeMap.size_insert_le
  rw [Room] at h ⊢
  omega

/-- Room for more is room for less. -/
theorem HostState.Room.mono {m n : ℕ} (h : host.Room n) (hmn : m ≤ n) : host.Room m := by
  rw [Room] at h ⊢
  omega

/-- Where there is room the overlay is not full. -/
theorem HostState.Room.not_full {n : ℕ} (h : host.Room (n + 1)) (key : Bytes) :
    host.overlayFull key = false := by
  rw [Room] at h
  rw [overlayFull, Bool.and_eq_false_iff]
  exact Or.inl (decide_eq_false (by omega))

/-- A write within the limits, with room for it. -/
theorem SdkCode.run_set {n : ℕ} (h : host.Room (n + 1)) {key value : Bytes}
    (hkey : key.length ≤ maxStorageKeyBytes.toNat)
    (hvalue : value.length ≤ maxStorageValueBytes.toNat) :
    (Sdk.set key value).run host = (true, host.put key (some value)) := by
  refine (Prog.evalState_call _ _).trans (if_neg ?_)
  rw [h.not_full key, not_or, not_or, not_lt, not_lt]
  exact ⟨hkey, hvalue, Bool.false_ne_true⟩

/-- An output within the limit. -/
theorem SdkCode.run_writeOutput {data : Bytes} (h : data.length ≤ maxReturnDataBytes.toNat) :
    (Sdk.writeOutput data).run host = (true, { host with output := data }) :=
  (Prog.evalState_call _ _).trans (if_neg (not_lt.mpr h))

/-- `get` looks up. -/
@[simp] theorem SdkCode.run_get (key : Bytes) :
    (Sdk.get key).run host = (host.lookup key, host) := rfl

/-- `read_input` reads at most its buffer. -/
@[simp] theorem SdkCode.run_readInput :
    Sdk.readInput.run host = (host.input.take sdkBufferBytes, host) := rfl

/-- A pure contract keeps the state. -/
@[simp] theorem SdkCode.run_pure {α : Type} (a : α) : (pure a : SdkCode α).run host = (a, host) :=
  rfl

/-- The second part starts in the state that the first one leaves. -/
@[simp] theorem SdkCode.run_bind {α β : Type} (p : SdkCode α) (f : α → SdkCode β) :
    (p >>= f).run host = (f (p.run host).1).run (p.run host).2 :=
  Prog.evalState_bind p f host

/-- **A module runs its contract**, or stops with an error. -/
theorem Compiles.run {p : Contract} {g : Guest} (h : Compiles p g) (overflowChecks : Bool)
    (hfits : host.FitsBuffer) : ∃ fuelLeft,
      g.run overflowChecks host = .ok (fuelLeft, .ok (p.run host).1, (p.run host).2) ∨
        ∃ message host', g.run overflowChecks host = .ok (fuelLeft, .error message, host') := by
  induction h generalizing host with
  | done fuelLeft => exact ⟨fuelLeft, Or.inl rfl⟩
  | stop fuelLeft message => exact ⟨fuelLeft, Or.inr ⟨message, host, rfl⟩⟩
  | call hmemory hissue hrest ih =>
      obtain ⟨code, memory', hcall, hdecode, hkeeps⟩ := hissue.run overflowChecks hmemory hfits
      obtain ⟨fuelLeft, hrun⟩ := ih code memory' hkeeps (hfits.perform _)
      refine ⟨fuelLeft, ?_⟩
      rw [Guest.run, hcall]
      rw [hdecode] at hrun
      exact hrun

end Runs

/-! ### Calls -/

/-- The code implements the contract. -/
def Engine.Implements (E : Engine) (wasm : Bytes) (dispatch : Int32 → Int32 → Contract) : Prop :=
  ∀ m fuel g, parseModuleContained E wasm = .ok m → E.instantiate m fuel = .ok (some g) →
    ∀ opcode inputLen, Compiles (dispatch opcode inputLen) (g opcode inputLen)

/-- The contract of a call, with the words that the node passes to it. -/
def CallContext.contract (ctx : CallContext) (dispatch : Int32 → Int32 → Contract) : Contract :=
  dispatch (Int32.ofNat ctx.opcode.toNat) (Int32.ofNat ctx.input.length)

/-- The opcode, as a contract reads it from its word. -/
theorem toUInt16_opcodeWord (opcode : UInt16) :
    (Int32.ofNat opcode.toNat).toUInt32.toUInt16 = opcode := by
  rw [← UInt16.toNat_inj]
  simp

section Execute

variable {E : Engine} {overflowChecks : Bool} {ctx : CallContext} {state : StateView}
  {dispatch : Int32 → Int32 → Contract}

/-- The values of a store fit the buffer of the SDK. -/
def StateView.FitsBuffer (state : StateView) : Prop :=
  ∀ id key v, state.storageGet id key = some v → v.length ≤ sdkBufferBytes

/-- A call on a store whose values fit the buffer. -/
theorem StateView.FitsBuffer.init (h : state.FitsBuffer) (ctx : CallContext) :
    (HostState.init ctx state).FitsBuffer := by
  intro key v hv
  rw [HostState.lookup, HostState.init] at hv
  simp only [Std.ExtTreeMap.getElem?_empty] at hv
  exact h _ _ _ hv

/-- The guest of a call to the code is a compiled contract. -/
theorem Engine.Implements.compiles {wasm : Bytes} (hE : E.Implements wasm dispatch)
    {codeHash : CodeHash} (hcode : state.getContract ctx.contractId = some (codeHash, wasm))
    {g : Guest} (hg : CallRuns E ctx state g) : Compiles (ctx.contract dispatch) g := by
  obtain ⟨_, wasm', m, d, hcode', hparse, hinst, rfl⟩ := hg
  obtain ⟨-, rfl⟩ := Prod.mk.inj (Option.some.inj (hcode.symm.trans hcode'))
  exact hE m ctx.fuelLimit d hparse hinst _ _

/-- **A call of a contract returns.** -/
theorem execute_of_implements {codeHash : CodeHash} {wasm : Bytes}
    (hcode : state.getContract ctx.contractId = some (codeHash, wasm))
    (hE : E.Implements wasm dispatch) (hfits : state.FitsBuffer) :
    ∃ result, execute E overflowChecks ctx state = .ok result := by
  rw [execute, hcode]
  split
  · exact ⟨_, rfl⟩
  dsimp only
  cases hparse : parseModuleContained E wasm with
  | error reason => exact ⟨_, rfl⟩
  | ok m =>
      dsimp only
      cases E.setFuel ctx.fuelLimit with
      | some e => exact ⟨_, rfl⟩
      | none =>
          dsimp only
          cases hinst : E.instantiate m ctx.fuelLimit with
          | error e => exact ⟨_, rfl⟩
          | ok g =>
              cases g with
              | none => exact ⟨_, rfl⟩
              | some g =>
                  have hcompiles :=
                    hE.compiles hcode ⟨codeHash, wasm, m, g, hcode, hparse, hinst, rfl⟩
                  obtain ⟨fuelLeft, hrun | ⟨message, host', hrun⟩⟩ :=
                    hcompiles.run overflowChecks (hfits.init ctx)
                  · exact ⟨_, by dsimp only; rw [hrun]; rfl⟩
                  · exact ⟨_, by dsimp only; rw [hrun]; rfl⟩

/-- **A call that succeeds does what the contract does.** -/
theorem run_of_execute_success {codeHash : CodeHash} {wasm : Bytes}
    (hcode : state.getContract ctx.contractId = some (codeHash, wasm))
    (hE : E.Implements wasm dispatch) (hfits : state.FitsBuffer) {output : Bytes} {fuelUsed : ℕ}
    {writes : List StorageWrite}
    (h : execute E overflowChecks ctx state = .ok (.success output fuelUsed writes)) :
    ∃ host, (ctx.contract dispatch).run (.init ctx state) = (0, host) ∧ output = host.output ∧
      writes = host.writes := by
  obtain ⟨g, fuelLeft, host, hg, hrun, houtput, -, hwrites⟩ := exists_run_of_execute_success h
  obtain ⟨fuelLeft', hrun' | ⟨message, host', hrun'⟩⟩ :=
    (hE.compiles hcode hg).run overflowChecks (hfits.init ctx)
  · rw [hrun] at hrun'
    obtain ⟨-, hrest⟩ := Prod.mk.inj (Except.ok.inj hrun')
    obtain ⟨hcode, hhost⟩ := Prod.mk.inj hrest
    exact ⟨host, Prod.ext (Except.ok.inj hcode).symm hhost.symm, houtput, hwrites⟩
  · rw [hrun] at hrun'
    obtain ⟨-, hrest⟩ := Prod.mk.inj (Except.ok.inj hrun')
    cases (Prod.mk.inj hrest).1

/-- The state of a call is always over the same store. -/
theorem SdkCode.run_frame {α : Type} (p : SdkCode α) (host : HostState) :
    (p.run host).2.contractId = host.contractId ∧ (p.run host).2.base = host.base := by
  refine Prog.evalState_invariant (I := fun h : HostState =>
    h.contractId = host.contractId ∧ h.base = host.base) (fun h c hh => ?_) p ⟨rfl, rfl⟩
  cases c with
  | get key => exact hh
  | set key value =>
      rw [SdkCall.perform]
      split_ifs <;> exact hh
  | delete key =>
      rw [SdkCall.perform]
      split_ifs <;> exact hh
  | blockHeight => exact hh
  | readInput => exact hh
  | writeOutput data =>
      rw [SdkCall.perform]
      split_ifs <;> exact hh

end Execute

/-! ### Reachable stores -/

section Reachable

variable {σ : Type} (S : StateStore σ) (P : Platform) (config : IndexerConfig)

/-- What the SDK and the contracts that use it do on the stores that the indexer reaches. -/
structure SdkRefinesStorage (s₀ : σ) : Prop where
  /-- At every point of a call, each function of the SDK does what it means, and the host fills no
  memory outside of its buffer. -/
  functions : ∀ s, IndexRun S P config 0 s₀ s → ∀ ctx (before : Contract) (c : SdkCall) memory h
    decode, memory.length < 2 ^ 31 → c.Issues memory h decode →
      c.Means P.overflowChecks memory (before.run (.init ctx (S.view s))).2 h decode
  /-- A call of a contract returns. If it succeeds, its output is that of the contract, and after
  its commit the storage is the one that the contract left. -/
  calls : ∀ s, IndexRun S P config 0 s₀ s → ∀ ctx codeHash wasm dispatch,
    (S.view s).getContract ctx.contractId = some (codeHash, wasm) →
    P.engine.Implements wasm dispatch →
      ∃ result, execute P.engine P.overflowChecks ctx (S.view s) = .ok result ∧
        ∀ output fuelUsed writes, result = .success output fuelUsed writes →
          ∃ host, (ctx.contract dispatch).run (.init ctx (S.view s)) = (0, host) ∧
            host.output = output ∧
            ∀ height hash key, (S.view (S.commitBlock s (result.commit height hash)).1).storageGet
              ctx.contractId key = host.lookup key

variable {S P config} {Rep : σ → List BlockCommit → Prop}

/-- The values of an index fit the buffer of the SDK. -/
theorem Indexed.fitsBuffer {cs : List BlockCommit} (h : Indexed P config cs) :
    (ledgerOf cs).view.FitsBuffer := fun id key v hv =>
  (h.withinLimits.storage (id, key, v) (List.mem_map.mpr
    ⟨((id, key), v), Std.ExtTreeMap.mem_toList_iff_getElem?_eq_some.mpr hv, rfl⟩)).2

/-- So do those of a reachable store. -/
theorem LawfulStore.fitsBuffer_of_run (L : LawfulStore P.hashing S Rep) (hE : P.engine.Metered)
    {s₀ s : σ} (h₀ : Rep s₀ []) (h : IndexRun S P config 0 s₀ s) : (S.view s).FitsBuffer := by
  obtain ⟨cs, hs, hcs⟩ := L.indexed_of_run hE h₀ .nil h
  rw [L.view hs (hcs.regular hE)]
  exact hcs.fitsBuffer

/-- The SDK refines the storage on every lawful store that commits. -/
theorem LawfulStore.sdkRefinesStorage (L : LawfulStore P.hashing S Rep)
    (hS : S.Committing P.hashing) (hE : P.engine.Metered) {s₀ : σ} (h₀ : Rep s₀ []) :
    SdkRefinesStorage S P config s₀ where
  functions s h ctx before c memory hc decode hmemory hissue :=
    hissue.run P.overflowChecks hmemory (Prog.evalState_invariant (fun _ c h => h.perform c) before
      ((L.fitsBuffer_of_run hE h₀ h).init ctx))
  calls s h ctx codeHash wasm dispatch hcode hdispatch := by
    have hfits := L.fitsBuffer_of_run hE h₀ h
    obtain ⟨result, hexec⟩ := execute_of_implements hcode hdispatch hfits
    refine ⟨result, hexec, fun output fuelUsed writes hresult => ?_⟩
    obtain rfl := hresult
    obtain ⟨host, hrun, houtput, -⟩ := run_of_execute_success hcode hdispatch hfits hexec
    refine ⟨host, hrun, houtput.symm, fun height hash key => ?_⟩
    obtain ⟨g, fuelLeft, d, hg, hdirect, -, hstorage, -⟩ :=
      (hS.commitsDirectStorage P.engine P.overflowChecks s ctx _ height hash hexec).1 _ _ _ rfl
    rw [hstorage]
    -- The private copy of the run is what the contract left.
    obtain ⟨fuelLeft', hcompiled⟩ :=
      (hdispatch.compiles hcode hg).run P.overflowChecks (hfits.init ctx)
    have hcopy := Guest.runDirect_direct P.overflowChecks g (HostState.init ctx (S.view s))
    rw [HostState.direct_init, hdirect] at hcopy
    rcases hcompiled with hcompiled | ⟨message, host', hcompiled⟩
    · rw [hcompiled, hrun] at hcopy
      exact congrArg (fun d => d.2.2.storage key) (Except.ok.inj hcopy)
    · rw [hcompiled] at hcopy
      cases (Prod.mk.inj (Prod.mk.inj (Except.ok.inj hcopy)).2).1

/-- **The SDK refines storage**, on both backends. -/
theorem sdk_refines_storage (P : Platform) (config : IndexerConfig) (hE : P.engine.Metered) :
    SdkRefinesStorage (MemoryState.store P.hashing) P config MemoryState.new ∧
      SdkRefinesStorage (RocksState.store P.hashing P.json) P config RocksState.fresh :=
  ⟨(MemoryState.lawful P.hashing).sdkRefinesStorage (MemoryState.committing P.hashing) hE rfl,
    (RocksState.lawful P.hashing P.json).sdkRefinesStorage
      (RocksState.committing P.hashing P.json) hE
      (RocksState.AgreesOff.refl RocksState.IsExec RocksState.fresh)⟩

end Reachable

/-! ### An engine for one contract -/

/-- The arguments of a call, and space for its buffer. -/
def SdkCall.heap : SdkCall → Bytes
  | get key => key ++ List.replicate sdkBufferBytes 0
  | set key value => key ++ value
  | delete key => key
  | blockHeight => List.replicate 4 0
  | readInput => List.replicate sdkBufferBytes 0
  | writeOutput data => data

/-- Where a key is: in the data segment in front of the heap, if it is there, and else first in the
heap. -/
def keyPtr (data key : Bytes) : Int32 := if key = data then 0 else lengthWord data

/-- The buffer of the call in the heap behind the data segment. -/
def SdkCall.bufferPtr (data : Bytes) : SdkCall → Int32
  | get key => lengthWord (data ++ key)
  | set _ _ => 0
  | delete _ => 0
  | blockHeight => lengthWord data
  | readInput => lengthWord data
  | writeOutput _ => 0

/-- The host call over the data segment and the heap. -/
def SdkCall.hostCall (data : Bytes) : SdkCall → HostCall
  | get key => .storageGet (keyPtr data key) (lengthWord key) (lengthWord (data ++ key))
  | set key value =>
      .storageSet (keyPtr data key) (lengthWord key) (lengthWord (data ++ key)) (lengthWord value)
  | delete key => .storageDelete (keyPtr data key) (lengthWord key)
  | blockHeight => .contextBlockHeight (lengthWord data)
  | readInput => .inputRead (lengthWord data) 0 (Int32.ofNat sdkBufferBytes)
  | writeOutput output => .outputWrite (lengthWord data) (lengthWord output)

/-- A module that runs a contract on so much fuel, one unit for each call of the host. Its data
segment is what the last host call left of it; the heap behind it is made anew for each call. -/
def Contract.compile (data : Bytes) : Contract → (segment : Bytes) → ℕ → Guest
  | .done code, _, fuel => .done fuel (.ok code)
  | .perform _ _, _, 0 => .done 0 (.error "all fuel consumed by WebAssembly")
  | .perform c resume, segment, fuel + 1 =>
      if (segment ++ c.heap).length < 2 ^ 31 then
        .call (c.hostCall data) (some (segment ++ c.heap)) fun code memory =>
          match memory with
          | some memory => Contract.compile data (resume (c.decode (c.bufferPtr data) code memory))
              (memory.take data.length) fuel
          | none => .done fuel (.error "wasm `unreachable` instruction executed")
      else .done fuel (.error "wasm `unreachable` instruction executed")

/-- An engine whose only code is that of one contract, with a data segment. -/
def contractEngine (wasm data : Bytes) (dispatch : Int32 → Int32 → Contract) : Engine where
  Module := Unit
  parse := fun code => some (if code = wasm then .ok () else .error "not the code")
  setFuel := fun _ => none
  instantiate := fun _ fuel => .ok (some fun opcode inputLen =>
    (dispatch opcode inputLen).compile data data fuel)
  parseAll := fun _ => []

/-- A node with this engine. -/
def contractPlatform (H : Hashing) (json : Execution → Except String Bytes) (wasm data : Bytes)
    (dispatch : Int32 → Int32 → Contract) : Platform :=
  { registerPlatform H json with engine := contractEngine wasm data dispatch }

section Compile

variable {data key : Bytes}

/-- Bytes between others are where they are. -/
theorem at_append (before bs after : Bytes) (h : before.length < 2 ^ 31) :
    At (before ++ (bs ++ after)) (lengthWord before) bs where
  room := by
    rw [Room, List.length_append, List.length_append, lengthWord, asUsize_ofNat h]
    omega
  bytes := by
    rw [window, lengthWord, asUsize_ofNat h, List.drop_left' rfl, List.take_left' rfl]

/-- A key is where its pointer points. -/
theorem at_keyPtr (after : Bytes) (h : (data ++ (key ++ after)).length < 2 ^ 31) :
    At (data ++ (key ++ after)) (keyPtr data key) key := by
  rw [List.length_append] at h
  rw [keyPtr]
  split_ifs with hkey
  · rw [hkey]
    exact at_append [] data _ (by decide)
  · exact at_append data key after (by omega)

/-- A buffer behind the data segment. -/
theorem room_heap {n : ℕ} (h : (data ++ (key ++ List.replicate n 0)).length < 2 ^ 31) :
    Room (data ++ (key ++ List.replicate n 0)) (lengthWord (data ++ key)) n := by
  rw [List.length_append, List.length_append, List.length_replicate] at h
  have hroom := (at_append (data ++ key) (List.replicate n 0) [] (by
    rw [List.length_append]
    omega)).room
  rwa [List.append_nil, List.length_replicate, List.append_assoc] at hroom

/-- The layout is one that the SDK may have. -/
theorem SdkCall.issues_hostCall (c : SdkCall) (h : (data ++ c.heap).length < 2 ^ 31) :
    c.Issues (data ++ c.heap) (c.hostCall data) (c.decode (c.bufferPtr data)) := by
  cases c with
  | get key => exact .get (at_keyPtr _ h) (room_heap h)
  | set key value =>
      refine .set (at_keyPtr _ h) ?_
      have hvalue := at_append (data ++ key) value [] (by
        rw [heap, List.length_append, List.length_append] at h
        rw [List.length_append]
        omega)
      rwa [List.append_nil, List.append_assoc] at hvalue
  | delete key =>
      have hkey : At (data ++ (key ++ [])) (keyPtr data key) key :=
        at_keyPtr [] (by rwa [List.append_nil])
      rw [List.append_nil] at hkey
      exact .delete hkey
  | blockHeight =>
      have hroom : Room (data ++ ([] ++ List.replicate 4 0)) (lengthWord (data ++ [])) 4 :=
        room_heap h
      rw [List.append_nil] at hroom
      exact .blockHeight hroom
  | readInput =>
      have hroom : Room (data ++ ([] ++ List.replicate sdkBufferBytes 0)) (lengthWord (data ++ []))
          sdkBufferBytes := room_heap h
      rw [List.append_nil] at hroom
      exact .readInput hroom
  | writeOutput output =>
      have houtput := at_append data output [] (by
        rw [List.length_append] at h
        omega)
      rw [List.append_nil] at houtput
      exact .writeOutput houtput

/-- **The data segment stays**: the buffers are behind it. -/
theorem take_of_keepsOutside (c : SdkCall) (h : (data ++ c.heap).length < 2 ^ 31)
    {memory' : Bytes} (hkeeps : (c.hostCall data).KeepsOutside (data ++ c.heap) memory') :
    memory'.take data.length = data := by
  have hbuffer : ∀ b ∈ (c.hostCall data).buffer, data.length ≤ asUsize b.1 := by
    intro b hb
    cases c with
    | get key =>
        cases hb
        rw [List.length_append, SdkCall.heap, List.length_append] at h
        rw [lengthWord, asUsize_ofNat (by rw [List.length_append]; omega), List.length_append]
        omega
    | set _ _ | delete _ | writeOutput _ => cases hb
    | blockHeight | readInput =>
        cases hb
        rw [List.length_append] at h
        rw [lengthWord, asUsize_ofNat (by omega)]
  refine List.ext_getElem? fun i => ?_
  rw [List.getElem?_take]
  split_ifs with hi
  · rw [hkeeps.2 i fun b hb => Or.inl (hi.trans_le (hbuffer b hb)), List.getElem?_append_left hi]
  · rw [List.getElem?_eq_none (by omega)]

/-- What was compiled is a compiled contract. -/
theorem Contract.compiles_compile (data : Bytes) (p : Contract) (fuel : ℕ) :
    Compiles p (p.compile data data fuel) := by
  induction p generalizing fuel with
  | done code => exact .done fuel
  | perform c resume ih =>
      cases fuel with
      | zero => exact .stop _ _
      | succ fuel =>
          rw [compile]
          split_ifs with h
          · refine .call h (c.issues_hostCall h) fun code memory' hkeeps => ?_
            dsimp only
            rw [take_of_keepsOutside c h hkeeps]
            exact ih _ fuel
          · exact .stop _ _

/-- From this state the contract makes at most so many calls, each with arguments that fit into
memory. -/
def Contract.Fits (data : Bytes) : Contract → ℕ → HostState → Prop
  | .done _, _, _ => True
  | .perform _ _, 0, _ => False
  | .perform c resume, n + 1, host =>
      (data ++ c.heap).length < 2 ^ 31 ∧
        Contract.Fits data (resume (c.perform host).1) n (c.perform host).2

/-- **A module with fuel for the calls of its contract runs it to the end.** -/
theorem Contract.run_compile (overflowChecks : Bool) {p : Contract} {n fuel : ℕ}
    {host : HostState} (hp : p.Fits data n host) (hfuel : n ≤ fuel) (hfits : host.FitsBuffer) :
    ∃ fuelLeft, (p.compile data data fuel).run overflowChecks host =
      .ok (fuelLeft, .ok (p.run host).1, (p.run host).2) := by
  induction p generalizing n fuel host with
  | done code => exact ⟨fuel, rfl⟩
  | perform c resume ih =>
      cases n with
      | zero => exact hp.elim
      | succ n =>
          obtain ⟨fuel, rfl⟩ := Nat.exists_eq_succ_of_ne_zero (show fuel ≠ 0 by omega)
          obtain ⟨hmemory, hrest⟩ := hp
          obtain ⟨code, memory', hcall, hdecode, hkeeps⟩ :=
            (c.issues_hostCall hmemory).run overflowChecks hmemory hfits
          obtain ⟨fuelLeft, hrun⟩ := ih _ hrest (Nat.le_of_succ_le_succ hfuel) (hfits.perform c)
          refine ⟨fuelLeft, ?_⟩
          rw [compile, if_pos hmemory, Guest.run, hcall]
          simp only [bind, Except.bind]
          rw [take_of_keepsOutside c hmemory hkeeps, hdecode]
          exact hrun

/-- It uses no more fuel than it is given. -/
theorem Contract.metered_compile (data : Bytes) (p : Contract) (segment : Bytes) (fuel : ℕ) :
    (p.compile data segment fuel).Metered fuel := by
  induction p generalizing segment fuel with
  | done code => exact le_rfl
  | perform c resume ih =>
      cases fuel with
      | zero => exact le_rfl
      | succ fuel =>
          rw [compile]
          split_ifs
          · refine ⟨fuel.succ_pos, fun code memory => ?_⟩
            cases memory with
            | some memory => exact ih _ _ fuel
            | none => exact le_rfl
          · exact Nat.le_succ fuel

/-- The engine of a contract is metered. -/
theorem contractEngine_metered (wasm data : Bytes) (dispatch : Int32 → Int32 → Contract) :
    (contractEngine wasm data dispatch).Metered := by
  intro m fuel g hg opcode inputLen
  obtain rfl := Option.some.inj (Except.ok.inj hg)
  exact Contract.metered_compile _ _ _ _

/-- The engine implements its contract, with what the contract reads time and again in its data
segment. -/
theorem contractEngine_implements (wasm data : Bytes) (dispatch : Int32 → Int32 → Contract)
    {code : Bytes} : (contractEngine wasm data dispatch).Implements code dispatch := by
  intro m fuel g _ hg opcode inputLen
  obtain rfl := Option.some.inj (Except.ok.inj hg)
  exact Contract.compiles_compile _ _ _

/-- A call of a contract that ends with code 0 succeeds in its engine, with fuel for its calls. -/
theorem execute_contractEngine {wasm : Bytes} {dispatch : Int32 → Int32 → Contract}
    (overflowChecks : Bool) {ctx : CallContext} {state : StateView} {codeHash : CodeHash}
    (hdepth : ctx.depth = 0) (hcode : state.getContract ctx.contractId = some (codeHash, wasm))
    (hfits : (HostState.init ctx state).FitsBuffer) {n : ℕ}
    (hcalls : (ctx.contract dispatch).Fits data n (.init ctx state)) (hn : n ≤ ctx.fuelLimit)
    {host : HostState} (hrun : (ctx.contract dispatch).run (.init ctx state) = (0, host)) :
    ∃ fuelUsed, execute (contractEngine wasm data dispatch) overflowChecks ctx state =
      .ok (.success host.output fuelUsed host.writes) := by
  obtain ⟨fuelLeft, hguest⟩ :=
    Contract.run_compile overflowChecks hcalls hn hfits
  refine ⟨ctx.fuelLimit - fuelLeft, ?_⟩
  have hparse : parseModuleContained (contractEngine wasm data dispatch) wasm = .ok () := by
    rw [parseModuleContained]
    simp only [contractEngine, if_true]
  rw [execute, hdepth, if_neg (by decide), hcode]
  dsimp only
  rw [hparse]
  change ((ctx.contract dispatch).compile data data ctx.fuelLimit).run overflowChecks
    (.init ctx state) >>= _ = _
  rw [hguest, hrun]
  rfl

/-- A contract that keeps its input at the empty key, and returns it. -/
def keepInput (_opcode _inputLen : Int32) : Contract := do
  let input ← Sdk.readInput
  let _ ← Sdk.set [] input
  let _ ← Sdk.writeOutput input
  return 0

/-- A call with an input of one byte makes three calls of the host, and leaves the input. -/
theorem run_keepInput {ctx : CallContext} (state : StateView) {byte : UInt8}
    (hinput : ctx.input = [byte]) :
    (ctx.contract keepInput).Fits [] 3 (.init ctx state) ∧
      ∃ host, (ctx.contract keepInput).run (.init ctx state) = (0, host) ∧
        host.output = [byte] ∧ host.lookup [] = some [byte] := by
  have hroom := (HostState.room_init ctx state).mono (show 1 ≤ 256 by decide)
  have hread : ([] ++ SdkCall.readInput.heap).length < 2 ^ 31 := by
    rw [List.nil_append, SdkCall.heap, List.length_replicate]
    decide
  have hkey : ([] : Bytes).length ≤ maxStorageKeyBytes.toNat := Nat.zero_le _
  have hvalue : [byte].length ≤ maxStorageValueBytes.toNat := show 1 ≤ _ by decide
  have houtput : [byte].length ≤ maxReturnDataBytes.toNat := show 1 ≤ _ by decide
  have htake : (HostState.init ctx state).input.take sdkBufferBytes = [byte] := by
    change ctx.input.take sdkBufferBytes = [byte]
    rw [hinput]
    rfl
  refine ⟨⟨hread, ?_, ?_, trivial⟩, ?_⟩
  · change ([] ++ ([] ++ (HostState.init ctx state).input.take sdkBufferBytes)).length < 2 ^ 31
    rw [htake]
    exact show 1 < 2 ^ 31 by decide
  · change ([] ++ (HostState.init ctx state).input.take sdkBufferBytes).length < 2 ^ 31
    rw [htake]
    exact show 1 < 2 ^ 31 by decide
  · rw [CallContext.contract, keepInput, SdkCode.run_bind, SdkCode.run_readInput, htake]
    dsimp only
    rw [SdkCode.run_bind, SdkCode.run_set hroom hkey hvalue]
    dsimp only
    rw [SdkCode.run_bind, SdkCode.run_writeOutput houtput]
    have hlookup := congrFun ((HostState.init ctx state).lookup_put [] (some [byte])) []
    rw [Function.update_self] at hlookup
    exact ⟨_, rfl, rfl, hlookup⟩

/-- The contract is deployed and called: it returns its input, and the commit keeps it. -/
theorem sdk_refines_storage_contract :
    (contractEngine [0] [] keepInput).Metered ∧
    ∀ (H : Hashing) (json : Execution → Except String Bytes),
      let P := contractPlatform H json [0] [] keepInput
      let S := RocksState.store H json
      let ctx := callCodeContext H [0] 1 [7]
      ∃ s fuelUsed writes, IndexRun S P regtestConfig 0 RocksState.fresh s ∧
        execute P.engine P.overflowChecks ctx (S.view s) = .ok (.success [7] fuelUsed writes) ∧
        ∀ height hash, (S.view (S.commitBlock s
          ((CallResult.success [7] fuelUsed writes).commit height hash)).1).storageGet
            ctx.contractId [] = some [7] := by
  refine ⟨contractEngine_metered [0] [] keepInput, fun H json => ?_⟩
  intro P S ctx
  have hmetered : P.engine.Metered := contractEngine_metered [0] [] keepInput
  have hfresh := RocksState.AgreesOff.refl RocksState.IsExec RocksState.fresh
  have L : LawfulStore P.hashing S _ := RocksState.lawful H json
  obtain ⟨s, res, c, hs, hbelow, hrep, hindexed, -, hcode, -⟩ :=
    L.exists_deployed hmetered hfresh (show 1 ≤ ([0] : Bytes).length by decide) (by decide) rfl
  have hrun : IndexRun S P regtestConfig 0 RocksState.fresh s := .single (.block _ hbelow hs)
  have hcontract : (S.view s).getContract ctx.contractId = some (CodeHash.of H [0], [0]) := by
    rw [L.view hrep (hindexed.regular hmetered)]
    exact hcode
  obtain ⟨hcalls, host, hkeep, houtput, hlookup⟩ :=
    @run_keepInput ctx (S.view s) 7 rfl
  obtain ⟨fuelUsed, hexec⟩ := execute_contractEngine P.overflowChecks rfl hcontract
    ((L.fitsBuffer_of_run hmetered hfresh hrun).init ctx) hcalls
    (show 3 ≤ maxFuelPerCall by decide) hkeep
  rw [houtput] at hexec
  obtain ⟨result, hresult, hsuccess⟩ :=
    (sdk_refines_storage P regtestConfig hmetered).2.calls s hrun ctx _ _ keepInput hcontract
      (contractEngine_implements [0] [] keepInput)
  obtain rfl := Except.ok.inj (hresult.symm.trans hexec)
  obtain ⟨host', hkeep', -, hstorage⟩ := hsuccess _ _ _ rfl
  obtain rfl : host' = host := congrArg Prod.snd (hkeep'.symm.trans hkeep)
  exact ⟨s, fuelUsed, _, hrun, hexec, fun height hash => (hstorage height hash []).trans hlookup⟩

end Compile

end Zalkanes
