import Zalkanes.Lib.Bytes

/-!
# Checked Machine Operations

The operations of a 64-bit machine that can panic, or that a program uses to avoid a panic:
casts from `i32`, additions that saturate, that are checked or that overflow, and slices. A
`usize` is a natural number below `2 ^ 64`.

What a plain addition does when it overflows depends on how the program is built: with overflow
checks it panics, without them it wraps.

## Main results

* `slice_eq_ok_iff`, `copyFromSlice_eq_ok`: slices and copies in range.
* `asUsize_lt`, `asUsize_of_nonneg`, `asUsize_of_neg`: the cast sign-extends.
-/

namespace Lib

/-- Why a program panics. -/
inductive Panic where
  /-- An addition or a subtraction left the range of its type. -/
  | overflow
  /-- A slice starts after its end. -/
  | sliceOrder
  /-- A slice ends after the end of the data. -/
  | sliceEnd
  /-- The source and the destination of a copy have different lengths. -/
  | copyLength
  deriving DecidableEq, Repr

/-- `x as usize`: sign extension to 64 bits. -/
def asUsize (x : Int32) : ℕ := (x.toInt % 2 ^ 64).toNat

/-- `a.saturating_add(b)`. -/
def saturatingAdd (a b : ℕ) : ℕ := min (a + b) (2 ^ 64 - 1)

/-- `a.checked_add(b)`. -/
def checkedAdd (a b : ℕ) : Option ℕ := if a + b < 2 ^ 64 then some (a + b) else none

/-- `a + b`: an overflow panics with overflow checks and wraps without them. -/
def plainAdd (overflowChecks : Bool) (a b : ℕ) : Except Panic ℕ :=
  if a + b < 2 ^ 64 then .ok (a + b)
  else if overflowChecks then .error .overflow
  else .ok ((a + b) % 2 ^ 64)

/-- `a + b` on `u32`. -/
def plainAdd32 (overflowChecks : Bool) (a b : UInt32) : Except Panic UInt32 :=
  if a.toNat + b.toNat < 2 ^ 32 then .ok (a + b)
  else if overflowChecks then .error .overflow
  else .ok (a + b)

/-- `a - b` on `u32`. -/
def plainSub32 (overflowChecks : Bool) (a b : UInt32) : Except Panic UInt32 :=
  if b ≤ a then .ok (a - b)
  else if overflowChecks then .error .overflow
  else .ok (a - b)

/-- `i64::try_from(n)`. -/
def toI64 (n : ℕ) : Option ℤ := if n < 2 ^ 63 then some n else none

/-- What a saturating operation on `i64` makes of its exact result. -/
def saturateI64 (a : ℤ) : ℤ := max (-2 ^ 63) (min a (2 ^ 63 - 1))

/-- `&data[s..e]`. -/
def slice (data : Bytes) (s e : ℕ) : Except Panic Bytes :=
  if e < s then .error .sliceOrder
  else if data.length < e then .error .sliceEnd
  else .ok ((data.drop s).take (e - s))

/-- `data[s..e].copy_from_slice(src)`. -/
def copyFromSlice (data : Bytes) (s e : ℕ) (src : Bytes) : Except Panic Bytes :=
  if e < s then .error .sliceOrder
  else if data.length < e then .error .sliceEnd
  else if src.length ≠ e - s then .error .copyLength
  else .ok (data.take s ++ src ++ data.drop e)

/-! ### Fallible steps -/

/-- A result made from a fallible step comes from what the step gives. -/
theorem bind_eq_ok {ε α β : Type} {x : Except ε α} {f : α → Except ε β} {b : β}
    (h : x >>= f = .ok b) : ∃ a, x = .ok a ∧ f a = .ok b := by
  cases x with
  | error e => cases h
  | ok a => exact ⟨a, rfl, h⟩

/-- A result that is mapped was one before. -/
theorem map_eq_ok {ε α β : Type} {x : Except ε α} {f : α → β} {b : β} (h : x.map f = .ok b) :
    ∃ a, x = .ok a ∧ f a = b := by
  cases x with
  | error e => cases h
  | ok a => exact ⟨a, rfl, Except.ok.inj h⟩

/-- A loop all of whose steps succeed. -/
theorem mapM_eq_ok {ε α β : Type} {f : α → Except ε β} {g : α → β} {xs : List α}
    (h : ∀ x ∈ xs, f x = .ok (g x)) : xs.mapM f = .ok (xs.map g) := by
  induction xs with
  | nil => rfl
  | cons x xs ih =>
      rw [List.mapM_cons, h x List.mem_cons_self,
        ih fun y hy => h y (List.mem_cons_of_mem x hy)]
      rfl

/-! ### Casts -/

/-- A machine address has 64 bits. -/
theorem asUsize_lt (x : Int32) : asUsize x < 2 ^ 64 := by
  have := Int.emod_lt_of_pos x.toInt (show (0 : ℤ) < 2 ^ 64 by norm_num)
  have := Int.emod_nonneg x.toInt (show (2 ^ 64 : ℤ) ≠ 0 by norm_num)
  rw [asUsize]
  omega

/-- A word that is not negative is the address. -/
theorem asUsize_of_nonneg {x : Int32} (h : 0 ≤ x.toInt) : (asUsize x : ℤ) = x.toInt := by
  have := x.toInt_lt
  rw [asUsize, Int.emod_eq_of_lt h (by omega)]
  omega

/-- A negative word wraps around. -/
theorem asUsize_of_neg {x : Int32} (h : x.toInt < 0) : (asUsize x : ℤ) = x.toInt + 2 ^ 64 := by
  have := x.le_toInt
  have hmod : x.toInt % 2 ^ 64 = x.toInt + 2 ^ 64 := by omega
  rw [asUsize, hmod]
  omega

/-- A length that fits in 31 bits survives the cast to a word and back. -/
theorem asUsize_ofNat {n : ℕ} (h : n < 2 ^ 31) : asUsize (Int32.ofNat n) = n := by
  have hword := Int32.toInt_ofNat_of_lt h
  have hnonneg := asUsize_of_nonneg (x := Int32.ofNat n) (by omega)
  omega

/-- A number of 32 bits survives the words. -/
theorem toNat_toUInt32_ofNat {n : ℕ} (h : n < 2 ^ 32) : (Int32.ofNat n).toUInt32.toNat = n :=
  toNat_ofNat32 h

/-- A word that is small as `u32` is not negative, so both casts agree. -/
theorem asUsize_le_of_toUInt32_le {x : Int32} {n : UInt32} (hn : n.toNat < 2 ^ 31)
    (h : x.toUInt32 ≤ n) : asUsize x ≤ n.toNat := by
  have hword : x.toInt = x.toUInt32.toBitVec.toInt := rfl
  rw [BitVec.toInt_eq_toNat_cond] at hword
  have hnat : x.toUInt32.toBitVec.toNat = x.toUInt32.toNat := rfl
  rw [UInt32.le_iff_toNat_le] at h
  rw [hnat, if_pos (by omega)] at hword
  have := asUsize_of_nonneg (x := x) (by omega)
  omega

/-! ### Additions -/

/-- A saturating sum is no less. -/
theorem le_saturatingAdd {a : ℕ} (h : a < 2 ^ 64) (b : ℕ) : a ≤ saturatingAdd a b := by
  rw [saturatingAdd]
  omega

/-- A checked sum is the sum, if it fits. -/
theorem checkedAdd_eq_some {a b c : ℕ} : checkedAdd a b = some c ↔ a + b < 2 ^ 64 ∧ a + b = c := by
  rw [checkedAdd]
  split <;> simp_all

/-- A number that fits in a signed word is that number. -/
theorem toI64_eq_some {n : ℕ} {a : ℤ} (h : toI64 n = some a) : n < 2 ^ 63 ∧ a = n := by
  rw [toI64] at h
  split_ifs at h with hlt
  exact ⟨hlt, (Option.some.inj h).symm⟩

/-- A saturating operation whose exact result is in range is exact. -/
theorem saturateI64_eq {a : ℤ} (hle : -2 ^ 63 ≤ a) (hlt : a < 2 ^ 63) : saturateI64 a = a := by
  rw [saturateI64]
  omega

/-- An addition that stays in range is exact, in either build profile. -/
theorem plainAdd32_eq_ok (overflowChecks : Bool) {a b : UInt32} (h : a.toNat + b.toNat < 2 ^ 32) :
    plainAdd32 overflowChecks a b = .ok (a + b) ∧ (a + b).toNat = a.toNat + b.toNat := by
  refine ⟨if_pos h, ?_⟩
  rw [UInt32.toNat_add, Nat.mod_eq_of_lt h]

/-- An addition that does not panic wraps. -/
theorem plainAdd32_ok {overflowChecks : Bool} {a b c : UInt32}
    (h : plainAdd32 overflowChecks a b = .ok c) : c = a + b := by
  unfold plainAdd32 at h
  split at h
  · exact (Except.ok.inj h).symm
  · split at h
    · cases h
    · exact (Except.ok.inj h).symm

/-- Nothing goes wrong where nothing is borrowed. -/
theorem plainSub32_eq_ok (overflowChecks : Bool) {a b : UInt32} (h : b ≤ a) :
    plainSub32 overflowChecks a b = .ok (a - b) ∧ (a - b).toNat = a.toNat - b.toNat :=
  ⟨if_pos h, UInt32.toNat_sub_of_le a b h⟩

/-- A subtraction that does not panic wraps. -/
theorem plainSub32_ok {overflowChecks : Bool} {a b c : UInt32}
    (h : plainSub32 overflowChecks a b = .ok c) : c = a - b := by
  unfold plainSub32 at h
  split at h
  · exact (Except.ok.inj h).symm
  · split at h
    · cases h
    · exact (Except.ok.inj h).symm

/-- Minima agree. -/
theorem toNat_min32 (a b : UInt32) : (min a b).toNat = min a.toNat b.toNat := by
  change (if a ≤ b then a else b).toNat = _
  by_cases h : a ≤ b
  · rw [if_pos h, Nat.min_eq_left (UInt32.le_iff_toNat_le.mp h)]
  · rw [if_neg h, Nat.min_eq_right]
    exact (UInt32.lt_iff_toNat_lt.mp (UInt32.not_le.mp h)).le

/-! ### Slices -/

/-- A slice within the data. -/
theorem slice_eq_ok {data : Bytes} {s e : ℕ} (hse : s ≤ e) (he : e ≤ data.length) :
    slice data s e = .ok ((data.drop s).take (e - s)) := by
  rw [slice, if_neg (by omega), if_neg (by omega)]

/-- A slice is one within the data. -/
theorem slice_eq_ok_iff {data bs : Bytes} {s e : ℕ} :
    slice data s e = .ok bs ↔ s ≤ e ∧ e ≤ data.length ∧ (data.drop s).take (e - s) = bs := by
  constructor
  · intro h
    unfold slice at h
    split at h
    · cases h
    · split at h
      · cases h
      · exact ⟨by omega, by omega, Except.ok.inj h⟩
  · rintro ⟨hse, he, rfl⟩
    exact slice_eq_ok hse he

/-- A slice has the length of its range. -/
theorem length_of_slice {data bs : Bytes} {s e : ℕ} (h : slice data s e = .ok bs) :
    bs.length = e - s := by
  obtain ⟨hse, he, rfl⟩ := slice_eq_ok_iff.mp h
  rw [List.length_take, List.length_drop]
  omega

/-- A slice of a guarded length. -/
theorem length_of_slice_saturating {data bs : Bytes} {ptr len : Int32} {n : UInt32}
    (hn : n.toNat < 2 ^ 31) (hlen : len.toUInt32 ≤ n)
    (h : slice data (asUsize ptr) (saturatingAdd (asUsize ptr) (asUsize len)) = .ok bs) :
    bs.length ≤ n.toNat := by
  have := asUsize_le_of_toUInt32_le hn hlen
  rw [length_of_slice h, saturatingAdd]
  omega

/-- Copying over a window of the same length. -/
theorem copyFromSlice_eq_ok {data src : Bytes} {s e : ℕ} (he : e ≤ data.length)
    (hsrc : e = s + src.length) :
    copyFromSlice data s e src = .ok (data.take s ++ src ++ data.drop e) := by
  rw [copyFromSlice, if_neg (by omega), if_neg (by omega), if_neg (by omega)]

end Lib
