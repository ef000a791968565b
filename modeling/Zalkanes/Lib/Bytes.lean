import Mathlib

/-!
# Byte Strings

Big-endian fields and the order of byte strings. A reader takes a value
off the front of a byte string and returns what is left, or fails when too little is left.

## Main results

* `beValue_beBytes`: a number written in `w` big-endian bytes reads back modulo `256 ^ w`; a
  narrowing cast before writing changes nothing.
* `take?_append`, `readU16_be16`, `readU32_be32`: what a writer puts in front of a string, its
  reader takes off.
* `flatten_chunks`, `length_chunks`: cutting a list into pieces.
* `take_drop_append`, `exists_be16_append`, `exists_be32_append`: fields in a longer string.
* `toNat_ofNat16`, `toNat_ofNat32`: a length that fits its prefix survives the cast to it.
* `compare_append`: the order of strings that start with fields of one length.
-/

namespace Lib

/-- A byte string. -/
abbrev Bytes := List UInt8

/-- The bytes of a literal of ASCII characters. -/
def ascii (literal : String) : Bytes := literal.toList.map fun c => UInt8.ofNat c.toNat

/-! ### Big-endian numbers -/

/-- The `w` low bytes of a number, most significant first. -/
def beBytes : ℕ → ℕ → Bytes
  | 0, _ => []
  | w + 1, n => UInt8.ofNat (n / 256 ^ w) :: beBytes w n

/-- The number a big-endian byte string stands for. -/
def beValue (bs : Bytes) : ℕ :=
  bs.foldl (fun acc b => acc * 256 + b.toNat) 0

/-- A number of `w` bytes has `w` bytes. -/
@[simp] theorem length_beBytes (w n : ℕ) : (beBytes w n).length = w := by
  induction w with
  | zero => rfl
  | succ w ih => simp [beBytes, ih]

/-- The leading byte of `w + 1` bytes is the digit of weight `256 ^ w`. -/
theorem mod_pow_succ (w n : ℕ) :
    n % 256 ^ (w + 1) = (UInt8.ofNat (n / 256 ^ w)).toNat * 256 ^ w + n % 256 ^ w := by
  have hdigit : (UInt8.ofNat (n / 256 ^ w)).toNat = n / 256 ^ w % 256 := UInt8.toNat_ofNat'
  rw [hdigit, pow_succ, Nat.mod_mul, Nat.mul_comm, Nat.add_comm]

/-- Reading the bytes of a number behind other digits. -/
theorem foldl_beBytes (w n acc : ℕ) :
    (beBytes w n).foldl (fun acc b => acc * 256 + b.toNat) acc = acc * 256 ^ w + n % 256 ^ w := by
  induction w generalizing acc with
  | zero => simp [beBytes, Nat.mod_one]
  | succ w ih =>
      rw [beBytes, List.foldl_cons, ih, mod_pow_succ]
      ring

/-- A number written in `w` bytes reads back modulo `256 ^ w`. -/
theorem beValue_beBytes (w n : ℕ) : beValue (beBytes w n) = n % 256 ^ w := by
  rw [beValue, foldl_beBytes, Nat.zero_mul, Nat.zero_add]

/-- A last byte is a last digit. -/
theorem beValue_append_singleton (bs : Bytes) (b : UInt8) :
    beValue (bs ++ [b]) = beValue bs * 256 + b.toNat := by
  simp [beValue]

/-- As many bytes bound a number. -/
theorem beValue_lt (bs : Bytes) : beValue bs < 256 ^ bs.length := by
  induction bs using List.reverseRecOn with
  | nil => simp [beValue]
  | append_singleton bs b ih =>
      have := b.toNat_lt
      rw [beValue_append_singleton, List.length_append, List.length_singleton, pow_succ]
      omega

/-- Strings of one length that stand for one number are equal. -/
theorem eq_of_beValue_eq {bs cs : Bytes} (hlen : bs.length = cs.length)
    (h : beValue bs = beValue cs) : bs = cs := by
  induction bs using List.reverseRecOn generalizing cs with
  | nil => exact (List.length_eq_zero_iff.mp hlen.symm).symm
  | append_singleton bs b ih =>
      rcases List.eq_nil_or_concat cs with rfl | ⟨cs, c, rfl⟩
      · simp at hlen
      · rw [List.concat_eq_append] at h hlen ⊢
        rw [beValue_append_singleton, beValue_append_singleton] at h
        have hb := b.toNat_lt
        have hc := c.toNat_lt
        have hbc : b = c := UInt8.toNat_inj.mp (by omega)
        rw [ih (by simpa using hlen) (by omega), hbc]

/-- The four big-endian bytes of a `u32`. -/
def be32 (n : UInt32) : Bytes := beBytes 4 n.toNat

/-- The two big-endian bytes of a `u16`. -/
def be16 (n : UInt16) : Bytes := beBytes 2 n.toNat

/-- A word of 32 bits has four bytes. -/
@[simp] theorem length_be32 (n : UInt32) : (be32 n).length = 4 := length_beBytes 4 _

/-- A word of 16 bits has two bytes. -/
@[simp] theorem length_be16 (n : UInt16) : (be16 n).length = 2 := length_beBytes 2 _

/-- The `u32` of four big-endian bytes. -/
def ofBe32 (bs : Bytes) : UInt32 := UInt32.ofNat (beValue bs)

/-- The `u16` of two big-endian bytes. -/
def ofBe16 (bs : Bytes) : UInt16 := UInt16.ofNat (beValue bs)

/-- Words of 32 bits come back. -/
@[simp] theorem ofBe32_be32 (n : UInt32) : ofBe32 (be32 n) = n := by
  rw [ofBe32, be32, beValue_beBytes, Nat.mod_eq_of_lt (by simpa using n.toNat_lt),
    UInt32.ofNat_toNat]

/-- Words of 16 bits come back. -/
@[simp] theorem ofBe16_be16 (n : UInt16) : ofBe16 (be16 n) = n := by
  rw [ofBe16, be16, beValue_beBytes, Nat.mod_eq_of_lt (by simpa using n.toNat_lt),
    UInt16.ofNat_toNat]

/-- Four bytes are the big-endian bytes of the number they stand for. -/
theorem be32_ofBe32 {bs : Bytes} (h : bs.length = 4) : be32 (ofBe32 bs) = bs := by
  refine eq_of_beValue_eq (by simp [h]) ?_
  have hlt : beValue bs < 256 ^ 4 := h ▸ beValue_lt bs
  rw [be32, ofBe32, beValue_beBytes, UInt32.toNat_ofNat', Nat.mod_mod_of_dvd _ (by norm_num),
    Nat.mod_eq_of_lt hlt]

/-- Two bytes are the big-endian bytes of the number they stand for. -/
theorem be16_ofBe16 {bs : Bytes} (h : bs.length = 2) : be16 (ofBe16 bs) = bs := by
  refine eq_of_beValue_eq (by simp [h]) ?_
  have hlt : beValue bs < 256 ^ 2 := h ▸ beValue_lt bs
  rw [be16, ofBe16, beValue_beBytes, UInt16.toNat_ofNat', Nat.mod_mod_of_dvd _ (by norm_num),
    Nat.mod_eq_of_lt hlt]

/-- Different words of 32 bits have different bytes. -/
theorem be32_injective : Function.Injective be32 :=
  Function.LeftInverse.injective ofBe32_be32

/-- Different words of 16 bits have different bytes. -/
theorem be16_injective : Function.Injective be16 :=
  Function.LeftInverse.injective ofBe16_be16

/-- Two-digit numbers compare digit by digit. -/
theorem compare_mul_add {p x y : ℕ} (hx : x < p) (hy : y < p) (a b : ℕ) :
    compare (a * p + x) (b * p + y) = (compare a b).then (compare x y) := by
  rcases lt_trichotomy a b with hab | rfl | hab
  · have : a * p + x < b * p + y := by nlinarith
    rw [compare_lt_iff_lt.mpr hab, compare_lt_iff_lt.mpr this]
    rfl
  · rw [compare_eq_iff_eq.mpr rfl, Ordering.eq_then]
    simp only [compare, compareOfLessAndEq, Nat.add_lt_add_iff_left, Nat.add_left_cancel_iff]
  · have : b * p + y < a * p + x := by nlinarith
    rw [compare_gt_iff_gt.mpr hab, compare_gt_iff_gt.mpr this]
    rfl

/-- The order of big-endian strings of one width is the order of the numbers. -/
theorem compare_beBytes (w m n : ℕ) :
    compare (beBytes w m) (beBytes w n) = compare (m % 256 ^ w) (n % 256 ^ w) := by
  induction w with
  | zero => simp [beBytes, Nat.mod_one]
  | succ w ih =>
      have hlt : ∀ n, n % 256 ^ w < 256 ^ w := fun n => Nat.mod_lt _ (by positivity)
      rw [beBytes, beBytes, List.compare_cons_cons, ih, mod_pow_succ w m, mod_pow_succ w n,
        compare_mul_add (hlt m) (hlt n)]
      congr 1
      simp only [compare, compareOfLessAndEq, UInt8.lt_iff_toNat_lt, ← UInt8.toNat_inj]

/-- The order of the big-endian bytes of two `u32`s is the order of the numbers. -/
theorem compare_be32 (m n : UInt32) : compare (be32 m) (be32 n) = compare m.toNat n.toNat := by
  rw [be32, be32, compare_beBytes, Nat.mod_eq_of_lt (by simpa using m.toNat_lt),
    Nat.mod_eq_of_lt (by simpa using n.toNat_lt)]

/-! ### Readers -/

/-- Take `n` bytes off the front. -/
def take? (n : ℕ) (bs : Bytes) : Option (Bytes × Bytes) :=
  if bs.length < n then none else some (bs.take n, bs.drop n)

/-- Take a big-endian `u16` off the front. -/
def readU16 (bs : Bytes) : Option (UInt16 × Bytes) :=
  (take? 2 bs).map fun (field, rest) => (ofBe16 field, rest)

/-- Take a big-endian `u32` off the front. -/
def readU32 (bs : Bytes) : Option (UInt32 × Bytes) :=
  (take? 4 bs).map fun (field, rest) => (ofBe32 field, rest)

/-- A field is taken off the front. -/
@[simp] theorem take?_append {n : ℕ} {field : Bytes} (h : field.length = n) (rest : Bytes) :
    take? n (field ++ rest) = some (field, rest) := by
  simp [take?, ← h]

/-- A word of 16 bits is read off the front. -/
@[simp] theorem readU16_be16 (n : UInt16) (rest : Bytes) :
    readU16 (be16 n ++ rest) = some (n, rest) := by
  simp [readU16]

/-- A word of 32 bits is read off the front. -/
@[simp] theorem readU32_be32 (n : UInt32) (rest : Bytes) :
    readU32 (be32 n ++ rest) = some (n, rest) := by
  simp [readU32]

/-- A field is found behind the fields in front of it. -/
theorem take_drop_append {start n : ℕ} {before field : Bytes} (hstart : before.length = start)
    (hn : field.length = n) (rest : Bytes) :
    ((before ++ (field ++ rest)).drop start).take n = field := by
  rw [← hstart, List.drop_left, ← hn, List.take_left]

/-- A string of at least four bytes starts with a big-endian `u32`. -/
theorem exists_be32_append (bs : Bytes) (h : 4 ≤ bs.length) :
    ∃ n rest, bs = be32 n ++ rest ∧ rest.length + 4 = bs.length := by
  refine ⟨ofBe32 (bs.take 4), bs.drop 4, ?_, by rw [List.length_drop]; omega⟩
  rw [be32_ofBe32 (by rw [List.length_take]; omega), List.take_append_drop]

/-- A string of at least two bytes starts with a big-endian `u16`. -/
theorem exists_be16_append (bs : Bytes) (h : 2 ≤ bs.length) :
    ∃ n rest, bs = be16 n ++ rest ∧ rest.length + 2 = bs.length := by
  refine ⟨ofBe16 (bs.take 2), bs.drop 2, ?_, by rw [List.length_drop]; omega⟩
  rw [be16_ofBe16 (by rw [List.length_take]; omega), List.take_append_drop]

/-- A length that fits in 16 bits survives the cast to `u16`. -/
theorem toNat_ofNat16 {n : ℕ} (h : n < 2 ^ 16) : (UInt16.ofNat n).toNat = n := by
  rw [UInt16.toNat_ofNat', Nat.mod_eq_of_lt h]

/-- A length that fits in 32 bits survives the cast to `u32`. -/
theorem toNat_ofNat32 {n : ℕ} (h : n < 2 ^ 32) : (UInt32.ofNat n).toNat = n := by
  rw [UInt32.toNat_ofNat', Nat.mod_eq_of_lt h]

/-! ### Pieces -/

/-- `xs.chunks(size)`: pieces of `size` elements, the last one of what is left. -/
def chunks {α : Type} (size : ℕ) (xs : List α) : List (List α) :=
  if _h : size = 0 ∨ xs.length = 0 then [] else xs.take size :: chunks size (xs.drop size)
termination_by xs.length
decreasing_by
  rw [List.length_drop]
  omega

section Chunks

variable {α : Type} {size : ℕ}

/-- The pieces make up the list. -/
theorem flatten_chunks (hsize : 0 < size) (xs : List α) : (chunks size xs).flatten = xs := by
  fun_induction chunks size xs with
  | case1 xs h => exact (List.length_eq_zero_iff.mp (h.resolve_left hsize.ne')).symm
  | case2 xs h ih => rw [List.flatten_cons, ih, List.take_append_drop]

/-- What fits into one piece is one piece. -/
theorem chunks_of_length_le {xs : List α} (hpos : 0 < xs.length) (hle : xs.length ≤ size) :
    chunks size xs = [xs] := by
  rw [chunks, dif_neg (by omega), List.take_of_length_le hle, List.drop_eq_nil_of_le hle, chunks,
    dif_pos (Or.inr List.length_nil)]

/-- How many pieces there are: as many as it takes. -/
theorem length_chunks (hsize : 0 < size) (xs : List α) :
    (chunks size xs).length = xs.length ⌈/⌉ size := by
  fun_induction chunks size xs with
  | case1 xs h => rw [h.resolve_left hsize.ne', List.length_nil, zero_ceilDiv]
  | case2 xs h ih =>
      have hpos : 0 < xs.length := Nat.pos_of_ne_zero fun hzero => h (Or.inr hzero)
      rw [List.length_cons, ih, List.length_drop, Nat.ceilDiv_eq_add_pred_div,
        Nat.ceilDiv_eq_add_pred_div]
      rcases Nat.lt_or_ge xs.length size with hlt | hge
      · rw [Nat.sub_eq_zero_of_le hlt.le, Nat.zero_add, Nat.div_eq_of_lt (by omega),
          Nat.div_eq_of_lt_le (k := 1) (by omega) (by omega)]
      · rw [show xs.length + size - 1 = (xs.length - size + size - 1) + size by omega,
          Nat.add_div_right _ hsize]

/-- A piece is not empty, and has at most the given size. -/
theorem length_of_mem_chunks (hsize : 0 < size) {xs piece : List α} (h : piece ∈ chunks size xs) :
    0 < piece.length ∧ piece.length ≤ size := by
  fun_induction chunks size xs with
  | case1 xs hempty => cases h
  | case2 xs hnot ih =>
      rcases List.mem_cons.mp h with rfl | h
      · rw [List.length_take]
        omega
      · exact ih h

end Chunks

/-! ### Order -/

/-- The order of strings that start with fields of one length: the fields decide, then the
rest. -/
theorem compare_append {a b : Bytes} (h : a.length = b.length) (x y : Bytes) :
    compare (a ++ x) (b ++ y) = (compare a b).then (compare x y) := by
  induction a generalizing b with
  | nil =>
      obtain rfl := List.length_eq_zero_iff.mp h.symm
      simp
  | cons c a ih =>
      obtain ⟨d, b, rfl⟩ := List.exists_cons_of_length_eq_add_one h.symm
      rw [List.cons_append, List.cons_append, List.compare_cons_cons, List.compare_cons_cons,
        ih (Nat.succ.inj h), Ordering.then_assoc]

/-- A one-byte string lies before every string that starts with that byte. -/
theorem isLE_compare_singleton (b : UInt8) (bs : Bytes) : (compare [b] (b :: bs)).isLE := by
  rw [List.compare_cons_cons, Std.ReflOrd.compare_self, Ordering.eq_then]
  exact List.isLE_compare_nil_left

end Lib
