import Mathlib.Data.Set.Basic
import Mathlib.Data.List.Basic

/-!
# Hash-Linked Chains

Chains of blocks that fork. The hash of a block stands for the block and for all blocks below it,
so two chains that have a hash in common agree up to its height (`HashLinked`).

## Main results

* `AgreeUpTo.getElem?_eq`: chains that agree up to a height have the same blocks up to it.
* `HashLinked.agreeUpTo`: chains with the same hash at a height agree up to it.
* `HashLinked.find?_eq_some_iff`: a block is found by its hash.
-/

namespace Lib

variable {β η : Type}

/-- The chains have the same blocks up to a height, that one included. -/
def AgreeUpTo (n : ℕ) (xs ys : List β) : Prop := xs.take (n + 1) = ys.take (n + 1)

namespace AgreeUpTo

variable {n i : ℕ} {xs ys : List β}

/-- A list agrees with itself. -/
theorem refl (n : ℕ) (xs : List β) : AgreeUpTo n xs xs := rfl

/-- Agreement is symmetric. -/
theorem symm (h : AgreeUpTo n xs ys) : AgreeUpTo n ys xs := Eq.symm h

/-- Chains that agree up to a height have the same blocks up to it. -/
theorem getElem?_eq (h : AgreeUpTo n xs ys) (hi : i ≤ n) : xs[i]? = ys[i]? := by
  have hc := List.getElem?_take_of_lt (l := xs) (Nat.lt_succ_of_le hi)
  have hd := List.getElem?_take_of_lt (l := ys) (Nat.lt_succ_of_le hi)
  rw [← hc, ← hd, Nat.succ_eq_add_one, h]

/-- Lists that agree further agree less far. -/
theorem mono (h : AgreeUpTo n xs ys) (hi : i ≤ n) : AgreeUpTo i xs ys := by
  have hcut := congrArg (List.take (i + 1)) h
  rwa [List.take_take, List.take_take, Nat.min_eq_left (Nat.succ_le_succ hi)] at hcut

end AgreeUpTo

/-- A hash names one block: the chains that have it have it at one height, and agree up to
there. -/
def HashLinked (hash : β → η) (chains : Set (List β)) : Prop :=
  ∀ xs ∈ chains, ∀ ys ∈ chains, ∀ (i j : ℕ) (b b' : β), xs[i]? = some b → ys[j]? = some b' →
    hash b = hash b' → i = j ∧ AgreeUpTo i xs ys

/-- Whether chains are linked is decided by comparing their blocks. -/
theorem hashLinked_of_forall_fin {hash : β → η} {chains : Set (List β)}
    (h : ∀ xs ∈ chains, ∀ ys ∈ chains, ∀ (i : Fin xs.length) (j : Fin ys.length),
      hash (xs.get i) = hash (ys.get j) → (i : ℕ) = j ∧ xs.take (i + 1) = ys.take (i + 1)) :
    HashLinked hash chains := by
  intro xs hc ys hd i j b b' hb hb' hhash
  obtain ⟨hi, rfl⟩ := List.getElem?_eq_some_iff.mp hb
  obtain ⟨hj, rfl⟩ := List.getElem?_eq_some_iff.mp hb'
  exact h xs hc ys hd ⟨i, hi⟩ ⟨j, hj⟩ hhash

namespace HashLinked

variable {hash : β → η} {chains : Set (List β)} (h : HashLinked hash chains) {xs ys : List β}

include h

/-- Chains with the same hash at a height agree up to it. -/
theorem agreeUpTo (hc : xs ∈ chains) (hd : ys ∈ chains) {i : ℕ} {b b' : β} (hb : xs[i]? = some b)
    (hb' : ys[i]? = some b') (hhash : hash b = hash b') : AgreeUpTo i xs ys :=
  (h xs hc ys hd i i b b' hb hb' hhash).2

/-- A block is found by its hash. -/
theorem find?_eq_some_iff [DecidableEq η] (hc : xs ∈ chains) {x : η} {b : β} :
    xs.find? (fun b => decide (hash b = x)) = some b ↔ hash b = x ∧ ∃ i : ℕ, xs[i]? = some b := by
  constructor
  · intro hfind
    have hx := List.find?_some hfind
    obtain ⟨i, hi⟩ := List.mem_iff_getElem?.mp (List.mem_of_find?_eq_some hfind)
    exact ⟨of_decide_eq_true hx, i, hi⟩
  · rintro ⟨hx, i, hi⟩
    cases hfind : xs.find? (fun b => decide (hash b = x)) with
    | none =>
        have hmem : b ∈ xs := List.mem_iff_getElem?.mpr ⟨i, hi⟩
        exact absurd (decide_eq_true hx) (List.find?_eq_none.mp hfind b hmem)
    | some b' =>
        have hfound := List.find?_some hfind
        have hx' : hash b' = x := of_decide_eq_true hfound
        obtain ⟨j, hj⟩ := List.mem_iff_getElem?.mp (List.mem_of_find?_eq_some hfind)
        obtain ⟨rfl, -⟩ := h xs hc xs hc i j b b' hi hj (hx.trans hx'.symm)
        rw [← hi, ← hj]

end HashLinked

end Lib
