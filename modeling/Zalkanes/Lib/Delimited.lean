import Mathlib

/-!
# Self-Delimiting Writers

A writer delimits what it writes when it can be read back off the front of any longer list. Such
writers compose: one after the other, in counted lists, and under a tag. So a format that is put
together from them can be taken apart again field by field.

## Main results

* `delimits_of_length`: fields of one length.
* `Delimits.append`, `Delimits.comp`, `Delimits.counted`, `Delimits.tagged`: how writers compose.
-/

namespace Lib

variable {α β γ : Type*} {S : Set α} {T : Set β} {f : α → List γ} {g : β → List γ}

/-- Written in front of anything, the values of `S` are read back. -/
def Delimits (S : Set α) (f : α → List γ) : Prop :=
  ∀ a ∈ S, ∀ b ∈ S, ∀ r s, f a ++ r = f b ++ s → a = b ∧ r = s

/-- Encodings of one length delimit themselves. -/
theorem delimits_of_length {n : ℕ} (hlength : ∀ a ∈ S, (f a).length = n) (hf : Set.InjOn f S) :
    Delimits S f := by
  intro a ha b hb r s h
  obtain ⟨hab, hrest⟩ := List.append_inj h ((hlength a ha).trans (hlength b hb).symm)
  exact ⟨hf ha hb hab, hrest⟩

/-- One behind the other, they still do. -/
theorem Delimits.append (hf : Delimits S f) (hg : Delimits T g) :
    Delimits {p : α × β | p.1 ∈ S ∧ p.2 ∈ T} fun p => f p.1 ++ g p.2 := by
  rintro ⟨a, b⟩ ⟨ha, hb⟩ ⟨a', b'⟩ ⟨ha', hb'⟩ r s h
  rw [List.append_assoc, List.append_assoc] at h
  obtain ⟨rfl, hfst⟩ := hf a ha a' ha' _ _ h
  obtain ⟨rfl, hsnd⟩ := hg b hb b' hb' _ _ hfst
  exact ⟨rfl, hsnd⟩

/-- A writer of the parts of a value. -/
theorem Delimits.comp (hg : Delimits T g) {e : α → β} (he : Set.InjOn e S) (hS : Set.MapsTo e S T) :
    Delimits S fun a => g (e a) := by
  intro a ha b hb r s h
  obtain ⟨hab, hrest⟩ := hg (e a) (hS ha) (e b) (hS hb) r s h
  exact ⟨he ha hb hab, hrest⟩

/-- Elements one after the other, as many on both sides. -/
theorem Delimits.flatMap (hf : Delimits S f) {xs ys : List α} (hxs : ∀ x ∈ xs, x ∈ S)
    (hys : ∀ y ∈ ys, y ∈ S) (hlength : xs.length = ys.length) {r s : List γ}
    (h : xs.flatMap f ++ r = ys.flatMap f ++ s) : xs = ys ∧ r = s := by
  induction xs generalizing ys with
  | nil =>
      obtain rfl := List.length_eq_zero_iff.mp hlength.symm
      exact ⟨rfl, h⟩
  | cons x xs ih =>
      cases ys with
      | nil => cases hlength
      | cons y ys =>
          rw [List.flatMap_cons, List.flatMap_cons, List.append_assoc, List.append_assoc] at h
          obtain ⟨rfl, htail⟩ := hf x (hxs x List.mem_cons_self) y (hys y List.mem_cons_self) _ _ h
          obtain ⟨rfl, hrest⟩ := ih (fun z hz => hxs z (List.mem_cons_of_mem _ hz))
            (fun z hz => hys z (List.mem_cons_of_mem _ hz)) (Nat.succ.inj hlength) htail
          exact ⟨rfl, hrest⟩

/-- A list with its length in front. -/
theorem Delimits.counted {N : Set ℕ} {count : ℕ → List γ} (hcount : Delimits N count)
    (hf : Delimits S f) :
    Delimits {xs : List α | xs.length ∈ N ∧ ∀ x ∈ xs, x ∈ S} fun xs =>
      count xs.length ++ xs.flatMap f := by
  rintro xs ⟨hn, hxs⟩ ys ⟨hm, hys⟩ r s h
  rw [List.append_assoc, List.append_assoc] at h
  obtain ⟨hlength, h⟩ := hcount _ hn _ hm _ _ h
  exact hf.flatMap hxs hys hlength h

/-- Plain elements with their number in front. -/
theorem Delimits.sized {N : Set ℕ} {count : ℕ → List γ} (hcount : Delimits N count) :
    Delimits {xs : List γ | xs.length ∈ N} fun xs => count xs.length ++ xs := by
  intro xs hn ys hm r s h
  rw [List.append_assoc, List.append_assoc] at h
  obtain ⟨hlength, h⟩ := hcount _ hn _ hm _ _ h
  exact List.append_inj h hlength

/-- A value that may be absent, under one of two tags. -/
theorem Delimits.tagged {absent present : γ} (hne : absent ≠ present) (hf : Delimits S f) :
    Delimits {o : Option α | ∀ a, o = some a → a ∈ S} fun o =>
      o.elim [absent] fun a => present :: f a := by
  intro o ho o' ho' r s h
  cases o with
  | none =>
      cases o' with
      | none => exact ⟨rfl, (List.cons.inj h).2⟩
      | some b => exact absurd (List.cons.inj h).1 hne
  | some a =>
      cases o' with
      | none => exact absurd (List.cons.inj h).1.symm hne
      | some b =>
          obtain ⟨rfl, hrest⟩ := hf a (ho a rfl) b (ho' b rfl) r s (List.cons.inj h).2
          exact ⟨rfl, hrest⟩

end Lib
