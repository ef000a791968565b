import Zalkanes.Lib.WriteLog

/-!
# Sorted Digests

What a digest over the sorted images of a list determines. A list of blocks of one length is
determined by its concatenation, a sorted list by the list up to order, and a list up to order by
its images when the function is injective on what is mapped. Together: two lists with one digest
are permutations of each other, as long as the functions do not collide on them.

## Main results

* `flatMap_injective_of_length`: concatenating blocks of one length loses nothing.
* `perm_of_insertionSort_eq`: lists that sort alike are permutations.
* `perm_of_map_perm`: mapping by a function injective on the lists loses nothing.
* `OrdMap.toList_perm_slot`: the entries of a map, with one key's entry in front.
-/

namespace Lib

/-- Concatenating blocks of one positive length loses nothing. -/
theorem flatMap_injective_of_length {α β : Type} {f : α → List β} {n : ℕ} (hn : 0 < n)
    (hlen : ∀ a, (f a).length = n) (hf : Function.Injective f) :
    Function.Injective fun xs : List α => xs.flatMap f := by
  intro xs ys h
  induction xs generalizing ys with
  | nil =>
      cases ys with
      | nil => rfl
      | cons y ys =>
          have := congrArg List.length h
          simp only [List.flatMap_nil, List.length_nil, List.flatMap_cons, List.length_append,
            hlen y] at this
          omega
  | cons x xs ih =>
      cases ys with
      | nil =>
          have := congrArg List.length h
          simp only [List.flatMap_nil, List.length_nil, List.flatMap_cons, List.length_append,
            hlen x] at this
          omega
      | cons y ys =>
          simp only [List.flatMap_cons] at h
          obtain ⟨hx, hrest⟩ := List.append_inj h ((hlen x).trans (hlen y).symm)
          rw [hf hx, ih hrest]

/-- Lists that sort alike are permutations of each other. -/
theorem perm_of_insertionSort_eq {α : Type} {r : α → α → Prop} [DecidableRel r] {xs ys : List α}
    (h : xs.insertionSort r = ys.insertionSort r) : xs.Perm ys :=
  (List.perm_insertionSort r xs).symm.trans (h ▸ List.perm_insertionSort r ys)

/-- Permutations of each other sort alike, under a total order. -/
theorem insertionSort_eq_of_perm {α : Type} {r : α → α → Prop} [DecidableRel r] [Std.Total r]
    [IsTrans α r] (hanti : ∀ a b, r a b → r b a → a = b) {xs ys : List α} (h : xs.Perm ys) :
    xs.insertionSort r = ys.insertionSort r :=
  List.Perm.eq_of_pairwise (fun a b _ _ => hanti a b) (List.pairwise_insertionSort r xs)
    (List.pairwise_insertionSort r ys)
    ((List.perm_insertionSort r xs).trans (h.trans (List.perm_insertionSort r ys).symm))

/-- Mapping by a function that is injective on the lists loses nothing, up to order. -/
theorem perm_of_map_perm {α β : Type} [Nonempty α] {f : α → β} {xs ys : List α}
    (hf : Set.InjOn f {a | a ∈ xs ∨ a ∈ ys}) (h : (xs.map f).Perm (ys.map f)) : xs.Perm ys := by
  have hinv := hf.leftInvOn_invFunOn
  have hback : ∀ zs : List α, (∀ z ∈ zs, z ∈ xs ∨ z ∈ ys) →
      (zs.map f).map (Function.invFunOn f {a | a ∈ xs ∨ a ∈ ys}) = zs := by
    intro zs hzs
    rw [List.map_map]
    refine (List.map_congr_left fun z hz => ?_).trans (List.map_id zs)
    exact hinv (hzs z hz)
  have := h.map (Function.invFunOn f {a | a ∈ xs ∨ a ∈ ys})
  rwa [hback xs fun z hz => Or.inl hz, hback ys fun z hz => Or.inr hz] at this

/-- Rearranging two parts without repetitions into two others: what leaves the first part enters
the second one. -/
theorem mem_of_append_perm {α : Type} [DecidableEq α] {as bs as' bs' : List α} (has : as.Nodup)
    (hbs' : bs'.Nodup) (h : (as ++ bs).Perm (as' ++ bs')) {x : α} (hx : x ∈ as) (hx' : x ∉ as') :
    x ∈ bs' ∧ x ∉ bs := by
  have hcount := h.count_eq x
  rw [List.count_append, List.count_append, List.count_eq_one_of_mem has hx,
    List.count_eq_zero_of_not_mem hx'] at hcount
  have hle := List.nodup_iff_count_le_one.mp hbs' x
  constructor
  · refine List.count_pos_iff.mp ?_
    omega
  · refine List.count_eq_zero.mp ?_
    omega

namespace OrdMap

variable {K V : Type} [Ord K] [Std.TransOrd K] [Std.LawfulEqOrd K]

/-- The entries of a map are distinct. -/
theorem nodup_toList (m : OrdMap K V) : m.toList.Nodup :=
  Std.ExtTreeMap.ordered_keys_toList.imp fun {a b} hlt he => by
    subst he
    simp at hlt

/-- The entries of a map: what one key holds, and the entries without that key. -/
theorem toList_perm_slot (m : OrdMap K V) (k : K) :
    m.toList.Perm ((m[k]?.map fun v => (k, v)).toList ++ (m.erase k).toList) := by
  have hrest : ∀ v, (k, v) ∉ (m.erase k).toList := by
    intro v hv
    rw [Std.ExtTreeMap.mem_toList_iff_getElem?_eq_some, Std.ExtTreeMap.getElem?_erase_self] at hv
    simp at hv
  have hnodup : ((m[k]?.map fun v => (k, v)).toList ++ (m.erase k).toList).Nodup := by
    cases m[k]? with
    | none => exact nodup_toList _
    | some v => exact List.nodup_cons.mpr ⟨hrest v, nodup_toList _⟩
  refine (List.perm_ext_iff_of_nodup (nodup_toList m) hnodup).mpr ?_
  rintro ⟨k', v⟩
  rw [List.mem_append, Std.ExtTreeMap.mem_toList_iff_getElem?_eq_some,
    Std.ExtTreeMap.mem_toList_iff_getElem?_eq_some, Std.ExtTreeMap.getElem?_erase]
  by_cases hk : k = k'
  · subst hk
    simp
  · simp [Std.LawfulEqCmp.compare_eq_iff_eq, hk]

/-- Changing what one key holds leaves the other entries. -/
theorem erase_applyWrite_restore (m : OrdMap K V) (k : K) (r : Option V) :
    (applyWrite m (.restore k r)).erase k = m.erase k := by
  refine Std.ExtTreeMap.ext_getElem? fun k' => ?_
  cases r <;>
    simp only [Write.restore, applyWrite, Std.ExtTreeMap.getElem?_erase,
      Std.ExtTreeMap.getElem?_insert] <;>
    split <;> rfl

/-- Restoring a key changes that key only. -/
theorem getElem?_applyWrite_restore (m : OrdMap K V) (k k' : K) (r : Option V)
    [DecidableEq K] : (applyWrite m (.restore k r))[k']? = if k = k' then r else m[k']? := by
  cases r <;>
    simp [Write.restore, applyWrite, Std.ExtTreeMap.getElem?_insert, Std.ExtTreeMap.getElem?_erase,
      Std.LawfulEqCmp.compare_eq_iff_eq]

end OrdMap

end Lib
