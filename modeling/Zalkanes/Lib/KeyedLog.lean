import Zalkanes.Lib.WriteLog

/-!
# Values Saved under Their Own Keys

A log of values each of which is saved under a key it carries, so that a later value with the
same key replaces an earlier one. Whatever reads the saved values has the whole log only as long
as no key occurs twice (`Keyed.all_found_iff`).

## Main results

* `Keyed.find_saveAll`: a key finds the last value that was saved under it.
* `Keyed.all_found_iff`: when the saved values are those of the log.
-/

namespace Lib

/-- Values under their own keys. -/
structure Keyed {K V : Type} [Ord K] [Std.TransOrd K] (key : V → K) where
  map : OrdMap K V
  keyed : ∀ (k : K) (v : V), map[k]? = some v → key v = k

namespace Keyed

variable {K V : Type} [Ord K] [Std.TransOrd K] {key : V → K}

/-- Nothing is kept. -/
def empty : Keyed key := ⟨∅, fun k v h => by simp at h⟩

/-- The value under a key. -/
def find (r : Keyed key) (k : K) : Option V := r.map[k]?

/-- The values, in the order of their keys. -/
def values (r : Keyed key) : List V := r.map.toList.map Prod.snd

/-- It finds nothing. -/
@[simp] theorem find_empty (k : K) : (empty : Keyed key).find k = none :=
  Std.ExtTreeMap.getElem?_empty

/-- What is found has the key that was asked for. -/
theorem key_of_find {r : Keyed key} {k : K} {v : V} (h : r.find k = some v) : key v = k :=
  r.keyed k v h

variable [Std.LawfulEqOrd K]

/-- Save a value, in place of the one under its key. -/
def save (r : Keyed key) (v : V) : Keyed key where
  map := r.map.insert (key v) v
  keyed k w h := by
    rw [Std.ExtTreeMap.getElem?_insert] at h
    split at h
    · rename_i hk
      rw [← Option.some.inj h]
      exact Std.LawfulEqCmp.eq_of_compare hk
    · exact r.keyed k w h

/-- Saving values one after the other. -/
def saveAll (r : Keyed key) (vs : List V) : Keyed key := vs.foldl save r

/-- Saving two lists is saving one after the other. -/
theorem saveAll_append (r : Keyed key) (vs ws : List V) :
    r.saveAll (vs ++ ws) = (r.saveAll vs).saveAll ws :=
  List.foldl_append

/-- The values are those that are found under their keys. -/
theorem mem_values {r : Keyed key} {v : V} : v ∈ r.values ↔ r.find (key v) = some v := by
  rw [values, List.mem_map]
  constructor
  · rintro ⟨⟨k, w⟩, hkw, rfl⟩
    rw [Std.ExtTreeMap.mem_toList_iff_getElem?_eq_some] at hkw
    rw [r.keyed k w hkw]
    exact hkw
  · intro h
    exact ⟨(key v, v), Std.ExtTreeMap.mem_toList_iff_getElem?_eq_some.mpr h, rfl⟩

/-- No key occurs twice among the values. -/
theorem nodup_map_values (r : Keyed key) : (r.values.map key).Nodup := by
  have hkeys : r.values.map key = r.map.toList.map Prod.fst := by
    rw [values, List.map_map]
    refine List.map_congr_left fun e he => ?_
    exact r.keyed e.1 e.2 (Std.ExtTreeMap.mem_toList_iff_getElem?_eq_some.mp he)
  rw [hkeys, List.nodup_iff_pairwise_ne, List.pairwise_map]
  refine Std.ExtTreeMap.ordered_keys_toList.imp fun {e e'} hlt heq => ?_
  rw [heq, Std.ReflOrd.compare_self] at hlt
  cases hlt

variable [DecidableEq K]

/-- A value that is saved is found, and all else as before. -/
theorem find_save (r : Keyed key) (v : V) (k : K) :
    (r.save v).find k = if key v = k then some v else r.find k :=
  getElem?_applyWrite r.map (.put (key v) v) k

/-- **A key finds the last value that was saved under it.** -/
theorem find_saveAll (r : Keyed key) (vs : List V) (k : K) :
    (r.saveAll vs).find k = (vs.reverse.find? fun v => key v = k).or (r.find k) := by
  induction vs generalizing r with
  | nil => rfl
  | cons v vs ih =>
      rw [saveAll, List.foldl_cons, ← saveAll, ih, find_save, List.reverse_cons,
        List.find?_append, Option.or_assoc]
      by_cases hk : key v = k
      · rw [if_pos hk, List.find?_singleton, if_pos (decide_eq_true hk), Option.some_or]
      · rw [if_neg hk, List.find?_singleton, if_neg (by simpa using hk), Option.none_or]

/-- What a key finds was saved, or was there. -/
theorem mem_of_find_saveAll {r : Keyed key} {vs : List V} {k : K} {v : V}
    (h : (r.saveAll vs).find k = some v) :
    v ∈ vs ∨ r.find k = some v ∧ ∀ w ∈ vs, key w ≠ k := by
  rw [find_saveAll, Option.or_eq_some_iff] at h
  rcases h with h | ⟨hnone, h⟩
  · exact Or.inl (List.mem_reverse.mp (List.mem_of_find?_eq_some h))
  · refine Or.inr ⟨h, fun w hw hwk => ?_⟩
    have := List.find?_eq_none.mp hnone w (List.mem_reverse.mpr hw)
    exact this (decide_eq_true hwk)

/-- The key of a saved value is found. -/
theorem exists_find_saveAll (r : Keyed key) {vs : List V} {v : V} (hv : v ∈ vs) :
    ∃ w ∈ vs, (r.saveAll vs).find (key v) = some w := by
  cases hfind : vs.reverse.find? fun w => key w = key v with
  | none =>
      have := List.find?_eq_none.mp hfind v (List.mem_reverse.mpr hv)
      exact absurd (decide_eq_true rfl) this
  | some w =>
      refine ⟨w, List.mem_reverse.mp (List.mem_of_find?_eq_some hfind), ?_⟩
      rw [find_saveAll, hfind, Option.some_or]

/-- Saved under distinct keys, every value is found. -/
theorem find_saveAll_of_nodup (r : Keyed key) {vs : List V} (h : (vs.map key).Nodup) {v : V}
    (hv : v ∈ vs) : (r.saveAll vs).find (key v) = some v := by
  obtain ⟨w, hw, hfind⟩ := r.exists_find_saveAll hv
  have hkey : key w = key v := key_of_find hfind
  rw [hfind, List.inj_on_of_nodup_map h hw hv hkey]

/-- **When nothing saved is lost.** The saved values are those of the log, class by class, and
every value is found under its key, just when no key occurs twice. -/
theorem all_found_iff {C : Type} [DecidableEq C] (cls : V → C) (vs : List V) :
    (∀ c, (((empty : Keyed key).saveAll vs).values.filter fun v => cls v = c).Perm
        (vs.filter fun v => cls v = c)) ∧
      (∀ v ∈ vs, ((empty : Keyed key).saveAll vs).find (key v) = some v) ↔
    (vs.map key).Nodup := by
  constructor
  · rintro ⟨hperm, hfind⟩
    have hvs : vs.Nodup := List.nodup_iff_sublist.mpr fun v hsub => by
      -- two equal values are in one class, whose values are distinct
      have hclass := (hperm (cls v)).nodup_iff.mp ((nodup_map_values _).of_map.filter _)
      have htwice := hsub.filter fun w => decide (cls w = cls v)
      rw [List.filter_cons_of_pos (by simp), List.filter_cons_of_pos (by simp)] at htwice
      exact List.nodup_iff_sublist.mp hclass v htwice
    refine hvs.map_on fun v hv w hw hkey => ?_
    have := hfind v hv
    rw [hkey, hfind w hw] at this
    exact (Option.some.inj this).symm
  · intro h
    refine ⟨fun c => ?_, fun v hv => find_saveAll_of_nodup _ h hv⟩
    refine (List.Perm.filter _ ?_)
    refine (List.perm_ext_iff_of_nodup (nodup_map_values _).of_map h.of_map).mpr fun v => ?_
    rw [mem_values]
    constructor
    · intro hv
      rcases mem_of_find_saveAll hv with hv | ⟨hv, -⟩
      · exact hv
      · rw [find_empty] at hv
        cases hv
    · exact find_saveAll_of_nodup _ h

/-- Saved values of one class are all kept just when no key occurs twice among them. -/
theorem subperm_values_saveAll_iff (r : Keyed key) {vs : List V} {p : V → Bool}
    (hp : ∀ v ∈ vs, p v = true) :
    vs.Subperm ((r.saveAll vs).values.filter p) ↔ (vs.map key).Nodup := by
  constructor
  · rintro ⟨ws, hperm, hsub⟩
    have hkeys : (ws.map key).Nodup :=
      (r.saveAll vs).nodup_map_values.sublist ((hsub.trans List.filter_sublist).map key)
    exact (hperm.map key).nodup_iff.mp hkeys
  · intro h
    refine List.subperm_of_subset h.of_map fun v hv => List.mem_filter.mpr ⟨?_, hp v hv⟩
    exact mem_values.mpr (find_saveAll_of_nodup r h hv)

end Keyed

/-- A scan of a map whose entries are related in the order of their keys. -/
theorem OrdMap.pairwise_scanFrom_of_mem {K V α : Type} [Ord K] [Std.TransOrd K]
    [Std.LawfulEqOrd K] {m : OrdMap K V} {start : K} {visit : K × V → Option α}
    {R : α → α → Prop}
    (hvisit : ∀ k v k' v' a a', m[k]? = some v → m[k']? = some v' → visit (k, v) = some a →
      visit (k', v') = some a' → compare k k' = .lt → R a a') :
    (m.scanFrom start visit).Pairwise R := by
  have hordered : m.toList.Pairwise fun e e' => compare e.1 e'.1 = .lt :=
    Std.ExtTreeMap.ordered_keys_toList
  refine List.pairwise_filterMap.mpr ((hordered.imp_of_mem ?_).filter _)
  rintro ⟨k, v⟩ ⟨k', v'⟩ hmem hmem' hlt a ha a' ha'
  rw [Std.ExtTreeMap.mem_toList_iff_getElem?_eq_some] at hmem hmem'
  exact hvisit k v k' v' a a' hmem hmem' ha ha' hlt

end Lib
