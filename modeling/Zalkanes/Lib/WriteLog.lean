import Mathlib

/-!
# Write Logs over Ordered Maps

An ordered map with extensional equality (`OrdMap`, Lean's `Std.ExtTreeMap`) and the logs of
writes that act on it. A log is a list of `put`s and `del`s applied left to right; what it does
to one key is decided by its last write to that key alone (`getElem?_applyAll`), so two logs
that agree on every last write act alike on every map.

## Main results

* `getElem?_applyAll`: the value of a key after a log is the key's last write in the log, or
  the old value when the log does not touch the key.
* `applyAll_append`, `lastWrite_append`: logs compose.
* `lastWrite_of_forall`: when every write of a log to a key carries one value, the order of
  those writes does not matter.
* `getElem?_applyAll_split_iff`: applying all the puts of a log and then all its deletes gives
  a key its value under the log exactly when the log does not put the key, last, after having
  deleted it.
* `applyAll_undo`: when a second log takes a map back to where a first one started.
* `OrdMap.eq_of_pairwise_of_mem_iff`: a list sorted by distinct keys is determined by its
  members.
-/

namespace Lib

/-- An ordered map with extensional equality: iteration is in key order, and two maps with the
same lookups are equal. -/
abbrev OrdMap (K V : Type) [Ord K] := Std.ExtTreeMap K V compare

/-- One write to a keyed store: set a key to a value, or remove the key. -/
inductive Write (K V : Type) where
  | put (key : K) (value : V)
  | del (key : K)
  deriving DecidableEq, Repr

namespace Write

variable {K V : Type}

/-- The key a write addresses. -/
def key : Write K V → K
  | put k _ => k
  | del k => k

/-- What the key holds after the write: a value, or nothing. -/
def value? : Write K V → Option V
  | put _ v => some v
  | del _ => none

/-- Whether a write is a `put`. -/
def isPut : Write K V → Bool
  | put _ _ => true
  | del _ => false

/-- The key of a put. -/
@[simp] theorem key_put (k : K) (v : V) : (put k v).key = k := rfl

/-- The key of a delete. -/
@[simp] theorem key_del (k : K) : (del k : Write K V).key = k := rfl

/-- A put leaves its value. -/
@[simp] theorem value?_put (k : K) (v : V) : (put k v).value? = some v := rfl

/-- A delete leaves none. -/
@[simp] theorem value?_del (k : K) : (del k : Write K V).value? = none := rfl

/-- A put is one. -/
@[simp] theorem isPut_put (k : K) (v : V) : (put k v).isPut = true := rfl

/-- A delete is none. -/
@[simp] theorem isPut_del (k : K) : (del k : Write K V).isPut = false := rfl

/-- The write that makes a key hold what `r` says. -/
def restore (k : K) : Option V → Write K V
  | some v => put k v
  | none => del k

/-- The key of what is restored. -/
@[simp] theorem key_restore (k : K) (r : Option V) : (restore k r).key = k := by
  cases r <;> rfl

/-- It leaves what is restored. -/
@[simp] theorem value?_restore (k : K) (r : Option V) : (restore k r).value? = r := by
  cases r <;> rfl

/-- Rename the key and recode the value of a write. -/
def map {K' V' : Type} (f : K → K') (g : V → V') : Write K V → Write K' V'
  | put k v => put (f k) (g v)
  | del k => del (f k)

/-- Renaming keys renames the key. -/
@[simp] theorem key_map {K' V' : Type} (f : K → K') (g : V → V') (w : Write K V) :
    (w.map f g).key = f w.key := by
  cases w <;> rfl

/-- Renaming values renames the value. -/
@[simp] theorem value?_map {K' V' : Type} (f : K → K') (g : V → V') (w : Write K V) :
    (w.map f g).value? = w.value?.map g := by
  cases w <;> rfl

/-- A write is a `del` exactly when it leaves nothing. -/
theorem isPut_eq_false_iff (w : Write K V) : w.isPut = false ↔ w = del w.key := by
  cases w <;> simp [isPut, key]

end Write

/-! ### Applying a log -/

section Apply

variable {K V : Type} [Ord K] [Std.TransOrd K]

/-- Apply one write to a map. -/
def applyWrite (m : OrdMap K V) : Write K V → OrdMap K V
  | .put k v => m.insert k v
  | .del k => m.erase k

/-- Apply a log, first write first. -/
def applyAll (m : OrdMap K V) (ws : List (Write K V)) : OrdMap K V :=
  ws.foldl applyWrite m

/-- No writes change nothing. -/
@[simp] theorem applyAll_nil (m : OrdMap K V) : applyAll m [] = m := rfl

/-- The first write goes first. -/
@[simp] theorem applyAll_cons (m : OrdMap K V) (w : Write K V) (ws : List (Write K V)) :
    applyAll m (w :: ws) = applyAll (applyWrite m w) ws := rfl

/-- One list of writes after the other. -/
theorem applyAll_append (m : OrdMap K V) (ws vs : List (Write K V)) :
    applyAll m (ws ++ vs) = applyAll (applyAll m ws) vs :=
  List.foldl_append

end Apply

/-! ### The last write to a key -/

section LastWrite

variable {K V : Type} [DecidableEq K]

/-- The effect of a log on one key: `none` when the log does not touch the key, otherwise what
its last write to the key leaves. -/
def lastWrite : List (Write K V) → K → Option (Option V)
  | [], _ => none
  | w :: ws, k => (lastWrite ws k).or (if w.key = k then some w.value? else none)

/-- No writes, no last one. -/
@[simp] theorem lastWrite_nil (k : K) : lastWrite ([] : List (Write K V)) k = none := rfl

/-- A later write decides, and else the first. -/
theorem lastWrite_cons (w : Write K V) (ws : List (Write K V)) (k : K) :
    lastWrite (w :: ws) k =
      (lastWrite ws k).or (if w.key = k then some w.value? else none) := rfl

/-- The later of two logs decides, wherever it touches the key. -/
theorem lastWrite_append (ws vs : List (Write K V)) (k : K) :
    lastWrite (ws ++ vs) k = (lastWrite vs k).or (lastWrite ws k) := by
  induction ws with
  | nil => simp
  | cons w ws ih => rw [List.cons_append, lastWrite_cons, lastWrite_cons, ih, Option.or_assoc]

/-- A log leaves a key alone exactly when none of its writes addresses the key. -/
theorem lastWrite_eq_none_iff {ws : List (Write K V)} {k : K} :
    lastWrite ws k = none ↔ ∀ w ∈ ws, w.key ≠ k := by
  induction ws with
  | nil => simp
  | cons w ws ih => simp [lastWrite_cons, ih, and_comm]

/-- The last write to a key is one of the writes of the log to that key. -/
theorem exists_mem_of_lastWrite {ws : List (Write K V)} {k : K} {r : Option V}
    (h : lastWrite ws k = some r) : ∃ w ∈ ws, w.key = k ∧ w.value? = r := by
  induction ws with
  | nil => simp at h
  | cons w ws ih =>
      rw [lastWrite_cons, Option.or_eq_some_iff] at h
      rcases h with h | ⟨-, h⟩
      · obtain ⟨v, hv, hk⟩ := ih h
        exact ⟨v, List.mem_cons_of_mem _ hv, hk⟩
      · split at h
        · exact ⟨w, List.mem_cons_self, by assumption, Option.some.inj h⟩
        · simp at h

/-- When all writes of a log to a key leave the same thing, that is what the log leaves. -/
theorem lastWrite_of_forall {ws : List (Write K V)} {k : K} {r : Option V}
    (hex : ∃ w ∈ ws, w.key = k) (hall : ∀ w ∈ ws, w.key = k → w.value? = r) :
    lastWrite ws k = some r := by
  cases h : lastWrite ws k with
  | none =>
      obtain ⟨w, hw, hk⟩ := hex
      exact absurd hk (lastWrite_eq_none_iff.mp h w hw)
  | some r' =>
      obtain ⟨w, hw, hk, hv⟩ := exists_mem_of_lastWrite h
      rw [← hv, hall w hw hk]

/-- Renaming keys injectively and recoding values renames and recodes the last writes. -/
theorem lastWrite_map {K' V' : Type} [DecidableEq K'] {f : K → K'} (hf : Function.Injective f)
    (g : V → V') (ws : List (Write K V)) (k : K) :
    lastWrite (ws.map (Write.map f g)) (f k) = (lastWrite ws k).map (Option.map g) := by
  induction ws with
  | nil => rfl
  | cons w ws ih =>
      rw [List.map_cons, lastWrite_cons, lastWrite_cons, ih, Write.key_map, Write.value?_map,
        Option.map_or]
      by_cases hk : w.key = k
      · rw [if_pos hk, if_pos (congrArg f hk), Option.map_some]
      · rw [if_neg hk, if_neg (fun h => hk (hf h)), Option.map_none]

/-- A log of puts in which each key is put with one value leaves each of its values. -/
theorem lastWrite_map_put_iff {α : Type} {f : α → K} {g : α → V} {xs : List α}
    (hxs : ∀ a ∈ xs, ∀ b ∈ xs, f a = f b → g a = g b) {k : K} {r : Option V} :
    lastWrite (xs.map fun a => Write.put (f a) (g a)) k = some r ↔
      ∃ a ∈ xs, f a = k ∧ some (g a) = r := by
  constructor
  · intro h
    obtain ⟨w, hw, hk, hr⟩ := exists_mem_of_lastWrite h
    obtain ⟨a, ha, rfl⟩ := List.mem_map.mp hw
    exact ⟨a, ha, hk, hr⟩
  · rintro ⟨a, ha, hk, hr⟩
    refine lastWrite_of_forall ⟨_, List.mem_map_of_mem ha, hk⟩ ?_
    intro w hw hwk
    obtain ⟨b, hb, rfl⟩ := List.mem_map.mp hw
    rw [Write.value?_put, hxs b hb a ha (hwk.trans hk.symm)]
    exact hr

variable [Ord K] [Std.TransOrd K] [Std.LawfulEqOrd K]

/-- Lookup after one write. -/
theorem getElem?_applyWrite (m : OrdMap K V) (w : Write K V) (k : K) :
    (applyWrite m w)[k]? = if w.key = k then w.value? else m[k]? := by
  by_cases hk : w.key = k
  · rw [if_pos hk]
    cases w <;> simp_all [applyWrite]
  · rw [if_neg hk]
    cases w <;>
      simp_all [applyWrite, Std.ExtTreeMap.getElem?_insert, Std.ExtTreeMap.getElem?_erase]

/-- **Lookup after a log**: the last write to the key, or the old value. -/
theorem getElem?_applyAll (m : OrdMap K V) (ws : List (Write K V)) (k : K) :
    (applyAll m ws)[k]? = (lastWrite ws k).getD m[k]? := by
  induction ws generalizing m with
  | nil => rfl
  | cons w ws ih =>
      rw [applyAll_cons, ih, lastWrite_cons, getElem?_applyWrite]
      cases lastWrite ws k with
      | none => split <;> simp
      | some r => simp

/-- Two logs with the same last writes act alike. -/
theorem applyAll_congr (m : OrdMap K V) {ws vs : List (Write K V)}
    (h : ∀ k, lastWrite ws k = lastWrite vs k) : applyAll m ws = applyAll m vs :=
  Std.ExtTreeMap.ext_getElem? fun k => by
    rw [getElem?_applyAll, getElem?_applyAll, h]

/-- **Undoing a log.** A second log takes a map back to where the first one started when it
leaves, at every key it addresses, what was there before, and the first log changed no other
key. -/
theorem applyAll_undo {m : OrdMap K V} {ws undo : List (Write K V)}
    (haddressed : ∀ k r, lastWrite undo k = some r → r = m[k]?)
    (hother : ∀ k, lastWrite undo k = none → (lastWrite ws k).getD m[k]? = m[k]?) :
    applyAll (applyAll m ws) undo = m :=
  Std.ExtTreeMap.ext_getElem? fun k => by
    rw [getElem?_applyAll, getElem?_applyAll]
    cases h : lastWrite undo k with
    | none => exact hother k h
    | some r => exact haddressed k r h

/-- Restoring the old value of a key undoes one write to it. -/
theorem applyWrite_restore (m : OrdMap K V) (w : Write K V) :
    applyWrite (applyWrite m w) (.restore w.key m[w.key]?) = m :=
  Std.ExtTreeMap.ext_getElem? fun k => by
    rw [getElem?_applyWrite, getElem?_applyWrite, Write.key_restore, Write.value?_restore]
    split
    · rename_i hk
      rw [hk]
    · rfl

end LastWrite

/-! ### Splitting a log into its puts and its deletes -/

section Split

variable {K V : Type} [DecidableEq K]

/-- All the puts of a log, in order, followed by all its deletes, in order. -/
def putsThenDels (ws : List (Write K V)) : List (Write K V) :=
  ws.filter (·.isPut) ++ ws.filter (!·.isPut)

/-- The log puts the key last although it deleted the key before. -/
def PutAfterDel (ws : List (Write K V)) (k : K) : Prop :=
  (∃ v, lastWrite ws k = some (some v)) ∧ Write.del k ∈ ws

/-- The deletes of a log leave nothing at a key they address. -/
theorem lastWrite_filter_dels_of_mem {ws : List (Write K V)} {k : K} (h : Write.del k ∈ ws) :
    lastWrite (ws.filter (!·.isPut)) k = some none := by
  refine lastWrite_of_forall ⟨.del k, by simp [h], rfl⟩ ?_
  intro w hw _
  have hdel : w.isPut = false := by simpa using (List.mem_filter.mp hw).2
  rw [(Write.isPut_eq_false_iff w).mp hdel, Write.value?_del]

/-- The deletes of a log leave alone a key none of them addresses. -/
theorem lastWrite_filter_dels_of_notMem {ws : List (Write K V)} {k : K}
    (h : Write.del k ∉ ws) : lastWrite (ws.filter (!·.isPut)) k = none := by
  refine lastWrite_eq_none_iff.mpr fun w hw hk => h ?_
  obtain ⟨hw, hdel⟩ := List.mem_filter.mp hw
  have hw' := (Write.isPut_eq_false_iff w).mp (by simpa using hdel)
  rw [hk] at hw'
  exact hw' ▸ hw

/-- The puts of a log leave what the log leaves wherever the log does not delete. -/
theorem lastWrite_filter_puts {ws : List (Write K V)} {k : K} (h : Write.del k ∉ ws) :
    lastWrite (ws.filter (·.isPut)) k = lastWrite ws k := by
  induction ws with
  | nil => rfl
  | cons w ws ih =>
      have hws : Write.del k ∉ ws := fun hc => h (List.mem_cons_of_mem _ hc)
      cases w with
      | put k' v =>
          rw [List.filter_cons_of_pos rfl, lastWrite_cons, lastWrite_cons, ih hws]
      | del k' =>
          have hk : k' ≠ k := fun hc => h (by simp [hc])
          rw [List.filter_cons_of_neg (by simp), ih hws, lastWrite_cons, Write.key_del,
            if_neg hk, Option.or_none]

/-- Separating puts from deletes leaves nothing at a key that the log deletes. -/
theorem lastWrite_putsThenDels_of_mem {ws : List (Write K V)} {k : K} (h : Write.del k ∈ ws) :
    lastWrite (putsThenDels ws) k = some none := by
  rw [putsThenDels, lastWrite_append, lastWrite_filter_dels_of_mem h, Option.some_or]

/-- Separating puts from deletes leaves alone what the log leaves where it does not delete. -/
theorem lastWrite_putsThenDels_of_notMem {ws : List (Write K V)} {k : K}
    (h : Write.del k ∉ ws) : lastWrite (putsThenDels ws) k = lastWrite ws k := by
  rw [putsThenDels, lastWrite_append, lastWrite_filter_dels_of_notMem h, Option.none_or,
    lastWrite_filter_puts h]

variable [Ord K] [Std.TransOrd K] [Std.LawfulEqOrd K]

/-- **Separating puts from deletes** changes the value of a key exactly when the log puts the
key, last, after having deleted it. -/
theorem getElem?_applyAll_split_iff (m : OrdMap K V) (ws : List (Write K V)) (k : K) :
    (applyAll m (putsThenDels ws))[k]? = (applyAll m ws)[k]? ↔ ¬ PutAfterDel ws k := by
  rw [getElem?_applyAll, getElem?_applyAll, putsThenDels, lastWrite_append]
  by_cases hdel : Write.del k ∈ ws
  · rw [lastWrite_filter_dels_of_mem hdel, Option.some_or, Option.getD_some]
    rcases hlast : lastWrite ws k with _ | _ | v
    · exact absurd rfl (lastWrite_eq_none_iff.mp hlast _ hdel)
    · simp [PutAfterDel, hlast]
    · simp [PutAfterDel, hlast, hdel]
  · rw [lastWrite_filter_dels_of_notMem hdel, Option.none_or, lastWrite_filter_puts hdel]
    simp [PutAfterDel, hdel]

omit [Ord K] [Std.TransOrd K] [Std.LawfulEqOrd K] in
/-- Separating puts from deletes leaves alone what the log does not address. -/
theorem lastWrite_putsThenDels_eq_none {ws : List (Write K V)} {k : K} (h : ∀ w ∈ ws, w.key ≠ k) :
    lastWrite (putsThenDels ws) k = none := by
  refine lastWrite_eq_none_iff.mpr fun w hw => h w ?_
  rcases List.mem_append.mp hw with hw | hw <;> exact List.mem_of_mem_filter hw

/-- Separating the puts of two logs with no key in common is separating those of each. -/
theorem applyAll_putsThenDels_append (m : OrdMap K V) {ws vs : List (Write K V)}
    (h : ∀ w ∈ ws, ∀ v ∈ vs, w.key ≠ v.key) :
    applyAll m (putsThenDels (ws ++ vs)) =
      applyAll (applyAll m (putsThenDels ws)) (putsThenDels vs) := by
  rw [← applyAll_append]
  refine applyAll_congr m fun k => ?_
  have hnone : ∀ {us : List (Write K V)}, (∀ u ∈ us, u.key ≠ k) →
      lastWrite (us.filter (·.isPut)) k = none ∧ lastWrite (us.filter (!·.isPut)) k = none :=
    fun hus => ⟨lastWrite_eq_none_iff.mpr fun u hu => hus u (List.mem_of_mem_filter hu),
      lastWrite_eq_none_iff.mpr fun u hu => hus u (List.mem_of_mem_filter hu)⟩
  simp only [putsThenDels, List.filter_append, lastWrite_append]
  by_cases hk : ∀ w ∈ ws, w.key ≠ k
  · obtain ⟨hputs, hdels⟩ := hnone hk
    rw [hputs, hdels]
    simp
  · have hvs : ∀ v ∈ vs, v.key ≠ k := by
      intro v hv hvk
      refine hk fun w hw hwk => h w hw v hv (hwk.trans hvk.symm)
    obtain ⟨hputs, hdels⟩ := hnone hvs
    rw [hputs, hdels]
    simp

end Split

/-! ### Iteration -/

namespace OrdMap

variable {K : Type} [Ord K] [Std.TransOrd K] [Std.LawfulEqOrd K]

/-- Of two lists sorted strictly by one key, the one that has the other's members contains it in
order. -/
theorem sublist_of_pairwise_of_subset {α : Type} (key : α → K) {xs ys : List α}
    (hxs : xs.Pairwise fun a b => compare (key a) (key b) = .lt)
    (hys : ys.Pairwise fun a b => compare (key a) (key b) = .lt) (hsub : xs ⊆ ys) :
    xs.Sublist ys := by
  have hirrefl : Std.Irrefl fun a b : α => compare (key a) (key b) = .lt :=
    ⟨fun a h => by simp at h⟩
  have hantisymm : Std.Antisymm fun a b : α => compare (key a) (key b) = .lt :=
    ⟨fun a b hab hba => absurd hba (Std.OrientedCmp.not_lt_of_lt hab)⟩
  exact List.sublist_of_subperm_of_pairwise (List.subperm_of_subset hxs.nodup hsub) hxs hys

/-- Two lists sorted strictly by one key with the same members are equal. -/
theorem eq_of_pairwise_of_mem_iff {α : Type} (key : α → K) {xs ys : List α}
    (hxs : xs.Pairwise fun a b => compare (key a) (key b) = .lt)
    (hys : ys.Pairwise fun a b => compare (key a) (key b) = .lt)
    (hmem : ∀ a, a ∈ xs ↔ a ∈ ys) : xs = ys :=
  (sublist_of_pairwise_of_subset key hxs hys fun a => (hmem a).mp).antisymm
    (sublist_of_pairwise_of_subset key hys hxs fun a => (hmem a).mpr)

/-- The map built from a list that is sorted by distinct keys iterates as that list. -/
theorem toList_applyAll_puts {α V : Type} [DecidableEq K] {f : α → K} {g : α → V} {xs : List α}
    (hxs : xs.Pairwise fun a b => compare (f a) (f b) = .lt) :
    (applyAll (∅ : OrdMap K V) (xs.map fun a => Write.put (f a) (g a))).toList =
      xs.map fun a => (f a, g a) := by
  have hinj : ∀ a ∈ xs, ∀ b ∈ xs, f a = f b → g a = g b := by
    have hne : xs.Pairwise fun a b => f a = f b → g a = g b := hxs.imp fun {a b} hlt he => by
      rw [he, Std.ReflOrd.compare_self] at hlt
      simp at hlt
    have : Std.Symm fun a b : α => f a = f b → g a = g b := ⟨fun _ _ h he => (h he.symm).symm⟩
    exact fun a ha b hb => List.Pairwise.forall_of_forall (fun _ _ _ => rfl) hne ha hb
  refine eq_of_pairwise_of_mem_iff Prod.fst Std.ExtTreeMap.ordered_keys_toList
    (List.pairwise_map.mpr hxs) ?_
  rintro ⟨k, v⟩
  have hlast : (lastWrite (xs.map fun a => Write.put (f a) (g a)) k).getD none = some v ↔
      lastWrite (xs.map fun a => Write.put (f a) (g a)) k = some (some v) := by
    cases lastWrite (xs.map fun a => Write.put (f a) (g a)) k <;> simp
  rw [Std.ExtTreeMap.mem_toList_iff_getElem?_eq_some, getElem?_applyAll,
    Std.ExtTreeMap.getElem?_empty, hlast, lastWrite_map_put_iff hinj]
  simp [and_comm]

/-- What a log makes of a part of a map is a part of what it makes of the map. -/
theorem sublist_toList_applyAll {V : Type} [DecidableEq K] {part m : OrdMap K V}
    (hpart : ∀ (k : K) (v : V), part[k]? = some v → m[k]? = some v) (ws : List (Write K V)) :
    (applyAll part ws).toList.Sublist (applyAll m ws).toList := by
  refine sublist_of_pairwise_of_subset Prod.fst Std.ExtTreeMap.ordered_keys_toList
    Std.ExtTreeMap.ordered_keys_toList fun e he => ?_
  have hget := Std.ExtTreeMap.mem_toList_iff_getElem?_eq_some.mp he
  refine Std.ExtTreeMap.mem_toList_iff_getElem?_eq_some.mpr ?_
  rw [getElem?_applyAll] at hget ⊢
  cases hlast : lastWrite ws e.1 with
  | none =>
      rw [hlast] at hget
      exact hpart _ _ hget
  | some r => rwa [hlast] at hget

/-- Visit the entries at or after a key, in order, and keep what the visitor returns. -/
def scanFrom {α V : Type} (m : OrdMap K V) (start : K) (visit : K × V → Option α) : List α :=
  (m.toList.filter fun e => (compare start e.1).isLE).filterMap visit

/-- What a scan keeps, when the visitor keeps nothing before the start. -/
theorem mem_scanFrom {α V : Type} [DecidableEq K] {m : OrdMap K V} {start : K}
    {visit : K × V → Option α}
    (hstart : ∀ e a, visit e = some a → (compare start e.1).isLE) {a : α} :
    a ∈ m.scanFrom start visit ↔ ∃ k v, m[k]? = some v ∧ visit (k, v) = some a := by
  simp only [scanFrom, List.mem_filterMap, List.mem_filter, Prod.exists,
    Std.ExtTreeMap.mem_toList_iff_getElem?_eq_some]
  constructor
  · rintro ⟨k, v, ⟨hkv, -⟩, hvisit⟩
    exact ⟨k, v, hkv, hvisit⟩
  · rintro ⟨k, v, hkv, hvisit⟩
    exact ⟨k, v, ⟨hkv, hstart _ _ hvisit⟩, hvisit⟩

omit [Std.LawfulEqOrd K] in
/-- A scan keeps the order of the keys. -/
theorem pairwise_scanFrom {α V : Type} {m : OrdMap K V} {start : K}
    {visit : K × V → Option α} {R : α → α → Prop}
    (hvisit : ∀ e e' a a', visit e = some a → visit e' = some a' →
      compare e.1 e'.1 = .lt → R a a') :
    (m.scanFrom start visit).Pairwise R := by
  refine List.Pairwise.filterMap visit (R := fun e e' => compare e.1 e'.1 = .lt) ?_
    (Std.ExtTreeMap.ordered_keys_toList.filter _)
  intro e e' hlt a ha a' ha'
  exact hvisit e e' a a' ha ha' hlt

/-- Rebuilding a map from its entries gives the map. -/
theorem applyAll_puts_toList {V : Type} [DecidableEq K] (m : OrdMap K V) :
    applyAll ∅ (m.toList.map fun e => Write.put e.1 e.2) = m :=
  Std.ExtTreeMap.ext_getElem? fun k => Option.ext fun v => by
    rw [← Std.ExtTreeMap.mem_toList_iff_getElem?_eq_some,
      toList_applyAll_puts Std.ExtTreeMap.ordered_keys_toList,
      ← Std.ExtTreeMap.mem_toList_iff_getElem?_eq_some]
    simp

end OrdMap

end Lib
