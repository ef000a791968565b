import Mathlib.Data.List.Perm.Subperm
import Zalkanes.Wallet.NoteStore

/-!
# Rounds of Notes

The rounds of a selection over the notes alone. A selector chooses some of the notes that it is
offered; a choice that does not pay for its own fee is followed by another one, for the fee of the
last. Whether the rounds settle depends on what a round offers to the next: all notes, or only those
that no earlier round has chosen.

## Main definitions

* `Settles`: the rounds end with notes that pay.
* `Strands`: groups of notes that do not pay, and leave too little.

## Main results

* `settles_of_not_strands`: if no groups strand the notes, the rounds settle with what is left.
* `exists_not_settles_of_strands`: if some do, there is a complete selector whose rounds do not,
  although they settle when each is offered all notes.
-/

namespace Zalkanes

open NoteStore (maxMoney)

/-! ### Selectors and fee rules -/

/-- What notes are worth together. -/
def worth (notes : List ReceivedNote) : ℕ := (notes.map ReceivedNote.value).sum

/-- No notes are worth nothing. -/
@[simp] theorem worth_nil : worth [] = 0 := rfl

/-- Notes are worth what both parts are. -/
@[simp] theorem worth_append (notes notes' : List ReceivedNote) :
    worth (notes ++ notes') = worth notes + worth notes' := by
  rw [worth, List.map_append, List.sum_append, worth, worth]

/-- Notes in another order are worth the same. -/
theorem worth_eq_of_perm {notes notes' : List ReceivedNote} (h : notes.Perm notes') :
    worth notes = worth notes' :=
  (h.map _).sum_eq

/-- Some of the notes are worth at most what all are. -/
theorem worth_le_of_subperm {notes notes' : List ReceivedNote} (h : notes.Subperm notes') :
    worth notes ≤ worth notes' := by
  obtain ⟨part, hperm, hsublist⟩ := h
  rw [← worth_eq_of_perm hperm]
  exact (hsublist.map _).sum_le_sum fun _ _ => Nat.zero_le _

/-- What is chosen for an amount, of the notes that are offered. -/
abbrev Selector := List ReceivedNote → ℕ → List ReceivedNote

/-- **A complete selector** chooses some of the notes, and covers the amount whenever they do. -/
structure Selector.Complete (select : Selector) : Prop where
  subperm (offered : List ReceivedNote) (required : ℕ) :
    (select offered required).Subperm offered
  covers (offered : List ReceivedNote) (required : ℕ) :
    required ≤ worth offered → required ≤ worth (select offered required)

/-- The fee of a transaction that spends these notes. -/
abbrev FeeRule := List ReceivedNote → ℕ

/-- A fee rule is monotone: spending more notes costs no less. -/
def FeeRule.Monotone (feeOf : FeeRule) : Prop :=
  ∀ {notes notes' : List ReceivedNote}, notes.Subperm notes' → feeOf notes ≤ feeOf notes'

/-- The notes pay for the value and their own fee, and leave change. -/
def PaysFee (feeOf : FeeRule) (value : ℕ) (notes : List ReceivedNote) : Prop :=
  value + feeOf notes < worth notes

instance (feeOf : FeeRule) (value : ℕ) (notes : List ReceivedNote) :
    Decidable (PaysFee feeOf value notes) := inferInstanceAs (Decidable (_ < _))

/-! ### Rounds -/

/-- **The rounds settle**: one of them chooses notes that pay. The first asks for an amount, each
later one for the fee of the notes before and change; `next` is what a round that was offered some
notes, and chose some of them, leaves to the next. -/
inductive Settles (select : Selector) (feeOf : FeeRule) (value : ℕ)
    (next : List ReceivedNote → List ReceivedNote → List ReceivedNote) :
    ℕ → List ReceivedNote → ℕ → Prop
  | pays {rounds required : ℕ} {offered : List ReceivedNote} (hpayable : required ≤ maxMoney)
      (hchosen : select offered required ≠ [])
      (hpays : PaysFee feeOf value (select offered required)) :
      Settles select feeOf value next (rounds + 1) offered required
  | again {rounds required : ℕ} {offered : List ReceivedNote} (hpayable : required ≤ maxMoney)
      (hchosen : select offered required ≠ [])
      (hshort : ¬ PaysFee feeOf value (select offered required))
      (hrest : Settles select feeOf value next rounds (next offered (select offered required))
        (value + feeOf (select offered required) + 1)) :
      Settles select feeOf value next (rounds + 1) offered required

/-- The rounds of a selection settle within their bound, from the value and the minimum fee. -/
def SettlesFor (select : Selector) (feeOf : FeeRule) (value : ℕ)
    (next : List ReceivedNote → List ReceivedNote → List ReceivedNote)
    (offered : List ReceivedNote) : Prop :=
  Settles select feeOf value next maxSelectIterations offered (value + minimumFee)

/-- Each round is offered all notes. -/
def offerAll (offered _chosen : List ReceivedNote) : List ReceivedNote := offered

/-- A round is offered the notes that the ones before have not chosen. -/
def offerRest (offered chosen : List ReceivedNote) : List ReceivedNote :=
  offered.filter fun note => chosen.all fun c => c.outputRef ≠ note.outputRef

/-- The selector that chooses all notes, if they cover the amount. -/
def allOrNone : Selector := fun offered required =>
  if required ≤ worth offered then offered else []

/-- The selector that differs in one choice. -/
def Selector.choosing (select : Selector) (offered : List ReceivedNote) (required : ℕ)
    (chosen : List ReceivedNote) : Selector := fun offered' required' =>
  if offered' = offered ∧ required' = required then chosen else select offered' required'

/-! ### Stranded notes -/

/-- Each group is worth what is asked for: the amount, and after a group its fee and change. -/
def Asked (feeOf : FeeRule) (value : ℕ) : ℕ → List (List ReceivedNote) → Prop
  | _, [] => True
  | required, group :: groups =>
      required ≤ worth group ∧ Asked feeOf value (value + feeOf group + 1) groups

/-- What is asked for after the groups. -/
def amountAfter (feeOf : FeeRule) (value : ℕ) : ℕ → List (List ReceivedNote) → ℕ
  | required, [] => required
  | _, group :: groups => amountAfter feeOf value (value + feeOf group + 1) groups

/-- **The groups strand the notes**: they are disjoint, none pays for its own fee, the first covers
the value and the minimum fee, if the notes do, each later one the fee of the group before and
change, and there are as many as rounds, or what they leave does not cover the fee of the last one
and change. -/
structure Strands (feeOf : FeeRule) (value : ℕ) (offered first : List ReceivedNote)
    (rest : List (List ReceivedNote)) : Prop where
  payable : value + minimumFee ≤ maxMoney
  disjoint : (first ++ rest.flatten).Subperm offered
  nonempty : first ≠ []
  covers : value + minimumFee ≤ worth offered → value + minimumFee ≤ worth first
  short : ∀ group ∈ first :: rest, ¬ PaysFee feeOf value group
  asked : Asked feeOf value (value + feeOf first + 1) rest
  ends : rest.length + 1 = maxSelectIterations ∨ rest.length + 1 < maxSelectIterations ∧
    worth offered < worth first + worth rest.flatten +
      amountAfter feeOf value (value + feeOf first + 1) rest

section Rounds

variable {select select' : Selector} {feeOf : FeeRule} {value rounds required : ℕ}
  {offered chosen first : List ReceivedNote} {rest : List (List ReceivedNote)}

/-- **What is chosen and what is left** are the notes. -/
theorem perm_append_offerRest (hdistinct : (offered.map ReceivedNote.outputRef).Nodup)
    (h : chosen.Subperm offered) : (chosen ++ offerRest offered chosen).Perm offered := by
  have hsame : ∀ {note note'}, note ∈ offered → note' ∈ offered →
      note.outputRef = note'.outputRef → note = note' :=
    fun {note note'} hnote hnote' heq => List.inj_on_of_nodup_map hdistinct hnote hnote' heq
  have hrest : ∀ {note}, note ∈ offerRest offered chosen ↔ note ∈ offered ∧ note ∉ chosen := by
    intro note
    rw [offerRest, List.mem_filter, List.all_eq_true]
    refine and_congr_right fun hnote => ⟨fun hall hmem => ?_, fun hnot c hc => ?_⟩
    · simpa using hall note hmem
    · exact decide_eq_true fun heq => hnot (hsame (h.subset hc) hnote heq ▸ hc)
  have hnodup := hdistinct.of_map
  refine (List.perm_ext_iff_of_nodup ?_ hnodup).mpr fun note => ?_
  · refine List.nodup_append.mpr ⟨?_, hnodup.filter _, ?_⟩
    · obtain ⟨part, hperm, hsublist⟩ := h
      exact hperm.nodup_iff.mp (hsublist.nodup hnodup)
    · rintro note hc note' hnote' rfl
      exact (hrest.mp hnote').2 hc
  · rw [List.mem_append, hrest]
    refine ⟨?_, fun hnote => (em (note ∈ chosen)).imp_right fun hnot => ⟨hnote, hnot⟩⟩
    rintro (hc | ⟨hnote, -⟩)
    · exact h.subset hc
    · exact hnote

/-- What is left was on offer. -/
theorem offerRest_subperm (offered chosen : List ReceivedNote) :
    (offerRest offered chosen).Subperm offered := List.filter_sublist.subperm

/-- What is left is distinct. -/
theorem nodup_offerRest (hdistinct : (offered.map ReceivedNote.outputRef).Nodup)
    (chosen : List ReceivedNote) :
    ((offerRest offered chosen).map ReceivedNote.outputRef).Nodup :=
  hdistinct.sublist (List.filter_sublist.map _)

/-- What is chosen and what is left are worth what was on offer. -/
theorem worth_append_offerRest (hdistinct : (offered.map ReceivedNote.outputRef).Nodup)
    (h : chosen.Subperm offered) : worth chosen + worth (offerRest offered chosen) =
      worth offered := by
  rw [← worth_append, worth_eq_of_perm (perm_append_offerRest hdistinct h)]

/-- Groups of the notes that are left are groups besides what was chosen. -/
theorem append_subperm_iff (hdistinct : (offered.map ReceivedNote.outputRef).Nodup)
    (h : chosen.Subperm offered) {others : List ReceivedNote} :
    (chosen ++ others).Subperm offered ↔ others.Subperm (offerRest offered chosen) := by
  rw [← (perm_append_offerRest hdistinct h).subperm_left, List.subperm_append_left]

/-! ### Notes that are not stranded -/

/-- Rounds that do not settle choose groups that leave too little. -/
theorem exists_groups_of_not_settles (hselect : select.Complete)
    (hpayable : ∀ chosen : List ReceivedNote, chosen.Subperm offered →
      value + feeOf chosen + 1 ≤ maxMoney)
    (hdistinct : (offered.map ReceivedNote.outputRef).Nodup) (hpos : 0 < required)
    (hrequired : required ≤ maxMoney)
    (h : ¬ Settles select feeOf value offerRest rounds offered required) :
    ∃ groups : List (List ReceivedNote), groups.flatten.Subperm offered ∧
      (∀ group ∈ groups, ¬ PaysFee feeOf value group) ∧ Asked feeOf value required groups ∧
      (groups.length = rounds ∨ groups.length < rounds ∧
        worth offered < worth groups.flatten + amountAfter feeOf value required groups) := by
  induction rounds generalizing offered required with
  | zero => exact ⟨[], List.nil_subperm, by simp, trivial, Or.inl rfl⟩
  | succ rounds ih =>
      rcases Nat.lt_or_ge (worth offered) required with hlt | hcovers
      · exact ⟨[], List.nil_subperm, by simp, trivial, Or.inr ⟨Nat.succ_pos _, by
          simpa [amountAfter] using hlt⟩⟩
      have hsubperm := hselect.subperm offered required
      have hworth := hselect.covers offered required hcovers
      have hchosen : select offered required ≠ [] := by
        intro hnil
        rw [hnil, worth_nil] at hworth
        omega
      have hshort : ¬ PaysFee feeOf value (select offered required) := fun hpays =>
        h (.pays hrequired hchosen hpays)
      generalize hgroup : select offered required = group at hsubperm hworth hshort
      have hrest : ¬ Settles select feeOf value offerRest rounds (offerRest offered group)
          (value + feeOf group + 1) := by
        rintro hrest
        subst hgroup
        exact h (.again hrequired hchosen hshort hrest)
      obtain ⟨groups, hgroups, hshorts, hasked, hends⟩ := ih
        (fun chosen hc => hpayable chosen (hc.trans (offerRest_subperm _ _)))
        (nodup_offerRest hdistinct group) (by omega) (hpayable group hsubperm) hrest
      refine ⟨group :: groups, ?_, ?_, ⟨hworth, hasked⟩, ?_⟩
      · rw [List.flatten_cons]
        exact (append_subperm_iff hdistinct hsubperm).mpr hgroups
      · exact List.forall_mem_cons.mpr ⟨hshort, hshorts⟩
      · have hsum := worth_append_offerRest hdistinct hsubperm
        rw [List.length_cons, List.flatten_cons, worth_append, amountAfter]
        omega

/-- **If no groups strand the notes**, the rounds of every complete selector settle with what is
left, if they settle when each is offered all notes. -/
theorem settles_of_not_strands (hselect : select.Complete)
    (hpayable : ∀ chosen : List ReceivedNote, chosen.Subperm offered →
      value + feeOf chosen + 1 ≤ maxMoney)
    (hdistinct : (offered.map ReceivedNote.outputRef).Nodup)
    (hall : SettlesFor select feeOf value offerAll offered)
    (hnot : ¬ ∃ first rest, Strands feeOf value offered first rest) :
    SettlesFor select feeOf value offerRest offered := by
  have hfirst : value + minimumFee ≤ maxMoney ∧ select offered (value + minimumFee) ≠ [] := by
    cases hall with
    | pays hpayable hchosen _ | again hpayable hchosen _ _ => exact ⟨hpayable, hchosen⟩
  obtain ⟨hmoney, hchosen⟩ := hfirst
  by_cases hpays : PaysFee feeOf value (select offered (value + minimumFee))
  · exact .pays hmoney hchosen hpays
  refine .again hmoney hchosen hpays (by_contra fun hrest => hnot ?_)
  have hsubperm := hselect.subperm offered (value + minimumFee)
  have hcovers := hselect.covers offered (value + minimumFee)
  generalize select offered (value + minimumFee) = first at *
  obtain ⟨groups, hgroups, hshorts, hasked, hends⟩ := exists_groups_of_not_settles hselect
    (fun chosen hc => hpayable chosen (hc.trans (offerRest_subperm _ _)))
    (nodup_offerRest hdistinct first) (by omega) (hpayable first hsubperm) hrest
  have hsum := worth_append_offerRest hdistinct hsubperm
  exact ⟨first, groups, hmoney, (append_subperm_iff hdistinct hsubperm).mpr hgroups, hchosen,
    hcovers, List.forall_mem_cons.mpr ⟨hpays, hshorts⟩, hasked, by
      rw [maxSelectIterations]
      omega⟩

/-- Groups that are worth something have notes. -/
theorem Asked.length_le {groups : List (List ReceivedNote)} (hpos : 0 < required)
    (h : Asked feeOf value required groups) : groups.length ≤ groups.flatten.length := by
  induction groups generalizing required with
  | nil => exact le_rfl
  | cons group groups ih =>
      have hrest := ih (Nat.succ_pos _) h.2
      have hne : group ≠ [] := by
        rintro rfl
        have hworth := h.1
        rw [worth_nil] at hworth
        omega
      have hlength := List.length_pos_of_ne_nil hne
      rw [List.length_cons, List.flatten_cons, List.length_append]
      omega

/-- What is asked for is bounded by what the groups need. -/
theorem amountAfter_le {bound : ℕ} {groups : List (List ReceivedNote)} (hle : required ≤ bound)
    (h : ∀ group ∈ groups, value + feeOf group + 1 ≤ bound) :
    amountAfter feeOf value required groups ≤ bound := by
  induction groups generalizing required with
  | nil => exact hle
  | cons group groups ih =>
      exact ih (h group List.mem_cons_self) fun g hg => h g (List.mem_cons_of_mem _ hg)

/-- **A note that pays for everything** strands nothing: it is in no group that does not pay, and
so it is left. -/
theorem not_strands_of_note (hfee : feeOf.Monotone) {note : ReceivedNote}
    (hmem : note ∈ offered) (hpays : value + feeOf offered < note.value)
    (hfew : offered.length ≤ maxSelectIterations) :
    ¬ ∃ first rest, Strands feeOf value offered first rest := by
  rintro ⟨first, rest, h⟩
  have hle : ∀ group ∈ first :: rest, group.Subperm offered := fun group hgroup =>
    (List.sublist_flatten_of_mem hgroup).subperm.trans h.disjoint
  have hfees : ∀ group ∈ first :: rest, value + feeOf group + 1 ≤ value + feeOf offered + 1 := by
    intro group hgroup
    have hmonotone := hfee (hle group hgroup)
    omega
  have hnot : note ∉ first ++ rest.flatten := by
    intro hnote
    rw [← List.flatten_cons] at hnote
    obtain ⟨group, hgroup, hnote⟩ := List.mem_flatten.mp hnote
    have hworth : note.value ≤ worth group :=
      List.single_le_sum (fun _ _ => Nat.zero_le _) _ (List.mem_map_of_mem hnote)
    have hshort : ¬ value + feeOf group < worth group := h.short group hgroup
    have hgroupFee := hfees group hgroup
    omega
  have hleft := List.cons_subperm_of_not_mem_of_mem hnot hmem h.disjoint
  have hlength := hleft.length_le
  have hworth := worth_le_of_subperm hleft
  have hgroups := h.asked.length_le (Nat.succ_pos _)
  have hfirst := List.length_pos_of_ne_nil h.nonempty
  have hafter := amountAfter_le (hfees first List.mem_cons_self) fun group hgroup =>
    hfees group (List.mem_cons_of_mem _ hgroup)
  have hcons : worth (note :: (first ++ rest.flatten)) =
      note.value + (worth first + worth rest.flatten) := by
    rw [← worth_append]
    rfl
  rw [List.length_cons, List.length_append] at hlength
  rcases h.ends with hrounds | ⟨-, hlt⟩ <;> omega

/-! ### Notes that are stranded -/

/-- Choosing all or none is complete. -/
theorem complete_allOrNone : allOrNone.Complete where
  subperm offered required := by
    rw [allOrNone]
    split
    · exact List.Subperm.refl offered
    · exact List.nil_subperm
  covers offered required h := by rwa [allOrNone, if_pos h]

/-- Choosing a group that covers, where it can, is complete. -/
theorem Selector.Complete.choosing (h : select.Complete) (hsubperm : chosen.Subperm offered)
    (hcovers : required ≤ worth offered → required ≤ worth chosen) :
    (select.choosing offered required chosen).Complete where
  subperm offered' required' := by
    rw [Selector.choosing]
    split
    · rename_i heq
      exact heq.1 ▸ hsubperm
    · exact h.subperm _ _
  covers offered' required' := by
    rw [Selector.choosing]
    split
    · rename_i heq
      rw [heq.1, heq.2]
      exact hcovers
    · exact h.covers _ _

/-- Where it is told what to choose it chooses that. -/
@[simp] theorem Selector.choosing_self (select : Selector) (offered : List ReceivedNote)
    (required : ℕ) (chosen : List ReceivedNote) :
    select.choosing offered required chosen offered required = chosen := if_pos ⟨rfl, rfl⟩

/-- Elsewhere it chooses as before. -/
theorem Selector.choosing_of_ne (select : Selector) {offered' : List ReceivedNote} {required' : ℕ}
    (h : ¬ (offered' = offered ∧ required' = required)) :
    select.choosing offered required chosen offered' required' = select offered' required' :=
  if_neg h

/-- The rounds depend on the choices among as many notes, or fewer. -/
theorem Settles.congr (h : Settles select feeOf value offerRest rounds offered required)
    (hagree : ∀ (offered' : List ReceivedNote) (required' : ℕ),
      offered'.length ≤ offered.length → select offered' required' = select' offered' required') :
    Settles select' feeOf value offerRest rounds offered required := by
  induction h with
  | pays hpayable hchosen hpays =>
      rw [hagree _ _ le_rfl] at hchosen hpays
      exact .pays hpayable hchosen hpays
  | again hpayable hchosen hshort _ ih =>
      have hrest := ih fun offered' required' hlength =>
        hagree offered' required' (hlength.trans (offerRest_subperm _ _).length_le)
      rw [hagree _ _ le_rfl] at hchosen hshort hrest
      exact .again hpayable hchosen hshort hrest

/-- A short choice, after which the rounds do not settle. -/
theorem not_settles_choosing (hshort : ¬ PaysFee feeOf value chosen)
    (hlength : (offerRest offered chosen).length < offered.length)
    (h : ¬ Settles select feeOf value offerRest rounds (offerRest offered chosen)
      (value + feeOf chosen + 1)) :
    ¬ Settles (select.choosing offered required chosen) feeOf value offerRest (rounds + 1) offered
      required := by
  intro hsettles
  cases hsettles with
  | pays _ _ hpays =>
      rw [Selector.choosing_self] at hpays
      exact hshort hpays
  | again _ _ _ hrest =>
      rw [Selector.choosing_self] at hrest
      refine h (hrest.congr fun offered' required' hle => select.choosing_of_ne ?_)
      rintro ⟨rfl, -⟩
      omega

/-- Less is left than was on offer. -/
theorem length_offerRest_lt (hdistinct : (offered.map ReceivedNote.outputRef).Nodup)
    (h : chosen.Subperm offered) (hne : chosen ≠ []) :
    (offerRest offered chosen).length < offered.length := by
  have hlength := (perm_append_offerRest hdistinct h).length_eq
  have hpos := List.length_pos_of_ne_nil hne
  rw [List.length_append] at hlength
  omega

variable (rounds) in
/-- **Groups that leave too little** are the choices of a complete selector, which chooses all of
more notes than there are. -/
theorem exists_selector_of_groups {groups : List (List ReceivedNote)}
    (hdistinct : (offered.map ReceivedNote.outputRef).Nodup)
    (hgroups : groups.flatten.Subperm offered)
    (hshort : ∀ group ∈ groups, ¬ PaysFee feeOf value group) (hpos : 0 < required)
    (hasked : Asked feeOf value required groups)
    (hends : groups.length = rounds ∨ groups.length < rounds ∧
      worth offered < worth groups.flatten + amountAfter feeOf value required groups) :
    ∃ select : Selector, select.Complete ∧
      ¬ Settles select feeOf value offerRest rounds offered required ∧
      ∀ (offered' : List ReceivedNote) (required' : ℕ), offered.length < offered'.length →
        select offered' required' = allOrNone offered' required' := by
  induction groups generalizing offered required rounds with
  | nil =>
      refine ⟨allOrNone, complete_allOrNone, fun hsettles => ?_, fun _ _ _ => rfl⟩
      have hnone : 0 < rounds → allOrNone offered required = [] := by
        intro hrounds
        simp only [List.length_nil, List.flatten_nil, worth_nil, amountAfter] at hends
        rw [allOrNone, if_neg (by omega)]
      cases hsettles with
      | pays _ hchosen _ | again _ hchosen _ _ => exact hchosen (hnone (Nat.succ_pos _))
  | cons group groups ih =>
      obtain ⟨hworth, hasked⟩ := hasked
      rw [List.flatten_cons] at hgroups hends
      have hsubperm : group.Subperm offered :=
        (List.sublist_append_left _ _).subperm.trans hgroups
      have hne : group ≠ [] := by
        rintro rfl
        rw [worth_nil] at hworth
        omega
      have hlength := length_offerRest_lt hdistinct hsubperm hne
      have hsum := worth_append_offerRest hdistinct hsubperm
      obtain ⟨rounds, rfl⟩ : ∃ n, rounds = n + 1 := by
        rw [List.length_cons] at hends
        exact ⟨rounds - 1, by omega⟩
      obtain ⟨select, hselect, hnot, hagree⟩ := ih rounds (nodup_offerRest hdistinct group)
        ((append_subperm_iff hdistinct hsubperm).mp hgroups)
        (fun g hg => hshort g (List.mem_cons_of_mem _ hg)) (by omega) hasked (by
          rw [List.length_cons, worth_append, amountAfter] at hends
          omega)
      refine ⟨select.choosing offered required group, hselect.choosing hsubperm fun _ => hworth,
        not_settles_choosing (hshort group List.mem_cons_self) hlength hnot,
        fun offered' required' hlt => ?_⟩
      rw [select.choosing_of_ne, hagree offered' required' (by omega)]
      rintro ⟨rfl, -⟩
      omega

/-- **If groups strand the notes**, the rounds of a complete selector do not settle with what is
left, although they settle when each is offered all notes, which pay together. -/
theorem exists_not_settles_of_strands (hfee : feeOf.Monotone)
    (hdistinct : (offered.map ReceivedNote.outputRef).Nodup) (hmoney : worth offered ≤ maxMoney)
    (hall : PaysFee feeOf value offered) (h : Strands feeOf value offered first rest) :
    ∃ select : Selector, select.Complete ∧ SettlesFor select feeOf value offerAll offered ∧
      ¬ SettlesFor select feeOf value offerRest offered := by
  have hsubperm : first.Subperm offered :=
    (List.sublist_append_left _ _).subperm.trans h.disjoint
  have hshort := h.short first List.mem_cons_self
  have hlength := length_offerRest_lt hdistinct hsubperm h.nonempty
  have hsum := worth_append_offerRest hdistinct hsubperm
  have hends := h.ends
  obtain ⟨select, hselect, hnot, hagree⟩ := exists_selector_of_groups 15
    (nodup_offerRest hdistinct first) ((append_subperm_iff hdistinct hsubperm).mp h.disjoint)
    (fun g hg => h.short g (List.mem_cons_of_mem _ hg)) (by omega) h.asked (by
      rw [maxSelectIterations] at hends
      omega)
  refine ⟨select.choosing offered (value + minimumFee) first,
    hselect.choosing hsubperm h.covers, ?_, not_settles_choosing hshort hlength hnot⟩
  -- the second round is offered all notes, and chooses them all
  have hpays : value + feeOf offered < worth offered := hall
  have hle := hfee hsubperm
  have hsecond : value + feeOf first + 1 ≠ value + minimumFee := by
    intro heq
    have hcovers := h.covers (by omega)
    have hless : ¬ value + feeOf first < worth first := hshort
    omega
  have hchoice : select.choosing offered (value + minimumFee) first offered
      (value + feeOf first + 1) = offered := by
    rw [select.choosing_of_ne fun heq => hsecond heq.2, hagree _ _ hlength, allOrNone,
      if_pos (by omega)]
  have hoffered : offered ≠ [] := fun hnil => by
    rw [hnil, worth_nil] at hpays
    omega
  refine .again h.payable ?_ ?_ (.pays ?_ ?_ ?_)
  · rw [Selector.choosing_self]
    exact h.nonempty
  · rwa [Selector.choosing_self]
  · rw [Selector.choosing_self]
    omega
  · rwa [Selector.choosing_self, offerAll, hchoice]
  · rwa [Selector.choosing_self, offerAll, hchoice]

/-- **Selectors and groups.** All complete selectors whose rounds settle when each is offered all
notes settle with what is left, exactly if no groups strand the notes. -/
theorem forall_settles_iff_not_strands (hfee : feeOf.Monotone)
    (hdistinct : (offered.map ReceivedNote.outputRef).Nodup) (hmoney : worth offered ≤ maxMoney)
    (hall : PaysFee feeOf value offered) :
    (∀ select : Selector, select.Complete → SettlesFor select feeOf value offerAll offered →
      SettlesFor select feeOf value offerRest offered) ↔
      ¬ ∃ first rest, Strands feeOf value offered first rest := by
  constructor
  · rintro h ⟨first, rest, hstrands⟩
    obtain ⟨select, hselect, hsettles, hnot⟩ :=
      exists_not_settles_of_strands hfee hdistinct hmoney hall hstrands
    exact hnot (h select hselect hsettles)
  · intro hnot select hselect hsettles
    refine settles_of_not_strands hselect (fun chosen hchosen => ?_) hdistinct hsettles hnot
    have hpays : value + feeOf offered < worth offered := hall
    have hle := hfee hchosen
    omega

end Rounds

end Zalkanes
