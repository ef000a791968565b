import Zalkanes.Wallet.NoteRounds
import Zalkanes.Wallet.ShieldedPlan

/-!
# Completeness of the Selection

A selection that does not pay for its own fee is tried again with a larger amount, while its notes
stay locked. Later rounds see the notes that are left, so a selection may fail although the notes of
the wallet cover what is needed: exactly where groups of them can be taken that do not pay, and
leave too little.

## Main definitions

* `Coverable`: the unlocked notes pay for the value, their fee and change.
* `Selects`: the wallet selects with a complete selector, and the fee settles.

## Main results

* `spec_selectFor_settles`: the rounds of a selection are the rounds over its notes.
* `selects_iff_not_strands`: when a selection is returned.
-/

namespace Zalkanes

open Lib NoteStore

/-- The notes that no plan has locked. -/
def unlockedNotes (notes : List ReceivedNote) (db : NoteStore) : List ReceivedNote :=
  notes.filter fun note => db.locks.all fun l => l.outputRef ≠ note.outputRef

/-- **The unlocked notes cover the value**: the wallet is ready to select, fees are monotone, and
the unlocked notes, which are distinct and no more than there is, pay together. -/
structure Coverable (feeOf : FeeRule) (value : ℕ) (notes : List ReceivedNote) (db : NoteStore) :
    Prop where
  unlocked : db.unlocked = true
  synced : db.synced = true
  tip : 2 ≤ db.zebraTip.height
  monotone : feeOf.Monotone
  distinct : (notes.map ReceivedNote.outputRef).Nodup
  supply : worth (unlockedNotes notes db) ≤ maxMoney
  covers : PaysFee feeOf value (unlockedNotes notes db)

/-- **The wallet selects with this selector** from its notes, which it can spend: the selector is
complete, the notes that are not locked are offered to it, and if each round were offered all of
them, the fee would settle within the bound. -/
structure Selects (B : NoteBackend) (select : Selector) (feeOf : FeeRule) (request : TxRequest)
    (value : ℕ) (notes : List ReceivedNote) (db : NoteStore) : Prop where
  complete : select.Complete
  selected (taken : List NoteLock) (required : ℕ) :
    B.selectSpendableNotes (db.lock taken) required =
      .ok (select (unlockedNotes notes (db.lock taken)) required)
  witnessed (taken : List NoteLock) (note : ReceivedNote) :
    note ∈ notes → B.witness (db.lock taken) db.anchorHeight note = .ok ()
  anchored (taken : List NoteLock) : B.anchors (db.lock taken) db.anchorHeight = .ok ()
  locked (taken : List NoteLock) (chosen : List ReceivedNote) :
    chosen.Subperm (unlockedNotes notes (db.lock taken)) →
      B.lockOutputs (db.lock taken) chosen = .ok ()
  fee (taken : List NoteLock) (chosen : List ReceivedNote) : chosen.Subperm notes →
    B.getFee request ((db.lock taken).selectionOf chosen) = .ok (feeOf chosen)
  settles : SettlesFor select feeOf value offerAll (unlockedNotes notes db)

/-- Every run of the selection returns one. -/
def Returns (B : NoteBackend) (H : Hashing) (request : TxRequest) (value : ℕ) (planId : String)
    (db : NoteStore) : Prop :=
  ∀ r db', Prog.Yields (answers B H) (selectFor request value planId).run db r db' →
    ∃ selection, r = .ok selection

section Complete

open Prog

variable {B : NoteBackend} {select : Selector} {feeOf : FeeRule} {H : Hashing} {db : NoteStore}
  {request : TxRequest} {value rounds required : ℕ} {planId : String}
  {notes chosen : List ReceivedNote} {taken : List NoteLock}

/-! ### The rounds of a selection -/

/-- Unlocked notes are notes of the wallet. -/
theorem unlockedNotes_sublist (notes : List ReceivedNote) (db : NoteStore) :
    (unlockedNotes notes db).Sublist notes := List.filter_sublist

/-- More locks leave fewer notes. -/
theorem unlockedNotes_lock_subperm (notes : List ReceivedNote) (db : NoteStore)
    (taken : List NoteLock) :
    (unlockedNotes notes (db.lock taken)).Subperm (unlockedNotes notes db) := by
  refine (List.monotone_filter_right notes fun note hnote => ?_).subperm
  rw [locks_lock, List.all_append, Bool.and_eq_true] at hnote
  exact hnote.1

/-- **Once a choice is locked**, the rest of the notes is offered. -/
theorem unlockedNotes_locksFor (H : Hashing) (planId : String) (notes chosen : List ReceivedNote)
    (db : NoteStore) : unlockedNotes notes (db.lock (db.locksFor H planId chosen)) =
      offerRest (unlockedNotes notes db) chosen := by
  rw [unlockedNotes, unlockedNotes, offerRest, List.filter_filter, locks_lock, locksFor]
  refine List.filter_congr fun note _ => ?_
  rw [List.all_append, List.all_map, Bool.and_comm]
  rfl

namespace Selects

/-- What is chosen is part of the unlocked notes. -/
theorem subperm (h : Selects B select feeOf request value notes db) (taken : List NoteLock)
    (required : ℕ) : (select (unlockedNotes notes (db.lock taken)) required).Subperm
      (unlockedNotes notes db) :=
  (h.complete.subperm _ _).trans (unlockedNotes_lock_subperm notes db taken)

/-- **The wallet chooses** what the selector chooses of the unlocked notes. -/
theorem chosen_iff (h : Selects B select feeOf request value notes db)
    (hcover : Coverable feeOf value notes db) : Chosen B (db.lock taken) required chosen ↔
      required ≤ maxMoney ∧ chosen = select (unlockedNotes notes (db.lock taken)) required ∧
        chosen ≠ [] := by
  constructor
  · intro hchosen
    exact ⟨hchosen.payable, Except.ok.inj (hchosen.selected.symm.trans (h.selected taken required)),
      hchosen.nonempty⟩
  · rintro ⟨hpayable, rfl, hne⟩
    refine ⟨hcover.unlocked, hcover.synced, hcover.tip, hpayable, h.selected taken required, hne,
      ?_, h.anchored taken, h.locked taken _ (h.complete.subperm _ _)⟩
    have hnotes : ∀ note ∈ select (unlockedNotes notes (db.lock taken)) required,
        B.witness (db.lock taken) db.anchorHeight note = .ok () := fun note hnote =>
      h.witnessed taken note ((unlockedNotes_sublist _ _).subset
        ((h.complete.subperm _ _).subset hnote))
    change List.forM _ (B.witness (db.lock taken) db.anchorHeight) = _
    generalize select (unlockedNotes notes (db.lock taken)) required = chosen at hnotes
    induction chosen with
    | nil => rfl
    | cons note rest ih =>
        rw [List.forM, hnotes note List.mem_cons_self]
        exact ih fun note' hnote' => hnotes note' (List.mem_cons_of_mem _ hnote')

/-- The fee of some of the unlocked notes can be added to the value. -/
theorem checkedAdd_fee (hcover : Coverable feeOf value notes db)
    (hchosen : chosen.Subperm (unlockedNotes notes db)) :
    checkedAdd value (feeOf chosen) = some (value + feeOf chosen) ∧
      value + feeOf chosen + 1 < 2 ^ 64 := by
  have hfee := hcover.monotone hchosen
  have hpays : value + feeOf (unlockedNotes notes db) < worth (unlockedNotes notes db) :=
    hcover.covers
  have hsupply := hcover.supply
  rw [maxMoney] at hsupply
  exact ⟨if_pos (by omega), by omega⟩

/-- A choice pays for itself exactly if its notes do. -/
theorem covers_iff (h : Selects B select feeOf request value notes db)
    (hcover : Coverable feeOf value notes db)
    (hchosen : chosen.Subperm (unlockedNotes notes db)) {fee : ℕ} :
    Covers B request value ((db.lock taken).selectionOf chosen) fee ↔
      fee = feeOf chosen ∧ PaysFee feeOf value chosen := by
  have hfee := h.fee taken chosen (hchosen.trans (unlockedNotes_sublist notes db).subperm)
  have hadd := (checkedAdd_fee hcover hchosen).1
  constructor
  · rintro ⟨hget, total, htotal, hlt⟩
    obtain rfl := Except.ok.inj (hget.symm.trans hfee)
    obtain rfl := Option.some.inj (htotal.symm.trans hadd)
    exact ⟨rfl, hlt⟩
  · rintro ⟨rfl, hpays⟩
    exact ⟨hfee, _, hadd, hpays⟩

/-- **The rounds of a selection are the rounds over its notes**, each of which is offered the notes
that the earlier ones have not locked. -/
theorem spec_selectRounds (h : Selects B select feeOf request value notes db)
    (hcover : Coverable feeOf value notes db) (H : Hashing) (planId : String)
    (rounds required : ℕ) (taken : List NoteLock) :
    Spec (answers B H) anyCall (selectRounds request value planId rounds required).run
      (db.lock taken) fun r _ => (∃ selection, r = .ok selection) ↔
        Settles select feeOf value offerRest rounds (unlockedNotes notes (db.lock taken))
          required := by
  induction rounds generalizing required taken with
  | zero => exact iff_of_false (fun ⟨_, h⟩ => by cases h) fun h => by cases h
  | succ rounds ih =>
      have hsubperm := h.subperm taken required
      obtain ⟨hadd, hlt⟩ := checkedAdd_fee hcover hsubperm
      refine spec_selectRound (fun e hnone => ?_) (fun chosen fee hchosen hcovers => ?_)
        (fun chosen e hchosen hstops => ?_) fun chosen total hchosen hshort => ?_
      · refine iff_of_false (fun ⟨_, h⟩ => by cases h) fun hsettles => ?_
        cases hsettles with
        | pays hpayable hne _ | again hpayable hne _ _ =>
            exact hnone _ ((h.chosen_iff hcover).mpr ⟨hpayable, rfl, hne⟩)
      · obtain ⟨hpayable, rfl, hne⟩ := (h.chosen_iff hcover).mp hchosen
        exact iff_of_true ⟨_, rfl⟩
          (.pays hpayable hne ((h.covers_iff hcover hsubperm).mp hcovers).2)
      · obtain ⟨-, rfl, -⟩ := (h.chosen_iff hcover).mp hchosen
        have hfee := h.fee taken _ (hsubperm.trans (unlockedNotes_sublist notes db).subperm)
        rw [hstops _ hfee] at hadd
        cases hadd
      · obtain ⟨hpayable, rfl, hne⟩ := (h.chosen_iff hcover).mp hchosen
        have hnot : ¬ PaysFee feeOf value
            (select (unlockedNotes notes (db.lock taken)) required) := fun hpays =>
          hshort.not_covers _ ((h.covers_iff hcover hsubperm).mpr ⟨rfl, hpays⟩)
        obtain ⟨⟨fee, hget, htotal⟩, -⟩ := hshort
        have hfee := h.fee taken _ (hsubperm.trans (unlockedNotes_sublist notes db).subperm)
        obtain rfl := Except.ok.inj (hget.symm.trans hfee)
        obtain rfl := Option.some.inj (htotal.symm.trans hadd)
        rw [Nat.mod_eq_of_lt hlt]
        have hrest := ih (value + feeOf (select (unlockedNotes notes (db.lock taken)) required) + 1)
          (taken ++ (db.lock taken).locksFor H planId
            (select (unlockedNotes notes (db.lock taken)) required))
        rw [← lock_lock, unlockedNotes_locksFor] at hrest
        refine hrest.mono fun r _ hiff => hiff.trans ⟨.again hpayable hne hnot, fun hsettles => ?_⟩
        cases hsettles with
        | pays _ _ hpays => exact absurd hpays hnot
        | again _ _ _ hrest => exact hrest

/-- **A selection is returned** exactly if the rounds over the notes settle. -/
theorem spec_selectFor_settles (h : Selects B select feeOf request value notes db)
    (hcover : Coverable feeOf value notes db) (H : Hashing) (planId : String) :
    Spec (answers B H) anyCall (selectFor request value planId).run db fun r _ =>
      (∃ selection, r = .ok selection) ↔
        SettlesFor select feeOf value offerRest (unlockedNotes notes db) := by
  have hpayable : value + minimumFee ≤ maxMoney := by
    cases h.settles with
    | pays hpayable _ _ | again hpayable _ _ _ => exact hpayable
  have hadd : checkedAdd value minimumFee = some (value + minimumFee) := by
    rw [maxMoney] at hpayable
    exact if_pos (by omega)
  have hrounds := h.spec_selectRounds hcover H planId maxSelectIterations (value + minimumFee) []
  rw [lock_nil] at hrounds
  unfold selectFor SettlesFor
  generalize maxSelectIterations = rounds at hrounds ⊢
  rw [hadd]
  exact hrounds

-- the bound of the first round is not to be computed
attribute [local irreducible] selectFor

/-- Every run returns a selection exactly if the rounds over the notes settle. -/
theorem returns_iff_settles (h : Selects B select feeOf request value notes db)
    (hcover : Coverable feeOf value notes db) (H : Hashing) (planId : String) :
    Returns B H request value planId db ↔
      SettlesFor select feeOf value offerRest (unlockedNotes notes db) := by
  have hspec := h.spec_selectFor_settles hcover H planId
  constructor
  · intro hreturns
    obtain ⟨r, db', hrun⟩ := exists_yields (exists_answer B H) (selectFor request value planId).run
      db
    exact (hspec.of_yields hrun).mp (hreturns r db' hrun)
  · exact fun hsettles r db' hrun => (hspec.of_yields hrun).mpr hsettles

end Selects

/-! ### Every selector -/

/-- A wallet that selects with this selector from these notes, and a builder with this fee rule. -/
def selectingBackend (notes : List ReceivedNote) (feeOf : FeeRule) (select : Selector)
    (hselect : select.Complete) : NoteBackend where
  selectSpendableNotes db required := .ok (select (unlockedNotes notes db) required)
  witness _ _ _ := .ok ()
  anchors _ _ := .ok ()
  lockOutputs _ _ := .ok ()
  getFee _ selection :=
    .ok (feeOf (notes.filter fun note => note.outputRef ∈ selection.outputRefs))
  buildShielded _ _ _ := .error ""
  newPlanId := ""
  excludes db required notes' h note hnote l hl := by
    cases h
    have hmem := (hselect.subperm _ _).subset hnote
    exact of_decide_eq_true (List.all_eq_true.mp (List.mem_filter.mp hmem).2 l hl)

/-- Some of the notes, looked up by what they are recorded as. -/
theorem perm_filter_outputRef (hdistinct : (notes.map ReceivedNote.outputRef).Nodup)
    (hchosen : chosen.Subperm notes) :
    (notes.filter fun note => note.outputRef ∈ chosen.map ReceivedNote.outputRef).Perm chosen := by
  have hnodup := hdistinct.of_map
  have hchosenNodup : chosen.Nodup := by
    obtain ⟨part, hperm, hsublist⟩ := hchosen
    exact hperm.nodup_iff.mp (hsublist.nodup hnodup)
  refine (List.perm_ext_iff_of_nodup (hnodup.filter _) hchosenNodup).mpr fun note => ?_
  rw [List.mem_filter, decide_eq_true_iff]
  constructor
  · rintro ⟨hnote, hmem⟩
    obtain ⟨c, hc, heq⟩ := List.mem_map.mp hmem
    exact List.inj_on_of_nodup_map hdistinct (hchosen.subset hc) hnote heq ▸ hc
  · exact fun hnote => ⟨hchosen.subset hnote, List.mem_map_of_mem hnote⟩

/-- The wallet selects with its selector. -/
theorem selects_selectingBackend (hcover : Coverable feeOf value notes db)
    (hselect : select.Complete) (request : TxRequest)
    (hsettles : SettlesFor select feeOf value offerAll (unlockedNotes notes db)) :
    Selects (selectingBackend notes feeOf select hselect) select feeOf request value notes db where
  complete := hselect
  selected _ _ := rfl
  witnessed _ _ _ := rfl
  anchored _ := rfl
  locked _ _ _ := rfl
  fee taken chosen hchosen := by
    have hperm := perm_filter_outputRef hcover.distinct hchosen
    exact congrArg Except.ok (le_antisymm (hcover.monotone hperm.subperm)
      (hcover.monotone hperm.symm.subperm))
  settles := hsettles

/-- **When a selection is returned**, of notes that cover the value. A wallet returns one exactly if
the rounds over its notes settle, although each is offered only the notes that no earlier one has
chosen. All wallets with these notes return one exactly if no groups of the notes strand them. -/
theorem selects_iff_not_strands (H : Hashing) (request : TxRequest) (planId : String)
    (h : Coverable feeOf value notes db) :
    (∀ B select, Selects B select feeOf request value notes db →
      (Returns B H request value planId db ↔
        SettlesFor select feeOf value offerRest (unlockedNotes notes db))) ∧
    ((∀ B select, Selects B select feeOf request value notes db →
        Returns B H request value planId db) ↔
      ¬ ∃ first rest, Strands feeOf value (unlockedNotes notes db) first rest) := by
  refine ⟨fun B select hselects => hselects.returns_iff_settles h H planId, ?_⟩
  have hdistinct := h.distinct.sublist ((unlockedNotes_sublist notes db).map ReceivedNote.outputRef)
  rw [← forall_settles_iff_not_strands h.monotone hdistinct h.supply h.covers]
  constructor
  · intro hreturns select hselect hsettles
    have hselects := selects_selectingBackend h hselect request hsettles
    exact (hselects.returns_iff_settles h H planId).mp (hreturns _ select hselects)
  · intro hsettles B select hselects
    exact (hselects.returns_iff_settles h H planId).mpr
      (hsettles select hselects.complete hselects.settles)

/-! ### Notes of the minimum fee -/

/-- The ZIP-317 fee of a transaction that spends shielded notes. -/
def noteFee : FeeRule := fun notes => 5000 * max 2 notes.length

/-- More notes, no less fee. -/
theorem monotone_noteFee : noteFee.Monotone := fun h =>
  Nat.mul_le_mul_left _ (max_le_max le_rfl h.length_le)

/-- The first notes that cover the amount. -/
def firstNotes : Selector := fun offered required => coveringNotes required offered

/-- What covers was on offer. -/
theorem coveringNotes_sublist (required : ℕ) (notes : List ReceivedNote) :
    (coveringNotes required notes).Sublist notes := by
  induction notes generalizing required with
  | nil => exact List.Sublist.refl []
  | cons note rest ih =>
      rw [coveringNotes]
      split
      · exact (List.nil_sublist rest).cons_cons note
      · exact (ih _).cons_cons note

/-- Choosing the first notes that cover is complete. -/
theorem complete_firstNotes : firstNotes.Complete where
  subperm offered required := (coveringNotes_sublist required offered).subperm
  covers offered required h := by
    rw [firstNotes]
    induction offered generalizing required with
    | nil => exact h
    | cons note rest ih =>
        rw [worth, List.map_cons, List.sum_cons] at h
        rw [coveringNotes, worth, List.map_cons, List.sum_cons]
        by_cases hvalue : required ≤ note.value
        · omega
        · rw [if_neg hvalue]
          have hrest := ih (required - note.value) (by rw [worth]; omega)
          rw [worth] at hrest
          omega

/-- The wallet of the examples selects its first notes. -/
theorem selects_noteBackend (notes : List ReceivedNote) (expiry : UInt32) (request : TxRequest)
    (hsettles : SettlesFor firstNotes noteFee value offerAll (unlockedNotes notes db)) :
    Selects (noteBackend notes expiry) firstNotes noteFee request value notes db where
  complete := complete_firstNotes
  selected _ _ := rfl
  witnessed _ _ _ := rfl
  anchored _ := rfl
  locked _ _ _ := rfl
  fee taken chosen _ := by
    change Except.ok (5000 * max 2 (chosen.map ReceivedNote.outputRef).length) = _
    rw [List.length_map]
    rfl
  settles := hsettles

/-- Another note of exactly the minimum fee. -/
def feeNote' : ReceivedNote := ⟨.orchard, .replicate 2, 0, 10000⟩

/-- **A retry that succeeds**: the first round takes a note of the minimum fee, which leaves no
change, but the note that pays for the call is still there. -/
theorem selects_iff_not_strands_feeNotes :
    (noteBackend [feeNote, feeNote', callNote] 51).selectSpendableNotes scannedStore 10000 =
      .ok [feeNote] ∧
    ¬ PaysFee noteFee 0 [feeNote] ∧
    Returns (noteBackend [feeNote, feeNote', callNote] 51) anyOutside.hashing (.call []) 0 "plan"
      scannedStore := by
  have hcover : Coverable noteFee 0 [feeNote, feeNote', callNote] scannedStore :=
    ⟨rfl, rfl, by decide, monotone_noteFee, by decide +kernel, by decide, by decide⟩
  have hsettles : SettlesFor firstNotes noteFee 0 offerAll
      (unlockedNotes [feeNote, feeNote', callNote] scannedStore) :=
    .again (by decide) (by decide) (by decide) (.pays (by decide) (by decide) (by decide))
  refine ⟨rfl, by decide, ?_⟩
  refine (selects_iff_not_strands _ _ _ hcover).2.mpr ?_ _ _
    (selects_noteBackend _ 51 (.call []) hsettles)
  exact not_strands_of_note monotone_noteFee
    (show callNote ∈ unlockedNotes [feeNote, feeNote', callNote] scannedStore by decide) (by decide)
    (by decide)

/-- The second round does not see the note of the first one, and the selection fails although both
together pay for the call. -/
theorem not_selects_feeNotes :
    Coverable noteFee 0 [feeNote, feeNote'] scannedStore ∧
    Selects (noteBackend [feeNote, feeNote'] 51) firstNotes noteFee (.call []) 0
      [feeNote, feeNote'] scannedStore ∧
    ∃ e db', Yields (answers (noteBackend [feeNote, feeNote'] 51) anyOutside.hashing)
      (selectFor (.call []) 0 "plan").run scannedStore (.error e) db' := by
  have hcover : Coverable noteFee 0 [feeNote, feeNote'] scannedStore :=
    ⟨rfl, rfl, by decide, monotone_noteFee, by decide +kernel, by decide, by decide⟩
  have hsettles : SettlesFor firstNotes noteFee 0 offerAll
      (unlockedNotes [feeNote, feeNote'] scannedStore) :=
    .again (by decide) (by decide) (by decide) (.pays (by decide) (by decide) (by decide))
  have hselects := selects_noteBackend [feeNote, feeNote'] 51 (.call []) hsettles
  have hnot : ¬ SettlesFor firstNotes noteFee 0 offerRest
      (unlockedNotes [feeNote, feeNote'] scannedStore) := by
    intro h
    -- each of the first two rounds chooses a note, and the third one has nothing to choose
    have hsecond : offerRest [feeNote, feeNote'] [feeNote] = [feeNote'] := by decide +kernel
    have hthird : offerRest [feeNote'] [feeNote'] = [] := by decide +kernel
    cases h with
    | pays _ _ hpays => exact absurd hpays (by decide)
    | again _ _ _ hrest =>
        change Settles firstNotes noteFee 0 offerRest 15
          (offerRest [feeNote, feeNote'] [feeNote]) 10001 at hrest
        rw [hsecond] at hrest
        cases hrest with
        | pays _ _ hpays => exact absurd hpays (by decide)
        | again _ _ _ hrest =>
            change Settles firstNotes noteFee 0 offerRest 14 (offerRest [feeNote'] [feeNote']) 10001
              at hrest
            rw [hthird] at hrest
            cases hrest with
            | pays _ hchosen _ | again _ hchosen _ _ => exact hchosen rfl
  refine ⟨hcover, hselects, ?_⟩
  obtain ⟨r, db', hrun⟩ := exists_yields (exists_answer (noteBackend [feeNote, feeNote'] 51)
    anyOutside.hashing) (selectFor (.call []) 0 "plan").run scannedStore
  cases r with
  | error e => exact ⟨e, db', hrun⟩
  | ok selected =>
      have hspec := hselects.spec_selectFor_settles hcover anyOutside.hashing "plan"
      exact absurd ((hspec.of_yields hrun).mp ⟨selected, rfl⟩) hnot

end Complete

end Zalkanes
