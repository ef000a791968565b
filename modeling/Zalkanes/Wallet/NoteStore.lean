import Zalkanes.Wallet.Planning

/-!
# The Note Store

The shielded wallet as planning sees it: `select_spends` reads the notes that are not locked, checks
that they can be witnessed at the pinned tip, and locks them under the plan's owner as its last
step. The wallet database and the transaction builder are left open, as functions of what they are
given (`NoteBackend`).

## Main results

* `spec_selectRounds`: what the rounds of a selection lock, and what the last one returns.
* `NoteStore.outside_answers`: the note store answers as planning assumes.
* `recordedInputs_intercalate`: the inputs that are recorded of a selection are its notes.
-/

namespace Zalkanes

open Lib

/-- The shielded pools. -/
inductive ValuePool where
  | orchard
  | ironwood
  deriving DecidableEq

/-- The pool's tag, as it is committed in the intent hash. -/
def poolTag : ValuePool → ℕ
  | .orchard => 1
  | .ironwood => 2

/-- An unspent note of the account. -/
structure ReceivedNote where
  pool : ValuePool
  txid : Bytes32
  index : UInt32
  value : ℕ
  deriving DecidableEq

/-- `pool:txid_hex:index`. -/
def ReceivedNote.outputRef (note : ReceivedNote) : String :=
  toString (poolTag note.pool) ++ ":" ++ hexEncode note.txid.bytes ++ ":" ++
    toString note.index.toNat

/-- One note lock, and the height at which it expires. -/
structure NoteLock extends LockedOutput where
  expiry : BlockHeight
  deriving DecidableEq

/-- What `select_spends` reads and writes of the wallet. -/
structure NoteStore where
  /-- Whether the spend authorization material is there. -/
  unlocked : Bool
  /-- The canonical tip that was pinned, at height 0 where none was. -/
  zebraTip : CanonicalTip
  fullyScanned : Option CanonicalTip
  locks : List NoteLock

/-- The wallet database and the transaction builder. -/
structure NoteBackend where
  /-- `select_spendable_notes` for at least this value, without the notes that are locked. -/
  selectSpendableNotes : NoteStore → ℕ → Except String (List ReceivedNote)
  witness : NoteStore → BlockHeight → ReceivedNote → Except String Unit
  anchors : NoteStore → BlockHeight → Except String Unit
  lockOutputs : NoteStore → List ReceivedNote → Except String Unit
  getFee : TxRequest → ShieldedSelection → Except String ℕ
  buildShielded : TxRequest → ShieldedSelection → ℕ → Except String BuiltPlan
  newPlanId : String
  excludes : ∀ db required notes, selectSpendableNotes db required = .ok notes →
    ∀ note ∈ notes, ∀ l ∈ db.locks, l.outputRef ≠ note.outputRef

namespace NoteStore

/-- The tip that is reported for a wallet that has scanned nothing. -/
def noTip : CanonicalTip := ⟨0, .replicate 0⟩

/-- Spending is safe only when height and hash both match the canonical chain identity. -/
def synced (db : NoteStore) : Bool := db.fullyScanned.getD noTip = db.zebraTip

/-- The anchor of a selection is the treestate through `tip - 1`. -/
def anchorHeight (db : NoteStore) : BlockHeight := db.zebraTip.height - 1

/-- Locks last for 128 blocks. -/
def lockExpiry (db : NoteStore) : BlockHeight := db.zebraTip.height + 128

/-- The money supply, in zatoshis. -/
def maxMoney : ℕ := 21000000 * 100000000

/-- The notes that a selection is to lock. Locking them is the last step that can fail. -/
def chooseNotes (B : NoteBackend) (db : NoteStore) (required : ℕ) :
    Except String (List ReceivedNote) :=
  if db.unlocked = false then
    throw "wallet is locked: unlock before authorizing a shielded spend"
  else if db.zebraTip.height = 0 then throw "zebra tip unknown; run sync before planning"
  else if db.synced = false then
    throw ("shielded wallet not synced (zebra " ++ toString db.zebraTip.height ++ ":" ++
      hexEncode db.zebraTip.hash.bytes ++ ", wallet " ++
      toString (db.fullyScanned.getD noTip).height ++ ":" ++
      hexEncode (db.fullyScanned.getD noTip).hash.bytes ++
      "); refuse to plan from stale witness state")
  else if db.zebraTip.height < 2 then
    throw ("zebra tip " ++ toString db.zebraTip.height ++ " too low for shielded spending")
  else if maxMoney < required then throw "amount out of range"
  else do
    let notes ← B.selectSpendableNotes db required
    if notes = [] then
      throw ("no spendable shielded notes covering " ++ toString required ++ " zat")
    else do
      notes.forM (B.witness db db.anchorHeight)
      B.anchors db db.anchorHeight
      B.lockOutputs db notes
      return notes

/-- The locks of the notes under the plan's owner. -/
def locksFor (H : Hashing) (db : NoteStore) (planId : String) (notes : List ReceivedNote) :
    List NoteLock :=
  notes.map fun note => ⟨⟨note.outputRef, lockOwnerHex H planId⟩, db.lockExpiry⟩

/-- What is returned for the notes that were chosen. -/
def selectionOf (db : NoteStore) (notes : List ReceivedNote) : ShieldedSelection :=
  ⟨(notes.map ReceivedNote.value).sum, db.anchorHeight, notes.map ReceivedNote.outputRef⟩

/-- The store with more locks. -/
def lock (db : NoteStore) (taken : List NoteLock) : NoteStore :=
  { db with locks := db.locks ++ taken }

/-- Locks are added. -/
@[simp] theorem locks_lock (db : NoteStore) (taken : List NoteLock) :
    (db.lock taken).locks = db.locks ++ taken := rfl

/-- Locking keeps the tip. -/
@[simp] theorem zebraTip_lock (db : NoteStore) (taken : List NoteLock) :
    (db.lock taken).zebraTip = db.zebraTip := rfl

/-- Locking keeps the scanned height. -/
@[simp] theorem fullyScanned_lock (db : NoteStore) (taken : List NoteLock) :
    (db.lock taken).fullyScanned = db.fullyScanned := rfl

/-- Locking nothing changes nothing. -/
@[simp] theorem lock_nil (db : NoteStore) : db.lock [] = db := by rw [lock, List.append_nil]

/-- One list of locks after the other. -/
theorem lock_lock (db : NoteStore) (taken taken' : List NoteLock) :
    (db.lock taken).lock taken' = db.lock (taken ++ taken') := by
  rw [lock, lock, lock, List.append_assoc]

/-- Select notes and lock them under the plan's owner. -/
def selectSpends (B : NoteBackend) (H : Hashing) (db : NoteStore) (required : ℕ)
    (planId : String) : Except String ShieldedSelection × NoteStore :=
  match db.chooseNotes B required with
  | .error e => (.error e, db)
  | .ok notes =>
      (.ok (db.selectionOf notes), db.lock (db.locksFor H planId notes))

/-- The locks as recovery is shown them. -/
def lockedOutputs (db : NoteStore) : List LockedOutput := db.locks.map NoteLock.toLockedOutput

/-- The answers to what a shielded plan asks. -/
def answers (B : NoteBackend) (H : Hashing) : Answers WalletEffect.Answer NoteStore :=
  fun db e r db' =>
    match e, r with
    | .driver (.selectSpends required planId), r => db.selectSpends B H required planId = (r, db')
    | .driver (.getFee request selection), r => r = B.getFee request selection ∧ db' = db
    | .driver (.buildShielded request selection change), r =>
        r = B.buildShielded request selection change ∧ db' = db
    | .driver .newPlanId, r => r = B.newPlanId ∧ db' = db
    | _, _ => db' = db

/-! ### What a selection says -/

/-- The notes are what the wallet selects for the amount. -/
structure Chosen (B : NoteBackend) (db : NoteStore) (required : ℕ) (notes : List ReceivedNote) :
    Prop where
  unlocked : db.unlocked = true
  synced : db.synced = true
  tip : 2 ≤ db.zebraTip.height
  payable : required ≤ maxMoney
  selected : B.selectSpendableNotes db required = .ok notes
  nonempty : notes ≠ []
  witnessed : notes.forM (B.witness db db.anchorHeight) = .ok ()
  anchored : B.anchors db db.anchorHeight = .ok ()
  locked : B.lockOutputs db notes = .ok ()

variable {B : NoteBackend} {H : Hashing} {db db' : NoteStore} {required : ℕ} {planId : String}
  {notes : List ReceivedNote}

/-- Notes that were chosen are chosen ones. -/
theorem chosen_of_chooseNotes (h : db.chooseNotes B required = .ok notes) :
    Chosen B db required notes := by
  rw [chooseNotes] at h
  split_ifs at h with hunlocked hzero hsynced htip hmoney
  obtain ⟨selected, hselected, h⟩ := bind_eq_ok h
  split_ifs at h with hne
  obtain ⟨⟨⟩, hwitness, h⟩ := bind_eq_ok h
  obtain ⟨⟨⟩, hanchors, h⟩ := bind_eq_ok h
  obtain ⟨⟨⟩, hlock, h⟩ := bind_eq_ok h
  cases h
  exact ⟨by simpa using hunlocked, by simpa using hsynced, by simpa using htip,
    not_lt.mp hmoney, hselected, hne, hwitness, hanchors, hlock⟩

/-- They are chosen again. -/
theorem Chosen.chooseNotes (h : Chosen B db required notes) :
    db.chooseNotes B required = .ok notes := by
  have hzero : db.zebraTip.height ≠ 0 := fun heq => by
    have htip := h.tip
    rw [heq] at htip
    exact absurd htip (by decide)
  rw [NoteStore.chooseNotes, if_neg (by rw [h.unlocked]; decide), if_neg hzero,
    if_neg (by rw [h.synced]; decide), if_neg (UInt32.not_lt.mpr h.tip),
    if_neg (not_lt.mpr h.payable), h.selected]
  change (if notes = [] then _ else _) = _
  rw [if_neg h.nonempty, h.witnessed, h.anchored, h.locked]
  rfl

/-- A selection that fails locks nothing. -/
theorem selectSpends_eq_error {e : String}
    (h : db.selectSpends B H required planId = (.error e, db')) :
    db' = db ∧ db.chooseNotes B required = .error e := by
  rw [selectSpends] at h
  cases hchoose : db.chooseNotes B required with
  | error e' =>
      rw [hchoose] at h
      cases h
      exact ⟨rfl, rfl⟩
  | ok notes =>
      rw [hchoose] at h
      cases h

/-- A selection locks the notes that it returns, and leaves the other locks. -/
theorem selectSpends_eq_ok {selection : ShieldedSelection}
    (h : db.selectSpends B H required planId = (.ok selection, db')) :
    ∃ notes, Chosen B db required notes ∧ selection = db.selectionOf notes ∧
      db' = db.lock (db.locksFor H planId notes) := by
  rw [selectSpends] at h
  cases hchoose : db.chooseNotes B required with
  | error e' =>
      rw [hchoose] at h
      cases h
  | ok notes =>
      rw [hchoose] at h
      cases h
      exact ⟨notes, chosen_of_chooseNotes hchoose, rfl, rfl⟩

/-- They are locked for the plan and returned. -/
theorem Chosen.selectSpends (h : Chosen B db required notes) (H : Hashing) (planId : String) :
    db.selectSpends B H required planId = (.ok (db.selectionOf notes),
      db.lock (db.locksFor H planId notes)) := by
  rw [NoteStore.selectSpends, h.chooseNotes]

/-- **The note store answers as planning assumes** of its surroundings. -/
theorem outside_answers {O : Outside} {e : WalletEffect} {r : e.Answer} {j : Journal}
    (he : Plans e) (h : db.answers B O.hashing e r db') :
    O.Answers ⟨j, db.lockedOutputs⟩ e r ⟨j, db'.lockedOutputs⟩ := by
  have hsame : db' = db → (⟨j, db'.lockedOutputs⟩ : WalletState) = ⟨j, db.lockedOutputs⟩ :=
    fun h => by rw [h]
  cases e with
  | canonicalTip => exact hsame h
  | driver e =>
      cases e with
      | selectSpends required planId =>
          refine ⟨rfl, ?_⟩
          cases r with
          | error e => exact Or.inl ⟨e, rfl, by rw [(selectSpends_eq_error h).1]⟩
          | ok selection =>
              obtain ⟨notes, hchosen, rfl, rfl⟩ := selectSpends_eq_ok h
              refine Or.inr ⟨_, rfl, fun hnil => hchosen.nonempty (List.map_eq_nil_iff.mp hnil), ?_,
                ?_⟩
              · intro ref href l hl
                obtain ⟨note, hnote, rfl⟩ := List.mem_map.mp href
                obtain ⟨lock, hlock, rfl⟩ := List.mem_map.mp hl
                exact B.excludes db required notes hchosen.selected note hnote lock hlock
              · simp only [lockedOutputs, selectionOf, locksFor, locks_lock, List.map_append,
                  List.map_map]
                rfl
      | getFee _ _ | buildShielded _ _ _ | newPlanId => exact hsame h.2
      | createProofs _ | applySignatures _ | extractTransaction _ | verifyExtracted _ _ => cases he
      | _ => exact hsame h
  | _ => exact he.elim

/-- Every call is answered. -/
theorem exists_answer (B : NoteBackend) (H : Hashing) (db : NoteStore) (e : WalletEffect) :
    ∃ r db', answers B H db e r db' := by
  cases e with
  | createPlan _ | transition _ _ _ _ | nonTerminalRows | canonicalTip | txStatus _
  | lockedOutputs | release _ => exact ⟨.error "", db, rfl⟩
  | sendRawTransaction _ => exact ⟨.ambiguous "", db, rfl⟩
  | driver e =>
      cases e with
      | selectSpends required planId => exact ⟨_, _, rfl⟩
      | getFee _ _ | buildShielded _ _ _ | newPlanId => exact ⟨_, db, rfl, rfl⟩
      | walletExists | sessionIsArmed | signingKey => exact ⟨false, db, rfl⟩
      | readLine => exact ⟨"", db, rfl⟩
      | _ => exact ⟨.error "", db, rfl⟩

end NoteStore

/-- The first notes, as far as they are needed for the value. -/
def coveringNotes : ℕ → List ReceivedNote → List ReceivedNote
  | _, [] => []
  | required, note :: rest =>
      note :: if required ≤ note.value then [] else coveringNotes (required - note.value) rest

/-- What covers is on offer. -/
theorem mem_of_mem_coveringNotes {required : ℕ} {notes : List ReceivedNote} {note : ReceivedNote}
    (h : note ∈ coveringNotes required notes) : note ∈ notes := by
  induction notes generalizing required with
  | nil => exact h
  | cons first rest ih =>
      rw [coveringNotes, List.mem_cons] at h
      rcases h with rfl | h
      · exact List.mem_cons_self
      · split at h
        · cases h
        · exact List.mem_cons_of_mem _ (ih h)

/-- A wallet with these notes, which selects them in order until they cover the value, and a builder
with the ZIP-317 fee. -/
def noteBackend (notes : List ReceivedNote) (expiry : UInt32) : NoteBackend where
  selectSpendableNotes db required :=
    .ok (coveringNotes required (notes.filter fun note =>
      db.locks.all fun l => l.outputRef ≠ note.outputRef))
  witness _ _ _ := .ok ()
  anchors _ _ := .ok ()
  lockOutputs _ _ := .ok ()
  getFee _ selection := .ok (5000 * max 2 selection.outputRefs.length)
  buildShielded _ _ _ := .ok ⟨"", expiry, ""⟩
  newPlanId := "plan"
  excludes := by
    intro db required notes' h note hnote l hl
    cases h
    have hmem := mem_of_mem_coveringNotes hnote
    have hall := List.all_eq_true.mp (List.mem_filter.mp hmem).2 l hl
    exact of_decide_eq_true hall

/-! ### The recorded inputs -/

/-- Hex has no comma. -/
theorem comma_notMem_hexEncode (bs : Bytes) : ',' ∉ (hexEncode bs).toList := by
  rw [hexEncode, String.toList_ofList, List.mem_flatMap]
  rintro ⟨b, -, hb⟩
  have hdigit : ∀ n < 16, Nat.digitChar n ≠ ',' := by decide
  rw [List.mem_pair] at hb
  rcases hb with hb | hb
  · exact hdigit _ (Nat.div_lt_of_lt_mul b.toNat_lt) hb.symm
  · exact hdigit _ (Nat.mod_lt _ (by decide)) hb.symm

/-- A number has no comma. -/
theorem comma_notMem_repr (n : ℕ) : ',' ∉ (toString n).toList := by
  change ',' ∉ n.repr.toList
  rw [Nat.toList_repr]
  intro h
  exact absurd (Nat.isDigit_of_mem_toDigits (by decide) (by decide) h) (by decide)

/-- A reference to a note has no comma. -/
theorem ReceivedNote.comma_notMem (note : ReceivedNote) : ',' ∉ note.outputRef.toList := by
  rw [outputRef]
  simp only [String.toList_append, List.mem_append, not_or]
  exact ⟨⟨⟨⟨comma_notMem_repr _, by decide⟩, comma_notMem_hexEncode _⟩, by decide⟩,
    comma_notMem_repr _⟩

/-- A reference to a note is not empty. -/
theorem ReceivedNote.outputRef_ne (note : ReceivedNote) : note.outputRef ≠ "" := by
  intro h
  have hmem : ':' ∈ note.outputRef.toList := by
    rw [outputRef]
    simp [String.toList_append]
  rw [h] at hmem
  cases hmem

/-- **The inputs that are recorded of a selection** are its notes. -/
theorem recordedInputs_intercalate {operation : Operation} {notes : List ReceivedNote}
    (hne : notes ≠ [])
    (h : operation.selectedInputs = ",".intercalate (notes.map ReceivedNote.outputRef)) :
    operation.recordedInputs = notes.map ReceivedNote.outputRef := by
  rw [Operation.recordedInputs, h, String.toList_intercalate]
  have hsplit : ([','].intercalate ((notes.map ReceivedNote.outputRef).map String.toList)).splitOn
      ',' = (notes.map ReceivedNote.outputRef).map String.toList := by
    refine List.splitOn_intercalate ',' (fun cs hcs => ?_) ?_
    · obtain ⟨ref, href, rfl⟩ := List.mem_map.mp hcs
      obtain ⟨note, -, rfl⟩ := List.mem_map.mp href
      exact note.comma_notMem
    · simpa using hne
  change ((([','].intercalate _).splitOn ',').map String.ofList).filter _ = _
  rw [hsplit, List.map_map, List.filter_eq_self.mpr]
  · refine (List.map_congr_left fun ref _ => ?_).trans (List.map_id _)
    exact String.ofList_toList
  · intro ref href
    obtain ⟨ref', href', rfl⟩ := List.mem_map.mp href
    obtain ⟨note, -, rfl⟩ := List.mem_map.mp href'
    rw [Function.comp_apply, String.ofList_toList]
    exact decide_eq_true note.outputRef_ne

/-! ### Rounds of a selection -/

section Rounds

open Prog NoteStore

variable {B : NoteBackend} {H : Hashing} {db : NoteStore} {request : TxRequest} {value : ℕ}
  {planId : String}

/-- Every call of a plan is permitted. -/
def anyCall : WalletEffect → NoteStore → Prop := fun _ _ => True

/-- The selection pays for the value and its own fee, and leaves change. -/
def Covers (B : NoteBackend) (request : TxRequest) (value : ℕ) (selection : ShieldedSelection)
    (fee : ℕ) : Prop :=
  B.getFee request selection = .ok fee ∧
    ∃ total, checkedAdd value fee = some total ∧ total < selection.selectedValue

/-- What rounds of a selection leave: locks of the plan are added, and the selection that is
returned was locked last. -/
def Reserves (B : NoteBackend) (H : Hashing) (db : NoteStore) (request : TxRequest) (value : ℕ)
    (planId : String) (r : Except String (ShieldedSelection × ℕ)) (db' : NoteStore) : Prop :=
  ∃ taken, db' = db.lock taken ∧
    (∀ l ∈ taken, l.ownerHex = lockOwnerHex H planId ∧ l.expiry = db.lockExpiry) ∧
    ∀ selection fee, r = .ok (selection, fee) → Covers B request value selection fee ∧
      ∃ earlier notes, notes ≠ [] ∧ selection = db.selectionOf notes ∧
        taken = earlier ++ db.locksFor H planId notes

/-- An error reserves nothing. -/
theorem Reserves.error (e : String) : Reserves B H db request value planId (.error e) db :=
  ⟨[], (lock_nil db).symm, fun _ h => (by cases h), fun _ _ h => (by cases h)⟩

/-- A round that locked notes, and what is left of the rounds. -/
theorem Reserves.of_later {notes : List ReceivedNote} {r : Except String (ShieldedSelection × ℕ)}
    {db' : NoteStore}
    (h : Reserves B H (db.lock (db.locksFor H planId notes)) request value planId r db') :
    Reserves B H db request value planId r db' := by
  obtain ⟨taken, rfl, howner, hok⟩ := h
  refine ⟨db.locksFor H planId notes ++ taken, lock_lock _ _ _, fun l hl => ?_,
    fun selection fee hr => ?_⟩
  · rcases List.mem_append.mp hl with hl | hl
    · obtain ⟨note, -, rfl⟩ := List.mem_map.mp hl
      exact ⟨rfl, rfl⟩
    · exact howner l hl
  · obtain ⟨hcovers, earlier, notes', hne, hselection, rfl⟩ := hok selection fee hr
    exact ⟨hcovers, db.locksFor H planId notes ++ earlier, notes', hne, hselection,
      (List.append_assoc _ _ _).symm⟩

/-- The fee of the selection is not known, or cannot be added. -/
def Stops (B : NoteBackend) (request : TxRequest) (value : ℕ) (selection : ShieldedSelection) :
    Prop :=
  ∀ fee, B.getFee request selection = .ok fee → checkedAdd value fee = none

/-- A selection that the loop stops at covers no fee. -/
theorem Stops.not_covers {selection : ShieldedSelection} (h : Stops B request value selection)
    (fee : ℕ) : ¬ Covers B request value selection fee := by
  rintro ⟨hfee, total, htotal, -⟩
  rw [h fee hfee] at htotal
  cases htotal

/-- The selection does not pay for its own fee. -/
def Short (B : NoteBackend) (request : TxRequest) (value : ℕ) (selection : ShieldedSelection)
    (total : ℕ) : Prop :=
  (∃ fee, B.getFee request selection = .ok fee ∧ checkedAdd value fee = some total) ∧
    selection.selectedValue ≤ total

/-- A selection that is too small covers no fee. -/
theorem Short.not_covers {selection : ShieldedSelection} {total : ℕ}
    (h : Short B request value selection total) (fee : ℕ) :
    ¬ Covers B request value selection fee := by
  rintro ⟨hfee, total', htotal, hlt⟩
  obtain ⟨⟨fee', hfee', htotal'⟩, hle⟩ := h
  obtain rfl := Except.ok.inj (hfee.symm.trans hfee')
  obtain rfl := Option.some.inj (htotal.symm.trans htotal')
  omega

/-- **A round** fails and locks nothing, or locks notes: the last ones if they cover what is needed,
else another round needs more. -/
theorem spec_selectRound {Q : Except String (ShieldedSelection × ℕ) → NoteStore → Prop}
    {rounds required : ℕ}
    (hfails : ∀ e, (∀ notes, ¬ Chosen B db required notes) → Q (.error e) db)
    (hcovers : ∀ notes fee, Chosen B db required notes →
      Covers B request value (db.selectionOf notes) fee →
      Q (.ok (db.selectionOf notes, fee)) (db.lock (db.locksFor H planId notes)))
    (hstop : ∀ notes e, Chosen B db required notes → Stops B request value (db.selectionOf notes) →
      Q (.error e) (db.lock (db.locksFor H planId notes)))
    (hagain : ∀ notes total, Chosen B db required notes →
      Short B request value (db.selectionOf notes) total →
      Spec (answers B H) anyCall
        (selectRounds request value planId rounds ((total + 1) % 2 ^ 64)).run
        (db.lock (db.locksFor H planId notes)) Q) :
    Spec (answers B H) anyCall (selectRounds request value planId (rounds + 1) required).run db
      Q := by
  rw [selectRounds, spec_run_bind, spec_ask]
  refine ⟨trivial, fun r db' h => ?_⟩
  dsimp only
  rw [spec_run_bind, spec_ofResult]
  cases r with
  | error e =>
      obtain ⟨rfl, herror⟩ := selectSpends_eq_error h
      refine hfails e fun notes hchosen => ?_
      rw [hchosen.chooseNotes] at herror
      cases herror
  | ok selection =>
      obtain ⟨notes, hchosen, rfl, rfl⟩ := selectSpends_eq_ok h
      dsimp only
      rw [spec_run_bind, spec_ask]
      refine ⟨trivial, fun r db' h => ?_⟩
      obtain ⟨rfl, rfl⟩ := h
      dsimp only
      rw [spec_run_bind, spec_ofResult]
      cases hfee : B.getFee request (db.selectionOf notes) with
      | error e =>
          refine hstop notes e hchosen fun fee hfee' => ?_
          rw [hfee] at hfee'
          cases hfee'
      | ok fee =>
          dsimp only
          cases htotal : checkedAdd value fee with
          | none =>
              refine hstop notes _ hchosen fun fee' hfee' => ?_
              rw [hfee, Except.ok.injEq] at hfee'
              rw [← hfee', htotal]
          | some total =>
              dsimp only
              by_cases hvalue : (db.selectionOf notes).selectedValue > total
              · rw [if_pos hvalue]
                exact hcovers notes fee hchosen ⟨hfee, total, htotal, hvalue⟩
              · rw [if_neg hvalue]
                exact hagain notes total hchosen ⟨⟨fee, hfee, htotal⟩, not_lt.mp hvalue⟩

/-- **Rounds of a selection** only add locks of the plan. -/
theorem spec_selectRounds (rounds required : ℕ) :
    Spec (answers B H) anyCall (selectRounds request value planId rounds required).run db
      (Reserves B H db request value planId) := by
  induction rounds generalizing db required with
  | zero => exact .error _
  | succ rounds ih =>
      refine spec_selectRound (fun e _ => .error e) (fun notes fee hchosen hcovers => ?_)
        (fun _ e _ _ => .of_later (.error e)) fun _ _ _ _ => (ih _).mono fun _ _ => .of_later
      refine ⟨db.locksFor H planId notes, rfl, fun l hl => ?_, fun selection fee' hr => ?_⟩
      · obtain ⟨note, -, rfl⟩ := List.mem_map.mp hl
        exact ⟨rfl, rfl⟩
      · cases hr
        exact ⟨hcovers, [], notes, hchosen.nonempty, rfl, rfl⟩

end Rounds

end Zalkanes
