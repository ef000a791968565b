import Zalkanes.Wallet.NoteStore

/-!
# Shielded Plans

What a run of shielded planning leaves in the note store (`PlanOutcome`). A plan is pinned to the
tip that the caller was told, its notes come from the tip that the wallet was told, and nothing
compares the two. Every round of its selection locks notes, and only those of the last one are
inputs of the plan.

## Main results

* `shielded_pinned_iff`: exactly when a plan is pinned to the tip that its notes come from.
* `shielded_exact_iff`: exactly when planning locks what the plan spends and nothing else.
-/

namespace Zalkanes

open Lib

/-- The value that notes are selected for, where planning comes so far. -/
def selectionValue (ctx : FundContext) (request : TxRequest) (carrierKey : Bool) : Option ℕ :=
  if ctx.targetHeight ≠ ctx.chainTip.height + 1 then none
  else
    match request with
    | .call _ => some 0
    | .prepare carrierValues =>
        if carrierKey = false ∨ carrierValues = [] then none
        else some (carrierValues.sum % 2 ^ 64)
    | .deploy _ _ _ _ => none

/-- The plan of a transaction that was built of a selection. -/
def planOf (ctx : FundContext) (request : TxRequest) (planId : String)
    (selection : ShieldedSelection) (built : BuiltPlan) : FundingPlan :=
  ⟨.shielded, .planned, planId, built.intentHash, request.kind, ctx.chainTip, ctx.targetHeight,
    built.expiryHeight, ",".intercalate selection.outputRefs, selection.anchorHeight⟩

/-- The first round of the selection locks these notes. -/
structure FirstRound (B : NoteBackend) (ctx : FundContext) (request : TxRequest)
    (carrierKey : Bool) (db : NoteStore) (value : ℕ) (notes : List ReceivedNote) : Prop where
  selects : selectionValue ctx request carrierKey = some value
  chosen : ∃ required, checkedAdd value minimumFee = some required ∧
    NoteStore.Chosen B db required notes

/-- The transaction that spends the notes is built, with their change. -/
def Builds (B : NoteBackend) (request : TxRequest) (value : ℕ) (selection : ShieldedSelection)
    (fee : ℕ) (built : BuiltPlan) : Prop :=
  B.buildShielded request selection (selection.selectedValue - value - fee) = .ok built

/-- What shielded planning may come to, and the store it leaves. -/
inductive PlanOutcome (B : NoteBackend) (H : Hashing) (ctx : FundContext) (request : TxRequest)
    (carrierKey : Bool) (db : NoteStore) : Except String FundingPlan → NoteStore → Prop
  | unselected (e : String)
      (hnone : ∀ value notes, ¬ FirstRound B ctx request carrierKey db value notes) :
      PlanOutcome B H ctx request carrierKey db (.error e) db
  | failed {value : ℕ} {notes : List ReceivedNote} (e : String) (taken : List NoteLock)
      (hfirst : FirstRound B ctx request carrierKey db value notes)
      (hnot : ∀ fee built, Covers B request value (db.selectionOf notes) fee →
        ¬ Builds B request value (db.selectionOf notes) fee built) :
      PlanOutcome B H ctx request carrierKey db (.error e)
        (db.lock (db.locksFor H B.newPlanId notes ++ taken))
  | planned {value fee : ℕ} {notes : List ReceivedNote} {built : BuiltPlan}
      (hfirst : FirstRound B ctx request carrierKey db value notes)
      (hcovers : Covers B request value (db.selectionOf notes) fee)
      (hbuilt : Builds B request value (db.selectionOf notes) fee built) :
      PlanOutcome B H ctx request carrierKey db
        (.ok (planOf ctx request B.newPlanId (db.selectionOf notes) built))
        (db.lock (db.locksFor H B.newPlanId notes))
  | retried {value : ℕ} {notes notes' : List ReceivedNote} {built : BuiltPlan}
      (earlier : List NoteLock) (hfirst : FirstRound B ctx request carrierKey db value notes)
      (hnot : ∀ fee, ¬ Covers B request value (db.selectionOf notes) fee) (hne : notes' ≠ [])
      (howner : ∀ l ∈ earlier, l.ownerHex = lockOwnerHex H B.newPlanId ∧ l.expiry = db.lockExpiry) :
      PlanOutcome B H ctx request carrierKey db
        (.ok (planOf ctx request B.newPlanId (db.selectionOf notes') built))
        (db.lock (db.locksFor H B.newPlanId notes ++
          (earlier ++ db.locksFor H B.newPlanId notes')))

section Outcome

open Prog NoteStore

variable {B : NoteBackend} {H : Hashing} {db db' : NoteStore} {ctx : FundContext}
  {request : TxRequest} {carrierKey : Bool} {value : ℕ}

/-- **A selection.** -/
theorem spec_selectFor {planId : String}
    {Q : Except String (ShieldedSelection × ℕ) → NoteStore → Prop}
    (hfails : ∀ e, (∀ required notes, checkedAdd value minimumFee = some required →
      ¬ Chosen B db required notes) → Q (.error e) db)
    (hcovers : ∀ required notes fee, checkedAdd value minimumFee = some required →
      Chosen B db required notes → Covers B request value (db.selectionOf notes) fee →
      Q (.ok (db.selectionOf notes, fee)) (db.lock (db.locksFor H planId notes)))
    (hlater : ∀ required notes r db', checkedAdd value minimumFee = some required →
      Chosen B db required notes → (∀ fee, ¬ Covers B request value (db.selectionOf notes) fee) →
      Reserves B H (db.lock (db.locksFor H planId notes)) request value planId r db' → Q r db') :
    Spec (answers B H) anyCall (selectFor request value planId).run db Q := by
  unfold selectFor
  generalize hrequired : checkedAdd value minimumFee = r at hfails hcovers hlater ⊢
  cases r with
  | none => exact hfails _ fun _ _ h => by cases h
  | some required =>
      change Spec _ _ (selectRounds request value planId (15 + 1) required).run db Q
      refine spec_selectRound (fun e h => hfails e fun _ notes heq => ?_)
        (fun notes fee => hcovers required notes fee rfl)
        (fun notes e hchosen hstops =>
          hlater required notes _ _ rfl hchosen hstops.not_covers (.error e))
        fun notes total hchosen hshort => (spec_selectRounds 15 _).mono fun r db' =>
          hlater required notes r db' rfl hchosen hshort.not_covers
      rw [← Option.some.inj heq]
      exact h notes

-- the bound of the first round is not to be computed
attribute [local irreducible] selectFor

/-- Planning builds the transaction, or fails. -/
theorem spec_shieldedPlan {planId : String} {selection : ShieldedSelection} {change : ℕ}
    {Q : Except String FundingPlan → NoteStore → Prop}
    (hfails : ∀ e, B.buildShielded request selection change = .error e → Q (.error e) db)
    (hbuilt : ∀ built, B.buildShielded request selection change = .ok built →
      Q (.ok (planOf ctx request planId selection built)) db) :
    Spec (answers B H) anyCall (shieldedPlan request ctx planId selection change).run db Q := by
  rw [shieldedPlan, spec_run_bind, spec_ask]
  refine ⟨trivial, fun r db' h => ?_⟩
  obtain ⟨rfl, rfl⟩ := h
  dsimp only
  rw [spec_run_bind, spec_ofResult]
  cases hr : B.buildShielded request selection change with
  | error e => exact hfails e hr
  | ok built => exact hbuilt built hr

/-- The selection, and the transaction that is built of it. -/
theorem spec_selectAndBuild (hvalue : selectionValue ctx request carrierKey = some value)
    {f : ShieldedSelection × ℕ → WalletM FundingPlan}
    (hf : ∀ selection fee, Covers B request value selection fee → f (selection, fee) =
      shieldedPlan request ctx B.newPlanId selection (selection.selectedValue - value - fee)) :
    Spec (answers B H) anyCall (selectFor request value B.newPlanId >>= f).run db
      (PlanOutcome B H ctx request carrierKey db) := by
  rw [spec_run_bind]
  refine spec_selectFor (fun e hnone => ?_) (fun required notes fee hrequired hchosen hcovers => ?_)
    fun required notes r db' hrequired hchosen hnot hreserves => ?_
  · refine .unselected e fun value' notes hfirst => ?_
    obtain ⟨required, hrequired, hchosen⟩ := hfirst.chosen
    obtain rfl := Option.some.inj (hvalue.symm.trans hfirst.selects)
    exact hnone required notes hrequired hchosen
  · dsimp only
    rw [hf _ _ hcovers]
    have hfirst : FirstRound B ctx request carrierKey db value notes :=
      ⟨hvalue, required, hrequired, hchosen⟩
    refine spec_shieldedPlan (fun e he => ?_) fun built hbuilt => .planned hfirst hcovers hbuilt
    have hfailed := PlanOutcome.failed (H := H) e [] hfirst fun fee' built hcovers' hbuilt => by
      rw [Builds, Except.ok.inj (hcovers'.1.symm.trans hcovers.1), he] at hbuilt
      cases hbuilt
    rwa [List.append_nil] at hfailed
  · have hfirst : FirstRound B ctx request carrierKey db value notes :=
      ⟨hvalue, required, hrequired, hchosen⟩
    obtain ⟨taken, rfl, howner, hok⟩ := hreserves
    rw [lock_lock]
    have hfailed : ∀ e, PlanOutcome B H ctx request carrierKey db (.error e)
        (db.lock (db.locksFor H B.newPlanId notes ++ taken)) := fun e =>
      .failed e taken hfirst fun fee _ hcovers => absurd hcovers (hnot fee)
    cases r with
    | error e => exact hfailed e
    | ok selected =>
        obtain ⟨selection, fee⟩ := selected
        obtain ⟨hcovers, earlier, notes', hne, rfl, rfl⟩ := hok selection fee rfl
        dsimp only
        rw [hf _ _ hcovers]
        exact spec_shieldedPlan (fun e _ => hfailed e) fun built _ =>
          .retried earlier hfirst hnot hne fun l hl => howner l (List.mem_append_left _ hl)

/-- **What shielded planning comes to.** -/
theorem spec_plan (B : NoteBackend) (H : Hashing) (ctx : FundContext) (request : TxRequest)
    (carrierKey : Bool) (db : NoteStore) :
    Spec (answers B H) anyCall ((FundingSource.shielded carrierKey).plan request ctx).run db
      (PlanOutcome B H ctx request carrierKey db) := by
  have hrefused : selectionValue ctx request carrierKey = none → ∀ e,
      PlanOutcome B H ctx request carrierKey db (.error e) db := fun hnone e =>
    .unselected e fun value notes hfirst => by
      rw [hfirst.selects] at hnone
      cases hnone
  rw [FundingSource.plan.eq_def]
  dsimp only
  rw [spec_run_bind, FundContext.validate]
  by_cases htarget : ctx.targetHeight ≠ ctx.chainTip.height + 1
  · rw [if_pos htarget]
    exact hrefused (if_pos htarget) _
  · rw [if_neg htarget]
    change Spec _ _ (ExceptT.run (match request with
      | .call _ => _ | .prepare _ => _ | .deploy _ _ _ _ => _)) _ _
    cases request with
    | call opReturn =>
        dsimp only
        rw [planCall, spec_run_bind, spec_ask]
        refine ⟨trivial, fun planId db' h => ?_⟩
        obtain ⟨rfl, rfl⟩ := h
        have hvalue : selectionValue ctx (.call opReturn) carrierKey = some 0 := if_neg htarget
        exact spec_selectAndBuild hvalue fun selection fee _ => rfl
    | prepare carrierValues =>
        dsimp only
        by_cases hkey : carrierKey = false
        · rw [if_pos hkey]
          refine hrefused ?_ _
          rw [selectionValue, if_neg htarget]
          exact if_pos (Or.inl hkey)
        · rw [if_neg hkey, planPrepare]
          by_cases hempty : carrierValues = []
          · rw [if_pos hempty]
            refine hrefused ?_ _
            rw [selectionValue, if_neg htarget]
            exact if_pos (Or.inr hempty)
          · rw [if_neg hempty]
            dsimp only
            rw [spec_run_bind, spec_ask]
            refine ⟨trivial, fun planId db' h => ?_⟩
            obtain ⟨rfl, rfl⟩ := h
            have hvalue : selectionValue ctx (.prepare carrierValues) carrierKey =
                some (carrierValues.sum % 2 ^ 64) := by
              rw [selectionValue, if_neg htarget]
              exact if_neg (not_or.mpr ⟨hkey, hempty⟩)
            refine spec_selectAndBuild hvalue fun selection fee hcovers => ?_
            obtain ⟨-, total, htotal, hlt⟩ := hcovers
            have hsum := checkedAdd_eq_some.mp htotal
            dsimp only
            exact if_neg (by omega)
    | deploy _ _ _ _ =>
        refine hrefused ?_ _
        rw [selectionValue, if_neg htarget]

/-- The selection is what the wallet database answers. -/
theorem FirstRound.unique {value' : ℕ} {notes notes' : List ReceivedNote}
    (h : FirstRound B ctx request carrierKey db value notes)
    (h' : FirstRound B ctx request carrierKey db value' notes') :
    value' = value ∧ notes' = notes := by
  obtain ⟨required, hrequired, hchosen⟩ := h.chosen
  obtain ⟨required', hrequired', hchosen'⟩ := h'.chosen
  obtain rfl := Option.some.inj (h.selects.symm.trans h'.selects)
  obtain rfl := Option.some.inj (hrequired.symm.trans hrequired')
  exact ⟨rfl, Except.ok.inj (hchosen'.selected.symm.trans hchosen.selected)⟩

/-- Where the first round covers what is needed, it is the only one. -/
theorem FirstRound.yields {notes : List ReceivedNote} {fee : ℕ} {built : BuiltPlan}
    (hfirst : FirstRound B ctx request carrierKey db value notes)
    (hcovers : Covers B request value (db.selectionOf notes) fee)
    (hbuilt : Builds B request value (db.selectionOf notes) fee built) (H : Hashing) :
    Yields (answers B H) ((FundingSource.shielded carrierKey).plan request ctx).run db
      (.ok (planOf ctx request B.newPlanId (db.selectionOf notes) built))
      (db.lock (db.locksFor H B.newPlanId notes)) := by
  obtain ⟨r, db', hrun⟩ := exists_yields (exists_answer B H)
    ((FundingSource.shielded carrierKey).plan request ctx).run db
  cases (spec_plan B H ctx request carrierKey db).of_yields hrun with
  | unselected e hnone => exact absurd hfirst (hnone _ _)
  | failed e taken hfirst' hnot =>
      obtain ⟨rfl, rfl⟩ := hfirst.unique hfirst'
      exact absurd hbuilt (hnot fee built hcovers)
  | planned hfirst' hcovers' hbuilt' =>
      obtain ⟨rfl, rfl⟩ := hfirst.unique hfirst'
      obtain rfl := Except.ok.inj (hcovers'.1.symm.trans hcovers.1)
      obtain rfl := Except.ok.inj (hbuilt'.symm.trans hbuilt)
      exact hrun
  | retried earlier hfirst' hnot hne howner =>
      obtain ⟨rfl, rfl⟩ := hfirst.unique hfirst'
      exact absurd hcovers (hnot fee)

/-! ### The tip of a plan -/

/-- The wallet was scanned to the tip of the plan's context when the notes were selected, the anchor
is the block before it, and the locks outlive the transaction. -/
structure Pinned (ctx : FundContext) (plan : FundingPlan) (db db' : NoteStore) : Prop where
  scanned : db.fullyScanned = some ctx.chainTip
  anchor : plan.anchorHeight = some (ctx.chainTip.height - 1)
  expiry : ∀ l ∈ db'.locks, l ∉ db.locks →
    plan.expiryHeight.toNat + expiryAbsentMargin.toNat < l.expiry.toNat

/-- Notes that are selected were scanned to the tip that the wallet was told. -/
theorem FirstRound.fullyScanned {notes : List ReceivedNote}
    (h : FirstRound B ctx request carrierKey db value notes) :
    db.fullyScanned = some db.zebraTip := by
  obtain ⟨required, -, hchosen⟩ := h.chosen
  have hsynced : db.fullyScanned.getD noTip = db.zebraTip := of_decide_eq_true hchosen.synced
  cases hscanned : db.fullyScanned with
  | none =>
      rw [hscanned] at hsynced
      have htip := hchosen.tip
      rw [← hsynced] at htip
      exact absurd htip (by decide)
  | some tip =>
      rw [hscanned] at hsynced
      exact congrArg some hsynced

/-- The target is the block after the tip. -/
theorem FirstRound.targetHeight {notes : List ReceivedNote}
    (h : FirstRound B ctx request carrierKey db value notes) :
    ctx.targetHeight = ctx.chainTip.height + 1 := by
  by_contra hne
  have hnone : selectionValue ctx request carrierKey = none := if_pos hne
  rw [h.selects] at hnone
  cases hnone

/-- The first note that is locked was not. -/
theorem FirstRound.exists_new {notes : List ReceivedNote}
    (h : FirstRound B ctx request carrierKey db value notes) (planId : String) :
    ∃ l ∈ db.locksFor H planId notes, l ∉ db.locks := by
  obtain ⟨required, -, hchosen⟩ := h.chosen
  obtain ⟨note, hnote⟩ := List.exists_mem_of_ne_nil notes hchosen.nonempty
  exact ⟨_, List.mem_map_of_mem hnote, fun hl =>
    B.excludes db required notes hchosen.selected note hnote _ hl rfl⟩

/-- What a plan has in common with every other of the same store. -/
theorem PlanOutcome.of_ok {plan : FundingPlan}
    (h : PlanOutcome B H ctx request carrierKey db (.ok plan) db') :
    plan.anchorHeight = some db.anchorHeight ∧
    ∃ value notes taken, FirstRound B ctx request carrierKey db value notes ∧
      db' = db.lock taken ∧ (∀ l ∈ taken, l.expiry = db.lockExpiry) ∧
      ∃ l ∈ taken, l ∉ db.locks := by
  have hexpiry : ∀ notes, ∀ l ∈ db.locksFor H B.newPlanId notes, l.expiry = db.lockExpiry := by
    intro notes l hl
    obtain ⟨note, -, rfl⟩ := List.mem_map.mp hl
    rfl
  cases h with
  | planned hfirst _ _ =>
      exact ⟨rfl, _, _, _, hfirst, rfl, hexpiry _, hfirst.exists_new _⟩
  | retried earlier hfirst _ _ howner =>
      obtain ⟨l, hl, hnew⟩ := hfirst.exists_new (H := H) B.newPlanId
      refine ⟨rfl, _, _, _, hfirst, rfl, fun l hl => ?_, l, List.mem_append_left _ hl, hnew⟩
      simp only [List.mem_append] at hl
      rcases hl with hl | hl | hl
      · exact hexpiry _ l hl
      · exact (howner l hl).2
      · exact hexpiry _ l hl

/-- **A plan is pinned to the tip that its notes come from** exactly when the tip that the wallet
was told is the one that the caller was told, and the expiry of the locks does not overflow. -/
theorem shielded_pinned_iff (B : NoteBackend) (H : Hashing) (ctx : FundContext)
    (request : TxRequest) (carrierKey : Bool) {db db' : NoteStore} {plan : FundingPlan}
    (hrun : Yields (answers B H) ((FundingSource.shielded carrierKey).plan request ctx).run db
      (.ok plan) db')
    (hexpiry : plan.expiryHeight.toNat = ctx.targetHeight.toNat + 40) :
    Pinned ctx plan db db' ↔
      db.zebraTip = ctx.chainTip ∧ ctx.targetHeight.toNat + 127 < 2 ^ 32 := by
  obtain ⟨hanchor, value, notes, taken, hfirst, rfl, hlocks, l, hl, hnew⟩ :=
    ((spec_plan B H ctx request carrierKey db).of_yields hrun).of_ok
  have hscanned := hfirst.fullyScanned
  have htarget := hfirst.targetHeight
  -- the locks expire 127 blocks after the target height of the pinned tip
  have hlate : db.zebraTip = ctx.chainTip →
      db.lockExpiry.toNat = (ctx.targetHeight.toNat + 127) % 2 ^ 32 := fun htip => by
    rw [lockExpiry, htip, htarget]
    simp only [UInt32.toNat_add]
    have h1 : (1 : UInt32).toNat = 1 := rfl
    have h128 : (128 : UInt32).toNat = 128 := rfl
    omega
  have hmargin : expiryAbsentMargin.toNat = 6 := rfl
  constructor
  · intro h
    have htip : db.zebraTip = ctx.chainTip := by
      have := h.scanned
      rwa [hscanned, Option.some.injEq] at this
    refine ⟨htip, ?_⟩
    have hlt := h.expiry l (List.mem_append_right _ hl) hnew
    rw [hlocks l hl, hlate htip, hexpiry] at hlt
    omega
  · rintro ⟨htip, hfits⟩
    refine ⟨by rw [hscanned, htip], by rw [hanchor, anchorHeight, htip], fun l' hl' hnew' => ?_⟩
    rw [hlocks l' ((List.mem_append.mp hl').resolve_left hnew'), hlate htip, hexpiry,
      Nat.mod_eq_of_lt hfits]
    omega

/-- A note that pays for a call. -/
def callNote : ReceivedNote := ⟨.orchard, .replicate 0, 0, 50000⟩

/-- A wallet that was scanned to height 10, and told so. -/
def scannedStore : NoteStore := ⟨true, ⟨10, .replicate 0⟩, some ⟨10, .replicate 0⟩, []⟩

/-- One note pays for a call in the first round. -/
theorem firstRound_callNote (ctx : FundContext) (expiry : UInt32)
    (htarget : ctx.targetHeight = ctx.chainTip.height + 1) :
    FirstRound (noteBackend [callNote] expiry) ctx (.call []) true scannedStore 0 [callNote] :=
  ⟨if_neg (not_not.mpr htarget), 10000, rfl,
    ⟨rfl, rfl, by decide, by decide, rfl, List.cons_ne_nil _ _, rfl, rfl, rfl⟩⟩

/-- The plan of a call that the note pays for. -/
theorem exists_callPlan (ctx : FundContext) (expiry : UInt32)
    (htarget : ctx.targetHeight = ctx.chainTip.height + 1) (H : Hashing) :
    ∃ plan db', Yields (answers (noteBackend [callNote] expiry) H)
      ((FundingSource.shielded true).plan (.call []) ctx).run scannedStore (.ok plan) db' ∧
      plan.expiryHeight = expiry := by
  have hcovers : Covers (noteBackend [callNote] expiry) (.call []) 0
      (scannedStore.selectionOf [callNote]) 10000 := ⟨rfl, 10000, rfl, by decide⟩
  have hbuilt : Builds (noteBackend [callNote] expiry) (.call []) 0
      (scannedStore.selectionOf [callNote]) 10000 ⟨"", expiry, ""⟩ := rfl
  exact ⟨_, _, (firstRound_callNote ctx expiry htarget).yields hcovers hbuilt H, rfl⟩

/-- A plan at the tip that the wallet was scanned to. -/
theorem shielded_pinned_iff_same : ∃ plan db',
    Yields (answers (noteBackend [callNote] 51) anyOutside.hashing)
      ((FundingSource.shielded true).plan (.call []) ⟨.mainnet, ⟨10, .replicate 0⟩, 11⟩).run
      scannedStore (.ok plan) db' ∧
    Pinned ⟨.mainnet, ⟨10, .replicate 0⟩, 11⟩ plan scannedStore db' := by
  obtain ⟨plan, db', hrun, hexpiry⟩ :=
    exists_callPlan ⟨.mainnet, ⟨10, .replicate 0⟩, 11⟩ 51 rfl anyOutside.hashing
  exact ⟨plan, db', hrun, (shielded_pinned_iff _ _ _ _ _ hrun (by rw [hexpiry]; rfl)).mpr
    ⟨rfl, by decide⟩⟩

/-- The chain advances after the wallet pinned its tip: the plan commits to the new tip, and spends
from the old one. -/
theorem not_shielded_pinned_advanced : ∃ plan db',
    Yields (answers (noteBackend [callNote] 52) anyOutside.hashing)
      ((FundingSource.shielded true).plan (.call []) ⟨.mainnet, ⟨11, .replicate 1⟩, 12⟩).run
      scannedStore (.ok plan) db' ∧
    plan.expiryHeight.toNat = 12 + 40 ∧
    ¬ Pinned ⟨.mainnet, ⟨11, .replicate 1⟩, 12⟩ plan scannedStore db' := by
  obtain ⟨plan, db', hrun, hexpiry⟩ :=
    exists_callPlan ⟨.mainnet, ⟨11, .replicate 1⟩, 12⟩ 52 rfl anyOutside.hashing
  refine ⟨plan, db', hrun, by rw [hexpiry]; rfl, fun h => ?_⟩
  have hscanned := h.scanned
  exact absurd hscanned (by decide)

/-! ### The locks of a plan -/

/-- The locks under the plan's owner are those of the recorded inputs, and every other lock is as it
was; an error leaves every lock as it was. -/
def ReservesExactly (H : Hashing) (db db' : NoteStore) : Except String FundingPlan → Prop
  | .ok plan =>
      (∀ operation : Operation, operation.selectedInputs = plan.journalInputs →
        inputsMatch operation (locksOf db'.lockedOutputs (lockOwnerHex H plan.planId)) = true) ∧
      ∀ l : NoteLock, l.ownerHex ≠ lockOwnerHex H plan.planId → (l ∈ db'.locks ↔ l ∈ db.locks)
  | .error _ => ∀ l, l ∈ db'.locks ↔ l ∈ db.locks

/-- If the first round locks notes, they cover the value and their own fee, the transaction is
built of them, and no lock was under the plan's owner before. -/
def SelectsOnce (B : NoteBackend) (H : Hashing) (ctx : FundContext) (request : TxRequest)
    (carrierKey : Bool) (db : NoteStore) : Prop :=
  ∀ value notes, FirstRound B ctx request carrierKey db value notes →
    locksOf db.lockedOutputs (lockOwnerHex H B.newPlanId) = [] ∧
    ∃ fee built, Covers B request value (db.selectionOf notes) fee ∧
      Builds B request value (db.selectionOf notes) fee built

/-- The locks of an owner, among two lists. -/
theorem locksOf_append (locks locks' : List LockedOutput) (owner : String) :
    locksOf (locks ++ locks') owner = locksOf locks owner ++ locksOf locks' owner :=
  List.filter_append _ _

/-- The locks that a plan takes are its own. -/
theorem locksOf_lock {taken : List NoteLock} {owner : String}
    (h : ∀ l ∈ taken, l.ownerHex = owner) :
    locksOf (db.lock taken).lockedOutputs owner =
      locksOf db.lockedOutputs owner ++ taken.map NoteLock.toLockedOutput := by
  rw [lockedOutputs, locks_lock, List.map_append, locksOf_append]
  refine congrArg _ (List.filter_eq_self.mpr fun l hl => ?_)
  obtain ⟨lock, hlock, rfl⟩ := List.mem_map.mp hl
  exact decide_eq_true (h lock hlock)

/-- Locks that are taken for a plan have its owner. -/
theorem ownerHex_of_mem_locksFor {notes : List ReceivedNote} {planId : String} {l : NoteLock}
    (h : l ∈ db.locksFor H planId notes) : l.ownerHex = lockOwnerHex H planId := by
  obtain ⟨note, -, rfl⟩ := List.mem_map.mp h
  rfl

/-- They are on the notes that were chosen. -/
theorem outputRef_locksFor (notes : List ReceivedNote) (planId : String) :
    ((db.locksFor H planId notes).map NoteLock.toLockedOutput).map LockedOutput.outputRef =
      notes.map ReceivedNote.outputRef := by
  rw [locksFor, List.map_map, List.map_map]
  rfl

/-- The locks under the owner match the inputs that are recorded of the notes exactly when there is
none of another note. -/
theorem inputsMatch_append_iff {notes : List ReceivedNote} {planId : String} (hne : notes ≠ [])
    (others : List LockedOutput) :
    (∀ operation : Operation,
      operation.selectedInputs = ",".intercalate (notes.map ReceivedNote.outputRef) →
      inputsMatch operation (others ++ (db.locksFor H planId notes).map NoteLock.toLockedOutput) =
        true) ↔ others = [] := by
  constructor
  · intro h
    let operation : Operation :=
      ⟨"", "", "", "", "", 0, "", 0, ",".intercalate (notes.map ReceivedNote.outputRef), none⟩
    have hmatch := of_decide_eq_true (h operation rfl)
    rw [recordedInputs_intercalate hne rfl, List.map_append, outputRef_locksFor] at hmatch
    have hlength := congrArg List.length hmatch
    rw [List.length_mergeSort, List.length_mergeSort, List.length_append, List.length_map,
      List.length_map] at hlength
    exact List.length_eq_zero_iff.mp (by omega)
  · rintro rfl operation hinputs
    rw [inputsMatch, recordedInputs_intercalate hne hinputs, List.nil_append, outputRef_locksFor]
    exact decide_eq_true rfl

/-- Other locks are left alone. -/
theorem mem_locks_lock_iff {taken : List NoteLock} {owner : String}
    (h : ∀ l ∈ taken, l.ownerHex = owner) {l : NoteLock} (hl : l.ownerHex ≠ owner) :
    l ∈ (db.lock taken).locks ↔ l ∈ db.locks := by
  rw [locks_lock, List.mem_append, or_iff_left]
  exact fun hmem => hl (h l hmem)

/-- **What planning locks**, whatever it comes to. -/
theorem PlanOutcome.reservesExactly_iff {r : Except String FundingPlan}
    (h : PlanOutcome B H ctx request carrierKey db r db') :
    ReservesExactly H db db' r ↔ SelectsOnce B H ctx request carrierKey db := by
  cases h with
  | unselected e hnone =>
      exact iff_of_true (fun l => Iff.rfl) fun value notes hfirst =>
        absurd hfirst (hnone value notes)
  | failed e taken hfirst hnot =>
      refine iff_of_false (fun hexact => ?_) fun honce => ?_
      · obtain ⟨l, hl, hnew⟩ := hfirst.exists_new (H := H) B.newPlanId
        exact hnew ((hexact l).mp (List.mem_append_right _ (List.mem_append_left _ hl)))
      · obtain ⟨-, fee, built, hcovers, hbuilt⟩ := honce _ _ hfirst
        exact hnot fee built hcovers hbuilt
  | @planned value fee notes built hfirst hcovers hbuilt =>
      have howner := fun l (hl : l ∈ db.locksFor H B.newPlanId notes) => ownerHex_of_mem_locksFor hl
      have hne : notes ≠ [] := hfirst.chosen.choose_spec.2.nonempty
      have hmatch := @inputsMatch_append_iff H db notes B.newPlanId hne
        (locksOf db.lockedOutputs (lockOwnerHex H B.newPlanId))
      rw [← locksOf_lock howner] at hmatch
      constructor
      · intro hexact value' notes' hfirst'
        obtain ⟨rfl, rfl⟩ := hfirst.unique hfirst'
        exact ⟨hmatch.mp hexact.1, fee, built, hcovers, hbuilt⟩
      · intro honce
        exact ⟨hmatch.mpr (honce _ _ hfirst).1, fun l hl => mem_locks_lock_iff howner hl⟩
  | @retried value notes notes' built earlier hfirst hnot hne howner =>
      refine iff_of_false (fun hexact => ?_) fun honce => ?_
      · -- the notes of the first round are locked, and not recorded
        have hall : ∀ l ∈ db.locksFor H B.newPlanId notes ++
            (earlier ++ db.locksFor H B.newPlanId notes'),
            l.ownerHex = lockOwnerHex H B.newPlanId := by
          intro l hl
          simp only [List.mem_append] at hl
          rcases hl with hl | hl | hl
          · exact ownerHex_of_mem_locksFor hl
          · exact (howner l hl).1
          · exact ownerHex_of_mem_locksFor hl
        have hmatch := hexact.1
        rw [show (planOf ctx request B.newPlanId (db.selectionOf notes') built).planId =
          B.newPlanId from rfl, locksOf_lock hall, ← List.append_assoc, List.map_append,
          ← List.append_assoc] at hmatch
        have hnil := (inputsMatch_append_iff hne _).mp hmatch
        obtain ⟨l, hl, -⟩ := hfirst.exists_new (H := H) B.newPlanId
        have hmem : l.toLockedOutput ∈ ([] : List LockedOutput) := by
          rw [← hnil]
          exact List.mem_append_right _ (List.mem_map_of_mem (List.mem_append_left _ hl))
        cases hmem
      · obtain ⟨-, fee, -, hcovers, -⟩ := honce _ _ hfirst
        exact hnot fee hcovers

/-- **Planning locks what the plan spends and nothing else** exactly when it selects notes once. -/
theorem shielded_exact_iff (B : NoteBackend) (H : Hashing) (ctx : FundContext)
    (request : TxRequest) (carrierKey : Bool) {db db' : NoteStore} {r : Except String FundingPlan}
    (hrun : Yields (answers B H) ((FundingSource.shielded carrierKey).plan request ctx).run db r
      db') :
    ReservesExactly H db db' r ↔ SelectsOnce B H ctx request carrierKey db :=
  ((spec_plan B H ctx request carrierKey db).of_yields hrun).reservesExactly_iff

/-- A plan whose only note pays for it. -/
theorem shielded_exact_iff_once : ∃ plan db',
    Yields (answers (noteBackend [callNote] 51) anyOutside.hashing)
      ((FundingSource.shielded true).plan (.call []) ⟨.mainnet, ⟨10, .replicate 0⟩, 11⟩).run
      scannedStore (.ok plan) db' ∧
    ReservesExactly anyOutside.hashing scannedStore db' (.ok plan) := by
  obtain ⟨plan, db', hrun, -⟩ :=
    exists_callPlan ⟨.mainnet, ⟨10, .replicate 0⟩, 11⟩ 51 rfl anyOutside.hashing
  refine ⟨plan, db', hrun, (shielded_exact_iff _ _ _ _ _ hrun).mpr fun value notes hfirst => ?_⟩
  obtain ⟨rfl, rfl⟩ := (firstRound_callNote ⟨.mainnet, ⟨10, .replicate 0⟩, 11⟩ 51 rfl).unique hfirst
  exact ⟨rfl, 10000, ⟨"", 51, ""⟩, ⟨rfl, 10000, rfl, by decide⟩, rfl⟩

/-- A note of exactly the minimum fee, which leaves no change. -/
def feeNote : ReceivedNote := ⟨.orchard, .replicate 1, 0, 10000⟩

/-- The first round locks a note that leaves no change, and the plan is made of another one. -/
theorem not_shielded_exact_retried : ∃ r db',
    Yields (answers (noteBackend [feeNote, callNote] 51) anyOutside.hashing)
      ((FundingSource.shielded true).plan (.call []) ⟨.mainnet, ⟨10, .replicate 0⟩, 11⟩).run
      scannedStore r db' ∧
    ¬ ReservesExactly anyOutside.hashing scannedStore db' r := by
  obtain ⟨r, db', hrun⟩ := exists_yields
    (exists_answer (noteBackend [feeNote, callNote] 51) anyOutside.hashing)
    ((FundingSource.shielded true).plan (.call []) ⟨.mainnet, ⟨10, .replicate 0⟩, 11⟩).run
    scannedStore
  refine ⟨r, db', hrun, fun hexact => ?_⟩
  have hfirst : FirstRound (noteBackend [feeNote, callNote] 51)
      ⟨.mainnet, ⟨10, .replicate 0⟩, 11⟩ (.call []) true scannedStore 0 [feeNote] :=
    ⟨rfl, 10000, rfl,
      ⟨rfl, rfl, by decide, by decide, rfl, List.cons_ne_nil _ _, rfl, rfl, rfl⟩⟩
  obtain ⟨-, fee, -, ⟨hfee, total, htotal, hlt⟩, -⟩ :=
    ((spec_plan _ _ _ _ _ _).of_yields hrun).reservesExactly_iff.mp hexact _ _ hfirst
  obtain rfl : (10000 : ℕ) = fee := Except.ok.inj hfee
  obtain rfl : (10000 : ℕ) = total := Option.some.inj htotal
  exact absurd hlt (by decide)

end Outcome

end Zalkanes
