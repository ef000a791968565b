import Zalkanes.Wallet.Recovery

/-!
# Recovery of One Plan

What a pass of startup recovery does to one plan: a function on the plan's recorded operation, its
stage and the locks under its owner (`PlanState.pass`). A second pass settles every plan; the first
may only have caught a row up with its locks.

## Main results

* `PlanState.pass_settle`: after two passes nothing changes any more.
* `PlanState.pass_eq_self_of_terminal`: a terminal plan is left alone.
-/

namespace Zalkanes

/-- What recovery reads and changes of a plan. -/
structure PlanState where
  operation : Operation
  txid : Option String
  stage : JournalStage
  /-- The locks under the plan's own owner. -/
  locks : List LockedOutput

namespace PlanState

/-- The locks of its owner, if the row names one. -/
def held (x : PlanState) : List LockedOutput :=
  if x.operation.lockOwner = "" then [] else x.locks

/-- The plan at another stage. -/
def move (x : PlanState) (target : JournalStage) : PlanState := { x with stage := target }

/-- The plan without its locks. -/
def free (x : PlanState) : PlanState := { x with locks := [] }

/-- Moving changes the stage. -/
@[simp] theorem stage_move (x : PlanState) (target : JournalStage) :
    (x.move target).stage = target := rfl

/-- Moving keeps the locks. -/
@[simp] theorem locks_move (x : PlanState) (target : JournalStage) :
    (x.move target).locks = x.locks := rfl

/-- Moving keeps the operation. -/
@[simp] theorem operation_move (x : PlanState) (target : JournalStage) :
    (x.move target).operation = x.operation := rfl

/-- Moving keeps the transaction id. -/
@[simp] theorem txid_move (x : PlanState) (target : JournalStage) :
    (x.move target).txid = x.txid := rfl

/-- Moving keeps what is held. -/
@[simp] theorem held_move (x : PlanState) (target : JournalStage) :
    (x.move target).held = x.held := rfl

/-- The last move decides. -/
@[simp] theorem move_move (x : PlanState) (target target' : JournalStage) :
    (x.move target).move target' = x.move target' := rfl

/-- Freeing the locks keeps the stage. -/
@[simp] theorem stage_free (x : PlanState) : x.free.stage = x.stage := rfl

/-- Without locks there is nothing to free. -/
theorem free_of_locks_eq_nil {x : PlanState} (h : x.locks = []) : x.free = x := by
  rw [free, ← h]

variable (H : Hashing) (status : String → Except String TxStatus) (tip : CanonicalTip)

/-- The first half of a pass, which compares the plan with its locks. -/
def startup (x : PlanState) : PlanState :=
  if x.operation.fundingMode = "shielded" ∧
    x.operation.lockOwner ≠ lockOwnerHex H x.operation.planId then x
  else
    match x.stage with
    | .planned =>
        if x.held = [] then x.move .cancelled
        else if inputsMatch x.operation x.held then x.move .reserved else x
    | .reserved =>
        if x.held = [] then if x.operation.expired tip then x.move .expired else x
        else if inputsMatch x.operation x.held then (x.move .cancelled).free else x
    | .proving | .proven =>
        if x.held = [] then x.move .cancelled else (x.move .cancelled).free
    | .signing | .signed | .extracted | .verified => x.move .cancelled
    | _ => x

/-- The second half of a pass, which asks the node. -/
def reconcile (x : PlanState) : PlanState :=
  if x.stage.inBroadcastPhase then
    match x.txid.map status with
    | some (.ok (.mined _)) => x.move .mined
    | some (.ok .inMempool) => x.move .broadcastAccepted
    | some (.ok .absent) =>
        if x.operation.definitelyExpired tip then (x.move .expired).free
        else if x.stage = .broadcasting then x.move .broadcastUnknown else x
    | _ => x
  else x

/-- A pass of startup recovery. -/
def pass (x : PlanState) : PlanState := (x.startup H tip).reconcile status tip

/-- What the passes settle the plan at. -/
def settle (x : PlanState) : PlanState := (x.pass H status tip).pass H status tip

variable {H status tip} {x : PlanState}

/-- Startup recovery leaves the broadcast phase alone. -/
theorem startup_of_inBroadcastPhase (h : x.stage.inBroadcastPhase = true) :
    x.startup H tip = x := by
  rw [startup]
  split
  · rfl
  · revert h
    cases x.stage <;> intro h <;> first | rfl | cases h

/-- Startup recovery leaves terminal plans alone. -/
theorem startup_of_isTerminal (h : x.stage.isTerminal = true) : x.startup H tip = x := by
  rw [startup]
  split
  · rfl
  · revert h
    cases x.stage <;> intro h <;> first | rfl | cases h

/-- Reconciliation looks at the broadcast phase only. -/
theorem reconcile_of_not_inBroadcastPhase (h : x.stage.inBroadcastPhase = false) :
    x.reconcile status tip = x := by
  rw [reconcile, h, if_neg Bool.false_ne_true]

/-- Startup moves no plan into the broadcast phase. -/
theorem inBroadcastPhase_startup (h : x.stage.inBroadcastPhase = false) :
    (x.startup H tip).stage.inBroadcastPhase = false := by
  rw [startup]
  repeat' split
  all_goals first | exact h | rfl

/-- In the broadcast phase a pass is reconciliation. -/
theorem pass_of_inBroadcastPhase (h : x.stage.inBroadcastPhase = true) :
    x.pass H status tip = x.reconcile status tip := by
  rw [pass, startup_of_inBroadcastPhase h]

/-- Before it, a pass is startup recovery. -/
theorem pass_of_not_inBroadcastPhase (h : x.stage.inBroadcastPhase = false) :
    x.pass H status tip = x.startup H tip := by
  rw [pass, reconcile_of_not_inBroadcastPhase (inBroadcastPhase_startup h)]

/-- A terminal stage is not in the broadcast phase. -/
theorem inBroadcastPhase_of_isTerminal {stage : JournalStage} (h : stage.isTerminal = true) :
    stage.inBroadcastPhase = false := by
  revert h
  cases stage <;> decide

/-- A terminal plan is left alone. -/
theorem pass_eq_self_of_terminal (h : x.stage.isTerminal = true) : x.pass H status tip = x := by
  rw [pass_of_not_inBroadcastPhase (inBroadcastPhase_of_isTerminal h), startup_of_isTerminal h]

/-- Terminal plans are settled. -/
theorem settle_eq_self_of_terminal (h : x.stage.isTerminal = true) :
    x.settle H status tip = x := by
  rw [settle, pass_eq_self_of_terminal h, pass_eq_self_of_terminal h]

/-- A plan whose transaction is mined. -/
theorem reconcile_mined {height : BlockHeight} (h : x.stage.inBroadcastPhase = true)
    (hstatus : x.txid.map status = some (.ok (.mined height))) :
    x.reconcile status tip = x.move .mined := by
  rw [reconcile, if_pos h, hstatus]

/-- A plan whose transaction is in the mempool. -/
theorem reconcile_inMempool (h : x.stage.inBroadcastPhase = true)
    (hstatus : x.txid.map status = some (.ok .inMempool)) :
    x.reconcile status tip = x.move .broadcastAccepted := by
  rw [reconcile, if_pos h, hstatus]

/-- A plan whose transaction is nowhere: it expires, or its fate is unknown. -/
theorem reconcile_absent (h : x.stage.inBroadcastPhase = true)
    (hstatus : x.txid.map status = some (.ok .absent)) :
    x.reconcile status tip = if x.operation.definitelyExpired tip then (x.move .expired).free
      else if x.stage = .broadcasting then x.move .broadcastUnknown else x := by
  rw [reconcile, if_pos h, hstatus]

/-- Where the node says nothing of the transaction, the plan is left alone. -/
theorem reconcile_of_forall_ne (h : ∀ observed, x.txid.map status ≠ some (.ok observed)) :
    x.reconcile status tip = x := by
  by_cases hs : x.stage.inBroadcastPhase = true
  · rw [reconcile, if_pos hs]
    cases hstatus : x.txid.map status with
    | none => rfl
    | some answer =>
        cases answer with
        | error _ => rfl
        | ok observed => exact absurd hstatus (h observed)
  · exact reconcile_of_not_inBroadcastPhase (Bool.eq_false_iff.mpr hs)

/-- A pass settles a plan in the broadcast phase. -/
theorem reconcile_reconcile (x : PlanState) :
    (x.reconcile status tip).reconcile status tip = x.reconcile status tip := by
  by_cases h : x.stage.inBroadcastPhase = true
  · by_cases hstatus : ∃ observed, x.txid.map status = some (.ok observed)
    · obtain ⟨observed, hstatus⟩ := hstatus
      cases observed with
      | mined height =>
          rw [reconcile_mined h hstatus]
          exact reconcile_of_not_inBroadcastPhase rfl
      | inMempool =>
          rw [reconcile_inMempool h hstatus]
          exact reconcile_inMempool rfl hstatus
      | absent =>
          rw [reconcile_absent h hstatus]
          by_cases hexpired : x.operation.definitelyExpired tip = true
          · rw [if_pos hexpired]
            exact reconcile_of_not_inBroadcastPhase rfl
          · rw [if_neg hexpired]
            by_cases hb : x.stage = .broadcasting
            · have habsent : (x.move .broadcastUnknown).reconcile status tip = _ :=
                reconcile_absent rfl hstatus
              rw [if_pos hb, habsent, operation_move, if_neg hexpired, stage_move,
                if_neg (show JournalStage.broadcastUnknown ≠ .broadcasting by decide)]
            · rw [if_neg hb, reconcile_absent h hstatus, if_neg hexpired, if_neg hb]
    · have hnone : ∀ observed, x.txid.map status ≠ some (.ok observed) :=
        fun observed h => hstatus ⟨observed, h⟩
      rw [reconcile_of_forall_ne hnone, reconcile_of_forall_ne hnone]
  · have hx : x.reconcile status tip = x :=
      reconcile_of_not_inBroadcastPhase (Bool.eq_false_iff.mpr h)
    rw [hx, hx]

/-- A plan that was in the broadcast phase is still there, or is done with. -/
theorem inBroadcastPhase_or_isTerminal_reconcile (status : String → Except String TxStatus)
    (tip : CanonicalTip) (h : x.stage.inBroadcastPhase = true) :
    (x.reconcile status tip).stage.inBroadcastPhase = true ∨
      (x.reconcile status tip).stage.isTerminal = true := by
  by_cases hstatus : ∃ observed, x.txid.map status = some (.ok observed)
  · obtain ⟨observed, hstatus⟩ := hstatus
    cases observed with
    | mined height =>
        rw [reconcile_mined h hstatus]
        exact Or.inr rfl
    | inMempool =>
        rw [reconcile_inMempool h hstatus]
        exact Or.inl rfl
    | absent =>
        rw [reconcile_absent h hstatus]
        by_cases hexpired : x.operation.definitelyExpired tip = true
        · rw [if_pos hexpired]
          exact Or.inr rfl
        · rw [if_neg hexpired]
          by_cases hb : x.stage = .broadcasting
          · rw [if_pos hb]
            exact Or.inl rfl
          · rw [if_neg hb]
            exact Or.inl h
  · rw [reconcile_of_forall_ne fun observed h => hstatus ⟨observed, h⟩]
    exact Or.inl h

/-- Startup recovery leaves the plan alone, is done with it, or caught it up with its locks. -/
theorem startup_cases (H : Hashing) (tip : CanonicalTip) (x : PlanState) : x.startup H tip = x ∨
    (x.startup H tip).stage.isTerminal = true ∨
    (x.stage = .planned ∧ x.startup H tip = x.move .reserved ∧
      (x.startup H tip).startup H tip = (x.move .cancelled).free) := by
  by_cases howner : x.operation.fundingMode = "shielded" ∧
      x.operation.lockOwner ≠ lockOwnerHex H x.operation.planId
  · rw [startup, if_pos howner]
    exact Or.inl rfl
  · rw [startup, if_neg howner]
    cases hs : x.stage with
    | planned =>
        dsimp only
        by_cases hheld : x.held = []
        · rw [if_pos hheld]
          exact Or.inr (Or.inl rfl)
        · rw [if_neg hheld]
          by_cases hmatch : inputsMatch x.operation x.held = true
          · have hnext : (x.move .reserved).startup H tip = (x.move .cancelled).free := by
              rw [startup, operation_move, if_neg howner, stage_move, held_move]
              dsimp only
              rw [if_neg hheld, if_pos hmatch, move_move]
            rw [if_pos hmatch]
            exact Or.inr (Or.inr ⟨rfl, rfl, hnext⟩)
          · rw [if_neg hmatch]
            exact Or.inl rfl
    | reserved =>
        dsimp only
        by_cases hheld : x.held = []
        · rw [if_pos hheld]
          by_cases hexpired : x.operation.expired tip = true
          · rw [if_pos hexpired]
            exact Or.inr (Or.inl rfl)
          · rw [if_neg hexpired]
            exact Or.inl rfl
        · rw [if_neg hheld]
          by_cases hmatch : inputsMatch x.operation x.held = true
          · rw [if_pos hmatch]
            exact Or.inr (Or.inl rfl)
          · rw [if_neg hmatch]
            exact Or.inl rfl
    | proving | proven =>
        dsimp only
        by_cases hheld : x.held = []
        · rw [if_pos hheld]
          exact Or.inr (Or.inl rfl)
        · rw [if_neg hheld]
          exact Or.inr (Or.inl rfl)
    | signing | signed | extracted | verified => exact Or.inr (Or.inl rfl)
    | _ => exact Or.inl rfl

/-- **Two passes settle a plan.** -/
theorem pass_settle (x : PlanState) :
    (x.settle H status tip).pass H status tip = x.settle H status tip := by
  have hterminal : (x.pass H status tip).stage.isTerminal = true →
      (x.settle H status tip).pass H status tip = x.settle H status tip := fun h => by
    rw [settle, pass_eq_self_of_terminal h, pass_eq_self_of_terminal h]
  by_cases h : x.stage.inBroadcastPhase = true
  · rw [pass_of_inBroadcastPhase h] at hterminal
    rcases inBroadcastPhase_or_isTerminal_reconcile status tip h with hs | hs
    · have hpass : (x.reconcile status tip).pass H status tip = x.reconcile status tip := by
        rw [pass_of_inBroadcastPhase hs, reconcile_reconcile]
      rw [settle, pass_of_inBroadcastPhase h, hpass, hpass]
    · exact hterminal hs
  · have hx : x.pass H status tip = x.startup H tip :=
      pass_of_not_inBroadcastPhase (Bool.eq_false_iff.mpr h)
    rcases startup_cases H tip x with hs | hs | ⟨-, hreserved, hcancelled⟩
    · rw [settle, hx, hs, hx, hs, hx, hs]
    · rw [hx] at hterminal
      exact hterminal hs
    · have hnext : (x.startup H tip).pass H status tip = (x.move .cancelled).free := by
        rw [pass_of_not_inBroadcastPhase (by rw [hreserved]; rfl), hcancelled]
      rw [settle, hx, hnext]
      exact pass_eq_self_of_terminal rfl

/-- A pass goes towards where the plan settles. -/
theorem settle_pass (x : PlanState) :
    (x.pass H status tip).settle H status tip = x.settle H status tip :=
  pass_settle x

/-- A pass that ends a plan settles it. -/
theorem settle_of_isTerminal_pass (h : (x.pass H status tip).stage.isTerminal = true) :
    x.settle H status tip = x.pass H status tip := by
  rw [settle, pass_eq_self_of_terminal h]

/-! ### What a settled plan holds -/

/-- Where startup recovery cancels a plan that was not signed, it frees the locks. -/
theorem locks_startup (hbefore : x.stage.beforeSigning = true)
    (hcancelled : (x.startup H tip).stage = .cancelled) (howner : x.operation.lockOwner ≠ "") :
    (x.startup H tip).locks = [] := by
  have hheld : x.held = x.locks := by rw [held, if_neg howner]
  by_cases hcanonical : x.operation.fundingMode = "shielded" ∧
      x.operation.lockOwner ≠ lockOwnerHex H x.operation.planId
  · rw [startup, if_pos hcanonical] at hcancelled
    rw [hcancelled] at hbefore
    cases hbefore
  · rw [startup, if_neg hcanonical] at hcancelled ⊢
    cases hs : x.stage with
    | planned =>
        rw [hs] at hcancelled
        dsimp only at hcancelled ⊢
        by_cases hnone : x.held = []
        · rw [if_pos hnone, locks_move, ← hheld, hnone]
        · rw [if_neg hnone] at hcancelled
          by_cases hmatch : inputsMatch x.operation x.held = true
          · rw [if_pos hmatch] at hcancelled
            cases hcancelled
          · rw [if_neg hmatch, hs] at hcancelled
            cases hcancelled
    | reserved =>
        rw [hs] at hcancelled
        dsimp only at hcancelled ⊢
        by_cases hnone : x.held = []
        · rw [if_pos hnone] at hcancelled ⊢
          by_cases hexpired : x.operation.expired tip = true
          · rw [if_pos hexpired, locks_move, ← hheld, hnone]
          · rw [if_neg hexpired, ← hheld, hnone]
        · rw [if_neg hnone] at hcancelled ⊢
          by_cases hmatch : inputsMatch x.operation x.held = true
          · rw [if_pos hmatch]
            rfl
          · rw [if_neg hmatch, hs] at hcancelled
            cases hcancelled
    | proving | proven =>
        dsimp only
        by_cases hnone : x.held = []
        · rw [if_pos hnone, locks_move, ← hheld, hnone]
        · rw [if_neg hnone]
          rfl
    | _ =>
        rw [hs] at hbefore
        cases hbefore

/-- A plan that is cancelled before signing settles without locks. -/
theorem locks_settle_of_beforeSigning (hbefore : x.stage.beforeSigning = true)
    (hcancelled : (x.settle H status tip).stage = .cancelled)
    (howner : x.operation.lockOwner ≠ "") : (x.settle H status tip).locks = [] := by
  have hphase : x.stage.inBroadcastPhase = false := by
    revert hbefore
    cases x.stage <;> decide
  have hx : x.pass H status tip = x.startup H tip := pass_of_not_inBroadcastPhase hphase
  rcases startup_cases H tip x with hs | hs | ⟨-, hreserved, hnext⟩
  · rw [settle, hx, hs, hx, hs] at hcancelled
    rw [hcancelled] at hbefore
    cases hbefore
  · rw [← hx] at hs
    rw [settle_of_isTerminal_pass hs, hx] at hcancelled ⊢
    exact locks_startup hbefore hcancelled howner
  · rw [settle, hx, pass_of_not_inBroadcastPhase (by rw [hreserved]; rfl), hnext]
    rfl

/-- A plan that expires in the broadcast phase settles without locks. -/
theorem locks_settle_of_inBroadcastPhase (hphase : x.stage.inBroadcastPhase = true)
    (hexpired : (x.settle H status tip).stage = .expired) :
    (x.settle H status tip).locks = [] := by
  have hx : x.pass H status tip = x.reconcile status tip := pass_of_inBroadcastPhase hphase
  rcases inBroadcastPhase_or_isTerminal_reconcile status tip hphase with hs | hs
  · rw [settle, hx, pass_of_inBroadcastPhase hs, reconcile_reconcile] at hexpired
    rw [hexpired] at hs
    cases hs
  · rw [← hx] at hs
    rw [settle_of_isTerminal_pass hs, hx] at hexpired ⊢
    by_cases hstatus : ∃ observed, x.txid.map status = some (.ok observed)
    · obtain ⟨observed, hstatus⟩ := hstatus
      cases observed with
      | mined height =>
          rw [reconcile_mined hphase hstatus] at hexpired
          cases hexpired
      | inMempool =>
          rw [reconcile_inMempool hphase hstatus] at hexpired
          cases hexpired
      | absent =>
          rw [reconcile_absent hphase hstatus] at hexpired ⊢
          by_cases hlate : x.operation.definitelyExpired tip = true
          · rw [if_pos hlate]
            rfl
          · rw [if_neg hlate] at hexpired
            by_cases hb : x.stage = .broadcasting
            · rw [if_pos hb] at hexpired
              cases hexpired
            · rw [if_neg hb] at hexpired
              rw [hexpired] at hphase
              cases hphase
    · rw [reconcile_of_forall_ne fun observed h => hstatus ⟨observed, h⟩] at hexpired
      rw [hexpired] at hphase
      cases hphase

/-! ### Interrupted passes -/

/-- The plan was cancelled before it was signed, or it expired: its release was still to come. -/
def MayOwe (x y : PlanState) : Prop :=
  x.stage.beforeSigning = true ∧ y.stage = .cancelled ∧ y.operation.lockOwner ≠ "" ∨
    x.stage.inBroadcastPhase = true ∧ y.stage = .expired

/-- The plan was moved, and its locks were left behind. -/
def Owes (x y : PlanState) : Prop :=
  MayOwe x y ∧ y.locks ≠ []

variable (H status tip) in
/-- What an interrupted pass has made of a plan. -/
inductive Progress (x y : PlanState) : Prop
  /-- Passes go on as from the start. -/
  | underway (hlocks : y.locks = x.locks)
      (hphase : y.stage.inBroadcastPhase = x.stage.inBroadcastPhase)
      (hsettle : y.settle H status tip = x.settle H status tip)
  | settled (hterminal : y.stage.isTerminal = true) (h : y = x.settle H status tip)
  /-- The move was made, and the release may not have been. -/
  | moved (h : y.free = x.settle H status tip) (hmay : MayOwe x y)

variable (H status tip) in
/-- One plan is on the way from another to where that settles. -/
structure Toward (x y : PlanState) : Prop where
  operation : y.operation = x.operation
  txid : y.txid = x.txid
  progress : Progress H status tip x y

/-- A plan is on its own way. -/
theorem Toward.refl (x : PlanState) : Toward H status tip x x :=
  ⟨rfl, rfl, .underway rfl rfl rfl⟩

variable {y : PlanState}

/-- A plan that is not terminal is underway. -/
theorem Toward.underway (h : Toward H status tip x y) (hy : y.stage.isTerminal = false) :
    y.locks = x.locks ∧ y.stage.inBroadcastPhase = x.stage.inBroadcastPhase ∧
      y.settle H status tip = x.settle H status tip := by
  cases h.progress with
  | underway hlocks hphase hsettle => exact ⟨hlocks, hphase, hsettle⟩
  | settled hterminal _ =>
      rw [hterminal] at hy
      cases hy
  | moved _ hmay =>
      rcases hmay with ⟨-, hs, -⟩ | ⟨-, hs⟩ <;> rw [hs] at hy <;> cases hy

/-- Only terminal plans owe a release. -/
theorem MayOwe.isTerminal (h : MayOwe x y) : y.stage.isTerminal = true := by
  rcases h with ⟨-, hs, -⟩ | ⟨-, hs⟩ <;> rw [hs] <;> rfl

/-- Where the release is the last thing to come, the settled plan holds no locks. -/
theorem MayOwe.locks_settle (h : MayOwe x y) (hoperation : y.operation = x.operation)
    (hstage : (x.settle H status tip).stage = y.stage) : (x.settle H status tip).locks = [] := by
  rcases h with ⟨hbefore, hs, howner⟩ | ⟨hphase, hs⟩
  · exact locks_settle_of_beforeSigning hbefore (hstage.trans hs) (hoperation ▸ howner)
  · exact locks_settle_of_inBroadcastPhase hphase (hstage.trans hs)

/-- A plan that may owe a release is settled but for it. -/
theorem Toward.free_eq (h : Toward H status tip x y) (hmay : MayOwe x y) :
    y.free = x.settle H status tip := by
  have hself : y = x.settle H status tip → y.free = x.settle H status tip := fun hy => by
    have hlocks := hmay.locks_settle h.operation (congrArg PlanState.stage hy.symm)
    rw [← hy] at hlocks ⊢
    exact free_of_locks_eq_nil hlocks
  cases h.progress with
  | underway _ _ hsettle =>
      exact hself ((settle_eq_self_of_terminal hmay.isTerminal).symm.trans hsettle)
  | settled _ hy => exact hself hy
  | moved hfree _ => exact hfree

/-- **The passes that follow settle the plan as uninterrupted ones** unless its locks were left
behind. -/
theorem Toward.settle_eq (h : Toward H status tip x y) (howes : ¬ Owes x y) :
    y.settle H status tip = x.settle H status tip := by
  cases h.progress with
  | underway _ _ hsettle => exact hsettle
  | settled hterminal hy => rw [settle_eq_self_of_terminal hterminal, hy]
  | moved hfree hmay =>
      have hlocks : y.locks = [] := by
        by_contra hlocks
        exact howes ⟨hmay, hlocks⟩
      rw [free_of_locks_eq_nil hlocks] at hfree
      rw [settle_eq_self_of_terminal hmay.isTerminal, hfree]

/-- A plan that may owe a release does not care how much of it was done. -/
theorem Toward.release (h : Toward H status tip x y) (hmay : MayOwe x y)
    (locks : List LockedOutput) : Toward H status tip x { y with locks := locks } :=
  ⟨h.operation, h.txid, .moved (h.free_eq hmay) hmay⟩

/-- A move that is the pass's own. -/
theorem Toward.of_pass_eq {target : JournalStage}
    (hphase : target.isTerminal = false →
      target.inBroadcastPhase = x.stage.inBroadcastPhase)
    (hpass : x.pass H status tip = x.move target) : Toward H status tip x (x.move target) := by
  refine ⟨rfl, rfl, ?_⟩
  by_cases hterminal : target.isTerminal = true
  · refine .settled hterminal ?_
    rw [settle_of_isTerminal_pass (by rw [hpass]; exact hterminal), hpass]
  · refine .underway rfl (hphase (Bool.eq_false_iff.mpr hterminal)) ?_
    rw [← hpass, settle_pass]

/-- Reconciliation changes the stage and the locks only. -/
theorem reconcile_same (x : PlanState) : (x.reconcile status tip).operation = x.operation ∧
    (x.reconcile status tip).txid = x.txid := by
  by_cases hs : x.stage.inBroadcastPhase = true
  · rw [reconcile, if_pos hs]
    cases x.txid.map status with
    | none => exact ⟨rfl, rfl⟩
    | some answer =>
        cases answer with
        | error _ => exact ⟨rfl, rfl⟩
        | ok observed =>
            cases observed with
            | mined _ | inMempool => exact ⟨rfl, rfl⟩
            | absent =>
                dsimp only
                by_cases hlate : x.operation.definitelyExpired tip = true
                · rw [if_pos hlate]
                  exact ⟨rfl, rfl⟩
                · rw [if_neg hlate]
                  by_cases hb : x.stage = .broadcasting
                  · rw [if_pos hb]
                    exact ⟨rfl, rfl⟩
                  · rw [if_neg hb]
                    exact ⟨rfl, rfl⟩
  · rw [reconcile_of_not_inBroadcastPhase (Bool.eq_false_iff.mpr hs)]
    exact ⟨rfl, rfl⟩

/-- A pass leaves what is recorded of the operation. -/
theorem operation_pass (x : PlanState) : (x.pass H status tip).operation = x.operation := by
  rw [pass, (reconcile_same _).1]
  have hstartup : (x.startup H tip).operation = x.operation := by
    rw [startup]
    repeat' split
    all_goals rfl
  exact hstartup

/-- From the second pass on nothing changes. -/
theorem iterate_pass {n : ℕ} (hn : 2 ≤ n) (x : PlanState) :
    (pass H status tip)^[n] x = x.settle H status tip := by
  induction n, hn using Nat.le_induction with
  | base => rfl
  | succ n _ ih => rw [Function.iterate_succ_apply', ih, pass_settle]

end PlanState

end Zalkanes
