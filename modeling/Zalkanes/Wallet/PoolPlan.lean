import Zalkanes.Wallet.Commit
import Zalkanes.Wallet.PoolBundle

/-!
# What a Plan Expects of the Pools

A shielded plan adds up what it spends of each pool in saturating 64-bit arithmetic
(`buildExpectations`). Where its notes are worth no more than the supply nothing saturates and
nothing wraps, and two bundles that are accepted with their change (`verifyBundles`) spend the
planned notes and no other value, and return the planned change and no other value
(`verifyBundles_sound`). The wallet's notes and the transaction builder are left open
(`PoolBackend`).

## Main results

* `tallySpends_eq_ok`: the expected spends, and what they add up to.
* `selectFor_eq_ok`: a selection covers what is required and its fee, with change to spare.
* `verifyBundles_sound`: what two accepted bundles move.
* `verifyFinalizedPczt_eq_ok`: what else is compared of the finished transaction.
-/

namespace Zalkanes

open Lib

/-- A note that is selected to be spent. -/
structure PoolSpend where
  pool : ValuePool
  nullifier : Bytes32
  value : UInt64
  deriving DecidableEq

/-- The shielded inputs that were selected to fund a transaction, with change keys of type `K`. -/
structure PoolSelection (K : Type) where
  spends : List PoolSpend
  /-- The raw receiver bytes of the change address. -/
  changeAddress : Bytes
  /-- The incoming viewing key of the change address. -/
  changeIvk : K
  changePool : ValuePool
  orchardAnchor : Option Bytes32
  ironwoodAnchor : Option Bytes32

/-- The values of the notes, added up as a `u64`. -/
def PoolSelection.selectedValue {K : Type} (sel : PoolSelection K) : ℕ :=
  (sel.spends.map fun s => s.value.toNat).sum % 2 ^ 64

/-- Where the builder placed the spends and the outputs of a pool. -/
structure BundleMetadata where
  spendIndices : List ℕ
  outputIndices : List ℕ
  deriving DecidableEq

/-- The transaction that was built. -/
structure BuiltPools where
  orchardMeta : BundleMetadata
  ironwoodMeta : BundleMetadata
  actionsOrchard : ℕ
  actionsIronwood : ℕ
  expiryHeight : UInt32
  deriving DecidableEq

/-- The metadata of a pool. -/
def BuiltPools.meta (built : BuiltPools) : ValuePool → BundleMetadata
  | .orchard => built.orchardMeta
  | .ironwood => built.ironwoodMeta

/-! ### The expectations -/

/-- What the loop over the spends adds up. -/
structure SpendTally where
  spends : List ExpectedSpend
  /-- How many spends of the pool there were. -/
  bucket : ValuePool → ℕ
  net : ValuePool → ℤ

/-- Nothing has been tallied. -/
def noSpends : SpendTally := ⟨[], fun _ => 0, fun _ => 0⟩

/-- One spend: its action, and its value. -/
def tallySpend (built : BuiltPools) (t : SpendTally) (s : PoolSpend) : Except String SpendTally :=
  match (built.meta s.pool).spendIndices[t.bucket s.pool]? with
  | none => throw ("spend " ++ toString (t.bucket s.pool) ++ " missing action index (" ++
      s.pool.debug ++ ")")
  | some actionIndex =>
      match toI64 s.value.toNat with
      | none => throw "spend value exceeds i64 range"
      | some valueI64 => return {
          spends := t.spends ++ [⟨s.pool, actionIndex, s.nullifier, s.value⟩]
          bucket := Function.update t.bucket s.pool (t.bucket s.pool + 1)
          net := Function.update t.net s.pool (saturateI64 (t.net s.pool + valueI64)) }

/-- Record everything that the finalized transaction must later match. -/
def buildExpectations {K : Type} (sel : PoolSelection K) (built : BuiltPools) (change : ℕ) :
    Except String (ShieldedExpectations K) := do
  let t ← sel.spends.foldlM (tallySpend built) noSpends
  match (built.meta sel.changePool).outputIndices[0]? with
  | none => throw "change output missing action index"
  | some changeActionIndex =>
      match toI64 change with
      | none => throw "change exceeds i64 range"
      | some changeI64 =>
          let net := Function.update t.net sel.changePool
            (saturateI64 (t.net sel.changePool - changeI64))
          return {
            spends := t.spends
            change := ⟨sel.changePool, changeActionIndex, .ofNat change, sel.changeAddress,
              sel.changeIvk⟩
            actionsOrchard := built.actionsOrchard
            actionsIronwood := built.actionsIronwood
            anchorOrchard := sel.orchardAnchor
            anchorIronwood := sel.ironwoodAnchor
            netOrchard := net .orchard
            netIronwood := net .ironwood }

/-! ### The plan -/

/-- What the transaction builder was given. -/
structure PoolBuilder (K : Type) where
  selection : PoolSelection K
  opReturn : Bytes
  carriers : List PlanOutput
  change : UInt64

/-- The wallet and the transaction builder. -/
structure PoolBackend (K : Type) where
  /-- `select_spends` for at least this value, with so many rounds left. -/
  selectSpends : (rounds required : ℕ) → Except String (PoolSelection K)
  getFee : PoolBuilder K → Except String UInt64
  buildForPczt : PoolBuilder K → Except String BuiltPools
  /-- The builder adds up the transparent outputs as an amount of money. -/
  outputs_le : ∀ builder built, buildForPczt builder = .ok built →
    (builder.carriers.map fun out => out.value.toNat).sum ≤ NoteStore.maxMoney

/-- `Zatoshis::from_u64`. -/
def zatoshis (value : UInt64) : Except String UInt64 :=
  if NoteStore.maxMoney < value.toNat then
    throw "Amount addition resulted in a value outside the valid range."
  else return value

/-- Assemble a builder from a selection and the outputs. -/
def assembleBuilder {K : Type} (sel : PoolSelection K) (carriers : List PlanOutput)
    (opReturn : Bytes) (change : UInt64) : Except String (PoolBuilder K) := do
  carriers.forM fun out => (zatoshis out.value).map fun _ => ()
  if change = 0 then return ⟨sel, opReturn, carriers, 0⟩
  else return ⟨sel, opReturn, carriers, ← zatoshis change⟩

/-- The planned transaction, as far as its bundles are compared with it. -/
structure PoolPlan (K : Type) where
  selection : PoolSelection K
  fee : ℕ
  change : ℕ
  transparentOutputs : List PlanOutput
  expiryHeight : UInt32
  expected : ShieldedExpectations K

namespace PoolBackend

variable {K : Type} (W : PoolBackend K)

/-- Rounds of note selection, at the exact fee with one change output present. -/
def selectRounds (carriers : List PlanOutput) (opReturn : Bytes) (requiredValue : ℕ) :
    ℕ → ℕ → Except String (PoolSelection K × ℕ)
  | 0, _ => throw ("shielded selection did not converge within " ++
      toString maxSelectIterations ++ " rounds")
  | rounds + 1, required => do
      let sel ← W.selectSpends rounds required
      let fee ← W.getFee (← assembleBuilder sel carriers opReturn 1)
      match checkedAdd requiredValue fee.toNat with
      | none => throw "required+fee overflow"
      | some totalNeeded =>
          if sel.selectedValue > totalNeeded then return (sel, fee.toNat)
          else selectRounds carriers opReturn requiredValue rounds ((totalNeeded + 1) % 2 ^ 64)

/-- A selection that covers the value and a fee. -/
def selectFor (carriers : List PlanOutput) (opReturn : Bytes) (requiredValue : ℕ) :
    Except String (PoolSelection K × ℕ) :=
  match checkedAdd requiredValue minimumFee with
  | none => throw "required value overflow"
  | some required => W.selectRounds carriers opReturn requiredValue maxSelectIterations required

/-- Build the transaction of a selection, and record what it must match. -/
def assembleAndBuild (sel : PoolSelection K) (fee : ℕ) (carriers : List PlanOutput)
    (opReturn : Bytes) (change : ℕ) (transparentOutputs : List PlanOutput) :
    Except String (PoolPlan K) := do
  let built ← W.buildForPczt (← assembleBuilder sel carriers opReturn (.ofNat change))
  let expected ← buildExpectations sel built change
  return ⟨sel, fee, change, transparentOutputs, built.expiryHeight, expected⟩

/-- Plans a call: notes that cover its fee, and the change. -/
def planCall (opReturn : Bytes) : Except String (PoolPlan K) := do
  let (sel, fee) ← W.selectFor [] opReturn 0
  W.assembleAndBuild sel fee [] opReturn (sel.selectedValue - fee) [⟨0, opReturnScript opReturn⟩]

/-- The carriers pay to the script of the carrier key. -/
def planPrepare (carrierScript : Bytes) (carrierValues : List UInt64) :
    Except String (PoolPlan K) :=
  if carrierValues = [] then throw "PREPARE requires at least one carrier output"
  else do
    let carriers := carrierValues.map fun v => ⟨v, carrierScript⟩
    let carrierTotal := (carrierValues.map UInt64.toNat).sum % 2 ^ 64
    let (sel, fee) ← W.selectFor carriers [] carrierTotal
    if sel.selectedValue < carrierTotal + fee then
      throw "shielded PREPARE: insufficient selected value"
    else
      W.assembleAndBuild sel fee carriers [] (sel.selectedValue - carrierTotal - fee) carriers

/-- A plan that may be made of a selection. -/
inductive Plans : PoolPlan K → Prop
  | call {opReturn : Bytes} {plan : PoolPlan K} (h : W.planCall opReturn = .ok plan) : Plans plan
  | prepare {carrierScript : Bytes} {carrierValues : List UInt64} {plan : PoolPlan K}
      (h : W.planPrepare carrierScript carrierValues = .ok plan) : Plans plan

end PoolBackend

/-! ### What the spends add up to -/

/-- What the spends of a pool are worth. -/
def poolTotal (spends : List ExpectedSpend) (pool : ValuePool) : ℕ :=
  ((spends.filter fun s => s.pool = pool).map fun s => s.value.toNat).sum

/-- What all planned notes are worth. -/
def expectedTotal (spends : List ExpectedSpend) : ℕ := (spends.map fun s => s.value.toNat).sum

/-- One more note counts in its own pool. -/
theorem poolTotal_concat (spends : List ExpectedSpend) (s : ExpectedSpend) (pool : ValuePool) :
    poolTotal (spends ++ [s]) pool =
      poolTotal spends pool + if s.pool = pool then s.value.toNat else 0 := by
  by_cases hpool : s.pool = pool <;> simp [poolTotal, hpool]

/-- Every spend is of one of the pools. -/
theorem poolTotal_add (spends : List ExpectedSpend) :
    poolTotal spends .orchard + poolTotal spends .ironwood = expectedTotal spends := by
  induction spends using List.reverseRecOn with
  | nil => rfl
  | append_singleton spends s ih =>
      have htotal : expectedTotal (spends ++ [s]) = expectedTotal spends + s.value.toNat := by
        simp [expectedTotal]
      rw [poolTotal_concat, poolTotal_concat, htotal, ← ih]
      cases s.pool <;> simp <;> omega

/-- A pool has no more than all. -/
theorem poolTotal_le (spends : List ExpectedSpend) (pool : ValuePool) :
    poolTotal spends pool ≤ expectedTotal spends := by
  rw [← poolTotal_add]
  cases pool <;> omega

/-- The tally is exact. -/
def SpendTally.Exact (t : SpendTally) : Prop := ∀ pool, t.net pool = poolTotal t.spends pool

/-- **One spend** is recorded with its value, and the tally stays exact while it is in range. -/
theorem tallySpend_eq_ok {built : BuiltPools} {t t' : SpendTally} {s : PoolSpend}
    (h : tallySpend built t s = .ok t') :
    (∃ actionIndex, t'.spends = t.spends ++ [⟨s.pool, actionIndex, s.nullifier, s.value⟩]) ∧
    (t.Exact → expectedTotal t'.spends ≤ NoteStore.maxMoney → t'.Exact) := by
  rw [tallySpend] at h
  cases hindex : (built.meta s.pool).spendIndices[t.bucket s.pool]? with
  | none =>
      rw [hindex] at h
      cases h
  | some actionIndex =>
      rw [hindex] at h
      dsimp only at h
      cases hvalue : toI64 s.value.toNat with
      | none =>
          rw [hvalue] at h
          cases h
      | some valueI64 =>
          rw [hvalue] at h
          obtain rfl := Except.ok.inj h
          refine ⟨⟨actionIndex, rfl⟩, fun hexact hle pool => ?_⟩
          obtain ⟨-, rfl⟩ := toI64_eq_some hvalue
          have hpoolLe : poolTotal t.spends s.pool + s.value.toNat ≤ NoteStore.maxMoney := by
            refine le_trans ?_ ((poolTotal_le _ s.pool).trans hle)
            rw [poolTotal_concat, if_pos rfl]
          rw [NoteStore.maxMoney] at hpoolLe
          dsimp only
          rw [poolTotal_concat]
          by_cases hpool : pool = s.pool
          · subst hpool
            rw [Function.update_self, if_pos rfl, hexact s.pool, saturateI64_eq (by omega)
              (by omega), Nat.cast_add]
          · rw [Function.update_of_ne hpool, if_neg (Ne.symm hpool), Nat.add_zero, hexact pool]

/-- **The expected spends** have the values of the selected notes, and the tally is exact. -/
theorem tallySpends_eq_ok {built : BuiltPools} {spends : List PoolSpend} {t t' : SpendTally}
    (h : spends.foldlM (tallySpend built) t = .ok t') :
    expectedTotal t'.spends = expectedTotal t.spends + (spends.map fun s => s.value.toNat).sum ∧
    (t.Exact → expectedTotal t'.spends ≤ NoteStore.maxMoney → t'.Exact) := by
  induction spends generalizing t with
  | nil =>
      obtain rfl := Except.ok.inj h
      exact ⟨rfl, fun hexact _ => hexact⟩
  | cons s spends ih =>
      rw [List.foldlM_cons] at h
      obtain ⟨middle, hstep, hrest⟩ := bind_eq_ok h
      obtain ⟨⟨actionIndex, hspends⟩, hexact⟩ := tallySpend_eq_ok hstep
      obtain ⟨htotal, hexact'⟩ := ih hrest
      have hmiddle : expectedTotal middle.spends = expectedTotal t.spends + s.value.toNat := by
        rw [hspends]
        simp [expectedTotal]
      rw [hmiddle] at htotal
      refine ⟨?_, fun h hle => hexact' (hexact h ?_) hle⟩
      · rw [htotal, List.map_cons, List.sum_cons, Nat.add_assoc]
      · rw [hmiddle]
        omega

/-- The change, as it is taken from a pool. -/
def changeOf (pool changePool : ValuePool) (change : ℕ) : ℕ :=
  if pool = changePool then change else 0

/-- **The expectations** name the selected notes and the change, and their net values are exact. -/
theorem buildExpectations_eq_ok {K : Type} {sel : PoolSelection K} {built : BuiltPools}
    {change : ℕ} {exp : ShieldedExpectations K} (h : buildExpectations sel built change = .ok exp) :
    expectedTotal exp.spends = (sel.spends.map fun s => s.value.toNat).sum ∧
    exp.change.pool = sel.changePool ∧ exp.change.value = .ofNat change ∧
    exp.change.addressBytes = sel.changeAddress ∧
    (expectedTotal exp.spends ≤ NoteStore.maxMoney → ∀ pool,
      exp.net pool = poolTotal exp.spends pool - changeOf pool sel.changePool change) := by
  rw [buildExpectations] at h
  obtain ⟨t, htally, h⟩ := bind_eq_ok h
  obtain ⟨htotal, hexact⟩ := tallySpends_eq_ok htally
  cases hindex : (built.meta sel.changePool).outputIndices[0]? with
  | none =>
      rw [hindex] at h
      cases h
  | some changeActionIndex =>
      rw [hindex] at h
      dsimp only at h
      cases hchange : toI64 change with
      | none =>
          rw [hchange] at h
          cases h
      | some changeI64 =>
          rw [hchange] at h
          obtain rfl := Except.ok.inj h
          obtain ⟨hlt, rfl⟩ := toI64_eq_some hchange
          refine ⟨htotal.trans (Nat.zero_add _), rfl, rfl, rfl, fun hle pool => ?_⟩
          have hexact := hexact (fun _ => rfl) hle
          have hpoolLe := (poolTotal_le t.spends sel.changePool).trans hle
          rw [NoteStore.maxMoney] at hpoolLe
          have hnet : ∀ pool, Function.update t.net sel.changePool
              (saturateI64 (t.net sel.changePool - change)) pool =
                poolTotal t.spends pool - changeOf pool sel.changePool change := by
            intro pool
            rw [changeOf]
            by_cases hpool : pool = sel.changePool
            · subst hpool
              rw [Function.update_self, if_pos rfl, hexact, saturateI64_eq (by omega) (by omega)]
            · rw [Function.update_of_ne hpool, if_neg hpool, hexact, Nat.cast_zero, sub_zero]
          cases pool
          · exact hnet .orchard
          · exact hnet .ironwood

/-! ### What a plan pays for -/

/-- The transparent outputs of a plan. -/
def outputTotal (outputs : List PlanOutput) : ℕ := (outputs.map fun out => out.value.toNat).sum

/-- What is selected is the outputs, the fee and the change, and there is some change. -/
structure PoolPlan.Funded {K : Type} (plan : PoolPlan K) : Prop where
  expected : ∃ built, buildExpectations plan.selection built plan.change = .ok plan.expected
  balanced : plan.selection.selectedValue =
    plan.fee + outputTotal plan.transparentOutputs + plan.change
  change_pos : 0 < plan.change

section Plans

variable {K : Type} {W : PoolBackend K}

/-- The builder has the carriers. -/
theorem assembleBuilder_eq_ok {sel : PoolSelection K} {carriers : List PlanOutput}
    {opReturn : Bytes} {change : UInt64} {builder : PoolBuilder K}
    (h : assembleBuilder sel carriers opReturn change = .ok builder) :
    builder.carriers = carriers := by
  rw [assembleBuilder] at h
  obtain ⟨_, -, h⟩ := bind_eq_ok h
  by_cases hzero : change = 0
  · rw [if_pos hzero] at h
    obtain rfl := Except.ok.inj h
    rfl
  · rw [if_neg hzero] at h
    obtain ⟨value, -, h⟩ := bind_eq_ok h
    obtain rfl := Except.ok.inj h
    rfl

namespace PoolBackend

/-- A round that ends the selection covers what is required and its fee, with change to spare. -/
theorem selectRounds_eq_ok {carriers : List PlanOutput} {opReturn : Bytes}
    {requiredValue rounds required fee : ℕ} {sel : PoolSelection K}
    (h : W.selectRounds carriers opReturn requiredValue rounds required = .ok (sel, fee)) :
    requiredValue + fee < sel.selectedValue := by
  induction rounds generalizing required with
  | zero => cases h
  | succ rounds ih =>
      rw [selectRounds] at h
      obtain ⟨sel', -, h⟩ := bind_eq_ok h
      obtain ⟨builder, -, h⟩ := bind_eq_ok h
      obtain ⟨fee', -, h⟩ := bind_eq_ok h
      cases htotal : checkedAdd requiredValue fee'.toNat with
      | none =>
          rw [htotal] at h
          cases h
      | some totalNeeded =>
          rw [htotal] at h
          dsimp only at h
          by_cases hcovers : sel'.selectedValue > totalNeeded
          · rw [if_pos hcovers] at h
            cases h
            rw [(checkedAdd_eq_some.mp htotal).2]
            exact hcovers
          · rw [if_neg hcovers] at h
            exact ih h

/-- What is selected covers the value, the fee and a change. -/
theorem selectFor_eq_ok {carriers : List PlanOutput} {opReturn : Bytes} {requiredValue fee : ℕ}
    {sel : PoolSelection K} (h : W.selectFor carriers opReturn requiredValue = .ok (sel, fee)) :
    requiredValue + fee < sel.selectedValue := by
  unfold selectFor at h
  generalize checkedAdd requiredValue minimumFee = r, maxSelectIterations = rounds at h
  cases r with
  | none => cases h
  | some required => exact selectRounds_eq_ok h

/-- A plan has what it was asked for, and expects what was built. -/
theorem assembleAndBuild_eq_ok {sel : PoolSelection K} {fee change : ℕ}
    {carriers transparentOutputs : List PlanOutput} {opReturn : Bytes} {plan : PoolPlan K}
    (h : W.assembleAndBuild sel fee carriers opReturn change transparentOutputs = .ok plan) :
    outputTotal carriers ≤ NoteStore.maxMoney ∧ plan.selection = sel ∧ plan.fee = fee ∧
      plan.change = change ∧ plan.transparentOutputs = transparentOutputs ∧
      ∃ built, buildExpectations sel built change = .ok plan.expected := by
  rw [assembleAndBuild] at h
  obtain ⟨builder, hassembled, h⟩ := bind_eq_ok h
  obtain ⟨built, hbuilt, h⟩ := bind_eq_ok h
  obtain ⟨expected, hexpected, h⟩ := bind_eq_ok h
  obtain rfl := Except.ok.inj h
  have hle := W.outputs_le builder built hbuilt
  rw [assembleBuilder_eq_ok hassembled] at hle
  exact ⟨hle, rfl, rfl, rfl, rfl, built, hexpected⟩

/-- **Every plan is funded.** -/
theorem Plans.funded {plan : PoolPlan K} (h : W.Plans plan) : plan.Funded := by
  cases h with
  | @call opReturn _ h =>
      rw [planCall] at h
      obtain ⟨⟨sel, fee⟩, hselected, h⟩ := bind_eq_ok h
      have hcovers := selectFor_eq_ok hselected
      obtain ⟨-, hsel, hfee, hchange, houtputs, built, hexpected⟩ := assembleAndBuild_eq_ok h
      have hzero : outputTotal [⟨0, opReturnScript opReturn⟩] = 0 := rfl
      refine ⟨⟨built, by rw [hsel, hchange]; exact hexpected⟩, ?_, ?_⟩
      · rw [hsel, hfee, hchange, houtputs, hzero]
        omega
      · rw [hchange]
        omega
  | @prepare carrierScript carrierValues _ h =>
      rw [planPrepare] at h
      by_cases hempty : carrierValues = []
      · rw [if_pos hempty] at h
        cases h
      rw [if_neg hempty] at h
      obtain ⟨⟨sel, fee⟩, hselected, h⟩ := bind_eq_ok h
      have hcovers := selectFor_eq_ok hselected
      dsimp only at h
      rw [if_neg (by omega)] at h
      obtain ⟨hle, hsel, hfee, hchange, houtputs, built, hexpected⟩ := assembleAndBuild_eq_ok h
      have htotal : outputTotal (carrierValues.map fun v => ⟨v, carrierScript⟩) =
          (carrierValues.map UInt64.toNat).sum := by
        rw [outputTotal, List.map_map]
        rfl
      -- the builder has added up the carriers, so that their sum does not wrap
      rw [htotal, NoteStore.maxMoney] at hle
      have hmod : (carrierValues.map UInt64.toNat).sum % 2 ^ 64 =
          (carrierValues.map UInt64.toNat).sum := by omega
      rw [hmod] at hcovers hchange hexpected
      refine ⟨⟨built, by rw [hsel, hchange]; exact hexpected⟩, ?_, ?_⟩
      · rw [hsel, hfee, hchange, houtputs, htotal]
        omega
      · rw [hchange]
        omega

end PoolBackend

end Plans

/-! ### What accepted bundles move -/

/-- Every index below `n` finds the element of that key, if there is one, so that all of them find
every element once. -/
theorem sum_find? {α : Type} (key value : α → ℕ) {n : ℕ} {xs : List α}
    (hnodup : (xs.map key).Nodup) (hlt : ∀ x ∈ xs, key x < n) :
    ∑ i ∈ Finset.range n, (xs.find? fun x => key x = i).elim 0 value = (xs.map value).sum := by
  induction xs with
  | nil => exact Finset.sum_eq_zero fun _ _ => rfl
  | cons x xs ih =>
      rw [List.map_cons, List.nodup_cons] at hnodup
      obtain ⟨hnew, hnodup⟩ := hnodup
      have hsplit : ∀ i, ((x :: xs).find? fun x => key x = i).elim 0 value =
          (if key x = i then value x else 0) + (xs.find? fun x => key x = i).elim 0 value := by
        intro i
        by_cases hi : key x = i
        · have hnone : (xs.find? fun x => key x = i) = none := by
            refine List.find?_eq_none.mpr fun y hy hkey => hnew ?_
            rw [hi, ← of_decide_eq_true hkey]
            exact List.mem_map_of_mem hy
          rw [List.find?_cons, decide_eq_true hi, hnone, if_pos hi]
          rfl
        · rw [List.find?_cons, decide_eq_false hi, if_neg hi, Nat.zero_add]
      have hhead : ∑ i ∈ Finset.range n, (if key x = i then value x else 0) = value x := by
        rw [Finset.sum_ite_eq, if_pos (Finset.mem_range.mpr (hlt x List.mem_cons_self))]
      rw [Finset.sum_congr rfl fun i _ => hsplit i, Finset.sum_add_distrib, hhead,
        ih hnodup fun y hy => hlt y (List.mem_cons_of_mem x hy), List.map_cons, List.sum_cons]

/-- A sum over the actions, read off their indices. -/
theorem sum_actions {actions : List PcztAction} {f : PcztAction → ℕ} {g : ℕ → ℕ}
    (h : ∀ idx action, actions[idx]? = some action → f action = g idx) :
    (actions.map f).sum = ∑ i ∈ Finset.range actions.length, g i := by
  have hmap : actions.map f = (List.range actions.length).map g := by
    refine List.ext_getElem (by simp) fun i hi _ => ?_
    rw [List.getElem_map, List.getElem_map, List.getElem_range]
    rw [List.length_map] at hi
    exact h i _ (List.getElem?_eq_getElem hi)
  rw [hmap]
  rfl

/-- What the spends of the actions are worth. -/
def spentBy (actions : List PcztAction) : ℕ :=
  (actions.map fun a => (a.spend.value.getD 0).toNat).sum

/-- What the outputs of the actions are worth. -/
def paidBy (actions : List PcztAction) : ℕ :=
  (actions.map fun a => (a.output.value.getD 0).toNat).sum

/-- What a bundle takes out of its pool. One without actions is not in the transaction. -/
def PcztBundle.balance (bundle : PcztBundle) : ℤ :=
  if bundle.actions = [] then 0 else bundle.valueSum

/-- The planned spends of a pool are at different actions of its bundle. -/
def ShieldedExpectations.Indexed {K : Type} (exp : ShieldedExpectations K) : Prop :=
  ∀ pool, ((exp.poolSpends pool).map fun s => s.actionIndex).Nodup ∧
    ∀ s ∈ exp.poolSpends pool, s.actionIndex < exp.actions pool

/-- Planned spends of different actions are found at their own. -/
theorem find?_planned {spends : List ExpectedSpend} {s : ExpectedSpend}
    (hnodup : (spends.map fun s => s.actionIndex).Nodup) (hs : s ∈ spends) :
    (spends.find? fun x => x.actionIndex = s.actionIndex) = some s := by
  induction spends with
  | nil => cases hs
  | cons x spends ih =>
      rw [List.map_cons, List.nodup_cons] at hnodup
      rw [List.find?_cons]
      rcases List.mem_cons.mp hs with rfl | hmem
      · rw [decide_eq_true rfl]
      · have hne : x.actionIndex ≠ s.actionIndex := fun heq => hnodup.1 (by
          rw [heq]
          exact List.mem_map_of_mem hmem)
        rw [decide_eq_false hne]
        exact ih hnodup.2 hmem

section Sound

variable {K : Type} {exp : ShieldedExpectations K} {pool : ValuePool} {bundle : PcztBundle}

/-- The actions spend what was planned. -/
theorem BundleMatches.spentBy_eq (h : BundleMatches exp pool bundle) (hindexed : exp.Indexed) :
    spentBy bundle.actions = poolTotal exp.spends pool := by
  obtain ⟨hnodup, hlt⟩ := hindexed pool
  have hvalue : ∀ idx action, bundle.actions[idx]? = some action →
      (action.spend.value.getD 0).toNat =
        ((exp.poolSpends pool).find? fun s => s.actionIndex = idx).elim 0
          fun s => s.value.toNat := by
    intro idx action haction
    have hmatches := h.action idx action haction
    cases hfind : (exp.poolSpends pool).find? fun s => s.actionIndex = idx with
    | none =>
        rw [hmatches.dummy hfind]
        rfl
    | some s =>
        rw [(hmatches.planned s hfind).2]
        rfl
  rw [spentBy, sum_actions hvalue, h.length, sum_find? _ _ hnodup hlt]
  rfl

/-- The actions pay the planned change. -/
theorem BundleMatches.paidBy_eq (h : BundleMatches exp pool bundle)
    (hchange : exp.change.actionIndex < exp.actions exp.change.pool) :
    paidBy bundle.actions = changeOf pool exp.change.pool exp.change.value.toNat := by
  have hvalue : ∀ idx action, bundle.actions[idx]? = some action →
      (action.output.value.getD 0).toNat = if exp.change.actionIndex = idx then
        changeOf pool exp.change.pool exp.change.value.toNat else 0 := by
    intro idx action haction
    have hmatches := h.action idx action haction
    cases hhere : exp.isChange pool idx with
    | true =>
        obtain ⟨hpool, hidx⟩ := Bool.and_eq_true_iff.mp hhere
        rw [(hmatches.change hhere).2, if_pos (of_decide_eq_true hidx), changeOf,
          if_pos (of_decide_eq_true hpool).symm]
        rfl
    | false =>
        rw [hmatches.empty hhere, changeOf]
        by_cases hidx : exp.change.actionIndex = idx
        · rw [if_pos hidx, if_neg]
          · rfl
          · rintro rfl
            simp [ShieldedExpectations.isChange, hidx] at hhere
        · rw [if_neg hidx]
          rfl
  rw [paidBy, sum_actions hvalue, h.length, Finset.sum_ite_eq]
  by_cases hmem : exp.change.actionIndex ∈ Finset.range (exp.actions pool)
  · rw [if_pos hmem]
  · rw [if_neg hmem, changeOf, if_neg]
    rintro rfl
    exact hmem (Finset.mem_range.mpr hchange)

/-- A planned spend is at its action. -/
theorem BundleMatches.exists_spend (h : BundleMatches exp pool bundle) (hindexed : exp.Indexed)
    {s : ExpectedSpend} (hs : s ∈ exp.poolSpends pool) :
    ∃ action, bundle.actions[s.actionIndex]? = some action ∧
      action.spend = ⟨s.nullifier, some s.value⟩ := by
  obtain ⟨hnodup, hlt⟩ := hindexed pool
  have hidx : s.actionIndex < bundle.actions.length := by
    rw [h.length]
    exact hlt s hs
  have haction := List.getElem?_eq_getElem hidx
  obtain ⟨hnullifier, hvalue⟩ := (h.action _ _ haction).planned s (find?_planned hnodup hs)
  exact ⟨_, haction, PcztSpend.ext hnullifier hvalue⟩

/-- What an action spends is planned. -/
theorem BundleMatches.exists_planned (h : BundleMatches exp pool bundle) {idx : ℕ}
    {action : PcztAction} (haction : bundle.actions[idx]? = some action)
    (hvalue : action.spend.value ≠ some 0) : ∃ s ∈ exp.poolSpends pool, s.actionIndex = idx ∧
      action.spend = ⟨s.nullifier, some s.value⟩ := by
  have hmatch := h.action idx action haction
  cases hfind : (exp.poolSpends pool).find? fun s => s.actionIndex = idx with
  | none => exact absurd (hmatch.dummy hfind) hvalue
  | some s =>
      have hidx := List.find?_some hfind
      obtain ⟨hnullifier, hvalue⟩ := hmatch.planned s hfind
      exact ⟨s, List.mem_of_find?_eq_some hfind, of_decide_eq_true hidx,
        PcztSpend.ext hnullifier hvalue⟩

/-- The change is at its action. -/
theorem BundleMatches.exists_change (h : BundleMatches exp exp.change.pool bundle)
    (hchange : exp.change.actionIndex < exp.actions exp.change.pool) : ∃ action,
      bundle.actions[exp.change.actionIndex]? = some action ∧
        action.output.recipient = some exp.change.addressBytes ∧
        action.output.value = some exp.change.value := by
  have hidx : exp.change.actionIndex < bundle.actions.length := by
    rw [h.length]
    exact hchange
  have haction := List.getElem?_eq_getElem hidx
  have hhere : exp.isChange exp.change.pool exp.change.actionIndex = true := by
    simp [ShieldedExpectations.isChange]
  exact ⟨_, haction, (h.action _ _ haction).change hhere⟩

/-- No action pays anything but the change. -/
theorem BundleMatches.eq_change (h : BundleMatches exp pool bundle) {idx : ℕ}
    {action : PcztAction} (haction : bundle.actions[idx]? = some action)
    (hvalue : action.output.value ≠ some 0) :
    exp.change.pool = pool ∧ exp.change.actionIndex = idx := by
  cases hhere : exp.isChange pool idx with
  | true =>
      obtain ⟨hpool, hidx⟩ := Bool.and_eq_true_iff.mp hhere
      exact ⟨of_decide_eq_true hpool, of_decide_eq_true hidx⟩
  | false => exact absurd ((h.action idx action haction).empty hhere) hvalue

end Sound

/-! ### Two accepted bundles -/

/-- The bundles of a transaction. -/
def pools (orchard ironwood : PcztBundle) : ValuePool → PcztBundle
  | .orchard => orchard
  | .ironwood => ironwood

/-- The bundles move what was planned and nothing else, in exact arithmetic. -/
structure MovesPlanned {K : Type} (plan : PoolPlan K) (bundle : ValuePool → PcztBundle) :
    Prop where
  spent : ∀ s ∈ plan.expected.spends, ∃ action,
    (bundle s.pool).actions[s.actionIndex]? = some action ∧
    action.spend = ⟨s.nullifier, some s.value⟩
  onlySpent : ∀ pool idx action, (bundle pool).actions[idx]? = some action →
    action.spend.value ≠ some 0 → ∃ s ∈ plan.expected.spends, s.pool = pool ∧
      s.actionIndex = idx ∧ action.spend = ⟨s.nullifier, some s.value⟩
  change : ∃ action value,
    (bundle plan.selection.changePool).actions[plan.expected.change.actionIndex]? = some action ∧
    action.output.recipient = some plan.selection.changeAddress ∧
    action.output.value = some value ∧ value.toNat = plan.change ∧ 0 < plan.change
  onlyChange : ∀ pool idx action, (bundle pool).actions[idx]? = some action →
    action.output.value ≠ some 0 →
      pool = plan.selection.changePool ∧ idx = plan.expected.change.actionIndex
  balance : ∀ pool, (bundle pool).balance = plan.expected.net pool ∧
    plan.expected.net pool =
      (spentBy (bundle pool).actions : ℤ) - (paidBy (bundle pool).actions : ℤ)
  total : (bundle .orchard).balance + (bundle .ironwood).balance =
    (plan.fee + outputTotal plan.transparentOutputs : ℕ)

section Accepted

variable {K : Type} {W : PoolBackend K} {C : NoteCrypto K} {plan : PoolPlan K}
  {orchard ironwood : PcztBundle} {cmx : Bytes32}

/-- A plan whose notes are worth no more than the supply adds up its change without wrapping. -/
theorem PoolPlan.Funded.selected_eq (h : plan.Funded)
    (hmoney : expectedTotal plan.expected.spends ≤ NoteStore.maxMoney) :
    expectedTotal plan.expected.spends =
      plan.fee + outputTotal plan.transparentOutputs + plan.change := by
  obtain ⟨built, hexpected⟩ := h.expected
  have htotal := (buildExpectations_eq_ok hexpected).1
  have hbalanced := h.balanced
  rw [PoolSelection.selectedValue, ← htotal] at hbalanced
  rw [NoteStore.maxMoney] at hmoney
  omega

/-- **Two accepted bundles with a change** move what was planned and nothing else. -/
theorem verifyBundles_sound (hplan : W.Plans plan) (hindexed : plan.expected.Indexed)
    (hmoney : expectedTotal plan.expected.spends ≤ NoteStore.maxMoney)
    (hok : verifyBundles C plan.expected orchard ironwood = .ok cmx) :
    MovesPlanned plan (pools orchard ironwood) := by
  have hfunded := hplan.funded
  have htotal := hfunded.selected_eq hmoney
  obtain ⟨built, hexpected⟩ := hfunded.expected
  obtain ⟨-, hchangePool, hchangeValue, hchangeAddress, hnet⟩ := buildExpectations_eq_ok hexpected
  have hnet := hnet hmoney
  obtain ⟨horchard, hironwood, hchangeLt⟩ := verifyBundles_eq_ok hok
  have hmatches : ∀ pool, BundleMatches plan.expected pool (pools orchard ironwood pool) := by
    rintro (_ | _)
    · exact horchard
    · exact hironwood
  have hfits : (UInt64.ofNat plan.change).toNat = plan.change := by
    rw [NoteStore.maxMoney] at hmoney
    have hlt : plan.change < 2 ^ 64 := by omega
    exact UInt64.toNat_ofNat_of_lt hlt
  have hmoved : ∀ pool, plan.expected.net pool =
      (spentBy (pools orchard ironwood pool).actions : ℤ) -
        (paidBy (pools orchard ironwood pool).actions : ℤ) := by
    intro pool
    rw [(hmatches pool).spentBy_eq hindexed, (hmatches pool).paidBy_eq hchangeLt, hnet,
      hchangePool, hchangeValue, hfits]
  have hbalance : ∀ pool,
      (pools orchard ironwood pool).balance = plan.expected.net pool := by
    intro pool
    rw [PcztBundle.balance]
    by_cases hnil : (pools orchard ironwood pool).actions = []
    · rw [if_pos hnil, hmoved pool, hnil]
      rfl
    · rw [if_neg hnil]
      exact (hmatches pool).valueSum hnil
  refine ⟨fun s hs => ?_, fun pool idx action haction hvalue => ?_, ?_,
    fun pool idx action haction hvalue => ?_, fun pool => ⟨hbalance pool, hmoved pool⟩, ?_⟩
  · exact (hmatches s.pool).exists_spend hindexed (List.mem_filter.mpr ⟨hs, decide_eq_true rfl⟩)
  · obtain ⟨s, hs, hidx, hspend⟩ := (hmatches pool).exists_planned haction hvalue
    obtain ⟨hs, hpool⟩ := List.mem_filter.mp hs
    exact ⟨s, hs, of_decide_eq_true hpool, hidx, hspend⟩
  · obtain ⟨action, haction, hrecipient, hvalue⟩ := (hmatches _).exists_change hchangeLt
    rw [hchangePool] at haction
    rw [hchangeAddress] at hrecipient
    rw [hchangeValue] at hvalue
    exact ⟨action, _, haction, hrecipient, hvalue, hfits, hfunded.change_pos⟩
  · obtain ⟨hpool, hidx⟩ := (hmatches pool).eq_change haction hvalue
    exact ⟨hpool.symm.trans hchangePool, hidx.symm⟩
  · -- the two pools together hold what was selected, and the change stays in one of them
    have hchange : changeOf .orchard plan.selection.changePool plan.change +
        changeOf .ironwood plan.selection.changePool plan.change = plan.change := by
      cases plan.selection.changePool <;> simp [changeOf]
    have hsum := poolTotal_add plan.expected.spends
    rw [hbalance, hbalance, hnet, hnet]
    omega

end Accepted

/-! ### The finished transaction -/

/-- The finished transaction, as far as it is compared with the plan. -/
structure FinalizedPczt where
  expiryHeight : UInt32
  consensusBranchId : UInt32
  transparentInputs : List OutPoint
  transparentOutputs : List PlanOutput
  orchard : PcztBundle
  ironwood : PcztBundle
  deriving DecidableEq

/-- Compare the transparent outputs with the planned ones, from output `i` on. -/
def verifyTransparent : ℕ → List PlanOutput → List PlanOutput → Except String Unit
  | i, out :: outs, planned :: rest =>
      if out.value ≠ planned.value then
        .error ("pczt transparent output " ++ toString i ++ " value mismatch")
      else if out.script ≠ planned.script then
        .error ("pczt transparent output " ++ toString i ++ " script mismatch")
      else verifyTransparent (i + 1) outs rest
  | _, _, _ => .ok ()

/-- Compare the finished transaction with the plan. -/
def verifyFinalizedPczt {K : Type} (C : NoteCrypto K) (plan : PoolPlan K) (branchId : UInt32)
    (pczt : FinalizedPczt) : Except String Bytes32 :=
  if pczt.expiryHeight ≠ plan.expiryHeight then
    .error ("pczt expiry mismatch: got " ++ toString pczt.expiryHeight ++ ", expected " ++
      toString plan.expiryHeight)
  else if pczt.consensusBranchId ≠ branchId then .error "pczt consensus branch mismatch"
  else if pczt.transparentInputs ≠ [] then
    .error ("shielded pczt has " ++ toString pczt.transparentInputs.length ++
      " transparent input(s)")
  else if pczt.transparentOutputs.length ≠ plan.transparentOutputs.length then
    .error ("pczt transparent output count mismatch: " ++
      toString pczt.transparentOutputs.length ++ " vs " ++ toString plan.transparentOutputs.length)
  else do
    verifyTransparent 0 pczt.transparentOutputs plan.transparentOutputs
    verifyBundles C plan.expected pczt.orchard pczt.ironwood

/-- Outputs that pass are the planned ones. -/
theorem verifyTransparent_eq_ok {i : ℕ} {outs planned : List PlanOutput}
    (hlength : outs.length = planned.length) (h : verifyTransparent i outs planned = .ok ()) :
    outs = planned := by
  induction outs generalizing i planned with
  | nil => exact (List.eq_nil_of_length_eq_zero hlength.symm).symm
  | cons out outs ih =>
      cases planned with
      | nil => cases hlength
      | cons p planned =>
          rw [verifyTransparent] at h
          split_ifs at h with hvalue hscript
          have hhead : out = p := by
            cases out
            cases p
            exact congrArg₂ PlanOutput.mk (not_not.mp hvalue) (not_not.mp hscript)
          rw [hhead, ih (Nat.succ.inj hlength) h]

/-- A transaction that is accepted pays exactly the planned transparent outputs, from no
transparent input, and its bundles are accepted. -/
theorem verifyFinalizedPczt_eq_ok {K : Type} {C : NoteCrypto K} {plan : PoolPlan K}
    {branchId : UInt32} {pczt : FinalizedPczt} {cmx : Bytes32}
    (h : verifyFinalizedPczt C plan branchId pczt = .ok cmx) :
    pczt.transparentInputs = [] ∧ pczt.transparentOutputs = plan.transparentOutputs ∧
      verifyBundles C plan.expected pczt.orchard pczt.ironwood = .ok cmx := by
  rw [verifyFinalizedPczt] at h
  by_cases hexpiry : pczt.expiryHeight ≠ plan.expiryHeight
  · rw [if_pos hexpiry] at h
    cases h
  rw [if_neg hexpiry] at h
  by_cases hbranch : pczt.consensusBranchId ≠ branchId
  · rw [if_pos hbranch] at h
    cases h
  rw [if_neg hbranch] at h
  by_cases hinputs : pczt.transparentInputs ≠ []
  · rw [if_pos hinputs] at h
    cases h
  rw [if_neg hinputs] at h
  by_cases hlength : pczt.transparentOutputs.length ≠ plan.transparentOutputs.length
  · rw [if_pos hlength] at h
    cases h
  rw [if_neg hlength] at h
  obtain ⟨_, houtputs, hbundles⟩ := bind_eq_ok h
  exact ⟨not_not.mp hinputs, verifyTransparent_eq_ok (not_not.mp hlength) houtputs, hbundles⟩

/-! ### A call that spends one note -/

/-- One Orchard note, with the change to Ironwood. -/
def oneNoteSelection : PoolSelection Unit :=
  ⟨[⟨.orchard, .replicate 7, 50000⟩], [1, 2], (), .ironwood, some (.replicate 1),
    some (.replicate 2)⟩

/-- Each pool has two actions. -/
def oneNoteBuilt : BuiltPools := ⟨⟨[1], []⟩, ⟨[], [0]⟩, 2, 2, 140⟩

/-- A builder that refuses outputs of more than the supply. -/
def oneNoteBackend : PoolBackend Unit where
  selectSpends _ _ := .ok oneNoteSelection
  getFee _ := .ok 20000
  buildForPczt builder :=
    if (builder.carriers.map fun out => out.value.toNat).sum ≤ NoteStore.maxMoney then
      .ok oneNoteBuilt
    else .error "Balance"
  outputs_le builder built h := by
    split_ifs at h with hle
    exact hle

/-- Notes whose ciphertext is opened with any key. -/
def openNotes : NoteCrypto Unit where
  verifyNoteCommitment _ := .ok ()
  tryNoteDecryption _ _ action :=
    match action.output.value, action.output.recipient with
    | some value, some recipient => some (value, recipient)
    | _, _ => none

/-- A spend of nothing. -/
def dummySpend : PcztSpend := ⟨.replicate 3, some 0⟩

/-- An output of nothing. -/
def dummyOutput : PcztOutput := ⟨none, some 0, .replicate 4, []⟩

/-- A bundle that spends one note. -/
def oneNoteOrchard : PcztBundle :=
  ⟨.orchard, .replicate 1,
    [⟨dummySpend, dummyOutput⟩, ⟨⟨.replicate 7, some 50000⟩, dummyOutput⟩], 50000, .positive⟩

/-- A bundle that pays the change. -/
def oneNoteIronwood : PcztBundle :=
  ⟨.ironwood, .replicate 2,
    [⟨dummySpend, ⟨some [1, 2], some 30000, .replicate 5, []⟩⟩, ⟨dummySpend, dummyOutput⟩],
    30000, .negative⟩

/-- The plan of a call that pays a fee of 20000. -/
def oneNotePlan : PoolPlan Unit :=
  ⟨oneNoteSelection, 20000, 30000, [⟨0, opReturnScript [9]⟩], 140,
    ⟨[⟨.orchard, 1, .replicate 7, 50000⟩], ⟨.ironwood, 0, 30000, [1, 2], ()⟩, 2, 2,
      some (.replicate 1), some (.replicate 2), 50000, -30000⟩⟩

/-- Both bundles, checked. -/
theorem verifyBundles_sound_oneNote :
    MovesPlanned oneNotePlan (pools oneNoteOrchard oneNoteIronwood) := by
  have hplan : oneNoteBackend.Plans oneNotePlan :=
    .call (show oneNoteBackend.planCall [9] = .ok oneNotePlan from rfl)
  have hindexed : oneNotePlan.expected.Indexed := by
    rintro (_ | _)
    · decide
    · decide
  have hok : verifyBundles openNotes oneNotePlan.expected oneNoteOrchard oneNoteIronwood =
      .ok (.replicate 5) := rfl
  exact verifyBundles_sound hplan hindexed (by decide) hok

end Zalkanes
