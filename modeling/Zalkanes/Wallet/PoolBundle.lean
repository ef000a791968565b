import Zalkanes.Wallet.NoteStore

/-!
# Pool Bundles

How the two pools' bundles of a finished transaction are compared with what a shielded plan expects
of them (`verifyBundles`). The note commitments and the trial decryption are left open
(`NoteCrypto`).

## Main results

* `verifyActions_eq_ok`: what each action of an accepted bundle is known to hold.
* `verifyPoolBundle_eq_ok`, `verifyBundles_eq_ok`: accepted bundles match the plan.
-/

namespace Zalkanes

open Lib

/-- One planned shielded spend. -/
structure ExpectedSpend where
  pool : ValuePool
  actionIndex : ℕ
  nullifier : Bytes32
  value : UInt64
  deriving DecidableEq

/-- The planned shielded change output. -/
structure ExpectedChange (K : Type) where
  pool : ValuePool
  actionIndex : ℕ
  value : UInt64
  /-- The raw receiver bytes of the change address. -/
  addressBytes : Bytes
  /-- The viewing key that the change is decrypted with. -/
  ivk : K

/-- Everything the plan expects of the finished transaction. -/
structure ShieldedExpectations (K : Type) where
  spends : List ExpectedSpend
  change : ExpectedChange K
  actionsOrchard : ℕ
  actionsIronwood : ℕ
  anchorOrchard : Option Bytes32
  anchorIronwood : Option Bytes32
  /-- The expected net values, as an `i64` each. -/
  netOrchard : ℤ
  netIronwood : ℤ

namespace ShieldedExpectations

variable {K : Type} (exp : ShieldedExpectations K)

/-- How many actions a pool has. -/
def actions : ValuePool → ℕ
  | .orchard => exp.actionsOrchard
  | .ironwood => exp.actionsIronwood

/-- The anchor of a pool. -/
def anchor : ValuePool → Option Bytes32
  | .orchard => exp.anchorOrchard
  | .ironwood => exp.anchorIronwood

/-- What leaves a pool. -/
def net : ValuePool → ℤ
  | .orchard => exp.netOrchard
  | .ironwood => exp.netIronwood

/-- The notes of a pool. -/
def poolSpends (pool : ValuePool) : List ExpectedSpend := exp.spends.filter fun s => s.pool = pool

/-- Whether the planned change is at this action. -/
def isChange (pool : ValuePool) (idx : ℕ) : Bool :=
  exp.change.pool = pool && exp.change.actionIndex = idx

end ShieldedExpectations

/-! ### Bundles -/

/-- The spend of an action. -/
@[ext] structure PcztSpend where
  nullifier : Bytes32
  value : Option UInt64
  deriving DecidableEq

/-- The output of an action. -/
structure PcztOutput where
  recipient : Option Bytes
  value : Option UInt64
  cmx : Bytes32
  /-- The encrypted note. -/
  ciphertext : Bytes
  deriving DecidableEq

/-- A spend and an output. -/
structure PcztAction where
  spend : PcztSpend
  output : PcztOutput
  deriving DecidableEq

/-- The sign of a value sum. -/
inductive ValueSign where
  | positive
  | negative
  deriving DecidableEq

/-- One pool's bundle of the finished transaction. -/
structure PcztBundle where
  valuePool : ValuePool
  anchor : Bytes32
  actions : List PcztAction
  /-- The declared value sum: its magnitude and its sign. -/
  magnitude : UInt64
  sign : ValueSign
  deriving DecidableEq

/-- What leaves the pool of a bundle. -/
def PcztBundle.valueSum (bundle : PcztBundle) : ℤ :=
  match bundle.sign with
  | .positive => bundle.magnitude.toNat
  | .negative => -bundle.magnitude.toNat

/-- The note cryptography, with viewing keys of type `K`. -/
structure NoteCrypto (K : Type) where
  /-- Check that the commitment of the action's output is to its plaintext note. -/
  verifyNoteCommitment : PcztAction → Except String Unit
  /-- Decrypt the action's output: the note's value, and its address. -/
  tryNoteDecryption : ValuePool → K → PcztAction → Option (UInt64 × Bytes)

/-- The pool's name in an error. -/
def ValuePool.debug : ValuePool → String
  | .orchard => "Orchard"
  | .ironwood => "Ironwood"

/-- The text of an error at an action. -/
def ValuePool.atAction (pool : ValuePool) (what : String) (idx : ℕ) : String :=
  pool.debug ++ " " ++ what ++ " at action " ++ toString idx

section Verify

variable {K : Type} (C : NoteCrypto K) (exp : ShieldedExpectations K) (pool : ValuePool)

/-- The spend of an action is the planned one, or a dummy of value 0. -/
def verifySpend (idx : ℕ) (spend : PcztSpend) : Except String Unit :=
  match (exp.poolSpends pool).find? fun s => s.actionIndex = idx with
  | some expected =>
      if spend.nullifier ≠ expected.nullifier then
        .error (pool.atAction "spend nullifier mismatch" idx)
      else
        match spend.value with
        | none => .error (pool.atAction "spend value missing" idx)
        | some value =>
            if value ≠ expected.value then .error (pool.atAction "spend value mismatch" idx)
            else .ok ()
  | none =>
      match spend.value with
      | none => .error (pool.atAction "dummy spend value missing" idx)
      | some value =>
          if value ≠ 0 then .error (pool.atAction "extra shielded spend" idx) else .ok ()

/-- The note that a change output encrypts and commits to. -/
def verifyChangeNote (action : PcztAction) : Except String Bytes32 :=
  match C.verifyNoteCommitment action with
  | .error e => .error (pool.debug ++ " change note commitment invalid: " ++ e)
  | .ok () =>
      match C.tryNoteDecryption pool exp.change.ivk action with
      | none => .error (pool.debug ++ " change ciphertext does not decrypt to us")
      | some (noteValue, addr) =>
          if noteValue ≠ exp.change.value ∨ addr ≠ exp.change.addressBytes then
            .error (pool.debug ++ " decrypted change note mismatch")
          else .ok action.output.cmx

/-- The planned change output, with its commitment. -/
def verifyChange (idx : ℕ) (action : PcztAction) : Except String Bytes32 :=
  match action.output.recipient with
  | none => .error (pool.atAction "change recipient missing" idx)
  | some recipient =>
      if recipient ≠ exp.change.addressBytes then
        .error (pool.debug ++ " change destination mismatch")
      else
        match action.output.value with
        | none => .error (pool.atAction "change value missing" idx)
        | some value =>
            if value ≠ exp.change.value then .error (pool.debug ++ " change value mismatch")
            else verifyChangeNote C exp pool action

/-- The output of an action is the planned change, or of value 0. -/
def verifyOutput (idx : ℕ) (action : PcztAction) (changeCmx : Option Bytes32) :
    Except String (Option Bytes32) :=
  if exp.isChange pool idx then (verifyChange C exp pool idx action).map some
  else
    match action.output.value with
    | none => .error (pool.atAction "output value missing" idx)
    | some value =>
        if value ≠ 0 then .error (pool.atAction "unplanned value-bearing output" idx)
        else .ok changeCmx

/-- The actions, in order, from action `idx` on. -/
def verifyActions : ℕ → List PcztAction → Option Bytes32 → Except String (Option Bytes32)
  | _, [], changeCmx => .ok changeCmx
  | idx, action :: actions, changeCmx => do
      verifySpend exp pool idx action.spend
      let changeCmx ← verifyOutput C exp pool idx action changeCmx
      verifyActions (idx + 1) actions changeCmx

/-- Verify one pool's bundle against the plan. -/
def verifyPoolBundle (bundle : PcztBundle) (changeCmx : Option Bytes32) :
    Except String (Option Bytes32) :=
  if bundle.actions.length ≠ exp.actions pool then
    .error (pool.debug ++ " action count mismatch: " ++ toString bundle.actions.length ++ " vs " ++
      toString (exp.actions pool))
  else if exp.actions pool = 0 then .ok changeCmx
  else if bundle.valuePool ≠ pool then .error (pool.debug ++ " bundle carries wrong value pool")
  else
    match exp.anchor pool with
    | none => .error (pool.debug ++ " bundle present but no planned anchor")
    | some expectedAnchor =>
        if bundle.anchor ≠ expectedAnchor then .error (pool.debug ++ " anchor mismatch")
        else do
          let changeCmx ← verifyActions C exp pool 0 bundle.actions changeCmx
          if bundle.valueSum ≠ exp.net pool then
            throw (pool.debug ++ " value balance mismatch: " ++ toString bundle.valueSum ++
              " vs " ++ toString (exp.net pool))
          else return changeCmx

/-- An error of `verify_pool_bundle`, as the verifier reports it. -/
def bundleFailed (bundle e : String) : String :=
  bundle ++ " bundle verification failed: Custom(\"" ++ e ++ "\")"

/-- The bundles of both pools, and the commitment of the change. -/
def verifyBundles (orchard ironwood : PcztBundle) : Except String Bytes32 := do
  let changeCmx ← (verifyPoolBundle C exp .orchard orchard none).mapError (bundleFailed "orchard")
  let changeCmx ←
    (verifyPoolBundle C exp .ironwood ironwood changeCmx).mapError (bundleFailed "ironwood")
  match changeCmx with
  | none => throw "planned change output not found in pczt"
  | some cmx => return cmx

end Verify

/-! ### What was compared -/

section Accepted

variable {K : Type} {C : NoteCrypto K} {exp : ShieldedExpectations K} {pool : ValuePool}
  {idx : ℕ} {action : PcztAction} {changeCmx changeCmx' : Option Bytes32}

/-- An action that was compared with the plan. -/
structure ActionMatches (exp : ShieldedExpectations K) (pool : ValuePool) (idx : ℕ)
    (action : PcztAction) : Prop where
  planned : ∀ s, ((exp.poolSpends pool).find? fun s => s.actionIndex = idx) = some s →
    action.spend.nullifier = s.nullifier ∧ action.spend.value = some s.value
  dummy : ((exp.poolSpends pool).find? fun s => s.actionIndex = idx) = none →
    action.spend.value = some 0
  change : exp.isChange pool idx = true →
    action.output.recipient = some exp.change.addressBytes ∧
      action.output.value = some exp.change.value
  empty : exp.isChange pool idx = false → action.output.value = some 0

/-- A spend that passes is the planned one, or worth nothing. -/
theorem verifySpend_eq_ok {spend : PcztSpend} (h : verifySpend exp pool idx spend = .ok ()) :
    (∀ s, ((exp.poolSpends pool).find? fun s => s.actionIndex = idx) = some s →
      spend.nullifier = s.nullifier ∧ spend.value = some s.value) ∧
    (((exp.poolSpends pool).find? fun s => s.actionIndex = idx) = none → spend.value = some 0) := by
  rw [verifySpend] at h
  cases hfind : (exp.poolSpends pool).find? fun s => s.actionIndex = idx with
  | some expected =>
      rw [hfind] at h
      dsimp only at h
      split_ifs at h with hnullifier
      cases hvalue : spend.value with
      | none =>
          rw [hvalue] at h
          cases h
      | some value =>
          rw [hvalue] at h
          dsimp only at h
          split_ifs at h with hne
          refine ⟨fun s hs => ?_, fun hnone => by cases hnone⟩
          obtain rfl := Option.some.inj hs
          exact ⟨not_not.mp hnullifier, congrArg some (not_not.mp hne)⟩
  | none =>
      rw [hfind] at h
      dsimp only at h
      cases hvalue : spend.value with
      | none =>
          rw [hvalue] at h
          cases h
      | some value =>
          rw [hvalue] at h
          dsimp only at h
          split_ifs at h with hne
          exact ⟨fun s hs => (nomatch hs), fun _ => congrArg some (not_not.mp hne)⟩

/-- A change that passes is worth what was planned, to the planned address. -/
theorem verifyChange_eq_ok {cmx : Bytes32} (h : verifyChange C exp pool idx action = .ok cmx) :
    action.output.recipient = some exp.change.addressBytes ∧
      action.output.value = some exp.change.value := by
  rw [verifyChange] at h
  cases hrecipient : action.output.recipient with
  | none =>
      rw [hrecipient] at h
      cases h
  | some recipient =>
      rw [hrecipient] at h
      dsimp only at h
      by_cases hne : recipient ≠ exp.change.addressBytes
      · rw [if_pos hne] at h
        cases h
      rw [if_neg hne] at h
      cases hvalue : action.output.value with
      | none =>
          rw [hvalue] at h
          cases h
      | some value =>
          rw [hvalue] at h
          dsimp only at h
          by_cases hne' : value ≠ exp.change.value
          · rw [if_pos hne'] at h
            cases h
          · exact ⟨congrArg some (not_not.mp hne), congrArg some (not_not.mp hne')⟩

/-- An output that passes is the change, or worth nothing. -/
theorem verifyOutput_eq_ok (h : verifyOutput C exp pool idx action changeCmx = .ok changeCmx') :
    (exp.isChange pool idx = true → action.output.recipient = some exp.change.addressBytes ∧
      action.output.value = some exp.change.value) ∧
    (exp.isChange pool idx = false → action.output.value = some 0 ∧ changeCmx' = changeCmx) := by
  rw [verifyOutput] at h
  cases hchange : exp.isChange pool idx with
  | true =>
      rw [hchange, if_pos rfl] at h
      cases hcmx : verifyChange C exp pool idx action with
      | error e =>
          rw [hcmx] at h
          cases h
      | ok cmx => exact ⟨fun _ => verifyChange_eq_ok hcmx, fun hfalse => (nomatch hfalse)⟩
  | false =>
      rw [hchange, if_neg Bool.false_ne_true] at h
      cases hvalue : action.output.value with
      | none =>
          rw [hvalue] at h
          cases h
      | some value =>
          rw [hvalue] at h
          dsimp only at h
          split_ifs at h with hne
          exact ⟨fun htrue => (nomatch htrue),
            fun _ => ⟨congrArg some (not_not.mp hne), (Except.ok.inj h).symm⟩⟩

/-- One action, with what is carried over of the change. -/
theorem ActionMatches.of_ok {spend : Unit}
    (hspend : verifySpend exp pool idx action.spend = .ok spend)
    (houtput : verifyOutput C exp pool idx action changeCmx = .ok changeCmx') :
    ActionMatches exp pool idx action ∧
      (exp.isChange pool idx = false → changeCmx' = changeCmx) := by
  obtain ⟨hplanned, hdummy⟩ := verifySpend_eq_ok hspend
  obtain ⟨hchange, hother⟩ := verifyOutput_eq_ok houtput
  exact ⟨⟨hplanned, hdummy, hchange, fun h => (hother h).1⟩, fun h => (hother h).2⟩

/-- All actions match, and a change is found where it was planned. -/
theorem verifyActions_eq_ok {actions : List PcztAction}
    (h : verifyActions C exp pool idx actions changeCmx = .ok changeCmx') :
    (∀ j action, actions[j]? = some action → ActionMatches exp pool (idx + j) action) ∧
    (changeCmx' = changeCmx ∨
      ∃ j < actions.length, exp.isChange pool (idx + j) = true) := by
  induction actions generalizing idx changeCmx with
  | nil => exact ⟨fun j action hj => (nomatch hj), .inl (Except.ok.inj h).symm⟩
  | cons action actions ih =>
      rw [verifyActions] at h
      obtain ⟨spend, hspend, h⟩ := bind_eq_ok h
      obtain ⟨middle, houtput, h⟩ := bind_eq_ok h
      obtain ⟨hmatches, hcarried⟩ := ActionMatches.of_ok hspend houtput
      obtain ⟨hrest, hchange⟩ := ih h
      refine ⟨fun j action' hj => ?_, ?_⟩
      · cases j with
        | zero =>
            obtain rfl := Option.some.inj hj
            exact hmatches
        | succ j =>
            rw [Nat.add_succ, ← Nat.succ_add]
            exact hrest j action' hj
      · rcases hchange with rfl | ⟨j, hj, hat⟩
        · cases hhere : exp.isChange pool idx with
          | false => exact .inl (hcarried hhere)
          | true => exact .inr ⟨0, Nat.zero_lt_succ _, hhere⟩
        · refine .inr ⟨j + 1, Nat.succ_lt_succ hj, ?_⟩
          rwa [Nat.add_succ, ← Nat.succ_add]

/-- A bundle that was compared with the plan. -/
structure BundleMatches (exp : ShieldedExpectations K) (pool : ValuePool) (bundle : PcztBundle) :
    Prop where
  length : bundle.actions.length = exp.actions pool
  action : ∀ idx action, bundle.actions[idx]? = some action → ActionMatches exp pool idx action
  valueSum : bundle.actions ≠ [] → bundle.valueSum = exp.net pool

/-- **An accepted bundle** matches the plan, and the change is found in it or was found before. -/
theorem verifyPoolBundle_eq_ok {bundle : PcztBundle}
    (h : verifyPoolBundle C exp pool bundle changeCmx = .ok changeCmx') :
    BundleMatches exp pool bundle ∧
    (changeCmx' = changeCmx ∨ ∃ idx < exp.actions pool, exp.isChange pool idx = true) := by
  rw [verifyPoolBundle] at h
  by_cases hlength : bundle.actions.length ≠ exp.actions pool
  · rw [if_pos hlength] at h
    cases h
  rw [if_neg hlength] at h
  have hlength := not_not.mp hlength
  by_cases hzero : exp.actions pool = 0
  · rw [if_pos hzero] at h
    have hnil : bundle.actions = [] := List.eq_nil_of_length_eq_zero (hlength.trans hzero)
    refine ⟨⟨hlength, fun idx action hidx => ?_, absurd hnil⟩, .inl (Except.ok.inj h).symm⟩
    rw [hnil] at hidx
    cases hidx
  rw [if_neg hzero] at h
  by_cases hpool : bundle.valuePool ≠ pool
  · rw [if_pos hpool] at h
    cases h
  rw [if_neg hpool] at h
  cases hanchor : exp.anchor pool with
  | none =>
      rw [hanchor] at h
      cases h
  | some expectedAnchor =>
      rw [hanchor] at h
      dsimp only at h
      by_cases hne : bundle.anchor ≠ expectedAnchor
      · rw [if_pos hne] at h
        cases h
      rw [if_neg hne] at h
      obtain ⟨found, hactions, h⟩ := bind_eq_ok h
      by_cases hsum : bundle.valueSum ≠ exp.net pool
      · rw [if_pos hsum] at h
        cases h
      rw [if_neg hsum] at h
      obtain rfl := Except.ok.inj h
      obtain ⟨hmatches, hchange⟩ := verifyActions_eq_ok hactions
      simp only [Nat.zero_add, hlength] at hmatches hchange
      exact ⟨⟨hlength, hmatches, fun _ => not_not.mp hsum⟩, hchange⟩

/-- Renaming errors keeps results. -/
theorem of_mapError_eq_ok {α ε ε' : Type} {x : Except ε α} {f : ε → ε'} {a : α}
    (h : x.mapError f = .ok a) : x = .ok a := by
  cases x with
  | error e => cases h
  | ok b => rw [Except.ok.inj h]

/-- **Two accepted bundles with a change** match the plan, and the change is one of their outputs.
-/
theorem verifyBundles_eq_ok {orchard ironwood : PcztBundle} {cmx : Bytes32}
    (h : verifyBundles C exp orchard ironwood = .ok cmx) :
    BundleMatches exp .orchard orchard ∧ BundleMatches exp .ironwood ironwood ∧
    exp.change.actionIndex < exp.actions exp.change.pool := by
  rw [verifyBundles] at h
  obtain ⟨first, horchard, h⟩ := bind_eq_ok h
  obtain ⟨second, hironwood, hfound⟩ := bind_eq_ok h
  obtain ⟨hmatches, hfirst⟩ := verifyPoolBundle_eq_ok (of_mapError_eq_ok horchard)
  obtain ⟨hmatches', hsecond⟩ := verifyPoolBundle_eq_ok (of_mapError_eq_ok hironwood)
  refine ⟨hmatches, hmatches', ?_⟩
  have hlt : ∀ {pool idx}, exp.isChange pool idx = true → idx < exp.actions pool →
      exp.change.actionIndex < exp.actions exp.change.pool := by
    intro pool idx hchange hlt
    obtain ⟨hpool, hidx⟩ := Bool.and_eq_true_iff.mp hchange
    rw [of_decide_eq_true hpool, of_decide_eq_true hidx]
    exact hlt
  rcases hsecond with rfl | ⟨idx, hidx, hchange⟩
  · rcases hfirst with rfl | ⟨idx, hidx, hchange⟩
    · cases hfound
    · exact hlt hchange hidx
  · exact hlt hchange hidx

end Accepted

end Zalkanes
