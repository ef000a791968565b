import Zalkanes.Wallet.PoolPlan
import Zalkanes.Wallet.VerifyExtracted

/-!
# The Final Check of a Shielded Transaction

Before it is broadcast, the extracted transaction is parsed again and compared with its plan. Its
notes are encrypted, so that only anchors, nullifiers, commitments and value balances can be read
of its bundles. The change is bound through its commitment (`ChangeNote`), which was read off the
finished transaction while its notes were still in the open.

## Main results

* `verifyBundles_found`: the commitment of the change is that of a note to the wallet.
* `verifyFinalPool_eq_ok`: what is bound of one pool's bundle.
* `verifyExtracted_eq_ok`: a transaction that passes pays as planned (`PaysPlan`).
-/

namespace Zalkanes

open Lib

/-! ### The commitment of the change -/

/-- The commitment is that of the planned change output, whose note is the wallet's. -/
structure ChangeNote {K : Type} (C : NoteCrypto K) (exp : ShieldedExpectations K)
    (pool : ValuePool) (idx : ℕ) (action : PcztAction) (cmx : Bytes32) : Prop where
  here : exp.isChange pool idx = true
  cmx_eq : action.output.cmx = cmx
  commits : C.verifyNoteCommitment action = .ok ()
  decrypts : C.tryNoteDecryption pool exp.change.ivk action =
    some (exp.change.value, exp.change.addressBytes)

section Found

variable {K : Type} {C : NoteCrypto K} {exp : ShieldedExpectations K} {pool : ValuePool}
  {idx : ℕ} {action : PcztAction} {changeCmx changeCmx' : Option Bytes32} {cmx : Bytes32}

/-- A change that passes is a note to the wallet of the planned value. -/
theorem verifyChangeNote_eq_ok (h : verifyChangeNote C exp pool action = .ok cmx) :
    action.output.cmx = cmx ∧ C.verifyNoteCommitment action = .ok () ∧
    C.tryNoteDecryption pool exp.change.ivk action =
      some (exp.change.value, exp.change.addressBytes) := by
  rw [verifyChangeNote] at h
  cases hcommits : C.verifyNoteCommitment action with
  | error e =>
      rw [hcommits] at h
      cases h
  | ok _ =>
      rw [hcommits] at h
      dsimp only at h
      cases hnote : C.tryNoteDecryption pool exp.change.ivk action with
      | none =>
          rw [hnote] at h
          cases h
      | some note =>
          obtain ⟨noteValue, addr⟩ := note
          rw [hnote] at h
          dsimp only at h
          split_ifs at h with hne
          obtain ⟨hvalue, haddr⟩ := not_or.mp hne
          rw [not_not.mp hvalue, not_not.mp haddr]
          exact ⟨Except.ok.inj h, rfl, rfl⟩

/-- A change that passes in full passes as a note. -/
theorem verifyChange_note (h : verifyChange C exp pool idx action = .ok cmx) :
    verifyChangeNote C exp pool action = .ok cmx := by
  rw [verifyChange] at h
  cases hrecipient : action.output.recipient with
  | none =>
      rw [hrecipient] at h
      cases h
  | some recipient =>
      rw [hrecipient] at h
      dsimp only at h
      split_ifs at h with hne
      cases hvalue : action.output.value with
      | none =>
          rw [hvalue] at h
          cases h
      | some value =>
          rw [hvalue] at h
          dsimp only at h
          split_ifs at h with hne'
          exact h

/-- **One output** carries the commitment over, or is the change. -/
theorem verifyOutput_found (h : verifyOutput C exp pool idx action changeCmx = .ok changeCmx') :
    changeCmx' = changeCmx ∨ ∃ cmx, changeCmx' = some cmx ∧
      ChangeNote C exp pool idx action cmx := by
  cases hhere : exp.isChange pool idx with
  | false => exact .inl ((verifyOutput_eq_ok h).2 hhere).2
  | true =>
      rw [verifyOutput, hhere, if_pos rfl] at h
      obtain ⟨cmx, hcmx, rfl⟩ := map_eq_ok h
      obtain ⟨hcmx, hcommits, hdecrypts⟩ := verifyChangeNote_eq_ok (verifyChange_note hcmx)
      exact .inr ⟨cmx, rfl, hhere, hcmx, hcommits, hdecrypts⟩

/-- A change that is found among the actions is such a note. -/
theorem verifyActions_found {actions : List PcztAction}
    (h : verifyActions C exp pool idx actions changeCmx = .ok changeCmx') :
    changeCmx' = changeCmx ∨ ∃ j action cmx, actions[j]? = some action ∧
      changeCmx' = some cmx ∧ ChangeNote C exp pool (idx + j) action cmx := by
  induction actions generalizing idx changeCmx with
  | nil => exact .inl (Except.ok.inj h).symm
  | cons action actions ih =>
      rw [verifyActions] at h
      obtain ⟨spend, -, h⟩ := bind_eq_ok h
      obtain ⟨middle, houtput, h⟩ := bind_eq_ok h
      rcases ih h with rfl | ⟨j, action', cmx, haction, hcmx, hnote⟩
      · rcases verifyOutput_found houtput with heq | ⟨cmx, hcmx, hnote⟩
        · exact .inl heq
        · exact .inr ⟨0, action, cmx, rfl, hcmx, hnote⟩
      · refine .inr ⟨j + 1, action', cmx, haction, hcmx, ?_⟩
        rwa [Nat.add_succ, ← Nat.succ_add]

/-- A change that is found in a bundle is such a note. -/
theorem verifyPoolBundle_found {bundle : PcztBundle}
    (h : verifyPoolBundle C exp pool bundle changeCmx = .ok changeCmx') :
    changeCmx' = changeCmx ∨ ∃ j action cmx, bundle.actions[j]? = some action ∧
      changeCmx' = some cmx ∧ ChangeNote C exp pool j action cmx := by
  rw [verifyPoolBundle] at h
  by_cases hlength : bundle.actions.length ≠ exp.actions pool
  · rw [if_pos hlength] at h
    cases h
  rw [if_neg hlength] at h
  by_cases hzero : exp.actions pool = 0
  · rw [if_pos hzero] at h
    exact .inl (Except.ok.inj h).symm
  rw [if_neg hzero] at h
  by_cases hpool : bundle.valuePool ≠ pool
  · rw [if_pos hpool] at h
    cases h
  rw [if_neg hpool] at h
  cases hanchor : exp.anchor pool with
  | none =>
      rw [hanchor] at h
      cases h
  | some expectedAnchor =>
      rw [hanchor] at h
      dsimp only at h
      by_cases hne : bundle.anchor ≠ expectedAnchor
      · rw [if_pos hne] at h
        cases h
      rw [if_neg hne] at h
      obtain ⟨found, hactions, h⟩ := bind_eq_ok h
      by_cases hsum : bundle.valueSum ≠ exp.net pool
      · rw [if_pos hsum] at h
        cases h
      rw [if_neg hsum] at h
      obtain rfl := Except.ok.inj h
      have hfound := verifyActions_found hactions
      simp only [Nat.zero_add] at hfound
      exact hfound

/-- **The commitment of the change** is that of the planned output, which the wallet can open. -/
theorem verifyBundles_found {orchard ironwood : PcztBundle}
    (h : verifyBundles C exp orchard ironwood = .ok cmx) : ∃ action,
      (pools orchard ironwood exp.change.pool).actions[exp.change.actionIndex]? = some action ∧
      ChangeNote C exp exp.change.pool exp.change.actionIndex action cmx := by
  rw [verifyBundles] at h
  obtain ⟨first, horchard, h⟩ := bind_eq_ok h
  obtain ⟨second, hironwood, hfound⟩ := bind_eq_ok h
  have hin : ∀ pool {bundle}, bundle = pools orchard ironwood pool →
      (∃ j action cmx', bundle.actions[j]? = some action ∧ some cmx = some cmx' ∧
        ChangeNote C exp pool j action cmx') →
      ∃ action, (pools orchard ironwood exp.change.pool).actions[exp.change.actionIndex]? =
        some action ∧ ChangeNote C exp exp.change.pool exp.change.actionIndex action cmx := by
    rintro pool _ rfl ⟨j, action, cmx', haction, hcmx, hnote⟩
    obtain rfl := Option.some.inj hcmx
    obtain ⟨hpool, hidx⟩ := Bool.and_eq_true_iff.mp hnote.here
    obtain rfl := of_decide_eq_true hpool
    obtain rfl := of_decide_eq_true hidx
    exact ⟨action, haction, hnote⟩
  cases second with
  | none => cases hfound
  | some found =>
      obtain rfl := Except.ok.inj hfound
      rcases verifyPoolBundle_found (of_mapError_eq_ok hironwood) with rfl | hsecond
      · rcases verifyPoolBundle_found (of_mapError_eq_ok horchard) with hnone | hfirst
        · cases hnone
        · exact hin .orchard rfl hfirst
      · exact hin .ironwood rfl hsecond

end Found

/-! ### The transaction as it is read -/

/-- What can be read of an action of the final transaction. -/
structure FinalAction where
  nullifier : Bytes32
  cmx : Bytes32
  deriving DecidableEq

/-- One pool's bundle of the final transaction. -/
structure FinalBundle where
  anchor : Bytes32
  actions : List FinalAction
  /-- What the bundle takes out of its pool. -/
  valueBalance : ℤ
  deriving DecidableEq

/-- A transaction with shielded bundles, as librustzcash reads it. -/
structure ShieldedTransaction where
  version : TxVersion
  expiryHeight : UInt32
  transparentBundle : Option TransparentBundle
  /-- What is taken out of the Sapling pool. -/
  saplingBalance : ℤ
  orchardBundle : Option FinalBundle
  ironwoodBundle : Option FinalBundle
  deriving DecidableEq

namespace ShieldedTransaction

variable (tx : ShieldedTransaction)

/-- The bundle of a pool. -/
def bundle : ValuePool → Option FinalBundle
  | .orchard => tx.orchardBundle
  | .ironwood => tx.ironwoodBundle

/-- The actions of a pool. -/
def actions (pool : ValuePool) : List FinalAction := (tx.bundle pool).elim [] FinalBundle.actions

/-- What is taken out of a pool. -/
def balance (pool : ValuePool) : ℤ := (tx.bundle pool).elim 0 FinalBundle.valueBalance

end ShieldedTransaction

/-- The reader of transactions, and its accounting of values. -/
structure TxReader where
  read : (branchId : UInt32) → Bytes → Except String ShieldedTransaction
  /-- The transparent inputs are not looked up. -/
  feePaid : ShieldedTransaction → Except String (Option ℕ)
  /-- The fee is what is taken out of the pools and not paid out. -/
  feePaid_eq : ∀ tx fee bundle, tx.transparentBundle = some bundle → bundle.vin = [] →
    feePaid tx = .ok (some fee) → (fee : ℤ) =
      tx.saplingBalance + tx.balance .orchard + tx.balance .ironwood -
        (bundle.vout.map SpendOutput.value).sum

/-! ### The final check -/

/-- The outputs, in order, from output `i` on. -/
def verifyFinalOutputs : ℕ → List SpendOutput → List PlanOutput → Except String Unit
  | i, vout :: vouts, planned :: rest =>
      if vout.value ≠ planned.value.toNat then
        .error ("transparent output " ++ toString i ++ " value mismatch")
      else if vout.scriptPubkey ≠ planned.script then
        .error ("transparent output " ++ toString i ++ " script mismatch")
      else verifyFinalOutputs (i + 1) vouts rest
  | _, _, _ => .ok ()

section Check

variable {K : Type} (exp : ShieldedExpectations K) (changeCmx : Option Bytes32) (pool : ValuePool)

/-- The planned nullifiers, at their actions. -/
def verifyNullifiers (actions : List FinalAction) : List ExpectedSpend → Except String Unit
  | [] => .ok ()
  | expected :: rest =>
      match actions[expected.actionIndex]? with
      | none => .error ("final " ++ pool.debug ++ " planned spend action missing")
      | some action =>
          if action.nullifier ≠ expected.nullifier then
            .error ("final " ++ pool.atAction "nullifier mismatch" expected.actionIndex)
          else verifyNullifiers actions rest

/-- The commitment of the change that was verified before, at its action. -/
def verifyFinalChange (actions : List FinalAction) : Except String Unit :=
  match changeCmx with
  | none => .error "change cmx not recorded (extraction bypass?)"
  | some cmx =>
      match actions[exp.change.actionIndex]? with
      | none => .error ("final " ++ pool.debug ++ " change action missing")
      | some action =>
          if action.cmx ≠ cmx then .error ("final " ++ pool.debug ++ " change cmx mismatch")
          else .ok ()

/-- Bind one pool's bundle in the final transaction. -/
def verifyFinalPool : Option FinalBundle → Except String Unit
  | none =>
      if exp.actions pool ≠ 0 then .error ("final tx missing " ++ pool.debug ++ " bundle")
      else .ok ()
  | some bundle =>
      if bundle.actions.length ≠ exp.actions pool then
        .error ("final " ++ pool.debug ++ " action count mismatch: " ++
          toString bundle.actions.length ++ " vs " ++ toString (exp.actions pool))
      else
        match exp.anchor pool with
        | none => .error ("final " ++ pool.debug ++ " bundle present but no planned anchor")
        | some expectedAnchor =>
            if bundle.anchor ≠ expectedAnchor then
              .error ("final " ++ pool.debug ++ " anchor mismatch")
            else do
              verifyNullifiers pool bundle.actions (exp.poolSpends pool)
              if bundle.valueBalance ≠ exp.net pool then
                throw ("final " ++ pool.debug ++ " value balance mismatch")
              else if exp.change.pool = pool then
                verifyFinalChange exp changeCmx pool bundle.actions
              else return ()

end Check

/-- The version, as it is printed. -/
def TxVersion.debug : TxVersion → String
  | sprout version => "Sprout(" ++ toString version ++ ")"
  | v3 => "V3"
  | v4 => "V4"
  | v5 => "V5"
  | v6 => "V6"

/-- Compare the extracted transaction with the plan. -/
def PoolPlan.verifyExtracted {K : Type} (T : TxReader) (plan : PoolPlan K) (branchId : UInt32)
    (txVersion : String) (changeCmx : Option Bytes32) (tx : SignedTx) : Except String Unit := do
  let parsed ← (T.read branchId tx.bytes).mapError fun e => "parse extracted tx: " ++ e
  let expectedVersion := if txVersion = "v6" then TxVersion.v6 else .v5
  if parsed.version ≠ expectedVersion then
    throw ("tx version mismatch: got " ++ parsed.version.debug ++ ", expected " ++ txVersion)
  else if parsed.expiryHeight ≠ plan.expiryHeight then
    throw ("tx expiry mismatch: got " ++ toString parsed.expiryHeight ++ ", expected " ++
      toString plan.expiryHeight)
  else
    match parsed.transparentBundle with
    | none => throw "extracted tx has no transparent bundle"
    | some bundle =>
        if bundle.vin ≠ [] then
          throw ("shielded tx has " ++ toString bundle.vin.length ++
            " transparent funding input(s)")
        else if bundle.vout.length ≠ plan.transparentOutputs.length then
          throw ("transparent output count mismatch: " ++ toString bundle.vout.length ++ " vs " ++
            toString plan.transparentOutputs.length)
        else
          verifyFinalOutputs 0 bundle.vout plan.transparentOutputs
          verifyFinalPool plan.expected changeCmx .orchard parsed.orchardBundle
          verifyFinalPool plan.expected changeCmx .ironwood parsed.ironwoodBundle
          match ← T.feePaid parsed with
          | none => throw "fee not computable from final transaction"
          | some actualFee =>
              if actualFee ≠ plan.fee then
                throw ("final fee mismatch: extracted " ++ toString actualFee ++ ", planned " ++
                  toString plan.fee)
              else return ()

/-! ### What was compared -/

/-- The planned output, as it is written. -/
def PlanOutput.written (out : PlanOutput) : SpendOutput := ⟨out.value.toNat, out.script⟩

/-- Outputs that pass are the planned ones. -/
theorem verifyFinalOutputs_eq_ok {i : ℕ} {vouts : List SpendOutput} {planned : List PlanOutput}
    (hlength : vouts.length = planned.length) (h : verifyFinalOutputs i vouts planned = .ok ()) :
    vouts = planned.map PlanOutput.written := by
  induction vouts generalizing i planned with
  | nil =>
      rw [List.eq_nil_of_length_eq_zero hlength.symm]
      rfl
  | cons vout vouts ih =>
      cases planned with
      | nil => cases hlength
      | cons p planned =>
          rw [verifyFinalOutputs] at h
          split_ifs at h with hvalue hscript
          have hhead : vout = p.written := by
            cases vout
            exact congrArg₂ SpendOutput.mk (not_not.mp hvalue) (not_not.mp hscript)
          rw [List.map_cons, ← hhead, ← ih (Nat.succ.inj hlength) h]

/-- The bundle's actions show what was planned. -/
structure FinalBundleMatches {K : Type} (exp : ShieldedExpectations K)
    (changeCmx : Option Bytes32) (pool : ValuePool) (bundle : FinalBundle) : Prop where
  length : bundle.actions.length = exp.actions pool
  anchor : exp.anchor pool = some bundle.anchor
  nullifier : ∀ s ∈ exp.poolSpends pool, ∃ action,
    bundle.actions[s.actionIndex]? = some action ∧ action.nullifier = s.nullifier
  valueBalance : bundle.valueBalance = exp.net pool
  change : exp.change.pool = pool → ∃ action,
    bundle.actions[exp.change.actionIndex]? = some action ∧ changeCmx = some action.cmx

section Matches

variable {K : Type} {exp : ShieldedExpectations K} {changeCmx : Option Bytes32} {pool : ValuePool}

/-- The planned nullifiers are revealed. -/
theorem verifyNullifiers_eq_ok {actions : List FinalAction} {spends : List ExpectedSpend}
    (h : verifyNullifiers pool actions spends = .ok ()) : ∀ s ∈ spends, ∃ action,
      actions[s.actionIndex]? = some action ∧ action.nullifier = s.nullifier := by
  induction spends with
  | nil => simp
  | cons s spends ih =>
      rw [verifyNullifiers] at h
      cases haction : actions[s.actionIndex]? with
      | none =>
          rw [haction] at h
          cases h
      | some action =>
          rw [haction] at h
          dsimp only at h
          split_ifs at h with hne
          rw [List.forall_mem_cons]
          exact ⟨⟨action, haction, not_not.mp hne⟩, ih h⟩

/-- The change is where it was planned. -/
theorem verifyFinalChange_eq_ok {actions : List FinalAction}
    (h : verifyFinalChange exp changeCmx pool actions = .ok ()) : ∃ action,
      actions[exp.change.actionIndex]? = some action ∧ changeCmx = some action.cmx := by
  cases changeCmx with
  | none => cases h
  | some cmx =>
      rw [verifyFinalChange] at h
      cases haction : actions[exp.change.actionIndex]? with
      | none =>
          rw [haction] at h
          cases h
      | some action =>
          rw [haction] at h
          dsimp only at h
          split_ifs at h with hne
          exact ⟨action, rfl, congrArg some (not_not.mp hne).symm⟩

/-- **A pool that passes** has no bundle where none was planned, or one that matches the plan. -/
theorem verifyFinalPool_eq_ok {bundle : Option FinalBundle}
    (h : verifyFinalPool exp changeCmx pool bundle = .ok ()) :
    (bundle = none ∧ exp.actions pool = 0) ∨
      ∃ b, bundle = some b ∧ FinalBundleMatches exp changeCmx pool b := by
  cases bundle with
  | none =>
      rw [verifyFinalPool] at h
      split_ifs at h with hne
      exact .inl ⟨rfl, not_not.mp hne⟩
  | some b =>
      rw [verifyFinalPool] at h
      by_cases hlength : b.actions.length ≠ exp.actions pool
      · rw [if_pos hlength] at h
        cases h
      rw [if_neg hlength] at h
      cases hanchor : exp.anchor pool with
      | none =>
          rw [hanchor] at h
          cases h
      | some expectedAnchor =>
          rw [hanchor] at h
          dsimp only at h
          by_cases hne : b.anchor ≠ expectedAnchor
          · rw [if_pos hne] at h
            cases h
          rw [if_neg hne] at h
          obtain ⟨_, hnullifiers, h⟩ := bind_eq_ok h
          by_cases hbalance : b.valueBalance ≠ exp.net pool
          · rw [if_pos hbalance] at h
            cases h
          rw [if_neg hbalance] at h
          refine .inr ⟨b, rfl, not_not.mp hlength, ?_, verifyNullifiers_eq_ok hnullifiers,
            not_not.mp hbalance, fun hpool => ?_⟩
          · rw [hanchor, not_not.mp hne]
          · rw [if_pos hpool] at h
            exact verifyFinalChange_eq_ok h

end Matches

/-- The transaction pays what was planned and nothing else, from the planned notes. -/
structure PaysPlan {K : Type} (C : NoteCrypto K) (plan : PoolPlan K)
    (final : ShieldedTransaction) : Prop where
  transparent : final.transparentBundle = some ⟨[], plan.transparentOutputs.map PlanOutput.written⟩
  expiry : final.expiryHeight = plan.expiryHeight
  spends : ∀ s ∈ plan.expected.spends, ∃ action,
    (final.actions s.pool)[s.actionIndex]? = some action ∧ action.nullifier = s.nullifier
  /-- The change is committed to in a note that the wallet can open. -/
  change : ∃ action note,
    (final.actions plan.selection.changePool)[plan.expected.change.actionIndex]? = some action ∧
    action.cmx = note.output.cmx ∧ C.verifyNoteCommitment note = .ok () ∧
    C.tryNoteDecryption plan.selection.changePool plan.expected.change.ivk note =
      some (.ofNat plan.change, plan.selection.changeAddress)
  balance : ∀ pool, final.balance pool =
    poolTotal plan.expected.spends pool - changeOf pool plan.selection.changePool plan.change
  sapling : final.saplingBalance = 0
  total : final.balance .orchard + final.balance .ironwood =
    (plan.fee + outputTotal plan.transparentOutputs : ℕ)

/-- Everything that the check compares of a transaction that passes. -/
structure Compared {K : Type} (T : TxReader) (plan : PoolPlan K) (changeCmx : Option Bytes32)
    (final : ShieldedTransaction) : Prop where
  transparent : final.transparentBundle = some ⟨[], plan.transparentOutputs.map PlanOutput.written⟩
  expiry : final.expiryHeight = plan.expiryHeight
  pool : ∀ pool, (final.bundle pool = none ∧ plan.expected.actions pool = 0) ∨
    ∃ b, final.bundle pool = some b ∧ FinalBundleMatches plan.expected changeCmx pool b
  fee : T.feePaid final = .ok (some plan.fee)

section Pays

variable {K : Type} {C : NoteCrypto K} {W : PoolBackend K} {T : TxReader} {plan : PoolPlan K}
  {branchId : UInt32} {txVersion : String} {changeCmx : Option Bytes32} {tx : SignedTx}
  {orchard ironwood : PcztBundle} {cmx : Bytes32}

/-- A transaction that passes was read and compared. -/
theorem verifyExtracted_compared
    (h : plan.verifyExtracted T branchId txVersion changeCmx tx = .ok ()) :
    ∃ final, T.read branchId tx.bytes = .ok final ∧ Compared T plan changeCmx final := by
  rw [PoolPlan.verifyExtracted] at h
  obtain ⟨final, hread, h⟩ := bind_eq_ok h
  refine ⟨final, of_mapError_eq_ok hread, ?_⟩
  dsimp only at h
  generalize hexpected : (if txVersion = "v6" then TxVersion.v6 else .v5) = expectedVersion at h
  by_cases hversion : final.version ≠ expectedVersion
  · rw [if_pos hversion] at h
    cases h
  rw [if_neg hversion] at h
  by_cases hexpiry : final.expiryHeight ≠ plan.expiryHeight
  · rw [if_pos hexpiry] at h
    cases h
  rw [if_neg hexpiry] at h
  cases hbundle : final.transparentBundle with
  | none =>
      rw [hbundle] at h
      cases h
  | some bundle =>
      rw [hbundle] at h
      dsimp only at h
      by_cases hinputs : bundle.vin ≠ []
      · rw [if_pos hinputs] at h
        cases h
      rw [if_neg hinputs] at h
      by_cases hlength : bundle.vout.length ≠ plan.transparentOutputs.length
      · rw [if_pos hlength] at h
        cases h
      rw [if_neg hlength] at h
      obtain ⟨_, houtputs, h⟩ := bind_eq_ok h
      obtain ⟨_, horchard, h⟩ := bind_eq_ok h
      obtain ⟨_, hironwood, h⟩ := bind_eq_ok h
      obtain ⟨paid, hpaid, h⟩ := bind_eq_ok h
      have hvin := not_not.mp hinputs
      have hvout := verifyFinalOutputs_eq_ok (not_not.mp hlength) houtputs
      refine ⟨?_, not_not.mp hexpiry, ?_, ?_⟩
      · rw [hbundle, ← hvout, ← hvin]
      · rintro (_ | _)
        · exact verifyFinalPool_eq_ok horchard
        · exact verifyFinalPool_eq_ok hironwood
      · cases paid with
        | none => cases h
        | some actualFee =>
            dsimp only at h
            split_ifs at h with hne
            rw [hpaid, not_not.mp hne]

/-- **A transaction that passes**, with the commitment that was found in the finished transaction,
pays as planned. -/
theorem verifyExtracted_eq_ok (hplan : W.Plans plan) (hindexed : plan.expected.Indexed)
    (hmoney : expectedTotal plan.expected.spends ≤ NoteStore.maxMoney)
    (hpczt : verifyBundles C plan.expected orchard ironwood = .ok cmx)
    (h : plan.verifyExtracted T branchId txVersion (some cmx) tx = .ok ()) :
    ∃ final, T.read branchId tx.bytes = .ok final ∧ PaysPlan C plan final := by
  obtain ⟨final, hread, hcompared⟩ := verifyExtracted_compared h
  have hfunded := hplan.funded
  have htotal := hfunded.selected_eq hmoney
  obtain ⟨built, hexpected⟩ := hfunded.expected
  obtain ⟨-, hchangePool, hchangeValue, hchangeAddress, hnet⟩ := buildExpectations_eq_ok hexpected
  obtain ⟨-, -, hchangeLt⟩ := verifyBundles_eq_ok hpczt
  obtain ⟨note, -, hnote⟩ := verifyBundles_found hpczt
  -- a pool without actions has no part in the plan
  have hsome : ∀ pool, 0 < plan.expected.actions pool → ∃ b, final.bundle pool = some b ∧
      FinalBundleMatches plan.expected (some cmx) pool b := fun pool hpos =>
    (hcompared.pool pool).resolve_left fun hnone => absurd hnone.2 hpos.ne'
  have hbalance : ∀ pool, final.balance pool = poolTotal plan.expected.spends pool -
      changeOf pool plan.selection.changePool plan.change := by
    intro pool
    rw [ShieldedTransaction.balance, ← hnet hmoney pool]
    rcases hcompared.pool pool with ⟨hnone, hzero⟩ | ⟨b, hb, hmatches⟩
    · rw [hnone, hnet hmoney pool]
      have hspends : plan.expected.poolSpends pool = [] :=
        List.eq_nil_iff_forall_not_mem.mpr fun s hs =>
          absurd ((hindexed pool).2 s hs) (by rw [hzero]; exact Nat.not_lt_zero _)
      have hpool : pool ≠ plan.selection.changePool := by
        rintro rfl
        rw [hchangePool, hzero] at hchangeLt
        exact absurd hchangeLt (Nat.not_lt_zero _)
      have hzero' : poolTotal plan.expected.spends pool = 0 := by
        rw [poolTotal, ← ShieldedExpectations.poolSpends, hspends]
        rfl
      rw [hzero', changeOf, if_neg hpool]
      rfl
    · rw [hb]
      exact hmatches.valueBalance
  have hsum : final.balance .orchard + final.balance .ironwood =
      (plan.fee + outputTotal plan.transparentOutputs : ℕ) := by
    have hchange : changeOf .orchard plan.selection.changePool plan.change +
        changeOf .ironwood plan.selection.changePool plan.change = plan.change := by
      cases plan.selection.changePool <;> simp [changeOf]
    have hpools := poolTotal_add plan.expected.spends
    rw [hbalance, hbalance]
    omega
  refine ⟨final, hread, hcompared.transparent, hcompared.expiry, fun s hs => ?_, ?_, hbalance, ?_,
    hsum⟩
  · have hmem : s ∈ plan.expected.poolSpends s.pool :=
      List.mem_filter.mpr ⟨hs, decide_eq_true rfl⟩
    obtain ⟨b, hb, hmatches⟩ := hsome s.pool (Nat.zero_lt_of_lt ((hindexed s.pool).2 s hmem))
    rw [ShieldedTransaction.actions, hb]
    exact hmatches.nullifier s hmem
  · obtain ⟨b, hb, hmatches⟩ := hsome _ (Nat.zero_lt_of_lt hchangeLt)
    obtain ⟨action, haction, hcmx⟩ := hmatches.change rfl
    have hdecrypts := hnote.decrypts
    rw [hchangePool] at hb
    rw [hchangePool, hchangeValue, hchangeAddress] at hdecrypts
    refine ⟨action, note, ?_, ?_, hnote.commits, hdecrypts⟩
    · rw [ShieldedTransaction.actions, hb]
      exact haction
    · rw [hnote.cmx_eq, Option.some.inj hcmx]
  · have hfee := T.feePaid_eq final plan.fee _ hcompared.transparent rfl hcompared.fee
    have houtputs : ((plan.transparentOutputs.map PlanOutput.written).map SpendOutput.value).sum =
        outputTotal plan.transparentOutputs := by
      rw [List.map_map]
      rfl
    rw [houtputs] at hfee
    omega

end Pays

/-- A call that spends one note, as it is read again, with the balances of both pools. -/
def oneNoteFinal (opReturn : Bytes) : ShieldedTransaction :=
  ⟨.v6, 140, some ⟨[], [⟨0, opReturnScript opReturn⟩]⟩, 0,
    some ⟨.replicate 1, [⟨.replicate 3, .replicate 4⟩, ⟨.replicate 7, .replicate 4⟩], 50000⟩,
    some ⟨.replicate 2, [⟨.replicate 3, .replicate 5⟩, ⟨.replicate 3, .replicate 4⟩], -30000⟩⟩

/-- What is taken out of the pools and not paid out, if it is not negative. -/
def balanceOf (tx : ShieldedTransaction) : Option ℕ :=
  match tx.transparentBundle with
  | none => none
  | some bundle =>
      let fee := tx.saplingBalance + tx.balance .orchard + tx.balance .ironwood -
        (bundle.vout.map SpendOutput.value).sum
      if 0 ≤ fee then some fee.toNat else none

/-- A reader that reads one transaction. -/
def oneNoteReader (opReturn : Bytes) : TxReader where
  read _ _ := .ok (oneNoteFinal opReturn)
  feePaid tx := .ok (balanceOf tx)
  feePaid_eq tx fee bundle hbundle _ hpaid := by
    have hpaid := Except.ok.inj hpaid
    rw [balanceOf, hbundle] at hpaid
    dsimp only at hpaid
    split_ifs at hpaid with hle
    rw [← Option.some.inj hpaid, Int.toNat_of_nonneg hle]

end Zalkanes
