import Zalkanes.Wallet.Execute
import Zalkanes.Wallet.FinalPools

/-!
# The Stages of a Shielded Plan

A shielded plan carries its transaction through proving, signing and extraction, and a caller may
call the stages in any order and as often as it likes. The transaction is taken out of the plan
while a stage works on it, and lost when the stage fails. The roles of the transaction format are
left open (`PcztRoles`).

## Main results

* `call_cases`: what a call does to the plan.
* `authorized_pays_plan`: whatever is called, the stages are passed in order and once each, and a
  transaction that comes out verified pays as planned.
-/

namespace Zalkanes

open Lib

/-- What is done to a partially created transaction of type `P`, with signing keys of type `A`. -/
structure PcztRoles (P A : Type) where
  requiresOrchardProof : P → Bool
  createOrchardProof : P → Except String P
  requiresIronwoodProof : P → Bool
  createIronwoodProof : P → Except String P
  newSigner : P → Except String P
  signOrchard : P → ℕ → A → Except String P
  signIronwood : P → ℕ → A → Except String P
  /-- What the verifier reads of it. Its bundles may not parse. -/
  view : P → Except String FinalizedPczt
  /-- Extract the transaction, and serialize it. -/
  extract : P → Except String SignedTx
  reader : TxReader

/-- A planned transaction, at one of its stages. -/
structure ShieldedPlan (K P A : Type) where
  stage : Stage
  plan : PoolPlan K
  branchId : UInt32
  canonicalTip : CanonicalTip
  txVersion : String
  pczt : Option P
  /-- The actions to be signed, with their keys. -/
  orchardSign : List (ℕ × A)
  ironwoodSign : List (ℕ × A)
  /-- The commitment of the change, once the transaction is extracted. -/
  expectedChangeCmx : Option Bytes32
  signed : Option SignedTx
  planId : String
  intentHash : String

/-- The stage, as it is printed. -/
def Stage.debug : Stage → String
  | planned => "Planned"
  | proven => "Proven"
  | signed => "Signed"
  | extracted => "Extracted"

/-- What a call of a stage returns. -/
inductive StageAnswer where
  | proven
  | signed
  | extracted (tx : SignedTx)
  | verified (tx : VerifiedTransaction)
  deriving DecidableEq

/-- The stage that was passed. -/
def StageAnswer.stage : StageAnswer → Stage
  | proven => .proven
  | signed => .signed
  | extracted _ => .extracted
  | verified _ => .extracted

/-- A call of a stage, with what the node says of its tip. -/
inductive StageCall where
  | prove (tip : Except String CanonicalTip)
  | sign (tip : Except String CanonicalTip)
  | extract (tip : Except String CanonicalTip)
  /-- The node is asked twice. -/
  | extractVerified (tip again : Except String CanonicalTip)

section Roles

variable {K P A : Type} (R : PcztRoles P A) (C : NoteCrypto K)

/-- Create the proofs that are required. -/
def PcztRoles.createProofs (pczt : P) : Except String P := do
  let pczt ←
    if R.requiresOrchardProof pczt then
      (R.createOrchardProof pczt).mapError fun e => "orchard prove: " ++ e
    else return pczt
  if R.requiresIronwoodProof pczt then
    (R.createIronwoodProof pczt).mapError fun e => "ironwood prove: " ++ e
  else return pczt

/-- Sign the actions. -/
def PcztRoles.applySignatures (orchardSign ironwoodSign : List (ℕ × A)) (pczt : P) :
    Except String P := do
  let signer ← (R.newSigner pczt).mapError fun e => "signer init: " ++ e
  let signer ← orchardSign.foldlM (fun signer spend =>
    (R.signOrchard signer spend.1 spend.2).mapError fun e =>
      "orchard sign " ++ toString spend.1 ++ ": " ++ e) signer
  ironwoodSign.foldlM (fun signer spend =>
    (R.signIronwood signer spend.1 spend.2).mapError fun e =>
      "ironwood sign " ++ toString spend.1 ++ ": " ++ e) signer

namespace ShieldedPlan

variable (p : ShieldedPlan K P A)

/-- Take the transaction, and let a role work on it. -/
def advance {α : Type} (expected : Stage) (role : P → Except String α)
    (next : α → ShieldedPlan K P A) : Except String α × ShieldedPlan K P A :=
  if p.stage ≠ expected then
    (.error ("shielded plan is at stage " ++ p.stage.debug ++ ", expected " ++ expected.debug), p)
  else
    match p.pczt with
    | none => (.error "shielded plan has no PCZT", p)
    | some pczt =>
        match role pczt with
        | .error e => (.error e, { p with pczt := none })
        | .ok a => (.ok a, next a)

/-- Proves a planned plan. -/
def prove : Except String P × ShieldedPlan K P A :=
  p.advance .planned R.createProofs fun pczt => { p with pczt := some pczt, stage := .proven }

/-- Signs a proven plan. -/
def sign : Except String P × ShieldedPlan K P A :=
  p.advance .proven (R.applySignatures p.orchardSign p.ironwoodSign) fun pczt =>
    { p with pczt := some pczt, stage := .signed }

/-- Verify the finished transaction, and extract it. -/
def extractFrom (pczt : P) : Except String (Bytes32 × SignedTx) := do
  let changeCmx ← verifyFinalizedPczt C p.plan p.branchId (← R.view pczt)
  return (changeCmx, ← R.extract pczt)

/-- The plan whose transaction was extracted. -/
def withExtracted (changeCmx : Bytes32) (tx : SignedTx) : ShieldedPlan K P A :=
  { p with
    pczt := none
    expectedChangeCmx := some changeCmx
    signed := some tx
    stage := .extracted }

/-- Extracts a signed plan. -/
def extract : Except String SignedTx × ShieldedPlan K P A :=
  let (extracted, p) := p.advance .signed (p.extractFrom R C) fun extracted =>
    p.withExtracted extracted.1 extracted.2
  (extracted.map Prod.snd, p)

/-- The final check. -/
def verifyExtracted (tx : SignedTx) : Except String Unit :=
  p.plan.verifyExtracted R.reader p.branchId p.txVersion p.expectedChangeCmx tx

/-- Reject the plan if the canonical chain has changed. -/
def checkFreshness (tip : Except String CanonicalTip) : Except String CanonicalTip := do
  let current ← tip
  if p.canonicalTip ≠ current then
    throw ("StalePlan: chain state changed (planned " ++ toString p.canonicalTip.height ++ ":" ++
      hexEncode p.canonicalTip.hash.bytes ++ ", current " ++ toString current.height ++ ":" ++
      hexEncode current.hash.bytes ++ "); re-plan required")
  else return current

/-- A call on a plan that is fresh. -/
def guarded (tip : Except String CanonicalTip)
    (f : CanonicalTip → Except String StageAnswer × ShieldedPlan K P A) :
    Except String StageAnswer × ShieldedPlan K P A :=
  match p.checkFreshness tip with
  | .error e => (.error e, p)
  | .ok current => f current

/-- The final check of what was extracted. -/
def verified (tip : CanonicalTip) (tx : SignedTx) : Except String StageAnswer := do
  p.verifyExtracted R tx
  return .verified ⟨tx, p.planId, p.intentHash, tip⟩

/-- What a call to the plan does. -/
def call : StageCall → Except String StageAnswer × ShieldedPlan K P A
  | .prove tip => p.guarded tip fun _ => ((p.prove R).1.map fun _ => .proven, (p.prove R).2)
  | .sign tip => p.guarded tip fun _ => ((p.sign R).1.map fun _ => .signed, (p.sign R).2)
  | .extract tip => p.guarded tip fun _ =>
      ((p.extract R C).1.map .extracted, (p.extract R C).2)
  | .extractVerified tip again => p.guarded tip fun tip => p.guarded again fun _ =>
      ((p.extract R C).1.bind ((p.extract R C).2.verified R tip), (p.extract R C).2)

/-- What the calls return, in order. -/
def answers : List StageCall → ShieldedPlan K P A → List (Except String StageAnswer)
  | [], _ => []
  | c :: calls, p => (p.call R C c).1 :: answers calls (p.call R C c).2

end ShieldedPlan

end Roles

/-- The stages that were passed. -/
def passed (answers : List (Except String StageAnswer)) : List Stage :=
  answers.filterMap fun answer => answer.toOption.map StageAnswer.stage

/-! ### What a call does -/

section Calls

variable {K P A : Type} {R : PcztRoles P A} {C : NoteCrypto K}

namespace ShieldedPlan

variable {p p' : ShieldedPlan K P A}

/-- What a stage that works on the transaction comes to. -/
theorem advance_cases {α : Type} (expected : Stage) (role : P → Except String α)
    (next : α → ShieldedPlan K P A) :
    (∃ e pczt, (pczt = p.pczt ∨ pczt = none) ∧
      p.advance expected role next = (.error e, { p with pczt := pczt })) ∨
    ∃ pczt a, p.stage = expected ∧ p.pczt = some pczt ∧ role pczt = .ok a ∧
      p.advance expected role next = (.ok a, next a) := by
  rw [advance]
  by_cases hstage : p.stage ≠ expected
  · rw [if_pos hstage]
    exact .inl ⟨_, p.pczt, .inl rfl, rfl⟩
  rw [if_neg hstage]
  cases hpczt : p.pczt with
  | none =>
      dsimp only
      refine .inl ⟨_, p.pczt, .inl hpczt, rfl⟩
  | some pczt =>
      dsimp only
      cases hrole : role pczt with
      | error e => exact .inl ⟨e, none, .inr rfl, rfl⟩
      | ok a => exact .inr ⟨pczt, a, not_not.mp hstage, rfl, hrole, rfl⟩

/-- A tip that passes is that of the plan. -/
theorem checkFreshness_eq_ok {tip : Except String CanonicalTip} {current : CanonicalTip}
    (h : p.checkFreshness tip = .ok current) : current = p.canonicalTip := by
  rw [checkFreshness] at h
  obtain ⟨current', -, h⟩ := bind_eq_ok h
  split_ifs at h with hne
  rw [not_not.mp hne]
  exact (Except.ok.inj h).symm

/-- What a call may do to the plan, and what it returns. -/
inductive CallStep (R : PcztRoles P A) (C : NoteCrypto K) (p : ShieldedPlan K P A) :
    Except String StageAnswer → ShieldedPlan K P A → Prop
  | failed (e : String) {pczt : Option P} (hpczt : pczt = p.pczt ∨ pczt = none) :
      CallStep R C p (.error e) { p with pczt := pczt }
  | proven {x y : P} (hstage : p.stage = .planned) (hpczt : p.pczt = some x)
      (hrole : R.createProofs x = .ok y) :
      CallStep R C p (.ok .proven) { p with pczt := some y, stage := .proven }
  | signed {x y : P} (hstage : p.stage = .proven) (hpczt : p.pczt = some x)
      (hrole : R.applySignatures p.orchardSign p.ironwoodSign x = .ok y) :
      CallStep R C p (.ok .signed) { p with pczt := some y, stage := .signed }
  | extracted {x : P} {changeCmx : Bytes32} {tx : SignedTx} (hstage : p.stage = .signed)
      (hpczt : p.pczt = some x) (hrole : p.extractFrom R C x = .ok (changeCmx, tx)) :
      CallStep R C p (.ok (.extracted tx)) (p.withExtracted changeCmx tx)
  | verified {x : P} {changeCmx : Bytes32} {tx : SignedTx} (hstage : p.stage = .signed)
      (hpczt : p.pczt = some x) (hrole : p.extractFrom R C x = .ok (changeCmx, tx))
      (hverified : (p.withExtracted changeCmx tx).verifyExtracted R tx = .ok ()) :
      CallStep R C p (.ok (.verified ⟨tx, p.planId, p.intentHash, p.canonicalTip⟩))
        (p.withExtracted changeCmx tx)
  | unverified (e : String) {changeCmx : Bytes32} {tx : SignedTx} (hstage : p.stage = .signed) :
      CallStep R C p (.error e) (p.withExtracted changeCmx tx)

/-- A step behind the comparison of the tips. -/
theorem CallStep.guarded {tip : Except String CanonicalTip}
    {f : CanonicalTip → Except String StageAnswer × ShieldedPlan K P A}
    (h : CallStep R C p (f p.canonicalTip).1 (f p.canonicalTip).2) :
    CallStep R C p (p.guarded tip f).1 (p.guarded tip f).2 := by
  rw [ShieldedPlan.guarded]
  cases hfresh : p.checkFreshness tip with
  | error e => exact .failed e (.inl rfl)
  | ok current =>
      obtain rfl := checkFreshness_eq_ok hfresh
      exact h

/-- What extraction comes to. -/
theorem extract_cases (p : ShieldedPlan K P A) :
    (∃ e pczt, (pczt = p.pczt ∨ pczt = none) ∧
      p.extract R C = (.error e, { p with pczt := pczt })) ∨
    ∃ pczt changeCmx tx, p.stage = .signed ∧ p.pczt = some pczt ∧
      p.extractFrom R C pczt = .ok (changeCmx, tx) ∧
      p.extract R C = (.ok tx, p.withExtracted changeCmx tx) := by
  rw [extract]
  rcases advance_cases (p := p) .signed (p.extractFrom R C)
      (fun extracted => p.withExtracted extracted.1 extracted.2) with
    ⟨e, pczt, hpczt, heq⟩ | ⟨pczt, ⟨changeCmx, tx⟩, hstage, hpczt, hrole, heq⟩
  · rw [heq]
    exact .inl ⟨e, pczt, hpczt, rfl⟩
  · rw [heq]
    exact .inr ⟨pczt, changeCmx, tx, hstage, hpczt, hrole, rfl⟩

/-- **What a call does.** -/
theorem call_cases (p : ShieldedPlan K P A) (c : StageCall) :
    CallStep R C p (p.call R C c).1 (p.call R C c).2 := by
  cases c with
  | prove tip =>
      refine .guarded ?_
      dsimp only
      rw [prove]
      rcases advance_cases (p := p) .planned R.createProofs
          (fun pczt => { p with pczt := some pczt, stage := .proven }) with
        ⟨e, pczt, hpczt, heq⟩ | ⟨pczt, a, hstage, hpczt, hrole, heq⟩
      · rw [heq]
        exact .failed e hpczt
      · rw [heq]
        exact .proven hstage hpczt hrole
  | sign tip =>
      refine .guarded ?_
      dsimp only
      rw [sign]
      rcases advance_cases (p := p) .proven (R.applySignatures p.orchardSign p.ironwoodSign)
          (fun pczt => { p with pczt := some pczt, stage := .signed }) with
        ⟨e, pczt, hpczt, heq⟩ | ⟨pczt, a, hstage, hpczt, hrole, heq⟩
      · rw [heq]
        exact .failed e hpczt
      · rw [heq]
        exact .signed hstage hpczt hrole
  | extract tip =>
      refine .guarded ?_
      dsimp only
      rcases extract_cases (R := R) (C := C) p with
        ⟨e, pczt, hpczt, heq⟩ | ⟨pczt, changeCmx, tx, hstage, hpczt, hrole, heq⟩
      · rw [heq]
        exact .failed e hpczt
      · rw [heq]
        exact .extracted hstage hpczt hrole
  | extractVerified tip again =>
      refine .guarded (.guarded ?_)
      dsimp only
      rcases extract_cases (R := R) (C := C) p with
        ⟨e, pczt, hpczt, heq⟩ | ⟨pczt, changeCmx, tx, hstage, hpczt, hrole, heq⟩
      · rw [heq]
        exact .failed e hpczt
      · rw [heq]
        dsimp only [Except.bind]
        rw [ShieldedPlan.verified]
        cases hverified : (p.withExtracted changeCmx tx).verifyExtracted R tx with
        | error e => exact .unverified e hstage
        | ok _ => exact .verified hstage hpczt hrole hverified

/-! ### Runs of calls -/

/-- The transaction as a plan at this stage has it. -/
def Made (R : PcztRoles P A) (p : ShieldedPlan K P A) : Stage → P → Prop
  | .planned, pczt => p.pczt = some pczt
  | .proven, pczt => ∃ planned, p.pczt = some planned ∧ R.createProofs planned = .ok pczt
  | .signed, pczt => ∃ planned proven, p.pczt = some planned ∧
      R.createProofs planned = .ok proven ∧
      R.applySignatures p.orchardSign p.ironwoodSign proven = .ok pczt
  | .extracted, _ => False

/-- A plan, some calls later. -/
structure Later (R : PcztRoles P A) (p p' : ShieldedPlan K P A) : Prop where
  same : p' = { p with
    stage := p'.stage, pczt := p'.pczt, expectedChangeCmx := p'.expectedChangeCmx
    signed := p'.signed }
  made : ∀ pczt, p'.pczt = some pczt → p.Made R p'.stage pczt

/-- A plan that nothing was called on. -/
theorem Later.refl (h : p.stage = .planned) : Later R p p :=
  ⟨rfl, fun pczt hpczt => by rwa [h]⟩

/-- **One call** works on what the calls before have made. -/
theorem Later.step {p₀ : ShieldedPlan K P A} {r : Except String StageAnswer}
    (h : Later R p₀ p) (hstep : CallStep R C p r p') : Later R p₀ p' := by
  have hsame := h.same
  cases hstep with
  | @failed e pczt hpczt =>
      refine ⟨by rw [hsame], fun x hx => ?_⟩
      rcases hpczt with rfl | rfl
      · exact h.made x hx
      · cases hx
  | @proven x y hstage hpczt hrole =>
      refine ⟨by rw [hsame], fun z hz => ?_⟩
      obtain rfl := Option.some.inj hz
      have hmade := h.made x hpczt
      rw [hstage] at hmade
      exact ⟨x, hmade, hrole⟩
  | @signed x y hstage hpczt hrole =>
      refine ⟨by rw [hsame], fun z hz => ?_⟩
      obtain rfl := Option.some.inj hz
      have hmade := h.made x hpczt
      rw [hstage] at hmade
      obtain ⟨planned, hplanned, hproven⟩ := hmade
      rw [hsame] at hrole
      exact ⟨planned, x, hplanned, hproven, hrole⟩
  | extracted => exact ⟨by rw [hsame]; rfl, fun x hx => (nomatch hx)⟩
  | verified => exact ⟨by rw [hsame]; rfl, fun x hx => (nomatch hx)⟩
  | unverified => exact ⟨by rw [hsame]; rfl, fun x hx => (nomatch hx)⟩

/-- The transaction came out of the plan: it was proved, signed, compared with the plan, extracted
and compared with it again, and it pays as planned. -/
structure Authorized (R : PcztRoles P A) (C : NoteCrypto K) (p : ShieldedPlan K P A)
    (v : VerifiedTransaction) : Prop where
  identity : v.planId = p.planId ∧ v.intentHash = p.intentHash ∧ v.verifiedTip = p.canonicalTip
  made : ∃ pczt view cmx, p.Made R .signed pczt ∧ R.view pczt = .ok view ∧
    verifyFinalizedPczt C p.plan p.branchId view = .ok cmx ∧ R.extract pczt = .ok v.signed
  pays : ∃ final, R.reader.read p.branchId v.signed.bytes = .ok final ∧ PaysPlan C p.plan final

/-- **A call that verifies** returns a transaction that pays as planned. -/
theorem CallStep.authorized {W : PoolBackend K} {p₀ : ShieldedPlan K P A} (hplan : W.Plans p₀.plan)
    (hindexed : p₀.plan.expected.Indexed)
    (hmoney : expectedTotal p₀.plan.expected.spends ≤ NoteStore.maxMoney) (hlater : Later R p₀ p)
    {v : VerifiedTransaction} (hstep : CallStep R C p (.ok (.verified v)) p') :
    Authorized R C p₀ v := by
  cases hstep with
  | @verified x changeCmx tx hstage hpczt hrole hverified =>
      have hmade := hlater.made x hpczt
      rw [hstage] at hmade
      rw [hlater.same] at hrole hverified ⊢
      obtain ⟨view, hview, hrole⟩ := bind_eq_ok hrole
      obtain ⟨cmx, haccepted, hrole⟩ := bind_eq_ok hrole
      obtain ⟨extracted, hextract, hrole⟩ := bind_eq_ok hrole
      cases hrole
      obtain ⟨-, -, hbundles⟩ := verifyFinalizedPczt_eq_ok haccepted
      exact ⟨⟨rfl, rfl, rfl⟩, ⟨x, view, _, hmade, hview, haccepted, hextract⟩,
        verifyExtracted_eq_ok hplan hindexed hmoney hbundles hverified⟩

end ShieldedPlan

/-- The stages that are still ahead. -/
def Stage.ahead : Stage → List Stage
  | planned => [.proven, .signed, .extracted]
  | proven => [.signed, .extracted]
  | signed => [.extracted]
  | extracted => []

namespace ShieldedPlan

variable {p p' : ShieldedPlan K P A}

/-- **One call** passes the next stage or none. -/
theorem CallStep.ahead {r : Except String StageAnswer} (h : CallStep R C p r p') :
    (r.toOption.map StageAnswer.stage).toList ++ p'.stage.ahead <+: p.stage.ahead := by
  cases h with
  | failed => exact List.prefix_refl _
  | proven hstage =>
      rw [hstage]
      exact List.prefix_refl _
  | signed hstage =>
      rw [hstage]
      exact List.prefix_refl _
  | extracted hstage =>
      rw [hstage]
      exact List.prefix_refl _
  | verified hstage =>
      rw [hstage]
      exact List.prefix_refl _
  | unverified => exact List.nil_prefix

/-- **The stages are passed in order**, and once each. -/
theorem passed_answers (calls : List StageCall) (p : ShieldedPlan K P A) :
    passed (answers R C calls p) <+: p.stage.ahead := by
  induction calls generalizing p with
  | nil => exact List.nil_prefix
  | cons c calls ih =>
      have hstep := (call_cases (R := R) (C := C) p c).ahead
      have hrest := ih (p.call R C c).2
      rw [answers, passed, List.filterMap_cons]
      cases hpassed : (p.call R C c).1.toOption.map StageAnswer.stage with
      | none =>
          rw [hpassed] at hstep
          exact hrest.trans hstep
      | some stage =>
          rw [hpassed] at hstep
          exact ((List.prefix_cons_inj stage).mpr hrest).trans hstep

/-- **What comes out verified**, after some calls or many. -/
theorem Later.authorized {W : PoolBackend K} {p₀ : ShieldedPlan K P A} (hplan : W.Plans p₀.plan)
    (hindexed : p₀.plan.expected.Indexed)
    (hmoney : expectedTotal p₀.plan.expected.spends ≤ NoteStore.maxMoney) {calls : List StageCall}
    (hlater : Later R p₀ p) {v : VerifiedTransaction}
    (hv : .ok (.verified v) ∈ answers R C calls p) : Authorized R C p₀ v := by
  induction calls generalizing p with
  | nil => cases hv
  | cons c calls ih =>
      have hstep := call_cases (R := R) (C := C) p c
      rw [answers, List.mem_cons] at hv
      rcases hv with hhere | hrest
      · rw [← hhere] at hstep
        exact hstep.authorized hplan hindexed hmoney hlater
      · exact ih (hlater.step hstep) hrest

/-- **Whatever is called on a plan**, by whom and in whatever order, and whatever fails, its stages
are passed in order and once each, and a transaction that comes out verified pays as planned. -/
theorem authorized_pays_plan {W : PoolBackend K} (R : PcztRoles P A) (C : NoteCrypto K)
    (hplanned : p.stage = .planned) (hplan : W.Plans p.plan) (hindexed : p.plan.expected.Indexed)
    (hmoney : expectedTotal p.plan.expected.spends ≤ NoteStore.maxMoney) (calls : List StageCall) :
    passed (p.answers R C calls) <+: [.proven, .signed, .extracted] ∧
    ∀ v, .ok (.verified v) ∈ p.answers R C calls → p.Authorized R C v := by
  have hpassed := passed_answers (R := R) (C := C) calls p
  rw [hplanned] at hpassed
  exact ⟨hpassed, fun v hv => (Later.refl hplanned).authorized hplan hindexed hmoney hv⟩

end ShieldedPlan

end Calls

/-! ### A call that spends one note -/

/-- Roles that do not fail. -/
def oneNoteRoles : PcztRoles FinalizedPczt Unit where
  requiresOrchardProof _ := true
  createOrchardProof pczt := .ok pczt
  requiresIronwoodProof _ := true
  createIronwoodProof pczt := .ok pczt
  newSigner pczt := .ok pczt
  signOrchard pczt _ _ := .ok pczt
  signIronwood pczt _ _ := .ok pczt
  view pczt := .ok pczt
  extract _ := .ok ⟨[6], .replicate 8⟩
  reader := oneNoteReader [9]

/-- A tip. -/
def oneNoteTip : CanonicalTip := ⟨100, .replicate 9⟩

/-- A plan with one note. -/
def oneNoteShielded : ShieldedPlan Unit FinalizedPczt Unit where
  stage := .planned
  plan := oneNotePlan
  branchId := 5
  canonicalTip := oneNoteTip
  txVersion := "v6"
  pczt := some ⟨140, 5, [], [⟨0, opReturnScript [9]⟩], oneNoteOrchard, oneNoteIronwood⟩
  orchardSign := [(1, ())]
  ironwoodSign := []
  expectedChangeCmx := none
  signed := none
  planId := "plan"
  intentHash := "intent"

/-- Signing is refused until the proofs are there. -/
def oneNoteCalls : List StageCall :=
  [.sign (.ok oneNoteTip), .prove (.ok oneNoteTip), .sign (.ok oneNoteTip),
    .extractVerified (.ok oneNoteTip) (.ok oneNoteTip)]

/-- Signing is refused before proving; then all stages are passed. -/
theorem answers_oneNote : oneNoteShielded.answers oneNoteRoles openNotes oneNoteCalls =
    [.error "shielded plan is at stage Planned, expected Proven", .ok .proven, .ok .signed,
      .ok (.verified ⟨⟨[6], .replicate 8⟩, "plan", "intent", oneNoteTip⟩)] := rfl

/-- What comes out was authorized. -/
theorem authorized_pays_plan_oneNote :
    oneNoteShielded.Authorized oneNoteRoles openNotes
      ⟨⟨[6], .replicate 8⟩, "plan", "intent", oneNoteTip⟩ := by
  have hplan : oneNoteBackend.Plans oneNoteShielded.plan :=
    .call (show oneNoteBackend.planCall [9] = .ok oneNotePlan from rfl)
  have hindexed : oneNoteShielded.plan.expected.Indexed := by
    rintro (_ | _)
    · decide
    · decide
  have hpays := ShieldedPlan.authorized_pays_plan oneNoteRoles openNotes rfl hplan hindexed
    (by decide) oneNoteCalls
  have hlast : .ok (.verified ⟨⟨[6], .replicate 8⟩, "plan", "intent", oneNoteTip⟩) ∈
      oneNoteShielded.answers oneNoteRoles openNotes oneNoteCalls := by
    rw [answers_oneNote]
    simp
  exact hpays.2 _ hlast

end Zalkanes
