import Zalkanes.Wallet.ShieldedStages

/-!
# What an Intent Hash Decides

The intent hash of a plan is the hash of what its planner gives to `commit_plan`. What is hashed
already says what the transaction is going to do (`CommitArgs.payment`), and a transaction that
passes the final check of its plan does it (`Verifies.makes`), as far as the check looks: that of a
transparent plan compares the transparent part, that of a shielded plan also the notes, the pools
and the change. So two transactions that are verified under one hash are of the same planner, and
make the same payment.

## Main results

* `Verifies.makes`: a verified transaction makes the payment that its plan is committed to.
* `intent_decides_payment`: transactions that are verified under one hash make one payment.
-/

namespace Zalkanes

open Lib

/-! ### What the planners commit to -/

/-- The payload of a request, if it has one. -/
def TxRequest.opReturnPayload : TxRequest → Option Bytes
  | .prepare _ => none
  | .deploy _ _ _ opReturn => some opReturn
  | .call opReturn => some opReturn

/-- The kind, as it is committed. -/
def TxRequest.kindByte : TxRequest → UInt8
  | .prepare _ => 0
  | .deploy _ _ _ _ => 1
  | .call _ => 2

/-- An input as it is hashed, in the transparent pool. -/
def SpendInput.planInput (i : SpendInput) : PlanInput :=
  ⟨0, i.outpoint.hash, i.outpoint.n, .ofNat i.value⟩

/-- An output as it is hashed. -/
def SpendOutput.planOutput (o : SpendOutput) : PlanOutput := ⟨.ofNat o.value, o.scriptPubkey⟩

/-- What a transparent plan is committed to. -/
def TransparentPlan.commitArgs (plan : TransparentPlan) (ctx : FundContext) (branchId : UInt32) :
    CommitArgs where
  networkId := ctx.network.idByte
  protocolVersion := 0
  pool := 0
  chainTipHeight := ctx.chainTip.height
  chainTipHash := ctx.chainTip.hash
  targetHeight := ctx.targetHeight
  branchId := branchId
  txVersion := 5
  expiryHeight := 0
  inputs := plan.prepared.inputs.map SpendInput.planInput
  anchors := []
  transparentOutputs := plan.prepared.outputs.map SpendOutput.planOutput
  shieldedChange := none
  fee := .ofNat plan.prepared.fee
  zalkPayload := plan.request.opReturnPayload.getD []
  kind := plan.request.kindByte

section Shielded

variable {K P A : Type}

/-- The anchor of a pool. -/
def PoolSelection.anchor (sel : PoolSelection K) : ValuePool → Option Bytes32
  | .orchard => sel.orchardAnchor
  | .ironwood => sel.ironwoodAnchor

/-- The anchor of a pool that notes are spent of. -/
def PoolSelection.planAnchor (sel : PoolSelection K) (anchorHeight : UInt32) (pool : ValuePool) :
    Except String (List PlanAnchor) :=
  if sel.spends.any fun s => s.pool = pool then
    match sel.anchor pool with
    | none => .error (pool.debug ++ " spend without " ++ pool.debug ++ " anchor")
    | some root => .ok [⟨.ofNat (poolTag pool), anchorHeight, root⟩]
  else .ok []

/-- What the wallet and the builder say of a selection and its transaction, besides. -/
structure PoolDetails (P A : Type) where
  /-- Where the selected notes were received. -/
  outputRefs : List OutPoint
  anchorHeight : UInt32
  txVersion : String
  pczt : P
  orchardSign : List (ℕ × A)
  ironwoodSign : List (ℕ × A)
  planId : String

/-- A selected note, as it is committed. -/
def PoolSpend.planInput (s : PoolSpend) (ref : OutPoint) : PlanInput :=
  ⟨.ofNat (poolTag s.pool), ref.hash, ref.n, s.value⟩

/-- What a shielded plan is committed to. -/
def PoolPlan.commitArgs (plan : PoolPlan K) (ctx : FundContext) (branchId : UInt32)
    (d : PoolDetails P A) (request : TxRequest) : Except String CommitArgs := do
  let orchard ← plan.selection.planAnchor d.anchorHeight .orchard
  let ironwood ← plan.selection.planAnchor d.anchorHeight .ironwood
  return {
    networkId := ctx.network.idByte
    protocolVersion := 0
    pool := 1
    chainTipHeight := ctx.chainTip.height
    chainTipHash := ctx.chainTip.hash
    targetHeight := ctx.targetHeight
    branchId := branchId
    txVersion := if d.txVersion = "v6" then 6 else 5
    expiryHeight := plan.expiryHeight
    inputs := List.zipWith PoolSpend.planInput plan.selection.spends d.outputRefs
    anchors := orchard ++ ironwood
    transparentOutputs := plan.transparentOutputs
    shieldedChange := some ⟨.ofNat plan.change, .ofNat (poolTag plan.selection.changePool),
      plan.selection.changeAddress⟩
    fee := .ofNat plan.fee
    zalkPayload := request.opReturnPayload.getD []
    kind := request.kindByte }

/-- Plan a request of the shielded pools. The script is that of the carrier key, if there is one. -/
def PoolBackend.planRequest (W : PoolBackend K) (carrierScript : Option Bytes) :
    TxRequest → Except String (PoolPlan K)
  | .call opReturn => W.planCall opReturn
  | .prepare carrierValues =>
      match carrierScript with
      | none => .error "shielded PREPARE requires a transparent carrier key"
      | some script => W.planPrepare script (carrierValues.map UInt64.ofNat)
  | .deploy _ _ _ _ => .error ("DEPLOY is a transparent carrier-input transaction; shielded " ++
      "funding applies to PREPARE and CALL (see docs/adr/0007-wallet-funding.md)")

/-- The plan, ready to be proved, with its intent hash. -/
def PoolPlan.ready (H : Hashing) (plan : PoolPlan K) (ctx : FundContext) (branchId : UInt32)
    (d : PoolDetails P A) (args : CommitArgs) : ShieldedPlan K P A where
  stage := .planned
  plan := plan
  branchId := branchId
  canonicalTip := ctx.chainTip
  txVersion := d.txVersion
  pczt := some d.pczt
  orchardSign := d.orchardSign
  ironwoodSign := d.ironwoodSign
  expectedChangeCmx := none
  signed := none
  planId := d.planId
  intentHash := commitPlan H args

end Shielded

/-! ### What a commitment means -/

/-- What a transaction does. -/
structure Payment where
  /-- The transparent outputs that are spent. -/
  prevouts : List OutPoint
  outputs : List SpendOutput
  expiryHeight : UInt32
  /-- The notes that are spent. -/
  spends : List PoolSpend
  /-- The note that is returned: its pool, its value and its address. -/
  change : Option (ValuePool × UInt64 × Bytes)
  fee : ℕ

/-- The pool of a tag. -/
def poolOfTag (tag : UInt8) : Option ValuePool :=
  if tag = 1 then some .orchard else if tag = 2 then some .ironwood else none

/-- The transparent output that an input spends. -/
def PlanInput.prevout? (i : PlanInput) : Option OutPoint :=
  if i.pool = 0 then some ⟨i.txid, i.outputIndex⟩ else none

/-- The note that an input spends. -/
def PlanInput.spend? (nullifierOf : ValuePool → OutPoint → Bytes32) (i : PlanInput) :
    Option PoolSpend :=
  (poolOfTag i.pool).map fun pool => ⟨pool, nullifierOf pool ⟨i.txid, i.outputIndex⟩, i.value⟩

/-- The payment that is committed to, where every note has its nullifier. -/
def CommitArgs.payment (nullifierOf : ValuePool → OutPoint → Bytes32) (args : CommitArgs) :
    Payment where
  prevouts := args.inputs.filterMap PlanInput.prevout?
  outputs := args.transparentOutputs.map PlanOutput.written
  expiryHeight := args.expiryHeight
  spends := args.inputs.filterMap (PlanInput.spend? nullifierOf)
  change := args.shieldedChange.bind fun c =>
    (poolOfTag c.pool).map fun pool => (pool, c.value, c.destinationBytes)
  fee := args.fee.toNat

namespace Payment

variable (p : Payment)

/-- What the notes of a pool are worth. -/
def spent (pool : ValuePool) : ℕ :=
  ((p.spends.filter fun s => s.pool = pool).map fun s => s.value.toNat).sum

/-- The change that returns to a pool. -/
def returned (pool : ValuePool) : ℕ :=
  p.change.elim 0 fun c => changeOf pool c.1 c.2.1.toNat

/-- The transparent part of a transaction is that of the payment. -/
structure Transparent (expiryHeight : UInt32) (bundle : Option TransparentBundle) : Prop where
  expiry : expiryHeight = p.expiryHeight
  bundle : ∃ b, bundle = some b ∧ b.vin.map TxIn.prevout = p.prevouts ∧ b.vout = p.outputs

/-- The shielded part of a transaction is that of the payment: it reveals the nullifiers of the
notes, returns the change in a note that can be opened, and moves nothing else. -/
structure Shielded {K : Type} (C : NoteCrypto K) (tx : ShieldedTransaction) : Prop where
  spends : ∀ s ∈ p.spends, ∃ action ∈ tx.actions s.pool, action.nullifier = s.nullifier
  change : ∀ c, p.change = some c → ∃ action ∈ tx.actions c.1, ∃ note ivk,
    action.cmx = note.output.cmx ∧ C.verifyNoteCommitment note = .ok () ∧
    C.tryNoteDecryption c.1 ivk note = some c.2
  balance : ∀ pool, tx.balance pool = p.spent pool - p.returned pool
  sapling : tx.saplingBalance = 0
  total : tx.balance .orchard + tx.balance .ironwood =
    (p.fee + (p.outputs.map SpendOutput.value).sum : ℕ)

end Payment

/-- A final transaction, as the check of its plan reads it. The check of a transparent plan looks at
no shielded bundle, so nothing of one is read: the transaction may carry bundles that no check has
seen. -/
inductive FinalTransaction where
  | transparent (tx : Transaction)
  | shielded (tx : ShieldedTransaction)

/-- The pool of the plan, as it is committed. -/
def FinalTransaction.poolByte : FinalTransaction → UInt8
  | transparent _ => 0
  | shielded _ => 1

/-- **The transaction makes the payment**, in the parts that its plan is about: the transparent part
of a transparent plan's transaction, and of a shielded plan's the transparent and the shielded
part. -/
def FinalTransaction.Makes {K : Type} (C : NoteCrypto K) (p : Payment) : FinalTransaction → Prop
  | .transparent tx => p.Transparent tx.expiryHeight tx.transparentBundle
  | .shielded tx => p.Transparent tx.expiryHeight tx.transparentBundle ∧ p.Shielded C tx

/-- A plan was committed to under a hash, and the transaction passed its final check. -/
inductive Verifies {K : Type} (H : Hashing) (C : NoteCrypto K)
    (nullifierOf : ValuePool → OutPoint → Bytes32) :
    String → CommitArgs → FinalTransaction → Prop
  | transparent {hash160 : Hash160} {funding : TransparentFunding} {request : TxRequest}
      {plan : TransparentPlan} (ctx : FundContext) (branchId : UInt32)
      (hplan : funding.plan hash160 request = .ok plan)
      {read : Bytes → Except String Transaction} {tx : SignedTx} {parsed : Transaction}
      (hread : read tx.bytes = .ok parsed) (hverified : plan.verifyExtracted H read tx = .ok ()) :
      Verifies H C nullifierOf (commitPlan H (plan.commitArgs ctx branchId))
        (plan.commitArgs ctx branchId) (.transparent parsed)
  | shielded {P A : Type} {W : PoolBackend K} {carrierScript : Option Bytes} {request : TxRequest}
      {plan : PoolPlan K} {ctx : FundContext} {branchId : UInt32} {d : PoolDetails P A}
      {args : CommitArgs} (hplan : W.planRequest carrierScript request = .ok plan)
      (hargs : plan.commitArgs ctx branchId d request = .ok args)
      -- the wallet says of every selected note where it was received
      (hrefs : d.outputRefs.length = plan.selection.spends.length)
      (hnotes : ∀ e ∈ plan.selection.spends.zip d.outputRefs,
        e.1.nullifier = nullifierOf e.1.pool e.2)
      (hindexed : plan.expected.Indexed)
      (hmoney : expectedTotal plan.expected.spends ≤ NoteStore.maxMoney)
      {R : PcztRoles P A} {calls : List StageCall} {v : VerifiedTransaction}
      {final : ShieldedTransaction}
      (hv : .ok (.verified v) ∈ (plan.ready H ctx branchId d args).answers R C calls)
      (hread : R.reader.read branchId v.signed.bytes = .ok final) :
      Verifies H C nullifierOf v.intentHash args (.shielded final)

/-! ### Transparent transactions -/

section Transparent

/-- Inputs that pass are the planned ones. -/
theorem verifyPrevouts_eq_ok {i : ℕ} {vin : List TxIn} {inputs : List SpendInput}
    (hlength : vin.length = inputs.length) (h : verifyPrevouts i (vin.zip inputs) = .ok ()) :
    vin.map TxIn.prevout = inputs.map SpendInput.outpoint := by
  induction vin generalizing i inputs with
  | nil =>
      rw [List.eq_nil_of_length_eq_zero hlength.symm]
      rfl
  | cons txin vin ih =>
      cases inputs with
      | nil => cases hlength
      | cons input inputs =>
          rw [List.zip_cons_cons, verifyPrevouts] at h
          split_ifs at h with hprevout
          rw [List.map_cons, List.map_cons, not_not.mp hprevout, ih (Nat.succ.inj hlength) h]

/-- The values that are added up fit in 64 bits. -/
theorem lt_of_checkedAdds {values : List ℕ} {acc total : ℕ}
    (h : values.foldlM (fun acc v => checkedAdd acc v) acc = some total) :
    ∀ v ∈ values, v < 2 ^ 64 := by
  induction values generalizing acc with
  | nil => simp
  | cons value values ih =>
      rw [List.foldlM_cons] at h
      obtain ⟨next, hnext, hrest⟩ := Option.bind_eq_some_iff.mp h
      obtain ⟨hlt, -⟩ := checkedAdd_eq_some.mp hnext
      intro v hv
      rcases List.mem_cons.mp hv with rfl | hv
      · omega
      · exact ih hrest v hv

/-- **What is compared of a transparent transaction** that passes. -/
theorem TransparentPlan.compared {H : Hashing} {read : Bytes → Except String Transaction}
    {plan : TransparentPlan} {tx : SignedTx} {parsed : Transaction}
    (hread : read tx.bytes = .ok parsed) (h : plan.verifyExtracted H read tx = .ok ()) :
    parsed.expiryHeight = 0 ∧ ∃ bundle, parsed.transparentBundle = some bundle ∧
      bundle.vin.map TxIn.prevout = plan.prepared.inputs.map SpendInput.outpoint ∧
      bundle.vout = plan.prepared.outputs ∧ ∀ o ∈ plan.prepared.outputs, o.value < 2 ^ 64 := by
  rw [TransparentPlan.verifyExtracted, hread] at h
  obtain ⟨parsed', hparsed, h⟩ := bind_eq_ok h
  cases hparsed
  split_ifs at h with hversion hexpiry
  refine ⟨not_not.mp hexpiry, ?_⟩
  split at h
  · cases h
  rename_i bundle hbundle
  dsimp only at h
  by_cases hinputs : bundle.vin.length ≠ plan.prepared.inputs.length
  · rw [if_pos hinputs] at h
    cases h
  rw [if_neg hinputs] at h
  obtain ⟨_, hprevouts, h⟩ := bind_eq_ok h
  by_cases houtputs : bundle.vout.length ≠ plan.prepared.outputs.length
  · rw [if_pos houtputs] at h
    cases h
  rw [if_neg houtputs] at h
  obtain ⟨_, hcompare, h⟩ := bind_eq_ok h
  obtain ⟨_, -, h⟩ := bind_eq_ok h
  obtain ⟨_, -, h⟩ := bind_eq_ok h
  have hvout := verifyOutputs_eq_ok (not_not.mp houtputs) hcompare
  refine ⟨bundle, hbundle, verifyPrevouts_eq_ok (not_not.mp hinputs) hprevouts, hvout, ?_⟩
  cases hsum : checkedSum (bundle.vout.map SpendOutput.value) with
  | none =>
      rw [hsum] at h
      cases h
  | some total =>
      intro o ho
      rw [hvout] at hsum
      exact lt_of_checkedAdds hsum o.value (List.mem_map_of_mem ho)

/-- The outputs are committed to as they are. -/
theorem map_written_planOutput {outputs : List SpendOutput}
    (h : ∀ o ∈ outputs, o.value < 2 ^ 64) :
    (outputs.map SpendOutput.planOutput).map PlanOutput.written = outputs := by
  rw [List.map_map]
  refine (List.map_congr_left fun o ho => ?_).trans (List.map_id _)
  cases o with
  | mk value script =>
      show SpendOutput.mk (UInt64.ofNat value).toNat script = _
      rw [UInt64.toNat_ofNat_of_lt' (h _ ho)]
      rfl

/-- **A transparent transaction** makes the payment. -/
theorem TransparentPlan.makes {H : Hashing} {read : Bytes → Except String Transaction}
    {plan : TransparentPlan} {tx : SignedTx} {parsed : Transaction}
    (nullifierOf : ValuePool → OutPoint → Bytes32) (ctx : FundContext) (branchId : UInt32)
    (hread : read tx.bytes = .ok parsed) (h : plan.verifyExtracted H read tx = .ok ()) :
    ((plan.commitArgs ctx branchId).payment nullifierOf).Transparent parsed.expiryHeight
      parsed.transparentBundle := by
  obtain ⟨hexpiry, bundle, hbundle, hprevouts, hvout, hvalues⟩ := plan.compared hread h
  refine ⟨hexpiry, bundle, hbundle, hprevouts.trans ?_,
    hvout.trans (map_written_planOutput hvalues).symm⟩
  show _ = (plan.prepared.inputs.map SpendInput.planInput).filterMap PlanInput.prevout?
  rw [List.filterMap_map, ← List.filterMap_eq_map]
  rfl

end Transparent

/-! ### Shielded transactions -/

section Pools

variable {K P A : Type} {plan : PoolPlan K}

/-- A pool is read from its byte. -/
theorem poolOfTag_poolTag (pool : ValuePool) : poolOfTag (.ofNat (poolTag pool)) = some pool := by
  cases pool <;> rfl

/-- A note is no transparent output. -/
theorem PoolSpend.prevout?_planInput (s : PoolSpend) (ref : OutPoint) :
    (s.planInput ref).prevout? = none := by
  rw [PlanInput.prevout?, PoolSpend.planInput]
  cases s.pool <;> rfl

/-- A note is read from what is hashed. -/
theorem PoolSpend.spend?_planInput (nullifierOf : ValuePool → OutPoint → Bytes32) (s : PoolSpend)
    (ref : OutPoint) :
    (s.planInput ref).spend? nullifierOf = some ⟨s.pool, nullifierOf s.pool ref, s.value⟩ := by
  rw [PlanInput.spend?, PoolSpend.planInput]
  dsimp only
  rw [poolOfTag_poolTag]
  rfl

/-- The committed inputs are no transparent outputs. -/
theorem prevouts_planInputs (spends : List PoolSpend) (refs : List OutPoint) :
    (List.zipWith PoolSpend.planInput spends refs).filterMap PlanInput.prevout? = [] := by
  rw [List.filterMap_eq_nil_iff]
  intro i hi
  rw [← List.map_uncurry_zip_eq_zipWith] at hi
  obtain ⟨⟨s, ref⟩, -, rfl⟩ := List.mem_map.mp hi
  exact s.prevout?_planInput ref

/-- The committed inputs are the selected notes. -/
theorem spends_planInputs {nullifierOf : ValuePool → OutPoint → Bytes32} {spends : List PoolSpend}
    {refs : List OutPoint} (hrefs : refs.length = spends.length)
    (hnotes : ∀ e ∈ spends.zip refs, e.1.nullifier = nullifierOf e.1.pool e.2) :
    (List.zipWith PoolSpend.planInput spends refs).filterMap (PlanInput.spend? nullifierOf) =
      spends := by
  induction spends generalizing refs with
  | nil => rfl
  | cons s spends ih =>
      cases refs with
      | nil => cases hrefs
      | cons ref refs =>
          have hhead : s.nullifier = nullifierOf s.pool ref := hnotes (s, ref) List.mem_cons_self
          rw [List.zipWith_cons_cons, List.filterMap_cons, s.spend?_planInput, ← hhead,
            ih (Nat.succ.inj hrefs) fun e he => hnotes e (List.mem_cons_of_mem _ he)]

/-- The note of an expected spend. -/
def ExpectedSpend.note (s : ExpectedSpend) : PoolSpend := ⟨s.pool, s.nullifier, s.value⟩

/-- The tally has the notes that were spent. -/
theorem notes_tallySpends {built : BuiltPools} {spends : List PoolSpend} {t t' : SpendTally}
    (h : spends.foldlM (tallySpend built) t = .ok t') :
    t'.spends.map ExpectedSpend.note = t.spends.map ExpectedSpend.note ++ spends := by
  induction spends generalizing t with
  | nil =>
      obtain rfl := Except.ok.inj h
      rw [List.append_nil]
  | cons s spends ih =>
      rw [List.foldlM_cons] at h
      obtain ⟨middle, hstep, hrest⟩ := bind_eq_ok h
      obtain ⟨⟨actionIndex, hspends⟩, -⟩ := tallySpend_eq_ok hstep
      rw [ih hrest, hspends, List.map_append, List.append_assoc]
      rfl

/-- **The expected spends are the selected notes.** -/
theorem PoolPlan.Funded.notes (h : plan.Funded) :
    plan.expected.spends.map ExpectedSpend.note = plan.selection.spends := by
  obtain ⟨built, hexpected⟩ := h.expected
  rw [buildExpectations] at hexpected
  obtain ⟨t, htally, hexpected⟩ := bind_eq_ok hexpected
  have hnotes := notes_tallySpends htally
  cases hindex : (built.meta plan.selection.changePool).outputIndices[0]? with
  | none =>
      rw [hindex] at hexpected
      cases hexpected
  | some changeActionIndex =>
      rw [hindex] at hexpected
      dsimp only at hexpected
      cases hchange : toI64 plan.change with
      | none =>
          rw [hchange] at hexpected
          cases hexpected
      | some changeI64 =>
          rw [hchange] at hexpected
          rw [← Except.ok.inj hexpected]
          exact hnotes

/-- What is selected fits in 64 bits, and so do the fee and the change. -/
theorem PoolPlan.Funded.fits (h : plan.Funded) : plan.fee < 2 ^ 64 ∧ plan.change < 2 ^ 64 := by
  have hlt : plan.selection.selectedValue < 2 ^ 64 := Nat.mod_lt _ (by decide)
  have hbalanced := h.balanced
  omega

/-- What is planned is a plan. -/
theorem PoolBackend.plans_of_planRequest {W : PoolBackend K} {carrierScript : Option Bytes}
    {request : TxRequest} (h : W.planRequest carrierScript request = .ok plan) : W.Plans plan := by
  cases request with
  | call opReturn => exact .call h
  | prepare carrierValues =>
      cases carrierScript with
      | none => cases h
      | some script => exact .prepare h
  | deploy chunks carrierOutpoints carrierValues opReturn => cases h

/-- What comes out of a plan that is ready was authorized. -/
theorem PoolPlan.authorized_of_ready {H : Hashing} {C : NoteCrypto K} {W : PoolBackend K}
    {R : PcztRoles P A} {ctx : FundContext} {branchId : UInt32} {d : PoolDetails P A}
    {args : CommitArgs} {calls : List StageCall} {v : VerifiedTransaction} (hplan : W.Plans plan)
    (hindexed : plan.expected.Indexed)
    (hmoney : expectedTotal plan.expected.spends ≤ NoteStore.maxMoney)
    (hv : .ok (.verified v) ∈ (plan.ready H ctx branchId d args).answers R C calls) :
    (plan.ready H ctx branchId d args).Authorized R C v := by
  have hplanned : (plan.ready H ctx branchId d args).stage = .planned := rfl
  exact (ShieldedPlan.Later.refl hplanned).authorized hplan hindexed hmoney hv

/-- What a shielded plan is committed to, in terms of a payment. -/
theorem PoolPlan.payment_commitArgs {ctx : FundContext} {branchId : UInt32} {d : PoolDetails P A}
    {request : TxRequest} {args : CommitArgs} {nullifierOf : ValuePool → OutPoint → Bytes32}
    (hfunded : plan.Funded) (hargs : plan.commitArgs ctx branchId d request = .ok args)
    (hrefs : d.outputRefs.length = plan.selection.spends.length)
    (hnotes : ∀ e ∈ plan.selection.spends.zip d.outputRefs,
      e.1.nullifier = nullifierOf e.1.pool e.2) :
    args.payment nullifierOf =
      ⟨[], plan.transparentOutputs.map PlanOutput.written, plan.expiryHeight,
        plan.selection.spends,
        some (plan.selection.changePool, .ofNat plan.change, plan.selection.changeAddress),
        plan.fee⟩ := by
  rw [PoolPlan.commitArgs] at hargs
  obtain ⟨orchard, -, hargs⟩ := bind_eq_ok hargs
  obtain ⟨ironwood, -, hargs⟩ := bind_eq_ok hargs
  obtain rfl := Except.ok.inj hargs
  rw [CommitArgs.payment]
  dsimp only
  rw [prevouts_planInputs, spends_planInputs hrefs hnotes, Option.bind_some, poolOfTag_poolTag,
    UInt64.toNat_ofNat_of_lt' hfunded.fits.1]
  rfl

/-- **A shielded transaction** that pays as planned makes the payment. -/
theorem PaysPlan.makes {C : NoteCrypto K} {final : ShieldedTransaction} {p : Payment}
    (h : PaysPlan C plan final) (hfunded : plan.Funded)
    (hp : p = ⟨[], plan.transparentOutputs.map PlanOutput.written, plan.expiryHeight,
      plan.selection.spends,
      some (plan.selection.changePool, .ofNat plan.change, plan.selection.changeAddress),
      plan.fee⟩) :
    p.Transparent final.expiryHeight final.transparentBundle ∧ p.Shielded C final := by
  subst hp
  refine ⟨⟨h.expiry, _, h.transparent, rfl, rfl⟩, fun s hs => ?_, ?_, fun pool => ?_, h.sapling, ?_⟩
  · rw [← hfunded.notes] at hs
    obtain ⟨e, he, rfl⟩ := List.mem_map.mp hs
    obtain ⟨action, haction, hnullifier⟩ := h.spends e he
    exact ⟨action, List.mem_of_getElem? haction, hnullifier⟩
  · rintro _ ⟨⟩
    obtain ⟨action, note, haction, hcmx, hcommits, hdecrypts⟩ := h.change
    exact ⟨action, List.mem_of_getElem? haction, note, _, hcmx, hcommits, hdecrypts⟩
  · have hspent : poolTotal plan.expected.spends pool =
        ((plan.selection.spends.filter fun s => s.pool = pool).map fun s => s.value.toNat).sum := by
      rw [← hfunded.notes, List.filter_map, List.map_map]
      rfl
    rw [h.balance pool, hspent]
    show _ = _ - ((changeOf pool plan.selection.changePool
      (UInt64.ofNat plan.change).toNat : ℕ) : ℤ)
    rw [UInt64.toNat_ofNat_of_lt' hfunded.fits.2]
    rfl
  · rw [h.total]
    show _ = ((plan.fee + ((plan.transparentOutputs.map PlanOutput.written).map
      SpendOutput.value).sum : ℕ) : ℤ)
    rw [List.map_map]
    rfl

end Pools

/-! ### The payment of a hash -/

section Intent

variable {K : Type} {H : Hashing} {C : NoteCrypto K}
  {nullifierOf : ValuePool → OutPoint → Bytes32} {intentHash : String} {args args' : CommitArgs}
  {tx tx' : FinalTransaction}

/-- The hash is that of the commitment. -/
theorem Verifies.hash_eq (h : Verifies H C nullifierOf intentHash args tx) :
    intentHash = commitPlan H args := by
  cases h with
  | transparent => rfl
  | @shielded P A W carrierScript request plan ctx branchId d _ hplan hargs hrefs hnotes hindexed
      hmoney R calls v final hv hread =>
      have hauthorized := plan.authorized_of_ready (PoolBackend.plans_of_planRequest hplan) hindexed
        hmoney hv
      exact hauthorized.identity.2.1

/-- **A verified transaction makes the payment** that its plan is committed to. -/
theorem Verifies.makes (h : Verifies H C nullifierOf intentHash args tx) :
    tx.Makes C (args.payment nullifierOf) := by
  cases h with
  | @transparent hash160 funding request plan ctx branchId hplan read tx parsed hread hverified =>
      exact plan.makes nullifierOf ctx branchId hread hverified
  | @shielded P A W carrierScript request plan ctx branchId d _ hplan hargs hrefs hnotes hindexed
      hmoney R calls v final hv hread =>
      have hplans := PoolBackend.plans_of_planRequest hplan
      have hauthorized := plan.authorized_of_ready hplans hindexed hmoney hv
      obtain ⟨final', hread', hpays⟩ := hauthorized.pays
      obtain rfl := Except.ok.inj (hread.symm.trans hread')
      exact hpays.makes hplans.funded (plan.payment_commitArgs hplans.funded hargs hrefs hnotes)

/-- The planner is committed to. -/
theorem Verifies.pool_eq (h : Verifies H C nullifierOf intentHash args tx) :
    args.pool = tx.poolByte := by
  cases h with
  | transparent => rfl
  | @shielded P A W carrierScript request plan ctx branchId d _ hplan hargs hrefs hnotes hindexed
      hmoney R calls v final hv hread =>
      rw [PoolPlan.commitArgs] at hargs
      obtain ⟨orchard, -, hargs⟩ := bind_eq_ok hargs
      obtain ⟨ironwood, -, hargs⟩ := bind_eq_ok hargs
      obtain rfl := Except.ok.inj hargs
      rfl

/-- **The intent hash decides the payment**: two transactions that are verified under one hash are
of the same planner and make the same payment, unless the hash collides at the two commitments. -/
theorem intent_decides_payment (h : Verifies H C nullifierOf intentHash args tx)
    (h' : Verifies H C nullifierOf intentHash args' tx') (hargs : args.Bounded)
    (hargs' : args'.Bounded)
    (hcollision : commitPlan H args = commitPlan H args' → args.preimage = args'.preimage) :
    tx.poolByte = tx'.poolByte ∧ tx.Makes C (args.payment nullifierOf) ∧
      tx'.Makes C (args.payment nullifierOf) := by
  have hsame := hcollision (h.hash_eq.symm.trans h'.hash_eq)
  obtain rfl := (preimage_inj hargs hargs').mp hsame
  exact ⟨h.pool_eq.symm.trans h'.pool_eq, h.makes, h'.makes⟩

end Intent

/-! ### The intent of a call that spends one note -/

/-- The block after the tip. -/
def oneNoteContext : FundContext := ⟨.regtest, oneNoteTip, 101⟩

/-- What the builder adds to the plan. -/
def oneNoteDetails : PoolDetails FinalizedPczt Unit where
  outputRefs := [⟨.replicate 6, 0⟩]
  anchorHeight := 99
  txVersion := "v6"
  pczt := ⟨140, 5, [], [⟨0, opReturnScript [9]⟩], oneNoteOrchard, oneNoteIronwood⟩
  orchardSign := [(1, ())]
  ironwoodSign := []
  planId := "plan"

/-- Every note has the nullifier of the one that is spent. -/
def oneNullifier (_pool : ValuePool) (_ref : OutPoint) : Bytes32 := .replicate 7

/-- What is hashed for the plan. -/
def oneNoteArgs : CommitArgs :=
  ⟨3, 0, 1, 100, .replicate 9, 101, 5, 6, 140, [⟨1, .replicate 6, 0, 50000⟩],
    [⟨1, 99, .replicate 1⟩], [⟨0, opReturnScript [9]⟩], some ⟨30000, 2, [1, 2]⟩, 20000, [9], 2⟩

/-- It is within the bounds. -/
theorem bounded_oneNote : oneNoteArgs.Bounded where
  inputs := show 1 < 2 ^ 16 by decide
  anchors := show 1 < 2 ^ 16 by decide
  outputs := show 1 < 2 ^ 16 by decide
  scripts o ho := by
    rw [List.mem_singleton.mp ho]
    show (opReturnScript [9]).length < 2 ^ 16
    decide
  destination change hchange := by
    obtain rfl := Option.some.inj hchange
    show 2 < 2 ^ 16
    decide
  payload := show 1 < 2 ^ 16 by decide

/-- What is verified of the plan. -/
theorem verifies_oneNote {R : PcztRoles FinalizedPczt Unit} {tx : SignedTx}
    {final : ShieldedTransaction}
    (hv : .ok (.verified ⟨tx, "plan", commitPlan someHashing oneNoteArgs, oneNoteTip⟩) ∈
      (oneNotePlan.ready someHashing oneNoteContext 5 oneNoteDetails oneNoteArgs).answers R
        openNotes oneNoteCalls)
    (hread : R.reader.read 5 tx.bytes = .ok final) :
    Verifies someHashing openNotes oneNullifier (commitPlan someHashing oneNoteArgs) oneNoteArgs
      (.shielded final) := by
  have hplan : oneNoteBackend.planRequest none (.call [9]) = .ok oneNotePlan := rfl
  have hargs : oneNotePlan.commitArgs oneNoteContext 5 oneNoteDetails (.call [9]) =
      .ok oneNoteArgs := rfl
  have hnotes : ∀ e ∈ oneNotePlan.selection.spends.zip oneNoteDetails.outputRefs,
      e.1.nullifier = oneNullifier e.1.pool e.2 := by
    intro e he
    rw [List.mem_singleton.mp he]
    rfl
  have hindexed : oneNotePlan.expected.Indexed := by
    rintro (_ | _)
    · decide
    · decide
  exact .shielded hplan hargs rfl hnotes hindexed (by decide) hv hread

/-- The call with other dummies beside the note that is spent and the change. -/
def oneNoteFinal' : ShieldedTransaction :=
  { oneNoteFinal [9] with
    orchardBundle := some ⟨.replicate 1,
      [⟨.replicate 13, .replicate 14⟩, ⟨.replicate 7, .replicate 14⟩], 50000⟩
    ironwoodBundle := some ⟨.replicate 2,
      [⟨.replicate 13, .replicate 5⟩, ⟨.replicate 13, .replicate 14⟩], -30000⟩ }

/-- Roles that make the other transaction. -/
def oneNoteRoles' : PcztRoles FinalizedPczt Unit :=
  { oneNoteRoles with
    extract := fun _ => .ok ⟨[7], .replicate 10⟩
    reader := { oneNoteReader [9] with read := fun _ _ => .ok oneNoteFinal' } }

/-- **Two transactions of one plan**, with other dummies: both make its payment. -/
theorem intent_decides_payment_oneNote :
    oneNoteFinal [9] ≠ oneNoteFinal' ∧
    (FinalTransaction.shielded (oneNoteFinal [9])).Makes openNotes
      (oneNoteArgs.payment oneNullifier) ∧
    (FinalTransaction.shielded oneNoteFinal').Makes openNotes
      (oneNoteArgs.payment oneNullifier) := by
  have hv : .ok (.verified ⟨⟨[6], .replicate 8⟩, "plan", commitPlan someHashing oneNoteArgs,
      oneNoteTip⟩) ∈ (oneNotePlan.ready someHashing oneNoteContext 5 oneNoteDetails
        oneNoteArgs).answers oneNoteRoles openNotes oneNoteCalls := by
    decide +kernel
  have hv' : .ok (.verified ⟨⟨[7], .replicate 10⟩, "plan", commitPlan someHashing oneNoteArgs,
      oneNoteTip⟩) ∈ (oneNotePlan.ready someHashing oneNoteContext 5 oneNoteDetails
        oneNoteArgs).answers oneNoteRoles' openNotes oneNoteCalls := by
    decide +kernel
  exact ⟨by decide, (intent_decides_payment (verifies_oneNote hv rfl) (verifies_oneNote hv' rfl)
    bounded_oneNote bounded_oneNote fun _ => rfl).2⟩

end Zalkanes
