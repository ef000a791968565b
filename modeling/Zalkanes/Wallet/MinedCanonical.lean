import Zalkanes.Wallet.Planning
import Zalkanes.Wallet.ReconcileStable

/-!
# What a Mined Row Says about the Chain

The chain is extended and reorganised between the calls of the wallet, in any way. A row is moved to
`Mined` by a pass whose node found the transaction in a block of its chain. `Mined` is terminal: the
row is not read again, and what it says is not revised when the block is reorganised out.

## Main results

* `mined_canonical`: a row at `Mined` was mined in the chain of some pass, and a pass leaves every
  row at `Mined` in its own chain exactly when it began so.
-/

namespace Zalkanes

open Lib

/-- The transaction ids of each block, from height zero. -/
abbrev TxChain := List (List String)

/-- The transaction is in the block at the height. -/
def TxChain.MinedAt (chain : TxChain) (txid : String) (height : BlockHeight) : Prop :=
  ∃ block, chain[height.toNat]? = some block ∧ txid ∈ block

/-- The transaction is in a block of the chain. -/
def TxChain.Mines (chain : TxChain) (txid : String) : Prop := ∃ block ∈ chain, txid ∈ block

/-- Then the chain mines it. -/
theorem TxChain.MinedAt.mines {chain : TxChain} {txid : String} {height : BlockHeight}
    (h : chain.MinedAt txid height) : chain.Mines txid := by
  obtain ⟨block, hblock, htxid⟩ := h
  exact ⟨block, List.mem_of_getElem? hblock, htxid⟩

/-- The node only reports what is mined in its chain. -/
def Outside.onChain (O : Outside) (chain : TxChain) : Outside :=
  { O with txStatus := fun txid r =>
      O.txStatus txid r ∧ ∀ height, r = .ok (.mined height) → chain.MinedAt txid height }

/-- The calls of the wallet. -/
inductive WalletCall where
  | executeRequest (opts : SpendOptions) (request : TxRequest) (requiredZat : ℕ)
  | startupRecover (tip : CanonicalTip)
  | reconcile (tip : CanonicalTip)

/-- What a call returns. -/
abbrev WalletCall.Result : WalletCall → Type
  | executeRequest _ _ _ => Option Bytes32
  | startupRecover _ => RecoveryReport
  | reconcile _ => ReconcileReport

/-- A call, and the chain that is canonical during it. -/
structure ChainCall where
  chain : TxChain
  call : WalletCall

namespace ChainCall

/-- What a call runs, on its chain. -/
def prog (H : Hashing) (c : ChainCall) : Prog WalletEffect.Answer (Except String c.call.Result) :=
  match c.call with
  | .executeRequest opts request requiredZat =>
      (Zalkanes.executeRequest H opts request requiredZat).run
  | .startupRecover tip => (Zalkanes.startupRecover WalletM.release H tip).run
  | .reconcile tip => (Zalkanes.reconcile WalletM.release tip).run

/-- What it is answered there. -/
def answers (O : Outside) (c : ChainCall) : Answers WalletEffect.Answer (World ChainCall) :=
  (O.onChain c.chain).answers c

end ChainCall

/-- Every row at `Mined` has its transaction in a block of the chain. -/
def Journal.MinedCanonical (j : Journal) (chain : TxChain) : Prop :=
  ∀ planId row, j.operation planId = some row → row.stage = .mined →
    ∃ txid, row.txid = some txid ∧ chain.Mines txid

section MinedCanonical

open Prog Outside

variable {O : Outside} {c : ChainCall} {start w w' : World ChainCall}

/-- A call moves a row to `Mined` only if its node has said so. -/
def MinesReported (c : ChainCall) : WalletEffect → World ChainCall → Prop
  | .transition planId .mined txid _, w => txid = none ∧ ∃ row txid height,
      w.operation planId = some row ∧ row.txid = some txid ∧ row.stage ≠ .mined ∧
      w.Reported c txid (.mined height) ∧ c.chain.MinedAt txid height
  | _, _ => True

/-- Other transitions are not to Mined. -/
theorem minesReported_of_ne {planId : String} {target : JournalStage}
    {txid lastError : Option String} (h : target ≠ .mined) :
    MinesReported c (.transition planId target txid lastError) w := by
  cases target with
  | mined => exact absurd rfl h
  | _ => trivial

/-- Funding does not mine. -/
theorem minesReported_of_funds {e : WalletEffect} (h : Funds e) : MinesReported c e w := by
  cases e with
  | transition _ _ _ _ => exact minesReported_of_ne h
  | _ => trivial

/-- Reconciliation mines what the chain has. -/
theorem minesReported_of_reconcile {tip : CanonicalTip} {e : WalletEffect}
    (h : ReconcilePermits (O.onChain c.chain) c tip e w) : MinesReported c e w := by
  cases e with
  | transition planId target txid lastError =>
      obtain ⟨htxid, row, hrow, hmove⟩ := h
      by_cases htarget : target = .mined
      · subst htarget
        cases hmove with
        | mined hrowTxid hreported hs =>
            refine ⟨htxid, row, _, _, hrow, hrowTxid, fun hmined => ?_, hreported.2,
              hreported.1.2 _ rfl⟩
            rw [hmined] at hs
            cases hs
      · exact minesReported_of_ne htarget
  | _ => trivial

/-- Recovery does not mine. -/
theorem minesReported_of_recover {H : Outside} {tip : CanonicalTip} {e : WalletEffect}
    (h : RecoverPermits H c tip start e w) : MinesReported c e w := by
  cases e with
  | transition planId target txid lastError =>
      obtain ⟨-, row, locks, -, -, -, hmove⟩ := h
      refine minesReported_of_ne fun htarget => ?_
      subst htarget
      cases hmove
  | _ => trivial

/-- No call mines but what the chain has. -/
theorem ChainCall.minesReported (O : Outside) (c : ChainCall) (w : World ChainCall) :
    Spec (c.answers O) (MinesReported c) (c.prog O.hashing) w fun _ _ => True := by
  obtain ⟨chain, call⟩ := c
  cases call with
  | executeRequest opts request requiredZat =>
      exact ((executeRequest_uses O.hashing opts request requiredZat).spec w).weaken
        (fun _ _ _ _ h => h) fun _ _ => minesReported_of_funds
  | startupRecover tip =>
      refine (startupRecover_permits (O.onChain chain) _ tip w).weaken (fun _ _ _ _ h => h)
        fun e v h => ?_
      rcases h with h | h
      · exact minesReported_of_recover h
      · exact minesReported_of_reconcile (c := ⟨chain, .startupRecover tip⟩) h
  | reconcile tip =>
      exact (reconcile_permits (O.onChain chain) _ tip w).weaken (fun _ _ _ _ h => h)
        fun _ _ => minesReported_of_reconcile

/-- The rows that were at `Mined` are as they were, and the new ones were reported. -/
structure MinedSince (c : ChainCall) (start w : World ChainCall) : Prop where
  history : ∀ x ∈ start.history, x ∈ w.history
  kept : ∀ planId row, start.operation planId = some row → row.stage = .mined →
    w.operation planId = some row
  mined : ∀ planId row, w.operation planId = some row → row.stage = .mined →
    start.operation planId = some row ∨ ∃ txid height, row.txid = some txid ∧
      w.Reported c txid (.mined height) ∧ c.chain.MinedAt txid height

/-- Nothing has been mined since. -/
theorem MinedSince.refl (c : ChainCall) (w : World ChainCall) : MinedSince c w w :=
  ⟨fun _ hx => hx, fun _ _ hrow _ => hrow, fun _ _ hrow _ => Or.inl hrow⟩

/-- A call that does not touch the rows at `Mined`. -/
theorem MinedSince.keep (h : MinedSince c start w) {x : Happened ChainCall}
    (hhist : w'.history = w.history ++ [x])
    (hrow : ∀ planId row, row.stage = .mined →
      (w'.operation planId = some row ↔ w.operation planId = some row)) :
    MinedSince c start w' where
  history y hy := by
    rw [hhist]
    exact List.mem_append_left _ (h.history y hy)
  kept planId row hstart hs := (hrow planId row hs).mpr (h.kept planId row hstart hs)
  mined planId row hsome hs := by
    refine (h.mined planId row ((hrow planId row hs).mp hsome) hs).imp_right ?_
    rintro ⟨txid, height, htxid, hreported, hmined⟩
    refine ⟨txid, height, htxid, ?_, hmined⟩
    rw [World.Reported, hhist]
    exact List.mem_append_left _ hreported

/-- A row that was reported is moved to `Mined`. -/
theorem MinedSince.move (h : MinedSince c start w) {x : Happened ChainCall} {q txid : String}
    {cur : OperationRow} {height : BlockHeight} {lastError : Option String}
    (hhist : w'.history = w.history ++ [x])
    (hs : w'.state =
      { w.state with journal := w.state.journal.write q .mined none lastError })
    (hcur : w.operation q = some cur) (htxid : cur.txid = some txid) (hnot : cur.stage ≠ .mined)
    (hreported : w.Reported c txid (.mined height)) (hmined : c.chain.MinedAt txid height) :
    MinedSince c start w' where
  history y hy := by
    rw [hhist]
    exact List.mem_append_left _ (h.history y hy)
  kept planId row hstart hstage := by
    have hrow := h.kept planId row hstart hstage
    rw [World.operation_write hs, if_neg, hrow]
    rintro rfl
    rw [hcur, Option.some.injEq] at hrow
    rw [hrow] at hnot
    exact hnot hstage
  mined planId row hsome hstage := by
    rw [World.operation_write hs] at hsome
    by_cases hq : planId = q
    · rw [if_pos hq, hq, hcur, Option.map_some, Option.some.injEq] at hsome
      refine Or.inr ⟨txid, height, ?_, hreported.mono hhist, hmined⟩
      rw [← hsome]
      exact htxid
    · rw [if_neg hq] at hsome
      refine (h.mined planId row hsome hstage).imp_right ?_
      rintro ⟨txid, height, htxid, hreported, hmined⟩
      exact ⟨txid, height, htxid, hreported.mono hhist, hmined⟩

/-- **A step.** -/
theorem MinedSince.step (h : MinedSince c start w) {e : WalletEffect} {r : e.Answer}
    (hok : MinesReported c e w) (ha : c.answers O w e r w') : MinedSince c start w' := by
  cases e with
  | transition q target txid lastError =>
      obtain ⟨hhist, ⟨cur, hcur, hlegal, rfl, hs⟩ | ⟨-, hs⟩⟩ := answers_transition ha
      · by_cases htarget : target = .mined
        · subst htarget
          obtain ⟨rfl, row, txid, height, hrow, htxid, hnot, hreported, hmined⟩ := hok
          obtain rfl := Option.some.inj (hrow.symm.trans hcur)
          exact h.move hhist hs hcur htxid hnot hreported hmined
        · refine h.keep hhist fun planId row hmined => ?_
          rw [World.operation_write hs]
          by_cases hq : planId = q
          · -- the row moved neither from `Mined` nor to it
            have hw : w.operation planId = some cur := hq ▸ hcur
            rw [if_pos hq, hw, Option.map_some, Option.some.injEq, Option.some.injEq]
            constructor
            · rintro rfl
              exact absurd hmined htarget
            · rintro rfl
              have hterminal : cur.stage.isTerminal = true := by rw [hmined]; rfl
              have heq := JournalStage.eq_of_canTransition_terminal hlegal hterminal
              exact absurd (heq.trans hmined) htarget
          · rw [if_neg hq]
      · exact h.keep hhist fun planId row _ => by rw [World.operation_congr hs]
  | createPlan operation =>
      obtain ⟨⟨-, hs, -⟩ | ⟨now, ⟨j, hj, -, hs⟩ | ⟨e, -, -, hs⟩⟩, hhist⟩ := ha
      · exact h.keep hhist fun planId row _ => by rw [World.operation_congr hs]
      · refine h.keep hhist fun planId row hmined => ?_
        have hop : w'.operation planId = j.operation planId := by rw [World.operation, hs]
        rcases Journal.createPlan_eq_ok hj with ⟨rfl, -⟩ | ⟨hnone, hnew⟩
        · rw [hop, World.operation]
        · rw [hop, hnew]
          by_cases hplan : planId = operation.planId
          · -- the new row is at `Planned`
            rw [if_pos hplan, World.operation, hplan, hnone]
            constructor
            · intro hrow
              rw [← Option.some.inj hrow] at hmined
              cases hmined
            · intro hrow
              cases hrow
          · rw [if_neg hplan, World.operation]
      · exact h.keep hhist fun planId row _ => by rw [World.operation_congr hs]
  | nonTerminalRows | canonicalTip | txStatus _ | sendRawTransaction _ | lockedOutputs
  | release _ | driver _ =>
      exact h.keep ha.2 fun planId row _ => by
        rw [World.operation_of_journal_eq (journal_of_answers ha rfl)]

/-- What a call has mined so far. -/
theorem MinedSince.of_visits (h : Visits (c.answers O) (c.prog O.hashing) w w') :
    MinedSince c w w' :=
  ((c.minesReported O w).invariant (fun _ _ _ _ h hok ha => h.step hok ha) (.refl c w)).of_visits
    (fun _ _ h => h.2) (fun _ _ h => h.2) h

/-- **A row at `Mined` was mined in the chain of some pass**, over every run in which the chain
changes between the calls in any way. A call leaves every row at `Mined` in its own chain exactly
when it began so: rows that are at `Mined` are not read again. -/
theorem mined_canonical (O : Outside) {start w : World ChainCall}
    (hruns : Runs (ChainCall.answers O) (ChainCall.prog O.hashing) start w)
    (hstart : ∀ planId row, start.operation planId = some row → row.stage ≠ .mined) :
    (∀ planId row, w.operation planId = some row → row.stage = .mined →
      ∃ c txid height, row.txid = some txid ∧ w.Reported c txid (.mined height) ∧
        c.chain.MinedAt txid height) ∧
    ∀ (c : ChainCall) (w' : World ChainCall), Visits (c.answers O) (c.prog O.hashing) w w' →
      (w'.state.journal.MinedCanonical c.chain ↔ w.state.journal.MinedCanonical c.chain) := by
  constructor
  · induction hruns with
    | nil => exact fun planId row hrow hs => absurd hs (hstart planId row hrow)
    | snoc _ c hc ih =>
        have hsince := MinedSince.of_visits hc
        intro planId row hrow hs
        rcases hsince.mined planId row hrow hs with hbefore | ⟨txid, height, h⟩
        · obtain ⟨c', txid, height, htxid, hreported, hmined⟩ := ih planId row hbefore hs
          exact ⟨c', txid, height, htxid, hsince.history _ hreported, hmined⟩
        · exact ⟨c, txid, height, h⟩
  · intro c w' hc
    have hsince := MinedSince.of_visits hc
    constructor
    · exact fun h planId row hrow hs => h planId row (hsince.kept planId row hrow hs) hs
    · intro h planId row hrow hs
      rcases hsince.mined planId row hrow hs with hbefore | ⟨txid, height, htxid, -, hmined⟩
      · exact h planId row hbefore hs
      · exact ⟨txid, htxid, hmined.mines⟩

/-- A row whose transaction was accepted. -/
def acceptedWorld : World ChainCall := ⟨⟨⟨[⟨acceptedRow, 0⟩], List.nodup_singleton _⟩, []⟩, []⟩

/-- A pass in a chain with the transaction. -/
def minedCall : ChainCall := ⟨[["tx"]], .reconcile ⟨1, .replicate 0⟩⟩

/-- A transaction that is mined is recorded as mined. -/
theorem exists_minedWorld : ∃ r w, Yields (minedCall.answers anyOutside)
    (minedCall.prog anyOutside.hashing) acceptedWorld (.ok r) w ∧
    w.state.journal = acceptedWorld.state.journal.write "plan" .mined none none := by
  let s := acceptedWorld.state
  let j := s.journal.write "plan" .mined none none
  let x : Happened ChainCall := ⟨minedCall, .nonTerminalRows, Except.ok [acceptedRow]⟩
  let x' : Happened ChainCall := ⟨minedCall, .txStatus "tx", Except.ok (.mined 0)⟩
  let x'' : Happened ChainCall :=
    ⟨minedCall, .transition "plan" .mined none none, Except.ok .broadcastAccepted⟩
  have hrows : s.journal.NonTerminalRows [acceptedRow] :=
    ⟨_, List.Perm.refl _, List.pairwise_singleton _ _, rfl⟩
  have hread : minedCall.answers anyOutside ⟨s, []⟩ .nonTerminalRows (Except.ok [acceptedRow])
      ⟨s, [x]⟩ := ⟨Or.inr ⟨rfl, [acceptedRow], hrows, rfl⟩, rfl⟩
  have hstatus : minedCall.answers anyOutside ⟨s, [x]⟩ (.txStatus "tx") (Except.ok (.mined 0))
      ⟨s, [x, x']⟩ := by
    refine ⟨⟨rfl, trivial, fun height h => ?_⟩, rfl⟩
    cases h
    exact ⟨["tx"], rfl, List.mem_singleton_self _⟩
  have hmove : minedCall.answers anyOutside ⟨s, [x, x']⟩ (.transition "plan" .mined none none)
      (Except.ok .broadcastAccepted) ⟨{ s with journal := j }, [x, x', x'']⟩ :=
    ⟨Or.inr (Or.inl ⟨_, j, Journal.transition_eq_ok.mpr ⟨acceptedRow, rfl, rfl, rfl, rfl⟩, rfl,
      rfl⟩), rfl⟩
  exact ⟨_, _, .perform hread (.perform hstatus (.perform hmove (.done _ _))), rfl⟩

/-- The pass that finds the transaction leaves its row at `Mined` in its chain. -/
theorem mined_canonical_found : ∃ w,
    Runs (ChainCall.answers anyOutside) (ChainCall.prog anyOutside.hashing) acceptedWorld w ∧
    w.state.journal.stage "plan" = some .mined ∧ w.state.journal.MinedCanonical [["tx"]] := by
  obtain ⟨r, w, hrun, hj⟩ := exists_minedWorld
  have hstart : ∀ planId row, acceptedWorld.operation planId = some row → row.stage ≠ .mined := by
    intro planId row hrow hs
    obtain ⟨-, createdAt, hmem⟩ := Journal.operation_eq_some.mp hrow
    have heq := List.mem_singleton.mp hmem
    rw [StoredRow.mk.injEq] at heq
    rw [heq.1] at hs
    cases hs
  have hmined := (mined_canonical anyOutside (.nil acceptedWorld) hstart).2 minedCall w hrun.visits
  exact ⟨w, .snoc (.nil _) minedCall hrun.visits, by rw [hj]; rfl,
    hmined.mpr fun planId row hrow hs => absurd hs (hstart planId row hrow)⟩

/-- The block is reorganised out, and the next pass leaves the row at `Mined`. -/
theorem not_mined_canonical_reorged : ∃ r w r' w',
    Yields (minedCall.answers anyOutside) (minedCall.prog anyOutside.hashing) acceptedWorld
      (.ok r) w ∧
    Yields (ChainCall.answers anyOutside ⟨[[]], .reconcile ⟨1, .replicate 0⟩⟩)
      (ChainCall.prog anyOutside.hashing ⟨[[]], .reconcile ⟨1, .replicate 0⟩⟩) w (.ok r') w' ∧
    ¬ w'.state.journal.MinedCanonical [[]] := by
  obtain ⟨r, w, hrun, hj⟩ := exists_minedWorld
  let c : ChainCall := ⟨[[]], .reconcile ⟨1, .replicate 0⟩⟩
  have hrows : w.state.journal.NonTerminalRows [] := by
    rw [hj]
    exact ⟨[], List.Perm.refl _, .nil, rfl⟩
  have hread : c.answers anyOutside w .nonTerminalRows (Except.ok [])
      ⟨w.state, w.history ++ [⟨c, .nonTerminalRows, Except.ok []⟩]⟩ :=
    ⟨Or.inr ⟨rfl, [], hrows, rfl⟩, rfl⟩
  refine ⟨r, w, _, _, hrun, .perform hread (.done _ _), fun h => ?_⟩
  rw [hj] at h
  obtain ⟨txid, -, block, hblock, htxid⟩ := h "plan" _ rfl rfl
  rw [List.mem_singleton.mp hblock] at htxid
  cases htxid

end MinedCanonical

end Zalkanes
