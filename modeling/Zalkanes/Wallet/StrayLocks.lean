import Zalkanes.Wallet.FundedRuns

/-!
# The Locks that a Funded Command Leaves

Planning a shielded transaction locks the notes that it selects, and the release hook that
`execute_request` hands on does nothing. So the locks after a run are those before it exactly when
the run selected no notes, however it ended (`locks_restored_iff`).

## Main results

* `locks_restored_iff`: exactly when a funded command leaves the locks as they were.
-/

namespace Zalkanes

open Lib

/-- Whether the entry is a selection of notes that went through. -/
def Happened.selects {C : Type} : Happened C → Bool
  | ⟨_, .driver (.selectSpends _ _), .ok _⟩ => true
  | _ => false

/-- The locks that are held, before and after. -/
structure LocksSince (s s' : WalletState) (selected : Prop) : Prop where
  kept : s.locks ⊆ s'.locks
  /-- A selection locks a note that was not locked. -/
  new : selected → ∃ l ∈ s'.locks, l ∉ s.locks
  same : ¬ selected → s'.locks = s.locks

section StrayLocks

open Prog Outside

variable {C : Type} {O : Outside} {c : C} {start w w' : World C}

/-- The locks after a call of a funded command. -/
theorem locksSince_of_funds {e : WalletEffect} {r : e.Answer} (h : O.answers c w e r w')
    (he : Funds e) :
    LocksSince w.state w'.state ((⟨c, e, r⟩ : Happened C).selects = true) := by
  have hsame : w'.state.locks = w.state.locks →
      (⟨c, e, r⟩ : Happened C).selects ≠ true →
      LocksSince w.state w'.state ((⟨c, e, r⟩ : Happened C).selects = true) := fun hlocks hnot =>
    ⟨locks_subset_of_funds h he, fun hselects => absurd hselects hnot, fun _ => hlocks⟩
  cases e with
  | createPlan operation =>
      obtain ⟨⟨-, hs, -⟩ | ⟨now, ⟨j, -, -, hs⟩ | ⟨e, -, -, hs⟩⟩, -⟩ := h <;>
        exact hsame (by rw [hs]) Bool.false_ne_true
  | transition planId target txid lastError =>
      obtain ⟨-, ⟨row, -, -, -, hs⟩ | ⟨-, hs⟩⟩ := answers_transition h <;>
        exact hsame (by rw [hs]) Bool.false_ne_true
  | canonicalTip | sendRawTransaction _ => exact hsame (by rw [h.1]) Bool.false_ne_true
  | driver e =>
      cases e with
      | selectSpends required planId =>
          obtain ⟨⟨-, ⟨e, rfl, hlocks⟩ | ⟨selection, rfl, hne, hfree, hlocks⟩⟩, -⟩ := h
          · exact hsame hlocks Bool.false_ne_true
          · obtain ⟨ref, href⟩ := List.exists_mem_of_ne_nil _ hne
            refine ⟨by rw [hlocks]; exact List.subset_append_left _ _, fun _ =>
              ⟨⟨ref, lockOwnerHex O.hashing planId⟩, ?_, fun hl => ?_⟩,
              fun hnot => absurd rfl hnot⟩
            · rw [hlocks]
              exact List.mem_append_right _ (List.mem_map_of_mem href)
            · exact hfree ref href _ hl rfl
      | _ => exact hsame (by rw [h.1]) Bool.false_ne_true
  | nonTerminalRows | txStatus _ | lockedOutputs | release _ => exact he.elim

/-- **A step** of a funded command. -/
theorem LocksSince.step {e : WalletEffect} {r : e.Answer}
    (h : LocksSince start.state w.state (∃ x ∈ w.history, x.selects = true)) (he : Funds e)
    (ha : O.answers c w e r w') :
    LocksSince start.state w'.state (∃ x ∈ w'.history, x.selects = true) := by
  have hstep := locksSince_of_funds ha he
  have hhist : ∀ x, x ∈ w'.history ↔ x ∈ w.history ∨ x = ⟨c, e, r⟩ := fun x => by
    rw [ha.2, List.mem_append, List.mem_singleton]
  refine ⟨fun l hl => hstep.kept (h.kept hl), ?_, fun hnot => ?_⟩
  · rintro ⟨x, hx, hselects⟩
    rcases (hhist x).mp hx with hx | rfl
    · obtain ⟨l, hl, hnew⟩ := h.new ⟨x, hx, hselects⟩
      exact ⟨l, hstep.kept hl, hnew⟩
    · obtain ⟨l, hl, hnew⟩ := hstep.new hselects
      exact ⟨l, hl, fun hold => hnew (h.kept hold)⟩
  · rw [hstep.same fun hselects => hnot ⟨_, (hhist _).mpr (Or.inr rfl), hselects⟩]
    exact h.same fun ⟨x, hx, hselects⟩ => hnot ⟨x, (hhist x).mpr (Or.inl hx), hselects⟩

/-- The locks at every point of a funded command. -/
theorem locksSince_of_visits {O : Outside} {c : FundedCall} {start w : World FundedCall}
    (hhistory : start.history = [])
    (hrun : Visits (O.answers c) (c.prog O.hashing) start w) :
    LocksSince start.state w.state (∃ x ∈ w.history, x.selects = true) := by
  have hstart : LocksSince start.state start.state (∃ x ∈ start.history, x.selects = true) := by
    refine ⟨List.Subset.refl _, ?_, fun _ => rfl⟩
    rintro ⟨x, hx, -⟩
    rw [hhistory] at hx
    cases hx
  have hspec := ((executeRequest_uses O.hashing c.opts c.request c.requiredZat).spec
    start).invariant (A := O.answers c) (fun _ _ _ _ h he ha => LocksSince.step h he ha) hstart
  exact hspec.of_visits (fun _ _ h => h.2) (fun _ _ h => h.2) hrun

/-- **A funded command leaves the locks as they were exactly when it selected no notes**, whether
it only planned, was declined, failed or was rejected. -/
theorem locks_restored_iff (O : Outside) (c : FundedCall) {start w : World FundedCall}
    {r : Except String (Option Bytes32)} (hhistory : start.history = [])
    (hrun : Yields (O.answers c) (c.prog O.hashing) start r w) :
    (∀ l, l ∈ w.state.locks ↔ l ∈ start.state.locks) ↔ ∀ x ∈ w.history, x.selects = false := by
  have h := locksSince_of_visits hhistory hrun.visits
  constructor
  · intro hlocks x hx
    by_contra hselects
    obtain ⟨l, hl, hnew⟩ := h.new ⟨x, hx, Bool.not_eq_false _ ▸ hselects⟩
    exact hnew ((hlocks l).mp hl)
  · intro hnone l
    rw [h.same]
    rintro ⟨x, hx, hselects⟩
    rw [hnone x hx] at hselects
    cases hselects

/-- A dry run of a contract call. -/
def dryRun (funding : FundingMode) : FundedCall :=
  ⟨⟨.regtest, funding, true, true, false⟩, .call [], 0⟩

/-- Another plan holds a note. -/
def heldWorld : World FundedCall :=
  ⟨⟨.empty, [⟨"orchard:00:7", lockOwnerHex anyOutside.hashing "other"⟩]⟩, []⟩

/-- A dry run that ends after so many calls yields no transaction. -/
theorem yields_dryRun (funding : FundingMode) (start : World FundedCall) (n : ℕ)
    (h : (runFor (dryRun funding).smooth n ((dryRun funding).prog anyOutside.hashing)
      start).1.result?.any (fun r => r.toOption = some none) = true) :
    Yields (anyOutside.answers (dryRun funding)) ((dryRun funding).prog anyOutside.hashing)
      start (.ok none)
      (runFor (dryRun funding).smooth n ((dryRun funding).prog anyOutside.hashing) start).2 := by
  obtain ⟨r, hr, hnone⟩ := (Option.any_eq_true _ _).mp h
  have hok : r = .ok none := by
    cases r with
    | error e => cases of_decide_eq_true hnone
    | ok a => exact congrArg Except.ok (Option.some.inj (of_decide_eq_true hnone))
  rw [hok] at hr
  exact yields_runFor (dryRun funding).answers_smooth hr

/-- A transparent dry run leaves the lock of the other plan, and locks nothing. -/
theorem locks_restored_iff_transparent :
    heldWorld.state.locks = [⟨"orchard:00:7", lockOwnerHex anyOutside.hashing "other"⟩] ∧
    ∃ w : World FundedCall,
      Yields (anyOutside.answers (dryRun .transparent))
        ((dryRun .transparent).prog anyOutside.hashing) heldWorld (.ok none) w ∧
      ∀ l, l ∈ w.state.locks ↔ l ∈ heldWorld.state.locks := by
  have hrun := yields_dryRun .transparent heldWorld 8 (by decide +kernel)
  refine ⟨rfl, _, hrun, (locks_restored_iff anyOutside _ rfl hrun).mpr fun x hx => ?_⟩
  have hnone : (runFor (dryRun .transparent).smooth 8
      ((dryRun .transparent).prog anyOutside.hashing) heldWorld).2.history.all
        (fun x => !x.selects) = true := by
    decide +kernel
  simpa using List.all_eq_true.mp hnone x hx

/-- A shielded dry run leaves its note locked. -/
theorem not_locks_restored_dryRun : ∃ w : World FundedCall,
    Yields (anyOutside.answers (dryRun .shielded)) ((dryRun .shielded).prog anyOutside.hashing)
      freshWorld (.ok none) w ∧
    ¬ ∀ l, l ∈ w.state.locks ↔ l ∈ freshWorld.state.locks := by
  refine ⟨_, yields_dryRun .shielded freshWorld 20 (by decide +kernel), fun h => ?_⟩
  have hlocked : ((dryRun .shielded).after 20).state.locks ≠ [] := by decide +kernel
  obtain ⟨l, hl⟩ := List.exists_mem_of_ne_nil _ hlocked
  exact List.not_mem_nil ((h l).mp hl)

end StrayLocks

end Zalkanes
