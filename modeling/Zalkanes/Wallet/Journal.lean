import Mathlib.Data.List.Nodup
import Mathlib.Data.List.Pairwise
import Zalkanes.Types

/-!
# The Operation Journal

The wallet's durable record of each operation's lifecycle: a table of rows under a primary key,
the plan id, whose stages move along the transitions of `JournalStage.canTransition`. A stage may
always move to itself.

## Main results

* `Journal.createPlan_eq_ok`, `Journal.transition_eq_ok`: when the two writes succeed, and what they
  leave under each plan id.
* `Journal.NonTerminalRows.mem_iff`, `Journal.NonTerminalRows.nodup`: the rows that recovery reads
  are the rows of the table, each once.
-/

namespace Zalkanes

/-- The lifecycle stage of a wallet operation. -/
inductive JournalStage where
  | planned
  | reserved
  | proving
  | proven
  | signing
  | signed
  | extracted
  | verified
  | broadcasting
  | broadcastUnknown
  | broadcastAccepted
  | mined
  | cancelled
  | expired
  | rejected
  | reorged
  deriving DecidableEq, Repr

namespace JournalStage

/-- The text of a stage in the table. -/
def asStr : JournalStage → String
  | planned => "planned"
  | reserved => "reserved"
  | proving => "proving"
  | proven => "proven"
  | signing => "signing"
  | signed => "signed"
  | extracted => "extracted"
  | verified => "verified"
  | broadcasting => "broadcasting"
  | broadcastUnknown => "broadcast_unknown"
  | broadcastAccepted => "broadcast_accepted"
  | mined => "mined"
  | cancelled => "cancelled"
  | expired => "expired"
  | rejected => "rejected"
  | reorged => "reorged"

/-- Whether a stage may move to another one, or to itself. -/
def canTransition (source target : JournalStage) : Bool :=
  source = target ||
    match source, target with
    | planned, reserved | planned, cancelled => true
    | reserved, proving | reserved, cancelled | reserved, expired | reserved, reorged => true
    | proving, proven | proving, cancelled => true
    | proven, signing | proven, cancelled => true
    | signing, signed | signing, cancelled => true
    | signed, extracted | signed, cancelled | signed, expired | signed, reorged => true
    | extracted, verified | extracted, cancelled | extracted, expired | extracted, reorged => true
    | verified, broadcasting | verified, cancelled | verified, expired | verified, reorged => true
    | broadcasting, broadcastAccepted | broadcasting, broadcastUnknown
    | broadcasting, rejected | broadcasting, mined => true
    | broadcastUnknown, broadcastAccepted | broadcastUnknown, mined | broadcastUnknown, rejected
    | broadcastUnknown, expired | broadcastUnknown, reorged => true
    | broadcastAccepted, mined | broadcastAccepted, reorged | broadcastAccepted, expired => true
    | _, _ => false

/-- The stages that `non_terminal_rows` leaves out. -/
def isTerminal : JournalStage → Bool
  | mined | cancelled | expired | rejected | reorged => true
  | _ => false

/-- The stages strictly before `Signing`. -/
def beforeSigning : JournalStage → Bool
  | planned | reserved | proving | proven => true
  | _ => false

/-- A stage before `Signing` is entered from none that is not. -/
theorem beforeSigning_of_canTransition {source target : JournalStage}
    (h : canTransition source target = true) (ht : target.beforeSigning = true) :
    source.beforeSigning = true := by
  revert h ht
  cases source <;> cases target <;> decide

/-- A terminal stage is left by no transition. -/
theorem eq_of_canTransition_terminal {source target : JournalStage}
    (h : canTransition source target = true) (ht : source.isTerminal = true) :
    target = source := by
  revert h ht
  cases source <;> cases target <;> decide

end JournalStage

/-- The immutable fields of an operation, as `create_plan` is given them. -/
structure Operation where
  planId : String
  intentHash : String
  kind : String
  fundingMode : String
  lockOwner : String
  tipHeight : UInt32
  tipHash : String
  targetHeight : UInt32
  /-- The inputs as `pool:txid_hex:index`, joined by commas. -/
  selectedInputs : String
  expiry : Option UInt32
  deriving DecidableEq

/-- One persisted operation. -/
structure OperationRow extends Operation where
  stage : JournalStage
  txid : Option String
  lastError : Option String
  deriving DecidableEq

/-- A row of the table. -/
structure StoredRow extends OperationRow where
  createdAt : ℤ
  deriving DecidableEq

/-- The table of operations, under the plan id as primary key. -/
structure Journal where
  rows : List StoredRow
  unique : (rows.map fun row => row.planId).Nodup

/-- `UPDATE operations SET stage = .., txid = COALESCE(.., txid),
last_error = COALESCE(.., last_error)`. -/
def OperationRow.moved (row : OperationRow) (target : JournalStage)
    (txid lastError : Option String) : OperationRow :=
  { row with stage := target, txid := txid.or row.txid, lastError := lastError.or row.lastError }

namespace Journal

/-- No rows. -/
def empty : Journal := ⟨[], List.nodup_nil⟩

/-- One operation's full persisted row. -/
def operation (j : Journal) (planId : String) : Option OperationRow :=
  (j.rows.find? fun row => row.planId = planId).map StoredRow.toOperationRow

/-- The current stage of an operation, if present. -/
def stage (j : Journal) (planId : String) : Option JournalStage :=
  (j.operation planId).map OperationRow.stage

/-- Insert a row at `Planned`. -/
def insert (j : Journal) (operation : Operation) (now : ℤ)
    (h : ∀ row ∈ j.rows, row.planId ≠ operation.planId) : Journal where
  rows := j.rows ++ [⟨⟨operation, .planned, none, none⟩, now⟩]
  unique := by
    rw [List.map_append, List.map_singleton]
    refine j.unique.append (List.nodup_singleton _) (List.disjoint_singleton.mpr ?_)
    rw [List.mem_map]
    rintro ⟨row, hrow, heq⟩
    exact h row hrow heq

/-- Record a new operation at `Planned`. A second record of the same operation changes nothing;
one that differs in an immutable field is refused. -/
def createPlan (j : Journal) (operation : Operation) (now : ℤ) : Except String Journal :=
  match h : j.rows.find? fun row => row.planId = operation.planId with
  | none => .ok (j.insert operation now fun row hrow heq =>
      List.find?_eq_none.mp h row hrow (decide_eq_true heq))
  | some row =>
      if row.toOperation = operation then .ok j
      else .error ("PlanIdConflict: plan_id " ++ operation.planId ++
        " already exists with different immutable fields")

/-- Write the row of a plan. -/
def write (j : Journal) (planId : String) (target : JournalStage) (txid lastError : Option String) :
    Journal where
  rows := j.rows.map fun row =>
    if row.planId = planId then ⟨row.moved target txid lastError, row.createdAt⟩ else row
  unique := by
    have hids : (fun row : StoredRow => row.planId) ∘ (fun row : StoredRow =>
        if row.planId = planId then ⟨row.moved target txid lastError, row.createdAt⟩ else row) =
        fun row => row.planId := by
      funext row
      by_cases hrow : row.planId = planId
      · rw [Function.comp_apply, if_pos hrow]
        rfl
      · rw [Function.comp_apply, if_neg hrow]
    rw [List.map_map, hids]
    exact j.unique

/-- The message for a move that the table does not allow. -/
def illegalTransition (planId : String) (source target : JournalStage) : String :=
  "illegal journal transition for " ++ planId ++ ": " ++ source.asStr ++ " -> " ++ target.asStr

/-- The message for a row that is not there. -/
def lookupFailed (planId message : String) : String :=
  "journal lookup " ++ planId ++ ": " ++ message

/-- Move an operation's stage, if the stage machine allows it: the previous stage, and the journal
after it. -/
def transition (j : Journal) (planId : String) (target : JournalStage)
    (txid lastError : Option String) : Except String (JournalStage × Journal) :=
  match j.operation planId with
  | none => .error (lookupFailed planId "Query returned no rows")
  | some row =>
      if row.stage.canTransition target then .ok (row.stage, j.write planId target txid lastError)
      else .error (illegalTransition planId row.stage target)

/-- An answer to `SELECT .. WHERE stage NOT IN (terminal stages) ORDER BY created_at ASC`. Rows
created in the same second come in any order. -/
def NonTerminalRows (j : Journal) (rows : List OperationRow) : Prop :=
  ∃ sorted : List StoredRow, sorted.Perm (j.rows.filter fun row => !row.stage.isTerminal) ∧
    sorted.Pairwise (fun row row' => row.createdAt ≤ row'.createdAt) ∧
    rows = sorted.map StoredRow.toOperationRow

/-! ### The table under its key -/

/-- A plan has the row that is stored for it. -/
theorem operation_eq_some {j : Journal} {planId : String} {row : OperationRow} :
    j.operation planId = some row ↔
      row.planId = planId ∧ ∃ createdAt, (⟨row, createdAt⟩ : StoredRow) ∈ j.rows := by
  rw [operation, Option.map_eq_some_iff]
  constructor
  · rintro ⟨stored, hfind, rfl⟩
    exact ⟨by simpa using List.find?_some hfind, stored.createdAt,
      List.mem_of_find?_eq_some hfind⟩
  · rintro ⟨hid, createdAt, hmem⟩
    cases hfind : j.rows.find? fun row => row.planId = planId with
    | none => exact absurd (decide_eq_true hid) (List.find?_eq_none.mp hfind _ hmem)
    | some stored =>
        -- the plan id is a key, so the row found is the row asked for
        have hstored : stored.planId = planId := by simpa using List.find?_some hfind
        have heq := List.inj_on_of_nodup_map j.unique (List.mem_of_find?_eq_some hfind) hmem
          (hstored.trans hid.symm)
        exact ⟨stored, rfl, congrArg StoredRow.toOperationRow heq⟩

/-- It is under its own id. -/
theorem planId_of_operation {j : Journal} {planId : String} {row : OperationRow}
    (h : j.operation planId = some row) : row.planId = planId :=
  (operation_eq_some.mp h).1

/-- A write moves the row of its plan and leaves every other. -/
theorem operation_write (j : Journal) (planId : String) (target : JournalStage)
    (txid lastError : Option String) (q : String) :
    (j.write planId target txid lastError).operation q =
      if q = planId then (j.operation q).map fun row => row.moved target txid lastError
      else j.operation q := by
  rw [operation, write, List.find?_map, Option.map_map, operation]
  have hkey : ((fun row : StoredRow => decide (row.planId = q)) ∘ fun row : StoredRow =>
      if row.planId = planId then ⟨row.moved target txid lastError, row.createdAt⟩ else row) =
      fun row => decide (row.planId = q) := by
    funext row
    by_cases hrow : row.planId = planId
    · rw [Function.comp_apply, if_pos hrow]
      rfl
    · rw [Function.comp_apply, if_neg hrow]
  rw [hkey]
  cases hfind : j.rows.find? fun row => decide (row.planId = q) with
  | none => rw [Option.map_none, Option.map_none, Option.map_none, ite_self]
  | some row =>
      have hrow : row.planId = q := by simpa using List.find?_some hfind
      by_cases hq : q = planId
      · rw [if_pos hq, Option.map_some, Option.map_some, Option.map_some, Function.comp_apply,
          if_pos (hrow.trans hq)]
      · rw [if_neg hq, Option.map_some, Option.map_some, Function.comp_apply,
          if_neg fun h => hq (hrow.symm.trans h)]

/-- A new row is planned, and the others stay. -/
theorem operation_insert {j : Journal} {operation : Operation} {now : ℤ}
    (h : ∀ row ∈ j.rows, row.planId ≠ operation.planId) (q : String) :
    (j.insert operation now h).operation q =
      if q = operation.planId then some ⟨operation, .planned, none, none⟩
      else j.operation q := by
  rw [Journal.operation, insert, List.find?_append, List.find?_singleton, Journal.operation]
  by_cases hq : q = operation.planId
  · have hnone : j.rows.find? (fun row => decide (row.planId = q)) = none :=
      List.find?_eq_none.mpr fun row hrow heq => h row hrow ((of_decide_eq_true heq).trans hq)
    rw [if_pos hq, hnone, Option.none_or, if_pos (decide_eq_true hq.symm), Option.map_some]
  · rw [if_neg hq, if_neg (by simpa using fun h => hq h.symm), Option.or_none]

/-- What `create_plan` leaves: the row of the operation, new or as it was. -/
theorem createPlan_eq_ok {j j' : Journal} {operation : Operation} {now : ℤ}
    (h : j.createPlan operation now = .ok j') :
    (j' = j ∧ ∃ row, j.operation operation.planId = some row ∧ row.toOperation = operation) ∨
    (j.operation operation.planId = none ∧ ∀ q, j'.operation q =
      if q = operation.planId then some ⟨operation, .planned, none, none⟩
      else j.operation q) := by
  unfold createPlan at h
  split at h
  · rename_i hfind
    cases h
    refine Or.inr ⟨?_, operation_insert _⟩
    rw [Journal.operation, hfind, Option.map_none]
  · rename_i row hfind
    by_cases hsame : row.toOperation = operation
    · rw [if_pos hsame] at h
      cases h
      refine Or.inl ⟨rfl, row.toOperationRow, ?_, hsame⟩
      rw [Journal.operation, hfind, Option.map_some]
    · rw [if_neg hsame] at h
      cases h

/-- A plan that is not recorded yet is inserted. -/
theorem createPlan_of_absent {j : Journal} {operation : Operation} {now : ℤ}
    (h : ∀ row ∈ j.rows, row.planId ≠ operation.planId) :
    j.createPlan operation now = .ok (j.insert operation now h) := by
  unfold createPlan
  split
  · rfl
  · rename_i row hfind
    exact absurd (by simpa using List.find?_some hfind)
      (h row (List.mem_of_find?_eq_some hfind))

/-- A second record of the same operation changes nothing. -/
theorem createPlan_of_same {j : Journal} {operation : Operation} {now : ℤ} {row : OperationRow}
    (hrow : j.operation operation.planId = some row) (hsame : row.toOperation = operation) :
    j.createPlan operation now = .ok j := by
  rw [Journal.operation, Option.map_eq_some_iff] at hrow
  obtain ⟨stored, hfind, rfl⟩ := hrow
  unfold createPlan
  split
  · rename_i hnone
    rw [hfind] at hnone
    cases hnone
  · rename_i row' hfind'
    rw [hfind] at hfind'
    cases hfind'
    exact if_pos hsame

/-- A transition goes through where the row is there and the stage machine allows it. -/
theorem transition_eq_ok {j j' : Journal} {planId : String} {target source : JournalStage}
    {txid lastError : Option String} :
    j.transition planId target txid lastError = .ok (source, j') ↔
      ∃ row, j.operation planId = some row ∧ row.stage = source ∧
        source.canTransition target = true ∧ j' = j.write planId target txid lastError := by
  rw [transition]
  cases j.operation planId with
  | none =>
      constructor
      · intro h
        cases h
      · rintro ⟨row, hrow, -⟩
        cases hrow
  | some row =>
      by_cases hlegal : row.stage.canTransition target = true
      · simp only [if_pos hlegal, Except.ok.injEq, Prod.mk.injEq, Option.some.injEq]
        constructor
        · rintro ⟨rfl, rfl⟩
          exact ⟨row, rfl, rfl, hlegal, rfl⟩
        · rintro ⟨_, rfl, rfl, -, rfl⟩
          exact ⟨rfl, rfl⟩
      · simp only [if_neg hlegal]
        constructor
        · intro h
          cases h
        · rintro ⟨_, hrow, rfl, hto, -⟩
          cases hrow
          exact absurd hto hlegal

/-! ### The rows that recovery reads -/

namespace NonTerminalRows

variable {j : Journal} {rows : List OperationRow}

/-- The rows that are listed are those of plans that have not ended. -/
theorem mem_iff (h : j.NonTerminalRows rows) {row : OperationRow} :
    row ∈ rows ↔ j.operation row.planId = some row ∧ row.stage.isTerminal = false := by
  obtain ⟨sorted, hperm, -, rfl⟩ := h
  rw [List.mem_map, operation_eq_some]
  constructor
  · rintro ⟨stored, hstored, rfl⟩
    have hmem := List.mem_filter.mp (hperm.mem_iff.mp hstored)
    exact ⟨⟨rfl, stored.createdAt, hmem.1⟩, by simpa using hmem.2⟩
  · rintro ⟨⟨-, createdAt, hmem⟩, hterminal⟩
    have hstored : (⟨row, createdAt⟩ : StoredRow) ∈
        j.rows.filter fun row => !row.stage.isTerminal :=
      List.mem_filter.mpr ⟨hmem, by simpa using hterminal⟩
    exact ⟨⟨row, createdAt⟩, hperm.mem_iff.mpr hstored, rfl⟩

/-- Each plan is read once. -/
theorem nodup (h : j.NonTerminalRows rows) : (rows.map fun row => row.planId).Nodup := by
  obtain ⟨sorted, hperm, -, rfl⟩ := h
  rw [List.map_map]
  have hsub : ((j.rows.filter fun row => !row.stage.isTerminal).map fun row => row.planId).Nodup :=
    j.unique.sublist (List.filter_sublist.map _)
  exact ((hperm.map fun row => row.planId).nodup_iff).mpr hsub

end NonTerminalRows

/-- The query has an answer. -/
theorem exists_nonTerminalRows (j : Journal) : ∃ rows, j.NonTerminalRows rows := by
  refine ⟨_, (j.rows.filter fun row => !row.stage.isTerminal).insertionSort
    (fun row row' => row.createdAt ≤ row'.createdAt), List.perm_insertionSort _ _, ?_, rfl⟩
  have : Std.Total (α := StoredRow) fun row row' => row.createdAt ≤ row'.createdAt :=
    ⟨fun row row' => le_total row.createdAt row'.createdAt⟩
  have : IsTrans StoredRow fun row row' => row.createdAt ≤ row'.createdAt :=
    ⟨fun _ _ _ => le_trans⟩
  exact List.pairwise_insertionSort _ _

end Journal

end Zalkanes
