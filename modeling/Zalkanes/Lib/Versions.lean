import Mathlib

/-!
# Versioned Stores

A store that is advanced by commits of rising level and taken back by rollbacks to a level. The
commits that no rollback has undone are its **survivors**; a store is determined by them. Two
laws of a backend give this for every run (`Versioned.represents_run`): a commit extends the
version list it represents, and a rollback cuts that list at its level.

When a backend is in one state for each version list, the second result follows:
`Versioned.rollback_run_eq` says that a rollback brings back the very state the run was in right
after the last survivor at or below the target.

## Main results

* `survivors_append_singleton`, `RisingFrom.append_singleton`: one operation at the end of a run.
* `survivors_pairwise`: levels of survivors rise strictly.
* `survivors_take`: the survivors up to a surviving commit are the survivors of the run cut just
  after that commit.
* `Versioned.represents_run`, `Versioned.rollback_run_eq`.
-/

namespace Lib

/-- An operation on a versioned store: commit a version, or roll back to a target. -/
inductive VersionOp (C T : Type) where
  | commit (c : C)
  | rollback (t : T)
  deriving DecidableEq, Repr

section Survivors

variable {C T : Type} (level : C → ℕ) (bound : T → ℕ)

/-- The survivors after one more operation, which stands at position `i` of the run. A version
is kept together with its position. -/
def survive (vs : List (ℕ × C)) (i : ℕ) : VersionOp C T → List (ℕ × C)
  | .commit c => vs ++ [(i, c)]
  | .rollback t => vs.filter fun v => level v.2 ≤ bound t

/-- The survivors of a run that starts at position `i` with survivors `vs`. -/
def survivorsFrom (vs : List (ℕ × C)) (i : ℕ) : List (VersionOp C T) → List (ℕ × C)
  | [] => vs
  | op :: ops => survivorsFrom (survive level bound vs i op) (i + 1) ops

/-- The commits of a run that no later rollback undoes, oldest first, with their positions. -/
def survivors (ops : List (VersionOp C T)) : List (ℕ × C) :=
  survivorsFrom level bound [] 0 ops

/-- The versions a run leaves, oldest first. -/
def versions (ops : List (VersionOp C T)) : List C :=
  (survivors level bound ops).map Prod.snd

/-- The last survivor at or below a target, with its position. -/
def lastSurvivor (ops : List (VersionOp C T)) (t : T) : Option (ℕ × C) :=
  ((survivors level bound ops).filter fun v => level v.2 ≤ bound t).getLast?

/-- A commit must lie above every survivor; a rollback may go anywhere. -/
def Admissible (vs : List (ℕ × C)) : VersionOp C T → Prop
  | .commit c => ∀ v ∈ vs, level v.2 < level c
  | .rollback _ => True

/-- Every commit of the run lies above the survivors it meets. -/
def RisingFrom (vs : List (ℕ × C)) (i : ℕ) : List (VersionOp C T) → Prop
  | [] => True
  | op :: ops => Admissible level vs op ∧ RisingFrom (survive level bound vs i op) (i + 1) ops

/-- The commits of a run from an empty store have strictly rising levels, rollbacks taken into
account. -/
def Rising (ops : List (VersionOp C T)) : Prop :=
  RisingFrom level bound [] 0 ops

/-- What survives is decided one operation after the other. -/
theorem survivorsFrom_append (vs : List (ℕ × C)) (i : ℕ) (ops ops' : List (VersionOp C T)) :
    survivorsFrom level bound vs i (ops ++ ops') =
      survivorsFrom level bound (survivorsFrom level bound vs i ops) (i + ops.length) ops' := by
  induction ops generalizing vs i with
  | nil => rfl
  | cons op ops ih =>
      rw [List.cons_append, survivorsFrom, survivorsFrom, ih, List.length_cons]
      congr 1
      omega

/-- Rising is checked one operation after the other. -/
theorem RisingFrom.append {vs : List (ℕ × C)} {i : ℕ} {ops ops' : List (VersionOp C T)} :
    RisingFrom level bound vs i (ops ++ ops') ↔
      RisingFrom level bound vs i ops ∧
        RisingFrom level bound (survivorsFrom level bound vs i ops) (i + ops.length) ops' := by
  induction ops generalizing vs i with
  | nil => simp [RisingFrom, survivorsFrom]
  | cons op ops ih =>
      rw [List.cons_append, RisingFrom, RisingFrom, survivorsFrom, ih, List.length_cons,
        and_assoc, show i + 1 + ops.length = i + (ops.length + 1) by omega]

/-- The survivors after one operation at the end of a run. -/
theorem survivors_append_singleton (ops : List (VersionOp C T)) (op : VersionOp C T) :
    survivors level bound (ops ++ [op]) =
      survive level bound (survivors level bound ops) ops.length op := by
  rw [survivors, survivorsFrom_append, Nat.zero_add]
  rfl

/-- A rising run with one operation at its end. -/
theorem Rising.append_singleton {ops : List (VersionOp C T)} {op : VersionOp C T} :
    Rising level bound (ops ++ [op]) ↔
      Rising level bound ops ∧ Admissible level (survivors level bound ops) op := by
  rw [Rising, RisingFrom.append]
  simp [RisingFrom, Rising, survivors]

/-- A part of a rising run from its start is rising. -/
theorem Rising.of_append {ops ops' : List (VersionOp C T)}
    (h : Rising level bound (ops ++ ops')) : Rising level bound ops :=
  ((RisingFrom.append level bound).mp h).1

/-- There are none at first. -/
@[simp] theorem versions_nil : versions level bound ([] : List (VersionOp C T)) = [] := rfl

/-- A commit is the newest version. -/
@[simp] theorem versions_append_commit (ops : List (VersionOp C T)) (c : C) :
    versions level bound (ops ++ [.commit c]) = versions level bound ops ++ [c] := by
  simp [versions, survivors_append_singleton, survive]

/-- A rollback drops what is above the bound. -/
@[simp] theorem versions_append_rollback (ops : List (VersionOp C T)) (t : T) :
    versions level bound (ops ++ [.rollback t]) =
      (versions level bound ops).filter fun c => level c ≤ bound t := by
  simp [versions, survivors_append_singleton, survive, List.filter_map, Function.comp_def]

variable {level bound}

/-- Levels of survivors rise strictly. -/
theorem survivors_pairwise {ops : List (VersionOp C T)} (h : Rising level bound ops) :
    (survivors level bound ops).Pairwise fun v w => level v.2 < level w.2 := by
  induction ops using List.reverseRecOn with
  | nil => exact List.Pairwise.nil
  | append_singleton ops op ih =>
      obtain ⟨hops, hop⟩ := (Rising.append_singleton level bound).mp h
      rw [survivors_append_singleton]
      cases op with
      | commit c =>
          refine List.pairwise_append.mpr ⟨ih hops, List.pairwise_singleton _ _, ?_⟩
          intro v hv w hw
          rw [List.mem_singleton.mp hw]
          exact hop v hv
      | rollback t => exact (ih hops).filter _

/-- Levels of the versions rise strictly. -/
theorem versions_pairwise {ops : List (VersionOp C T)} (h : Rising level bound ops) :
    (versions level bound ops).Pairwise fun c d => level c < level d :=
  List.pairwise_map.mpr (survivors_pairwise h)

/-- Filtering by what tells the two parts of a list apart leaves the first. -/
theorem filter_append_eq_left {α : Type} {p : α → Bool} {xs ys : List α} (hxs : ∀ x ∈ xs, p x)
    (hys : ∀ y ∈ ys, ¬ p y) : (xs ++ ys).filter p = xs := by
  rw [List.filter_append, List.filter_eq_self.mpr hxs, List.filter_eq_nil_iff.mpr hys,
    List.append_nil]

/-- On a rising list, cutting at a level and filtering by it are one. -/
theorem exists_filter_append_of_pairwise {α : Type} {f : α → ℕ} {l : List α}
    (h : l.Pairwise fun a b => f a < f b) (t : ℕ) :
    ∃ rest, l = (l.filter fun a => f a ≤ t) ++ rest ∧ ∀ a ∈ rest, t < f a := by
  induction l with
  | nil => exact ⟨[], rfl, by simp⟩
  | cons a l ih =>
      obtain ⟨hlt, hl⟩ := List.pairwise_cons.mp h
      by_cases ha : f a ≤ t
      · obtain ⟨rest, hrest, habove⟩ := ih hl
        refine ⟨rest, ?_, habove⟩
        rw [List.filter_cons_of_pos (by simpa using ha), List.cons_append, ← hrest]
      · refine ⟨a :: l, ?_, ?_⟩
        · rw [List.filter_eq_nil_iff.mpr, List.nil_append]
          intro b hb
          rcases List.mem_cons.mp hb with rfl | hb
          · simpa using ha
          · have := hlt b hb
            simp only [decide_eq_true_eq]
            omega
        · intro b hb
          rcases List.mem_cons.mp hb with rfl | hb
          · omega
          · have := hlt b hb
            omega

/-- **A surviving commit fixes what survived before it**: cutting the run just after it leaves
the survivors up to it. -/
theorem survivors_take {ops : List (VersionOp C T)} (h : Rising level bound ops)
    {pre post : List (ℕ × C)} {v : ℕ × C}
    (hv : survivors level bound ops = pre ++ v :: post) :
    v.1 < ops.length ∧ survivors level bound (ops.take (v.1 + 1)) = pre ++ [v] := by
  induction ops using List.reverseRecOn generalizing post with
  | nil => simp [survivors, survivorsFrom] at hv
  | append_singleton ops op ih =>
      obtain ⟨hops, -⟩ := (Rising.append_singleton level bound).mp h
      have hlen : (ops ++ [op]).length = ops.length + 1 := by simp
      -- it is enough to find `v` among the survivors before the last operation
      have hbefore : ∀ post', survivors level bound ops = pre ++ v :: post' →
          v.1 < (ops ++ [op]).length ∧
            survivors level bound ((ops ++ [op]).take (v.1 + 1)) = pre ++ [v] := by
        intro post' hpost
        obtain ⟨hlt, htake⟩ := ih hops hpost
        refine ⟨by omega, ?_⟩
        rw [List.take_append_of_le_length (by omega), htake]
      have hsurv := hv
      rw [survivors_append_singleton] at hsurv
      cases op with
      | commit c =>
          rcases List.eq_nil_or_concat post with rfl | ⟨post', w, rfl⟩
          · obtain ⟨hpre, hlast⟩ := List.append_inj' hsurv rfl
            obtain rfl : (ops.length, c) = v := by simpa using hlast
            refine ⟨by simp, ?_⟩
            rw [List.take_of_length_le (by simp), hv]
          · refine hbefore post' ?_
            have hcut : survivors level bound ops ++ [(ops.length, c)] =
                (pre ++ v :: post') ++ [w] := by
              rw [← survive.eq_1 level bound, hsurv]
              simp
            exact (List.append_inj' hcut rfl).1
      | rollback t =>
          obtain ⟨rest, hrest, -⟩ :=
            exists_filter_append_of_pairwise (survivors_pairwise hops) (bound t)
          refine hbefore (post ++ rest) ?_
          rw [survive] at hsurv
          rw [hrest, hsurv, List.append_assoc, List.cons_append]

end Survivors

/-! ### Backends -/

/-- A backend of a versioned store. -/
structure Versioned (σ C T : Type) where
  /-- The empty store. -/
  empty : σ
  /-- The store after a commit. -/
  commit : σ → C → σ
  /-- The store after a rollback. -/
  rollback : σ → T → σ

namespace Versioned

variable {σ C T : Type} (B : Versioned σ C T)

/-- One operation. -/
def step (s : σ) : VersionOp C T → σ
  | .commit c => B.commit s c
  | .rollback t => B.rollback s t

/-- A run from the empty store. -/
def run (ops : List (VersionOp C T)) : σ := ops.foldl B.step B.empty

/-- The store that has committed `cs`, oldest first, and nothing else. -/
def build (cs : List C) : σ := cs.foldl B.commit B.empty

/-- The state a run was in right after a survivor, or the empty store for none. -/
def stateAt (ops : List (VersionOp C T)) : Option (ℕ × C) → σ
  | none => B.empty
  | some v => B.run (ops.take (v.1 + 1))

/-- A run starts empty. -/
@[simp] theorem run_nil : B.run [] = B.empty := rfl

/-- A build starts empty. -/
@[simp] theorem build_nil : B.build [] = B.empty := rfl

/-- The last operation of a run is a step. -/
theorem run_append_singleton (ops : List (VersionOp C T)) (op : VersionOp C T) :
    B.run (ops ++ [op]) = B.step (B.run ops) op := by
  simp [run]

/-- The last commit of a build is a commit. -/
theorem build_append_singleton (cs : List C) (c : C) :
    B.build (cs ++ [c]) = B.commit (B.build cs) c := by
  simp [build]

/-- Committing more versions on top. -/
theorem build_append (cs ds : List C) :
    B.build (cs ++ ds) = ds.foldl B.commit (B.build cs) := by
  simp [build]

variable {level : C → ℕ} {bound : T → ℕ}

/-- **The representation rule.** When commits extend the represented version list and rollbacks
cut it, every rising run whose commits are acceptable (`Ok`) represents its versions. -/
theorem represents_run (Rep : σ → List C → Prop) (Ok : C → Prop)
    (hempty : Rep B.empty [])
    (hcommit : ∀ {s cs c}, Rep s cs → (∀ d ∈ cs, Ok d) → Ok c → (∀ d ∈ cs, level d < level c) →
      Rep (B.commit s c) (cs ++ [c]))
    (hrollback : ∀ {s cs}, Rep s cs → (∀ d ∈ cs, Ok d) →
      cs.Pairwise (fun c d => level c < level d) → ∀ t,
      Rep (B.rollback s t) (cs.filter fun c => level c ≤ bound t))
    {ops : List (VersionOp C T)} (hrise : Rising level bound ops)
    (hok : ∀ c, .commit c ∈ ops → Ok c) :
    Rep (B.run ops) (versions level bound ops) ∧ ∀ c ∈ versions level bound ops, Ok c := by
  induction ops using List.reverseRecOn with
  | nil => exact ⟨hempty, by simp⟩
  | append_singleton ops op ih =>
      obtain ⟨hops, hop⟩ := (Rising.append_singleton level bound).mp hrise
      obtain ⟨hrep, hall⟩ := ih hops fun c hc => hok c (by simp [hc])
      rw [run_append_singleton]
      cases op with
      | commit c =>
          have hc : Ok c := hok c (by simp)
          rw [versions_append_commit]
          refine ⟨hcommit hrep hall hc ?_, ?_⟩
          · intro d hd
            obtain ⟨v, hv, rfl⟩ := List.mem_map.mp hd
            exact hop v hv
          · intro d hd
            rcases List.mem_append.mp hd with hd | hd
            · exact hall d hd
            · rw [List.mem_singleton.mp hd]
              exact hc
      | rollback t =>
          rw [versions_append_rollback]
          exact ⟨hrollback hrep hall (versions_pairwise hops) t,
            fun d hd => hall d (List.mem_of_mem_filter hd)⟩

/-- **Rollback is exact.** When a run is in the state that its versions build, rolling it back
gives the state the run was in right after the last survivor at or below the target, or the
empty store when there is none. -/
theorem rollback_run_eq {ops : List (VersionOp C T)} (hrise : Rising level bound ops) {t : T}
    (hroll : B.rollback (B.run ops) t =
      B.build ((versions level bound ops).filter fun c => level c ≤ bound t))
    (hbuild : ∀ n, B.run (ops.take n) = B.build (versions level bound (ops.take n))) :
    B.rollback (B.run ops) t = B.stateAt ops (lastSurvivor level bound ops t) := by
  have hmap : (versions level bound ops).filter (fun c => level c ≤ bound t) =
      ((survivors level bound ops).filter fun v => level v.2 ≤ bound t).map Prod.snd := by
    simp [versions, List.filter_map, Function.comp_def]
  rw [hroll, hmap, lastSurvivor]
  rcases List.eq_nil_or_concat
    ((survivors level bound ops).filter fun v => level v.2 ≤ bound t) with hnil | ⟨pre, v, hpre⟩
  · rw [hnil]
    rfl
  · obtain ⟨rest, hrest, -⟩ :=
      exists_filter_append_of_pairwise (survivors_pairwise hrise) (bound t)
    have hsurv : survivors level bound ops = pre ++ v :: rest := by
      rw [hrest, hpre]
      simp
    obtain ⟨-, htake⟩ := survivors_take hrise hsurv
    rw [hpre, List.concat_eq_append, List.getLast?_concat]
    change B.build _ = B.run _
    rw [hbuild, versions, htake]

end Versioned

end Lib
