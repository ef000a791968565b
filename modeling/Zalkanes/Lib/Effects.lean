import Mathlib

/-!
# Programs with Effects

A program that does something to the world outside it, step by step: a database that may fail to
answer, a node that may reject what it is sent, a disk that survives when the process does not. A
program is a tree of effects (`Prog`), and a relation says how the world may answer each of them
(`Answers`). What holds at every point of every run, interrupted ones included, is said by one
predicate that is computed along the tree (`Prog.Spec`).

## Main results

* `Prog.spec_bind`: a composition meets its specification if its parts meet theirs.
* `Prog.spec_iff_yields`, `Prog.Spec.of_visits`: what a specification says about complete and about
  interrupted runs.
* `Prog.exists_yields`: where every effect is answered, a program runs to its end.
* `Prog.visits_runFor`: the run that a function's answers lead to.
* `Prog.yields_eval`, `Prog.eq_eval_of_yields`: where the answers are those of a function, the run
  of a program is its evaluation.
* `Prog.evalState_bind`, `Prog.evalState_invariant`: evaluation where the answers change the world.
-/

namespace Lib

/-- A program: it is done, or it performs an effect and goes on with the answer. -/
inductive Prog {E : Type} (R : E → Type) (α : Type) : Type where
  | done (a : α)
  | perform (e : E) (resume : R e → Prog R α)

namespace Prog

variable {E : Type} {R : E → Type} {W α β : Type}

/-- One program after the other. -/
protected def bind : Prog R α → (α → Prog R β) → Prog R β
  | done a, f => f a
  | perform e resume, f => perform e fun r => (resume r).bind f

instance : Monad (Prog R) where
  pure := done
  bind := Prog.bind

/-- A program that is done goes on at once. -/
@[simp] theorem done_bind (a : α) (f : α → Prog R β) : done a >>= f = f a := rfl

/-- A pure program goes on at once. -/
@[simp] theorem pure_bind (a : α) (f : α → Prog R β) : (pure a : Prog R α) >>= f = f a := rfl

/-- The effect comes first. -/
@[simp] theorem perform_bind (e : E) (resume : R e → Prog R α) (f : α → Prog R β) :
    perform e resume >>= f = perform e fun r => resume r >>= f := rfl

/-- A single effect. -/
def call (e : E) : Prog R (R e) := perform e done

/-- Nothing after a program is the program. -/
theorem bind_done (p : Prog R α) : p.bind done = p := by
  induction p with
  | done a => rfl
  | perform e resume ih => exact congrArg (perform e) (funext ih)

/-- Sequencing is associative. -/
protected theorem bind_assoc {γ : Type} (p : Prog R α) (f : α → Prog R β) (g : β → Prog R γ) :
    (p >>= f) >>= g = p >>= fun a => f a >>= g := by
  induction p with
  | done a => rfl
  | perform e resume ih => exact congrArg (perform e) (funext ih)

instance : LawfulMonad (Prog R) := .mk' _ bind_done (fun _ _ => rfl) Prog.bind_assoc

end Prog

/-- How the world answers an effect: the answer, and the world after it. -/
abbrev Answers {E : Type} (R : E → Type) (W : Type) := W → (e : E) → R e → W → Prop

namespace Prog

variable {E : Type} {R : E → Type} {W α β : Type} {A A' : Answers R W}

/-! ### Runs -/

/-- A run to the end: the result, and the world after it. -/
inductive Yields (A : Answers R W) : Prog R α → W → α → W → Prop
  | done (a : α) (w : W) : Yields A (done a) w a w
  | perform {e : E} {resume : R e → Prog R α} {w w' w'' : W} {r : R e} {a : α}
      (h : A w e r w') (hrest : Yields A (resume r) w' a w'') :
      Yields A (perform e resume) w a w''

/-- A run that is interrupted between two effects, or at the end: the world it leaves. -/
inductive Visits (A : Answers R W) : Prog R α → W → W → Prop
  | here (p : Prog R α) (w : W) : Visits A p w w
  | perform {e : E} {resume : R e → Prog R α} {w w' w'' : W} {r : R e}
      (h : A w e r w') (hrest : Visits A (resume r) w' w'') : Visits A (perform e resume) w w''

/-- A run up to one of its effects: the world the effect is performed in. -/
inductive Performs (A : Answers R W) : Prog R α → W → E → W → Prop
  | now {e : E} {resume : R e → Prog R α} (w : W) : Performs A (perform e resume) w e w
  | later {e e' : E} {resume : R e → Prog R α} {w w' w'' : W} {r : R e}
      (h : A w e r w') (hrest : Performs A (resume r) w' e' w'') :
      Performs A (perform e resume) w e' w''

/-- A composition runs to the end when its parts do. -/
theorem yields_bind {p : Prog R α} {f : α → Prog R β} {w w'' : W} {b : β} :
    Yields A (p >>= f) w b w'' ↔ ∃ a w', Yields A p w a w' ∧ Yields A (f a) w' b w'' := by
  induction p generalizing w with
  | done a =>
      constructor
      · exact fun h => ⟨a, w, .done a w, h⟩
      · rintro ⟨a, w', h, hrest⟩
        cases h
        exact hrest
  | perform e resume ih =>
      constructor
      · intro h
        cases h with
        | perform h hrest =>
            obtain ⟨a, w', hp, hf⟩ := (ih _).mp hrest
            exact ⟨a, w', .perform h hp, hf⟩
      · rintro ⟨a, w', h, hrest⟩
        cases h with
        | perform h hp => exact .perform h ((ih _).mpr ⟨a, w', hp, hrest⟩)

/-- A call yields what it is answered. -/
theorem yields_call {e : E} {w w' : W} {r : R e} :
    Yields A (call e) w r w' ↔ A w e r w' := by
  constructor
  · intro h
    cases h with
    | perform h hrest =>
        cases hrest
        exact h
  · exact fun h => .perform h (.done _ _)

/-- A world that answers in more ways has more runs. -/
theorem Visits.mono (hA : ∀ w e r w', A w e r w' → A' w e r w') {p : Prog R α} {w w' : W}
    (h : Visits A p w w') : Visits A' p w w' := by
  induction h with
  | here p w => exact .here p w
  | perform h _ ih => exact .perform (hA _ _ _ _ h) ih

/-- **Where every effect is answered, a program runs to its end.** -/
theorem exists_yields (hA : ∀ w e, ∃ r w', A w e r w') (p : Prog R α) (w : W) :
    ∃ a w', Yields A p w a w' := by
  induction p generalizing w with
  | done a => exact ⟨a, w, .done a w⟩
  | perform e resume ih =>
      obtain ⟨r, w', h⟩ := hA w e
      obtain ⟨a, w'', hrest⟩ := ih r w'
      exact ⟨a, w'', .perform h hrest⟩

/-- A run to the end visits the world it ends in. -/
theorem Yields.visits {p : Prog R α} {w w' : W} {a : α} (h : Yields A p w a w') :
    Visits A p w w' := by
  induction h with
  | done a w => exact .here _ w
  | perform h _ ih => exact .perform h ih

/-- The result of a program that is done. -/
def result? : Prog R α → Option α
  | done a => some a
  | perform _ _ => none

/-- What is left of the program after so many effects that are answered by a function, and the
world then. -/
def runFor (answer : W → (e : E) → R e × W) : ℕ → Prog R α → W → Prog R α × W
  | 0, p, w => (p, w)
  | _ + 1, done a, w => (done a, w)
  | n + 1, perform e resume, w => runFor answer n (resume (answer w e).1) (answer w e).2

section RunFor

variable {answer : W → (e : E) → R e × W}

/-- A run cut short visits the state that it is cut in. -/
theorem visits_runFor (hA : ∀ w e, A w e (answer w e).1 (answer w e).2) (n : ℕ) (p : Prog R α)
    (w : W) : Visits A p w (runFor answer n p w).2 := by
  induction n generalizing p w with
  | zero => exact .here p w
  | succ n ih =>
      cases p with
      | done a => exact .here _ w
      | perform e resume => exact .perform (hA w e) (ih _ _)

/-- A run that leaves nothing is a run to the end. -/
theorem yields_runFor (hA : ∀ w e, A w e (answer w e).1 (answer w e).2) {n : ℕ} {p : Prog R α}
    {w : W} {a : α} (h : (runFor answer n p w).1.result? = some a) :
    Yields A p w a (runFor answer n p w).2 := by
  induction n generalizing p w with
  | zero =>
      cases p with
      | done b =>
          obtain rfl := Option.some.inj h
          exact .done _ w
      | perform e resume => cases h
  | succ n ih =>
      cases p with
      | done b =>
          obtain rfl := Option.some.inj h
          exact .done _ w
      | perform e resume => exact .perform (hA w e) (ih h)

end RunFor

/-! ### Specifications -/

/-- Every run of the program performs its effects where that is `ok`, and ends in `Q`. -/
def Spec (A : Answers R W) (ok : E → W → Prop) : Prog R α → W → (α → W → Prop) → Prop
  | done a, w, Q => Q a w
  | perform e resume, w, Q => ok e w ∧ ∀ r w', A w e r w' → (resume r).Spec A ok w' Q

variable {ok ok' : E → W → Prop} {w : W}

/-- A program that is done needs its postcondition now. -/
@[simp] theorem spec_done {a : α} {Q : α → W → Prop} : Spec A ok (done a) w Q ↔ Q a w := Iff.rfl

/-- A pure program needs its postcondition now. -/
@[simp] theorem spec_pure {a : α} {Q : α → W → Prop} :
    Spec A ok (pure a) w Q ↔ Q a w := Iff.rfl

/-- A call must be allowed, and its postcondition hold of every answer. -/
@[simp] theorem spec_call {e : E} {Q : R e → W → Prop} :
    Spec A ok (call e) w Q ↔ ok e w ∧ ∀ r w', A w e r w' → Q r w' := Iff.rfl

/-- **A composition** meets its specification if its parts meet theirs. -/
@[simp] theorem spec_bind {p : Prog R α} {f : α → Prog R β} {Q : β → W → Prop} :
    Spec A ok (p >>= f) w Q ↔ Spec A ok p w fun a w' => Spec A ok (f a) w' Q := by
  induction p generalizing w with
  | done a => exact Iff.rfl
  | perform e resume ih =>
      rw [perform_bind]
      exact and_congr_right fun _ => forall_congr' fun r => forall_congr' fun w' =>
        imp_congr_right fun _ => ih r

/-- **The rule of consequence.** -/
theorem Spec.mono {p : Prog R α} {Q Q' : α → W → Prop} (h : Spec A ok p w Q)
    (hQ : ∀ a w', Q a w' → Q' a w') : Spec A ok p w Q' := by
  induction p generalizing w with
  | done a => exact hQ a w h
  | perform e resume ih => exact ⟨h.1, fun r w' hr => ih r (h.2 r w' hr)⟩

/-- A specification in a world that answers in more ways, with stricter permissions. -/
theorem Spec.weaken (hA : ∀ w e r w', A w e r w' → A' w e r w') (hok : ∀ e w, ok' e w → ok e w)
    {p : Prog R α} {Q : α → W → Prop} (h : Spec A' ok' p w Q) : Spec A ok p w Q := by
  induction p generalizing w with
  | done a => exact h
  | perform e resume ih => exact ⟨hok e w h.1, fun r w' hr => ih r (h.2 r w' (hA _ _ _ _ hr))⟩

/-- A run to the end ends as specified. -/
theorem Spec.of_yields {p : Prog R α} {Q : α → W → Prop} (h : Spec A ok p w Q) {a : α} {w' : W}
    (hrun : Yields A p w a w') : Q a w' := by
  induction hrun with
  | done a w => exact h
  | perform hr _ ih => exact ih (h.2 _ _ hr)

/-- **What a specification says** when every effect is permitted. -/
theorem spec_iff_yields {p : Prog R α} {Q : α → W → Prop} :
    Spec A (fun _ _ => True) p w Q ↔ ∀ a w', Yields A p w a w' → Q a w' := by
  constructor
  · exact fun h a w' hrun => h.of_yields hrun
  · intro h
    induction p generalizing w with
    | done a => exact h a w (.done a w)
    | perform e resume ih =>
        exact ⟨trivial, fun r w' hr => ih r fun a w'' hrun => h a w'' (.perform hr hrun)⟩

/-- **What holds before every effect and at the end** holds where a run is interrupted. -/
theorem Spec.of_visits {I : W → Prop} {p : Prog R α} {Q : α → W → Prop} (h : Spec A ok p w Q)
    (hok : ∀ e w, ok e w → I w) (hQ : ∀ a w, Q a w → I w) {w' : W} (hrun : Visits A p w w') :
    I w' := by
  induction hrun with
  | here p w =>
      cases p with
      | done a => exact hQ a w h
      | perform e resume => exact hok e w h.1
  | perform hr _ ih => exact ih (h.2 _ _ hr)

/-- An effect is performed where it is permitted. -/
theorem Spec.of_performs {p : Prog R α} {Q : α → W → Prop} (h : Spec A ok p w Q) {e : E} {w' : W}
    (hrun : Performs A p w e w') : ok e w' := by
  induction hrun with
  | now w => exact h.1
  | later hr _ ih => exact ih (h.2 _ _ hr)

/-- A program that only performs what is permitted meets the specification that says so. -/
theorem spec_of_performs {p : Prog R α} (h : ∀ e w', Performs A p w e w' → ok e w') :
    Spec A ok p w fun _ _ => True := by
  induction p generalizing w with
  | done a => trivial
  | perform e resume ih =>
      exact ⟨h e w (.now w), fun r w' hr => ih r fun e' w'' hrest => h e' w'' (.later hr hrest)⟩

/-- What every permitted effect preserves holds at every point. -/
theorem Spec.invariant {I : W → Prop} {p : Prog R α} {Q : α → W → Prop} (h : Spec A ok p w Q)
    (hI : ∀ w e r w', I w → ok e w → A w e r w' → I w') (hw : I w) :
    Spec A (fun e w => ok e w ∧ I w) p w fun a w => Q a w ∧ I w := by
  induction p generalizing w with
  | done a => exact ⟨h, hw⟩
  | perform e resume ih =>
      exact ⟨⟨h.1, hw⟩, fun r w' hr => ih r (h.2 r w' hr) (hI _ _ _ _ hw h.1 hr)⟩

/-- Two specifications of one program. -/
theorem Spec.and {p : Prog R α} {Q Q' : α → W → Prop} (h : Spec A ok p w Q)
    (h' : Spec A ok p w Q') : Spec A ok p w fun a w' => Q a w' ∧ Q' a w' := by
  induction p generalizing w with
  | done a => exact ⟨h, h'⟩
  | perform e resume ih => exact ⟨h.1, fun r w' hr => ih r (h.2 r w' hr) (h'.2 r w' hr)⟩

/-! ### The effects of a program -/

/-- Whatever the program is answered, it performs such effects only. -/
def Uses (P : E → Prop) : Prog R α → Prop
  | done _ => True
  | perform e resume => P e ∧ ∀ r, (resume r).Uses P

variable {P P' : E → Prop}

/-- A program that is done uses nothing. -/
@[simp] theorem uses_done {a : α} : Uses P (done a : Prog R α) := trivial

/-- A call uses its effect. -/
theorem uses_call {e : E} (h : P e) : Uses P (call e : Prog R (R e)) := ⟨h, fun _ => trivial⟩

/-- Weakening what is used. -/
theorem Uses.mono {p : Prog R α} (h : p.Uses P) (hP : ∀ e, P e → P' e) : p.Uses P' := by
  induction p with
  | done a => trivial
  | perform e resume ih => exact ⟨hP e h.1, fun r => ih r (h.2 r)⟩

/-- Two programs use what either does. -/
theorem Uses.bind {p : Prog R α} {f : α → Prog R β} (h : p.Uses P) (hf : ∀ a, (f a).Uses P) :
    (p >>= f).Uses P := by
  induction p with
  | done a => exact hf a
  | perform e resume ih => exact ⟨h.1, fun r => ih r (h.2 r)⟩

/-- **Effects that are permitted in every world.** -/
theorem Uses.spec {p : Prog R α} (h : p.Uses P) (w : W) :
    Spec A (fun e _ => P e) p w fun _ _ => True := by
  induction p generalizing w with
  | done a => trivial
  | perform e resume ih => exact ⟨h.1, fun r w' _ => ih r (h.2 r) w'⟩

/-- What each of the effects preserves, the program preserves. -/
theorem Uses.preserves {I : W → Prop} {p : Prog R α} (h : p.Uses P)
    (hI : ∀ w e r w', I w → P e → A w e r w' → I w') (hw : I w) :
    Spec A (fun e _ => P e) p w fun _ w' => I w' :=
  (((h.spec w).invariant hI hw).weaken (fun _ _ _ _ h => h) fun _ _ h => h.1).mono
    fun _ _ h => h.2

/-! ### Programs that may fail -/

variable {ε : Type}

/-- A pure program with errors uses nothing. -/
@[simp] theorem uses_run_pure {a : α} : Uses P (ExceptT.run (pure a : ExceptT ε (Prog R) α)) :=
  trivial

/-- Throwing uses nothing. -/
@[simp] theorem uses_run_throw {e : ε} : Uses P (ExceptT.run (throw e : ExceptT ε (Prog R) α)) :=
  trivial

/-- Two programs with errors use what either does. -/
theorem Uses.run_bind {x : ExceptT ε (Prog R) α} {f : α → ExceptT ε (Prog R) β}
    (hx : x.run.Uses P) (hf : ∀ a, (f a).run.Uses P) : (x >>= f).run.Uses P :=
  Uses.bind hx fun r => by
    cases r with
    | ok a => exact hf a
    | error e => trivial

/-- Lifting uses no more. -/
theorem Uses.run_lift {p : Prog R α} (h : p.Uses P) :
    (ExceptT.run (ExceptT.lift p : ExceptT ε (Prog R) α)).Uses P :=
  h.bind fun _ => trivial

/-- A pure program with errors succeeds. -/
@[simp] theorem spec_run_pure {a : α} {Q : Except ε α → W → Prop} :
    Spec A ok (ExceptT.run (pure a : ExceptT ε (Prog R) α)) w Q ↔ Q (.ok a) w := Iff.rfl

/-- Throwing fails. -/
@[simp] theorem spec_run_throw {e : ε} {Q : Except ε α → W → Prop} :
    Spec A ok (ExceptT.run (throw e : ExceptT ε (Prog R) α)) w Q ↔ Q (.error e) w := Iff.rfl

/-- A composition goes on where its first part does not fail. -/
@[simp] theorem spec_run_bind {x : ExceptT ε (Prog R) α} {f : α → ExceptT ε (Prog R) β}
    {Q : Except ε β → W → Prop} :
    Spec A ok (x >>= f).run w Q ↔ Spec A ok x.run w fun r w' =>
      match r with
      | .ok a => Spec A ok (f a).run w' Q
      | .error e => Q (.error e) w' := by
  change Spec A ok (x.run >>= ExceptT.bindCont f) w Q ↔ _
  rw [spec_bind]
  refine iff_of_eq (congrArg (Spec A ok x.run w) (funext fun r => funext fun w' => ?_))
  cases r <;> rfl

/-- A lifted program succeeds. -/
@[simp] theorem spec_run_lift {p : Prog R α} {Q : Except ε α → W → Prop} :
    Spec A ok (ExceptT.run (ExceptT.lift p)) w Q ↔ Spec A ok p w fun a w' => Q (.ok a) w' := by
  change Spec A ok (p >>= fun a => done (.ok a)) w Q ↔ _
  rw [spec_bind]
  rfl

/-- An effect whose answer says whether it failed. -/
@[simp] theorem spec_run_mk {p : Prog R (Except ε α)} {Q : Except ε α → W → Prop} :
    Spec A ok (ExceptT.run (ExceptT.mk p)) w Q ↔ Spec A ok p w Q := Iff.rfl

/-- A run of a composition, past its first part. -/
theorem Visits.run_bind {x : ExceptT ε (Prog R) α} {f : α → ExceptT ε (Prog R) β} {a : α}
    {w w' w'' : W} (hx : Yields A x.run w (.ok a) w') (hf : Visits A (f a).run w' w'') :
    Visits A (x >>= f).run w w'' := by
  change Visits A (x.run >>= ExceptT.bindCont f) w w''
  generalize hr : (Except.ok a : Except ε α) = r, x.run = p at hx ⊢
  induction hx with
  | done _ _ =>
      cases hr
      exact hf
  | perform h _ ih => exact .perform h (ih hf hr)

/-- A run of a composition, within its first part. -/
theorem Visits.run_bind_left {x : ExceptT ε (Prog R) α} {f : α → ExceptT ε (Prog R) β}
    {w w' : W} (hx : Visits A x.run w w') : Visits A (x >>= f).run w w' := by
  change Visits A (x.run >>= ExceptT.bindCont f) w w'
  generalize x.run = p at hx ⊢
  induction hx with
  | here _ w => exact .here _ w
  | perform h _ ih => exact .perform h ih

/-- **A loop over a list**, under an invariant about what is left of it. -/
theorem spec_run_foldlM {f : β → α → ExceptT ε (Prog R) β} (I : List α → β → W → Prop)
    {Q : Except ε β → W → Prop}
    (hstep : ∀ x xs b w, I (x :: xs) b w → Spec A ok (f b x).run w fun r w' =>
      match r with
      | .ok b' => I xs b' w'
      | .error e => Q (.error e) w')
    (hend : ∀ b w, I [] b w → Q (.ok b) w) {xs : List α} {b : β} (h : I xs b w) :
    Spec A ok (xs.foldlM f b).run w Q := by
  induction xs generalizing b w with
  | nil => exact hend b w h
  | cons x xs ih =>
      rw [List.foldlM_cons, spec_run_bind]
      refine (hstep x xs b w h).mono fun r w' hr => ?_
      cases r with
      | ok b' => exact ih hr
      | error e => exact hr

/-! ### Programs that are answered by a function -/

/-- The result of a program, where a function answers every effect. -/
def eval (answer : (e : E) → R e) : Prog R α → α
  | done a => a
  | perform e resume => (resume (answer e)).eval answer

section Eval

variable {answer : (e : E) → R e}

/-- A pure program is its result. -/
@[simp] theorem eval_pure (a : α) : (pure a : Prog R α).eval answer = a := rfl

/-- A call is its answer. -/
@[simp] theorem eval_call (e : E) : (call e : Prog R (R e)).eval answer = answer e := rfl

/-- Evaluation goes through in order. -/
@[simp] theorem eval_bind (p : Prog R α) (f : α → Prog R β) :
    (p >>= f).eval answer = (f (p.eval answer)).eval answer := by
  induction p with
  | done a => rfl
  | perform e resume ih => exact ih _

/-- A pure program with errors succeeds. -/
@[simp] theorem eval_run_pure (a : α) :
    (ExceptT.run (pure a : ExceptT ε (Prog R) α)).eval answer = .ok a := rfl

/-- What is packed as a program with errors is evaluated as it is. -/
@[simp] theorem eval_run_mk (p : Prog R (Except ε α)) :
    (ExceptT.run (ExceptT.mk p)).eval answer = p.eval answer := rfl

/-- A lifted program succeeds. -/
@[simp] theorem eval_run_lift (p : Prog R α) :
    (ExceptT.run (ExceptT.lift p : ExceptT ε (Prog R) α)).eval answer = .ok (p.eval answer) :=
  eval_bind p _

/-- An error ends the evaluation. -/
@[simp] theorem eval_run_bind (x : ExceptT ε (Prog R) α) (f : α → ExceptT ε (Prog R) β) :
    (x >>= f).run.eval answer = x.run.eval answer >>= fun a => (f a).run.eval answer := by
  refine (eval_bind x.run (ExceptT.bindCont f)).trans ?_
  cases x.run.eval answer <;> rfl

/-- A lifted program hands its result on. -/
theorem eval_run_lift_bind (p : Prog R α) (f : α → ExceptT ε (Prog R) β) :
    (ExceptT.lift p >>= f).run.eval answer = (f (p.eval answer)).run.eval answer := by
  rw [eval_run_bind, eval_run_lift]
  rfl

/-- A loop over a list. -/
theorem eval_run_foldlM {f : β → α → ExceptT ε (Prog R) β} {g : β → α → Except ε β}
    (h : ∀ b a, (f b a).run.eval answer = g b a) (as : List α) (b : β) :
    (as.foldlM f b).run.eval answer = as.foldlM g b := by
  induction as generalizing b with
  | nil => rfl
  | cons a as ih =>
      rw [List.foldlM_cons, List.foldlM_cons, eval_run_bind, h]
      exact congrArg _ (funext ih)

/-- One program for each element of a list. -/
theorem eval_mapM (f : α → Prog R β) (as : List α) :
    (as.mapM f).eval answer = as.map fun a => (f a).eval answer := by
  induction as with
  | nil => rfl
  | cons a as ih => rw [List.mapM_cons, eval_bind, eval_bind, ih, eval_pure, List.map_cons]

/-- Where the world may answer like the function and stays as it is, there is such a run. -/
theorem yields_eval (hA : ∀ e, A w e (answer e) w) (p : Prog R α) :
    Yields A p w (p.eval answer) w := by
  induction p with
  | done a => exact .done a w
  | perform e resume ih => exact .perform (hA e) (ih _)

/-- **Where the world has to answer like the function** and stays as it is, every run is that
run. -/
theorem eq_eval_of_yields (hA : ∀ e r w', A w e r w' → r = answer e ∧ w' = w) {p : Prog R α}
    {a : α} {w' : W} (h : Yields A p w a w') : a = p.eval answer ∧ w' = w := by
  induction h with
  | done a w => exact ⟨rfl, rfl⟩
  | perform hr _ ih =>
      obtain ⟨rfl, rfl⟩ := hA _ _ _ hr
      exact ih hA

end Eval

/-! ### Programs that are answered by a function of the world -/

/-- The result of a program, where a function of the world answers every effect and gives the world
after it, and the world in the end. -/
def evalState (answer : W → (e : E) → R e × W) : Prog R α → W → α × W
  | done a, w => (a, w)
  | perform e resume, w => (resume (answer w e).1).evalState answer (answer w e).2

section EvalState

variable {answer : W → (e : E) → R e × W}

/-- A pure program keeps the state. -/
@[simp] theorem evalState_pure (a : α) (w : W) :
    (pure a : Prog R α).evalState answer w = (a, w) := rfl

/-- A call is answered in the state. -/
@[simp] theorem evalState_call (e : E) (w : W) :
    (call e : Prog R (R e)).evalState answer w = answer w e := rfl

/-- The second program starts in the state that the first one leaves. -/
@[simp] theorem evalState_bind (p : Prog R α) (f : α → Prog R β) (w : W) :
    (p >>= f).evalState answer w =
      (f (p.evalState answer w).1).evalState answer (p.evalState answer w).2 := by
  induction p generalizing w with
  | done a => rfl
  | perform e resume ih => exact ih _ _

/-- **What every answer preserves, the program preserves.** -/
theorem evalState_invariant {I : W → Prop} (hI : ∀ w e, I w → I (answer w e).2) (p : Prog R α)
    {w : W} (hw : I w) : I (p.evalState answer w).2 := by
  induction p generalizing w with
  | done a => exact hw
  | perform e resume ih => exact ih _ (hI w e hw)

/-- What every answer to the effects of a program preserves. -/
theorem Uses.evalState_invariant {I : W → Prop} {p : Prog R α} (h : p.Uses P)
    (hI : ∀ w e, I w → P e → I (answer w e).2) {w : W} (hw : I w) :
    I (p.evalState answer w).2 := by
  induction p generalizing w with
  | done a => exact hw
  | perform e resume ih => exact ih _ (h.2 _) (hI w e hw h.1)

end EvalState

/-- A program all of whose effects leave the world as it is does so too. -/
theorem Yields.eq (hA : ∀ w e r w', A w e r w' → w' = w) {p : Prog R α} {a : α} {w' : W}
    (h : Yields A p w a w') : w' = w := by
  induction h with
  | done a w => rfl
  | perform hr _ ih =>
      obtain rfl := hA _ _ _ _ hr
      exact ih

/-! ### More effects -/

/-- A program whose effects are some of those of a larger language. -/
def inject {E' : Type} {R' : E' → Type} (inj : E → E') :
    Prog (fun e => R' (inj e)) α → Prog R' α
  | done a => done a
  | perform e resume => perform (inj e) fun r => (resume r).inject inj

/-- Effects under another name are answered as such. -/
theorem yields_inject {E' : Type} {R' : E' → Type} {A : Answers R' W} {inj : E → E'}
    {p : Prog (fun e => R' (inj e)) α} {w w' : W} {a : α} :
    Yields A (p.inject inj) w a w' ↔ Yields (fun w e => A w (inj e)) p w a w' := by
  induction p generalizing w with
  | done a =>
      constructor <;> intro h <;> cases h <;> exact .done _ _
  | perform e resume ih =>
      constructor
      · intro h
        cases h with
        | perform h hrest => exact .perform h ((ih _).mp hrest)
      · intro h
        cases h with
        | perform h hrest => exact .perform h ((ih _).mpr hrest)

/-! ### Calls, one after the other -/

/-- The calls of a program one after the other, each of which may be interrupted. -/
inductive Runs {C : Type} {α : C → Type} (A : C → Answers R W) (prog : (c : C) → Prog R (α c)) :
    W → W → Prop
  | nil (w : W) : Runs A prog w w
  | snoc {w w' w'' : W} (h : Runs A prog w w') (c : C) (hc : Visits (A c) (prog c) w' w'') :
      Runs A prog w w''

/-- **What every call preserves, at each of its points,** holds at every point of a run. -/
theorem Runs.invariant {C : Type} {α : C → Type} {A : C → Answers R W}
    {prog : (c : C) → Prog R (α c)} {ok : C → E → W → Prop} {I : W → Prop}
    (hI : ∀ c w, I w → Spec (A c) (ok c) (prog c) w fun _ w => I w)
    (hok : ∀ c e w, ok c e w → I w) {w w' : W} (h : Runs A prog w w') (hw : I w) : I w' := by
  induction h with
  | nil => exact hw
  | snoc _ c hc ih => exact (hI c _ ih).of_visits (hok c) (fun _ _ h => h) hc

end Prog

end Lib
