import Mathlib.Logic.Relation

/-!
# Systems that take one labelled step at a time

A `StepSystem` has start states and a step relation labelled by actions. Interleavings need no
definition of their own: any order of the actions of any number of parties is a path of the system.

* `Reachable`: the states a path from a start state ends in.
* `Inductive.reachable`: what holds at the start and is kept by every step holds of every reachable
  state.
* `Later.of_step`: a reflexive and transitive relation between the states before and after each
  step relates any two states of one path.
* `restrict`: the same system, taking only the steps that meet a condition.
-/

/-- Start states, and what each action can do. -/
structure StepSystem (State Act : Type) where
  start : State → Prop
  step : State → Act → State → Prop

namespace StepSystem

variable {State Act : Type} {S : StepSystem State Act}

/-- The states that a path from a start state ends in. -/
inductive Reachable (S : StepSystem State Act) : State → Prop
  | start {s : State} (h : S.start s) : Reachable S s
  | step {s s' : State} {a : Act} (hr : Reachable S s) (h : S.step s a s') : Reachable S s'

/-- `s'` comes at or after `s` on some path. -/
def Later (S : StepSystem State Act) : State → State → Prop :=
  Relation.ReflTransGen fun s s' => ∃ a, S.step s a s'

theorem Later.refl (s : State) : Later S s s := Relation.ReflTransGen.refl

theorem Later.snoc {s s' s'' : State} {a : Act} (h : Later S s s') (hstep : S.step s' a s'') :
    Later S s s'' :=
  Relation.ReflTransGen.tail h ⟨a, hstep⟩

theorem Reachable.later {s s' : State} (hr : S.Reachable s) (h : S.Later s s') :
    S.Reachable s' := by
  induction h with
  | refl => exact hr
  | tail _ hstep ih =>
    obtain ⟨a, ha⟩ := hstep
    exact ih.step ha

/-- What holds at the start and is kept by every step. -/
structure Inductive (S : StepSystem State Act) (I : State → Prop) : Prop where
  start : ∀ s, S.start s → I s
  step : ∀ s a s', I s → S.step s a s' → I s'

/-- **The invariant rule.** -/
theorem Inductive.reachable {I : State → Prop} (hI : Inductive S I) {s : State}
    (hr : S.Reachable s) : I s := by
  induction hr with
  | start h => exact hI.start _ h
  | step _ h ih => exact hI.step _ _ _ ih h

/-- **The two-state rule.** A preorder that each step from a reachable state respects relates the
earlier to the later state of any path. -/
theorem Later.of_step {R : State → State → Prop} (hrefl : ∀ s, R s s)
    (htrans : ∀ s s' s'', R s s' → R s' s'' → R s s'')
    (hstep : ∀ s a s', S.Reachable s → S.step s a s' → R s s') {s s' : State}
    (hr : S.Reachable s) (h : S.Later s s') : R s s' := by
  induction h with
  | refl => exact hrefl s
  | tail hsteps hlast ih =>
    obtain ⟨a, ha⟩ := hlast
    exact htrans _ _ _ ih (hstep _ _ _ (hr.later hsteps) ha)

/-- The system whose steps all meet a condition on the state before them and the action. -/
def restrict (S : StepSystem State Act) (ok : State → Act → Prop) : StepSystem State Act where
  start := S.start
  step s a s' := ok s a ∧ S.step s a s'

theorem Reachable.of_restrict {ok : State → Act → Prop} {s : State}
    (h : (S.restrict ok).Reachable s) : S.Reachable s := by
  induction h with
  | start h => exact .start h
  | step _ h ih => exact ih.step h.2

/-- The invariant rule relative to facts already known of the reachable states. -/
theorem Inductive.of_reachable {I : State → Prop} (hstart : ∀ s, S.start s → I s)
    (hstep : ∀ s a s', S.Reachable s → I s → S.step s a s' → I s') {s : State}
    (hr : S.Reachable s) : I s := by
  induction hr with
  | start h => exact hstart _ h
  | step hr' h ih => exact hstep _ _ _ hr' ih h

end StepSystem
