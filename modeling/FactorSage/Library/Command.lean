import Mathlib.Logic.Basic

/-!
# Commands that change a state and may fail

An `EStateM` program keeps what it had done when it fails: there is no rollback but the one a
program makes itself. `Ends` says how a command may end, `Q` when it returns and `E` when it fails,
so that an invariant to be kept at every possible failure is the `E` of the rules below.

* `ends_pure`, `ends_bind`, `ends_get`, `ends_set`, `ends_modify`: what a command ends in, one rule
  for each way to build one.
* `Ends.imp`: the rule of consequence.
* `Ends.seq`: a command whose rule is known, and then the rest.
* `Ends.stateAfter`: what both ends meet, the state left behind meets.
-/

namespace EStateM

variable {ε σ α β : Type}

/-- The command ends in `Q` when it returns, and in `E` when it fails. -/
def Ends (c : EStateM ε σ α) (Q : α → σ → Prop) (E : σ → Prop) (s : σ) : Prop :=
  match c s with
  | .ok a s' => Q a s'
  | .error _ s' => E s'

variable {Q : α → σ → Prop} {E : σ → Prop} {s : σ}

@[simp] theorem ends_pure (a : α) : (pure a : EStateM ε σ α).Ends Q E s ↔ Q a s := Iff.rfl

@[simp] theorem ends_get {Q : σ → σ → Prop} : (get : EStateM ε σ σ).Ends Q E s ↔ Q s s := Iff.rfl

@[simp] theorem ends_set {Q : PUnit → σ → Prop} (s' : σ) :
    (set s' : EStateM ε σ PUnit).Ends Q E s ↔ Q ⟨⟩ s' := Iff.rfl

@[simp] theorem ends_modify {Q : PUnit → σ → Prop} (f : σ → σ) :
    (modify f : EStateM ε σ PUnit).Ends Q E s ↔ Q ⟨⟩ (f s) := Iff.rfl

variable {c : EStateM ε σ α}

theorem ends_bind {f : α → EStateM ε σ β} {Q : β → σ → Prop} :
    (c >>= f).Ends Q E s ↔ c.Ends (fun a s' => (f a).Ends Q E s') E s := by
  show (match EStateM.bind c f s with | .ok a s' => Q a s' | .error _ s' => E s') ↔ _
  unfold EStateM.bind Ends
  cases c s with
  | ok a s' => exact Iff.rfl
  | error e s' => exact Iff.rfl

/-- The rule of consequence. -/
theorem Ends.imp {Q' : α → σ → Prop} {E' : σ → Prop} (h : c.Ends Q E s)
    (hQ : ∀ a s', Q a s' → Q' a s') (hE : ∀ s', E s' → E' s') : c.Ends Q' E' s := by
  unfold Ends at h ⊢
  cases hc : c s with
  | ok a s' =>
    rw [hc] at h
    exact hQ a s' h
  | error e s' =>
    rw [hc] at h
    exact hE s' h

/-- A command whose rule is known, and then the rest of the program. -/
theorem Ends.seq {f : α → EStateM ε σ β} {Q' : β → σ → Prop}
    (h : c.Ends Q E s) (hf : ∀ a s', Q a s' → (f a).Ends Q' E s') : (c >>= f).Ends Q' E s :=
  ends_bind.mpr (h.imp hf fun _ he => he)

/-- The state a command leaves behind, whether it returned or failed. -/
def stateAfter (c : EStateM ε σ α) (s : σ) : σ :=
  match c s with
  | .ok _ s' => s'
  | .error _ s' => s'

theorem Ends.stateAfter {I : σ → Prop} (h : c.Ends (fun _ => I) I s) :
    I (c.stateAfter s) := by
  unfold Ends at h
  unfold EStateM.stateAfter
  cases hc : c s with
  | ok a s' =>
    rw [hc] at h
    exact h
  | error e s' =>
    rw [hc] at h
    exact h

end EStateM
