import Mathlib.Init

/-!
# Computations that fail alike

`Lockstep R x y` — two fallible computations both fail, with one error, or both return, with results
`R` relates. A relation that every step of two runs keeps in lockstep, the runs keep
(`Lockstep.foldlM`); what they return at the end is related too, and one of them returns exactly when
the other does.
-/

/-- Both fail with the same error, or both return and `R` relates what they return. -/
inductive Lockstep {ε α β : Type} (R : α → β → Prop) : Except ε α → Except ε β → Prop
  | error (e : ε) : Lockstep R (.error e) (.error e)
  | ok {a : α} {b : β} (h : R a b) : Lockstep R (.ok a) (.ok b)

namespace Lockstep

variable {ε α β γ δ κ : Type} {R : α → β → Prop} {S : γ → δ → Prop}

theorem refl (x : Except ε α) : Lockstep Eq x x := by
  cases x with
  | error e => exact .error e
  | ok a => exact .ok rfl

/-- What follows computations in lockstep stays in lockstep. -/
theorem bind {x : Except ε α} {y : Except ε β} {f : α → Except ε γ} {g : β → Except ε δ}
    (h : Lockstep R x y) (hnext : ∀ a b, R a b → Lockstep S (f a) (g b)) :
    Lockstep S (x >>= f) (y >>= g) := by
  cases h with
  | error e => exact .error e
  | ok hab => exact hnext _ _ hab

/-- **A run of steps.** -/
theorem foldlM {f : α → κ → Except ε α} {g : β → κ → Except ε β} {l : List κ}
    (hstep : ∀ a b, R a b → ∀ k, Lockstep R (f a k) (g b k)) {a : α} {b : β} (h : R a b) :
    Lockstep R (l.foldlM f a) (l.foldlM g b) := by
  induction l generalizing a b with
  | nil => exact .ok h
  | cons k rest ih =>
    rw [List.foldlM_cons, List.foldlM_cons]
    exact (hstep a b h k).bind fun _ _ hnext => ih hnext

end Lockstep
