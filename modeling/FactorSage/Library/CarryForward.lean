import Mathlib.Data.List.Chain
import Mathlib.Order.Basic
import Mathlib.Order.Defs.LinearOrder
import Mathlib.Order.Lattice

/-!
# Values carried forward between events

A value that moves only when a threshold is passed (`ConstantBetween`) need not be recomputed at every
date: over ascending dates it is enough to recompute it at the first one and at each date that passes
a threshold the date before had not (`Covers`), and to carry it over the dates between
(`carryForward_eq_map`).
-/

namespace CarryForward

variable {D S : Type} [LinearOrder D]

/-- A value that is the same on two dates with no threshold after the one and up to the other. -/
def ConstantBetween (thresholds : List D) (value : D → S) : Prop :=
  ∀ a b, a ≤ b → (∀ t ∈ thresholds, a < t → b < t) → value b = value a

/-- The events of some dates: the first, and every date that passes a threshold. -/
structure Covers (thresholds dates : List D) (isEvent : D → Bool) : Prop where
  head : ∀ first ∈ dates.head?, isEvent first = true
  passed : dates.IsChain fun a b => a < b ∧ ∀ t ∈ thresholds, a < t → t ≤ b → isEvent b = true

/-- Recomputes a value on the events, and carries the latest over the dates between. -/
def carryForward (isEvent : D → Bool) (value : D → S) : S → List D → List (D × S)
  | _, [] => []
  | latest, date :: rest =>
    let next := if isEvent date then value date else latest
    (date, next) :: carryForward isEvent value next rest

variable {thresholds : List D} {isEvent : D → Bool} {value : D → S}

/-- From a date whose value is carried, every date reads its own. -/
theorem carryForward_of_chain (hconstant : ConstantBetween thresholds value) {date : D}
    {rest : List D}
    (h : (date :: rest).IsChain fun a b =>
      a < b ∧ ∀ t ∈ thresholds, a < t → t ≤ b → isEvent b = true) :
    carryForward isEvent value (value date) rest = rest.map fun d => (d, value d) := by
  induction rest generalizing date with
  | nil => rfl
  | cons next rest ih =>
    obtain ⟨⟨hlt, hpassed⟩, hrest⟩ := List.isChain_cons_cons.mp h
    have hnext : (if isEvent next then value next else value date) = value next := by
      split
      · rfl
      · next hno =>
        -- no threshold is passed on a date that is no event
        refine (hconstant date next hlt.le fun t ht hafter => ?_).symm
        by_contra hle
        exact hno (hpassed t ht hafter (not_lt.mp hle))
    unfold carryForward
    dsimp only
    rw [hnext, ih hrest]
    rfl

/-- **What is carried forward is what every date reads.** -/
theorem carryForward_eq_map (hconstant : ConstantBetween thresholds value) {dates : List D}
    (h : Covers thresholds dates isEvent) (initial : S) :
    carryForward isEvent value initial dates = dates.map fun d => (d, value d) := by
  cases dates with
  | nil => rfl
  | cons first rest =>
    unfold carryForward
    dsimp only
    rw [if_pos (h.head first rfl), carryForward_of_chain hconstant h.passed]
    rfl

end CarryForward
