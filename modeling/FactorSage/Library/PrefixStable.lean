import Mathlib.Data.List.Infix
import Mathlib.Tactic.Common

/-!
# Series that do not look ahead

A series computed from a list is `PrefixStable` when its values at the positions of an initial
segment are decided by that segment: extending the list only appends values. A series given position
by position is prefix stable when each position reads nothing behind it (`of_forall`).
-/

variable {α β : Type}

/-- One value for each input, and later inputs change no earlier value. -/
structure PrefixStable (f : List α → List β) : Prop where
  length_eq : ∀ l, (f l).length = l.length
  isPrefix : ∀ l l', f l <+: f (l ++ l')

namespace PrefixStable

/-- A series whose position `i` does not change when inputs are appended behind it. -/
theorem of_forall {value : List α → ℕ → β}
    (h : ∀ l l' i, i < l.length → value (l ++ l') i = value l i) :
    PrefixStable fun l => (List.range l.length).map (value l) := by
  refine ⟨fun l => by simp, fun l l' => ?_⟩
  refine ⟨(List.range' l.length l'.length).map (value (l ++ l')), ?_⟩
  have hsame : (List.range l.length).map (value l)
      = (List.range l.length).map (value (l ++ l')) :=
    List.map_congr_left fun i hi => (h l l' i (List.mem_range.mp hi)).symm
  rw [hsame, ← List.map_append, List.length_append, List.range_eq_range', List.range_eq_range',
    ← List.range'_append_1, Nat.zero_add]

/-- A value is read from the initial segment alone. -/
theorem getElem? {f : List α → List β} (h : PrefixStable f) {l : List α} (l' : List α) {i : ℕ}
    (hi : i < l.length) : (f (l ++ l'))[i]? = (f l)[i]? := by
  obtain ⟨rest, hrest⟩ := h.isPrefix l l'
  rw [← hrest, List.getElem?_append_left (by rwa [h.length_eq])]

end PrefixStable
