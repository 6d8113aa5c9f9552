import FactorSage.Strategy.Predicates
import Mathlib.Algebra.Order.Field.Basic
import Mathlib.Tactic.FieldSimp
import Mathlib.Tactic.NormNum
import Mathlib.Tactic.Ring

/-!
# The boundary of `is close to`

Values are stored at eight decimal places, so two of them are whole numbers of steps of `1e-8`. The
2% boundary of a value of `n` steps lies `n / 50` steps away from it. The slack widens it by `1e-12`
of that distance: by less than one step while the value is below 500,000, so it can only reach the
first step past the boundary.

Whether it reaches that step depends on the last digits of the value. The step is
`50 - n % 50` fiftieths of a step past the boundary, not a whole one, and the slack is `n / 10^12`
fiftieths. `isCloseTo_exact_iff` is this comparison.
-/

namespace FactorSage

open JsNumber

/-- A stored value, as its number of steps of `1e-8`. -/
def storedNumber (steps : ℤ) : ExactNumber := .finite (steps / 10 ^ 8)

/-- `|metric - value| <= 2% of |value|`. -/
def WithinTolerance (metric value : ℚ) : Prop := |metric - value| ≤ isCloseToTolerance * |value|

/-- The comparison of two stored values decides the exact boundary. -/
def DecidesBoundary (metric value : ℤ) : Prop :=
  isCloseTo (storedNumber metric) (storedNumber value) = true
    ↔ WithinTolerance (metric / 10 ^ 8) (value / 10 ^ 8)

/-- The slack of a value covers what the first step past its boundary exceeds it by. -/
def SlackReachesNextStep (value : ℤ) : Prop := 10 ^ 12 * (50 - |value| % 50) ≤ |value|

instance (value : ℤ) : Decidable (SlackReachesNextStep value) := by
  unfold SlackReachesNextStep
  infer_instance

/-! ### In steps -/

/-- The boundary in steps. -/
theorem withinTolerance_steps (metric value : ℤ) :
    WithinTolerance (metric / 10 ^ 8) (value / 10 ^ 8) ↔ 50 * |metric - value| ≤ |value| := by
  have hscale : (0 : ℚ) < 10 ^ 8 := by norm_num
  unfold WithinTolerance isCloseToTolerance
  rw [← sub_div, abs_div, abs_div, abs_of_pos hscale, mul_div_assoc', div_le_div_iff_of_pos_right hscale]
  constructor
  · intro h
    have hcast : ((50 * |metric - value| : ℤ) : ℚ) ≤ ((|value| : ℤ) : ℚ) := by
      push_cast
      linarith
    exact_mod_cast hcast
  · intro h
    have hcast : ((50 * |metric - value| : ℤ) : ℚ) ≤ ((|value| : ℤ) : ℚ) := by exact_mod_cast h
    push_cast at hcast
    linarith

/-- What the code compares, over the numbers themselves. -/
theorem isCloseTo_finite (m v : ℚ) :
    isCloseTo (ExactNumber.finite m) (ExactNumber.finite v) = true
      ↔ |m - v| ≤ 2 / 100 * |v| + 2 / 100 * |v| * (1 / 10 ^ 12) := by
  change (decide (|m - v| < 2 / 100 * |v| + 2 / 100 * |v| * (1 / 10 ^ 12))
    || decide (ExactNumber.finite |m - v|
      = ExactNumber.finite (2 / 100 * |v| + 2 / 100 * |v| * (1 / 10 ^ 12)))) = true ↔ _
  rw [Bool.or_eq_true, decide_eq_true_iff, decide_eq_true_iff, le_iff_lt_or_eq,
    ExactNumber.finite.injEq]

/-- What the code compares, in steps. -/
theorem isCloseTo_steps (metric value : ℤ) :
    isCloseTo (storedNumber metric) (storedNumber value) = true
      ↔ 50 * 10 ^ 12 * |metric - value| ≤ (10 ^ 12 + 1) * |value| := by
  have hscale : (0 : ℚ) < 10 ^ 8 := by norm_num
  unfold storedNumber
  rw [isCloseTo_finite, ← sub_div, abs_div, abs_div, abs_of_pos hscale]
  have hright : (2 : ℚ) / 100 * (|(value : ℚ)| / 10 ^ 8) + 2 / 100 * (|(value : ℚ)| / 10 ^ 8) * (1 / 10 ^ 12)
      = ((10 ^ 12 + 1) * |(value : ℚ)| / (50 * 10 ^ 12)) / 10 ^ 8 := by
    ring
  rw [hright, div_le_div_iff_of_pos_right hscale, le_div_iff₀ (by norm_num)]
  constructor
  · intro h
    have hcast : ((50 * 10 ^ 12 * |metric - value| : ℤ) : ℚ) ≤ (((10 ^ 12 + 1) * |value| : ℤ) : ℚ) := by
      push_cast
      linarith
    exact_mod_cast hcast
  · intro h
    have hcast : ((50 * 10 ^ 12 * |metric - value| : ℤ) : ℚ) ≤ (((10 ^ 12 + 1) * |value| : ℤ) : ℚ) := by
      exact_mod_cast h
    push_cast at hcast
    linarith

/-! ### Where the slack matters -/

/-- Below 500,000 the slack admits the first step past the boundary or nothing. -/
theorem slack_admits_iff {distance size : ℤ} (hdistance : 0 ≤ distance) (hsize : 0 ≤ size)
    (hbound : size < 500000 * 10 ^ 8) :
    50 * 10 ^ 12 * distance ≤ (10 ^ 12 + 1) * size
      ↔ 50 * distance ≤ size ∨ distance = size / 50 + 1 ∧ 10 ^ 12 * (50 - size % 50) ≤ size := by
  have hdivision : 50 * (size / 50) + size % 50 = size := Int.mul_ediv_add_emod size 50
  have hlast : size % 50 < 50 := Int.emod_lt_of_pos size (by decide)
  have hnonneg : 0 ≤ size % 50 := Int.emod_nonneg size (by decide)
  constructor
  · intro h
    by_cases hin : 50 * distance ≤ size
    · exact .inl hin
    · -- one more step would take more slack than any value below the bound has
      have hnext : distance = size / 50 + 1 := by omega
      exact .inr ⟨hnext, by subst hnext; omega⟩
  · rintro (hin | ⟨rfl, hreach⟩)
    · omega
    · omega

/-- **When `is close to` decides the exact boundary.** On stored values below 500,000 it does, except
on the pairs one step past the boundary of a value whose slack reaches that step. So a value decides
its boundary against every metric exactly when its slack does not reach. -/
theorem isCloseTo_exact_iff {value : ℤ} (hvalue : value ≠ 0) (hbound : |value| < 500000 * 10 ^ 8) :
    (∀ metric, DecidesBoundary metric value
        ↔ ¬(|metric - value| = |value| / 50 + 1 ∧ SlackReachesNextStep value))
      ∧ ((∀ metric, DecidesBoundary metric value) ↔ ¬SlackReachesNextStep value) := by
  have hpos : 0 < |value| := abs_pos.mpr hvalue
  have hpair : ∀ metric, DecidesBoundary metric value
      ↔ ¬(|metric - value| = |value| / 50 + 1 ∧ SlackReachesNextStep value) := by
    intro metric
    have hpast : |metric - value| = |value| / 50 + 1 → ¬ 50 * |metric - value| ≤ |value| := by
      intro heq
      omega
    unfold DecidesBoundary
    rw [isCloseTo_steps, withinTolerance_steps, slack_admits_iff (abs_nonneg _) hpos.le hbound]
    unfold SlackReachesNextStep
    constructor
    · rintro hiff ⟨heq, hreach⟩
      exact hpast heq (hiff.mp (.inr ⟨heq, hreach⟩))
    · intro hnot
      exact ⟨fun h => h.resolve_right hnot, .inl⟩
  refine ⟨hpair, ?_, fun hnot metric => (hpair metric).mpr fun h => hnot h.2⟩
  -- the metric above the value, one step past its boundary
  intro hall hreach
  refine (hpair (value + (|value| / 50 + 1))).mp (hall _) ⟨?_, hreach⟩
  rw [add_sub_cancel_left, abs_of_pos (by omega)]

/-- `40,800.0000005` against `40,000.00000049`. -/
theorem isCloseTo_exact_iff_next_step :
    ¬DecidesBoundary 4080000000050 4000000000049
      ∧ ∀ metric, DecidesBoundary metric 1000000000050 := by
  constructor
  · intro h
    exact ((isCloseTo_exact_iff (by decide) (by decide)).1 _).mp h ⟨by decide, by decide⟩
  · exact (isCloseTo_exact_iff (by decide) (by decide)).2.mpr (by decide)

/-- One step past the boundary, and still close. -/
theorem not_decidesBoundary_of_stored :
    ¬ ∀ metric value : ℤ, value ≠ 0 → |value| < 500000 * 10 ^ 8 → DecidesBoundary metric value := by
  intro h
  have hclose := (isCloseTo_steps 4080000000050 4000000000049).mpr (by decide)
  have hwithin := (h 4080000000050 4000000000049 (by decide) (by decide)).mp hclose
  exact absurd ((withinTolerance_steps _ _).mp hwithin) (by decide)

end FactorSage
