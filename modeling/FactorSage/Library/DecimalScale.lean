import Mathlib.Data.Rat.Floor
import Mathlib.Data.Int.Log
import Mathlib.Algebra.Order.Floor.Semiring
import Mathlib.Tactic.FieldSimp
import Mathlib.Tactic.Linarith
import Mathlib.Tactic.Positivity
import Mathlib.Tactic.Ring

/-!
# Decimals of a fixed scale

Exact decimals as rationals, with the two roundings a decimal ledger uses.

* `OnScale s q` — `q` is a whole number of units of `10⁻ˢ`. Sums and differences stay on the scale
  (`OnScale.add`, `OnScale.sub`).
* `halfAway s q` — `q` rounded to the scale, ties away from zero. It is the identity on the scale
  (`halfAway_of_onScale`) and keeps the sign (`halfAway_nonneg`).
* `truncate s q` — `q` rounded towards zero.
* `roundSignificant n q` — `q` rounded to `n` significant digits, ties away from zero: the rounding
  of a quotient that does not terminate.

A rounding moves a value by half a unit of the last place it keeps at most (`abs_halfAway_sub_le`,
`abs_roundSignificant_sub_le`).
-/

namespace DecimalScale

/-- `q` is a whole number of units in the `s`-th decimal place. -/
def OnScale (s : ℕ) (q : ℚ) : Prop := ∃ n : ℤ, q = n / 10 ^ s

/-- The nearest whole number, ties away from zero. -/
def roundHalfAway (q : ℚ) : ℤ := if 0 ≤ q then ⌊q + 1 / 2⌋ else -⌊-q + 1 / 2⌋

/-- The whole part, towards zero. -/
def wholePart (q : ℚ) : ℤ := if 0 ≤ q then ⌊q⌋ else -⌊-q⌋

/-- The units of `q` at scale `s`, ties away from zero. -/
def unitsHalfAway (s : ℕ) (q : ℚ) : ℤ := roundHalfAway (q * 10 ^ s)

/-- `q` at scale `s`, ties away from zero. -/
def halfAway (s : ℕ) (q : ℚ) : ℚ := unitsHalfAway s q / 10 ^ s

/-- `q` at scale `s`, digits beyond it dropped. -/
def truncate (s : ℕ) (q : ℚ) : ℚ := wholePart (q * 10 ^ s) / 10 ^ s

/-- `q` to `n` significant digits, ties away from zero. -/
def roundSignificant (n : ℕ) (q : ℚ) : ℚ :=
  if q = 0 then 0
  else
    -- the first digit of `q` stands at `10 ^ Int.log 10 |q|`
    let places : ℤ := (n : ℤ) - 1 - Int.log 10 |q|
    roundHalfAway (q * 10 ^ places) / 10 ^ places

/-! ### The scale -/

theorem scale_pos (s : ℕ) : (0 : ℚ) < 10 ^ s := by positivity

theorem scale_ne_zero (s : ℕ) : (10 : ℚ) ^ s ≠ 0 := (scale_pos s).ne'

theorem onScale_zero (s : ℕ) : OnScale s 0 := ⟨0, by simp⟩

variable {s : ℕ}

theorem OnScale.add {p q : ℚ} (hp : OnScale s p) (hq : OnScale s q) :
    OnScale s (p + q) := by
  obtain ⟨m, rfl⟩ := hp
  obtain ⟨n, rfl⟩ := hq
  exact ⟨m + n, by push_cast; ring⟩

theorem OnScale.neg {q : ℚ} (hq : OnScale s q) : OnScale s (-q) := by
  obtain ⟨n, rfl⟩ := hq
  exact ⟨-n, by push_cast; ring⟩

theorem OnScale.sub {p q : ℚ} (hp : OnScale s p) (hq : OnScale s q) :
    OnScale s (p - q) := by
  rw [sub_eq_add_neg]
  exact hp.add hq.neg

theorem OnScale.list_sum {l : List ℚ} (h : ∀ q ∈ l, OnScale s q) : OnScale s l.sum := by
  induction l with
  | nil => exact onScale_zero s
  | cons q rest ih =>
    rw [List.sum_cons]
    exact (h q (by simp)).add (ih fun p hp => h p (by simp [hp]))

/-! ### Rounding -/

theorem onScale_halfAway (s : ℕ) (q : ℚ) : OnScale s (halfAway s q) := ⟨unitsHalfAway s q, rfl⟩

theorem onScale_truncate (s : ℕ) (q : ℚ) : OnScale s (truncate s q) := ⟨_, rfl⟩

theorem roundHalfAway_intCast (n : ℤ) : roundHalfAway n = n := by
  unfold roundHalfAway
  have hhalf : ∀ m : ℤ, ⌊(m : ℚ) + 1 / 2⌋ = m := fun m => by
    rw [Int.floor_eq_iff]
    constructor <;> linarith
  split
  · exact hhalf n
  · have h := hhalf (-n)
    push_cast at h
    rw [h, neg_neg]

theorem unitsHalfAway_div (s : ℕ) (n : ℤ) : unitsHalfAway s (n / 10 ^ s) = n := by
  unfold unitsHalfAway
  rw [div_mul_cancel₀ _ (scale_ne_zero s), roundHalfAway_intCast]

/-- Rounding to a scale changes nothing that is already on it. -/
theorem halfAway_of_onScale {q : ℚ} (h : OnScale s q) : halfAway s q = q := by
  obtain ⟨n, rfl⟩ := h
  rw [halfAway, unitsHalfAway_div]

theorem roundHalfAway_nonneg {q : ℚ} (h : 0 ≤ q) : 0 ≤ roundHalfAway q := by
  rw [roundHalfAway, if_pos h]
  exact Int.floor_nonneg.mpr (by linarith)

theorem halfAway_nonneg {q : ℚ} (h : 0 ≤ q) : 0 ≤ halfAway s q := by
  have hunits : (0 : ℚ) ≤ unitsHalfAway s q := by
    exact Int.cast_nonneg (roundHalfAway_nonneg (mul_nonneg h (scale_pos s).le))
  exact div_nonneg hunits (scale_pos s).le

theorem halfAway_nonpos {q : ℚ} (h : q ≤ 0) : halfAway s q ≤ 0 := by
  rcases h.eq_or_lt with rfl | hneg
  · exact (halfAway_of_onScale (onScale_zero s)).le
  · have hscaled : q * 10 ^ s < 0 := mul_neg_of_neg_of_pos hneg (scale_pos s)
    have hunits : (unitsHalfAway s q : ℚ) ≤ 0 := by
      rw [unitsHalfAway, roundHalfAway, if_neg (not_le.mpr hscaled)]
      push_cast
      have hfloor : (0 : ℤ) ≤ ⌊-(q * 10 ^ s) + 1 / 2⌋ := Int.floor_nonneg.mpr (by linarith)
      exact neg_nonpos.mpr (Int.cast_nonneg hfloor)
    exact div_nonpos_of_nonpos_of_nonneg hunits (scale_pos s).le

/-! ### How far a rounding moves a value -/

theorem abs_roundHalfAway_sub_le (q : ℚ) : |(roundHalfAway q : ℚ) - q| ≤ 1 / 2 := by
  unfold roundHalfAway
  rw [abs_le]
  split
  · have hle := Int.floor_le (q + 1 / 2)
    have hlt := Int.lt_floor_add_one (q + 1 / 2)
    constructor <;> linarith
  · have hle := Int.floor_le (-q + 1 / 2)
    have hlt := Int.lt_floor_add_one (-q + 1 / 2)
    push_cast
    constructor <;> linarith

/-- Rounding at a power of ten moves a value by half that power at most. -/
theorem abs_round_at_sub_le {p : ℚ} (hp : 0 < p) (q : ℚ) :
    |(roundHalfAway (q * p) : ℚ) / p - q| ≤ 1 / (2 * p) := by
  have hsplit : (roundHalfAway (q * p) : ℚ) / p - q = (roundHalfAway (q * p) - q * p) / p := by
    field_simp
  rw [hsplit, abs_div, abs_of_pos hp, div_le_div_iff₀ hp (by positivity)]
  have hhalf := abs_roundHalfAway_sub_le (q * p)
  nlinarith

theorem abs_halfAway_sub_le (s : ℕ) (q : ℚ) : |halfAway s q - q| ≤ 1 / (2 * 10 ^ s) :=
  abs_round_at_sub_le (scale_pos s) q

/-- Half a unit in the last of `n` digits, relative to the first of them. -/
theorem abs_roundSignificant_sub_le (n : ℕ) (q : ℚ) :
    |roundSignificant n q - q| ≤ |q| * (5 / 10 ^ n) := by
  unfold roundSignificant
  split
  · next hzero => rw [hzero, sub_zero, abs_zero, zero_mul]
  · next hne =>
    have hpos : 0 < |q| := abs_pos.mpr hne
    have hunit : (0 : ℚ) < 10 ^ ((n : ℤ) - 1 - Int.log 10 |q|) := zpow_pos (by norm_num) _
    refine (abs_round_at_sub_le hunit q).trans ?_
    have hlog : (10 : ℚ) ^ Int.log 10 |q| ≤ |q| := by
      exact_mod_cast Int.zpow_log_le_self (b := 10) (by norm_num) hpos
    have hplaces : (10 : ℚ) ^ ((n : ℤ) - 1 - Int.log 10 |q|)
        = 10 ^ n / (10 * 10 ^ Int.log 10 |q|) := by
      rw [zpow_sub₀ (by norm_num), zpow_sub₀ (by norm_num), zpow_natCast, zpow_one, div_div]
    rw [hplaces]
    calc 1 / (2 * ((10 : ℚ) ^ n / (10 * 10 ^ Int.log 10 |q|)))
        = 10 ^ Int.log 10 |q| * (5 / 10 ^ n) := by
          field_simp
          norm_num
      _ ≤ |q| * (5 / 10 ^ n) := by gcongr

end DecimalScale
