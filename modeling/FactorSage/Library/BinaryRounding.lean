import Mathlib.Algebra.Order.Archimedean.Basic
import Mathlib.Algebra.Order.BigOperators.GroupWithZero.List
import Mathlib.Data.Int.Log
import Mathlib.Data.Rat.Floor
import Mathlib.Tactic.FieldSimp
import Mathlib.Tactic.Linarith
import Mathlib.Tactic.Positivity
import Mathlib.Tactic.Ring

/-!
# Rounding to a binary precision

`roundBits` takes a rational number to the nearest one of so many significant bits, a tie to the
even one. The exponent has no bound, so this is the arithmetic of floating-point numbers that
neither overflow nor become subnormal. Rounding keeps the order and leaves what is representable
alone; it moves a number by at most half a unit in its last place (`abs_roundBits_sub_le`); and the
difference of two representable numbers within a factor of two of one another is representable
(`Representable.sub`). With 53 bits these are the doubles (`toDouble`), and a number computed with so
many roundings is `WithinRoundings` of the exact one.
-/

namespace BinaryRounding

/-! ### Rounding to a whole number -/

/-- The nearest whole number, the even one of two. -/
def roundEven (q : ℚ) : ℤ :=
  if q - ⌊q⌋ < 1 / 2 ∨ q - ⌊q⌋ = 1 / 2 ∧ ⌊q⌋ % 2 = 0 then ⌊q⌋ else ⌊q⌋ + 1

theorem floor_le_roundEven (q : ℚ) : ⌊q⌋ ≤ roundEven q ∧ roundEven q ≤ ⌊q⌋ + 1 := by
  unfold roundEven
  split <;> omega

theorem roundEven_intCast (n : ℤ) : roundEven n = n := by
  unfold roundEven
  rw [Int.floor_intCast, sub_self]
  exact if_pos (.inl (by norm_num))

theorem roundEven_mono {q q' : ℚ} (hle : q ≤ q') : roundEven q ≤ roundEven q' := by
  rcases (Int.floor_mono hle).lt_or_eq with hlt | heq
  · have hq := (floor_le_roundEven q).2
    have hq' := (floor_le_roundEven q').1
    omega
  · -- of two numbers with one floor, the smaller is not the one rounded up
    unfold roundEven
    rw [← heq]
    split
    · split <;> omega
    · next hup =>
      rw [if_neg]
      rintro (hlt | ⟨hhalf, heven⟩)
      · exact hup (.inl (by linarith))
      · rcases (sub_le_sub_right hle (⌊q⌋ : ℚ)).lt_or_eq with hlt | hsame
        · exact hup (.inl (by linarith))
        · exact hup (.inr ⟨hsame.trans hhalf, heven⟩)

/-- What lies between two whole numbers stays between them. -/
theorem le_roundEven {n : ℤ} {q : ℚ} (h : n ≤ q) : n ≤ roundEven q :=
  (roundEven_intCast n).symm.trans_le (roundEven_mono h)

theorem roundEven_le {n : ℤ} {q : ℚ} (h : q ≤ n) : roundEven q ≤ n :=
  (roundEven_mono h).trans_eq (roundEven_intCast n)

theorem abs_roundEven_sub_le (q : ℚ) : |(roundEven q : ℚ) - q| ≤ 1 / 2 := by
  have hlow := Int.floor_le q
  have hhigh := Int.lt_floor_add_one q
  unfold roundEven
  rw [abs_le]
  split
  · next h =>
    have hhalf : q - ⌊q⌋ ≤ 1 / 2 := h.elim le_of_lt fun h => h.1.le
    constructor <;> linarith
  · next h =>
    rw [not_or, not_lt] at h
    push_cast
    constructor <;> linarith [h.1]

/-! ### Rounding to a precision -/

section Precision

variable {precision : ℕ} {q q' : ℚ}

/-- The distance between neighbouring numbers of a precision, from the power of two at or below a
positive number to the next. -/
def spacing (precision : ℕ) (q : ℚ) : ℚ := 2 ^ (Int.log 2 q + 1 - precision)

/-- A number that is not negative, to the nearest one of the precision. -/
def roundSize (precision : ℕ) (q : ℚ) : ℚ :=
  roundEven (q / spacing precision q) * spacing precision q

/-- **The nearest number of so many significant bits**, a tie to the even one. -/
def roundBits (precision : ℕ) (q : ℚ) : ℚ :=
  if q < 0 then -roundSize precision (-q) else roundSize precision q

/-- A whole number of so many bits, times a power of two. -/
def Representable (precision : ℕ) (q : ℚ) : Prop :=
  ∃ m e : ℤ, |m| < 2 ^ precision ∧ q = m * 2 ^ e

theorem spacing_pos (precision : ℕ) (q : ℚ) : 0 < spacing precision q := zpow_pos (by norm_num) _

theorem pow_mul_spacing (precision : ℕ) (q : ℚ) :
    (2 : ℚ) ^ precision * spacing precision q = 2 ^ (Int.log 2 q + 1) := by
  unfold spacing
  rw [← zpow_natCast, ← zpow_add₀ (by norm_num)]
  congr 1
  omega

/-- A positive number is at least half of `2 ^ precision` units, and less than all of it. -/
theorem pow_mul_spacing_le (precision : ℕ) (hq : 0 < q) :
    (2 : ℚ) ^ precision * spacing precision q ≤ 2 * q
      ∧ q < (2 : ℚ) ^ precision * spacing precision q := by
  have hlow : ((2 : ℕ) : ℚ) ^ Int.log 2 q ≤ q := Int.zpow_log_le_self (by norm_num) hq
  have hhigh : q < ((2 : ℕ) : ℚ) ^ (Int.log 2 q + 1) :=
    Int.lt_zpow_succ_log_self (by norm_num) q
  rw [pow_mul_spacing]
  refine ⟨?_, hhigh⟩
  rw [zpow_add_one₀ (by norm_num), mul_comm]
  exact mul_le_mul_of_nonneg_left hlow (by norm_num)

theorem roundSize_zero : roundSize precision 0 = 0 := by
  unfold roundSize
  rw [zero_div]
  exact (congrArg (fun n : ℤ => (n : ℚ) * _) (roundEven_intCast 0)).trans (by norm_num)

/-- A positive number is rounded to a multiple of the spacing within its power of two. -/
theorem roundSize_bounds (hq : 0 < q) (hprecision : 0 < precision) :
    (2 : ℚ) ^ precision * spacing precision q ≤ 2 * roundSize precision q
      ∧ roundSize precision q ≤ (2 : ℚ) ^ precision * spacing precision q := by
  have hspacing := spacing_pos precision q
  obtain ⟨hlow, hhigh⟩ := pow_mul_spacing_le precision hq
  obtain ⟨digits, rfl⟩ : ∃ digits, precision = digits + 1 := ⟨precision - 1, by omega⟩
  have hfloor : ((2 ^ digits : ℤ) : ℚ) ≤ q / spacing (digits + 1) q := by
    rw [le_div_iff₀ hspacing]
    push_cast
    rw [pow_succ] at hlow
    linarith
  have hceil : q / spacing (digits + 1) q ≤ ((2 ^ (digits + 1) : ℤ) : ℚ) := by
    rw [div_le_iff₀ hspacing]
    push_cast
    exact hhigh.le
  have hmin : ((2 ^ digits : ℤ) : ℚ) ≤ roundEven (q / spacing (digits + 1) q) :=
    Int.cast_le.mpr (le_roundEven hfloor)
  have hmax : (roundEven (q / spacing (digits + 1) q) : ℚ) ≤ ((2 ^ (digits + 1) : ℤ) : ℚ) :=
    Int.cast_le.mpr (roundEven_le hceil)
  push_cast at hmin hmax
  unfold roundSize
  constructor
  · rw [pow_succ]
    have hstep := mul_le_mul_of_nonneg_right hmin hspacing.le
    linarith
  · exact mul_le_mul_of_nonneg_right hmax hspacing.le

theorem roundSize_nonneg (hq : 0 ≤ q) : 0 ≤ roundSize precision q := by
  have hnonneg : 0 ≤ roundEven (q / spacing precision q) :=
    le_roundEven (by exact_mod_cast div_nonneg hq (spacing_pos precision q).le)
  exact mul_nonneg (by exact_mod_cast hnonneg) (spacing_pos precision q).le

theorem roundSize_mono (hprecision : 0 < precision) (hq : 0 ≤ q) (hle : q ≤ q') :
    roundSize precision q ≤ roundSize precision q' := by
  rcases hq.eq_or_lt with rfl | hq
  · exact roundSize_zero.trans_le (roundSize_nonneg hle)
  rcases (Int.log_mono_right hq hle : Int.log 2 q ≤ Int.log 2 q').lt_or_eq with hlt | heq
  · -- a power of two lies between them
    have hupper := (roundSize_bounds hq hprecision).2
    have hlower := (roundSize_bounds (hq.trans_le hle) hprecision).1
    rw [pow_mul_spacing] at hupper hlower
    have hstep : (2 : ℚ) * 2 ^ (Int.log 2 q + 1) ≤ 2 ^ (Int.log 2 q' + 1) := by
      rw [← zpow_one_add₀ (by norm_num)]
      exact zpow_le_zpow_right₀ (by norm_num) (by omega)
    linarith
  · have hsame : spacing precision q = spacing precision q' := by
      unfold spacing
      rw [heq]
    unfold roundSize
    rw [hsame]
    have hspacing := spacing_pos precision q'
    refine mul_le_mul_of_nonneg_right (Int.cast_le.mpr (roundEven_mono ?_)) hspacing.le
    exact div_le_div_of_nonneg_right hle hspacing.le

/-- Rounding keeps the order. -/
theorem roundBits_mono (hprecision : 0 < precision) : Monotone (roundBits precision) := by
  intro q q' hle
  unfold roundBits
  split
  · next hneg =>
    split
    · next hneg' =>
      exact neg_le_neg (roundSize_mono hprecision (by linarith) (by linarith))
    · next hnonneg =>
      have hsize : 0 ≤ roundSize precision (-q) := roundSize_nonneg (by linarith)
      have hsize' : 0 ≤ roundSize precision q' := roundSize_nonneg (not_lt.mp hnonneg)
      linarith
  · next hnonneg =>
    rw [if_neg (by linarith)]
    exact roundSize_mono hprecision (not_lt.mp hnonneg) hle

theorem roundBits_neg (q : ℚ) : roundBits precision (-q) = -roundBits precision q := by
  unfold roundBits
  rcases lt_trichotomy q 0 with hneg | rfl | hpos
  · rw [if_neg (by linarith), if_pos hneg, neg_neg]
  · simp only [neg_zero, lt_irrefl, if_false, roundSize_zero]
  · rw [if_pos (by linarith), if_neg (by linarith), neg_neg]

/-- Half a unit in the last place is no more than one in `2 ^ precision` of the number. -/
theorem abs_roundBits_sub_le (q : ℚ) :
    |roundBits precision q - q| ≤ |q| / 2 ^ precision := by
  have hsize : ∀ {q : ℚ}, 0 ≤ q → |roundSize precision q - q| ≤ q / 2 ^ precision := by
    intro q hq
    rcases hq.eq_or_lt with rfl | hq
    · rw [roundSize_zero]
      norm_num
    have hspacing := spacing_pos precision q
    have hmove : roundSize precision q - q
        = (roundEven (q / spacing precision q) - q / spacing precision q)
          * spacing precision q := by
      unfold roundSize
      field_simp
    have hpow : (0 : ℚ) < 2 ^ precision := by positivity
    rw [hmove, abs_mul, abs_of_pos hspacing, le_div_iff₀ hpow]
    calc |(roundEven (q / spacing precision q) : ℚ) - q / spacing precision q|
            * spacing precision q * 2 ^ precision
        ≤ 1 / 2 * spacing precision q * 2 ^ precision := by
          gcongr
          exact abs_roundEven_sub_le _
      _ ≤ q := by linarith [(pow_mul_spacing_le precision hq).1]
  unfold roundBits
  split
  · next hneg =>
    have hmove : -roundSize precision (-q) - q = -(roundSize precision (-q) - -q) := by ring
    rw [hmove, abs_neg, abs_of_neg hneg]
    exact hsize (by linarith)
  · next hnonneg =>
    rw [abs_of_nonneg (not_lt.mp hnonneg)]
    exact hsize (not_lt.mp hnonneg)

/-! ### Representable numbers -/

theorem Representable.neg (h : Representable precision q) : Representable precision (-q) := by
  obtain ⟨m, e, hm, rfl⟩ := h
  exact ⟨-m, e, by rwa [abs_neg], by push_cast; ring⟩

theorem representable_roundSize (hprecision : 0 < precision) (hq : 0 ≤ q) :
    Representable precision (roundSize precision q) := by
  rcases hq.eq_or_lt with rfl | hq
  · exact ⟨0, 0, by positivity, by rw [roundSize_zero]; norm_num⟩
  have hspacing := spacing_pos precision q
  have hmax := (roundSize_bounds hq hprecision).2
  have hnonneg : 0 ≤ roundEven (q / spacing precision q) :=
    le_roundEven (by exact_mod_cast div_nonneg hq.le hspacing.le)
  unfold roundSize at hmax ⊢
  rw [mul_le_mul_iff_left₀ hspacing] at hmax
  rcases hmax.lt_or_eq with hlt | heq
  · refine ⟨_, Int.log 2 q + 1 - precision, ?_, rfl⟩
    rw [abs_of_nonneg hnonneg]
    exact_mod_cast hlt
  · -- rounded up to the next power of two
    refine ⟨1, Int.log 2 q + 1, ?_, ?_⟩
    · rw [abs_one]
      exact one_lt_pow₀ (by norm_num) hprecision.ne'
    · rw [heq, pow_mul_spacing]
      norm_num

theorem representable_roundBits (hprecision : 0 < precision) (q : ℚ) :
    Representable precision (roundBits precision q) := by
  unfold roundBits
  split
  · exact (representable_roundSize hprecision (by linarith)).neg
  · exact representable_roundSize hprecision (by linarith)

theorem roundSize_of_representable (hq : 0 < q) (h : Representable precision q) :
    roundSize precision q = q := by
  obtain ⟨m, e, hm, rfl⟩ := h
  have hspacing := spacing_pos precision (m * 2 ^ e)
  have hpow : (0 : ℚ) < 2 ^ e := zpow_pos (by norm_num) _
  -- the spacing is no larger than the unit the number is a multiple of
  have hle : Int.log 2 ((m : ℚ) * 2 ^ e) + 1 - precision ≤ e := by
    by_contra hlt
    have hunit : (2 : ℚ) * 2 ^ e ≤ spacing precision (m * 2 ^ e) := by
      unfold spacing
      rw [← zpow_one_add₀ (by norm_num)]
      exact zpow_le_zpow_right₀ (by norm_num) (by omega)
    have hlow := (pow_mul_spacing_le precision hq).1
    have hm' : (m : ℚ) < 2 ^ precision := by exact_mod_cast (le_abs_self m).trans_lt hm
    have hsmall := mul_lt_mul_of_pos_right hm' hpow
    have hlarge := mul_le_mul_of_nonneg_left hunit (by positivity : (0 : ℚ) ≤ 2 ^ precision)
    linarith
  obtain ⟨shift, hshift⟩ := Int.le.dest hle
  have hwhole : (m : ℚ) * 2 ^ e / spacing precision (m * 2 ^ e) = ((m * 2 ^ shift : ℤ) : ℚ) := by
    rw [div_eq_iff hspacing.ne']
    unfold spacing
    push_cast
    rw [mul_assoc, ← zpow_natCast, ← zpow_add₀ (by norm_num)]
    congr 2
    omega
  unfold roundSize
  rw [hwhole, roundEven_intCast, ← hwhole, div_mul_cancel₀ _ hspacing.ne']

/-- Rounding leaves a representable number alone. -/
theorem roundBits_of_representable (h : Representable precision q) : roundBits precision q = q := by
  unfold roundBits
  split
  · next hneg =>
    rw [roundSize_of_representable (by linarith) h.neg, neg_neg]
  · next hnonneg =>
    rcases (not_lt.mp hnonneg).eq_or_lt with rfl | hpos
    · exact roundSize_zero
    · exact roundSize_of_representable hpos h

/-- The difference of two positive numbers no more than a factor of two apart is exact. -/
theorem Representable.sub (h : Representable precision q) (h' : Representable precision q')
    (hle : q' ≤ 2 * q) (hle' : q ≤ 2 * q') : Representable precision (q - q') := by
  -- a common unit of both, and one of them a small multiple of it
  have hcommon : ∀ {m n e f : ℤ}, |m| < 2 ^ precision → e ≤ f →
      |(m : ℚ) * 2 ^ e - n * 2 ^ f| ≤ |(m : ℚ) * 2 ^ e| →
      Representable precision (m * 2 ^ e - n * 2 ^ f) := by
    intro m n e f hm hef hsmall
    obtain ⟨shift, rfl⟩ := Int.le.dest hef
    have hpow : (0 : ℚ) < 2 ^ e := zpow_pos (by norm_num) _
    have hunits : (m : ℚ) * 2 ^ e - n * 2 ^ (e + shift) = ((m - n * 2 ^ shift : ℤ) : ℚ) * 2 ^ e := by
      rw [zpow_add₀ (by norm_num), zpow_natCast]
      push_cast
      ring
    rw [hunits, abs_mul, abs_mul, mul_le_mul_iff_left₀ (abs_pos.mpr hpow.ne')] at hsmall
    exact ⟨m - n * 2 ^ shift, e, (by exact_mod_cast hsmall : _ ≤ |m|).trans_lt hm, hunits⟩
  have hq : |q - q'| ≤ |q| ∧ |q - q'| ≤ |q'| := by
    rw [abs_of_nonneg (by linarith : 0 ≤ q), abs_of_nonneg (by linarith : 0 ≤ q'), abs_le, abs_le]
    constructor <;> constructor <;> linarith
  obtain ⟨m, e, hm, rfl⟩ := h
  obtain ⟨n, f, hn, rfl⟩ := h'
  rcases le_total e f with hef | hfe
  · exact hcommon hm hef hq.1
  · rw [← neg_sub]
    refine (hcommon hn hfe ?_).neg
    rw [abs_sub_comm]
    exact hq.2

end Precision

/-! ### Doubles -/

section Doubles

variable {q exact computed : ℚ}

/-- The double nearest to a number, a tie to the even one. -/
def toDouble (q : ℚ) : ℚ := roundBits 53 q

theorem toDouble_mono : Monotone toDouble := roundBits_mono (by norm_num)

theorem toDouble_neg (q : ℚ) : toDouble (-q) = -toDouble q := roundBits_neg q

theorem toDouble_of_representable (h : Representable 53 q) : toDouble q = q :=
  roundBits_of_representable h

theorem toDouble_natCast {n : ℕ} (h : n < 2 ^ 53) : toDouble n = n := by
  refine toDouble_of_representable ⟨n, 0, ?_, by norm_num⟩
  rw [Nat.abs_cast]
  exact_mod_cast h

@[simp] theorem toDouble_zero : toDouble 0 = 0 := by
  exact_mod_cast toDouble_natCast (n := 0) (by norm_num)

@[simp] theorem toDouble_one : toDouble 1 = 1 := by
  exact_mod_cast toDouble_natCast (n := 1) (by norm_num)

/-- What has been rounded is a double. -/
@[simp] theorem toDouble_toDouble (q : ℚ) : toDouble (toDouble q) = toDouble q :=
  toDouble_of_representable (representable_roundBits (by norm_num) q)

theorem toDouble_nonneg (h : 0 ≤ q) : 0 ≤ toDouble q := toDouble_zero ▸ toDouble_mono h

theorem toDouble_bounds (h : 0 ≤ q) :
    (1 - 1 / 2 ^ 53) * q ≤ toDouble q ∧ toDouble q ≤ (1 + 1 / 2 ^ 53) * q := by
  have herror : |toDouble q - q| ≤ |q| / 2 ^ 53 := abs_roundBits_sub_le q
  rw [abs_of_nonneg h, abs_le] at herror
  constructor <;> linarith [herror.1, herror.2]

theorem toDouble_pos (h : 0 < q) : 0 < toDouble q := by
  refine lt_of_lt_of_le ?_ (toDouble_bounds h.le).1
  exact mul_pos (by norm_num) h

/-- A number that takes part in no more than so many roundings on the way to another. -/
def WithinRoundings (roundings : ℕ) (exact computed : ℚ) : Prop :=
  (1 - 1 / 2 ^ 53) ^ roundings * exact ≤ computed
    ∧ computed ≤ (1 + 1 / 2 ^ 53) ^ roundings * exact

namespace WithinRoundings

/-- No rounding at all. -/
theorem zero_iff : WithinRoundings 0 exact computed ↔ exact = computed := by
  unfold WithinRoundings
  rw [pow_zero, pow_zero, one_mul]
  exact le_antisymm_iff.symm

theorem refl (q : ℚ) : WithinRoundings 0 q q := zero_iff.mpr rfl

/-- Two computations one after the other. -/
theorem trans {m n : ℕ} {middle : ℚ} (h : WithinRoundings m exact middle)
    (h' : WithinRoundings n middle computed) : WithinRoundings (m + n) exact computed := by
  constructor
  · rw [pow_add, mul_right_comm, mul_comm]
    exact (mul_le_mul_of_nonneg_left h.1 (by positivity)).trans h'.1
  · rw [pow_add, mul_right_comm, mul_comm]
    exact h'.2.trans (mul_le_mul_of_nonneg_left h.2 (by positivity))

theorem toDouble (h : 0 ≤ q) : WithinRoundings 1 q (toDouble q) := by
  unfold WithinRoundings
  rw [pow_one, pow_one]
  exact toDouble_bounds h

/-- A factor that is exact. -/
theorem mul_left {n : ℕ} {factor : ℚ} (h : WithinRoundings n exact computed) (hfactor : 0 ≤ factor) :
    WithinRoundings n (factor * exact) (factor * computed) := by
  constructor
  · rw [mul_left_comm]
    exact mul_le_mul_of_nonneg_left h.1 hfactor
  · rw [mul_left_comm]
    exact mul_le_mul_of_nonneg_left h.2 hfactor

end WithinRoundings

/-- Numbers multiplied onto another, one rounding each. -/
def roundedProduct (factor : ℚ) (factors : List ℚ) : ℚ :=
  factors.foldl (fun product next => toDouble (product * next)) factor

theorem withinRoundings_roundedProduct (factors : List ℚ) : ∀ {factor : ℚ}, 0 < factor →
    (∀ next ∈ factors, 0 < next) →
    WithinRoundings factors.length (factor * factors.prod) (roundedProduct factor factors) := by
  induction factors with
  | nil =>
    intro factor _ _
    rw [List.prod_nil, mul_one]
    exact .refl factor
  | cons next factors ih =>
    intro factor hfactor hfactors
    obtain ⟨hnext, hrest⟩ := List.forall_mem_cons.mp hfactors
    have hproduct := mul_pos hfactor hnext
    have hprod : 0 < factors.prod := List.prod_pos hrest
    have hround := (WithinRoundings.toDouble hproduct.le).mul_left hprod.le
    rw [List.prod_cons, List.length_cons, Nat.add_comm, ← mul_assoc, mul_comm (factor * next)]
    refine hround.trans ?_
    rw [mul_comm]
    exact ih (toDouble_pos hproduct) hrest

/-- The first of some doubles is multiplied onto 1 exactly. -/
theorem withinRoundings_roundedProduct_one {factors : List ℚ} (hpos : ∀ next ∈ factors, 0 < next)
    (hdoubles : ∀ next ∈ factors, toDouble next = next) :
    WithinRoundings (factors.length - 1) factors.prod (roundedProduct 1 factors) := by
  cases factors with
  | nil => exact .refl 1
  | cons first factors =>
    obtain ⟨hfirst, hrest⟩ := List.forall_mem_cons.mp hpos
    have hexact : roundedProduct 1 (first :: factors) = roundedProduct first factors := by
      unfold roundedProduct
      rw [List.foldl_cons, one_mul, hdoubles first List.mem_cons_self]
    rw [hexact, List.prod_cons]
    exact withinRoundings_roundedProduct factors hfirst hrest

end Doubles

end BinaryRounding
