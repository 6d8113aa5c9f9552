import FactorSage.Library.NumberText
import FactorSage.Valuation.Restatement

/-!
# Exact decimal sums

Reported figures are decimals: a sum of them and a threshold on them are judged on the decimals, not
on the doubles that hold them. `decimalParts` reads a number's text as an integer coefficient and a
power of ten; sums and products are then integer arithmetic at one common exponent.

An integer scaled down to a lower exponent keeps its value (`scaled_mul_zpow`), so the text handed to
`Number` denotes the exact sum, and a comparison at a common exponent is the comparison of the
decimals.
-/

namespace FactorSage.ExactDecimalSum

open JsonText JsonInteger NumberText

/-- A finite double as `coefficient × 10^exponent`. -/
structure DecimalParts where
  coefficient : ℤ
  exponent : ℤ
  deriving DecidableEq

/-- The parts of a number, from its shortest decimal form. -/
def decimalParts (value : Number) : Except Text DecimalParts :=
  if value.isFinite = false then
    .error (lit "Cannot sum a non-finite value: " ++ numberText value)
  else
    match matchNumber true (numberText value) with
    | none => .error (lit "Unexpected numeric form: " ++ numberText value)
    | some m => .ok { coefficient := m.coefficient, exponent := m.exponent }

/-- An integer at a lower exponent. -/
def scaled (base part partExponent : ℤ) : ℤ := part * 10 ^ (partExponent - base).toNat

/-- The lowest exponent of the parts, zero at most. -/
def lowestExponent (parts : List DecimalParts) : ℤ :=
  parts.foldl (fun exponent part => min exponent part.exponent) 0

def totalAt (exponent : ℤ) (parts : List DecimalParts) : ℤ :=
  parts.foldl (fun total part => total + scaled exponent part.coefficient part.exponent) 0

/-- The exact sum of reported decimals, rounded once. -/
def exactDecimalSum (round : ℚ → Number) (values : List Number) : Except Text Number := do
  let parts ← values.mapM decimalParts
  let exponent := lowestExponent parts
  return numberOf round (integerText (totalAt exponent parts) ++ 101 :: integerText exponent)

/-- One factor of the reference. -/
def multiply (product : DecimalParts) (factor : Number) : Except Text DecimalParts := do
  let part ← decimalParts factor
  return { coefficient := product.coefficient * part.coefficient
           exponent := product.exponent + part.exponent }

/-- `|difference| <= allowance × reference`, every side at the lowest of the three exponents. -/
def withinAllowance (target product allowance : DecimalParts) : Bool :=
  let base := min (min target.exponent product.exponent) (allowance.exponent + product.exponent)
  let difference := scaled base target.coefficient target.exponent
    - scaled base product.coefficient product.exponent
  (if difference < 0 then -difference else difference)
    ≤ scaled base (allowance.coefficient * product.coefficient) (allowance.exponent + product.exponent)

/-- Whether `|value − reference| <= tolerance × reference`, for a reference given as a product of
factors. -/
def exactlyWithinFraction (value : Number) (reference : List Number) (tolerance : Number) :
    Except Text Bool := do
  let target ← decimalParts value
  let allowance ← decimalParts tolerance
  let product ← reference.foldlM multiply { coefficient := 1, exponent := 0 }
  return withinAllowance target product allowance

/-! ### Parts -/

def DecimalParts.value (p : DecimalParts) : ℚ := p.coefficient * 10 ^ p.exponent

/-- The parts of a finite number. -/
def partsOf (d : FiniteDecimal) : DecimalParts where
  coefficient := (finiteMatch d).coefficient
  exponent := (finiteMatch d).exponent

theorem decimalParts_finite (d : FiniteDecimal) : decimalParts (.finite d) = .ok (partsOf d) := by
  unfold decimalParts
  rw [if_neg (by simp [Number.isFinite]), matchNumber_numberText]
  rfl

@[simp] theorem value_partsOf (d : FiniteDecimal) : (partsOf d).value = d.value :=
  value_finiteMatch d

theorem mapM_decimalParts (values : List FiniteDecimal) :
    (values.map Number.finite).mapM decimalParts = .ok (values.map partsOf) := by
  induction values with
  | nil => rfl
  | cons d rest ih =>
    rw [List.map_cons, List.mapM_cons, decimalParts_finite, ih]
    rfl

/-- **A lower exponent keeps the value.** -/
theorem scaled_mul_zpow {base partExponent : ℤ} (h : base ≤ partExponent) (part : ℤ) :
    (scaled base part partExponent : ℚ) * 10 ^ base = part * 10 ^ partExponent := by
  have hsplit : (10 : ℚ) ^ partExponent = 10 ^ (partExponent - base).toNat * 10 ^ base := by
    rw [← zpow_natCast, ← zpow_add₀ (by norm_num), Int.toNat_of_nonneg (by omega), sub_add_cancel]
  unfold scaled
  rw [hsplit]
  push_cast
  ring

/-! ### The sum -/

/-- The fold keeps its start and every part above it. -/
theorem foldl_min_le (parts : List DecimalParts) (start : ℤ) :
    parts.foldl (fun exponent part => min exponent part.exponent) start ≤ start
      ∧ ∀ part ∈ parts,
        parts.foldl (fun exponent part => min exponent part.exponent) start ≤ part.exponent := by
  induction parts generalizing start with
  | nil => exact ⟨le_refl _, by simp⟩
  | cons p rest ih =>
    obtain ⟨hstart, hrest⟩ := ih (min start p.exponent)
    rw [List.foldl_cons]
    refine ⟨hstart.trans (min_le_left _ _), ?_⟩
    intro part hpart
    rcases List.mem_cons.mp hpart with rfl | hmem
    · exact hstart.trans (min_le_right _ _)
    · exact hrest part hmem

theorem lowestExponent_le {parts : List DecimalParts} {part : DecimalParts} (h : part ∈ parts) :
    lowestExponent parts ≤ part.exponent :=
  (foldl_min_le parts 0).2 part h

theorem foldl_totalAt {exponent : ℤ} {parts : List DecimalParts}
    (h : ∀ part ∈ parts, exponent ≤ part.exponent) (start : ℤ) :
    ((parts.foldl (fun total part => total + scaled exponent part.coefficient part.exponent) start : ℤ)
        : ℚ) * 10 ^ exponent
      = start * 10 ^ exponent + (parts.map DecimalParts.value).sum := by
  induction parts generalizing start with
  | nil => simp
  | cons p rest ih =>
    have hscaled := scaled_mul_zpow (h p List.mem_cons_self) p.coefficient
    rw [List.foldl_cons, ih fun part hpart => h part (List.mem_cons_of_mem _ hpart), List.map_cons,
      List.sum_cons, ← add_assoc, Int.cast_add, add_mul, hscaled]
    rfl

/-- The total at the lowest exponent denotes the exact sum. -/
theorem totalAt_mul_zpow (parts : List DecimalParts) :
    (totalAt (lowestExponent parts) parts : ℚ) * 10 ^ lowestExponent parts
      = (parts.map DecimalParts.value).sum := by
  have htotal := foldl_totalAt (fun (part : DecimalParts) (h : part ∈ parts) => lowestExponent_le h) 0
  rw [Int.cast_zero, zero_mul, zero_add] at htotal
  exact htotal

/-- **The sum is the exact sum of the decimals, rounded once.** -/
theorem exactDecimalSum_finite (round : ℚ → Number) (values : List FiniteDecimal) :
    exactDecimalSum round (values.map .finite)
      = .ok (round (values.map FiniteDecimal.value).sum) := by
  have hsum : ((values.map partsOf).map DecimalParts.value) = values.map FiniteDecimal.value := by
    rw [List.map_map]
    exact List.map_congr_left fun d _ => value_partsOf d
  unfold exactDecimalSum
  rw [mapM_decimalParts]
  change Except.ok (numberOf round _) = _
  rw [numberOf_scaled, totalAt_mul_zpow, hsum]

/-- The exact sum does not depend on how the terms are grouped. -/
theorem sum_groups (groups : List (List FiniteDecimal)) :
    (groups.flatten.map FiniteDecimal.value).sum
      = (groups.map fun group => (group.map FiniteDecimal.value).sum).sum := by
  rw [List.map_flatten, List.sum_flatten, List.map_map]
  rfl

/-! ### The comparison -/

/-- The parts of a product of finite numbers. -/
theorem foldlM_multiply (reference : List FiniteDecimal) (product : DecimalParts) :
    ∃ result, (reference.map Number.finite).foldlM multiply product = .ok result
      ∧ result.value = product.value * (reference.map FiniteDecimal.value).prod := by
  induction reference generalizing product with
  | nil => exact ⟨product, rfl, by simp⟩
  | cons d rest ih =>
    obtain ⟨result, hresult, hvalue⟩ := ih
      { coefficient := product.coefficient * (partsOf d).coefficient
        exponent := product.exponent + (partsOf d).exponent }
    refine ⟨result, ?_, ?_⟩
    · rw [List.map_cons, List.foldlM_cons]
      unfold multiply
      rw [decimalParts_finite]
      exact hresult
    · have hd := value_partsOf d
      unfold DecimalParts.value at hd
      rw [hvalue, List.map_cons, List.prod_cons, ← hd]
      unfold DecimalParts.value
      rw [Int.cast_mul, zpow_add₀ (by norm_num)]
      ring

theorem abs_of_ite (n : ℤ) : (if n < 0 then -n else n) = |n| := by
  split
  · next h => rw [abs_of_neg h]
  · next h => rw [abs_of_nonneg (by omega)]

/-- The comparison at a common exponent is the comparison of the decimals. -/
theorem withinAllowance_eq (target product allowance : DecimalParts) :
    withinAllowance target product allowance
      = decide (|target.value - product.value| ≤ allowance.value * product.value) := by
  unfold withinAllowance
  dsimp only
  generalize hbase : min (min target.exponent product.exponent)
    (allowance.exponent + product.exponent) = base
  have hbases : base ≤ target.exponent ∧ base ≤ product.exponent
      ∧ base ≤ allowance.exponent + product.exponent := by omega
  have htarget := scaled_mul_zpow hbases.1 target.coefficient
  have hproduct := scaled_mul_zpow hbases.2.1 product.coefficient
  have hallowance := scaled_mul_zpow hbases.2.2 (allowance.coefficient * product.coefficient)
  have hpos : (0 : ℚ) < 10 ^ base := zpow_pos (by norm_num) _
  have hleft : |target.value - product.value|
      = |((scaled base target.coefficient target.exponent
          - scaled base product.coefficient product.exponent : ℤ) : ℚ)| * 10 ^ base := by
    rw [show ∀ q : ℚ, |q| * 10 ^ base = |q * 10 ^ base| from
        fun q => by rw [abs_mul, abs_of_pos hpos], Int.cast_sub, sub_mul, htarget, hproduct]
    rfl
  have hright : allowance.value * product.value
      = (scaled base (allowance.coefficient * product.coefficient)
          (allowance.exponent + product.exponent) : ℤ) * 10 ^ base := by
    rw [hallowance, Int.cast_mul, zpow_add₀ (by norm_num)]
    unfold DecimalParts.value
    ring
  rw [hleft, hright, abs_of_ite, decide_eq_decide, mul_le_mul_iff_left₀ hpos, ← Int.cast_abs,
    Int.cast_le]

/-- **The comparison is exact.** On finite numbers it is the comparison of their decimals. -/
theorem exactlyWithinFraction_finite (value : FiniteDecimal) (reference : List FiniteDecimal)
    (tolerance : FiniteDecimal) :
    exactlyWithinFraction (.finite value) (reference.map .finite) (.finite tolerance)
      = .ok (Valuation.exactlyWithinFraction value.value (reference.map FiniteDecimal.value)
          tolerance.value) := by
  obtain ⟨product, hproduct, hvalue⟩ := foldlM_multiply reference { coefficient := 1, exponent := 0 }
  have hone : DecimalParts.value { coefficient := 1, exponent := 0 } = 1 := by
    simp [DecimalParts.value]
  rw [hone, one_mul] at hvalue
  unfold exactlyWithinFraction
  rw [decimalParts_finite, decimalParts_finite]
  change (do
    let product ← (reference.map Number.finite).foldlM multiply { coefficient := 1, exponent := 0 }
    return withinAllowance (partsOf value) product (partsOf tolerance)) = _
  rw [hproduct]
  change Except.ok (withinAllowance _ product _) = _
  rw [withinAllowance_eq, value_partsOf, value_partsOf, hvalue]
  rfl

/-! ### Exactness -/

/-- **Reported decimals are summed and compared exactly.** A sum is the exact sum of the decimals
rounded once, whatever the order of the values and however they are grouped. A comparison against a
positive reference holds exactly when it holds of the decimals. -/
theorem reportedDecimals_exact (round : ℚ → Number) :
    (∀ values : List FiniteDecimal,
      exactDecimalSum round (values.map .finite)
          = .ok (round (values.map FiniteDecimal.value).sum)
        ∧ (∀ order : List FiniteDecimal, order.Perm values →
          exactDecimalSum round (order.map .finite)
            = exactDecimalSum round (values.map .finite))
        ∧ ∀ groups : List (List FiniteDecimal), groups.flatten.Perm values →
          exactDecimalSum round (values.map .finite)
            = .ok (round (groups.map fun group => (group.map FiniteDecimal.value).sum).sum))
    ∧ ∀ (value : FiniteDecimal) (reference : List FiniteDecimal) (tolerance : FiniteDecimal),
      0 < (reference.map FiniteDecimal.value).prod →
      ∃ verdict,
        exactlyWithinFraction (.finite value) (reference.map .finite) (.finite tolerance)
          = .ok verdict
        ∧ (verdict = true ↔
          |value.value - (reference.map FiniteDecimal.value).prod|
            ≤ tolerance.value * (reference.map FiniteDecimal.value).prod) := by
  have hperm : ∀ {order values : List FiniteDecimal}, order.Perm values →
      (order.map FiniteDecimal.value).sum = (values.map FiniteDecimal.value).sum :=
    fun h => (h.map _).sum_eq
  refine ⟨fun values => ⟨exactDecimalSum_finite round values, ?_, ?_⟩, ?_⟩
  · intro order horder
    rw [exactDecimalSum_finite, exactDecimalSum_finite, hperm horder]
  · intro groups hgroups
    rw [exactDecimalSum_finite, ← hperm hgroups, sum_groups]
  · intro value reference tolerance _
    refine ⟨_, exactlyWithinFraction_finite value reference tolerance, ?_⟩
    unfold Valuation.exactlyWithinFraction
    exact decide_eq_true_iff

/-- `0.1 + 0.2 − 0.3` is zero in every order, and `102` is within two percent of `100`. -/
theorem reportedDecimals_exact_flat :
    let tenth (negative : Bool) (digit : ℕ) (h : digit % 10 ≠ 0) : FiniteDecimal :=
      .nonzero negative digit 0 h
    exactDecimalSum (roundDigits 17)
        ([tenth false 1 (by decide), tenth false 2 (by decide), tenth true 3 (by decide)].map .finite)
      = .ok (.finite (.zero false))
    ∧ exactDecimalSum (roundDigits 17)
        ([tenth true 3 (by decide), tenth false 2 (by decide), tenth false 1 (by decide)].map .finite)
      = .ok (.finite (.zero false))
    ∧ exactlyWithinFraction (.finite (.nonzero false 102 3 (by decide)))
        ([.nonzero false 1 3 (by decide)].map .finite)
        (.finite (.nonzero false 2 (-1) (by decide)))
      = .ok true := by
  intro tenth
  have hexact := reportedDecimals_exact (roundDigits 17)
  have hsum : roundDigits 17
      (([tenth false 1 (by decide), tenth false 2 (by decide), tenth true 3 (by decide)].map
        FiniteDecimal.value).sum) = .finite (.zero false) := by decide +kernel
  obtain ⟨hvalue, horder, -⟩ := hexact.1
    [tenth false 1 (by decide), tenth false 2 (by decide), tenth true 3 (by decide)]
  have hreversed := horder
    [tenth true 3 (by decide), tenth false 2 (by decide), tenth false 1 (by decide)]
    (List.reverse_perm [tenth false 1 _, tenth false 2 _, tenth true 3 _])
  obtain ⟨verdict, hverdict, hiff⟩ := hexact.2 (.nonzero false 102 3 (by decide))
    [.nonzero false 1 3 (by decide)] (.nonzero false 2 (-1) (by decide)) (by decide +kernel)
  rw [hsum] at hvalue
  refine ⟨hvalue, hreversed.trans hvalue, ?_⟩
  rw [hverdict, hiff.mpr (by decide +kernel)]

end FactorSage.ExactDecimalSum
