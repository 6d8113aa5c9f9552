import FactorSage.Library.NumberText
import Mathlib.Algebra.Order.Round

/-!
# Reading a number from any text

`Number` of an arbitrary text: the white space around it is dropped, what is left is a decimal
literal with an optional sign, a fraction and a power, or an integer behind `0x`, `0o` or `0b`, and
the value is rounded to the nearest double. A text that is empty or all white space is zero.

The decimal text of a natural number below `2⁵³` is read as that number (`numberOf_naturalText`).
-/

namespace NumericLiteral

open JsonText JsonInteger NumberText

/-! ### White space -/

/-- White space and line terminators: what `trim` removes. -/
def isWhitespace (u : ℕ) : Bool :=
  u ∈ [9, 10, 11, 12, 13, 32, 0xA0, 0x1680, 0x2028, 0x2029, 0x202F, 0x205F, 0x3000, 0xFEFF]
    ∨ 0x2000 ≤ u ∧ u ≤ 0x200A

def trim (t : Text) : Text := ((t.dropWhile isWhitespace).reverse.dropWhile isWhitespace).reverse

/-! ### Literals -/

/-- The power of a decimal literal: `e` or `E`, an optional sign and digits, or nothing. -/
def powerOf : Text → Option ℤ
  | [] => some 0
  | mark :: t =>
    let digits := (scanSign t).2
    if (mark = 101 ∨ mark = 69) ∧ digits ≠ [] ∧ digits.all isDigit then
      some (if (scanSign t).1 = [45] then -(naturalOf digits : ℤ) else naturalOf digits)
    else none

/-- The digits behind a point, with what follows them. -/
def fractionOf (t : Text) : Text × Text := if t.head? = some 46 then scanDigits t.tail else ([], t)

/-- A decimal literal without a sign. -/
def unsignedDecimal (t : Text) : Option ℚ :=
  let integer := (scanDigits t).1
  let fraction := (fractionOf (scanDigits t).2).1
  if integer ++ fraction = [] then none
  else
    (powerOf (fractionOf (scanDigits t).2).2).map fun (power : ℤ) =>
      (naturalOf (integer ++ fraction) : ℚ) * 10 ^ (power - fraction.length)

/-- A decimal literal. `Infinity` is no finite number, like every text that is no literal. -/
def signedDecimal (t : Text) : Option ℚ :=
  (unsignedDecimal (scanSign t).2).map fun value => if (scanSign t).1 = [45] then -value else value

/-- The base a letter behind `0` names. -/
def radixOf (u : ℕ) : Option ℕ :=
  if u = 120 ∨ u = 88 then some 16
  else if u = 111 ∨ u = 79 then some 8
  else if u = 98 ∨ u = 66 then some 2
  else none

def digitOf (u : ℕ) : ℕ :=
  if isDigit u then u - 48
  else if 97 ≤ u ∧ u ≤ 102 then u - 87
  else if 65 ≤ u ∧ u ≤ 70 then u - 55
  else 16

/-- The digits of an integer in a base. -/
def radixInteger (base : ℕ) (digits : Text) : Option ℚ :=
  if digits ≠ [] ∧ digits.all (digitOf · < base) then
    some (digits.foldl (fun value u => value * base + digitOf u) 0 : ℕ)
  else none

/-- `0` and a letter that names a base. -/
def radixPrefix : Text → Option (ℕ × Text)
  | 48 :: mark :: digits => (radixOf mark).map (·, digits)
  | _ => none

/-- The value a trimmed text denotes. -/
def literalValue (t : Text) : Option ℚ :=
  if t = [] then some 0
  else
    match radixPrefix t with
    | some (base, digits) => radixInteger base digits
    | none => signedDecimal t

/-! ### Rounding -/

/-- The exponent of the largest power of two not above a positive number. -/
def floorLog2 (q : ℚ) : ℤ :=
  let exponent : ℤ := Nat.log2 q.num.natAbs - Nat.log2 q.den
  if 2 ^ exponent ≤ q then exponent else exponent - 1

/-- The nearest integer, the even one of two. -/
def roundHalfEven (q : ℚ) : ℤ :=
  if q - ⌊q⌋ < 1 / 2 then ⌊q⌋
  else if 1 / 2 < q - ⌊q⌋ then ⌊q⌋ + 1
  else if ⌊q⌋ % 2 = 0 then ⌊q⌋
  else ⌊q⌋ + 1

/-- The distance of neighbouring doubles at a magnitude. -/
def spacing (q : ℚ) : ℚ := 2 ^ max (floorLog2 q - 52) (-1074)

/-- The double nearest to a number, where it is finite. -/
def roundDouble (q : ℚ) : Option ℚ :=
  let magnitude := roundHalfEven (|q| / spacing |q|) * spacing |q|
  if q = 0 then some 0
  else if magnitude < 2 ^ 1024 then some (if q < 0 then -magnitude else magnitude)
  else none

/-- `Number` of a text, where it is finite. -/
def numberOf (t : Text) : Option ℚ := (literalValue (trim t)).bind roundDouble

/-! ### Natural numbers -/

theorem roundHalfEven_intCast (n : ℤ) : roundHalfEven n = n := by
  unfold roundHalfEven
  rw [Int.floor_intCast, sub_self, if_pos (by norm_num)]

/-- A natural number of at most 53 bits is a double. -/
theorem roundDouble_natCast {n : ℕ} (h : n < 2 ^ 53) : roundDouble n = some (n : ℚ) := by
  unfold roundDouble
  by_cases hzero : n = 0
  · rw [hzero]
    rfl
  have hpos : (0 : ℚ) < n := by exact_mod_cast Nat.pos_of_ne_zero hzero
  have hlog : floorLog2 n ≤ 52 := by
    have hnum : Nat.log2 ((n : ℚ).num.natAbs) < 53 := by
      rw [Rat.num_natCast, Int.natAbs_natCast]
      exact (Nat.log2_lt hzero).mpr h
    unfold floorLog2
    dsimp only
    split <;> omega
  -- the spacing divides one
  obtain ⟨k, hk⟩ : ∃ k : ℕ, max (floorLog2 n - 52) (-1074) = -(k : ℤ) :=
    ⟨(-max (floorLog2 n - 52) (-1074)).toNat, by omega⟩
  have hspacing : spacing n = ((2 ^ k : ℕ) : ℚ)⁻¹ := by
    unfold spacing
    rw [hk, zpow_neg, zpow_natCast, Nat.cast_pow, Nat.cast_ofNat]
  have hscaled : (n : ℚ) / spacing n = ((n * 2 ^ k : ℤ) : ℚ) := by
    rw [hspacing, div_inv_eq_mul]
    push_cast
    rfl
  have hmagnitude : (roundHalfEven ((n : ℚ) / spacing n) : ℚ) * spacing n = n := by
    have hne : ((2 ^ k : ℕ) : ℚ) ≠ 0 := by positivity
    rw [hscaled, roundHalfEven_intCast, ← hscaled, hspacing, div_inv_eq_mul,
      mul_inv_cancel_right₀ hne]
  have hsmall : (n : ℚ) < 2 ^ 1024 := by
    calc (n : ℚ) < ((2 ^ 53 : ℕ) : ℚ) := by exact_mod_cast h
      _ = 2 ^ 53 := by norm_num
      _ ≤ 2 ^ 1024 := pow_le_pow_right₀ (by norm_num) (by norm_num)
  dsimp only
  rw [abs_of_pos hpos, hmagnitude, if_neg hpos.ne', if_pos hsmall, if_neg hpos.not_gt]

theorem trim_of_digits {t : Text} (h : ∀ v ∈ t, isDigit v = true) : trim t = t := by
  have hspace : ∀ v, isDigit v = true → isWhitespace v = false := by
    intro v hv
    unfold isDigit at hv
    rw [decide_eq_true_eq] at hv
    unfold isWhitespace
    rw [decide_eq_false_iff_not]
    simp only [List.mem_cons, List.not_mem_nil, or_false]
    omega
  have hkeep : ∀ t : Text, (∀ v ∈ t, isDigit v = true) → t.dropWhile isWhitespace = t := by
    intro t ht
    cases t with
    | nil => rfl
    | cons u rest => rw [List.dropWhile_cons, hspace u (ht u List.mem_cons_self)]; rfl
  unfold trim
  rw [hkeep t h, hkeep t.reverse fun v hv => h v (List.mem_reverse.mp hv), List.reverse_reverse]

/-- Digits denote what they are read as in base ten. -/
theorem literalValue_of_digits {t : Text} (h : IsDigits t) : literalValue t = some (naturalOf t : ℚ) := by
  have hradix : radixPrefix t = none := by
    unfold radixPrefix
    split
    · next _ mark digits =>
      have hmark := h.digits mark (by simp)
      unfold isDigit at hmark
      rw [decide_eq_true_eq] at hmark
      unfold radixOf
      rw [if_neg (by omega), if_neg (by omega), if_neg (by omega)]
      rfl
    · rfl
  have hsign : scanSign t = ([], t) := by
    obtain ⟨u, rest, rfl, hplus, hminus⟩ := h.head
    rw [scanSign, if_neg (by simp [hplus, hminus])]
  unfold literalValue
  rw [if_neg h.ne_nil, hradix]
  dsimp only
  unfold signedDecimal unsignedDecimal
  rw [hsign, scanDigits_of_digits h.digits]
  dsimp only
  have hfraction : fractionOf [] = ([], []) := rfl
  rw [hfraction]
  dsimp only
  rw [List.append_nil, if_neg h.ne_nil]
  simp [powerOf]

/-- **The text of a natural number is read as that number.** -/
theorem numberOf_naturalText {n : ℕ} (h : n < 2 ^ 53) : numberOf (naturalText n) = some (n : ℚ) := by
  have hdigits := isDigits_naturalText n
  unfold numberOf
  rw [trim_of_digits hdigits.digits, literalValue_of_digits hdigits, naturalOf_naturalText]
  exact roundDouble_natCast h

end NumericLiteral
