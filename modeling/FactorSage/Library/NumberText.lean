import FactorSage.Library.JsonInteger
import FactorSage.Library.DecimalScale

/-!
# The decimal text of a number

How a language writes a double with `String` and reads one back with `Number`. A finite double is
known here by its shortest decimal: the digits `s` and the point `n` of the standard's
`Number::toString`, which writes `s × 10ⁿ⁻ᵏ` for `k` digits. Rounding a decimal to a double is a
parameter: what is proved holds of every rounding.

`matchNumber` reads a text as a sign, digits, a fraction and a power. `matchNumber_numberText` says
that every finite number is written as a text it accepts, and that the groups it reads denote the
number.
-/

namespace NumberText

open JsonText JsonInteger

/-- A finite double, by its shortest decimal. The last digit is not zero: the digits are as few as
possible. -/
inductive FiniteDecimal where
  | zero (negative : Bool)
  | nonzero (negative : Bool) (digits : ℕ) (point : ℤ) (shortest : digits % 10 ≠ 0)
  deriving DecidableEq

inductive Number where
  | nan
  | infinity (negative : Bool)
  | finite (decimal : FiniteDecimal)
  deriving DecidableEq

/-- The number of digits a natural number is written with. -/
def digitCount (s : ℕ) : ℕ := (naturalText s).length

/-- The decimal the shortest digits denote. -/
def FiniteDecimal.value : FiniteDecimal → ℚ
  | .zero _ => 0
  | .nonzero negative digits point _ =>
    (if negative then -1 else 1) * (digits * 10 ^ (point - digitCount digits))

def Number.isFinite : Number → Bool
  | .finite _ => true
  | _ => false

/-! ### Writing -/

def zeros (n : ℤ) : Text := List.replicate n.toNat 48

/-- The power of exponent notation, with its sign. -/
def powerDigits (e : ℤ) : Text := (if e < 0 then 45 else 43) :: naturalText e.natAbs

/-- `Number::toString` of a positive number with digits `s` and point `n`. -/
def positiveText (s : ℕ) (n : ℤ) : Text :=
  if digitCount s ≤ n ∧ n ≤ 21 then naturalText s ++ zeros (n - digitCount s)
  else if 0 < n ∧ n ≤ 21 then
    (naturalText s).take n.toNat ++ 46 :: (naturalText s).drop n.toNat
  else if -6 < n ∧ n ≤ 0 then 48 :: 46 :: (zeros (-n) ++ naturalText s)
  else if digitCount s = 1 then naturalText s ++ 101 :: powerDigits (n - 1)
  else
    (naturalText s).take 1 ++ 46 :: ((naturalText s).drop 1 ++ 101 :: powerDigits (n - 1))

def finiteText : FiniteDecimal → Text
  | .zero _ => [48]
  | .nonzero negative digits point _ =>
    (if negative then [45] else []) ++ positiveText digits point

/-- `String` of a number. -/
def numberText : Number → Text
  | .nan => lit "NaN"
  | .infinity negative => (if negative then [45] else []) ++ lit "Infinity"
  | .finite decimal => finiteText decimal

/-! ### Reading -/

/-- The groups of a number's text. -/
structure NumberMatch where
  sign : Text
  integer : Text
  fraction : Option Text
  power : Option Text
  deriving DecidableEq

/-- A point and digits, when both are there. -/
def matchFraction : Text → Option Text × Text
  | [] => (none, [])
  | u :: rest =>
    if u = 46 ∧ (scanDigits rest).1 ≠ [] then (some (scanDigits rest).1, (scanDigits rest).2)
    else (none, u :: rest)

/-- `e`, a sign and digits, when all are there; the sign may be left out where `signed` is not
asked. -/
def matchPower (signed : Bool) : Text → Option Text × Text
  | [] => (none, [])
  | u :: rest =>
    if u = 101 ∧ (signed = true → (scanSign rest).1 ≠ []) ∧ (scanDigits (scanSign rest).2).1 ≠ [] then
      (some ((scanSign rest).1 ++ (scanDigits (scanSign rest).2).1),
        (scanDigits (scanSign rest).2).2)
    else (none, u :: rest)

/-- A sign, digits, an optional fraction and an optional power, and nothing after them. -/
def matchNumber (signed : Bool) (t : Text) : Option NumberMatch :=
  let afterSign := (scanMinus t).2
  let afterInteger := (scanDigits afterSign).2
  let afterFraction := (matchFraction afterInteger).2
  if (scanDigits afterSign).1 = [] then none
  else if (matchPower signed afterFraction).2 = [] then
    some
      { sign := (scanMinus t).1
        integer := (scanDigits afterSign).1
        fraction := (matchFraction afterInteger).1
        power := (matchPower signed afterFraction).1 }
  else none

/-- The integer that digits denote, behind any sign. -/
def signedIntegerOf : Text → ℤ
  | 43 :: rest => naturalOf rest
  | t => integerOf t

/-- The fraction digits, none when the group is absent. -/
def NumberMatch.fractionDigits (m : NumberMatch) : Text := m.fraction.getD []

/-- The digits, as one signed integer. -/
def NumberMatch.coefficient (m : NumberMatch) : ℤ :=
  integerOf (m.sign ++ (m.integer ++ m.fractionDigits))

/-- The power of ten the integer is scaled by. -/
def NumberMatch.exponent (m : NumberMatch) : ℤ :=
  signedIntegerOf (m.power.getD [48]) - m.fractionDigits.length

/-- The decimal the groups denote. -/
def NumberMatch.value (m : NumberMatch) : ℚ := m.coefficient * 10 ^ m.exponent

/-- `Number` of a decimal text: the double nearest to what it denotes, minus zero for a zero behind
a sign. -/
def numberOf (round : ℚ → Number) (t : Text) : Number :=
  match matchNumber false t with
  | none => .nan
  | some m =>
    if m.sign ≠ [] ∧ m.coefficient = 0 then .finite (.zero true) else round m.value

/-- The finite number with the digits of `units` and the decimal point after `point` of them. -/
def finiteOfUnits (negative : Bool) (units : ℕ) (point : ℤ) : FiniteDecimal :=
  let digits := Nat.ofDigits 10 ((Nat.digits 10 units).dropWhile (· = 0))
  if shortest : digits % 10 ≠ 0 then .nonzero negative digits point shortest else .zero negative

/-- A rounding that computes: `count` significant digits, ties away from zero. With 17 it keeps every
decimal of at most 15 digits as a double does. -/
def roundDigits (count : ℕ) (q : ℚ) : Number :=
  if q = 0 then .finite (.zero false)
  else
    let places : ℤ := count - 1 - Int.log 10 |q|
    let units := (DecimalScale.roundHalfAway (|q| * 10 ^ places)).natAbs
    .finite (finiteOfUnits (q < 0) units (digitCount units - places))

/-! ### Digits -/

/-- A non-empty run of digits. -/
structure IsDigits (t : Text) : Prop where
  ne_nil : t ≠ []
  digits : ∀ v ∈ t, isDigit v = true

theorem naturalOf_append (t u : Text) :
    naturalOf (t ++ u) = naturalOf t * 10 ^ u.length + naturalOf u := by
  unfold naturalOf
  rw [List.reverse_append, List.map_append, Nat.ofDigits_append, List.length_map,
    List.length_reverse]
  ring

theorem naturalOf_replicate (k : ℕ) : naturalOf (List.replicate k 48) = 0 := by
  unfold naturalOf
  rw [List.reverse_replicate, List.map_replicate]
  exact Nat.ofDigits_replicate_zero

theorem isDigits_naturalText (n : ℕ) : IsDigits (naturalText n) := by
  rcases naturalText_spec n with h | ⟨u, rest, h, -, hall⟩
  · rw [h]
    exact ⟨by simp, by decide⟩
  · rw [h]
    exact ⟨by simp, hall⟩

theorem isDigits_zero : IsDigits [48] := ⟨by simp, by decide⟩

theorem digitCount_pos (s : ℕ) : 0 < digitCount s :=
  List.length_pos_iff.mpr (isDigits_naturalText s).ne_nil

theorem zeros_digits (n : ℤ) : ∀ v ∈ zeros n, isDigit v = true := by
  intro v hv
  rw [List.eq_of_mem_replicate hv]
  rfl

theorem IsDigits.append {t u : Text} (ht : IsDigits t) (hu : ∀ v ∈ u, isDigit v = true) :
    IsDigits (t ++ u) := by
  refine ⟨by simp [ht.ne_nil], fun v hv => ?_⟩
  rcases List.mem_append.mp hv with h | h
  · exact ht.digits v h
  · exact hu v h

variable {t : Text}

/-- Digits do not start with a sign. -/
theorem IsDigits.head (h : IsDigits t) : ∃ u rest, t = u :: rest ∧ u ≠ 43 ∧ u ≠ 45 := by
  obtain ⟨u, rest, rfl⟩ := List.exists_cons_of_ne_nil h.ne_nil
  have hu := h.digits u List.mem_cons_self
  refine ⟨u, rest, rfl, ?_, ?_⟩ <;>
  · rintro rfl
    exact absurd hu (by decide)

theorem scanDigits_digits_append (h : ∀ v ∈ t, isDigit v = true) (more : Text) :
    scanDigits (t ++ more) = (t ++ (scanDigits more).1, (scanDigits more).2) := by
  induction t with
  | nil => rfl
  | cons u rest ih =>
    rw [List.cons_append, scanDigits, if_pos (h u List.mem_cons_self),
      ih fun v hv => h v (List.mem_cons_of_mem _ hv)]
    rfl

theorem scanMinus_digits (h : IsDigits t) (more : Text) :
    scanMinus (t ++ more) = ([], t ++ more) := by
  obtain ⟨u, rest, rfl, -, hu⟩ := h.head
  rw [List.cons_append, scanMinus, if_neg hu]

theorem integerOf_digits (h : IsDigits t) : integerOf t = naturalOf t := by
  obtain ⟨u, rest, rfl, -, hu⟩ := h.head
  unfold integerOf
  split
  · next heq => exact absurd (List.cons.inj heq).1 hu
  · rfl

theorem signedIntegerOf_digits (h : IsDigits t) : signedIntegerOf t = naturalOf t := by
  rw [← integerOf_digits h]
  obtain ⟨u, rest, rfl, hu, -⟩ := h.head
  unfold signedIntegerOf
  split
  · next heq => exact absurd (List.cons.inj heq).1 hu
  · rfl

theorem signedIntegerOf_powerDigits (e : ℤ) : signedIntegerOf (powerDigits e) = e := by
  unfold powerDigits
  split
  · change -(naturalOf (naturalText e.natAbs) : ℤ) = e
    rw [naturalOf_naturalText]
    omega
  · change (naturalOf (naturalText e.natAbs) : ℤ) = e
    rw [naturalOf_naturalText]
    omega

/-! ### What a written number is read as -/

/-- The text of its groups. -/
def NumberMatch.text (m : NumberMatch) : Text :=
  m.sign ++ (m.integer ++ ((m.fraction.elim [] (46 :: ·)) ++ m.power.elim [] (101 :: ·)))

/-- The groups as a number's text has them. -/
structure NumberMatch.WellFormed (signed : Bool) (m : NumberMatch) : Prop where
  sign : m.sign = [] ∨ m.sign = [45]
  integer : IsDigits m.integer
  fraction : ∀ f ∈ m.fraction, IsDigits f
  power : ∀ p ∈ m.power, ∃ sign digits, p = sign ++ digits ∧ IsDigits digits
    ∧ (sign = [43] ∨ sign = [45] ∨ sign = [] ∧ signed = false)

theorem scanSign_append_digits {sign digits : Text} (hdigits : IsDigits digits)
    (hsign : sign = [43] ∨ sign = [45] ∨ sign = []) :
    scanSign (sign ++ digits) = (sign, digits) := by
  rcases hsign with rfl | rfl | rfl
  · rfl
  · rfl
  · obtain ⟨u, rest, rfl, hplus, hminus⟩ := hdigits.head
    rw [List.nil_append, scanSign, if_neg (by tauto)]

variable {m : NumberMatch} {signed : Bool}

theorem matchPower_text (h : m.WellFormed signed) :
    matchPower signed (m.power.elim [] (101 :: ·)) = (m.power, []) := by
  cases hpower : m.power with
  | none => rfl
  | some p =>
    obtain ⟨sign, digits, rfl, hdigits, hsign⟩ := h.power p hpower
    have hscan : scanSign (sign ++ digits) = (sign, digits) :=
      scanSign_append_digits hdigits (by tauto)
    have hall := scanDigits_of_digits hdigits.digits
    change matchPower signed (101 :: (sign ++ digits)) = _
    rw [matchPower, hscan, hall, if_pos]
    refine ⟨rfl, fun hs => ?_, hdigits.ne_nil⟩
    rcases hsign with rfl | rfl | ⟨-, hnot⟩
    · simp
    · simp
    · rw [hs] at hnot
      cases hnot

/-- What follows the integer starts with no digit, so the digits before it end there. -/
theorem scanDigits_power (power : Option Text) :
    scanDigits (power.elim [] (101 :: ·)) = ([], power.elim [] (101 :: ·)) := by
  cases power <;> rfl

theorem matchFraction_text (h : m.WellFormed signed) :
    matchFraction (m.fraction.elim [] (46 :: ·) ++ m.power.elim [] (101 :: ·))
      = (m.fraction, m.power.elim [] (101 :: ·)) := by
  cases hfraction : m.fraction with
  | none => cases m.power <;> rfl
  | some f =>
    have hf := h.fraction f hfraction
    change matchFraction (46 :: (f ++ m.power.elim [] (101 :: ·))) = _
    rw [matchFraction, scanDigits_digits_append hf.digits, scanDigits_power, List.append_nil,
      if_pos ⟨rfl, hf.ne_nil⟩]

theorem scanDigits_tail (m : NumberMatch) :
    scanDigits (m.fraction.elim [] (46 :: ·) ++ m.power.elim [] (101 :: ·))
      = ([], m.fraction.elim [] (46 :: ·) ++ m.power.elim [] (101 :: ·)) := by
  cases m.fraction with
  | none => exact scanDigits_power m.power
  | some f => rfl

theorem scanMinus_text (h : m.WellFormed signed) (more : Text) :
    scanMinus (m.sign ++ (m.integer ++ more)) = (m.sign, m.integer ++ more) := by
  rcases h.sign with hsign | hsign
  · rw [hsign]
    exact scanMinus_digits h.integer more
  · rw [hsign]
    rfl

/-- **A text made of groups is read as these groups.** -/
theorem matchNumber_text (h : m.WellFormed signed) :
    matchNumber signed m.text = some m := by
  unfold matchNumber NumberMatch.text
  simp only [scanMinus_text h, scanDigits_digits_append h.integer.digits, scanDigits_tail,
    List.append_nil, matchFraction_text h, matchPower_text h]
  rw [if_neg h.integer.ne_nil, if_pos trivial]

/-- Digits behind a sign. -/
theorem coefficient_eq (h : m.WellFormed signed) :
    m.coefficient = (if m.sign = [] then 1 else -1) * naturalOf (m.integer ++ m.fractionDigits) := by
  have hdigits : IsDigits (m.integer ++ m.fractionDigits) := by
    refine h.integer.append ?_
    unfold NumberMatch.fractionDigits
    cases hfraction : m.fraction with
    | none => simp
    | some f => exact (h.fraction f hfraction).digits
  unfold NumberMatch.coefficient
  rcases h.sign with hsign | hsign
  · rw [hsign, List.nil_append, integerOf_digits hdigits, if_pos rfl, one_mul]
  · rw [hsign, if_neg (by simp)]
    change -(naturalOf (m.integer ++ m.fractionDigits) : ℤ) = _
    rw [neg_one_mul]

/-- The groups of a positive number's text: one shape for each case of the writer. -/
def positiveMatch (sign : Text) (s : ℕ) (n : ℤ) : NumberMatch :=
  if digitCount s ≤ n ∧ n ≤ 21 then
    ⟨sign, naturalText s ++ zeros (n - digitCount s), none, none⟩
  else if 0 < n ∧ n ≤ 21 then
    ⟨sign, (naturalText s).take n.toNat, some ((naturalText s).drop n.toNat), none⟩
  else if -6 < n ∧ n ≤ 0 then ⟨sign, [48], some (zeros (-n) ++ naturalText s), none⟩
  else if digitCount s = 1 then ⟨sign, naturalText s, none, some (powerDigits (n - 1))⟩
  else
    ⟨sign, (naturalText s).take 1, some ((naturalText s).drop 1), some (powerDigits (n - 1))⟩

theorem text_positiveMatch (sign : Text) (s : ℕ) (n : ℤ) :
    (positiveMatch sign s n).text = sign ++ positiveText s n := by
  unfold positiveMatch positiveText
  split_ifs <;> simp [NumberMatch.text]

/-- Digits cut in two non-empty halves. -/
theorem IsDigits.cut (h : IsDigits t) {i : ℕ} (hpos : 0 < i) (hlt : i < t.length) :
    IsDigits (t.take i) ∧ IsDigits (t.drop i) := by
  refine ⟨⟨?_, fun v hv => h.digits v (List.mem_of_mem_take hv)⟩,
    ⟨?_, fun v hv => h.digits v (List.mem_of_mem_drop hv)⟩⟩
  · rw [ne_eq, List.take_eq_nil_iff, not_or]
    exact ⟨hpos.ne', h.ne_nil⟩
  · rw [ne_eq, List.drop_eq_nil_iff]
    omega

theorem powerDigits_spec (signed : Bool) (e : ℤ) : ∃ sign digits, powerDigits e = sign ++ digits
    ∧ IsDigits digits ∧ (sign = [43] ∨ sign = [45] ∨ sign = [] ∧ signed = false) := by
  refine ⟨[if e < 0 then 45 else 43], naturalText e.natAbs, rfl, isDigits_naturalText _, ?_⟩
  split
  · exact .inr (.inl rfl)
  · exact .inl rfl

theorem wellFormed_positiveMatch {sign : Text} (hsign : sign = [] ∨ sign = [45]) (s : ℕ) (n : ℤ) :
    (positiveMatch sign s n).WellFormed true := by
  have hdigits := isDigits_naturalText s
  have hcount := digitCount_pos s
  have hpower : ∀ p ∈ some (powerDigits (n - 1)), ∃ sign digits, p = sign ++ digits
      ∧ IsDigits digits ∧ (sign = [43] ∨ sign = [45] ∨ sign = [] ∧ true = false) := by
    rintro p ⟨rfl⟩
    exact powerDigits_spec true (n - 1)
  unfold positiveMatch
  split_ifs with hplain hpoint hsmall hone
  · exact ⟨hsign, hdigits.append (zeros_digits _), by simp, by simp⟩
  · have hcut := hdigits.cut (i := n.toNat) (by omega) (by unfold digitCount at *; omega)
    exact ⟨hsign, hcut.1, by rintro f ⟨rfl⟩; exact hcut.2, by simp⟩
  · refine ⟨hsign, isDigits_zero, ?_, by simp⟩
    rintro f ⟨rfl⟩
    refine ⟨by simp [hdigits.ne_nil], fun v hv => ?_⟩
    rcases List.mem_append.mp hv with h | h
    · exact zeros_digits _ v h
    · exact hdigits.digits v h
  · exact ⟨hsign, hdigits, by simp, hpower⟩
  · have hcut := hdigits.cut (i := 1) (by omega) (by unfold digitCount at *; omega)
    exact ⟨hsign, hcut.1, by rintro f ⟨rfl⟩; exact hcut.2, hpower⟩

/-- The groups denote the digits at their point. -/
theorem digits_positiveMatch (sign : Text) (s : ℕ) (n : ℤ) :
    (naturalOf ((positiveMatch sign s n).integer ++ (positiveMatch sign s n).fractionDigits) : ℚ)
        * 10 ^ (positiveMatch sign s n).exponent
      = s * 10 ^ (n - digitCount s) := by
  have hzero : signedIntegerOf [48] = 0 := by decide
  have hcut : ∀ i, naturalOf ((naturalText s).take i ++ (naturalText s).drop i) = s := by
    intro i
    rw [List.take_append_drop, naturalOf_naturalText]
  have hpoint : ∀ i, ((naturalText s).drop i).length = digitCount s - i := fun i => List.length_drop
  unfold positiveMatch
  split_ifs with hplain hbefore hsmall hone <;>
    simp only [NumberMatch.fractionDigits, NumberMatch.exponent, Option.getD_some, Option.getD_none,
      List.append_nil, List.length_nil, hzero, signedIntegerOf_powerDigits, hcut, hpoint]
  · -- the zeros behind the digits are the power
    have hlen : ((n - digitCount s).toNat : ℤ) = n - digitCount s := by omega
    rw [naturalOf_append, naturalOf_naturalText]
    unfold zeros
    rw [naturalOf_replicate, List.length_replicate, ← hlen]
    push_cast
    rw [zpow_natCast]
    simp
  · have hlen : (0 : ℤ) - ((digitCount s - n.toNat : ℕ) : ℤ) = n - digitCount s := by omega
    rw [hlen]
  · have hlen : (0 : ℤ) - ((zeros (-n) ++ naturalText s).length : ℤ) = n - digitCount s := by
      rw [List.length_append]
      unfold zeros digitCount
      rw [List.length_replicate]
      push_cast
      omega
    have hvalue : naturalOf ([48] ++ (zeros (-n) ++ naturalText s)) = s := by
      have hfront : naturalOf [48] = 0 := by decide
      unfold zeros
      rw [naturalOf_append, naturalOf_append, naturalOf_replicate, naturalOf_naturalText, hfront,
        zero_mul, zero_mul, zero_add, zero_add]
    rw [hlen, hvalue]
  · have hlen : n - 1 - ((0 : ℕ) : ℤ) = n - digitCount s := by omega
    rw [hlen, naturalOf_naturalText]
  · have hcount := digitCount_pos s
    have hlen : n - 1 - ((digitCount s - 1 : ℕ) : ℤ) = n - digitCount s := by omega
    rw [hlen]

/-- The groups of a finite number's text. -/
def finiteMatch : FiniteDecimal → NumberMatch
  | .zero _ => ⟨[], [48], none, none⟩
  | .nonzero negative digits point _ =>
    positiveMatch (if negative then [45] else []) digits point

theorem wellFormed_finiteMatch (d : FiniteDecimal) : (finiteMatch d).WellFormed true := by
  cases d with
  | zero negative => exact ⟨.inl rfl, isDigits_zero, nofun, nofun⟩
  | nonzero negative digits point shortest =>
    refine wellFormed_positiveMatch ?_ digits point
    cases negative
    · exact .inl rfl
    · exact .inr rfl

/-- **Every finite number is written as a number's text.** -/
theorem matchNumber_numberText (d : FiniteDecimal) :
    matchNumber true (numberText (.finite d)) = some (finiteMatch d) := by
  have htext : (finiteMatch d).text = numberText (.finite d) := by
    cases d with
    | zero negative => rfl
    | nonzero negative digits point shortest => exact text_positiveMatch _ digits point
  rw [← htext]
  exact matchNumber_text (wellFormed_finiteMatch d)

theorem sign_positiveMatch (sign : Text) (s : ℕ) (n : ℤ) : (positiveMatch sign s n).sign = sign := by
  unfold positiveMatch
  split_ifs <;> rfl

/-- **What is read is the number written.** -/
theorem value_finiteMatch (d : FiniteDecimal) : (finiteMatch d).value = d.value := by
  cases d with
  | zero negative =>
    have hzero : (finiteMatch (.zero negative)).coefficient = 0 := by
      change integerOf [48] = 0
      decide
    rw [NumberMatch.value, hzero, Int.cast_zero, zero_mul]
    rfl
  | nonzero negative digits point shortest =>
    have hcoefficient := coefficient_eq (wellFormed_finiteMatch (.nonzero negative digits point shortest))
    have hsign : (finiteMatch (.nonzero negative digits point shortest)).sign
        = if negative then [45] else [] := sign_positiveMatch _ digits point
    have hdigits := digits_positiveMatch (if negative then [45] else []) digits point
    rw [NumberMatch.value, hcoefficient, hsign, FiniteDecimal.value, ← hdigits]
    unfold finiteMatch
    cases negative <;> simp

/-! ### Reading an integer times a power of ten -/

/-- The groups of `<total>e<exponent>`. -/
def scaledMatch (total exponent : ℤ) : NumberMatch :=
  ⟨if total < 0 then [45] else [], naturalText total.natAbs, none, some (integerText exponent)⟩

theorem wellFormed_scaledMatch (total exponent : ℤ) : (scaledMatch total exponent).WellFormed false := by
  refine ⟨?_, isDigits_naturalText _, nofun, ?_⟩
  · unfold scaledMatch
    dsimp only
    split
    · exact .inr rfl
    · exact .inl rfl
  · rintro p ⟨rfl⟩
    unfold integerText
    split
    · exact ⟨[45], _, rfl, isDigits_naturalText _, .inr (.inl rfl)⟩
    · exact ⟨[], _, rfl, isDigits_naturalText _, .inr (.inr ⟨rfl, rfl⟩)⟩

theorem coefficient_scaledMatch (total exponent : ℤ) : (scaledMatch total exponent).coefficient = total := by
  rw [coefficient_eq (wellFormed_scaledMatch total exponent)]
  unfold scaledMatch NumberMatch.fractionDigits
  dsimp only
  rw [Option.getD_none, List.append_nil, naturalOf_naturalText]
  split_ifs with hneg hnil hnil
  · cases hnil
  · omega
  · omega
  · exact absurd rfl hnil

theorem signedIntegerOf_integerText (e : ℤ) : signedIntegerOf (integerText e) = e := by
  unfold integerText
  split
  · change -(naturalOf (naturalText e.natAbs) : ℤ) = e
    rw [naturalOf_naturalText]
    omega
  · rw [signedIntegerOf_digits (isDigits_naturalText _), naturalOf_naturalText]
    omega

/-- **`Number` of an integer in exponent notation rounds its value once.** -/
theorem numberOf_scaled (round : ℚ → Number) (total exponent : ℤ) :
    numberOf round (integerText total ++ 101 :: integerText exponent)
      = round (total * 10 ^ exponent) := by
  have htext : (scaledMatch total exponent).text
      = integerText total ++ 101 :: integerText exponent := by
    unfold NumberMatch.text scaledMatch integerText
    split_ifs <;> simp
  have hexponent : (scaledMatch total exponent).exponent = exponent := by
    change signedIntegerOf (integerText exponent) - ((0 : ℕ) : ℤ) = exponent
    rw [signedIntegerOf_integerText, Int.natCast_zero, sub_zero]
  unfold numberOf
  rw [← htext, matchNumber_text (wellFormed_scaledMatch total exponent)]
  dsimp only
  -- zero is written without a sign
  have hplus : ¬((scaledMatch total exponent).sign ≠ [] ∧ total = 0) := by
    rintro ⟨hsign, rfl⟩
    exact hsign rfl
  rw [coefficient_scaledMatch, if_neg hplus, NumberMatch.value, coefficient_scaledMatch, hexponent]

end NumberText
