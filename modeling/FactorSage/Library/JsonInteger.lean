import FactorSage.Library.JsonText
import Mathlib.Data.Nat.Digits.Lemmas

/-!
# Integers as JSON numbers

The integers with their decimal text are lawful numbers of a JSON text (`lawful`): the smallest
number type the library is used at. Every integer is finite here; those a double holds exactly are
the safe ones.
-/

namespace JsonInteger

open JsonText

/-- The decimal digits of a natural number. -/
def naturalText (n : ℕ) : Text :=
  if n = 0 then [48] else ((Nat.digits 10 n).map (48 + ·)).reverse

/-- What decimal digits denote. -/
def naturalOf (t : Text) : ℕ := Nat.ofDigits 10 (t.reverse.map (· - 48))

/-- The decimal text of an integer. -/
def integerText (n : ℤ) : Text :=
  if n < 0 then 45 :: naturalText n.natAbs else naturalText n.natAbs

/-- The integer a text denotes. -/
def integerOf : Text → ℤ
  | 45 :: rest => -(naturalOf rest : ℤ)
  | t => naturalOf t

instance jsonNumber : JsonNumber ℤ where
  isFinite _ := true
  isInteger _ := true
  safeInteger? n := if n.natAbs ≤ 9007199254740991 then some n else none
  ofInt n := n
  text := integerText
  ofToken := integerOf

theorem naturalOf_naturalText (n : ℕ) : naturalOf (naturalText n) = n := by
  unfold naturalOf naturalText
  split
  · next h => rw [h]; rfl
  · have hdigits : (fun u => u - 48) ∘ (fun d => 48 + d) = id := by
      funext d
      exact Nat.add_sub_cancel_left 48 d
    rw [List.reverse_reverse, List.map_map, hdigits, List.map_id, Nat.ofDigits_digits]

/-- A decimal text is digits that do not start with a zero, or the zero. -/
theorem naturalText_spec (n : ℕ) : naturalText n = [48]
    ∨ ∃ u rest, naturalText n = u :: rest ∧ u ≠ 48 ∧ ∀ v ∈ u :: rest, isDigit v = true := by
  by_cases hzero : n = 0
  · exact .inl (if_pos hzero)
  · right
    have hne : Nat.digits 10 n ≠ [] := Nat.digits_ne_nil_iff_ne_zero.mpr hzero
    have htext : naturalText n = ((Nat.digits 10 n).map (48 + ·)).reverse := if_neg hzero
    have hall : ∀ v ∈ naturalText n, isDigit v = true := by
      intro v hv
      rw [htext, List.mem_reverse] at hv
      obtain ⟨d, hd, rfl⟩ := List.mem_map.mp hv
      have hlt : d < 10 := Nat.digits_lt_base (by decide) hd
      unfold isDigit
      rw [decide_eq_true_eq]
      omega
    obtain ⟨front, last, hlast⟩ : ∃ front last, Nat.digits 10 n = front ++ [last] :=
      ⟨_, _, (List.dropLast_append_getLast hne).symm⟩
    have hlastne : last ≠ 0 := by
      have := Nat.getLast_digit_ne_zero 10 hzero
      rwa [List.getLast_congr hne (by simp) hlast, List.getLast_concat] at this
    have hhead : naturalText n = (48 + last) :: (front.map (48 + ·)).reverse := by
      rw [htext, hlast, List.map_append, List.reverse_append]
      rfl
    exact ⟨_, _, hhead, by omega, hhead ▸ hall⟩

theorem scanDigits_of_digits {t : Text} (h : ∀ v ∈ t, isDigit v = true) :
    scanDigits t = (t, []) := by
  induction t with
  | nil => rfl
  | cons u rest ih =>
    rw [scanDigits, h u List.mem_cons_self, if_pos rfl,
      ih fun v hv => h v (List.mem_cons_of_mem _ hv)]

theorem scanInteger_naturalText (n : ℕ) :
    scanInteger (naturalText n) = some (naturalText n, []) := by
  rcases naturalText_spec n with h | ⟨u, rest, h, hu, hall⟩
  · rw [h]
    rfl
  · rw [h, scanInteger, if_neg hu, hall u List.mem_cons_self, if_pos rfl,
      scanDigits_of_digits fun v hv => hall v (List.mem_cons_of_mem _ hv)]

theorem naturalText_head (n : ℕ) : ∃ u rest, naturalText n = u :: rest ∧ u ≠ 45 := by
  rcases naturalText_spec n with h | ⟨u, rest, h, -, hall⟩
  · exact ⟨48, [], h, by decide⟩
  · refine ⟨u, rest, h, ?_⟩
    rintro rfl
    exact absurd (hall 45 List.mem_cons_self) (by decide)

theorem isNumber_integerText (n : ℤ) : IsNumber (integerText n) := by
  obtain ⟨u, rest, htext, hu⟩ := naturalText_head n.natAbs
  have hinteger := scanInteger_naturalText n.natAbs
  have hscan : ∀ sign : Text, scanMinus (sign ++ naturalText n.natAbs)
      = (sign, naturalText n.natAbs) → IsNumber (sign ++ naturalText n.natAbs) := by
    intro sign hminus
    unfold IsNumber scanNumber
    rw [hminus]
    change (scanInteger (naturalText n.natAbs)).bind _ = _
    rw [hinteger]
    change some (sign ++ (naturalText n.natAbs ++ []), []) = _
    rw [List.append_nil]
  unfold integerText
  split
  · exact hscan [45] rfl
  · refine hscan [] ?_
    rw [List.nil_append, htext, scanMinus, if_neg hu]

theorem integerOf_integerText (n : ℤ) : integerOf (integerText n) = n := by
  unfold integerText
  split
  · rw [integerOf, naturalOf_naturalText]
    omega
  · obtain ⟨u, rest, htext, hu⟩ := naturalText_head n.natAbs
    have hplain : integerOf (naturalText n.natAbs) = naturalOf (naturalText n.natAbs) := by
      rw [htext]
      unfold integerOf
      split
      · next heq => exact absurd (List.cons.inj heq).1 hu
      · rfl
    rw [hplain, naturalOf_naturalText]
    omega

/-- **The integers are lawful numbers.** -/
instance lawful : LawfulJsonNumber ℤ where
  isNumber_text n _ := isNumber_integerText n
  ofToken_text n _ := integerOf_integerText n
  isFinite_of_isInteger _ _ := rfl
  isFinite_ofInt _ _ := rfl
  safeInteger?_ofInt _ h := if_pos h

end JsonInteger
