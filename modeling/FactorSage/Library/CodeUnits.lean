import Mathlib.Data.List.Lex
import Mathlib.Data.String.Basic

/-!
# Strings ordered by code units

Languages whose strings are sequences of 16-bit code units compare them unit by unit, which is not
the order of code points once a character lies outside the basic plane. `codeUnits` is the UTF-16
encoding and `codeUnits_injective` says that distinct strings have distinct encodings, so comparing
encodings (`codeUnitLt`) is a total order on strings.
-/

namespace CodeUnits

/-- The UTF-16 code units of one character: itself in the basic plane, a surrogate pair beyond. -/
def charUnits (c : Char) : List ℕ :=
  if c.toNat < 0x10000 then [c.toNat]
  else [0xD800 + (c.toNat - 0x10000) / 0x400, 0xDC00 + (c.toNat - 0x10000) % 0x400]

/-- The UTF-16 code units of a string. -/
def codeUnits (s : String) : List ℕ := s.toList.flatMap charUnits

/-- The order of two strings by code units. -/
def codeUnitLt (s t : String) : Bool := codeUnits s < codeUnits t

theorem toNat_lt_or (c : Char) : c.toNat < 0xD800 ∨ 0xDFFF < c.toNat ∧ c.toNat < 0x110000 := by
  have h := c.valid
  unfold UInt32.isValidChar Nat.isValidChar at h
  exact h

/-- A character's units are read back from the front of any continuation. -/
theorem charUnits_append_inj {c d : Char} {u v : List ℕ}
    (h : charUnits c ++ u = charUnits d ++ v) : c = d ∧ u = v := by
  have hc := toNat_lt_or c
  have hd := toNat_lt_or d
  -- a unit in the surrogate range starts a pair, any other unit is a character by itself
  have hnat : c.toNat = d.toNat ∧ u = v := by
    unfold charUnits at h
    split at h <;> split at h <;> simp only [List.cons_append, List.nil_append, List.cons.injEq] at h
    · exact h
    · omega
    · omega
    · exact ⟨by omega, h.2.2⟩
  exact ⟨Char.toNat_inj.mp hnat.1, hnat.2⟩

theorem charUnits_ne_nil (c : Char) : charUnits c ≠ [] := by
  unfold charUnits
  split <;> simp

theorem flatMap_charUnits_injective : Function.Injective (List.flatMap charUnits) := by
  intro l₁
  induction l₁ with
  | nil =>
    intro l₂ h
    cases l₂ with
    | nil => rfl
    | cons d rest =>
      exact absurd h.symm (by simp [charUnits_ne_nil])
  | cons c rest ih =>
    intro l₂ h
    cases l₂ with
    | nil => exact absurd h (by simp [charUnits_ne_nil])
    | cons d rest' =>
      rw [List.flatMap_cons, List.flatMap_cons] at h
      obtain ⟨rfl, hrest⟩ := charUnits_append_inj h
      rw [ih hrest]

/-- Distinct strings have distinct code units. -/
theorem codeUnits_injective : Function.Injective codeUnits := fun _ _ h =>
  String.toList_injective (flatMap_charUnits_injective h)

end CodeUnits
