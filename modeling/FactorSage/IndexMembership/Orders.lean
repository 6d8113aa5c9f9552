import FactorSage.IndexMembership.Reconstruction
import Mathlib.Data.Prod.Lex

/-!
# The orders of the reconstruction

What each comparator compares: texts by their code units, renames by date and symbols, changes by
date and content hash. Elements that compare alike are alike, so a sort forgets the order it was
given.
-/

namespace FactorSage.IndexMembership

open ComparatorSort CodeUnits

theorem codeUnitLt_iff {left right : String} :
    codeUnitLt left right = true ↔ codeUnits left < codeUnits right := by
  unfold codeUnitLt
  exact decide_eq_true_iff

theorem compares_compareText : Compares compareText codeUnits := by
  intro left right
  unfold compareText
  split
  · next h => exact ⟨fun _ => codeUnitLt_iff.mp h, fun _ => by decide⟩
  · next h =>
    rw [codeUnitLt_iff] at h
    constructor
    · intro hneg
      split at hneg <;> exact absurd hneg (by decide)
    · exact fun hlt => absurd hlt h

theorem compareText_eq_zero_iff {left right : String} :
    compareText left right = 0 ↔ left = right := by
  constructor
  · intro h
    unfold compareText at h
    split at h
    · exact absurd h (by decide)
    · next hleft =>
      split at h
      · exact absurd h (by decide)
      · next hright =>
        rw [codeUnitLt_iff] at hleft hright
        exact codeUnits_injective (le_antisymm (not_lt.mp hright) (not_lt.mp hleft))
  · rintro rfl
    have hself : ¬ codeUnitLt left left = true := fun h => lt_irrefl _ (codeUnitLt_iff.mp h)
    unfold compareText
    rw [if_neg hself, if_neg hself]

/-- What `compareRenames` compares. -/
def renameKey (rename : SymbolChange) : ℤ ×ₗ List ℕ ×ₗ List ℕ :=
  toLex (rename.date, toLex (codeUnits rename.newSymbol, codeUnits rename.oldSymbol))

theorem compares_compareRenames : Compares compareRenames renameKey := by
  intro left right
  rw [renameKey, renameKey, Prod.Lex.toLex_lt_toLex, Prod.Lex.toLex_lt_toLex]
  unfold compareRenames
  rcases lt_trichotomy left.date right.date with hdate | hdate | hdate
  · rw [if_pos hdate]
    exact ⟨fun _ => .inl hdate, fun _ => by decide⟩
  · rw [if_neg hdate.not_lt, if_neg hdate.symm.not_lt]
    by_cases hsymbol : compareText left.newSymbol right.newSymbol = 0
    · rw [if_neg (not_not.mpr hsymbol), compares_compareText]
      have hsame := congrArg codeUnits (compareText_eq_zero_iff.mp hsymbol)
      constructor
      · exact fun hlt => .inr ⟨hdate, .inr ⟨hsame, hlt⟩⟩
      · rintro (hlt | ⟨-, hlt | ⟨-, hlt⟩⟩)
        · exact absurd hlt hdate.not_lt
        · exact absurd hlt hsame.not_lt
        · exact hlt
    · rw [if_pos hsymbol, compares_compareText]
      constructor
      · exact fun hlt => .inr ⟨hdate, .inl hlt⟩
      · rintro (hlt | ⟨-, hlt | ⟨hsame, -⟩⟩)
        · exact absurd hlt hdate.not_lt
        · exact hlt
        · exact absurd (compareText_eq_zero_iff.mpr (codeUnits_injective hsame)) hsymbol
  · rw [if_neg hdate.asymm, if_pos hdate]
    constructor
    · exact fun h => absurd h (by decide)
    · rintro (hlt | ⟨hsame, -⟩)
      · exact absurd hdate hlt.asymm
      · exact absurd hdate hsame.not_gt

/-- What `compareChanges` compares. -/
def changeKey (change : IndexChange) : ℤ ×ₗ List ℕ :=
  toLex (change.effectiveDate, codeUnits change.contentHash)

theorem compares_compareChanges : Compares compareChanges changeKey := by
  intro left right
  rw [changeKey, changeKey, Prod.Lex.toLex_lt_toLex]
  unfold compareChanges
  rcases lt_trichotomy left.effectiveDate right.effectiveDate with hdate | hdate | hdate
  · rw [if_pos hdate]
    exact ⟨fun _ => .inl hdate, fun _ => by decide⟩
  · rw [if_neg hdate.not_lt, if_neg hdate.symm.not_lt, compares_compareText]
    constructor
    · exact fun hlt => .inr ⟨hdate, hlt⟩
    · rintro (hlt | ⟨-, hlt⟩)
      · exact absurd hlt hdate.not_lt
      · exact hlt
  · rw [if_neg hdate.asymm, if_pos hdate]
    constructor
    · exact fun h => absurd h (by decide)
    · rintro (hlt | ⟨hsame, -⟩)
      · exact absurd hdate hlt.asymm
      · exact absurd hdate hsame.not_gt

end FactorSage.IndexMembership
