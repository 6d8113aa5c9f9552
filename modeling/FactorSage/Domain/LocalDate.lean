import Mathlib.Order.Lattice
import Mathlib.Order.Defs.LinearOrder
import Mathlib.Order.Basic
import Mathlib.Tactic.Linarith

/-!
# Calendar dates

`LocalDate` is the `YYYY-MM-DD` string of the source with a valid calendar date in it. Two such
strings compare as their year, month and day do, and `slice(0, 4)` and `slice(0, 7)` read the year
and the month off it.
-/

namespace FactorSage

def isLeapYear (year : ℕ) : Bool := year % 4 = 0 && (year % 100 ≠ 0 || year % 400 = 0)

/-- The number of days of a month, `1` for January. -/
def daysInMonth (year month : ℕ) : ℕ :=
  match month with
  | 2 => if isLeapYear year then 29 else 28
  | 4 | 6 | 9 | 11 => 30
  | _ => 31

/-- A valid calendar date with a four-digit year. -/
structure LocalDate where
  year : ℕ
  month : ℕ
  day : ℕ
  year_le : year ≤ 9999
  month_mem : 1 ≤ month ∧ month ≤ 12
  day_mem : 1 ≤ day ∧ day ≤ daysInMonth year month

theorem daysInMonth_le (year month : ℕ) : daysInMonth year month ≤ 31 := by
  unfold daysInMonth
  split <;> (try split) <;> omega

theorem one_le_daysInMonth (year month : ℕ) : 1 ≤ daysInMonth year month := by
  unfold daysInMonth
  split <;> (try split) <;> omega

namespace LocalDate

/-- The digits of `YYYYMMDD`, read as one number. -/
def toKey (d : LocalDate) : ℕ := d.year * 10000 + d.month * 100 + d.day

theorem day_le (d : LocalDate) : d.day ≤ 31 := d.day_mem.2.trans (daysInMonth_le _ _)

theorem toKey_injective : Function.Injective toKey := by
  intro a b h
  have ha := a.day_le
  have hb := b.day_le
  have hma := a.month_mem
  have hmb := b.month_mem
  obtain ⟨ya, ma, da⟩ := a
  obtain ⟨yb, mb, db⟩ := b
  simp only [toKey] at *
  obtain ⟨rfl, rfl, rfl⟩ : ya = yb ∧ ma = mb ∧ da = db := by omega
  rfl

/-- Dates are ordered as their strings are. -/
instance : LinearOrder LocalDate := LinearOrder.lift' toKey toKey_injective

variable {a b : LocalDate}

theorem le_iff_toKey : a ≤ b ↔ a.toKey ≤ b.toKey := Iff.rfl

theorem lt_iff_toKey : a < b ↔ a.toKey < b.toKey := Iff.rfl

/-- `slice(0, 7)`: the year and the month. -/
def yearMonth (d : LocalDate) : ℕ × ℕ := (d.year, d.month)

/-- `${year}-01-01` of the date's own year. -/
def yearStart (d : LocalDate) : LocalDate where
  year := d.year
  month := 1
  day := 1
  year_le := d.year_le
  month_mem := by omega
  day_mem := by simp [daysInMonth]

/-- `${year}-12-31` of the date's own year. -/
def yearEnd (d : LocalDate) : LocalDate where
  year := d.year
  month := 12
  day := 31
  year_le := d.year_le
  month_mem := by omega
  day_mem := by simp [daysInMonth]

theorem year_le_of_le (h : a ≤ b) : a.year ≤ b.year := by
  have ha := a.day_le
  have hb := b.day_le
  have hma := a.month_mem
  have hmb := b.month_mem
  rw [le_iff_toKey] at h
  simp only [toKey] at h
  omega

/-- A date is on or after the first day of a year exactly when its own year is. -/
theorem yearStart_le_iff : a.yearStart ≤ b ↔ a.year ≤ b.year := by
  have hb := b.day_mem.1
  have hmb := b.month_mem
  refine ⟨fun h => (year_le_of_le h : a.yearStart.year ≤ b.year), fun h => ?_⟩
  rw [le_iff_toKey]
  simp only [toKey, yearStart]
  omega

/-- A date is on or before the last day of a year exactly when its own year is. -/
theorem le_yearEnd_iff : a ≤ b.yearEnd ↔ a.year ≤ b.year := by
  have ha := a.day_le
  have hma := a.month_mem
  refine ⟨fun h => (year_le_of_le h : a.year ≤ b.yearEnd.year), fun h => ?_⟩
  rw [le_iff_toKey]
  simp only [toKey, yearEnd]
  omega

/-- The days from `0000-01-01` to the first of January of a year. -/
def daysBeforeYear (year : ℕ) : ℕ :=
  365 * year + (year + 3) / 4 - (year + 99) / 100 + (year + 399) / 400

/-- The days from `0000-01-01` to the date. `Date.parse` differences are this, in milliseconds. -/
def dayNumber (d : LocalDate) : ℕ :=
  daysBeforeYear d.year + ((List.range (d.month - 1)).map fun m => daysInMonth d.year (m + 1)).sum
    + (d.day - 1)

/-- The date with these digits, checked where it is written. -/
def ofYmd (year month day : ℕ)
    (h : year ≤ 9999 ∧ (1 ≤ month ∧ month ≤ 12) ∧ 1 ≤ day ∧ day ≤ daysInMonth year month :=
      by decide) : LocalDate :=
  ⟨year, month, day, h.1, h.2.1, h.2.2⟩

/-- A number with leading zeros. -/
def padded (width n : ℕ) : String :=
  let digits := toString n
  "".pushn '0' (width - digits.length) ++ digits

instance : ToString LocalDate where
  toString d := padded 4 d.year ++ "-" ++ padded 2 d.month ++ "-" ++ padded 2 d.day

example : toString (ofYmd 2020 3 1) = "2020-03-01" := by decide

end LocalDate

/-- The larger of two dates. -/
def maxDate (left right : LocalDate) : LocalDate := if left ≥ right then left else right

/-- The smaller of two dates. -/
def minDate (left right : LocalDate) : LocalDate := if left ≤ right then left else right

theorem maxDate_le_iff {a b c : LocalDate} : maxDate a b ≤ c ↔ a ≤ c ∧ b ≤ c := by
  unfold maxDate
  split
  · next h => exact ⟨fun hc => ⟨hc, h.trans hc⟩, fun hc => hc.1⟩
  · next h => exact ⟨fun hc => ⟨(not_le.mp h).le.trans hc, hc⟩, fun hc => hc.2⟩

theorem le_minDate_iff {a b c : LocalDate} : c ≤ minDate a b ↔ c ≤ a ∧ c ≤ b := by
  unfold minDate
  split
  · next h => exact ⟨fun hc => ⟨hc, hc.trans h⟩, fun hc => hc.1⟩
  · next h => exact ⟨fun hc => ⟨hc.trans (not_le.mp h).le, hc⟩, fun hc => hc.2⟩

end FactorSage
