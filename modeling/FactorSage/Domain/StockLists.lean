import FactorSage.Domain.LocalDate
import FactorSage.Library.ComparatorSort
import Mathlib.Order.WithBot

/-!
# Buy windows

When a list member may be bought. A window restricts entries only; nothing that sells reads it.
-/

namespace FactorSage

/-- One inclusive date range, open-ended when `endDate` is `none`. -/
structure BuyWindowRange where
  startDate : LocalDate
  endDate : Option LocalDate
  deriving DecidableEq

/-- Buy eligibility of one list member. -/
inductive BuyWindowConfiguration where
  | full
  | custom (ranges : List BuyWindowRange)

/-- Whether a new BUY is admitted on a date. -/
def isBuyWindowEligible (configuration : BuyWindowConfiguration) (date : LocalDate) : Bool :=
  match configuration with
  | .full => true
  | .custom ranges =>
    ranges.any fun range =>
      range.startDate ≤ date &&
        match range.endDate with
        | none => true
        | some endDate => date ≤ endDate

/-! ### Normalizing -/

/-- A submitted configuration that violates the product invariants. -/
structure BuyWindowValidationError where
  message : String
  deriving DecidableEq

/-- The day after a date. After the last day of the year 9999 `toISOString` writes the year with a
sign and six digits: `+010000-01`, the text its first ten characters make, is below every date. -/
def nextCalendarDay (value : LocalDate) : WithBot LocalDate :=
  if hday : value.day < daysInMonth value.year value.month then
    ((⟨value.year, value.month, value.day + 1, value.year_le, value.month_mem, by omega⟩ :
      LocalDate) : WithBot LocalDate)
  else if hmonth : value.month < 12 then
    ((⟨value.year, value.month + 1, 1, value.year_le, by omega,
      ⟨le_rfl, one_le_daysInMonth _ _⟩⟩ : LocalDate) : WithBot LocalDate)
  else if hyear : value.year < 9999 then
    ((⟨value.year + 1, 1, 1, hyear, by omega, ⟨le_rfl, one_le_daysInMonth _ _⟩⟩ :
      LocalDate) : WithBot LocalDate)
  else ⊥

/-- A range's dates are valid as they stand; a bounded one must not end before it starts. -/
def assertValidRange (range : BuyWindowRange) : Except BuyWindowValidationError Unit :=
  match range.endDate with
  | none => .ok ()
  | some endDate =>
    if range.startDate > endDate then .error ⟨"A buy window cannot end before it starts"⟩
    else .ok ()

/-- By start, and among equal starts the open-ended, then the longer, first. -/
def compareRanges (left right : BuyWindowRange) : ℤ :=
  if left.startDate ≠ right.startDate then
    if left.startDate < right.startDate then -1 else 1
  else
    match left.endDate, right.endDate with
    | none, none => 0
    | none, some _ => -1
    | some _, none => 1
    | some l, some r => if l > r then -1 else if l < r then 1 else 0

/-- One range of the sweep, against the most recently merged one. -/
def mergeRange (merged : List BuyWindowRange) (range : BuyWindowRange) : List BuyWindowRange :=
  match merged.getLast? with
  | none => [range]
  | some previous =>
    match previous.endDate with
    -- an open-ended range absorbs everything after it
    | none => merged
    | some previousEnd =>
      if (range.startDate : WithBot LocalDate) ≤ nextCalendarDay previousEnd then
        if range.endDate.all fun endDate => decide (endDate > previousEnd) then
          merged.dropLast ++ [{ previous with endDate := range.endDate }]
        else merged
      else merged ++ [range]

/-- The canonical form of a complete set of ranges. -/
def normalizeBuyWindowRanges (ranges : List BuyWindowRange) :
    Except BuyWindowValidationError (List BuyWindowRange) := do
  ranges.forM assertValidRange
  return (ComparatorSort.sortBy compareRanges ranges).foldl mergeRange []

end FactorSage
