import FactorSage.Valuation.Restatement

/-!
# Fiscal quarters

Fiscal-quarter identity, adjacency and exact consecutive windows: what every statement-derived
calculation assembles its quarterly inputs from. A quarter is the provider's `(fiscalYear, period)`,
ranked so that the quarter before is the rank before; an `FY` row is never a quarter. A window ends at
the newest quarter it is anchored on, and a missing quarter makes it unavailable.

The callers pass statements already reduced to one eligible revision of each identity; nothing here
looks at availability to decide eligibility.
-/

namespace FactorSage.Statements

open FactorSage.Valuation (fiscalPeriodRank)

def FISCAL_QUARTER_PERIODS : List FinancialPeriod := [.q1, .q2, .q3, .q4]

/-- Quarters in one trailing-twelve-month flow window. -/
def TTM_QUARTERS : ℕ := 4

def isFiscalQuarterPeriod (period : FinancialPeriod) : Bool := period ≠ .fy

def fiscalQuarterRank (fiscalYear : ℕ) (period : FinancialPeriod) : ℤ :=
  fiscalYear * FISCAL_QUARTER_PERIODS.length + FISCAL_QUARTER_PERIODS.idxOf period

/-- The order a running maximum keeps: the first of the greatest. -/
def latestOf (ranks : List ℤ) : Option ℤ :=
  ranks.foldl (fun latest rank => if latest.all (· < rank) then some rank else latest) none

/-- `count` consecutive ranks ending at `endRank`, oldest first. -/
def consecutiveFiscalQuarterRanks (endRank : ℤ) (count : ℕ) : List ℤ :=
  (List.range count).map fun offset => endRank - ((count : ℤ) - 1 - offset)

variable {V H : Type}

/-- One family's quarterly statements, by rank. -/
abbrev FiscalQuarterIndex (V H : Type) := OrderedMap ℤ (FinancialStatement V H)

/-- Indexes one family's standalone quarterly rows. Of two rows of one quarter, whose period end the
provider moved, the later revision represents it. -/
def indexFiscalQuarters [LinearOrder H] (statements : List (FinancialStatement V H))
    (statementType : FinancialStatementType) : FiscalQuarterIndex V H :=
  OrderedMap.addBest fiscalPeriodRank
    (fun statement => fiscalQuarterRank statement.fiscalYear statement.period) id .empty
    (statements.filter fun statement =>
      statement.statementType = statementType && isFiscalQuarterPeriod statement.period)

def latestFiscalQuarterRank (index : FiscalQuarterIndex V H) : Option ℤ := latestOf index.keys

/-- The latest quarter every one of the families holds. -/
def latestCommonFiscalQuarterRank : List (FiscalQuarterIndex V H) → Option ℤ
  | [] => none
  | first :: rest => latestOf (first.keys.filter fun rank => rest.all fun index => index.contains rank)

/-- The newest quarter any of the families holds. -/
def newestFiscalQuarterRank (indexes : List (FiscalQuarterIndex V H)) : Option ℤ :=
  latestOf (indexes.filterMap latestFiscalQuarterRank)

/-- The family's statements of exactly these quarters; `none` when one is missing. -/
def statementsForFiscalQuarters (index : FiscalQuarterIndex V H) (ranks : List ℤ) :
    Option (List (FinancialStatement V H)) :=
  ranks.mapM index.get?

/-- An exact consecutive window, oldest first, and the rank of its last quarter. -/
structure FiscalQuarterWindow (V H : Type) where
  endRank : ℤ
  statements : List (FinancialStatement V H)

/-- The exact window ending at the family's latest quarter. -/
def trailingFiscalQuarterWindow (index : FiscalQuarterIndex V H) (count : ℕ) :
    Option (FiscalQuarterWindow V H) := do
  let endRank ← latestFiscalQuarterRank index
  let statements ← statementsForFiscalQuarters index (consecutiveFiscalQuarterRanks endRank count)
  return { endRank, statements }

/-- The two four-quarter windows of one eight-quarter chain. -/
structure YearOverYearWindows (V H : Type) where
  previous : List (FinancialStatement V H)
  current : List (FinancialStatement V H)

def trailingYearOverYearWindows (index : FiscalQuarterIndex V H) :
    Option (YearOverYearWindows V H) :=
  (trailingFiscalQuarterWindow index (2 * TTM_QUARTERS)).map fun window =>
    { previous := window.statements.take TTM_QUARTERS
      current := window.statements.drop TTM_QUARTERS }

/-- One window across several families, ending at the newest quarter any of them holds; each family's
rows of exactly the same quarters. -/
def alignedTrailingFiscalQuarterWindow (indexes : List (FiscalQuarterIndex V H)) (count : ℕ) :
    Option (ℤ × List (List (FinancialStatement V H))) := do
  let endRank ← newestFiscalQuarterRank indexes
  let statements ← indexes.mapM fun index =>
    statementsForFiscalQuarters index (consecutiveFiscalQuarterRanks endRank count)
  return (endRank, statements)

/-- The two state rows aligned to a flow window. -/
structure AlignedStates (V H : Type) where
  opening : FinancialStatement V H
  ending : FinancialStatement V H

/-- The quarter just before the window's first, and its last. -/
def alignedOpeningAndEndingStates (stateIndex : FiscalQuarterIndex V H) (endRank : ℤ) (count : ℕ) :
    Option (AlignedStates V H) := do
  let opening ← stateIndex.get? (endRank - count)
  let ending ← stateIndex.get? endRank
  return { opening, ending }

/-- The statement of the family's latest quarter, whatever quarter any window ends on. -/
def latestFiscalQuarterStatement (index : FiscalQuarterIndex V H) :
    Option (FinancialStatement V H) :=
  (latestFiscalQuarterRank index).bind index.get?

end FactorSage.Statements
