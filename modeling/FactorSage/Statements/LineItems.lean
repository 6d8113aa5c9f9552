import FactorSage.Library.JsNumber
import FactorSage.Statements.FiscalQuarters

/-!
# Line items

The reported values of a statement, and their sums over a window. A value the provider did not supply
is never a zero, and a window with one has no sum. A sum is of the decimals the provider reported,
rounded once.

The items are those the metrics and the intrinsic models read.
-/

namespace FactorSage.Statements

inductive LineItem where
  -- income statement
  | revenue | grossProfit | interestExpense | ebitda | ebit | operatingIncome | netIncome
  | epsDiluted | weightedAverageShsOutDil
  -- balance sheet
  | cashAndCashEquivalents | cashAndShortTermInvestments | totalCurrentAssets | totalAssets
  | totalCurrentLiabilities | totalStockholdersEquity | totalDebt | netDebt
  -- cash flow
  | commonDividendsPaid | operatingCashFlow | capitalExpenditure
  deriving DecidableEq

variable {F H : Type}

abbrev StatementValues (F : Type) := OrderedMap LineItem F

abbrev Revision (F H : Type) := FinancialStatement (StatementValues F) H

/-- A line item, when the provider supplied it. -/
def numericValue (statement : Revision F H) (field : LineItem) : Option F :=
  statement.values.get? field

variable [JsNumber F]

/-- A line item as a finite number. -/
def finiteValue (statement : Revision F H) (field : LineItem) : Option F :=
  (numericValue statement field).filter JsNumber.isFinite

/-- The exact sum of reported decimals, rounded once: the value, which `Valuation.ExactDecimalSum`
computes digit by digit. -/
def exactDecimalSum (values : List F) : F :=
  JsNumber.ofDecimal (values.map JsNumber.toDecimal).sum

/-- The sum of a window's values, when there is anything to sum and it stays finite. -/
def finiteSum (values : List F) : Option F :=
  if values.isEmpty then none else (some (exactDecimalSum values)).filter JsNumber.isFinite

/-- The sum of one line over a window: `incomeSum` of the metrics, `sum` of the valuation ratios. -/
def incomeSum (rows : List (Revision F H)) (field : LineItem) : Option F :=
  (rows.mapM fun row => finiteValue row field).bind finiteSum

/-- What one quarter adds to free cash flow. Capital expenditure is reported as a signed outflow. -/
def freeCashFlowTerms (row : Revision F H) : Option (List F) := do
  let operatingCashFlow ← finiteValue row .operatingCashFlow
  let capitalExpenditure ← finiteValue row .capitalExpenditure
  return [operatingCashFlow, capitalExpenditure]

/-- Free cash flow over a window; the provider's own is never read. -/
def freeCashFlowSum (rows : List (Revision F H)) : Option F :=
  (rows.mapM freeCashFlowTerms).bind fun terms => finiteSum terms.flatten

/-- `10 ^ 12`: what a calculated-series column cannot hold. -/
def CALCULATED_SERIES_MAGNITUDE_LIMIT : ℚ := 10 ^ 12

/-- Finite, and inside the range of a calculated-series column. -/
def isRepresentableCalculatedSeriesValue (value : F) : Bool :=
  JsNumber.isFinite value
    && JsNumber.lt (JsNumber.abs value) (JsNumber.ofDecimal CALCULATED_SERIES_MAGNITUDE_LIMIT)

end FactorSage.Statements
