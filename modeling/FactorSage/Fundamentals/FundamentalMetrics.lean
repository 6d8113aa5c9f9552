import FactorSage.Contracts.Strategies
import FactorSage.Library.NumericLiteral
import FactorSage.Statements.LineItems

/-!
# Fundamental Metrics

The fifteen metrics, as a snapshot of one trading day: the windows are assembled once from the
statements available on the day, each metric reads the windows it needs, and a result is kept when its
sources share one currency and a column can hold it. An omitted metric is an unavailable one.

`-0` is stored as zero.
-/

namespace FactorSage.Fundamentals

open JsonText NumericLiteral Statements

variable {F H : Type}

/-- The metrics effective on one trading day. -/
abbrev FundamentalMetricSnapshot (F : Type) := OrderedMap FundamentalMetricId F

structure FundamentalMetricEvaluationRequest (F H : Type) where
  securityId : String
  /-- The only point-in-time cutoff. -/
  date : CalendarDay
  statements : List (Revision F H)

/-! ### Windows -/

structure IncomeAndCashFlow (F H : Type) where
  income : List (Revision F H)
  cashFlow : List (Revision F H)

/-- The quarterly windows the formulas read. -/
structure FundamentalStatementWindows (F H : Type) where
  incomeTtm : Option (FiscalQuarterWindow (StatementValues F) H)
  incomeYearOverYear : Option (YearOverYearWindows (StatementValues F) H)
  cashFlowYearOverYear : Option (YearOverYearWindows (StatementValues F) H)
  /-- Both families over exactly the same quarters, ending at the newest either holds. -/
  incomeAndCashFlowTtm : Option (IncomeAndCashFlow F H)
  /-- Aligned to `incomeTtm`; a newer balance sheet never replaces the ending state. -/
  alignedBalanceSheets : Option (AlignedStates (StatementValues F) H)
  latestBalanceSheet : Option (Revision F H)

/-- The quarterly statements visible on a date. -/
def eligibleQuarters [LinearOrder H] (statements : List (Revision F H)) (securityId : String)
    (date : CalendarDay) : List (Revision F H) :=
  selectFinancialStatements (statements.filter fun statement => statement.securityId = securityId)
    ⟨none, some .quarterly, none, none, some date⟩

/-- The windows of some eligible statements. -/
def windowsOf [LinearOrder H] (eligible : List (Revision F H)) : FundamentalStatementWindows F H :=
  let income := indexFiscalQuarters eligible .income
  let balanceSheet := indexFiscalQuarters eligible .balanceSheet
  let cashFlow := indexFiscalQuarters eligible .cashFlow
  let incomeTtm := trailingFiscalQuarterWindow income TTM_QUARTERS
  { incomeTtm
    incomeYearOverYear := trailingYearOverYearWindows income
    cashFlowYearOverYear := trailingYearOverYearWindows cashFlow
    incomeAndCashFlowTtm :=
      match alignedTrailingFiscalQuarterWindow [income, cashFlow] TTM_QUARTERS with
      | some (_, [alignedIncome, alignedCashFlow]) => some ⟨alignedIncome, alignedCashFlow⟩
      | _ => none
    alignedBalanceSheets := incomeTtm.bind fun window =>
      alignedOpeningAndEndingStates balanceSheet window.endRank TTM_QUARTERS
    latestBalanceSheet := latestFiscalQuarterStatement balanceSheet }

def assembleFundamentalWindows [LinearOrder H] (request : FundamentalMetricEvaluationRequest F H) :
    FundamentalStatementWindows F H :=
  windowsOf (eligibleQuarters request.statements request.securityId request.date)

/-! ### Formulas -/

/-- A result and the statements behind it. -/
structure MetricReading (F H : Type) where
  value : F
  sources : List (Revision F H)

variable [JsNumber F]

/-- The tax assumption of ROIC. -/
def FUNDAMENTAL_ROIC_TAX_RATE : ℚ := 21 / 100

def isPositive (value : F) : Bool := JsNumber.lt (JsNumber.ofInt 0) value

def reading (value : Option F) (sources : List (Revision F H)) : Option (MetricReading F H) :=
  value.map fun value => { value, sources }

/-- Available only when both trailing sums are positive. -/
def trailingGrowthPercent (current previous : Option F) : Option F := do
  let current ← current
  let previous ← previous
  if isPositive current && isPositive previous then
    return (current / previous - JsNumber.ofInt 1) * JsNumber.ofInt 100
  else none

/-- A ratio of sums, never a mean of quarterly ratios. -/
def revenueMarginPercent (numerator revenue : Option F) : Option F := do
  let numerator ← numerator
  let revenue ← revenue
  if isPositive revenue then return numerator / revenue * JsNumber.ofInt 100 else none

/-- The mean of the two states of one line. -/
def averageState (states : AlignedStates (StatementValues F) H) (field : LineItem) : Option F := do
  let opening ← finiteValue states.opening field
  let ending ← finiteValue states.ending field
  let total ← finiteSum [opening, ending]
  return total / JsNumber.ofInt 2

/-- Cash, or the narrower line of the same row when it is absent. -/
def cashOf (balanceSheet : Revision F H) : Option F :=
  (finiteValue balanceSheet .cashAndShortTermInvestments).or
    (finiteValue balanceSheet .cashAndCashEquivalents)

/-- The terms of invested capital; minority interest is no part of it. -/
def investedCapitalTerms (balanceSheet : Revision F H) : Option (List F) := do
  let cash ← cashOf balanceSheet
  let totalDebt ← finiteValue balanceSheet .totalDebt
  let totalStockholdersEquity ← finiteValue balanceSheet .totalStockholdersEquity
  return [totalDebt, totalStockholdersEquity, JsNumber.neg cash]

section Calculators

variable (windows : FundamentalStatementWindows F H)

/-- A growth over an eight-quarter chain: `revenueGrowthTtmYoy`, `epsGrowthTtmYoy` and
`fcfGrowthTtmYoy` are it at their own chain and sum. -/
def growthOver (chain : Option (YearOverYearWindows (StatementValues F) H))
    (total : List (Revision F H) → Option F) : Option (MetricReading F H) := do
  let chain ← chain
  reading (trailingGrowthPercent (total chain.current) (total chain.previous))
    (chain.previous ++ chain.current)

def revenueGrowthTtmYoy : Option (MetricReading F H) :=
  growthOver windows.incomeYearOverYear fun rows => incomeSum rows .revenue

def epsGrowthTtmYoy : Option (MetricReading F H) :=
  growthOver windows.incomeYearOverYear fun rows => incomeSum rows .epsDiluted

def fcfGrowthTtmYoy : Option (MetricReading F H) :=
  growthOver windows.cashFlowYearOverYear freeCashFlowSum

def incomeMargin (numerator : LineItem) : Option (MetricReading F H) := do
  let window ← windows.incomeTtm
  reading (revenueMarginPercent (incomeSum window.statements numerator)
    (incomeSum window.statements .revenue)) window.statements

def fcfMarginTtm : Option (MetricReading F H) := do
  let aligned ← windows.incomeAndCashFlowTtm
  reading (revenueMarginPercent (freeCashFlowSum aligned.cashFlow)
    (incomeSum aligned.income .revenue)) (aligned.income ++ aligned.cashFlow)

def roicTtm : Option (MetricReading F H) := do
  let window ← windows.incomeTtm
  let states ← windows.alignedBalanceSheets
  let operatingIncomeTtm ← incomeSum window.statements .operatingIncome
  let openingTerms ← investedCapitalTerms states.opening
  let endingTerms ← investedCapitalTerms states.ending
  let nopatTtm :=
    operatingIncomeTtm * (JsNumber.ofInt 1 - JsNumber.ofDecimal FUNDAMENTAL_ROIC_TAX_RATE)
  -- both states summed exactly at once
  let investedCapitalTotal ← finiteSum (openingTerms ++ endingTerms)
  let averageInvestedCapital := investedCapitalTotal / JsNumber.ofInt 2
  if isPositive averageInvestedCapital then
    reading (some (nopatTtm / averageInvestedCapital * JsNumber.ofInt 100))
      (window.statements ++ [states.opening, states.ending])
  else none

def returnOnAverageState (stateField : LineItem) : Option (MetricReading F H) := do
  let window ← windows.incomeTtm
  let states ← windows.alignedBalanceSheets
  let netIncomeTtm ← incomeSum window.statements .netIncome
  let average ← averageState states stateField
  if isPositive average then
    reading (some (netIncomeTtm / average * JsNumber.ofInt 100))
      (window.statements ++ [states.opening, states.ending])
  else none

/-- A ratio of two lines of the latest balance sheet. -/
def latestStateRatio (numerator denominator : LineItem) : Option (MetricReading F H) := do
  let balanceSheet ← windows.latestBalanceSheet
  let numerator ← finiteValue balanceSheet numerator
  let denominator ← finiteValue balanceSheet denominator
  if isPositive denominator then reading (some (numerator / denominator)) [balanceSheet] else none

def debtToEquity : Option (MetricReading F H) :=
  latestStateRatio windows .totalDebt .totalStockholdersEquity

def currentRatio : Option (MetricReading F H) :=
  latestStateRatio windows .totalCurrentAssets .totalCurrentLiabilities

/-- The balance sheet may be newer than the flow window. -/
def netDebtToEbitdaTtm : Option (MetricReading F H) := do
  let window ← windows.incomeTtm
  let balanceSheet ← windows.latestBalanceSheet
  let ebitdaTtm ← incomeSum window.statements .ebitda
  let netDebt ← finiteValue balanceSheet .netDebt
  if isPositive ebitdaTtm then
    reading (some (netDebt / ebitdaTtm)) (window.statements ++ [balanceSheet])
  else none

def interestCoverageTtm : Option (MetricReading F H) := do
  let window ← windows.incomeTtm
  let ebitTtm ← incomeSum window.statements .ebit
  let interestExpenseTtm ← incomeSum window.statements .interestExpense
  if isPositive interestExpenseTtm then
    reading (some (ebitTtm / interestExpenseTtm)) window.statements
  else none

def assetTurnoverTtm : Option (MetricReading F H) := do
  let window ← windows.incomeTtm
  let states ← windows.alignedBalanceSheets
  let revenueTtm ← incomeSum window.statements .revenue
  let averageAssets ← averageState states .totalAssets
  if isPositive revenueTtm && isPositive averageAssets then
    reading (some (revenueTtm / averageAssets))
      (window.statements ++ [states.opening, states.ending])
  else none

def calculate : FundamentalMetricId → Option (MetricReading F H)
  | .revenueGrowthTtmYoy => revenueGrowthTtmYoy windows
  | .epsGrowthTtmYoy => epsGrowthTtmYoy windows
  | .fcfGrowthTtmYoy => fcfGrowthTtmYoy windows
  | .grossMarginTtm => incomeMargin windows .grossProfit
  | .operatingMarginTtm => incomeMargin windows .operatingIncome
  | .netMarginTtm => incomeMargin windows .netIncome
  | .fcfMarginTtm => fcfMarginTtm windows
  | .roicTtm => roicTtm windows
  | .roeTtm => returnOnAverageState windows .totalStockholdersEquity
  | .roaTtm => returnOnAverageState windows .totalAssets
  | .debtToEquity => debtToEquity windows
  | .currentRatio => currentRatio windows
  | .netDebtToEbitdaTtm => netDebtToEbitdaTtm windows
  | .interestCoverageTtm => interestCoverageTtm windows
  | .assetTurnoverTtm => assetTurnoverTtm windows

end Calculators

/-! ### The snapshot -/

/-- Every source reports the same currency, and one that is not blank. -/
def sharesOneReportedCurrency (statements : List (Revision F H)) : Bool :=
  match statements with
  | [] => false
  | first :: _ => trim (lit first.reportedCurrency) ≠ []
      && statements.all fun statement => statement.reportedCurrency = first.reportedCurrency

/-- The value kept of a reading. -/
def storedValue (result : MetricReading F H) : Option F :=
  if sharesOneReportedCurrency result.sources && isRepresentableCalculatedSeriesValue result.value then
    some (if JsNumber.eq result.value (JsNumber.ofInt 0) then JsNumber.ofInt 0 else result.value)
  else none

def snapshotOf (windows : FundamentalStatementWindows F H) : FundamentalMetricSnapshot F :=
  FUNDAMENTAL_METRICS.foldl (fun snapshot metric =>
    match (calculate windows metric).bind storedValue with
    | some value => snapshot.set metric value
    | none => snapshot) .empty

/-- All fifteen metrics on one trading day. -/
def evaluateFundamentalMetrics [LinearOrder H] (request : FundamentalMetricEvaluationRequest F H) :
    FundamentalMetricSnapshot F :=
  snapshotOf (assembleFundamentalWindows request)

end FactorSage.Fundamentals
