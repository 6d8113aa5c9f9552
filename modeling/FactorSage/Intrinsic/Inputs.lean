import FactorSage.Intrinsic.Formulas
import FactorSage.Statements.LineItems

/-!
# Inputs of the intrinsic-value models

Each model's inputs, assembled from the statements available on a valuation date: its window of
quarters, its latest states and the growth of two annual endpoints. A model is ready in the one
currency of the statements it used, and dated by the latest of them; otherwise it is not applicable,
for a reason of assembly and never a financial one.

The sums here are of doubles, in the order of the quarters.
-/

namespace FactorSage.Intrinsic

open JsNumber Statements

variable {F H : Type}

inductive IntrinsicValueAssemblyReason where
  | missingTtmWindow | missingLatestState | missingRequiredField | invalidDilutedShares
  | currencyMismatch
  deriving DecidableEq

/-- An assembled input, dated by the statements it used. -/
structure ReadyInput (T : Type) where
  input : T
  /-- Midnight of the latest availability date of the statements used. -/
  sourceDataAsOf : Instant
  currency : String

/-- What could be assembled, or why it could not. -/
abbrev Assembly := Except IntrinsicValueAssemblyReason

structure IntrinsicValueInputs (F : Type) where
  dcfFcff : Assembly (ReadyInput (DcfFcffInput F))
  residualIncome : Assembly (ReadyInput (ResidualIncomeInput F))
  ddm : Assembly (ReadyInput (DdmInput F))
  graham : Assembly (ReadyInput (GrahamInput F))

structure IntrinsicValueEvaluationRequest (F H : Type) where
  securityId : String
  /-- The only point-in-time cutoff. -/
  valuationDate : CalendarDay
  statements : List (Revision F H)

def GROWTH_CAGR_YEARS : ℤ := 5

def trailingWindow (anchorRank : ℤ) : List ℤ := consecutiveFiscalQuarterRanks anchorRank TTM_QUARTERS

/-- Annual income rows by fiscal year. -/
def indexAnnualIncome [LinearOrder H] (statements : List (Revision F H)) :
    OrderedMap ℤ (Revision F H) :=
  OrderedMap.addBest Valuation.fiscalPeriodRank (fun statement => (statement.fiscalYear : ℤ)) id
    .empty (statements.filter fun statement =>
      statement.statementType = .income && decide (statement.period = .fy))

/-! ### Provenance -/

/-- Midnight of a date. -/
def availabilityInstant (availableFromDate : CalendarDay) : Instant := availableFromDate * 86400000

/-- The latest availability over the statements used; there is always one. -/
def maxAvailabilityInstant (first : Revision F H) (rest : List (Revision F H)) : Instant :=
  availabilityInstant (rest.foldl (fun latest statement => max latest statement.availableFromDate)
    first.availableFromDate)

/-- The one currency of some statements. -/
def commonCurrency (first : Revision F H) (rest : List (Revision F H)) : Option String :=
  if first.reportedCurrency = "" then none
  else if rest.all fun statement => statement.reportedCurrency = first.reportedCurrency then
    some first.reportedCurrency
  else none

/-- An input over the statements used, of which there is always a first. -/
def ready {T : Type} (input : T) (used : List (Revision F H)) : Assembly (ReadyInput T) :=
  match used with
  | [] => .error .currencyMismatch
  | first :: rest =>
    match commonCurrency first rest with
    | none => .error .currencyMismatch
    | some currency =>
      .ok { input, sourceDataAsOf := maxAvailabilityInstant first rest, currency }

/-- A value an assembly cannot do without. -/
def required {A : Type} (value : Option A) (reason : IntrinsicValueAssemblyReason) :
    Assembly A :=
  value.elim (.error reason) .ok

variable [JsNumber F]

/-! ### Growth -/

structure GrowthAssembly (F H : Type) where
  growthUsed : F
  /-- The endpoints consumed; default growth uses none. -/
  statements : List (Revision F H)

/-- The two endpoint values of a line, when both are reported. -/
def endpoints (latest earlier : Revision F H) (field : LineItem) : Option (GrowthEndpoints F) := do
  let latestValue ← numericValue latest field
  let earlierValue ← numericValue earlier field
  return { latest := latestValue, fiveYearsEarlier := earlierValue }

/-- Growth from the latest fiscal year and the one five before it; neither is ever substituted. -/
def assembleGrowth (annualIncome : OrderedMap ℤ (Revision F H)) : GrowthAssembly F H :=
  let latestFiscalYear := latestOf annualIncome.keys
  match latestFiscalYear.bind annualIncome.get?,
      latestFiscalYear.bind fun year => annualIncome.get? (year - GROWTH_CAGR_YEARS) with
  | some latest, some earlier =>
    let estimate := estimateGrowth (endpoints latest earlier .revenue)
      (endpoints latest earlier .netIncome)
    { growthUsed := estimate.growthUsed
      statements := if estimate.source = .default then [] else [latest, earlier] }
  | _, _ => { growthUsed := (estimateGrowth (F := F) none none).growthUsed, statements := [] }

/-! ### The models -/

/-- The sum of a line over a window, added up quarter by quarter. -/
def sumOf (rows : List (Revision F H)) (field : LineItem) :
    Assembly F :=
  rows.foldlM (fun total row => do
    let value ← required (numericValue row field) .missingRequiredField
    return total + value) (ofInt 0)

/-- The cash and debt of a balance sheet; the fallback is between two lines of one row. -/
def latestCash (balanceSheet : Revision F H) : Option F :=
  (numericValue balanceSheet .cashAndShortTermInvestments).or
    (numericValue balanceSheet .cashAndCashEquivalents)

def assembleDcfFcff (cashFlow income balanceSheet : FiscalQuarterIndex (StatementValues F) H)
    (growth : GrowthAssembly F H) : Assembly (ReadyInput (DcfFcffInput F)) := do
  let anchor ← required (latestCommonFiscalQuarterRank [cashFlow, income]) .missingTtmWindow
  let cashFlowRows ←
    required (statementsForFiscalQuarters cashFlow (trailingWindow anchor)) .missingTtmWindow
  let incomeRows ←
    required (statementsForFiscalQuarters income (trailingWindow anchor)) .missingTtmWindow
  let operatingCashFlowTtm ← sumOf cashFlowRows .operatingCashFlow
  let capitalExpenditureTtm ← sumOf cashFlowRows .capitalExpenditure
  let interestExpenseTtm ← sumOf incomeRows .interestExpense
  -- latest states are independent of the flow window and may be newer than it
  let latestBalanceSheet ← required (latestFiscalQuarterStatement balanceSheet) .missingLatestState
  let latestIncome ← required (latestFiscalQuarterStatement income) .missingLatestState
  let cash ← required (latestCash latestBalanceSheet) .missingRequiredField
  let debt ← required (numericValue latestBalanceSheet .totalDebt) .missingRequiredField
  let shares ← required (numericValue latestIncome .weightedAverageShsOutDil) .missingRequiredField
  ready
    { operatingCashFlowTtm, capitalExpenditureTtm, interestExpenseTtm
      growthUsed := growth.growthUsed, cash, debt, shares }
    (cashFlowRows ++ incomeRows ++ [latestBalanceSheet, latestIncome] ++ growth.statements)

def assembleResidualIncome (income balanceSheet : FiscalQuarterIndex (StatementValues F) H)
    (growth : GrowthAssembly F H) : Assembly (ReadyInput (ResidualIncomeInput F)) := do
  let anchor ← required (latestFiscalQuarterRank income) .missingTtmWindow
  let incomeRows ←
    required (statementsForFiscalQuarters income (trailingWindow anchor)) .missingTtmWindow
  let netIncomeTtm ← sumOf incomeRows .netIncome
  let latestBalanceSheet ← required (latestFiscalQuarterStatement balanceSheet) .missingLatestState
  let latestIncome ← required (income.get? anchor) .missingLatestState
  let bookValue ←
    required (numericValue latestBalanceSheet .totalStockholdersEquity) .missingRequiredField
  let shares ← required (numericValue latestIncome .weightedAverageShsOutDil) .missingRequiredField
  ready { netIncomeTtm, bookValue, shares, growthUsed := growth.growthUsed }
    (incomeRows ++ [latestBalanceSheet, latestIncome] ++ growth.statements)

/-- One quarter's dividend per share: common dividends over its own share count. -/
def dividendPerShare (cashFlowRow incomeRow : Revision F H) :
    Assembly F := do
  let commonDividendsPaid ←
    required (numericValue cashFlowRow .commonDividendsPaid) .missingRequiredField
  let shares ← required (numericValue incomeRow .weightedAverageShsOutDil) .missingRequiredField
  if notPositive shares then .error .invalidDilutedShares
  else return JsNumber.abs commonDividendsPaid / shares

def assembleDdm (cashFlow income : FiscalQuarterIndex (StatementValues F) H) :
    Assembly (ReadyInput (DdmInput F)) := do
  let anchor ← required (latestCommonFiscalQuarterRank [cashFlow, income]) .missingTtmWindow
  let cashFlowRows ←
    required (statementsForFiscalQuarters cashFlow (trailingWindow anchor)) .missingTtmWindow
  let incomeRows ←
    required (statementsForFiscalQuarters income (trailingWindow anchor)) .missingTtmWindow
  let dpsTtm ← (cashFlowRows.zip incomeRows).foldlM (fun total rows => do
    let quarter ← dividendPerShare rows.1 rows.2
    return total + quarter) (ofInt 0)
  ready { dpsTtm } (cashFlowRows ++ incomeRows)

def assembleGraham (income : FiscalQuarterIndex (StatementValues F) H) (growth : GrowthAssembly F H) :
    Assembly (ReadyInput (GrahamInput F)) := do
  let anchor ← required (latestFiscalQuarterRank income) .missingTtmWindow
  let incomeRows ←
    required (statementsForFiscalQuarters income (trailingWindow anchor)) .missingTtmWindow
  let epsTtm ← sumOf incomeRows .epsDiluted
  ready { epsTtm, growthUsed := growth.growthUsed } (incomeRows ++ growth.statements)

variable [LinearOrder H]

/-- The inputs of all four models, from some eligible statements. -/
def inputsOf (eligible : List (Revision F H)) : IntrinsicValueInputs F :=
  let quarterlyIncome := indexFiscalQuarters eligible .income
  let quarterlyCashFlow := indexFiscalQuarters eligible .cashFlow
  let quarterlyBalanceSheet := indexFiscalQuarters eligible .balanceSheet
  let growth := assembleGrowth (indexAnnualIncome eligible)
  { dcfFcff := assembleDcfFcff quarterlyCashFlow quarterlyIncome quarterlyBalanceSheet growth
    residualIncome := assembleResidualIncome quarterlyIncome quarterlyBalanceSheet growth
    ddm := assembleDdm quarterlyCashFlow quarterlyIncome
    graham := assembleGraham quarterlyIncome growth }

/-- The statements visible on a valuation date. -/
def eligibleStatements (statements : List (Revision F H)) (securityId : String)
    (valuationDate : CalendarDay) : List (Revision F H) :=
  selectFinancialStatements (statements.filter fun statement => statement.securityId = securityId)
    (.on valuationDate)

def assembleIntrinsicValueInputs (request : IntrinsicValueEvaluationRequest F H) :
    IntrinsicValueInputs F :=
  inputsOf (eligibleStatements request.statements request.securityId request.valuationDate)

end FactorSage.Intrinsic
