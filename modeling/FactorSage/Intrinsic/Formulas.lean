import FactorSage.Library.JsNumber

/-!
# Intrinsic-value formulas

The pure formulas of the four models and of a blend. A value is calculated or the model does not
apply, for a reason; nothing that is not finite is ever a value. The forecast sum is taken period by
period, in the order of the years.
-/

namespace FactorSage.Intrinsic

variable {F : Type}

inductive ValuationNotApplicableReason where
  | nonFiniteInput | nonPositiveShares | nonPositiveFcff | nonPositiveBookValue
  | nonPositiveEquityValue | nonPositiveDividend | nonPositiveEps | nonPositiveMultiplier
  | nonPositiveTerminalSpread | nonPositiveValuePerShare | nonFiniteResult | missingComponent
  deriving DecidableEq

/-- A calculated value, or why there is none. -/
abbrev ValuationResult (A : Type) := Except ValuationNotApplicableReason A

/-! ### Constants -/

def FORECAST_YEARS : ℕ := 10
def TAX_RATE : ℚ := 21 / 100
def DCF_WACC : ℚ := 1 / 10
def COST_OF_EQUITY : ℚ := 1 / 10
def TERMINAL_GROWTH : ℚ := 25 / 1000
def DEFAULT_GROWTH : ℚ := 5 / 100
def MAX_FORECAST_GROWTH : ℚ := 15 / 100
def CAGR_YEARS : ℤ := 5
def GRAHAM_BASE_MULTIPLIER : ℚ := 85 / 10
def GRAHAM_GROWTH_FACTOR : ℤ := 2

variable [JsNumber F]

open JsNumber

/-- `value <= 0`. -/
def notPositive (value : F) : Bool := le value (ofInt 0)

/-- A check that names the reason the model does not apply. -/
def refuseIf (refused : Bool) (reason : ValuationNotApplicableReason) : ValuationResult Unit :=
  if refused then .error reason else .ok ()

/-! ### Discounting -/

def grow (base growth : F) (years : ℕ) : F := base * pow (ofInt 1 + growth) (ofInt years)

def discount (value rate : F) (years : ℕ) : F := value / pow (ofInt 1 + rate) (ofInt years)

/-- The present value of a growing series, for the years from one on. -/
def presentValueOfGrowingSeries (base growth rate : F) (years : ℕ) : F :=
  (List.range years).foldl (fun total year =>
    total + discount (grow base growth (year + 1)) rate (year + 1)) (ofInt 0)

def terminalValue (finalFlow terminalGrowth rate : F) : F :=
  finalFlow * (ofInt 1 + terminalGrowth) / (rate - terminalGrowth)

/-! ### Growth -/

/-- The values of fiscal years `N` and `N - 5`. -/
structure GrowthEndpoints (F : Type) where
  latest : F
  fiveYearsEarlier : F

inductive GrowthSource where
  | revenueCagr | netIncomeCagr | default
  deriving DecidableEq

structure GrowthEstimate (F : Type) where
  rawGrowth : F
  growthUsed : F
  source : GrowthSource

def fiveYearCagr (endpoints : GrowthEndpoints F) : Option F :=
  if !isFinite endpoints.latest || !isFinite endpoints.fiveYearsEarlier then none
  else if notPositive endpoints.latest || notPositive endpoints.fiveYearsEarlier then none
  else
    let cagr := pow (endpoints.latest / endpoints.fiveYearsEarlier) (ofInt 1 / ofInt CAGR_YEARS)
      - ofInt 1
    if isFinite cagr then some cagr else none

/-- The lesser of a rate and the cap; a rate is finite, so the two compare. -/
def capGrowth (rawGrowth : F) : F :=
  if lt (ofDecimal MAX_FORECAST_GROWTH) rawGrowth then ofDecimal MAX_FORECAST_GROWTH else rawGrowth

/-- Revenue first, then net income, then the default. -/
def estimateGrowth (revenue netIncome : Option (GrowthEndpoints F)) : GrowthEstimate F :=
  match revenue.bind fiveYearCagr with
  | some revenueCagr => ⟨revenueCagr, capGrowth revenueCagr, .revenueCagr⟩
  | none =>
    match netIncome.bind fiveYearCagr with
    | some netIncomeCagr => ⟨netIncomeCagr, capGrowth netIncomeCagr, .netIncomeCagr⟩
    | none => ⟨ofDecimal DEFAULT_GROWTH, capGrowth (ofDecimal DEFAULT_GROWTH), .default⟩

/-! ### The models

Each returns the value per share, the one result that leaves its formula. -/

/-- The last checks every model makes. -/
def valuePerShareOf (valuePerShare : F) : ValuationResult F := do
  refuseIf (!isFinite valuePerShare) .nonFiniteResult
  refuseIf (notPositive valuePerShare) .nonPositiveValuePerShare
  return valuePerShare

structure DcfFcffInput (F : Type) where
  operatingCashFlowTtm : F
  /-- Signed negative, as the provider reports it. -/
  capitalExpenditureTtm : F
  interestExpenseTtm : F
  growthUsed : F
  cash : F
  debt : F
  shares : F

def calculateDcfFcff (input : DcfFcffInput F) : ValuationResult F := do
  refuseIf (!([input.operatingCashFlowTtm, input.capitalExpenditureTtm, input.interestExpenseTtm,
    input.growthUsed, input.cash, input.debt, input.shares].all isFinite)) .nonFiniteInput
  refuseIf (notPositive input.shares) .nonPositiveShares
  let wacc : F := ofDecimal DCF_WACC
  let terminalGrowth : F := ofDecimal TERMINAL_GROWTH
  refuseIf (notPositive (wacc - terminalGrowth)) .nonPositiveTerminalSpread
  let fcff0 := input.operatingCashFlowTtm + input.capitalExpenditureTtm
    + input.interestExpenseTtm * (ofInt 1 - ofDecimal TAX_RATE)
  refuseIf (notPositive fcff0) .nonPositiveFcff
  let pvForecast := presentValueOfGrowingSeries fcff0 input.growthUsed wacc FORECAST_YEARS
  let finalForecastFcff := grow fcff0 input.growthUsed FORECAST_YEARS
  let pvTerminal :=
    discount (terminalValue finalForecastFcff terminalGrowth wacc) wacc FORECAST_YEARS
  let enterpriseValue := pvForecast + pvTerminal
  let equityValue := enterpriseValue + input.cash - input.debt
  refuseIf (!isFinite enterpriseValue || !isFinite equityValue) .nonFiniteResult
  refuseIf (notPositive equityValue) .nonPositiveEquityValue
  valuePerShareOf (equityValue / input.shares)

structure ResidualIncomeInput (F : Type) where
  netIncomeTtm : F
  /-- The latest known book value, not an opening one. -/
  bookValue : F
  shares : F
  growthUsed : F

def calculateResidualIncome (input : ResidualIncomeInput F) : ValuationResult F := do
  refuseIf (!([input.netIncomeTtm, input.bookValue, input.shares, input.growthUsed].all isFinite))
    .nonFiniteInput
  refuseIf (notPositive input.bookValue) .nonPositiveBookValue
  refuseIf (notPositive input.shares) .nonPositiveShares
  let costOfEquity : F := ofDecimal COST_OF_EQUITY
  let terminalGrowth : F := ofDecimal TERMINAL_GROWTH
  refuseIf (notPositive (costOfEquity - terminalGrowth)) .nonPositiveTerminalSpread
  let residualIncome0 := input.netIncomeTtm - input.bookValue * costOfEquity
  let pvForecast :=
    presentValueOfGrowingSeries residualIncome0 input.growthUsed costOfEquity FORECAST_YEARS
  let finalForecastResidualIncome := grow residualIncome0 input.growthUsed FORECAST_YEARS
  let pvTerminal := discount
    (terminalValue finalForecastResidualIncome terminalGrowth costOfEquity) costOfEquity
    FORECAST_YEARS
  let equityValue := input.bookValue + pvForecast + pvTerminal
  refuseIf (!isFinite equityValue) .nonFiniteResult
  refuseIf (notPositive equityValue) .nonPositiveEquityValue
  valuePerShareOf (equityValue / input.shares)

structure DdmInput (F : Type) where
  dpsTtm : F

def calculateDdm (input : DdmInput F) : ValuationResult F := do
  refuseIf (!isFinite input.dpsTtm) .nonFiniteInput
  refuseIf (notPositive input.dpsTtm) .nonPositiveDividend
  let spread : F := ofDecimal COST_OF_EQUITY - ofDecimal TERMINAL_GROWTH
  refuseIf (notPositive spread) .nonPositiveTerminalSpread
  let d1 := input.dpsTtm * (ofInt 1 + ofDecimal TERMINAL_GROWTH)
  valuePerShareOf (d1 / spread)

structure GrahamInput (F : Type) where
  epsTtm : F
  growthUsed : F

def calculateGraham (input : GrahamInput F) : ValuationResult F := do
  refuseIf (!([input.epsTtm, input.growthUsed].all isFinite)) .nonFiniteInput
  refuseIf (notPositive input.epsTtm) .nonPositiveEps
  let gPercent := input.growthUsed * ofInt 100
  let multiplier := ofDecimal GRAHAM_BASE_MULTIPLIER + ofInt GRAHAM_GROWTH_FACTOR * gPercent
  refuseIf (notPositive multiplier) .nonPositiveMultiplier
  valuePerShareOf (input.epsTtm * multiplier)

/-! ### Blends -/

inductive IntrinsicValueModel where
  | dcfFcff | residualIncome | ddm | graham
  deriving DecidableEq

inductive IntrinsicValueBlendId where
  | balanced | conservative | dividend
  deriving DecidableEq

/-- A definition a blend may have: some components, of positive weights that sum to one. -/
structure BlendDefinition where
  components : List (IntrinsicValueModel × ℚ)
  nonempty : components ≠ []
  positive : ∀ component ∈ components, 0 < component.2
  sum_weights : (components.map Prod.snd).sum = 1

def INTRINSIC_VALUE_BLENDS : IntrinsicValueBlendId → BlendDefinition
  | .balanced =>
    { components := [(.dcfFcff, 5 / 10), (.residualIncome, 3 / 10), (.graham, 2 / 10)]
      nonempty := List.cons_ne_nil _ _
      positive := by norm_num
      sum_weights := by norm_num }
  | .conservative =>
    { components := [(.dcfFcff, 4 / 10), (.residualIncome, 3 / 10), (.graham, 3 / 10)]
      nonempty := List.cons_ne_nil _ _
      positive := by norm_num
      sum_weights := by norm_num }
  | .dividend =>
    { components := [(.dcfFcff, 4 / 10), (.ddm, 4 / 10), (.residualIncome, 2 / 10)]
      nonempty := List.cons_ne_nil _ _
      positive := by norm_num
      sum_weights := by norm_num }

/-- The weighted sum of the components; weights are never renormalized around a missing one. -/
def calculateBlend (definition : BlendDefinition) (values : IntrinsicValueModel → Option F) :
    ValuationResult F := do
  let valuePerShare ← definition.components.foldlM (fun total component => do
    match values component.1 with
    | none => .error .missingComponent
    | some componentValue =>
      refuseIf (!isFinite componentValue) .nonFiniteInput
      return total + componentValue * ofDecimal component.2) (ofInt 0)
  refuseIf (!isFinite valuePerShare) .nonFiniteResult
  return valuePerShare

end FactorSage.Intrinsic
