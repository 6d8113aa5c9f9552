import FactorSage.Backtest.Money
import FactorSage.Strategy.Predicates

/-!
# Simulated positions

One open position, the position-dependent half of a Signal, and what a BUY and a SELL do to the
position under the average-cost policy.
-/

namespace FactorSage

open JsNumber

variable {F : Type}

/-- Simulated state of one open position. -/
structure PositionState (F : Type) where
  securityId : String
  symbol : String
  name : String
  /-- The number of positions opened for this security so far. -/
  epoch : ℕ
  openedDate : LocalDate
  shares : MoneyValue
  /-- Basis per share. -/
  averageCostValue : MoneyValue
  /-- Total cost of the shares held. -/
  costTotalValue : MoneyValue
  /-- The BUY levels whose opportunity this lifecycle has consumed, a set. -/
  buyLevelsSettled : List String
  /-- The SELL levels that have fired in this lifecycle, a set. -/
  sellLevelsFired : List String
  previousSignedReturnPercent : Option F
  previousValueDate : Option LocalDate
  lastPrice : F
  lastPriceDate : LocalDate
  realizedPnl : MoneyValue

/-- Total cost of the shares held. -/
def costTotal (position : PositionState F) : MoneyValue := position.costTotalValue

/-- What a SELL reports beside the position it leaves. -/
structure SaleOutcome where
  realizedPnl : MoneyValue
  costRemoved : MoneyValue
  proceeds : MoneyValue

/-- A BUY: cost and shares grow, the basis is averaged again. -/
def applyBuy (position : PositionState F) (shares amount fees : MoneyValue) : PositionState F :=
  let costTotalValue := quantizeMoney (position.costTotalValue + amount + fees)
  let sharesHeld := position.shares + shares
  { position with
    costTotalValue
    shares := sharesHeld
    averageCostValue := quantizePrice (decimalDiv costTotalValue sharesHeld) }

/-- A SELL: a full exit removes exactly the whole cost, a partial one its share of the basis. -/
def applySell (position : PositionState F) (shares price fees : MoneyValue) :
    PositionState F × SaleOutcome :=
  let closesPosition := position.shares ≤ shares
  let costRemoved :=
    if closesPosition then position.costTotalValue
    else quantizeMoney (position.averageCostValue * shares)
  let proceeds := quantizeMoney (price * shares)
  let realizedPnl := quantizeMoney (proceeds - costRemoved - fees)
  ({ position with
      shares := if closesPosition then 0 else position.shares - shares
      costTotalValue :=
        if closesPosition then 0 else quantizeMoney (position.costTotalValue - costRemoved)
      averageCostValue := if closesPosition then 0 else position.averageCostValue
      realizedPnl := quantizeMoney (position.realizedPnl + realizedPnl) },
    { realizedPnl, costRemoved, proceeds })

variable [JsNumber F]

/-- The basis per share as a plain number. -/
def averageCost (position : PositionState F) : F :=
  if 0 < position.shares then toNumber position.averageCostValue else nan

/-- `Gain = (Price - AverageCost) / AverageCost * 100`. -/
def gainPercent (close basis : F) : F :=
  if !(isFinite close) || !(isFinite basis) || le basis (ofInt 0) then nan
  else (close - basis) / basis * ofInt 100

/-- Everything a position-dependent predicate needs on one date. -/
structure PositionEvaluationContext (F : Type) where
  close : F
  position : PositionState F
  /-- The security's own previous trading day, `none` at the start of its frame. -/
  previousDate : Option LocalDate

def currentSignedReturn (context : PositionEvaluationContext F) : F :=
  gainPercent context.close (averageCost context.position)

/-- The value that held on the security's previous trading day, if the position was open then. -/
def previousSignedReturn (context : PositionEvaluationContext F) : F :=
  match context.previousDate, context.position.previousValueDate,
    context.position.previousSignedReturnPercent with
  | some previousDate, some valueDate, some value => if valueDate = previousDate then value else nan
  | _, _, _ => nan

/-- The metric's own reading of a signed return; a loss is clamped at zero. -/
def metricValue (isGain : Bool) (signedReturn : F) : F :=
  if !(isFinite signedReturn) then nan
  else if isGain then signedReturn
  else JsNumber.max (ofInt 0) (neg signedReturn)

/-- A constant's number; a series is no constant. -/
def constantValue : StrategyValue F → Option F
  | .series _ => none
  | .number v | .percent v | .multiple v | .money v => some v

/-- `GAIN` and `LOSS` are the position metrics: `some true` and `some false`. -/
def positionMetricKind : StrategyMetric → Option Bool
  | .gain => some true
  | .loss => some false
  | _ => none

def evaluatePositionCondition (condition : StrategyCondition F)
    (context : PositionEvaluationContext F) : Evaluability :=
  match positionMetricKind condition.metric, constantValue condition.value with
  | some isGain, some value =>
    evaluateConditionValues condition.operator
      (metricValue isGain (currentSignedReturn context)) value
  | _, _ => .notEvaluable

def evaluatePositionTrigger (trigger : StrategyTrigger F)
    (context : PositionEvaluationContext F) : Evaluability :=
  match positionMetricKind trigger.metric, constantValue trigger.value with
  | some isGain, some value =>
    evaluateTriggerValues trigger.operator (metricValue isGain (currentSignedReturn context)) value
      (metricValue isGain (previousSignedReturn context)) value
  | _, _ => .notEvaluable

/-- The position-dependent half of one Signal. -/
def evaluatePositionSignal (signal : StrategySignal F) (context : PositionEvaluationContext F) :
    Evaluability :=
  let conditions := signal.conditions.filter fun c => isPositionDependentMetric c.metric
  let trigger := signal.trigger.filter fun t => isPositionDependentMetric t.metric
  evaluabilityAll
    (conditions.map (fun c => evaluatePositionCondition c context)
      ++ trigger.toList.map fun t => evaluatePositionTrigger t context)

end FactorSage
