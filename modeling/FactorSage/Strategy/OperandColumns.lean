import FactorSage.Contracts.SignatureText
import FactorSage.Strategy.Gates

/-!
# Operand columns

Which operands there are, how a key is decoded, and which keys a definition's frames are projected
with. A key is decoded over its code units.

`evaluateDefinition` is the market evaluation of a whole definition with the operands it reads: every
`readOperand` of the evaluator is recorded.
-/

namespace FactorSage

open JsonText JsonInteger
open MetricSignature (after valueOf)

/-! ### Operands -/

/-- `RELATIVE_VOLUME_PERIODS`. -/
def RELATIVE_VOLUME_PERIODS : List ℕ := [10, 20, 50]

/-- A value column of one instrument. -/
inductive StockOperand where
  | price
  | series (seriesId : SelectableSeriesId)
  | relativeVolume (period : ℕ) (supported : period ∈ RELATIVE_VOLUME_PERIODS)
  | fundamental (metricId : FundamentalMetricId)
  | valuation (ratioId : ValuationRatioId)
  | marginOfSafety (sourceId : SelectableSeriesId)
  | insiderActivity (metric : InsiderActivityMetric)
  | congressActivity (metric : CongressActivityMetric)

/-- An operand: a column of the evaluated stock, of an ETF, or of the stock's sector. -/
inductive Operand where
  | stock (base : StockOperand)
  | etf (code : StrategyEtfSourceCode) (base : StockOperand)
  | sector (base : StockOperand)

/-- The key of a column of one instrument. -/
def StockOperand.key : StockOperand → OperandKey
  | .price => priceOperand
  | .series seriesId => seriesOperand seriesId
  | .relativeVolume period _ => relativeVolumeOperand period
  | .fundamental metricId => fundamentalMetricOperand metricId
  | .valuation ratioId => valuationRatioOperand ratioId
  | .marginOfSafety sourceId => marginOfSafetyOperand sourceId
  | .insiderActivity metric => "alt:" ++ metric.signature
  | .congressActivity metric => "alt:" ++ metric.signature

/-- The key of an operand. -/
def Operand.key : Operand → OperandKey
  | .stock base => base.key
  | .etf code base => etfOperand code base.key
  | .sector base => sectorOperand base.key

/-! ### Decoding -/

def SERIES_PREFIX : Text := lit "series:"

def RELATIVE_VOLUME_PREFIX : Text := lit "relative-volume:"

def FUNDAMENTAL_PREFIX : Text := lit "fundamental:"

def VALUATION_PREFIX : Text := lit "valuation:"

def ETF_PREFIX : Text := lit "etf:"

def SECTOR_PREFIX : Text := lit "sector:"

def ALTERNATIVE_DATA_PREFIX : Text := lit "alt:"

/-- The series a key addresses, as its text. -/
def operandSeriesId (key : Text) : Option Text := after SERIES_PREFIX key

def operandRelativeVolumePeriod (key : Text) : Option ℕ :=
  (after RELATIVE_VOLUME_PREFIX key).bind fun rest =>
    RELATIVE_VOLUME_PERIODS.find? fun (period : ℕ) =>
      NumericLiteral.numberOf rest = some (period : ℚ)

def operandFundamentalMetricId (key : Text) : Option FundamentalMetricId :=
  (after FUNDAMENTAL_PREFIX key).bind (valueOf FUNDAMENTAL_METRICS fun metricId => lit metricId.id)

def valuationRatioIds : List ValuationRatioId :=
  [.priceToEarningsTtm, .priceToSalesTtm, .priceToBook, .priceToFcfTtm, .evToEbitdaTtm]

def operandValuationRatioId (key : Text) : Option ValuationRatioId :=
  (after VALUATION_PREFIX key).bind (valueOf valuationRatioIds fun ratioId => lit ratioId.id)

def etfSourceCodes : List StrategyEtfSourceCode :=
  [.sp500, .etfQqq, .etfDia, .etfIwm, .etfRsp, .etfXlk, .etfXlf, .etfXle, .etfXlv, .etfXli, .etfXly,
    .etfXlp, .etfXlu, .etfXlb, .etfXlre, .etfXlc, .etfGld, .etfUso, .etfTlt, .etfHyg]

/-- The ETF and the stock encoding behind its code; the code ends at the first `:`. -/
def decodeEtfOperand (key : Text) : Option (StrategyEtfSourceCode × Text) :=
  (after ETF_PREFIX key).bind fun rest =>
    let separator := rest.idxOf 58
    if separator = 0 ∨ separator = rest.length then none
    else
      (valueOf etfSourceCodes (fun code => lit code.code) (rest.take separator)).bind fun code =>
        if rest.drop (separator + 1) = [] then none else some (code, rest.drop (separator + 1))

def decodeSectorOperand (key : Text) : Option Text :=
  (after SECTOR_PREFIX key).bind fun base => if base = [] then none else some base

def operandAlternativeDataMetric (key : Text) : Option MetricSignature.AlternativeDataMetric :=
  (after ALTERNATIVE_DATA_PREFIX key).bind MetricSignature.parseAlternativeDataMetricSignature

/-! ### Collection -/

variable {F : Type}

/-- What the collectors read of a Condition or a Trigger. -/
abbrev StrategyPredicate (F : Type) := StrategyMetric × StrategyValue F

/-- The predicates of one Signal, its Trigger last. -/
def signalPredicates (signal : StrategySignal F) : List (StrategyPredicate F) :=
  signal.conditions.map (fun c => (c.metric, c.value))
    ++ signal.trigger.toList.map fun t => (t.metric, t.value)

/-- The Signals of a definition: BUY levels, SELL levels, FINAL EXIT rules. -/
def definitionSignals (definition : StrategyDefinition F) : List (StrategySignal F) :=
  definition.buyLevels.map (·.signal) ++ definition.sellLevels.map (·.signal)
    ++ (definition.finalExit.elim [] (·.rules)).map (·.signal)

/-- One walk over every predicate of a definition. -/
def walkPredicates (definition : StrategyDefinition F) : List (StrategyPredicate F) :=
  (definitionSignals definition).flatMap signalPredicates

/-- `keys.add(key)`. -/
def addKey (keys : List OperandKey) (key : OperandKey) : List OperandKey :=
  if key ∈ keys then keys else keys ++ [key]

/-- The columns a predicate names, read from a source. -/
def namedOperands (predicate : StrategyPredicate F) (source : Option StrategyMetricSource) :
    List OperandKey :=
  (metricOperand predicate.1).toList ++ (valueOperand predicate.2 source).toList

/-- `[...keys].sort()`. -/
def sortKeys (keys : List OperandKey) : List OperandKey :=
  ComparatorSort.sortBy (fun left right =>
    if CodeUnits.codeUnitLt left right then -1 else if CodeUnits.codeUnitLt right left then 1 else 0) keys

/-- The columns of the evaluated stock a definition references, price always among them. -/
def collectOperands (definition : StrategyDefinition F) : List OperandKey :=
  sortKeys ((walkPredicates definition).foldl
    (fun keys predicate =>
      match strategyMetricSource predicate.1 with
      | some _ => keys
      | none => (namedOperands predicate none).foldl addKey keys) [priceOperand])

/-- One predicate's columns, under its ETF. -/
def addEtfOperands (byCode : OrderedMap StrategyEtfSourceCode (List OperandKey))
    (predicate : StrategyPredicate F) : OrderedMap StrategyEtfSourceCode (List OperandKey) :=
  match strategyMetricSource predicate.1 with
  | some (.etf code) =>
    byCode.set code ((namedOperands predicate (some (.etf code))).foldl addKey
      ((byCode.get? code).getD []))
  | _ => byCode

/-- The columns of every ETF a definition references, by its code. -/
def collectEtfOperands (localeCompare : String → String → ℤ) (definition : StrategyDefinition F) :
    OrderedMap StrategyEtfSourceCode (List OperandKey) :=
  let byCode := (walkPredicates definition).foldl addEtfOperands .empty
  .ofList ((ComparatorSort.sortBy (fun left right => localeCompare left.1.code right.1.code)
    byCode.entries).map fun entry => (entry.1, sortKeys entry.2))

/-- The columns of the stock's sector a definition references. -/
def collectSectorOperands (definition : StrategyDefinition F) : List OperandKey :=
  sortKeys ((walkPredicates definition).foldl
    (fun keys predicate =>
      match strategyMetricSource predicate.1 with
      | some .stockSector => (namedOperands predicate (some .stockSector)).foldl addKey keys
      | _ => keys) [])

/-! ### Evaluation with the operands it reads -/

/-- A result, with the operands read on the way to it. -/
structure Traced (α : Type) where
  value : α
  reads : List OperandKey

instance : Monad Traced where
  pure value := ⟨value, []⟩
  bind x f := ⟨(f x.value).value, x.reads ++ (f x.value).reads⟩

variable [JsNumber F]

/-- `readOperand`, recorded. -/
def readTraced (frame : EvaluationFrame F) (key : OperandKey) (index : ℕ) : Traced F :=
  ⟨readOperand frame key index, [key]⟩

/-- `resolveValue`, with what it reads. -/
def resolveValueTraced (value : StrategyValue F) (source : Option StrategyMetricSource)
    (frame : EvaluationFrame F) (index : ℕ) : Traced F :=
  match value with
  | .series _ =>
    match valueOperand value source with
    | none => pure JsNumber.nan
    | some key => readTraced frame key index
  | .number v | .percent v | .multiple v | .money v => pure v

/-- `evaluateMarketCondition`, with what it reads. -/
def evaluateMarketConditionTraced (condition : StrategyCondition F) (frame : EvaluationFrame F)
    (index : ℕ) : Traced Evaluability :=
  match metricOperand condition.metric with
  | none => pure .notEvaluable
  | some key => do
    let metric ← readTraced frame key index
    let value ← resolveValueTraced condition.value (strategyMetricSource condition.metric) frame index
    return evaluateConditionValues condition.operator metric value

/-- `evaluateMarketTrigger`, with what it reads. -/
def evaluateMarketTriggerTraced (trigger : StrategyTrigger F) (frame : EvaluationFrame F)
    (index : ℕ) : Traced Evaluability :=
  match metricOperand trigger.metric, index with
  | none, _ | _, 0 => pure .notEvaluable
  | some key, previous + 1 => do
    let source := strategyMetricSource trigger.metric
    let metric ← readTraced frame key (previous + 1)
    let value ← resolveValueTraced trigger.value source frame (previous + 1)
    let previousMetric ← readTraced frame key previous
    let previousValue ← resolveValueTraced trigger.value source frame previous
    return evaluateTriggerValues trigger.operator metric value previousMetric previousValue

/-- The results of some evaluations, one after the other. -/
def tracedAll {α : Type} (evaluate : α → Traced Evaluability) : List α → Traced (List Evaluability)
  | [] => pure []
  | a :: rest => do
    let first ← evaluate a
    let others ← tracedAll evaluate rest
    return first :: others

/-- `evaluateMarketSignal`, with what it reads. -/
def evaluateMarketSignalTraced (signal : StrategySignal F) (frame : EvaluationFrame F) (index : ℕ) :
    Traced Evaluability := do
  let conditions ← tracedAll (fun c => evaluateMarketConditionTraced c frame index)
    (signal.conditions.filter fun c => !isPositionDependentMetric c.metric)
  let trigger ← tracedAll (fun t => evaluateMarketTriggerTraced t frame index)
    (signal.trigger.filter fun t => !isPositionDependentMetric t.metric).toList
  return evaluabilityAll (conditions ++ trigger)

/-- Every Signal of a definition on one row: its levels and FINAL EXIT rules. -/
def evaluateDefinition (definition : StrategyDefinition F) (frame : EvaluationFrame F) (index : ℕ) :
    Traced (List Evaluability) :=
  tracedAll (fun signal => evaluateMarketSignalTraced signal frame index) (definitionSignals definition)

end FactorSage
