import FactorSage.Contracts.Strategies

/-!
# Operand keys

The identity of one value column an evaluation frame carries. Keys are strings built here and
nowhere else: the projector that fills a frame and the evaluator that reads it agree on them.
-/

namespace FactorSage

abbrev OperandKey := String

/-- `PRICE_OPERAND`: the end-of-day close, which is not a catalog series. -/
def priceOperand : OperandKey := "price"

def seriesOperand (seriesId : SelectableSeriesId) : OperandKey := "series:" ++ seriesId.id

def relativeVolumeOperand (period : ℕ) : OperandKey := "relative-volume:" ++ toString period

def fundamentalMetricOperand (metricId : FundamentalMetricId) : OperandKey :=
  "fundamental:" ++ metricId.id

def valuationRatioOperand (ratioId : ValuationRatioId) : OperandKey := "valuation:" ++ ratioId.id

def marginOfSafetyOperand (sourceId : SelectableSeriesId) : OperandKey :=
  "margin-of-safety:" ++ sourceId.id

def etfOperand (code : StrategyEtfSourceCode) (base : OperandKey) : OperandKey :=
  "etf:" ++ code.code ++ ":" ++ base

def sectorOperand (base : OperandKey) : OperandKey := "sector:" ++ base

/-- The key one source reads a stock encoding under. -/
def sourcedOperand (base : OperandKey) : Option StrategyMetricSource → OperandKey
  | none => base
  | some (.etf code) => etfOperand code base
  | some .stockSector => sectorOperand base

/-- Whether a metric needs simulated position state. -/
def isPositionDependentMetric : StrategyMetric → Bool
  | .gain | .loss => true
  | _ => false

/-- The column a metric of the evaluated stock reads, `none` for a position metric. -/
def stockMetricOperand : StrategyMetric → Option OperandKey
  | .price _ => some priceOperand
  | .movingAverage seriesId _ | .oscillator seriesId _ => some (seriesOperand seriesId)
  | .relativeVolume period _ => some (relativeVolumeOperand period)
  | .marginOfSafety sourceId => some (marginOfSafetyOperand sourceId)
  | .fundamental metricId => some (fundamentalMetricOperand metricId)
  | .valuationRatio ratioId => some (valuationRatioOperand ratioId)
  | .insiderActivity metric => some ("alt:" ++ metric.signature)
  | .congressActivity metric => some ("alt:" ++ metric.signature)
  | .gain | .loss => none

/-- The frame column a metric reads: its stock column, under its source's own key family. -/
def metricOperand (metric : StrategyMetric) : Option OperandKey :=
  match strategyMetricSource metric with
  | some source =>
    (stockMetricOperand (withoutMetricSource metric)).map fun base => sourcedOperand base source
  | none => stockMetricOperand metric

/-- The frame column a comparison value reads, `none` for a constant. A series is read from the
source of the predicate's metric. -/
def valueOperand {F : Type} (value : StrategyValue F) (source : Option StrategyMetricSource) :
    Option OperandKey :=
  match value with
  | .series seriesId => some (sourcedOperand (seriesOperand seriesId) source)
  | _ => none

end FactorSage
