import FactorSage.Contracts.AlternativeData
import Mathlib.Data.Rat.Defs

/-!
# The Strategy document

The Strategy language: metrics, comparison values, Conditions, Triggers, Signals, levels and the
definition. A metric's data source and every catalog identity are part of it; labels, units and
help texts are not, since nothing that evaluates a Strategy reads them.

Numbers in a document are doubles, so the document is stated over any `F` that carries their
arithmetic.
-/

namespace FactorSage

/-- The catalog of selectable series. -/
inductive SelectableSeriesId where
  | sma20D | sma50D | sma100D | sma200D | ema20D | ema50D | ema200D | sma20W | sma50W | sma100W
  | sma200W | ema20W | ema50W | ema200W | rsi7D | rsi14D | rsi21D | balanced | conservative
  | dividend | dcfFcff | residualIncome | ddm | graham
  deriving DecidableEq

/-- The catalog id of a series. -/
def SelectableSeriesId.id : SelectableSeriesId → String
  | .sma20D => "SMA_20D"
  | .sma50D => "SMA_50D"
  | .sma100D => "SMA_100D"
  | .sma200D => "SMA_200D"
  | .ema20D => "EMA_20D"
  | .ema50D => "EMA_50D"
  | .ema200D => "EMA_200D"
  | .sma20W => "SMA_20W"
  | .sma50W => "SMA_50W"
  | .sma100W => "SMA_100W"
  | .sma200W => "SMA_200W"
  | .ema20W => "EMA_20W"
  | .ema50W => "EMA_50W"
  | .ema200W => "EMA_200W"
  | .rsi7D => "RSI_7D"
  | .rsi14D => "RSI_14D"
  | .rsi21D => "RSI_21D"
  | .balanced => "BALANCED"
  | .conservative => "CONSERVATIVE"
  | .dividend => "DIVIDEND"
  | .dcfFcff => "DCF_FCFF"
  | .residualIncome => "RESIDUAL_INCOME"
  | .ddm => "DDM"
  | .graham => "GRAHAM"

/-- The catalog of Fundamental Metrics. -/
inductive FundamentalMetricId where
  | revenueGrowthTtmYoy | epsGrowthTtmYoy | fcfGrowthTtmYoy | grossMarginTtm
  | operatingMarginTtm | netMarginTtm | fcfMarginTtm | roicTtm | roeTtm | roaTtm | debtToEquity
  | currentRatio | netDebtToEbitdaTtm | interestCoverageTtm | assetTurnoverTtm
  deriving DecidableEq

/-- The registry, in its order. A metric's stored field is named as its constructor. -/
def FUNDAMENTAL_METRICS : List FundamentalMetricId :=
  [.revenueGrowthTtmYoy, .epsGrowthTtmYoy, .fcfGrowthTtmYoy, .grossMarginTtm, .operatingMarginTtm,
    .netMarginTtm, .fcfMarginTtm, .roicTtm, .roeTtm, .roaTtm, .debtToEquity, .currentRatio,
    .netDebtToEbitdaTtm, .interestCoverageTtm, .assetTurnoverTtm]

/-- The catalog id of a Fundamental Metric. -/
def FundamentalMetricId.id : FundamentalMetricId → String
  | .revenueGrowthTtmYoy => "REVENUE_GROWTH_TTM_YOY"
  | .epsGrowthTtmYoy => "EPS_GROWTH_TTM_YOY"
  | .fcfGrowthTtmYoy => "FCF_GROWTH_TTM_YOY"
  | .grossMarginTtm => "GROSS_MARGIN_TTM"
  | .operatingMarginTtm => "OPERATING_MARGIN_TTM"
  | .netMarginTtm => "NET_MARGIN_TTM"
  | .fcfMarginTtm => "FCF_MARGIN_TTM"
  | .roicTtm => "ROIC_TTM"
  | .roeTtm => "ROE_TTM"
  | .roaTtm => "ROA_TTM"
  | .debtToEquity => "DEBT_TO_EQUITY"
  | .currentRatio => "CURRENT_RATIO"
  | .netDebtToEbitdaTtm => "NET_DEBT_TO_EBITDA_TTM"
  | .interestCoverageTtm => "INTEREST_COVERAGE_TTM"
  | .assetTurnoverTtm => "ASSET_TURNOVER_TTM"

/-- The catalog of Valuation Ratios. -/
inductive ValuationRatioId where
  | priceToEarningsTtm | priceToSalesTtm | priceToBook | priceToFcfTtm | evToEbitdaTtm
  deriving DecidableEq

/-- The catalog id of a Valuation Ratio. -/
def ValuationRatioId.id : ValuationRatioId → String
  | .priceToEarningsTtm => "PRICE_TO_EARNINGS_TTM"
  | .priceToSalesTtm => "PRICE_TO_SALES_TTM"
  | .priceToBook => "PRICE_TO_BOOK"
  | .priceToFcfTtm => "PRICE_TO_FCF_TTM"
  | .evToEbitdaTtm => "EV_TO_EBITDA_TTM"

/-- The benchmark codes an ETF-sourced metric may name. -/
inductive StrategyEtfSourceCode where
  | sp500 | etfQqq | etfDia | etfIwm | etfRsp | etfXlk | etfXlf | etfXle | etfXlv | etfXli
  | etfXly | etfXlp | etfXlu | etfXlb | etfXlre | etfXlc | etfGld | etfUso | etfTlt | etfHyg
  deriving DecidableEq

/-- The stored benchmark code. -/
def StrategyEtfSourceCode.code : StrategyEtfSourceCode → String
  | .sp500 => "SP500"
  | .etfQqq => "ETF_QQQ"
  | .etfDia => "ETF_DIA"
  | .etfIwm => "ETF_IWM"
  | .etfRsp => "ETF_RSP"
  | .etfXlk => "ETF_XLK"
  | .etfXlf => "ETF_XLF"
  | .etfXle => "ETF_XLE"
  | .etfXlv => "ETF_XLV"
  | .etfXli => "ETF_XLI"
  | .etfXly => "ETF_XLY"
  | .etfXlp => "ETF_XLP"
  | .etfXlu => "ETF_XLU"
  | .etfXlb => "ETF_XLB"
  | .etfXlre => "ETF_XLRE"
  | .etfXlc => "ETF_XLC"
  | .etfGld => "ETF_GLD"
  | .etfUso => "ETF_USO"
  | .etfTlt => "ETF_TLT"
  | .etfHyg => "ETF_HYG"

/-- The data source of a technical metric, when it is not the evaluated stock itself. -/
inductive StrategyMetricSource where
  | etf (code : StrategyEtfSourceCode)
  | stockSector

/-- A Strategy metric. -/
inductive StrategyMetric where
  | price (source : Option StrategyMetricSource)
  | movingAverage (seriesId : SelectableSeriesId) (source : Option StrategyMetricSource)
  | oscillator (seriesId : SelectableSeriesId) (source : Option StrategyMetricSource)
  | relativeVolume (period : ℕ) (source : Option StrategyMetricSource)
  | marginOfSafety (sourceId : SelectableSeriesId)
  | valuationRatio (ratioId : ValuationRatioId)
  | fundamental (metricId : FundamentalMetricId)
  | gain
  | loss
  | insiderActivity (metric : InsiderActivityMetric)
  | congressActivity (metric : CongressActivityMetric)

/-- The source of a metric; only the technical families carry one. -/
def strategyMetricSource : StrategyMetric → Option StrategyMetricSource
  | .price source | .movingAverage _ source | .oscillator _ source | .relativeVolume _ source =>
    source
  | _ => none

/-- The same metric read from the evaluated stock. -/
def withoutMetricSource : StrategyMetric → StrategyMetric
  | .price _ => .price none
  | .movingAverage seriesId _ => .movingAverage seriesId none
  | .oscillator seriesId _ => .oscillator seriesId none
  | .relativeVolume period _ => .relativeVolume period none
  | metric => metric

/-- The right-hand side of a predicate: another series, or a constant in some unit. -/
inductive StrategyValue (F : Type) where
  | series (seriesId : SelectableSeriesId)
  | number (value : F)
  | percent (value : F)
  | multiple (value : F)
  | money (value : F)

inductive ConditionOperator where
  | isAbove | isBelow | isCloseTo
  deriving DecidableEq

inductive TriggerOperator where
  | crossesAbove | crossesBelow
  deriving DecidableEq

structure StrategyCondition (F : Type) where
  id : String
  metric : StrategyMetric
  operator : ConditionOperator
  value : StrategyValue F

structure StrategyTrigger (F : Type) where
  id : String
  metric : StrategyMetric
  operator : TriggerOperator
  value : StrategyValue F

/-- Conditions ANDed, with at most one Trigger ANDed to them. -/
structure StrategySignal (F : Type) where
  conditions : List (StrategyCondition F)
  trigger : Option (StrategyTrigger F)

/-- A BUY level; the percentage is the fraction of one full position it targets. -/
structure StrategyBuyLevel (F : Type) where
  id : String
  signal : StrategySignal F
  percentage : ℕ

/-- A SELL level; the percentage is a fraction of the shares held when it fires. -/
structure StrategySellLevel (F : Type) where
  id : String
  signal : StrategySignal F
  percentage : ℕ

/-- One alternative of FINAL EXIT. -/
structure StrategyExitRule (F : Type) where
  id : String
  signal : StrategySignal F

/-- FINAL EXIT: one action, reached through any of its rules. -/
structure StrategyFinalExit (F : Type) where
  id : String
  rules : List (StrategyExitRule F)

/-- The Strategy document. -/
structure StrategyDefinition (F : Type) where
  buyLevels : List (StrategyBuyLevel F)
  sellLevels : List (StrategySellLevel F)
  finalExit : Option (StrategyFinalExit F)

/-- `IS_CLOSE_TO_TOLERANCE`: 2%. -/
def isCloseToTolerance : ℚ := 2 / 100

end FactorSage
