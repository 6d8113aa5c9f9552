import FactorSage.Backtest.Comparison
import FactorSage.Contracts.Strategies
import FactorSage.Domain.StockLists

/-!
# What a backtest reads and reports

A simulation's fixed inputs, and the records of its trade log, equity curve, checkpoints and
summary. Ledger quantities are canonical decimal strings, ratios are numbers.
-/

namespace FactorSage

/-- One list member's identity and BUY eligibility, fixed for the whole run. -/
structure BacktestSecuritySetup where
  securityId : String
  symbol : String
  name : String
  buyWindows : BuyWindowConfiguration

/-- A run's fixed inputs: everything but the frames. -/
structure BacktestSimulationInput (F : Type) where
  definition : StrategyDefinition F
  securities : List BacktestSecuritySetup
  benchmark : Option (BenchmarkSeriesInput F)
  /-- The market's trading days over the run's period. -/
  executionCalendar : List LocalDate
  startDate : LocalDate
  endDate : LocalDate
  initialCapital : F
  monthlyContribution : F
  maximumPositions : ℤ

structure BacktestSimulationOptions where
  checkpointEveryDays : Option ℕ
  maxCurvePoints : Option ℕ
  recentTradeCount : Option ℕ
  /-- Whether a checkpoint observer was given. -/
  onCheckpoint : Bool

inductive BacktestTradeAction where
  | buy | sell | finalExit
  deriving DecidableEq

/-- What put a trade in the log: the strategy's own signal, or the end of the period. -/
inductive BacktestTradeSource where
  | strategy | endOfBacktest
  deriving DecidableEq

structure BacktestTradeRecord (F : Type) where
  sequence : ℕ
  date : LocalDate
  securityId : String
  symbol : String
  name : String
  action : BacktestTradeAction
  source : BacktestTradeSource
  levelId : Option String
  /-- Which FINAL EXIT rule matched, when one did. -/
  exitRuleId : Option String
  levelPercentage : Option ℕ
  shares : SharesString
  price : PriceString
  amount : MoneyString
  fees : MoneyString
  realizedPnl : Option MoneyString
  realizedPnlPercent : Option F
  cashAfter : MoneyString
  sharesAfter : SharesString
  averageCostAfter : Option PriceString

structure BacktestEquityPoint (F : Type) where
  date : LocalDate
  cash : MoneyString
  positionsValue : MoneyString
  totalValue : MoneyString
  investedCapital : MoneyString
  returnIndex : F
  benchmarkIndex : Option F
  benchmarkValue : Option MoneyString
  cashBaselineValue : MoneyString
  openPositions : ℕ

structure BacktestOpenPosition (F : Type) where
  securityId : String
  symbol : String
  name : String
  openedDate : LocalDate
  shares : SharesString
  averageCost : PriceString
  lastPrice : PriceString
  lastPriceDate : LocalDate
  marketValue : MoneyString
  unrealizedPnl : MoneyString
  unrealizedPnlPercent : F
  allocationPercent : F

structure BacktestSummary (F : Type) where
  firstSimulatedDate : LocalDate
  lastSimulatedDate : LocalDate
  tradingDays : ℕ
  investedCapital : MoneyString
  finalCash : MoneyString
  finalPositionsValue : MoneyString
  finalValue : MoneyString
  netProfit : MoneyString
  portfolioReturnPercent : F
  benchmarkReturnPercent : Option F
  alphaPercent : Option F
  portfolioCagrPercent : Option F
  maxDrawdownPercent : F
  benchmarkMaxDrawdownPercent : Option F
  realizedPnl : MoneyString
  unrealizedPnl : MoneyString
  totalTrades : ℕ
  buyTrades : ℕ
  sellTrades : ℕ
  finalExitTrades : ℕ
  winningTrades : ℕ
  losingTrades : ℕ
  openPositions : ℕ

/-- One point of the comparison curve. -/
structure BacktestCurvePoint (F : Type) where
  date : LocalDate
  portfolioReturnPercent : F
  benchmarkReturnPercent : Option F
  strategyValue : F
  benchmarkValue : Option F
  cashBaselineValue : F

structure BacktestCheckpointHolding (F : Type) where
  securityId : String
  symbol : String
  name : String
  shares : F
  averageCost : F
  lastPrice : F
  lastPriceDate : LocalDate
  marketValue : F
  unrealizedPnlPercent : F
  allocationPercent : F

/-- A live snapshot of an in-flight run. -/
structure BacktestCheckpoint (F : Type) where
  simulatedThrough : LocalDate
  /-- The calendar year this checkpoint completes, `none` for an ordinary cadence checkpoint. -/
  milestone : Option ℕ
  completedDays : ℕ
  totalDays : ℕ
  cash : F
  positionsValue : F
  totalValue : F
  investedCapital : F
  netProfit : F
  portfolioReturnPercent : F
  benchmarkReturnPercent : Option F
  alphaPercent : Option F
  portfolioCagrPercent : Option F
  maxDrawdownPercent : F
  benchmarkValue : Option F
  cashBaselineValue : F
  tradeCount : ℕ
  openPositions : ℕ
  curve : List (BacktestCurvePoint F)
  holdings : List (BacktestCheckpointHolding F)
  recentTrades : List (BacktestTradeRecord F)

structure BacktestResult (F : Type) where
  trades : List (BacktestTradeRecord F)
  equity : List (BacktestEquityPoint F)
  positions : List (BacktestOpenPosition F)
  summary : BacktestSummary F

end FactorSage
