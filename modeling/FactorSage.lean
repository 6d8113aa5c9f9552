import FactorSage.Backtest.BenchmarkFunding
import FactorSage.Backtest.LifecycleRun
import FactorSage.Backtest.PeriodEnd
import FactorSage.Backtest.SecurityOrder
import FactorSage.Backtest.WindowEquivalence
import FactorSage.BenchmarkCache.Protocol
import FactorSage.Congress.Convergence
import FactorSage.Contracts.DigestStandard
import FactorSage.DailyState.Codec
import FactorSage.DailyState.DerivedRows
import FactorSage.Domain.EodTailRefresh
import FactorSage.Domain.MarketIndex
import FactorSage.FmpGate.Bounds
import FactorSage.IndexMembership.Inversion
import FactorSage.IndexMembership.Overlaps
import FactorSage.Jobs.Capacity
import FactorSage.Monitor.CoverageRuns
import FactorSage.Monitor.EstablishedLevels
import FactorSage.Monitor.LateBarRuns
import FactorSage.PriceBasis.OneBasis
import FactorSage.Rebase.Accounting
import FactorSage.Rebase.Restored
import FactorSage.Statements.LatestReport
import FactorSage.StockCache.Expiry
import FactorSage.StockCache.Reader
import FactorSage.Strategy.AlternativeDataColumn
import FactorSage.Strategy.CloseToBoundary
import FactorSage.Strategy.OperandReads
import FactorSage.Strategy.PositionCost
import FactorSage.Strategy.Rekey
import FactorSage.Valuation.ExactDecimalSum
import FactorSage.Valuation.PerSession
import FactorSage.Valuation.Rejections
