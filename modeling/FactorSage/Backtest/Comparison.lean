import FactorSage.Backtest.Metrics
import FactorSage.Backtest.Money

/-!
# Comparison data

The benchmark series read along the execution calendar, and the two funded scenarios the strategy is
shown beside. Both are passive: nothing in a run's trading reads them.
-/

namespace FactorSage

open JsNumber

/-- A benchmark: a date-aligned close series. -/
structure BenchmarkSeriesInput (F : Type) where
  benchmarkId : String
  code : String
  name : String
  dates : List LocalDate
  closes : List F

/-- A position in a benchmark series, moved along an ascending calendar. -/
structure BenchmarkCursor (F : Type) where
  /-- How many dates of the series have been passed: the source's cursor plus one. -/
  passed : ℕ
  /-- The first close read, which the growth index is based at. -/
  base : Option F

/-- The funded benchmark portfolio and the cash that is never invested. -/
structure ComparisonScenarios where
  /-- Benchmark shares held. -/
  shares : MoneyValue
  /-- Capital that has arrived but could not yet buy benchmark shares. -/
  pending : MoneyValue
  baseline : MoneyValue

variable {F : Type}

def BenchmarkCursor.initial : BenchmarkCursor F where
  passed := 0
  base := none

/-- Moves over every date at or before `date`, stopping at the first later one. -/
def BenchmarkCursor.advance (cursor : BenchmarkCursor F) (series : BenchmarkSeriesInput F)
    (date : LocalDate) : BenchmarkCursor F :=
  { cursor with
    passed := cursor.passed + ((series.dates.drop cursor.passed).takeWhile (· ≤ date)).length }

variable [JsNumber F]

/-- The close the cursor stands on, when it is a price. -/
def BenchmarkCursor.currentClose (cursor : BenchmarkCursor F) (series : BenchmarkSeriesInput F) :
    Option F :=
  match cursor.passed with
  | 0 => none
  | index + 1 => series.closes[index]?.filter fun close => isFinite close && lt (ofInt 0) close

/-- The most recent benchmark close at or before `date`. -/
def BenchmarkCursor.closeAt (cursor : BenchmarkCursor F)
    (series : Option (BenchmarkSeriesInput F)) (date : LocalDate) :
    Option F × BenchmarkCursor F :=
  match series with
  | none => (none, cursor)
  | some series =>
    let cursor := cursor.advance series date
    (cursor.currentClose series, cursor)

/-- The growth index for a close already read; the first close read is the base. -/
def BenchmarkCursor.indexFor (cursor : BenchmarkCursor F) (close : Option F) :
    Option F × BenchmarkCursor F :=
  match close with
  | none => (none, cursor)
  | some close =>
    let base := cursor.base.getD close
    (some (close / base), { cursor with base := some base })

def ComparisonScenarios.initial : ComparisonScenarios := ⟨0, 0, 0⟩

/-- Records an external cash flow. -/
def ComparisonScenarios.fund (scenarios : ComparisonScenarios) (amount : F) :
    ComparisonScenarios :=
  if !(isFinite amount) || le amount (ofInt 0) then scenarios
  else
    let deposit := quantizeMoney (decimal amount)
    { scenarios with
      baseline := quantizeMoney (scenarios.baseline + deposit)
      pending := quantizeMoney (scenarios.pending + deposit) }

/-- Invests any pending capital at `close`, then marks the whole holding to it. -/
def ComparisonScenarios.markBenchmark (scenarios : ComparisonScenarios) (close : Option F) :
    Option MoneyValue × ComparisonScenarios :=
  match close with
  | none => (none, scenarios)
  | some close =>
    let price := quantizePrice (decimal close)
    let marked :=
      if 0 < scenarios.pending ∧ 0 < price then
        { scenarios with
          shares := decimalPlus scenarios.shares (decimalDiv scenarios.pending price)
          pending := 0 }
      else scenarios
    (some (quantizeMoney (decimalTimes marked.shares price)), marked)

end FactorSage
