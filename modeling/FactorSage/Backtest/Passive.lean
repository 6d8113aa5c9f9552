import FactorSage.Backtest.Causality
import FactorSage.Backtest.Conservation
import FactorSage.Library.Lockstep

/-!
# Runs that differ in their benchmark

Two runs of one input, fed the same frames by the same calls, trade alike whatever each is compared
against. `SameTrading` is what two states have in common when only the comparison data differs; every
day keeps it (`SameTrading.executeDay`), every call keeps the two simulations in lockstep
(`consumeCall_lockstep`), and a result reports nothing of the comparison but its own fields.
-/

namespace FactorSage

open JsNumber

variable {F : Type} [JsNumber F]

/-- A simulation created for an input and taken through some calls. -/
def simulateCalls (input : BacktestSimulationInput F) (options : BacktestSimulationOptions)
    (calls : List (SimulationCall F)) : Except String (BacktestSimulation F) :=
  createBacktestSimulation input options >>= fun created => calls.foldlM consumeCall created

/-- A point of the equity curve without what it reads of the benchmark. -/
def BacktestEquityPoint.ownFields (point : BacktestEquityPoint F) : BacktestEquityPoint F :=
  { point with
    benchmarkIndex := none
    benchmarkValue := none }

def BacktestRun.withBenchmark (run : BacktestRun F) (benchmark : Option (BenchmarkSeriesInput F)) :
    BacktestRun F :=
  { run with input := run.input.withBenchmark benchmark }

/-! ### Days -/

/-- What two states share when they differ in their comparison data only. -/
structure SameTrading (s₁ s₂ : SimulationState F) : Prop where
  ledger : s₂.ledger = s₁.ledger
  equity : s₂.equity.map BacktestEquityPoint.ownFields
    = s₁.equity.map BacktestEquityPoint.ownFields
  baseline : s₂.scenarios.baseline = s₁.scenarios.baseline
  returnIndex : s₂.returnIndex = s₁.returnIndex
  previousTotalValue : s₂.previousTotalValue = s₁.previousTotalValue
  completedDays : s₂.completedDays = s₁.completedDays

/-- What the day's equity point says of the strategy itself. -/
theorem executeDay_ownFields (run : BacktestRun F) (date : LocalDate) (today : TodayRows F)
    (s : SimulationState F) :
    (executeDay run date today s).equity.map BacktestEquityPoint.ownFields
      = s.equity.map BacktestEquityPoint.ownFields
        ++ [{ date
              cash := moneyString (executeDay run date today s).ledger.cash
              positionsValue :=
                moneyString (positionsValue (executeDay run date today s).ledger.positions)
              totalValue := moneyString
                (quantizeMoney ((executeDay run date today s).ledger.cash
                  + positionsValue (executeDay run date today s).ledger.positions))
              investedCapital := moneyString (executeDay run date today s).ledger.investedCapital
              returnIndex := (executeDay run date today s).returnIndex
              benchmarkIndex := none
              benchmarkValue := none
              cashBaselineValue :=
                moneyString (executeDay run date today s).scenarios.baseline
              openPositions := (executeDay run date today s).ledger.positions.size }] :=
  List.map_append

variable {run : BacktestRun F} {benchmark : Option (BenchmarkSeriesInput F)}
  {s₁ s₂ : SimulationState F}

theorem executeDay_returnIndex (run : BacktestRun F) (date : LocalDate) (today : TodayRows F)
    (s : SimulationState F) :
    (executeDay run date today s).returnIndex
      = chainReturnIndex s.returnIndex s.previousTotalValue (contributionOn run date)
          (toNumber (quantizeMoney ((executeDay run date today s).ledger.cash
            + positionsValue (executeDay run date today s).ledger.positions))) :=
  rfl

theorem executeDay_previousTotalValue (run : BacktestRun F) (date : LocalDate)
    (today : TodayRows F) (s : SimulationState F) :
    (executeDay run date today s).previousTotalValue
      = toNumber (quantizeMoney ((executeDay run date today s).ledger.cash
          + positionsValue (executeDay run date today s).ledger.positions)) :=
  rfl

theorem baseline_fund_congr {scenarios₁ scenarios₂ : ComparisonScenarios}
    (h : scenarios₂.baseline = scenarios₁.baseline) (contribution : F) :
    (fundScenarios contribution scenarios₂).baseline
      = (fundScenarios contribution scenarios₁).baseline := by
  unfold fundScenarios ComparisonScenarios.fund
  split
  · split
    · exact h
    · rw [h]
  · exact h

/-- **A day under another benchmark.** -/
theorem SameTrading.executeDay (h : SameTrading s₁ s₂) (date : LocalDate) (today : TodayRows F) :
    SameTrading (executeDay run date today s₁)
      (executeDay (run.withBenchmark benchmark) date today s₂) := by
  have hledger : (FactorSage.executeDay (run.withBenchmark benchmark) date today s₂).ledger
      = (FactorSage.executeDay run date today s₁).ledger := by
    rw [executeDay_ledger, executeDay_ledger, tradedLedger, tradedLedger, h.ledger,
      h.completedDays]
    rfl
  have hindex : (FactorSage.executeDay (run.withBenchmark benchmark) date today s₂).returnIndex
      = (FactorSage.executeDay run date today s₁).returnIndex := by
    rw [executeDay_returnIndex, executeDay_returnIndex, hledger, h.returnIndex,
      h.previousTotalValue]
    rfl
  have hbaseline :
      (FactorSage.executeDay (run.withBenchmark benchmark) date today s₂).scenarios.baseline
        = (FactorSage.executeDay run date today s₁).scenarios.baseline := by
    rw [baseline_executeDay, baseline_executeDay]
    exact baseline_fund_congr h.baseline _
  refine ⟨hledger, ?_, hbaseline, hindex, ?_, ?_⟩
  · rw [executeDay_ownFields, executeDay_ownFields, h.equity, hledger, hindex, hbaseline]
  · rw [executeDay_previousTotalValue, executeDay_previousTotalValue, hledger]
  · rw [executeDay_completedDays, executeDay_completedDays, h.completedDays]

/-! ### Calls -/

/-- Two simulations that differ in their comparison data only. -/
structure SameSimulation (benchmark : Option (BenchmarkSeriesInput F))
    (a₁ a₂ : BacktestSimulation F) : Prop where
  run : a₂.run = a₁.run.withBenchmark benchmark
  windows : a₂.windows = a₁.windows
  state : SameTrading a₁.state a₂.state
  contextRows : a₂.contextRows = a₁.contextRows
  runtimes : a₂.runtimes = a₁.runtimes
  nextWindowIndex : a₂.nextWindowIndex = a₁.nextWindowIndex

variable {a₁ a₂ : BacktestSimulation F}

theorem SameSimulation.simulateDate (h : SameSimulation benchmark a₁ a₂) (date : LocalDate) :
    Lockstep (SameSimulation benchmark) (simulateDate a₁ date) (simulateDate a₂ date) := by
  have hcalendar : a₂.run.calendar = a₁.run.calendar := by
    rw [h.run]
    rfl
  unfold FactorSage.simulateDate
  rw [h.runtimes, hcalendar, h.state.completedDays]
  split
  · exact .error _
  · refine .ok ⟨h.run, h.windows, ?_, h.contextRows, rfl, h.nextWindowIndex⟩
    rw [h.run]
    exact h.state.executeDay _ _

theorem SameSimulation.openWindow (h : SameSimulation benchmark a₁ a₂)
    (frames : List (EvaluationFrame F)) :
    Lockstep (SameSimulation benchmark) (openWindow a₁ frames) (openWindow a₂ frames) := by
  have hsecurities : a₂.run.input.securities = a₁.run.input.securities := by
    rw [h.run]
    rfl
  have hdefinition : a₂.run.input.definition = a₁.run.input.definition := by
    rw [h.run]
    rfl
  unfold FactorSage.openWindow
  rw [hsecurities, hdefinition, h.contextRows]
  dsimp only
  split
  · exact .error _
  · refine (Lockstep.refl _).bind fun runtimes _ heq => ?_
    subst heq
    exact .ok ⟨h.run, h.windows, h.state, rfl, rfl, h.nextWindowIndex⟩

theorem SameSimulation.closeWindow (h : SameSimulation benchmark a₁ a₂) :
    SameSimulation benchmark (closeWindow a₁) (closeWindow a₂) := by
  refine ⟨h.run, h.windows, h.state, ?_, rfl, h.nextWindowIndex⟩
  unfold FactorSage.closeWindow
  rw [h.runtimes, h.contextRows]

/-- Opening, simulating and closing: what every call does once it is accepted. -/
theorem SameSimulation.simulateFrames (h : SameSimulation benchmark a₁ a₂)
    (frames : List (EvaluationFrame F)) (dates : List LocalDate) :
    Lockstep (SameSimulation benchmark) (simulateFrames a₁ frames dates)
      (simulateFrames a₂ frames dates) := by
  refine (h.openWindow frames).bind fun b₁ b₂ hopened => ?_
  refine Lockstep.bind (R := SameSimulation benchmark) ?_ fun c₁ c₂ hsimulated => ?_
  · exact Lockstep.foldlM (fun _ _ hday date => hday.simulateDate date) hopened
  · exact .ok hsimulated.closeWindow

/-- **Every call keeps the two in lockstep.** -/
theorem SameSimulation.consumeCall (h : SameSimulation benchmark a₁ a₂) (call : SimulationCall F) :
    Lockstep (SameSimulation benchmark) (consumeCall a₁ call) (consumeCall a₂ call) := by
  cases call with
  | window window frames =>
    change Lockstep _ (consumeWindow a₁ window frames) (consumeWindow a₂ window frames)
    unfold consumeWindow
    rw [h.windows, h.nextWindowIndex]
    dsimp only
    split
    · exact .error _
    · split
      · exact .error _
      · have hclaimed : SameSimulation benchmark
            { a₁ with nextWindowIndex := a₁.nextWindowIndex + 1 }
            { a₂ with windows := a₁.windows, nextWindowIndex := a₁.nextWindowIndex + 1 } :=
          ⟨h.run, rfl, h.state, h.contextRows, h.runtimes, rfl⟩
        exact hclaimed.simulateFrames frames window.dates
  | wholePeriod frames =>
    change Lockstep _ (consumeWholePeriod a₁ frames) (consumeWholePeriod a₂ frames)
    have hcalendar : a₂.run.calendar = a₁.run.calendar := by
      rw [h.run]
      rfl
    unfold consumeWholePeriod
    rw [h.windows, h.nextWindowIndex, hcalendar]
    dsimp only
    split
    · exact .error _
    · have hclaimed : SameSimulation benchmark
          { a₁ with nextWindowIndex := a₁.windows.length }
          { a₂ with windows := a₁.windows, nextWindowIndex := a₁.windows.length } :=
        ⟨h.run, rfl, h.state, h.contextRows, h.runtimes, rfl⟩
      exact hclaimed.simulateFrames frames a₁.run.calendar

theorem createBacktestSimulation_lockstep (input : BacktestSimulationInput F)
    (options : BacktestSimulationOptions) (benchmark : Option (BenchmarkSeriesInput F)) :
    Lockstep (SameSimulation benchmark) (createBacktestSimulation input options)
      (createBacktestSimulation (input.withBenchmark benchmark) options) := by
  have hrun : backtestRun (input.withBenchmark benchmark) options
      = (backtestRun input options).withBenchmark benchmark := rfl
  have hassert : assertInput (input.withBenchmark benchmark) = assertInput input := rfl
  have hreference : (input.withBenchmark benchmark).executionCalendar = input.executionCalendar :=
    rfl
  unfold createBacktestSimulation
  rw [hassert, hreference, hrun]
  refine (Lockstep.refl (assertInput input)).bind fun _ _ _ => ?_
  dsimp only
  split
  · exact .error _
  · have hcalendar : ((backtestRun input options).withBenchmark benchmark).calendar
        = (backtestRun input options).calendar := rfl
    rw [hcalendar]
    split
    · exact .error _
    · exact .ok ⟨rfl, rfl, ⟨rfl, rfl, rfl, rfl, rfl, rfl⟩, rfl, rfl, rfl⟩

/-- **Two runs of the same calls stay in lockstep.** -/
theorem simulateCalls_lockstep (input : BacktestSimulationInput F)
    (options : BacktestSimulationOptions) (benchmark : Option (BenchmarkSeriesInput F))
    (calls : List (SimulationCall F)) :
    Lockstep (SameSimulation benchmark) (simulateCalls input options calls)
      (simulateCalls (input.withBenchmark benchmark) options calls) :=
  (createBacktestSimulation_lockstep input options benchmark).bind fun _ _ hcreated =>
    Lockstep.foldlM (fun _ _ hcall call => hcall.consumeCall call) hcreated

/-! ### Results -/

/-- What the results of two runs share that differ in their comparison data only. -/
structure SameResult (r₁ r₂ : BacktestResult F) : Prop where
  trades : r₂.trades = r₁.trades
  positions : r₂.positions = r₁.positions
  equity : r₂.equity.map BacktestEquityPoint.ownFields
    = r₁.equity.map BacktestEquityPoint.ownFields

theorem SameSimulation.finish (h : SameSimulation benchmark a₁ a₂) :
    Lockstep SameResult (finish a₁) (finish a₂) := by
  have hcalendar : a₂.run.calendar = a₁.run.calendar := by
    rw [h.run]
    rfl
  have hlast := congrArg List.getLast? h.state.equity
  rw [List.getLast?_map, List.getLast?_map] at hlast
  unfold FactorSage.finish
  rw [h.windows, h.nextWindowIndex, hcalendar]
  dsimp only
  split
  · exact .error _
  · cases hequity : a₁.state.equity.getLast? with
    | none =>
      rw [hequity, Option.map_none, Option.map_eq_none_iff] at hlast
      rw [hlast]
      exact .error _
    | some last₁ =>
      rw [hequity, Option.map_some, Option.map_eq_some_iff] at hlast
      obtain ⟨last₂, hlast₂, hsame⟩ := hlast
      have htotal : last₂.ownFields.totalValue = last₁.ownFields.totalValue := by rw [hsame]
      change last₂.totalValue = last₁.totalValue at htotal
      rw [hlast₂]
      cases a₁.run.calendar.head? with
      | none => exact .error _
      | some firstDate =>
        cases a₁.run.calendar.getLast? with
        | none => exact .error _
        | some lastDate =>
          refine .ok ⟨congrArg Ledger.trades h.state.ledger, ?_, h.state.equity⟩
          change (finalPositions a₂.state.ledger.positions _).1
            = (finalPositions a₁.state.ledger.positions _).1
          rw [h.state.ledger, htotal]

end FactorSage
