import FactorSage.Backtest.Day
import FactorSage.Backtest.Window

/-!
# The portfolio simulation

`BacktestSimulation`, consumed one calendar-year window at a time or over the whole period at once.
What a window binds is the frames, their gates and a cursor into each; everything else lives in the
`SimulationState` and flows from one window into the next.

A call the source rejects with an error is an `Except.error`; it returns no simulation to go on with.
-/

namespace FactorSage

open JsNumber

variable {F : Type}

/-- Everything the loop needs about one list member inside the window being simulated. -/
structure SecurityRuntime (F : Type) where
  setup : BacktestSecuritySetup
  frame : EvaluationFrame F
  gates : StrategyGates
  /-- Index into the frame; the calendar only advances it. -/
  cursor : ℕ

/-- Moves a frame cursor forward to the last index at or before `date`. -/
def advanceCursor (runtime : SecurityRuntime F) (date : LocalDate) : ℕ :=
  runtime.cursor
    + ((runtime.frame.dates.drop (runtime.cursor + 1)).takeWhile (· ≤ date)).length

def SecurityRuntime.advanceTo (runtime : SecurityRuntime F) (date : LocalDate) :
    SecurityRuntime F :=
  { runtime with cursor := advanceCursor runtime date }

/-- The frame index of `date`, `none` when this security did not trade that day. -/
def frameIndexAt (runtime : SecurityRuntime F) (date : LocalDate) : Option ℕ :=
  if runtime.frame.dates[runtime.cursor]? = some date then some runtime.cursor else none

/-- The simulation: what the run fixed, what flows, and what the current window binds. -/
structure BacktestSimulation (F : Type) where
  run : BacktestRun F
  windows : List BacktestExecutionWindow
  state : SimulationState F
  /-- What the checkpoint observer has been handed. -/
  checkpoints : List (BacktestCheckpoint F)
  /-- The one preceding row per security, carried across the window boundary. -/
  contextRows : OrderedMap String (EvaluationFrameContextRow F)
  runtimes : List (SecurityRuntime F)
  nextWindowIndex : ℕ

variable [JsNumber F]

/-- One frame row with its gates, as the day reads it. -/
def runtimeRow (frame : EvaluationFrame F) (gates : StrategyGates) (index : ℕ) : RuntimeRow F where
  close := frame.closes[index]?.getD nan
  previousDate := if 0 < index then frame.dates[index - 1]? else none
  buyGate levelId := readGate (gates.buy.get? levelId) index
  sellGate levelId := readGate (gates.sell.get? levelId) index
  finalExitGate ruleIndex := readGate (gates.finalExit.bind (·[ruleIndex]?)) index

/-- The runtimes' rows of one date. -/
def todayRows (runtimes : List (SecurityRuntime F)) (date : LocalDate) : TodayRows F :=
  runtimes.map fun runtime =>
    (runtime.setup, (frameIndexAt runtime date).map (runtimeRow runtime.frame runtime.gates))

/-! ### The constructor -/

def assertInput (input : BacktestSimulationInput F) : Except String Unit :=
  if input.maximumPositions ≤ 0 then .error "maximumPositions must be a positive integer"
  else if !(isFinite input.initialCapital) || le input.initialCapital (ofInt 0) then
    .error "initialCapital must be a positive amount"
  else if !(isFinite input.monthlyContribution) || lt input.monthlyContribution (ofInt 0) then
    .error "monthlyContribution must be zero or a positive amount"
  else if input.endDate < input.startDate then .error "The period must start before it ends"
  else if input.securities.isEmpty then .error "A backtest needs at least one security"
  else if input.definition.buyLevels.isEmpty then
    .error "A strategy needs at least one BUY level"
  else .ok ()

/-- What the run fixes, over the calendar its period keeps. -/
def backtestRun (input : BacktestSimulationInput F) (options : BacktestSimulationOptions) :
    BacktestRun F :=
  let calendar := buildExecutionCalendar input.startDate input.endDate input.executionCalendar
  { input
    calendar
    contributionDates := buildContributionDates calendar
    fullPositionFraction := ofInt 1 / ofInt input.maximumPositions
    checkpointEveryDays := options.checkpointEveryDays.getD 5
    maxCurvePoints := options.maxCurvePoints.getD 360
    recentTradeCount := options.recentTradeCount.getD 10
    onCheckpoint := options.onCheckpoint }

/-- The state before the first date: the initial capital is the first external cash flow. -/
def initialState (input : BacktestSimulationInput F) : SimulationState F where
  ledger :=
    { positions := .empty
      epochs := .empty
      trades := []
      cash := quantizeMoney (decimal input.initialCapital)
      investedCapital := quantizeMoney (decimal input.initialCapital)
      realizedPnl := 0
      sequence := 0 }
  equity := []
  curve := []
  drawdown := .initial
  benchmarkDrawdown := .initial
  benchmark := .initial
  scenarios := ComparisonScenarios.initial.fund input.initialCapital
  returnIndex := ofInt 1
  previousTotalValue := input.initialCapital
  completedDays := 0

def createBacktestSimulation (input : BacktestSimulationInput F)
    (options : BacktestSimulationOptions) : Except String (BacktestSimulation F) := do
  assertInput input
  if input.executionCalendar.isEmpty then
    throw ("A backtest needs its execution calendar: the dates it simulates are methodology, not a "
      ++ "consequence of which securities happened to load")
  let run := backtestRun input options
  if run.calendar.isEmpty then
    throw "The requested period contains no eligible trading day for any security in the list"
  return {
    run
    windows := planExecutionWindows run.calendar input.startDate input.endDate
    state := initialState input
    checkpoints := []
    contextRows := .empty
    runtimes := []
    nextWindowIndex := 0 }

/-! ### Windows -/

/-- Binds one security's frame of this window, with the retained row in front. -/
def bindRuntime (definition : StrategyDefinition F)
    (contextRows : OrderedMap String (EvaluationFrameContextRow F))
    (setup : BacktestSecuritySetup) (frame : EvaluationFrame F) (index : ℕ) :
    Except String (SecurityRuntime F) := do
  if frame.securityId ≠ setup.securityId then
    throw s!"Backtest window frame {index} is {frame.securityId}, expected {setup.securityId}"
  let windowed ← withLeadingContextRow frame (contextRows.get? setup.securityId)
  return { setup, frame := windowed, gates := buildStrategyGates definition windowed, cursor := 0 }

def openWindow (simulation : BacktestSimulation F) (frames : List (EvaluationFrame F)) :
    Except String (BacktestSimulation F) := do
  let setups := simulation.run.input.securities
  if frames.length ≠ setups.length then
    throw (s!"A backtest window needs one frame per security: expected {setups.length}, "
      ++ s!"received {frames.length}")
  let runtimes ← (setups.zip frames).zipIdx.mapM fun entry =>
    bindRuntime simulation.run.input.definition simulation.contextRows entry.1.1 entry.1.2 entry.2
  return { simulation with runtimes }

/-- Retains a frame's last row, when it has one. -/
def retainRow (contextRows : OrderedMap String (EvaluationFrameContextRow F))
    (entry : BacktestSecuritySetup × EvaluationFrame F) :
    OrderedMap String (EvaluationFrameContextRow F) :=
  match evaluationFrameContextRow entry.2 with
  | some row => contextRows.set entry.1.securityId row
  | none => contextRows

/-- Retains one row per security and drops the window's frames and gates. -/
def closeWindow (simulation : BacktestSimulation F) : BacktestSimulation F :=
  { simulation with
    contextRows := (simulation.runtimes.map fun runtime => (runtime.setup, runtime.frame)).foldl
      retainRow simulation.contextRows
    runtimes := [] }

def simulateDate (simulation : BacktestSimulation F) (date : LocalDate) :
    Except String (BacktestSimulation F) :=
  if simulation.run.calendar[simulation.state.completedDays]? ≠ some date then
    .error (s!"Backtest window date {date} does not continue the execution calendar at position "
      ++ s!"{simulation.state.completedDays}")
  else
    let runtimes := simulation.runtimes.map (SecurityRuntime.advanceTo · date)
    let state := executeDay simulation.run date (todayRows runtimes date) simulation.state
    .ok { simulation with
      runtimes
      state
      checkpoints := simulation.checkpoints ++ (dayCheckpoint simulation.run date state).toList }

/-- Simulates one calendar-year window from the projections loaded for it. -/
def consumeWindow (simulation : BacktestSimulation F) (window : BacktestExecutionWindow)
    (frames : List (EvaluationFrame F)) : Except String (BacktestSimulation F) := do
  match simulation.windows[simulation.nextWindowIndex]? with
  | none =>
    throw s!"Backtest windows must be consumed in order: expected no further window, received {
      window.year}"
  | some expected =>
    if expected.index ≠ window.index then
      throw s!"Backtest windows must be consumed in order: expected {expected.year}, received {
        window.year}"
    let opened ← openWindow
      { simulation with nextWindowIndex := simulation.nextWindowIndex + 1 } frames
    let simulated ← window.dates.foldlM simulateDate opened
    return closeWindow simulated

/-- Simulates the whole period from one whole-period projection per security. -/
def consumeWholePeriod (simulation : BacktestSimulation F) (frames : List (EvaluationFrame F)) :
    Except String (BacktestSimulation F) := do
  if simulation.nextWindowIndex ≠ 0 then
    throw "The whole period can only be consumed by a simulation that has not started"
  let opened ← openWindow { simulation with nextWindowIndex := simulation.windows.length } frames
  let simulated ← simulation.run.calendar.foldlM simulateDate opened
  return closeWindow simulated

/-- What a caller may ask of a simulation. -/
inductive SimulationCall (F : Type) where
  | window (window : BacktestExecutionWindow) (frames : List (EvaluationFrame F))
  | wholePeriod (frames : List (EvaluationFrame F))

def consumeCall (simulation : BacktestSimulation F) :
    SimulationCall F → Except String (BacktestSimulation F)
  | .window window frames => consumeWindow simulation window frames
  | .wholePeriod frames => consumeWholePeriod simulation frames

/-! ### The durable result -/

/-- One open position as the result reports it. -/
def openPositionRow (totalValue : MoneyValue) (position : PositionState F) :
    BacktestOpenPosition F :=
  let lastPrice := quantizePrice (decimal position.lastPrice)
  let marketValueExact := quantizeMoney (position.shares * lastPrice)
  let costExact := costTotal position
  let marketValue : F := toNumber marketValueExact
  let cost : F := toNumber costExact
  { securityId := position.securityId
    symbol := position.symbol
    name := position.name
    openedDate := position.openedDate
    shares := sharesString position.shares
    averageCost := priceString position.averageCostValue
    lastPrice := priceString lastPrice
    lastPriceDate := position.lastPriceDate
    marketValue := moneyString marketValueExact
    unrealizedPnl := moneyString (quantizeMoney (marketValueExact - costExact))
    unrealizedPnlPercent :=
      if lt (ofInt 0) cost then (marketValue - cost) / cost * ofInt 100 else ofInt 0
    allocationPercent :=
      if 0 < totalValue then marketValue / toNumber totalValue * ofInt 100 else ofInt 0 }

/-- What one open position has gained since it was bought. -/
def unrealizedOf (position : PositionState F) : MoneyValue :=
  quantizeMoney (quantizeMoney (position.shares * quantizePrice (decimal position.lastPrice))
    - costTotal position)

/-- The open positions and their unrealized gain. -/
def finalPositions (positions : OrderedMap String (PositionState F)) (totalValue : MoneyValue) :
    List (BacktestOpenPosition F) × MoneyValue :=
  let sorted := sortedPositions positions
  (sorted.map (openPositionRow totalValue),
    sorted.foldl (fun unrealized position => quantizeMoney (unrealized + unrealizedOf position)) 0)

/-- Whether a trade's recorded profit satisfies a test; a trade that realized nothing has none. -/
def realizedSatisfies (test : MoneyValue → Bool) (trade : BacktestTradeRecord F) : Bool :=
  trade.realizedPnl.any fun pnl => test (quantizeMoney pnl.value)

/-- The summary, from the last equity point and the calendar's ends. -/
def buildSummary (run : BacktestRun F) (s : SimulationState F) (last : BacktestEquityPoint F)
    (firstDate lastDate : LocalDate) : BacktestSummary F :=
  let (openPositions, unrealizedPnl) :=
    finalPositions s.ledger.positions (quantizeMoney last.totalValue.value)
  let portfolioReturnPercent := indexToPercent last.returnIndex
  let benchmarkReturnPercent := last.benchmarkIndex.map indexToPercent
  { firstSimulatedDate := firstDate
    lastSimulatedDate := lastDate
    tradingDays := run.calendar.length
    investedCapital := moneyString s.ledger.investedCapital
    finalCash := last.cash
    finalPositionsValue := last.positionsValue
    finalValue := last.totalValue
    netProfit := moneyString
      (quantizeMoney (quantizeMoney last.totalValue.value - s.ledger.investedCapital))
    portfolioReturnPercent
    benchmarkReturnPercent
    alphaPercent := alphaPercent portfolioReturnPercent benchmarkReturnPercent
    portfolioCagrPercent := cagrPercent last.returnIndex firstDate lastDate
    maxDrawdownPercent := s.drawdown.maxDrawdownPercent
    benchmarkMaxDrawdownPercent :=
      run.input.benchmark.map fun _ => s.benchmarkDrawdown.maxDrawdownPercent
    realizedPnl := moneyString s.ledger.realizedPnl
    unrealizedPnl := moneyString unrealizedPnl
    totalTrades := s.ledger.trades.length
    buyTrades := s.ledger.trades.countP (·.action = .buy)
    sellTrades := s.ledger.trades.countP (·.action = .sell)
    finalExitTrades := s.ledger.trades.countP (·.action = .finalExit)
    winningTrades := s.ledger.trades.countP (realizedSatisfies fun pnl => decide (0 < pnl))
    losingTrades := s.ledger.trades.countP (realizedSatisfies fun pnl => decide (pnl < 0))
    openPositions := openPositions.length }

/-- The run's durable result; a simulation that has not consumed every window has none. -/
def finish (simulation : BacktestSimulation F) : Except String (BacktestResult F) :=
  if simulation.nextWindowIndex ≠ simulation.windows.length then
    .error (s!"The simulation has consumed {simulation.nextWindowIndex} of "
      ++ s!"{simulation.windows.length} execution windows; "
      ++ "a partially simulated run has no result")
  else
    let s := simulation.state
    -- a consumed window simulated at least one date, so these reads find something
    match s.equity.getLast?, simulation.run.calendar.head?, simulation.run.calendar.getLast? with
    | some last, some firstDate, some lastDate =>
      .ok
        { trades := s.ledger.trades
          equity := s.equity
          positions := (finalPositions s.ledger.positions (quantizeMoney last.totalValue.value)).1
          summary := buildSummary simulation.run s last firstDate lastDate }
    | _, _, _ => .error "A simulation without a simulated date has no result"

end FactorSage
