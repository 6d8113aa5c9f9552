import FactorSage.Backtest.Types
import FactorSage.Strategy.Gates
import FactorSage.Strategy.Position

/-!
# One simulated day

What the simulation does on one date, in the fixed order of its methodology: contribution, marks,
exits, entries, the terminal liquidation on the last date, the position metrics, the day's value and
its checkpoint.

A position is an object the source reaches through several references; here a reference is the
security id, and each step reads the position it changes from the map it writes it back to.
-/

namespace FactorSage

open JsNumber ComparatorSort CodeUnits

variable {F : Type}

/-- What a run fixes before its first day. -/
structure BacktestRun (F : Type) where
  input : BacktestSimulationInput F
  calendar : List LocalDate
  contributionDates : List LocalDate
  fullPositionFraction : F
  checkpointEveryDays : ℕ
  maxCurvePoints : ℕ
  recentTradeCount : ℕ
  onCheckpoint : Bool

/-- What trading reads of a run. -/
structure ExecutionRules (F : Type) where
  definition : StrategyDefinition F
  maximumPositions : ℤ
  fullPositionFraction : F

def BacktestRun.rules (run : BacktestRun F) : ExecutionRules F where
  definition := run.input.definition
  maximumPositions := run.input.maximumPositions
  fullPositionFraction := run.fullPositionFraction

/-- What trading reads and writes: the book of the strategy's own portfolio. -/
structure Ledger (F : Type) where
  positions : OrderedMap String (PositionState F)
  /-- How many positions each security has opened. -/
  epochs : OrderedMap String ℕ
  trades : List (BacktestTradeRecord F)
  cash : MoneyValue
  investedCapital : MoneyValue
  realizedPnl : MoneyValue
  sequence : ℕ

/-- Everything that flows from one day into the next. -/
structure SimulationState (F : Type) where
  ledger : Ledger F
  equity : List (BacktestEquityPoint F)
  curve : List (BacktestCurvePoint F)
  drawdown : DrawdownTracker F
  benchmarkDrawdown : DrawdownTracker F
  benchmark : BenchmarkCursor F
  scenarios : ComparisonScenarios
  returnIndex : F
  previousTotalValue : F
  completedDays : ℕ

/-- What a day reads of one security's frame and gates, at the row of its date. -/
structure RuntimeRow (F : Type) where
  close : F
  /-- The date of the row before, `none` at the first row. -/
  previousDate : Option LocalDate
  buyGate : String → Evaluability
  sellGate : String → Evaluability
  /-- The gate of each FINAL EXIT rule, by position. -/
  finalExitGate : ℕ → Evaluability

/-- One date's reading of every security, in the run's order; `none` where it has no row. -/
abbrev TodayRows (F : Type) := List (BacktestSecuritySetup × Option (RuntimeRow F))

/-- The row of the runtime that answers to a security id. -/
def rowOf (today : TodayRows F) (securityId : String) : Option (RuntimeRow F) :=
  ((OrderedMap.ofList (today.map fun entry => (entry.1.securityId, entry.2))).get? securityId).join

/-! ### Orders -/

/-- The comparator of `sortedPositions`: symbol, then security id, by code units. -/
def comparePositions (left right : PositionState F) : ℤ :=
  if left.symbol ≠ right.symbol then if codeUnitLt left.symbol right.symbol then -1 else 1
  else if codeUnitLt left.securityId right.securityId then -1
  else 1

def sortedPositions (positions : OrderedMap String (PositionState F)) : List (PositionState F) :=
  sortBy comparePositions positions.values

/-- A BUY level that is TRUE today for one security. -/
structure BuyCandidate (F : Type) where
  setup : BacktestSecuritySetup
  row : RuntimeRow F
  levelId : String
  percentage : ℕ
  isTopUp : Bool
  /-- The level was settled and is reconsidered because capital was deposited today. -/
  isContributionTopUp : Bool

/-- Top-ups first, then the strongest signal, then symbol and security id. -/
def compareCandidates (left right : BuyCandidate F) : ℤ :=
  if left.isTopUp ≠ right.isTopUp then if left.isTopUp then -1 else 1
  else if left.percentage ≠ right.percentage then (right.percentage : ℤ) - left.percentage
  else if left.setup.symbol ≠ right.setup.symbol then
    if codeUnitLt left.setup.symbol right.setup.symbol then -1 else 1
  else if codeUnitLt left.setup.securityId right.setup.securityId then -1
  else 1

variable [JsNumber F]

/-- A close that is a price: finite and positive. -/
def isPrice (close : F) : Bool := isFinite close && lt (ofInt 0) close

/-! ### Cash in and marks -/

/-- The contribution applied on a date, `0` on most. -/
def contributionOn (run : BacktestRun F) (date : LocalDate) : F :=
  if lt (ofInt 0) run.input.monthlyContribution && decide (date ∈ run.contributionDates) then
    run.input.monthlyContribution
  else ofInt 0

/-- Whether a day's contribution deposits anything. -/
def isDeposit (contribution : F) : Bool := lt (ofInt 0) contribution

def applyContribution (contribution : F) (s : Ledger F) : Ledger F :=
  if isDeposit contribution then
    let deposit := quantizeMoney (decimal contribution)
    { s with
      cash := quantizeMoney (s.cash + deposit)
      investedCapital := quantizeMoney (s.investedCapital + deposit) }
  else s

/-- Marks one holding at today's close, when the security has one. -/
def markPosition (today : TodayRows F) (date : LocalDate) (position : PositionState F) :
    PositionState F :=
  match rowOf today position.securityId with
  | none => position
  | some row =>
    if isPrice row.close then { position with lastPrice := row.close, lastPriceDate := date }
    else position

def markHoldings (today : TodayRows F) (date : LocalDate) (s : Ledger F) : Ledger F :=
  { s with positions := s.positions.mapValues (markPosition today date) }

/-! ### Exits -/

def recordTrade (trade : BacktestTradeRecord F) (s : Ledger F) : Ledger F :=
  { s with
    sequence := s.sequence + 1
    trades := s.trades ++ [{ trade with sequence := s.sequence + 1 }] }

/-- One sale: how it is labelled in the log, how many shares and at which price. -/
structure SaleOrder where
  action : BacktestTradeAction
  source : BacktestTradeSource
  levelId : Option String
  exitRuleId : Option String
  levelPercentage : Option ℕ
  shares : MoneyValue
  price : MoneyValue

/-- The sell path every exit takes. A position left without shares is closed: no shares and no basis
remain after it, so its trade row reports zero and none. -/
def executeSale (date : LocalDate) (position : PositionState F) (order : SaleOrder)
    (s : Ledger F) : Ledger F :=
  let (sold, outcome) := applySell position order.shares order.price v1Fee
  let cash := quantizeMoney (s.cash + exitCashInflow outcome.proceeds v1Fee)
  recordTrade
    { sequence := s.sequence
      date
      securityId := position.securityId
      symbol := position.symbol
      name := position.name
      action := order.action
      source := order.source
      levelId := order.levelId
      exitRuleId := order.exitRuleId
      levelPercentage := order.levelPercentage
      shares := sharesString order.shares
      price := priceString order.price
      amount := moneyString outcome.proceeds
      fees := moneyString v1Fee
      realizedPnl := some (moneyString outcome.realizedPnl)
      realizedPnlPercent :=
        if 0 < outcome.costRemoved then
          some (toNumber outcome.realizedPnl / toNumber outcome.costRemoved * ofInt 100)
        else none
      cashAfter := moneyString cash
      sharesAfter := sharesString sold.shares
      averageCostAfter :=
        if 0 < sold.shares then some (priceString sold.averageCostValue) else none }
    { s with
      cash
      realizedPnl := quantizeMoney (s.realizedPnl + outcome.realizedPnl)
      positions :=
        if 0 < sold.shares then s.positions.set position.securityId sold
        else s.positions.erase position.securityId }

/-- Every FINAL EXIT rule's result: its own gate ANDed with its own position half. -/
def exitRuleResults (rules : List (StrategyExitRule F)) (row : RuntimeRow F)
    (context : PositionEvaluationContext F) : List Evaluability :=
  rules.mapIdx fun ruleIndex rule =>
    evaluabilityAnd (row.finalExitGate ruleIndex) (evaluatePositionSignal rule.signal context)

/-- The FINAL EXIT of one position today, if any rule matched: all its shares. -/
def finalExitOrder (definition : StrategyDefinition F) (row : RuntimeRow F)
    (position : PositionState F) : Option SaleOrder :=
  definition.finalExit.bind fun finalExit =>
    let results := exitRuleResults finalExit.rules row
      { close := row.close, position, previousDate := row.previousDate }
    if evaluabilityAny results = .true then
      let matched := (finalExit.rules.zip results).find? fun entry => entry.2 = .true
      some
        { action := .finalExit
          source := .strategy
          levelId := some finalExit.id
          exitRuleId := matched.map fun entry => entry.1.id
          levelPercentage := none
          shares := position.shares
          price := quantizePrice (decimal row.close) }
    else none

/-- The partial SELL of one level today, if it matched and moves a share. -/
def sellOrder (level : StrategySellLevel F) (row : RuntimeRow F) (position : PositionState F) :
    Option SaleOrder :=
  if position.shares ≤ 0 ∨ level.id ∈ position.sellLevelsFired then none
  else if evaluabilityAnd (row.sellGate level.id) (evaluatePositionSignal level.signal
      { close := row.close, position, previousDate := row.previousDate }) ≠ .true then none
  else
    let shares := quantizeSharesDown (decimalDiv (position.shares * level.percentage) 100)
    if shares ≤ 0 then none
    else
      some
        { action := .sell
          source := .strategy
          levelId := some level.id
          exitRuleId := none
          levelPercentage := some level.percentage
          shares
          price := quantizePrice (decimal row.close) }

/-- One SELL level of one position. A position an earlier level closed is no longer in the map. -/
def executeSellLevel (date : LocalDate) (row : RuntimeRow F) (securityId : String)
    (s : Ledger F) (level : StrategySellLevel F) : Ledger F :=
  match s.positions.get? securityId with
  | none => s
  | some position =>
    match sellOrder level row position with
    | none => s
    | some order =>
      executeSale date
        { position with sellLevelsFired := position.sellLevelsFired.insert level.id } order s

/-- The exits of one position: FINAL EXIT outranks the SELL levels. -/
def executeExits (rules : ExecutionRules F) (today : TodayRows F) (date : LocalDate)
    (s : Ledger F) (securityId : String) : Ledger F :=
  match s.positions.get? securityId, rowOf today securityId with
  | some position, some row =>
    if !(isPrice row.close) then s
    else
      match finalExitOrder rules.definition row position with
      | some order => executeSale date position order s
      | none => rules.definition.sellLevels.foldl (executeSellLevel date row securityId) s
  | _, _ => s

/-- Exits in the canonical position order. -/
def executeAllExits (rules : ExecutionRules F) (today : TodayRows F) (date : LocalDate)
    (s : Ledger F) : Ledger F :=
  ((sortedPositions s.positions).map PositionState.securityId).foldl (executeExits rules today date) s

/-! ### Entries -/

/-- The strongest BUY level that is TRUE today and not dormant. -/
structure BestBuyLevel where
  levelId : String
  percentage : ℕ
  settled : Bool

/-- The loop body over the BUY levels. A settled level is dormant but on a deposit date. -/
def considerBuyLevel (row : RuntimeRow F) (settled : List String) (depositedToday : Bool)
    (best : Option BestBuyLevel) (level : StrategyBuyLevel F) : Option BestBuyLevel :=
  let alreadySettled := decide (level.id ∈ settled)
  if alreadySettled && !depositedToday then best
  else if row.buyGate level.id ≠ .true then best
  else if best.all fun b => decide (b.percentage < level.percentage) then
    some { levelId := level.id, percentage := level.percentage, settled := alreadySettled }
  else best

def bestBuyLevel (definition : StrategyDefinition F) (row : RuntimeRow F) (settled : List String)
    (depositedToday : Bool) : Option BestBuyLevel :=
  definition.buyLevels.foldl (considerBuyLevel row settled depositedToday) none

/-- The candidate of one security today. -/
def buyCandidate (rules : ExecutionRules F) (date : LocalDate) (contribution : F)
    (openAtDayStart : List String) (positions : OrderedMap String (PositionState F))
    (entry : BacktestSecuritySetup × Option (RuntimeRow F)) : Option (BuyCandidate F) :=
  entry.2.bind fun row =>
    let setup := entry.1
    let position := positions.get? setup.securityId
    if !(isBuyWindowEligible setup.buyWindows date) then none
    -- closed earlier today; a fresh position waits for the next eligible date
    else if position.isNone && decide (setup.securityId ∈ openAtDayStart) then none
    else
      (bestBuyLevel rules.definition row
          ((position.map PositionState.buyLevelsSettled).getD []) (isDeposit contribution)).map
        fun best =>
          { setup
            row
            levelId := best.levelId
            percentage := best.percentage
            isTopUp := position.isSome
            isContributionTopUp := best.settled }

/-- What a purchase buys. -/
structure Fill where
  shares : MoneyValue
  price : MoneyValue
  amount : MoneyValue

/-- The defensive retreat: one share unit at a time until the amount is affordable. -/
def retreat (available price : MoneyValue) (shares : MoneyValue) : ℕ → Fill
  | 0 => { shares, price, amount := quantizeMoney (shares * price) }
  | fuel + 1 =>
    if available < quantizeMoney (shares * price) ∧ 0 < shares then
      retreat available price (shares - sharesUlp) fuel
    else { shares, price, amount := quantizeMoney (shares * price) }

/-- The loop steps one unit down at a time, so it runs at most once per unit. -/
def retreatFuel (shares : MoneyValue) : ℕ := ⌈shares * 10 ^ sharesScale⌉₊

/-- What the shares may cost: the shortfall, or the whole balance when it is not enough. An infinite
shortfall exceeds any balance; one that is not a number buys nothing. -/
def spendOf (shortfall : F) (available : MoneyValue) : Option MoneyValue :=
  if isNaN shortfall then none
  else if !(isFinite shortfall) then some available
  else
    let spend := quantizeMoney (decimal shortfall)
    some (if available < spend then available else spend)

/-- The exact side of sizing: what a shortfall buys at a close, `none` when nothing is buyable. A
price that quantizes to zero has no finite quotient. -/
def sizePurchase (cash : MoneyValue) (shortfall close : F) : Option Fill :=
  let available := spendableAfterFees cash v1Fee
  let buyPrice := quantizePrice (decimal close)
  (spendOf shortfall available).bind fun spend =>
    if buyPrice = 0 then none
    else
      let shares := quantizeSharesDown (decimalDiv spend buyPrice)
      let fill := retreat available buyPrice shares (retreatFuel shares)
      if 0 < fill.shares ∧ 0 < fill.amount then some fill else none

/-- What is missing to the candidate's target, a decision in doubles. -/
def shortfallOf (fullPositionBudget : F) (percentage : ℕ) (close : F)
    (position : Option (PositionState F)) : F :=
  let target := fullPositionBudget * ofInt percentage / ofInt 100
  let currentValue :=
    match position with
    | some position => toNumber position.shares * close
    | none => ofInt 0
  JsNumber.max (target - currentValue) (ofInt 0)

/-- A tier settles itself and every smaller one. -/
def settleTiers (definition : StrategyDefinition F) (percentage : ℕ) (position : PositionState F) :
    PositionState F :=
  { position with
    buyLevelsSettled := definition.buyLevels.foldl (fun settled level =>
      if level.percentage ≤ percentage then settled.insert level.id else settled)
      position.buyLevelsSettled }

/-- A position as its first BUY finds it. -/
def newPosition (setup : BacktestSecuritySetup) (epoch : ℕ) (date : LocalDate) (close : F) :
    PositionState F where
  securityId := setup.securityId
  symbol := setup.symbol
  name := setup.name
  epoch := epoch
  openedDate := date
  shares := 0
  averageCostValue := 0
  costTotalValue := 0
  buyLevelsSettled := []
  sellLevelsFired := []
  previousSignedReturnPercent := none
  previousValueDate := none
  lastPrice := close
  lastPriceDate := date
  realizedPnl := 0

/-- Buys a fill into a position and writes the trade. -/
def executeBuy (date : LocalDate) (candidate : BuyCandidate F) (position : PositionState F)
    (fill : Fill) (s : Ledger F) : Ledger F :=
  let bought :=
    { applyBuy position fill.shares fill.amount v1Fee with
      lastPrice := candidate.row.close
      lastPriceDate := date }
  let cash := quantizeMoney (s.cash - buyCashOutflow fill.amount v1Fee)
  recordTrade
    { sequence := s.sequence
      date
      securityId := position.securityId
      symbol := position.symbol
      name := position.name
      action := .buy
      source := .strategy
      levelId := some candidate.levelId
      exitRuleId := none
      levelPercentage := some candidate.percentage
      shares := sharesString fill.shares
      price := priceString fill.price
      amount := moneyString fill.amount
      fees := moneyString v1Fee
      realizedPnl := none
      realizedPnlPercent := none
      cashAfter := moneyString cash
      sharesAfter := sharesString bought.shares
      averageCostAfter := some (priceString bought.averageCostValue) }
    { s with cash, positions := s.positions.set position.securityId bought }

/-- One candidate, against the position and the cash it finds. -/
def executeCandidate (rules : ExecutionRules F) (date : LocalDate) (fullPositionBudget : F)
    (s : Ledger F) (candidate : BuyCandidate F) : Ledger F :=
  let close := candidate.row.close
  let setup := candidate.setup
  if !(isPrice close) then s
  else
    let position := s.positions.get? setup.securityId
    let fill := sizePurchase s.cash
      (shortfallOf fullPositionBudget candidate.percentage close position) close
    match position with
    | some position =>
      -- the tier is consumed whether or not the cash was there
      let settled := settleTiers rules.definition candidate.percentage position
      match fill with
      | none => { s with positions := s.positions.set settled.securityId settled }
      | some fill => executeBuy date candidate settled fill s
    | none =>
      if candidate.isContributionTopUp then s
      else if rules.maximumPositions ≤ s.positions.size then s
      else
        match fill with
        | none => s
        | some fill =>
          let epoch := (s.epochs.get? setup.securityId).getD 0 + 1
          executeBuy date candidate
            (settleTiers rules.definition candidate.percentage
              (newPosition setup epoch date close)) fill
            { s with epochs := s.epochs.set setup.securityId epoch }

/-- Market value of every open position, exact. -/
def positionsValue (positions : OrderedMap String (PositionState F)) : MoneyValue :=
  quantizeMoney (positions.sum fun position =>
    quantizeMoney (position.shares * quantizePrice (decimal position.lastPrice)))

/-- Entries: gathers the candidates, fixes the day's budget once, and executes them in order. -/
def executeEntries (rules : ExecutionRules F) (today : TodayRows F) (date : LocalDate)
    (contribution : F) (openAtDayStart : List String) (s : Ledger F) : Ledger F :=
  let candidates :=
    today.filterMap (buyCandidate rules date contribution openAtDayStart s.positions)
  let portfolioValue : F := toNumber s.cash + toNumber (positionsValue s.positions)
  let fullPositionBudget := portfolioValue * rules.fullPositionFraction
  (sortBy compareCandidates candidates).foldl (executeCandidate rules date fullPositionBudget) s

/-! ### The end of the period -/

/-- The terminal sale of one position, at the price it was last marked at. -/
def liquidationOrder (position : PositionState F) : SaleOrder where
  action := .sell
  source := .endOfBacktest
  levelId := none
  exitRuleId := none
  levelPercentage := none
  shares := position.shares
  price := quantizePrice (decimal position.lastPrice)

def liquidatePosition (date : LocalDate) (s : Ledger F) (securityId : String) :
    Ledger F :=
  match s.positions.get? securityId with
  | none => s
  | some position =>
    if position.shares ≤ 0 then { s with positions := s.positions.erase securityId }
    else executeSale date position (liquidationOrder position) s

/-- Sells every position still open, in the canonical position order. -/
def liquidateRemainingPositions (date : LocalDate) (s : Ledger F) : Ledger F :=
  ((sortedPositions s.positions).map PositionState.securityId).foldl (liquidatePosition date) s

/-! ### The day's record -/

/-- The position metric that actually held today, for tomorrow's Trigger. -/
def recordPositionMetric (today : TodayRows F) (date : LocalDate) (position : PositionState F) :
    PositionState F :=
  match rowOf today position.securityId with
  | none => position
  | some row =>
    if isPrice row.close then
      { position with
        previousSignedReturnPercent := some (gainPercent row.close (averageCost position))
        previousValueDate := some date }
    else position

def recordPositionMetrics (today : TodayRows F) (date : LocalDate) (s : Ledger F) :
    Ledger F :=
  { s with positions := s.positions.mapValues (recordPositionMetric today date) }

/-- Values the day, extends the curves and counts the day as completed. -/
def valueDay (benchmarkSeries : Option (BenchmarkSeriesInput F)) (date : LocalDate)
    (contribution : F) (ledger : Ledger F) (s : SimulationState F) : SimulationState F :=
  let holdingsValue := positionsValue ledger.positions
  let totalValueExact := quantizeMoney (ledger.cash + holdingsValue)
  let totalValue : F := toNumber totalValueExact
  let returnIndex := chainReturnIndex s.returnIndex s.previousTotalValue contribution totalValue
  let (benchmarkClose, benchmark) := s.benchmark.closeAt benchmarkSeries date
  let (benchmarkIndex, benchmark) := benchmark.indexFor benchmarkClose
  let (benchmarkValue, scenarios) := s.scenarios.markBenchmark benchmarkClose
  { ledger
    equity := s.equity ++
      [{ date
         cash := moneyString ledger.cash
         positionsValue := moneyString holdingsValue
         totalValue := moneyString totalValueExact
         investedCapital := moneyString ledger.investedCapital
         returnIndex
         benchmarkIndex
         benchmarkValue := benchmarkValue.map moneyString
         cashBaselineValue := moneyString scenarios.baseline
         openPositions := ledger.positions.size }]
    curve := s.curve ++
      [{ date
         portfolioReturnPercent := indexToPercent returnIndex
         benchmarkReturnPercent := benchmarkIndex.map indexToPercent
         strategyValue := totalValue
         benchmarkValue := benchmarkValue.map toNumber
         cashBaselineValue := toNumber scenarios.baseline }]
    drawdown := s.drawdown.observe returnIndex
    benchmarkDrawdown := benchmarkIndex.elim s.benchmarkDrawdown s.benchmarkDrawdown.observe
    benchmark
    scenarios
    returnIndex
    previousTotalValue := totalValue
    completedDays := s.completedDays + 1 }

/-- The strategy's own trading on a date: contribution, marks, exits and entries. -/
def tradeDay (rules : ExecutionRules F) (date : LocalDate) (contribution : F) (today : TodayRows F)
    (ledger : Ledger F) : Ledger F :=
  let marked := markHoldings today date (applyContribution contribution ledger)
  executeEntries rules today date contribution marked.positions.keys
    (executeAllExits rules today date marked)

/-- The ledger a date ends with. On the calendar's last date every open position is liquidated. -/
def closeDay (isLastDay : Bool) (today : TodayRows F) (date : LocalDate) (ledger : Ledger F) :
    Ledger F :=
  recordPositionMetrics today date
    (if isLastDay then liquidateRemainingPositions date ledger else ledger)

/-- The contribution reaches the comparison scenarios on the date it reaches the strategy. -/
def fundScenarios (contribution : F) (scenarios : ComparisonScenarios) : ComparisonScenarios :=
  if isDeposit contribution then scenarios.fund contribution else scenarios

/-- One date under what the run says about it. -/
def simulateDay (rules : ExecutionRules F) (benchmarkSeries : Option (BenchmarkSeriesInput F))
    (contribution : F) (isLastDay : Bool) (date : LocalDate) (today : TodayRows F)
    (s : SimulationState F) : SimulationState F :=
  valueDay benchmarkSeries date contribution
    (closeDay isLastDay today date (tradeDay rules date contribution today s.ledger))
    { s with scenarios := fundScenarios contribution s.scenarios }

/-- One simulated date of a run. -/
def executeDay (run : BacktestRun F) (date : LocalDate) (today : TodayRows F)
    (s : SimulationState F) : SimulationState F :=
  simulateDay run.rules run.input.benchmark (contributionOn run date)
    (decide (s.completedDays + 1 = run.calendar.length)) date today s

/-! ### Checkpoints -/

/-- One holding as a checkpoint reports it. -/
def checkpointHolding (totalValue : F) (position : PositionState F) :
    BacktestCheckpointHolding F :=
  let marketValue : F :=
    toNumber (quantizeMoney (position.shares * quantizePrice (decimal position.lastPrice)))
  let cost : F := toNumber (costTotal position)
  { securityId := position.securityId
    symbol := position.symbol
    name := position.name
    shares := toNumber position.shares
    averageCost := averageCost position
    lastPrice := position.lastPrice
    lastPriceDate := position.lastPriceDate
    marketValue
    unrealizedPnlPercent :=
      if lt (ofInt 0) cost then (marketValue - cost) / cost * ofInt 100 else ofInt 0
    allocationPercent :=
      if lt (ofInt 0) totalValue then marketValue / totalValue * ofInt 100 else ofInt 0 }

/-- `slice(-count)` of the trade log, newest first. A count of zero slices nothing off. -/
def recentTrades (trades : List (BacktestTradeRecord F)) (count : ℕ) :
    List (BacktestTradeRecord F) :=
  if count = 0 then trades.reverse else (trades.drop (trades.length - count)).reverse

/-- A total that overflowed the doubles stays infinite through the ledger and back. -/
def checkpointNetProfit (totalValue : F) (investedCapital : MoneyValue) : F :=
  if isFinite totalValue then
    toNumber (quantizeMoney (quantizeMoney (decimal totalValue) - investedCapital))
  else totalValue

/-- The live projection of a day just valued, from the state it left and its own points. -/
def buildCheckpoint (run : BacktestRun F) (milestone : Option ℕ) (point : BacktestEquityPoint F)
    (curvePoint : BacktestCurvePoint F) (s : SimulationState F) : BacktestCheckpoint F :=
  let portfolioReturnPercent := indexToPercent s.returnIndex
  let benchmarkReturnPercent := point.benchmarkIndex.map indexToPercent
  let holdings :=
    (sortedPositions s.ledger.positions).map (checkpointHolding curvePoint.strategyValue)
  { simulatedThrough := point.date
    milestone
    completedDays := s.completedDays
    totalDays := run.calendar.length
    cash := toNumber s.ledger.cash
    positionsValue := toNumber (positionsValue s.ledger.positions)
    totalValue := curvePoint.strategyValue
    investedCapital := toNumber s.ledger.investedCapital
    netProfit := checkpointNetProfit curvePoint.strategyValue s.ledger.investedCapital
    portfolioReturnPercent
    benchmarkReturnPercent
    alphaPercent := alphaPercent portfolioReturnPercent benchmarkReturnPercent
    portfolioCagrPercent :=
      run.calendar.head?.bind fun firstDate => cagrPercent s.returnIndex firstDate point.date
    maxDrawdownPercent := s.drawdown.maxDrawdownPercent
    benchmarkValue := curvePoint.benchmarkValue
    cashBaselineValue := curvePoint.cashBaselineValue
    tradeCount := s.ledger.trades.length
    openPositions := holdings.length
    curve := downsample F s.curve run.maxCurvePoints
    holdings
    recentTrades := recentTrades s.ledger.trades run.recentTradeCount }

/-- The checkpoint of a day just valued: on the first day, on the cadence and at a year's last date,
never on the run's last day. -/
def dayCheckpoint (run : BacktestRun F) (date : LocalDate) (s : SimulationState F) :
    Option (BacktestCheckpoint F) :=
  match run.calendar[s.completedDays]?, s.equity.getLast?, s.curve.getLast? with
  | some nextDate, some point, some curvePoint =>
    let isYearBoundary := decide (nextDate.year ≠ date.year)
    let isCadence := s.completedDays = 1 || s.completedDays % run.checkpointEveryDays = 0
    if run.onCheckpoint && (isCadence || isYearBoundary) then
      some (buildCheckpoint run (if isYearBoundary then some date.year else none) point curvePoint s)
    else none
  | _, _, _ => none

end FactorSage
