import FactorSage.Backtest.Conservation

/-!
# The end of the period

Two runs of one input that end on different dates of its calendar are the same run until the earlier
one ends, and ending changes what is held but not what it is worth.

* `runDays_endingAt` — the days before the earlier end.
* `valueDay_agrees` — two ledgers of equal worth are valued alike.
* `consumeWholePeriod_endDate` — the comparison of the two runs.
-/

namespace FactorSage

open JsNumber DecimalScale AscendingList ComparatorSort

variable {F : Type} [JsNumber F]

/-- The same input with its period ending on `d`. -/
def BacktestSimulationInput.endingAt (input : BacktestSimulationInput F) (d : LocalDate) :
    BacktestSimulationInput F :=
  { input with endDate := d }

/-- A run's state once it has simulated its dates up to `d`. -/
def stateThrough (input : BacktestSimulationInput F) (options : BacktestSimulationOptions)
    (frames : List (EvaluationFrame F)) (d : LocalDate) : SimulationState F :=
  runDays (backtestRun input options) (wholeRows input frames)
    ((backtestRun input options).calendar.filter (· ≤ d)) (initialState input)

/-! ### The calendar -/

section Calendar

variable {calendar : List LocalDate} {d : LocalDate}

/-- The dates up to one of them are the earlier ones and itself. -/
theorem filter_le_eq_append (h : calendar.Pairwise (· < ·)) (hd : d ∈ calendar) :
    calendar.filter (· ≤ d) = calendar.filter (· < d) ++ [d] := by
  refine eq_of_mem_iff (h.filter _) ?_ fun date => ?_
  · refine List.pairwise_append.mpr ⟨h.filter _, List.pairwise_singleton _ _, ?_⟩
    intro a ha b hb
    rw [List.mem_singleton.mp hb]
    simpa using (List.mem_filter.mp ha).2
  · simp only [List.mem_filter, List.mem_append, List.mem_singleton, decide_eq_true_eq]
    constructor
    · rintro ⟨hmem, hle⟩
      exact hle.lt_or_eq.imp (fun hlt => ⟨hmem, hlt⟩) id
    · rintro (⟨hmem, hlt⟩ | rfl)
      · exact ⟨hmem, hlt.le⟩
      · exact ⟨hd, le_rfl⟩

end Calendar

variable {input : BacktestSimulationInput F} {d : LocalDate}

theorem calendar_endingAt (options : BacktestSimulationOptions) (hde : d ≤ input.endDate) :
    (backtestRun (input.endingAt d) options).calendar
      = (backtestRun input options).calendar.filter (· ≤ d) :=
  buildExecutionCalendar_earlierEnd hde

/-- Which dates deposit a contribution does not depend on where the period ends after them. -/
theorem contributionOn_endingAt (options : BacktestSimulationOptions) (hde : d ≤ input.endDate)
    (hd : d ∈ (backtestRun input options).calendar) {date : LocalDate} (hdate : date ≤ d) :
    contributionOn (backtestRun (input.endingAt d) options) date
      = contributionOn (backtestRun input options) date := by
  have hascending : (backtestRun input options).calendar.Pairwise (· < ·) :=
    buildExecutionCalendar_ascending
  have hlater : date ∉ (backtestRun input options).calendar.filter (d < ·) := fun hmem =>
    not_lt.mpr hdate (by simpa using (List.mem_filter.mp hmem).2)
  have hearlier : (backtestRun input options).calendar.filter (· ≤ d) ≠ [] :=
    List.ne_nil_of_mem (List.mem_filter.mpr ⟨hd, by simp⟩)
  have hmem : date ∈ (backtestRun (input.endingAt d) options).contributionDates
      ↔ date ∈ (backtestRun input options).contributionDates := by
    have happend := mem_buildContributionDates_append hlater hearlier
    rw [filter_le_append_filter_lt hascending, ← calendar_endingAt options hde] at happend
    exact happend.symm
  unfold contributionOn
  simp only [hmem]
  rfl

/-! ### The days before the end -/

variable {s : SimulationState F}

/-- A date that ends neither run is simulated alike by both. -/
theorem executeDay_endingAt (options : BacktestSimulationOptions) (hde : d ≤ input.endDate)
    (hd : d ∈ (backtestRun input options).calendar) {date : LocalDate} (hdate : date ≤ d)
    (today : TodayRows F)
    (hshort : s.completedDays + 1 < (backtestRun (input.endingAt d) options).calendar.length) :
    executeDay (backtestRun (input.endingAt d) options) date today s
      = executeDay (backtestRun input options) date today s := by
  have hle : (backtestRun (input.endingAt d) options).calendar.length
      ≤ (backtestRun input options).calendar.length := by
    rw [calendar_endingAt options hde]
    exact List.length_filter_le _ _
  have hshorter : decide (s.completedDays + 1
      = (backtestRun (input.endingAt d) options).calendar.length) = false :=
    decide_eq_false (by omega)
  have hlonger : decide (s.completedDays + 1
      = (backtestRun input options).calendar.length) = false :=
    decide_eq_false (by omega)
  rw [executeDay, executeDay, hshorter, hlonger, contributionOn_endingAt options hde hd hdate]
  rfl

/-- **The days before the earlier end** leave both runs in one state. -/
theorem runDays_endingAt (options : BacktestSimulationOptions) (hde : d ≤ input.endDate)
    (hd : d ∈ (backtestRun input options).calendar) (rows : LocalDate → TodayRows F)
    {dates : List LocalDate} (hdates : ∀ date ∈ dates, date ≤ d)
    (hshort : s.completedDays + dates.length
      < (backtestRun (input.endingAt d) options).calendar.length) :
    runDays (backtestRun (input.endingAt d) options) rows dates s
      = runDays (backtestRun input options) rows dates s := by
  induction dates generalizing s with
  | nil => rw [runDays_nil, runDays_nil]
  | cons date rest ih =>
    rw [List.length_cons] at hshort
    rw [runDays_cons, runDays_cons,
      executeDay_endingAt options hde hd (hdates date List.mem_cons_self) _ (by omega)]
    refine ih (fun later hlater => hdates later (List.mem_cons_of_mem _ hlater)) ?_
    rw [executeDay_completedDays]
    omega

/-- A day that is not the last writes rows of the strategy alone. -/
theorem trades_executeDay_of_not_last (run : BacktestRun F) (date : LocalDate)
    (today : TodayRows F) (hlast : s.completedDays + 1 ≠ run.calendar.length) :
    (executeDay run date today s).ledger
        = recordPositionMetrics today date (tradedLedger run date today s)
      ∧ ∃ traded, (tradedLedger run date today s).trades = s.ledger.trades ++ traded
        ∧ ∀ trade ∈ traded, trade.source = .strategy := by
  constructor
  · rw [executeDay_ledger, decide_eq_false hlast]
    rfl
  · obtain ⟨traded, htraded, hsource⟩ := (executeDay_steps run date today s).1.trades_extend
    rw [applyContribution_trades] at htraded
    exact ⟨traded, htraded, fun trade hmem => (hsource trade hmem).2⟩

theorem source_runDays {run : BacktestRun F} (rows : LocalDate → TodayRows F)
    {dates : List LocalDate} (hs : ∀ trade ∈ s.ledger.trades, trade.source = .strategy)
    (hshort : s.completedDays + dates.length < run.calendar.length) :
    ∀ trade ∈ (runDays run rows dates s).ledger.trades, trade.source = .strategy := by
  induction dates generalizing s with
  | nil => exact hs
  | cons date rest ih =>
    rw [List.length_cons] at hshort
    obtain ⟨hledger, traded, htraded, hsource⟩ := trades_executeDay_of_not_last run date
      (rows date) (by omega : s.completedDays + 1 ≠ _)
    rw [runDays_cons]
    refine ih (fun trade hmem => ?_) ?_
    · rw [hledger] at hmem
      change trade ∈ (tradedLedger run date (rows date) s).trades at hmem
      rw [htraded] at hmem
      exact (List.mem_append.mp hmem).elim (hs trade) (hsource trade)
    · rw [executeDay_completedDays]
      omega

/-! ### The last day -/

/-- Two equity points that say the same of everything but cash and holdings. -/
structure AgreesInValue (point other : BacktestEquityPoint F) : Prop where
  date_eq : point.date = other.date
  totalValue_eq : point.totalValue = other.totalValue
  investedCapital_eq : point.investedCapital = other.investedCapital
  returnIndex_eq : point.returnIndex = other.returnIndex
  benchmarkIndex_eq : point.benchmarkIndex = other.benchmarkIndex
  benchmarkValue_eq : point.benchmarkValue = other.benchmarkValue
  cashBaselineValue_eq : point.cashBaselineValue = other.cashBaselineValue

/-- **Ledgers of equal worth are valued alike.** -/
theorem valueDay_agrees (series : Option (BenchmarkSeriesInput F)) (date : LocalDate)
    (contribution : F) (ledger other : Ledger F) (s : SimulationState F)
    (htotal : quantizeMoney (ledger.cash + positionsValue ledger.positions)
      = quantizeMoney (other.cash + positionsValue other.positions))
    (hinvested : ledger.investedCapital = other.investedCapital) :
    ∃ point valued,
      (valueDay series date contribution ledger s).equity = s.equity ++ [point]
        ∧ (valueDay series date contribution other s).equity = s.equity ++ [valued]
        ∧ AgreesInValue point valued ∧ point.date = date
        ∧ point.cash = moneyString ledger.cash
        ∧ point.positionsValue = moneyString (positionsValue ledger.positions)
        ∧ valued.totalValue
          = moneyString (quantizeMoney (other.cash + positionsValue other.positions)) := by
  refine ⟨_, _, rfl, rfl, ⟨rfl, congrArg moneyString htotal, congrArg moneyString hinvested, ?_,
    rfl, rfl, rfl⟩, rfl, rfl, rfl, rfl⟩
  exact congrArg (fun total => chainReturnIndex s.returnIndex s.previousTotalValue contribution
    (toNumber total)) htotal

theorem marketValue_recordPositionMetric (today : TodayRows F) (date : LocalDate)
    (position : PositionState F) :
    marketValue (recordPositionMetric today date position) = marketValue position := by
  unfold recordPositionMetric
  split
  · rfl
  · split <;> rfl

/-- Recording the day's metrics changes no holding's value. -/
theorem positionsValue_recordPositionMetrics (today : TodayRows F) (date : LocalDate)
    (ledger : Ledger F) :
    positionsValue (recordPositionMetrics today date ledger).positions
      = positionsValue ledger.positions := by
  rw [positionsValue_eq_sum, positionsValue_eq_sum, recordPositionMetrics,
    OrderedMap.values_mapValues, List.map_map]
  exact congrArg List.sum
    (List.map_congr_left fun position _ => marketValue_recordPositionMetric today date position)

theorem positionsValue_of_none {positions : OrderedMap String (PositionState F)}
    (h : ∀ id, positions.get? id = none) : positionsValue positions = 0 := by
  rw [positionsValue_eq_sum, OrderedMap.values_eq_nil_iff.mpr h]
  rfl

variable {sales : List (BacktestTradeRecord F)} {positions : List (PositionState F)}

theorem map_securityId_sales (h : List.Forall₂ (IsLiquidationOf d) positions sales) :
    sales.map (·.securityId) = positions.map PositionState.securityId := by
  induction h with
  | nil => rfl
  | cons hsale _ ih => rw [List.map_cons, List.map_cons, hsale.securityId_eq, ih]

/-- Among sales of distinct positions exactly one is of a given position. -/
theorem filter_sales_eq_singleton (h : List.Forall₂ (IsLiquidationOf d) positions sales)
    (hnodup : (positions.map PositionState.securityId).Nodup) {position : PositionState F}
    (hmem : position ∈ positions) :
    ∃ trade, sales.filter
        (fun t => t.source = .endOfBacktest ∧ t.securityId = position.securityId) = [trade]
      ∧ IsLiquidationOf d position trade := by
  induction h with
  | nil => cases hmem
  | @cons first sale rest others hsale hrest ih =>
    obtain ⟨hnew, hnodup⟩ := List.nodup_cons.mp hnodup
    rcases List.mem_cons.mp hmem with rfl | hmem
    · refine ⟨sale, ?_, hsale⟩
      rw [List.filter_cons_of_pos (by simp [hsale.source_eq, hsale.securityId_eq])]
      refine congrArg (sale :: ·) (List.filter_eq_nil_iff.mpr fun other hother => ?_)
      have hne : other.securityId ≠ position.securityId := fun heq => by
        rw [← map_securityId_sales hrest] at hnew
        exact hnew (heq ▸ List.mem_map.mpr ⟨other, hother, rfl⟩)
      simp [hne]
    · obtain ⟨trade, hfilter, hliquidates⟩ := ih hnodup hmem
      have hne : ¬ sale.securityId = position.securityId := by
        rw [hsale.securityId_eq]
        exact fun heq => hnew (heq ▸ List.mem_map.mpr ⟨position, hmem, rfl⟩)
      refine ⟨trade, ?_, hliquidates⟩
      rw [List.filter_cons_of_neg (by simp [hne]), hfilter]

theorem source_sales (h : List.Forall₂ (IsLiquidationOf d) positions sales) :
    ∀ sale ∈ sales, sale.source = .endOfBacktest := by
  induction h with
  | nil => simp
  | cons hsale _ ih => exact List.forall_mem_cons.mpr ⟨hsale.source_eq, ih⟩

/-! ### The two runs -/

/-- The state a date's own trading is valued in. -/
def fundedState (run : BacktestRun F) (date : LocalDate) (s : SimulationState F) :
    SimulationState F :=
  { s with scenarios := fundScenarios (contributionOn run date) s.scenarios }

/-- On its last date the shorter run trades like the longer one and then liquidates. -/
theorem executeDay_last (options : BacktestSimulationOptions) (hde : d ≤ input.endDate)
    (hd : d ∈ (backtestRun input options).calendar) (today : TodayRows F)
    (hlast : s.completedDays + 1 = (backtestRun (input.endingAt d) options).calendar.length) :
    executeDay (backtestRun (input.endingAt d) options) d today s
      = valueDay input.benchmark d (contributionOn (backtestRun input options) d)
          (recordPositionMetrics today d
            (liquidateRemainingPositions d (tradedLedger (backtestRun input options) d today s)))
          (fundedState (backtestRun input options) d s) := by
  rw [executeDay, decide_eq_true hlast, contributionOn_endingAt options hde hd le_rfl]
  rfl

theorem executeDay_notLast (run : BacktestRun F) (date : LocalDate) (today : TodayRows F)
    (hlast : s.completedDays + 1 ≠ run.calendar.length) :
    executeDay run date today s
      = valueDay run.input.benchmark date (contributionOn run date)
          (recordPositionMetrics today date (tradedLedger run date today s))
          (fundedState run date s) := by
  rw [executeDay, decide_eq_false hlast]
  rfl

/-- How a run that ends on `d` compares with a longer run of the same input, which is in the state
`through` after its trading on `d` and has the equity point `valued` there. -/
structure EndsNeutrally (d : LocalDate) (shorter longer : BacktestSimulation F)
    (through : SimulationState F) (valued : BacktestEquityPoint F) : Prop where
  trades_eq :
    shorter.state.ledger.trades.filter (fun t => t.source = .strategy ∧ t.date ≤ d)
      = longer.state.ledger.trades.filter fun t => t.source = .strategy ∧ t.date ≤ d
  equity_eq : ∃ earlier point later, shorter.state.equity = earlier ++ [point]
    ∧ longer.state.equity = earlier ++ valued :: later
    ∧ (∀ p ∈ earlier, p.date < d) ∧ (∀ p ∈ later, d < p.date)
    ∧ point.date = d ∧ AgreesInValue point valued
  sold : ∀ id position, through.ledger.positions.get? id = some position →
    ∃ trade, shorter.state.ledger.trades.filter
        (fun t => t.source = .endOfBacktest ∧ t.securityId = id) = [trade]
      ∧ IsLiquidationOf d position trade
  result : ∃ result, finish shorter = .ok result ∧ result.positions = []
    ∧ result.summary.finalPositionsValue.value = 0
    ∧ result.summary.finalCash = valued.totalValue

/-- What the last day of the shorter run and the same day of the longer one make of one state. -/
structure EndsDay (d : LocalDate) (s ended continued : SimulationState F)
    (point valued : BacktestEquityPoint F) : Prop where
  ended_equity : ended.equity = s.equity ++ [point]
  continued_equity : continued.equity = s.equity ++ [valued]
  agrees : AgreesInValue point valued
  date_eq : point.date = d
  cash_eq : point.cash = valued.totalValue
  positionsValue_eq : point.positionsValue = moneyString 0
  none_left : ∀ id, ended.ledger.positions.get? id = none
  /-- The ended run's log is the continued one's and one sale of each position. -/
  sales : ∃ sales positions, ended.ledger.trades = continued.ledger.trades ++ sales
    ∧ List.Forall₂ (IsLiquidationOf d) positions sales
    ∧ (positions.map PositionState.securityId).Nodup
    ∧ ∀ id position, continued.ledger.positions.get? id = some position →
      ∃ source ∈ positions, position.securityId = id ∧ source.securityId = id
        ∧ source.shares = position.shares ∧ marketValue source = marketValue position

section Lawful

variable [LawfulJsNumber F]

theorem endsDay_of_last (options : BacktestSimulationOptions) (hde : d ≤ input.endDate)
    (hd : d ∈ (backtestRun input options).calendar)
    (haccepted : IsAccepted (backtestRun input options)) (today : TodayRows F)
    {s : SimulationState F} (hconserved : Conserved (backtestRun input options) s)
    (hdate : (backtestRun input options).calendar[s.completedDays]? = some d)
    (hlast : s.completedDays + 1 = (backtestRun (input.endingAt d) options).calendar.length)
    (hlonger : s.completedDays + 1 ≠ (backtestRun input options).calendar.length) :
    ∃ point valued, EndsDay d s
      (executeDay (backtestRun (input.endingAt d) options) d today s)
      (executeDay (backtestRun input options) d today s) point valued := by
  obtain ⟨htraded, -, -⟩ := hconserved.ledger_day haccepted hdate today
  obtain ⟨hliquidates, hcash, hnone⟩ := liquidateRemainingPositions_spec htraded d
  have hworth : OnScale moneyScale ((tradedLedger (backtestRun input options) d today s).cash
      + positionsValue (tradedLedger (backtestRun input options) d today s).positions) :=
    htraded.cash_onScale.add (onScale_quantizeMoney _)
  have hnoneLeft : ∀ id, (recordPositionMetrics today d (liquidateRemainingPositions d
      (tradedLedger (backtestRun input options) d today s))).positions.get? id = none :=
    fun id => by
      rw [recordPositionMetrics, OrderedMap.get?_mapValues, hnone id]
      rfl
  have hzero := positionsValue_of_none hnoneLeft
  -- the liquidated ledger holds in cash what the other is worth
  obtain ⟨point, valued, hended, hcontinued, hagrees, hpointDate, hpointCash, hpointPositions,
    htotal⟩ := valueDay_agrees input.benchmark d (contributionOn (backtestRun input options) d)
      (recordPositionMetrics today d (liquidateRemainingPositions d
        (tradedLedger (backtestRun input options) d today s)))
      (recordPositionMetrics today d (tradedLedger (backtestRun input options) d today s))
      (fundedState (backtestRun input options) d s)
      (by
        rw [hzero, add_zero, positionsValue_recordPositionMetrics]
        exact congrArg quantizeMoney hcash)
      hliquidates.invested_eq
  refine ⟨point, valued, ?_⟩
  rw [executeDay_last options hde hd today hlast, executeDay_notLast _ d today hlonger]
  constructor
  · exact hended
  · exact hcontinued
  · exact hagrees
  · exact hpointDate
  · rw [hpointCash, htotal, positionsValue_recordPositionMetrics]
    change moneyString (liquidateRemainingPositions d _).cash
      = moneyString (quantizeMoney ((tradedLedger _ d today s).cash + _))
    rw [hcash, quantizeMoney_of_onScale hworth]
  · rw [hpointPositions, hzero]
  · exact hnoneLeft
  · obtain ⟨sales, htrades, hsales⟩ := hliquidates.trades_eq
    have hids := map_securityId_sortedPositions fun id position hget =>
      (htraded.held id position hget).securityId_eq
    refine ⟨sales, _, htrades, hsales,
      hids.nodup_iff.mpr (OrderedMap.nodup _), fun id position hget => ?_⟩
    change ((tradedLedger _ d today s).positions.mapValues _).get? id = some position at hget
    rw [OrderedMap.get?_mapValues, Option.map_eq_some_iff] at hget
    obtain ⟨source, hsource, rfl⟩ := hget
    have hsame : SameBook source (recordPositionMetric today d source) :=
      sameBook_recordPositionMetric source
    have hid := (htraded.held id source hsource).securityId_eq
    exact ⟨source, mem_sortedPositions.mpr ⟨id, hsource⟩, hsame.securityId_eq.trans hid, hid,
      hsame.shares_eq.symm, (marketValue_recordPositionMetric today d source).symm⟩

/-! ### Whole runs -/

/-- The calendar of the longer run around the date the shorter one ends on. -/
structure SplitsAt (input : BacktestSimulationInput F) (options : BacktestSimulationOptions)
    (d : LocalDate) (before after : List LocalDate) : Prop where
  calendar_eq : (backtestRun input options).calendar = before ++ d :: after
  through_eq : (backtestRun input options).calendar.filter (· ≤ d) = before ++ [d]
  shorter_eq : (backtestRun (input.endingAt d) options).calendar = before ++ [d]
  before_lt : ∀ date ∈ before, date < d
  after_gt : ∀ date ∈ after, d < date
  after_ne_nil : after ≠ []

omit [LawfulJsNumber F] in
theorem splitsAt_filter (options : BacktestSimulationOptions) (hde : d < input.endDate)
    (hd : d ∈ (backtestRun input options).calendar)
    (he : input.endDate ∈ (backtestRun input options).calendar) :
    SplitsAt input options d ((backtestRun input options).calendar.filter (· < d))
      ((backtestRun input options).calendar.filter (d < ·)) := by
  have hascending : (backtestRun input options).calendar.Pairwise (· < ·) :=
    buildExecutionCalendar_ascending
  have hthrough := filter_le_eq_append hascending hd
  constructor
  · conv_lhs => rw [← filter_le_append_filter_lt hascending d, hthrough, List.append_assoc,
      List.singleton_append]
  · exact hthrough
  · rw [calendar_endingAt options hde.le, hthrough]
  · exact fun date hdate => by simpa using (List.mem_filter.mp hdate).2
  · exact fun date hdate => by simpa using (List.mem_filter.mp hdate).2
  · exact List.ne_nil_of_mem (List.mem_filter.mpr ⟨he, by simpa using hde⟩)

omit [LawfulJsNumber F] in
theorem wholeRows_endingAt (input : BacktestSimulationInput F) (d : LocalDate)
    (frames : List (EvaluationFrame F)) :
    wholeRows (input.endingAt d) frames = wholeRows input frames := rfl

/-- The state both runs are in before `d`. -/
def stateBefore (input : BacktestSimulationInput F) (options : BacktestSimulationOptions)
    (frames : List (EvaluationFrame F)) (before : List LocalDate) : SimulationState F :=
  runDays (backtestRun input options) (wholeRows input frames) before (initialState input)

section Split

variable {options : BacktestSimulationOptions} {before after : List LocalDate}

omit [LawfulJsNumber F]

theorem completedDays_stateBefore (input : BacktestSimulationInput F)
    (options : BacktestSimulationOptions) (frames : List (EvaluationFrame F))
    (before : List LocalDate) :
    (stateBefore input options frames before).completedDays = before.length := by
  rw [stateBefore, runDays_completedDays]
  exact Nat.zero_add _

theorem SplitsAt.shorter_state (h : SplitsAt input options d before after)
    (hde : d ≤ input.endDate) (hd : d ∈ (backtestRun input options).calendar)
    (frames : List (EvaluationFrame F)) :
    (wholePeriodSimulation (input.endingAt d) options frames).state
      = executeDay (backtestRun (input.endingAt d) options) d (wholeRows input frames d)
          (stateBefore input options frames before) := by
  have hshort : (initialState input).completedDays + before.length
      < (backtestRun (input.endingAt d) options).calendar.length := by
    rw [h.shorter_eq, List.length_append, List.length_singleton]
    change 0 + before.length < _
    omega
  have hdays := runDays_endingAt options hde hd (wholeRows input frames)
    (fun date hdate => (h.before_lt date hdate).le) hshort
  have hinitial : initialState (input.endingAt d) = initialState input := rfl
  rw [wholePeriodSimulation_state, wholeRows_endingAt, h.shorter_eq, hinitial, runDays_append,
    hdays, runDays_cons, runDays_nil, stateBefore]

theorem SplitsAt.longer_state (h : SplitsAt input options d before after)
    (frames : List (EvaluationFrame F)) :
    (wholePeriodSimulation input options frames).state
      = runDays (backtestRun input options) (wholeRows input frames) after
          (executeDay (backtestRun input options) d (wholeRows input frames d)
            (stateBefore input options frames before)) := by
  rw [wholePeriodSimulation_state, h.calendar_eq, runDays_append, runDays_cons, stateBefore]

theorem SplitsAt.through_state (h : SplitsAt input options d before after)
    (frames : List (EvaluationFrame F)) :
    stateThrough input options frames d
      = executeDay (backtestRun input options) d (wholeRows input frames d)
          (stateBefore input options frames before) := by
  rw [stateThrough, h.through_eq, runDays_append, runDays_cons, runDays_nil, stateBefore]

end Split

omit [LawfulJsNumber F] in
/-- The comparison at the earlier end, carried over the rest of the longer run. -/
theorem EndsDay.endsNeutrally {run : BacktestRun F} {rows : LocalDate → TodayRows F}
    {after : List LocalDate} {s through : SimulationState F}
    {shorter longer : BacktestSimulation F} {point valued : BacktestEquityPoint F}
    (h : EndsDay d s shorter.state through point valued)
    (hlonger : longer.state = runDays run rows after through)
    (hafter : ∀ date ∈ after, d < date) (hearlier : ∀ p ∈ s.equity, p.date < d)
    (hsource : ∀ trade ∈ through.ledger.trades, trade.source = .strategy)
    (hresult : ∃ result, finish shorter = .ok result) :
    EndsNeutrally d shorter longer through valued := by
  obtain ⟨sales, positions, htrades, hsales, hnodup, hsources⟩ := h.sales
  have hsold := source_sales hsales
  constructor
  · -- neither the sales nor the later trades are rows of the strategy up to `d`
    obtain ⟨added, hadded, hdates⟩ := (isDayLog_trades run).runDays rows after through
    rw [hlonger, hadded, htrades, List.filter_append, List.filter_append]
    have hnoSale : sales.filter (fun t => t.source = .strategy ∧ t.date ≤ d) = [] :=
      List.filter_eq_nil_iff.mpr fun sale hsale => by simp [hsold sale hsale]
    have hnoLater : added.filter (fun t => t.source = .strategy ∧ t.date ≤ d) = [] :=
      List.filter_eq_nil_iff.mpr fun trade htrade => by
        simp [hafter trade.date (hdates trade htrade)]
    rw [hnoSale, hnoLater]
  · obtain ⟨later, hlater, hdates⟩ := (isDayLog_equity run).runDays rows after through
    refine ⟨s.equity, point, later, h.ended_equity, ?_, hearlier,
      fun p hp => hafter p.date (hdates p hp), h.date_eq, h.agrees⟩
    rw [hlonger, hlater, h.continued_equity, List.append_assoc]
    rfl
  · intro id position hget
    obtain ⟨source, hmem, hposition, hid, hshares, hvalue⟩ := hsources id position hget
    obtain ⟨trade, hfilter, hliquidates⟩ := filter_sales_eq_singleton hsales hnodup hmem
    have hnone : through.ledger.trades.filter
        (fun t => t.source = .endOfBacktest ∧ t.securityId = id) = [] :=
      List.filter_eq_nil_iff.mpr fun trade htrade => by simp [hsource trade htrade]
    refine ⟨trade, ?_, ?_⟩
    · rw [htrades, List.filter_append, hnone, List.nil_append, ← hid, hfilter]
    · exact
        { hliquidates with
          securityId_eq := by rw [hliquidates.securityId_eq, hid, hposition]
          shares_eq := hliquidates.shares_eq.trans hshares
          amount_eq := hliquidates.amount_eq.trans hvalue }
  · obtain ⟨result, hfinish⟩ := hresult
    obtain ⟨last, firstDate, lastDate, hlast, -, hpositions, hsummary⟩ := finish_spec hfinish
    rw [h.ended_equity, List.getLast?_concat] at hlast
    obtain rfl := Option.some.inj hlast
    refine ⟨result, hfinish, ?_, ?_, ?_⟩
    · rw [hpositions, finalPositions_of_none h.none_left]
    · rw [hsummary]
      change point.positionsValue.value = 0
      rw [h.positionsValue_eq, value_moneyString (onScale_zero _)]
    · rw [hsummary]
      exact h.cash_eq

/-- **The end of the period is value-neutral and cannot influence earlier days.** The run that ends
on `d` is the run that ends later up to `d`, where it turns what is held into what it is worth. -/
theorem consumeWholePeriod_endDate {options : BacktestSimulationOptions}
    {frames : List (EvaluationFrame F)} {created₁ created₂ shorter longer : BacktestSimulation F}
    (hcreated₁ : createBacktestSimulation (input.endingAt d) options = .ok created₁)
    (hcreated₂ : createBacktestSimulation input options = .ok created₂)
    (hshorter : consumeWholePeriod created₁ frames = .ok shorter)
    (hlonger : consumeWholePeriod created₂ frames = .ok longer)
    (hde : d < input.endDate) (hd : d ∈ (backtestRun input options).calendar)
    (he : input.endDate ∈ (backtestRun input options).calendar) :
    ∃ valued, EndsNeutrally d shorter longer (stateThrough input options frames d) valued := by
  obtain ⟨-, hcalendar, rfl⟩ := createBacktestSimulation_eq_ok_iff.mp hcreated₁
  obtain ⟨hinput, -, rfl⟩ := createBacktestSimulation_eq_ok_iff.mp hcreated₂
  obtain ⟨-, rfl⟩ := consumeWholePeriod_eq_ok_iff.mp hshorter
  obtain ⟨-, rfl⟩ := consumeWholePeriod_eq_ok_iff.mp hlonger
  have haccepted := isAccepted_backtestRun hinput options
  -- the longer calendar is the days before `d`, `d` and the days after it
  have hsplits := splitsAt_filter options hde hd he
  generalize (backtestRun input options).calendar.filter (· < d) = before at hsplits
  generalize (backtestRun input options).calendar.filter (d < ·) = after at hsplits
  have hshorterState := hsplits.shorter_state hde.le hd frames
  have hlongerState := hsplits.longer_state frames
  have hconserved : Conserved (backtestRun input options)
      (stateBefore input options frames before) :=
    (conserved_initialState haccepted).runDays haccepted _ hsplits.calendar_eq
  have hcompleted := completedDays_stateBefore input options frames before
  have hdate : (backtestRun input options).calendar[
      (stateBefore input options frames before).completedDays]? = some d := by
    rw [hcompleted, hsplits.calendar_eq, List.getElem?_append_right le_rfl, Nat.sub_self]
    rfl
  have hafter : 0 < after.length := List.length_pos_iff.mpr hsplits.after_ne_nil
  have hlength : (backtestRun input options).calendar.length
      = before.length + 1 + after.length := by
    rw [hsplits.calendar_eq, List.length_append, List.length_cons]
    omega
  have hlast : (stateBefore input options frames before).completedDays + 1
      = (backtestRun (input.endingAt d) options).calendar.length := by
    rw [hcompleted, hsplits.shorter_eq, List.length_append, List.length_singleton]
  obtain ⟨point, valued, hends⟩ := endsDay_of_last options hde.le hd haccepted
    (wholeRows input frames d) hconserved hdate hlast (by omega)
  rw [← hshorterState, ← hsplits.through_state frames] at hends
  rw [← hsplits.through_state frames] at hlongerState
  have hsource : ∀ trade ∈ (stateThrough input options frames d).ledger.trades,
      trade.source = .strategy := by
    refine source_runDays _ (fun trade hmem => absurd hmem List.not_mem_nil) ?_
    rw [hsplits.through_eq, List.length_append, List.length_singleton, hlength]
    change 0 + _ < _
    omega
  have hearlier : ∀ p ∈ (stateBefore input options frames before).equity, p.date < d := by
    have hdates := runDays_equity_dates (backtestRun input options) (wholeRows input frames)
      before (initialState input)
    intro p hp
    have hmem : p.date ∈ (stateBefore input options frames before).equity.map (·.date) :=
      List.mem_map.mpr ⟨p, hp, rfl⟩
    have hinitial : (initialState input).equity.map (·.date) = [] := rfl
    rw [stateBefore, hdates, hinitial, List.nil_append] at hmem
    exact hsplits.before_lt _ hmem
  exact ⟨valued, hends.endsNeutrally hlongerState hsplits.after_gt hearlier hsource
    (exists_finish_wholePeriodSimulation frames hcalendar)⟩

end Lawful

/-- The sample run beside the one that ends a day earlier. -/
theorem consumeWholePeriod_endDate_sample :
    ∃ valued, EndsNeutrally (.ofYmd 2021 1 4)
      (wholePeriodSimulation ((sampleInput.endingAt (.ofYmd 2021 1 5)).endingAt (.ofYmd 2021 1 4))
        sampleOptions [sampleFrame "A", sampleFrame "B"])
      (wholePeriodSimulation (sampleInput.endingAt (.ofYmd 2021 1 5)) sampleOptions
        [sampleFrame "A", sampleFrame "B"])
      (stateThrough (sampleInput.endingAt (.ofYmd 2021 1 5)) sampleOptions
        [sampleFrame "A", sampleFrame "B"] (.ofYmd 2021 1 4)) valued := by
  have hcreated : ∀ d : LocalDate, sampleInput.startDate ≤ d →
      (backtestRun (sampleInput.endingAt d) sampleOptions).calendar ≠ [] →
      createBacktestSimulation (sampleInput.endingAt d) sampleOptions
        = .ok (freshSimulation (sampleInput.endingAt d) sampleOptions) := fun d hstart hcalendar => by
    obtain ⟨haccepted, -, -⟩ :=
      createBacktestSimulation_eq_ok_iff.mp createBacktestSimulation_sampleInput
    exact createBacktestSimulation_eq_ok_iff.mpr
      ⟨{ haccepted with period := hstart }, hcalendar, rfl⟩
  have hconsumed : ∀ d : LocalDate,
      consumeWholePeriod (freshSimulation (sampleInput.endingAt d) sampleOptions)
          [sampleFrame "A", sampleFrame "B"]
        = .ok (wholePeriodSimulation (sampleInput.endingAt d) sampleOptions
            [sampleFrame "A", sampleFrame "B"]) := fun d =>
    consumeWholePeriod_eq_ok_iff.mpr ⟨.cons rfl (.cons rfl .nil), rfl⟩
  exact consumeWholePeriod_endDate (hcreated (.ofYmd 2021 1 4) (by decide) (by decide))
    (hcreated (.ofYmd 2021 1 5) (by decide) (by decide)) (hconsumed (.ofYmd 2021 1 4))
    (hconsumed (.ofYmd 2021 1 5)) (by decide) (by decide) (by decide)

end FactorSage
