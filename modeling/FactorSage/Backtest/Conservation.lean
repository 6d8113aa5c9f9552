import FactorSage.Backtest.Liquidation
import FactorSage.Backtest.Reachable

/-!
# Money is conserved

The ledger's identities over whole runs, from any reachable simulation.

* `capitalReceived` — what has come in by a date.
* `Conserved` — the invariant of a day, and `Conserved.day` the step that keeps it.
* `conservesMoney_of_reachable` — every reachable simulation conserves money: its log, its equity
  points and, once it has a result, its summary.
-/

namespace FactorSage

open JsNumber DecimalScale

variable {F : Type} [JsNumber F]

/-! ### Capital -/

/-- What a date deposits, on the money scale. -/
def depositOn (run : BacktestRun F) (date : LocalDate) : MoneyValue :=
  if isDeposit (contributionOn run date) then quantizeMoney (decimal (contributionOn run date))
  else 0

/-- The capital a run has received by the end of a date. -/
def capitalReceived (run : BacktestRun F) (date : LocalDate) : MoneyValue :=
  quantizeMoney (decimal run.input.initialCapital)
    + ((run.calendar.filter (· ≤ date)).map (depositOn run)).sum

/-- The capital received within a number of completed days. -/
def capitalAfter (run : BacktestRun F) (days : ℕ) : MoneyValue :=
  quantizeMoney (decimal run.input.initialCapital)
    + ((run.calendar.take days).map (depositOn run)).sum

theorem onScale_depositOn (run : BacktestRun F) (date : LocalDate) :
    OnScale moneyScale (depositOn run date) := by
  unfold depositOn
  split
  · exact onScale_quantizeMoney _
  · exact onScale_zero _

/-- In an ascending calendar the dates up to the next one are those completed and itself. -/
theorem filter_le_eq_take {calendar : List LocalDate} (h : calendar.Pairwise (· < ·)) {days : ℕ}
    {date : LocalDate} (hdate : calendar[days]? = some date) :
    calendar.filter (· ≤ date) = calendar.take (days + 1) := by
  refine AscendingList.eq_of_mem_iff (h.filter _) (h.sublist (List.take_sublist _ _)) fun d => ?_
  rw [List.mem_filter, decide_eq_true_eq, List.mem_take_iff_getElem, List.mem_iff_getElem]
  constructor
  · rintro ⟨⟨i, hi, rfl⟩, hle⟩
    have hindex := (AscendingList.le_iff_index_le h (List.getElem?_eq_getElem hi) hdate).mp hle
    exact ⟨i, by omega, rfl⟩
  · rintro ⟨i, hi, rfl⟩
    have hlt : i < calendar.length := by omega
    exact ⟨⟨i, hlt, rfl⟩,
      (AscendingList.le_iff_index_le h (List.getElem?_eq_getElem hlt) hdate).mpr (by omega)⟩

theorem capitalReceived_eq {run : BacktestRun F} (h : run.calendar.Pairwise (· < ·)) {days : ℕ}
    {date : LocalDate} (hdate : run.calendar[days]? = some date) :
    capitalReceived run date = capitalAfter run (days + 1) := by
  rw [capitalReceived, capitalAfter, filter_le_eq_take h hdate]

theorem capitalAfter_succ {run : BacktestRun F} {days : ℕ} {date : LocalDate}
    (hdate : run.calendar[days]? = some date) :
    capitalAfter run (days + 1) = capitalAfter run days + depositOn run date := by
  rw [capitalAfter, capitalAfter, List.take_add_one, hdate, List.map_append, List.sum_append]
  simp [add_assoc]

/-! ### A day -/

/-- The arithmetic of one equity point. -/
structure IsBalanced (run : BacktestRun F) (point : BacktestEquityPoint F) : Prop where
  totalValue_eq : point.totalValue.value = point.cash.value + point.positionsValue.value
  baseline_eq : point.cashBaselineValue.value = point.investedCapital.value
  invested_eq : point.investedCapital.value = capitalReceived run point.date
  cash_nonneg : 0 ≤ point.cash.value

/-- The invariant of a run's state, day after day. -/
structure Conserved (run : BacktestRun F) (s : SimulationState F) : Prop where
  ledger : LedgerInvariant (capitalReceived run) s.ledger
  invested_eq : s.ledger.investedCapital = capitalAfter run s.completedDays
  baseline_eq : s.scenarios.baseline = s.ledger.investedCapital
  balanced : ∀ point ∈ s.equity, IsBalanced run point
  /-- The last point values the ledger as it stands. -/
  last : ∀ point, s.equity.getLast? = some point →
    point.cash = moneyString s.ledger.cash
      ∧ point.totalValue
        = moneyString (quantizeMoney (s.ledger.cash + positionsValue s.ledger.positions))
  /-- After the last date of the calendar every position has been liquidated. -/
  liquidated : s.completedDays ≠ 0 → s.completedDays = run.calendar.length →
    ∀ id, s.ledger.positions.get? id = none

/-- What `assertInput` and the calendar make of a run. -/
structure IsAccepted (run : BacktestRun F) : Prop where
  input : AcceptedInput run.input
  ascending : run.calendar.Pairwise (· < ·)

theorem isAccepted_backtestRun {input : BacktestSimulationInput F} (h : AcceptedInput input)
    (options : BacktestSimulationOptions) : IsAccepted (backtestRun input options) :=
  ⟨h, buildExecutionCalendar_ascending⟩

theorem baseline_markBenchmark (scenarios : ComparisonScenarios) (close : Option F) :
    (scenarios.markBenchmark close).2.baseline = scenarios.baseline := by
  cases close with
  | none => rfl
  | some close =>
    unfold ComparisonScenarios.markBenchmark
    simp only
    split <;> rfl

/-- The equity point of a day, from the ledger the day ends with. -/
theorem executeDay_point (run : BacktestRun F) (date : LocalDate) (today : TodayRows F)
    (s : SimulationState F) :
    ∃ point, (executeDay run date today s).equity = s.equity ++ [point]
      ∧ point.date = date
      ∧ point.cash = moneyString (executeDay run date today s).ledger.cash
      ∧ point.positionsValue
        = moneyString (positionsValue (executeDay run date today s).ledger.positions)
      ∧ point.totalValue = moneyString (quantizeMoney
          ((executeDay run date today s).ledger.cash
            + positionsValue (executeDay run date today s).ledger.positions))
      ∧ point.investedCapital = moneyString (executeDay run date today s).ledger.investedCapital
      ∧ point.cashBaselineValue = moneyString (executeDay run date today s).scenarios.baseline :=
  ⟨_, rfl, rfl, rfl, rfl, rfl, rfl, rfl⟩

theorem baseline_executeDay (run : BacktestRun F) (date : LocalDate) (today : TodayRows F)
    (s : SimulationState F) :
    (executeDay run date today s).scenarios.baseline
      = (fundScenarios (contributionOn run date) s.scenarios).baseline :=
  baseline_markBenchmark _ _

section Lawful

variable [LawfulJsNumber F] {run : BacktestRun F} {s : SimulationState F} {date : LocalDate}

/-- Only the monthly contribution deposits anything, and it is a finite positive amount. -/
theorem deposit_spec (h : IsAccepted run) (hdeposit : isDeposit (contributionOn run date) = true) :
    isFinite (contributionOn run date) = true
      ∧ lt (ofInt 0) (contributionOn run date) = true := by
  refine ⟨?_, hdeposit⟩
  unfold contributionOn at hdeposit ⊢
  split
  · exact h.input.monthlyContribution_finite
  · next hno =>
    rw [if_neg hno, isDeposit, LawfulJsNumber.lt_irrefl] at hdeposit
    cases hdeposit

theorem depositOn_nonneg (h : IsAccepted run) (date : LocalDate) : 0 ≤ depositOn run date := by
  unfold depositOn
  split
  · next hdeposit =>
    obtain ⟨hfinite, hpos⟩ := deposit_spec h hdeposit
    exact quantizeMoney_nonneg (LawfulJsNumber.toDecimal_pos _ hfinite hpos).le
  · exact le_rfl

omit [LawfulJsNumber F] in
/-- A contribution adds what it deposits to cash and to the capital. -/
theorem applyContribution_eq {ledger : Ledger F} (hcash : OnScale moneyScale ledger.cash)
    (hinvested : OnScale moneyScale ledger.investedCapital) (run : BacktestRun F)
    (date : LocalDate) :
    applyContribution (contributionOn run date) ledger
      = { ledger with
          cash := ledger.cash + depositOn run date
          investedCapital := ledger.investedCapital + depositOn run date } := by
  unfold applyContribution depositOn
  split
  · simp only [quantizeMoney_of_onScale (hcash.add (onScale_quantizeMoney _)),
      quantizeMoney_of_onScale (hinvested.add (onScale_quantizeMoney _))]
  · simp only [add_zero]

theorem LedgerInvariant.contribute {received : LocalDate → MoneyValue} {ledger : Ledger F}
    (h : LedgerInvariant received ledger) (haccepted : IsAccepted run) (date : LocalDate) :
    LedgerInvariant received (applyContribution (contributionOn run date) ledger) := by
  rw [applyContribution_eq h.cash_onScale h.invested_onScale]
  have hscale := onScale_depositOn run date
  exact
    { h with
      cash_onScale := h.cash_onScale.add hscale
      cash_nonneg := add_nonneg h.cash_nonneg (depositOn_nonneg haccepted date)
      invested_onScale := h.invested_onScale.add hscale
      cash_eq := by
        have := h.cash_eq
        simp only
        linarith
      cost_eq := by
        have := h.cost_eq
        simp only
        linarith }

/-- A finite positive amount funds the scenarios with its money value. -/
theorem baseline_fund {amount : F} (hfinite : isFinite amount = true)
    (hpos : lt (ofInt 0) amount = true) (scenarios : ComparisonScenarios) :
    (scenarios.fund amount).baseline
      = quantizeMoney (scenarios.baseline + quantizeMoney (decimal amount)) := by
  have hle : le amount (ofInt 0) = false := by
    rw [LawfulJsNumber.le_zero amount hfinite, hpos]
    rfl
  simp [ComparisonScenarios.fund, hfinite, hle]

theorem baseline_fundScenarios (h : IsAccepted run) {scenarios : ComparisonScenarios}
    (hscale : OnScale moneyScale scenarios.baseline) (date : LocalDate) :
    (fundScenarios (contributionOn run date) scenarios).baseline
      = scenarios.baseline + depositOn run date := by
  unfold fundScenarios depositOn
  split
  · next hdeposit =>
    obtain ⟨hfinite, hpos⟩ := deposit_spec h hdeposit
    rw [baseline_fund hfinite hpos,
      quantizeMoney_of_onScale (hscale.add (onScale_quantizeMoney _))]
  · rw [add_zero]

/-- The initial capital is a positive amount. -/
theorem initialCapital_spec (h : IsAccepted run) :
    lt (ofInt 0) run.input.initialCapital = true
      ∧ 0 ≤ quantizeMoney (decimal run.input.initialCapital) := by
  have hlt : lt (ofInt 0) run.input.initialCapital = true := by
    have hle := LawfulJsNumber.le_zero _ h.input.initialCapital_finite
    rw [h.input.initialCapital_pos] at hle
    simpa using hle
  exact ⟨hlt, quantizeMoney_nonneg
    (LawfulJsNumber.toDecimal_pos _ h.input.initialCapital_finite hlt).le⟩

/-- The state before the first date. -/
theorem conserved_initialState (h : IsAccepted run) : Conserved run (initialState run.input) := by
  obtain ⟨hpos, hnonneg⟩ := initialCapital_spec h
  have hscale := onScale_quantizeMoney (decimal run.input.initialCapital)
  constructor
  · constructor
    · exact hscale
    · exact hnonneg
    · exact hscale
    · exact onScale_zero _
    · exact (add_zero _).symm
    · rfl
    · rfl
    · intro id position hget
      cases hget
    · exact isLedgerLog_nil _
  · exact (add_zero _).symm
  · change (ComparisonScenarios.initial.fund run.input.initialCapital).baseline = _
    rw [baseline_fund h.input.initialCapital_finite hpos]
    change quantizeMoney (0 + _) = _
    rw [zero_add, quantizeMoney_of_onScale hscale]
    rfl
  · intro point hpoint
    cases hpoint
  · intro point hpoint
    cases hpoint
  · intro hne
    exact absurd rfl hne

/-- The ledger a date ends with, under the capital received by that date. -/
theorem Conserved.ledger_day (h : Conserved run s) (haccepted : IsAccepted run)
    (hdate : run.calendar[s.completedDays]? = some date) (today : TodayRows F) :
    LedgerInvariant (capitalReceived run) (tradedLedger run date today s)
      ∧ LedgerInvariant (capitalReceived run) (executeDay run date today s).ledger
      ∧ (executeDay run date today s).ledger.investedCapital
        = capitalAfter run (s.completedDays + 1) := by
  have hfunded := h.ledger.contribute haccepted date
  have hcapital : (applyContribution (contributionOn run date) s.ledger).investedCapital
      = capitalAfter run (s.completedDays + 1) := by
    rw [applyContribution_eq h.ledger.cash_onScale h.ledger.invested_onScale, h.invested_eq,
      capitalAfter_succ hdate]
  have hreceived : (applyContribution (contributionOn run date) s.ledger).investedCapital
      = capitalReceived run date := by
    rw [hcapital, capitalReceived_eq haccepted.ascending hdate]
  obtain ⟨htrading, hclosing⟩ := executeDay_steps run date today s
  have htraded := hfunded.steps hreceived htrading
  have htradedCapital := LedgerSteps.investedCapital_eq htrading
  exact ⟨htraded, htraded.steps (htradedCapital.trans hreceived) hclosing,
    ((LedgerSteps.investedCapital_eq hclosing).trans htradedCapital).trans hcapital⟩

/-- **One day conserves money.** -/
theorem Conserved.day (h : Conserved run s) (haccepted : IsAccepted run)
    (hdate : run.calendar[s.completedDays]? = some date) (today : TodayRows F) :
    Conserved run (executeDay run date today s) := by
  obtain ⟨htraded, hledger, hinvested⟩ := h.ledger_day haccepted hdate today
  -- what is funded on the day is what the day's ledger receives
  have hbaseline : (executeDay run date today s).scenarios.baseline
      = (executeDay run date today s).ledger.investedCapital := by
    have hscale : OnScale moneyScale s.scenarios.baseline := by
      rw [h.baseline_eq]
      exact h.ledger.invested_onScale
    rw [baseline_executeDay, baseline_fundScenarios haccepted hscale, h.baseline_eq,
      h.invested_eq, hinvested, capitalAfter_succ hdate]
  obtain ⟨point, hequity, hpointDate, hcash, hpositions, htotal, hcapital, hbase⟩ :=
    executeDay_point run date today s
  have hpositionsScale : OnScale moneyScale
      (positionsValue (executeDay run date today s).ledger.positions) := onScale_quantizeMoney _
  constructor
  · exact hledger
  · exact hinvested
  · exact hbaseline
  · rw [hequity]
    intro p hp
    rcases List.mem_append.mp hp with hp | hp
    · exact h.balanced p hp
    · obtain rfl := List.mem_singleton.mp hp
      constructor
      · rw [htotal, hcash, hpositions, value_moneyString hledger.cash_onScale,
          value_moneyString hpositionsScale, value_moneyString (onScale_quantizeMoney _),
          quantizeMoney_of_onScale (hledger.cash_onScale.add hpositionsScale)]
      · rw [hbase, hcapital, hbaseline]
      · rw [hcapital, value_moneyString hledger.invested_onScale, hinvested, hpointDate,
          capitalReceived_eq haccepted.ascending hdate]
      · rw [hcash, value_moneyString hledger.cash_onScale]
        exact hledger.cash_nonneg
  · intro p hp
    rw [hequity, List.getLast?_concat] at hp
    obtain rfl := Option.some.inj hp
    exact ⟨hcash, htotal⟩
  · intro _ hlast id
    have hlastDay : decide (s.completedDays + 1 = run.calendar.length) = true := by
      rw [decide_eq_true_iff, ← hlast, executeDay_completedDays]
    rw [executeDay_ledger, closeDay, if_pos hlastDay, recordPositionMetrics,
      OrderedMap.get?_mapValues,
      (liquidateRemainingPositions_spec htraded date).2.2 id]
    rfl

/-- Days that continue the calendar conserve money. -/
theorem Conserved.runDays (h : Conserved run s) (haccepted : IsAccepted run)
    (rows : LocalDate → TodayRows F) {dates later : List LocalDate}
    (hcalendar : run.calendar.drop s.completedDays = dates ++ later) :
    Conserved run (FactorSage.runDays run rows dates s) := by
  induction dates generalizing s with
  | nil => exact h
  | cons date rest ih =>
    have hdate : run.calendar[s.completedDays]? = some date := by
      rw [← List.head?_drop, hcalendar]
      rfl
    refine ih (h.day haccepted hdate (rows date)) ?_
    rw [executeDay_completedDays, ← List.drop_drop, hcalendar]
    rfl

/-- **Every day of a run conserves money.** -/
theorem conserved_of_reachableState (haccepted : IsAccepted run) (h : ReachableState run s) :
    Conserved run s := by
  induction h with
  | refl => exact conserved_initialState haccepted
  | tail _ day ih =>
    obtain ⟨date, today, hdate, -, rfl⟩ := day
    exact ih.day haccepted hdate today

/-! ### The result -/

omit [LawfulJsNumber F] in
/-- What a result reports, read off the simulation's state and its last point. -/
theorem finish_spec {simulation : BacktestSimulation F} {result : BacktestResult F}
    (h : finish simulation = .ok result) :
    ∃ last firstDate lastDate, simulation.state.equity.getLast? = some last
      ∧ result.trades = simulation.state.ledger.trades
      ∧ result.positions = (finalPositions simulation.state.ledger.positions
          (quantizeMoney last.totalValue.value)).1
      ∧ result.summary
        = buildSummary simulation.run simulation.state last firstDate lastDate := by
  unfold finish at h
  split at h
  · cases h
  · simp only at h
    split at h
    · next last firstDate lastDate hlast _ _ =>
      obtain rfl := Except.ok.inj h
      exact ⟨last, firstDate, lastDate, hlast, rfl, rfl, rfl⟩
    · cases h

omit [LawfulJsNumber F] in
theorem finalPositions_of_none {positions : OrderedMap String (PositionState F)}
    (h : ∀ id, positions.get? id = none) (totalValue : MoneyValue) :
    finalPositions positions totalValue = ([], 0) := by
  have hvalues : positions.values = [] := OrderedMap.values_eq_nil_iff.mpr h
  have hsorted : sortedPositions positions = [] := by
    rw [sortedPositions, hvalues]
    rfl
  rw [finalPositions, hsorted]
  rfl

/-- What a result says about money once the period has ended. -/
structure IsSettled (result : BacktestResult F) : Prop where
  positions_eq : result.positions = []
  finalCash_eq : result.summary.finalCash = result.summary.finalValue
  unrealizedPnl_eq : result.summary.unrealizedPnl.value = 0
  netProfit_eq : result.summary.netProfit.value = result.summary.realizedPnl.value
  realizedPnl_eq : result.summary.realizedPnl.value = realizedTotal result.trades

omit [LawfulJsNumber F] in
/-- **A run whose positions are liquidated is settled**: what it earned is what its trades
realized. -/
theorem Conserved.isSettled {simulation : BacktestSimulation F} {result : BacktestResult F}
    (h : Conserved run simulation.state)
    (hnone : ∀ id, simulation.state.ledger.positions.get? id = none)
    (hfinish : finish simulation = .ok result) : IsSettled result := by
  obtain ⟨last, firstDate, lastDate, hlast, htrades, hpositions, hsummary⟩ := finish_spec hfinish
  obtain ⟨hcash, htotal⟩ := h.last last hlast
  have hfinal := finalPositions_of_none hnone (quantizeMoney last.totalValue.value)
  have hvalues : simulation.state.ledger.positions.values = [] :=
    OrderedMap.values_eq_nil_iff.mpr hnone
  have hvalue : positionsValue simulation.state.ledger.positions = 0 := by
    rw [positionsValue_eq_sum, hvalues]
    rfl
  have hcashScale := h.ledger.cash_onScale
  have htotalCash : last.totalValue = moneyString simulation.state.ledger.cash := by
    rw [htotal, hvalue, add_zero, quantizeMoney_of_onScale hcashScale]
  -- with nothing open, cash is the capital and what was realized
  have hprofit : simulation.state.ledger.cash - simulation.state.ledger.investedCapital
      = simulation.state.ledger.realizedPnl := by
    have hcost := h.ledger.cost_eq
    rw [OrderedMap.sum, hvalues] at hcost
    simp only [List.map_nil, List.sum_nil, add_zero] at hcost
    linarith
  constructor
  · rw [hpositions, hfinal]
  · rw [hsummary]
    change last.cash = last.totalValue
    rw [hcash, htotalCash]
  · rw [hsummary]
    change (moneyString (finalPositions simulation.state.ledger.positions
      (quantizeMoney last.totalValue.value)).2).value = 0
    rw [hfinal, value_moneyString (onScale_zero _)]
  · rw [hsummary]
    change (moneyString (quantizeMoney (quantizeMoney last.totalValue.value - _))).value
      = (moneyString simulation.state.ledger.realizedPnl).value
    rw [htotalCash, value_moneyString hcashScale, quantizeMoney_of_onScale hcashScale, hprofit,
      quantizeMoney_of_onScale h.ledger.realized_onScale]
  · rw [hsummary, htrades, ← h.ledger.realized_eq]
    exact value_moneyString h.ledger.realized_onScale

/-- What every reachable simulation keeps. -/
structure ConservesMoney (run : BacktestRun F) (simulation : BacktestSimulation F) : Prop where
  cash_nonneg : 0 ≤ simulation.state.ledger.cash
  log : IsLedgerLog (capitalReceived run) simulation.state.ledger.trades
  balanced : ∀ point ∈ simulation.state.equity, IsBalanced run point
  settled : ∀ result, finish simulation = .ok result → IsSettled result

/-- **The decimal ledger conserves money over every run**: at every simulation a caller can reach,
over whatever frames, cash is not negative, every trade row and every equity point adds up, and a
finished run has turned its profit into cash. -/
theorem conservesMoney_of_reachable {input : BacktestSimulationInput F}
    {options : BacktestSimulationOptions} {simulation : BacktestSimulation F}
    (h : Reachable input options simulation) :
    ConservesMoney (backtestRun input options) simulation := by
  obtain ⟨haccepted, hcalendar⟩ := h.acceptedInput
  have hreached := h.reached
  have hconserved :=
    conserved_of_reachableState (isAccepted_backtestRun haccepted options) hreached.state
  refine ⟨hconserved.ledger.cash_nonneg, hconserved.ledger.log, hconserved.balanced,
    fun result hfinish => ?_⟩
  have hcompleted := hreached.completedDays_of_finish hfinish
  refine hconserved.isSettled (hconserved.liquidated ?_ hcompleted) hfinish
  rw [hcompleted]
  exact fun hzero => hcalendar (List.length_eq_zero_iff.mp hzero)

end Lawful

/-- The sample run over its whole period. -/
theorem conservesMoney_sample :
    ConservesMoney (backtestRun sampleInput sampleOptions)
      (wholePeriodSimulation sampleInput sampleOptions [sampleFrame "A", sampleFrame "B"]) :=
  conservesMoney_of_reachable reachable_sample

end FactorSage
