import FactorSage.Backtest.Passive
import FactorSage.Library.Backlog

/-!
# How the benchmark scenario is funded

The scenario the strategy is compared with receives the same cash flows, each on its own date, and
invests what it has at the first price from there on: what becomes investable on one date is divided
by that date's price together. Its value on a date is what the shares bought so far are worth at the
close in effect, and absent where the series has no close in effect or one that is no price.

`Funded` is the invariant of a run's state; a day keeps it (`Funded.executeDay`) because the pending
capital is the backlog of cash flows no usable date has served.
-/

namespace FactorSage

open JsNumber DecimalScale Backlog

variable {F : Type} [JsNumber F]

/-! ### What a run's benchmark is worth -/

/-- How many dates of a series are at or before a date. -/
def barsUpTo (series : BenchmarkSeriesInput F) (date : LocalDate) : ℕ :=
  (series.dates.takeWhile (· ≤ date)).length

/-- The close of the last bar at or before a date, when it is a price. -/
def closeInEffect (series : Option (BenchmarkSeriesInput F)) (date : LocalDate) : Option F :=
  series.bind fun series =>
    match barsUpTo series date with
    | 0 => none
    | index + 1 => series.closes[index]?.filter isPrice

/-- The price a date's capital is invested and marked at. -/
def benchmarkPriceOn (run : BacktestRun F) (date : LocalDate) : Option MoneyValue :=
  (closeInEffect run.input.benchmark date).map fun close => quantizePrice (decimal close)

/-- A price that buys something. -/
def isUsableOn (run : BacktestRun F) (date : LocalDate) : Bool :=
  (benchmarkPriceOn run date).any fun price => decide (0 < price)

/-- The external cash flows of a run over some of its dates: the initial capital on the first date
of the calendar, and each date's contribution. -/
def externalCashFlows (run : BacktestRun F) (dates : List LocalDate) : List (LocalDate × MoneyValue) :=
  (run.calendar.head?.toList.map fun first =>
      (first, quantizeMoney (decimal run.input.initialCapital)))
    ++ dates.map fun date => (date, depositOn run date)

/-- The capital a date invests: every cash flow whose first usable date it is. -/
def capitalInvestedOn (run : BacktestRun F) (date : LocalDate) : MoneyValue :=
  served (isUsableOn run) run.calendar (externalCashFlows run run.calendar) date

/-- The shares a date buys. -/
def sharesBoughtOn (run : BacktestRun F) (date : LocalDate) : Option MoneyValue :=
  (benchmarkPriceOn run date).bind fun price =>
    if 0 < capitalInvestedOn run date ∧ 0 < price then
      some (decimalDiv (capitalInvestedOn run date) price)
    else none

/-- The shares bought over some dates. -/
def sharesBought (run : BacktestRun F) (dates : List LocalDate) : MoneyValue :=
  (dates.filterMap (sharesBoughtOn run)).foldl decimalPlus 0

/-- What the scenario is worth on a date. -/
def benchmarkValueOn (run : BacktestRun F) (date : LocalDate) : Option MoneyString :=
  (benchmarkPriceOn run date).map fun price => moneyString (quantizeMoney
    (decimalTimes (sharesBought run (run.calendar.filter (· ≤ date))) price))

/-! ### The cursor -/

/-- A cursor that nothing has moved, or one that an earlier date left behind. -/
def BenchmarkCursor.IsBehind (cursor : BenchmarkCursor F)
    (series : Option (BenchmarkSeriesInput F)) (date : LocalDate) : Prop :=
  ∀ s, series = some s → cursor.passed = 0 ∨ ∃ p ≤ date, cursor.passed = barsUpTo s p

section Cursor

variable {cursor : BenchmarkCursor F} {series : Option (BenchmarkSeriesInput F)}
  {date : LocalDate}

omit [JsNumber F] in
theorem passed_advance {s : BenchmarkSeriesInput F}
    (h : cursor.passed = 0 ∨ ∃ p ≤ date, cursor.passed = barsUpTo s p) :
    (cursor.advance s date).passed = barsUpTo s date := by
  change cursor.passed + ((s.dates.drop cursor.passed).takeWhile (· ≤ date)).length = _
  rcases h with hzero | ⟨p, hp, hpassed⟩
  · rw [hzero, Nat.zero_add, List.drop_zero, barsUpTo]
  · rw [hpassed]
    unfold barsUpTo
    rw [← List.length_append, ← AscendingList.takeWhile_le_split hp]

/-- **The cursor reads the close in effect**, and stays behind later dates. -/
theorem BenchmarkCursor.IsBehind.closeAt (h : cursor.IsBehind series date) :
    (cursor.closeAt series date).1 = closeInEffect series date
      ∧ ∀ later, date ≤ later → (cursor.closeAt series date).2.IsBehind series later := by
  cases series with
  | none => exact ⟨rfl, fun _ _ s hs => by cases hs⟩
  | some s =>
    have hpassed := passed_advance (h s rfl)
    constructor
    · change (cursor.advance s date).currentClose s = _
      unfold BenchmarkCursor.currentClose closeInEffect
      rw [hpassed]
      rfl
    · intro later hlater s' hs'
      obtain rfl := Option.some.inj hs'
      exact .inr ⟨date, hlater, hpassed⟩

end Cursor

/-! ### A day -/

section Day

variable (run : BacktestRun F) (date : LocalDate) (today : TodayRows F) (s : SimulationState F)

/-- The scenario after a day: funded, then marked at the close the cursor reads. -/
theorem executeDay_scenarios :
    (executeDay run date today s).scenarios
      = ((fundScenarios (contributionOn run date) s.scenarios).markBenchmark
          (s.benchmark.closeAt run.input.benchmark date).1).2 :=
  rfl

theorem executeDay_benchmarkValue :
    ∃ point, (executeDay run date today s).equity = s.equity ++ [point] ∧ point.date = date
      ∧ point.benchmarkValue
        = ((fundScenarios (contributionOn run date) s.scenarios).markBenchmark
            (s.benchmark.closeAt run.input.benchmark date).1).1.map moneyString :=
  ⟨_, rfl, rfl, rfl⟩

theorem passed_executeDay :
    (executeDay run date today s).benchmark.passed
      = (s.benchmark.closeAt run.input.benchmark date).2.passed :=
  simulateDay_passed _ _ _ _ _ _ _

end Day

/-- What a run's state keeps of the scenario, after the dates it has completed. -/
structure Funded (run : BacktestRun F) (s : SimulationState F) : Prop where
  cursor : ∀ date ∈ run.calendar.drop s.completedDays,
    s.benchmark.IsBehind run.input.benchmark date
  shares : s.scenarios.shares = sharesBought run (run.calendar.take s.completedDays)
  pending : s.scenarios.pending
    = waiting (isUsableOn run) (run.calendar.take s.completedDays)
        (externalCashFlows run (run.calendar.take s.completedDays))
  onScale : OnScale moneyScale s.scenarios.pending
  points : ∀ point ∈ s.equity, point.benchmarkValue = benchmarkValueOn run point.date

section Lawful

variable [LawfulJsNumber F] {run : BacktestRun F} {s : SimulationState F} {date : LocalDate}

theorem pending_fund {amount : F} (hfinite : isFinite amount = true)
    (hpos : lt (ofInt 0) amount = true) (scenarios : ComparisonScenarios) :
    (scenarios.fund amount).pending
      = quantizeMoney (scenarios.pending + quantizeMoney (decimal amount)) := by
  have hle : le amount (ofInt 0) = false := by
    rw [LawfulJsNumber.le_zero amount hfinite, hpos]
    rfl
  simp [ComparisonScenarios.fund, hfinite, hle]

theorem pending_fundScenarios (h : IsAccepted run) {scenarios : ComparisonScenarios}
    (hscale : OnScale moneyScale scenarios.pending) (date : LocalDate) :
    (fundScenarios (contributionOn run date) scenarios).pending
      = scenarios.pending + depositOn run date := by
  unfold fundScenarios depositOn
  split
  · next hdeposit =>
    obtain ⟨hfinite, hpos⟩ := deposit_spec h hdeposit
    rw [pending_fund hfinite hpos,
      quantizeMoney_of_onScale (hscale.add (onScale_quantizeMoney _))]
  · rw [add_zero]

omit [LawfulJsNumber F] in
theorem shares_fundScenarios (contribution : F) (scenarios : ComparisonScenarios) :
    (fundScenarios contribution scenarios).shares = scenarios.shares := by
  unfold fundScenarios ComparisonScenarios.fund
  split
  · split
    · rfl
    · rfl
  · rfl

theorem externalCashFlows_nonneg (h : IsAccepted run) (dates : List LocalDate) :
    ∀ flow ∈ externalCashFlows run dates, 0 ≤ flow.2 := by
  intro flow hflow
  rcases List.mem_append.mp hflow with hinitial | hcontribution
  · obtain ⟨first, -, rfl⟩ := List.mem_map.mp hinitial
    exact (initialCapital_spec h).2
  · obtain ⟨date, -, rfl⟩ := List.mem_map.mp hcontribution
    exact depositOn_nonneg h date

section

omit [LawfulJsNumber F]

/-- Each cash flow of the first dates arrives by the date after them, the others after it. -/
theorem externalCashFlows_split (hascending : run.calendar.Pairwise (· < ·)) {done rest : List LocalDate}
    (hcalendar : run.calendar = done ++ date :: rest) :
    (∀ flow ∈ externalCashFlows run (done ++ [date]), flow.1 ≤ date)
      ∧ ∀ flow ∈ rest.map (fun d => (d, depositOn run d)), date < flow.1 := by
  rw [hcalendar, List.pairwise_append] at hascending
  obtain ⟨-, hlater, hbefore⟩ := hascending
  have hdone : ∀ d ∈ done ++ [date], d ≤ date := by
    intro d hd
    rcases List.mem_append.mp hd with hd | hd
    · exact (hbefore d hd date List.mem_cons_self).le
    · exact (List.mem_singleton.mp hd).le
  constructor
  · intro flow hflow
    rcases List.mem_append.mp hflow with hinitial | hcontribution
    · obtain ⟨first, hfirst, rfl⟩ := List.mem_map.mp hinitial
      refine hdone first ?_
      have hhead : (done ++ date :: rest).head? = some first := by
        rw [← hcalendar]
        exact Option.mem_toList.mp hfirst
      cases done with
      | nil => simpa using hhead.symm
      | cons d ds =>
        obtain rfl := Option.some.inj hhead
        exact List.mem_cons_self
    · obtain ⟨d, hd, rfl⟩ := List.mem_map.mp hcontribution
      exact hdone d hd
  · intro flow hflow
    obtain ⟨d, hd, rfl⟩ := List.mem_map.mp hflow
    exact (List.pairwise_cons.mp hlater).1 d hd

theorem externalCashFlows_append (dates later : List LocalDate) :
    externalCashFlows run (dates ++ later)
      = externalCashFlows run dates ++ later.map fun d => (d, depositOn run d) := by
  unfold externalCashFlows
  rw [List.map_append, List.append_assoc]

theorem sharesBought_concat (done : List LocalDate) (date : LocalDate) :
    sharesBought run (done ++ [date])
      = (sharesBoughtOn run date).elim (sharesBought run done)
          (decimalPlus (sharesBought run done)) := by
  unfold sharesBought
  rw [List.filterMap_append, List.foldl_append]
  cases hbought : sharesBoughtOn run date with
  | none => rw [List.filterMap_cons_none hbought]; rfl
  | some shares => rw [List.filterMap_cons_some hbought]; rfl

end

section Mark

variable {done rest : List LocalDate} {scenarios : ComparisonScenarios}

omit [LawfulJsNumber F] in
/-- A usable date invests exactly what has waited for it. -/
theorem capitalInvestedOn_eq (haccepted : IsAccepted run)
    (hcalendar : run.calendar = done ++ date :: rest) (hopen : isUsableOn run date = true) :
    capitalInvestedOn run date
      = waiting (isUsableOn run) done (externalCashFlows run (done ++ [date])) := by
  obtain ⟨harrived, hlater⟩ := externalCashFlows_split haccepted.ascending hcalendar
  have hflows : externalCashFlows run run.calendar
      = externalCashFlows run (done ++ [date]) ++ rest.map fun d => (d, depositOn run d) := by
    rw [← externalCashFlows_append, List.append_assoc, List.singleton_append]
    exact congrArg _ hcalendar
  have hbefore : ∀ d ∈ done, d ≠ date := fun d hd => by
    have hasc := haccepted.ascending
    rw [hcalendar, List.pairwise_append] at hasc
    exact (hasc.2.2 d hd date List.mem_cons_self).ne
  calc capitalInvestedOn run date
      = served (isUsableOn run) run.calendar (externalCashFlows run (done ++ [date])
          ++ rest.map fun d => (d, depositOn run d)) date := by
        rw [capitalInvestedOn, hflows]
    _ = served (isUsableOn run) (done ++ date :: rest) (externalCashFlows run (done ++ [date])
          ++ rest.map fun d => (d, depositOn run d)) date := congrArg (served _ · _ _) hcalendar
    _ = waiting (isUsableOn run) done (externalCashFlows run (done ++ [date])) :=
        served_eq_waiting hopen hbefore harrived hlater

/-- What marking a funded scenario at a date's close leaves, and what it reports. -/
theorem markBenchmark_spec (haccepted : IsAccepted run)
    (hcalendar : run.calendar = done ++ date :: rest)
    (hpending : scenarios.pending
      = waiting (isUsableOn run) done (externalCashFlows run (done ++ [date])))
    (hshares : scenarios.shares = sharesBought run done)
    (hscale : OnScale moneyScale scenarios.pending) :
    (scenarios.markBenchmark (closeInEffect run.input.benchmark date)).2.pending
        = waiting (isUsableOn run) (done ++ [date]) (externalCashFlows run (done ++ [date]))
      ∧ OnScale moneyScale
          (scenarios.markBenchmark (closeInEffect run.input.benchmark date)).2.pending
      ∧ (scenarios.markBenchmark (closeInEffect run.input.benchmark date)).2.shares
        = sharesBought run (done ++ [date])
      ∧ (scenarios.markBenchmark (closeInEffect run.input.benchmark date)).1
        = (benchmarkPriceOn run date).map fun price =>
            quantizeMoney (decimalTimes (sharesBought run (done ++ [date])) price) := by
  have harrived := (externalCashFlows_split haccepted.ascending hcalendar).1
  have hnonneg : 0 ≤ scenarios.pending := by
    rw [hpending]
    exact waiting_nonneg (externalCashFlows_nonneg haccepted _)
  -- without a close, and with one that is not positive, the pending flow waits on
  rw [sharesBought_concat]
  cases hclose : closeInEffect run.input.benchmark date with
  | none =>
    have hprice : benchmarkPriceOn run date = none := by rw [benchmarkPriceOn, hclose]; rfl
    have hclosed : isUsableOn run date = false := by rw [isUsableOn, hprice]; rfl
    have hbought : sharesBoughtOn run date = none := by rw [sharesBoughtOn, hprice]; rfl
    rw [waiting_concat_of_closed hclosed, hbought, hprice]
    exact ⟨hpending, hscale, hshares, rfl⟩
  | some close =>
    have hprice : benchmarkPriceOn run date = some (quantizePrice (decimal close)) := by
      rw [benchmarkPriceOn, hclose]
      rfl
    have husable : isUsableOn run date = decide (0 < quantizePrice (decimal close)) := by
      rw [isUsableOn, hprice]
      rfl
    have hbought : sharesBoughtOn run date
        = if 0 < capitalInvestedOn run date ∧ 0 < quantizePrice (decimal close) then
            some (decimalDiv (capitalInvestedOn run date) (quantizePrice (decimal close)))
          else none := by
      rw [sharesBoughtOn, hprice]
      rfl
    rw [hprice, Option.map_some]
    by_cases hpos : 0 < quantizePrice (decimal close)
    · have hopen : isUsableOn run date = true := husable.trans (decide_eq_true hpos)
      have hcapital : capitalInvestedOn run date = scenarios.pending := by
        rw [capitalInvestedOn_eq haccepted hcalendar hopen, hpending]
      rw [waiting_concat_of_open hopen harrived, hbought, hcapital]
      rcases hnonneg.eq_or_lt with hzero | hwaits
      · -- nothing waited, so the date buys nothing
        have hno : ¬ (0 < scenarios.pending ∧ 0 < quantizePrice (decimal close)) :=
          fun hboth => absurd hzero hboth.1.ne
        unfold ComparisonScenarios.markBenchmark
        simp only [if_neg hno]
        exact ⟨hzero.symm, hscale, hshares, by rw [hshares]; rfl⟩
      · have hboth : 0 < scenarios.pending ∧ 0 < quantizePrice (decimal close) := ⟨hwaits, hpos⟩
        unfold ComparisonScenarios.markBenchmark
        simp only [if_pos hboth]
        exact ⟨trivial, onScale_zero _, by rw [hshares]; rfl, by rw [hshares]; rfl⟩
    · have hclosed : isUsableOn run date = false := husable.trans (decide_eq_false hpos)
      have hno : ¬ (0 < scenarios.pending ∧ 0 < quantizePrice (decimal close)) :=
        fun hboth => hpos hboth.2
      rw [waiting_concat_of_closed hclosed, hbought, if_neg fun hboth => hpos hboth.2]
      unfold ComparisonScenarios.markBenchmark
      simp only [if_neg hno]
      exact ⟨hpending, hscale, hshares, by rw [hshares]; rfl⟩

end Mark

/-- **A day of the scenario.** -/
theorem Funded.executeDay (h : Funded run s) (haccepted : IsAccepted run)
    (hdate : run.calendar[s.completedDays]? = some date) (today : TodayRows F) :
    Funded run (executeDay run date today s) := by
  have hdrop : run.calendar.drop s.completedDays
      = date :: run.calendar.drop (s.completedDays + 1) := by
    obtain ⟨hlt, rfl⟩ := List.getElem?_eq_some_iff.mp hdate
    exact List.drop_eq_getElem_cons hlt
  have hcalendar : run.calendar
      = run.calendar.take s.completedDays ++ date :: run.calendar.drop (s.completedDays + 1) := by
    rw [← hdrop, List.take_append_drop]
  have htake : run.calendar.take (s.completedDays + 1)
      = run.calendar.take s.completedDays ++ [date] := by
    rw [List.take_add_one, hdate]
    rfl
  have hasc := haccepted.ascending
  rw [hcalendar, List.pairwise_append] at hasc
  obtain ⟨-, hafter, hbefore⟩ := hasc
  obtain ⟨hclose, hbehind⟩ := (h.cursor date (hdrop ▸ List.mem_cons_self)).closeAt
  -- the flow of the date joins what waits
  have hpending : (fundScenarios (contributionOn run date) s.scenarios).pending
      = waiting (isUsableOn run) (run.calendar.take s.completedDays)
          (externalCashFlows run (run.calendar.take s.completedDays ++ [date])) := by
    have hnew : waiting (isUsableOn run) (run.calendar.take s.completedDays)
        [(date, depositOn run date)] = depositOn run date := by
      rw [waiting_of_lt]
      · exact List.sum_singleton
      · intro d hd flow hflow
        rw [List.mem_singleton.mp hflow]
        exact hbefore d hd date List.mem_cons_self
    rw [pending_fundScenarios haccepted h.onScale, h.pending, externalCashFlows_append,
      waiting_append, List.map_singleton, hnew]
  have hscale : OnScale moneyScale
      (fundScenarios (contributionOn run date) s.scenarios).pending := by
    rw [pending_fundScenarios haccepted h.onScale]
    exact h.onScale.add (onScale_depositOn run date)
  have hshares := (shares_fundScenarios (contributionOn run date) s.scenarios).trans h.shares
  obtain ⟨hpending', hscale', hshares', hvalue⟩ :=
    markBenchmark_spec haccepted hcalendar hpending hshares hscale
  rw [← hclose, ← executeDay_scenarios] at hpending' hscale' hshares'
  refine ⟨fun later hlater series hseries => ?_, ?_, ?_, hscale', fun point hpoint => ?_⟩
  · rw [passed_executeDay]
    exact hbehind later ((List.pairwise_cons.mp hafter).1 later hlater).le series hseries
  · rw [hshares', executeDay_completedDays, htake]
  · rw [hpending', executeDay_completedDays, htake]
  · obtain ⟨last, hequity, hlast, hreported⟩ := executeDay_benchmarkValue run date today s
    rw [hequity] at hpoint
    rcases List.mem_append.mp hpoint with hold | hnew
    · exact h.points point hold
    · obtain rfl := List.mem_singleton.mp hnew
      rw [hreported, hclose, hvalue, hlast, benchmarkValueOn,
        filter_le_eq_take haccepted.ascending hdate, htake, Option.map_map]
      rfl

/-- The state before the first date: the initial capital waits. -/
theorem funded_initialState (haccepted : IsAccepted run) (hcalendar : run.calendar ≠ []) :
    Funded run (initialState run.input) := by
  obtain ⟨hpos, -⟩ := initialCapital_spec haccepted
  obtain ⟨first, hfirst⟩ := List.isSome_head?.mpr hcalendar |> Option.isSome_iff_exists.mp
  have hcapital : (initialState run.input).scenarios.pending
      = quantizeMoney (decimal run.input.initialCapital) := by
    change (ComparisonScenarios.initial.fund run.input.initialCapital).pending = _
    rw [pending_fund haccepted.input.initialCapital_finite hpos]
    change quantizeMoney (0 + _) = _
    rw [zero_add]
    exact quantizeMoney_of_onScale (onScale_quantizeMoney _)
  have hshares : (initialState run.input).scenarios.shares = 0 := by
    change (ComparisonScenarios.initial.fund run.input.initialCapital).shares = 0
    unfold ComparisonScenarios.fund
    split
    · rfl
    · rfl
  refine ⟨fun _ _ _ _ => .inl rfl, hshares, ?_, ?_, fun point hpoint => by cases hpoint⟩
  · rw [hcapital, externalCashFlows, hfirst]
    simp [initialState, waiting, servedOn]
  · rw [hcapital]
    exact onScale_quantizeMoney _

/-- **The invariant over whole runs.** -/
theorem funded_of_reachableState (haccepted : IsAccepted run) (hcalendar : run.calendar ≠ [])
    (h : ReachableState run s) : Funded run s := by
  induction h with
  | refl => exact funded_initialState haccepted hcalendar
  | tail _ day ih =>
    obtain ⟨date, today, hdate, -, rfl⟩ := day
    exact ih.executeDay haccepted hdate today

end Lawful

/-! ### Calls -/

theorem consumeCall_days {a next : BacktestSimulation F} {call : SimulationCall F}
    (h : consumeCall a call = .ok next) :
    next.run = a.run ∧ Relation.ReflTransGen (SimulatesDay a.run) a.state next.state := by
  cases call with
  | window window frames =>
    obtain ⟨-, hframes⟩ := consumeWindow_eq_ok_iff.mp h
    obtain ⟨hrun, -, -, -, hdays⟩ := simulatesDates_of_simulateFrames hframes
    exact ⟨hrun, hdays⟩
  | wholePeriod frames =>
    obtain ⟨-, hframes⟩ := consumeWholePeriod_eq_ok_iff_simulateFrames.mp h
    obtain ⟨hrun, -, -, -, hdays⟩ := simulatesDates_of_simulateFrames hframes
    exact ⟨hrun, hdays⟩

theorem days_of_foldlM_consumeCall {calls : List (SimulationCall F)} {a next : BacktestSimulation F}
    (h : calls.foldlM consumeCall a = .ok next) :
    Relation.ReflTransGen (SimulatesDay a.run) a.state next.state := by
  induction calls generalizing a with
  | nil =>
    obtain rfl := Except.ok.inj h
    exact .refl
  | cons call rest ih =>
    rw [List.foldlM_cons] at h
    cases hcall : consumeCall a call with
    | error message =>
      rw [hcall] at h
      cases h
    | ok middle =>
      rw [hcall] at h
      obtain ⟨hrun, hdays⟩ := consumeCall_days hcall
      have hrest := ih h
      rw [hrun] at hrest
      exact hdays.trans hrest

/-- Whatever a caller asks, the simulation is a run of days of an accepted input. -/
theorem reachableState_of_simulateCalls {input : BacktestSimulationInput F}
    {options : BacktestSimulationOptions} {calls : List (SimulationCall F)}
    {simulation : BacktestSimulation F} (h : simulateCalls input options calls = .ok simulation) :
    AcceptedInput input ∧ (backtestRun input options).calendar ≠ []
      ∧ ReachableState (backtestRun input options) simulation.state := by
  unfold simulateCalls at h
  cases hcreate : createBacktestSimulation input options with
  | error message =>
    rw [hcreate] at h
    cases h
  | ok created =>
    rw [hcreate] at h
    obtain ⟨haccepted, hcalendar, rfl⟩ := createBacktestSimulation_eq_ok_iff.mp hcreate
    exact ⟨haccepted, hcalendar, days_of_foldlM_consumeCall h⟩

/-- What the comparison benchmark is to a run. -/
structure BenchmarkIsPassive (input : BacktestSimulationInput F)
    (options : BacktestSimulationOptions) (calls : List (SimulationCall F)) : Prop where
  /-- Under any other benchmark the same calls make the same simulation, comparison data apart. -/
  running : ∀ benchmark, Lockstep (SameSimulation benchmark) (simulateCalls input options calls)
    (simulateCalls (input.withBenchmark benchmark) options calls)
  /-- So they have the same result, comparison data apart. -/
  result : ∀ benchmark, Lockstep SameResult (simulateCalls input options calls >>= finish)
    (simulateCalls (input.withBenchmark benchmark) options calls >>= finish)
  /-- Every cash flow buys its shares on its first usable date, and on no other. -/
  funded : ∀ simulation, simulateCalls input options calls = .ok simulation →
    ∀ point ∈ simulation.state.equity,
      point.benchmarkValue = benchmarkValueOn (backtestRun input options) point.date

/-- **The comparison benchmark is passive**: whatever a run is compared with, over whatever frames
and calls, it trades alike, and the comparison receives each of its cash flows once. -/
theorem benchmarkIsPassive [LawfulJsNumber F] (input : BacktestSimulationInput F)
    (options : BacktestSimulationOptions) (calls : List (SimulationCall F)) :
    BenchmarkIsPassive input options calls := by
  refine ⟨fun benchmark => simulateCalls_lockstep input options benchmark calls,
    fun benchmark => ?_, fun simulation hsimulation => ?_⟩
  · exact (simulateCalls_lockstep input options benchmark calls).bind fun _ _ hsame => hsame.finish
  · obtain ⟨haccepted, hcalendar, hstate⟩ := reachableState_of_simulateCalls hsimulation
    exact (funded_of_reachableState (isAccepted_backtestRun haccepted options) hcalendar
      hstate).points

/-! ### Cash flows that wait together -/

/-- The price of the last usable date at or before a date. -/
def lastUsablePriceOn (run : BacktestRun F) (date : LocalDate) : Option MoneyValue :=
  ((run.calendar.filter (· ≤ date)).filter (isUsableOn run)).getLast?.bind (benchmarkPriceOn run)

/-- What the scenario would be worth if each cash flow were divided by itself, and a close that is
no price were passed over. -/
def flowByFlowValueOn (run : BacktestRun F) (date : LocalDate) : Option MoneyString :=
  (lastUsablePriceOn run date).map fun price => moneyString (quantizeMoney (price *
    ((externalCashFlows run run.calendar).filterMap fun flow =>
      ((servedOn (isUsableOn run) run.calendar flow.1).filter (· ≤ date)).bind fun day =>
        (benchmarkPriceOn run day).map (decimalDiv flow.2)).sum))

def fundingDates : List LocalDate :=
  sampleDates.take 2 ++ [.ofYmd 2021 2 1, .ofYmd 2021 2 2, .ofYmd 2021 2 3]

/-- A dollar a month, beside a series that starts in the third month at three dollars, falls to less
than a cent of a cent and ends at zero. -/
def fundingInput : BacktestSimulationInput ExactNumber :=
  { sampleInput with
    benchmark := some
      { benchmarkId := "late"
        code := "LATE"
        name := "Late"
        dates := [.ofYmd 2021 2 1, .ofYmd 2021 2 2, .ofYmd 2021 2 3]
        closes := [.finite 3, .finite (95 / 10 ^ 7), .finite 0] }
    executionCalendar := fundingDates
    endDate := .ofYmd 2021 2 28
    initialCapital := .finite 1
    monthlyContribution := .finite 1 }

theorem createBacktestSimulation_fundingInput :
    createBacktestSimulation fundingInput sampleOptions
      = .ok (freshSimulation fundingInput sampleOptions) := by
  refine createBacktestSimulation_eq_ok_iff.mpr ⟨?_, by decide, rfl⟩
  constructor
  · decide
  · rfl
  · decide +kernel
  · rfl
  · decide +kernel
  · decide
  · exact List.cons_ne_nil _ _
  · exact List.cons_ne_nil _ _

def fundingFrames : List (EvaluationFrame ExactNumber) := [sampleFrame "A", sampleFrame "B"]

theorem simulateCalls_fundingInput :
    simulateCalls fundingInput sampleOptions [.wholePeriod fundingFrames]
      = .ok (wholePeriodSimulation fundingInput sampleOptions fundingFrames) := by
  have hconsumed : consumeWholePeriod (freshSimulation fundingInput sampleOptions) fundingFrames
      = .ok (wholePeriodSimulation fundingInput sampleOptions fundingFrames) :=
    consumeWholePeriod_eq_ok_iff.mpr ⟨.cons rfl (.cons rfl .nil), rfl⟩
  unfold simulateCalls
  rw [createBacktestSimulation_fundingInput]
  change (consumeWholePeriod (freshSimulation fundingInput sampleOptions) fundingFrames >>= _) = _
  rw [hconsumed]
  rfl

/-- Three dollars wait and are divided by three together, not each by itself; and a close of zero
leaves the date without a value. -/
theorem not_flowByFlow :
    ∃ simulation, simulateCalls fundingInput sampleOptions [.wholePeriod fundingFrames]
        = .ok simulation
      ∧ simulation.state.equity.map (·.date) = fundingDates
      ∧ ∀ point ∈ simulation.state.equity, .ofYmd 2021 2 1 < point.date →
          point.benchmarkValue
            ≠ flowByFlowValueOn (backtestRun fundingInput sampleOptions) point.date := by
  refine ⟨_, simulateCalls_fundingInput, ?_⟩
  decide +kernel

/-- The year of that run, under any benchmark. -/
theorem benchmarkIsPassive_funding :
    BenchmarkIsPassive fundingInput sampleOptions [.wholePeriod fundingFrames] :=
  benchmarkIsPassive _ _ _

end FactorSage
