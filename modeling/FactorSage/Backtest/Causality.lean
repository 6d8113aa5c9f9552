import FactorSage.Backtest.Run
import FactorSage.Strategy.FrameSlice

/-!
# No look-ahead

Two runs whose frames and benchmark agree on the rows dated up to a date are the same run up to that
date, although every gate is computed over the whole frame before the first day.

* `rowAt_of_agreesUpTo` — what a day reads of a frame is decided by its rows up to that day.
* `closeAt_of_agreesUpTo` — so is what it reads of the benchmark.
* `executeDay_of_agree` — the step over one day, and `runDays_of_agree` the run over all days up to
  the date.
-/

namespace FactorSage

open JsNumber AscendingList

variable {F : Type}

/-- Two frames with the same rows dated up to `date`; those are the first rows of each. -/
structure AgreesUpTo (date : LocalDate) (frame₁ frame₂ : EvaluationFrame F) : Prop where
  dates_eq : frame₁.dates.filter (· ≤ date) = frame₂.dates.filter (· ≤ date)
  closes_eq : ∀ i < rowsUpTo frame₁ date, frame₁.closes[i]? = frame₂.closes[i]?
  columns_eq : ∀ i < rowsUpTo frame₁ date, ∀ key,
    (frame₁.columns.get? key).bind (·[i]?) = (frame₂.columns.get? key).bind (·[i]?)

/-- Two ascending benchmark series with the same rows dated up to `date`, or no series at all. The
store returns a series ascending. -/
def BenchmarkAgreesUpTo (date : LocalDate) :
    Option (BenchmarkSeriesInput F) → Option (BenchmarkSeriesInput F) → Prop
  | none, none => True
  | some series₁, some series₂ =>
    series₁.dates.Pairwise (· ≤ ·) ∧ series₂.dates.Pairwise (· ≤ ·)
      ∧ series₁.dates.filter (· ≤ date) = series₂.dates.filter (· ≤ date)
      ∧ ∀ i < (series₁.dates.filter (· ≤ date)).length, series₁.closes[i]? = series₂.closes[i]?
  | _, _ => False

/-! ### Frames -/

section Frames

variable {d : LocalDate} {frame₁ frame₂ : EvaluationFrame F}

theorem AgreesUpTo.rowsUpTo_eq (h : AgreesUpTo d frame₁ frame₂) :
    rowsUpTo frame₁ d = rowsUpTo frame₂ d := by
  rw [rowsUpTo, rowsUpTo, List.countP_eq_length_filter, List.countP_eq_length_filter, h.dates_eq]

theorem take_rowsUpTo (frame : EvaluationFrame F) (d : LocalDate) :
    frame.dates.take (rowsUpTo frame d) = frame.dates.filter (· ≤ d) := by
  have hsplit := filter_le_append_filter_lt frame.ascending d
  rw [rowsUpTo, List.countP_eq_length_filter]
  conv_lhs => rw [← hsplit]
  rw [List.take_left']
  rw [hsplit]

theorem AgreesUpTo.getElem?_dates (h : AgreesUpTo d frame₁ frame₂) {i : ℕ}
    (hi : i < rowsUpTo frame₁ d) : frame₁.dates[i]? = frame₂.dates[i]? := by
  rw [← List.getElem?_take_of_lt hi, take_rowsUpTo, h.dates_eq, ← take_rowsUpTo,
    List.getElem?_take_of_lt (h.rowsUpTo_eq ▸ hi)]

theorem AgreesUpTo.getElem?_eq_some_iff (h : AgreesUpTo d frame₁ frame₂) {date : LocalDate}
    (hdate : date ≤ d) {i : ℕ} : frame₁.dates[i]? = some date ↔ frame₂.dates[i]? = some date := by
  constructor
  · intro hi
    rwa [← h.getElem?_dates ((lt_rowsUpTo_iff hi).mpr hdate)]
  · intro hi
    rwa [h.getElem?_dates (h.rowsUpTo_eq ▸ (lt_rowsUpTo_iff hi).mpr hdate)]

/-- Cutting a frame off after a date changes nothing up to it. -/
theorem agreesUpTo_slice (frame : EvaluationFrame F) (d : LocalDate) :
    AgreesUpTo d frame (frame.slice 0 (rowsUpTo frame d)) where
  dates_eq := by
    change _ = ((frame.dates.drop 0).take (rowsUpTo frame d)).filter _
    rw [List.drop_zero, take_rowsUpTo, List.filter_filter]
    simp
  closes_eq i hi := by
    change _ = ((frame.closes.drop 0).take (rowsUpTo frame d))[i]?
    rw [List.drop_zero, List.getElem?_take_of_lt hi]
  columns_eq i hi key := by
    change _ = ((frame.columns.mapValues _).get? key).bind _
    rw [OrderedMap.get?_mapValues]
    cases frame.columns.get? key with
    | none => rfl
    | some column =>
      simp only [Option.map_some, Option.bind_some, List.getElem?_take_of_lt hi]

variable [JsNumber F]

theorem AgreesUpTo.readsAlike (h : AgreesUpTo d frame₁ frame₂) {i : ℕ}
    (hi : i < rowsUpTo frame₁ d) : ReadsAlike frame₁ frame₂ i i := by
  have hlength₁ : ¬ frame₁.dates.length ≤ i :=
    not_le.mpr (hi.trans_le (rowsUpTo_le_length frame₁ d))
  have hlength₂ : ¬ frame₂.dates.length ≤ i :=
    not_le.mpr ((h.rowsUpTo_eq ▸ hi).trans_le (rowsUpTo_le_length frame₂ d))
  intro key
  have hcolumn := h.columns_eq i hi key
  unfold readOperand
  rw [if_neg hlength₁, if_neg hlength₂, h.closes_eq i hi]
  cases hcolumn₁ : frame₁.columns.get? key <;> cases hcolumn₂ : frame₂.columns.get? key <;>
    simp_all

theorem AgreesUpTo.samePast (h : AgreesUpTo d frame₁ frame₂) {i : ℕ}
    (hi : i < rowsUpTo frame₁ d) : SamePast frame₁ frame₂ i i := by
  cases i with
  | zero => exact h.readsAlike hi
  | succ i => exact ⟨h.readsAlike hi, h.readsAlike (by omega)⟩

/-- **What a day reads of a frame** — its close, its gates, its previous date — is decided by the
rows dated up to that day. -/
theorem rowAt_of_agreesUpTo (h : AgreesUpTo d frame₁ frame₂) (definition : StrategyDefinition F)
    (setup : BacktestSecuritySetup) {date : LocalDate} (hdate : date ≤ d) :
    (boundRuntime definition setup frame₁).rowAt date
      = (boundRuntime definition setup frame₂).rowAt date := by
  change (frame₁.dates.idxOf? date).map (runtimeRow frame₁ (buildStrategyGates definition frame₁))
    = (frame₂.dates.idxOf? date).map (runtimeRow frame₂ (buildStrategyGates definition frame₂))
  have hindex : frame₁.dates.idxOf? date = frame₂.dates.idxOf? date := Option.ext fun i => by
    rw [idxOf?_eq_some_iff frame₁.ascending, idxOf?_eq_some_iff frame₂.ascending,
      h.getElem?_eq_some_iff hdate]
  rw [← hindex]
  cases hrow : frame₁.dates.idxOf? date with
  | none => rw [Option.map_none, Option.map_none]
  | some i =>
    have hi₁ := (idxOf?_eq_some_iff frame₁.ascending).mp hrow
    have hi₂ := (h.getElem?_eq_some_iff hdate).mp hi₁
    have hi : i < rowsUpTo frame₁ d := (lt_rowsUpTo_iff hi₁).mpr hdate
    rw [Option.map_some, Option.map_some]
    refine congrArg some (runtimeRow_congr definition (h.samePast hi)
      (List.getElem?_eq_some_iff.mp hi₁).1 (List.getElem?_eq_some_iff.mp hi₂).1
      (h.closes_eq i hi) ?_)
    rw [h.getElem?_dates (i := i - 1) (by omega)]

/-- All securities at once. -/
theorem wholeRows_of_agreesUpTo (input : BacktestSimulationInput F)
    {frames₁ frames₂ : List (EvaluationFrame F)}
    (h : List.Forall₂ (AgreesUpTo d) frames₁ frames₂) {date : LocalDate} (hdate : date ≤ d) :
    wholeRows input frames₁ date = wholeRows input frames₂ date := by
  unfold wholeRows boundRuntimes rowsOn
  rw [List.map_map, List.map_map]
  generalize input.securities = setups
  induction h generalizing setups with
  | nil => rfl
  | cons hframe _ ih =>
    cases setups with
    | nil => rfl
    | cons setup rest =>
      rw [List.zip_cons_cons, List.zip_cons_cons, List.map_cons, List.map_cons, ih rest]
      exact congrArg₂ _ (congrArg (Prod.mk setup)
        (rowAt_of_agreesUpTo hframe input.definition setup hdate)) rfl

end Frames

/-! ### The benchmark -/

section Benchmark

variable {d : LocalDate}

/-- An ascending series starts with its rows up to a date and goes on with a later one. -/
theorem exists_dates_eq_append {dates : List LocalDate} (h : dates.Pairwise (· ≤ ·))
    (d : LocalDate) :
    ∃ later, dates = dates.filter (· ≤ d) ++ later ∧ ∀ date ∈ later, d < date := by
  induction dates with
  | nil => exact ⟨[], rfl, by simp⟩
  | cons a rest ih =>
    obtain ⟨hhead, hrest⟩ := List.pairwise_cons.mp h
    by_cases ha : a ≤ d
    · obtain ⟨later, hlater, hgt⟩ := ih hrest
      refine ⟨later, ?_, hgt⟩
      rw [List.filter_cons_of_pos (by simpa using ha), List.cons_append, ← hlater]
    · have hgt : ∀ date ∈ a :: rest, d < date := fun date hmem => by
        rcases List.mem_cons.mp hmem with rfl | hmem
        · exact not_le.mp ha
        · exact (not_le.mp ha).trans_le (hhead date hmem)
      refine ⟨a :: rest, ?_, hgt⟩
      rw [List.filter_eq_nil_iff.mpr fun date hmem => by simpa using hgt date hmem,
        List.nil_append]

/-- How far a cursor moves up to an earlier date depends on the rows up to the later one alone. -/
theorem takeWhile_drop_of_le {dates : List LocalDate} (h : dates.Pairwise (· ≤ ·)) {passed : ℕ}
    (hpassed : passed ≤ (dates.filter (· ≤ d)).length) {date : LocalDate} (hdate : date ≤ d) :
    (dates.drop passed).takeWhile (· ≤ date)
      = ((dates.filter (· ≤ d)).drop passed).takeWhile (· ≤ date) := by
  obtain ⟨later, hlater, hgt⟩ := exists_dates_eq_append h d
  have hnone : later.takeWhile (· ≤ date) = [] := by
    cases later with
    | nil => rfl
    | cons a rest =>
      have ha : ¬ a ≤ date := not_le.mpr (hdate.trans_lt (hgt a List.mem_cons_self))
      simp [ha]
  conv_lhs => rw [hlater]
  rw [List.drop_append_of_le_length hpassed, List.takeWhile_append, hnone, List.append_nil]
  split
  · next hall => exact (List.IsPrefix.eq_of_length (List.takeWhile_prefix _) hall).symm
  · rfl

variable [JsNumber F]

/-- How many rows of the benchmark a date leaves behind. -/
def benchmarkRows (series : Option (BenchmarkSeriesInput F)) (d : LocalDate) : ℕ :=
  series.elim 0 fun series => (series.dates.filter (· ≤ d)).length

/-- **What a day reads of the benchmark** is decided by the rows dated up to that day. -/
theorem closeAt_of_agreesUpTo {series₁ series₂ : Option (BenchmarkSeriesInput F)}
    (h : BenchmarkAgreesUpTo d series₁ series₂) {cursor : BenchmarkCursor F}
    (hpassed : cursor.passed ≤ benchmarkRows series₁ d) {date : LocalDate} (hdate : date ≤ d) :
    cursor.closeAt series₁ date = cursor.closeAt series₂ date
      ∧ (cursor.closeAt series₁ date).2.passed ≤ benchmarkRows series₁ d := by
  match series₁, series₂, h with
  | none, none, _ => exact ⟨rfl, hpassed⟩
  | some series₁, some series₂, ⟨hasc₁, hasc₂, hdates, hcloses⟩ =>
    have hpassed₁ : cursor.passed ≤ (series₁.dates.filter (· ≤ d)).length := hpassed
    have hadvance : cursor.advance series₁ date = cursor.advance series₂ date := by
      unfold BenchmarkCursor.advance
      rw [takeWhile_drop_of_le hasc₁ hpassed₁ hdate,
        takeWhile_drop_of_le hasc₂ (hdates ▸ hpassed₁) hdate, hdates]
    have hle : (cursor.advance series₁ date).passed ≤ (series₁.dates.filter (· ≤ d)).length := by
      change cursor.passed + ((series₁.dates.drop cursor.passed).takeWhile (· ≤ date)).length ≤ _
      rw [takeWhile_drop_of_le hasc₁ hpassed₁ hdate]
      have hlength := (List.takeWhile_prefix (· ≤ date)
        (l := (series₁.dates.filter (· ≤ d)).drop cursor.passed)).length_le
      rw [List.length_drop] at hlength
      omega
    refine ⟨?_, hle⟩
    change (_, _) = (_, _)
    rw [← hadvance]
    refine congrArg (·, _) ?_
    unfold BenchmarkCursor.currentClose
    cases hindex : (cursor.advance series₁ date).passed with
    | zero => rfl
    | succ index => simp only [hcloses index (by omega)]

end Benchmark

/-! ### The run -/

section Run

variable [JsNumber F] {d : LocalDate}

/-- Reading the growth index moves nothing. -/
theorem passed_indexFor (cursor : BenchmarkCursor F) (close : Option F) :
    (cursor.indexFor close).2.passed = cursor.passed := by
  cases close with
  | none => rfl
  | some close => rfl

theorem simulateDay_passed (rules : ExecutionRules F) (series : Option (BenchmarkSeriesInput F))
    (contribution : F) (isLastDay : Bool) (date : LocalDate) (today : TodayRows F)
    (s : SimulationState F) :
    (simulateDay rules series contribution isLastDay date today s).benchmark.passed
      = (s.benchmark.closeAt series date).2.passed :=
  passed_indexFor _ _

/-- The benchmark enters a day through the close it stands on, and through nothing else. -/
theorem simulateDay_congr_series {rules : ExecutionRules F}
    {series₁ series₂ : Option (BenchmarkSeriesInput F)} {contribution : F} {isLastDay : Bool}
    {date : LocalDate} {today : TodayRows F} {s : SimulationState F}
    (h : s.benchmark.closeAt series₁ date = s.benchmark.closeAt series₂ date) :
    simulateDay rules series₁ contribution isLastDay date today s
      = simulateDay rules series₂ contribution isLastDay date today s := by
  unfold simulateDay valueDay
  rw [h]

variable {input : BacktestSimulationInput F} {benchmark₂ : Option (BenchmarkSeriesInput F)}
  {options : BacktestSimulationOptions}

/-- The same input beside another benchmark. -/
def BacktestSimulationInput.withBenchmark (input : BacktestSimulationInput F)
    (benchmark : Option (BenchmarkSeriesInput F)) : BacktestSimulationInput F :=
  { input with benchmark }

/-- One day, read up to the date: the same state, and a cursor that stays on the shared rows. -/
theorem executeDay_of_agree (hbenchmark : BenchmarkAgreesUpTo d input.benchmark benchmark₂)
    {s : SimulationState F} (hpassed : s.benchmark.passed ≤ benchmarkRows input.benchmark d)
    {date : LocalDate} (hdate : date ≤ d) (today : TodayRows F) :
    executeDay (backtestRun input options) date today s
        = executeDay (backtestRun (input.withBenchmark benchmark₂) options) date today s
      ∧ (executeDay (backtestRun input options) date today s).benchmark.passed
        ≤ benchmarkRows input.benchmark d := by
  obtain ⟨hclose, hle⟩ := closeAt_of_agreesUpTo hbenchmark hpassed hdate
  refine ⟨simulateDay_congr_series hclose, ?_⟩
  rw [executeDay, simulateDay_passed]
  exact hle

/-- Every day up to the date. -/
theorem runDays_of_agree (options : BacktestSimulationOptions)
    (hbenchmark : BenchmarkAgreesUpTo d input.benchmark benchmark₂)
    {rows₁ rows₂ : LocalDate → TodayRows F} (hrows : ∀ date ≤ d, rows₁ date = rows₂ date)
    {dates : List LocalDate} (hdates : ∀ date ∈ dates, date ≤ d) {s : SimulationState F}
    (hpassed : s.benchmark.passed ≤ benchmarkRows input.benchmark d) :
    runDays (backtestRun input options) rows₁ dates s
      = runDays (backtestRun (input.withBenchmark benchmark₂) options) rows₂ dates s := by
  induction dates generalizing s with
  | nil => rw [runDays_nil, runDays_nil]
  | cons date rest ih =>
    have hdate := hdates date List.mem_cons_self
    obtain ⟨hday, hle⟩ := executeDay_of_agree hbenchmark hpassed hdate (rows₁ date)
    rw [runDays_cons, runDays_cons, ih (fun later hlater =>
      hdates later (List.mem_cons_of_mem _ hlater)) hle, hday, hrows date hdate]

/-- **No look-ahead.** Two runs of one input, over frames and a benchmark that may differ on every
row dated after `d`, write the same trades and the same equity points up to `d`. -/
theorem consumeWholePeriod_noLookAhead {frames₁ frames₂ : List (EvaluationFrame F)}
    {created₁ created₂ simulated₁ simulated₂ : BacktestSimulation F}
    (hcreated₁ : createBacktestSimulation input options = .ok created₁)
    (hcreated₂ : createBacktestSimulation (input.withBenchmark benchmark₂) options = .ok created₂)
    (hsimulated₁ : consumeWholePeriod created₁ frames₁ = .ok simulated₁)
    (hsimulated₂ : consumeWholePeriod created₂ frames₂ = .ok simulated₂)
    (hframes : List.Forall₂ (AgreesUpTo d) frames₁ frames₂)
    (hbenchmark : BenchmarkAgreesUpTo d input.benchmark benchmark₂) :
    simulated₁.state.ledger.trades.filter (·.date ≤ d)
        = simulated₂.state.ledger.trades.filter (·.date ≤ d)
      ∧ simulated₁.state.equity.filter (·.date ≤ d)
        = simulated₂.state.equity.filter (·.date ≤ d) := by
  obtain ⟨-, -, rfl⟩ := createBacktestSimulation_eq_ok_iff.mp hcreated₁
  obtain ⟨-, -, rfl⟩ := createBacktestSimulation_eq_ok_iff.mp hcreated₂
  obtain ⟨-, rfl⟩ := consumeWholePeriod_eq_ok_iff.mp hsimulated₁
  obtain ⟨-, rfl⟩ := consumeWholePeriod_eq_ok_iff.mp hsimulated₂
  have hcalendar : (backtestRun (input.withBenchmark benchmark₂) options).calendar
      = (backtestRun input options).calendar := rfl
  have hinitial : initialState (input.withBenchmark benchmark₂) = initialState input := rfl
  have hascending : (backtestRun input options).calendar.Pairwise (· < ·) :=
    buildExecutionCalendar_ascending
  have hdays : ∀ date ∈ (backtestRun input options).calendar.filter (· ≤ d), date ≤ d :=
    fun date hdate => by simpa using (List.mem_filter.mp hdate).2
  have hpassed : (initialState input).benchmark.passed ≤ benchmarkRows input.benchmark d :=
    Nat.zero_le _
  have hrun := runDays_of_agree options hbenchmark
    (fun date hdate => wholeRows_of_agreesUpTo input hframes hdate) hdays
    hpassed
  rw [wholePeriodSimulation_state, wholePeriodSimulation_state, hcalendar, hinitial]
  constructor
  · have hlog := fun input => isDayLog_trades (backtestRun (F := F) input options)
    rw [(hlog _).filter_runDays _ hascending d rfl, (hlog _).filter_runDays _ hascending d rfl]
    exact congrArg (·.ledger.trades) hrun
  · have hlog := fun input => isDayLog_equity (backtestRun (F := F) input options)
    rw [(hlog _).filter_runDays _ hascending d rfl, (hlog _).filter_runDays _ hascending d rfl]
    exact congrArg (·.equity) hrun

/-- The constructor never looks at the benchmark. -/
theorem createBacktestSimulation_withBenchmark {created : BacktestSimulation F}
    (h : createBacktestSimulation input options = .ok created)
    (benchmark : Option (BenchmarkSeriesInput F)) :
    createBacktestSimulation (input.withBenchmark benchmark) options
      = .ok (freshSimulation (input.withBenchmark benchmark) options) := by
  obtain ⟨haccepted, hcalendar, -⟩ := createBacktestSimulation_eq_ok_iff.mp h
  exact createBacktestSimulation_eq_ok_iff.mpr ⟨{ haccepted with }, hcalendar, rfl⟩

end Run

def sampleBenchmark (last : ExactNumber) : BenchmarkSeriesInput ExactNumber where
  benchmarkId := "benchmark"
  code := "BENCH"
  name := "Benchmark"
  dates := sampleDates
  closes := [.finite 100, .finite 101, last]

/-- The sample run beside one whose frames and benchmark are cut or changed after its second day. -/
theorem consumeWholePeriod_noLookAhead_sample :
    let cut := fun id => (sampleFrame id).slice 0 (rowsUpTo (sampleFrame id) (.ofYmd 2021 1 4))
    let rising := sampleInput.withBenchmark (some (sampleBenchmark (.finite 102)))
    let falling := rising.withBenchmark (some (sampleBenchmark (.finite 50)))
    let whole := wholePeriodSimulation rising sampleOptions [sampleFrame "A", sampleFrame "B"]
    let shorter := wholePeriodSimulation falling sampleOptions [cut "A", cut "B"]
    whole.state.ledger.trades.filter (·.date ≤ .ofYmd 2021 1 4)
        = shorter.state.ledger.trades.filter (·.date ≤ .ofYmd 2021 1 4)
      ∧ whole.state.equity.filter (·.date ≤ .ofYmd 2021 1 4)
        = shorter.state.equity.filter (·.date ≤ .ofYmd 2021 1 4) := by
  intro cut rising falling whole shorter
  have hrising := createBacktestSimulation_withBenchmark createBacktestSimulation_sampleInput
    (some (sampleBenchmark (.finite 102)))
  have hfalling : createBacktestSimulation falling sampleOptions
      = .ok (freshSimulation falling sampleOptions) :=
    createBacktestSimulation_withBenchmark hrising _
  have hwhole : consumeWholePeriod (freshSimulation rising sampleOptions)
      [sampleFrame "A", sampleFrame "B"] = .ok whole :=
    consumeWholePeriod_eq_ok_iff.mpr ⟨.cons rfl (.cons rfl .nil), rfl⟩
  have hshorter : consumeWholePeriod (freshSimulation falling sampleOptions) [cut "A", cut "B"]
      = .ok shorter :=
    consumeWholePeriod_eq_ok_iff.mpr ⟨.cons rfl (.cons rfl .nil), rfl⟩
  refine consumeWholePeriod_noLookAhead hrising hfalling hwhole hshorter
    (.cons (agreesUpTo_slice _ _) (.cons (agreesUpTo_slice _ _) .nil))
    ⟨by decide, by decide, rfl, fun i hi => ?_⟩
  have hi : i < 2 := hi
  match i, hi with
  | 0, _ => rfl
  | 1, _ => rfl

end FactorSage
