import FactorSage.Backtest.Run
import FactorSage.Backtest.WindowPlan

/-!
# Reachable simulations

Every simulation a caller can hold: the constructor's, and what consuming one of its own windows or
the whole period makes of one, over whatever frames.

* `Reachable` — those simulations, and `ReachableState` — the states of a run day after day.
* `Reachable.reached` — a reachable simulation has simulated exactly the dates of the windows it has
  consumed, and its state is a reachable one. What every day keeps therefore holds of it.
* `Reachable.completedDays_of_finish` — a simulation with a result has simulated every date.
-/

namespace FactorSage

open JsNumber

variable {F : Type} [JsNumber F]

/-- One simulated day of a run: the next date of its calendar, on any rows of its securities. -/
def SimulatesDay (run : BacktestRun F) (s s' : SimulationState F) : Prop :=
  ∃ date today, run.calendar[s.completedDays]? = some date
    ∧ today.map Prod.fst = run.input.securities ∧ s' = executeDay run date today s

/-- The states of a run after any number of days. -/
def ReachableState (run : BacktestRun F) : SimulationState F → Prop :=
  Relation.ReflTransGen (SimulatesDay run) (initialState run.input)

/-- The simulations of an input. The callers consume the simulation's own windows. -/
inductive Reachable (input : BacktestSimulationInput F) (options : BacktestSimulationOptions) :
    BacktestSimulation F → Prop
  | create (simulation : BacktestSimulation F)
      (h : createBacktestSimulation input options = .ok simulation) :
      Reachable input options simulation
  | window (simulation next : BacktestSimulation F) (window : BacktestExecutionWindow)
      (frames : List (EvaluationFrame F)) (hbefore : Reachable input options simulation)
      (hwindow : window ∈ simulation.windows)
      (h : consumeWindow simulation window frames = .ok next) : Reachable input options next
  | wholePeriod (simulation next : BacktestSimulation F) (frames : List (EvaluationFrame F))
      (hbefore : Reachable input options simulation)
      (h : consumeWholePeriod simulation frames = .ok next) : Reachable input options next

/-! ### Days -/

variable {simulation next : BacktestSimulation F}

theorem simulateDate_eq_ok {date : LocalDate} (h : simulateDate simulation date = .ok next) :
    simulation.run.calendar[simulation.state.completedDays]? = some date
      ∧ next.run = simulation.run ∧ next.windows = simulation.windows
      ∧ next.nextWindowIndex = simulation.nextWindowIndex
      ∧ next.runtimes.map SecurityRuntime.setup = simulation.runtimes.map SecurityRuntime.setup
      ∧ ∃ today, today.map Prod.fst = simulation.runtimes.map SecurityRuntime.setup
        ∧ next.state = executeDay simulation.run date today simulation.state := by
  unfold simulateDate at h
  split at h
  · cases h
  · next hdate =>
    obtain rfl := Except.ok.inj h
    have hsetups : ∀ runtimes : List (SecurityRuntime F),
        (runtimes.map (SecurityRuntime.advanceTo · date)).map SecurityRuntime.setup
          = runtimes.map SecurityRuntime.setup := fun runtimes => by
      rw [List.map_map]
      rfl
    refine ⟨not_not.mp hdate, rfl, rfl, rfl, hsetups _, _, ?_, rfl⟩
    rw [todayRows, List.map_map, ← hsetups]
    rfl

/-- The trades of a run are dated by its completed days. -/
theorem date_mem_of_reachableState {run : BacktestRun F} {s : SimulationState F}
    (h : ReachableState run s) :
    ∀ trade ∈ s.ledger.trades, trade.date ∈ run.calendar.take s.completedDays := by
  induction h with
  | refl => exact fun trade hmem => by cases hmem
  | @tail s next _ day ih =>
    obtain ⟨date, today, hdate, -, rfl⟩ := day
    obtain ⟨added, hadded, hdates⟩ := isDayLog_trades run date today s
    intro trade hmem
    rw [executeDay_completedDays, List.take_add_one, hdate]
    change trade ∈ (executeDay run date today s).ledger.trades at hmem
    change (executeDay run date today s).ledger.trades = s.ledger.trades ++ added at hadded
    rw [hadded] at hmem
    rcases List.mem_append.mp hmem with hmem | hmem
    · exact List.mem_append.mpr (.inl (ih trade hmem))
    · exact List.mem_append.mpr (.inr (by simp [hdates trade hmem]))

/-- What a fold of days leaves as it was, and what it makes of the state. -/
structure SimulatesDates (dates : List LocalDate) (simulation next : BacktestSimulation F) : Prop
    where
  run_eq : next.run = simulation.run
  windows_eq : next.windows = simulation.windows
  next_eq : next.nextWindowIndex = simulation.nextWindowIndex
  completed_eq : next.state.completedDays = simulation.state.completedDays + dates.length
  days : Relation.ReflTransGen (SimulatesDay simulation.run) simulation.state next.state

theorem simulatesDates_of_foldlM {dates : List LocalDate}
    (hsetups : simulation.runtimes.map SecurityRuntime.setup = simulation.run.input.securities)
    (h : dates.foldlM simulateDate simulation = .ok next) :
    SimulatesDates dates simulation next := by
  induction dates generalizing simulation with
  | nil =>
    obtain rfl := Except.ok.inj h
    exact ⟨rfl, rfl, rfl, rfl, .refl⟩
  | cons date rest ih =>
    rw [List.foldlM_cons] at h
    cases hday : simulateDate simulation date with
    | error message =>
      rw [hday] at h
      cases h
    | ok middle =>
      rw [hday] at h
      obtain ⟨hdate, hrun, hwindows, hnext, hkept, today, htoday, hstate⟩ :=
        simulateDate_eq_ok hday
      obtain ⟨hrun', hwindows', hnext', hcompleted, hdays⟩ :=
        ih (by rw [hkept, hsetups, hrun]) h
      refine ⟨hrun'.trans hrun, hwindows'.trans hwindows, hnext'.trans hnext, ?_, ?_⟩
      · rw [hcompleted, hstate, executeDay_completedDays, List.length_cons]
        omega
      · rw [hrun] at hdays
        exact .head ⟨date, today, hdate, htoday.trans hsetups, hstate⟩ hdays

variable {frames : List (EvaluationFrame F)}

theorem map_setup_boundRuntimes (definition : StrategyDefinition F)
    (contextRows : OrderedMap String (EvaluationFrameContextRow F))
    {setups : List BacktestSecuritySetup} (h : FramesMatch setups frames) :
    (boundRuntimes definition contextRows setups frames).map SecurityRuntime.setup = setups := by
  rw [boundRuntimes, List.map_map]
  exact List.map_fst_zip h.length_eq.le

/-- A window's days, whichever frames it was opened with. -/
theorem simulatesDates_of_simulateFrames {dates : List LocalDate}
    (h : simulateFrames simulation frames dates = .ok next) :
    SimulatesDates dates simulation next := by
  obtain ⟨hmatch, simulated, hdays, rfl⟩ := exists_of_simulateFrames h
  obtain ⟨hrun, hwindows, hnext, hcompleted, hstate⟩ :=
    simulatesDates_of_foldlM (map_setup_boundRuntimes _ _ hmatch) hdays
  exact ⟨hrun, hwindows, hnext, hcompleted, hstate⟩

/-! ### Windows -/

/-- What a reachable simulation has behind it. -/
structure Reached (input : BacktestSimulationInput F) (options : BacktestSimulationOptions)
    (simulation : BacktestSimulation F) : Prop where
  run_eq : simulation.run = backtestRun input options
  windows_eq : simulation.windows
    = planExecutionWindows (backtestRun input options).calendar input.startDate input.endDate
  completed_eq : simulation.state.completedDays
    = ((simulation.windows.take simulation.nextWindowIndex).flatMap (·.dates)).length
  state : ReachableState (backtestRun input options) simulation.state

variable {input : BacktestSimulationInput F} {options : BacktestSimulationOptions}

theorem plansWindows_backtestRun (input : BacktestSimulationInput F)
    (options : BacktestSimulationOptions) :
    PlansWindows input.startDate input.endDate (backtestRun input options).calendar
      (planExecutionWindows (backtestRun input options).calendar input.startDate
        input.endDate) :=
  plansWindows_planExecutionWindows buildExecutionCalendar_ascending

/-- Days simulated from a claimed window are behind what is reached, with the calendar of the
windows claimed. -/
theorem Reached.simulates (h : Reached input options simulation) {index : ℕ}
    {dates : List LocalDate}
    (hdays : SimulatesDates dates { simulation with nextWindowIndex := index } next)
    (hcount : simulation.state.completedDays + dates.length
      = ((simulation.windows.take index).flatMap (·.dates)).length) :
    Reached input options next := by
  obtain ⟨hrun, hwindows, -, hstate⟩ := h
  obtain ⟨hrun', hwindows', hnext', hcompleted', hdays⟩ := hdays
  refine ⟨hrun'.trans hrun, hwindows'.trans hwindows, ?_, ?_⟩
  · rw [hcompleted', hwindows', hnext']
    exact hcount
  · change Relation.ReflTransGen (SimulatesDay simulation.run) simulation.state _ at hdays
    rw [hrun] at hdays
    exact Relation.ReflTransGen.trans hstate hdays

theorem Reached.window {window : BacktestExecutionWindow} (h : Reached input options simulation)
    (hwindow : window ∈ simulation.windows)
    (hconsume : consumeWindow simulation window frames = .ok next) :
    Reached input options next := by
  obtain ⟨⟨expected, hexpected, hindex⟩, hframes⟩ := consumeWindow_eq_ok_iff.mp hconsume
  -- the plan numbers its windows by position, so the window consumed is the expected one
  have hplan := (plansWindows_backtestRun input options).index_eq
  rw [← h.windows_eq] at hplan
  obtain ⟨i, hi⟩ := List.mem_iff_getElem?.mp hwindow
  have heq : i = simulation.nextWindowIndex := by
    rw [← hplan _ _ hi, ← hindex, hplan _ _ hexpected]
  obtain rfl : expected = window := by
    rw [heq, hexpected] at hi
    exact Option.some.inj hi
  refine h.simulates (simulatesDates_of_simulateFrames hframes) ?_
  rw [List.take_add_one, hexpected, h.completed_eq, List.flatMap_append, List.length_append]
  simp

theorem Reached.wholePeriod (h : Reached input options simulation)
    (hconsume : consumeWholePeriod simulation frames = .ok next) :
    Reached input options next := by
  obtain ⟨hstarted, hframes⟩ := consumeWholePeriod_eq_ok_iff_simulateFrames.mp hconsume
  refine h.simulates (simulatesDates_of_simulateFrames hframes) ?_
  have hdates := (plansWindows_backtestRun input options).dates_eq
  rw [List.take_length, h.completed_eq, hstarted, h.windows_eq, hdates, h.run_eq]
  simp

/-- **Every reachable simulation is a run of days.** -/
theorem Reachable.reached {simulation : BacktestSimulation F}
    (h : Reachable input options simulation) : Reached input options simulation := by
  induction h with
  | create simulation hcreate =>
    obtain ⟨-, -, rfl⟩ := createBacktestSimulation_eq_ok_iff.mp hcreate
    exact ⟨rfl, rfl, rfl, .refl⟩
  | window simulation next window frames hbefore hwindow hconsume ih =>
    exact ih.window hwindow hconsume
  | wholePeriod simulation next frames hbefore hconsume ih => exact ih.wholePeriod hconsume

theorem Reachable.acceptedInput {simulation : BacktestSimulation F}
    (h : Reachable input options simulation) :
    AcceptedInput input ∧ (backtestRun input options).calendar ≠ [] := by
  induction h with
  | create simulation hcreate =>
    obtain ⟨haccepted, hcalendar, -⟩ := createBacktestSimulation_eq_ok_iff.mp hcreate
    exact ⟨haccepted, hcalendar⟩
  | window _ _ _ _ _ _ _ ih => exact ih
  | wholePeriod _ _ _ _ _ ih => exact ih

/-- A simulation with a result has simulated every date of its calendar. -/
theorem Reached.completedDays_of_finish {simulation : BacktestSimulation F}
    {result : BacktestResult F} (h : Reached input options simulation)
    (hfinish : finish simulation = .ok result) :
    simulation.state.completedDays = (backtestRun input options).calendar.length := by
  have hconsumed : simulation.nextWindowIndex = simulation.windows.length := by
    by_contra hne
    simp [finish, hne] at hfinish
  have hdates := (plansWindows_backtestRun input options).dates_eq
  rw [h.completed_eq, hconsumed, List.take_length, h.windows_eq, hdates]

/-- The sample run, once its whole period has been consumed. -/
theorem reachable_sample : Reachable sampleInput sampleOptions
    (wholePeriodSimulation sampleInput sampleOptions [sampleFrame "A", sampleFrame "B"]) := by
  have hcreated : Reachable sampleInput sampleOptions (freshSimulation sampleInput sampleOptions) :=
    .create _ createBacktestSimulation_sampleInput
  have hconsumed : consumeWholePeriod (freshSimulation sampleInput sampleOptions)
      [sampleFrame "A", sampleFrame "B"] = .ok (wholePeriodSimulation sampleInput sampleOptions
        [sampleFrame "A", sampleFrame "B"]) :=
    consumeWholePeriod_eq_ok_iff.mpr ⟨.cons rfl (.cons rfl .nil), rfl⟩
  exact .wholePeriod _ _ _ hcreated hconsumed

end FactorSage
