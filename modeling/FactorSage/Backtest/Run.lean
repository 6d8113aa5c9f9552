import FactorSage.Backtest.LedgerStep
import FactorSage.Backtest.Simulation

/-!
# A run, day by day

What a consumed window or period computes, without cursors and without errors: a fold of
`executeDay` over its dates, each day reading the row each security's frame has for that date.

* `frameIndexAt_advanceTo` — a cursor that is advanced along the calendar finds exactly the row of
  the date (`rowAt`).
* `foldlM_simulateDate` — days that continue the calendar are never rejected, and fold `executeDay`.
* `consumeWholePeriod_eq` — the whole period as one such fold.
-/

namespace FactorSage

open JsNumber AscendingList

variable {F : Type}

/-! ### Cursors -/

/-- A cursor nothing has moved yet, or one that an earlier date left behind. -/
def SecurityRuntime.ReadyFor (runtime : SecurityRuntime F) (date : LocalDate) : Prop :=
  runtime.cursor = 0 ∨ ∃ p ≤ date, runtime.cursor = lastIndexUpTo runtime.frame.dates p

variable {runtime : SecurityRuntime F}

/-- An advanced cursor stands on the last row up to the date. -/
theorem cursor_advanceTo {date : LocalDate} (h : runtime.ReadyFor date) :
    (runtime.advanceTo date).cursor = lastIndexUpTo runtime.frame.dates date := by
  change runtime.cursor + ((runtime.frame.dates.drop (runtime.cursor + 1)).takeWhile _).length = _
  rcases h with hzero | ⟨p, hp, hcursor⟩
  · rw [hzero, Nat.zero_add, Nat.zero_add, advance_from_start runtime.frame.ascending]
  · rw [hcursor, advance_from_earlier runtime.frame.ascending hp]

/-- **An advanced cursor finds the row of the date**, and finds none when there is none. -/
theorem frameIndexAt_advanceTo {date : LocalDate} (h : runtime.ReadyFor date) :
    frameIndexAt (runtime.advanceTo date) date = runtime.frame.dates.idxOf? date := by
  refine Option.ext fun i => ?_
  rw [idxOf?_eq_some_iff runtime.frame.ascending, frameIndexAt, cursor_advanceTo h]
  change (if runtime.frame.dates[_]? = some date then _ else _) = some i ↔ _
  constructor
  · intro hif
    split at hif
    · next hget =>
      obtain rfl : lastIndexUpTo runtime.frame.dates date = i := by simpa using hif
      exact hget
    · cases hif
  · intro hget
    have hlast := lastIndexUpTo_of_getElem? runtime.frame.ascending hget
    rw [hlast, if_pos hget]

/-- What one date advanced is ready for any date from it on. -/
theorem readyFor_advanceTo {date later : LocalDate}
    (h : runtime.ReadyFor date) (hlater : date ≤ later) :
    (runtime.advanceTo date).ReadyFor later :=
  .inr ⟨date, hlater, cursor_advanceTo h⟩

/-! ### Rows that read alike -/

section Rows

variable [JsNumber F]

/-- A row's gates, close and previous date are decided by the frame's own past at that row. -/
theorem runtimeRow_congr (definition : StrategyDefinition F) {frame₁ frame₂ : EvaluationFrame F}
    {i j : ℕ} (hpast : SamePast frame₁ frame₂ i j) (hi : i < frame₁.dates.length)
    (hj : j < frame₂.dates.length) (hclose : frame₁.closes[i]? = frame₂.closes[j]?)
    (hprevious : (if 0 < i then frame₁.dates[i - 1]? else none)
      = if 0 < j then frame₂.dates[j - 1]? else none) :
    runtimeRow frame₁ (buildStrategyGates definition frame₁) i
      = runtimeRow frame₂ (buildStrategyGates definition frame₂) j := by
  unfold runtimeRow
  rw [hclose, hprevious]
  congr 1
  · funext id
    exact readGate_buy_congr definition hpast hi hj id
  · funext id
    exact readGate_sell_congr definition hpast hi hj id
  · funext rule
    exact readGate_finalExit_congr definition hpast hi hj rule

end Rows

/-! ### Folding days -/

/-- Runtimes carried over a list of dates: only their cursors move. -/
def advanceAll (dates : List LocalDate) (runtimes : List (SecurityRuntime F)) :
    List (SecurityRuntime F) :=
  dates.foldl (fun runtimes date => runtimes.map (SecurityRuntime.advanceTo · date)) runtimes

/-- Advancing moves neither a security nor its frame. -/
theorem map_setup_frame_advanceAll (dates : List LocalDate)
    (runtimes : List (SecurityRuntime F)) :
    (advanceAll dates runtimes).map (fun r => (r.setup, r.frame))
      = runtimes.map fun r => (r.setup, r.frame) := by
  induction dates generalizing runtimes with
  | nil => rfl
  | cons date rest ih =>
    change (advanceAll rest (runtimes.map _)).map _ = _
    rw [ih, List.map_map]
    rfl

variable [JsNumber F]

/-- One frame's row of a date, by the date itself. -/
def SecurityRuntime.rowAt (runtime : SecurityRuntime F) (date : LocalDate) :
    Option (RuntimeRow F) :=
  (runtime.frame.dates.idxOf? date).map (runtimeRow runtime.frame runtime.gates)

/-- What a date's readings are, wherever the cursors stand. -/
def rowsOn (runtimes : List (SecurityRuntime F)) (date : LocalDate) : TodayRows F :=
  runtimes.map fun runtime => (runtime.setup, runtime.rowAt date)

/-- The readings of a date are those of its rows. -/
theorem todayRows_advanceTo {runtimes : List (SecurityRuntime F)} {date : LocalDate}
    (h : ∀ r ∈ runtimes, r.ReadyFor date) :
    todayRows (runtimes.map (SecurityRuntime.advanceTo · date)) date = rowsOn runtimes date := by
  unfold todayRows rowsOn
  rw [List.map_map]
  refine List.map_congr_left fun r hr => ?_
  simp only [Function.comp_apply, frameIndexAt_advanceTo (h r hr)]
  rfl

/-- The rows of the dates do not depend on where the cursors stand. -/
theorem rowsOn_advanceTo (runtimes : List (SecurityRuntime F)) (date : LocalDate) :
    rowsOn (runtimes.map (SecurityRuntime.advanceTo · date)) = rowsOn runtimes := by
  funext later
  unfold rowsOn
  rw [List.map_map]
  rfl

/-- The days of a run: each reads its date's rows and continues from the state before it. -/
def runDays (run : BacktestRun F) (rows : LocalDate → TodayRows F) (dates : List LocalDate)
    (s : SimulationState F) : SimulationState F :=
  dates.foldl (fun s date => executeDay run date (rows date) s) s

/-- The checkpoints of the days of a run. -/
def runCheckpoints (run : BacktestRun F) (rows : LocalDate → TodayRows F) :
    List LocalDate → SimulationState F → List (BacktestCheckpoint F)
  | [], _ => []
  | date :: rest, s =>
    let next := executeDay run date (rows date) s
    (dayCheckpoint run date next).toList ++ runCheckpoints run rows rest next

variable {run : BacktestRun F} {rows : LocalDate → TodayRows F}

@[simp] theorem runDays_nil (s : SimulationState F) : runDays run rows [] s = s := rfl

@[simp] theorem runDays_cons (date : LocalDate) (rest : List LocalDate) (s : SimulationState F) :
    runDays run rows (date :: rest) s
      = runDays run rows rest (executeDay run date (rows date) s) := rfl

/-- Days run in two parts. -/
theorem runDays_append (dates later : List LocalDate) (s : SimulationState F) :
    runDays run rows (dates ++ later) s = runDays run rows later (runDays run rows dates s) :=
  List.foldl_append

/-- Checkpoints of days run in two parts. -/
theorem runCheckpoints_append (dates later : List LocalDate) (s : SimulationState F) :
    runCheckpoints run rows (dates ++ later) s
      = runCheckpoints run rows dates s
        ++ runCheckpoints run rows later (runDays run rows dates s) := by
  induction dates generalizing s with
  | nil => rfl
  | cons date rest ih =>
    simp only [List.cons_append, runCheckpoints, runDays_cons, ih, List.append_assoc]

@[simp] theorem executeDay_completedDays (date : LocalDate) (today : TodayRows F)
    (s : SimulationState F) :
    (executeDay run date today s).completedDays = s.completedDays + 1 := rfl

/-- Every day counts as completed. -/
theorem runDays_completedDays (dates : List LocalDate) (s : SimulationState F) :
    (runDays run rows dates s).completedDays = s.completedDays + dates.length := by
  induction dates generalizing s with
  | nil => rfl
  | cons date rest ih =>
    rw [runDays_cons, ih, executeDay_completedDays, List.length_cons]
    omega

/-- What a date's own trading leaves. -/
def tradedLedger (run : BacktestRun F) (date : LocalDate) (today : TodayRows F)
    (s : SimulationState F) : Ledger F :=
  tradeDay run.rules date (contributionOn run date) today s.ledger

/-- A day trades, then closes. -/
theorem executeDay_ledger (run : BacktestRun F) (date : LocalDate) (today : TodayRows F)
    (s : SimulationState F) :
    (executeDay run date today s).ledger
      = closeDay (decide (s.completedDays + 1 = run.calendar.length)) today date
          (tradedLedger run date today s) := rfl

/-- A day's ledger is reached by the steps of its date from what its contribution left: those of
the strategy, then those of the period's end. -/
theorem executeDay_steps (run : BacktestRun F) (date : LocalDate) (today : TodayRows F)
    (s : SimulationState F) :
    LedgerSteps .strategy date (applyContribution (contributionOn run date) s.ledger)
        (tradedLedger run date today s)
      ∧ LedgerSteps .endOfBacktest date (tradedLedger run date today s)
        (executeDay run date today s).ledger :=
  ⟨tradeDay_steps run.rules date (contributionOn run date) today s.ledger,
    closeDay_steps _ today date _⟩

/-- A day adds one equity point, dated by the day. -/
theorem executeDay_equity (run : BacktestRun F) (date : LocalDate) (today : TodayRows F)
    (s : SimulationState F) :
    ∃ point, (executeDay run date today s).equity = s.equity ++ [point] ∧ point.date = date :=
  ⟨_, rfl, rfl⟩

/-- The equity curve has one point for each simulated date, in order. -/
theorem runDays_equity_dates (run : BacktestRun F) (rows : LocalDate → TodayRows F)
    (dates : List LocalDate) (s : SimulationState F) :
    (runDays run rows dates s).equity.map (·.date) = s.equity.map (·.date) ++ dates := by
  induction dates generalizing s with
  | nil => rw [runDays_nil, List.append_nil]
  | cons date rest ih =>
    obtain ⟨point, hequity, hdate⟩ := executeDay_equity run date (rows date) s
    rw [runDays_cons, ih, hequity, List.map_append, List.map_singleton, hdate, List.append_assoc]
    rfl

/-! ### Logs -/

/-- A part of the state that every day extends, by entries dated by the day. -/
def IsDayLog {α : Type} (run : BacktestRun F) (dateOf : α → LocalDate)
    (log : SimulationState F → List α) : Prop :=
  ∀ date today s, ∃ added, log (executeDay run date today s) = log s ++ added
    ∧ ∀ entry ∈ added, dateOf entry = date

/-- The trades are a log: a day's are dated by it. -/
theorem isDayLog_trades (run : BacktestRun F) :
    IsDayLog run BacktestTradeRecord.date fun s => s.ledger.trades := fun date today s => by
  obtain ⟨htrading, hclosing⟩ := executeDay_steps run date today s
  obtain ⟨traded, htraded, htradedDates⟩ := htrading.trades_extend
  obtain ⟨closed, hclosed, hclosedDates⟩ := hclosing.trades_extend
  refine ⟨traded ++ closed, ?_, fun trade hmem => ?_⟩
  · change (executeDay run date today s).ledger.trades = _
    rw [hclosed, htraded, applyContribution_trades, List.append_assoc]
  · rcases List.mem_append.mp hmem with hmem | hmem
    · exact (htradedDates trade hmem).1
    · exact (hclosedDates trade hmem).1

/-- The equity curve is a log. -/
theorem isDayLog_equity (run : BacktestRun F) :
    IsDayLog run BacktestEquityPoint.date SimulationState.equity := fun date today s => by
  obtain ⟨point, hequity, hdate⟩ := executeDay_equity run date today s
  exact ⟨[point], hequity, fun entry hmem => List.mem_singleton.mp hmem ▸ hdate⟩

namespace IsDayLog

variable {α : Type} {dateOf : α → LocalDate} {log : SimulationState F → List α}

/-- Days only append to a log, and date what they append. -/
theorem runDays (h : IsDayLog run dateOf log) (rows : LocalDate → TodayRows F)
    (dates : List LocalDate) (s : SimulationState F) :
    ∃ added, log (runDays run rows dates s) = log s ++ added
      ∧ ∀ entry ∈ added, dateOf entry ∈ dates := by
  induction dates generalizing s with
  | nil => exact ⟨[], by rw [runDays_nil, List.append_nil], by simp⟩
  | cons date rest ih =>
    obtain ⟨first, hfirst, hdate⟩ := h date (rows date) s
    obtain ⟨later, hlater, hdates⟩ := ih (executeDay run date (rows date) s)
    refine ⟨first ++ later, by rw [runDays_cons, hlater, hfirst, List.append_assoc], ?_⟩
    intro entry hmem
    rcases List.mem_append.mp hmem with hmem | hmem
    · exact List.mem_cons.mpr (.inl (hdate entry hmem))
    · exact List.mem_cons_of_mem _ (hdates entry hmem)

/-- **The log up to a date is the log of the days up to it.** -/
theorem filter_runDays (h : IsDayLog run dateOf log) (rows : LocalDate → TodayRows F)
    {calendar : List LocalDate} (hcalendar : calendar.Pairwise (· < ·)) (d : LocalDate)
    {s : SimulationState F} (hs : log s = []) :
    (log (FactorSage.runDays run rows calendar s)).filter (dateOf · ≤ d)
      = log (FactorSage.runDays run rows (calendar.filter (· ≤ d)) s) := by
  conv_lhs => rw [← filter_le_append_filter_lt hcalendar d, runDays_append]
  obtain ⟨early, hearly, hearlyDates⟩ := h.runDays rows (calendar.filter (· ≤ d)) s
  obtain ⟨late, hlate, hlateDates⟩ := h.runDays rows (calendar.filter (d < ·))
    (FactorSage.runDays run rows (calendar.filter (· ≤ d)) s)
  rw [hlate, hearly, hs, List.nil_append, List.filter_append]
  have hkeep : early.filter (dateOf · ≤ d) = early := List.filter_eq_self.mpr fun entry hmem =>
    (List.mem_filter.mp (hearlyDates entry hmem)).2
  have hdrop : late.filter (dateOf · ≤ d) = [] := List.filter_eq_nil_iff.mpr fun entry hmem => by
    have hlt : d < dateOf entry := by simpa using (List.mem_filter.mp (hlateDates entry hmem)).2
    simpa using hlt
  rw [hkeep, hdrop, List.append_nil]

end IsDayLog

variable {dates : List LocalDate}

/-- Days that read the same rows run alike. -/
theorem runDays_congr {rows' : LocalDate → TodayRows F}
    (h : ∀ d ∈ dates, rows d = rows' d) (s : SimulationState F) :
    runDays run rows dates s = runDays run rows' dates s := by
  induction dates generalizing s with
  | nil => rw [runDays_nil, runDays_nil]
  | cons date rest ih =>
    rw [runDays_cons, runDays_cons, h date List.mem_cons_self,
      ih fun d hd => h d (List.mem_cons_of_mem _ hd)]

/-- Days that read the same rows leave the same checkpoints. -/
theorem runCheckpoints_congr {rows' : LocalDate → TodayRows F}
    (h : ∀ d ∈ dates, rows d = rows' d) (s : SimulationState F) :
    runCheckpoints run rows dates s = runCheckpoints run rows' dates s := by
  induction dates generalizing s with
  | nil => rfl
  | cons date rest ih =>
    simp only [runCheckpoints]
    rw [h date List.mem_cons_self, ih fun d hd => h d (List.mem_cons_of_mem _ hd)]

/-- A simulation after some days of its current window. -/
def BacktestSimulation.afterDays (simulation : BacktestSimulation F) (dates : List LocalDate) :
    BacktestSimulation F :=
  { simulation with
    runtimes := advanceAll dates simulation.runtimes
    state := runDays simulation.run (rowsOn simulation.runtimes) dates simulation.state
    checkpoints := simulation.checkpoints
      ++ runCheckpoints simulation.run (rowsOn simulation.runtimes) dates simulation.state }

/-- **Days that continue the calendar are never rejected**, and each executes on the rows its date
has. -/
theorem foldlM_simulateDate (simulation : BacktestSimulation F) (dates : List LocalDate)
    {later : List LocalDate}
    (hcalendar : simulation.run.calendar.drop simulation.state.completedDays = dates ++ later)
    (hascending : dates.Pairwise (· < ·))
    (hready : ∀ r ∈ simulation.runtimes, ∀ d ∈ dates, r.ReadyFor d) :
    dates.foldlM simulateDate simulation = .ok (simulation.afterDays dates) := by
  induction dates generalizing simulation with
  | nil =>
    simp only [List.foldlM_nil, BacktestSimulation.afterDays, runDays_nil, runCheckpoints,
      List.append_nil]
    rfl
  | cons date rest ih =>
    have hdate : simulation.run.calendar[simulation.state.completedDays]? = some date := by
      rw [← List.head?_drop, hcalendar]
      rfl
    have htoday := todayRows_advanceTo fun r hr => hready r hr date List.mem_cons_self
    rw [List.foldlM_cons, simulateDate, if_neg (not_not.mpr hdate)]
    simp only [htoday]
    change rest.foldlM simulateDate _ = _
    rw [ih]
    · -- the rest of the fold reads the rows the unmoved runtimes read
      simp only [BacktestSimulation.afterDays, rowsOn_advanceTo, runDays_cons, runCheckpoints,
        List.append_assoc]
      rfl
    · change simulation.run.calendar.drop (simulation.state.completedDays + 1) = _
      rw [← List.drop_drop, hcalendar]
      rfl
    · exact List.Pairwise.of_cons hascending
    · intro r hr d hd
      obtain ⟨r, hmem, rfl⟩ := List.mem_map.mp hr
      exact readyFor_advanceTo (hready r hmem date List.mem_cons_self)
        (List.rel_of_pairwise_cons hascending hd).le

/-! ### Binding frames -/

/-- A security bound to a frame, its cursor at the start. -/
def boundRuntime (definition : StrategyDefinition F) (setup : BacktestSecuritySetup)
    (frame : EvaluationFrame F) : SecurityRuntime F where
  setup := setup
  frame := frame
  gates := buildStrategyGates definition frame
  cursor := 0

/-- The runtimes of a window: every security with its frame, the retained row in front. -/
def boundRuntimes (definition : StrategyDefinition F)
    (contextRows : OrderedMap String (EvaluationFrameContextRow F))
    (setups : List BacktestSecuritySetup) (frames : List (EvaluationFrame F)) :
    List (SecurityRuntime F) :=
  (setups.zip frames).map fun entry =>
    boundRuntime definition entry.1 (splicedFrame entry.2 (contextRows.get? entry.1.securityId))

/-- Frames that answer to the run's securities, in the run's order. -/
def FramesMatch (setups : List BacktestSecuritySetup) (frames : List (EvaluationFrame F)) : Prop :=
  List.Forall₂ (fun setup frame => frame.securityId = setup.securityId) setups frames

/-- A walk none of whose steps is rejected. -/
theorem mapM_eq_ok {α β ε : Type} {f : α → Except ε β} {g : α → β} {l : List α}
    (h : ∀ a ∈ l, f a = .ok (g a)) : l.mapM f = .ok (l.map g) := by
  induction l with
  | nil => rfl
  | cons a rest ih =>
    rw [List.mapM_cons, h a List.mem_cons_self, ih fun b hb => h b (List.mem_cons_of_mem _ hb)]
    rfl

/-- In a walk that is not rejected, no step is. -/
theorem exists_ok_of_mapM_eq_ok {α β ε : Type} {f : α → Except ε β} {l : List α} {bs : List β}
    (h : l.mapM f = .ok bs) : ∀ a ∈ l, ∃ b, f a = .ok b := by
  induction l generalizing bs with
  | nil => simp
  | cons a rest ih =>
    rw [List.mapM_cons] at h
    cases ha : f a with
    | error e => simp [ha, bind, Except.bind] at h
    | ok b =>
      cases hrest : rest.mapM f with
      | error e => simp [ha, hrest, bind, Except.bind] at h
      | ok bs' =>
        intro a' ha'
        rcases List.mem_cons.mp ha' with rfl | ha'
        · exact ⟨b, ha⟩
        · exact ih hrest a' ha'

/-- A frame of its own security is bound, with the retained row in front. -/
theorem bindRuntime_eq (definition : StrategyDefinition F)
    (contextRows : OrderedMap String (EvaluationFrameContextRow F))
    {setup : BacktestSecuritySetup} {frame : EvaluationFrame F}
    (h : frame.securityId = setup.securityId) (index : ℕ) :
    bindRuntime definition contextRows setup frame index
      = .ok (boundRuntime definition setup
          (splicedFrame frame (contextRows.get? setup.securityId))) := by
  simp only [bindRuntime, h, withLeadingContextRow_eq, ne_eq, not_true_eq_false, if_false]
  rfl

variable {frames : List (EvaluationFrame F)}

/-- Matching frames are bound, none is rejected. -/
theorem openWindow_eq (simulation : BacktestSimulation F)
    (h : FramesMatch simulation.run.input.securities frames) :
    openWindow simulation frames
      = .ok { simulation with
          runtimes := boundRuntimes simulation.run.input.definition simulation.contextRows
            simulation.run.input.securities frames } := by
  have hbind : (simulation.run.input.securities.zip frames).zipIdx.mapM (fun entry =>
      bindRuntime simulation.run.input.definition simulation.contextRows entry.1.1 entry.1.2
        entry.2) = .ok (boundRuntimes simulation.run.input.definition simulation.contextRows
          simulation.run.input.securities frames) := by
    rw [mapM_eq_ok (g := fun entry => boundRuntime simulation.run.input.definition entry.1.1
      (splicedFrame entry.1.2 (simulation.contextRows.get? entry.1.1.securityId)))]
    · rw [boundRuntimes]
      conv_rhs => rw [← List.zipIdx_map_fst 0 (simulation.run.input.securities.zip frames)]
      rw [List.map_map]
      rfl
    · rintro ⟨⟨setup, frame⟩, index⟩ hmem
      refine bindRuntime_eq _ _ ?_ index
      exact (List.forall₂_iff_zip.mp h).2 (List.fst_mem_of_mem_zipIdx hmem)
  unfold openWindow
  simp only [h.length_eq, ne_eq, not_true_eq_false, if_false, hbind]
  rfl

/-- A window that was opened got one frame per security, in the run's order. -/
theorem framesMatch_of_openWindow {simulation opened : BacktestSimulation F}
    (h : openWindow simulation frames = .ok opened) :
    FramesMatch simulation.run.input.securities frames := by
  unfold openWindow at h
  by_cases hlength : frames.length = simulation.run.input.securities.length
  · simp only [hlength, ne_eq, not_true_eq_false, if_false, pure, Except.pure] at h
    cases hbind : (simulation.run.input.securities.zip frames).zipIdx.mapM (fun entry =>
        bindRuntime simulation.run.input.definition simulation.contextRows entry.1.1 entry.1.2
          entry.2) with
    | error message => simp [hbind, bind, Except.bind] at h
    | ok runtimes =>
      refine List.forall₂_iff_zip.mpr ⟨hlength.symm, fun {setup frame} hmem => ?_⟩
      rw [← List.zipIdx_map_fst 0 (simulation.run.input.securities.zip frames)] at hmem
      obtain ⟨⟨entry, index⟩, hentry, rfl⟩ := List.mem_map.mp hmem
      obtain ⟨runtime, hruntime⟩ := exists_ok_of_mapM_eq_ok hbind _ hentry
      by_contra hid
      simp [bindRuntime, hid, bind, Except.bind, throw, throwThe, MonadExceptOf.throw] at hruntime
  · simp [hlength, bind, Except.bind, throw, throwThe, MonadExceptOf.throw] at h

/-- A cursor at the start is ready for any date. -/
theorem readyFor_boundRuntimes {definition : StrategyDefinition F}
    {contextRows : OrderedMap String (EvaluationFrameContextRow F)}
    {setups : List BacktestSecuritySetup}
    {r : SecurityRuntime F} (h : r ∈ boundRuntimes definition contextRows setups frames)
    (date : LocalDate) : r.ReadyFor date := by
  obtain ⟨entry, -, rfl⟩ := List.mem_map.mp h
  exact .inl rfl

/-- The simulation that has claimed its next window, before the window's frames are bound. -/
def BacktestSimulation.claimWindow (simulation : BacktestSimulation F) : BacktestSimulation F :=
  { simulation with nextWindowIndex := simulation.nextWindowIndex + 1 }

/-- The shared half of `consumeWindow` and `consumeWholePeriod`: opens the frames, simulates the
dates and closes the window. -/
def simulateFrames (simulation : BacktestSimulation F) (frames : List (EvaluationFrame F))
    (dates : List LocalDate) : Except String (BacktestSimulation F) :=
  (openWindow simulation frames).bind fun opened =>
    (dates.foldlM simulateDate opened).bind fun simulated => .ok (closeWindow simulated)

/-- A window is consumed when it has the number of the next one. -/
theorem consumeWindow_eq_ok_iff {simulation next : BacktestSimulation F}
    {window : BacktestExecutionWindow} :
    consumeWindow simulation window frames = .ok next
      ↔ (∃ expected, simulation.windows[simulation.nextWindowIndex]? = some expected
          ∧ expected.index = window.index)
        ∧ simulateFrames simulation.claimWindow frames window.dates = .ok next := by
  unfold consumeWindow
  cases hexpected : simulation.windows[simulation.nextWindowIndex]? with
  | none => simp [throw, throwThe, MonadExceptOf.throw]
  | some expected =>
    by_cases hindex : expected.index = window.index
    · have hexists : ∃ w, some expected = some w ∧ w.index = window.index :=
        ⟨expected, rfl, hindex⟩
      simp only [hindex, ne_eq, not_true_eq_false, if_false, hexists, true_and]
      rfl
    · simp [hindex, bind, Except.bind, throw, throwThe, MonadExceptOf.throw]

/-- The whole period is consumed by a simulation that has not started. -/
theorem consumeWholePeriod_eq_ok_iff_simulateFrames {simulation next : BacktestSimulation F} :
    consumeWholePeriod simulation frames = .ok next
      ↔ simulation.nextWindowIndex = 0
        ∧ simulateFrames { simulation with nextWindowIndex := simulation.windows.length } frames
            simulation.run.calendar = .ok next := by
  unfold consumeWholePeriod
  by_cases hstarted : simulation.nextWindowIndex = 0
  · simp only [hstarted, ne_eq, not_true_eq_false, if_false, true_and]
    rfl
  · simp [hstarted, bind, Except.bind, throw, throwThe, MonadExceptOf.throw]

/-- Frames that match, and days that are not rejected, close the window. -/
theorem simulateFrames_eq_ok {simulation simulated : BacktestSimulation F}
    (hmatch : FramesMatch simulation.run.input.securities frames)
    (hdays : dates.foldlM simulateDate
        { simulation with
          runtimes := boundRuntimes simulation.run.input.definition simulation.contextRows
            simulation.run.input.securities frames } = .ok simulated) :
    simulateFrames simulation frames dates = .ok (closeWindow simulated) := by
  rw [simulateFrames, openWindow_eq simulation hmatch, Except.bind, hdays]
  rfl

/-- What opening and simulating had to be for a window to close. -/
theorem exists_of_simulateFrames {simulation next : BacktestSimulation F}
    (h : simulateFrames simulation frames dates = .ok next) :
    FramesMatch simulation.run.input.securities frames
      ∧ ∃ simulated, dates.foldlM simulateDate
          { simulation with
            runtimes := boundRuntimes simulation.run.input.definition simulation.contextRows
              simulation.run.input.securities frames } = .ok simulated
        ∧ next = closeWindow simulated := by
  unfold simulateFrames at h
  cases hopen : openWindow simulation frames with
  | error message =>
    rw [hopen] at h
    cases h
  | ok opened =>
    have hmatch := framesMatch_of_openWindow hopen
    obtain rfl := Except.ok.inj (hopen.symm.trans (openWindow_eq simulation hmatch))
    rw [hopen] at h
    refine ⟨hmatch, ?_⟩
    cases hdays : dates.foldlM simulateDate { simulation with
        runtimes := boundRuntimes simulation.run.input.definition simulation.contextRows
          simulation.run.input.securities frames } with
    | error message =>
      rw [Except.bind, hdays] at h
      cases h
    | ok simulated =>
      rw [Except.bind, hdays] at h
      exact ⟨simulated, rfl, (Except.ok.inj h).symm⟩

/-- The simulation after one window. -/
def BacktestSimulation.afterWindow (simulation : BacktestSimulation F)
    (window : BacktestExecutionWindow) (frames : List (EvaluationFrame F)) :
    BacktestSimulation F :=
  closeWindow (BacktestSimulation.afterDays
    { simulation.claimWindow with
      runtimes := boundRuntimes simulation.run.input.definition simulation.contextRows
        simulation.run.input.securities frames }
    window.dates)

variable {simulation : BacktestSimulation F}

/-- **A window is one fold of days** over the frames bound for it. -/
theorem consumeWindow_eq {window : BacktestExecutionWindow} {later : List LocalDate}
    (hnext : simulation.windows[simulation.nextWindowIndex]? = some window)
    (hmatch : FramesMatch simulation.run.input.securities frames)
    (hcalendar : simulation.run.calendar.drop simulation.state.completedDays
      = window.dates ++ later)
    (hascending : window.dates.Pairwise (· < ·)) :
    consumeWindow simulation window frames = .ok (simulation.afterWindow window frames) := by
  have hdays := foldlM_simulateDate
    { simulation.claimWindow with
      runtimes := boundRuntimes simulation.run.input.definition simulation.contextRows
        simulation.run.input.securities frames }
    window.dates hcalendar hascending
    fun r hr d _ => readyFor_boundRuntimes hr d
  exact consumeWindow_eq_ok_iff.mpr ⟨⟨window, hnext, rfl⟩, simulateFrames_eq_ok hmatch hdays⟩

/-! ### The constructor -/

/-- What `assertInput` checks. -/
structure AcceptedInput (input : BacktestSimulationInput F) : Prop where
  maximumPositions_pos : 0 < input.maximumPositions
  initialCapital_finite : isFinite input.initialCapital = true
  initialCapital_pos : le input.initialCapital (ofInt 0) = false
  monthlyContribution_finite : isFinite input.monthlyContribution = true
  monthlyContribution_nonneg : lt input.monthlyContribution (ofInt 0) = false
  period : input.startDate ≤ input.endDate
  securities_ne_nil : input.securities ≠ []
  buyLevels_ne_nil : input.definition.buyLevels ≠ []

/-- The simulation before its first window. -/
def freshSimulation (input : BacktestSimulationInput F) (options : BacktestSimulationOptions) :
    BacktestSimulation F where
  run := backtestRun input options
  windows := planExecutionWindows (backtestRun input options).calendar input.startDate input.endDate
  state := initialState input
  checkpoints := []
  contextRows := .empty
  runtimes := []
  nextWindowIndex := 0

/-- `assertInput` passes exactly what passes its checks. -/
theorem assertInput_eq_ok_iff {input : BacktestSimulationInput F} :
    assertInput input = .ok () ↔ AcceptedInput input := by
  unfold assertInput
  constructor
  · intro h
    split at h
    · cases h
    split at h
    · cases h
    split at h
    · cases h
    split at h
    · cases h
    split at h
    · cases h
    split at h
    · cases h
    next hpositions hcapital hmonthly hperiod hsecurities hbuy =>
    constructor <;> simp_all
  · rintro ⟨hpositions, hfinite, hpos, hmonthly, hnonneg, hperiod, hsecurities, hbuy⟩
    simp [not_le.mpr hpositions, hfinite, hpos, hmonthly, hnonneg, not_lt.mpr hperiod, hsecurities,
      hbuy]

/-- The constructor accepts an input exactly when it passes its checks and its period keeps a
trading day. -/
theorem createBacktestSimulation_eq_ok_iff {input : BacktestSimulationInput F}
    {options : BacktestSimulationOptions} :
    createBacktestSimulation input options = .ok simulation
      ↔ AcceptedInput input ∧ (backtestRun input options).calendar ≠ []
        ∧ simulation = freshSimulation input options := by
  have hcalendar : input.executionCalendar = [] → (backtestRun input options).calendar = [] := by
    intro hnil
    simp [backtestRun, buildExecutionCalendar, hnil]
  rw [← assertInput_eq_ok_iff]
  unfold createBacktestSimulation
  cases hassert : assertInput input with
  | error message => simp [bind, Except.bind]
  | ok u =>
    by_cases hrun : (backtestRun input options).calendar = []
    · -- an empty calendar is rejected, whether or not the reference series was empty
      simp only [hrun, bind, Except.bind, pure, Except.pure, throw, throwThe, MonadExceptOf.throw]
      split <;> simp
    · have hreference : input.executionCalendar ≠ [] := fun hnil => hrun (hcalendar hnil)
      simp only [List.isEmpty_iff, hrun, hreference, if_false, bind, Except.bind, pure,
        Except.pure, Except.ok.injEq, ne_eq, not_false_eq_true, true_and]
      exact eq_comm

/-! ### The whole period -/

/-- The rows a whole-period run reads on each date. -/
def wholeRows (input : BacktestSimulationInput F) (frames : List (EvaluationFrame F)) :
    LocalDate → TodayRows F :=
  rowsOn (boundRuntimes input.definition .empty input.securities frames)

/-- The simulation that has claimed every window, before its frames are bound. -/
def claimedSimulation (input : BacktestSimulationInput F) (options : BacktestSimulationOptions) :
    BacktestSimulation F :=
  { freshSimulation input options with
    nextWindowIndex := (freshSimulation input options).windows.length }

/-- The simulation after the whole period. -/
def wholePeriodSimulation (input : BacktestSimulationInput F) (options : BacktestSimulationOptions)
    (frames : List (EvaluationFrame F)) : BacktestSimulation F :=
  closeWindow (BacktestSimulation.afterDays
    { claimedSimulation input options with
      runtimes := boundRuntimes input.definition .empty input.securities frames }
    (backtestRun input options).calendar)

variable {input : BacktestSimulationInput F} {options : BacktestSimulationOptions}

/-- **The whole period is one fold of days**, rejected exactly when the frames do not answer to the
run's securities. -/
theorem consumeWholePeriod_eq_ok_iff :
    consumeWholePeriod (freshSimulation input options) frames = .ok simulation
      ↔ FramesMatch input.securities frames
        ∧ simulation = wholePeriodSimulation input options frames := by
  have hdays := foldlM_simulateDate
    { claimedSimulation input options with
      runtimes := boundRuntimes input.definition .empty input.securities frames }
    (backtestRun input options).calendar (List.append_nil _).symm buildExecutionCalendar_ascending
    fun r hr d _ => readyFor_boundRuntimes hr d
  have hconsumes : consumeWholePeriod (freshSimulation input options) frames = .ok simulation
      ↔ simulateFrames (claimedSimulation input options) frames
          (backtestRun input options).calendar = .ok simulation := by
    rw [consumeWholePeriod_eq_ok_iff_simulateFrames]
    exact and_iff_right rfl
  rw [hconsumes]
  constructor
  · intro h
    obtain ⟨hmatch, simulated, hsimulated, rfl⟩ := exists_of_simulateFrames h
    refine ⟨hmatch, ?_⟩
    obtain rfl := Except.ok.inj (hdays.symm.trans hsimulated)
    rfl
  · rintro ⟨hmatch, rfl⟩
    exact simulateFrames_eq_ok hmatch hdays

/-- The state after the whole period is one fold of its calendar. -/
theorem wholePeriodSimulation_state (input : BacktestSimulationInput F)
    (options : BacktestSimulationOptions) (frames : List (EvaluationFrame F)) :
    (wholePeriodSimulation input options frames).state
      = runDays (backtestRun input options) (wholeRows input frames)
          (backtestRun input options).calendar (initialState input) :=
  rfl

/-- What a finished simulation reports reads only its run and its state. -/
theorem finish_wholePeriodSimulation_congr {other : BacktestSimulation F}
    (hrun : other.run = (wholePeriodSimulation input options frames).run)
    (hstate : other.state = (wholePeriodSimulation input options frames).state)
    (hwindows : other.nextWindowIndex = other.windows.length) :
    finish other = finish (wholePeriodSimulation input options frames) := by
  have hwhole : (wholePeriodSimulation input options frames).nextWindowIndex
      = (wholePeriodSimulation input options frames).windows.length := rfl
  unfold finish
  rw [if_neg (not_not.mpr hwindows), if_neg (not_not.mpr hwhole), hrun, hstate]

/-- What `finish` returns once every window is consumed. -/
theorem finish_eq_ok {last : BacktestEquityPoint F} {firstDate lastDate : LocalDate}
    (hconsumed : simulation.nextWindowIndex = simulation.windows.length)
    (hlast : simulation.state.equity.getLast? = some last)
    (hfirstDate : simulation.run.calendar.head? = some firstDate)
    (hlastDate : simulation.run.calendar.getLast? = some lastDate) :
    finish simulation = .ok
      { trades := simulation.state.ledger.trades
        equity := simulation.state.equity
        positions := (finalPositions simulation.state.ledger.positions
          (quantizeMoney last.totalValue.value)).1
        summary := buildSummary simulation.run simulation.state last firstDate lastDate } := by
  simp only [finish, hconsumed, ne_eq, not_true_eq_false, if_false, hlast, hfirstDate, hlastDate]

/-- A consumed period has a result. -/
theorem exists_finish_wholePeriodSimulation (frames : List (EvaluationFrame F))
    (hcalendar : (backtestRun input options).calendar ≠ []) :
    ∃ result, finish (wholePeriodSimulation input options frames) = .ok result := by
  have hdates := runDays_equity_dates (backtestRun input options)
    (wholeRows input frames) (backtestRun input options).calendar (initialState input)
  rw [← wholePeriodSimulation_state input options frames] at hdates
  have hequity : (wholePeriodSimulation input options frames).state.equity ≠ [] := fun hnil => by
    rw [hnil] at hdates
    exact hcalendar hdates.symm
  obtain ⟨last, hlast⟩ := List.getLast?_isSome.mpr hequity |> Option.isSome_iff_exists.mp
  obtain ⟨first, hfirst⟩ := List.isSome_head?.mpr hcalendar |> Option.isSome_iff_exists.mp
  obtain ⟨final, hfinal⟩ := List.getLast?_isSome.mpr hcalendar |> Option.isSome_iff_exists.mp
  exact ⟨_, finish_eq_ok rfl hlast hfirst hfinal⟩

/-! ### A sample run

Two securities over a year boundary, bought while their price is above one. -/

def sampleDates : List LocalDate := [.ofYmd 2020 12 31, .ofYmd 2021 1 4, .ofYmd 2021 1 5]

def sampleFrame (securityId : String) : EvaluationFrame ExactNumber where
  securityId := securityId
  symbol := securityId
  name := securityId
  dates := sampleDates
  closes := [.finite 10, .finite 11, .finite 12]
  columns := .empty
  periodStartIndex := 0
  closes_length := rfl
  ascending := by decide
  columns_length _ h := absurd h List.not_mem_nil

def sampleSetup (securityId : String) : BacktestSecuritySetup where
  securityId := securityId
  symbol := securityId
  name := securityId
  buyWindows := .full

def sampleInput : BacktestSimulationInput ExactNumber where
  definition :=
    { buyLevels :=
        [{ id := "buy"
           signal :=
            { conditions :=
                [{ id := "above", metric := .price none, operator := .isAbove
                   value := .number (.finite 1) }]
              trigger := none }
           percentage := 100 }]
      sellLevels := []
      finalExit := none }
  securities := [sampleSetup "A", sampleSetup "B"]
  benchmark := none
  executionCalendar := sampleDates
  startDate := .ofYmd 2020 12 1
  endDate := .ofYmd 2021 1 31
  initialCapital := .finite 1000
  monthlyContribution := .finite 10
  maximumPositions := 2

def sampleOptions : BacktestSimulationOptions where
  checkpointEveryDays := some 1
  maxCurvePoints := none
  recentTradeCount := none
  onCheckpoint := true

theorem createBacktestSimulation_sampleInput :
    createBacktestSimulation sampleInput sampleOptions
      = .ok (freshSimulation sampleInput sampleOptions) := by
  refine createBacktestSimulation_eq_ok_iff.mpr ⟨?_, by decide, rfl⟩
  constructor
  · decide
  · rfl
  · decide +kernel
  · rfl
  · decide +kernel
  · decide
  · exact List.cons_ne_nil _ _
  · exact List.cons_ne_nil _ _

end FactorSage
