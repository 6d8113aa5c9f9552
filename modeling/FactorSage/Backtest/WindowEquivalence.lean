import FactorSage.Backtest.Run
import FactorSage.Backtest.WindowPlan
import FactorSage.Strategy.FrameSlice

/-!
# Year windows are invisible

Consuming a run window by window, from frames that hold each window's rows and any block of rows
before them, computes what consuming the whole period computes.

* `IsWindowFrame` — what a window's frame holds of the whole-period frame.
* `CarriesLast` — what the retained row of a security is after a window.
* `coversWindow_splicedFrame` — the frame a window is bound with is a slice of the whole frame that
  reaches one row further back than the window, unless there is none.
* `WindowsConsumed.consume` — the step over one window, and `windowsConsumed_all` the run over all
  of them.
-/

namespace FactorSage

open AscendingList

variable {F : Type}

/-- A window's frame: the whole frame's rows dated inside the window, under every column key,
preceded by the `block` rows just before them. -/
structure IsWindowFrame (whole part : EvaluationFrame F) (window : BacktestExecutionWindow)
    (block : ℕ) : Prop where
  securityId_eq : part.securityId = whole.securityId
  block_le : block ≤ rowsBefore whole window.fromDate
  isSlice : IsSlice part whole (rowsBefore whole window.fromDate - block)
    (rowsUpTo whole window.toDate - (rowsBefore whole window.fromDate - block))

/-- The retained row of a security after its first `rows` rows: the last of them, if any. -/
def CarriesLast (whole : EvaluationFrame F) :
    ℕ → Option (EvaluationFrameContextRow F) → Prop
  | 0, context => context = none
  | j + 1, context => ∃ row, context = some row ∧ whole.dates[j]? = some row.date ∧
      whole.closes[j]? = some row.close ∧
      ∀ key, row.values.get? key = (whole.columns.get? key).bind (·[j]?)

/-- The bound frame of a window: a slice up to the window's last row that starts before the window's
first row, unless the whole frame starts there. -/
def CoversWindow (bound whole : EvaluationFrame F) (before upTo : ℕ) : Prop :=
  ∃ offset, IsSlice bound whole offset (upTo - offset) ∧ offset ≤ upTo ∧
    (offset = 0 ∨ offset < before)

/-! ### The frames of a window -/

variable {window : BacktestExecutionWindow}

/-- A whole frame has a window frame for every window and block. -/
theorem isWindowFrame_slice (whole : EvaluationFrame F)
    (hrange : window.fromDate ≤ window.toDate) {block : ℕ}
    (hblock : block ≤ rowsBefore whole window.fromDate) :
    IsWindowFrame whole
      (whole.slice (rowsBefore whole window.fromDate - block)
        (rowsUpTo whole window.toDate - (rowsBefore whole window.fromDate - block)))
      window block where
  securityId_eq := rfl
  block_le := hblock
  isSlice := isSlice_slice (by
    have hle := rowsBefore_le_rowsUpTo whole hrange
    have hlength := rowsUpTo_le_length whole window.toDate
    omega)

/-! ### The frames of a windowed run -/

/-- The windows of a run. -/
def plannedWindows (input : BacktestSimulationInput F) : List BacktestExecutionWindow :=
  planExecutionWindows
    (buildExecutionCalendar input.startDate input.endDate input.executionCalendar)
    input.startDate input.endDate

/-- The frames of a windowed run. `whole` is each security's whole-period frame, `part` its frame in
each window, and `block` how many rows before the window that frame starts. -/
structure WindowedFrames (input : BacktestSimulationInput F) (whole : String → EvaluationFrame F)
    (part : BacktestExecutionWindow → String → EvaluationFrame F)
    (block : BacktestExecutionWindow → String → ℕ) : Prop where
  securityId_eq : ∀ setup ∈ input.securities,
    (whole setup.securityId).securityId = setup.securityId
  isWindowFrame : ∀ window ∈ plannedWindows input, ∀ setup ∈ input.securities,
    IsWindowFrame (whole setup.securityId) (part window setup.securityId) window
      (block window setup.securityId)
  /-- The first window's frames reach one row further back, when there is one. -/
  first_block : ∀ window ∈ (plannedWindows input).head?, ∀ setup ∈ input.securities,
    0 < rowsBefore (whole setup.securityId) window.fromDate → 0 < block window setup.securityId
  /-- Every row lies before the first window or in a year that has a window. -/
  covered : ∀ setup ∈ input.securities, ∀ date ∈ (whole setup.securityId).dates,
    (∃ window ∈ (plannedWindows input).head?, date < window.fromDate)
      ∨ ∃ window ∈ plannedWindows input, date.year = window.year

/-- The whole-period frames, in the run's order. -/
def wholeFrames (input : BacktestSimulationInput F) (whole : String → EvaluationFrame F) :
    List (EvaluationFrame F) :=
  input.securities.map fun setup => whole setup.securityId

/-- One window's frames, in the run's order. -/
def windowFrames (input : BacktestSimulationInput F)
    (part : BacktestExecutionWindow → String → EvaluationFrame F)
    (window : BacktestExecutionWindow) : List (EvaluationFrame F) :=
  input.securities.map fun setup => part window setup.securityId

section Plan

variable {input : BacktestSimulationInput F}

theorem plansWindows_plannedWindows (input : BacktestSimulationInput F) :
    PlansWindows input.startDate input.endDate
      (buildExecutionCalendar input.startDate input.endDate input.executionCalendar)
      (plannedWindows input) :=
  plansWindows_planExecutionWindows buildExecutionCalendar_ascending

theorem calendar_mem_period {d : LocalDate}
    (h : d ∈ buildExecutionCalendar input.startDate input.endDate input.executionCalendar) :
    input.startDate ≤ d ∧ d ≤ input.endDate :=
  (mem_buildExecutionCalendar.mp h).2

theorem window_range {window : BacktestExecutionWindow} (h : window ∈ plannedWindows input) :
    window.fromDate ≤ window.toDate := by
  obtain ⟨d, hd, -⟩ := (plansWindows_plannedWindows input).opened window h
  obtain ⟨hfrom, hto⟩ := (plansWindows_plannedWindows input).mem_range (fun _ => calendar_mem_period) h hd
  exact hfrom.trans hto

/-- **No row falls between two windows**: the rows before a window are the rows up to the end of the
window before it. -/
theorem rowsBefore_eq_rowsUpTo {whole : EvaluationFrame F}
    {earlier later : List BacktestExecutionWindow} {previous window : BacktestExecutionWindow}
    (hplan : plannedWindows input = earlier ++ previous :: window :: later)
    (hcovered : ∀ date ∈ whole.dates,
      (∃ first ∈ (plannedWindows input).head?, date < first.fromDate)
        ∨ ∃ w ∈ plannedWindows input, date.year = w.year) :
    rowsBefore whole window.fromDate = rowsUpTo whole previous.toDate := by
  have hplans := plansWindows_plannedWindows input
  have hperiod : ∀ d ∈ buildExecutionCalendar input.startDate input.endDate
      input.executionCalendar, input.startDate ≤ d ∧ d ≤ input.endDate :=
    fun _ => calendar_mem_period
  have hwindow : window ∈ plannedWindows input := by rw [hplan]; simp
  have hprevious : previous ∈ plannedWindows input := by rw [hplan]; simp
  have hyears := hplans.years_ascending
  rw [hplan] at hyears
  obtain ⟨-, hrest, hearlier⟩ := List.pairwise_append.mp hyears
  obtain ⟨hafter, hlater⟩ := List.pairwise_cons.mp hrest
  have hlt : previous.year < window.year := hafter window List.mem_cons_self
  refine List.countP_congr fun date hdate => ?_
  rw [decide_eq_true_iff, decide_eq_true_iff, hplans.lt_fromDate_iff hperiod hwindow hprevious hlt,
    hplans.le_toDate_iff hperiod hprevious hwindow hlt]
  refine ⟨fun hyear => ?_, fun hyear => hyear.trans_lt hlt⟩
  rcases hcovered date hdate with ⟨first, hfirst, hbefore⟩ | ⟨w, hw, heq⟩
  · -- before the first window, so in the first window's year at the latest
    have hmem : first ∈ plannedWindows input := List.mem_of_mem_head? hfirst
    obtain ⟨d, hd, -⟩ := hplans.opened first hmem
    have hle : date.year ≤ first.year := by
      rw [← hplans.year_eq first hmem d hd]
      exact LocalDate.year_le_of_le (hbefore.le.trans (hplans.mem_range hperiod hmem hd).1)
    refine hle.trans ?_
    rw [hplan] at hfirst
    cases earlier with
    | nil =>
      obtain rfl : previous = first := by simpa using hfirst
      exact le_rfl
    | cons e rest =>
      obtain rfl : e = first := by simpa using hfirst
      exact (hearlier e List.mem_cons_self previous List.mem_cons_self).le
  · -- in a window's year: an earlier window's, this window's or the previous one's
    rw [heq] at hyear ⊢
    rw [hplan] at hw
    rcases List.mem_append.mp hw with hw | hw
    · exact (hearlier w hw previous List.mem_cons_self).le
    · rcases List.mem_cons.mp hw with rfl | hw
      · exact le_rfl
      · rcases List.mem_cons.mp hw with rfl | hw
        · exact absurd hyear (lt_irrefl _)
        · exact absurd hyear (lt_asymm ((List.pairwise_cons.mp hlater).1 w hw))

end Plan

/-! ### Splicing the retained row in -/

theorem cons_take_drop {α : Type} {l : List α} {j : ℕ} {a : α} (h : l[j]? = some a) (m : ℕ) :
    a :: (l.drop (j + 1)).take m = (l.drop j).take (m + 1) := by
  obtain ⟨hlt, rfl⟩ := List.getElem?_eq_some_iff.mp h
  rw [List.drop_eq_getElem_cons hlt, List.take_succ_cons]

theorem drop_take_drop {α : Type} (l : List α) {j block : ℕ} (h : block ≤ j) (m : ℕ) :
    ((l.drop (j - block)).take (block + m)).drop block = (l.drop j).take m := by
  rw [List.drop_take, List.drop_drop]
  congr 1
  · omega
  · congr 1
    omega

variable [JsNumber F] {whole part : EvaluationFrame F}

omit [JsNumber F] in
/-- The rows of a window frame up to the retained row are exactly its leading block. -/
theorem firstAfter_windowFrame {j block m : ℕ} {date : LocalDate}
    (hblock : block ≤ j + 1) (hslice : IsSlice part whole (j + 1 - block) (block + m))
    (hdate : whole.dates[j]? = some date) : firstAfter date part.dates = block := by
  refine length_takeWhile_le (by rw [hslice.length_eq]; omega) fun i a hi => ?_
  have hlt : i < block + m := by
    rw [← hslice.length_eq]
    exact (List.getElem?_eq_some_iff.mp hi).1
  rw [hslice.getElem?_dates hlt] at hi
  rw [le_iff_index_le whole.ascending hi hdate]
  omega

variable {context : Option (EvaluationFrameContextRow F)}

/-- **The bound frame**: with the retained row spliced in, a window frame reaches exactly one row
further back than its window. -/
theorem isSlice_splicedFrame {j block m : ℕ} (hblock : block ≤ j + 1)
    (hslice : IsSlice part whole (j + 1 - block) (block + m))
    (hcontext : CarriesLast whole (j + 1) context) :
    IsSlice (splicedFrame part context) whole j (m + 1) := by
  obtain ⟨row, rfl, hdate, hclose, hvalues⟩ := hcontext
  have hfirst := firstAfter_windowFrame hblock hslice hdate
  refine ⟨?_, ?_, ?_, fun key => ?_⟩
  · have := hslice.le_length
    omega
  · change row.date :: part.dates.drop (firstAfter row.date part.dates) = _
    rw [hfirst, hslice.dates_eq, drop_take_drop _ hblock, cons_take_drop hdate]
  · change row.close :: part.closes.drop (firstAfter row.date part.dates) = _
    rw [hfirst, hslice.closes_eq, drop_take_drop _ hblock, cons_take_drop hclose]
  · change (splicedColumns part row).get? key = _
    rw [splicedColumns, OrderedMap.get?_mapWithKey, hslice.columns_eq key, hfirst, hvalues key]
    cases hcolumn : whole.columns.get? key with
    | none => rfl
    | some column =>
      have hlength := whole.columns_length column (OrderedMap.mem_values_iff.mpr ⟨key, hcolumn⟩)
      have hj : j < column.length := by
        rw [hlength]
        exact (List.getElem?_eq_some_iff.mp hdate).1
      simp only [Option.map_some, Option.bind_some, List.getElem?_eq_getElem hj, Option.getD_some,
        drop_take_drop _ hblock, cons_take_drop (List.getElem?_eq_getElem hj)]

/-- Later windows: the retained row is the last one before the window. -/
theorem coversWindow_splicedFrame {block : ℕ}
    (hrange : window.fromDate ≤ window.toDate) (hpart : IsWindowFrame whole part window block)
    (hcontext : CarriesLast whole (rowsBefore whole window.fromDate) context) :
    CoversWindow (splicedFrame part context) whole (rowsBefore whole window.fromDate)
      (rowsUpTo whole window.toDate) := by
  have hle := rowsBefore_le_rowsUpTo whole hrange
  have hblock := hpart.block_le
  have hslice := hpart.isSlice
  cases hbefore : rowsBefore whole window.fromDate with
  | zero =>
    rw [hbefore] at hcontext hblock hslice
    obtain rfl : context = none := hcontext
    obtain rfl : block = 0 := Nat.le_zero.mp hblock
    exact ⟨0, hslice, Nat.zero_le _, .inl rfl⟩
  | succ j =>
    rw [hbefore] at hcontext hblock hslice hle
    obtain ⟨m, hm⟩ := Nat.exists_eq_add_of_le hle
    have hcount : rowsUpTo whole window.toDate - (j + 1 - block) = block + m := by omega
    rw [hcount] at hslice
    have hbound := isSlice_splicedFrame hblock hslice hcontext
    refine ⟨j, ?_, by omega, .inr (Nat.lt_succ_self j)⟩
    rwa [show rowsUpTo whole window.toDate - j = m + 1 by omega]

omit [JsNumber F] in
/-- The first window: its own block reaches one row further back, when there is one. -/
theorem coversWindow_first {block : ℕ} (hrange : window.fromDate ≤ window.toDate)
    (hpart : IsWindowFrame whole part window block)
    (hfirst : 0 < rowsBefore whole window.fromDate → 0 < block) :
    CoversWindow part whole (rowsBefore whole window.fromDate)
      (rowsUpTo whole window.toDate) := by
  have hle := rowsBefore_le_rowsUpTo whole hrange
  refine ⟨rowsBefore whole window.fromDate - block, hpart.isSlice, by omega, ?_⟩
  rcases Nat.eq_zero_or_pos (rowsBefore whole window.fromDate) with hzero | hpos
  · exact .inl (by omega)
  · exact .inr (by have := hfirst hpos; omega)

/-! ### What a bound frame answers -/

/-- On every date of its window the bound frame has the whole frame's row. -/
theorem rowAt_of_coversWindow {bound whole : EvaluationFrame F} {before upTo : ℕ}
    (h : CoversWindow bound whole before upTo) (definition : StrategyDefinition F)
    (setup : BacktestSecuritySetup) {date : LocalDate}
    (hdate : ∀ j, whole.dates[j]? = some date → before ≤ j ∧ j < upTo) :
    (boundRuntime definition setup bound).rowAt date
      = (boundRuntime definition setup whole).rowAt date := by
  obtain ⟨offset, hslice, hoffset, hpast⟩ := h
  change (bound.dates.idxOf? date).map (runtimeRow bound (buildStrategyGates definition bound))
    = (whole.dates.idxOf? date).map (runtimeRow whole (buildStrategyGates definition whole))
  cases hwhole : whole.dates.idxOf? date with
  | none =>
    -- a row of the bound frame would be a row of the whole
    cases hbound : bound.dates.idxOf? date with
    | none => rw [Option.map_none, Option.map_none]
    | some i =>
      have hi := (idxOf?_eq_some_iff bound.ascending).mp hbound
      have hlt : i < upTo - offset := by
        rw [← hslice.length_eq]
        exact (List.getElem?_eq_some_iff.mp hi).1
      rw [hslice.getElem?_dates hlt] at hi
      rw [(idxOf?_eq_some_iff whole.ascending).mpr hi] at hwhole
      cases hwhole
  | some j =>
    have hj := (idxOf?_eq_some_iff whole.ascending).mp hwhole
    obtain ⟨hbefore, hupTo⟩ := hdate j hj
    obtain ⟨i, rfl⟩ : ∃ i, j = offset + i := ⟨j - offset, by omega⟩
    have hlt : i < upTo - offset := by omega
    have hi : bound.dates[i]? = some date := by rw [hslice.getElem?_dates hlt, hj]
    rw [(idxOf?_eq_some_iff bound.ascending).mpr hi, Option.map_some, Option.map_some]
    have hstart : 0 < i ∨ offset = 0 := by omega
    refine congrArg some (runtimeRow_congr definition (hslice.samePast hlt hstart)
      (List.getElem?_eq_some_iff.mp hi).1 (List.getElem?_eq_some_iff.mp hj).1
      (hslice.getElem?_closes hlt) ?_)
    rcases hstart with hpos | rfl
    · rw [if_pos hpos, if_pos (by omega), hslice.getElem?_dates (by omega)]
      congr 1
      omega
    · rw [Nat.zero_add]
      split
      · rw [hslice.getElem?_dates (by omega), Nat.zero_add]
      · rfl

/-- The row a bound frame leaves behind is the whole frame's last row of the window. -/
theorem carriesLast_of_coversWindow {bound whole : EvaluationFrame F} {before upTo : ℕ}
    (h : CoversWindow bound whole before upTo) (hle : before ≤ upTo)
    (hcontext : upTo = 0 → context = none) :
    CarriesLast whole upTo ((evaluationFrameContextRow bound).or context) := by
  obtain ⟨offset, hslice, hoffset, hpast⟩ := h
  cases upTo with
  | zero =>
    have hnil : bound.dates[bound.dates.length - 1]? = none := by
      rw [List.getElem?_eq_none]
      rw [hslice.length_eq]
      omega
    rw [hcontext rfl]
    simp [evaluationFrameContextRow, hnil, CarriesLast]
  | succ j =>
    have hlength := hslice.length_eq
    have hlast : bound.dates.length - 1 < j + 1 - offset := by omega
    have hindex : offset + (bound.dates.length - 1) = j := by omega
    have hj : j < whole.dates.length := by have := hslice.le_length; omega
    have hdate : bound.dates[bound.dates.length - 1]? = some whole.dates[j] := by
      rw [hslice.getElem?_dates hlast, hindex, List.getElem?_eq_getElem hj]
    have hclose : bound.closes[bound.dates.length - 1]? = whole.closes[j]? := by
      rw [hslice.getElem?_closes hlast, hindex]
    have hjclose : j < whole.closes.length := by rw [whole.closes_length]; exact hj
    refine ⟨{ date := whole.dates[j]
              close := bound.closes[bound.dates.length - 1]?.getD JsNumber.nan
              values := bound.columns.mapValues fun column =>
                column[bound.dates.length - 1]?.getD JsNumber.nan },
      by simp only [evaluationFrameContextRow, hdate, Option.map_some, Option.some_or],
      List.getElem?_eq_getElem hj, ?_, fun key => ?_⟩
    · simp only [hclose, List.getElem?_eq_getElem hjclose, Option.getD_some]
    · rw [OrderedMap.get?_mapValues, hslice.columns_eq key]
      cases hcolumn : whole.columns.get? key with
      | none => rfl
      | some column =>
        have hcolumnLength :=
          whole.columns_length column (OrderedMap.mem_values_iff.mpr ⟨key, hcolumn⟩)
        have hjcolumn : j < column.length := by rw [hcolumnLength]; exact hj
        simp only [Option.map_some, Option.bind_some, getElem?_drop_take _ hlast, hindex,
          List.getElem?_eq_getElem hjcolumn, Option.getD_some]

/-! ### Window by window -/

/-- Consumes every planned window in order. -/
def consumeWindows (simulation : BacktestSimulation F)
    (frames : BacktestExecutionWindow → List (EvaluationFrame F)) :
    Except String (BacktestSimulation F) :=
  simulation.windows.foldlM (fun simulation window =>
    consumeWindow simulation window (frames window)) simulation

theorem boundRuntimes_map (definition : StrategyDefinition F)
    (contextRows : OrderedMap String (EvaluationFrameContextRow F))
    (setups : List BacktestSecuritySetup) (frame : BacktestSecuritySetup → EvaluationFrame F) :
    boundRuntimes definition contextRows setups (setups.map frame)
      = setups.map fun setup => boundRuntime definition setup
          (splicedFrame (frame setup) (contextRows.get? setup.securityId)) := by
  induction setups with
  | nil => rfl
  | cons setup rest ih =>
    simp only [boundRuntimes, List.map_cons, List.zip_cons_cons] at ih ⊢
    rw [ih]

variable {input : BacktestSimulationInput F} {options : BacktestSimulationOptions}
  {whole : String → EvaluationFrame F} {part : BacktestExecutionWindow → String → EvaluationFrame F}
  {block : BacktestExecutionWindow → String → ℕ}

/-- What every security retains once the windows of `done` are consumed. -/
def Retained (input : BacktestSimulationInput F) (whole : String → EvaluationFrame F)
    (done : List BacktestExecutionWindow)
    (contextRows : OrderedMap String (EvaluationFrameContextRow F)) : Prop :=
  ∀ setup ∈ input.securities,
    match done.getLast? with
    | none => contextRows.get? setup.securityId = none
    | some window =>
      CarriesLast (whole setup.securityId) (rowsUpTo (whole setup.securityId) window.toDate)
        (contextRows.get? setup.securityId)

/-- The invariant over windows: what is left behind by `done` is what the whole period leaves behind
after their dates. -/
structure WindowsConsumed (input : BacktestSimulationInput F) (options : BacktestSimulationOptions)
    (whole : String → EvaluationFrame F) (done : List BacktestExecutionWindow)
    (simulation : BacktestSimulation F) : Prop where
  run_eq : simulation.run = backtestRun input options
  windows_eq : simulation.windows = plannedWindows input
  next_eq : simulation.nextWindowIndex = done.length
  state_eq : simulation.state = runDays (backtestRun input options)
    (wholeRows input (wholeFrames input whole)) (done.flatMap (·.dates)) (initialState input)
  checkpoints_eq : simulation.checkpoints = runCheckpoints (backtestRun input options)
    (wholeRows input (wholeFrames input whole)) (done.flatMap (·.dates)) (initialState input)
  retained : Retained input whole done simulation.contextRows

theorem windowsConsumed_nil (options : BacktestSimulationOptions)
    (whole : String → EvaluationFrame F) :
    WindowsConsumed input options whole [] (freshSimulation input options) where
  run_eq := rfl
  windows_eq := rfl
  next_eq := rfl
  state_eq := rfl
  checkpoints_eq := rfl
  retained _ _ := rfl

variable {contextRows : OrderedMap String (EvaluationFrameContextRow F)}

omit [JsNumber F] in
theorem retained_append_singleton {done : List BacktestExecutionWindow} :
    Retained input whole (done ++ [window]) contextRows ↔ ∀ setup ∈ input.securities,
      CarriesLast (whole setup.securityId) (rowsUpTo (whole setup.securityId) window.toDate)
        (contextRows.get? setup.securityId) := by
  simp only [Retained, List.getLast?_concat]

variable {done later : List BacktestExecutionWindow}

/-- What a window is bound with covers it, first or later. -/
theorem WindowedFrames.coversWindow (h : WindowedFrames input whole part block)
    (hplan : plannedWindows input = done ++ window :: later)
    (hretained : Retained input whole done contextRows) {setup : BacktestSecuritySetup}
    (hsetup : setup ∈ input.securities) :
    CoversWindow
        (splicedFrame (part window setup.securityId) (contextRows.get? setup.securityId))
        (whole setup.securityId) (rowsBefore (whole setup.securityId) window.fromDate)
        (rowsUpTo (whole setup.securityId) window.toDate)
      ∧ (rowsUpTo (whole setup.securityId) window.toDate = 0 →
          contextRows.get? setup.securityId = none) := by
  have hwindow : window ∈ plannedWindows input := by rw [hplan]; simp
  have hrange := window_range hwindow
  have hpart := h.isWindowFrame window hwindow setup hsetup
  rcases List.eq_nil_or_concat done with rfl | ⟨earlier, previous, rfl⟩
  · have hnone : contextRows.get? setup.securityId = none := hretained setup hsetup
    rw [hnone]
    refine ⟨coversWindow_first hrange hpart ?_, fun _ => rfl⟩
    exact h.first_block window (by rw [hplan]; rfl) setup hsetup
  · rw [List.concat_eq_append] at hretained hplan
    have hcarried := retained_append_singleton.mp hretained setup hsetup
    have hcut := rowsBefore_eq_rowsUpTo (by rw [hplan, List.append_assoc]; rfl)
      (h.covered setup hsetup)
    rw [← hcut] at hcarried
    refine ⟨coversWindow_splicedFrame hrange hpart hcarried, fun hzero => ?_⟩
    have hle := rowsBefore_le_rowsUpTo (whole setup.securityId) hrange
    rw [hzero, Nat.le_zero] at hle
    rw [hle] at hcarried
    exact hcarried

omit [JsNumber F] in
theorem framesMatch_map {setups : List BacktestSecuritySetup} {frame : String → EvaluationFrame F}
    (h : ∀ setup ∈ setups, (frame setup.securityId).securityId = setup.securityId) :
    FramesMatch setups (setups.map fun setup => frame setup.securityId) := by
  rw [FramesMatch, List.forall₂_map_right_iff, List.forall₂_same]
  exact h

/-- On the dates of a window, the frames bound for it are read as the whole frames are. -/
theorem WindowedFrames.rowsOn_eq (h : WindowedFrames input whole part block)
    (hplan : plannedWindows input = done ++ window :: later)
    (hretained : Retained input whole done contextRows) {date : LocalDate}
    (hdate : date ∈ window.dates) :
    rowsOn (boundRuntimes input.definition contextRows input.securities
        (windowFrames input part window)) date
      = wholeRows input (wholeFrames input whole) date := by
  have hwindow : window ∈ plannedWindows input := by rw [hplan]; simp
  obtain ⟨hfrom, hto⟩ :=
    (plansWindows_plannedWindows input).mem_range (fun _ => calendar_mem_period) hwindow hdate
  unfold wholeRows windowFrames wholeFrames
  rw [boundRuntimes_map, boundRuntimes_map, rowsOn, rowsOn, List.map_map, List.map_map]
  refine List.map_congr_left fun setup hsetup => ?_
  have hcovers := (h.coversWindow hplan hretained hsetup).1
  refine congrArg (Prod.mk setup) (rowAt_of_coversWindow hcovers input.definition setup ?_)
  intro j hj
  have hbefore : j < rowsBefore _ window.fromDate ↔ _ := lt_rowsBefore_iff hj
  have hupTo : j < rowsUpTo _ window.toDate ↔ _ := lt_rowsUpTo_iff hj
  exact ⟨not_lt.mp fun hlt => not_le.mpr (hbefore.mp hlt) hfrom, hupTo.mpr hto⟩

/-- What closing a window retains, security by security. -/
theorem get?_contextRows_closeWindow (simulation : BacktestSimulation F)
    {setups : List BacktestSecuritySetup} (bound : String → EvaluationFrame F)
    (h : simulation.runtimes.map (fun r => (r.setup, r.frame))
      = setups.map fun setup => (setup, bound setup.securityId))
    {setup : BacktestSecuritySetup} (hsetup : setup ∈ setups) :
    (closeWindow simulation).contextRows.get? setup.securityId
      = (evaluationFrameContextRow (bound setup.securityId)).or
          (simulation.contextRows.get? setup.securityId) := by
  change ((simulation.runtimes.map fun r => (r.setup, r.frame)).foldl retainRow
    simulation.contextRows).get? setup.securityId = _
  rw [h, List.foldl_map, OrderedMap.get?_foldl_write BacktestSecuritySetup.securityId
    (fun id => evaluationFrameContextRow (bound id)),
    if_pos (List.mem_map.mpr ⟨setup, hsetup, rfl⟩)]
  intro setup _ rows id
  unfold retainRow
  by_cases hid : id = setup.securityId
  · subst hid
    cases evaluationFrameContextRow (bound setup.securityId) <;> simp
  · cases evaluationFrameContextRow (bound setup.securityId) <;>
      simp [hid, OrderedMap.get?_set_of_ne]

/-- **One window**: consumed from its own frames, it leaves what the whole period leaves. -/
theorem WindowsConsumed.consume (h : WindowedFrames input whole part block)
    (hplan : plannedWindows input = done ++ window :: later) {simulation : BacktestSimulation F}
    (hdone : WindowsConsumed input options whole done simulation) :
    ∃ next, consumeWindow simulation window (windowFrames input part window) = .ok next
      ∧ WindowsConsumed input options whole (done ++ [window]) next := by
  obtain ⟨hrun, hwindows, hnext, hstate, hcheckpoints, hretained⟩ := hdone
  have hwindow : window ∈ plannedWindows input := by rw [hplan]; simp
  -- the calendar is the dates of the windows done, this one's and those of the rest
  have hdates := (plansWindows_plannedWindows input).dates_eq
  rw [hplan, List.flatMap_append, List.flatMap_cons] at hdates
  have hrows := fun d (hd : d ∈ window.dates) => h.rowsOn_eq hplan hretained hd
  have hindex : simulation.windows[simulation.nextWindowIndex]? = some window := by
    rw [hwindows, hnext, hplan, List.getElem?_append_right (Nat.le_refl _)]
    simp
  have hmatch : FramesMatch simulation.run.input.securities (windowFrames input part window) := by
    rw [hrun]
    exact framesMatch_map fun setup hsetup =>
      (h.isWindowFrame window hwindow setup hsetup).securityId_eq.trans
        (h.securityId_eq setup hsetup)
  have hcalendar : simulation.run.calendar.drop simulation.state.completedDays
      = window.dates ++ later.flatMap (·.dates) := by
    have hcompleted : simulation.state.completedDays = (done.flatMap (·.dates)).length := by
      rw [hstate, runDays_completedDays]
      exact Nat.zero_add _
    rw [hcompleted, hrun]
    change (buildExecutionCalendar input.startDate input.endDate input.executionCalendar).drop _ = _
    rw [← hdates, List.drop_left]
  have hascending : window.dates.Pairwise (· < ·) := by
    have hsub : window.dates.Sublist
        (buildExecutionCalendar input.startDate input.endDate input.executionCalendar) := by
      rw [← hdates]
      exact (List.sublist_append_left _ _).trans (List.sublist_append_right _ _)
    exact buildExecutionCalendar_ascending.sublist hsub
  refine ⟨_, consumeWindow_eq hindex hmatch hcalendar hascending, ?_⟩
  have hinput : simulation.run.input = input := by rw [hrun]; rfl
  constructor
  · exact hrun
  · exact hwindows
  · change simulation.nextWindowIndex + 1 = _
    rw [hnext, List.length_append]
    rfl
  · change runDays simulation.run (rowsOn (boundRuntimes simulation.run.input.definition _
      simulation.run.input.securities _)) window.dates simulation.state = _
    rw [hinput, hrun, hstate, runDays_congr hrows, ← runDays_append, List.flatMap_append]
    simp only [List.flatMap_cons, List.flatMap_nil, List.append_nil]
  · change simulation.checkpoints ++ runCheckpoints simulation.run
      (rowsOn (boundRuntimes simulation.run.input.definition _
        simulation.run.input.securities _)) window.dates simulation.state = _
    rw [hinput, hrun, hstate, hcheckpoints, runCheckpoints_congr hrows, ← runCheckpoints_append,
      List.flatMap_append]
    simp only [List.flatMap_cons, List.flatMap_nil, List.append_nil]
  · -- the row kept for the next window is the last of the spliced frame
    rw [retained_append_singleton]
    intro setup hsetup
    obtain ⟨hcovers, hempty⟩ := h.coversWindow hplan hretained hsetup
    have hbound : (advanceAll window.dates (boundRuntimes simulation.run.input.definition
        simulation.contextRows simulation.run.input.securities
        (windowFrames input part window))).map (fun r => (r.setup, r.frame))
        = input.securities.map fun setup => (setup, splicedFrame (part window setup.securityId)
            (simulation.contextRows.get? setup.securityId)) := by
      rw [map_setup_frame_advanceAll, hinput, windowFrames, boundRuntimes_map, List.map_map]
      rfl
    have hclosed := get?_contextRows_closeWindow
      (BacktestSimulation.afterDays
        { simulation.claimWindow with
          runtimes := boundRuntimes simulation.run.input.definition simulation.contextRows
            simulation.run.input.securities (windowFrames input part window) }
        window.dates)
      (fun id => splicedFrame (part window id) (simulation.contextRows.get? id))
      hbound hsetup
    change CarriesLast _ _ ((closeWindow _).contextRows.get? _)
    rw [hclosed]
    exact carriesLast_of_coversWindow hcovers
      (rowsBefore_le_rowsUpTo _ (window_range hwindow)) hempty

/-- **All windows**, by induction on those still to come. -/
theorem windowsConsumed_all (h : WindowedFrames input whole part block)
    (hplan : plannedWindows input = done ++ later) {simulation : BacktestSimulation F}
    (hdone : WindowsConsumed input options whole done simulation) :
    ∃ next, later.foldlM (fun simulation window =>
        consumeWindow simulation window (windowFrames input part window)) simulation = .ok next
      ∧ WindowsConsumed input options whole (plannedWindows input) next := by
  induction later generalizing done simulation with
  | nil =>
    rw [List.append_nil] at hplan
    exact ⟨simulation, rfl, by rw [hplan]; exact hdone⟩
  | cons window rest ih =>
    obtain ⟨next, hconsume, hnext⟩ := hdone.consume h hplan
    obtain ⟨last, hrest, hlast⟩ := ih (by rw [hplan, List.append_assoc]; rfl) hnext
    refine ⟨last, ?_, hlast⟩
    rw [List.foldlM_cons, hconsume]
    exact hrest

/-- **Year-window execution is invisible.** Whatever the whole-period frames hold and however far
back each window's frames start, consuming the windows in order and consuming the whole period
finish with the same trades, equity points, positions and summary. -/
theorem finish_consumeWindows_eq_finish_consumeWholePeriod
    {simulation : BacktestSimulation F}
    (hcreate : createBacktestSimulation input options = .ok simulation)
    (hframes : WindowedFrames input whole part block) :
    ∃ continuous windowed result,
      consumeWholePeriod simulation (wholeFrames input whole) = .ok continuous
        ∧ consumeWindows simulation (windowFrames input part) = .ok windowed
        ∧ finish continuous = .ok result ∧ finish windowed = .ok result := by
  obtain ⟨-, hcalendar, rfl⟩ := createBacktestSimulation_eq_ok_iff.mp hcreate
  have hmatch : FramesMatch input.securities (wholeFrames input whole) :=
    framesMatch_map hframes.securityId_eq
  obtain ⟨windowed, hwindowed, hconsumed⟩ :=
    windowsConsumed_all hframes (List.nil_append _).symm
      (windowsConsumed_nil options whole)
  obtain ⟨result, hresult⟩ :=
    exists_finish_wholePeriodSimulation (wholeFrames input whole) hcalendar
  refine ⟨_, windowed, result, consumeWholePeriod_eq_ok_iff.mpr ⟨hmatch, rfl⟩, hwindowed, hresult,
    ?_⟩
  rw [← hresult]
  refine finish_wholePeriodSimulation_congr hconsumed.run_eq ?_ ?_
  · rw [hconsumed.state_eq, (plansWindows_plannedWindows input).dates_eq]
    rfl
  · rw [hconsumed.next_eq, hconsumed.windows_eq]

/-- The sample run over its two year windows, each frame reaching back to the start of the whole. -/
theorem finish_consumeWindows_sample :
    ∃ continuous windowed result,
      consumeWholePeriod (freshSimulation sampleInput sampleOptions)
          (wholeFrames sampleInput sampleFrame) = .ok continuous
        ∧ consumeWindows (freshSimulation sampleInput sampleOptions)
          (windowFrames sampleInput fun window id => (sampleFrame id).slice 0
            (rowsUpTo (sampleFrame id) window.toDate)) = .ok windowed
        ∧ finish continuous = .ok result ∧ finish windowed = .ok result := by
  have hframes : WindowedFrames sampleInput sampleFrame
      (fun window id => (sampleFrame id).slice 0 (rowsUpTo (sampleFrame id) window.toDate))
      fun window id => rowsBefore (sampleFrame id) window.fromDate := by
    refine ⟨fun _ _ => rfl, fun window hwindow setup _ => ?_, fun _ _ _ _ hpos => hpos,
      fun setup _ date hdate => .inr ?_⟩
    · have hslice := isWindowFrame_slice (sampleFrame setup.securityId)
        (window_range hwindow) le_rfl
      simpa only [Nat.sub_self, Nat.sub_zero] using hslice
    · have hyears : ∀ date ∈ sampleDates, ∃ window ∈ plannedWindows sampleInput,
          date.year = window.year := by decide
      exact hyears date hdate
  exact finish_consumeWindows_eq_finish_consumeWholePeriod createBacktestSimulation_sampleInput
    hframes

end FactorSage
