import FactorSage.Backtest.Calendar
import FactorSage.Strategy.Frame

/-!
# Execution windows

The calendar-year slices a run is loaded in, and the one row per security that is carried from one
window's frame to the next.
-/

namespace FactorSage

/-- One calendar-year slice of a run's execution calendar. -/
structure BacktestExecutionWindow where
  year : ℕ
  /-- Position in the run's window sequence. -/
  index : ℕ
  /-- First requested date: the run's start date, or the first of January. -/
  fromDate : LocalDate
  /-- Last requested date: the last of December, or the run's end date. -/
  toDate : LocalDate
  /-- The dates simulated inside this window, ascending. -/
  dates : List LocalDate

/-- The window a date opens. -/
def openingWindow (startDate endDate : LocalDate) (index : ℕ) (date : LocalDate) :
    BacktestExecutionWindow where
  year := date.year
  index := index
  fromDate := maxDate startDate date.yearStart
  toDate := minDate endDate date.yearEnd
  dates := [date]

/-- The loop body of `planExecutionWindows`: a date joins the last window or opens the next. -/
def planStep (startDate endDate : LocalDate) (windows : List BacktestExecutionWindow)
    (date : LocalDate) : List BacktestExecutionWindow :=
  match windows.getLast? with
  | some current =>
    if current.year = date.year then
      windows.dropLast ++ [{ current with dates := current.dates ++ [date] }]
    else windows ++ [openingWindow startDate endDate windows.length date]
  | none => [openingWindow startDate endDate 0 date]

/-- Splits a run's execution calendar into consecutive calendar-year windows. -/
def planExecutionWindows (calendar : List LocalDate) (startDate endDate : LocalDate) :
    List BacktestExecutionWindow :=
  calendar.foldl (planStep startDate endDate) []

/-- One security's last projected row, kept between windows. -/
structure EvaluationFrameContextRow (F : Type) where
  date : LocalDate
  close : F
  values : OrderedMap OperandKey F

variable {F : Type} [JsNumber F]

/-- The last row of a frame, `none` when the frame is empty. -/
def evaluationFrameContextRow (frame : EvaluationFrame F) : Option (EvaluationFrameContextRow F) :=
  let index := frame.dates.length - 1
  frame.dates[index]?.map fun date =>
    { date
      close := frame.closes[index]?.getD JsNumber.nan
      values := frame.columns.mapValues fun column => column[index]?.getD JsNumber.nan }

/-- The first index whose date lies after `date`. -/
def firstAfter (date : LocalDate) (dates : List LocalDate) : ℕ :=
  (dates.takeWhile (· ≤ date)).length

/-- The index the boundary date keeps once rows moved: the first date at or after it. -/
def boundaryIndex (dates : List LocalDate) : Option LocalDate → ℕ
  | none => dates.length
  | some boundary => dates.findIdx (boundary ≤ ·)

/-- The previous window's last row, then this frame's rows after it. -/
def splicedDates (frame : EvaluationFrame F) (context : EvaluationFrameContextRow F) :
    List LocalDate :=
  context.date :: frame.dates.drop (firstAfter context.date frame.dates)

def splicedCloses (frame : EvaluationFrame F) (context : EvaluationFrameContextRow F) : List F :=
  context.close :: frame.closes.drop (firstAfter context.date frame.dates)

def splicedColumns (frame : EvaluationFrame F) (context : EvaluationFrameContextRow F) :
    OrderedMap OperandKey (List F) :=
  frame.columns.mapWithKey fun key column =>
    ((context.values.get? key).getD JsNumber.nan)
      :: column.drop (firstAfter context.date frame.dates)

/-- Prepends the previous window's last row; rows at or before it are dropped. -/
def withLeadingContextRow (frame : EvaluationFrame F)
    (context : Option (EvaluationFrameContextRow F)) : Except String (EvaluationFrame F) :=
  match context with
  | none => .ok frame
  | some context =>
    let dates := splicedDates frame context
    createEvaluationFrame frame.securityId frame.symbol frame.name dates
      (splicedCloses frame context) (splicedColumns frame context)
      (boundaryIndex dates frame.dates[frame.periodStartIndex]?)

/-! ### Splicing never fails -/

omit [JsNumber F] in
theorem splicedDates_ascending (frame : EvaluationFrame F)
    (context : EvaluationFrameContextRow F) : (splicedDates frame context).Pairwise (· < ·) := by
  have hsuffix : (frame.dates.drop (firstAfter context.date frame.dates)).Pairwise (· < ·) :=
    frame.ascending.sublist (List.drop_sublist _ _)
  refine List.pairwise_cons.mpr ⟨fun d hd => ?_, hsuffix⟩
  -- the first row kept lies after the context row, and the others after that one
  rw [firstAfter, AscendingList.drop_length_takeWhile] at hd hsuffix
  have hhead := List.head?_dropWhile_not (· ≤ context.date) frame.dates
  cases hrows : frame.dates.dropWhile (· ≤ context.date) with
  | nil =>
    rw [hrows] at hd
    exact absurd hd List.not_mem_nil
  | cons first rest =>
    rw [hrows] at hd hhead hsuffix
    have hfirst : context.date < first := by simpa using hhead
    rcases List.mem_cons.mp hd with rfl | hd
    · exact hfirst
    · exact hfirst.trans (List.rel_of_pairwise_cons hsuffix hd)

/-- The frame a window is bound with. -/
def splicedFrame (frame : EvaluationFrame F) :
    Option (EvaluationFrameContextRow F) → EvaluationFrame F
  | none => frame
  | some context =>
    { securityId := frame.securityId
      symbol := frame.symbol
      name := frame.name
      dates := splicedDates frame context
      closes := splicedCloses frame context
      columns := splicedColumns frame context
      periodStartIndex :=
        boundaryIndex (splicedDates frame context) frame.dates[frame.periodStartIndex]?
      closes_length := by simp [splicedCloses, splicedDates, frame.closes_length]
      ascending := splicedDates_ascending frame context
      columns_length := fun column hcolumn => by
        obtain ⟨key, hkey⟩ := OrderedMap.mem_values_iff.mp hcolumn
        rw [splicedColumns, OrderedMap.get?_mapWithKey, Option.map_eq_some_iff] at hkey
        obtain ⟨source, hsource, rfl⟩ := hkey
        have hlength := frame.columns_length source (OrderedMap.mem_values_iff.mpr ⟨key, hsource⟩)
        simp [splicedDates, hlength] }

omit [JsNumber F] in
theorem createEvaluationFrame_self (frame : EvaluationFrame F) :
    createEvaluationFrame frame.securityId frame.symbol frame.name frame.dates frame.closes
      frame.columns frame.periodStartIndex = .ok frame := by
  unfold createEvaluationFrame
  rw [dif_pos frame.closes_length, dif_pos frame.ascending, dif_pos frame.columns_length]

theorem withLeadingContextRow_eq (frame : EvaluationFrame F)
    (context : Option (EvaluationFrameContextRow F)) :
    withLeadingContextRow frame context = .ok (splicedFrame frame context) := by
  cases context with
  | none => rfl
  | some context => exact createEvaluationFrame_self (splicedFrame frame (some context))

end FactorSage
