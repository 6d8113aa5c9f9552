import FactorSage.Library.BinarySearch
import FactorSage.Library.OrderedMap
import FactorSage.Technicals.Indicators

/-!
# Weekly bars

The trading weeks of a list of daily bars, the session each one ends with, and which completed week a
date sees. A date is its day number since 1970-01-01, a Thursday. The venue schedule answers for a
date that it is a session, that it is none, or not at all (`none`); the year a date lies in is a
parameter, as nothing reads more of a year than whether two dates share one.
-/

namespace FactorSage.Technicals

open ComparatorSort BinarySearch

structure WeeklyPrice where
  securityId : String
  weekStartDate : ℤ
  weekEndDate : ℤ
  eligibleDate : ℤ
  open_ : ℚ
  high : ℚ
  low : ℚ
  close : ℚ
  volume : Option ℚ
  deriving DecidableEq

inductive HistoryStartOrigin
  | HORIZON
  | LISTING
  deriving DecidableEq

structure WeeklyHistoryContext where
  historyStart : ℤ
  historyStartOrigin : HistoryStartOrigin

/-- Sunday is `0`. -/
def getUTCDay (date : ℤ) : ℤ := (date + 4) % 7

def startOfIsoWeek (value : ℤ) : ℤ :=
  value - (if getUTCDay value = 0 then 6 else getUTCDay value - 1)

/-- The Friday of the week, the latest weekday a venue can schedule. -/
def fridayOfIsoWeek (weekStart : ℤ) : ℤ := weekStart + 4

/-! ### The session a week ends with -/

section Sessions

variable (yearOf : ℤ → ℤ) (isScheduledSession : ℤ → Option Bool)

/-- The last bar of each week. -/
def lastBarByWeek (dates : List ℤ) : OrderedMap ℤ ℤ :=
  dates.foldl (fun lastBars date =>
    match lastBars.get? (startOfIsoWeek date) with
    | some last => if last < date then lastBars.set (startOfIsoWeek date) date else lastBars
    | none => lastBars.set (startOfIsoWeek date) date) .empty

/-- The days after a week's last bar, checked from the Friday back: the session the week ends with,
if the schedule can tell, and the years it could not answer for. -/
def weekSessionEnd (unanswerableYears : List ℤ) (lastBar : ℤ) : ℕ → Option ℤ × List ℤ
  | 0 => (some lastBar, unanswerableYears)
  | days + 1 =>
    let day := lastBar + (days + 1)
    if yearOf day ∈ unanswerableYears then (none, unanswerableYears)
    else
      match isScheduledSession day with
      | none => (none, yearOf day :: unanswerableYears)
      | some true => (some day, unanswerableYears)
      | some false => weekSessionEnd unanswerableYears lastBar days

structure SessionEnds where
  ends : OrderedMap ℤ ℤ
  unanswerableYears : List ℤ

/-- One week with its last bar. -/
def resolveWeek (fromWeek : Option ℤ) (state : SessionEnds) (week : ℤ × ℤ) : SessionEnds :=
  if fromWeek.any (week.1 < ·) then state
  else if fridayOfIsoWeek week.1 ≤ week.2 then state
  else
    let resolved := weekSessionEnd yearOf isScheduledSession state.unanswerableYears week.2
      (fridayOfIsoWeek week.1 - week.2).toNat
    { ends := resolved.1.elim state.ends (state.ends.set week.1)
      unanswerableYears := resolved.2 }

def resolveWeekSessionEnds (dates : List ℤ) (fromWeek : Option ℤ) : OrderedMap ℤ ℤ :=
  ((lastBarByWeek dates).entries.foldl (resolveWeek yearOf isScheduledSession fromWeek)
    ⟨.empty, []⟩).ends

end Sessions

/-! ### The completed weeks -/

/-- A first week the history enters in its middle. -/
def artificialFirstWeek (history : Option WeeklyHistoryContext) : Option ℤ :=
  history.bind fun context =>
    if context.historyStartOrigin = .HORIZON
        ∧ startOfIsoWeek context.historyStart ≠ context.historyStart then
      some (startOfIsoWeek context.historyStart)
    else none

def groupByWeek (skipped : Option ℤ) (bars : List DailyPrice) : OrderedMap ℤ (List DailyPrice) :=
  bars.foldl (fun groups price =>
    if some (startOfIsoWeek price.date) = skipped then groups
    else
      groups.set (startOfIsoWeek price.date)
        ((groups.get? (startOfIsoWeek price.date)).getD [] ++ [price])) .empty

/-- The session that ends a week: a bar on its Friday, else what the schedule said, else its
Friday. -/
def sessionEnd (sessionEnds : OrderedMap ℤ ℤ) (weekStartDate lastDate : ℤ) : ℤ :=
  if fridayOfIsoWeek weekStartDate ≤ lastDate then lastDate
  else (sessionEnds.get? weekStartDate).getD (fridayOfIsoWeek weekStartDate)

/-- A group's bar, once its last session is final. The source throws on an empty group: no group is
empty. -/
def completeWeek (asOf : ℤ) (sessionEnds : OrderedMap ℤ ℤ) (week : ℤ × List DailyPrice) :
    Option WeeklyPrice :=
  match week.2.head?, week.2.getLast? with
  | some first, some last =>
    if asOf < sessionEnd sessionEnds week.1 last.date then none
    else some {
      securityId := first.securityId
      weekStartDate := week.1
      weekEndDate := last.date
      eligibleDate := sessionEnd sessionEnds week.1 last.date
      open_ := first.open_
      high := (week.2.map (·.high)).foldl max first.high
      low := (week.2.map (·.low)).foldl min first.low
      close := last.close
      volume := week.2.foldl (fun sum row => sum.bind fun total => row.volume.map (total + ·))
        (some 0) }
  | _, _ => none

def aggregateCompletedWeeks (prices : List DailyPrice) (asOf : ℤ)
    (history : Option WeeklyHistoryContext) (sessionEnds : OrderedMap ℤ ℤ) : List WeeklyPrice :=
  (groupByWeek (artificialFirstWeek history) (ascending prices)).entries.filterMap
    (completeWeek asOf sessionEnds)

/-! ### The week a date sees -/

def latestCompletedWeeklyBar (bars : List WeeklyPrice) (asOf : ℤ) : Option WeeklyPrice :=
  (sortBy (fun left right => compareDates right.eligibleDate left.eligibleDate)
    (bars.filter fun bar => compareDates bar.eligibleDate asOf ≤ 0)).head?

def byEligibleDate (bars : List WeeklyPrice) : List WeeklyPrice :=
  sortBy (fun left right => compareDates left.eligibleDate right.eligibleDate) bars

/-- Walks back to the first of the bars that share an eligible date. -/
def firstOfTie (ordered : List WeeklyPrice) : ℕ → ℕ
  | 0 => 0
  | index + 1 =>
    if (ordered[index]?).map (·.eligibleDate) = (ordered[index + 1]?).map (·.eligibleDate) then
      firstOfTie ordered index
    else index + 1

def completedWeeklyBarLookup (bars : List WeeklyPrice) (asOf : ℤ) : Option WeeklyPrice :=
  let ordered := byEligibleDate bars
  match search (fun middle => ordered[middle]?.any fun bar => compareDates bar.eligibleDate asOf ≤ 0)
      ordered.length 0 ordered.length with
  | 0 => none
  | index + 1 => ordered[firstOfTie ordered index]?

/-! ### Weekly indicators -/

/-- What the loops leave under a week: of each registered average, the value its last bar of that
week was given. -/
def calculateWeeklyTechnicalValues (bars : List WeeklyPrice) (weekStartDate : ℤ) :
    Option (List (WeeklyMovingAverageField × ℚ)) :=
  let ordered := sortBy (fun left right => compareDates left.weekStartDate right.weekStartDate) bars
  if weekStartDate ∈ ordered.map (·.weekStartDate) then
    some (WEEKLY_MOVING_AVERAGES.filterMap fun average =>
      let values := movingAverage (ordered.map (·.close)) average.type average.period
      (((ordered.zip values).filterMap fun entry =>
        if entry.1.weekStartDate = weekStartDate then entry.2 else none).getLast?).map
        (average.field, ·))
  else none

end FactorSage.Technicals
