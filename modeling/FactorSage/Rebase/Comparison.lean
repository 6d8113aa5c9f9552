import FactorSage.Domain.EodFinality
import FactorSage.Library.Band
import FactorSage.Library.BinaryRounding
import FactorSage.Library.ComparatorSort
import Mathlib.Algebra.Order.Round

/-!
# Measuring a re-base

Comparing a freshly read price history with the stored one: the common sessions, the runs of
constant `stored ÷ new` they group into, how short runs are resolved, and the events the steps
between runs are recorded as.

A date is its day number, an instant its milliseconds. A close or a ratio is the rational number a
double stands for, and every sum, difference, product and quotient is rounded to one (`toDouble`).
The upper end of the ratios a session admits is absent where its new close may be zero.
-/

namespace FactorSage.Rebase

open BinaryRounding ComparatorSort

/-- A close as the comparison reads it. -/
structure PriceComparisonRow where
  date : ℤ
  close : ℚ
  deriving DecidableEq

/-! ### Events -/

inductive PriceBasisEventKind
  | MEASURED
  | UNEXPLAINED
  deriving DecidableEq

/-- One run the comparison found. -/
structure EvidenceRun where
  fromDate : ℤ
  toDate : ℤ
  sessions : ℕ
  ratio : ℚ
  deriving DecidableEq

structure PriceBasisEventEvidence where
  runs : List EvidenceRun
  comparedSessions : ℕ
  changedSessions : ℕ
  unfittedSessions : ℕ
  deriving DecidableEq

/-- One measured re-base of one security's stored price history. -/
structure PriceBasisEvent where
  securityId : String
  generation : ℕ
  kind : PriceBasisEventKind
  effectiveDate : Option ℤ
  effectiveFrom : Option ℤ
  effectiveTo : Option ℤ
  priceRatio : Option ℚ
  detectedAt : ℤ
  evidence : PriceBasisEventEvidence
  deriving DecidableEq

def MINIMUM_STEP_SESSIONS : ℕ := 3

def UNEXPLAINED_SESSION_SHARE : ℚ := toDouble (1 / 100)

/-- More of some sessions than may fit no step, or be missing. -/
def exceedsShare (sessions of : ℕ) : Bool :=
  toDouble (of * UNEXPLAINED_SESSION_SHARE) < sessions

structure PriceRebaseComparison where
  comparedSessions : ℕ
  changed : Bool
  storedOnly : List ℤ
  events : List PriceBasisEvent
  deriving DecidableEq

/-- A stored history, and the one freshly read. -/
structure PriceHistories where
  stored : List PriceComparisonRow
  fresh : List PriceComparisonRow

structure ComparisonInput extends PriceHistories where
  securityId : String
  generation : ℕ
  detectedAt : ℤ

/-! ### Comparing closes -/

/-- A row's rounding allowance: half a cent at or above one dollar, half a hundredth below. -/
def priceRoundingAllowance (value : ℚ) : ℚ :=
  if 1 ≤ |value| then toDouble (5 / 1000) else toDouble (5 / 100000)

/-- Whether two closes for one session differ beyond rounding. -/
def closesDiffer (stored fresh : ℚ) : Bool :=
  toDouble (priceRoundingAllowance stored + priceRoundingAllowance fresh)
    < |toDouble (fresh - stored)|

theorem priceRoundingAllowance_pos (value : ℚ) : 0 < priceRoundingAllowance value := by
  unfold priceRoundingAllowance
  split <;> exact toDouble_pos (by norm_num)

theorem closesDiffer_self (value : ℚ) : closesDiffer value value = false := by
  unfold closesDiffer
  rw [sub_self, toDouble_zero, abs_zero, decide_eq_false_iff_not, not_lt]
  have hallowance := priceRoundingAllowance_pos value
  exact toDouble_nonneg (by linarith)

/-! ### Common sessions -/

def byDate (left right : PriceComparisonRow) : ℤ :=
  if left.date < right.date then -1 else if right.date < left.date then 1 else 0

/-- One session both histories hold. -/
structure CommonSession where
  date : ℤ
  stored : ℚ
  fresh : ℚ
  deriving DecidableEq

/-- The close a map by date holds: the last one of that date. -/
def freshClose (fresh : List PriceComparisonRow) (date : ℤ) : Option ℚ :=
  (fresh.reverse.find? fun row => row.date = date).map PriceComparisonRow.close

/-- The sessions both histories hold, ascending. -/
def commonSessions (stored fresh : List PriceComparisonRow) : List CommonSession :=
  (sortBy byDate stored).filterMap fun row =>
    (freshClose fresh row.date).map fun close => ⟨row.date, row.close, close⟩

/-- The stored sessions the fresh history no longer holds. -/
def storedOnlyDates (stored fresh : List PriceComparisonRow) : List ℤ :=
  ((sortBy byDate stored).filter fun row => freshClose fresh row.date = none).map
    PriceComparisonRow.date

namespace CommonSession

def storedRow (session : CommonSession) : PriceComparisonRow := ⟨session.date, session.stored⟩

def freshRow (session : CommonSession) : PriceComparisonRow := ⟨session.date, session.fresh⟩

def changed (session : CommonSession) : Bool := closesDiffer session.stored session.fresh

/-- A session with a ratio: both closes are positive. -/
def hasRatio (session : CommonSession) : Bool := 0 < session.stored ∧ 0 < session.fresh

def ratio (session : CommonSession) : ℚ := toDouble (session.stored / session.fresh)

/-- Every `stored ÷ new` of two closes within their rounding allowances of the rounded ones. -/
def admitted (session : CommonSession) : Band ℚ where
  low := toDouble (toDouble (session.stored - priceRoundingAllowance session.stored)
    / toDouble (session.fresh + priceRoundingAllowance session.fresh))
  high :=
    let freshLow := toDouble (session.fresh - priceRoundingAllowance session.fresh)
    if 0 < freshLow then
      toDouble (toDouble (session.stored + priceRoundingAllowance session.stored) / freshLow)
    else ⊤

end CommonSession

/-- One common session, with the ratios its two rounded closes admit. -/
structure ComparedRow extends Band ℚ where
  date : ℤ
  ratio : ℚ
  /-- The two closes agree within rounding. -/
  unchanged : Bool
  deriving DecidableEq

def comparedRow (session : CommonSession) : ComparedRow :=
  { session.admitted with
    date := session.date
    ratio := session.ratio
    unchanged := !session.changed }

/-- The compared rows of some sessions. -/
def validRows (sessions : List CommonSession) : List ComparedRow :=
  (sessions.filter CommonSession.hasRatio).map comparedRow

/-! ### Runs -/

/-- Consecutive sessions explained by one ratio. -/
structure Run extends Band ℚ where
  /-- Indexes into the ascending compared rows. -/
  newest : ℕ
  oldest : ℕ
  unchanged : Bool
  /-- The ratios of the sessions that define the run; absorbed corrections add none. -/
  ratios : List ℚ
  deriving DecidableEq

namespace Run

def short (run : Run) : Bool := run.ratios.length < MINIMUM_STEP_SESSIONS

def length (run : Run) : ℕ := run.newest - run.oldest + 1

end Run

/-- Two runs are explained by one ratio. -/
def shareRatio (left right : Run) : Bool :=
  left.unchanged = right.unchanged ∧ left.toBand.Meets right.toBand

/-- A re-base of at least three sessions that shares an admitted ratio with an unchanged run. -/
def establishedChange (change unchanged : Run) : Bool :=
  change.unchanged = false ∧ change.short = false ∧ change.toBand.Meets unchanged.toBand

/-- The run at an index holds the sessions after the latest event. -/
def afterLatestEvent (runs : List Run) (index : ℕ) : Bool :=
  (runs.take index).all fun newer => newer.unchanged = false ∧ newer.short

/-- The first session of a run whose closes cannot be on a ratio. -/
def firstExcluding (rows : List ComparedRow) (run : Run) (ratio : ℚ) : Option ℕ :=
  (List.range' run.oldest (run.newest + 1 - run.oldest)).find? fun index =>
    (rows[index]?).any fun row => ratio ∉ row.toBand

/-- Two runs as one, spanning everything between them. -/
def joined (newer older : Run) : Run where
  toBand := newer.toBand.inter older.toBand
  newest := newer.newest
  oldest := older.oldest
  unchanged := newer.unchanged
  ratios := newer.ratios ++ older.ratios

/-- The run a session starts. -/
def runOf (session : ℕ × ComparedRow) : Run where
  toBand := session.2.toBand
  newest := session.1
  oldest := session.1
  unchanged := session.2.unchanged
  ratios := [session.2.ratio]

/-- The next session going back joins the current run, the first here, or starts one. -/
def addSession (session : ℕ × ComparedRow) : List Run → List Run
  | [] => [runOf session]
  | current :: newer =>
    if current.unchanged = session.2.unchanged ∧ current.toBand.Meets session.2.toBand then
      { toBand := current.toBand.inter session.2.toBand
        newest := current.newest
        oldest := session.1
        unchanged := current.unchanged
        ratios := current.ratios ++ [session.2.ratio] } :: newer
    else runOf session :: current :: newer

/-- The runs from the newest session back, newest first. -/
def growRuns (rows : List ComparedRow) : List Run :=
  (rows.zipIdx.foldr (fun session => addSession (session.2, session.1)) []).reverse

/-! ### Resolving corrections -/

section Resolving

variable (runs : List Run)

/-- The first index of a run that satisfies a condition. -/
def findIndex (condition : Run → ℕ → Bool) : Option ℕ :=
  (List.range runs.length).find? fun index => (runs[index]?).any fun run => condition run index

/-- The runs before and after an index share a ratio, or the run there and the one before do. -/
def sharesAt (left right : ℕ) : Bool :=
  (runs[left]?).any fun newer => (runs[right]?).any fun older => shareRatio newer older

def mergeIndex : Option ℕ :=
  findIndex runs fun _ index => 0 < index && sharesAt runs (index - 1) index

/-- A run of fewer than three sessions between two that share a ratio. -/
def correctionIndex : Option ℕ :=
  findIndex runs fun run index => 0 < index && index + 1 < runs.length && run.short
    && sharesAt runs (index - 1) (index + 1)

/-- Whether the run at an index is an established change near an unchanged run. -/
def establishedAt (index : ℕ) (run : Run) : Bool :=
  (runs[index]?).any fun neighbour => establishedChange neighbour run

/-- An unchanged run that also admits an adjacent re-base's ratio. -/
def ambiguousIndex : Option ℕ :=
  findIndex runs fun run index => run.unchanged && !afterLatestEvent runs index
    && ((0 < index && establishedAt runs (index - 1) run) || establishedAt runs (index + 1) run)

/-- A short run between two others, but not the sessions after the latest event. -/
def strayIndex : Option ℕ :=
  findIndex runs fun run index => 0 < index && index + 1 < runs.length && run.short
    && !(run.unchanged && afterLatestEvent runs index)

/-- An unchanged run as part of the re-base beside it. -/
def absorbed (change run : Run) : Run where
  toBand := change.toBand.inter run.toBand
  newest := max change.newest run.newest
  oldest := min change.oldest run.oldest
  unchanged := false
  ratios := change.ratios

/-- Two runs replaced by one. -/
def joinAt (left right : ℕ) : List Run :=
  match runs[left]?, runs[right]? with
  | some newer, some older => runs.take left ++ joined newer older :: runs.drop (right + 1)
  | _, _ => runs

/-- The ambiguous run at an index goes into the change before it, or else the one after. -/
def absorbAt (index : ℕ) : List Run :=
  match runs[index]? with
  | none => runs
  | some run =>
    let before := (runs[index - 1]?).filter fun change => establishedChange change run
    match before, runs[index + 1]? with
    | some change, _ => runs.take (index - 1) ++ absorbed change run :: runs.drop (index + 1)
    | none, some change => runs.take index ++ absorbed change run :: runs.drop (index + 2)
    | none, none => runs

/-- A corrected newest session belongs to the run beside it. -/
def absorbNewest : Option (List Run) :=
  match runs with
  | newest :: next :: older =>
    if newest.short && !newest.unchanged && (next.unchanged || !next.short) then
      some ({ next with newest := newest.newest } :: older)
    else none
  | _ => none

/-- A corrected oldest session belongs to the run beside it. -/
def absorbOldest : Option (List Run) :=
  match runs.reverse with
  | oldest :: next :: newer =>
    if oldest.short && !oldest.unchanged && !next.short then
      some ({ next with oldest := oldest.oldest } :: newer).reverse
    else none
  | _ => none

end Resolving

/-- One pass of the loop: the runs and the dropped sessions after it, or none when all is
resolved. -/
def resolveStep (runs : List Run) (droppedSessions : ℕ) : Option (List Run × ℕ) :=
  match mergeIndex runs with
  | some merge => some (joinAt runs (merge - 1) merge, droppedSessions)
  | none =>
    match correctionIndex runs with
    | some correction => some (joinAt runs (correction - 1) (correction + 1), droppedSessions)
    | none =>
      match ambiguousIndex runs with
      | some ambiguous => some (absorbAt runs ambiguous, droppedSessions)
      | none =>
        match absorbNewest runs with
        | some resolved => some (resolved, droppedSessions)
        | none =>
          match absorbOldest runs with
          | some resolved => some (resolved, droppedSessions)
          | none =>
            (strayIndex runs).map fun stray =>
              (runs.eraseIdx stray, droppedSessions + ((runs[stray]?).elim 0 Run.length))

/-- The loop, at most so many passes. -/
def resolve : ℕ → List Run → ℕ → List Run × ℕ
  | 0, runs, droppedSessions => (runs, droppedSessions)
  | passes + 1, runs, droppedSessions =>
    match resolveStep runs droppedSessions with
    | none => (runs, droppedSessions)
    | some (resolved, dropped) => resolve passes resolved dropped

/-- The runs of the ascending compared sessions, newest first, and the dropped sessions: a pass
leaves one run fewer at least, so there are no more passes than runs. -/
def segmentRuns (rows : List ComparedRow) : List Run × ℕ :=
  resolve (growRuns rows).length (growRuns rows) 0

def median (sorted : List ℚ) : ℚ :=
  let middle := sorted.length / 2
  if sorted.length % 2 = 1 then sorted.getD middle 0
  else toDouble (toDouble (sorted.getD (middle - 1) 0 + sorted.getD middle 0) / 2)

/-- A run's ratio: 1 for an unchanged run, otherwise the median of its sessions' ratios, held inside
the ratios every one of them admits. -/
def runRatio (run : Run) : ℚ :=
  if run.unchanged then 1 else run.toBand.clamp (median (run.ratios.insertionSort (· ≤ ·)))

/-! ### The comparison -/

def dateAt (rows : List ComparedRow) (index : ℕ) : ℤ := (rows[index]?).elim 0 ComparedRow.date

/-- The calendar date of an instant. -/
def instantDate (instant : ℤ) : ℤ := instant / EodFinality.dayMs

/-- The end of an interval no session after the newest stored one closes. -/
def openIntervalEnd (detectedAt newestStored : ℤ) : ℤ :=
  max (instantDate detectedAt) (newestStored + 1)

/-- What the events of one comparison share. -/
structure EventContext where
  input : ComparisonInput
  valid : List ComparedRow
  evidence : PriceBasisEventEvidence
  /-- The date of the newest compared session. -/
  newestCommon : ℤ
  /-- The sessions the provider published after the newest stored one. -/
  later : List ℤ

namespace EventContext

variable (context : EventContext)

def event (kind : PriceBasisEventKind) (effectiveDate effectiveFrom effectiveTo : Option ℤ)
    (priceRatio : Option ℚ) : PriceBasisEvent where
  securityId := context.input.securityId
  generation := context.input.generation
  kind
  effectiveDate
  effectiveFrom
  effectiveTo
  priceRatio
  detectedAt := context.input.detectedAt
  evidence := context.evidence

/-- The end of an interval that nothing compared closes. -/
def laterEnd : ℤ :=
  context.later.getLast?.getD (openIntervalEnd context.input.detectedAt context.newestCommon)

/-- Every compared row changed: the event fell after the newest stored session. -/
def newestEvent (newest : Run) : PriceBasisEvent :=
  match context.later with
  | [session] => context.event .MEASURED (some session) none none (some (runRatio newest))
  | _ => context.event .MEASURED none (some context.newestCommon) (some context.laterEnd)
      (some (runRatio newest))

/-- The step between two runs. -/
def step (newer older : Run) : PriceBasisEvent :=
  let ratio := toDouble (runRatio older / runRatio newer)
  if older.newest + 1 = newer.oldest then
    context.event .MEASURED (some (dateAt context.valid newer.oldest)) none none (some ratio)
  else
    context.event .MEASURED none (some (dateAt context.valid older.newest))
      (some (dateAt context.valid newer.oldest)) (some ratio)

/-- The step behind the sessions after the latest event: they may admit its ratio too, and then it
lies anywhere up to the first of them that cannot be on it. -/
def latestStep (newer older : Run) : PriceBasisEvent :=
  let first := firstExcluding context.valid newer (runRatio older)
  if first ≠ some newer.oldest ∨ older.newest + 1 ≠ newer.oldest then
    context.event .MEASURED none (some (dateAt context.valid older.newest))
      (some (first.elim context.laterEnd (dateAt context.valid)))
      (some (toDouble (runRatio older / runRatio newer)))
  else context.step newer older

/-- The steps behind a run, newest first, until the history returns to "unchanged". -/
def stepsBehind (isNewest changedSeen : Bool) (newer : Run) : List Run → List PriceBasisEvent
  | [] => []
  | older :: rest =>
    if changedSeen && older.unchanged then
      [context.event .UNEXPLAINED none none (some (dateAt context.valid older.newest)) none]
    else
      (if isNewest && newer.unchanged then context.latestStep newer older
        else context.step newer older) :: stepsBehind false true older rest

end EventContext

def evidenceRun (valid : List ComparedRow) (run : Run) : EvidenceRun where
  fromDate := dateAt valid run.oldest
  toDate := dateAt valid run.newest
  sessions := run.length
  ratio := runRatio run

/-- The events of the runs a change was grouped into. -/
def eventsOf (context : EventContext) (runs : List Run) : List PriceBasisEvent :=
  match runs with
  | [] => []
  | newest :: older =>
    (if newest.unchanged then [] else [context.newestEvent newest])
      ++ context.stepsBehind true (!newest.unchanged) newest older

/-- A change too many sessions of which fit no run. -/
def unexplainedEvent (context : EventContext) (common changed : List CommonSession) :
    PriceBasisEvent :=
  let firstChanged := changed.head?.map CommonSession.date
  let bounded := ∃ first ∈ firstChanged, ∃ earliest ∈ common.head?, earliest.date < first
  context.event .UNEXPLAINED none (if bounded then firstChanged else none)
    (changed.getLast?.map CommonSession.date) none

/-! The steps of the comparison, in the order it takes them. -/

namespace PriceHistories

variable (histories : PriceHistories)

def common : List CommonSession := commonSessions histories.stored histories.fresh

def changed : List CommonSession := histories.common.filter CommonSession.changed

def storedOnly : List ℤ := storedOnlyDates histories.stored histories.fresh

end PriceHistories

namespace ComparisonInput

variable (input : ComparisonInput)

/-- A non-positive close has no ratio; such a session fits no run. -/
def valid : List ComparedRow := validRows input.common

def segmented : List Run × ℕ := segmentRuns input.valid

def unfitted : ℕ := input.common.length - input.valid.length + input.segmented.2

/-- The date of the newest session a run holds. -/
def newestCommon : ℤ := (input.segmented.1.head?).elim 0 fun run => dateAt input.valid run.newest

def later : List ℤ :=
  ((input.fresh.filter fun row => input.newestCommon < row.date
    ∧ row.date ∉ input.stored.map PriceComparisonRow.date).map
      PriceComparisonRow.date).insertionSort (· ≤ ·)

def context : EventContext where
  input
  valid := input.valid
  evidence :=
    { runs := input.segmented.1.map (evidenceRun input.valid)
      comparedSessions := input.common.length
      changedSessions := input.changed.length
      unfittedSessions := input.unfitted }
  newestCommon := input.newestCommon
  later := input.later

def events : List PriceBasisEvent :=
  if input.changed = [] then []
  else if input.segmented.1 = [] ∨ exceedsShare input.unfitted input.common.length then
    [unexplainedEvent input.context input.common input.changed]
  else eventsOf input.context input.segmented.1

end ComparisonInput

/-- **The comparison of a fresh history with the stored one.** -/
def comparePriceHistories (input : ComparisonInput) : PriceRebaseComparison where
  comparedSessions := input.common.length
  changed := input.changed ≠ []
  storedOnly := input.storedOnly
  events := input.events

end FactorSage.Rebase
