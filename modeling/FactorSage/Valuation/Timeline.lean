import FactorSage.Contracts.Strategies
import FactorSage.Library.AscendingList
import FactorSage.Library.BinarySearch
import FactorSage.Library.NumericLiteral
import FactorSage.Statements.LineItems
import FactorSage.Statements.Selection

/-!
# The valuation timeline

The valuation ratios of a security. The statement-level rules are applied once for each date on which
a statement becomes available, into a state in force from that date on: the inputs (1), the share
level (2), a restatement (3), the provider's history entries (4), a count observed near an event (5).
The session-level rules are applied when a column is read: the basis factor (6), a possible
distribution (7), a listed event not yet measured (8).

A ratio is correct or unavailable, and an unavailable one is `NaN` in its column.
-/

namespace FactorSage.Valuation

open BinarySearch JsonText NumericLiteral Rebase Statements

variable {F H : Type}

/-- Rule 2: within this fraction of the last accepted count, a count holds the level. -/
def SHARE_LEVEL_TOLERANCE : ℚ := 25 / 100

/-- Rule 2: consecutive agreeing quarters that make a new level. -/
def SHARE_LEVEL_CONFIRMATIONS : ℕ := 3

/-- Rules 4 and 8: days within which a measured re-base is the provider entry's event. -/
def ENTRY_MATCH_DAYS : ℤ := 7

/-- Everything stored that the ratios of a security read besides its closes. -/
structure ValuationInputs (F H : Type) where
  securityId : String
  /-- Every statement a ratio reads must report it. -/
  currency : String
  statements : List (Revision F H)
  /-- When the stored price history was first verified. -/
  verifiedAt : Option Instant
  events : List PriceBasisEvent
  splits : List StockSplit

/-- What one ratio reads from the statements of a state, when they support it. -/
structure RatioInputs (F : Type) where
  /-- Always positive. -/
  denominator : F
  /-- Net debt for EV/EBITDA, `0` for the others. -/
  addend : F
  /-- The earliest of the latest period ends of the families the ratio reads. -/
  coveredThrough : CalendarDay

/-- What the statements visible on a date support. -/
structure StatementReading (F : Type) where
  shares : Option F
  /-- When the count was observed, for the basis factor. -/
  observedAt : Option Instant
  /-- Rule 5: no session before this date reads the count. -/
  withheldBefore : Option CalendarDay
  ratios : ValuationRatioId → Option (RatioInputs F)

/-- No count to read. -/
def StatementReading.nothing : StatementReading F := ⟨none, none, none, fun _ => none⟩

/-- The statements in force from a date on. -/
structure ValuationState (F : Type) extends StatementReading F where
  start : CalendarDay

/-- One security's valuation inputs, precomputed. -/
structure ValuationTimeline (F : Type) where
  securityId : String
  verified : Bool
  states : List (ValuationState F)
  events : List PriceBasisEvent
  /-- Rule 7: the measured re-bases that may have been distributions, ascending. -/
  distributionDates : List CalendarDay
  /-- Rule 8: the sessions after an upcoming event that is not re-based yet. -/
  forwardWindows : List Days

/-- The statement families each ratio reads. -/
def RATIO_FAMILIES : ValuationRatioId → List FinancialStatementType
  | .priceToEarningsTtm => [.income]
  | .priceToSalesTtm => [.income]
  | .priceToBook => [.income, .balanceSheet]
  | .priceToFcfTtm => [.income, .cashFlow]
  | .evToEbitdaTtm => [.income, .balanceSheet]

/-- What the statement-level rules read. -/
structure StateRules (F H : Type) where
  currency : String
  statements : List (Revision F H)
  measured : List PriceBasisEvent
  history : List StockSplit
  historyCoverage : Option CalendarDay
  settling : List Days
  shareChanges : List ShareChange

variable [JsNumber F]

def isPositive (value : F) : Bool := JsNumber.lt (JsNumber.ofInt 0) value

/-- The reported diluted count, as the decimal its thresholds are judged on. -/
def weightedAverageShsOutDil (values : StatementValues F) : Option ℚ :=
  ((values.get? .weightedAverageShsOutDil).filter JsNumber.isFinite).map JsNumber.toDecimal

/-! ### Rule 2 -/

/-- Within the tolerance of a level, on the reported counts. -/
def within (count level : F) : Bool :=
  exactlyWithinFraction (JsNumber.toDecimal count) [JsNumber.toDecimal level] SHARE_LEVEL_TOLERANCE

/-- The walk over the quarters: the level accepted last, the counts agreeing on another, the quarter
before, and whether the latest one was accepted. -/
structure LevelWalk (F : Type) where
  level : Option F
  candidate : List F
  previousRank : Option ℤ
  latestAccepted : Bool

/-- Whether a positive count is accepted after some agreeing counts, and the agreeing counts then. -/
def confirm (level : Option F) (candidate : List F) (count : F) : Bool × List F :=
  if level.any fun level => within count level then (true, [])
  else
    let agreeing :=
      match candidate with
      | first :: _ => if within count first then candidate ++ [count] else [count]
      | [] => [count]
    if SHARE_LEVEL_CONFIRMATIONS ≤ agreeing.length then (true, []) else (false, agreeing)

/-- One quarter of the walk. The source compares the quarter's statement with `latest` by reference;
each statement of an index is at its own rank. -/
def levelStep (latestRank : ℤ) (walk : LevelWalk F) (quarter : ℤ × Revision F H) : LevelWalk F :=
  let candidate :=
    if walk.previousRank.any fun previous => quarter.1 ≠ previous + 1 then [] else walk.candidate
  let judged : Bool × List F × Option F :=
    match (finiteValue quarter.2 .weightedAverageShsOutDil).filter isPositive with
    | none => (false, [], walk.level)
    | some count =>
      match confirm walk.level candidate count with
      | (true, agreeing) => (true, agreeing, some count)
      | (false, agreeing) => (false, agreeing, walk.level)
  { level := judged.2.2
    candidate := judged.2.1
    previousRank := some quarter.1
    latestAccepted := if quarter.1 = latestRank then judged.1 else walk.latestAccepted }

/-- Rule 2: whether the latest count holds the level of the counts before it. -/
def holdsShareLevel (income : FiscalQuarterIndex (StatementValues F) H) (latest : Revision F H) :
    Bool :=
  let ranks := income.keys.insertionSort (· ≤ ·)
  let quarters := ranks.filterMap fun rank => (income.get? rank).map fun row => (rank, row)
  (quarters.foldl (levelStep (fiscalQuarterRank latest.fiscalYear latest.period))
    ⟨none, [], none, false⟩).latestAccepted

/-! ### The state of a date -/

/-- The latest count, when the rules let it be read, and when it was first observed. -/
def usableShares [LinearOrder H] (rules : StateRules F H)
    (income : FiscalQuarterIndex (StatementValues F) H) (latest : Revision F H)
    (date : CalendarDay) : Option (F × Instant) := do
  let shares ← finiteValue latest .weightedAverageShsOutDil
  if !isPositive shares then none
  else if !holdsShareLevel income latest then none
  else
    let restatement := restatementVerdict rules.measured rules.shareChanges weightedAverageShsOutDil
      rules.statements latest date
    let observedDate := instantDate latest.observedAt
    if !restatement.accepted then none
    -- rule 4.2: folded into the stored history before anything was measured, after the count
    else if rules.history.any fun split => observedDate < split.date then none
    -- rule 5: the provider may restate after it re-bases the prices
    else if rules.settling.any fun event => event.first ≤ observedDate
        && observedDate < event.last + EVENT_SETTLING_DAYS && latest.fiscalDate < event.last then
      none
    else return (shares, restatement.firstObservedAt)

/-- What a ratio would read, before it is known to be supported. -/
structure RatioCandidate (F H : Type) where
  denominator : Option F
  addend : Option F
  sources : List (Revision F H)

/-- The windows and states the ratios of a date read. -/
structure RatioSources (F H : Type) where
  latest : Revision F H
  balanceSheet : Option (Revision F H)
  incomeWindow : Option (FiscalQuarterWindow (StatementValues F) H)
  cashFlowWindow : Option (FiscalQuarterWindow (StatementValues F) H)

namespace RatioSources

variable (sources : RatioSources F H)

def incomeRows : List (Revision F H) := sources.incomeWindow.elim [] (·.statements)

def cashFlowRows : List (Revision F H) := sources.cashFlowWindow.elim [] (·.statements)

def candidate : ValuationRatioId → RatioCandidate F H
  | .priceToEarningsTtm =>
    { denominator := sources.incomeWindow.bind fun _ => incomeSum sources.incomeRows .netIncome
      addend := some (JsNumber.ofInt 0)
      sources := sources.incomeRows }
  | .priceToSalesTtm =>
    { denominator := sources.incomeWindow.bind fun _ => incomeSum sources.incomeRows .revenue
      addend := some (JsNumber.ofInt 0)
      sources := sources.incomeRows }
  | .priceToBook =>
    { denominator := sources.balanceSheet.bind fun sheet => finiteValue sheet .totalStockholdersEquity
      addend := some (JsNumber.ofInt 0)
      sources := sources.balanceSheet.elim [] fun sheet => [sources.latest, sheet] }
  | .priceToFcfTtm =>
    { denominator := sources.cashFlowWindow.bind fun _ => freeCashFlowSum sources.cashFlowRows
      addend := some (JsNumber.ofInt 0)
      sources := sources.latest :: sources.cashFlowRows }
  | .evToEbitdaTtm =>
    { denominator := sources.incomeWindow.bind fun _ => incomeSum sources.incomeRows .ebitda
      addend := sources.balanceSheet.bind fun sheet => finiteValue sheet .netDebt
      sources := sources.balanceSheet.elim [] fun sheet => sources.incomeRows ++ [sheet] }

omit [JsNumber F] in
/-- The latest period end of a family. -/
def familyEnd : FinancialStatementType → Option CalendarDay
  | .income => some sources.latest.fiscalDate
  | .balanceSheet => sources.balanceSheet.map (·.fiscalDate)
  | .cashFlow => sources.cashFlowRows.getLast?.map (·.fiscalDate)

/-- What a ratio reads, when rule 1 and rule 4.1 support it. -/
def ratioInputs (currency : String) (historyCoverage : Option CalendarDay)
    (ratio : ValuationRatioId) : Option (RatioInputs F) := do
  let candidate := sources.candidate ratio
  let denominator ← candidate.denominator.filter isPositive
  let addend ← candidate.addend
  let inCurrency := candidate.sources.all fun source =>
    source.reportedCurrency = currency && trim (lit currency) ≠ []
  if candidate.sources.isEmpty || !inCurrency then none
  else
    let ends ← (RATIO_FAMILIES ratio).mapM sources.familyEnd
    let coveredThrough ← (ends.insertionSort (· ≤ ·)).head?
    -- before a listed distribution every close carries a factor nothing measured
    if historyCoverage.any (coveredThrough < ·) then none
    else return { denominator, addend, coveredThrough }

end RatioSources

omit [JsNumber F] in
/-- Rule 5, before the event: the last event the count was first observed in the month before. -/
def withheldBefore (settling : List Days) (fiscalDate firstObservedDate : CalendarDay) :
    Option CalendarDay :=
  (((settling.filter fun event => fiscalDate < event.last
      && event.first - EVENT_SETTLING_DAYS ≤ firstObservedDate && firstObservedDate < event.last).map
    (·.last)).insertionSort (· ≤ ·)).getLast?

/-- The reading of some eligible quarters. -/
def readingOf [LinearOrder H] (rules : StateRules F H) (eligible : List (Revision F H))
    (date : CalendarDay) : StatementReading F :=
  let income := indexFiscalQuarters eligible .income
  match latestFiscalQuarterStatement income with
  | none => .nothing
  | some latest =>
    match usableShares rules income latest date with
    | none => .nothing
    | some (shares, firstObservedAt) =>
      let sources : RatioSources F H :=
        { latest
          balanceSheet := latestFiscalQuarterStatement (indexFiscalQuarters eligible .balanceSheet)
          incomeWindow := trailingFiscalQuarterWindow income TTM_QUARTERS
          cashFlowWindow :=
            trailingFiscalQuarterWindow (indexFiscalQuarters eligible .cashFlow) TTM_QUARTERS }
      { shares := some shares
        observedAt := some latest.observedAt
        withheldBefore := withheldBefore rules.settling latest.fiscalDate (instantDate firstObservedAt)
        ratios := sources.ratioInputs rules.currency rules.historyCoverage }

/-- The statements visible on a date and every statement-level rule applied to them. -/
def stateOn [LinearOrder H] (rules : StateRules F H) (date : CalendarDay) : ValuationState F where
  toStatementReading := readingOf rules
    (selectFinancialStatements rules.statements ⟨none, some .quarterly, none, none, some date⟩) date
  start := date

/-! ### The timeline -/

omit [JsNumber F] in
/-- The measured re-bases that have a ratio. -/
def measuredEvents (inputs : ValuationInputs F H) : List PriceBasisEvent :=
  inputs.events.filter fun event => event.kind = .MEASURED && event.priceRatio.isSome

/-- A measured re-base is near a date. -/
def measuredNear (measured : List PriceBasisEvent) (date : CalendarDay) : Bool :=
  measured.any fun event => (possibleDays event).any fun days =>
    days.first ≤ date + ENTRY_MATCH_DAYS && date - ENTRY_MATCH_DAYS ≤ days.last

section

omit [JsNumber F]

/-- Provider entries no measured re-base supersedes. -/
def unmeasuredEntries (inputs : ValuationInputs F H) : List StockSplit :=
  inputs.splits.filter fun split => !measuredNear (measuredEvents inputs) split.date

/-- The entries folded into the history before it was verified. -/
def historyEntries (inputs : ValuationInputs F H) : List StockSplit :=
  inputs.verifiedAt.elim [] fun verifiedAt =>
    (unmeasuredEntries inputs).filter fun split => split.date ≤ instantDate verifiedAt

/-- The entries after it. -/
def forwardEntries (inputs : ValuationInputs F H) : List StockSplit :=
  inputs.verifiedAt.elim [] fun verifiedAt =>
    (unmeasuredEntries inputs).filter fun split => instantDate verifiedAt < split.date

/-- What the states of a timeline read: the security's standalone quarters, and the events. -/
def stateRules (inputs : ValuationInputs F H) : StateRules F H where
  currency := inputs.currency
  statements := inputs.statements.filter fun statement =>
    statement.securityId = inputs.securityId && isFiscalQuarterPeriod statement.period
  measured := measuredEvents inputs
  history := historyEntries inputs
  historyCoverage := ((((historyEntries inputs).filter fun split => !isPlainEntry split).map
    (·.date)).insertionSort (· ≤ ·)).getLast?
  settling := inputs.splits.map (fun split => ⟨split.date, split.date⟩)
    ++ (measuredEvents inputs).filterMap possibleDays
  shareChanges := shareChangesOf (measuredEvents inputs) (unmeasuredEntries inputs)

/-- The date a possible distribution is taken at. -/
def distributionDate (event : PriceBasisEvent) : Option CalendarDay :=
  (event.effectiveDate.or event.effectiveTo).or event.effectiveFrom

/-- Rule 7: the dates of the measured re-bases that may have been distributions, ascending. -/
def distributionDates (inputs : ValuationInputs F H) : List CalendarDay :=
  (((measuredEvents inputs).filter fun event =>
      !event.priceRatio.any fun ratio => isPlainShareRatio ratio MEASURED_RATIO_TOLERANCE).filterMap
    distributionDate).insertionSort (· ≤ ·)

/-- Rule 8: the sessions after a listed upcoming event. -/
def forwardWindows (inputs : ValuationInputs F H) : List Days :=
  (forwardEntries inputs).map fun split => ⟨split.date, split.date + EVENT_SETTLING_DAYS⟩

end

/-- The events a session on or after a bound can read: the last one up to it and every later one. -/
def readableEventDates (sorted : List CalendarDay) : Option CalendarDay → List CalendarDay
  | none => sorted
  | some bound => sorted.drop (AscendingList.lastIndexUpTo sorted bound)

/-- The dates on which a statement becomes available, each once, ascending. -/
def allEventDates (statements : List (Revision F H)) : List CalendarDay :=
  (statements.map (·.availableFromDate)).dedup.insertionSort (· ≤ ·)

/-- Precomputes a security's valuation inputs, for the sessions from a bound on if there is one. -/
def buildValuationTimeline [LinearOrder H] (inputs : ValuationInputs F H)
    (statesFrom : Option CalendarDay) : ValuationTimeline F :=
  let rules := stateRules inputs
  { securityId := inputs.securityId
    verified := inputs.verifiedAt.isSome
    states := (readableEventDates (allEventDates rules.statements) statesFrom).map (stateOn rules)
    events := inputs.events
    distributionDates := distributionDates inputs
    forwardWindows := forwardWindows inputs }

/-! ### Columns -/

omit [JsNumber F] in
/-- The state in force on a date: the latest one starting on or before it. -/
def stateAt (states : List (ValuationState F)) (date : CalendarDay) : Option (ValuationState F) :=
  searchLast (fun state => state.start ≤ date) states states.length 0 states.length none

def latestOnOrBefore (sorted : List CalendarDay) (date : CalendarDay) : Option CalendarDay :=
  (sorted.takeWhile (· ≤ date)).getLast?

/-- `basisFactorAt`'s factor, multiplied up in doubles; `none` when the session is withheld. -/
def basisFactor (session observedAt : ℤ) : F → List PriceBasisEvent → Option F
  | factor, [] => some factor
  | factor, event :: events =>
    match event.factorAt session observedAt with
    | .WITHHELD _ => none
    | .FACTOR ratio => basisFactor session observedAt (factor * JsNumber.ofDecimal ratio) events

/-- A ratio on one session at its close, from what the statements support. -/
def ratioOn (timeline : ValuationTimeline F) (reading : StatementReading F) (session : CalendarDay)
    (close : F) (ratio : ValuationRatioId) : Option F := do
  if !JsNumber.isFinite close || JsNumber.le close (JsNumber.ofInt 0) then none
  else
    let shares ← reading.shares
    let observedAt ← reading.observedAt
    -- rule 5, before the event: a count that may already be restated, against an old-basis close
    if reading.withheldBefore.any (session < ·) then none
    -- rule 8: a listed event the provider has not re-based yet
    else if timeline.forwardWindows.any fun window =>
        window.first ≤ session && session ≤ window.last then none
    else
      -- rule 6: the close on the basis the count was observed on, or nothing
      let factor ← basisFactor session observedAt (JsNumber.ofInt 1) timeline.events
      let inputs ← reading.ratios ratio
      -- rule 7: on and after a possible distribution, statements that cover it
      if (latestOnOrBefore timeline.distributionDates session).any (inputs.coveredThrough < ·) then
        none
      else
        let marketCap := close * factor * shares
        let value := (marketCap + inputs.addend) / inputs.denominator
        if JsNumber.isFinite value && isRepresentableCalculatedSeriesValue value then
          return if JsNumber.eq value (JsNumber.ofInt 0) then JsNumber.ofInt 0 else value
        else none

/-- The rows of a column. -/
structure RatioColumnsRequest (F : Type) where
  dates : List CalendarDay
  closes : List F
  ratios : List ValuationRatioId
  /-- The date whose statements a row reads when it is not the row's own. -/
  statementDateOf : Option (ℕ → CalendarDay)

omit [JsNumber F] in
/-- The date whose statements a row reads. -/
def RatioColumnsRequest.statementDate (request : RatioColumnsRequest F) (session : CalendarDay)
    (index : ℕ) : CalendarDay :=
  request.statementDateOf.elim session fun statementDateOf => statementDateOf index

/-- One column for each ratio asked for, a row read by `valueAt`; an unavailable row is `NaN`. -/
def columnsBy (request : RatioColumnsRequest F)
    (valueAt : (session statementDate : CalendarDay) → F → ValuationRatioId → Option F) :
    OrderedMap ValuationRatioId (List F) :=
  .ofList (request.ratios.map fun ratio =>
    (ratio, request.dates.zipIdx.map fun (session, index) =>
      ((request.closes[index]?.bind fun close =>
        valueAt session (request.statementDate session index) close ratio).getD JsNumber.nan)))

/-- The ratios of a security on some sessions, as columns. -/
def valuationRatioColumns (timeline : ValuationTimeline F) (request : RatioColumnsRequest F) :
    OrderedMap ValuationRatioId (List F) :=
  columnsBy request fun session statementDate close ratio =>
    if !timeline.verified then none
    else
      match stateAt timeline.states statementDate with
      | none => none
      | some state => ratioOn timeline state.toStatementReading session close ratio

end FactorSage.Valuation
