import FactorSage.Library.BestByKey
import FactorSage.Library.ComparatorSort
import Mathlib.Data.Prod.Lex
import Mathlib.Data.Int.Basic

/-!
# Financial statements

Statements as the provider drafts them and as the store keeps them, the date their figures become
public, and the selector that picks one revision of each statement as of a date.

A date is its day number since 1970-01-01; the `YYYY-MM-DD` strings of the source compare as their
day numbers do. An instant is its milliseconds since then. The values and the content hash are
parameters: nothing here looks into either.
-/

namespace FactorSage.Statements

abbrev CalendarDay := ℤ
abbrev Instant := ℤ

inductive FinancialStatementType
  | income
  | balanceSheet
  | cashFlow
  deriving DecidableEq, Repr

inductive FinancialStatementCadence
  | quarterly
  | annual
  deriving DecidableEq, Repr

inductive FinancialPeriod
  | fy
  | q1
  | q2
  | q3
  | q4
  deriving DecidableEq, Repr

/-- What the content hash is taken over. -/
structure StatementContent (V : Type) where
  statementType : FinancialStatementType
  fiscalDate : CalendarDay
  fiscalYear : ℕ
  period : FinancialPeriod
  reportedCurrency : String
  filingDate : CalendarDay
  values : V
  deriving DecidableEq

/-- A statement as the provider drafts it. -/
structure FinancialStatementDraft (V : Type) extends StatementContent V where
  securityId : String
  providerAcceptedDate : Option String
  deriving DecidableEq

/-- A stored revision of a statement. -/
structure FinancialStatement (V H : Type) extends FinancialStatementDraft V where
  availableFromDate : CalendarDay
  observedAt : Instant
  contentHash : H
  deriving DecidableEq

/-- The logical identity of a statement: `financialStatementIdentityKey`. -/
structure StatementIdentity where
  securityId : String
  statementType : FinancialStatementType
  fiscalDate : CalendarDay
  fiscalYear : ℕ
  period : FinancialPeriod
  deriving DecidableEq

/-- The fiscal period a statement reports on, whatever period end it gives:
`financialStatementPeriodKey`. -/
structure StatementPeriod where
  securityId : String
  statementType : FinancialStatementType
  fiscalYear : ℕ
  period : FinancialPeriod
  deriving DecidableEq

def StatementIdentity.periodKey (identity : StatementIdentity) : StatementPeriod where
  securityId := identity.securityId
  statementType := identity.statementType
  fiscalYear := identity.fiscalYear
  period := identity.period

variable {V H : Type}

def FinancialStatementDraft.identityKey (statement : FinancialStatementDraft V) :
    StatementIdentity where
  securityId := statement.securityId
  statementType := statement.statementType
  fiscalDate := statement.fiscalDate
  fiscalYear := statement.fiscalYear
  period := statement.period

def FinancialStatementDraft.periodKey (statement : FinancialStatementDraft V) : StatementPeriod :=
  statement.identityKey.periodKey

/-! ### Public availability -/

def QUARTERLY_REPORT_DEADLINE_DAYS : ℤ := 45
def ANNUAL_REPORT_DEADLINE_DAYS : ℤ := 90

def addCalendarDays (date : CalendarDay) (days : ℤ) : CalendarDay := date + days

/-- `getUTCDay`: Sunday is `0`, and day 0 was a Thursday. -/
def weekday (date : CalendarDay) : ℤ := (date + 4) % 7

/-- Saturday and Sunday push a due date to the following Monday. -/
def nextBusinessDay (date : CalendarDay) : CalendarDay :=
  if weekday date = 6 then addCalendarDays date 2
  else if weekday date = 0 then addCalendarDays date 1
  else date

namespace StatementContent

/-- A filing date that is not the period end put in its place. -/
def hasProviderFilingDate (statement : StatementContent V) : Bool :=
  statement.fiscalDate < statement.filingDate

/-- The first date the figures may be used: the day after a real filing, or after the statutory
deadline when there is none. -/
def publicAvailabilityDate (statement : StatementContent V) : CalendarDay :=
  if statement.hasProviderFilingDate then addCalendarDays statement.filingDate 1
  else
    let deadline := if statement.period = .fy ∨ statement.period = .q4 then
      ANNUAL_REPORT_DEADLINE_DAYS else QUARTERLY_REPORT_DEADLINE_DAYS
    addCalendarDays (nextBusinessDay (addCalendarDays statement.fiscalDate deadline)) 1

end StatementContent

/-! ### Selection -/

structure FinancialStatementQuery where
  statementTypes : Option (List FinancialStatementType)
  cadence : Option FinancialStatementCadence
  start : Option CalendarDay
  stop : Option CalendarDay
  asOf : Option CalendarDay

/-- Everything available on a date. -/
def FinancialStatementQuery.on (date : CalendarDay) : FinancialStatementQuery :=
  ⟨none, none, none, none, some date⟩

def cadenceForPeriod : FinancialPeriod → FinancialStatementCadence
  | .fy => .annual
  | _ => .quarterly

def statementTypeRank : FinancialStatementType → ℕ
  | .income => 0
  | .balanceSheet => 1
  | .cashFlow => 2

def periodRank : FinancialPeriod → ℕ
  | .fy => 0
  | .q1 => 1
  | .q2 => 2
  | .q3 => 3
  | .q4 => 4

def matchesQuery (statement : FinancialStatement V H) (query : FinancialStatementQuery) : Bool :=
  (query.statementTypes.all fun types => statement.statementType ∈ types)
    && (query.cadence.all fun cadence => cadenceForPeriod statement.period = cadence)
    && (query.start.all fun start => start ≤ statement.fiscalDate)
    && (query.stop.all fun stop => statement.fiscalDate ≤ stop)
    && query.asOf.all fun asOf => statement.availableFromDate ≤ asOf

@[simp] theorem matchesQuery_on (statement : FinancialStatement V H) (date : CalendarDay) :
    matchesQuery statement (.on date) = true ↔ statement.availableFromDate ≤ date := by
  simp [matchesQuery, FinancialStatementQuery.on]

/-- Revisions of one identity are ranked by availability, then observation, then hash. -/
def revisionRank (statement : FinancialStatement V H) : CalendarDay ×ₗ Instant ×ₗ H :=
  toLex (statement.availableFromDate, toLex (statement.observedAt, statement.contentHash))

variable [LinearOrder H]

/-- The order of a response. -/
def resultOrder (statement : FinancialStatement V H) :
    CalendarDay ×ₗ ℕ ×ₗ ℕ ×ₗ CalendarDay ×ₗ Instant ×ₗ H :=
  toLex (statement.fiscalDate, toLex (statementTypeRank statement.statementType,
    toLex (periodRank statement.period, revisionRank statement)))

/-- The best eligible revision of each identity. -/
def selectedRevisions (statements : List (FinancialStatement V H))
    (query : FinancialStatementQuery) : OrderedMap StatementIdentity (FinancialStatement V H) :=
  OrderedMap.addBest revisionRank (fun statement => statement.identityKey) id .empty
    (statements.filter fun statement => matchesQuery statement query)

def selectFinancialStatements (statements : List (FinancialStatement V H))
    (query : FinancialStatementQuery) : List (FinancialStatement V H) :=
  (selectedRevisions statements query).values.insertionSort fun left right =>
    resultOrder left ≤ resultOrder right

section Select

variable {statements : List (FinancialStatement V H)} {query : FinancialStatementQuery}

theorem isBest_selectedRevisions : OrderedMap.IsBest revisionRank
    (fun statement : FinancialStatement V H => statement.identityKey) id
    (statements.filter fun statement => matchesQuery statement query)
    (selectedRevisions statements query) :=
  OrderedMap.isBest_addBest_empty _

variable {s : FinancialStatement V H}

/-- A response holds exactly the values of the map, each under its own identity. -/
theorem mem_select_iff :
    s ∈ selectFinancialStatements statements query ↔
      (selectedRevisions statements query).get? s.identityKey = some s := by
  unfold selectFinancialStatements
  rw [(List.perm_insertionSort _ _).mem_iff, OrderedMap.mem_values_iff]
  constructor
  · rintro ⟨k, hget⟩
    obtain ⟨a, -, hkey, hvalue⟩ := isBest_selectedRevisions.exists_mem k s hget
    obtain rfl : a = s := hvalue
    exact hkey ▸ hget
  · exact fun hget => ⟨_, hget⟩

/-- The revision returned of an identity is eligible, and none outranks it. -/
theorem of_mem_select (h : s ∈ selectFinancialStatements statements query) :
    s ∈ statements ∧ matchesQuery s query = true
      ∧ ∀ s' ∈ statements, matchesQuery s' query = true → s'.identityKey = s.identityKey →
        revisionRank s' ≤ revisionRank s := by
  have hget := mem_select_iff.mp h
  obtain ⟨a, ha, -, rfl⟩ := isBest_selectedRevisions.exists_mem _ _ hget
  obtain ⟨hmem, hmatches⟩ := List.mem_filter.mp ha
  refine ⟨hmem, hmatches, fun s' hs' hmatches' hkey => ?_⟩
  exact isBest_selectedRevisions.rank_le _ _ hget s' (List.mem_filter.mpr ⟨hs', hmatches'⟩) hkey

/-- Of every identity with an eligible revision, one is returned. -/
theorem exists_mem_select (hmem : s ∈ statements) (hmatches : matchesQuery s query = true) :
    ∃ s' ∈ selectFinancialStatements statements query, s'.identityKey = s.identityKey := by
  cases hget : (selectedRevisions statements query).get? s.identityKey with
  | none =>
    have hnone := (isBest_selectedRevisions.eq_none_iff _).mp hget
    exact absurd rfl (hnone s (List.mem_filter.mpr ⟨hmem, hmatches⟩))
  | some s' =>
    obtain ⟨a, -, hkey, rfl⟩ := isBest_selectedRevisions.exists_mem _ _ hget
    exact ⟨a, mem_select_iff.mpr (hkey ▸ hget), hkey⟩

end Select

end FactorSage.Statements
