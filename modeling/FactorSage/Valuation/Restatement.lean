import FactorSage.Rebase.BasisFactor
import FactorSage.Statements.FinancialStatements

/-!
# Restated share counts

Rule 3 of the valuation ratios: whether a count passes against its anchor, the latest revision of its
fiscal quarter observed before it that the rule accepted and that has a usable count.

The counts are read through a parameter, the `weightedAverageShsOutDil` of a statement's values. A
threshold is judged on the exact decimals, so a count is a rational number.
-/

namespace FactorSage.Valuation

open ComparatorSort Rebase Statements

def SHARE_RESTATEMENT_TOLERANCE : ℚ := 2 / 100

def EVENT_SETTLING_DAYS : ℤ := 30

/-! ### Share-changing events -/

def STOCK_SPLIT_LABEL : String := "stock-split"

structure StockSplit where
  date : ℤ
  label : Option String
  numerator : ℚ
  denominator : ℚ
  deriving DecidableEq

/-- A labelled split at an exact common ratio. -/
def isPlainEntry (split : StockSplit) : Bool :=
  split.label = some STOCK_SPLIT_LABEL && 0 < split.denominator
    && isPlainShareRatio (split.numerator / split.denominator) 0

/-- The calendar days an event may lie on. -/
structure Days where
  first : ℤ
  last : ℤ
  deriving DecidableEq

/-- The days a measured re-base may lie on: its date, or the days after the last session certainly
before it. -/
def possibleDays (event : PriceBasisEvent) : Option Days :=
  match event.effectiveDate with
  | some date => some ⟨date, date⟩
  | none => event.effectiveFrom.map fun before =>
      ⟨before + 1, event.effectiveTo.getD (before + 1)⟩

/-- A share-changing event: a measured re-base at a plain share ratio, or a provider entry at one
that no measured re-base supersedes. -/
inductive ShareChange
  | MEASURED (lastDay : ℤ) (detectedAt : Instant) (event : PriceBasisEvent)
  | ENTRY (date : ℤ)
  deriving DecidableEq

/-- The events across which a count must change by the event's ratio. -/
def shareChangesOf (measured : List PriceBasisEvent) (unmeasured : List StockSplit) :
    List ShareChange :=
  (measured.filterMap fun event => (possibleDays event).bind fun days =>
    if event.priceRatio.any fun ratio => isPlainShareRatio ratio MEASURED_RATIO_TOLERANCE then
      some (.MEASURED days.last event.detectedAt event)
    else none)
  ++ (unmeasured.filter isPlainEntry).map fun split => .ENTRY split.date

/-- `|value − reference| ≤ tolerance × reference`, exactly, for a reference given by its factors:
the value, computed digit by digit in `Valuation.ExactDecimalSum`. -/
def exactlyWithinFraction (value : ℚ) (reference : List ℚ) (tolerance : ℚ) : Bool :=
  |value - reference.prod| ≤ tolerance * reference.prod

/-! ### The order revisions were observed in -/

section Verdict

variable {V H : Type} [LinearOrder H]

/-- What picks a quarter's representing revision: later availability, later observation, later
period end, then the content hash. -/
def fiscalPeriodRank (statement : FinancialStatement V H) : ℤ ×ₗ Instant ×ₗ ℤ ×ₗ H :=
  toLex (statement.availableFromDate,
    toLex (statement.observedAt, toLex (statement.fiscalDate, statement.contentHash)))

def representsFiscalPeriodOver (candidate existing : FinancialStatement V H) : Bool :=
  fiscalPeriodRank existing < fiscalPeriodRank candidate

/-- Observed earlier, or by the same observation and represented over by `later`. -/
def observedBefore (earlier later : FinancialStatement V H) : Bool :=
  earlier.observedAt < later.observedAt
    || (earlier.observedAt = later.observedAt && representsFiscalPeriodOver later earlier)

def compareObserved (left right : FinancialStatement V H) : ℤ :=
  if observedBefore left right then -1 else if observedBefore right left then 1 else 0

/-! ### Judging a revision -/

/-- A revision the rule accepted with a usable count. -/
structure Anchor (V H : Type) where
  statement : FinancialStatement V H
  shares : ℚ
  /-- Back through every revision it agreed with. -/
  firstObservedAt : Instant

/-- A share-changing event separates a revision from its anchor. -/
def separates (change : ShareChange) (revision anchor : FinancialStatement V H) : Bool :=
  match change with
  | .MEASURED lastDay detectedAt _ =>
    revision.fiscalDate < lastDay && anchor.observedAt < detectedAt
      && detectedAt ≤ revision.observedAt
  | .ENTRY date =>
    revision.fiscalDate < date && instantDate anchor.observedAt < date
      && date ≤ instantDate revision.observedAt

/-- The latest date a re-base may have. -/
def latestDate (event : PriceBasisEvent) : Option ℤ := event.effectiveDate.or event.effectiveTo

/-- An event dated less than a month before an observation. -/
def isRecent (event : PriceBasisEvent) (observedDate : ℤ) : Bool :=
  ∃ date ∈ latestDate event, observedDate < date + EVENT_SETTLING_DAYS

/-- The ratio a separating event contributes; a provider entry explains nothing. -/
def separatingRatio (anchor : FinancialStatement V H) : ShareChange → Option ℚ
  | .ENTRY _ => none
  | .MEASURED _ _ event =>
    if isRecent event (instantDate anchor.observedAt) then event.priceRatio else none

/-- The measured re-bases among the separating events explain the count together. -/
def explainedAcross (separating : List ShareChange) (shares : ℚ) (anchor : Anchor V H) : Bool :=
  if exactlyWithinFraction shares [anchor.shares] SHARE_RESTATEMENT_TOLERANCE then false
  else
    match separating.mapM (separatingRatio anchor.statement) with
    | none => false
    | some ratios =>
      exactlyWithinFraction shares (ratios ++ [anchor.shares]) SHARE_RESTATEMENT_TOLERANCE

/-- A measured re-base explains a restatement: known by the time the revision was observed, new to
the anchor, and dated less than a month before it. -/
def explains (event : PriceBasisEvent) (revision : FinancialStatement V H) (shares : ℚ)
    (anchor : Anchor V H) : Bool :=
  ∃ date ∈ latestDate event, ∃ ratio ∈ event.priceRatio,
    event.detectedAt ≤ revision.observedAt
      ∧ (anchor.statement.observedAt < event.detectedAt
        ∨ instantDate anchor.statement.observedAt < date)
      ∧ instantDate anchor.statement.observedAt < date + EVENT_SETTLING_DAYS
      ∧ exactlyWithinFraction shares [ratio, anchor.shares] SHARE_RESTATEMENT_TOLERANCE

section Events

variable (measured : List PriceBasisEvent) (shareChanges : List ShareChange)

def separating (revision anchor : FinancialStatement V H) : List ShareChange :=
  shareChanges.filter fun change => separates change revision anchor

/-- When the count was first observed, if the revision is accepted. -/
def acceptedAgainst (revision : FinancialStatement V H) (shares : ℚ) :
    Option (Anchor V H) → Option Instant
  | none => some revision.observedAt
  | some anchor =>
    if separating shareChanges revision anchor.statement ≠ [] then
      if explainedAcross (separating shareChanges revision anchor.statement) shares anchor then
        some revision.observedAt
      else none
    else if exactlyWithinFraction shares [anchor.shares] SHARE_RESTATEMENT_TOLERANCE then
      some anchor.firstObservedAt
    else if measured.any fun event => explains event revision shares anchor then
      some revision.observedAt
    else none

variable (weightedAverageShsOutDil : V → Option ℚ)

/-- A positive count. -/
def usableCount (statement : FinancialStatement V H) : Option ℚ :=
  (weightedAverageShsOutDil statement.values).filter (0 < ·)

/-- One revision judged against the anchor before it. -/
def nextAnchor (anchor : Option (Anchor V H)) (revision : FinancialStatement V H) :
    Option (Anchor V H) :=
  match usableCount weightedAverageShsOutDil revision with
  | none => anchor
  | some shares =>
    match acceptedAgainst measured shareChanges revision shares anchor with
    | none => anchor
    | some firstObservedAt => some ⟨revision, shares, firstObservedAt⟩

/-- A revision of the same fiscal quarter, whatever period end it gives. -/
def sameQuarter (statement latest : FinancialStatement V H) : Bool :=
  statement.statementType = latest.statementType && statement.fiscalYear = latest.fiscalYear
    && statement.period = latest.period

/-- The quarter's revisions visible on a date and observed before the latest, in the order they were
observed. The source also drops `latest` by reference: it is not observed before itself. -/
def earlierRevisions (statements : List (FinancialStatement V H)) (latest : FinancialStatement V H)
    (date : ℤ) : List (FinancialStatement V H) :=
  sortBy compareObserved (statements.filter fun statement =>
    sameQuarter statement latest && statement.availableFromDate ≤ date
      && observedBefore statement latest)

structure RestatementVerdict where
  accepted : Bool
  firstObservedAt : Instant
  deriving DecidableEq

/-- Rule 3 for the latest revision, whose count the caller found usable. -/
def restatementVerdict (statements : List (FinancialStatement V H))
    (latest : FinancialStatement V H) (date : ℤ) : RestatementVerdict :=
  let anchor := (earlierRevisions statements latest date).foldl
    (nextAnchor measured shareChanges weightedAverageShsOutDil) none
  let shares := (weightedAverageShsOutDil latest.values).getD 0
  match acceptedAgainst measured shareChanges latest shares anchor with
  | none => ⟨false, latest.observedAt⟩
  | some firstObservedAt => ⟨true, firstObservedAt⟩

end Events

end Verdict

end FactorSage.Valuation
