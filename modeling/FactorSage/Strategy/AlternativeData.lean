import FactorSage.Domain.LocalDate
import FactorSage.Library.ComparatorSort
import FactorSage.Library.JsNumber
import FactorSage.Library.SlidingWindow
import FactorSage.Library.Tally

/-!
# Alternative data, as evaluation reads it

A disclosure becomes observable on a date, and counts in every window of trading sessions that holds
the first session on or after it. `buildAlternativeDataColumn` sweeps one such window over the
sessions of a frame.

A disclosed amount is summed in whole ten-thousandths of a dollar. The sum is an integer here; the
source's stays one up to `2 ^ 53` of them.
-/

namespace FactorSage

open SlidingWindow

variable {F : Type}

/-- One normalized disclosure, reduced to what an aggregation needs. -/
structure AlternativeDataObservation (F : Type) where
  observableFrom : LocalDate
  actorKey : String
  amount : Option F

/-- The interval a column may report a number for: `from` and `to`. -/
structure AlternativeDataCoverage where
  fromDate : LocalDate
  toDate : LocalDate

/-- One security's answer for one metric; `coverage` is `none` when nothing was ingested. -/
structure AlternativeDataFacts (F : Type) where
  coverage : Option AlternativeDataCoverage
  observations : List (AlternativeDataObservation F)

inductive AlternativeDataAggregation where
  | distinctActors | eventCount | sumAmount
  deriving DecidableEq

structure AlternativeDataColumnRequest where
  lookbackSessions : ℕ
  aggregation : AlternativeDataAggregation

/-! ### Sessions -/

/-- The binary search, over the positions from `low` up to the source's `high`, which is one before
`until`. Each round halves what is left, so the number of sessions is fuel enough. -/
def searchSession (dates : List LocalDate) (date : LocalDate) :
    ℕ → ℕ → ℕ → Option ℕ → Option ℕ
  | 0, _, _, found => found
  | fuel + 1, low, until_, found =>
    if low < until_ then
      let middle := (low + (until_ - 1)) / 2
      if dates[middle]?.any fun session => decide (session ≥ date) then
        searchSession dates date fuel low middle (some middle)
      else searchSession dates date fuel (middle + 1) until_ found
    else found

/-- Index of the first session on or after a date, `none` when every session precedes it. -/
def firstSessionAtOrAfter (dates : List LocalDate) (date : LocalDate) : Option ℕ :=
  searchSession dates date dates.length 0 dates.length none

/-! ### The sweep -/

/-- An observation on the session a reader could first have acted on it. -/
structure PlacedObservation (F : Type) where
  index : ℕ
  observation : AlternativeDataObservation F

/-- One observation on its session. One that became observable before the frame's first session is
dropped, not pulled forward onto it. -/
def placeObservation (dates : List LocalDate) (observation : AlternativeDataObservation F) :
    Option (PlacedObservation F) :=
  match firstSessionAtOrAfter dates observation.observableFrom with
  | none => none
  | some index =>
    if dates.head?.any fun first => decide (observation.observableFrom < first) then none
    else some { index, observation }

/-- The observations with a session in the frame. -/
def placeObservations (dates : List LocalDate)
    (observations : List (AlternativeDataObservation F)) : List (PlacedObservation F) :=
  observations.filterMap (placeObservation dates)

/-- What the window holds. -/
structure WindowTotals where
  actorCounts : OrderedMap String ℤ
  events : ℤ
  amountUnits : ℤ

variable [JsNumber F]

/-- `MONEY_UNITS_PER_DOLLAR`. -/
def moneyUnitsPerDollar : ℤ := 10000

/-- An amount as whole ten-thousandths of a dollar. -/
def moneyUnits (amount : F) : ℤ := JsNumber.round (amount * JsNumber.ofInt moneyUnitsPerDollar)

/-- What an observation adds to a sum of amounts: nothing when it states none. -/
def AlternativeDataObservation.units (observation : AlternativeDataObservation F) : ℤ :=
  match observation.amount with
  | none => 0
  | some amount => if JsNumber.isFinite amount then moneyUnits amount else 0

def enterWindow (totals : WindowTotals) (placed : PlacedObservation F) : WindowTotals where
  actorCounts := Tally.add totals.actorCounts placed.observation.actorKey
  events := totals.events + 1
  amountUnits := totals.amountUnits + placed.observation.units

def leaveWindow (totals : WindowTotals) (placed : PlacedObservation F) : WindowTotals where
  actorCounts := Tally.remove totals.actorCounts placed.observation.actorKey
  events := totals.events - 1
  amountUnits := totals.amountUnits - placed.observation.units

/-- What a column reports of a window. -/
def aggregateTotals (aggregation : AlternativeDataAggregation) (totals : WindowTotals) : F :=
  match aggregation with
  | .distinctActors => JsNumber.ofInt totals.actorCounts.size
  | .eventCount => JsNumber.ofInt totals.events
  | .sumAmount => JsNumber.ofInt totals.amountUnits / JsNumber.ofInt moneyUnitsPerDollar

/-- One session of the sweep: everything observable by it enters the window, everything older than
the window's start leaves. -/
def sweepSession (placed : List (PlacedObservation F)) (lookback index : ℕ)
    (cursor : Cursor WindowTotals) : Cursor WindowTotals :=
  leaveWhile leaveWindow placed (fun p => decide (p.index + lookback ≤ index))
    (enterWhile enterWindow placed (fun p => decide (p.index ≤ index)) cursor)

/-- The value at one session: absent unless the whole window lies in the frame and in coverage. -/
def sessionValue (dates : List LocalDate) (coverage : AlternativeDataCoverage)
    (aggregation : AlternativeDataAggregation) (lookback index : ℕ) (totals : WindowTotals) : F :=
  if index + 1 < lookback then JsNumber.nan
  else
    match dates[index]?, dates[index + 1 - lookback]? with
    | some date, some windowStartDate =>
      if date > coverage.toDate || windowStartDate < coverage.fromDate then JsNumber.nan
      else aggregateTotals aggregation totals
    | _, _ => JsNumber.nan

/-- The values at a run of sessions. -/
def sweepColumn (dates : List LocalDate) (coverage : AlternativeDataCoverage)
    (aggregation : AlternativeDataAggregation) (lookback : ℕ) (placed : List (PlacedObservation F)) :
    List ℕ → Cursor WindowTotals → List F
  | [], _ => []
  | index :: rest, cursor =>
    let swept := sweepSession placed lookback index cursor
    sessionValue dates coverage aggregation lookback index swept.state
      :: sweepColumn dates coverage aggregation lookback placed rest swept

/-- Projects one configured metric into a column aligned with `dates`. -/
def buildAlternativeDataColumn (dates : List LocalDate) (request : AlternativeDataColumnRequest)
    (facts : AlternativeDataFacts F) : List F :=
  match facts.coverage with
  | none => dates.map fun _ => JsNumber.nan
  | some coverage =>
    let lookback := max 1 request.lookbackSessions
    let placed := ComparatorSort.sortBy (fun left right => (left.index : ℤ) - right.index)
      (placeObservations dates facts.observations)
    sweepColumn dates coverage request.aggregation lookback placed (List.range dates.length)
      ⟨⟨.empty, 0, 0⟩, 0, 0⟩

end FactorSage
