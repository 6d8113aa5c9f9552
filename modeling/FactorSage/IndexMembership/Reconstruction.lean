import FactorSage.Domain.LocalDate
import FactorSage.IndexMembership.Names
import FactorSage.Library.JsonInteger

/-!
# Index membership, reconstructed by a backward walk

The provider's current list is the one fully known state. Walking its change log from the newest
effective date to the oldest undoes each change, and the provider's rename history along the way; a
period exists only between an addition and a removal the log records, or the current list.

Dates are day numbers, so `addDays` is addition and dates compare as the numbers do. The source
keeps every walker in one array, the members among them also in `active`; here a walker that is no
member moves from `active` to `left`, since the array's order is forgotten by the last sort.
-/

namespace FactorSage.IndexMembership

open ComparatorSort CodeUnits JsonText

def INDEX_RECONSTRUCTION_ALGORITHM_VERSION : ℕ := 2

def INDEX_NAME_MATCH_THRESHOLD : ℚ := 17 / 20

def FIRST_ADDED_REFINEMENT_DAYS : ℤ := 4

/-! ### What is given -/

structure CurrentConstituent where
  symbol : String
  name : String
  cik : Option String
  dateFirstAdded : Option ℤ
  deriving DecidableEq

structure IndexChange where
  contentHash : String
  effectiveDate : ℤ
  addedTicker : Option String
  addedName : Option String
  removedTicker : Option String
  removedName : Option String
  deriving DecidableEq

structure SymbolChange where
  date : ℤ
  oldSymbol : String
  newSymbol : String
  deriving DecidableEq

structure ReconstructionInput where
  current : List CurrentConstituent
  changes : List IndexChange
  symbolChanges : List SymbolChange
  asOf : ℤ

/-! ### What is built -/

inductive AdditionMatch
  | EXACT_TICKER
  | TICKER_HISTORY
  | NAME
  deriving DecidableEq

inductive IndexMembershipPeriodQuality
  | CONFIRMED
  | START_BEFORE_LOG
  | END_UNKNOWN
  deriving DecidableEq

structure ReconstructedPeriod where
  startDate : Option ℤ
  startLogDate : Option ℤ
  /-- Last day of membership, inclusive. -/
  endDate : Option ℤ
  endLogDate : Option ℤ
  quality : IndexMembershipPeriodQuality
  startChangeHash : Option String
  endChangeHash : Option String
  startMatch : Option AdditionMatch
  deriving DecidableEq

inductive ConstituentOrigin
  | CURRENT
  | REMOVAL
  | ORPHAN_ADDITION
  deriving DecidableEq

/-- One ticker a constituent held: its first day under it, when a rename gave it, and its last. -/
structure TickerSpan where
  ticker : String
  fromDate : Option ℤ
  toDate : Option ℤ
  deriving DecidableEq

structure ReconstructedConstituent where
  constituentKey : String
  origin : ConstituentOrigin
  ticker : String
  name : String
  cik : Option String
  /-- Newest first. -/
  tickerHistory : List TickerSpan
  periods : List ReconstructedPeriod
  deriving DecidableEq

inductive ReconstructionAnomaly
  | ORPHAN_ADDITION (date : ℤ) (ticker : String) (name : Option String) (changeHash : String)
  | AMBIGUOUS_ADDITION (date : ℤ) (ticker : String) (name : Option String) (tier : AdditionMatch)
      (candidates : List String) (chosen : String) (changeHash : String)
  | TICKER_COLLISION (date : ℤ) (ticker : String) (removedName : Option String)
      (activeConstituents : List String) (changeHash : String)
  | FUTURE_CHANGE (date : ℤ) (changeHash : String)
  | EFFECTIVE_DATE_CONFLICT (date : ℤ) (candidates : List ℤ) (logDateConfirmed : Bool)
  | FIRST_ADDED_MISMATCH (ticker : String) (providerDateFirstAdded : ℤ)
      (reconstructedStart : Option ℤ)
  | NO_CONFIRMED_SESSION (date : ℤ) (ticker : String) (changeHash : String)
  deriving DecidableEq

/-- How the applied additions' starts were placed. -/
structure AdditionStarts where
  refined : ℕ
  confirmed : ℕ
  deferred : ℕ
  deriving DecidableEq

structure ReconstructionResult where
  algorithmVersion : ℕ
  logStart : Option ℤ
  additionStarts : AdditionStarts
  constituents : List ReconstructedConstituent
  anomalies : List ReconstructionAnomaly
  deriving DecidableEq

/-! ### Orders -/

def compareText (left right : String) : ℤ :=
  if codeUnitLt left right then -1 else if codeUnitLt right left then 1 else 0

def compareRenames (left right : SymbolChange) : ℤ :=
  if left.date < right.date then -1 else if right.date < left.date then 1
  else if compareText left.newSymbol right.newSymbol ≠ 0 then
    compareText left.newSymbol right.newSymbol
  else compareText left.oldSymbol right.oldSymbol

def compareChanges (left right : IndexChange) : ℤ :=
  if left.effectiveDate < right.effectiveDate then -1
  else if right.effectiveDate < left.effectiveDate then 1
  else compareText left.contentHash right.contentHash

/-- The first change of each content hash. -/
def firstByHash : List IndexChange → List IndexChange
  | [] => []
  | change :: changes =>
    change :: (firstByHash changes).filter fun other => other.contentHash ≠ change.contentHash

def dedupeChanges (changes : List IndexChange) : List IndexChange :=
  sortBy compareChanges (firstByHash changes)

/-! ### Effective dates -/

/-- The ticker an issuer that held a ticker on a date trades under today, through at most so many
renames. -/
def tickerToday (renames : List SymbolChange) : ℕ → String → ℤ → String
  | 0, symbol, _ => symbol
  | hops + 1, symbol, since =>
    match renames.find? fun rename => rename.oldSymbol = symbol ∧ since < rename.date with
    | none => symbol
    | some next => tickerToday renames hops next.newSymbol next.date

section Refinement

variable (current : List CurrentConstituent) (symbolChanges : List SymbolChange)

def firstAdded : OrderedMap String ℤ :=
  OrderedMap.ofList (current.filterMap fun member =>
    member.dateFirstAdded.map fun added => (member.symbol, added))

/-- The first-added date of the current member an addition's ticker leads to. -/
def firstAddedOf (change : IndexChange) : Option ℤ :=
  change.addedTicker.bind fun ticker =>
    (firstAdded current).get?
      (if ticker ∈ current.map CurrentConstituent.symbol then ticker
      else tickerToday (sortBy compareRenames symbolChanges) 16 ticker change.effectiveDate)

/-- The log dates with the first-added dates that speak for them. -/
def evidence (changes : List IndexChange) : List (ℤ × ℤ) :=
  changes.filterMap fun change =>
    (firstAddedOf current symbolChanges change).map fun added => (change.effectiveDate, added)

end Refinement

def isConfirmed (evidence : List (ℤ × ℤ)) (date : ℤ) : Bool :=
  evidence.any fun dates => dates.1 = date ∧ dates.2 - dates.1 = 0

/-- The first-added dates one to four days after a log date. -/
def isCandidate (dates : ℤ × ℤ) : Bool :=
  1 ≤ dates.2 - dates.1 ∧ dates.2 - dates.1 ≤ FIRST_ADDED_REFINEMENT_DAYS

def candidatesOf (evidence : List (ℤ × ℤ)) (date : ℤ) : List ℤ :=
  let dates := (evidence.filter fun dates => dates.1 = date ∧ isCandidate dates).map Prod.snd
  dates.dedup.insertionSort (· ≤ ·)

/-- The effective date a log date's evidence establishes. -/
def refinedOf (evidence : List (ℤ × ℤ)) (date : ℤ) : Option ℤ :=
  match candidatesOf evidence date with
  | [refined] => if isConfirmed evidence date then none else some refined
  | _ => none

def conflictsOf (evidence : List (ℤ × ℤ)) : List ReconstructionAnomaly :=
  let dates := ((evidence.filter isCandidate).map Prod.fst).dedup.insertionSort (· ≤ ·)
  (dates.filter fun date => refinedOf evidence date = none).map fun date =>
    .EFFECTIVE_DATE_CONFLICT date (candidatesOf evidence date) (isConfirmed evidence date)

/-- A change with its effective date refined. -/
structure EffectiveChange extends IndexChange where
  /-- The date the provider's log gives. -/
  logDate : ℤ
  /-- The current list establishes the effective date. -/
  startConfirmed : Bool
  deriving DecidableEq

def effectiveChange (evidence : List (ℤ × ℤ)) (change : IndexChange) : EffectiveChange :=
  { change with
    logDate := change.effectiveDate
    effectiveDate := (refinedOf evidence change.effectiveDate).getD change.effectiveDate
    startConfirmed := (refinedOf evidence change.effectiveDate).isSome
      || isConfirmed evidence change.effectiveDate }

/-- The first day the index certainly held an addition. -/
def additionStart (change : EffectiveChange) : ℤ :=
  if change.startConfirmed then change.effectiveDate else change.effectiveDate + 1

/-! ### Walkers -/

/-- A ticker with the date it began. -/
structure SpanStart where
  ticker : String
  fromDate : Option ℤ
  deriving DecidableEq

structure Walker where
  key : String
  origin : ConstituentOrigin
  name : String
  cik : Option String
  latestTicker : String
  ticker : String
  /-- Every ticker seen, newest first. -/
  spans : List SpanStart
  knownTickers : List String
  openEnd : Option ℤ
  openEndLogDate : Option ℤ
  openEndHash : Option String
  openQuality : IndexMembershipPeriodQuality
  periods : List ReconstructedPeriod
  deriving DecidableEq

def newWalker (key : String) (origin : ConstituentOrigin) (ticker name : String)
    (cik : Option String) (openEnd openEndLogDate : Option ℤ) (openEndHash : Option String) :
    Walker where
  key
  origin
  name
  cik
  latestTicker := ticker
  ticker
  spans := [⟨ticker, none⟩]
  knownTickers := [ticker]
  openEnd
  openEndLogDate
  openEndHash
  openQuality := .CONFIRMED
  periods := []

def currentWalker (member : CurrentConstituent) : Walker :=
  newWalker ("CURRENT:" ++ member.symbol) .CURRENT member.symbol member.name member.cik none none
    none

/-- A text that is there: an empty one is not. -/
def present (text : Option String) : Option String := text.filter (· ≠ "")

/-! ### Matching an addition -/

structure MatchedAddition where
  walker : Walker
  tier : AdditionMatch
  ambiguity : Option ReconstructionAnomaly

def similarity (walker : Walker) (change : EffectiveChange) : ℚ :=
  issuerNameSimilarity (some walker.name) change.addedName

/-- The best name match first, then the lowest key. -/
def compareCandidates (change : EffectiveChange) (left right : Walker) : ℤ :=
  if similarity right change < similarity left change then -1
  else if similarity left change < similarity right change then 1
  else compareText left.key right.key

def tiers (active : List Walker) (change : EffectiveChange) (ticker : String) :
    List (AdditionMatch × List Walker) :=
  [(.EXACT_TICKER, active.filter fun walker => walker.ticker = ticker),
    (.TICKER_HISTORY, active.filter fun walker => ticker ∈ walker.knownTickers),
    (.NAME, active.filter fun walker => INDEX_NAME_MATCH_THRESHOLD ≤ similarity walker change)]

/-- The member of the first tier that has any. -/
def matchAddition (active : List Walker) (change : EffectiveChange) (ticker : String) :
    Option MatchedAddition :=
  ((tiers active change ticker).find? fun tier => tier.2 ≠ []).bind fun (tier, candidates) =>
    let ranked := sortBy (compareCandidates change) candidates
    ranked.head?.map fun chosen =>
      { walker := chosen
        tier
        ambiguity :=
          if 1 < candidates.length then
            some (.AMBIGUOUS_ADDITION change.effectiveDate ticker change.addedName tier
              (ranked.map Walker.key) chosen.key change.contentHash)
          else none }

/-! ### The walk -/

structure Walk where
  active : List Walker
  left : List Walker
  anomalies : List ReconstructionAnomaly
  additionStarts : AdditionStarts

def countStart (change : EffectiveChange) (starts : AdditionStarts) : AdditionStarts :=
  if change.startConfirmed = false then { starts with deferred := starts.deferred + 1 }
  else if change.effectiveDate ≠ change.logDate then { starts with refined := starts.refined + 1 }
  else { starts with confirmed := starts.confirmed + 1 }

/-- The log's own date of an addition, where its start moved away from it. -/
def startLogDate (change : EffectiveChange) : Option ℤ :=
  if change.logDate = additionStart change then none else some change.logDate

def orphanWalker (change : EffectiveChange) (ticker : String) : Walker :=
  { newWalker ("ADDITION:" ++ change.contentHash) .ORPHAN_ADDITION ticker
      (change.addedName.getD ticker) none none none none with
    periods := [{
      startDate := some (additionStart change)
      startLogDate := startLogDate change
      endDate := none
      endLogDate := none
      quality := .END_UNKNOWN
      startChangeHash := some change.contentHash
      endChangeHash := none
      startMatch := none }] }

/-- The period an addition starts. -/
def startedPeriod (walker : Walker) (tier : AdditionMatch) (change : EffectiveChange) :
    ReconstructedPeriod where
  startDate := some (additionStart change)
  startLogDate := startLogDate change
  endDate := walker.openEnd
  endLogDate := walker.openEndLogDate
  quality := walker.openQuality
  startChangeHash := some change.contentHash
  endChangeHash := walker.openEndHash
  startMatch := some tier

/-- No session is left between the start and the open end. -/
def noConfirmedSession (walker : Walker) (change : EffectiveChange) : Bool :=
  ∃ openEnd ∈ walker.openEnd, openEnd < additionStart change

/-- An addition nobody matches: its period is reported, never projected. -/
def Walk.orphan (walk : Walk) (date : ℤ) (change : EffectiveChange) (ticker : String) : Walk :=
  { walk with
    additionStarts := countStart change walk.additionStarts
    anomalies := walk.anomalies
      ++ [.ORPHAN_ADDITION date ticker change.addedName change.contentHash]
    left := walk.left ++ [orphanWalker change ticker] }

/-- A matched addition without a session before the end. -/
def Walk.unconfirmed (walk : Walk) (date : ℤ) (change : EffectiveChange) (ticker : String)
    (matched : MatchedAddition) : Walk where
  active := walk.active.filter fun walker => walker.key ≠ matched.walker.key
  left := walk.left ++ [matched.walker]
  anomalies := walk.anomalies ++ matched.ambiguity.toList
    ++ [.NO_CONFIRMED_SESSION date ticker change.contentHash]
  additionStarts := countStart change walk.additionStarts

/-- A matched addition starts a period. -/
def Walk.started (walk : Walk) (change : EffectiveChange) (matched : MatchedAddition) : Walk where
  active := walk.active.filter fun walker => walker.key ≠ matched.walker.key
  left := walk.left ++ [{ matched.walker with
    periods := matched.walker.periods ++ [startedPeriod matched.walker matched.tier change] }]
  anomalies := walk.anomalies ++ matched.ambiguity.toList
  additionStarts := countStart change walk.additionStarts

/-- Before an addition took effect, the added issuer was not a member. -/
def applyAddition (date : ℤ) (walk : Walk) (change : EffectiveChange) : Walk :=
  match present change.addedTicker with
  | none => walk
  | some ticker =>
    match matchAddition walk.active change ticker with
    | none => walk.orphan date change ticker
    | some matched =>
      if noConfirmedSession matched.walker change then walk.unconfirmed date change ticker matched
      else walk.started change matched

/-- The newest span that is still open begins on the date. -/
def beginSpan (date : ℤ) : List SpanStart → List SpanStart
  | [] => []
  | [span] => [{ span with fromDate := some date }]
  | span :: spans => span :: beginSpan date spans

/-- Before a rename took effect, the renamed issuer traded under its old ticker. -/
def Walker.rename (date : ℤ) (rename : SymbolChange) (walker : Walker) : Walker :=
  if walker.ticker = rename.newSymbol then
    { walker with
      ticker := rename.oldSymbol
      knownTickers := if rename.oldSymbol ∈ walker.knownTickers then walker.knownTickers
        else walker.knownTickers ++ [rename.oldSymbol]
      spans := beginSpan date walker.spans ++ [⟨rename.oldSymbol, none⟩] }
  else walker

def applyRename (date : ℤ) (active : List Walker) (rename : SymbolChange) : List Walker :=
  active.map (Walker.rename date rename)

def removedWalker (date : ℤ) (change : EffectiveChange) (ticker : String) : Walker :=
  newWalker ("REMOVAL:" ++ change.contentHash) .REMOVAL ticker (change.removedName.getD ticker) none
    (some (date - 1)) (if change.logDate = date then none else some (change.logDate - 1))
    (some change.contentHash)

/-- The members that hold a removed ticker. -/
def collisionOf (date : ℤ) (active : List Walker) (change : EffectiveChange) (ticker : String) :
    List ReconstructionAnomaly :=
  let holders := active.filter fun walker => walker.ticker = ticker
  if holders = [] then []
  else [.TICKER_COLLISION date ticker change.removedName (holders.map Walker.key)
    change.contentHash]

/-- Before a removal took effect, the removed issuer was a member. -/
def applyRemoval (date : ℤ) (walk : Walk) (change : EffectiveChange) : Walk :=
  match present change.removedTicker with
  | none => walk
  | some ticker =>
    { walk with
      anomalies := walk.anomalies ++ collisionOf date walk.active change ticker
      active := walk.active ++ [removedWalker date change ticker] }

/-- The renames of one date, in the order they are undone. -/
def crossRenames (date : ℤ) (renames : List SymbolChange) (active : List Walker) : List Walker :=
  renames.foldl (applyRename date) active

/-- One date, backward: its additions, its renames, its removals. -/
def crossDate (changes : List EffectiveChange) (renames : List SymbolChange) (walk : Walk)
    (date : ℤ) : Walk :=
  let dayChanges := changes.filter fun change => change.effectiveDate = date
  let dayRenames := renames.filter fun rename => rename.date = date
  let added := dayChanges.foldl (applyAddition date) walk
  let renamed := { added with active := crossRenames date dayRenames added.active }
  dayChanges.foldl (applyRemoval date) renamed

/-- The dates something happened on, newest first. -/
def walkedDates (changes : List EffectiveChange) (renames : List SymbolChange) : List ℤ :=
  ((changes.map fun change => change.effectiveDate)
    ++ renames.map SymbolChange.date).dedup.insertionSort (· ≥ ·)

/-- Whoever is still a member when the log runs out was one before it began. -/
def beforeLog (walker : Walker) : Walker :=
  { walker with
    periods := walker.periods ++ [{
      startDate := none
      startLogDate := none
      endDate := walker.openEnd
      endLogDate := walker.openEndLogDate
      quality := .START_BEFORE_LOG
      startChangeHash := none
      endChangeHash := walker.openEndHash
      startMatch := none }] }

/-! ### The result -/

/-- A span ends the day before the newer one began. -/
def tickerSpans : Option SpanStart → List SpanStart → List TickerSpan
  | _, [] => []
  | newer, span :: spans =>
    { ticker := span.ticker
      fromDate := span.fromDate
      toDate := (newer.bind SpanStart.fromDate).map (· - 1) } :: tickerSpans (some span) spans

def compareNullableDates : Option ℤ → Option ℤ → ℤ
  | none, none => 0
  | none, some _ => -1
  | some _, none => 1
  | some left, some right => if left < right then -1 else if right < left then 1 else 0

def toConstituent (walker : Walker) : ReconstructedConstituent where
  constituentKey := walker.key
  origin := walker.origin
  ticker := walker.latestTicker
  name := walker.name
  cik := walker.cik
  tickerHistory := tickerSpans none walker.spans
  periods := sortBy (fun left right => compareNullableDates left.startDate right.startDate)
    walker.periods

/-- A first-added date the reconstruction contradicts. -/
def mismatchOf (constituents : List ReconstructedConstituent) (logStart : Option ℤ)
    (member : CurrentConstituent) : Option ReconstructionAnomaly :=
  member.dateFirstAdded.bind fun added =>
    let start := ((constituents.find? fun constituent =>
      constituent.constituentKey = "CURRENT:" ++ member.symbol).bind fun constituent =>
        constituent.periods.head?).bind ReconstructedPeriod.startDate
    let comparable := start.isSome ∨ ∃ first ∈ logStart, first ≤ added
    if comparable ∧ start ≠ some added then some (.FIRST_ADDED_MISMATCH member.symbol added start)
    else none

/-- The `YYYY-MM-DD` of a day number, days from 1970-01-01. -/
def isoDate (day : ℤ) : String :=
  let shifted := day + 719468
  let era := shifted / 146097
  let dayOfEra := shifted % 146097
  let yearOfEra := (dayOfEra - dayOfEra / 1460 + dayOfEra / 36524 - dayOfEra / 146096) / 365
  let dayOfYear := dayOfEra - (365 * yearOfEra + yearOfEra / 4 - yearOfEra / 100)
  let shiftedMonth := (5 * dayOfYear + 2) / 153
  let dayOfMonth := dayOfYear - (153 * shiftedMonth + 2) / 5 + 1
  let month := if shiftedMonth < 10 then shiftedMonth + 3 else shiftedMonth - 9
  let year := yearOfEra + era * 400 + if month ≤ 2 then 1 else 0
  LocalDate.padded 4 year.toNat ++ "-" ++ LocalDate.padded 2 month.toNat ++ "-"
    ++ LocalDate.padded 2 dayOfMonth.toNat

example : isoDate 11016 = "2000-02-29" ∧ isoDate 19709 = "2023-12-18" := by decide +kernel

def AdditionMatch.text : AdditionMatch → String
  | EXACT_TICKER => "EXACT_TICKER"
  | TICKER_HISTORY => "TICKER_HISTORY"
  | NAME => "NAME"

namespace ReconstructionAnomaly

def kind : ReconstructionAnomaly → String
  | ORPHAN_ADDITION .. => "ORPHAN_ADDITION"
  | AMBIGUOUS_ADDITION .. => "AMBIGUOUS_ADDITION"
  | TICKER_COLLISION .. => "TICKER_COLLISION"
  | FUTURE_CHANGE .. => "FUTURE_CHANGE"
  | EFFECTIVE_DATE_CONFLICT .. => "EFFECTIVE_DATE_CONFLICT"
  | FIRST_ADDED_MISMATCH .. => "FIRST_ADDED_MISMATCH"
  | NO_CONFIRMED_SESSION .. => "NO_CONFIRMED_SESSION"

/-- The `date`, or the empty text of an anomaly without one. -/
def dateText : ReconstructionAnomaly → String
  | ORPHAN_ADDITION date .. | AMBIGUOUS_ADDITION date .. | TICKER_COLLISION date ..
  | FUTURE_CHANGE date _ | EFFECTIVE_DATE_CONFLICT date .. | NO_CONFIRMED_SESSION date .. =>
    isoDate date
  | FIRST_ADDED_MISMATCH .. => ""

def textValue (text : String) : Value ℤ := .str (lit text)

def nullable (text : Option String) : Value ℤ := text.elim .null textValue

def texts (items : List String) : Value ℤ := .arr (items.map textValue)

def dateValue (date : ℤ) : Value ℤ := textValue (isoDate date)

/-- The fields, in the order the source writes them. -/
def fields (anomaly : ReconstructionAnomaly) : List (String × Value ℤ) :=
  ("kind", textValue anomaly.kind) :: match anomaly with
  | ORPHAN_ADDITION date ticker name changeHash =>
    [("date", dateValue date), ("ticker", textValue ticker), ("name", nullable name),
      ("changeHash", textValue changeHash)]
  | AMBIGUOUS_ADDITION date ticker name tier candidates chosen changeHash =>
    [("date", dateValue date), ("ticker", textValue ticker), ("name", nullable name),
      ("tier", textValue tier.text), ("candidates", texts candidates), ("chosen", textValue chosen),
      ("changeHash", textValue changeHash)]
  | TICKER_COLLISION date ticker removedName activeConstituents changeHash =>
    [("date", dateValue date), ("ticker", textValue ticker), ("removedName", nullable removedName),
      ("activeConstituents", texts activeConstituents), ("changeHash", textValue changeHash)]
  | FUTURE_CHANGE date changeHash =>
    [("date", dateValue date), ("changeHash", textValue changeHash)]
  | EFFECTIVE_DATE_CONFLICT date candidates logDateConfirmed =>
    [("date", dateValue date), ("candidates", .arr (candidates.map dateValue)),
      ("logDateConfirmed", .bool logDateConfirmed)]
  | FIRST_ADDED_MISMATCH ticker providerDateFirstAdded reconstructedStart =>
    [("ticker", textValue ticker), ("providerDateFirstAdded", dateValue providerDateFirstAdded),
      ("reconstructedStart", reconstructedStart.elim .null dateValue)]
  | NO_CONFIRMED_SESSION date ticker changeHash =>
    [("date", dateValue date), ("ticker", textValue ticker), ("changeHash", textValue changeHash)]

/-- `JSON.stringify`. -/
def json (anomaly : ReconstructionAnomaly) : Text :=
  stringify (.obj (anomaly.fields.map fun field => (lit field.1, field.2)))

end ReconstructionAnomaly

def compareAnomalies (left right : ReconstructionAnomaly) : ℤ :=
  if compareText left.kind right.kind ≠ 0 then compareText left.kind right.kind
  else if compareText left.dateText right.dateText ≠ 0 then compareText left.dateText right.dateText
  else if left.json < right.json then -1 else if right.json < left.json then 1 else 0

/-- The applied changes, in canonical order. -/
def appliedChanges (input : ReconstructionInput) : List EffectiveChange :=
  let changes := dedupeChanges input.changes
  (changes.map (effectiveChange (evidence input.current input.symbolChanges changes))).filter
    fun change => change.effectiveDate ≤ input.asOf

def appliedRenames (input : ReconstructionInput) : List SymbolChange :=
  sortBy compareRenames (input.symbolChanges.filter fun rename => rename.date ≤ input.asOf)

/-- The anomalies known before the walk. -/
def openingAnomalies (input : ReconstructionInput) : List ReconstructionAnomaly :=
  let changes := dedupeChanges input.changes
  let dated := evidence input.current input.symbolChanges changes
  conflictsOf dated
    ++ ((changes.map (effectiveChange dated)).filter fun change =>
        input.asOf < change.effectiveDate).map fun change =>
          .FUTURE_CHANGE change.effectiveDate change.contentHash

/-- The walk before its first date: the current members, by symbol. -/
def openingWalk (input : ReconstructionInput) : Walk where
  active := (sortBy (fun left right => compareText left.symbol right.symbol) input.current).map
    currentWalker
  left := []
  anomalies := openingAnomalies input
  additionStarts := ⟨0, 0, 0⟩

/-- The walk to the start of the log. -/
def walkBack (input : ReconstructionInput) : Walk :=
  (walkedDates (appliedChanges input) (appliedRenames input)).foldl
    (crossDate (appliedChanges input) (appliedRenames input)) (openingWalk input)

/-- The constituents of a finished walk. -/
def constituentsOf (walk : Walk) : List ReconstructedConstituent :=
  sortBy (fun left right => compareText left.constituentKey right.constituentKey)
    (((walk.left ++ walk.active.map beforeLog).filter fun walker =>
      0 < walker.periods.length).map toConstituent)

/-- **The reconstruction.** -/
def reconstructIndexMembership (input : ReconstructionInput) : ReconstructionResult :=
  let walk := walkBack input
  let logStart := ((appliedChanges input).map fun change => change.effectiveDate).min?
  let constituents := constituentsOf walk
  { algorithmVersion := INDEX_RECONSTRUCTION_ALGORITHM_VERSION
    logStart
    additionStarts := walk.additionStarts
    constituents
    anomalies := sortBy compareAnomalies
      (walk.anomalies ++ input.current.filterMap (mismatchOf constituents logStart)) }

end FactorSage.IndexMembership
