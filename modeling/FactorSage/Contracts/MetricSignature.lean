import FactorSage.Contracts.AlternativeData
import FactorSage.Library.NumericLiteral
import FactorSage.Library.SeparatedFields

/-!
# The signature of a disclosure metric

The disclosure metrics as a document holds them, with the ids, the serialization they are keyed by,
the reader of that serialization, the canonical form a document is stored in, and the part of the
validator that admits them. Strings are lists of 16-bit code units.

A metric's measure is a string here: the registry of measures is a table read by name, and a name
every object inherits is found in it as well.
-/

namespace FactorSage.MetricSignature

open JsonText JsonInteger

local instance lawfulText : LawfulBEq Text := inferInstance

/-! ### Vocabulary -/

def INSIDER_ROLES : List InsiderRole :=
  [.ceo, .cfo, .coo, .president, .chairman, .director, .officer, .tenPercentOwner, .other]

def CONGRESS_OWNERS : List CongressOwner :=
  [.self, .spouse, .joint, .child, .dependent, .other, .unspecified]

def CONGRESS_CHAMBER_FILTERS : List CongressChamberFilter := [.any, .house, .senate]

def ALTERNATIVE_DATA_LOOKBACKS : List ℕ := [5, 10, 20, 30, 60, 90, 120, 180, 250]

def ACTOR_SCOPE_MAX_ACTORS : ℕ := 250

def roleText (role : InsiderRole) : Text := lit role.name

def ownerText (owner : CongressOwner) : Text := lit owner.name

def chamberText (chamber : CongressChamberFilter) : Text := lit chamber.name

inductive AlternativeDataMetricKind where
  | insiderActivity | congressActivity
  deriving DecidableEq

def AlternativeDataMetricKind.text : AlternativeDataMetricKind → Text
  | .insiderActivity => lit "INSIDER_ACTIVITY"
  | .congressActivity => lit "CONGRESS_ACTIVITY"

def INSIDER_MEASURES : List InsiderMeasure := [.buyers, .sellers, .purchaseValue, .saleValue]

def CONGRESS_MEASURES : List CongressMeasure :=
  [.purchases, .sales, .buyers, .sellers, .minimumPurchaseValue]

/-- The measures of a kind. -/
def alternativeDataMeasures : AlternativeDataMetricKind → List Text
  | .insiderActivity => INSIDER_MEASURES.map fun measure => lit measure.name
  | .congressActivity => CONGRESS_MEASURES.map fun measure => lit measure.name

/-- Whether the table of a kind's measures, a plain object, yields something at a name. -/
def findAlternativeDataMeasure (kind : AlternativeDataMetricKind) (measure : Text) : Bool :=
  measure ∈ alternativeDataMeasures kind ∨ measure ∈ objectPrototypeNames.map lit

/-! ### Metrics -/

/-- Whose activity a metric counts. `actor` and `group` are the legacy shapes. -/
inductive ActorScope where
  | any
  | actors (actorIds : List Text)
  | actor (actorId : Text)
  | group (groupId : Text)
  deriving DecidableEq

inductive AlternativeDataMetric where
  | insiderActivity (measure : Text) (lookback : ℕ) (roles : Option (List InsiderRole))
  | congressActivity (measure : Text) (lookback : ℕ) (scope : ActorScope)
      (chamber : CongressChamberFilter) (owners : Option (List CongressOwner))
  deriving DecidableEq

/-- The order `sort` leaves strings in: by code units. -/
def compareUnits (left right : Text) : ℤ := if left < right then -1 else if right < left then 1 else 0

/-- Distinct actor ids, sorted by code unit. -/
def canonicalActorIds (actorIds : List Text) : List Text :=
  ComparatorSort.sortBy compareUnits actorIds.dedup

/-- The ids a scope selects, or `none` when it selects by something else. -/
def actorScopeActorIds : ActorScope → Option (List Text)
  | .actors actorIds => some (canonicalActorIds actorIds)
  | .actor actorId => some [actorId]
  | .any | .group _ => none

/-! ### Signature -/

/-- Fields joined by a separator. -/
def joinWith (separator : ℕ) (fields : List Text) : Text := [separator].intercalate fields

/-- `|`, which joins the fields of a signature. -/
def fieldSeparator : ℕ := 124

/-- `ACTOR_ID_SEPARATOR`: `+`, which joins ids and the values of a filter. -/
def actorIdSeparator : ℕ := 43

def ACTOR_SIGNATURE_PREFIX : Text := lit "actor:"

def ACTORS_SIGNATURE_PREFIX : Text := lit "actors:"

def GROUP_SIGNATURE_PREFIX : Text := lit "group:"

/-- Text that may be an actor id: not empty, without white space and without either separator. -/
def isActorScopeId (value : Text) : Bool :=
  value ≠ [] ∧ value.all fun u =>
    !(NumericLiteral.isWhitespace u ∨ u = fieldSeparator ∨ u = actorIdSeparator)

/-- One scope's part of a signature. -/
def scopeSignature (scope : ActorScope) : Except Text Text :=
  match scope with
  | .any => .ok (lit "any")
  | .group groupId => .ok (GROUP_SIGNATURE_PREFIX ++ groupId)
  | scope =>
    match (actorScopeActorIds scope).getD [] with
    | [] => .error (lit "An actor scope must select at least one actor")
    | [actorId] => .ok (ACTOR_SIGNATURE_PREFIX ++ actorId)
    | actorIds => .ok (ACTORS_SIGNATURE_PREFIX ++ joinWith actorIdSeparator actorIds)

/-- A filter's part of a signature: `-` when absent, else its values in vocabulary order. -/
def filterText {α : Type} [DecidableEq α] (allowed : List α) (text : α → Text) :
    Option (List α) → Text
  | none => lit "-"
  | some values =>
    joinWith actorIdSeparator ((ComparatorSort.sortBy
      (fun left right => (allowed.idxOf left : ℤ) - allowed.idxOf right) values).map text)

/-- The fields of a metric, its scope serialized by a given function. -/
def metricSignature (metric : AlternativeDataMetric) (serializeScope : ActorScope → Except Text Text) :
    Except Text Text :=
  match metric with
  | .insiderActivity measure lookback roles =>
    .ok (joinWith fieldSeparator
      [lit "INSIDER_ACTIVITY", measure, naturalText lookback, lit "-",
        filterText INSIDER_ROLES roleText roles])
  | .congressActivity measure lookback scope chamber owners =>
    (serializeScope scope).map fun scopeText =>
      joinWith fieldSeparator
        [lit "CONGRESS_ACTIVITY", measure, naturalText lookback, scopeText, chamberText chamber,
          filterText CONGRESS_OWNERS ownerText owners]

def alternativeDataMetricSignature (metric : AlternativeDataMetric) : Except Text Text :=
  metricSignature metric scopeSignature

/-! ### Reading a signature -/

/-- The kind with a name. -/
def kindOf (t : Text) : Option AlternativeDataMetricKind :=
  [AlternativeDataMetricKind.insiderActivity, .congressActivity].find? (·.text = t)

/-- The lookback a text denotes, when it is one of the presets. -/
def lookbackOf (t : Text) : Option ℕ :=
  ALTERNATIVE_DATA_LOOKBACKS.find? fun lookback => NumericLiteral.numberOf t = some (lookback : ℚ)

/-- The value of a vocabulary with a name. -/
def valueOf {α : Type} (allowed : List α) (text : α → Text) (t : Text) : Option α :=
  allowed.find? (text · = t)

/-- A filter: absent, or values of its vocabulary; `none` is `INVALID`. -/
def filterList {α : Type} (allowed : List α) (text : α → Text) (raw : Text) :
    Option (Option (List α)) :=
  if raw = lit "-" then some none
  else ((raw.splitOn actorIdSeparator).mapM (valueOf allowed text)).map some

/-- What follows a prefix. -/
def after (pre t : Text) : Option Text := if pre.isPrefixOf t then some (t.drop pre.length) else none

/-- The ids of a multi-actor scope, in the one form the serializer writes. -/
def readActorIds (t : Text) : Option ActorScope :=
  let actorIds := t.splitOn actorIdSeparator
  if actorIds.length < 2 ∨ ACTOR_SCOPE_MAX_ACTORS < actorIds.length
      ∨ ¬ actorIds.all isActorScopeId
      ∨ joinWith actorIdSeparator (canonicalActorIds actorIds) ≠ joinWith actorIdSeparator actorIds
  then none
  else some (.actors actorIds)

/-- A scope. A single actor reads back in the canonical shape, whichever shape wrote it. -/
def readScope (rawScope : Text) : Option ActorScope :=
  if rawScope = lit "any" then some .any
  else
    match after ACTOR_SIGNATURE_PREFIX rawScope with
    | some actorId => if actorId = [] then none else some (.actors [actorId])
    | none =>
      match after ACTORS_SIGNATURE_PREFIX rawScope with
      | some actorIds => readActorIds actorIds
      | none =>
        match after GROUP_SIGNATURE_PREFIX rawScope with
        | some groupId => if groupId = [] then none else some (.group groupId)
        | none => none

/-- The fields behind the lookback of an insider metric. -/
def readInsider (measure : Text) (lookback : ℕ) : List Text → Option AlternativeDataMetric
  | [rawScope, rawRoles] =>
    if rawScope = lit "-" then
      (filterList INSIDER_ROLES roleText rawRoles).map (.insiderActivity measure lookback)
    else none
  | _ => none

/-- The fields behind the lookback of a Congress metric. -/
def readCongress (measure : Text) (lookback : ℕ) : List Text → Option AlternativeDataMetric
  | [rawScope, rawChamber, rawOwners] => do
    let scope ← readScope rawScope
    let chamber ← valueOf CONGRESS_CHAMBER_FILTERS chamberText rawChamber
    let owners ← filterList CONGRESS_OWNERS ownerText rawOwners
    return .congressActivity measure lookback scope chamber owners
  | _ => none

/-- A metric from its fields. -/
def readFields : List Text → Option AlternativeDataMetric
  | rawKind :: measure :: rawLookback :: rest => do
    let kind ← kindOf rawKind
    guard (findAlternativeDataMeasure kind measure)
    let lookback ← lookbackOf rawLookback
    match kind with
    | .insiderActivity => readInsider measure lookback rest
    | .congressActivity => readCongress measure lookback rest
  | _ => none

def parseAlternativeDataMetricSignature (signature : Text) : Option AlternativeDataMetric :=
  readFields (signature.splitOn fieldSeparator)

/-! ### Canonical form -/

/-- A scope as a document is stored with it: a legacy single actor is a selection of one. -/
def buildScope : ActorScope → ActorScope
  | .any => .any
  | .group groupId => .group groupId
  | scope => .actors ((actorScopeActorIds scope).getD [])

/-- A metric with every filter in vocabulary order. -/
def buildAlternativeDataMetric : AlternativeDataMetric → AlternativeDataMetric
  | .insiderActivity measure lookback roles =>
    .insiderActivity measure lookback
      (roles.map fun roles => INSIDER_ROLES.filter (· ∈ roles))
  | .congressActivity measure lookback scope chamber owners =>
    .congressActivity measure lookback (buildScope scope) chamber
      (owners.map fun owners => CONGRESS_OWNERS.filter (· ∈ owners))

/-! ### Validation -/

inductive StrategyValidationCode where
  | unknownField | measureUnsupported | lookbackUnsupported | scopeInvalid | filterInvalid
  deriving DecidableEq

structure StrategyValidationIssue (P : Type) where
  code : StrategyValidationCode
  path : P
  message : Text
  deriving DecidableEq

/-- What a step of the validator finds: the issues it adds, and its result. -/
abbrev Validation (P α : Type) := List (StrategyValidationIssue P) × Option α

section Validation

variable {N P : Type} [JsonNumber N] (string : Option (Value N) → Text) (path : P)

def issue (code : StrategyValidationCode) (message : Text) : StrategyValidationIssue P :=
  { code, path, message }

/-- One issue and no result. -/
def refuse {α : Type} (code : StrategyValidationCode) (message : Text) : Validation P α :=
  ([issue path code message], none)

/-- An issue for each field that is not part of the document. -/
def rejectUnknownKeys (fields : List (Text × Value N)) (allowed : List Text) :
    List (StrategyValidationIssue P) :=
  ((fields.map Prod.fst).filter (· ∉ allowed)).map fun key =>
    issue path .unknownField (lit "`" ++ key ++ lit "` is not part of a strategy.")

/-- The entries of a filter list, each value once; the first that is none of the vocabulary ends the
list. -/
def enumEntries {α : Type} [DecidableEq α] (allowed : List α) (text : α → Text) (noun : Text) :
    List (Value N) → List α → Validation P (List α)
  | [], values => ([], some values)
  | entry :: rest, values =>
    let found := match entry with
      | .str t => valueOf allowed text t
      | _ => none
    match found with
    | none =>
      refuse path .filterInvalid (lit "`" ++ string (some entry) ++ lit "` is not a " ++ noun
        ++ lit " this product recognizes.")
    | some value =>
      enumEntries allowed text noun rest (if value ∈ values then values else values ++ [value])

/-- An optional filter: absent, or a list of at least one value. -/
def parseEnumFilter {α : Type} [DecidableEq α] (allowed : List α) (text : α → Text) (noun : Text)
    (raw : Option (Value N)) : Validation P (Option (List α)) :=
  match raw with
  | none => ([], some none)
  | some (.arr (entry :: rest)) =>
    let parsed := enumEntries string path allowed text noun (entry :: rest) []
    (parsed.1, parsed.2.map some)
  | some _ =>
    refuse path .filterInvalid (lit "A " ++ noun
      ++ lit " filter must list at least one value; leave it out to include every " ++ noun
      ++ lit ".")

/-- The ids of a list of strings; `none` where an entry is no id. -/
def idsOf (entries : List (Value N)) : Option (List Text) :=
  entries.mapM fun entry =>
    match entry with
    | .str t => if isActorScopeId t then some t else none
    | _ => none

/-- The list of an `ACTORS` scope. -/
def parseActorSelection (raw : Option (Value N)) : Validation P ActorScope :=
  match raw with
  | some (.arr (entry :: rest)) =>
    match idsOf (entry :: rest) with
    | none =>
      refuse path .scopeInvalid (lit "A selected member of Congress is not a valid identifier.")
    | some ids =>
      if ACTOR_SCOPE_MAX_ACTORS < (canonicalActorIds ids).length then
        refuse path .scopeInvalid (lit "A rule can select at most 250 members of Congress.")
      else ([], some (.actors (canonicalActorIds ids)))
  | _ =>
    refuse path .scopeInvalid (lit "Choose at least one member of Congress, or count every member.")

/-- Text with something beside white space. -/
def isNotBlank (t : Text) : Bool := NumericLiteral.trim t ≠ []

/-- A legacy scope, which names one id in a field. -/
def parseLegacyId (field message : Text) (make : Text → ActorScope) (fields : List (Text × Value N)) :
    Validation P ActorScope :=
  match property? fields field with
  | some (.str id) => if isNotBlank id then ([], some (make id)) else refuse path .scopeInvalid message
  | _ => refuse path .scopeInvalid message

/-- Issues found before a step. -/
def withIssues {α : Type} (issues : List (StrategyValidationIssue P)) (parsed : Validation P α) :
    Validation P α :=
  (issues ++ parsed.1, parsed.2)

def parseActorScope (raw : Option (Value N)) : Validation P ActorScope :=
  match raw with
  | some (.obj fields) =>
    match property? fields (lit "kind") with
    | some (.str kind) =>
      if kind = lit "ANY" then
        withIssues (rejectUnknownKeys path fields [lit "kind"]) ([], some .any)
      else if kind = lit "ACTORS" then
        withIssues (rejectUnknownKeys path fields [lit "kind", lit "actorIds"])
          (parseActorSelection path (property? fields (lit "actorIds")))
      else if kind = lit "ACTOR" then
        withIssues (rejectUnknownKeys path fields [lit "kind", lit "actorId"])
          (parseLegacyId path (lit "actorId") (lit "Choose the actor this rule counts.") .actor fields)
      else if kind = lit "GROUP" then
        withIssues (rejectUnknownKeys path fields [lit "kind", lit "groupId"])
          (parseLegacyId path (lit "groupId") (lit "Choose the group this rule counts.") .group fields)
      else
        refuse path .scopeInvalid (lit "`" ++ kind ++ lit "` is not a kind of scope.")
    | kind => refuse path .scopeInvalid (lit "`" ++ string kind ++ lit "` is not a kind of scope.")
  | _ => refuse path .scopeInvalid (lit "Choose whose activity this rule counts.")

/-- The category of a kind, in lower case. -/
def categoryText : AlternativeDataMetricKind → Text
  | .insiderActivity => lit "insider activity"
  | .congressActivity => lit "congressional trading"

/-- The measure, when the registry has it. -/
def parseMeasure (kind : AlternativeDataMetricKind) (fields : List (Text × Value N)) :
    Validation P Text :=
  let refused := refuse path .measureUnsupported (lit "`" ++ string (property? fields (lit "measure"))
    ++ lit "` is not a " ++ categoryText kind ++ lit " measure.")
  match property? fields (lit "measure") with
  | some (.str measure) =>
    if findAlternativeDataMeasure kind measure then ([], some measure) else refused
  | _ => refused

/-- The lookback, when it is a preset. -/
def parseLookback (fields : List (Text × Value N)) : Validation P ℕ :=
  let refused := refuse path .lookbackUnsupported
    (lit "A lookback must be one of the 5, 10, 20, 30, 60, 90, 120, 180, 250 session windows.")
  match property? fields (lit "lookback") with
  | some (.num number) =>
    match ALTERNATIVE_DATA_LOOKBACKS.find? fun (lookback : ℕ) =>
        safeInteger? number = some (lookback : ℤ) with
    | some lookback => ([], some lookback)
    | none => refused
  | _ => refused

def parseChamber (fields : List (Text × Value N)) : Validation P CongressChamberFilter :=
  let refused := refuse path .filterInvalid (lit "A chamber must be one of ANY, HOUSE, SENATE.")
  match property? fields (lit "chamber") with
  | some (.str rawChamber) =>
    match valueOf CONGRESS_CHAMBER_FILTERS chamberText rawChamber with
    | some chamber => ([], some chamber)
    | none => refused
  | _ => refused

/-- One step after another, the second only when the first has a result. -/
def andThen {α β : Type} (first : Validation P α) (next : α → Validation P β) : Validation P β :=
  match first.2 with
  | some value => withIssues first.1 (next value)
  | none => (first.1, none)

/-- One disclosure metric's measure and configuration. -/
def parseAlternativeDataMetric (kind : AlternativeDataMetricKind) (fields : List (Text × Value N)) :
    Validation P AlternativeDataMetric :=
  andThen (parseMeasure string path kind fields) fun measure =>
  andThen (parseLookback path fields) fun lookback =>
  match kind with
  | .insiderActivity =>
    andThen (parseEnumFilter string path INSIDER_ROLES roleText (lit "insider role")
      (property? fields (lit "roles"))) fun roles =>
    ([], some (.insiderActivity measure lookback roles))
  | .congressActivity =>
    andThen (parseActorScope string path (property? fields (lit "scope"))) fun scope =>
    andThen (parseChamber path fields) fun chamber =>
    andThen (parseEnumFilter string path CONGRESS_OWNERS ownerText (lit "disclosed owner")
      (property? fields (lit "owners"))) fun owners =>
    ([], some (.congressActivity measure lookback scope chamber owners))

end Validation

end FactorSage.MetricSignature
