import FactorSage.Library.CodeUnits
import FactorSage.Library.ComparatorSort

/-!
# Alternative-data metrics

The two disclosure metrics of the Strategy language — their measure, lookback, actor scope and
filters — and the canonical serialization a projected frame column is keyed by.

An `ACTORS` scope is serialized only when it selects somebody, so the selection carries its own
non-emptiness.
-/

namespace FactorSage

/-- The insider roles, in the order filters are serialized. -/
inductive InsiderRole where
  | ceo | cfo | coo | president | chairman | director | officer | tenPercentOwner | other
  deriving DecidableEq

/-- The persisted name of a role. -/
def InsiderRole.name : InsiderRole → String
  | .ceo => "CEO"
  | .cfo => "CFO"
  | .coo => "COO"
  | .president => "PRESIDENT"
  | .chairman => "CHAIRMAN"
  | .director => "DIRECTOR"
  | .officer => "OFFICER"
  | .tenPercentOwner => "TEN_PERCENT_OWNER"
  | .other => "OTHER"

/-- The owners a disclosure may name, in the order filters are serialized. -/
inductive CongressOwner where
  | self | spouse | joint | child | dependent | other | unspecified
  deriving DecidableEq

/-- The persisted name of an owner. -/
def CongressOwner.name : CongressOwner → String
  | .self => "SELF"
  | .spouse => "SPOUSE"
  | .joint => "JOINT"
  | .child => "CHILD"
  | .dependent => "DEPENDENT"
  | .other => "OTHER"
  | .unspecified => "UNSPECIFIED"

/-- Which chamber a Congress metric counts. -/
inductive CongressChamberFilter where
  | any | house | senate
  deriving DecidableEq

/-- The persisted name of a chamber filter. -/
def CongressChamberFilter.name : CongressChamberFilter → String
  | .any => "ANY"
  | .house => "HOUSE"
  | .senate => "SENATE"

/-- What an insider metric counts. -/
inductive InsiderMeasure where
  | buyers | sellers | purchaseValue | saleValue
  deriving DecidableEq

/-- The persisted name of a measure. -/
def InsiderMeasure.name : InsiderMeasure → String
  | .buyers => "BUYERS"
  | .sellers => "SELLERS"
  | .purchaseValue => "PURCHASE_VALUE"
  | .saleValue => "SALE_VALUE"

/-- What a Congress metric counts. -/
inductive CongressMeasure where
  | purchases | sales | buyers | sellers | minimumPurchaseValue
  deriving DecidableEq

/-- The persisted name of a measure. -/
def CongressMeasure.name : CongressMeasure → String
  | .purchases => "PURCHASES"
  | .sales => "SALES"
  | .buyers => "BUYERS"
  | .sellers => "SELLERS"
  | .minimumPurchaseValue => "MINIMUM_PURCHASE_VALUE"

/-- Whose activity a Congress metric counts. `actor` and `group` are the legacy shapes. -/
inductive ActorScope where
  | any
  | actors (actorIds : List String) (selects : actorIds ≠ [])
  | actor (actorId : String)
  | group (groupId : String)

/-- Insider activity over a lookback of trading sessions. `roles` is absent when every role
counts. -/
structure InsiderActivityMetric where
  measure : InsiderMeasure
  lookback : ℕ
  roles : Option (List InsiderRole)

/-- Congress activity over a lookback of trading sessions. `owners` is absent when every owner
counts. -/
structure CongressActivityMetric where
  measure : CongressMeasure
  lookback : ℕ
  scope : ActorScope
  chamber : CongressChamberFilter
  owners : Option (List CongressOwner)

/-- Distinct actor ids, sorted by code unit. -/
def canonicalActorIds (actorIds : List String) : List String :=
  ComparatorSort.sortBy (fun left right => if CodeUnits.codeUnitLt left right then -1 else 1)
    actorIds.dedup

/-- The ids a scope selects, or `none` when it selects by something else. -/
def actorScopeActorIds : ActorScope → Option (List String)
  | .actors actorIds _ => some (canonicalActorIds actorIds)
  | .actor actorId => some [actorId]
  | .any | .group _ => none

/-- One scope's part of a signature. A selection of exactly one actor reads as the legacy
`actor:<id>`, whichever shape holds it. -/
def scopeSignature : ActorScope → String
  | .any => "any"
  | .group groupId => "group:" ++ groupId
  | scope =>
    match (actorScopeActorIds scope).getD [] with
    | [actorId] => "actor:" ++ actorId
    | actorIds => "actors:" ++ "+".intercalate actorIds

/-- A filter's part of a signature: `-` when absent, else its names in canonical order. -/
def filterSignature {α : Type} (rank : α → ℕ) (name : α → String) : Option (List α) → String
  | none => "-"
  | some values =>
    "+".intercalate
      ((ComparatorSort.sortBy (fun left right => (rank left : ℤ) - rank right) values).map name)

/-- The position of a role in `INSIDER_ROLES`. -/
def InsiderRole.rank (role : InsiderRole) : ℕ := role.ctorIdx

/-- The position of an owner in `CONGRESS_OWNERS`. -/
def CongressOwner.rank (owner : CongressOwner) : ℕ := owner.ctorIdx

/-- `alternativeDataMetricSignature` of an insider metric. -/
def InsiderActivityMetric.signature (metric : InsiderActivityMetric) : String :=
  "|".intercalate ["INSIDER_ACTIVITY", metric.measure.name, toString metric.lookback, "-",
    filterSignature InsiderRole.rank InsiderRole.name metric.roles]

/-- `alternativeDataMetricSignature` of a Congress metric. -/
def CongressActivityMetric.signature (metric : CongressActivityMetric) : String :=
  "|".intercalate ["CONGRESS_ACTIVITY", metric.measure.name, toString metric.lookback,
    scopeSignature metric.scope, metric.chamber.name,
    filterSignature CongressOwner.rank CongressOwner.name metric.owners]

end FactorSage
