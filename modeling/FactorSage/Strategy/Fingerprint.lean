import FactorSage.Contracts.Digest
import FactorSage.Library.JsonRoundTrip
import FactorSage.Strategy.OperandKeys

/-!
# Strategy fingerprints

What a Strategy's logic is identified by: a JSON text with every id left out, and every disclosure
metric in the form its signature has, but for a selection of several actors, which is its size and
the digest of its ids.

* `logic` — a definition with its ids erased and its disclosure metrics in canonical form.
* `strategyDefinitionFingerprint_eq_iff` — two definitions share a fingerprint exactly when they
  share their logic, if no two of their selections share a digest.
-/

namespace FactorSage

open JsonText JsonInteger Digest

/-! ### Disclosure metrics -/

/-- The code units of a string. -/
def utf16 (text : String) : List UInt16 := (CodeUnits.codeUnits text).map UInt16.ofNat

/-- What the digest of a selection is over. -/
def selectionText (actorIds : List String) : List UInt16 := utf16 ("+".intercalate actorIds)

/-- One scope's part of a fingerprint. -/
def scopeFingerprint (scope : ActorScope) : String :=
  match actorScopeActorIds scope with
  | some actorIds =>
    if 1 < actorIds.length then
      "actors:" ++ toString actorIds.length ++ ":" ++ sha256Hex (selectionText actorIds)
    else scopeSignature scope
  | none => scopeSignature scope

/-- `alternativeDataMetricFingerprint` of an insider metric, which has no scope. -/
def InsiderActivityMetric.fingerprint (metric : InsiderActivityMetric) : String := metric.signature

/-- `alternativeDataMetricFingerprint` of a Congress metric. -/
def CongressActivityMetric.fingerprint (metric : CongressActivityMetric) : String :=
  "|".intercalate ["CONGRESS_ACTIVITY", metric.measure.name, toString metric.lookback,
    scopeFingerprint metric.scope, metric.chamber.name,
    filterSignature CongressOwner.rank CongressOwner.name metric.owners]

theorem canonicalActorIds_ne_nil {actorIds : List String} (h : actorIds ≠ []) :
    canonicalActorIds actorIds ≠ [] := by
  obtain ⟨id, hid⟩ := List.exists_mem_of_ne_nil _ h
  exact List.ne_nil_of_mem (ComparatorSort.mem_sortBy.mpr (List.mem_dedup.mpr hid))

/-- A scope in canonical form: a legacy single actor is a selection of one. -/
def ActorScope.build : ActorScope → ActorScope
  | .any => .any
  | .group groupId => .group groupId
  | .actor actorId => .actors [actorId] (List.cons_ne_nil _ _)
  | .actors actorIds selects => .actors (canonicalActorIds actorIds) (canonicalActorIds_ne_nil selects)

/-- `buildAlternativeDataMetric` of an insider metric. -/
def InsiderActivityMetric.build (metric : InsiderActivityMetric) : InsiderActivityMetric :=
  { metric with roles := metric.roles.map fun roles =>
      MetricSignature.INSIDER_ROLES.filter roles.contains }

/-- `buildAlternativeDataMetric` of a Congress metric. -/
def CongressActivityMetric.build (metric : CongressActivityMetric) : CongressActivityMetric :=
  { metric with
    scope := metric.scope.build
    owners := metric.owners.map fun owners =>
      MetricSignature.CONGRESS_OWNERS.filter owners.contains }

/-! ### The value of a Signal -/

section Values

variable {N : Type} [JsonNumber N]

/-- A string of the source. -/
def jsonText (s : String) : Value N := .str (lit s)

/-- A metric, its source apart. -/
def metricBase : StrategyMetric → List (Value N)
  | .relativeVolume period _ => [jsonText "RELATIVE_VOLUME", .null, .num (ofInt period)]
  | .fundamental metricId => [jsonText "FUNDAMENTAL", .null, jsonText metricId.id]
  | .valuationRatio ratioId => [jsonText "VALUATION_RATIO", .null, jsonText ratioId.id]
  | .insiderActivity metric => [jsonText "INSIDER_ACTIVITY", .null, jsonText metric.fingerprint]
  | .congressActivity metric => [jsonText "CONGRESS_ACTIVITY", .null, jsonText metric.fingerprint]
  | .movingAverage seriesId _ => [jsonText "MOVING_AVERAGE", jsonText seriesId.id]
  | .oscillator seriesId _ => [jsonText "OSCILLATOR", jsonText seriesId.id]
  | .marginOfSafety sourceId => [jsonText "MARGIN_OF_SAFETY", jsonText sourceId.id]
  | .price _ => [jsonText "PRICE", .null]
  | .gain => [jsonText "GAIN", .null]
  | .loss => [jsonText "LOSS", .null]

/-- The element a source appends. -/
def sourceText : StrategyMetricSource → String
  | .etf code => "etf:" ++ code.code
  | .stockSector => "stock-sector"

def metricValueOf (metric : StrategyMetric) : Value N :=
  .arr (metricBase metric ++ ((strategyMetricSource metric).map fun source =>
    jsonText (sourceText source)).toList)

def operandValueOf : StrategyValue N → Value N
  | .series seriesId => .arr [jsonText "SERIES", jsonText seriesId.id]
  | .number value => .arr [jsonText "NUMBER", .num value]
  | .percent value => .arr [jsonText "PERCENT", .num value]
  | .multiple value => .arr [jsonText "MULTIPLE", .num value]
  | .money value => .arr [jsonText "MONEY", .num value]

def ConditionOperator.name : ConditionOperator → String
  | .isAbove => "IS_ABOVE"
  | .isBelow => "IS_BELOW"
  | .isCloseTo => "IS_CLOSE_TO"

def TriggerOperator.name : TriggerOperator → String
  | .crossesAbove => "CROSSES_ABOVE"
  | .crossesBelow => "CROSSES_BELOW"

/-- The value of a condition or of a trigger. -/
def predicateValue (metric : StrategyMetric) (operator : String) (value : StrategyValue N) : Value N :=
  .arr [metricValueOf metric, jsonText operator, operandValueOf value]

def conditionValue (condition : StrategyCondition N) : Value N :=
  predicateValue condition.metric condition.operator.name condition.value

def triggerValue (trigger : StrategyTrigger N) : Value N :=
  predicateValue trigger.metric trigger.operator.name trigger.value

/-- The id-free value of a Signal. -/
def signalFingerprintValue (signal : StrategySignal N) : Value N :=
  .arr [.arr (signal.conditions.map conditionValue), signal.trigger.elim .null triggerValue]

/-- The id-free value of a FINAL EXIT: one rule is the Signal it is. -/
def finalExitFingerprintValue (finalExit : StrategyFinalExit N) : Value N :=
  match finalExit.rules.map fun rule => signalFingerprintValue rule.signal with
  | [rule] => rule
  | rules => .arr [jsonText "OR", .arr rules]

/-- `STRATEGY_FINGERPRINT_VERSION`. -/
def STRATEGY_FINGERPRINT_VERSION : ℕ := 1

/-- The value of a level. -/
def levelValue (percentage : ℕ) (signal : StrategySignal N) : Value N :=
  .arr [.num (ofInt percentage), signalFingerprintValue signal]

def definitionFingerprintValue (definition : StrategyDefinition N) : Value N :=
  .arr [.num (ofInt STRATEGY_FINGERPRINT_VERSION),
    .arr (definition.buyLevels.map fun level => levelValue level.percentage level.signal),
    .arr (definition.sellLevels.map fun level => levelValue level.percentage level.signal),
    definition.finalExit.elim .null finalExitFingerprintValue]

def strategyDefinitionFingerprint (definition : StrategyDefinition N) : Text :=
  stringify (definitionFingerprintValue definition)

def strategySignalFingerprint (signal : StrategySignal N) : Text :=
  stringify (signalFingerprintValue signal)

def strategyFinalExitFingerprint (finalExit : StrategyFinalExit N) : Text :=
  stringify (finalExitFingerprintValue finalExit)

end Values

/-! ### Logic -/

section Logic

variable {N : Type}

/-- `buildMetric`: only a disclosure metric has other spellings. -/
def buildMetric : StrategyMetric → StrategyMetric
  | .insiderActivity metric => .insiderActivity metric.build
  | .congressActivity metric => .congressActivity metric.build
  | metric => metric

/-- A condition without its id. -/
def StrategyCondition.logic (condition : StrategyCondition N) : StrategyCondition N :=
  { condition with id := "", metric := buildMetric condition.metric }

/-- A trigger without its id. -/
def StrategyTrigger.logic (trigger : StrategyTrigger N) : StrategyTrigger N :=
  { trigger with id := "", metric := buildMetric trigger.metric }

/-- A Signal without ids. -/
def StrategySignal.logic (signal : StrategySignal N) : StrategySignal N where
  conditions := signal.conditions.map (·.logic)
  trigger := signal.trigger.map (·.logic)

/-- FINAL EXIT without ids. -/
def StrategyFinalExit.logic (finalExit : StrategyFinalExit N) : StrategyFinalExit N where
  id := ""
  rules := finalExit.rules.map fun rule => ⟨"", rule.signal.logic⟩

/-- A definition without ids. -/
def StrategyDefinition.logic (definition : StrategyDefinition N) : StrategyDefinition N where
  buyLevels := definition.buyLevels.map fun level => ⟨"", level.signal.logic, level.percentage⟩
  sellLevels := definition.sellLevels.map fun level => ⟨"", level.signal.logic, level.percentage⟩
  finalExit := definition.finalExit.map (·.logic)

variable [JsonNumber N]

/-- What the validator asks of a metric. -/
def StrategyMetric.Admitted : StrategyMetric → Prop
  | .relativeVolume period _ => period ∈ RELATIVE_VOLUME_PERIODS
  | .insiderActivity metric => MetricSignature.AdmittedMetric metric.units
  | .congressActivity metric => MetricSignature.AdmittedMetric metric.units
  | _ => True

/-- What the validator asks of a value. -/
def StrategyValue.Admitted : StrategyValue N → Prop
  | .series _ => True
  | .number value | .percent value | .multiple value | .money value => isFinite value = true

/-- What the validator asks of a predicate, as far as a fingerprint reads it. -/
def AdmittedPredicate (predicate : StrategyPredicate N) : Prop :=
  predicate.1.Admitted ∧ predicate.2.Admitted

/-- `BUY_LEVEL_PERCENTAGES`. -/
def BUY_LEVEL_PERCENTAGES : List ℕ := [25, 50, 75, 100]

/-- `SELL_LEVEL_PERCENTAGES`. -/
def SELL_LEVEL_PERCENTAGES : List ℕ := [25, 50, 75]

/-- What the validator asks of a definition, as far as a fingerprint reads it. -/
structure StrategyDefinition.Admitted (definition : StrategyDefinition N) : Prop where
  predicates : ∀ predicate ∈ walkPredicates definition, AdmittedPredicate predicate
  buys : ∀ level ∈ definition.buyLevels, level.percentage ∈ BUY_LEVEL_PERCENTAGES
  sells : ∀ level ∈ definition.sellLevels, level.percentage ∈ SELL_LEVEL_PERCENTAGES

end Logic

/-! ### Disclosure metrics are told apart -/

/-- The actors a scope selects; none when it selects by something else. -/
def ActorScope.selected (scope : ActorScope) : List String := (actorScopeActorIds scope).getD []

/-- The digests of two metrics' selections are no collision. -/
def ToldApart : StrategyMetric → StrategyMetric → Prop
  | .congressActivity metric, .congressActivity other =>
    sha256Hex (selectionText metric.scope.selected) = sha256Hex (selectionText other.scope.selected) →
      metric.scope.selected = other.scope.selected
  | _, _ => True

theorem lit_ownersSignature (owners : Option (List CongressOwner)) :
    lit (filterSignature CongressOwner.rank CongressOwner.name owners)
      = MetricSignature.filterText MetricSignature.CONGRESS_OWNERS MetricSignature.ownerText
        owners := by
  have hrank : ∀ owner : CongressOwner, owner.rank = MetricSignature.CONGRESS_OWNERS.idxOf owner := by
    intro owner
    cases owner <;> rfl
  exact lit_filterSignature hrank owners

theorem lit_fingerprint (metric : CongressActivityMetric) :
    lit metric.fingerprint = MetricSignature.joinWith MetricSignature.fieldSeparator
      [lit "CONGRESS_ACTIVITY", lit metric.measure.name, naturalText metric.lookback,
        lit (scopeFingerprint metric.scope), MetricSignature.chamberText metric.chamber,
        MetricSignature.filterText MetricSignature.CONGRESS_OWNERS MetricSignature.ownerText
          metric.owners] := by
  unfold CongressActivityMetric.fingerprint
  rw [lit_intercalate]
  simp only [List.map_cons, List.map_nil]
  rw [lit_toString, lit_ownersSignature]
  rfl

/-- A scope's part is another one's text only for several actors. -/
theorem scopeFingerprint_eq (scope : ActorScope) :
    scopeFingerprint scope
      = if 1 < scope.selected.length then
          "actors:" ++ toString scope.selected.length ++ ":"
            ++ sha256Hex (selectionText scope.selected)
        else scopeSignature scope := by
  unfold scopeFingerprint ActorScope.selected
  cases actorScopeActorIds scope with
  | none => rfl
  | some actorIds => rfl

variable {scope : ActorScope}

/-- The part of several actors, the digits of their number and the digest apart. -/
theorem lit_scopeFingerprint (h : 1 < scope.selected.length) :
    lit (scopeFingerprint scope) = lit "actors:" ++ (naturalText scope.selected.length
      ++ 58 :: lit (sha256Hex (selectionText scope.selected))) := by
  rw [scopeFingerprint_eq, if_pos h, lit_append, lit_append, lit_append, lit_toString,
    List.append_assoc, List.append_assoc]
  rfl

/-- The signature of a selection of one. -/
theorem scopeSignature_of_one {actorIds : List String} {selects : actorIds ≠ []} {actorId : String}
    (h : canonicalActorIds actorIds = [actorId]) :
    scopeSignature (.actors actorIds selects) = "actor:" ++ actorId := by
  simp only [scopeSignature, actorScopeActorIds, Option.getD_some, h]

/-- The signature of several actors. -/
theorem scopeSignature_of_several (h : 1 < scope.selected.length) :
    scopeSignature scope = "actors:" ++ "+".intercalate scope.selected := by
  cases scope with
  | any => exact absurd h (by decide)
  | group groupId => exact absurd h (Nat.not_lt_zero _)
  | actor actorId => exact absurd h (lt_irrefl _)
  | actors actorIds selects =>
    simp only [ActorScope.selected, actorScopeActorIds, Option.getD_some] at h ⊢
    obtain ⟨first, rest, hids⟩ := List.exists_cons_of_length_pos (Nat.lt_of_succ_lt h)
    rw [hids] at h
    obtain ⟨second, later, rfl⟩ := List.exists_cons_of_length_pos (Nat.lt_of_succ_lt_succ h)
    simp only [scopeSignature, actorScopeActorIds, Option.getD_some, hids]

/-- The signature of at most one actor starts otherwise. -/
theorem scopeSignature_ne_of_few (h : ¬1 < scope.selected.length) (t : Text) :
    lit (scopeSignature scope) ≠ lit "actors:" ++ t := by
  have hactors : lit "actors:" = [97, 99, 116, 111, 114, 115, 58] := by decide
  have hactor : ∀ actorId, lit ("actor:" ++ actorId) ≠ lit "actors:" ++ t := by
    intro actorId hsame
    -- the sixth unit is a colon in one and a letter in the other
    rw [lit_append, hactors, show lit "actor:" = [97, 99, 116, 111, 114, 58] by decide] at hsame
    simp at hsame
  cases scope with
  | any =>
    rw [hactors, show lit (scopeSignature .any) = [97, 110, 121] by decide]
    simp
  | group groupId =>
    change lit ("group:" ++ groupId) ≠ _
    rw [lit_append, hactors, show lit "group:" = [103, 114, 111, 117, 112, 58] by decide]
    simp
  | actor actorId => exact hactor actorId
  | actors actorIds selects =>
    simp only [ActorScope.selected, actorScopeActorIds, Option.getD_some, not_lt] at h
    have hpos := List.length_pos_iff.mpr (canonicalActorIds_ne_nil selects)
    obtain ⟨actorId, hids⟩ := List.length_eq_one_iff.mp (le_antisymm h hpos)
    rw [scopeSignature_of_one hids]
    exact hactor actorId

/-- What stands behind a number and a colon. -/
theorem afterColon {m n : ℕ} {s t : Text}
    (h : naturalText m ++ 58 :: s = naturalText n ++ 58 :: t) : s = t := by
  have hdrop : ∀ k (u : Text), (naturalText k ++ 58 :: u).dropWhile (· ≠ 58) = 58 :: u := by
    intro k u
    have hdigits : ∀ v ∈ naturalText k, decide (v ≠ 58) = true := by
      intro v hv
      apply decide_eq_true
      rintro rfl
      exact absurd ((NumberText.isDigits_naturalText k).digits _ hv) (by decide)
    rw [List.dropWhile_append_of_pos hdigits]
    rfl
  have hrest := congrArg (List.dropWhile (· ≠ 58)) h
  rw [hdrop, hdrop] at hrest
  exact (List.cons.inj hrest).2

/-- **Scopes with one fingerprint have one signature**, unless the digests of their selections
collide. -/
theorem scopeSignature_of_fingerprint {scope other : ActorScope}
    (hdigest : sha256Hex (selectionText scope.selected) = sha256Hex (selectionText other.selected) →
      scope.selected = other.selected)
    (h : scopeFingerprint scope = scopeFingerprint other) :
    scopeSignature scope = scopeSignature other := by
  by_cases hscope : 1 < scope.selected.length <;> by_cases hother : 1 < other.selected.length
  · have htexts := congrArg lit h
    rw [lit_scopeFingerprint hscope, lit_scopeFingerprint hother] at htexts
    have hsame := afterColon (List.append_cancel_left htexts)
    rw [scopeSignature_of_several hscope, scopeSignature_of_several hother,
      hdigest (lit_injective hsame)]
  · have htexts := congrArg lit h
    rw [lit_scopeFingerprint hscope, scopeFingerprint_eq other, if_neg hother] at htexts
    exact absurd htexts.symm (scopeSignature_ne_of_few hother _)
  · have htexts := congrArg lit h
    rw [lit_scopeFingerprint hother, scopeFingerprint_eq scope, if_neg hscope] at htexts
    exact absurd htexts (scopeSignature_ne_of_few hscope _)
  · rwa [scopeFingerprint_eq, scopeFingerprint_eq, if_neg hscope, if_neg hother] at h

/-- The vocabulary cut down to the values of a filter. -/
theorem filter_contains {α : Type} [DecidableEq α] (allowed values : List α) :
    allowed.filter values.contains = allowed.filter (· ∈ values) := by
  apply List.filter_congr
  intro a _
  rw [List.contains_eq_mem]

theorem ActorScope.build_units (scope : ActorScope) :
    scope.build.units = MetricSignature.buildScope scope.units := by
  cases scope with
  | any => rfl
  | group groupId => rfl
  | actor actorId => rfl
  | actors actorIds selects =>
    show MetricSignature.ActorScope.actors ((canonicalActorIds actorIds).map lit) = _
    rw [map_lit_canonicalActorIds]
    rfl

theorem InsiderActivityMetric.build_units (metric : InsiderActivityMetric) :
    metric.build.units = MetricSignature.buildAlternativeDataMetric metric.units := by
  unfold InsiderActivityMetric.units InsiderActivityMetric.build
    MetricSignature.buildAlternativeDataMetric
  simp only [filter_contains]

theorem CongressActivityMetric.build_units (metric : CongressActivityMetric) :
    metric.build.units = MetricSignature.buildAlternativeDataMetric metric.units := by
  unfold CongressActivityMetric.units CongressActivityMetric.build
    MetricSignature.buildAlternativeDataMetric
  simp only [filter_contains, ActorScope.build_units]

/-- Congress metrics with one fingerprint have one signature, unless digests collide. -/
theorem CongressActivityMetric.signature_of_fingerprint {metric other : CongressActivityMetric}
    (h : MetricSignature.AdmittedMetric metric.units)
    (hother : MetricSignature.AdmittedMetric other.units)
    (htold : ToldApart (.congressActivity metric) (.congressActivity other))
    (hsame : metric.fingerprint = other.fingerprint) : metric.signature = other.signature := by
  have hfields := congrArg (List.splitOn MetricSignature.fieldSeparator) (congrArg lit hsame)
  rw [lit_fingerprint, lit_fingerprint, MetricSignature.splitOn_congress h.1,
    MetricSignature.splitOn_congress hother.1] at hfields
  simp only [List.cons.injEq, true_and] at hfields
  obtain ⟨hmeasure, hlookback, hrest⟩ := hfields
  -- the parts of the scope end where the last two fields begin
  obtain ⟨hparts, hlast⟩ := List.append_inj' hrest rfl
  simp only [List.cons.injEq, and_true] at hlast
  obtain ⟨hchamber, howners⟩ := hlast
  have hscope : scopeFingerprint metric.scope = scopeFingerprint other.scope :=
    lit_injective (SeparatedFields.splitOn_injective hparts)
  unfold CongressActivityMetric.signature
  rw [lit_injective hmeasure, MetricSignature.naturalText_injective hlookback,
    scopeSignature_of_fingerprint htold hscope, lit_injective hchamber]
  rw [← lit_ownersSignature, ← lit_ownersSignature] at howners
  rw [lit_injective howners]

/-- **Admitted metrics with one fingerprint have one canonical form.** -/
theorem CongressActivityMetric.build_of_fingerprint {metric other : CongressActivityMetric}
    (h : MetricSignature.AdmittedMetric metric.units)
    (hother : MetricSignature.AdmittedMetric other.units)
    (htold : ToldApart (.congressActivity metric) (.congressActivity other))
    (hsame : metric.fingerprint = other.fingerprint) : metric.build = other.build := by
  apply CongressActivityMetric.units_injective
  rw [build_units, build_units]
  apply MetricSignature.build_eq_of_signature_eq h hother
  rw [signature_units, signature_units, signature_of_fingerprint h hother htold hsame]

theorem InsiderActivityMetric.build_of_fingerprint {metric other : InsiderActivityMetric}
    (h : MetricSignature.AdmittedMetric metric.units)
    (hother : MetricSignature.AdmittedMetric other.units)
    (hsame : metric.fingerprint = other.fingerprint) : metric.build = other.build := by
  apply InsiderActivityMetric.units_injective
  rw [build_units, build_units]
  apply MetricSignature.build_eq_of_signature_eq h hother
  rw [signature_units, signature_units]
  exact congrArg (fun text => Except.ok (lit text)) hsame

/-- The canonical form of an admitted metric has its fingerprint. -/
theorem InsiderActivityMetric.fingerprint_build {metric : InsiderActivityMetric}
    (h : MetricSignature.AdmittedMetric metric.units) : metric.build.fingerprint = metric.fingerprint := by
  have hsame := MetricSignature.signature_build h
  rw [← build_units, signature_units, signature_units] at hsame
  exact lit_injective (Except.ok.inj hsame)

/-- Ids are canonical when their code units are. -/
theorem canonicalActorIds_of_units {actorIds : List String}
    (h : MetricSignature.canonicalActorIds (actorIds.map lit) = actorIds.map lit) :
    canonicalActorIds actorIds = actorIds := by
  rw [← map_lit_canonicalActorIds] at h
  exact List.map_injective_iff.mpr lit_injective h

/-- The canonical form of an admitted scope selects the same actors. -/
theorem ActorScope.selected_build
    (h : MetricSignature.AdmittedScope scope.units) : scope.build.selected = scope.selected := by
  cases scope with
  | any => rfl
  | group groupId => rfl
  | actor actorId =>
    exact canonicalActorIds_of_units (MetricSignature.canonicalActorIds_singleton (lit actorId))
  | actors actorIds selects =>
    show canonicalActorIds (canonicalActorIds actorIds) = canonicalActorIds actorIds
    have hcanonical := canonicalActorIds_of_units h.2.1
    rw [hcanonical, hcanonical]

theorem scopeFingerprint_build (h : MetricSignature.AdmittedScope scope.units) :
    scopeFingerprint scope.build = scopeFingerprint scope := by
  have hsignature := MetricSignature.scopeSignature_buildScope h
  rw [← ActorScope.build_units, scopeSignature_units, scopeSignature_units] at hsignature
  rw [scopeFingerprint_eq, scopeFingerprint_eq, ActorScope.selected_build h,
    lit_injective (Except.ok.inj hsignature)]

/-- The canonical form of an admitted metric has its fingerprint. -/
theorem CongressActivityMetric.fingerprint_build {metric : CongressActivityMetric}
    (h : MetricSignature.AdmittedMetric metric.units) :
    metric.build.fingerprint = metric.fingerprint := by
  obtain ⟨-, -, hscope, howners⟩ := h
  have htext := MetricSignature.vocabulary_owners.filterText_canonical howners
  apply lit_injective
  rw [lit_fingerprint, lit_fingerprint]
  unfold CongressActivityMetric.build
  simp only [filter_contains]
  rw [scopeFingerprint_build hscope, htext]

/-! ### Values are told apart -/

section Values

variable {N : Type} [JsonNumber N]

omit [JsonNumber N] in
theorem jsonText_inj {s t : String} : (jsonText s : Value N) = jsonText t ↔ s = t := by
  unfold jsonText
  rw [Value.str.injEq, lit_injective.eq_iff]

theorem sourceText_injective : Function.Injective sourceText := by
  have hetf : ∀ code, sourceText (.etf code) ≠ sourceText .stockSector := by
    intro code
    cases code <;> decide
  intro source other h
  cases source with
  | etf code =>
    cases other with
    | etf code' =>
      have htexts := congrArg lit h
      unfold sourceText at htexts
      rw [lit_append, lit_append] at htexts
      rw [vocabulary_etfCodes.text_inj.mp (List.append_cancel_left htexts)]
    | stockSector => exact absurd h (hetf code)
  | stockSector =>
    cases other with
    | etf code => exact absurd h.symm (hetf code)
    | stockSector => rfl

omit [JsonNumber N] in
/-- The elements two sources append. -/
theorem sourceElements_inj {source other : Option StrategyMetricSource}
    (h : (source.map fun source => (jsonText (sourceText source) : Value N)).toList
      = (other.map fun source => jsonText (sourceText source)).toList) : source = other := by
  cases source <;> cases other <;> simp only [Option.map_none, Option.map_some, Option.toList_none,
    Option.toList_some, List.cons.injEq, reduceCtorEq, and_true, jsonText_inj] at h
  · rfl
  · rw [sourceText_injective h]

theorem ofInt_injective [LawfulJsonNumber N] {m n : ℕ} (hm : m ≤ 9007199254740991)
    (hn : n ≤ 9007199254740991) (h : (ofInt m : N) = ofInt n) : m = n := by
  have hsafe := congrArg safeInteger? h
  rw [LawfulJsonNumber.safeInteger?_ofInt m (by simpa using hm),
    LawfulJsonNumber.safeInteger?_ofInt n (by simpa using hn)] at hsafe
  exact Int.ofNat_inj.mp (Option.some.inj hsafe)

/-- The canonical form of an admitted metric has its value. -/
theorem metricValueOf_build {metric : StrategyMetric} (h : metric.Admitted) :
    (metricValueOf (buildMetric metric) : Value N) = metricValueOf metric := by
  cases metric with
  | insiderActivity activity =>
    exact congrArg (fun text => Value.arr [jsonText "INSIDER_ACTIVITY", .null, jsonText text])
      (InsiderActivityMetric.fingerprint_build h)
  | congressActivity activity =>
    exact congrArg (fun text => Value.arr [jsonText "CONGRESS_ACTIVITY", .null, jsonText text])
      (CongressActivityMetric.fingerprint_build h)
  | _ => rfl

/-- **Admitted metrics are told apart by their values**, but for their spelling. -/
theorem metricValueOf_eq_iff [LawfulJsonNumber N] {metric other : StrategyMetric}
    (h : metric.Admitted) (hother : other.Admitted) (htold : ToldApart metric other) :
    (metricValueOf metric : Value N) = metricValueOf other ↔ buildMetric metric = buildMetric other := by
  constructor
  · intro hsame
    have hitems := Value.arr.inj hsame
    cases metric <;> cases other <;> simp only [metricBase, strategyMetricSource, List.cons_append,
      List.nil_append, List.cons.injEq, jsonText_inj, String.reduceEq, false_and, true_and, and_false, and_true,
      Option.map_none, Option.toList_none, List.append_nil, reduceCtorEq] at hitems
    case price.price => rw [sourceElements_inj hitems]
    case movingAverage.movingAverage =>
      rw [vocabulary_series.text_inj.mp (congrArg lit hitems.1), sourceElements_inj hitems.2]
    case oscillator.oscillator =>
      rw [vocabulary_series.text_inj.mp (congrArg lit hitems.1), sourceElements_inj hitems.2]
    case relativeVolume.relativeVolume period _ period' _ =>
      -- the periods are far below what a double holds exactly
      have hsmall : ∀ p ∈ RELATIVE_VOLUME_PERIODS, p ≤ 9007199254740991 := by decide
      obtain ⟨hperiod, hsource⟩ := hitems
      rw [ofInt_injective (hsmall _ h) (hsmall _ hother) (Value.num.inj hperiod),
        sourceElements_inj hsource]
    case marginOfSafety.marginOfSafety =>
      rw [vocabulary_series.text_inj.mp (congrArg lit hitems)]
    case valuationRatio.valuationRatio =>
      rw [vocabulary_ratios.text_inj.mp (congrArg lit hitems)]
    case fundamental.fundamental =>
      rw [vocabulary_fundamentals.text_inj.mp (congrArg lit hitems)]
    case gain.gain => rfl
    case loss.loss => rfl
    case insiderActivity.insiderActivity =>
      exact congrArg StrategyMetric.insiderActivity
        (InsiderActivityMetric.build_of_fingerprint h hother hitems)
    case congressActivity.congressActivity =>
      exact congrArg StrategyMetric.congressActivity
        (CongressActivityMetric.build_of_fingerprint h hother htold hitems)
  · intro hbuild
    rw [← metricValueOf_build h, hbuild, metricValueOf_build hother]

omit [JsonNumber N] in
theorem operandValueOf_injective : Function.Injective (operandValueOf : StrategyValue N → Value N) := by
  intro value other h
  cases value <;> cases other <;> simp only [operandValueOf, Value.arr.injEq, List.cons.injEq,
    jsonText_inj, String.reduceEq, false_and, true_and, and_true, Value.num.injEq] at h
  case series.series => rw [vocabulary_series.text_inj.mp (congrArg lit h)]
  all_goals rw [h]

theorem ConditionOperator.name_injective : Function.Injective ConditionOperator.name := by
  intro operator other
  cases operator <;> cases other <;> decide

theorem TriggerOperator.name_injective : Function.Injective TriggerOperator.name := by
  intro operator other
  cases operator <;> cases other <;> decide

section Told

variable [LawfulJsonNumber N]

theorem predicateValue_eq_iff {metric other : StrategyMetric} {operator operator' : String}
    {value value' : StrategyValue N} (h : metric.Admitted) (hother : other.Admitted)
    (htold : ToldApart metric other) :
    predicateValue metric operator value = predicateValue other operator' value'
      ↔ buildMetric metric = buildMetric other ∧ operator = operator' ∧ value = value' := by
  unfold predicateValue
  rw [Value.arr.injEq, List.cons.injEq, List.cons.injEq, List.cons.injEq, jsonText_inj,
    metricValueOf_eq_iff h hother htold, operandValueOf_injective.eq_iff, and_iff_left rfl]

/-- What is asked of the predicates of two Signals, or of two lists of Signals: each is admitted,
and no two of their selections share a digest. -/
structure Comparable (predicates others : List (StrategyPredicate N)) : Prop where
  left : ∀ predicate ∈ predicates, AdmittedPredicate predicate
  right : ∀ predicate ∈ others, AdmittedPredicate predicate
  told : ∀ predicate ∈ predicates, ∀ other ∈ others, ToldApart predicate.1 other.1

omit [LawfulJsonNumber N] in
theorem Comparable.mono {predicates others some' others' : List (StrategyPredicate N)}
    (h : Comparable predicates others) (hsub : some' ⊆ predicates) (hsub' : others' ⊆ others) :
    Comparable some' others' where
  left predicate hpredicate := h.left predicate (hsub hpredicate)
  right predicate hpredicate := h.right predicate (hsub' hpredicate)
  told predicate hpredicate other hother := h.told predicate (hsub hpredicate) other (hsub' hother)

/-- Two lists are told apart as their elements are. -/
theorem map_eq_map_iff {α β γ δ : Type} {f : α → γ} {f' : β → γ} {g : α → δ} {g' : β → δ}
    {l : List α} {l' : List β} (h : ∀ a ∈ l, ∀ b ∈ l', f a = f' b ↔ g a = g' b) :
    l.map f = l'.map f' ↔ l.map g = l'.map g' := by
  induction l generalizing l' with
  | nil => cases l' <;> simp
  | cons a rest ih =>
    cases l' with
    | nil => simp
    | cons b rest' =>
      have hrest := ih fun x hx y hy =>
        h x (List.mem_cons_of_mem _ hx) y (List.mem_cons_of_mem _ hy)
      simp only [List.map_cons, List.cons.injEq]
      rw [h a List.mem_cons_self b List.mem_cons_self, hrest]

theorem conditionValue_eq_iff {condition other : StrategyCondition N}
    (h : Comparable [(condition.metric, condition.value)] [(other.metric, other.value)]) :
    conditionValue condition = conditionValue other ↔ condition.logic = other.logic := by
  unfold conditionValue
  rw [predicateValue_eq_iff (h.left _ List.mem_cons_self).1 (h.right _ List.mem_cons_self).1
    (h.told _ List.mem_cons_self _ List.mem_cons_self), ConditionOperator.name_injective.eq_iff]
  unfold StrategyCondition.logic
  simp only [StrategyCondition.mk.injEq, true_and]

theorem triggerValue_eq_iff {trigger other : StrategyTrigger N}
    (h : Comparable [(trigger.metric, trigger.value)] [(other.metric, other.value)]) :
    triggerValue trigger = triggerValue other ↔ trigger.logic = other.logic := by
  unfold triggerValue
  rw [predicateValue_eq_iff (h.left _ List.mem_cons_self).1 (h.right _ List.mem_cons_self).1
    (h.told _ List.mem_cons_self _ List.mem_cons_self), TriggerOperator.name_injective.eq_iff]
  unfold StrategyTrigger.logic
  simp only [StrategyTrigger.mk.injEq, true_and]

/-- Optional elements are told apart as elements are. -/
theorem elim_eq_elim_iff {α γ δ : Type} {f : α → γ} {g : α → δ} {c : γ} {o o' : Option α}
    (hc : ∀ a, f a ≠ c) (h : ∀ a ∈ o, ∀ b ∈ o', f a = f b ↔ g a = g b) :
    o.elim c f = o'.elim c f ↔ o.map g = o'.map g := by
  cases o with
  | none =>
    cases o' with
    | none => simp
    | some b => simpa using (hc b).symm
  | some a =>
    cases o' with
    | none => simpa using hc a
    | some b => simpa using h a rfl b rfl

variable {signal : StrategySignal N}

omit [JsonNumber N] [LawfulJsonNumber N] in
theorem conditions_subset_predicates {condition : StrategyCondition N}
    (h : condition ∈ signal.conditions) :
    [(condition.metric, condition.value)] ⊆ signalPredicates signal := by
  refine List.cons_subset.mpr ⟨?_, List.nil_subset _⟩
  exact List.mem_append_left _ (List.mem_map.mpr ⟨condition, h, rfl⟩)

omit [JsonNumber N] [LawfulJsonNumber N] in
theorem trigger_subset_predicates {trigger : StrategyTrigger N}
    (h : signal.trigger = some trigger) :
    [(trigger.metric, trigger.value)] ⊆ signalPredicates signal := by
  refine List.cons_subset.mpr ⟨List.mem_append_right _ (List.mem_map.mpr ⟨trigger, ?_, rfl⟩),
    List.nil_subset _⟩
  rw [h]
  exact List.mem_singleton_self trigger

omit [LawfulJsonNumber N] in
theorem triggerValue_ne_null (trigger : StrategyTrigger N) : triggerValue trigger ≠ .null := by
  intro h
  cases h

/-- **Signals are told apart by their values**, but for ids and spellings. -/
theorem signalFingerprintValue_eq_iff {signal other : StrategySignal N}
    (h : Comparable (signalPredicates signal) (signalPredicates other)) :
    signalFingerprintValue signal = signalFingerprintValue other ↔ signal.logic = other.logic := by
  have hconditions : signal.conditions.map conditionValue = other.conditions.map conditionValue
      ↔ signal.conditions.map (·.logic) = other.conditions.map (·.logic) := by
    apply map_eq_map_iff
    intro condition hcondition condition' hcondition'
    exact conditionValue_eq_iff (h.mono (conditions_subset_predicates hcondition)
      (conditions_subset_predicates hcondition'))
  have htrigger : signal.trigger.elim .null triggerValue = other.trigger.elim .null triggerValue
      ↔ signal.trigger.map (·.logic) = other.trigger.map (·.logic) := by
    apply elim_eq_elim_iff triggerValue_ne_null
    intro trigger hmem trigger' hmem'
    exact triggerValue_eq_iff (h.mono (trigger_subset_predicates hmem)
      (trigger_subset_predicates hmem'))
  unfold signalFingerprintValue StrategySignal.logic
  rw [Value.arr.injEq, List.cons.injEq, List.cons.injEq, Value.arr.injEq, hconditions, htrigger,
    and_iff_left rfl, StrategySignal.mk.injEq]

/-- The predicates of a FINAL EXIT, rule by rule. -/
def exitPredicates (finalExit : StrategyFinalExit N) : List (StrategyPredicate N) :=
  finalExit.rules.flatMap fun rule => signalPredicates rule.signal

omit [JsonNumber N] [LawfulJsonNumber N] in
theorem rule_subset_predicates {finalExit : StrategyFinalExit N} {rule : StrategyExitRule N}
    (h : rule ∈ finalExit.rules) : signalPredicates rule.signal ⊆ exitPredicates finalExit :=
  fun _ hpredicate => List.mem_flatMap.mpr ⟨rule, h, hpredicate⟩

section

omit [LawfulJsonNumber N]

/-- A Signal's value starts with its conditions, the value of several rules with a text. -/
theorem signalFingerprintValue_ne_or (signal : StrategySignal N) (rules : List (Value N)) :
    signalFingerprintValue signal ≠ .arr [jsonText "OR", .arr rules] := by
  intro h
  cases h

theorem finalExitFingerprintValue_of_one {finalExit : StrategyFinalExit N}
    {rule : StrategyExitRule N} (h : finalExit.rules = [rule]) :
    finalExitFingerprintValue finalExit = signalFingerprintValue rule.signal := by
  unfold finalExitFingerprintValue
  rw [h]
  rfl

theorem finalExitFingerprintValue_of_many {finalExit : StrategyFinalExit N}
    (h : ∀ rule, finalExit.rules ≠ [rule]) :
    finalExitFingerprintValue finalExit = .arr [jsonText "OR",
      .arr (finalExit.rules.map fun rule => signalFingerprintValue rule.signal)] := by
  unfold finalExitFingerprintValue
  split
  · next value hvalue =>
    obtain ⟨rule, hrule, -⟩ := List.map_eq_singleton_iff.mp hvalue
    exact absurd hrule (h rule)
  · rfl

end

omit [JsonNumber N] [LawfulJsonNumber N] in
/-- A FINAL EXIT has one rule, or it does not. -/
theorem one_or_many (finalExit : StrategyFinalExit N) :
    (∃ rule, finalExit.rules = [rule]) ∨ ∀ rule, finalExit.rules ≠ [rule] := by
  by_cases h : ∃ rule, finalExit.rules = [rule]
  · exact .inl h
  · exact .inr fun rule hrule => h ⟨rule, hrule⟩

/-- **FINAL EXITs are told apart by their values**: one rule is never the value of several. -/
theorem finalExitFingerprintValue_eq_iff {finalExit other : StrategyFinalExit N}
    (h : Comparable (exitPredicates finalExit) (exitPredicates other)) :
    finalExitFingerprintValue finalExit = finalExitFingerprintValue other
      ↔ finalExit.logic = other.logic := by
  have hrule : ∀ rule ∈ finalExit.rules, ∀ rule' ∈ other.rules,
      signalFingerprintValue rule.signal = signalFingerprintValue rule'.signal
        ↔ (⟨"", rule.signal.logic⟩ : StrategyExitRule N) = ⟨"", rule'.signal.logic⟩ := by
    intro rule hmem rule' hmem'
    rw [signalFingerprintValue_eq_iff (h.mono (rule_subset_predicates hmem)
      (rule_subset_predicates hmem')), StrategyExitRule.mk.injEq, and_iff_right rfl]
  have hrules := map_eq_map_iff hrule
  have hlogic : finalExit.logic = other.logic
      ↔ finalExit.rules.map (fun rule => (⟨"", rule.signal.logic⟩ : StrategyExitRule N))
        = other.rules.map fun rule => ⟨"", rule.signal.logic⟩ := by
    unfold StrategyFinalExit.logic
    rw [StrategyFinalExit.mk.injEq, and_iff_right rfl]
  rw [hlogic, ← hrules]
  rcases one_or_many finalExit with ⟨rule, hone⟩ | hmany
  · rcases one_or_many other with ⟨rule', hone'⟩ | hmany'
    · rw [finalExitFingerprintValue_of_one hone, finalExitFingerprintValue_of_one hone', hone, hone',
        List.map_singleton, List.map_singleton, List.cons.injEq, and_iff_left rfl]
    · rw [finalExitFingerprintValue_of_one hone, finalExitFingerprintValue_of_many hmany']
      refine iff_of_false (signalFingerprintValue_ne_or _ _) fun hsame => ?_
      obtain ⟨rule', hrule', -⟩ := List.map_eq_singleton_iff.mp (hone ▸ hsame).symm
      exact hmany' rule' hrule'
  · rcases one_or_many other with ⟨rule', hone'⟩ | hmany'
    · rw [finalExitFingerprintValue_of_many hmany, finalExitFingerprintValue_of_one hone']
      refine iff_of_false (signalFingerprintValue_ne_or _ _).symm fun hsame => ?_
      obtain ⟨rule, hrule, -⟩ := List.map_eq_singleton_iff.mp (hone' ▸ hsame)
      exact hmany rule hrule
    · rw [finalExitFingerprintValue_of_many hmany, finalExitFingerprintValue_of_many hmany',
        Value.arr.injEq, List.cons.injEq, List.cons.injEq, Value.arr.injEq, and_iff_right rfl,
        and_iff_left rfl]

omit [LawfulJsonNumber N] in
theorem finalExitFingerprintValue_ne_null (finalExit : StrategyFinalExit N) :
    finalExitFingerprintValue finalExit ≠ .null := by
  rcases one_or_many finalExit with ⟨rule, hone⟩ | hmany
  · rw [finalExitFingerprintValue_of_one hone]
    intro h
    cases h
  · rw [finalExitFingerprintValue_of_many hmany]
    intro h
    cases h

theorem levelValue_eq_iff {percentage percentage' : ℕ} {signal other : StrategySignal N}
    (hpercentage : percentage ≤ 100) (hpercentage' : percentage' ≤ 100)
    (h : Comparable (signalPredicates signal) (signalPredicates other)) :
    levelValue percentage signal = levelValue percentage' other
      ↔ signal.logic = other.logic ∧ percentage = percentage' := by
  unfold levelValue
  rw [Value.arr.injEq, List.cons.injEq, List.cons.injEq, and_iff_left rfl, Value.num.injEq,
    signalFingerprintValue_eq_iff h, and_comm]
  refine and_congr_right fun _ => ⟨fun hsame => ?_, fun hsame => by rw [hsame]⟩
  exact ofInt_injective (hpercentage.trans (by decide)) (hpercentage'.trans (by decide)) hsame

section

omit [JsonNumber N] [LawfulJsonNumber N]

variable {definition : StrategyDefinition N}

theorem signal_subset_walk {signal : StrategySignal N} (h : signal ∈ definitionSignals definition) :
    signalPredicates signal ⊆ walkPredicates definition :=
  fun _ hpredicate => List.mem_flatMap.mpr ⟨signal, h, hpredicate⟩

theorem buyLevel_signal {level : StrategyBuyLevel N}
    (h : level ∈ definition.buyLevels) : level.signal ∈ definitionSignals definition :=
  List.mem_append_left _ (List.mem_append_left _ (List.mem_map.mpr ⟨level, h, rfl⟩))

theorem sellLevel_signal {level : StrategySellLevel N}
    (h : level ∈ definition.sellLevels) : level.signal ∈ definitionSignals definition :=
  List.mem_append_left _ (List.mem_append_right _ (List.mem_map.mpr ⟨level, h, rfl⟩))

theorem exit_subset_walk {finalExit : StrategyFinalExit N}
    (h : definition.finalExit = some finalExit) :
    exitPredicates finalExit ⊆ walkPredicates definition := by
  intro predicate hpredicate
  obtain ⟨rule, hrule, hmem⟩ := List.mem_flatMap.mp hpredicate
  refine signal_subset_walk (List.mem_append_right _ (List.mem_map.mpr ⟨rule, ?_, rfl⟩)) hmem
  rw [h]
  exact hrule

end

/-- **Definitions are told apart by their values**, but for ids and spellings. -/
theorem definitionFingerprintValue_eq_iff {definition other : StrategyDefinition N}
    (h : definition.Admitted) (hother : other.Admitted)
    (htold : ∀ predicate ∈ walkPredicates definition, ∀ predicate' ∈ walkPredicates other,
      ToldApart predicate.1 predicate'.1) :
    definitionFingerprintValue definition = definitionFingerprintValue other
      ↔ definition.logic = other.logic := by
  -- the two walks are comparable, and so is each pair of Signals in them
  have hcomparable : Comparable (walkPredicates definition) (walkPredicates other) :=
    ⟨h.predicates, hother.predicates, htold⟩
  have hbuySmall : ∀ p ∈ BUY_LEVEL_PERCENTAGES, p ≤ 100 := by decide
  have hsellSmall : ∀ p ∈ SELL_LEVEL_PERCENTAGES, p ≤ 100 := by decide
  have hbuys : definition.buyLevels.map (fun level => levelValue level.percentage level.signal)
        = other.buyLevels.map (fun level => levelValue level.percentage level.signal)
      ↔ definition.logic.buyLevels = other.logic.buyLevels := by
    apply map_eq_map_iff
    intro level hlevel level' hlevel'
    rw [levelValue_eq_iff (hbuySmall _ (h.buys level hlevel))
      (hbuySmall _ (hother.buys level' hlevel'))
      (hcomparable.mono (signal_subset_walk (buyLevel_signal hlevel))
        (signal_subset_walk (buyLevel_signal hlevel'))), StrategyBuyLevel.mk.injEq,
      and_iff_right rfl]
  have hsells : definition.sellLevels.map (fun level => levelValue level.percentage level.signal)
        = other.sellLevels.map (fun level => levelValue level.percentage level.signal)
      ↔ definition.logic.sellLevels = other.logic.sellLevels := by
    apply map_eq_map_iff
    intro level hlevel level' hlevel'
    rw [levelValue_eq_iff (hsellSmall _ (h.sells level hlevel))
      (hsellSmall _ (hother.sells level' hlevel'))
      (hcomparable.mono (signal_subset_walk (sellLevel_signal hlevel))
        (signal_subset_walk (sellLevel_signal hlevel'))), StrategySellLevel.mk.injEq,
      and_iff_right rfl]
  have hexit : definition.finalExit.elim .null finalExitFingerprintValue
        = other.finalExit.elim .null finalExitFingerprintValue
      ↔ definition.logic.finalExit = other.logic.finalExit := by
    apply elim_eq_elim_iff finalExitFingerprintValue_ne_null
    intro finalExit hmem finalExit' hmem'
    exact finalExitFingerprintValue_eq_iff
      (hcomparable.mono (exit_subset_walk hmem) (exit_subset_walk hmem'))
  unfold definitionFingerprintValue
  rw [Value.arr.injEq, List.cons.injEq, List.cons.injEq, List.cons.injEq, List.cons.injEq,
    Value.arr.injEq, Value.arr.injEq, hbuys, hsells, hexit, and_iff_right rfl, and_iff_left rfl]
  unfold StrategyDefinition.logic
  rw [StrategyDefinition.mk.injEq]

/-! ### Their texts -/

section

omit [LawfulJsonNumber N]

theorem wellFormed_pair {v w : Value N} (hv : WellFormed v) (hw : WellFormed w) :
    ∀ item ∈ [v, w], WellFormed item := by
  intro item hitem
  rcases List.mem_pair.mp hitem with rfl | rfl
  · exact hv
  · exact hw

theorem wellFormed_cons {v : Value N} {items : List (Value N)} (hv : WellFormed v)
    (hitems : ∀ item ∈ items, WellFormed item) : ∀ item ∈ v :: items, WellFormed item :=
  List.forall_mem_cons.mpr ⟨hv, hitems⟩

theorem wellFormed_jsonText (s : String) : WellFormed (jsonText s : Value N) := .str (lit s)

end

theorem wellFormed_metricBase {metric : StrategyMetric} (h : metric.Admitted) :
    ∀ item ∈ (metricBase metric : List (Value N)), WellFormed item := by
  have hkind : ∀ kind, ∀ item ∈ [(jsonText kind : Value N), .null], WellFormed item :=
    fun kind => wellFormed_pair (wellFormed_jsonText kind) .null
  have hid : ∀ kind id, ∀ item ∈ [(jsonText kind : Value N), jsonText id], WellFormed item :=
    fun kind id => wellFormed_pair (wellFormed_jsonText kind) (wellFormed_jsonText id)
  have hthird : ∀ kind (v : Value N), WellFormed v →
      ∀ item ∈ [jsonText kind, .null, v], WellFormed item :=
    fun kind v hv => wellFormed_cons (wellFormed_jsonText kind) (wellFormed_pair .null hv)
  cases metric with
  | relativeVolume period source =>
    have hsmall : ∀ p ∈ RELATIVE_VOLUME_PERIODS, (p : ℤ).natAbs ≤ 9007199254740991 := by decide
    exact hthird _ _ (.num (LawfulJsonNumber.isFinite_ofInt _ (hsmall period h)))
  | fundamental metricId => exact hthird _ _ (wellFormed_jsonText _)
  | valuationRatio ratioId => exact hthird _ _ (wellFormed_jsonText _)
  | insiderActivity activity => exact hthird _ _ (wellFormed_jsonText _)
  | congressActivity activity => exact hthird _ _ (wellFormed_jsonText _)
  | movingAverage seriesId source => exact hid _ _
  | oscillator seriesId source => exact hid _ _
  | marginOfSafety sourceId => exact hid _ _
  | price source => exact hkind _
  | gain => exact hkind _
  | loss => exact hkind _

theorem wellFormed_metricValueOf {metric : StrategyMetric} (h : metric.Admitted) :
    WellFormed (metricValueOf metric : Value N) := by
  apply WellFormed.arr
  intro item hitem
  rcases List.mem_append.mp hitem with hbase | hsource
  · exact wellFormed_metricBase h item hbase
  · obtain ⟨source, -, rfl⟩ := Option.map_eq_some_iff.mp (Option.mem_toList.mp hsource)
    exact wellFormed_jsonText _

omit [LawfulJsonNumber N] in
theorem wellFormed_operandValueOf {value : StrategyValue N} (h : value.Admitted) :
    WellFormed (operandValueOf value) := by
  have hpair : ∀ s (v : Value N), WellFormed v → WellFormed (.arr [jsonText s, v]) :=
    fun s v hv => .arr (wellFormed_pair (wellFormed_jsonText s) hv)
  cases value with
  | series seriesId => exact hpair _ _ (wellFormed_jsonText _)
  | number value => exact hpair _ _ (.num h)
  | percent value => exact hpair _ _ (.num h)
  | multiple value => exact hpair _ _ (.num h)
  | money value => exact hpair _ _ (.num h)

theorem wellFormed_predicateValue {metric : StrategyMetric} {value : StrategyValue N}
    (h : AdmittedPredicate (metric, value)) (operator : String) :
    WellFormed (predicateValue metric operator value) :=
  .arr (wellFormed_cons (wellFormed_metricValueOf h.1)
    (wellFormed_pair (wellFormed_jsonText operator) (wellFormed_operandValueOf h.2)))

theorem wellFormed_signalFingerprintValue
    (h : ∀ predicate ∈ signalPredicates signal, AdmittedPredicate predicate) :
    WellFormed (signalFingerprintValue signal) := by
  apply WellFormed.arr
  apply wellFormed_pair
  · apply WellFormed.arr
    intro item hitem
    obtain ⟨condition, hcondition, rfl⟩ := List.mem_map.mp hitem
    exact wellFormed_predicateValue
      (h _ (conditions_subset_predicates hcondition List.mem_cons_self)) _
  · cases htrigger : signal.trigger with
    | none => exact .null
    | some trigger =>
      exact wellFormed_predicateValue
        (h _ (trigger_subset_predicates htrigger List.mem_cons_self)) _

theorem wellFormed_finalExitFingerprintValue {finalExit : StrategyFinalExit N}
    (h : ∀ predicate ∈ exitPredicates finalExit, AdmittedPredicate predicate) :
    WellFormed (finalExitFingerprintValue finalExit) := by
  have hrules : ∀ rule ∈ finalExit.rules, WellFormed (signalFingerprintValue rule.signal) := by
    intro rule hrule
    exact wellFormed_signalFingerprintValue fun predicate hpredicate =>
      h predicate (rule_subset_predicates hrule hpredicate)
  rcases one_or_many finalExit with ⟨rule, hone⟩ | hmany
  · rw [finalExitFingerprintValue_of_one hone]
    exact hrules rule (hone ▸ List.mem_cons_self)
  · rw [finalExitFingerprintValue_of_many hmany]
    refine .arr (wellFormed_pair (wellFormed_jsonText _) (.arr fun item hitem => ?_))
    obtain ⟨rule, hrule, rfl⟩ := List.mem_map.mp hitem
    exact hrules rule hrule

theorem wellFormed_levelValue {percentage : ℕ} (hpercentage : percentage ≤ 100)
    (h : ∀ predicate ∈ signalPredicates signal, AdmittedPredicate predicate) :
    WellFormed (levelValue percentage signal) := by
  have hsmall : (percentage : ℤ).natAbs ≤ 9007199254740991 := by
    rw [Int.natAbs_natCast]
    exact hpercentage.trans (by decide)
  exact .arr (wellFormed_pair (.num (LawfulJsonNumber.isFinite_ofInt _ hsmall))
    (wellFormed_signalFingerprintValue h))

theorem wellFormed_definitionFingerprintValue {definition : StrategyDefinition N}
    (h : definition.Admitted) : WellFormed (definitionFingerprintValue definition) := by
  have hbuySmall : ∀ p ∈ BUY_LEVEL_PERCENTAGES, p ≤ 100 := by decide
  have hsellSmall : ∀ p ∈ SELL_LEVEL_PERCENTAGES, p ≤ 100 := by decide
  have hversion : (STRATEGY_FINGERPRINT_VERSION : ℤ).natAbs ≤ 9007199254740991 := by decide
  apply WellFormed.arr
  apply wellFormed_cons (.num (LawfulJsonNumber.isFinite_ofInt _ hversion))
  apply wellFormed_cons
  · apply WellFormed.arr
    intro item hitem
    obtain ⟨level, hlevel, rfl⟩ := List.mem_map.mp hitem
    exact wellFormed_levelValue (hbuySmall _ (h.buys level hlevel)) fun predicate hpredicate =>
      h.predicates predicate (signal_subset_walk (buyLevel_signal hlevel) hpredicate)
  apply wellFormed_pair
  · apply WellFormed.arr
    intro item hitem
    obtain ⟨level, hlevel, rfl⟩ := List.mem_map.mp hitem
    exact wellFormed_levelValue (hsellSmall _ (h.sells level hlevel)) fun predicate hpredicate =>
      h.predicates predicate (signal_subset_walk (sellLevel_signal hlevel) hpredicate)
  · cases hexit : definition.finalExit with
    | none => exact .null
    | some finalExit =>
      exact wellFormed_finalExitFingerprintValue fun predicate hpredicate =>
        h.predicates predicate (exit_subset_walk hexit hpredicate)

/-- **A fingerprint is the logic.** Two admitted definitions have one fingerprint exactly when they
are one definition once ids are erased and disclosure metrics are in canonical form, if no two of
their actor selections share a digest. -/
theorem strategyDefinitionFingerprint_eq_iff {definition other : StrategyDefinition N}
    (h : definition.Admitted) (hother : other.Admitted)
    (htold : ∀ predicate ∈ walkPredicates definition, ∀ predicate' ∈ walkPredicates other,
      ToldApart predicate.1 predicate'.1) :
    strategyDefinitionFingerprint definition = strategyDefinitionFingerprint other
      ↔ definition.logic = other.logic := by
  unfold strategyDefinitionFingerprint
  rw [stringify_inj (wellFormed_definitionFingerprintValue h)
    (wellFormed_definitionFingerprintValue hother), definitionFingerprintValue_eq_iff h hother htold]

/-- What two members of Congress did within a month. -/
def twoMembers (measure : CongressMeasure) (member other : String) : StrategyMetric :=
  .congressActivity ⟨measure, 20, .actors [member, other] (List.cons_ne_nil _ _), .any, none⟩

/-- The price under a stop, two members selling and two not buying. -/
def stopSignal (kind : String) : StrategySignal ℤ where
  conditions := [⟨kind ++ "-below", .price none, .isBelow, .number 80⟩,
    ⟨kind ++ "-sold", twoMembers .sellers "M001157" "P000197", .isAbove, .number 1⟩,
    ⟨kind ++ "-bought", twoMembers .buyers "P000197" "T000278", .isBelow, .number 1⟩]
  trigger := none

/-- FINAL EXIT by the stop alone. -/
def stopExit (kind : String) : StrategyFinalExit ℤ :=
  ⟨kind ++ "-exit", [⟨kind ++ "-rule", stopSignal kind⟩]⟩

/-- A strategy of one level and one rule to leave by, under ids of a kind. -/
def breakout (kind : String) : StrategyDefinition ℤ where
  buyLevels := [⟨kind ++ "-buy",
    ⟨[⟨kind ++ "-above", .price none, .isAbove, .series .sma200D⟩], none⟩, 25⟩]
  sellLevels := []
  finalExit := some (stopExit kind)

/-- The two selections of the stop have two digests. -/
theorem toldApart_twoMembers :
    ToldApart (twoMembers .sellers "M001157" "P000197") (twoMembers .buyers "P000197" "T000278")
      ∧ ToldApart (twoMembers .buyers "P000197" "T000278")
        (twoMembers .sellers "M001157" "P000197") := by
  constructor <;> intro h <;> revert h <;> decide +kernel

theorem comparable_breakout (kind kind' : String) :
    Comparable (walkPredicates (breakout kind)) (walkPredicates (breakout kind')) := by
  have hlisted : ∀ kind, ∀ predicate ∈ walkPredicates (breakout kind),
      predicate ∈ [(.price none, .series .sma200D), (.price none, .number 80),
        (twoMembers .sellers "M001157" "P000197", .number 1),
        (twoMembers .buyers "P000197" "T000278", .number 1)] := fun _ _ h => h
  simp only [List.mem_cons, List.not_mem_nil, or_false] at hlisted
  have hadmitted : ∀ kind, ∀ predicate ∈ walkPredicates (breakout kind),
      AdmittedPredicate predicate := by
    intro kind predicate hpredicate
    rcases hlisted kind predicate hpredicate with rfl | rfl | rfl | rfl
    · exact ⟨trivial, trivial⟩
    · exact ⟨trivial, rfl⟩
    all_goals
      exact ⟨⟨by decide, by decide, ⟨by decide, by decide +kernel, by decide +kernel, by decide⟩,
        fun _ h => nomatch h⟩, rfl⟩
  refine ⟨hadmitted kind, hadmitted kind', fun predicate hpredicate other hother => ?_⟩
  rcases hlisted _ _ hpredicate with rfl | rfl | rfl | rfl
  · trivial
  · trivial
  · rcases hlisted _ _ hother with rfl | rfl | rfl | rfl
    exacts [trivial, trivial, fun _ => rfl, toldApart_twoMembers.1]
  · rcases hlisted _ _ hother with rfl | rfl | rfl | rfl
    exacts [trivial, trivial, toldApart_twoMembers.2, fun _ => rfl]

theorem breakout_admitted (kind : String) : (breakout kind).Admitted where
  predicates := (comparable_breakout kind kind).left
  buys level hlevel := by
    rw [List.mem_singleton.mp hlevel]
    show 25 ∈ BUY_LEVEL_PERCENTAGES
    decide
  sells level hlevel := absurd hlevel List.not_mem_nil

/-- Two copies of one strategy. -/
theorem strategyDefinitionFingerprint_eq_iff_breakout :
    (strategyDefinitionFingerprint (breakout "first") = strategyDefinitionFingerprint (breakout "second")
        ↔ (breakout "first").logic = (breakout "second").logic)
      ∧ (breakout "first").logic = (breakout "second").logic :=
  ⟨strategyDefinitionFingerprint_eq_iff (breakout_admitted _) (breakout_admitted _)
    (comparable_breakout _ _).told, rfl⟩

/-- **The fingerprint of a level is its logic**: a Signal's that of the Signal, a FINAL EXIT's that of
all its rules, and the two are one text only when the exit has one rule, with that Signal. -/
theorem levelFingerprints_eq_iff {signal signal' : StrategySignal N}
    {finalExit other : StrategyFinalExit N}
    (hsignals : Comparable (signalPredicates signal) (signalPredicates signal'))
    (h : Comparable (exitPredicates finalExit) (exitPredicates other))
    (hboth : Comparable (exitPredicates finalExit) (signalPredicates signal)) :
    (strategySignalFingerprint signal = strategySignalFingerprint signal'
        ↔ signal.logic = signal'.logic)
      ∧ (strategyFinalExitFingerprint finalExit = strategyFinalExitFingerprint other
        ↔ finalExit.logic = other.logic)
      ∧ (strategyFinalExitFingerprint finalExit = strategySignalFingerprint signal
        ↔ ∃ rule, finalExit.rules = [rule] ∧ rule.signal.logic = signal.logic) := by
  have hwell := wellFormed_finalExitFingerprintValue h.left
  have hwellSignal := wellFormed_signalFingerprintValue hsignals.left
  unfold strategyFinalExitFingerprint strategySignalFingerprint
  refine ⟨?_, ?_, ?_⟩
  · rw [stringify_inj hwellSignal (wellFormed_signalFingerprintValue hsignals.right),
      signalFingerprintValue_eq_iff hsignals]
  · rw [stringify_inj hwell (wellFormed_finalExitFingerprintValue h.right),
      finalExitFingerprintValue_eq_iff h]
  · rw [stringify_inj hwell hwellSignal]
    rcases one_or_many finalExit with ⟨rule, hone⟩ | hmany
    · have hsub := rule_subset_predicates (hone ▸ List.mem_cons_self : rule ∈ finalExit.rules)
      rw [finalExitFingerprintValue_of_one hone,
        signalFingerprintValue_eq_iff (hboth.mono hsub (List.Subset.refl _))]
      constructor
      · intro hsame
        exact ⟨rule, hone, hsame⟩
      · rintro ⟨rule', hrule', hsame⟩
        rw [hone] at hrule'
        rwa [(List.cons.inj hrule').1]
    · rw [finalExitFingerprintValue_of_many hmany]
      refine iff_of_false (signalFingerprintValue_ne_or _ _).symm ?_
      rintro ⟨rule, hrule, -⟩
      exact hmany rule hrule

theorem levelFingerprints_eq_iff_stop :
    strategyFinalExitFingerprint (stopExit "first") = strategySignalFingerprint (stopSignal "second") := by
  have hcomparable : ∀ kind kind' : String,
      Comparable (signalPredicates (stopSignal kind)) (signalPredicates (stopSignal kind')) :=
    fun kind kind' => (comparable_breakout kind kind').mono (List.subset_cons_self _ _)
      (List.subset_cons_self _ _)
  have hexit : Comparable (exitPredicates (stopExit "first")) (exitPredicates (stopExit "first")) :=
    hcomparable "first" "first"
  obtain ⟨-, -, hboth⟩ := levelFingerprints_eq_iff (hcomparable "second" "second") hexit
    (hcomparable "first" "second")
  exact hboth.mpr ⟨_, rfl, rfl⟩

end Told

end Values

end FactorSage
