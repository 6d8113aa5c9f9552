import FactorSage.Monitor.Lifecycle
import FactorSage.Strategy.Predicates

/-!
# The levels a Monitor evaluates

A Monitor evaluates a level without a position: its Conditions and Triggers read the frame alone. The
lifecycle needs the Conditions and the Trigger of a rule apart (`observeMonitorLevel`); whether the
level matches at all is their conjunction, ORed over its rules (`evaluateLevelWithoutPosition`).
-/

namespace FactorSage

variable {F : Type}

inductive MonitorLevelKind where
  | buy | sell | finalExit
  deriving DecidableEq

/-- One Strategy level as a Monitor addresses it: its alternatives, and the identity each is stored
under. No two rows of a Strategy claim one identity. -/
structure MonitorStrategyLevel (F : Type) where
  id : String
  kind : MonitorLevelKind
  /-- The level's alternatives, ORed. -/
  rules : List (StrategySignal F)
  /-- Parallel to `rules`. -/
  ruleIds : List String
  /-- The canonical id-free serialization of the level's logic. -/
  fingerprint : String
  /-- Every alternative is triggered: a match is an event. -/
  hasTrigger : Bool
  ruleIds_length : ruleIds.length = rules.length
  ruleIds_nodup : ruleIds.Nodup

/-- Whether a Signal needs simulated position state to be decided at all. -/
def signalNeedsPositionState (signal : StrategySignal F) : Bool :=
  (signal.conditions.any fun condition => isPositionDependentMetric condition.metric)
    || signal.trigger.any fun trigger => isPositionDependentMetric trigger.metric

section Evaluation

variable [JsNumber F]

/-- One Signal on one frame index, evaluated without a position. -/
def evaluateSignalWithoutPosition (signal : StrategySignal F) (frame : EvaluationFrame F)
    (index : ℕ) : Evaluability :=
  let market := evaluateMarketSignal signal frame index
  if signalNeedsPositionState signal then evaluabilityAnd market .notEvaluable else market

/-- One whole level on one frame index: its alternatives, ORed. -/
def evaluateLevelWithoutPosition (rules : List (StrategySignal F)) (frame : EvaluationFrame F)
    (index : ℕ) : Evaluability :=
  evaluabilityAny (rules.map fun signal => evaluateSignalWithoutPosition signal frame index)

/-- The Conditions and the Trigger of one Signal, apart; `none` for a part it has not got. -/
def observeSignal (signal : StrategySignal F) (frame : EvaluationFrame F) (index : ℕ) :
    Option Evaluability × Option Evaluability :=
  (if signal.conditions.isEmpty then none
    else some (evaluabilityAll
      (signal.conditions.map fun condition => evaluateMarketCondition condition frame index)),
    signal.trigger.map fun trigger => evaluateMarketTrigger trigger frame index)

/-- A level's rules on one frame index. -/
def observeMonitorLevel (level : MonitorStrategyLevel F) (frame : EvaluationFrame F) (index : ℕ) :
    List MonitorRuleObservation :=
  (level.ruleIds.zip level.rules).map fun rule =>
    let observed := observeSignal rule.2 frame index
    { key := rule.1
      exitRuleId := if level.kind = .finalExit then some rule.1 else none
      conditions := observed.1
      trigger := observed.2 }

/-! ### Evidence -/

inductive PredicateRole where
  | condition | trigger
  deriving DecidableEq

/-- What one predicate read on one date; `none` for an operand that did not resolve. -/
structure PredicateEvidence (F : Type) where
  id : String
  role : PredicateRole
  result : Evaluability
  metric : Option F
  value : Option F
  /-- A Trigger's operands of the session before; `none` for a Condition, which has none. -/
  previous : Option (Option F × Option F)

def finiteOrNull (value : F) : Option F := if JsNumber.isFinite value then some value else none

/-- What a Condition read. -/
def explainCondition (condition : StrategyCondition F) (frame : EvaluationFrame F) (index : ℕ) :
    PredicateEvidence F where
  id := condition.id
  role := .condition
  result := evaluateMarketCondition condition frame index
  metric := finiteOrNull ((metricOperand condition.metric).elim JsNumber.nan
    fun key => readOperand frame key index)
  value := finiteOrNull
    (resolveValue condition.value (strategyMetricSource condition.metric) frame index)
  previous := none

/-- The operands of a Trigger at one position; neither resolves before the first row. -/
def triggerOperands (trigger : StrategyTrigger F) (frame : EvaluationFrame F)
    (position : Option ℕ) : Option F × Option F :=
  match metricOperand trigger.metric, position with
  | some key, some position =>
    (finiteOrNull (readOperand frame key position),
      finiteOrNull (resolveValue trigger.value (strategyMetricSource trigger.metric) frame position))
  | _, _ => (none, none)

/-- What a Trigger read. -/
def explainTrigger (trigger : StrategyTrigger F) (frame : EvaluationFrame F) (index : ℕ) :
    PredicateEvidence F where
  id := trigger.id
  role := .trigger
  result := evaluateMarketTrigger trigger frame index
  metric := (triggerOperands trigger frame (some index)).1
  value := (triggerOperands trigger frame (some index)).2
  previous := some (triggerOperands trigger frame
    (if index = 0 then none else some (index - 1)))

/-- The market-derived predicates of one Signal on one date. -/
def explainMarketSignal (signal : StrategySignal F) (frame : EvaluationFrame F) (index : ℕ) :
    List (PredicateEvidence F) :=
  ((signal.conditions.filter fun condition => !isPositionDependentMetric condition.metric).map
      fun condition => explainCondition condition frame index)
    ++ ((signal.trigger.filter fun trigger => !isPositionDependentMetric trigger.metric).map
      fun trigger => explainTrigger trigger frame index).toList

/-- The evidence behind one change: per rule, or for the Exit Rule that drove it alone. -/
structure MonitorTransitionEvidence (F : Type) where
  rules : List (String × List (PredicateEvidence F))

def explainMonitorLevel (level : MonitorStrategyLevel F) (frame : EvaluationFrame F) (index : ℕ)
    (exitRuleId : Option String) : MonitorTransitionEvidence F where
  rules := ((level.ruleIds.zip level.rules).filter fun rule =>
      exitRuleId.all fun driving => decide (rule.1 = driving)).map fun rule =>
    (rule.1, explainMarketSignal rule.2 frame index)

end Evaluation

/-! ### What a level observes -/

section Shapes

variable [JsNumber F]

/-- The rules of a level are observed under its ids, in order. -/
theorem map_key_observeMonitorLevel (level : MonitorStrategyLevel F) (frame : EvaluationFrame F)
    (index : ℕ) : (observeMonitorLevel level frame index).map (·.key) = level.ruleIds := by
  unfold observeMonitorLevel
  rw [List.map_map]
  exact List.map_fst_zip level.ruleIds_length.le

/-- Which parts a rule has does not depend on the session. -/
theorem observeSignal_isSome (signal : StrategySignal F) (frame : EvaluationFrame F) (index : ℕ) :
    (observeSignal signal frame index).1.isSome = !signal.conditions.isEmpty
      ∧ (observeSignal signal frame index).2.isSome = signal.trigger.isSome := by
  unfold observeSignal
  cases signal.conditions <;> simp

end Shapes

end FactorSage
