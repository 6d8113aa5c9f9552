import FactorSage.Strategy.Evaluability
import FactorSage.Strategy.Frame

/-!
# Market predicates

Conditions and Triggers decided from a frame alone. A Condition reads one row; a Trigger reads a row
and the one before it. `evaluateMarketSignal` is the conjunction of a Signal's market-derived
predicates: the position-dependent ones are left to the day loop.

Every operator the language has is a constructor here, so the branch that refuses an unknown one has
no counterpart.
-/

namespace FactorSage

open JsNumber

variable {F : Type} [JsNumber F]

/-- Both sides of a comparison are finite numbers. -/
def bothResolved (metric value : F) : Bool := isFinite metric && isFinite value

/-- `CLOSE_TO_BOUNDARY_SLACK`: `1e-12`. -/
def closeToBoundarySlack : F := ofDecimal (1 / 10 ^ 12)

/-- `abs(metric - value) <= 2% of abs(value)`, with the slack for decimals on the boundary. -/
def isCloseTo (metric value : F) : Bool :=
  let allowed := ofDecimal isCloseToTolerance * JsNumber.abs value
  le (JsNumber.abs (metric - value)) (allowed + allowed * closeToBoundarySlack)

def evaluateConditionValues (operator : ConditionOperator) (metric value : F) : Evaluability :=
  match operator with
  | .isAbove =>
    if bothResolved metric value then fromBoolean (lt value metric) else .notEvaluable
  | .isBelow =>
    if bothResolved metric value then fromBoolean (lt metric value) else .notEvaluable
  | .isCloseTo =>
    -- a zero comparison value leaves the ratio undefined
    if bothResolved metric value && !(JsNumber.eq value (ofInt 0)) then
      fromBoolean (isCloseTo metric value)
    else .notEvaluable

def evaluateTriggerValues (operator : TriggerOperator)
    (metric value previousMetric previousValue : F) : Evaluability :=
  if bothResolved metric value && bothResolved previousMetric previousValue then
    match operator with
    | .crossesAbove => fromBoolean (lt value metric && le previousMetric previousValue)
    | .crossesBelow => fromBoolean (lt metric value && le previousValue previousMetric)
  else .notEvaluable

/-- The right-hand side of a predicate at one frame index. -/
def resolveValue (value : StrategyValue F) (source : Option StrategyMetricSource)
    (frame : EvaluationFrame F) (index : ℕ) : F :=
  match value with
  | .series _ =>
    match valueOperand value source with
    | none => nan
    | some key => readOperand frame key index
  | .number v | .percent v | .multiple v | .money v => v

def evaluateMarketCondition (condition : StrategyCondition F) (frame : EvaluationFrame F)
    (index : ℕ) : Evaluability :=
  match metricOperand condition.metric with
  | none => .notEvaluable
  | some key =>
    evaluateConditionValues condition.operator (readOperand frame key index)
      (resolveValue condition.value (strategyMetricSource condition.metric) frame index)

/-- At frame index `0` there is no previous row, so every Trigger is `NOT_EVALUABLE`. -/
def evaluateMarketTrigger (trigger : StrategyTrigger F) (frame : EvaluationFrame F)
    (index : ℕ) : Evaluability :=
  match metricOperand trigger.metric, index with
  | none, _ | _, 0 => .notEvaluable
  | some key, previous + 1 =>
    let source := strategyMetricSource trigger.metric
    evaluateTriggerValues trigger.operator (readOperand frame key (previous + 1))
      (resolveValue trigger.value source frame (previous + 1)) (readOperand frame key previous)
      (resolveValue trigger.value source frame previous)

/-- The market-derived half of one Signal on one row. -/
def evaluateMarketSignal (signal : StrategySignal F) (frame : EvaluationFrame F) (index : ℕ) :
    Evaluability :=
  let conditions := signal.conditions.filter fun c => !isPositionDependentMetric c.metric
  let trigger := signal.trigger.filter fun t => !isPositionDependentMetric t.metric
  evaluabilityAll
    (conditions.map (fun c => evaluateMarketCondition c frame index)
      ++ trigger.toList.map fun t => evaluateMarketTrigger t frame index)

/-! ### Which rows a predicate reads -/

/-- Two frames read alike at a row of each: every operand has the same value there. -/
def ReadsAlike (frame₁ frame₂ : EvaluationFrame F) (index₁ index₂ : ℕ) : Prop :=
  ∀ key, readOperand frame₁ key index₁ = readOperand frame₂ key index₂

/-- Two frames have the same past at a row of each: they read alike there, and their previous rows
read alike or neither has one. -/
def SamePast (frame₁ frame₂ : EvaluationFrame F) : ℕ → ℕ → Prop
  | 0, 0 => ReadsAlike frame₁ frame₂ 0 0
  | i + 1, j + 1 => ReadsAlike frame₁ frame₂ (i + 1) (j + 1) ∧ ReadsAlike frame₁ frame₂ i j
  | _, _ => False

variable {frame₁ frame₂ : EvaluationFrame F} {i j : ℕ}

theorem SamePast.readsAlike (h : SamePast frame₁ frame₂ i j) : ReadsAlike frame₁ frame₂ i j := by
  cases i <;> cases j
  · exact h
  · exact h.elim
  · exact h.elim
  · exact h.1

theorem resolveValue_congr (h : ReadsAlike frame₁ frame₂ i j) (value : StrategyValue F)
    (source : Option StrategyMetricSource) :
    resolveValue value source frame₁ i = resolveValue value source frame₂ j := by
  cases value <;> simp [resolveValue, valueOperand, h _]

theorem evaluateMarketCondition_congr (h : ReadsAlike frame₁ frame₂ i j)
    (condition : StrategyCondition F) :
    evaluateMarketCondition condition frame₁ i = evaluateMarketCondition condition frame₂ j := by
  unfold evaluateMarketCondition
  split
  · rfl
  · rw [h, resolveValue_congr h]

theorem evaluateMarketTrigger_congr (h : SamePast frame₁ frame₂ i j)
    (trigger : StrategyTrigger F) :
    evaluateMarketTrigger trigger frame₁ i = evaluateMarketTrigger trigger frame₂ j := by
  unfold evaluateMarketTrigger
  cases metricOperand trigger.metric with
  | none => rfl
  | some key =>
    cases i with
    | zero => cases j with
      | zero => rfl
      | succ j => exact h.elim
    | succ i => cases j with
      | zero => exact h.elim
      | succ j =>
        obtain ⟨hnow, hprevious⟩ := h
        simp only [hnow key, hprevious key, resolveValue_congr hnow, resolveValue_congr hprevious]

/-- **A Signal reads one row and the one before it.** -/
theorem evaluateMarketSignal_congr (h : SamePast frame₁ frame₂ i j) (signal : StrategySignal F) :
    evaluateMarketSignal signal frame₁ i = evaluateMarketSignal signal frame₂ j := by
  unfold evaluateMarketSignal
  simp only [evaluateMarketCondition_congr h.readsAlike, evaluateMarketTrigger_congr h]

end FactorSage
