import FactorSage.Strategy.Predicates

/-!
# Precomputed market gates

The market half of every level, evaluated over a whole frame before the first day is simulated and
read by index afterwards. BUY gates are complete; SELL and FINAL EXIT gates are ANDed with live
position predicates by the day loop, FINAL EXIT rule by rule.
-/

namespace FactorSage

variable {F : Type}

/-- One result per frame row. -/
abbrev MarketGate := List Evaluability

/-- The gates of one strategy over one frame, by level id. -/
structure StrategyGates where
  buy : OrderedMap String MarketGate
  sell : OrderedMap String MarketGate
  /-- One gate per FINAL EXIT rule, in definition order. -/
  finalExit : Option (List MarketGate)

def readGate (gate : Option MarketGate) (index : ℕ) : Evaluability :=
  match gate with
  | none => .notEvaluable
  | some gate => gate[index]?.getD .notEvaluable

variable [JsNumber F]

def buildMarketGate (signal : StrategySignal F) (frame : EvaluationFrame F) : MarketGate :=
  (List.range frame.dates.length).map fun index => evaluateMarketSignal signal frame index

def buildStrategyGates (definition : StrategyDefinition F) (frame : EvaluationFrame F) :
    StrategyGates where
  buy := .ofList (definition.buyLevels.map fun level =>
    (level.id, buildMarketGate level.signal frame))
  sell := .ofList (definition.sellLevels.map fun level =>
    (level.id, buildMarketGate level.signal frame))
  finalExit := definition.finalExit.map fun finalExit =>
    finalExit.rules.map fun rule => buildMarketGate rule.signal frame

/-! ### What a gate says at one row -/

theorem readGate_buildMarketGate {signal : StrategySignal F} {frame : EvaluationFrame F} {i : ℕ}
    (h : i < frame.dates.length) :
    readGate (some (buildMarketGate signal frame)) i = evaluateMarketSignal signal frame i := by
  simp [readGate, buildMarketGate, h]

variable {frame₁ frame₂ : EvaluationFrame F} {i j : ℕ}

/-- Gates built over two frames agree at rows with the same past. -/
theorem readGate_buildMarketGate_congr (h : SamePast frame₁ frame₂ i j)
    (hi : i < frame₁.dates.length) (hj : j < frame₂.dates.length) (signal : StrategySignal F) :
    readGate (some (buildMarketGate signal frame₁)) i
      = readGate (some (buildMarketGate signal frame₂)) j := by
  rw [readGate_buildMarketGate hi, readGate_buildMarketGate hj, evaluateMarketSignal_congr h]

/-- A map of gates written level by level answers a read with the last level of that id. -/
theorem readGate_ofList_congr (h : SamePast frame₁ frame₂ i j)
    (hi : i < frame₁.dates.length) (hj : j < frame₂.dates.length)
    (levels : List (String × StrategySignal F)) (id : String) :
    readGate ((OrderedMap.ofList (levels.map fun l =>
        (l.1, buildMarketGate l.2 frame₁))).get? id) i
      = readGate ((OrderedMap.ofList (levels.map fun l =>
        (l.1, buildMarketGate l.2 frame₂))).get? id) j := by
  induction levels using List.reverseRecOn with
  | nil => rfl
  | append_singleton levels level ih =>
    rw [List.map_append, List.map_append, List.map_singleton, List.map_singleton,
      OrderedMap.get?_ofList_append, OrderedMap.get?_ofList_append]
    by_cases hid : id = level.1
    · rw [if_pos hid, if_pos hid]
      exact readGate_buildMarketGate_congr h hi hj level.2
    · rw [if_neg hid, if_neg hid]
      exact ih

variable (definition : StrategyDefinition F)

theorem readGate_buy_congr (h : SamePast frame₁ frame₂ i j) (hi : i < frame₁.dates.length)
    (hj : j < frame₂.dates.length) (id : String) :
    readGate ((buildStrategyGates definition frame₁).buy.get? id) i
      = readGate ((buildStrategyGates definition frame₂).buy.get? id) j := by
  have hlevels := readGate_ofList_congr h hi hj
    (definition.buyLevels.map fun level => (level.id, level.signal)) id
  simpa [buildStrategyGates, List.map_map, Function.comp_def] using hlevels

theorem readGate_sell_congr (h : SamePast frame₁ frame₂ i j) (hi : i < frame₁.dates.length)
    (hj : j < frame₂.dates.length) (id : String) :
    readGate ((buildStrategyGates definition frame₁).sell.get? id) i
      = readGate ((buildStrategyGates definition frame₂).sell.get? id) j := by
  have hlevels := readGate_ofList_congr h hi hj
    (definition.sellLevels.map fun level => (level.id, level.signal)) id
  simpa [buildStrategyGates, List.map_map, Function.comp_def] using hlevels

theorem readGate_finalExit_congr (h : SamePast frame₁ frame₂ i j) (hi : i < frame₁.dates.length)
    (hj : j < frame₂.dates.length) (rule : ℕ) :
    readGate ((buildStrategyGates definition frame₁).finalExit.bind (·[rule]?)) i
      = readGate ((buildStrategyGates definition frame₂).finalExit.bind (·[rule]?)) j := by
  unfold buildStrategyGates
  cases definition.finalExit with
  | none => rfl
  | some finalExit =>
    simp only [Option.map_some, Option.bind_some, List.getElem?_map]
    cases finalExit.rules[rule]? with
    | none => rfl
    | some exitRule => exact readGate_buildMarketGate_congr h hi hj exitRule.signal

end FactorSage
