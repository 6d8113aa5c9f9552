import FactorSage.Strategy.OperandKeys

/-!
# Collected columns and read columns

The collectors and the evaluator walk a definition separately, and both ask one predicate for its
columns. `mem_reads_succ_iff` says what an evaluation reads from the second row on: the columns the
market-derived predicates name. On the first row no Trigger reads anything. The collected lists hold
the same columns by source (`collectsReads`), and price: the evaluated stock's list always has it,
for valuation and execution, whether or not a predicate names it.

The position-dependent predicates are collected like the others and read no column. They name none
either, because their values are percentages (`ConstantPositionValues`); the validator asks it.
-/

namespace FactorSage

open JsonText JsonInteger
open MetricSignature (fieldSeparator after_append)

variable {F : Type}

/-! ### What is collected -/

theorem mem_addKey {keys : List OperandKey} {key other : OperandKey} :
    other ∈ addKey keys key ↔ other ∈ keys ∨ other = key := by
  unfold addKey
  split
  · next hmem =>
    exact ⟨.inl, fun h => h.elim id fun heq => heq ▸ hmem⟩
  · rw [List.mem_append, List.mem_singleton]

variable {key : OperandKey}

theorem mem_foldl_addKey {named keys : List OperandKey} :
    key ∈ named.foldl addKey keys ↔ key ∈ keys ∨ key ∈ named := by
  induction named generalizing keys with
  | nil => simp
  | cons first rest ih =>
    rw [List.foldl_cons, ih, mem_addKey, List.mem_cons, or_assoc]

/-- A walk that adds the columns of the predicates it takes. -/
theorem mem_foldl_walk (p : StrategyPredicate F → Prop) (named : StrategyPredicate F → List OperandKey)
    {visit : List OperandKey → StrategyPredicate F → List OperandKey}
    (hvisit : ∀ keys predicate key, key ∈ visit keys predicate
      ↔ key ∈ keys ∨ p predicate ∧ key ∈ named predicate)
    (walk : List (StrategyPredicate F)) (keys : List OperandKey) (key : OperandKey) :
    key ∈ walk.foldl visit keys
      ↔ key ∈ keys ∨ ∃ predicate ∈ walk, p predicate ∧ key ∈ named predicate := by
  induction walk generalizing keys with
  | nil => simp
  | cons first rest ih =>
    rw [List.foldl_cons, ih, hvisit, or_assoc]
    simp only [List.mem_cons, exists_eq_or_imp]

theorem mem_sortKeys {keys : List OperandKey} : key ∈ sortKeys keys ↔ key ∈ keys :=
  ComparatorSort.mem_sortBy

variable {definition : StrategyDefinition F}

/-- The columns of the evaluated stock. -/
theorem mem_collectOperands_iff :
    key ∈ collectOperands definition ↔ key = priceOperand ∨ ∃ predicate ∈ walkPredicates definition,
      strategyMetricSource predicate.1 = none ∧ key ∈ namedOperands predicate none := by
  unfold collectOperands
  rw [mem_sortKeys, mem_foldl_walk (fun predicate => strategyMetricSource predicate.1 = none)
    (fun predicate => namedOperands predicate none) ?_ (walkPredicates definition), List.mem_singleton]
  intro keys predicate other
  cases strategyMetricSource predicate.1 with
  | none => exact mem_foldl_addKey.trans (by simp)
  | some source => simp

/-- The columns of the stock's sector. -/
theorem mem_collectSectorOperands_iff :
    key ∈ collectSectorOperands definition ↔ ∃ predicate ∈ walkPredicates definition,
      strategyMetricSource predicate.1 = some .stockSector
        ∧ key ∈ namedOperands predicate (some .stockSector) := by
  unfold collectSectorOperands
  rw [mem_sortKeys, mem_foldl_walk
    (fun predicate => strategyMetricSource predicate.1 = some .stockSector)
    (fun predicate => namedOperands predicate (some .stockSector)) ?_ (walkPredicates definition)]
  · simp only [List.not_mem_nil, false_or]
  intro keys predicate other
  match strategyMetricSource predicate.1 with
  | none => simp
  | some (.etf code) => simp
  | some .stockSector => exact mem_foldl_addKey.trans (by simp)

/-- The columns grouped under one ETF, as the walk adds them. -/
theorem mem_foldl_addEtfOperands (walk : List (StrategyPredicate F))
    (byCode : OrderedMap StrategyEtfSourceCode (List OperandKey)) (code : StrategyEtfSourceCode)
    (key : OperandKey) :
    key ∈ ((walk.foldl addEtfOperands byCode).get? code).getD []
      ↔ key ∈ (byCode.get? code).getD [] ∨ ∃ predicate ∈ walk,
        strategyMetricSource predicate.1 = some (.etf code)
          ∧ key ∈ namedOperands predicate (some (.etf code)) := by
  induction walk generalizing byCode with
  | nil => simp
  | cons first rest ih =>
    have hstep : key ∈ ((addEtfOperands byCode first).get? code).getD []
        ↔ key ∈ (byCode.get? code).getD [] ∨ strategyMetricSource first.1 = some (.etf code)
          ∧ key ∈ namedOperands first (some (.etf code)) := by
      unfold addEtfOperands
      match strategyMetricSource first.1 with
      | none => simp
      | some .stockSector => simp
      | some (.etf other) =>
        dsimp only
        rw [OrderedMap.get?_set]
        by_cases hcode : code = other
        · subst hcode
          rw [if_pos rfl, Option.getD_some, mem_foldl_addKey]
          simp
        · rw [if_neg hcode]
          have hne : ¬ StrategyMetricSource.etf other = StrategyMetricSource.etf code := fun h =>
            hcode (StrategyMetricSource.etf.inj h).symm
          simp [hne]
    rw [List.foldl_cons, ih, hstep, or_assoc]
    simp only [List.mem_cons, exists_eq_or_imp]

/-- The columns of an ETF. -/
theorem mem_collectEtfOperands_iff {localeCompare : String → String → ℤ}
    {code : StrategyEtfSourceCode} :
    key ∈ ((collectEtfOperands localeCompare definition).get? code).getD []
      ↔ ∃ predicate ∈ walkPredicates definition, strategyMetricSource predicate.1 = some (.etf code)
        ∧ key ∈ namedOperands predicate (some (.etf code)) := by
  have hwalk := mem_foldl_addEtfOperands (walkPredicates definition) .empty code key
  rw [OrderedMap.get?_empty, Option.getD_none] at hwalk
  simp only [List.not_mem_nil, false_or] at hwalk
  rw [← hwalk]
  unfold collectEtfOperands
  set byCode := (walkPredicates definition).foldl addEtfOperands .empty
  -- sorting and rebuilding keeps each code's columns
  have hget : ∀ keys, (OrderedMap.ofList ((ComparatorSort.sortBy
      (fun left right => localeCompare left.1.code right.1.code) byCode.entries).map
        fun entry => (entry.1, sortKeys entry.2))).get? code = some keys
      ↔ ∃ added, byCode.get? code = some added ∧ sortKeys added = keys := by
    intro keys
    rw [OrderedMap.get?_ofList_iff]
    · simp only [List.mem_map, ComparatorSort.mem_sortBy, Prod.mk.injEq]
      constructor
      · rintro ⟨⟨entryCode, added⟩, hmem, rfl, rfl⟩
        exact ⟨added, OrderedMap.mem_entries_iff.mp hmem, rfl⟩
      · rintro ⟨added, hadded, rfl⟩
        exact ⟨(code, added), OrderedMap.mem_entries_iff.mpr hadded, rfl, rfl⟩
    · rw [List.map_map]
      exact ((ComparatorSort.sortBy_perm _ byCode.entries).map Prod.fst).nodup_iff.mpr byCode.nodup
  cases hcode : byCode.get? code with
  | none =>
    have hnone : (OrderedMap.ofList ((ComparatorSort.sortBy
        (fun left right => localeCompare left.1.code right.1.code) byCode.entries).map
          fun entry => (entry.1, sortKeys entry.2))).get? code = none := by
      refine Option.eq_none_iff_forall_ne_some.mpr fun keys hkeys => ?_
      obtain ⟨added, hadded, -⟩ := (hget keys).mp hkeys
      rw [hcode] at hadded
      exact nomatch hadded
    rw [hnone]
  | some added =>
    rw [(hget (sortKeys added)).mpr ⟨added, hcode, rfl⟩]
    exact mem_sortKeys

/-! ### What is read -/

theorem Traced.reads_bind {α β : Type} (x : Traced α) (f : α → Traced β) :
    (x >>= f).reads = x.reads ++ (f x.value).reads := rfl

theorem Traced.reads_pure {α : Type} (a : α) : (pure a : Traced α).reads = [] := rfl

theorem tracedAll_value {α : Type} (evaluate : α → Traced Evaluability) (l : List α) :
    (tracedAll evaluate l).value = l.map fun a => (evaluate a).value := by
  induction l with
  | nil => rfl
  | cons a rest ih =>
    change (evaluate a).value :: (tracedAll evaluate rest).value = _
    rw [ih, List.map_cons]

theorem mem_tracedAll_reads {α : Type} {evaluate : α → Traced Evaluability} {l : List α} :
    key ∈ (tracedAll evaluate l).reads ↔ ∃ a ∈ l, key ∈ (evaluate a).reads := by
  induction l with
  | nil => exact iff_of_false List.not_mem_nil (by simp)
  | cons a rest ih =>
    have hreads : (tracedAll evaluate (a :: rest)).reads
        = (evaluate a).reads ++ ((tracedAll evaluate rest).reads ++ []) := rfl
    rw [hreads, List.append_nil, List.mem_append, ih]
    simp only [List.mem_cons, exists_eq_or_imp]

variable [JsNumber F]

theorem resolveValueTraced_value (value : StrategyValue F) (source : Option StrategyMetricSource)
    (frame : EvaluationFrame F) (index : ℕ) :
    (resolveValueTraced value source frame index).value = resolveValue value source frame index := by
  cases value <;> rfl

theorem resolveValueTraced_reads (value : StrategyValue F) (source : Option StrategyMetricSource)
    (frame : EvaluationFrame F) (index : ℕ) :
    (resolveValueTraced value source frame index).reads = (valueOperand value source).toList := by
  cases value <;> rfl

theorem evaluateMarketConditionTraced_value (condition : StrategyCondition F)
    (frame : EvaluationFrame F) (index : ℕ) :
    (evaluateMarketConditionTraced condition frame index).value
      = evaluateMarketCondition condition frame index := by
  unfold evaluateMarketConditionTraced evaluateMarketCondition
  cases metricOperand condition.metric with
  | none => rfl
  | some key =>
    dsimp only
    rw [← resolveValueTraced_value]
    rfl

theorem evaluateMarketTriggerTraced_value (trigger : StrategyTrigger F) (frame : EvaluationFrame F)
    (index : ℕ) :
    (evaluateMarketTriggerTraced trigger frame index).value
      = evaluateMarketTrigger trigger frame index := by
  unfold evaluateMarketTriggerTraced evaluateMarketTrigger
  cases metricOperand trigger.metric with
  | none => rfl
  | some key =>
    cases index with
    | zero => rfl
    | succ previous =>
      dsimp only
      rw [← resolveValueTraced_value, ← resolveValueTraced_value]
      rfl

/-- **The recorded evaluation is the evaluation.** -/
theorem evaluateDefinition_value (definition : StrategyDefinition F) (frame : EvaluationFrame F)
    (index : ℕ) :
    (evaluateDefinition definition frame index).value
      = (definitionSignals definition).map fun signal => evaluateMarketSignal signal frame index := by
  unfold evaluateDefinition
  rw [tracedAll_value]
  refine List.map_congr_left fun signal _ => ?_
  unfold evaluateMarketSignalTraced evaluateMarketSignal
  simp only [← evaluateMarketConditionTraced_value, ← evaluateMarketTriggerTraced_value]
  rw [← tracedAll_value, ← tracedAll_value]
  rfl

/-- A predicate decided from a frame alone names the columns of its metric's source. -/
def PredicateReads (predicate : StrategyPredicate F) (key : OperandKey) : Prop :=
  isPositionDependentMetric predicate.1 = false
    ∧ key ∈ namedOperands predicate (strategyMetricSource predicate.1)

/-- Every metric but a position one has a column. -/
theorem metricOperand_eq_none_iff (metric : StrategyMetric) :
    metricOperand metric = none ↔ isPositionDependentMetric metric = true := by
  have hposition : isPositionDependentMetric metric = true ↔ stockMetricOperand metric = none := by
    cases metric <;> simp [isPositionDependentMetric, stockMetricOperand]
  have hwithout : stockMetricOperand (withoutMetricSource metric) = stockMetricOperand metric := by
    cases metric <;> rfl
  rw [hposition]
  unfold metricOperand
  cases strategyMetricSource metric with
  | none => exact Iff.rfl
  | some source => rw [Option.map_eq_none_iff, hwithout]

variable {frame : EvaluationFrame F} {index : ℕ}

/-- A Condition reads the columns it names, on every row. -/
theorem mem_conditionReads_iff {condition : StrategyCondition F}
    (h : isPositionDependentMetric condition.metric = false) :
    key ∈ (evaluateMarketConditionTraced condition frame index).reads
      ↔ key ∈ namedOperands (condition.metric, condition.value)
          (strategyMetricSource condition.metric) := by
  unfold evaluateMarketConditionTraced namedOperands
  cases hmetric : metricOperand condition.metric with
  | none =>
    rw [(metricOperand_eq_none_iff _).mp hmetric] at h
    exact nomatch h
  | some metricKey =>
    dsimp only
    rw [Traced.reads_bind, Traced.reads_bind, resolveValueTraced_reads, Traced.reads_pure,
      List.append_nil]
    rfl

/-- A Trigger reads the columns it names on every row that has a previous one. -/
theorem mem_triggerReads_iff {trigger : StrategyTrigger F}
    (h : isPositionDependentMetric trigger.metric = false) :
    key ∈ (evaluateMarketTriggerTraced trigger frame index).reads
      ↔ index ≠ 0 ∧ key ∈ namedOperands (trigger.metric, trigger.value)
          (strategyMetricSource trigger.metric) := by
  unfold evaluateMarketTriggerTraced namedOperands
  cases hmetric : metricOperand trigger.metric with
  | none =>
    rw [(metricOperand_eq_none_iff _).mp hmetric] at h
    exact nomatch h
  | some metricKey =>
    cases index with
    | zero => exact iff_of_false List.not_mem_nil fun hnot => hnot.1 rfl
    | succ previous =>
      dsimp only
      rw [Traced.reads_bind, Traced.reads_bind, Traced.reads_bind, Traced.reads_bind,
        resolveValueTraced_reads, resolveValueTraced_reads, Traced.reads_pure, List.append_nil]
      -- the previous row is read for the same two columns
      rw [and_iff_right (Nat.succ_ne_zero previous), ← List.append_assoc, List.mem_append]
      exact or_self_iff

/-- What a predicate of a Signal reads on a row. -/
def SignalReads (signal : StrategySignal F) (index : ℕ) (key : OperandKey) : Prop :=
  (∃ c ∈ signal.conditions, PredicateReads (c.metric, c.value) key)
    ∨ index ≠ 0 ∧ ∃ t ∈ signal.trigger, PredicateReads (t.metric, t.value) key

theorem mem_signalReads_iff {signal : StrategySignal F} :
    key ∈ (evaluateMarketSignalTraced signal frame index).reads ↔ SignalReads signal index key := by
  unfold evaluateMarketSignalTraced SignalReads
  rw [Traced.reads_bind, Traced.reads_bind, Traced.reads_pure, List.append_nil, List.mem_append,
    mem_tracedAll_reads, mem_tracedAll_reads]
  refine or_congr ?_ ?_
  · constructor
    · rintro ⟨c, hmem, hread⟩
      obtain ⟨hmem, hmarket⟩ := List.mem_filter.mp hmem
      rw [Bool.not_eq_true'] at hmarket
      exact ⟨c, hmem, hmarket, (mem_conditionReads_iff hmarket).mp hread⟩
    · rintro ⟨c, hmem, hmarket, hnamed⟩
      exact ⟨c, List.mem_filter.mpr ⟨hmem, by rw [hmarket]; rfl⟩,
        (mem_conditionReads_iff hmarket).mpr hnamed⟩
  · constructor
    · rintro ⟨t, hmem, hread⟩
      obtain ⟨hmem, hmarket⟩ := Option.mem_filter_iff.mp (Option.mem_toList.mp hmem)
      rw [Bool.not_eq_true'] at hmarket
      obtain ⟨hrow, hnamed⟩ := (mem_triggerReads_iff hmarket).mp hread
      exact ⟨hrow, t, hmem, hmarket, hnamed⟩
    · rintro ⟨hrow, t, hmem, hmarket, hnamed⟩
      exact ⟨t, Option.mem_toList.mpr (Option.mem_filter_iff.mpr ⟨hmem, by rw [hmarket]; rfl⟩),
        (mem_triggerReads_iff hmarket).mpr ⟨hrow, hnamed⟩⟩

omit [JsNumber F] in
theorem mem_signalPredicates_iff {signal : StrategySignal F} {predicate : StrategyPredicate F} :
    predicate ∈ signalPredicates signal ↔ (∃ c ∈ signal.conditions, (c.metric, c.value) = predicate)
      ∨ ∃ t ∈ signal.trigger, (t.metric, t.value) = predicate := by
  unfold signalPredicates
  rw [List.mem_append, List.mem_map, List.mem_map]
  simp only [Option.mem_toList, Option.mem_def]

theorem mem_reads_iff :
    key ∈ (evaluateDefinition definition frame index).reads
      ↔ ∃ signal ∈ definitionSignals definition, SignalReads signal index key := by
  unfold evaluateDefinition
  rw [mem_tracedAll_reads]
  simp only [mem_signalReads_iff]

/-- **From the second row on, what is read is what the market-derived predicates name.** -/
theorem mem_reads_succ_iff :
    key ∈ (evaluateDefinition definition frame (index + 1)).reads
      ↔ ∃ predicate ∈ walkPredicates definition, PredicateReads predicate key := by
  rw [mem_reads_iff]
  unfold walkPredicates
  constructor
  · rintro ⟨signal, hsignal, ⟨c, hmem, hreads⟩ | ⟨-, t, hmem, hreads⟩⟩
    · exact ⟨_, List.mem_flatMap.mpr ⟨signal, hsignal,
        mem_signalPredicates_iff.mpr (.inl ⟨c, hmem, rfl⟩)⟩, hreads⟩
    · exact ⟨_, List.mem_flatMap.mpr ⟨signal, hsignal,
        mem_signalPredicates_iff.mpr (.inr ⟨t, hmem, rfl⟩)⟩, hreads⟩
  · rintro ⟨predicate, hpredicate, hreads⟩
    obtain ⟨signal, hsignal, hmem⟩ := List.mem_flatMap.mp hpredicate
    refine ⟨signal, hsignal, ?_⟩
    rcases mem_signalPredicates_iff.mp hmem with ⟨c, hc, rfl⟩ | ⟨t, ht, rfl⟩
    · exact .inl ⟨c, hc, hreads⟩
    · exact .inr ⟨Nat.succ_ne_zero index, t, ht, hreads⟩

/-- The first row reads no more than the others. -/
theorem mem_reads_of_mem_reads (h : key ∈ (evaluateDefinition definition frame index).reads) :
    key ∈ (evaluateDefinition definition frame (index + 1)).reads := by
  obtain ⟨signal, hsignal, hreads⟩ := mem_reads_iff.mp h
  exact mem_reads_iff.mpr ⟨signal, hsignal, hreads.imp_right fun h => ⟨Nat.succ_ne_zero index, h.2⟩⟩

/-! ### Collected and read -/

/-- The source a key is read from. -/
def keySource (key : OperandKey) : Option StrategyMetricSource :=
  match decodeEtfOperand (lit key) with
  | some (code, _) => some (.etf code)
  | none => (decodeSectorOperand (lit key)).map fun _ => .stockSector

/-- A key of the evaluated stock's own families. -/
def StockKey (key : OperandKey) : Prop :=
  ∃ (f : OperandFamily) (x : Text), lit key = f.pre ++ x ∧ f ≠ .etf ∧ f ≠ .sector

theorem stockKey_append {f : OperandFamily} {pre : String} (hpre : lit pre = f.pre) (id : String)
    (hetf : f ≠ .etf) (hsector : f ≠ .sector) : StockKey (pre ++ id) :=
  ⟨f, lit id, by rw [lit_append, hpre], hetf, hsector⟩

theorem stockKey_series (seriesId : SelectableSeriesId) : StockKey (seriesOperand seriesId) :=
  stockKey_append (f := .series) rfl seriesId.id nofun nofun

theorem stockKey_of_stockMetricOperand {metric : StrategyMetric}
    (h : stockMetricOperand metric = some key) : StockKey key := by
  cases metric with
  | gain => exact nomatch h
  | loss => exact nomatch h
  | price source =>
    rw [← Option.some.inj h]
    exact ⟨.price, [], (List.append_nil _).symm, nofun, nofun⟩
  | movingAverage seriesId source =>
    rw [← Option.some.inj h]
    exact stockKey_series seriesId
  | oscillator seriesId source =>
    rw [← Option.some.inj h]
    exact stockKey_series seriesId
  | relativeVolume period source =>
    rw [← Option.some.inj h]
    exact stockKey_append (f := .relativeVolume) rfl _ nofun nofun
  | marginOfSafety sourceId =>
    rw [← Option.some.inj h]
    exact stockKey_append (f := .marginOfSafety) rfl _ nofun nofun
  | valuationRatio ratioId =>
    rw [← Option.some.inj h]
    exact stockKey_append (f := .valuation) rfl _ nofun nofun
  | fundamental metricId =>
    rw [← Option.some.inj h]
    exact stockKey_append (f := .fundamental) rfl _ nofun nofun
  | insiderActivity activity =>
    rw [← Option.some.inj h]
    exact stockKey_append (f := .alternativeData) rfl _ nofun nofun
  | congressActivity activity =>
    rw [← Option.some.inj h]
    exact stockKey_append (f := .alternativeData) rfl _ nofun nofun

/-- A key read under a source tells the source. -/
theorem keySource_sourcedOperand {base : OperandKey} (h : StockKey base)
    (source : Option StrategyMetricSource) : keySource (sourcedOperand base source) = source := by
  obtain ⟨f, x, hbase, hetf, hsector⟩ := h
  have hne : lit base ≠ [] := by
    rw [hbase]
    exact fun h => f.pre_ne_nil (List.append_eq_nil_iff.mp h).1
  -- no family but the ETFs' reads as one
  have hnone : ∀ (g : OperandFamily) (y : Text), g ≠ .etf → decodeEtfOperand (g.pre ++ y) = none := by
    intro g y hg
    have hafter := after_pre .etf g y
    rw [if_neg hg.symm] at hafter
    unfold decodeEtfOperand
    change (MetricSignature.after OperandFamily.etf.pre _).bind _ = none
    rw [hafter]
    rfl
  unfold keySource
  match source with
  | none =>
    have hafter := after_pre .sector f x
    rw [if_neg hsector.symm] at hafter
    have hdecode : decodeSectorOperand (f.pre ++ x) = none := by
      unfold decodeSectorOperand
      change (MetricSignature.after OperandFamily.sector.pre _).bind _ = none
      rw [hafter]
      rfl
    change (match decodeEtfOperand (lit base) with
      | some (code, _) => some (StrategyMetricSource.etf code)
      | none => (decodeSectorOperand (lit base)).map fun _ => .stockSector) = none
    rw [hbase, hnone f x hetf, hdecode]
    rfl
  | some (.etf code) =>
    change (match decodeEtfOperand (lit (etfOperand code base)) with
      | some (code, _) => some (StrategyMetricSource.etf code)
      | none => (decodeSectorOperand (lit (etfOperand code base))).map fun _ => .stockSector) = _
    rw [lit_etfOperand, readEtf_payload code hne]
  | some .stockSector =>
    have hdecode : decodeSectorOperand (SECTOR_PREFIX ++ lit base) = some (lit base) := by
      unfold decodeSectorOperand
      rw [after_append, Option.bind_some, if_neg hne]
    change (match decodeEtfOperand (lit (sectorOperand base)) with
      | some (code, _) => some (StrategyMetricSource.etf code)
      | none => (decodeSectorOperand (lit (sectorOperand base))).map fun _ => .stockSector) = _
    rw [lit_sectorOperand, hdecode]
    change (match decodeEtfOperand (OperandFamily.sector.pre ++ lit base) with
      | some (code, _) => some (StrategyMetricSource.etf code)
      | none => some .stockSector) = _
    rw [hnone .sector (lit base) nofun]

/-- A metric's column is a stock column under the metric's source. -/
theorem metricOperand_sourced {metric : StrategyMetric} (h : metricOperand metric = some key) :
    ∃ base, StockKey base ∧ key = sourcedOperand base (strategyMetricSource metric) := by
  unfold metricOperand at h
  cases hsource : strategyMetricSource metric with
  | none =>
    rw [hsource] at h
    exact ⟨key, stockKey_of_stockMetricOperand h, rfl⟩
  | some source =>
    rw [hsource] at h
    obtain ⟨base, hbase, hkey⟩ := Option.map_eq_some_iff.mp h
    exact ⟨base, stockKey_of_stockMetricOperand hbase, hkey.symm⟩

omit [JsNumber F] in
/-- **The columns a predicate names are of its metric's source.** -/
theorem keySource_of_mem_namedOperands {predicate : StrategyPredicate F}
    (h : key ∈ namedOperands predicate (strategyMetricSource predicate.1)) :
    keySource key = strategyMetricSource predicate.1 := by
  unfold namedOperands at h
  rcases List.mem_append.mp h with hmetric | hvalue
  · obtain ⟨base, hbase, rfl⟩ := metricOperand_sourced (Option.mem_toList.mp hmetric)
    exact keySource_sourcedOperand hbase _
  · obtain ⟨metric, value⟩ := predicate
    cases value with
    | series seriesId =>
      rw [List.mem_singleton.mp hvalue]
      exact keySource_sourcedOperand (stockKey_series seriesId) _
    | _ => exact absurd hvalue List.not_mem_nil

/-- A position metric is compared with a constant, as the validator asks. -/
def ConstantPositionValues (definition : StrategyDefinition F) : Prop :=
  ∀ predicate ∈ walkPredicates definition, isPositionDependentMetric predicate.1 = true →
    valueOperand predicate.2 none = none

/-- A position metric has no source. -/
theorem strategyMetricSource_of_position {metric : StrategyMetric}
    (h : isPositionDependentMetric metric = true) : strategyMetricSource metric = none := by
  cases metric with
  | gain => rfl
  | loss => rfl
  | _ => exact nomatch h

/-- What the predicates of one source name, read or not, is what is read from it. -/
theorem exists_named_iff (hconstant : ConstantPositionValues definition)
    {source : Option StrategyMetricSource} :
    (∃ predicate ∈ walkPredicates definition, strategyMetricSource predicate.1 = source
        ∧ key ∈ namedOperands predicate source)
      ↔ key ∈ (evaluateDefinition definition frame (index + 1)).reads ∧ keySource key = source := by
  rw [mem_reads_succ_iff]
  constructor
  · rintro ⟨predicate, hpredicate, rfl, hnamed⟩
    refine ⟨⟨predicate, hpredicate, ?_, hnamed⟩, keySource_of_mem_namedOperands hnamed⟩
    rw [← Bool.not_eq_true]
    intro hposition
    -- a position predicate names nothing
    have hnone := strategyMetricSource_of_position hposition
    unfold namedOperands at hnamed
    rw [(metricOperand_eq_none_iff _).mpr hposition, hnone,
      hconstant predicate hpredicate hposition] at hnamed
    exact absurd hnamed List.not_mem_nil
  · rintro ⟨⟨predicate, hpredicate, -, hnamed⟩, rfl⟩
    have hsource := keySource_of_mem_namedOperands hnamed
    exact ⟨predicate, hpredicate, hsource.symm, by rwa [hsource]⟩

/-- What the collected lists hold, for some reads: the columns read from each source, and price. -/
structure CollectsReads (localeCompare : String → String → ℤ) (definition : StrategyDefinition F)
    (reads : List OperandKey) : Prop where
  stock : ∀ key, key ∈ collectOperands definition
    ↔ key = priceOperand ∨ key ∈ reads ∧ keySource key = none
  etf : ∀ code key, key ∈ ((collectEtfOperands localeCompare definition).get? code).getD []
    ↔ key ∈ reads ∧ keySource key = some (.etf code)
  sector : ∀ key, key ∈ collectSectorOperands definition
    ↔ key ∈ reads ∧ keySource key = some .stockSector

/-- **The collected lists are price and what any row but the first reads.** -/
theorem collectsReads (localeCompare : String → String → ℤ)
    (hconstant : ConstantPositionValues definition) (frame : EvaluationFrame F) (index : ℕ) :
    CollectsReads localeCompare definition (evaluateDefinition definition frame (index + 1)).reads where
  stock key := by rw [mem_collectOperands_iff, exists_named_iff hconstant]
  etf code key := by rw [mem_collectEtfOperands_iff, exists_named_iff hconstant]
  sector key := by rw [mem_collectSectorOperands_iff, exists_named_iff hconstant]

/-- Every collected key. -/
def Collected (localeCompare : String → String → ℤ) (definition : StrategyDefinition F)
    (key : OperandKey) : Prop :=
  key ∈ collectOperands definition
    ∨ (∃ code, key ∈ ((collectEtfOperands localeCompare definition).get? code).getD [])
    ∨ key ∈ collectSectorOperands definition

/-- A key has a column in a frame; the closes are the column of price. -/
def HasColumn (frame : EvaluationFrame F) (key : OperandKey) : Prop :=
  key = priceOperand ∨ (frame.columns.get? key).isSome = true

/-- **Whatever a row reads is collected.** -/
theorem collected_of_mem_reads {localeCompare : String → String → ℤ}
    (hconstant : ConstantPositionValues definition)
    (h : key ∈ (evaluateDefinition definition frame index).reads) :
    Collected localeCompare definition key := by
  have hreads := mem_reads_of_mem_reads h
  have hcollects := collectsReads localeCompare hconstant frame index
  match hsource : keySource key with
  | none => exact .inl ((hcollects.stock key).mpr (.inr ⟨hreads, hsource⟩))
  | some (.etf code) => exact .inr (.inl ⟨code, (hcollects.etf code key).mpr ⟨hreads, hsource⟩⟩)
  | some .stockSector => exact .inr (.inr ((hcollects.sector key).mpr ⟨hreads, hsource⟩))

/-- **Operand columns.** Keys of stored operands are equal exactly when the operands are, and each
family's decoder gives back the operand a key encodes when no id it names holds a `|`. From the second
row on a definition reads exactly what is collected from each source, price apart, which is always
collected; and on a frame with the collected columns no row reads a missing one. -/
theorem operandColumns_exact :
    (∀ a b : Operand, a.Stored → b.Stored → (a.key = b.key ↔ a = b))
      ∧ (∀ a : Operand, a.Stored → (∀ id ∈ a.base.scopeIds, fieldSeparator ∉ lit id) → a.Decodes)
      ∧ ∀ (localeCompare : String → String → ℤ) (definition : StrategyDefinition F),
        ConstantPositionValues definition → ∀ (frame : EvaluationFrame F) (index : ℕ),
          (evaluateDefinition definition frame index).value
              = (definitionSignals definition).map (evaluateMarketSignal · frame index)
            ∧ CollectsReads localeCompare definition
              (evaluateDefinition definition frame (index + 1)).reads
            ∧ ((∀ key, Collected localeCompare definition key → HasColumn frame key) →
              ∀ key ∈ (evaluateDefinition definition frame index).reads, HasColumn frame key) := by
  refine ⟨fun a b ha hb => Operand.key_eq_iff ha hb, fun a hstored hids => Operand.decodes hstored hids,
    fun localeCompare definition hconstant frame index =>
      ⟨evaluateDefinition_value definition frame index,
        collectsReads localeCompare hconstant frame index, fun hcolumns key hkey => ?_⟩⟩
  exact hcolumns key (collected_of_mem_reads hconstant hkey)

/-- One BUY level, when the 14-day RSI is below 30. -/
def rsiBelow30 : StrategyDefinition ExactNumber where
  buyLevels :=
    [{ id := "level"
       signal :=
        { conditions :=
            [{ id := "condition", metric := .oscillator .rsi14D none, operator := .isBelow
               value := .number (.finite 30) }]
          trigger := none }
       percentage := 100 }]
  sellLevels := []
  finalExit := none

theorem rsiBelow30_reads (frame : EvaluationFrame ExactNumber) (index : ℕ) :
    (evaluateDefinition rsiBelow30 frame index).reads = ["series:RSI_14D"] := rfl

/-- Two days of a stock whose RSI is 40 and then 25. -/
def rsiFrame : EvaluationFrame ExactNumber where
  securityId := "security"
  symbol := "ACME"
  name := "Acme"
  dates := [.ofYmd 2019 7 16, .ofYmd 2019 7 17]
  closes := [.finite 100, .finite 90]
  columns := .ofList [("series:RSI_14D", [.finite 40, .finite 25])]
  periodStartIndex := 0
  closes_length := rfl
  ascending := List.pairwise_pair.mpr (by decide)
  columns_length column hcolumn := by
    rw [List.mem_singleton.mp hcolumn]
    rfl

/-- An ETF's RSI and the sector's are two columns, an ETF's price is decoded, and the level reads the
one column its frame has. -/
theorem operandColumns_exact_rsi :
    (Operand.etf .etfXlk (.series .rsi14D)).key ≠ (Operand.sector (.series .rsi14D)).key
      ∧ decodeEtfOperand (lit (Operand.etf .etfXlk .price).key) = some (.etfXlk, lit "price")
      ∧ ∀ key ∈ (evaluateDefinition rsiBelow30 rsiFrame 1).reads, HasColumn rsiFrame key := by
  obtain ⟨hkeys, hdecodes, hdefinition⟩ := operandColumns_exact (F := ExactNumber)
  have hplain : ∀ base : StockOperand, base.alternativeData? = none → base.Stored := by
    intro base hbase metric hmetric
    rw [hbase] at hmetric
    exact nomatch hmetric
  refine ⟨fun h => ?_, (hdecodes (.etf .etfXlk .price) (hplain .price rfl) nofun).etf, ?_⟩
  · exact nomatch (hkeys (.etf .etfXlk (.series .rsi14D)) (.sector (.series .rsi14D))
      (hplain _ rfl) (hplain _ rfl)).mp h
  · have hconstant : ConstantPositionValues rsiBelow30 := by
      intro predicate hpredicate hposition
      rw [List.mem_singleton.mp hpredicate] at hposition
      exact nomatch hposition
    obtain ⟨-, -, hreads⟩ := hdefinition (fun _ _ => 0) rsiBelow30 hconstant rsiFrame 1
    refine hreads fun key hkey => ?_
    rcases hkey with hstock | ⟨code, hetf⟩ | hsector
    · rcases mem_collectOperands_iff.mp hstock with hprice | ⟨predicate, hmem, -, hnamed⟩
      · exact .inl hprice
      · rw [List.mem_singleton.mp hmem] at hnamed
        rw [List.mem_singleton.mp hnamed]
        exact .inr (by decide)
    · exact absurd hetf List.not_mem_nil
    · exact absurd hsector List.not_mem_nil

/-- Price is collected for a level whose evaluation never reads it. -/
theorem collects_unread_price :
    ∃ key ∈ collectOperands rsiBelow30, ∀ (frame : EvaluationFrame ExactNumber) (index : ℕ),
      key ∉ (evaluateDefinition rsiBelow30 frame index).reads := by
  refine ⟨priceOperand, mem_collectOperands_iff.mpr (.inl rfl), fun frame index => ?_⟩
  rw [rsiBelow30_reads]
  decide

end FactorSage
