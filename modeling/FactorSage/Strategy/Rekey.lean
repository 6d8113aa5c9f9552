import FactorSage.Strategy.Fingerprint

/-!
# Re-keying a Strategy

Normalization rebuilds a definition row by row, in document order, and asks for the id of each row as
it goes: its own, or the next of a supply when the definition is copied.

* `rowIds` — the ids of a definition, in the order the builders ask for them.
* `rekeyStrategyDefinition_spec` — a copy has the ids of the supply, one a row, and the logic and the
  fingerprint of the definition it was made from.
* `normalizedDefinition_eq_iff` — a normalized document is its ids and its fingerprint.
-/

namespace FactorSage

open JsonText Digest

/-! ### Builders -/

section Builders

variable {N σ : Type}

/-- The id the builders give a row: the one it has, or a fresh one. -/
abbrev RowIdOf (σ : Type) := String → StateM σ String

def keepRowId : RowIdOf Unit := fun id => pure id

/-- The next id of a supply, and the number handed out. -/
def freshRowId (nextId : ℕ → String) : RowIdOf ℕ := fun _ => do
  let given ← get
  set (given + 1)
  return nextId given

def buildCondition (idOf : RowIdOf σ) (condition : StrategyCondition N) :
    StateM σ (StrategyCondition N) := do
  return { condition with id := ← idOf condition.id, metric := buildMetric condition.metric }

def buildTrigger (idOf : RowIdOf σ) (trigger : StrategyTrigger N) : StateM σ (StrategyTrigger N) := do
  return { trigger with id := ← idOf trigger.id, metric := buildMetric trigger.metric }

def buildSignal (idOf : RowIdOf σ) (signal : StrategySignal N) : StateM σ (StrategySignal N) := do
  let conditions ← signal.conditions.mapM (buildCondition idOf)
  let trigger ← signal.trigger.mapM (buildTrigger idOf)
  return { conditions, trigger }

def buildExitRule (idOf : RowIdOf σ) (rule : StrategyExitRule N) : StateM σ (StrategyExitRule N) := do
  return { id := ← idOf rule.id, signal := ← buildSignal idOf rule.signal }

def buildFinalExit (idOf : RowIdOf σ) (finalExit : StrategyFinalExit N) :
    StateM σ (StrategyFinalExit N) := do
  return { id := ← idOf finalExit.id, rules := ← finalExit.rules.mapM (buildExitRule idOf) }

def buildBuyLevel (idOf : RowIdOf σ) (level : StrategyBuyLevel N) : StateM σ (StrategyBuyLevel N) := do
  return { level with id := ← idOf level.id, signal := ← buildSignal idOf level.signal }

def buildSellLevel (idOf : RowIdOf σ) (level : StrategySellLevel N) :
    StateM σ (StrategySellLevel N) := do
  return { level with id := ← idOf level.id, signal := ← buildSignal idOf level.signal }

def buildDefinition (idOf : RowIdOf σ) (definition : StrategyDefinition N) :
    StateM σ (StrategyDefinition N) := do
  let buyLevels ← definition.buyLevels.mapM (buildBuyLevel idOf)
  let sellLevels ← definition.sellLevels.mapM (buildSellLevel idOf)
  let finalExit ← definition.finalExit.mapM (buildFinalExit idOf)
  return { buyLevels, sellLevels, finalExit }

/-- The same logic under ids of a supply. -/
def rekeyStrategyDefinition (definition : StrategyDefinition N) (nextId : ℕ → String) :
    StrategyDefinition N :=
  ((buildDefinition (freshRowId nextId) definition).run 0).1

/-- The definition that normalization returns of one that is valid. -/
def normalizedDefinition (definition : StrategyDefinition N) : StrategyDefinition N :=
  ((buildDefinition keepRowId definition).run ()).1

/-! ### Rows -/

/-- The ids of a Signal's rows. -/
def StrategySignal.rowIds (signal : StrategySignal N) : List String :=
  signal.conditions.flatMap (fun condition => [condition.id])
    ++ signal.trigger.elim [] fun trigger => [trigger.id]

def StrategyExitRule.rowIds (rule : StrategyExitRule N) : List String := rule.id :: rule.signal.rowIds

def StrategyFinalExit.rowIds (finalExit : StrategyFinalExit N) : List String :=
  finalExit.id :: finalExit.rules.flatMap (·.rowIds)

def StrategyBuyLevel.rowIds (level : StrategyBuyLevel N) : List String :=
  level.id :: level.signal.rowIds

def StrategySellLevel.rowIds (level : StrategySellLevel N) : List String :=
  level.id :: level.signal.rowIds

/-- The ids of a definition's rows, in document order. -/
def StrategyDefinition.rowIds (definition : StrategyDefinition N) : List String :=
  definition.buyLevels.flatMap (·.rowIds) ++ definition.sellLevels.flatMap (·.rowIds)
    ++ definition.finalExit.elim [] (·.rowIds)

end Builders

/-! ### Walks that read a part -/

section Walks

variable {α β γ σ : Type} {f : α → StateM σ β} {g : β → γ} {g' : α → γ}

/-- A walk of a list, its first element apart. -/
theorem mapM_cons_apply (f : α → StateM σ β) (a : α) (l : List α) (s : σ) :
    (a :: l).mapM f s
      = ((f a s).1 :: (l.mapM f (f a s).2).1, (l.mapM f (f a s).2).2) := by
  rw [List.mapM_cons]
  rfl

/-- What is read of each result is what is read of its source, and so of a list. -/
theorem map_mapM {l : List α} (h : ∀ a ∈ l, ∀ s, g (f a s).1 = g' a) (s : σ) :
    (l.mapM f s).1.map g = l.map g' := by
  induction l generalizing s with
  | nil => rfl
  | cons a rest ih =>
    rw [mapM_cons_apply, List.map_cons, List.map_cons, h a List.mem_cons_self,
      ih fun b hb => h b (List.mem_cons_of_mem _ hb)]

/-- The same of the part a row may have. -/
theorem map_mapM_option {o : Option α} (h : ∀ a ∈ o, ∀ s, g (f a s).1 = g' a) (s : σ) :
    (o.mapM f s).1.map g = o.map g' := by
  cases o with
  | none => rfl
  | some a => exact congrArg some (h a rfl s)

/-- A walk of what a list is mapped to. -/
theorem mapM_of_map {g : γ → α} {f' : γ → StateM σ β} (h : ∀ c, f (g c) = f' c) (l : List γ) :
    (l.map g).mapM f = l.mapM f' := by
  rw [List.mapM_map]
  exact congrArg l.mapM (funext h)

/-- A walk of what a part that may be there is mapped to. -/
theorem mapM_of_map_option {g : γ → α} {f' : γ → StateM σ β} (h : ∀ c, f (g c) = f' c)
    (o : Option γ) : (o.map g).mapM f = o.mapM f' := by
  cases o with
  | none => rfl
  | some c => exact congrArg (fun walk => (fun b => some b) <$> walk) (h c)

end Walks

section Fresh

variable {α β : Type} {nextId : ℕ → String}

/-- From the `given`-th id on, a walk hands out as many ids as its source has rows, in order. -/
def HandsOut (nextId : ℕ → String) (rows : ℕ) (ids : List String) (given left : ℕ) : Prop :=
  left = given + rows ∧ ids = (List.range' given rows).map nextId

/-- No rows, no ids. -/
theorem HandsOut.nil (given : ℕ) : HandsOut nextId 0 [] given given := ⟨rfl, rfl⟩

/-- One walk and then another. -/
theorem HandsOut.append {rows rows' given middle left : ℕ} {ids ids' : List String}
    (h : HandsOut nextId rows ids given middle) (h' : HandsOut nextId rows' ids' middle left) :
    HandsOut nextId (rows + rows') (ids ++ ids') given left := by
  obtain ⟨rfl, rfl⟩ := h
  obtain ⟨rfl, rfl⟩ := h'
  refine ⟨Nat.add_assoc _ _ _, ?_⟩
  rw [← List.map_append, List.range'_append_1]

/-- A row takes the next id. -/
theorem HandsOut.fresh (id : String) (given : ℕ) :
    HandsOut nextId 1 [(freshRowId nextId id given).1] given (freshRowId nextId id given).2 :=
  ⟨rfl, rfl⟩

/-- Rows of a list, one element after the other. -/
theorem HandsOut.mapM {f : α → StateM ℕ β} {ids : β → List String} {rows : α → ℕ} {l : List α}
    (h : ∀ a ∈ l, ∀ given, HandsOut nextId (rows a) (ids (f a given).1) given (f a given).2)
    (given : ℕ) :
    HandsOut nextId (l.map rows).sum ((l.mapM f given).1.flatMap ids) given (l.mapM f given).2 := by
  induction l generalizing given with
  | nil => exact .nil given
  | cons a rest ih =>
    have hrest := ih (fun b hb => h b (List.mem_cons_of_mem _ hb)) (f a given).2
    rw [mapM_cons_apply]
    exact (h a List.mem_cons_self given).append hrest

/-- Rows of a part that may be there. -/
theorem HandsOut.mapM_option {f : α → StateM ℕ β} {ids : β → List String} {rows : α → ℕ}
    {o : Option α}
    (h : ∀ a ∈ o, ∀ given, HandsOut nextId (rows a) (ids (f a given).1) given (f a given).2)
    (given : ℕ) :
    HandsOut nextId (o.elim 0 rows) ((o.mapM f given).1.elim [] ids) given (o.mapM f given).2 := by
  cases o with
  | none => exact .nil given
  | some a => exact h a rfl given

end Fresh

/-! ### A copy has the ids of the supply -/

section Supply

variable {N : Type} {nextId : ℕ → String}

/-- The rows of a list are those of its elements. -/
theorem length_elim_rows {α : Type} (ids : α → List String) (o : Option α) :
    (o.elim [] ids).length = o.elim 0 fun a => (ids a).length := by
  cases o <;> rfl

/-- A Signal's conditions come first, then its trigger. -/
theorem handsOut_signal (signal : StrategySignal N) (given : ℕ) :
    HandsOut nextId signal.rowIds.length
      (buildSignal (freshRowId nextId) signal given).1.rowIds given
      (buildSignal (freshRowId nextId) signal given).2 := by
  unfold StrategySignal.rowIds
  rw [List.length_append, List.length_flatMap, length_elim_rows]
  apply HandsOut.append
  · exact HandsOut.mapM (fun condition _ given => .fresh condition.id given) given
  · exact HandsOut.mapM_option (fun trigger _ given => .fresh trigger.id given) _

/-- A row with a Signal under it. -/
theorem HandsOut.row {signal : StrategySignal N} {id : String} (given : ℕ) :
    HandsOut nextId (id :: signal.rowIds).length
      ((freshRowId nextId id given).1
        :: (buildSignal (freshRowId nextId) signal (freshRowId nextId id given).2).1.rowIds)
      given (buildSignal (freshRowId nextId) signal (freshRowId nextId id given).2).2 := by
  rw [List.length_cons, Nat.add_comm]
  exact (HandsOut.fresh id given).append (handsOut_signal signal _)

/-- A final exit takes its id before its rules. -/
theorem handsOut_finalExit (finalExit : StrategyFinalExit N) (given : ℕ) :
    HandsOut nextId finalExit.rowIds.length
      (buildFinalExit (freshRowId nextId) finalExit given).1.rowIds given
      (buildFinalExit (freshRowId nextId) finalExit given).2 := by
  unfold StrategyFinalExit.rowIds
  rw [List.length_cons, Nat.add_comm, List.length_flatMap]
  apply (HandsOut.fresh finalExit.id given).append
  exact HandsOut.mapM (fun rule _ given => .row given) _

/-- **A copy asks for one id a row, in document order.** -/
theorem handsOut_definition (definition : StrategyDefinition N) (given : ℕ) :
    HandsOut nextId definition.rowIds.length
      (buildDefinition (freshRowId nextId) definition given).1.rowIds given
      (buildDefinition (freshRowId nextId) definition given).2 := by
  unfold StrategyDefinition.rowIds
  rw [List.length_append, List.length_append, List.length_flatMap, List.length_flatMap,
    length_elim_rows]
  apply HandsOut.append
  · apply HandsOut.append
    · exact HandsOut.mapM (fun level _ given => .row given) given
    · exact HandsOut.mapM (fun level _ given => .row given) _
  · exact HandsOut.mapM_option (fun finalExit _ given => handsOut_finalExit finalExit given) _

end Supply

/-! ### A copy has the logic of its source -/

/-- Cutting a vocabulary down twice cuts it down once. -/
theorem filter_contains_idem {α : Type} [DecidableEq α] (allowed values : List α) :
    allowed.filter (allowed.filter values.contains).contains = allowed.filter values.contains := by
  apply List.filter_congr
  intro a ha
  rw [List.contains_eq_mem, List.contains_eq_mem, decide_eq_decide, List.mem_filter,
    List.contains_eq_mem, decide_eq_true_eq, and_iff_right ha]

/-- The builder leaves a canonical scope alone. -/
theorem ActorScope.build_idem (scope : ActorScope) : scope.build.build = scope.build := by
  have hcanonical : ∀ actorIds : List String,
      canonicalActorIds (canonicalActorIds actorIds) = canonicalActorIds actorIds := by
    intro actorIds
    apply canonicalActorIds_of_units
    rw [map_lit_canonicalActorIds, MetricSignature.canonicalActorIds_idem]
  cases scope with
  | any => rfl
  | group groupId => rfl
  | actor actorId =>
    have hone : canonicalActorIds [actorId] = [actorId] :=
      canonicalActorIds_of_units (MetricSignature.canonicalActorIds_singleton (lit actorId))
    simp only [build, hone]
  | actors actorIds selects => simp only [build, hcanonical]

/-- The builder leaves a canonical metric alone. -/
theorem buildMetric_idem (metric : StrategyMetric) :
    buildMetric (buildMetric metric) = buildMetric metric := by
  cases metric with
  | insiderActivity activity =>
    show StrategyMetric.insiderActivity activity.build.build = .insiderActivity activity.build
    unfold InsiderActivityMetric.build
    simp only [Option.map_map, Function.comp_def, filter_contains_idem]
  | congressActivity activity =>
    show StrategyMetric.congressActivity activity.build.build = .congressActivity activity.build
    unfold CongressActivityMetric.build
    simp only [Option.map_map, Function.comp_def, filter_contains_idem, ActorScope.build_idem]
  | _ => rfl

section Logic

variable {N σ : Type} (idOf : RowIdOf σ)

/-- A condition keeps its logic. -/
theorem logic_buildCondition (condition : StrategyCondition N) (s : σ) :
    (buildCondition idOf condition s).1.logic = condition.logic :=
  congrArg (fun metric => ({ condition with id := "", metric } : StrategyCondition N))
    (buildMetric_idem condition.metric)

/-- A trigger keeps its logic. -/
theorem logic_buildTrigger (trigger : StrategyTrigger N) (s : σ) :
    (buildTrigger idOf trigger s).1.logic = trigger.logic :=
  congrArg (fun metric => ({ trigger with id := "", metric } : StrategyTrigger N))
    (buildMetric_idem trigger.metric)

/-- A Signal keeps its logic. -/
theorem logic_buildSignal (signal : StrategySignal N) (s : σ) :
    (buildSignal idOf signal s).1.logic = signal.logic := by
  have hconditions := map_mapM (fun condition _ s =>
    logic_buildCondition (N := N) idOf condition s) (l := signal.conditions) s
  have htrigger := map_mapM_option (fun trigger _ s =>
    logic_buildTrigger (N := N) idOf trigger s) (o := signal.trigger)
    (signal.conditions.mapM (buildCondition idOf) s).2
  unfold StrategySignal.logic
  rw [← hconditions, ← htrigger]
  rfl

/-- A final exit keeps its logic. -/
theorem logic_buildFinalExit (finalExit : StrategyFinalExit N) (s : σ) :
    (buildFinalExit idOf finalExit s).1.logic = finalExit.logic := by
  have hrules : (buildFinalExit idOf finalExit s).1.rules.map
        (fun rule => (⟨"", rule.signal.logic⟩ : StrategyExitRule N))
      = finalExit.rules.map fun rule => ⟨"", rule.signal.logic⟩ := by
    apply map_mapM (f := buildExitRule idOf)
    intro rule _ s
    exact congrArg (StrategyExitRule.mk "") (logic_buildSignal idOf rule.signal _)
  exact congrArg (StrategyFinalExit.mk "") hrules

/-- **Normalization moves ids and spellings only.** -/
theorem logic_buildDefinition (definition : StrategyDefinition N) (s : σ) :
    (buildDefinition idOf definition s).1.logic = definition.logic := by
  have hbuys : (buildDefinition idOf definition s).1.buyLevels.map
        (fun level => (⟨"", level.signal.logic, level.percentage⟩ : StrategyBuyLevel N))
      = definition.buyLevels.map fun level => ⟨"", level.signal.logic, level.percentage⟩ := by
    apply map_mapM (f := buildBuyLevel idOf)
    intro level _ s
    exact congrArg (fun signal => (⟨"", signal, level.percentage⟩ : StrategyBuyLevel N))
      (logic_buildSignal idOf level.signal _)
  have hsells : (buildDefinition idOf definition s).1.sellLevels.map
        (fun level => (⟨"", level.signal.logic, level.percentage⟩ : StrategySellLevel N))
      = definition.sellLevels.map fun level => ⟨"", level.signal.logic, level.percentage⟩ := by
    apply map_mapM (f := buildSellLevel idOf)
    intro level _ s
    exact congrArg (fun signal => (⟨"", signal, level.percentage⟩ : StrategySellLevel N))
      (logic_buildSignal idOf level.signal _)
  have hexit : (buildDefinition idOf definition s).1.finalExit.map StrategyFinalExit.logic
      = definition.finalExit.map StrategyFinalExit.logic := by
    apply map_mapM_option (f := buildFinalExit idOf)
    intro finalExit _ s
    exact logic_buildFinalExit idOf finalExit s
  unfold StrategyDefinition.logic
  rw [hbuys, hsells, hexit]

end Logic

/-! ### A copy has the fingerprint of its source -/

section Value

variable {N σ : Type} [JsonNumber N] [LawfulJsonNumber N] (idOf : RowIdOf σ)

section

omit [LawfulJsonNumber N]

/-- What is hashed of a Signal reads its metrics as the builder writes them. -/
theorem value_buildSignal {signal : StrategySignal N}
    (h : ∀ predicate ∈ signalPredicates signal, AdmittedPredicate predicate) (s : σ) :
    signalFingerprintValue (buildSignal idOf signal s).1 = signalFingerprintValue signal := by
  have hpredicate : ∀ (metric : StrategyMetric) (operator : String) (value : StrategyValue N),
      metric.Admitted → predicateValue (buildMetric metric) operator value
        = predicateValue metric operator value := by
    intro metric operator value hmetric
    unfold predicateValue
    rw [metricValueOf_build hmetric]
  have hconditions : (signal.conditions.mapM (buildCondition idOf) s).1.map conditionValue
      = signal.conditions.map conditionValue := by
    apply map_mapM
    intro condition hcondition s
    exact hpredicate _ _ _ (h _ (conditions_subset_predicates hcondition List.mem_cons_self)).1
  have htrigger : ∀ s, (signal.trigger.mapM (buildTrigger idOf) s).1.map triggerValue
      = signal.trigger.map triggerValue := by
    apply map_mapM_option
    intro trigger htrigger s
    exact hpredicate _ _ _ (h _ (trigger_subset_predicates htrigger List.mem_cons_self)).1
  have helim : ∀ o : Option (StrategyTrigger N),
      o.elim .null triggerValue = (o.map triggerValue).getD .null := by
    intro o
    cases o <;> rfl
  unfold signalFingerprintValue
  rw [← hconditions, helim, helim, ← htrigger (signal.conditions.mapM (buildCondition idOf) s).2]
  rfl

/-- What is hashed of a final exit is kept. -/
theorem value_buildFinalExit {finalExit : StrategyFinalExit N}
    (h : ∀ predicate ∈ exitPredicates finalExit, AdmittedPredicate predicate) (s : σ) :
    finalExitFingerprintValue (buildFinalExit idOf finalExit s).1
      = finalExitFingerprintValue finalExit := by
  have hrules : (buildFinalExit idOf finalExit s).1.rules.map
        (fun rule => signalFingerprintValue rule.signal)
      = finalExit.rules.map fun rule => signalFingerprintValue rule.signal := by
    apply map_mapM (f := buildExitRule idOf)
    intro rule hrule s
    exact value_buildSignal idOf (fun predicate hpredicate =>
      h predicate (rule_subset_predicates hrule hpredicate)) _
  unfold finalExitFingerprintValue
  rw [hrules]

/-- **What is hashed of a definition is kept**, level by level. -/
theorem value_buildDefinition {definition : StrategyDefinition N} (h : definition.Admitted) (s : σ) :
    definitionFingerprintValue (buildDefinition idOf definition s).1
      = definitionFingerprintValue definition := by
  have hsignal : ∀ {signal}, signal ∈ definitionSignals definition → ∀ s,
      signalFingerprintValue (buildSignal idOf signal s).1 = signalFingerprintValue signal :=
    fun hmem s => value_buildSignal idOf (fun predicate hpredicate =>
      h.predicates predicate (signal_subset_walk hmem hpredicate)) s
  have hlevel : ∀ (percentage : ℕ) {value value' : StrategySignal N},
      signalFingerprintValue value = signalFingerprintValue value' →
        levelValue percentage value = levelValue percentage value' := by
    intro percentage value value' hsame
    unfold levelValue
    rw [hsame]
  have hbuys : (buildDefinition idOf definition s).1.buyLevels.map
        (fun level => levelValue level.percentage level.signal)
      = definition.buyLevels.map fun level => levelValue level.percentage level.signal := by
    apply map_mapM (f := buildBuyLevel idOf)
    intro level hmem s
    exact hlevel _ (hsignal (buyLevel_signal hmem) _)
  have hsells : (buildDefinition idOf definition s).1.sellLevels.map
        (fun level => levelValue level.percentage level.signal)
      = definition.sellLevels.map fun level => levelValue level.percentage level.signal := by
    apply map_mapM (f := buildSellLevel idOf)
    intro level hmem s
    exact hlevel _ (hsignal (sellLevel_signal hmem) _)
  have hexit : (buildDefinition idOf definition s).1.finalExit.map finalExitFingerprintValue
      = definition.finalExit.map finalExitFingerprintValue := by
    apply map_mapM_option (f := buildFinalExit idOf)
    intro finalExit hmem s
    exact value_buildFinalExit idOf (fun predicate hpredicate =>
      h.predicates predicate (exit_subset_walk hmem hpredicate)) s
  have helim : ∀ o : Option (StrategyFinalExit N),
      o.elim .null finalExitFingerprintValue = (o.map finalExitFingerprintValue).getD .null := by
    intro o
    cases o <;> rfl
  unfold definitionFingerprintValue
  rw [hbuys, hsells, helim, helim, hexit]

end

end Value

/-! ### A document is its ids and its logic -/

section Follow

variable {α β : Type} {nextId : ℕ → String}

/-- From the `given`-th id on, the supply has these ids. -/
def Supplies (nextId : ℕ → String) (given : ℕ) (ids : List String) : Prop :=
  (List.range' given ids.length).map nextId = ids

/-- A supply of some ids hands out the first one next. -/
theorem Supplies.head {given : ℕ} {id : String} {ids : List String}
    (h : Supplies nextId given (id :: ids)) :
    nextId given = id ∧ Supplies nextId (given + 1) ids := List.cons.inj h

/-- A supply of two lists of ids, one after the other. -/
theorem Supplies.append {given : ℕ} {ids ids' : List String}
    (h : Supplies nextId given (ids ++ ids')) :
    Supplies nextId given ids ∧ Supplies nextId (given + ids.length) ids' := by
  unfold Supplies at h
  rw [List.length_append, ← List.range'_append_1, List.map_append] at h
  exact List.append_inj h (by simp)

/-- A walk that takes fresh ids where one keeps them, with the ids to keep for its supply. -/
def Follows (nextId : ℕ → String) (ids : List String) (fresh : StateM ℕ β) (kept : StateM Unit β) :
    Prop :=
  ∀ given, Supplies nextId given ids → fresh given = ((kept ()).1, given + ids.length)

/-- A row's id is the one the supply has next. -/
theorem Follows.rowId (id : String) : Follows nextId [id] (freshRowId nextId id) (keepRowId id) := by
  intro given h
  exact congrArg (·, given + 1) h.head.1

/-- The rows of a list, one after the other. -/
theorem Follows.mapM {fresh : α → StateM ℕ β} {kept : α → StateM Unit β} {ids : α → List String}
    {l : List α} (h : ∀ a ∈ l, Follows nextId (ids a) (fresh a) (kept a)) :
    Follows nextId (l.flatMap ids) (l.mapM fresh) (l.mapM kept) := by
  induction l with
  | nil => exact fun given _ => rfl
  | cons a rest ih =>
    intro given hsupply
    obtain ⟨hfirst, hrest⟩ := hsupply.append
    rw [mapM_cons_apply, mapM_cons_apply, h a List.mem_cons_self given hfirst,
      ih (fun b hb => h b (List.mem_cons_of_mem _ hb)) _ hrest, List.flatMap_cons,
      List.length_append, Nat.add_assoc]

/-- The rows of a part that may be there. -/
theorem Follows.mapM_option {fresh : α → StateM ℕ β} {kept : α → StateM Unit β}
    {ids : α → List String} {o : Option α}
    (h : ∀ a ∈ o, Follows nextId (ids a) (fresh a) (kept a)) :
    Follows nextId (o.elim [] ids) (o.mapM fresh) (o.mapM kept) := by
  intro given hsupply
  cases o with
  | none => rfl
  | some a =>
    have hone : ((fun b => some b) <$> fresh a) given
        = ((((fun b => some b) <$> kept a) ()).1, given + (ids a).length) :=
      congrArg (fun out : β × ℕ => (some out.1, out.2)) (h a rfl given hsupply)
    exact hone

/-- One walk and then another. -/
theorem Follows.seq {γ : Type} {fresh : StateM ℕ α} {kept : StateM Unit α} {fresh' : StateM ℕ β}
    {kept' : StateM Unit β} {ids ids' : List String} (h : Follows nextId ids fresh kept)
    (h' : Follows nextId ids' fresh' kept') (f : α → β → γ) :
    Follows nextId (ids ++ ids') (do return f (← fresh) (← fresh'))
      (do return f (← kept) (← kept')) := by
  intro given hsupply
  obtain ⟨hfirst, hsecond⟩ := hsupply.append
  show (f (fresh given).1 (fresh' (fresh given).2).1, (fresh' (fresh given).2).2) = _
  rw [h given hfirst, h' _ hsecond, List.length_append, Nat.add_assoc]
  rfl

end Follow

section Document

variable {N : Type} {nextId : ℕ → String}

/-- A Signal's rows. -/
theorem follows_signal (signal : StrategySignal N) :
    Follows nextId signal.rowIds (buildSignal (freshRowId nextId) signal)
      (buildSignal keepRowId signal) := by
  have hconditions : Follows nextId (signal.conditions.flatMap fun condition => [condition.id])
      (signal.conditions.mapM (buildCondition (freshRowId nextId)))
      (signal.conditions.mapM (buildCondition keepRowId)) := by
    apply Follows.mapM
    intro condition _ given h
    exact congrArg (fun out : String × ℕ =>
      (({ condition with id := out.1, metric := buildMetric condition.metric } : StrategyCondition N),
        out.2)) (Follows.rowId condition.id given h)
  have htrigger : Follows nextId (signal.trigger.elim [] fun trigger => [trigger.id])
      (signal.trigger.mapM (buildTrigger (freshRowId nextId)))
      (signal.trigger.mapM (buildTrigger keepRowId)) := by
    apply Follows.mapM_option
    intro trigger _ given h
    exact congrArg (fun out : String × ℕ =>
      (({ trigger with id := out.1, metric := buildMetric trigger.metric } : StrategyTrigger N),
        out.2)) (Follows.rowId trigger.id given h)
  exact hconditions.seq htrigger StrategySignal.mk

/-- A row with a Signal under it. -/
theorem follows_row {γ : Type} (id : String) (signal : StrategySignal N)
    (f : String → StrategySignal N → γ) :
    Follows nextId (id :: signal.rowIds)
      (do return f (← freshRowId nextId id) (← buildSignal (freshRowId nextId) signal))
      (do return f (← keepRowId id) (← buildSignal keepRowId signal)) :=
  (Follows.rowId id).seq (follows_signal signal) f

/-- A final exit's rows. -/
theorem follows_finalExit (finalExit : StrategyFinalExit N) :
    Follows nextId finalExit.rowIds (buildFinalExit (freshRowId nextId) finalExit)
      (buildFinalExit keepRowId finalExit) := by
  have hrules : Follows nextId (finalExit.rules.flatMap (·.rowIds))
      (finalExit.rules.mapM (buildExitRule (freshRowId nextId)))
      (finalExit.rules.mapM (buildExitRule keepRowId)) :=
    Follows.mapM fun rule _ => follows_row rule.id rule.signal StrategyExitRule.mk
  exact (Follows.rowId finalExit.id).seq hrules StrategyFinalExit.mk

/-- **A copy whose supply is the ids of its source is its normalization.** -/
theorem follows_definition (definition : StrategyDefinition N) :
    Follows nextId definition.rowIds (buildDefinition (freshRowId nextId) definition)
      (buildDefinition keepRowId definition) := by
  have hbuys : Follows nextId (definition.buyLevels.flatMap (·.rowIds))
      (definition.buyLevels.mapM (buildBuyLevel (freshRowId nextId)))
      (definition.buyLevels.mapM (buildBuyLevel keepRowId)) :=
    Follows.mapM fun level _ => follows_row level.id level.signal fun id signal =>
      ({ level with id, signal } : StrategyBuyLevel N)
  have hsells : Follows nextId (definition.sellLevels.flatMap (·.rowIds))
      (definition.sellLevels.mapM (buildSellLevel (freshRowId nextId)))
      (definition.sellLevels.mapM (buildSellLevel keepRowId)) :=
    Follows.mapM fun level _ => follows_row level.id level.signal fun id signal =>
      ({ level with id, signal } : StrategySellLevel N)
  have hexit : Follows nextId (definition.finalExit.elim [] (·.rowIds))
      (definition.finalExit.mapM (buildFinalExit (freshRowId nextId)))
      (definition.finalExit.mapM (buildFinalExit keepRowId)) :=
    Follows.mapM_option fun finalExit _ => follows_finalExit finalExit
  exact (hbuys.seq hsells Prod.mk).seq hexit fun levels finalExit =>
    (⟨levels.1, levels.2, finalExit⟩ : StrategyDefinition N)

/-- A supply of a document's own ids. -/
theorem supplies_getD (ids : List String) : Supplies (fun given => ids.getD given "") 0 ids := by
  unfold Supplies
  rw [← List.range_eq_range']
  apply List.ext_getElem (by simp)
  intro i hi hi'
  simp [List.getD, List.getElem?_eq_getElem hi']

/-- Normalization hands out the ids a document has. -/
theorem normalizedDefinition_eq (definition : StrategyDefinition N) :
    normalizedDefinition definition
      = rekeyStrategyDefinition definition fun given => definition.rowIds.getD given "" :=
  congrArg Prod.fst (follows_definition definition 0 (supplies_getD definition.rowIds)).symm

/-- Normalization keeps the ids. -/
theorem rowIds_normalizedDefinition (definition : StrategyDefinition N) :
    (normalizedDefinition definition).rowIds = definition.rowIds := by
  obtain ⟨-, hids⟩ := handsOut_definition definition 0
  rw [normalizedDefinition_eq]
  exact hids.trans (supplies_getD definition.rowIds)

/-- What a copy of a Signal is does not depend on the ids its source had. -/
theorem buildSignal_logic (signal : StrategySignal N) :
    buildSignal (freshRowId nextId) signal.logic = buildSignal (freshRowId nextId) signal := by
  have hcondition : ∀ condition : StrategyCondition N,
      buildCondition (freshRowId nextId) condition.logic
        = buildCondition (freshRowId nextId) condition := by
    intro condition
    unfold buildCondition StrategyCondition.logic
    rw [buildMetric_idem]
    rfl
  have htrigger : ∀ trigger : StrategyTrigger N,
      buildTrigger (freshRowId nextId) trigger.logic = buildTrigger (freshRowId nextId) trigger := by
    intro trigger
    unfold buildTrigger StrategyTrigger.logic
    rw [buildMetric_idem]
    rfl
  show (do
    let conditions ← (signal.conditions.map StrategyCondition.logic).mapM
      (buildCondition (freshRowId nextId))
    let trigger ← (signal.trigger.map StrategyTrigger.logic).mapM (buildTrigger (freshRowId nextId))
    return ({ conditions, trigger } : StrategySignal N)) = _
  rw [mapM_of_map hcondition, mapM_of_map_option htrigger]
  rfl

/-- The same of a final exit. -/
theorem buildFinalExit_logic (finalExit : StrategyFinalExit N) :
    buildFinalExit (freshRowId nextId) finalExit.logic
      = buildFinalExit (freshRowId nextId) finalExit := by
  have hrule : ∀ rule : StrategyExitRule N,
      buildExitRule (freshRowId nextId) ⟨"", rule.signal.logic⟩
        = buildExitRule (freshRowId nextId) rule := by
    intro rule
    unfold buildExitRule
    rw [buildSignal_logic]
    rfl
  unfold buildFinalExit StrategyFinalExit.logic
  rw [mapM_of_map hrule]
  rfl

/-- **What a copy is depends on the logic and on the supply.** -/
theorem rekeyStrategyDefinition_logic (definition : StrategyDefinition N) :
    rekeyStrategyDefinition definition.logic nextId = rekeyStrategyDefinition definition nextId := by
  have hbuy : ∀ level : StrategyBuyLevel N,
      buildBuyLevel (freshRowId nextId) ⟨"", level.signal.logic, level.percentage⟩
        = buildBuyLevel (freshRowId nextId) level := by
    intro level
    unfold buildBuyLevel
    rw [buildSignal_logic]
    rfl
  have hsell : ∀ level : StrategySellLevel N,
      buildSellLevel (freshRowId nextId) ⟨"", level.signal.logic, level.percentage⟩
        = buildSellLevel (freshRowId nextId) level := by
    intro level
    unfold buildSellLevel
    rw [buildSignal_logic]
    rfl
  unfold rekeyStrategyDefinition buildDefinition StrategyDefinition.logic
  rw [mapM_of_map hbuy, mapM_of_map hsell, mapM_of_map_option buildFinalExit_logic]

/-- **A normalized document is its ids and its logic.** -/
theorem normalizedDefinition_eq_iff_logic (definition other : StrategyDefinition N) :
    normalizedDefinition definition = normalizedDefinition other
      ↔ definition.rowIds = other.rowIds ∧ definition.logic = other.logic := by
  constructor
  · intro h
    have hlogic : ∀ definition : StrategyDefinition N,
        (normalizedDefinition definition).logic = definition.logic :=
      fun definition => logic_buildDefinition keepRowId definition ()
    constructor
    · rw [← rowIds_normalizedDefinition definition, h, rowIds_normalizedDefinition]
    · rw [← hlogic definition, h, hlogic]
  · rintro ⟨hids, hlogic⟩
    calc normalizedDefinition definition
        = rekeyStrategyDefinition definition.logic fun given => definition.rowIds.getD given "" := by
          rw [normalizedDefinition_eq, rekeyStrategyDefinition_logic]
      _ = rekeyStrategyDefinition other.logic fun given => other.rowIds.getD given "" := by
          rw [hids, hlogic]
      _ = normalizedDefinition other := by
          rw [normalizedDefinition_eq, rekeyStrategyDefinition_logic]

end Document

section Rekey

variable {N : Type} [JsonNumber N] [LawfulJsonNumber N]

omit [LawfulJsonNumber N] in
/-- **A copy is the same logic under new identities.** Its rows have the ids of the supply, one each
in document order, so that no two share one when the supply repeats none; erasing ids leaves the logic
of its source, and its fingerprint is that of its source. -/
theorem rekeyStrategyDefinition_spec {definition : StrategyDefinition N} (h : definition.Admitted)
    {nextId : ℕ → String} (hfresh : Function.Injective nextId) :
    (rekeyStrategyDefinition definition nextId).rowIds
        = (List.range definition.rowIds.length).map nextId
      ∧ (rekeyStrategyDefinition definition nextId).rowIds.Nodup
      ∧ (rekeyStrategyDefinition definition nextId).logic = definition.logic
      ∧ strategyDefinitionFingerprint (rekeyStrategyDefinition definition nextId)
        = strategyDefinitionFingerprint definition := by
  obtain ⟨-, hids⟩ := handsOut_definition definition 0
  rw [← List.range_eq_range'] at hids
  refine ⟨hids, ?_, logic_buildDefinition _ definition 0,
    congrArg stringify (value_buildDefinition _ h 0)⟩
  show ((buildDefinition (freshRowId nextId) definition 0).1).rowIds.Nodup
  rw [hids]
  exact List.nodup_range.map hfresh

/-- A copy of a strategy, its rows numbered. -/
theorem rekeyStrategyDefinition_spec_breakout :
    (rekeyStrategyDefinition (breakout "first") fun given => String.ofList (List.replicate given 'x')).rowIds
      = ["", "x", "xx", "xxx", "xxxx", "xxxxx", "xxxxxx"] := by
  have hfresh : Function.Injective fun given => String.ofList (List.replicate given 'x') := by
    intro given given' h
    simpa using congrArg List.length (String.ofList_inj.mp h)
  exact (rekeyStrategyDefinition_spec (breakout_admitted "first") hfresh).1

/-- **A normalized document is its ids and its fingerprint.** Normalization brings two admitted
definitions to one document exactly when they have the same ids row by row and the same fingerprint,
if no two of their actor selections share a digest. -/
theorem normalizedDefinition_eq_iff {definition other : StrategyDefinition N}
    (h : definition.Admitted) (hother : other.Admitted)
    (htold : ∀ predicate ∈ walkPredicates definition, ∀ predicate' ∈ walkPredicates other,
      ToldApart predicate.1 predicate'.1) :
    normalizedDefinition definition = normalizedDefinition other
      ↔ definition.rowIds = other.rowIds
        ∧ strategyDefinitionFingerprint definition = strategyDefinitionFingerprint other := by
  rw [normalizedDefinition_eq_iff_logic, ← definitionFingerprintValue_eq_iff h hother htold]
  unfold strategyDefinitionFingerprint
  rw [stringify_inj (wellFormed_definitionFingerprintValue h)
    (wellFormed_definitionFingerprintValue hother)]

/-- Two copies of one strategy stay two documents. -/
theorem normalizedDefinition_eq_iff_breakout :
    normalizedDefinition (breakout "first") ≠ normalizedDefinition (breakout "second") := by
  have hboth := normalizedDefinition_eq_iff (breakout_admitted "first") (breakout_admitted "second")
    (comparable_breakout "first" "second").told
  have hids : (breakout "first").rowIds ≠ (breakout "second").rowIds := by decide
  exact fun hsame => hids (hboth.mp hsame).1

end Rekey

end FactorSage
