import FactorSage.Monitor.Reconstruction

/-!
# Rules in a plain object

The source keeps the rules of a level in a plain object, under the id of the level or of an Exit Rule,
which is whatever text a client sent. An object answers for more names than it was given: the names
of `Object.prototype` are found on every object, and what is written under `__proto__` becomes the
object's prototype, which no iteration over it and no stored form of it shows.

* `RuleObject` — such an object, and the `RuleRecord` that it is.
* `keepsRules_ruleObject` — it keeps the rules of all keys but `__proto__`, so state, history and
  occurrences agree over every run without that key (`runAgrees_of_ownKeys`).
* `stepMonitorLevel_onObject`, `reconstructMonitorLevel_onObject` — under keys that are no names of
  `Object.prototype` it does what the map does, and so a reconstruction over it equals a full replay
  (`reconstruction_of_clearKeys`).
-/

namespace FactorSage

variable {D : Type}

/-! ### A value read as a rule -/

/-- What a property that is read as a rule may hold. -/
inductive RuleValue (D : Type := LocalDate) where
  | rule (held : MonitorRuleLifecycle D)
  /-- A state that was entered from a value without fields: its `triggerDate` is undefined. -/
  | triggerless (state : MonitorLifecycleState) (since : Option D)
  /-- A function, a text or `Object.prototype`: `state`, `since` and `triggerDate` are undefined. -/
  | fieldless
  deriving DecidableEq

namespace RuleValue

/-- A value as the level part reads it, which asks of a state only whether it is `ACTIVE` or
`PENDING_TRIGGER` or, once the rule has left it, which it was: an undefined state is neither, and is
never left. -/
def shown : RuleValue D → MonitorRuleLifecycle D
  | .rule held => held
  | .triggerless state since => ⟨state, since, none⟩
  | .fieldless => ⟨.inactive, none, none⟩

/-- No date is after an undefined `triggerDate`: to such a value no Trigger is fresh. -/
def hears (value : RuleValue D) (observation : MonitorRuleObservation) : MonitorRuleObservation :=
  match value with
  | .rule _ => observation
  | _ => { observation with trigger := observation.trigger.map fun _ => .false }

/-- `stepRule` of a value. -/
def step [LinearOrder D] (value : RuleValue D) (observation : MonitorRuleObservation) (date : D)
    (eligible : Bool) : RuleStep D :=
  stepRule value.shown (value.hears observation) date eligible

/-- The value a step leaves: the one it found, or the fields of it with a state and a date. -/
def after (value : RuleValue D) (step : RuleStep D) : RuleValue D :=
  match value with
  | .rule _ => .rule step.afterOpen
  | .triggerless _ _ => .triggerless step.afterOpen.state step.afterOpen.since
  | .fieldless =>
    if step.openReason.isSome then .triggerless step.afterOpen.state step.afterOpen.since
    else .fieldless

/-- An undefined `since` is not at or before any date. -/
def settle [LinearOrder D] (anchor : D) : RuleValue D → RuleValue D
  | .rule held => .rule (settleRule anchor held)
  | .triggerless state since =>
    if restsAt anchor state since then .rule ⟨.inactive, some anchor, none⟩
    else .triggerless state since
  | .fieldless => .fieldless

def state? : RuleValue D → Option MonitorLifecycleState
  | .rule held => some held.state
  | .triggerless state _ => some state
  | .fieldless => none

def isRule : RuleValue D → Bool
  | .rule _ => true
  | _ => false

/-- What is found under a name on an object whose prototype is the value: a text, or nothing where the
field is `null` or undefined. -/
def field (value : RuleValue D) (name : String) : Option (RuleValue D) :=
  match name, value with
  | "state", value => value.state?.map fun _ => .fieldless
  | "since", .rule held => held.since.map fun _ => .fieldless
  | "since", .triggerless _ since => since.map fun _ => .fieldless
  | "triggerDate", .rule held => held.triggerDate.map fun _ => .fieldless
  | _, _ => none

end RuleValue

/-! ### The object -/

/-- A plain object that holds rules. -/
structure RuleObject (D : Type := LocalDate) where
  own : OrderedMap String (RuleValue D)
  /-- The prototype written to it; `none` while it is `Object.prototype`. -/
  proto : Option (RuleValue D)

namespace RuleObject

/-- `{}`. -/
def empty : RuleObject D := ⟨.empty, none⟩

/-- `rules[key]`. -/
def read (rules : RuleObject D) (key : String) : Option (RuleValue D) :=
  if key = "__proto__" then some (rules.proto.getD .fieldless)
  else (rules.own.get? key).or
    (if key ∈ objectPrototypeNames then some .fieldless else rules.proto.bind (·.field key))

/-- `rules[key] = value`. -/
def write (rules : RuleObject D) (key : String) (value : RuleValue D) : RuleObject D :=
  if key = "__proto__" then { rules with proto := some value }
  else { rules with own := rules.own.set key value }

def writeAll (properties : List (String × RuleValue D)) : RuleObject D :=
  properties.foldl (fun rules property => rules.write property.1 property.2) empty

/-- `parseMonitorRuleStates` of the stored object: a rule with an undefined field is dropped. -/
def reread (rules : RuleObject D) : RuleObject D :=
  writeAll (rules.own.entries.filter fun property => property.2.isRule)

/-- `previous.rules[key] ?? inheritedRule(previous)`. -/
def valueOf (level : MonitorLevelLifecycle D (RuleObject D)) (key : String) : RuleValue D :=
  (level.rules.read key).getD (.rule (inheritedRule level))

variable [LinearOrder D]

def ruleEntry (previous : MonitorLevelLifecycle D (RuleObject D)) (step : MonitorLevelStep D)
    (observation : MonitorRuleObservation) : RuleEntry D where
  observation
  before := (valueOf previous observation.key).shown
  step := (valueOf previous observation.key).step observation step.date step.eligible

/-- What an observation leaves of a rule, under its key. -/
def left (previous : MonitorLevelLifecycle D (RuleObject D)) (step : MonitorLevelStep D)
    (observation : MonitorRuleObservation) : String × RuleValue D :=
  (observation.key,
    (valueOf previous observation.key).after (ruleEntry previous step observation).step)

def settle (anchor : D) (rules : RuleObject D) : RuleObject D :=
  writeAll (rules.own.entries.map fun property => (property.1, property.2.settle anchor))

def same (left right : RuleObject D) : Bool :=
  decide (left.own.keys.length = right.own.keys.length)
    && left.own.keys.all fun key =>
      match left.read key, right.read key with
      | some a, some b => decide (a = b)
      | _, _ => false

end RuleObject

instance : RuleRecord D (RuleObject D) where
  empty := .empty
  ruleOf level key := (RuleObject.valueOf level key).shown
  ruleEntries previous step := step.rules.map (RuleObject.ruleEntry previous step)
  observed previous step := .writeAll (step.rules.map (RuleObject.left previous step))
  settle := RuleObject.settle
  same := RuleObject.same
  reread := RuleObject.reread
  states rules := rules.own.values.filterMap (·.state?)

/-! ### The rules an object keeps -/

section Value

variable [LinearOrder D] {value : RuleValue D} {observation : MonitorRuleObservation} {date : D}
  {eligible : Bool}

/-- A value that is read as a rule steps as that rule would. -/
theorem RuleValue.isRuleStep_step (value : RuleValue D) (observation : MonitorRuleObservation)
    (date : D) (eligible : Bool) :
    IsRuleStep value.shown observation (value.step observation date eligible) := by
  have h := isRuleStep_stepRule value.shown (value.hears observation) date eligible
  refine ⟨h.keeps, h.closes, h.idles, h.opens, fun hclose hopen => ?_⟩
  obtain ⟨hactive, hopened, hconditions, htrigger⟩ := h.refires hclose hopen
  refine ⟨hactive, hopened, ?_⟩
  cases value with
  | rule held => exact ⟨hconditions, htrigger⟩
  | triggerless state since =>
    -- no Trigger is fresh to a value without a trigger date
    obtain ⟨trigger, -, hfalse⟩ := Option.map_eq_some_iff.mp htrigger
    cases hfalse
  | fieldless =>
    obtain ⟨trigger, -, hfalse⟩ := Option.map_eq_some_iff.mp htrigger
    cases hfalse

/-- Without a fresh Trigger a rule keeps the date of the one it consumed. -/
theorem triggerDate_stepRule {rule : MonitorRuleLifecycle D}
    (h : observation.trigger ≠ some .true) :
    (stepRule rule observation date eligible).afterOpen.triggerDate = rule.triggerDate := by
  unfold stepRule
  split
  · rfl
  · dsimp only
    have hclosed : ((closePhase rule observation date eligible).elim rule
        fun close => { rule with state := close.1, since := some date }).triggerDate
        = rule.triggerDate := by
      cases closePhase rule observation date eligible <;> rfl
    generalize (closePhase rule observation date eligible).elim rule _ = current at hclosed ⊢
    cases hopen : openPhase current observation date eligible with
    | none => exact hclosed
    | some opened =>
      rw [Option.elim_some, ← hclosed]
      unfold openPhase at hopen
      simp only [h, decide_false, Bool.false_and, Bool.false_eq_true, if_false] at hopen
      split at hopen
      · split at hopen
        · cases hopen
        · split at hopen
          · cases hopen
          · split at hopen
            · rw [← Option.some.inj hopen]
            · split at hopen
              · rw [← Option.some.inj hopen]
              · cases hopen
      · cases hopen

omit [LinearOrder D] in
theorem RuleValue.trigger_hears (h : value.isRule = false) :
    (value.hears observation).trigger ≠ some .true := by
  have hfalse : (observation.trigger.map fun _ => Evaluability.false) ≠ some .true := by
    cases observation.trigger <;> simp
  cases value with
  | rule held => cases h
  | triggerless state since => exact hfalse
  | fieldless => exact hfalse

/-- What a step leaves of a value reads as the step says. -/
theorem RuleValue.shown_after (value : RuleValue D) (observation : MonitorRuleObservation) (date : D)
    (eligible : Bool) :
    (value.after (value.step observation date eligible)).shown
      = (value.step observation date eligible).afterOpen := by
  have hstep := value.isRuleStep_step observation date eligible
  have htrigger (h : value.isRule = false) :
      (value.step observation date eligible).afterOpen.triggerDate = value.shown.triggerDate :=
    triggerDate_stepRule (RuleValue.trigger_hears h)
  generalize value.step observation date eligible = step at hstep htrigger ⊢
  cases value with
  | rule held => rfl
  | triggerless state since =>
    have hdate : step.afterOpen.triggerDate = none := htrigger rfl
    change (⟨step.afterOpen.state, step.afterOpen.since, none⟩ : MonitorRuleLifecycle D) = _
    rw [← hdate]
  | fieldless =>
    unfold RuleValue.after
    dsimp only
    split
    · have hdate : step.afterOpen.triggerDate = none := htrigger rfl
      change (⟨step.afterOpen.state, step.afterOpen.since, none⟩ : MonitorRuleLifecycle D) = _
      rw [← hdate]
    · next hidle =>
      -- what is at rest and opens nothing is as it was
      have hclose : step.closeReason = none := by
        cases hreason : step.closeReason with
        | none => rfl
        | some reason => cases hstep.closes (by rw [hreason]; rfl)
      rw [hstep.idles (Option.not_isSome_iff_eq_none.mp hidle), hstep.keeps hclose]

omit [LinearOrder D] in
/-- A value shows its state, unless it has none: then it is at rest. -/
theorem RuleValue.state?_eq_some_iff {state : MonitorLifecycleState} (h : state.atRest = false) :
    value.state? = some state ↔ value.shown.state = state := by
  cases value with
  | rule held => exact Option.some_inj
  | triggerless current since => exact Option.some_inj
  | fieldless =>
    refine iff_of_false nofun fun hinactive => ?_
    rw [← hinactive] at h
    cases h

end Value

namespace RuleObject

/-- What is written under other names than `__proto__` is held. -/
theorem writeAll_eq {properties : List (String × RuleValue D)}
    (h : ∀ property ∈ properties, property.1 ≠ "__proto__") :
    writeAll properties = ⟨.ofList properties, none⟩ := by
  have hfold : ∀ own : OrderedMap String (RuleValue D),
      properties.foldl (fun rules property => rules.write property.1 property.2) ⟨own, none⟩
        = (⟨properties.foldl (fun own property => own.set property.1 property.2) own, none⟩ :
          RuleObject D) := by
    induction properties with
    | nil => exact fun own => rfl
    | cons property rest ih =>
      intro own
      rw [List.foldl_cons, List.foldl_cons, write, if_neg (h property List.mem_cons_self)]
      exact ih (fun other hother => h other (List.mem_cons_of_mem _ hother)) _
  exact hfold _

end RuleObject

section Keys

variable [LinearOrder D] {keys : List String}

instance : LawfulRuleRecord D (RuleObject D) where
  map_ruleEntries previous step := by
    change (step.rules.map _).map _ = _
    rw [List.map_map]
    rfl
  isRuleStep previous step entry h := by
    obtain ⟨observation, -, rfl⟩ := List.mem_map.mp h
    exact RuleValue.isRuleStep_step _ _ _ _

omit [LinearOrder D] in
/-- What an object holds for a rule before any observation is at rest. -/
theorem coherent_initial_ruleObject (keys : List String) :
    Coherent keys (initialMonitorLevelLifecycle : MonitorLevelLifecycle D (RuleObject D)) := by
  refine levelOf_eq_none_iff.mpr fun rule hrule => ?_
  obtain ⟨key, -, rfl⟩ := List.mem_map.mp hrule
  change (RuleObject.valueOf initialMonitorLevelLifecycle key).shown.state.atRest = true
  unfold RuleObject.valueOf RuleObject.read
  split
  · rfl
  · split <;> rfl

section Step

variable {previous : MonitorLevelLifecycle D (RuleObject D)} {step : MonitorLevelStep D}

theorem RuleObject.shown_left (observation : MonitorRuleObservation) :
    (RuleObject.left previous step observation).2.shown
      = (RuleObject.ruleEntry previous step observation).step.afterOpen :=
  RuleValue.shown_after _ _ _ _

theorem RuleObject.rules_stepMonitorLevel
    (hown : ∀ observation ∈ step.rules, observation.key ≠ "__proto__") :
    (stepMonitorLevel previous step).next.rules
      = ⟨.ofList (step.rules.map (RuleObject.left previous step)), none⟩ := by
  refine RuleObject.writeAll_eq fun property hproperty => ?_
  obtain ⟨observation, hobservation, rfl⟩ := List.mem_map.mp hproperty
  exact hown observation hobservation

theorem RuleObject.nodup_left (hstep : HasKeys keys step) (hkeys : keys.Nodup) :
    ((step.rules.map (RuleObject.left previous step)).map Prod.fst).Nodup := by
  rw [List.map_map]
  exact hstep.nodup_iff.mpr hkeys

/-- After a step an object holds every rule under its key. -/
theorem RuleObject.ruleOf_stepMonitorLevel (hstep : HasKeys keys step) (hkeys : keys.Nodup)
    (hown : ∀ observation ∈ step.rules, observation.key ≠ "__proto__")
    {observation : MonitorRuleObservation} (h : observation ∈ step.rules) :
    ruleOf (stepMonitorLevel previous step).next observation.key
      = (RuleObject.ruleEntry previous step observation).step.afterOpen := by
  have hget : (OrderedMap.ofList (step.rules.map (RuleObject.left previous step))).get?
      observation.key = some (RuleObject.left previous step observation).2 :=
    (OrderedMap.get?_ofList_iff (RuleObject.nodup_left hstep hkeys)).mpr (List.mem_map_of_mem h)
  change (RuleObject.valueOf _ _).shown = _
  rw [RuleObject.valueOf, RuleObject.rules_stepMonitorLevel hown, RuleObject.read,
    if_neg (hown observation h), hget, Option.some_or, Option.getD_some]
  exact RuleObject.shown_left _

end Step

/-- **An object keeps the rules of keys that are each its own**, unless one is `__proto__`. -/
theorem keepsRules_ruleObject (hkeys : keys.Nodup) (hproto : "__proto__" ∉ keys) :
    KeepsRules D (RuleObject D) keys := by
  have hown {step : MonitorLevelStep D} (hstep : HasKeys keys step) :
      ∀ observation ∈ step.rules, observation.key ≠ "__proto__" := by
    rintro observation hobservation heq
    exact hproto (heq ▸ hstep.subset (List.mem_map_of_mem hobservation))
  refine ⟨coherent_initial_ruleObject keys, fun previous step hstep => ?_,
    fun previous step hstep state hstate => ?_⟩
  · have hmap : (ruleEntries previous step).map (fun entry => entry.step.afterOpen)
        = (step.rules.map (·.key)).map (ruleOf (stepMonitorLevel previous step).next) := by
      change (step.rules.map _).map _ = _
      rw [List.map_map, List.map_map]
      exact List.map_congr_left fun observation hobservation =>
        (RuleObject.ruleOf_stepMonitorLevel hstep hkeys (hown hstep) hobservation).symm
    rw [hmap]
    exact hstep.map _
  · have hvalues : (stepMonitorLevel previous step).next.rules.own.values
        = step.rules.map fun observation => (RuleObject.left previous step observation).2 := by
      rw [RuleObject.rules_stepMonitorLevel (hown hstep), OrderedMap.values,
        OrderedMap.entries_ofList (RuleObject.nodup_left hstep hkeys), List.map_map]
      rfl
    change state ∈ (OrderedMap.values _).filterMap _ ↔ ∃ rule ∈ (step.rules.map _).map _, _
    rw [hvalues]
    simp only [List.mem_filterMap, List.mem_map, exists_exists_and_eq_and]
    refine exists_congr fun observation => and_congr_right fun _ => ?_
    rw [RuleValue.state?_eq_some_iff hstate]
    rw [RuleObject.shown_left]

end Keys

/-- **State, history and occurrences agree over plain objects too**, over every run of observations
of the same rules, none of them keyed `__proto__`. -/
theorem runAgrees_of_ownKeys {keys : List String} (hkeys : keys.Nodup) (hproto : "__proto__" ∉ keys)
    {steps : List MonitorLevelStep} (hsteps : ∀ step ∈ steps, HasKeys keys step) :
    RunAgrees RuleObject steps :=
  (keepsRules_ruleObject hkeys hproto).runAgrees hsteps

/-- An event that fires on two sessions in a row, under a name every object inherits. -/
theorem runAgrees_of_ownKeys_refired :
    RunAgrees RuleObject
      [⟨.ofYmd 2026 10 5, true, [⟨"event", none, none, some .true⟩,
          ⟨"constructor", none, some .true, none⟩]⟩,
        ⟨.ofYmd 2026 10 6, true, [⟨"event", none, none, some .true⟩,
          ⟨"constructor", none, some .false, none⟩]⟩] := by
  have hkeys : ["event", "constructor"].Nodup := by decide
  refine runAgrees_of_ownKeys hkeys (by decide) ?_
  intro step hstep
  rcases List.mem_cons.mp hstep with rfl | hstep
  · exact List.Perm.refl _
  · obtain rfl := List.mem_singleton.mp hstep
    exact List.Perm.refl _

/-- A rule keyed `__proto__` makes the level active, and no rule of it is. -/
theorem not_runAgrees_proto :
    let step : MonitorLevelStep := ⟨.ofYmd 2026 10 5, true, [⟨"__proto__", none, some .true, none⟩]⟩
    HasKeys ["__proto__"] step ∧ ¬ RunAgrees RuleObject [step] := by
  refine ⟨List.Perm.refl _, fun h => ?_⟩
  have hactive := (h.step [] _ [] rfl).active.mp rfl
  cases hactive

/-! ### What a map holds, in an object -/

/-- A map's rules, written to an object. -/
def RuleObject.ofMap (rules : RuleMap D) : RuleObject D := ⟨rules.mapValues .rule, none⟩

def MonitorLevelLifecycle.onObject (level : MonitorLevelLifecycle D) :
    MonitorLevelLifecycle D (RuleObject D) :=
  ⟨level.state, level.since, .ofMap level.rules⟩

def MonitorLevelStepResult.onObject (result : MonitorLevelStepResult D) :
    MonitorLevelStepResult D (RuleObject D) :=
  ⟨result.next.onObject, result.transitions, result.closed, result.opened, result.changed⟩

def MonitorLevelReconstruction.onObject (reconstruction : MonitorLevelReconstruction D) :
    MonitorLevelReconstruction D (RuleObject D) :=
  ⟨reconstruction.exact, reconstruction.lifecycle.onObject, reconstruction.live.onObject,
    reconstruction.anchor, reconstruction.replayed⟩

/-- A level without a rule under a name that every object inherits. -/
def MonitorLevelLifecycle.Clear (level : MonitorLevelLifecycle D) : Prop :=
  ∀ key ∈ level.rules.keys, key ∉ objectPrototypeNames

section OnObject

variable {rules : RuleMap D} {level : MonitorLevelLifecycle D} {step : MonitorLevelStep D}

theorem ne_proto_of_clear {key : String} (h : key ∉ objectPrototypeNames) : key ≠ "__proto__" := by
  rintro rfl
  exact h (by decide)

/-- A clear key reads alike from both. -/
theorem RuleObject.read_ofMap {key : String} (h : key ∉ objectPrototypeNames) :
    (RuleObject.ofMap rules).read key = (rules.get? key).map .rule := by
  rw [RuleObject.read, if_neg (ne_proto_of_clear h), if_neg h]
  change ((rules.mapValues RuleValue.rule).get? key).or none = _
  rw [OrderedMap.get?_mapValues, Option.or_none]

theorem RuleObject.valueOf_onObject {key : String} (h : key ∉ objectPrototypeNames) :
    RuleObject.valueOf level.onObject key = .rule (ruleOf level key) := by
  have hinherited : inheritedRule level.onObject = inheritedRule level := rfl
  change ((RuleObject.ofMap level.rules).read key).getD _ = _
  rw [RuleObject.read_ofMap h, hinherited, ruleOf_eq]
  cases level.rules.get? key <;> rfl

/-- Rules written one by one to an object are the map of them. -/
theorem RuleObject.writeAll_rule {properties : List (String × MonitorRuleLifecycle D)}
    (h : ∀ property ∈ properties, property.1 ∉ objectPrototypeNames) :
    RuleObject.writeAll (properties.map fun property => (property.1, .rule property.2))
      = .ofMap (.ofList properties) := by
  rw [RuleObject.writeAll_eq, RuleObject.ofMap, OrderedMap.mapValues_ofList]
  intro property hproperty
  obtain ⟨rule, hrule, rfl⟩ := List.mem_map.mp hproperty
  exact ne_proto_of_clear (h rule hrule)

variable [LinearOrder D]

/-- A step over clear keys finds the same rules. -/
theorem ruleEntries_onObject (hstep : step.Avoids objectPrototypeNames) :
    ruleEntries level.onObject step = ruleEntries level step := by
  rw [ruleEntries_eq]
  refine List.map_congr_left fun observation hobservation => ?_
  rw [RuleObject.ruleEntry, RuleObject.valueOf_onObject (hstep observation hobservation)]
  rfl

theorem observed_onObject (hstep : step.Avoids objectPrototypeNames) :
    RuleRecord.observed level.onObject step = RuleObject.ofMap (RuleRecord.observed level step) := by
  change RuleObject.writeAll (step.rules.map _) = RuleObject.ofMap (.ofList ((step.rules.map _).map _))
  rw [List.map_map, ← RuleObject.writeAll_rule, List.map_map]
  · refine congrArg _ (List.map_congr_left fun observation hobservation => ?_)
    rw [RuleObject.left, RuleObject.ruleEntry,
      RuleObject.valueOf_onObject (hstep observation hobservation)]
    rfl
  · intro property hproperty
    obtain ⟨observation, hobservation, rfl⟩ := List.mem_map.mp hproperty
    exact hstep observation hobservation

/-- Settling clear keys is the same on both. -/
theorem RuleObject.settle_ofMap (h : ∀ key ∈ rules.keys, key ∉ objectPrototypeNames) (anchor : D) :
    RuleObject.settle anchor (.ofMap rules) = .ofMap (rules.mapValues (settleRule anchor)) := by
  have hentries : (rules.mapValues (settleRule anchor)).entries
      = rules.entries.map fun property => (property.1, settleRule anchor property.2) := rfl
  have hlist : OrderedMap.ofList (rules.mapValues (settleRule anchor)).entries
      = rules.mapValues (settleRule anchor) := by
    ext1
    exact OrderedMap.entries_ofList (rules.mapValues (settleRule anchor)).nodup
  rw [← hlist, hentries, ← RuleObject.writeAll_rule, List.map_map]
  · change RuleObject.writeAll ((rules.entries.map _).map _) = _
    rw [List.map_map]
    rfl
  · intro property hproperty
    obtain ⟨entry, hentry, rfl⟩ := List.mem_map.mp hproperty
    exact h entry.1 (List.mem_map_of_mem hentry)

omit [LinearOrder D] in
theorem RuleObject.reread_ofMap (h : ∀ key ∈ rules.keys, key ∉ objectPrototypeNames) :
    RuleObject.reread (.ofMap rules) = .ofMap rules := by
  have hlist : OrderedMap.ofList rules.entries = rules := by
    ext1
    exact OrderedMap.entries_ofList rules.nodup
  have hkept : ((RuleObject.ofMap rules).own.entries.filter fun property => property.2.isRule)
      = rules.entries.map fun property => (property.1, .rule property.2) := by
    refine List.filter_eq_self.mpr fun property hproperty => ?_
    obtain ⟨entry, -, rfl⟩ := List.mem_map.mp hproperty
    rfl
  rw [RuleObject.reread, hkept, RuleObject.writeAll_rule, hlist]
  exact fun entry hentry => h entry.1 (List.mem_map_of_mem hentry)

theorem RuleObject.same_ofMap {others : RuleMap D}
    (h : ∀ key ∈ rules.keys, key ∉ objectPrototypeNames) :
    RuleObject.same (.ofMap rules) (.ofMap others) = RuleRecord.same D rules others := by
  have hkeys (rules : RuleMap D) : (RuleObject.ofMap rules).own.keys = rules.keys :=
    OrderedMap.keys_mapValues _ _
  rw [same_eq, RuleObject.same, hkeys, hkeys]
  refine congrArg _ (Bool.eq_iff_iff.mpr ?_)
  rw [List.all_eq_true, List.all_eq_true]
  refine forall₂_congr fun key hkey => iff_of_eq (congrArg (· = true) ?_)
  rw [RuleObject.read_ofMap (h key hkey), RuleObject.read_ofMap (h key hkey)]
  cases rules.get? key with
  | none => rfl
  | some rule =>
    cases others.get? key with
    | none => rfl
    | some other =>
      exact decide_eq_decide.mpr (iff_of_eq (RuleValue.rule.injEq rule other))

/-! ### The reducer over an object -/

/-- **An observation under clear names** does to an object what it does to the map. -/
theorem stepMonitorLevel_onObject (hlevel : level.Clear)
    (hstep : step.Avoids objectPrototypeNames) :
    stepMonitorLevel level.onObject step = (stepMonitorLevel level step).onObject := by
  have hsame (next : MonitorLevelLifecycle D) :
      sameLifecycle level.onObject next.onObject = sameLifecycle level next :=
    congrArg (_ && ·) (RuleObject.same_ofMap hlevel)
  unfold stepMonitorLevel
  rw [ruleEntries_onObject hstep, observed_onObject hstep]
  exact congrArg (MonitorLevelStepResult.mk _ _ _ _)
    (congrArg (!·) (hsame (stepMonitorLevel level step).next))

/-- It leaves no other rules than it observed. -/
theorem clear_stepMonitorLevel (hstep : step.Avoids objectPrototypeNames) :
    (stepMonitorLevel level step).next.Clear := by
  intro key hkey
  obtain ⟨rule, hrule⟩ := OrderedMap.mem_keys_iff.mp hkey
  obtain ⟨entry, hentry, heq⟩ := List.mem_map.mp (OrderedMap.mem_of_get?_ofList hrule)
  obtain ⟨hobservation, -⟩ := mem_of_mem_ruleEntries hentry
  rw [← (Prod.mk.inj heq).1]
  exact hstep _ hobservation

/-- A replay over clear keys is the same on both. -/
theorem replayMonitorLevel_onObject {steps : List (MonitorLevelStep D)} (hlevel : level.Clear)
    (hsteps : ∀ step ∈ steps, step.Avoids objectPrototypeNames) :
    replayMonitorLevel steps level.onObject = (replayMonitorLevel steps level).onObject
      ∧ (replayMonitorLevel steps level).Clear := by
  induction steps generalizing level with
  | nil => exact ⟨rfl, hlevel⟩
  | cons step rest ih =>
    have hstep := hsteps step List.mem_cons_self
    rw [replayMonitorLevel_cons, replayMonitorLevel_cons, stepMonitorLevel_onObject hlevel hstep]
    exact ih (clear_stepMonitorLevel hstep)
      fun other hother => hsteps other (List.mem_cons_of_mem _ hother)

theorem stepResults_onObject {steps : List (MonitorLevelStep D)} (hlevel : level.Clear)
    (hsteps : ∀ step ∈ steps, step.Avoids objectPrototypeNames) :
    stepResults steps level.onObject
      = (stepResults steps level).map MonitorLevelStepResult.onObject := by
  induction steps generalizing level with
  | nil => rfl
  | cons step rest ih =>
    have hstep := hsteps step List.mem_cons_self
    rw [stepResults, stepResults, List.map_cons, stepMonitorLevel_onObject hlevel hstep]
    exact congrArg _ (ih (clear_stepMonitorLevel hstep)
      fun other hother => hsteps other (List.mem_cons_of_mem _ hother))

theorem settleMonitorLevelLifecycle_onObject (hlevel : level.Clear) (anchor : D) :
    settleMonitorLevelLifecycle level.onObject anchor
      = (settleMonitorLevelLifecycle level anchor).onObject :=
  congrArg (MonitorLevelLifecycle.mk _ _) (RuleObject.settle_ofMap hlevel anchor)

omit [LinearOrder D] in
theorem clear_initial : (initialMonitorLevelLifecycle : MonitorLevelLifecycle D).Clear :=
  fun _ h => absurd h List.not_mem_nil

theorem clear_settle (hlevel : level.Clear) (anchor : D) :
    (settleMonitorLevelLifecycle level anchor).Clear := by
  intro key hkey
  rw [rules_settle, OrderedMap.keys_mapValues] at hkey
  exact hlevel key hkey

/-- **So a reconstruction over an object is that over the map.** -/
theorem reconstructMonitorLevel_onObject {history : List (MonitorLevelStep D)}
    {live : MonitorLevelStep D} (complete : Bool)
    (hsteps : ∀ step ∈ history ++ [live], step.Avoids objectPrototypeNames) :
    reconstructMonitorLevel history live complete
        = (reconstructMonitorLevel history live complete).onObject
      ∧ (reconstructMonitorLevel history live complete).lifecycle.Clear := by
  have hlive := hsteps live (List.mem_append_right _ (List.mem_singleton_self live))
  have hfolded : ∀ step ∈ (restingStart history).elim history fun start => start.1 :: start.2,
      step.Avoids objectPrototypeNames := by
    intro step hstep
    refine hsteps step (List.mem_append_left _ ?_)
    cases hstart : restingStart history with
    | none =>
      rw [hstart] at hstep
      exact hstep
    | some start =>
      rw [hstart] at hstep
      obtain ⟨-, before, heq⟩ := restingStart_eq_some hstart
      rw [heq]
      exact List.mem_append_right _ hstep
  obtain ⟨hreplay, hclear⟩ := replayMonitorLevel_onObject clear_initial hfolded
  have hresult := stepMonitorLevel_onObject hclear hlive
  have hafter : (stepMonitorLevel (replayMonitorLevel ((restingStart history).elim history
      fun start => start.1 :: start.2) initialMonitorLevelLifecycle) live).next.Clear :=
    clear_stepMonitorLevel hlive
  have hinitial : (initialMonitorLevelLifecycle : MonitorLevelLifecycle D (RuleObject D))
      = initialMonitorLevelLifecycle.onObject := rfl
  unfold reconstructMonitorLevel
  dsimp only
  rw [hinitial, hreplay, hresult]
  generalize ((restingStart history).map fun start => start.1.date).or
    (if isRestingMonitorStep live then some live.date else none) = anchor
  cases anchor with
  | none => exact ⟨rfl, hafter⟩
  | some anchor =>
    refine ⟨?_, clear_settle hafter anchor⟩
    exact congrArg (MonitorLevelReconstruction.mk _ · _ _ _)
      (settleMonitorLevelLifecycle_onObject hafter anchor)

/-! ### Reconstruction over an object -/

/-- What a reconstruction over the map shares with the full replay, one over an object shares too. -/
theorem EqualsFullReplay.onObject {keys : List String} {history : List (MonitorLevelStep D)}
    {live : MonitorLevelStep D} {reconstructed : MonitorLevelReconstruction D}
    (h : EqualsFullReplay [] keys history live reconstructed)
    (hclear : reconstructed.lifecycle.Clear) (hkeys : ∀ key ∈ keys, key ∉ objectPrototypeNames)
    (hsteps : ∀ step ∈ history ++ [live], step.Avoids objectPrototypeNames) :
    EqualsFullReplay objectPrototypeNames keys history live reconstructed.onObject := by
  have hlive := hsteps live (List.mem_append_right _ (List.mem_singleton_self live))
  obtain ⟨hreplay, hreplayed⟩ := replayMonitorLevel_onObject clear_initial
    fun step hstep => hsteps step (List.mem_append_left _ hstep)
  have hfull : fullReplay (R := RuleObject D) history live = (fullReplay history live).onObject :=
    (congrArg (stepMonitorLevel · live) hreplay).trans (stepMonitorLevel_onObject hreplayed hlive)
  have hfullClear : (fullReplay history live : MonitorLevelStepResult D).next.Clear :=
    clear_stepMonitorLevel hlive
  refine ⟨?_, ?_, fun later hascends hlater => ?_, fun anchor hanchor step hstep holder => ?_⟩
  · rw [hfull]
    change reconstructed.lifecycle.onObject = reconstructed.anchor.elim _ _
    rw [h.lifecycle]
    cases reconstructed.anchor with
    | none => rfl
    | some anchor => exact (settleMonitorLevelLifecycle_onObject hfullClear anchor).symm
  · rw [hfull]
    exact h.opened
  · have houtcomes := h.later later hascends fun _ _ _ _ => List.not_mem_nil
    rw [hfull]
    change List.Forall₂ SameOutcome (stepResults later reconstructed.lifecycle.onObject)
      (stepResults later (fullReplay history live).next.onObject)
    rw [stepResults_onObject hclear hlater, stepResults_onObject hfullClear hlater,
      List.forall₂_map_left_iff, List.forall₂_map_right_iff]
    exact houtcomes.imp fun _ _ hsame => ⟨hsame.opened, hsame.closed, hsame.transitions⟩
  · have havoids : step.Avoids objectPrototypeNames := fun observation hobservation =>
      hkeys _ (hstep.subset (List.mem_map_of_mem hobservation))
    change ChangesNothing (stepMonitorLevel reconstructed.lifecycle.onObject step)
    rw [stepMonitorLevel_onObject hclear havoids]
    exact h.older anchor hanchor step hstep holder

/-- **Reconstruction over plain objects equals a replay of all of history**, while no rule has a name
that every object inherits. -/
theorem reconstruction_of_clearKeys {shapes : List RuleShape}
    (hkeys : (shapes.map RuleShape.key).Nodup)
    (hclear : ∀ key ∈ shapes.map RuleShape.key, key ∉ objectPrototypeNames)
    {history window : List (MonitorLevelStep D)} {live : MonitorLevelStep D}
    (hshapes : ∀ step ∈ history ++ [live], HasShapes shapes step)
    (hascends : AscendsBefore history live.date) (hwindow : window <:+ history) {complete : Bool}
    (hcomplete : complete = true ↔ window = history)
    (hexact : (reconstructMonitorLevel (R := RuleObject D) window live complete).exact = true) :
    EqualsFullReplay (R := RuleObject D) objectPrototypeNames (shapes.map RuleShape.key) history live
      (reconstructMonitorLevel window live complete) := by
  have havoids : ∀ step ∈ history ++ [live], step.Avoids objectPrototypeNames :=
    fun step hstep observation hobservation => hclear _
      ((hshapes step hstep).hasKeys.subset (List.mem_map_of_mem hobservation))
  have hread : ∀ step ∈ window ++ [live], step.Avoids objectPrototypeNames := fun step hstep =>
    havoids step ((List.mem_append.mp hstep).elim
      (fun h => List.mem_append_left _ (hwindow.subset h)) (List.mem_append_right _))
  obtain ⟨hreconstructed, hlifecycle⟩ := reconstructMonitorLevel_onObject complete hread
  rw [hreconstructed] at hexact ⊢
  exact (reconstructMonitorLevel_exact hkeys hshapes hascends hwindow hcomplete hexact).onObject
    hlifecycle hclear havoids

/-- A latched setup with a Trigger and a trigger-only event, read back to the session both rest on. -/
theorem reconstruction_of_clearKeys_window :
    let observe := fun (date : LocalDate) (conditions trigger event : Evaluability) =>
      (⟨date, true, [⟨"latched", none, some conditions, some trigger⟩,
        ⟨"event", none, none, some event⟩]⟩ : MonitorLevelStep)
    let fired := observe (.ofYmd 2026 10 5) .true .true .true
    let rested := observe (.ofYmd 2026 10 6) .false .false .false
    let waiting := observe (.ofYmd 2026 10 7) .true .false .notEvaluable
    let live := observe (.ofYmd 2026 10 8) .true .true .false
    EqualsFullReplay (R := RuleObject) objectPrototypeNames ["latched", "event"]
      [fired, rested, waiting] live (reconstructMonitorLevel [rested, waiting] live false) := by
  intro observe fired rested waiting live
  have hkeys : ([⟨"latched", true, true⟩, ⟨"event", false, true⟩].map RuleShape.key).Nodup := by
    decide
  refine reconstruction_of_clearKeys hkeys (by decide) ?_ ?_ (List.suffix_cons _ _) (by decide)
    (by decide)
  · intro step hstep
    simp only [List.cons_append, List.nil_append, List.mem_cons, List.not_mem_nil, or_false] at hstep
    rcases hstep with rfl | rfl | rfl | rfl <;> exact List.Perm.refl _
  · unfold AscendsBefore
    decide

/-- A rule keyed `__proto__`, at rest before the live observation begins it and at rest again after:
the occurrence never ends in what is reconstructed. -/
theorem not_equalsFullReplay_proto :
    let observe := fun (date : LocalDate) (conditions : Evaluability) =>
      (⟨date, true, [⟨"__proto__", none, some conditions, none⟩]⟩ : MonitorLevelStep)
    let rested := observe (.ofYmd 2026 10 5) .false
    let live := observe (.ofYmd 2026 10 6) .true
    let reconstruction : MonitorLevelReconstruction LocalDate RuleObject :=
      reconstructMonitorLevel [rested] live true
    HasShapes [⟨"__proto__", true, false⟩] rested ∧ HasShapes [⟨"__proto__", true, false⟩] live
      ∧ AscendsBefore [rested] live.date ∧ reconstruction.exact = true
      ∧ ¬ EqualsFullReplay [] ["__proto__"] [rested] live reconstruction := by
  intro observe rested live reconstruction
  refine ⟨List.Perm.refl _, List.Perm.refl _, by unfold AscendsBefore; decide, by decide,
    fun h => ?_⟩
  have hlater := h.later [observe (.ofYmd 2026 10 7) .false] (by decide)
    fun _ _ _ _ => List.not_mem_nil
  have hclosed := (List.forall₂_cons.mp hlater).1.closed
  exact absurd hclosed (by decide)

end OnObject

end FactorSage
