import FactorSage.Monitor.LevelAgreement
import Mathlib.Data.Rat.Defs
import Mathlib.Data.String.Basic

/-!
# What a resting observation leaves

`isRestingMonitorStep` says of an observation that it leaves every rule at rest, whatever state it
was applied to. It does so of every rule the reducer itself has moved. A rule read back without its
own state inherits the level's, and then two things go wrong: a trigger-only rule that inherits
`PENDING_TRIGGER` waits on, since only its conditions or a closed window could end a setup; and a
level current over rules none of which is stays current, since no rule's end explains its own.
`rests_iff` says that nothing else does.
-/

namespace FactorSage

/-! ### Persisted rule states -/

/-- What `JSON.parse` builds: a number is the rational a finite double stands for, and the fields of
an object are in the order the object lists them. -/
inductive Json where
  | null
  | bool (value : Bool)
  | num (value : ℚ)
  | str (value : String)
  | arr (items : List Json)
  | obj (fields : List (String × Json))

namespace Json

/-- `Object.entries`; a key written twice has its last value. -/
def entries : Json → List (String × Json)
  | .obj fields => (OrderedMap.ofList fields).entries
  | _ => []

/-- A field of an object; `none` is `undefined`, also for what is no object. -/
def field? (value : Json) (key : String) : Option Json :=
  match value with
  | .obj fields => (OrderedMap.ofList fields).get? key
  | _ => none

end Json

/-- `/^\d{4}-\d{2}-\d{2}$/`. -/
def isLocalDateText (text : String) : Bool :=
  match text.toList with
  | [y₁, y₂, y₃, y₄, s₁, m₁, m₂, s₂, d₁, d₂] =>
    [y₁, y₂, y₃, y₄, m₁, m₂, d₁, d₂].all Char.isDigit && s₁ == '-' && s₂ == '-'
  | _ => false

/-- `none` for `undefined`. -/
def dateOrNull (field : Option Json) : Option (Option String) :=
  match field with
  | some .null => some none
  | some (.str text) => if isLocalDateText text then some (some text) else none
  | _ => none

/-- `LIFECYCLE_STATES`. -/
def lifecycleStateOf (text : String) : Option MonitorLifecycleState :=
  match text with
  | "INACTIVE" => some .inactive
  | "PENDING_TRIGGER" => some .pendingTrigger
  | "ACTIVE" => some .active
  | "RESOLVED" => some .resolved
  | _ => none

/-- One persisted rule; `none` when it is malformed. -/
def parseRuleState (raw : Json) : Option (MonitorRuleLifecycle String) :=
  match raw.field? "state", dateOrNull (raw.field? "since"),
    dateOrNull (raw.field? "triggerDate") with
  | some (.str text), some since, some triggerDate =>
    (lifecycleStateOf text).map fun state => { state, since, triggerDate }
  | _, _, _ => none

/-- Reads persisted rule-local lifecycle. Anything malformed is dropped rather than trusted. -/
def parseMonitorRuleStates (value : Json) : OrderedMap String (MonitorRuleLifecycle String) :=
  .ofList (value.entries.filterMap fun entry =>
    (parseRuleState entry.2).map fun rule => (entry.1, rule))

variable {D : Type}

/-! ### One rule -/

/-- What `isRestingMonitorStep` asks of one rule. -/
def RestsRule (eligible : Bool) (observation : MonitorRuleObservation) : Prop :=
  eligible = false ∨ observation.conditions = some .false
    ∨ observation.conditions = none ∧ observation.trigger ≠ some .true

theorem restsRule_of_mem {step : MonitorLevelStep D} (h : isRestingMonitorStep step = true)
    {observation : MonitorRuleObservation} (hmem : observation ∈ step.rules) :
    RestsRule step.eligible observation := by
  have hrule := List.all_eq_true.mp h observation hmem
  unfold RestsRule
  rw [Bool.or_eq_true] at hrule
  rcases hrule with hineligible | hrule
  · exact .inl (by simpa using hineligible)
  · cases hconditions : observation.conditions with
    | some conditions =>
      simp only [hconditions, decide_eq_true_eq] at hrule
      exact .inr (.inl (by rw [hrule]))
    | none =>
      simp only [hconditions, decide_eq_true_eq] at hrule
      exact .inr (.inr ⟨rfl, hrule⟩)

/-- A trigger-only rule that waits for its trigger on a date that admits entries: a setup that no
condition of its own can end. -/
def WaitsOnTrigger (eligible : Bool) (observation : MonitorRuleObservation)
    (state : MonitorLifecycleState) : Prop :=
  eligible = true ∧ observation.conditions = none ∧ state = .pendingTrigger

section Rule

variable [LinearOrder D] {rule : MonitorRuleLifecycle D} {observation : MonitorRuleObservation}
  {date : D} {eligible : Bool}

/-- A resting observation begins nothing. -/
theorem openPhase_of_restsRule (h : RestsRule eligible observation) :
    openPhase rule observation date eligible = none := by
  cases hopen : openPhase rule observation date eligible with
  | none => rfl
  | some opened =>
    obtain ⟨heligible, -, -, -, hmet⟩ := openPhase_spec hopen
    rcases h with hineligible | hfalse | ⟨hnone, htrigger⟩
    · rw [heligible] at hineligible
      cases hineligible
    · rcases hmet with ⟨hnone, -⟩ | htrue
      · rw [hfalse] at hnone
        cases hnone
      · rw [hfalse] at htrue
        cases htrue
    · rcases hmet with ⟨-, hfired, -⟩ | htrue
      · exact absurd hfired htrigger
      · rw [hnone] at htrue
        cases htrue

theorem isSome_endedStateOf {state : MonitorLifecycleState} :
    (endedStateOf state).isSome ↔ state.atRest = false := by
  cases state <;> decide

/-- A resting observation later than the rule ends what is current, unless it waits on a trigger. -/
theorem closePhase_isSome_iff (h : RestsRule eligible observation)
    (hsince : rule.since.all (fun since => decide (since < date)) = true) :
    (closePhase rule observation date eligible).isSome
      ↔ rule.state.atRest = false ∧ ¬ WaitsOnTrigger eligible observation rule.state := by
  unfold closePhase WaitsOnTrigger
  cases eligible with
  | false => simp [isSome_endedStateOf]
  | true =>
    rcases h with hineligible | hfalse | ⟨hnone, -⟩
    · cases hineligible
    · simp [hfalse, isSome_endedStateOf]
    · rw [hnone]
      -- what is left is a trigger-only rule: it ends an event, and only that
      cases rule.state <;> simp [hsince, MonitorLifecycleState.atRest]

/-- What a resting observation makes of a rule that is not younger: it begins nothing, and it ends
what is current unless that waits on a trigger. -/
theorem stepRule_of_restsRule (h : RestsRule eligible observation)
    (hsince : rule.since.all (fun since => decide (since < date)) = true) :
    (stepRule rule observation date eligible).openReason = none
      ∧ ((stepRule rule observation date eligible).closeReason.isSome
        ↔ rule.state.atRest = false ∧ ¬ WaitsOnTrigger eligible observation rule.state) := by
  have hyounger : (rule.since.any fun since => decide (date < since)) = false := by
    cases hstored : rule.since with
    | none => rfl
    | some since =>
      rw [hstored] at hsince
      simpa using (of_decide_eq_true hsince).le
  unfold stepRule
  rw [if_neg (by simp [hyounger])]
  simp only [openPhase_of_restsRule h, Option.map_none, Option.isSome_map, true_and]
  exact closePhase_isSome_iff h hsince

/-- A rule is at rest after a resting observation exactly when it does not wait on a trigger. -/
theorem atRest_of_restsRule (h : RestsRule eligible observation)
    (hsince : rule.since.all (fun since => decide (since < date)) = true) :
    (stepRule rule observation date eligible).afterOpen.state.atRest = true
      ↔ ¬ WaitsOnTrigger eligible observation rule.state := by
  obtain ⟨hopen, hclose⟩ := stepRule_of_restsRule h hsince
  have hstep := isRuleStep_stepRule rule observation date eligible
  rw [hstep.idles hopen]
  cases hreason : (stepRule rule observation date eligible).closeReason with
  | none =>
    rw [hstep.keeps hreason]
    rw [hreason] at hclose
    constructor
    · rintro hrest ⟨-, -, hpending⟩
      rw [hpending] at hrest
      cases hrest
    · intro hwaits
      by_contra hcurrent
      cases hclose.mpr ⟨by simpa using hcurrent, hwaits⟩
  | some reason =>
    rw [hreason] at hclose
    have hended := endedStateOf_eq_some (hstep.closes (by rw [hreason]; rfl))
    refine iff_of_true ?_ (hclose.mp rfl).2
    rcases hended with ⟨-, hstate⟩ | ⟨-, hstate⟩ <;> rw [hstate] <;> rfl

end Rule

/-! ### One level -/

/-- After a step no rule it observed is active or waiting, and neither is the level. -/
def LeavesAtRest (step : MonitorLevelStep D) (next : MonitorLevelLifecycle D) : Prop :=
  (∀ observation ∈ step.rules, (ruleOf next observation.key).state ≠ .active
    ∧ (ruleOf next observation.key).state ≠ .pendingTrigger)
  ∧ (next.state = .inactive ∨ next.state = .resolved)

/-- What a level has to be for a resting observation to leave it at rest. -/
structure CanRest (level : MonitorLevelLifecycle D) (step : MonitorLevelStep D) : Prop where
  /-- No trigger-only rule waits. -/
  fires : ∀ observation ∈ step.rules,
    ¬ WaitsOnTrigger step.eligible observation (ruleOf level observation.key).state
  /-- A current level has a rule whose end explains its own. -/
  explained : level.state.atRest = false →
    ∃ observation ∈ step.rules, (ruleOf level observation.key).state = level.state

theorem atRest_iff {state : MonitorLifecycleState} :
    state.atRest = true ↔ state = .inactive ∨ state = .resolved := by
  cases state <;> decide

theorem atRest_iff_ne {state : MonitorLifecycleState} :
    state.atRest = true ↔ state ≠ .active ∧ state ≠ .pendingTrigger := by
  cases state <;> decide

theorem leavesAtRest_iff {step : MonitorLevelStep D} {next : MonitorLevelLifecycle D} :
    LeavesAtRest step next
      ↔ (∀ observation ∈ step.rules, (ruleOf next observation.key).state.atRest = true)
        ∧ next.state.atRest = true := by
  unfold LeavesAtRest
  rw [atRest_iff]
  simp only [atRest_iff_ne]

/-- A level and its rules, all moved before a date. -/
structure MovedBefore [LinearOrder D] (level : MonitorLevelLifecycle D) (date : D) : Prop where
  since : level.since.all (fun since => decide (since < date)) = true
  rules : ∀ key rule, level.rules.get? key = some rule →
    rule.since.all (fun since => decide (since < date)) = true

/-- What explains the end of a level's state: a rule that ended the same state. -/
theorem isSome_closingReason {prior : MonitorLifecycleState} {entries : List (RuleEntry D)} :
    (closingReason prior entries).isSome
      ↔ ∃ entry ∈ entries, entry.step.closeReason.isSome ∧ entry.before.state = prior := by
  unfold closingReason
  constructor
  · intro h
    obtain ⟨closing, hclosing⟩ := Option.isSome_iff_exists.mp h
    obtain ⟨entry, hfound, -⟩ := Option.bind_eq_some_iff.mp hclosing
    have hspec := List.find?_some hfound
    rw [Bool.and_eq_true, decide_eq_true_eq] at hspec
    exact ⟨entry, List.mem_of_find?_eq_some hfound, hspec⟩
  · rintro ⟨entry, hmem, hreason, hstate⟩
    obtain ⟨found, reason, hfound, hfoundReason⟩ := closingEntry_of_mem hmem hstate hreason
    rw [hfound, Option.bind_some, hfoundReason]
    rfl

/-- A level that ended and began nothing records its end, if a rule explains it. -/
theorem isEmpty_levelTransitions_of_ended {date : D} {prior afterClose : MonitorLifecycleState}
    {closing opening : Option (RuleEntry D × MonitorTransitionReason)}
    (hended : endedStateOf prior = some afterClose) :
    (levelTransitions date prior afterClose afterClose closing opening).isEmpty = closing.isNone := by
  unfold levelTransitions
  rcases endedStateOf_eq_some hended with ⟨rfl, rfl⟩ | ⟨rfl, rfl⟩ <;> cases closing <;> rfl

section Level

variable [LinearOrder D] {level : MonitorLevelLifecycle D} {step : MonitorLevelStep D}

theorem MovedBefore.ruleOf (h : MovedBefore level step.date) (key : String) :
    (ruleOf level key).since.all (fun since => decide (since < step.date)) = true := by
  rw [ruleOf_eq]
  cases hget : level.rules.get? key with
  | some rule => exact h.rules key rule hget
  | none =>
    have hsince : (inheritedRule level).since = level.since := by
      unfold inheritedRule
      split <;> rfl
    rw [Option.getD_none, hsince]
    exact h.since

variable (hrests : isRestingMonitorStep step = true) (hmoved : MovedBefore level step.date)

include hrests hmoved in
theorem atRest_entry_iff {entry : RuleEntry D} (hmem : entry ∈ ruleEntries level step) :
    entry.step.openReason = none
      ∧ (entry.step.closeReason.isSome ↔ entry.before.state.atRest = false
        ∧ ¬ WaitsOnTrigger step.eligible entry.observation entry.before.state)
      ∧ (entry.step.afterOpen.state.atRest = true
        ↔ ¬ WaitsOnTrigger step.eligible entry.observation entry.before.state) := by
  obtain ⟨observation, hobservation, rfl⟩ := List.mem_map.mp hmem
  have hrule := restsRule_of_mem hrests hobservation
  have hsince := hmoved.ruleOf observation.key
  obtain ⟨hopen, hclose⟩ := stepRule_of_restsRule hrule hsince
  exact ⟨hopen, hclose, atRest_of_restsRule hrule hsince⟩

include hrests hmoved in
/-- Nothing is active after a resting observation. -/
theorem afterOpen_ne_active {entry : RuleEntry D} (hmem : entry ∈ ruleEntries level step) :
    entry.step.afterOpen.state ≠ .active := by
  intro hactive
  obtain ⟨hopen, hclose, -⟩ := atRest_entry_iff hrests hmoved hmem
  have hstep := isRuleStep_of_mem hmem
  rw [hstep.idles hopen] at hactive
  have hbefore := hstep.afterClose_eq (by rw [hactive]; rfl)
  have hreason : entry.step.closeReason.isSome := by
    rw [hclose, ← hbefore, hactive]
    exact ⟨rfl, fun hwaits => by cases hwaits.2.2⟩
  rcases endedStateOf_eq_some (hstep.closes hreason) with ⟨-, hstate⟩ | ⟨-, hstate⟩ <;>
    rw [hstate] at hactive <;> cases hactive

include hrests hmoved in
/-- A rule that waits on a trigger keeps the whole level waiting. -/
theorem next_state_of_waits {observation : MonitorRuleObservation} (hmem : observation ∈ step.rules)
    (hwaits : WaitsOnTrigger step.eligible observation (ruleOf level observation.key).state) :
    (stepMonitorLevel level step).next.state = .pendingTrigger := by
  have hentry : (⟨observation, ruleOf level observation.key,
      stepRule (ruleOf level observation.key) observation step.date step.eligible⟩ : RuleEntry D)
        ∈ ruleEntries level step := List.mem_map.mpr ⟨observation, hmem, rfl⟩
  obtain ⟨hopen, hclose, -⟩ := atRest_entry_iff hrests hmoved hentry
  have hstep := isRuleStep_of_mem hentry
  have hkept : (stepRule (ruleOf level observation.key) observation step.date
      step.eligible).closeReason = none := by
    by_contra hreason
    exact (hclose.mp (Option.isSome_iff_ne_none.mpr hreason)).2 hwaits
  refine next_state_of_levelOf (levelOf_eq_pending_iff.mpr ⟨?_, _,
    List.mem_map_of_mem (f := fun entry => entry.step.afterOpen) hentry, ?_⟩) ?_
  · intro rule hrule
    obtain ⟨entry, hother, rfl⟩ := List.mem_map.mp hrule
    exact afterOpen_ne_active hrests hmoved hother
  · rw [hstep.idles hopen, hstep.keeps hkept]
    exact hwaits.2.2
  · intro entry hother hactive
    exact absurd ((isRuleStep_of_mem hother).active_afterOpen hactive)
      (afterOpen_ne_active hrests hmoved hother)

include hrests hmoved in
/-- A level all of whose rules come to rest ends with a rule that explains it, and only so. -/
theorem next_state_of_rest
    (hfires : ∀ observation ∈ step.rules,
      ¬ WaitsOnTrigger step.eligible observation (ruleOf level observation.key).state) :
    (stepMonitorLevel level step).next.state.atRest = true
      ↔ (level.state.atRest = false →
        ∃ observation ∈ step.rules, (ruleOf level observation.key).state = level.state) := by
  have hwaits : ∀ entry ∈ ruleEntries level step,
      ¬ WaitsOnTrigger step.eligible entry.observation entry.before.state := by
    intro entry hmem
    obtain ⟨observation, hobservation, rfl⟩ := List.mem_map.mp hmem
    exact hfires observation hobservation
  have hopened : levelOf ((ruleEntries level step).map fun entry => entry.step.afterOpen) = none := by
    refine levelOf_eq_none_iff.mpr fun rule hrule => ?_
    obtain ⟨entry, hmem, rfl⟩ := List.mem_map.mp hrule
    exact (atRest_entry_iff hrests hmoved hmem).2.2.mpr (hwaits entry hmem)
  have hclosed : levelOf ((ruleEntries level step).map fun entry => entry.step.afterClose)
      = none := by
    have hmap : (ruleEntries level step).map (fun entry => entry.step.afterClose)
        = (ruleEntries level step).map fun entry => entry.step.afterOpen :=
      List.map_congr_left fun entry hmem =>
        ((isRuleStep_of_mem hmem).idles (atRest_entry_iff hrests hmoved hmem).1).symm
    rw [hmap, hopened]
  have hphase := closePhase_levelAfterClose level.state (ruleEntries level step)
  rw [hclosed, hopened] at hphase
  change MonitorLifecycleState.atRest (if (levelTransitions _ _ _ _ (closingReason _ _)
    (openingEntry _ _)).isEmpty then _ else _) = true ↔ _
  rw [levelAfterOpen, hopened, Option.getD_none]
  generalize levelAfterClose level.state (ruleEntries level step) = afterClose at hphase ⊢
  cases hphase with
  | stays hactive hpending =>
    -- nothing holds a current level, so it was at rest
    have hrest : level.state.atRest = true := by
      rw [atRest_iff_ne]
      refine ⟨fun hstate => ?_, fun hstate => hpending hstate rfl⟩
      rcases hactive hstate with hno | hno <;> cases hno
    rw [ite_self, hrest]
    exact iff_of_true rfl (fun hcurrent => by cases hcurrent)
  | ends _ hended =>
    have hcurrent : level.state.atRest = false :=
      isSome_endedStateOf.mp (by rw [hended]; rfl)
    have hafter : afterClose.atRest = true := by
      rcases endedStateOf_eq_some hended with ⟨-, rfl⟩ | ⟨-, rfl⟩ <;> rfl
    rw [isEmpty_levelTransitions_of_ended hended]
    have hexplains : (closingReason level.state (ruleEntries level step)).isSome
        ↔ ∃ observation ∈ step.rules, (ruleOf level observation.key).state = level.state := by
      rw [isSome_closingReason]
      constructor
      · rintro ⟨entry, hmem, -, hstate⟩
        obtain ⟨observation, hobservation, rfl⟩ := List.mem_map.mp hmem
        exact ⟨observation, hobservation, hstate⟩
      · rintro ⟨observation, hobservation, hstate⟩
        have hentry : (⟨observation, ruleOf level observation.key,
            stepRule (ruleOf level observation.key) observation step.date step.eligible⟩
              : RuleEntry D) ∈ ruleEntries level step :=
          List.mem_map.mpr ⟨observation, hobservation, rfl⟩
        refine ⟨_, hentry, (atRest_entry_iff hrests hmoved hentry).2.1.mpr ⟨?_, ?_⟩, hstate⟩
        · rw [hstate, hcurrent]
        · exact hfires observation hobservation
    cases hclosing : closingReason level.state (ruleEntries level step) with
    | none =>
      rw [hclosing] at hexplains
      rw [Option.isNone_none, if_pos rfl, hcurrent]
      refine iff_of_false Bool.false_ne_true fun hexplained => ?_
      cases hexplains.mpr (hexplained rfl)
    | some closing =>
      rw [hclosing] at hexplains
      rw [Option.isNone_some, if_neg Bool.false_ne_true, hafter]
      exact iff_of_true rfl fun _ => hexplains.mp rfl

include hrests hmoved in
/-- **A resting observation leaves a level at rest exactly when** no trigger-only rule of it waits
and a rule is current whenever the level is. -/
theorem leavesAtRest_iff_canRest :
    LeavesAtRest step (stepMonitorLevel level step).next ↔ CanRest level step := by
  rw [leavesAtRest_iff]
  constructor
  · rintro ⟨hrules, hlevel⟩
    have hfires : ∀ observation ∈ step.rules,
        ¬ WaitsOnTrigger step.eligible observation (ruleOf level observation.key).state := by
      intro observation hmem hwaits
      rw [next_state_of_waits hrests hmoved hmem hwaits] at hlevel
      cases hlevel
    exact ⟨hfires, (next_state_of_rest hrests hmoved hfires).mp hlevel⟩
  · rintro ⟨hfires, hexplained⟩
    have hlevel := (next_state_of_rest hrests hmoved hfires).mpr hexplained
    refine ⟨fun observation hmem => ?_, hlevel⟩
    rw [ruleOf_eq]
    cases hget : (stepMonitorLevel level step).next.rules.get? observation.key with
    | some rule =>
      obtain ⟨entry, hentry, rfl⟩ := exists_entry_of_get?_next hget
      refine (atRest_entry_iff hrests hmoved hentry).2.2.mpr ?_
      obtain ⟨other, hother, rfl⟩ := List.mem_map.mp hentry
      exact hfires other hother
    | none =>
      -- a rule the level does not store stands where the level does
      rw [Option.getD_none]
      unfold inheritedRule
      split
      · next hstate =>
        rw [hstate] at hlevel
        cases hlevel
      · next hstate =>
        rw [hstate] at hlevel
        cases hlevel
      · exact hlevel

end Level

/-! ### Persisted levels -/

/-- A level as it is read back: its own columns, and whatever its rule states hold. -/
def persistedLevel (state : MonitorLifecycleState) (since : Option String) (ruleStates : Json) :
    MonitorLevelLifecycle String :=
  ⟨state, since, parseMonitorRuleStates ruleStates⟩

/-- **A resting observation of a persisted level**, whatever was stored for its rules. -/
theorem leavesAtRest_persistedLevel_iff (state : MonitorLifecycleState) (since : Option String)
    (ruleStates : Json) {step : MonitorLevelStep String} (hrests : isRestingMonitorStep step = true)
    (hmoved : MovedBefore (persistedLevel state since ruleStates) step.date) :
    LeavesAtRest step (stepMonitorLevel (persistedLevel state since ruleStates) step).next
      ↔ CanRest (persistedLevel state since ruleStates) step :=
  leavesAtRest_iff_canRest hrests hmoved

/-- A final exit with a latched and a trigger-only rule, stored waiting before rules were stored
themselves: the trigger-only rule inherits the setup, and no resting observation ends it. -/
theorem not_leavesAtRest :
    ¬ ∀ (state : MonitorLifecycleState) (since : Option String) (ruleStates : Json)
      (step : MonitorLevelStep String), isRestingMonitorStep step = true →
        MovedBefore (persistedLevel state since ruleStates) step.date →
          LeavesAtRest step (stepMonitorLevel (persistedLevel state since ruleStates) step).next := by
  intro hclaim
  have hrests := hclaim .pendingTrigger (some "2026-03-02") (.obj [])
    ⟨"2026-03-03", true, [⟨"latched", some "latched", some .false, some .false⟩,
      ⟨"event", some "event", none, some .false⟩]⟩ (by decide) ⟨by decide, fun _ _ hget => by cases hget⟩
  revert hrests
  unfold LeavesAtRest
  decide

/-- A level stored active with its rule, on the session its conditions end. -/
theorem leavesAtRest_persistedLevel_sample :
    let ruleStates : Json := .obj [("latched", .obj [("state", .str "ACTIVE"),
      ("since", .str "2026-03-02"), ("triggerDate", .str "2026-03-02")]), ("event", .str "lost")]
    let step : MonitorLevelStep String := ⟨"2026-03-03", true,
      [⟨"latched", some "latched", some .false, some .false⟩,
        ⟨"event", some "event", none, some .false⟩]⟩
    let level := persistedLevel .active (some "2026-03-02") ruleStates
    LeavesAtRest step (stepMonitorLevel level step).next ↔ CanRest level step := by
  intro ruleStates step level
  have hrules : level.rules.entries
      = [("latched", ⟨.active, some "2026-03-02", some "2026-03-02"⟩)] := by decide
  refine leavesAtRest_persistedLevel_iff .active (some "2026-03-02") ruleStates (by decide)
    ⟨by decide, fun key rule hget => ?_⟩
  rw [← OrderedMap.mem_entries_iff, hrules] at hget
  obtain ⟨-, rfl⟩ := Prod.mk.inj (List.mem_singleton.mp hget)
  decide

end FactorSage
