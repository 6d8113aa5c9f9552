import FactorSage.Monitor.Settling

/-!
# Levels that later observations do not tell apart

Two levels settle alike when their settled forms are one (`SettlesAlike`), and stand alike when their
rules do and the levels differ at most in the name and the date of a rest (`StandsLike`). A step after
the anchor has the same outcome on both (`StandsLike.sameOutcome`) and keeps either relation
(`SettlesAlike.next`, `StandsLike.next`).
-/

namespace FactorSage

variable {D R : Type}

/-! ### Outcomes -/

/-- A transition up to the name of the rest it says it came from. -/
def MonitorLifecycleTransition.upToRest (transition : MonitorLifecycleTransition D) :
    Option MonitorLifecycleState × MonitorLifecycleState × MonitorTransitionReason × Option String
      × D :=
  (transition.fromState.current, transition.toState, transition.reason, transition.exitRuleId,
    transition.date)

/-- The same step, up to the name of the rest it began from. -/
structure SameOutcome (left right : MonitorLevelStepResult D R) : Prop where
  opened : left.opened = right.opened
  closed : left.closed = right.closed
  transitions : left.transitions.map MonitorLifecycleTransition.upToRest
    = right.transitions.map MonitorLifecycleTransition.upToRest

theorem SameOutcome.silent_iff {left right : MonitorLevelStepResult D} (h : SameOutcome left right) :
    left.transitions = [] ↔ right.transitions = [] := by
  rw [← List.map_eq_nil_iff, h.transitions, List.map_eq_nil_iff]

variable [LinearOrder D]

/-! ### The dates of a level -/

/-- Every date a level carries is before `date`, and its rules' Triggers stand where they should. -/
structure LevelDated (date : D) (level : MonitorLevelLifecycle D) : Prop where
  since : ∀ since ∈ level.since, since < date
  rules : ∀ key rule, level.rules.get? key = some rule → RuleDated date rule

section Level

variable {date later anchor : D} {level left right : MonitorLevelLifecycle D}
  {step : MonitorLevelStep D}

theorem levelDated_initial (date : D) :
    LevelDated date (initialMonitorLevelLifecycle : MonitorLevelLifecycle D) :=
  ⟨fun _ hsince => (by cases hsince), fun _ _ hget => (by cases hget)⟩

/-- So are the rules it stores and those that inherit its state. -/
theorem LevelDated.ruleOf (h : LevelDated date level) (key : String) :
    RuleDated date (ruleOf level key) := by
  rw [ruleOf_eq]
  cases hget : level.rules.get? key with
  | some rule => exact h.rules key rule hget
  | none =>
    rw [Option.getD_none]
    unfold inheritedRule
    split
    · exact ⟨h.since, fun fired hfired => ⟨fired, hfired, le_rfl, fun hne => absurd rfl hne⟩⟩
    · exact ⟨h.since, fun _ hfired => by cases hfired⟩
    · exact ⟨h.since, fun _ hfired => by cases hfired⟩

theorem since_stepMonitorLevel (level : MonitorLevelLifecycle D) (step : MonitorLevelStep D) :
    (stepMonitorLevel level step).next.since = level.since
      ∨ (stepMonitorLevel level step).next.since = some step.date := by
  unfold stepMonitorLevel
  dsimp only
  split
  · exact .inl rfl
  · exact .inr rfl

/-- A step keeps a level's dates in order. -/
theorem LevelDated.next (h : LevelDated step.date level) (hlt : step.date < later) :
    LevelDated later (stepMonitorLevel level step).next := by
  constructor
  · intro since hsince
    rcases since_stepMonitorLevel level step with hkept | hmoved
    · rw [hkept] at hsince
      exact (h.since since hsince).trans hlt
    · rw [hmoved] at hsince
      rw [← Option.some.inj hsince]
      exact hlt
  · intro key rule hget
    obtain ⟨entry, hentry, rfl⟩ := exists_entry_of_get?_next hget
    obtain ⟨observation, -, rfl⟩ := List.mem_map.mp hentry
    exact (h.ruleOf observation.key).next hlt

/-- Two levels that settle alike. -/
def SettlesAlike (anchor : D) (left right : MonitorLevelLifecycle D) : Prop :=
  settleMonitorLevelLifecycle left anchor = settleMonitorLevelLifecycle right anchor

/-- Two settled levels that settle alike are one. -/
theorem settleMonitorLevelLifecycle_settle (anchor : D) (level : MonitorLevelLifecycle D) :
    settleMonitorLevelLifecycle (settleMonitorLevelLifecycle level anchor) anchor
      = settleMonitorLevelLifecycle level anchor := by
  have hrules : RuleRecord.settle anchor (RuleRecord.settle anchor level.rules)
      = RuleRecord.settle anchor level.rules := by
    ext1
    change List.map _ (List.map _ _) = List.map _ _
    rw [List.map_map]
    refine List.map_congr_left fun e _ => ?_
    exact Prod.ext rfl (settleRule_settleRule anchor e.2)
  unfold settleMonitorLevelLifecycle
  dsimp only
  rw [hrules]
  cases hrests : restsAt anchor level.state level.since with
  | true => rw [if_pos rfl, if_pos rfl, restsAt_settled, if_pos rfl, if_pos rfl]
  | false =>
    rw [if_neg Bool.false_ne_true, if_neg Bool.false_ne_true, hrests, if_neg Bool.false_ne_true,
      if_neg Bool.false_ne_true]

theorem settlesAlike_settle (anchor : D) (level : MonitorLevelLifecycle D) :
    SettlesAlike anchor (settleMonitorLevelLifecycle level anchor) level :=
  settleMonitorLevelLifecycle_settle anchor level

/-- What a level is, but for the name of its rest, and when it moved, but for what is before. -/
theorem settle_eq_of_restsAt (h : restsAt anchor level.state level.since = true) :
    settleMonitorLevelLifecycle level anchor
      = ⟨.inactive, some anchor, level.rules.mapValues (settleRule anchor)⟩ := by
  unfold settleMonitorLevelLifecycle
  rw [h]
  rfl

theorem settle_eq_of_not_restsAt (h : restsAt anchor level.state level.since = false) :
    settleMonitorLevelLifecycle level anchor
      = ⟨level.state, level.since, level.rules.mapValues (settleRule anchor)⟩ := by
  unfold settleMonitorLevelLifecycle
  rw [h]
  rfl

theorem current_settle (anchor : D) (level : MonitorLevelLifecycle D) :
    (settleMonitorLevelLifecycle level anchor).state.current = level.state.current := by
  cases hrests : restsAt anchor level.state level.since with
  | true =>
    have hrest : level.state.atRest = true := (Bool.and_eq_true_iff.mp hrests).1
    rw [settle_eq_of_restsAt hrests]
    unfold MonitorLifecycleState.current
    rw [hrest]
    rfl
  | false => rw [settle_eq_of_not_restsAt hrests]

/-- A rule that inherits the level's state settles with it. -/
theorem settleRule_inheritedRule (anchor : D) (level : MonitorLevelLifecycle D) :
    settleRule anchor (inheritedRule (settleMonitorLevelLifecycle level anchor))
      = settleRule anchor (inheritedRule level) := by
  cases hrests : restsAt anchor level.state level.since with
  | true =>
    obtain ⟨hactive, hpending⟩ := atRest_iff_ne.mp (Bool.and_eq_true_iff.mp hrests).1
    have hinherited : inheritedRule level = ⟨level.state, level.since, none⟩ := by
      unfold inheritedRule
      split
      · next hstate => exact absurd hstate hactive
      · next hstate => exact absurd hstate hpending
      · rfl
    have hsettled : settleRule anchor ⟨.inactive, some anchor, none⟩ = ⟨.inactive, some anchor, none⟩ :=
      settleRule_of_restsAt (restsAt_settled anchor)
    rw [settle_eq_of_restsAt hrests, hinherited, settleRule_rested hrests]
    exact hsettled
  | false =>
    rw [settle_eq_of_not_restsAt hrests]
    rfl

/-- Settling forgets dates and brings none but the anchor's. -/
theorem RuleDated.settleRule {rule : MonitorRuleLifecycle D} (h : RuleDated date rule)
    (hanchor : anchor < date) : RuleDated date (settleRule anchor rule) := by
  cases hrests : restsAt anchor rule.state rule.since with
  | true =>
    rw [settleRule_of_restsAt hrests]
    refine ⟨fun since hsince => ?_, fun fired hfired => by cases hfired⟩
    rw [← Option.some.inj hsince]
    exact hanchor
  | false =>
    rw [settleRule_of_not_restsAt hrests]
    exact ⟨h.since, fun fired hfired => h.trigger fired (Option.filter_eq_some_iff.mp hfired).1⟩

theorem LevelDated.settle (h : LevelDated date level) (hanchor : anchor < date) :
    LevelDated date (settleMonitorLevelLifecycle level anchor) := by
  constructor
  · cases hrests : restsAt anchor level.state level.since with
    | true =>
      rw [settle_eq_of_restsAt hrests]
      intro since hsince
      rw [← Option.some.inj hsince]
      exact hanchor
    | false =>
      rw [settle_eq_of_not_restsAt hrests]
      exact h.since
  · intro key rule hget
    rw [rules_settle, OrderedMap.get?_mapValues] at hget
    obtain ⟨stored, hstored, rfl⟩ := Option.map_eq_some_iff.mp hget
    exact (h.rules key stored hstored).settleRule hanchor

theorem SettlesAlike.current (h : SettlesAlike anchor left right) :
    left.state.current = right.state.current := by
  rw [← current_settle anchor left, h, current_settle]

/-- Levels that settle alike hold rules that do, stored or inherited. -/
theorem SettlesAlike.ruleOf (h : SettlesAlike anchor left right) (key : String) :
    settleRule anchor (ruleOf left key) = settleRule anchor (ruleOf right key) := by
  have hget : (left.rules.get? key).map (settleRule anchor)
      = (right.rules.get? key).map (settleRule anchor) := by
    rw [← OrderedMap.get?_mapValues, ← OrderedMap.get?_mapValues]
    exact congrArg (fun level => level.rules.get? key) h
  have hinherited : settleRule anchor (inheritedRule left)
      = settleRule anchor (inheritedRule right) := by
    rw [← settleRule_inheritedRule, h, settleRule_inheritedRule]
  rw [ruleOf_eq, ruleOf_eq]
  cases hleft : left.rules.get? key with
  | none =>
    cases hright : right.rules.get? key with
    | none => exact hinherited
    | some rule =>
      rw [hleft, hright] at hget
      cases hget
  | some rule =>
    cases hright : right.rules.get? key with
    | none =>
      rw [hleft, hright] at hget
      cases hget
    | some other =>
      rw [hleft, hright] at hget
      exact Option.some.inj hget

/-- One entry of a step. -/
def ruleEntry (previous : MonitorLevelLifecycle D) (step : MonitorLevelStep D)
    (observation : MonitorRuleObservation) : RuleEntry D where
  observation
  before := FactorSage.ruleOf previous observation.key
  step := stepRule (FactorSage.ruleOf previous observation.key) observation step.date step.eligible

theorem ruleEntries_eq_map (previous : MonitorLevelLifecycle D) (step : MonitorLevelStep D) :
    ruleEntries previous step = step.rules.map (ruleEntry previous step) := rfl

theorem transitions_stepMonitorLevel (level : MonitorLevelLifecycle D) (step : MonitorLevelStep D) :
    (stepMonitorLevel level step).transitions
      = recordedTransitions step.date level.state (step.rules.map (ruleEntry level step)) := rfl

theorem opened_stepMonitorLevel (level : MonitorLevelLifecycle D) (step : MonitorLevelStep D) :
    (stepMonitorLevel level step).opened
      = decide (levelAfterOpen (levelAfterClose level.state (step.rules.map (ruleEntry level step)))
            (step.rules.map (ruleEntry level step)) = .active
          ∧ levelAfterClose level.state (step.rules.map (ruleEntry level step)) ≠ .active) := rfl

theorem closed_stepMonitorLevel (level : MonitorLevelLifecycle D) (step : MonitorLevelStep D) :
    (stepMonitorLevel level step).closed
      = if level.state = .active
          ∧ levelAfterClose level.state (step.rules.map (ruleEntry level step)) = .resolved then
          ((closingReason level.state (step.rules.map (ruleEntry level step))).map explanation).map
            Prod.snd
        else none := by
  rw [Option.map_map]
  rfl

/-- A step that records nothing leaves a level where it was, and since when. -/
theorem state_stepMonitorLevel_of_silent (h : (stepMonitorLevel level step).transitions = []) :
    (stepMonitorLevel level step).next.state = level.state
      ∧ (stepMonitorLevel level step).next.since = level.since := by
  have hempty : (stepMonitorLevel level step).transitions.isEmpty = true := by rw [h]; rfl
  exact ⟨if_pos hempty, if_pos hempty⟩

/-- One that records something leaves it where both phases did, since its own date. -/
theorem state_stepMonitorLevel_of_recorded (h : (stepMonitorLevel level step).transitions ≠ []) :
    (stepMonitorLevel level step).next.state
        = levelAfterOpen (levelAfterClose level.state (step.rules.map (ruleEntry level step)))
            (step.rules.map (ruleEntry level step))
      ∧ (stepMonitorLevel level step).next.since = some step.date := by
  have hempty : ¬ (stepMonitorLevel level step).transitions.isEmpty = true := by
    rwa [List.isEmpty_iff]
  exact ⟨if_neg hempty, if_neg hempty⟩

/-- Two levels that stand alike for some rules: these settle alike, and the levels differ at most in
the name and the date of a rest. -/
structure StandsLike (keys : List String) (anchor : D) (left right : MonitorLevelLifecycle D) :
    Prop where
  rules : ∀ key ∈ keys,
    settleRule anchor (FactorSage.ruleOf left key) = settleRule anchor (FactorSage.ruleOf right key)
  current : left.state.current = right.state.current
  since : left.state.atRest = false → left.since = right.since

/-- Settled where they are current, two levels stand alike for all their rules. -/
theorem SettlesAlike.standsLike (h : SettlesAlike anchor left right) (keys : List String) :
    StandsLike keys anchor left right where
  rules key _ := h.ruleOf key
  current := h.current
  since := by
    intro hcurrent
    have hkept : ∀ level : MonitorLevelLifecycle D, level.state.atRest = false →
        (settleMonitorLevelLifecycle level anchor).since = level.since := by
      intro level hlevel
      rw [settle_eq_of_not_restsAt (by unfold restsAt; rw [hlevel, Bool.false_and])]
    have hother : right.state.atRest = false := by
      rcases eq_or_atRest_of_current h.current with hsame | ⟨hrest, -⟩
      · rw [← hsame, hcurrent]
      · rw [hcurrent] at hrest
        cases hrest
    rw [← hkept left hcurrent, ← hkept right hother]
    exact congrArg MonitorLevelLifecycle.since h

section Step

variable {keys : List String} (h : StandsLike keys anchor left right)
  (hstep : ∀ observation ∈ step.rules, observation.key ∈ keys) (hleft : LevelDated step.date left)
  (hright : LevelDated step.date right) (hanchor : anchor < step.date)

include h hstep hleft hright hanchor

theorem StandsLike.entryAlike (observation : MonitorRuleObservation)
    (hmem : observation ∈ step.rules) :
    EntryAlike anchor (ruleEntry left step observation) (ruleEntry right step observation) where
  observation := rfl
  before := current_eq_of_settleRule_eq (h.rules _ (hstep observation hmem))
  step := stepsAlike_of_settleRule_eq (hleft.ruleOf observation.key) (hright.ruleOf observation.key)
    hanchor (h.rules _ (hstep observation hmem)) observation step.eligible

/-- **Levels that stand alike have the same outcome.** -/
theorem StandsLike.sameOutcome :
    SameOutcome (stepMonitorLevel left step) (stepMonitorLevel right step) := by
  have hentries := h.entryAlike hstep hleft hright hanchor
  rcases eq_or_atRest_of_current h.current with hstate | ⟨hrestLeft, hrestRight⟩
  · have hclose := levelAfterClose_alike hentries right.state
    constructor
    · rw [opened_stepMonitorLevel, opened_stepMonitorLevel, hstate, hclose,
        levelAfterOpen_alike hentries]
    · rw [closed_stepMonitorLevel, closed_stepMonitorLevel, hstate, hclose]
      split
      · next hended => rw [closingReason_alike hentries (by rw [hended.1]; rfl)]
      · rfl
    · rw [transitions_stepMonitorLevel, transitions_stepMonitorLevel, hstate,
        recordedTransitions_alike hentries]
  · -- both at rest: each begins what its rules begin
    have hopens := levelOf_afterOpen_alike hentries
    constructor
    · rw [opened_stepMonitorLevel, opened_stepMonitorLevel, levelAfterClose_of_atRest hrestLeft,
        levelAfterClose_of_atRest hrestRight]
      unfold levelAfterOpen
      rw [hopens]
      have hneLeft := (atRest_iff_ne.mp hrestLeft).1
      have hneRight := (atRest_iff_ne.mp hrestRight).1
      cases levelOf ((step.rules.map (ruleEntry right step)).map fun entry => entry.step.afterOpen) <;>
        simp [hneLeft, hneRight]
    · rw [closed_stepMonitorLevel, closed_stepMonitorLevel,
        if_neg fun hended => (atRest_iff_ne.mp hrestLeft).1 hended.1,
        if_neg fun hended => (atRest_iff_ne.mp hrestRight).1 hended.1]
    · rw [transitions_stepMonitorLevel, transitions_stepMonitorLevel,
        recordedTransitions_of_atRest hrestLeft, recordedTransitions_of_atRest hrestRight, hopens]
      cases hlevel : levelOf
          ((step.rules.map (ruleEntry right step)).map fun entry => entry.step.afterOpen) with
      | none => rfl
      | some state =>
        have hcurrent : state.atRest = false := by
          rcases levelOf_eq_some hlevel with rfl | rfl <;> rfl
        rw [Option.elim_some, Option.elim_some, openingEntry_alike hentries hcurrent]
        cases (openingEntry state (step.rules.map (ruleEntry right step))).map explanation with
        | none => rfl
        | some found =>
          -- both came from a rest
          simp [MonitorLifecycleTransition.upToRest, MonitorLifecycleState.current, hrestLeft,
            hrestRight]

/-- Levels that stand alike and record something are the same after it. -/
theorem StandsLike.state_of_recorded (hrecorded : (stepMonitorLevel left step).transitions ≠ []) :
    (stepMonitorLevel left step).next.state = (stepMonitorLevel right step).next.state
      ∧ (stepMonitorLevel left step).next.since = (stepMonitorLevel right step).next.since := by
  have hentries := h.entryAlike hstep hleft hright hanchor
  have hother : (stepMonitorLevel right step).transitions ≠ [] :=
    fun hnone => hrecorded ((h.sameOutcome hstep hleft hright hanchor).silent_iff.mpr hnone)
  obtain ⟨hstate, hsince⟩ := state_stepMonitorLevel_of_recorded hrecorded
  obtain ⟨hstate', hsince'⟩ := state_stepMonitorLevel_of_recorded hother
  rw [hstate, hsince, hstate', hsince']
  refine ⟨?_, rfl⟩
  rcases eq_or_atRest_of_current h.current with hsame | ⟨hrestLeft, hrestRight⟩
  · rw [hsame, levelAfterClose_alike hentries, levelAfterOpen_alike hentries]
  · have hopens := levelOf_afterOpen_alike hentries
    rw [transitions_stepMonitorLevel, recordedTransitions_of_atRest hrestLeft] at hrecorded
    unfold levelAfterOpen
    rw [← hopens]
    cases hlevel : levelOf
        ((step.rules.map (ruleEntry left step)).map fun entry => entry.step.afterOpen) with
    | none =>
      rw [hlevel] at hrecorded
      exact absurd rfl hrecorded
    | some state => rfl

/-- **Levels that stand alike do so after a step.** -/
theorem StandsLike.next (hkeys : keys.Nodup) (hall : HasKeys keys step) :
    StandsLike keys anchor (stepMonitorLevel left step).next (stepMonitorLevel right step).next := by
  have houtcome := h.sameOutcome hstep hleft hright hanchor
  have hrules : ∀ key ∈ keys,
      settleRule anchor (FactorSage.ruleOf (stepMonitorLevel left step).next key)
        = settleRule anchor (FactorSage.ruleOf (stepMonitorLevel right step).next key) := by
    intro key hkey
    obtain ⟨observation, hmem, rfl⟩ := List.mem_map.mp (hall.mem_iff.mpr hkey)
    have hfound : ∀ level : MonitorLevelLifecycle D,
        FactorSage.ruleOf (stepMonitorLevel level step).next observation.key
          = (ruleEntry level step observation).step.afterOpen :=
      fun level => ruleOf_stepMonitorLevel hall hkeys
        (List.mem_map_of_mem hmem : ruleEntry level step observation ∈ ruleEntries level step)
    rw [hfound, hfound]
    exact (h.entryAlike hstep hleft hright hanchor observation hmem).step.afterOpen
  by_cases hsilent : (stepMonitorLevel left step).transitions = []
  · obtain ⟨hstate, hsince⟩ := state_stepMonitorLevel_of_silent hsilent
    obtain ⟨hstate', hsince'⟩ := state_stepMonitorLevel_of_silent (houtcome.silent_iff.mp hsilent)
    refine ⟨hrules, ?_, fun hcurrent => ?_⟩
    · rw [hstate, hstate', h.current]
    · rw [hstate] at hcurrent
      rw [hsince, hsince', h.since hcurrent]
  · obtain ⟨hstate, hsince⟩ := h.state_of_recorded hstep hleft hright hanchor hsilent
    exact ⟨hrules, by rw [hstate], fun _ => hsince⟩

end Step

section Settles

variable (h : SettlesAlike anchor left right) (hleft : LevelDated step.date left)
  (hright : LevelDated step.date right) (hanchor : anchor < step.date)

include h hleft hright hanchor

theorem SettlesAlike.sameOutcome :
    SameOutcome (stepMonitorLevel left step) (stepMonitorLevel right step) :=
  (h.standsLike (step.rules.map (·.key))).sameOutcome (fun _ hmem => List.mem_map_of_mem hmem)
    hleft hright hanchor

/-- **What a step leaves of levels that settle alike settles alike.** -/
theorem SettlesAlike.next :
    SettlesAlike anchor (stepMonitorLevel left step).next (stepMonitorLevel right step).next := by
  have hstands := h.standsLike (step.rules.map (·.key))
  have hstep : ∀ observation ∈ step.rules, observation.key ∈ step.rules.map (·.key) :=
    fun _ hmem => List.mem_map_of_mem hmem
  have hrules : RuleRecord.settle anchor (stepMonitorLevel left step).next.rules
      = RuleRecord.settle anchor (stepMonitorLevel right step).next.rules := by
    change (OrderedMap.ofList ((step.rules.map (ruleEntry left step)).map fun entry =>
        (entry.observation.key, entry.step.afterOpen))).mapValues (settleRule anchor)
      = (OrderedMap.ofList ((step.rules.map (ruleEntry right step)).map fun entry =>
        (entry.observation.key, entry.step.afterOpen))).mapValues (settleRule anchor)
    rw [OrderedMap.mapValues_ofList, OrderedMap.mapValues_ofList, List.map_map, List.map_map,
      List.map_map, List.map_map]
    congr 1
    refine List.map_congr_left fun observation hmem => Prod.ext rfl ?_
    exact (hstands.entryAlike hstep hleft hright hanchor observation hmem).step.afterOpen
  unfold SettlesAlike settleMonitorLevelLifecycle
  rw [hrules]
  by_cases hsilent : (stepMonitorLevel left step).transitions = []
  · have hsilent' := (h.sameOutcome hleft hright hanchor).silent_iff.mp hsilent
    obtain ⟨hstate, hsince⟩ := state_stepMonitorLevel_of_silent hsilent
    obtain ⟨hstate', hsince'⟩ := state_stepMonitorLevel_of_silent hsilent'
    have hstates := congrArg MonitorLevelLifecycle.state h
    have hsinces := congrArg MonitorLevelLifecycle.since h
    dsimp only [settleMonitorLevelLifecycle] at hstates hsinces
    dsimp only
    rw [hstate, hsince, hstate', hsince', hstates, hsinces]
  · obtain ⟨hstate, hsince⟩ := hstands.state_of_recorded hstep hleft hright hanchor hsilent
    dsimp only
    rw [hstate, hsince]

end Settles

end Level

end FactorSage
