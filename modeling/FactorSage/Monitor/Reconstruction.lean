import FactorSage.Monitor.Reapplication
import FactorSage.Monitor.StandingAlike

/-!
# Reconstruction is a full replay

A level is reconstructed from a window of closed history. `reconstructMonitorLevel` starts at the
latest resting observation of the window, whatever the level was there.

A level that the reducer has followed from the start (`Followed`) rests whenever an observation does:
none of its rules waits on a trigger without Conditions, and a rule is current whenever the level is.
So a resting observation leaves every such level in one canonical form (`Followed.settle_of_resting`),
and from there the reconstructed level and the fully replayed one settle alike
(`SettlesAlike.replay`).
-/

namespace FactorSage

variable {D R : Type}

/-! ### The rules a history observes -/

/-- Which parts a rule has. -/
structure RuleShape where
  key : String
  hasConditions : Bool
  hasTrigger : Bool
  deriving DecidableEq

def ruleShape (observation : MonitorRuleObservation) : RuleShape :=
  ⟨observation.key, observation.conditions.isSome, observation.trigger.isSome⟩

/-- A step observes exactly rules of these shapes. -/
def HasShapes (shapes : List RuleShape) (step : MonitorLevelStep D) : Prop :=
  (step.rules.map ruleShape).Perm shapes

theorem HasShapes.hasKeys {shapes : List RuleShape} {step : MonitorLevelStep D}
    (h : HasShapes shapes step) : HasKeys (shapes.map RuleShape.key) step := by
  have hkeys := h.map RuleShape.key
  rw [List.map_map] at hkeys
  exact hkeys

theorem HasShapes.mem {shapes : List RuleShape} {step : MonitorLevelStep D}
    (h : HasShapes shapes step) {observation : MonitorRuleObservation}
    (hmem : observation ∈ step.rules) : ruleShape observation ∈ shapes :=
  h.subset (List.mem_map_of_mem hmem)

/-- What the window of a reconstruction starts at: its latest resting observation. -/
theorem restingStart_eq_some {steps : List (MonitorLevelStep D)}
    {start : MonitorLevelStep D × List (MonitorLevelStep D)}
    (h : restingStart steps = some start) :
    isRestingMonitorStep start.1 = true ∧ ∃ before, steps = before ++ start.1 :: start.2 := by
  induction steps with
  | nil => cases h
  | cons step rest ih =>
    unfold restingStart at h
    split at h
    · next found hfound =>
      obtain rfl := Option.some.inj h
      obtain ⟨hrests, before, hbefore⟩ := ih hfound
      exact ⟨hrests, step :: before, by rw [hbefore]; rfl⟩
    · split at h
      · next hrests =>
        obtain rfl := Option.some.inj h
        exact ⟨hrests, [], rfl⟩
      · cases h

/-- Steps in ascending dates, all before `later`. -/
def AscendsBefore [LinearOrder D] (steps : List (MonitorLevelStep D)) (later : D) : Prop :=
  (steps.map MonitorLevelStep.date ++ [later]).Pairwise (· < ·)

variable [LinearOrder D]

/-! ### A level that was followed -/

/-- Only rules with Conditions wait. -/
def WaitsOnConditions (shapes : List RuleShape) (level : MonitorLevelLifecycle D) : Prop :=
  ∀ shape ∈ shapes, (ruleOf level shape.key).state = .pendingTrigger → shape.hasConditions = true

/-- What the reducer keeps of a level it follows from the start, ready for `date`. -/
structure Followed (shapes : List RuleShape) (date : D) (level : MonitorLevelLifecycle D) : Prop where
  dated : LevelDated date level
  coherent : Coherent (shapes.map RuleShape.key) level
  waits : WaitsOnConditions shapes level

theorem followed_initial (shapes : List RuleShape) (date : D) :
    Followed shapes date (initialMonitorLevelLifecycle : MonitorLevelLifecycle D) where
  dated := levelDated_initial date
  coherent := coherent_initial _
  waits shape _ hpending := by cases hpending

section Step

variable {shapes : List RuleShape} {level : MonitorLevelLifecycle D} {step : MonitorLevelStep D}
  {later : D}

/-- A rule waiting after a step waited before, or its Conditions hold. -/
theorem pending_stepRule {rule : MonitorRuleLifecycle D} {observation : MonitorRuleObservation}
    {date : D} {eligible : Bool}
    (h : (stepRule rule observation date eligible).afterOpen.state = .pendingTrigger) :
    rule.state = .pendingTrigger ∨ observation.conditions.isSome := by
  have hstep := isRuleStep_stepRule rule observation date eligible
  cases hreason : (stepRule rule observation date eligible).openReason with
  | none =>
    rw [hstep.idles hreason] at h
    exact .inl (by rw [← hstep.afterClose_eq (by rw [h]; rfl), h])
  | some reason =>
    unfold stepRule at h hreason
    split at h
    · exact .inl h
    · next hyounger =>
      rw [if_neg hyounger] at hreason
      dsimp only at h hreason
      obtain ⟨opened, hopened, -⟩ := Option.map_eq_some_iff.mp hreason
      obtain ⟨next, cause⟩ := opened
      obtain ⟨-, -, -, -, hmet⟩ := openPhase_spec hopened
      rcases hmet with ⟨-, -, hactive⟩ | htrue
      · rw [hopened, Option.elim_some, hactive] at h
        cases h
      · exact .inr (by rw [htrue]; rfl)

theorem Followed.next (h : Followed shapes step.date level) (hkeys : (shapes.map RuleShape.key).Nodup)
    (hstep : HasShapes shapes step) (hlater : step.date < later) :
    Followed shapes later (stepMonitorLevel level step).next where
  dated := h.dated.next hlater
  coherent := h.coherent.next hstep.hasKeys hkeys
  waits := by
    intro shape hshape hpending
    obtain ⟨observation, hobservation, rfl⟩ := List.mem_map.mp (hstep.mem_iff.mpr hshape)
    have hentry : ruleEntry level step observation ∈ ruleEntries level step :=
      List.mem_map_of_mem hobservation
    have hfound := ruleOf_stepMonitorLevel hstep.hasKeys hkeys hentry
    have hafter : (stepRule (ruleOf level observation.key) observation step.date
        step.eligible).afterOpen.state = .pendingTrigger := by
      rw [← hpending]
      exact congrArg MonitorRuleLifecycle.state hfound.symm
    rcases pending_stepRule hafter with hwaited | hconditions
    · exact h.waits _ hshape hwaited
    · exact hconditions

theorem LevelDated.movedBefore (h : LevelDated later level) : MovedBefore level later := by
  have hall : ∀ since : Option D, (∀ date ∈ since, date < later) →
      since.all (fun date => decide (date < later)) = true := by
    intro since hsince
    cases since with
    | none => rfl
    | some date => exact decide_eq_true (hsince date rfl)
  exact ⟨hall _ h.since, fun key rule hget => hall _ (h.rules key rule hget).since⟩

/-- The canonical form a resting observation leaves. -/
def restedLevel (step : MonitorLevelStep D) : MonitorLevelLifecycle D :=
  ⟨.inactive, some step.date, .ofList (step.rules.map fun observation =>
    (observation.key, ⟨.inactive, some step.date, none⟩))⟩

/-- No rule of a followed level waits on a trigger alone. -/
theorem Followed.fires (h : Followed shapes step.date level) (hstep : HasShapes shapes step) :
    ∀ observation ∈ step.rules,
      ¬ WaitsOnTrigger step.eligible observation (ruleOf level observation.key).state := by
  rintro observation hmem ⟨-, hnone, hpending⟩
  have hconditions := h.waits _ (hstep.mem hmem) hpending
  unfold ruleShape at hconditions
  rw [hnone] at hconditions
  cases hconditions

/-- A followed level is current only with one of its rules. -/
theorem Followed.explained (h : Followed shapes step.date level) (hstep : HasShapes shapes step) :
    level.state.atRest = false →
      ∃ observation ∈ step.rules, (ruleOf level observation.key).state = level.state := by
  intro hcurrent
  have hlevel := h.coherent
  unfold Coherent MonitorLifecycleState.current at hlevel
  rw [hcurrent, if_neg Bool.false_ne_true] at hlevel
  obtain ⟨rule, hrule, hstate⟩ := exists_of_levelOf_eq_some hlevel
  obtain ⟨key, hkey, rfl⟩ := List.mem_map.mp hrule
  obtain ⟨observation, hmem, rfl⟩ := List.mem_map.mp (hstep.hasKeys.mem_iff.mpr hkey)
  exact ⟨observation, hmem, hstate⟩

theorem restsAt_of_dates {anchor : D} {state : MonitorLifecycleState} {since : Option D}
    (hstate : state.atRest = true) (hsince : ∀ date ∈ since, date ≤ anchor) :
    restsAt anchor state since = true := by
  unfold restsAt
  rw [hstate, Bool.true_and]
  cases since with
  | none => rfl
  | some date => exact decide_eq_true (hsince date rfl)

/-- **Nothing before a resting observation matters after it.** -/
theorem Followed.settle_of_resting (h : Followed shapes step.date level)
    (hstep : HasShapes shapes step) (hrests : isRestingMonitorStep step = true) :
    settleMonitorLevelLifecycle (stepMonitorLevel level step).next step.date = restedLevel step := by
  have hmoved := h.dated.movedBefore
  have hfires := h.fires hstep
  have hstate := (next_state_of_rest hrests hmoved hfires).mpr (h.explained hstep)
  have hsince : ∀ date ∈ (stepMonitorLevel level step).next.since, date ≤ step.date := by
    intro date hdate
    rcases since_stepMonitorLevel level step with hkept | hnow
    · rw [hkept] at hdate
      exact (h.dated.since date hdate).le
    · rw [hnow] at hdate
      exact (Option.some.inj hdate).ge
  rw [settle_eq_of_restsAt (restsAt_of_dates hstate hsince)]
  unfold restedLevel
  congr 1
  change (OrderedMap.ofList ((step.rules.map (ruleEntry level step)).map fun entry =>
    (entry.observation.key, entry.step.afterOpen))).mapValues (settleRule step.date) = _
  rw [OrderedMap.mapValues_ofList, List.map_map, List.map_map]
  congr 1
  refine List.map_congr_left fun observation hmem => Prod.ext rfl (settleRule_of_restsAt ?_)
  have hentry : ruleEntry level step observation ∈ ruleEntries level step :=
    List.mem_map_of_mem hmem
  refine restsAt_of_dates
    ((atRest_entry_iff hrests hmoved hentry).2.2.mpr (hfires observation hmem)) ?_
  intro date hdate
  change date ∈ (stepRule (ruleOf level observation.key) observation step.date
    step.eligible).afterOpen.since at hdate
  rcases stepRule_dates (ruleOf level observation.key) observation step.date step.eligible with
    hkept | ⟨hnow, -⟩
  · rw [hkept] at hdate
    exact ((h.dated.ruleOf observation.key).since date hdate).le
  · rw [hnow] at hdate
    exact (Option.some.inj hdate).ge

/-- A resting observation begins no occurrence. -/
theorem Followed.opened_of_resting (h : Followed shapes step.date level)
    (hstep : HasShapes shapes step) (hrests : isRestingMonitorStep step = true) :
    (stepMonitorLevel level step).opened = false := by
  have hmoved := h.dated.movedBefore
  have hlevel : levelOf ((ruleEntries level step).map fun entry => entry.step.afterOpen) = none := by
    refine levelOf_eq_none_iff.mpr fun rule hrule => ?_
    obtain ⟨entry, hentry, rfl⟩ := List.mem_map.mp hrule
    refine (atRest_entry_iff hrests hmoved hentry).2.2.mpr ?_
    obtain ⟨observation, hmem, rfl⟩ := List.mem_map.mp hentry
    exact h.fires hstep observation hmem
  rw [opened_stepMonitorLevel, ← ruleEntries_eq_map]
  unfold levelAfterOpen
  rw [hlevel, Option.getD_none]
  simp

end Step

/-! ### Runs -/

section Run

variable {shapes : List RuleShape} {anchor later : D} {level left right : MonitorLevelLifecycle D}
  {step : MonitorLevelStep D} {steps rest : List (MonitorLevelStep D)}

theorem ascendsBefore_cons :
    AscendsBefore (step :: rest) later
      ↔ (∀ date ∈ rest.map MonitorLevelStep.date ++ [later], step.date < date)
        ∧ AscendsBefore rest later :=
  List.pairwise_cons

/-- A level followed up to the first of some ascending steps is followed over them. -/
theorem Followed.replay (hkeys : (shapes.map RuleShape.key).Nodup)
    (hlevel : ∀ date ∈ steps.map MonitorLevelStep.date ++ [later], Followed shapes date level)
    (hsteps : ∀ step ∈ steps, HasShapes shapes step) (hascends : AscendsBefore steps later) :
    Followed shapes later (replayMonitorLevel steps level) := by
  induction steps generalizing level with
  | nil => exact hlevel later (List.mem_singleton_self later)
  | cons step rest ih =>
    obtain ⟨hafter, hrest⟩ := ascendsBefore_cons.mp hascends
    rw [replayMonitorLevel_cons]
    refine ih (fun date hdate => ?_) (fun other hother =>
      hsteps other (List.mem_cons_of_mem _ hother)) hrest
    exact (hlevel step.date List.mem_cons_self).next hkeys (hsteps step List.mem_cons_self)
      (hafter date hdate)

/-- Levels that settle alike do so over every later run, with the same outcomes. -/
theorem SettlesAlike.replay (h : SettlesAlike anchor left right)
    (hleft : ∀ step ∈ steps, LevelDated step.date left)
    (hright : ∀ step ∈ steps, LevelDated step.date right)
    (hanchor : ∀ step ∈ steps, anchor < step.date)
    (hascends : steps.Pairwise fun step other => step.date < other.date) :
    SettlesAlike anchor (replayMonitorLevel steps left) (replayMonitorLevel steps right)
      ∧ List.Forall₂ SameOutcome (stepResults steps left) (stepResults steps right) := by
  induction steps generalizing left right with
  | nil => exact ⟨h, .nil⟩
  | cons step rest ih =>
    obtain ⟨hafter, hrest⟩ := List.pairwise_cons.mp hascends
    have hl := hleft step List.mem_cons_self
    have hr := hright step List.mem_cons_self
    have ha := hanchor step List.mem_cons_self
    obtain ⟨hsettles, houtcomes⟩ := ih (h.next hl hr ha)
      (fun other hother => hl.next (hafter other hother))
      (fun other hother => hr.next (hafter other hother))
      (fun other hother => hanchor other (List.mem_cons_of_mem _ hother)) hrest
    exact ⟨hsettles, .cons (h.sameOutcome hl hr ha) houtcomes⟩

end Run

/-! ### Readings from before the anchor -/

/-- An observation that leaves a level as it is and records nothing. -/
def ChangesNothing (result : MonitorLevelStepResult D R) : Prop :=
  result.changed = false ∧ result.transitions = [] ∧ result.closed = none ∧ result.opened = false

/-- Every rule of a level moved at the anchor or after it, once settled there. -/
def SinceAnchor (keys : List String) (anchor : D) (level : MonitorLevelLifecycle D) : Prop :=
  ∀ key ∈ keys, ∃ since ∈ (settleRule anchor (ruleOf level key)).since, anchor ≤ since

section Older

variable {keys : List String} {anchor : D} {level : MonitorLevelLifecycle D}
  {step : MonitorLevelStep D}

theorem sinceAnchor_of_resting (hstep : HasKeys keys step) (hkeys : keys.Nodup)
    (h : settleMonitorLevelLifecycle level step.date = restedLevel step) :
    SinceAnchor keys step.date level := by
  intro key hkey
  obtain ⟨observation, hmem, rfl⟩ := List.mem_map.mp (hstep.mem_iff.mpr hkey)
  have hnodup : ((step.rules.map fun observation => (observation.key,
      (⟨.inactive, some step.date, none⟩ : MonitorRuleLifecycle D))).map Prod.fst).Nodup := by
    rw [List.map_map]
    exact hstep.nodup_iff.mpr hkeys
  have hrested : (restedLevel step).rules.get? observation.key
      = some ⟨.inactive, some step.date, none⟩ :=
    (OrderedMap.get?_ofList_iff hnodup).mpr (List.mem_map.mpr ⟨observation, hmem, rfl⟩)
  rw [← h, rules_settle, OrderedMap.get?_mapValues] at hrested
  obtain ⟨rule, hget, hsettled⟩ := Option.map_eq_some_iff.mp hrested
  refine ⟨step.date, ?_, le_rfl⟩
  rw [ruleOf_eq, hget, Option.getD_some, hsettled]
  rfl

theorem SinceAnchor.next (h : SinceAnchor keys anchor level) (hstep : HasKeys keys step)
    (hkeys : keys.Nodup) (hanchor : anchor < step.date) :
    SinceAnchor keys anchor (stepMonitorLevel level step).next := by
  intro key hkey
  obtain ⟨observation, hmem, rfl⟩ := List.mem_map.mp (hstep.mem_iff.mpr hkey)
  have hentry : ruleEntry level step observation ∈ ruleEntries level step :=
    List.mem_map_of_mem hmem
  have hfound : ruleOf (stepMonitorLevel level step).next observation.key
      = (stepRule (ruleOf level observation.key) observation step.date step.eligible).afterOpen :=
    ruleOf_stepMonitorLevel hstep hkeys hentry
  rw [hfound]
  rcases stepRule_dates (ruleOf level observation.key) observation step.date step.eligible with
    hkept | ⟨hnow, -⟩
  · rw [hkept]
    exact h _ hkey
  · -- what moved after the anchor does not settle
    have hmoved : restsAt anchor (stepRule (ruleOf level observation.key) observation step.date
        step.eligible).afterOpen.state (stepRule (ruleOf level observation.key) observation
          step.date step.eligible).afterOpen.since = false := by
      unfold restsAt
      rw [hnow]
      simp [hanchor]
    rw [settleRule_of_not_restsAt hmoved]
    exact ⟨step.date, hnow, hanchor.le⟩

/-- A step stores the rules it observed. -/
theorem keys_rules_stepMonitorLevel (level : MonitorLevelLifecycle D) (hstep : HasKeys keys step)
    (hkeys : keys.Nodup) :
    (stepMonitorLevel level step).next.rules.keys.Perm keys := by
  rw [OrderedMap.keys, entries_rules_stepMonitorLevel hstep hkeys, List.map_map]
  change ((ruleEntries level step).map fun entry => entry.observation.key).Perm keys
  rw [map_key_ruleEntries]
  exact hstep

/-- A stored rule is settled with its level. -/
theorem ruleOf_settle_of_mem {key : String} (h : key ∈ level.rules.keys) :
    ruleOf (settleMonitorLevelLifecycle level anchor) key = settleRule anchor (ruleOf level key) := by
  obtain ⟨rule, hget⟩ := OrderedMap.mem_keys_iff.mp h
  rw [ruleOf_eq, ruleOf_eq, rules_settle, OrderedMap.get?_mapValues, hget]
  rfl

/-- A level whose rules all moved after an observation stands through it. -/
theorem changesNothing_of_older (hstep : HasKeys keys step) (hkeys : keys.Nodup)
    (hcoherent : Coherent keys level) (hstored : level.rules.keys.Perm keys)
    (holder : ∀ key ∈ keys, ∃ since ∈ (ruleOf level key).since, step.date < since) :
    ChangesNothing (stepMonitorLevel level step) := by
  -- every rule is younger than the step, so each stands
  have hstands : StandsThrough (ruleEntries level step) := by
    intro entry hentry
    rw [ruleEntries_eq] at hentry
    obtain ⟨observation, hmem, rfl⟩ := List.mem_map.mp hentry
    obtain ⟨since, hsince, hlt⟩ := holder _ (hstep.subset (List.mem_map_of_mem hmem))
    refine ruleStands_of_older ?_
    rw [Option.mem_def.mp hsince]
    exact decide_eq_true hlt
  have hagrees : ∀ state, levelOf ((ruleEntries level step).map RuleEntry.before) = some state →
      level.state = state := by
    intro state hlevel
    rw [map_before_ruleEntries, levelOf_perm (hstep.map (ruleOf level)), hcoherent] at hlevel
    unfold MonitorLifecycleState.current at hlevel
    split at hlevel
    · cases hlevel
    · exact Option.some.inj hlevel
  have hsilent := hstands.isSilent hagrees
  refine ⟨?_, hsilent.transitions, hsilent.closed, hsilent.opened⟩
  change (!sameLifecycle level (stepMonitorLevel level step).next) = false
  have hnextKeys := keys_rules_stepMonitorLevel level hstep hkeys
  have hsame : sameLifecycle level (stepMonitorLevel level step).next = true := by
    unfold sameLifecycle
    rw [same_eq, hsilent.state, hsilent.since, (hstored.trans hnextKeys.symm).length_eq]
    simp only [decide_true, Bool.true_and, List.all_eq_true]
    intro key hkey
    obtain ⟨rule, hget⟩ := OrderedMap.mem_keys_iff.mp hkey
    obtain ⟨observation, hmem, rfl⟩ :=
      List.mem_map.mp (hstep.mem_iff.mpr (hstored.mem_iff.mp hkey))
    have hentry : ruleEntry level step observation ∈ ruleEntries level step :=
      List.mem_map_of_mem hmem
    have hkept : (stepMonitorLevel level step).next.rules.get? observation.key = some rule := by
      rw [← OrderedMap.mem_entries_iff, entries_rules_stepMonitorLevel hstep hkeys]
      refine List.mem_map.mpr ⟨_, hentry, Prod.ext rfl ?_⟩
      change (ruleEntry level step observation).step.afterOpen = rule
      rw [hstands _ hentry]
      change ruleOf level observation.key = rule
      rw [ruleOf_eq, hget, Option.getD_some]
    rw [hget, hkept]
    exact decide_eq_true rfl
  rw [hsame]
  rfl

/-- A settled level is the OR of its rules if the level was. -/
theorem Coherent.settle (h : Coherent keys level) (anchor : D) :
    Coherent keys (settleMonitorLevelLifecycle level anchor) := by
  unfold Coherent
  rw [current_settle, ← h]
  refine levelOf_congr fun key _ => ?_
  exact current_eq_of_settleRule_eq ((settlesAlike_settle anchor level).ruleOf key)

end Older

/-! ### Reconstruction -/

section Reconstruction

variable {shapes : List RuleShape} {history window : List (MonitorLevelStep D)}
  {live : MonitorLevelStep D}

/-- Where a replay of resting observation and window stands, against the replay of all of history. -/
structure ReplaysAlike (shapes : List RuleShape) (anchor date : D)
    (left right : MonitorLevelLifecycle D) : Prop where
  settles : SettlesAlike anchor left right
  since : SinceAnchor (shapes.map RuleShape.key) anchor left
  followed : Followed shapes date left
  followed' : Followed shapes date right

variable {left right : MonitorLevelLifecycle D}

/-- Levels followed up to a resting observation are alike after it. -/
theorem Followed.replaysAlike {step : MonitorLevelStep D}
    {later : D} (hleft : Followed shapes step.date left) (hright : Followed shapes step.date right)
    (hkeys : (shapes.map RuleShape.key).Nodup) (hstep : HasShapes shapes step)
    (hrests : isRestingMonitorStep step = true) (hlater : step.date < later) :
    ReplaysAlike shapes step.date later (stepMonitorLevel left step).next
      (stepMonitorLevel right step).next where
  settles := (hleft.settle_of_resting hstep hrests).trans (hright.settle_of_resting hstep hrests).symm
  since := sinceAnchor_of_resting hstep.hasKeys hkeys (hleft.settle_of_resting hstep hrests)
  followed := hleft.next hkeys hstep hlater
  followed' := hright.next hkeys hstep hlater

theorem ReplaysAlike.next {anchor later : D}
    {step : MonitorLevelStep D} (h : ReplaysAlike shapes anchor step.date left right)
    (hkeys : (shapes.map RuleShape.key).Nodup) (hstep : HasShapes shapes step)
    (hanchor : anchor < step.date) (hlater : step.date < later) :
    ReplaysAlike shapes anchor later (stepMonitorLevel left step).next
      (stepMonitorLevel right step).next where
  settles := h.settles.next h.followed.dated h.followed'.dated hanchor
  since := h.since.next hstep.hasKeys hkeys hanchor
  followed := h.followed.next hkeys hstep hlater
  followed' := h.followed'.next hkeys hstep hlater

theorem ReplaysAlike.replay {anchor later : D}
    {steps : List (MonitorLevelStep D)} (hkeys : (shapes.map RuleShape.key).Nodup)
    (h : ∀ date ∈ steps.map MonitorLevelStep.date ++ [later],
      ReplaysAlike shapes anchor date left right)
    (hsteps : ∀ step ∈ steps, HasShapes shapes step) (hanchor : ∀ step ∈ steps, anchor < step.date)
    (hascends : AscendsBefore steps later) :
    ReplaysAlike shapes anchor later (replayMonitorLevel steps left)
      (replayMonitorLevel steps right) := by
  induction steps generalizing left right with
  | nil => exact h later (List.mem_singleton_self later)
  | cons step rest ih =>
    obtain ⟨hafter, hrest⟩ := ascendsBefore_cons.mp hascends
    rw [replayMonitorLevel_cons, replayMonitorLevel_cons]
    refine ih (fun date hdate => ?_)
      (fun other hother => hsteps other (List.mem_cons_of_mem _ hother))
      (fun other hother => hanchor other (List.mem_cons_of_mem _ hother)) hrest
    exact (h step.date List.mem_cons_self).next hkeys (hsteps step List.mem_cons_self)
      (hanchor step List.mem_cons_self) (hafter date hdate)

/-- The level a reconstruction replays its live observation from. -/
def reconstructedStart (window : List (MonitorLevelStep D)) : MonitorLevelLifecycle D :=
  replayMonitorLevel ((restingStart window).elim window fun start => start.1 :: start.2)
    initialMonitorLevelLifecycle

/-- What an anchored reconstruction shares with the full replay. -/
structure Anchored (shapes : List RuleShape) (anchor date : D)
    (reconstructed full : MonitorLevelStepResult D) : Prop where
  opened : reconstructed.opened = full.opened
  settles : SettlesAlike anchor reconstructed.next full.next
  since : SinceAnchor (shapes.map RuleShape.key) anchor reconstructed.next
  coherent : Coherent (shapes.map RuleShape.key) reconstructed.next
  dated : ∀ later, date < later → LevelDated later reconstructed.next
  dated' : ∀ later, date < later → LevelDated later full.next
  le : anchor ≤ date

variable (hkeys : (shapes.map RuleShape.key).Nodup)
  (hshapes : ∀ step ∈ history ++ [live], HasShapes shapes step)
  (hascends : AscendsBefore history live.date) (hwindow : window <:+ history)

include hkeys hshapes hascends hwindow

theorem anchored_of_restingStart {start : MonitorLevelStep D × List (MonitorLevelStep D)}
    (hstart : restingStart window = some start) :
    Anchored shapes start.1.date live.date (stepMonitorLevel (reconstructedStart window) live)
      (stepMonitorLevel (replayMonitorLevel history initialMonitorLevelLifecycle) live) := by
  obtain ⟨step, rest⟩ := start
  obtain ⟨hrests, before, hbefore⟩ := restingStart_eq_some hstart
  dsimp only at hrests hbefore ⊢
  obtain ⟨earlier, hearlier⟩ := hwindow
  have hhistory : history = (earlier ++ before) ++ step :: rest := by
    rw [← hearlier, hbefore, List.append_assoc]
  have hmem : ∀ other ∈ (earlier ++ before) ++ step :: rest, HasShapes shapes other :=
    fun other hother => hshapes other (List.mem_append_left _ (hhistory ▸ hother))
  have hlive := hshapes live (List.mem_append_right _ (List.mem_singleton_self live))
  have hstep := hmem step (List.mem_append_right _ List.mem_cons_self)
  unfold AscendsBefore at hascends
  rw [hhistory, List.map_append, List.append_assoc, List.map_cons, List.cons_append] at hascends
  obtain ⟨-, hlater, -⟩ := List.pairwise_append.mp hascends
  obtain ⟨hafter, hrest⟩ := List.pairwise_cons.mp hlater
  have hbegins : AscendsBefore (earlier ++ before) step.date :=
    hascends.sublist (List.Sublist.append_left (List.singleton_sublist.mpr List.mem_cons_self) _)
  -- the replay of all that came before the resting observation
  have hfull : Followed shapes step.date
      (replayMonitorLevel (earlier ++ before) initialMonitorLevelLifecycle) :=
    Followed.replay hkeys (fun date _ => followed_initial shapes date)
      (fun other hother => hmem other (List.mem_append_left _ hother)) hbegins
  have hwindow : reconstructedStart window
      = replayMonitorLevel rest (stepMonitorLevel initialMonitorLevelLifecycle step).next := by
    rw [reconstructedStart, hstart]
    rfl
  have hlast : step.date < live.date := hafter _ (by simp)
  have hreplays := ReplaysAlike.replay hkeys
    (fun date hdate => (followed_initial shapes step.date).replaysAlike hfull hkeys hstep hrests
      (hafter date hdate))
    (fun other hother => hmem other (List.mem_append_right _ (List.mem_cons_of_mem _ hother)))
    (fun other hother => hafter other.date
      (List.mem_append_left _ (List.mem_map_of_mem hother))) hrest
  rw [hwindow, hhistory, replayMonitorLevel_append, replayMonitorLevel_cons]
  exact {
    opened := (hreplays.settles.sameOutcome hreplays.followed.dated hreplays.followed'.dated
      hlast).opened
    settles := hreplays.settles.next hreplays.followed.dated hreplays.followed'.dated hlast
    since := hreplays.since.next hlive.hasKeys hkeys hlast
    coherent := hreplays.followed.coherent.next hlive.hasKeys hkeys
    dated := fun later hlater => hreplays.followed.dated.next hlater
    dated' := fun later hlater => hreplays.followed'.dated.next hlater
    le := hlast.le }

theorem anchored_of_live (hstart : restingStart window = none)
    (hrests : isRestingMonitorStep live = true) :
    Anchored shapes live.date live.date (stepMonitorLevel (reconstructedStart window) live)
      (stepMonitorLevel (replayMonitorLevel history initialMonitorLevelLifecycle) live) := by
  have hlive := hshapes live (List.mem_append_right _ (List.mem_singleton_self live))
  have hfull : Followed shapes live.date
      (replayMonitorLevel history initialMonitorLevelLifecycle) :=
    Followed.replay hkeys (fun date _ => followed_initial shapes date)
      (fun other hother => hshapes other (List.mem_append_left _ hother)) hascends
  obtain ⟨earlier, rfl⟩ := hwindow
  have hwindow : AscendsBefore window live.date :=
    hascends.sublist (by
      rw [List.map_append, List.append_assoc]
      exact List.sublist_append_right _ _)
  have hpart : Followed shapes live.date (reconstructedStart window) := by
    rw [reconstructedStart, hstart]
    exact Followed.replay hkeys (fun date _ => followed_initial shapes date)
      (fun other hother => hshapes other
        (List.mem_append_left _ (List.mem_append_right _ hother))) hwindow
  exact {
    opened := (hpart.opened_of_resting hlive hrests).trans
      (hfull.opened_of_resting hlive hrests).symm
    settles := (hpart.settle_of_resting hlive hrests).trans
      (hfull.settle_of_resting hlive hrests).symm
    since := sinceAnchor_of_resting hlive.hasKeys hkeys (hpart.settle_of_resting hlive hrests)
    coherent := hpart.coherent.next hlive.hasKeys hkeys
    dated := fun later hlater => hpart.dated.next hlater
    dated' := fun later hlater => hfull.dated.next hlater
    le := le_rfl }

omit hkeys hshapes hascends hwindow in
/-- The reconstruction, by its anchor. -/
theorem reconstructMonitorLevel_eq (window : List (MonitorLevelStep D)) (live : MonitorLevelStep D)
    (complete : Bool) :
    ∃ anchor : Option D,
      reconstructMonitorLevel window live complete
        = { exact := anchor.isSome || complete
            lifecycle := anchor.elim (stepMonitorLevel (reconstructedStart window) live).next
              (settleMonitorLevelLifecycle (stepMonitorLevel (reconstructedStart window) live).next)
            live := stepMonitorLevel (reconstructedStart window) live
            anchor
            replayed := ((restingStart window).elim window fun start => start.1 :: start.2).length }
      ∧ ((∃ start, restingStart window = some start ∧ anchor = some start.1.date)
        ∨ restingStart window = none
          ∧ (isRestingMonitorStep live = true ∧ anchor = some live.date ∨ anchor = none)) := by
  refine ⟨((restingStart window).map fun start => start.1.date).or
    (if isRestingMonitorStep live then some live.date else none), ?_, ?_⟩
  · unfold reconstructMonitorLevel reconstructedStart
    dsimp only
    cases restingStart window with
    | some start => rfl
    | none => cases isRestingMonitorStep live <;> rfl
  · cases hstart : restingStart window with
    | some start => exact .inl ⟨start, rfl, rfl⟩
    | none =>
      refine .inr ⟨rfl, ?_⟩
      cases hrests : isRestingMonitorStep live with
      | true => exact .inl ⟨rfl, rfl⟩
      | false => exact .inr rfl

end Reconstruction

/-- The live observation on top of a replay of the whole history. -/
def fullReplay [RuleRecord D R] (history : List (MonitorLevelStep D)) (live : MonitorLevelStep D) :
    MonitorLevelStepResult D R :=
  stepMonitorLevel (replayMonitorLevel history initialMonitorLevelLifecycle) live

/-- A step that observes no rule under one of some names. -/
def MonitorLevelStep.Avoids (names : List String) (step : MonitorLevelStep D) : Prop :=
  ∀ observation ∈ step.rules, observation.key ∉ names

/-- What a reconstruction shares with the full replay, now and on every later observation of rules
under other names than the reserved ones. -/
structure EqualsFullReplay [RuleRecord D R] (reserved keys : List String)
    (history : List (MonitorLevelStep D)) (live : MonitorLevelStep D)
    (reconstructed : MonitorLevelReconstruction D R) : Prop where
  lifecycle : reconstructed.lifecycle
    = reconstructed.anchor.elim (fullReplay history live).next
        (settleMonitorLevelLifecycle (fullReplay history live).next)
  opened : reconstructed.live.opened = (fullReplay (R := R) history live).opened
  later : ∀ later : List (MonitorLevelStep D),
    ((live :: later).Pairwise fun step other => step.date < other.date) →
    (∀ step ∈ later, step.Avoids reserved) →
      List.Forall₂ SameOutcome (stepResults later reconstructed.lifecycle)
        (stepResults later (fullReplay history live).next)
  older : ∀ anchor ∈ reconstructed.anchor, ∀ step, HasKeys keys step → step.date < anchor →
    ChangesNothing (stepMonitorLevel reconstructed.lifecycle step)

theorem SameOutcome.refl {D : Type} (result : MonitorLevelStepResult D) : SameOutcome result result :=
  ⟨rfl, rfl, rfl⟩

/-- **Reconstruction from any suffix of history equals a replay of all of it**, whenever it calls
itself exact. -/
theorem reconstructMonitorLevel_exact {shapes : List RuleShape}
    (hkeys : (shapes.map RuleShape.key).Nodup) {history window : List (MonitorLevelStep D)}
    {live : MonitorLevelStep D} (hshapes : ∀ step ∈ history ++ [live], HasShapes shapes step)
    (hascends : AscendsBefore history live.date) (hwindow : window <:+ history) {complete : Bool}
    (hcomplete : complete = true ↔ window = history)
    (hexact : (reconstructMonitorLevel window live complete).exact = true) :
    EqualsFullReplay [] (shapes.map RuleShape.key) history live
      (reconstructMonitorLevel window live complete) := by
  obtain ⟨anchor, heq, hanchor⟩ := reconstructMonitorLevel_eq window live complete
  rw [heq] at hexact ⊢
  have hlive := hshapes live (List.mem_append_right _ (List.mem_singleton_self live))
  have hanchored : ∀ date, anchor = some date →
      Anchored shapes date live.date (stepMonitorLevel (reconstructedStart window) live)
        (fullReplay history live) := by
    rintro date rfl
    rcases hanchor with ⟨start, hstart, hdate⟩ | ⟨hstart, ⟨hrests, hdate⟩ | hnone⟩
    · rw [Option.some.inj hdate]
      exact anchored_of_restingStart hkeys hshapes hascends hwindow hstart
    · rw [Option.some.inj hdate]
      exact anchored_of_live hkeys hshapes hascends hwindow hstart hrests
    · cases hnone
  cases anchor with
  | none =>
    -- nothing rests: the window is the whole history
    obtain rfl := hcomplete.mp hexact
    have hstart : restingStart window = none := by
      rcases hanchor with ⟨start, -, hdate⟩ | ⟨hstart, -⟩
      · cases hdate
      · exact hstart
    have hfull : reconstructedStart window = replayMonitorLevel window initialMonitorLevelLifecycle := by
      rw [reconstructedStart, hstart]
      rfl
    dsimp only [Option.elim]
    rw [hfull]
    refine ⟨rfl, rfl, fun later _ _ => List.forall₂_same.mpr fun result _ => .refl result,
      fun date hdate => by cases hdate⟩
  | some date =>
    have h := hanchored date rfl
    dsimp only [Option.elim]
    refine ⟨h.settles, h.opened, fun later hlater _ => ?_, fun anchor hdate step hstep holder => ?_⟩
    · obtain ⟨hafter, hascends⟩ := List.pairwise_cons.mp hlater
      have hsettles := (settlesAlike_settle date
        (stepMonitorLevel (reconstructedStart window) live).next).trans h.settles
      have hdated : ∀ step ∈ later, date < step.date :=
        fun step hstep => h.le.trans_lt (hafter step hstep)
      exact (SettlesAlike.replay hsettles
        (fun step hstep => (h.dated _ (hafter step hstep)).settle (hdated step hstep))
        (fun step hstep => h.dated' _ (hafter step hstep)) hdated hascends).2
    · obtain rfl := Option.some.inj hdate
      have hstored := keys_rules_stepMonitorLevel (reconstructedStart window)
        hlive.hasKeys hkeys
      refine changesNothing_of_older hstep hkeys (h.coherent.settle _) ?_ ?_
      · rw [rules_settle, OrderedMap.keys_mapValues]
        exact hstored
      · intro key hkey
        obtain ⟨since, hsince, hle⟩ := h.since key hkey
        rw [← ruleOf_settle_of_mem (hstored.mem_iff.mpr hkey)] at hsince
        exact ⟨since, hsince, holder.trans_le hle⟩

end FactorSage
