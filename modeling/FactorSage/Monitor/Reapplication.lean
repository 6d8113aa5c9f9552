import FactorSage.Monitor.LevelAgreement

/-!
# Re-applying an observation

Retries and overlapping cycles apply the same observation to a level twice. The second application
changes nothing, records nothing and neither opens nor closes an occurrence.

Two facts carry this. A rule that a step has moved stands where the same observation leaves it
(`stepRule_afterOpen`), so no rule moves again. And no lifecycle the Monitor can hold stores an
active rule under a level that is not active (`LevelNamesActive`), so the level does not move
either: a level at rest over an active rule would report it as opened each time it looked.
-/

namespace FactorSage

variable {D : Type}

/-! ### One rule -/

section Rule

variable [LinearOrder D] {rule : MonitorRuleLifecycle D} {observation : MonitorRuleObservation}
  {date : D} {eligible : Bool}

/-- An observation leaves the rule as it is. -/
def RuleStands (rule : MonitorRuleLifecycle D) (observation : MonitorRuleObservation)
    (date : D) (eligible : Bool) : Prop :=
  stepRule rule observation date eligible = ⟨rule, rule, none, none⟩

theorem ruleStands_of_older (h : (rule.since.any fun since => decide (date < since)) = true) :
    RuleStands rule observation date eligible := by
  unfold RuleStands stepRule
  rw [if_pos h]

theorem ruleStands_of_phases (hclose : closePhase rule observation date eligible = none)
    (hopen : openPhase rule observation date eligible = none) :
    RuleStands rule observation date eligible := by
  unfold RuleStands stepRule
  split
  · rfl
  · simp only [hclose, Option.elim_none, hopen, Option.map_none]

/-- What an observation has begun, the same observation does not end. -/
theorem closePhase_of_openPhase {current opened : MonitorRuleLifecycle D}
    {reason : MonitorTransitionReason}
    (h : openPhase current observation date eligible = some (opened, reason)) :
    closePhase opened observation date eligible = none := by
  obtain ⟨heligible, -, hsince, -, hmet⟩ := openPhase_spec h
  unfold closePhase
  rw [if_neg (by simp [heligible])]
  rcases hmet with ⟨hnone, -, hactive⟩ | htrue
  · -- a trigger-only event lives through the session it fired in
    simp [hnone, hsince]
  · simp [htrue]

/-- What an observation has begun, the same observation does not begin again. -/
theorem openPhase_of_openPhase {current opened : MonitorRuleLifecycle D}
    {reason : MonitorTransitionReason}
    (h : openPhase current observation date eligible = some (opened, reason)) :
    openPhase opened observation date eligible = none := by
  unfold openPhase at h
  split at h
  · simp only at h
    split at h
    · split at h
      · obtain ⟨rfl, -⟩ := Prod.mk.inj (Option.some.inj h)
        simp [openPhase]
      · cases h
    · next conditions hconditions =>
      split at h
      · cases h
      next hholds =>
      · split at h
        · obtain ⟨rfl, -⟩ := Prod.mk.inj (Option.some.inj h)
          simp [openPhase]
        · next htrigger =>
          split at h
          · obtain ⟨rfl, -⟩ := Prod.mk.inj (Option.some.inj h)
            simp [openPhase]
          · next hfresh =>
            split at h
            · -- a setup waits: its trigger was not fresh, and starting the setup consumed none
              obtain ⟨rfl, -⟩ := Prod.mk.inj (Option.some.inj h)
              unfold openPhase
              split
              · simp only [hconditions]
                rw [if_neg hholds, if_neg hfresh, if_neg (not_not.mpr rfl)]
              · rfl
            · cases h
  · cases h

/-- **A rule stands where an observation has left it.** -/
theorem stepRule_afterOpen (rule : MonitorRuleLifecycle D) (observation : MonitorRuleObservation)
    (date : D) (eligible : Bool) :
    RuleStands (stepRule rule observation date eligible).afterOpen observation date eligible := by
  unfold stepRule
  split
  · next holder => exact ruleStands_of_older holder
  · cases hclose : closePhase rule observation date eligible with
    | none =>
      simp only [Option.elim_none]
      cases hopen : openPhase rule observation date eligible with
      | none => exact ruleStands_of_phases hclose hopen
      | some opened =>
        exact ruleStands_of_phases (closePhase_of_openPhase hopen) (openPhase_of_openPhase hopen)
    | some close =>
      obtain ⟨hended, -⟩ := closePhase_spec hclose
      have hrest : close.1.atRest = true := by
        rcases endedStateOf_eq_some hended with ⟨-, hstate⟩ | ⟨-, hstate⟩ <;> rw [hstate] <;> rfl
      simp only [Option.elim_some]
      cases hopen : openPhase { rule with state := close.1, since := some date } observation date
          eligible with
      | none => exact ruleStands_of_phases (closePhase_of_atRest hrest) hopen
      | some opened =>
        exact ruleStands_of_phases (closePhase_of_openPhase hopen) (openPhase_of_openPhase hopen)

end Rule

/-! ### One level -/

/-- No rule is stored active under a level that is not. -/
def LevelNamesActive (level : MonitorLevelLifecycle D) : Prop :=
  ∀ key rule, level.rules.get? key = some rule → rule.state = .active → level.state = .active

theorem LevelNamesActive.ruleOf {level : MonitorLevelLifecycle D} (h : LevelNamesActive level)
    {key : String}
    (hactive : (ruleOf level key).state = .active) : level.state = .active := by
  rw [ruleOf_eq] at hactive
  cases hget : level.rules.get? key with
  | some rule =>
    rw [hget] at hactive
    exact h key rule hget hactive
  | none =>
    -- a rule the level does not describe inherits its state
    rw [hget, Option.getD_none] at hactive
    unfold inheritedRule at hactive
    split at hactive
    · next hstate => exact hstate
    · cases hactive
    · exact hactive

/-- An observation that moves no rule. -/
def StandsThrough (entries : List (RuleEntry D)) : Prop :=
  ∀ entry ∈ entries, entry.step = ⟨entry.before, entry.before, none, none⟩

section Standing

variable {entries : List (RuleEntry D)} {prior : MonitorLifecycleState}

theorem StandsThrough.closingReason (h : StandsThrough entries) :
    closingReason prior entries = none := by
  have hnone : closingEntry prior entries = none := by
    refine List.find?_eq_none.mpr fun entry hmem => ?_
    rw [h entry hmem]
    simp
  rw [FactorSage.closingReason, hnone, Option.bind_none]

theorem StandsThrough.map_afterClose (h : StandsThrough entries) :
    entries.map (fun entry => entry.step.afterClose) = entries.map RuleEntry.before :=
  List.map_congr_left fun entry hmem => by rw [h entry hmem]

theorem StandsThrough.map_afterOpen (h : StandsThrough entries) :
    entries.map (fun entry => entry.step.afterOpen) = entries.map RuleEntry.before :=
  List.map_congr_left fun entry hmem => by rw [h entry hmem]

/-- When no rule moves, a level that its rules agree with begins nothing. -/
theorem StandsThrough.levelAfterOpen (h : StandsThrough entries)
    (hlevel : ∀ state, levelOf (entries.map RuleEntry.before) = some state → prior = state) :
    levelAfterOpen (levelAfterClose prior entries) entries = levelAfterClose prior entries := by
  have hphase := closePhase_levelAfterClose prior entries
  rw [h.map_afterClose, h.map_afterOpen] at hphase
  generalize levelAfterClose prior entries = afterClose at hphase ⊢
  rw [FactorSage.levelAfterOpen, h.map_afterOpen]
  cases hrules : levelOf (entries.map RuleEntry.before) with
  | none => rfl
  | some state =>
    rw [hrules] at hphase
    obtain rfl := hlevel state hrules
    cases hphase with
    | stays => rfl
    | ends _ hended hactive hpending =>
      rcases endedStateOf_eq_some hended with ⟨rfl, -⟩ | ⟨rfl, -⟩
      · exact absurd rfl (hactive rfl)
      · cases hpending rfl

end Standing

section Level

variable [LinearOrder D] {previous : MonitorLevelLifecycle D} {step : MonitorLevelStep D}

/-- A level whose rules are active or waiting after a step is so itself. -/
theorem LevelNamesActive.next_state (h : LevelNamesActive previous) {state : MonitorLifecycleState}
    (hlevel : levelOf ((ruleEntries previous step).map fun entry => entry.step.afterOpen)
      = some state) : (stepMonitorLevel previous step).next.state = state := by
  refine next_state_of_levelOf hlevel fun entry hmem hactive => ?_
  have hbefore := (isRuleStep_of_mem hmem).afterClose_eq (by rw [hactive]; rfl)
  exact h.ruleOf (by rw [← (mem_of_mem_ruleEntries hmem).2, ← hbefore, hactive])

theorem LevelNamesActive.next (h : LevelNamesActive previous) :
    LevelNamesActive (stepMonitorLevel previous step).next := by
  intro key rule hget hactive
  obtain ⟨entry, hmem, rfl⟩ := exists_entry_of_get?_next hget
  exact h.next_state (levelOf_eq_active_iff.mpr ⟨entry.step.afterOpen,
    List.mem_map_of_mem (f := fun entry => entry.step.afterOpen) hmem, hactive⟩)

/-! ### The second application -/

/-- The rules an observation finds as it leaves them. -/
theorem ruleEntries_next (hkeys : (step.rules.map (·.key)).Nodup) :
    ruleEntries (stepMonitorLevel previous step).next step
      = (ruleEntries previous step).map fun entry =>
          { entry with
            before := entry.step.afterOpen
            step := ⟨entry.step.afterOpen, entry.step.afterOpen, none, none⟩ } := by
  have hhas : HasKeys (step.rules.map (·.key)) step := List.Perm.refl _
  rw [ruleEntries_eq, ruleEntries_eq, List.map_map]
  refine List.map_congr_left fun observation hmem => ?_
  have hentry : (⟨observation, ruleOf previous observation.key,
      stepRule (ruleOf previous observation.key) observation step.date step.eligible⟩ : RuleEntry D)
        ∈ ruleEntries previous step := List.mem_map.mpr ⟨observation, hmem, rfl⟩
  have hfound := ruleOf_stepMonitorLevel hhas hkeys hentry
  have hstands := stepRule_afterOpen (ruleOf previous observation.key) observation step.date
    step.eligible
  simp only [Function.comp_apply, RuleEntry.mk.injEq, true_and]
  rw [hfound]
  exact ⟨rfl, hstands⟩

theorem sameLifecycle_self (level : MonitorLevelLifecycle D) :
    sameLifecycle level level = true := by
  unfold sameLifecycle
  rw [same_eq]
  simp only [decide_true, Bool.true_and, List.all_eq_true]
  intro key hkey
  obtain ⟨rule, hget⟩ := OrderedMap.mem_keys_iff.mp hkey
  rw [hget]
  simp

/-- A step that every rule stands through is silent, when the level agrees with its rules. -/
structure IsSilent (level : MonitorLevelLifecycle D) (result : MonitorLevelStepResult D) : Prop where
  transitions : result.transitions = []
  closed : result.closed = none
  opened : result.opened = false
  state : result.next.state = level.state
  since : result.next.since = level.since

theorem StandsThrough.isSilent (h : StandsThrough (ruleEntries previous step))
    (hlevel : ∀ state, levelOf ((ruleEntries previous step).map RuleEntry.before) = some state →
      previous.state = state) : IsSilent previous (stepMonitorLevel previous step) := by
  have htransitions : levelTransitions step.date previous.state
      (levelAfterClose previous.state (ruleEntries previous step))
      (FactorSage.levelAfterOpen (levelAfterClose previous.state (ruleEntries previous step))
        (ruleEntries previous step))
      (FactorSage.closingReason previous.state (ruleEntries previous step))
      (openingEntry (FactorSage.levelAfterOpen (levelAfterClose previous.state
        (ruleEntries previous step)) (ruleEntries previous step)) (ruleEntries previous step))
        = [] := by
    rw [h.levelAfterOpen hlevel, h.closingReason]
    unfold levelTransitions
    simp
  constructor
  · exact htransitions
  · change (if _ then (FactorSage.closingReason _ _).map Prod.snd else none) = none
    rw [h.closingReason, Option.map_none, ite_self]
  · change decide (_ ∧ _) = false
    rw [h.levelAfterOpen hlevel]
    simp
  · change (if List.isEmpty (levelTransitions _ _ _ _ (FactorSage.closingReason _ _) _) then _
      else _) = _
    rw [htransitions]
    rfl
  · change (if List.isEmpty (levelTransitions _ _ _ _ (FactorSage.closingReason _ _) _) then _
      else _) = _
    rw [htransitions]
    rfl

/-- A step through which every rule stands leaves a level that agrees with them as it is. -/
theorem stepMonitorLevel_of_standsThrough (h : StandsThrough (ruleEntries previous step))
    (hlevel : ∀ state, levelOf ((ruleEntries previous step).map RuleEntry.before) = some state →
      previous.state = state)
    (hrules : .ofList ((ruleEntries previous step).map fun entry =>
      (entry.observation.key, entry.before)) = previous.rules) :
    stepMonitorLevel previous step = ⟨previous, [], none, false, false⟩ := by
  have hstored : ((ruleEntries previous step).map fun entry =>
      (entry.observation.key, entry.step.afterOpen))
        = (ruleEntries previous step).map fun entry => (entry.observation.key, entry.before) :=
    List.map_congr_left fun entry hmem => by rw [h entry hmem]
  have hsilent := h.isSilent hlevel
  have hnext : (stepMonitorLevel previous step).next = previous := by
    change (⟨(stepMonitorLevel previous step).next.state, (stepMonitorLevel previous step).next.since,
      .ofList ((ruleEntries previous step).map _)⟩ : MonitorLevelLifecycle D) = previous
    rw [hsilent.state, hsilent.since, hstored, hrules]
  have hchanged : (stepMonitorLevel previous step).changed = false := by
    change (!sameLifecycle previous (stepMonitorLevel previous step).next) = false
    rw [hnext, sameLifecycle_self]
    rfl
  calc stepMonitorLevel previous step
      = ⟨(stepMonitorLevel previous step).next, (stepMonitorLevel previous step).transitions,
          (stepMonitorLevel previous step).closed, (stepMonitorLevel previous step).opened,
          (stepMonitorLevel previous step).changed⟩ := rfl
    _ = ⟨previous, [], none, false, false⟩ := by
      rw [hnext, hsilent.closed, hsilent.opened, hchanged, hsilent.transitions]

/-- **The second application of an observation**: the level stands where the first one left it. -/
theorem LevelNamesActive.stepMonitorLevel_next (h : LevelNamesActive previous)
    (hkeys : (step.rules.map (·.key)).Nodup) :
    stepMonitorLevel (stepMonitorLevel previous step).next step
      = ⟨(stepMonitorLevel previous step).next, [], none, false, false⟩ := by
  have hentries := @ruleEntries_next _ _ previous _ hkeys
  apply stepMonitorLevel_of_standsThrough
  · intro entry hmem
    rw [hentries] at hmem
    obtain ⟨first, -, rfl⟩ := List.mem_map.mp hmem
    rfl
  · intro state hlevel
    rw [hentries, List.map_map] at hlevel
    exact h.next_state hlevel
  · rw [hentries, List.map_map]
    rfl

end Level

/-! ### Every lifecycle the Monitor holds -/

section Held

variable [LinearOrder D]

/-- The lifecycles the Monitor can hold: the one a level starts from, what a step or a
reconstruction makes of one, and what is read back of a stored one. -/
inductive MonitorLevelLifecycle.Held : MonitorLevelLifecycle D → Prop
  | initial : Held initialMonitorLevelLifecycle
  /-- Persisted before rule-local state existed. -/
  | legacy (state : MonitorLifecycleState) (since : Option D) : Held ⟨state, since, .empty⟩
  | stepped {level : MonitorLevelLifecycle D} (h : Held level) (step : MonitorLevelStep D) :
      Held (stepMonitorLevel level step).next
  | settled {level : MonitorLevelLifecycle D} (h : Held level) (anchor : D) :
      Held (settleMonitorLevelLifecycle level anchor)
  /-- A reconstructed "resolved" is stored as nothing being current. -/
  | shelved {since : Option D} {rules : OrderedMap String (MonitorRuleLifecycle D)}
      (h : Held ⟨.resolved, since, rules⟩) : Held ⟨.inactive, since, rules⟩
  /-- Read back with any of its rule states missing. -/
  | readBack {level : MonitorLevelLifecycle D} (h : Held level)
      (rules : OrderedMap String (MonitorRuleLifecycle D))
      (hsubset : ∀ key rule, rules.get? key = some rule → level.rules.get? key = some rule) :
      Held ⟨level.state, level.since, rules⟩

/-- Settling makes no rule active. -/
theorem state_of_settleRule_active {anchor : D} {rule : MonitorRuleLifecycle D}
    (h : (settleRule anchor rule).state = .active) : rule.state = .active := by
  unfold settleRule at h
  split at h
  · cases h
  · exact h

theorem MonitorLevelLifecycle.Held.levelNamesActive {level : MonitorLevelLifecycle D}
    (h : level.Held) : LevelNamesActive level := by
  induction h with
  | initial => intro key rule hget; cases hget
  | legacy => intro key rule hget; cases hget
  | stepped h step ih => exact ih.next
  | settled h anchor ih =>
    intro key rule hget hactive
    rw [rules_settle, OrderedMap.get?_mapValues] at hget
    obtain ⟨stored, hstored, rfl⟩ := Option.map_eq_some_iff.mp hget
    have hlevel := ih key stored hstored (state_of_settleRule_active hactive)
    unfold settleMonitorLevelLifecycle
    rw [hlevel]
    rfl
  | shelved h ih =>
    intro key rule hget hactive
    cases ih key rule hget hactive
  | readBack h rules hsubset ih =>
    intro key rule hget hactive
    exact ih key rule (hsubset key rule hget) hactive

/-- **Re-applying an observation is a no-op**, whatever the level held and whatever was observed. -/
theorem reapplication_changes_nothing {level : MonitorLevelLifecycle D} (hheld : level.Held)
    {step : MonitorLevelStep D} (hkeys : (step.rules.map (·.key)).Nodup) :
    let again := stepMonitorLevel (stepMonitorLevel level step).next step
    again.changed = false ∧ again.transitions = [] ∧ again.opened = false
      ∧ again.closed = none := by
  rw [hheld.levelNamesActive.stepMonitorLevel_next hkeys]
  exact ⟨rfl, rfl, rfl, rfl⟩

end Held

/-- A level stored active without its rules, superseded by the next session's crossing. -/
theorem reapplication_changes_nothing_sample :
    let step : MonitorLevelStep :=
      ⟨.ofYmd 2026 10 6, true, [⟨"a", none, none, some .true⟩, ⟨"b", none, some .false, none⟩]⟩
    let level : MonitorLevelLifecycle := ⟨.active, some (.ofYmd 2026 10 5), .empty⟩
    let again := stepMonitorLevel (stepMonitorLevel level step).next step
    again.changed = false ∧ again.transitions = [] ∧ again.opened = false
      ∧ again.closed = none := by
  intro step level
  have hheld : level.Held := .legacy .active (some (LocalDate.ofYmd 2026 10 5))
  have hkeys : (step.rules.map (·.key)).Nodup := by decide
  exact reapplication_changes_nothing hheld hkeys

end FactorSage
