import FactorSage.Library.TransitionLog
import FactorSage.Monitor.Lifecycle

/-!
# State, history and occurrences agree

Whatever a level observes, its durable state, its recorded transitions and its occurrences say the
same thing.

* `IsRuleStep` — what one observation can do to one rule.
* `IsLevelMove` — what it can do to the level, given that the level is the OR of its rules.
* `Coherent` — that it is, and `KeepsRules.next` that every step keeps it so, over a record that
  holds each rule of the step as the step left it.
* `KeepsRules.runAgrees` — every step of every run agrees with its history, and over the run
  openings and closings alternate.
-/

namespace FactorSage

open TransitionLog

variable {D R : Type}

/-! ### One rule -/

/-- What one observation can do to one rule. -/
structure IsRuleStep (before : MonitorRuleLifecycle D) (observation : MonitorRuleObservation)
    (step : RuleStep D) : Prop where
  keeps : step.closeReason = none → step.afterClose = before
  closes : step.closeReason.isSome → endedStateOf before.state = some step.afterClose.state
  idles : step.openReason = none → step.afterOpen = step.afterClose
  opens : step.openReason.isSome → step.afterClose.state ≠ .active
    ∧ (step.afterOpen.state = .active
      ∨ step.afterOpen.state = .pendingTrigger ∧ step.afterClose.state ≠ .pendingTrigger)
  /-- Only a trigger-only event ends and begins again on one observation. -/
  refires : step.closeReason.isSome → step.openReason.isSome → before.state = .active
    ∧ step.afterOpen.state = .active ∧ observation.conditions = none
    ∧ observation.trigger = some .true

section Rule

variable [LinearOrder D] {rule current : MonitorRuleLifecycle D}
  {observation : MonitorRuleObservation} {date : D} {eligible : Bool}
  {reason : MonitorTransitionReason}

/-- What ends was current, and only a trigger-only event can end on a date that admits entries. -/
theorem closePhase_spec {state : MonitorLifecycleState}
    (h : closePhase rule observation date eligible = some (state, reason)) :
    endedStateOf rule.state = some state
      ∧ (eligible = false ∨ observation.conditions = some .false
        ∨ observation.conditions = none ∧ rule.state = .active) := by
  unfold closePhase at h
  split at h
  · next hineligible =>
    simp only [Option.map_eq_some_iff, Prod.mk.injEq] at h
    obtain ⟨ended, hended, rfl, -⟩ := h
    exact ⟨hended, .inl (by simpa using hineligible)⟩
  · split at h
    · next conditions hconditions =>
      split at h
      · next hfalse =>
        simp only [Option.map_eq_some_iff, Prod.mk.injEq] at h
        obtain ⟨ended, hended, rfl, -⟩ := h
        exact ⟨hended, .inr (.inl (by rw [hconditions, hfalse]))⟩
      · cases h
    · next hnone =>
      split at h
      · next hended =>
        have hactive : rule.state = .active := by
          simp only [Bool.and_eq_true, decide_eq_true_eq] at hended
          exact hended.1
        obtain ⟨rfl, -⟩ := Prod.mk.inj (Option.some.inj h)
        exact ⟨by rw [hactive]; rfl, .inr (.inr ⟨hnone, hactive⟩)⟩
      · cases h

/-- Nothing ends at rest. -/
theorem closePhase_of_atRest (h : rule.state.atRest = true) :
    closePhase rule observation date eligible = none := by
  have hended : endedStateOf rule.state = none := by
    cases hstate : rule.state with
    | inactive | resolved => rfl
    | active | pendingTrigger =>
      rw [hstate] at h
      cases h
  have hactive : rule.state ≠ .active := by
    rintro hstate
    rw [hstate] at h
    cases h
  unfold closePhase
  split
  · rw [hended, Option.map_none]
  · split
    · rw [hended, Option.map_none, ite_self]
    · simp [hactive]

/-- What an observation begins was not active, on a date that admits entries. -/
theorem openPhase_spec {opened : MonitorRuleLifecycle D}
    (h : openPhase current observation date eligible = some (opened, reason)) :
    eligible = true ∧ current.state ≠ .active ∧ opened.since = some date
      ∧ (opened.state = .active
        ∨ opened.state = .pendingTrigger ∧ current.state ≠ .pendingTrigger)
      ∧ (observation.conditions = none ∧ observation.trigger = some .true ∧ opened.state = .active
        ∨ observation.conditions = some .true) := by
  -- only a fresh trigger opens a rule without conditions
  unfold openPhase at h
  split at h
  · next hadmits =>
    simp only [Bool.and_eq_true, decide_eq_true_eq] at hadmits
    obtain ⟨heligible, hactive⟩ := hadmits
    refine ⟨heligible, hactive, ?_⟩
    simp only at h
    split at h
    · next hnone =>
      split at h
      · next hfresh =>
        simp only [Bool.and_eq_true, decide_eq_true_eq] at hfresh
        obtain ⟨rfl, -⟩ := Prod.mk.inj (Option.some.inj h)
        exact ⟨rfl, .inl rfl, .inl ⟨hnone, hfresh.1, rfl⟩⟩
      · cases h
    · next conditions hconditions =>
      split at h
      · cases h
      · next htrue =>
        have hmet : observation.conditions = some .true := by
          rw [hconditions, not_not.mp htrue]
        split at h
        · obtain ⟨rfl, -⟩ := Prod.mk.inj (Option.some.inj h)
          exact ⟨rfl, .inl rfl, .inr hmet⟩
        · split at h
          · obtain ⟨rfl, -⟩ := Prod.mk.inj (Option.some.inj h)
            exact ⟨rfl, .inl rfl, .inr hmet⟩
          · split at h
            · next hpending =>
              obtain ⟨rfl, -⟩ := Prod.mk.inj (Option.some.inj h)
              exact ⟨rfl, .inr ⟨rfl, hpending⟩, .inr hmet⟩
            · cases h
  · cases h

/-- **One rule's step**, whatever it observes. -/
theorem isRuleStep_stepRule (rule : MonitorRuleLifecycle D) (observation : MonitorRuleObservation)
    (date : D) (eligible : Bool) :
    IsRuleStep rule observation (stepRule rule observation date eligible) := by
  unfold stepRule
  split
  · -- a reading older than the rule's own state
    exact ⟨fun _ => rfl, nofun, fun _ => rfl, nofun, nofun⟩
  · cases hclose : closePhase rule observation date eligible with
    | none =>
      cases hopen : openPhase rule observation date eligible with
      | none =>
        simp only [Option.elim, Option.map_none, hopen]
        exact ⟨fun _ => rfl, nofun, fun _ => rfl, nofun, nofun⟩
      | some opened =>
        obtain ⟨-, hactive, -, hstate, -⟩ := openPhase_spec hopen
        simp only [Option.elim, Option.map_none, hopen, Option.map_some]
        exact ⟨fun _ => rfl, nofun, nofun, fun _ => ⟨hactive, hstate⟩, nofun⟩
    | some close =>
      obtain ⟨hended, hcause⟩ := closePhase_spec hclose
      cases hopen : openPhase { rule with state := close.1, since := some date } observation date
          eligible with
      | none =>
        simp only [Option.elim, Option.map_some, hopen, Option.map_none]
        exact ⟨nofun, fun _ => hended, fun _ => rfl, nofun, fun _ => nofun⟩
      | some opened =>
        obtain ⟨heligible, hactive, -, hstate, hmet⟩ := openPhase_spec hopen
        simp only [Option.elim, Option.map_some, hopen]
        refine ⟨nofun, fun _ => hended, nofun, fun _ => ⟨hactive, hstate⟩, fun _ _ => ?_⟩
        -- a refused date or a failed Condition begins nothing
        rcases hcause with hrefused | hfalse | ⟨hnone, hwas⟩
        · rw [heligible] at hrefused
          cases hrefused
        · rcases hmet with ⟨hno, -⟩ | htrue
          · rw [hfalse] at hno
            cases hno
          · rw [hfalse] at htrue
            cases htrue
        · rcases hmet with ⟨-, htrigger, hopened⟩ | htrue
          · exact ⟨hwas, hopened, hnone, htrigger⟩
          · rw [hnone] at htrue
            cases htrue

end Rule

/-- Nothing ends at rest, and what ends comes to rest. -/
theorem endedStateOf_eq_some {state ended : MonitorLifecycleState}
    (h : endedStateOf state = some ended) :
    state = .active ∧ ended = .resolved ∨ state = .pendingTrigger ∧ ended = .inactive := by
  cases state <;> cases h <;> simp

section Step

variable {before : MonitorRuleLifecycle D} {observation : MonitorRuleObservation}
  {step : RuleStep D}

/-- A rule still active or waiting after the close phase was so before it. -/
theorem IsRuleStep.afterClose_eq (h : IsRuleStep before observation step)
    (hcurrent : step.afterClose.state.atRest = false) : step.afterClose = before := by
  cases hreason : step.closeReason with
  | none => exact h.keeps hreason
  | some reason =>
    have hended := endedStateOf_eq_some (h.closes (by rw [hreason]; rfl))
    rcases hended with ⟨-, hstate⟩ | ⟨-, hstate⟩ <;> rw [hstate] at hcurrent <;> cases hcurrent

/-- A rule that the open phase changed is active or waiting. -/
theorem IsRuleStep.afterOpen_eq (h : IsRuleStep before observation step)
    (hrest : step.afterOpen.state.atRest = true) : step.afterOpen = step.afterClose := by
  cases hreason : step.openReason with
  | none => exact h.idles hreason
  | some reason =>
    obtain ⟨-, hstate | ⟨hstate, -⟩⟩ := h.opens (by rw [hreason]; rfl) <;>
      rw [hstate] at hrest <;> cases hrest

/-- An active rule stays active through the open phase. -/
theorem IsRuleStep.active_afterOpen (h : IsRuleStep before observation step)
    (hactive : step.afterClose.state = .active) : step.afterOpen.state = .active := by
  cases hreason : step.openReason with
  | none => rw [h.idles hreason, hactive]
  | some reason => exact absurd hactive (h.opens (by rw [hreason]; rfl)).1

end Step

/-! ### The OR of the rules -/

section LevelOf

variable {rules : List (MonitorRuleLifecycle D)}

theorem levelOf_eq_active_iff :
    levelOf rules = some .active ↔ ∃ rule ∈ rules, rule.state = .active := by
  unfold levelOf
  constructor
  · intro h
    split at h
    · next hany => simpa using hany
    · split at h
      · cases h
      · cases h
  · rintro ⟨rule, hmem, hactive⟩
    have hany : (rules.any fun rule => decide (rule.state = .active)) = true :=
      List.any_eq_true.mpr ⟨rule, hmem, by simpa using hactive⟩
    rw [if_pos hany]

theorem levelOf_eq_pending_iff :
    levelOf rules = some .pendingTrigger
      ↔ (∀ rule ∈ rules, rule.state ≠ .active) ∧ ∃ rule ∈ rules, rule.state = .pendingTrigger := by
  unfold levelOf
  constructor
  · intro h
    split at h
    · cases h
    · next hnone =>
      split at h
      · next hany =>
        refine ⟨fun rule hmem hactive => hnone ?_, by simpa using hany⟩
        exact List.any_eq_true.mpr ⟨rule, hmem, by simpa using hactive⟩
      · cases h
  · rintro ⟨hnone, rule, hmem, hpending⟩
    have hactive : ¬ (rules.any fun rule => decide (rule.state = .active)) = true := by
      rw [List.any_eq_true]
      rintro ⟨other, hother, hstate⟩
      exact hnone other hother (by simpa using hstate)
    have hany : (rules.any fun rule => decide (rule.state = .pendingTrigger)) = true :=
      List.any_eq_true.mpr ⟨rule, hmem, by simpa using hpending⟩
    rw [if_neg hactive, if_pos hany]

/-- The OR of some rules is the state of one of them. -/
theorem exists_of_levelOf_eq_some {state : MonitorLifecycleState}
    (h : levelOf rules = some state) : ∃ rule ∈ rules, rule.state = state := by
  cases state with
  | active => exact levelOf_eq_active_iff.mp h
  | pendingTrigger => exact (levelOf_eq_pending_iff.mp h).2
  | inactive | resolved =>
    unfold levelOf at h
    split at h
    · cases h
    · split at h <;> cases h

theorem levelOf_eq_none_iff : levelOf rules = none ↔ ∀ rule ∈ rules, rule.state.atRest = true := by
  unfold levelOf MonitorLifecycleState.atRest
  constructor
  · intro h rule hmem
    split at h
    · cases h
    · next hactive =>
      split at h
      · cases h
      · next hpending =>
        rw [List.any_eq_true] at hactive hpending
        simp only [Bool.and_eq_true, decide_eq_true_eq]
        exact ⟨fun hstate => hactive ⟨rule, hmem, by simpa using hstate⟩,
          fun hstate => hpending ⟨rule, hmem, by simpa using hstate⟩⟩
  · intro h
    have hnone : ∀ state : MonitorLifecycleState, state = .active ∨ state = .pendingTrigger →
        ¬ (rules.any fun rule => decide (rule.state = state)) = true := by
      intro state hstate hany
      obtain ⟨rule, hmem, hrule⟩ := List.any_eq_true.mp hany
      have hrest := h rule hmem
      rw [decide_eq_true_eq] at hrule
      rcases hstate with rfl | rfl <;> simp [hrule] at hrest
    rw [if_neg (hnone .active (.inl rfl)), if_neg (hnone .pendingTrigger (.inr rfl))]

/-- The OR is one of two states. -/
theorem levelOf_eq_some {state : MonitorLifecycleState} (h : levelOf rules = some state) :
    state = .active ∨ state = .pendingTrigger := by
  unfold levelOf at h
  split at h
  · exact .inl (Option.some.inj h).symm
  · split at h
    · exact .inr (Option.some.inj h).symm
    · cases h

/-- The order of the rules does not matter. -/
theorem levelOf_perm {others : List (MonitorRuleLifecycle D)} (h : rules.Perm others) :
    levelOf rules = levelOf others := by
  unfold levelOf
  rw [h.any_eq, h.any_eq]

end LevelOf

/-- What a level state says of its rules: one is active, one waits, or all are at rest. -/
def MonitorLifecycleState.current (state : MonitorLifecycleState) : Option MonitorLifecycleState :=
  if state.atRest then none else some state

/-! ### The level's two phases -/

/-- What one observation can do to a level that is the OR of its rules. -/
structure IsLevelMove (prior afterClose afterOpen : MonitorLifecycleState)
    (entries : List (RuleEntry D)) : Prop where
  /-- The level is the OR of its rules again. -/
  aggregates : levelOf (entries.map fun entry => entry.step.afterOpen) = afterOpen.current
  /-- What ended is explained by a rule that ended the same state. -/
  closes : afterClose ≠ prior → endedStateOf prior = some afterClose
    ∧ ∃ entry reason, closingEntry prior entries = some entry
      ∧ entry.step.closeReason = some reason
  /-- What began is explained by a rule. -/
  opens : afterOpen ≠ afterClose →
    ∃ entry reason, openingEntry afterOpen entries = some (entry, reason)
  continues : afterClose = .active → afterOpen = .active
  /-- An occurrence ends and begins again only when a trigger-only rule does. -/
  refires : prior = .active → afterClose = .resolved → afterOpen = .active → ∃ entry ∈ entries,
    entry.before.state = .active ∧ entry.step.closeReason.isSome
      ∧ entry.observation.conditions = none ∧ entry.observation.trigger = some .true

section Level

variable {prior : MonitorLifecycleState} {entries : List (RuleEntry D)}

theorem closingEntry_of_mem {entry : RuleEntry D} (hmem : entry ∈ entries)
    (hbefore : entry.before.state = prior) (hreason : entry.step.closeReason.isSome) :
    ∃ entry reason, closingEntry prior entries = some entry
      ∧ entry.step.closeReason = some reason := by
  have hfound : (closingEntry prior entries).isSome := by
    rw [closingEntry, List.find?_isSome]
    exact ⟨entry, hmem, by simp [hreason, hbefore]⟩
  obtain ⟨found, hfound⟩ := Option.isSome_iff_exists.mp hfound
  have hspec := List.find?_some hfound
  simp only [Bool.and_eq_true] at hspec
  obtain ⟨reason, hreason⟩ := Option.isSome_iff_exists.mp hspec.1
  exact ⟨found, reason, hfound, hreason⟩

theorem openingEntry_of_mem {state : MonitorLifecycleState} {entry : RuleEntry D}
    (hmem : entry ∈ entries) (hstate : entry.step.afterOpen.state = state)
    (hreason : entry.step.openReason.isSome ∨ state = .pendingTrigger) :
    ∃ entry reason, openingEntry state entries = some (entry, reason) := by
  unfold openingEntry
  split
  · next found hfound =>
    have hspec := List.find?_some hfound
    simp only [Bool.and_eq_true] at hspec
    obtain ⟨reason, hopen⟩ := Option.isSome_iff_exists.mp hspec.1
    exact ⟨found, reason, by rw [hopen]; rfl⟩
  · next hnone =>
    rcases hreason with hreason | rfl
    · have hno := List.find?_eq_none.mp hnone entry hmem
      simp [hreason, hstate] at hno
    · rw [if_pos rfl]
      have hfound : (entries.find? fun entry =>
          decide (entry.step.afterOpen.state = .pendingTrigger)).isSome := by
        rw [List.find?_isSome]
        exact ⟨entry, hmem, by simpa using hstate⟩
      obtain ⟨found, hfound⟩ := Option.isSome_iff_exists.mp hfound
      exact ⟨found, .setupStarted, by rw [hfound]; rfl⟩

/-- A rule that became active or waiting explains it, unless it already was. -/
theorem openReason_of_ne {before : MonitorRuleLifecycle D} {observation : MonitorRuleObservation}
    {step : RuleStep D} (h : IsRuleStep before observation step)
    (hne : step.afterOpen.state ≠ step.afterClose.state) : step.openReason.isSome := by
  cases hreason : step.openReason with
  | none => exact absurd (congrArg MonitorRuleLifecycle.state (h.idles hreason)) hne
  | some reason => rfl

theorem closeReason_of_ne {before : MonitorRuleLifecycle D} {observation : MonitorRuleObservation}
    {step : RuleStep D} (h : IsRuleStep before observation step)
    (hne : step.afterClose.state ≠ before.state) : step.closeReason.isSome := by
  cases hreason : step.closeReason with
  | none => exact absurd (congrArg MonitorRuleLifecycle.state (h.keeps hreason)) hne
  | some reason => rfl

/-- The close phase of a level, and the OR of its rules it is decided from. -/
inductive ClosePhase (prior : MonitorLifecycleState) (entries : List (RuleEntry D))
    (closed opened : Option MonitorLifecycleState) : MonitorLifecycleState → Prop
  /-- A rule still holds what the level was, or another took it over. -/
  | stays (hactive : prior = .active → closed = some .active ∨ opened = some .active)
      (hpending : prior = .pendingTrigger → closed ≠ none) :
      ClosePhase prior entries closed opened prior
  /-- No rule holds it, and none took it over. -/
  | ends (state : MonitorLifecycleState) (hended : endedStateOf prior = some state)
      (hactive : prior = .active → closed ≠ some .active)
      (hpending : prior = .pendingTrigger → closed = none)
      (htakeover : prior = .active → opened = some .active → ∀ entry ∈ entries,
        entry.step.openReason.isSome → entry.step.closeReason = none →
          entry.step.afterOpen.state ≠ .active) : ClosePhase prior entries closed opened state

theorem levelAfterClose_active (entries : List (RuleEntry D)) :
    levelAfterClose .active entries
      = if levelOf (entries.map fun entry => entry.step.afterClose) = some .active
          ∨ levelOf (entries.map fun entry => entry.step.afterOpen) = some .active
            ∧ takesOver entries = true then .active else .resolved := by
  unfold levelAfterClose
  generalize levelOf (entries.map fun entry => entry.step.afterClose) = closed
  generalize levelOf (entries.map fun entry => entry.step.afterOpen) = opened
  generalize takesOver entries = takes
  by_cases hclosed : closed = some .active
  · simp [hclosed]
  · by_cases hopened : opened = some .active
    · cases takes <;> simp [hclosed, hopened]
    · have hstate : opened.getD .resolved ≠ .active := by
        intro heq
        cases opened with
        | none => cases heq
        | some state => exact hopened (congrArg some heq)
      simp [hclosed, hopened, hstate]

theorem closePhase_levelAfterClose (prior : MonitorLifecycleState) (entries : List (RuleEntry D)) :
    ClosePhase prior entries (levelOf (entries.map fun entry => entry.step.afterClose))
      (levelOf (entries.map fun entry => entry.step.afterOpen))
      (levelAfterClose prior entries) := by
  cases prior with
  | inactive => exact .stays nofun nofun
  | resolved => exact .stays nofun nofun
  | pendingTrigger =>
    change ClosePhase _ _ _ _
      (if (levelOf (entries.map fun entry => entry.step.afterClose)).isNone then _ else _)
    split
    · next hnone => exact .ends _ rfl nofun (fun _ => Option.isNone_iff_eq_none.mp hnone) nofun
    · next hsome => exact .stays nofun fun _ hnone => hsome (by rw [hnone]; rfl)
  | active =>
    rw [levelAfterClose_active]
    split
    · next hheld => exact .stays (fun _ => hheld.imp id And.left) nofun
    · next hno =>
      obtain ⟨hclosed, htaken⟩ := not_or.mp hno
      refine .ends _ rfl (fun _ => hclosed) nofun
        fun _ hopened entry hmem hreason hnone hstate => ?_
      refine htaken ⟨hopened, List.any_eq_true.mpr ⟨entry, hmem, ?_⟩⟩
      simp [hreason, hnone, hstate]

/-- The close phase leaves the level where it was, or at rest. -/
theorem eq_prior_of_levelAfterClose (h : (levelAfterClose prior entries).atRest = false) :
    levelAfterClose prior entries = prior := by
  have hphase := closePhase_levelAfterClose prior entries
  generalize levelAfterClose prior entries = afterClose at hphase h ⊢
  cases hphase with
  | stays => rfl
  | ends _ hended =>
    rcases endedStateOf_eq_some hended with ⟨-, rfl⟩ | ⟨-, rfl⟩ <;> cases h

variable (hsteps : ∀ entry ∈ entries, IsRuleStep entry.before entry.observation entry.step)
  (hcoherent : levelOf (entries.map RuleEntry.before) = prior.current)

include hsteps in
/-- A rule active after the close phase is active after both. -/
theorem levelOf_afterOpen_eq_active
    (h : levelOf (entries.map fun entry => entry.step.afterClose) = some .active) :
    levelOf (entries.map fun entry => entry.step.afterOpen) = some .active := by
  obtain ⟨rule, hrule, hactive⟩ := levelOf_eq_active_iff.mp h
  obtain ⟨entry, hmem, rfl⟩ := List.mem_map.mp hrule
  exact levelOf_eq_active_iff.mpr
    ⟨entry.step.afterOpen, List.mem_map_of_mem (f := fun entry => entry.step.afterOpen) hmem,
      (hsteps entry hmem).active_afterOpen hactive⟩

include hsteps in
/-- Nothing active or waiting after the close phase comes to rest in the open phase. -/
theorem levelOf_afterOpen_ne_none
    (h : levelOf (entries.map fun entry => entry.step.afterClose) ≠ none) :
    levelOf (entries.map fun entry => entry.step.afterOpen) ≠ none := by
  intro hnone
  refine h (levelOf_eq_none_iff.mpr fun rule hrule => ?_)
  obtain ⟨entry, hmem, rfl⟩ := List.mem_map.mp hrule
  have hrest := levelOf_eq_none_iff.mp hnone entry.step.afterOpen
    (List.mem_map_of_mem (f := fun entry => entry.step.afterOpen) hmem)
  rw [← (hsteps entry hmem).afterOpen_eq hrest]
  exact hrest

include hsteps hcoherent in
/-- A rule active after the close phase was active before: then so was the level. -/
theorem active_of_levelOf_afterClose
    (h : levelOf (entries.map fun entry => entry.step.afterClose) = some .active) :
    prior = .active := by
  obtain ⟨rule, hrule, hactive⟩ := levelOf_eq_active_iff.mp h
  obtain ⟨entry, hmem, rfl⟩ := List.mem_map.mp hrule
  have hbefore := (hsteps entry hmem).afterClose_eq (by rw [hactive]; rfl)
  have hlevel : levelOf (entries.map RuleEntry.before) = some .active :=
    levelOf_eq_active_iff.mpr ⟨entry.before, List.mem_map_of_mem hmem, by rw [← hbefore, hactive]⟩
  rw [hcoherent] at hlevel
  cases prior <;> first | rfl | cases hlevel

include hsteps hcoherent in
/-- **One observation of a level**: what moves is explained, and the level is the OR of its rules
again. -/
theorem isLevelMove : IsLevelMove prior (levelAfterClose prior entries)
    (levelAfterOpen (levelAfterClose prior entries) entries) entries := by
  have hphase := closePhase_levelAfterClose prior entries
  generalize levelAfterClose prior entries = afterClose at hphase ⊢
  have hactive := active_of_levelOf_afterClose hsteps hcoherent
  have hopens := levelOf_afterOpen_eq_active hsteps
  have hwaits := levelOf_afterOpen_ne_none hsteps
  constructor
  · -- the level is the OR of its rules again
    unfold levelAfterOpen
    cases hopened : levelOf (entries.map fun entry => entry.step.afterOpen) with
    | some state => rcases levelOf_eq_some hopened with rfl | rfl <;> rfl
    | none =>
      rw [hopened] at hphase hopens hwaits
      rw [Option.getD_none]
      cases hphase with
      | stays hheld hpending =>
        cases prior with
        | inactive | resolved => rfl
        | active =>
          rcases hheld rfl with hclosed | htaken
          · cases hopens hclosed
          · cases htaken
        | pendingTrigger => exact absurd rfl (hwaits (hpending rfl))
      | ends _ hended =>
        rcases endedStateOf_eq_some hended with ⟨-, rfl⟩ | ⟨-, rfl⟩ <;> rfl
  · -- what ended is explained by a rule that held the same state
    intro hne
    cases hphase with
    | stays => exact absurd rfl hne
    | ends _ hended hclosed hnone =>
      refine ⟨hended, ?_⟩
      have hcurrent : levelOf (entries.map RuleEntry.before) = some prior := by
        rcases endedStateOf_eq_some hended with ⟨rfl, -⟩ | ⟨rfl, -⟩ <;> exact hcoherent
      obtain ⟨rule, hrule, hstate⟩ := exists_of_levelOf_eq_some hcurrent
      obtain ⟨entry, hmem, rfl⟩ := List.mem_map.mp hrule
      refine closingEntry_of_mem hmem hstate (closeReason_of_ne (hsteps entry hmem) ?_)
      rw [hstate]
      intro heq
      rcases endedStateOf_eq_some hended with ⟨rfl, -⟩ | ⟨rfl, -⟩
      · exact hclosed rfl (levelOf_eq_active_iff.mpr ⟨entry.step.afterClose,
          List.mem_map_of_mem (f := fun entry => entry.step.afterClose) hmem, heq⟩)
      · have hrest := levelOf_eq_none_iff.mp (hnone rfl) entry.step.afterClose
          (List.mem_map_of_mem (f := fun entry => entry.step.afterClose) hmem)
        rw [heq] at hrest
        cases hrest
  · -- what began is explained by a rule that became it
    intro hne
    unfold levelAfterOpen at hne ⊢
    cases hopened : levelOf (entries.map fun entry => entry.step.afterOpen) with
    | none =>
      rw [hopened] at hne
      exact absurd rfl hne
    | some state =>
      rw [hopened, Option.getD_some] at hne
      rw [Option.getD_some]
      obtain ⟨rule, hrule, hstate⟩ := exists_of_levelOf_eq_some hopened
      obtain ⟨entry, hmem, rfl⟩ := List.mem_map.mp hrule
      refine openingEntry_of_mem hmem hstate ?_
      rcases levelOf_eq_some hopened with rfl | rfl
      · refine .inl (openReason_of_ne (hsteps entry hmem) fun heq => hne ?_)
        -- an active rule that did not open was active all along, and so was the level
        have hclosed : levelOf (entries.map fun entry => entry.step.afterClose) = some .active :=
          levelOf_eq_active_iff.mpr ⟨entry.step.afterClose,
            List.mem_map_of_mem (f := fun entry => entry.step.afterClose) hmem,
            heq.symm.trans hstate⟩
        cases hphase with
        | stays => exact (hactive hclosed).symm
        | ends _ _ hno => exact absurd hclosed (hno (hactive hclosed))
      · exact .inr rfl
  · -- an occurrence that did not end is still there
    intro hstays
    unfold levelAfterOpen
    cases hphase with
    | stays hheld =>
      subst hstays
      rcases hheld rfl with hclosed | htaken
      · rw [hopens hclosed]
        rfl
      · rw [htaken]
        rfl
    | ends _ hended =>
      rcases endedStateOf_eq_some hended with ⟨-, rfl⟩ | ⟨-, rfl⟩ <;> cases hstays
  · -- a rule that became active without ending itself would have taken the occurrence over
    intro hprior hresolved hreopened
    subst hprior hresolved
    unfold levelAfterOpen at hreopened
    have hopened : levelOf (entries.map fun entry => entry.step.afterOpen) = some .active := by
      cases hlevel : levelOf (entries.map fun entry => entry.step.afterOpen) with
      | none =>
        rw [hlevel] at hreopened
        cases hreopened
      | some state =>
        rw [hlevel, Option.getD_some] at hreopened
        rw [hreopened]
    cases hphase with
    | ends _ _ hclosed _ htakeover =>
      obtain ⟨rule, hrule, hstate⟩ := levelOf_eq_active_iff.mp hopened
      obtain ⟨entry, hmem, rfl⟩ := List.mem_map.mp hrule
      have hopenReason : entry.step.openReason.isSome := by
        refine openReason_of_ne (hsteps entry hmem) fun heq => hclosed rfl ?_
        exact levelOf_eq_active_iff.mpr ⟨entry.step.afterClose,
          List.mem_map_of_mem (f := fun entry => entry.step.afterClose) hmem,
          heq.symm.trans hstate⟩
      cases hcloseReason : entry.step.closeReason with
      | none => exact absurd hstate (htakeover rfl hopened entry hmem hopenReason hcloseReason)
      | some reason =>
        have hsome : entry.step.closeReason.isSome := by
          rw [hcloseReason]
          rfl
        obtain ⟨hwas, -, hnone, htrigger⟩ := (hsteps entry hmem).refires hsome hopenReason
        exact ⟨entry, hmem, hwas, hsome, hnone, htrigger⟩

end Level

/-! ### What is recorded -/

/-- The transitions of a move. -/
inductive RecordsMove (date : D) (prior afterClose afterOpen : MonitorLifecycleState) :
    List (MonitorLifecycleTransition D) → Prop
  | unchanged (hclose : afterClose = prior) (hopen : afterOpen = prior) :
      RecordsMove date prior afterClose afterOpen []
  /-- One pending rule broke and another started: the level waits as before. -/
  | swapped (hprior : prior = .pendingTrigger) (hclose : afterClose = .inactive)
      (hopen : afterOpen = .pendingTrigger) : RecordsMove date prior afterClose afterOpen []
  | ended (reason : MonitorTransitionReason) (exitRuleId : Option String)
      (hclose : endedStateOf prior = some afterClose) (hopen : afterOpen = afterClose) :
      RecordsMove date prior afterClose afterOpen [⟨prior, afterClose, reason, exitRuleId, date⟩]
  | began (reason : MonitorTransitionReason) (exitRuleId : Option String)
      (hclose : afterClose = prior) (hopen : afterOpen ≠ prior) :
      RecordsMove date prior afterClose afterOpen [⟨prior, afterOpen, reason, exitRuleId, date⟩]
  | endedAndBegan (closeReason openReason : MonitorTransitionReason)
      (closeRuleId openRuleId : Option String) (hclose : endedStateOf prior = some afterClose)
      (hopen : afterOpen ≠ afterClose)
      (hswap : prior = .pendingTrigger → afterOpen ≠ .pendingTrigger) :
      RecordsMove date prior afterClose afterOpen
        [⟨prior, afterClose, closeReason, closeRuleId, date⟩,
          ⟨afterClose, afterOpen, openReason, openRuleId, date⟩]

/-- The entry and reason `stepMonitorLevel` closes a level with. -/
def closingReason (prior : MonitorLifecycleState) (entries : List (RuleEntry D)) :
    Option (RuleEntry D × MonitorTransitionReason) :=
  (closingEntry prior entries).bind fun entry =>
    entry.step.closeReason.map fun reason => (entry, reason)

/-- Nothing that moved goes unrecorded. -/
theorem IsLevelMove.recordsMove {prior afterClose afterOpen : MonitorLifecycleState}
    {entries : List (RuleEntry D)} (h : IsLevelMove prior afterClose afterOpen entries)
    (date : D) :
    RecordsMove date prior afterClose afterOpen
      (levelTransitions date prior afterClose afterOpen (closingReason prior entries)
        (openingEntry afterOpen entries)) := by
  unfold levelTransitions
  split
  · next hswap => exact .swapped hswap.1 hswap.2.1 hswap.2.2
  · next hnotSwap =>
    by_cases hclose : afterClose = prior
    · by_cases hopen : afterOpen = afterClose
      · simp only [hclose, hopen, ne_eq, not_true_eq_false, if_false, List.append_nil]
        exact .unchanged rfl rfl
      · obtain ⟨entry, reason, hopening⟩ := h.opens hopen
        subst hclose
        rw [if_neg (not_not.mpr rfl), if_pos hopen, hopening]
        exact .began reason _ rfl hopen
    · obtain ⟨hended, entry, reason, hclosing, hreason⟩ := h.closes hclose
      have hclosingReason : closingReason prior entries = some (entry, reason) := by
        rw [closingReason, hclosing, Option.bind_some, hreason]
        rfl
      rw [if_pos hclose, hclosingReason]
      by_cases hopen : afterOpen = afterClose
      · subst hopen
        rw [if_neg (not_not.mpr rfl), List.append_nil]
        exact .ended reason _ hended rfl
      · obtain ⟨other, openReason, hopening⟩ := h.opens hopen
        rw [if_pos hopen, hopening]
        refine .endedAndBegan reason openReason _ _ hended hopen fun hprior hpending => ?_
        subst hprior hpending
        obtain rfl := Option.some.inj hended
        exact hnotSwap ⟨rfl, rfl, rfl⟩

/-- The occurrences of one observation: the one it ends, then the one it begins. -/
def occurrenceEvents (result : MonitorLevelStepResult D R) : List OccurrenceEvent :=
  (if result.closed.isSome then [.closed] else []) ++ if result.opened then [.opened] else []

/-- The level observed a trigger-only event that ended and began again on one observation. -/
def RefiresOccurrence [RuleRecord D R] (previous : MonitorLevelLifecycle D R)
    (step : MonitorLevelStep D) : Prop :=
  previous.state = .active ∧ ∃ observation ∈ step.rules,
    (ruleOf previous observation.key).state = .active ∧ observation.conditions = none
      ∧ observation.trigger = some .true

/-- One observation of a level, as its state, its history and its occurrences record it. -/
structure IsRecordedStep [RuleRecord D R] (previous : MonitorLevelLifecycle D R)
    (step : MonitorLevelStep D) (result : MonitorLevelStepResult D R) : Prop where
  /-- The transitions lead from the previous state to the next. -/
  linked : Linked MonitorLifecycleTransition.fromState MonitorLifecycleTransition.toState
    previous.state result.transitions result.next.state
  /-- A level that is where it was recorded nothing, unless an event ended and began again. -/
  silent : result.next.state = previous.state →
    result.transitions = [] ∨ RefiresOccurrence previous step
  active : result.next.state = .active ↔ .active ∈ RuleRecord.states D result.next.rules
  pending : result.next.state = .pendingTrigger
    ↔ .active ∉ RuleRecord.states D result.next.rules
      ∧ .pendingTrigger ∈ RuleRecord.states D result.next.rules
  closed : result.closed.isSome
    ↔ (result.transitions.filter (·.fromState = .active)).length = 1
  opened : result.opened = true
    ↔ (result.transitions.filter (·.toState = .active)).length = 1

/-- The three records of one move. -/
theorem RecordsMove.agrees {date : D} {prior afterClose afterOpen : MonitorLifecycleState}
    {transitions : List (MonitorLifecycleTransition D)}
    (h : RecordsMove date prior afterClose afterOpen transitions)
    (hcontinues : afterClose = .active → afterOpen = .active) :
    Linked MonitorLifecycleTransition.fromState MonitorLifecycleTransition.toState prior
        transitions afterOpen
      ∧ (if transitions.isEmpty then prior else afterOpen) = afterOpen
      ∧ ((prior = .active ∧ afterClose = .resolved)
        ↔ (transitions.filter (·.fromState = .active)).length = 1)
      ∧ ((afterOpen = .active ∧ afterClose ≠ .active)
        ↔ (transitions.filter (·.toState = .active)).length = 1) := by
  cases h with
  | unchanged hclose hopen =>
    subst hclose hopen
    refine ⟨rfl, rfl, ?_, ?_⟩ <;> simp
    rintro rfl
    decide
  | swapped hprior hclose hopen =>
    subst hprior hclose hopen
    simp
  | ended reason exitRuleId hclose hopen =>
    subst hopen
    rcases endedStateOf_eq_some hclose with ⟨rfl, rfl⟩ | ⟨rfl, rfl⟩ <;> simp
  | began reason exitRuleId hclose hopen =>
    subst hclose
    refine ⟨⟨rfl, Ne.symm hopen, rfl⟩, rfl, ?_, ?_⟩
    · cases afterClose <;> simp
      exact absurd (hcontinues rfl) hopen
    · cases afterOpen <;> simp
      exact Ne.symm hopen
  | endedAndBegan closeReason openReason closeRuleId openRuleId hclose hopen _ =>
    rcases endedStateOf_eq_some hclose with ⟨rfl, rfl⟩ | ⟨rfl, rfl⟩ <;>
      cases afterOpen <;> simp at hopen ⊢

/-! ### Every step -/

/-- A step observes exactly these rules, each once. -/
def HasKeys (keys : List String) (step : MonitorLevelStep D) : Prop :=
  (step.rules.map (·.key)).Perm keys

/-- The level is the OR of its rules. -/
def Coherent [RuleRecord D R] (keys : List String) (level : MonitorLevelLifecycle D R) : Prop :=
  levelOf (keys.map (ruleOf level)) = level.state.current

theorem coherent_initial (keys : List String) :
    Coherent keys (initialMonitorLevelLifecycle : MonitorLevelLifecycle D) := by
  refine levelOf_eq_none_iff.mpr fun rule hrule => ?_
  obtain ⟨key, -, rfl⟩ := List.mem_map.mp hrule
  rfl

/-- A record whose entries are one for each rule a step names: the rule it holds, stepped. -/
class LawfulRuleRecord (D R : Type) [LinearOrder D] [RuleRecord D R] : Prop where
  map_ruleEntries : ∀ (previous : MonitorLevelLifecycle D R) (step : MonitorLevelStep D),
    (ruleEntries previous step).map (fun entry => (entry.observation, entry.before))
      = step.rules.map fun observation => (observation, ruleOf previous observation.key)
  isRuleStep : ∀ (previous : MonitorLevelLifecycle D R) (step : MonitorLevelStep D),
    ∀ entry ∈ ruleEntries previous step, IsRuleStep entry.before entry.observation entry.step

/-- A record that holds the rules of some keys as each observation leaves them. -/
structure KeepsRules (D R : Type) [LinearOrder D] [RuleRecord D R] (keys : List String) : Prop where
  initial : Coherent keys (initialMonitorLevelLifecycle : MonitorLevelLifecycle D R)
  holds : ∀ (previous : MonitorLevelLifecycle D R) (step : MonitorLevelStep D), HasKeys keys step →
    ((ruleEntries previous step).map fun entry => entry.step.afterOpen).Perm
      (keys.map (ruleOf (stepMonitorLevel previous step).next))
  states : ∀ (previous : MonitorLevelLifecycle D R) (step : MonitorLevelStep D), HasKeys keys step →
    ∀ state : MonitorLifecycleState, state.atRest = false →
      (state ∈ RuleRecord.states D (stepMonitorLevel previous step).next.rules
        ↔ ∃ rule ∈ (ruleEntries previous step).map fun entry => entry.step.afterOpen,
          rule.state = state)

section Keys

variable [LinearOrder D] {keys : List String} {step : MonitorLevelStep D}

section Map

variable {previous : MonitorLevelLifecycle D}

instance : LawfulRuleRecord D (RuleMap D) where
  map_ruleEntries previous step := by
    change (RuleMap.ruleEntries previous step).map _ = _
    rw [RuleMap.ruleEntries, List.map_map]
    rfl
  isRuleStep previous step entry h := by
    obtain ⟨observation, -, rfl⟩ := List.mem_map.mp h
    exact isRuleStep_stepRule _ _ _ _

end Map

section Entries

variable [RuleRecord D R] [LawfulRuleRecord D R] {previous : MonitorLevelLifecycle D R}

theorem isRuleStep_of_mem {entry : RuleEntry D} (h : entry ∈ ruleEntries previous step) :
    IsRuleStep entry.before entry.observation entry.step :=
  LawfulRuleRecord.isRuleStep previous step entry h

theorem map_before_ruleEntries (previous : MonitorLevelLifecycle D R) (step : MonitorLevelStep D) :
    (ruleEntries previous step).map RuleEntry.before
      = (step.rules.map (·.key)).map (ruleOf previous) := by
  have h := congrArg (List.map Prod.snd) (LawfulRuleRecord.map_ruleEntries previous step)
  rw [List.map_map, List.map_map] at h
  rw [List.map_map]
  exact h

theorem map_observation_ruleEntries (previous : MonitorLevelLifecycle D R)
    (step : MonitorLevelStep D) :
    (ruleEntries previous step).map RuleEntry.observation = step.rules := by
  have h := congrArg (List.map Prod.fst) (LawfulRuleRecord.map_ruleEntries previous step)
  rw [List.map_map, List.map_map] at h
  exact h.trans (List.map_id _)

theorem map_key_ruleEntries (previous : MonitorLevelLifecycle D R) (step : MonitorLevelStep D) :
    (ruleEntries previous step).map (fun entry => entry.observation.key)
      = step.rules.map (·.key) := by
  rw [← map_observation_ruleEntries previous step, List.map_map]
  rfl

/-- An entry is of an observation of the step, and found the rule of its key. -/
theorem mem_of_mem_ruleEntries {entry : RuleEntry D} (h : entry ∈ ruleEntries previous step) :
    entry.observation ∈ step.rules ∧ entry.before = ruleOf previous entry.observation.key := by
  have hmem := List.mem_map_of_mem (f := fun entry : RuleEntry D =>
    (entry.observation, entry.before)) h
  rw [LawfulRuleRecord.map_ruleEntries] at hmem
  obtain ⟨observation, hobservation, heq⟩ := List.mem_map.mp hmem
  obtain ⟨rfl, hbefore⟩ := Prod.mk.inj heq
  exact ⟨hobservation, hbefore.symm⟩

end Entries

section Map

variable {previous : MonitorLevelLifecycle D}

/-- The rules a step stores are the ones it leaves, in order. -/
theorem entries_rules_stepMonitorLevel (hstep : HasKeys keys step) (hkeys : keys.Nodup) :
    (stepMonitorLevel previous step).next.rules.entries
      = (ruleEntries previous step).map fun entry =>
          (entry.observation.key, entry.step.afterOpen) := by
  refine OrderedMap.entries_ofList ?_
  rw [List.map_map]
  change ((ruleEntries previous step).map fun entry => entry.observation.key).Nodup
  rw [map_key_ruleEntries]
  exact hstep.nodup_iff.mpr hkeys

theorem values_rules_stepMonitorLevel (hstep : HasKeys keys step) (hkeys : keys.Nodup) :
    (stepMonitorLevel previous step).next.rules.values
      = (ruleEntries previous step).map fun entry => entry.step.afterOpen := by
  rw [OrderedMap.values, entries_rules_stepMonitorLevel hstep hkeys, List.map_map]
  rfl

/-- After a step every rule is stored under its key. -/
theorem ruleOf_stepMonitorLevel (hstep : HasKeys keys step) (hkeys : keys.Nodup)
    {entry : RuleEntry D} (h : entry ∈ ruleEntries previous step) :
    ruleOf (stepMonitorLevel previous step).next entry.observation.key = entry.step.afterOpen := by
  have hget : (stepMonitorLevel previous step).next.rules.get? entry.observation.key
      = some entry.step.afterOpen := by
    rw [← OrderedMap.mem_entries_iff, entries_rules_stepMonitorLevel hstep hkeys]
    exact List.mem_map_of_mem (f := fun entry : RuleEntry D =>
      (entry.observation.key, entry.step.afterOpen)) h
  change (OrderedMap.get? _ _).getD _ = _
  rw [hget]
  rfl

/-- What a level holds for a rule after a step is what the step made of it. -/
theorem exists_entry_of_get?_next {key : String} {rule : MonitorRuleLifecycle D}
    (h : (stepMonitorLevel previous step).next.rules.get? key = some rule) :
    ∃ entry ∈ ruleEntries previous step, entry.step.afterOpen = rule := by
  have hmem := OrderedMap.mem_of_get?_ofList h
  obtain ⟨entry, hentry, heq⟩ := List.mem_map.mp hmem
  exact ⟨entry, hentry, (Prod.mk.inj heq).2⟩

/-- A map keeps the rules of keys that are each its own. -/
theorem keepsRules_ruleMap (hkeys : keys.Nodup) : KeepsRules D (RuleMap D) keys where
  initial := coherent_initial keys
  holds previous step hstep := by
    have hmap : (ruleEntries previous step).map (fun entry => entry.step.afterOpen)
        = (step.rules.map (·.key)).map (ruleOf (stepMonitorLevel previous step).next) := by
      rw [← map_key_ruleEntries previous step, List.map_map]
      exact List.map_congr_left fun entry hmem =>
        (ruleOf_stepMonitorLevel hstep hkeys hmem).symm
    rw [hmap]
    exact hstep.map _
  states previous step hstep state _ := by
    change state ∈ (OrderedMap.values _).map _ ↔ _
    rw [values_rules_stepMonitorLevel hstep hkeys, List.mem_map]

end Map

variable [RuleRecord D R] [LawfulRuleRecord D R] {previous : MonitorLevelLifecycle D R}

/-- What one observation makes of a level: a move of its state, and the records of it. -/
structure IsLevelStep [RuleRecord D R] (previous : MonitorLevelLifecycle D R)
    (step : MonitorLevelStep D) (afterClose afterOpen : MonitorLifecycleState)
    (result : MonitorLevelStepResult D R) : Prop where
  move : IsLevelMove previous.state afterClose afterOpen (ruleEntries previous step)
  records : RecordsMove step.date previous.state afterClose afterOpen result.transitions
  next_eq : result.next.state = afterOpen
  closed_iff : result.closed.isSome ↔ previous.state = .active ∧ afterClose = .resolved
  opened_iff : result.opened = true ↔ afterOpen = .active ∧ afterClose ≠ .active

/-- **One observation of a coherent level** moves it as its rules move, and is recorded so. -/
theorem Coherent.exists_isLevelStep (h : Coherent keys previous) (hstep : HasKeys keys step) :
    ∃ afterClose afterOpen,
      IsLevelStep previous step afterClose afterOpen (stepMonitorLevel previous step) := by
  have hbefore : levelOf ((ruleEntries previous step).map RuleEntry.before)
      = previous.state.current := by
    rw [map_before_ruleEntries, levelOf_perm (hstep.map (ruleOf previous))]
    exact h
  have hmove := isLevelMove (fun entry hmem => isRuleStep_of_mem hmem) hbefore
  have hrecords := hmove.recordsMove step.date
  refine ⟨_, _, hmove, hrecords, (hrecords.agrees hmove.continues).2.1, ?_, decide_eq_true_iff⟩
  change (if _ then (closingReason _ _).map Prod.snd else none).isSome = true ↔ _
  split
  · next hended =>
    have hne : levelAfterClose previous.state (ruleEntries previous step) ≠ previous.state := by
      rw [hended.2, hended.1]
      decide
    obtain ⟨-, entry, reason, hclosing, hreason⟩ := hmove.closes hne
    refine iff_of_true ?_ hended
    rw [closingReason, hclosing, Option.bind_some, hreason]
    rfl
  · next hno => exact iff_of_false nofun hno

/-- A level whose rules are active or waiting after a step is so itself, if it was active whenever
one of them stayed active. -/
theorem next_state_of_levelOf {state : MonitorLifecycleState}
    (hlevel : levelOf ((ruleEntries previous step).map fun entry => entry.step.afterOpen)
      = some state)
    (hprior : ∀ entry ∈ ruleEntries previous step, entry.step.afterClose.state = .active →
      previous.state = .active) : (stepMonitorLevel previous step).next.state = state := by
  have hafterOpen : levelAfterOpen (levelAfterClose previous.state (ruleEntries previous step))
      (ruleEntries previous step) = state := by
    rw [levelAfterOpen, hlevel, Option.getD_some]
  have hcurrent : state.atRest = false := by
    rcases levelOf_eq_some hlevel with rfl | rfl <;> rfl
  change (if (levelTransitions _ _ _ _ (closingReason _ _) (openingEntry _ _)).isEmpty then _
    else _) = state
  rw [hafterOpen]
  by_cases hsame : levelAfterClose previous.state (ruleEntries previous step) = state
  · -- the level was there before the step
    have hstood := eq_prior_of_levelAfterClose (hsame ▸ hcurrent)
    rw [← hstood, hsame, ite_self]
  · obtain ⟨rule, hrule, hstate⟩ := exists_of_levelOf_eq_some hlevel
    obtain ⟨entry, hmem, rfl⟩ := List.mem_map.mp hrule
    have hreason : entry.step.openReason.isSome ∨ state = .pendingTrigger := by
      rcases levelOf_eq_some hlevel with rfl | rfl
      · refine .inl (openReason_of_ne (isRuleStep_of_mem hmem) fun heq => hsame ?_)
        -- a rule active without opening was active all along, and the level knew
        have hafterClose : entry.step.afterClose.state = .active := heq.symm.trans hstate
        rw [hprior entry hmem hafterClose, levelAfterClose_active, if_pos]
        exact .inl (levelOf_eq_active_iff.mpr ⟨entry.step.afterClose,
          List.mem_map_of_mem (f := fun entry => entry.step.afterClose) hmem, hafterClose⟩)
      · exact .inr rfl
    obtain ⟨opening, reason, hopening⟩ := openingEntry_of_mem hmem hstate hreason
    rw [hopening]
    unfold levelTransitions
    split
    · next hswap =>
      -- one pending rule for another: the level waits as before
      rw [List.isEmpty_nil, if_pos rfl, hswap.1, hswap.2.2]
    · rw [if_pos (Ne.symm hsame)]
      simp

variable {afterClose afterOpen : MonitorLifecycleState} {result : MonitorLevelStepResult D R}

/-- A level that is where it was recorded nothing, unless an event ended and began again. -/
theorem IsLevelStep.silent (h : IsLevelStep previous step afterClose afterOpen result)
    (hsame : afterOpen = previous.state) :
    result.transitions = [] ∨ RefiresOccurrence previous step := by
  have hrecords := h.records
  generalize result.transitions = transitions at hrecords ⊢
  cases hrecords with
  | unchanged | swapped => exact .inl rfl
  | ended reason exitRuleId hclose hopen =>
    rw [← hsame, hopen] at hclose
    rcases endedStateOf_eq_some hclose with ⟨hstate, hended⟩ | ⟨hstate, hended⟩ <;>
      rw [hstate] at hended <;> cases hended
  | began reason exitRuleId hclose hopen => exact absurd hsame hopen
  | endedAndBegan closeReason openReason closeRuleId openRuleId hclose hopen hswap =>
    rcases endedStateOf_eq_some hclose with ⟨hactive, hended⟩ | ⟨hpending, -⟩
    · obtain ⟨entry, hmem, hwas, -, hnone, htrigger⟩ :=
        h.move.refires hactive hended (hsame.trans hactive)
      obtain ⟨hobservation, hbefore⟩ := mem_of_mem_ruleEntries hmem
      rw [hbefore] at hwas
      exact .inr ⟨hactive, entry.observation, hobservation, hwas, hnone, htrigger⟩
    · exact absurd (hsame.trans hpending) (hswap hpending)

/-- A step leaves the level the OR of its rules. -/
theorem KeepsRules.next (hkeep : KeepsRules D R keys) (h : Coherent keys previous)
    (hstep : HasKeys keys step) : Coherent keys (stepMonitorLevel previous step).next := by
  obtain ⟨afterClose, afterOpen, hlevel⟩ := h.exists_isLevelStep hstep
  rw [Coherent, hlevel.next_eq, ← hlevel.move.aggregates]
  exact (levelOf_perm (hkeep.holds previous step hstep)).symm

/-- **Every observation is recorded as it moves the level.** -/
theorem KeepsRules.isRecordedStep (hkeep : KeepsRules D R keys) (h : Coherent keys previous)
    (hstep : HasKeys keys step) : IsRecordedStep previous step (stepMonitorLevel previous step) := by
  obtain ⟨afterClose, afterOpen, hlevel⟩ := h.exists_isLevelStep hstep
  obtain ⟨hlinked, -, hclosed, hopened⟩ := hlevel.records.agrees hlevel.move.continues
  have haggregates := hlevel.move.aggregates
  have hactive := hkeep.states previous step hstep .active rfl
  have hpending := hkeep.states previous step hstep .pendingTrigger rfl
  rw [← hlevel.next_eq] at hlinked
  refine ⟨hlinked, fun hsame => hlevel.silent (hlevel.next_eq ▸ hsame), ?_, ?_,
    hlevel.closed_iff.trans hclosed, hlevel.opened_iff.trans hopened⟩
  · rw [hactive, ← levelOf_eq_active_iff, haggregates, hlevel.next_eq]
    cases afterOpen <;> simp [MonitorLifecycleState.current, MonitorLifecycleState.atRest]
  · have hnone : .active ∉ RuleRecord.states D (stepMonitorLevel previous step).next.rules
        ↔ ∀ rule ∈ (ruleEntries previous step).map fun entry => entry.step.afterOpen,
          rule.state ≠ .active := by
      rw [hactive]
      exact ⟨fun hno rule hmem hstate => hno ⟨rule, hmem, hstate⟩,
        fun hno ⟨rule, hmem, hstate⟩ => hno rule hmem hstate⟩
    rw [hnone, hpending, ← levelOf_eq_pending_iff, haggregates, hlevel.next_eq]
    cases afterOpen <;> simp [MonitorLifecycleState.current, MonitorLifecycleState.atRest]

/-- A level that keeps its rules in a map stays the OR of them. -/
theorem Coherent.next {previous : MonitorLevelLifecycle D} (h : Coherent keys previous)
    (hstep : HasKeys keys step) (hkeys : keys.Nodup) :
    Coherent keys (stepMonitorLevel previous step).next :=
  (keepsRules_ruleMap hkeys).next h hstep

/-- Its occurrences follow the level: one is current exactly while the level is active. -/
theorem Coherent.occursFrom (h : Coherent keys previous) (hstep : HasKeys keys step) :
    TransitionLog.occursFrom (decide (previous.state = .active))
        (occurrenceEvents (stepMonitorLevel previous step))
      = some (decide ((stepMonitorLevel previous step).next.state = .active)) := by
  obtain ⟨afterClose, afterOpen, hlevel⟩ := h.exists_isLevelStep hstep
  have hcontinues := hlevel.move.continues
  rw [hlevel.next_eq]
  unfold occurrenceEvents
  have hclosed : (stepMonitorLevel previous step).closed.isSome
      = decide (previous.state = .active ∧ afterClose = .resolved) := by
    rw [Bool.eq_iff_iff, decide_eq_true_iff]
    exact hlevel.closed_iff
  have hopened : (stepMonitorLevel previous step).opened
      = decide (afterOpen = .active ∧ afterClose ≠ .active) := by
    rw [Bool.eq_iff_iff, decide_eq_true_iff]
    exact hlevel.opened_iff
  rw [hclosed, hopened]
  have hends : afterClose ≠ previous.state → endedStateOf previous.state = some afterClose :=
    fun hne => (hlevel.move.closes hne).1
  generalize previous.state = prior at hends ⊢
  by_cases hstays : afterClose = prior
  · subst hstays
    cases afterClose with
    | active =>
      rw [hcontinues rfl]
      rfl
    | inactive | pendingTrigger | resolved => cases afterOpen <;> rfl
  · rcases endedStateOf_eq_some (hends hstays) with ⟨rfl, rfl⟩ | ⟨rfl, rfl⟩ <;>
      cases afterOpen <;> rfl

end Keys

/-! ### Every run -/

/-- The results of a run of observations, in order. -/
def stepResults [LinearOrder D] [RuleRecord D R] :
    List (MonitorLevelStep D) → MonitorLevelLifecycle D R → List (MonitorLevelStepResult D R)
  | [], _ => []
  | step :: rest, current =>
    stepMonitorLevel current step :: stepResults rest (stepMonitorLevel current step).next

theorem replayMonitorLevel_cons [LinearOrder D] [RuleRecord D R] (step : MonitorLevelStep D)
    (rest : List (MonitorLevelStep D)) (level : MonitorLevelLifecycle D R) :
    replayMonitorLevel (step :: rest) level
      = replayMonitorLevel rest (stepMonitorLevel level step).next := rfl

theorem replayMonitorLevel_append [LinearOrder D] [RuleRecord D R]
    (steps later : List (MonitorLevelStep D)) (level : MonitorLevelLifecycle D R) :
    replayMonitorLevel (steps ++ later) level
      = replayMonitorLevel later (replayMonitorLevel steps level) :=
  List.foldl_append

section Run

variable [LinearOrder D] {keys : List String} {steps : List (MonitorLevelStep D)}

/-- A coherent level stays coherent over a run. -/
theorem Coherent.replay {level : MonitorLevelLifecycle D} (h : Coherent keys level)
    (hkeys : keys.Nodup) (hsteps : ∀ step ∈ steps, HasKeys keys step) :
    Coherent keys (replayMonitorLevel steps level) := by
  induction steps generalizing level with
  | nil => exact h
  | cons step rest ih =>
    rw [replayMonitorLevel_cons]
    exact ih (h.next (hsteps step List.mem_cons_self) hkeys)
      fun later hlater => hsteps later (List.mem_cons_of_mem _ hlater)

variable [RuleRecord D R] [LawfulRuleRecord D R] {level : MonitorLevelLifecycle D R}

/-- So it does over any record that keeps its rules. -/
theorem KeepsRules.replay (hkeep : KeepsRules D R keys) (h : Coherent keys level)
    (hsteps : ∀ step ∈ steps, HasKeys keys step) :
    Coherent keys (replayMonitorLevel steps level) := by
  induction steps generalizing level with
  | nil => exact h
  | cons step rest ih =>
    rw [replayMonitorLevel_cons]
    exact ih (hkeep.next h (hsteps step List.mem_cons_self))
      fun later hlater => hsteps later (List.mem_cons_of_mem _ hlater)

/-- Over a run, openings and closings alternate, and an occurrence is current exactly while the
level is active. -/
theorem KeepsRules.occursFrom_stepResults (hkeep : KeepsRules D R keys) (h : Coherent keys level)
    (hsteps : ∀ step ∈ steps, HasKeys keys step) :
    TransitionLog.occursFrom (decide (level.state = .active))
        ((stepResults steps level).flatMap occurrenceEvents)
      = some (decide ((replayMonitorLevel steps level).state = .active)) := by
  induction steps generalizing level with
  | nil => rfl
  | cons step rest ih =>
    have hstep := hsteps step List.mem_cons_self
    rw [stepResults, List.flatMap_cons, occursFrom_append, h.occursFrom hstep,
      replayMonitorLevel_cons]
    exact ih (hkeep.next h hstep) fun later hlater => hsteps later (List.mem_cons_of_mem _ hlater)

end Run

/-- What a run of observations keeps. -/
structure RunAgrees (R : Type) [RuleRecord LocalDate R] (steps : List MonitorLevelStep) : Prop where
  /-- Every step records what it did to the level. -/
  step : ∀ before step after, steps = before ++ step :: after →
    IsRecordedStep (replayMonitorLevel before (initialMonitorLevelLifecycle (R := R))) step
      (stepMonitorLevel (replayMonitorLevel before initialMonitorLevelLifecycle) step)
  /-- Openings and closings alternate; an occurrence is open exactly when the level is active. -/
  occurrences : TransitionLog.occursFrom false
      ((stepResults steps (initialMonitorLevelLifecycle (R := R))).flatMap occurrenceEvents)
    = some (decide ((replayMonitorLevel steps (initialMonitorLevelLifecycle (R := R))).state
      = .active))

/-- **Durable state, transition history and occurrences always agree**, over every run of
observations of rules that the record keeps: dates in any order, any eligibility, any predicates. -/
theorem KeepsRules.runAgrees {R : Type} [RuleRecord LocalDate R] [LawfulRuleRecord LocalDate R]
    {keys : List String} (hkeep : KeepsRules LocalDate R keys) {steps : List MonitorLevelStep}
    (hsteps : ∀ step ∈ steps, HasKeys keys step) : RunAgrees R steps := by
  refine ⟨fun before step after heq => ?_, hkeep.occursFrom_stepResults hkeep.initial hsteps⟩
  subst heq
  have hbefore := hkeep.replay hkeep.initial fun earlier hearlier =>
    hsteps earlier (List.mem_append.mpr (.inl hearlier))
  exact hkeep.isRecordedStep hbefore (hsteps step (by simp))

end FactorSage
