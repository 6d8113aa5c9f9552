import FactorSage.Monitor.Resting
import Mathlib.Data.List.Find

/-!
# Settled rules

`settleMonitorLevelLifecycle` pins what a rule carries from before an anchor. Stepping commutes with
it: a rule and its settled form step alike after the anchor (`stepRule_settleRule`), and a level reads
no more of its rules than what that keeps (`recordedTransitions_alike`).

What makes it so is where a rule's dates stand (`RuleDated`). The Trigger a rule consumed is not
later than the rule's own state, and strictly earlier once the rule has left `ACTIVE`. A rule at rest
since the anchor or longer consumed its Trigger before it, so the crossing an observation after the
anchor sees is fresh, with or without the memory.
-/

namespace FactorSage

variable {D : Type}

/-! ### What a level reads of its rules -/

/-- Whether a state is one that is not at rest. -/
theorem decide_eq_of_current {state left right : MonitorLifecycleState} (hstate : state.atRest = false)
    (h : left.current = right.current) : decide (left = state) = decide (right = state) := by
  revert hstate h
  cases state <;> cases left <;> cases right <;> decide

/-- Two states that settle alike are equal, or both at rest. -/
theorem eq_or_atRest_of_current {left right : MonitorLifecycleState} (h : left.current = right.current) :
    left = right ∨ left.atRest = true ∧ right.atRest = true := by
  revert h
  cases left <;> cases right <;> decide

/-- Whether some value passes a test, from what each value answers. -/
theorem any_map_congr {α ι : Type} {indices : List ι} {left right : ι → α} {holds : α → Bool}
    (h : ∀ index ∈ indices, holds (left index) = holds (right index)) :
    (indices.map left).any holds = (indices.map right).any holds := by
  have hanswers : ∀ values : ι → α,
      (indices.map values).any holds = (indices.map (holds ∘ values)).any id := by
    intro values
    rw [List.any_map, List.any_map]
    rfl
  have hsame : indices.map (holds ∘ left) = indices.map (holds ∘ right) := List.map_congr_left h
  rw [hanswers, hanswers, hsame]

/-- The OR of some rules reads no more than what they are. -/
theorem levelOf_congr {ι : Type} {indices : List ι} {left right : ι → MonitorRuleLifecycle D}
    (h : ∀ index ∈ indices, (left index).state.current = (right index).state.current) :
    levelOf (indices.map left) = levelOf (indices.map right) := by
  have hsame : ∀ state : MonitorLifecycleState, state.atRest = false →
      (indices.map left).any (fun rule => decide (rule.state = state))
        = (indices.map right).any fun rule => decide (rule.state = state) := by
    intro state hstate
    exact any_map_congr fun index hindex => decide_eq_of_current hstate (h index hindex)
  unfold levelOf
  rw [hsame .active rfl, hsame .pendingTrigger rfl]

/-- The rule and reason a transition is recorded with. -/
def explanation (found : RuleEntry D × MonitorTransitionReason) :
    Option String × MonitorTransitionReason :=
  (found.1.observation.exitRuleId, found.2)

theorem levelTransitions_congr {date : D} {prior afterClose afterOpen : MonitorLifecycleState}
    {closing opening closing' opening' : Option (RuleEntry D × MonitorTransitionReason)}
    (hclosing : afterClose ≠ prior → closing.map explanation = closing'.map explanation)
    (hopening : afterOpen ≠ afterClose → opening.map explanation = opening'.map explanation) :
    levelTransitions date prior afterClose afterOpen closing opening
      = levelTransitions date prior afterClose afterOpen closing' opening' := by
  -- a transition is made of the explanation alone
  have hexplained : ∀ (left right : Option (RuleEntry D × MonitorTransitionReason))
      (fromState toState : MonitorLifecycleState), left.map explanation = right.map explanation →
      left.map (fun found => MonitorLifecycleTransition.mk fromState toState found.2
          found.1.observation.exitRuleId date)
        = right.map fun found => MonitorLifecycleTransition.mk fromState toState found.2
          found.1.observation.exitRuleId date := by
    intro left right fromState toState h
    have hmapped := congrArg (Option.map fun found => MonitorLifecycleTransition.mk fromState toState
      found.2 found.1 date) h
    rw [Option.map_map, Option.map_map] at hmapped
    exact hmapped
  unfold levelTransitions
  split
  · rfl
  · congr 1
    · split
      · next hmoved => rw [hexplained _ _ _ _ (hclosing hmoved)]
      · rfl
    · split
      · next hmoved => rw [hexplained _ _ _ _ (hopening hmoved)]
      · rfl

/-- A level at rest only begins. -/
theorem levelTransitions_of_atRest {date : D} {prior afterOpen : MonitorLifecycleState}
    {closing opening : Option (RuleEntry D × MonitorTransitionReason)} (hrest : prior.atRest = true) :
    levelTransitions date prior prior afterOpen closing opening
      = if afterOpen ≠ prior then
          (opening.map fun found => MonitorLifecycleTransition.mk prior afterOpen found.2
            found.1.observation.exitRuleId date).toList
        else [] := by
  unfold levelTransitions
  rw [if_neg fun hswap => (atRest_iff_ne.mp hrest).2 hswap.1, if_neg (not_not.mpr rfl), List.nil_append]

theorem levelAfterClose_of_atRest {prior : MonitorLifecycleState} (hrest : prior.atRest = true)
    (entries : List (RuleEntry D)) : levelAfterClose prior entries = prior := by
  obtain ⟨hactive, hpending⟩ := atRest_iff_ne.mp hrest
  unfold levelAfterClose
  simp [hactive, hpending]

/-- Both phases leave a level where the close phase did, or current. -/
theorem levelAfterOpen_eq_or (afterClose : MonitorLifecycleState) (entries : List (RuleEntry D)) :
    levelAfterOpen afterClose entries = afterClose
      ∨ (levelAfterOpen afterClose entries).atRest = false := by
  unfold levelAfterOpen
  cases hlevel : levelOf (entries.map fun entry => entry.step.afterOpen) with
  | none => exact .inl rfl
  | some state => rcases levelOf_eq_some hlevel with rfl | rfl <;> exact .inr rfl

/-- What a level that was `prior` records of the entries of a step. -/
def recordedTransitions (date : D) (prior : MonitorLifecycleState) (entries : List (RuleEntry D)) :
    List (MonitorLifecycleTransition D) :=
  let afterClose := levelAfterClose prior entries
  let afterOpen := levelAfterOpen afterClose entries
  levelTransitions date prior afterClose afterOpen (closingReason prior entries)
    (openingEntry afterOpen entries)

/-- A level at rest records what its rules begin. -/
theorem recordedTransitions_of_atRest {prior : MonitorLifecycleState} (hrest : prior.atRest = true)
    (date : D) (entries : List (RuleEntry D)) :
    recordedTransitions date prior entries
      = (levelOf (entries.map fun entry => entry.step.afterOpen)).elim [] fun state =>
        (((openingEntry state entries).map explanation).map fun found =>
          MonitorLifecycleTransition.mk prior state found.2 found.1 date).toList := by
  unfold recordedTransitions
  dsimp only
  rw [levelAfterClose_of_atRest hrest, levelTransitions_of_atRest hrest]
  unfold levelAfterOpen
  cases hlevel : levelOf (entries.map fun entry => entry.step.afterOpen) with
  | none =>
    rw [Option.getD_none, if_neg (not_not.mpr rfl)]
    rfl
  | some state =>
    have hne : state ≠ prior := by
      rintro rfl
      rcases levelOf_eq_some hlevel with rfl | rfl <;> cases hrest
    rw [Option.getD_some, if_pos hne, Option.elim_some, Option.map_map]
    rfl

variable [LinearOrder D]

/-! ### The dates of a rule -/

/-- A rule last moved before `date`, and where its consumed Trigger stands. -/
structure RuleDated (date : D) (rule : MonitorRuleLifecycle D) : Prop where
  since : ∀ since ∈ rule.since, since < date
  /-- A consumed Trigger began an occurrence; whatever the rule is now came after it. -/
  trigger : ∀ fired ∈ rule.triggerDate,
    ∃ since ∈ rule.since, fired ≤ since ∧ (rule.state ≠ .active → fired < since)

section Rule

variable {date anchor : D} {rule : MonitorRuleLifecycle D}
  {observation : MonitorRuleObservation} {eligible : Bool}

theorem RuleDated.fired_lt (h : RuleDated date rule) : ∀ fired ∈ rule.triggerDate, fired < date := by
  intro fired hfired
  obtain ⟨since, hsince, hle, -⟩ := h.trigger fired hfired
  calc fired ≤ since := hle
    _ < date := h.since since hsince

/-- A reading later than the rule is not refused. -/
theorem RuleDated.not_younger (h : RuleDated date rule) :
    (rule.since.any fun since => decide (date < since)) = false := by
  cases hsince : rule.since with
  | none => rfl
  | some since => simpa using (h.since since hsince).le

/-- What the open phase makes of the dates of a rule. -/
theorem openPhase_dates {opened : MonitorRuleLifecycle D} {reason : MonitorTransitionReason}
    (h : openPhase rule observation date eligible = some (opened, reason)) :
    opened.since = some date
      ∧ (opened.state = .active ∧ opened.triggerDate = some date
        ∨ opened.triggerDate = rule.triggerDate) := by
  refine ⟨(openPhase_spec h).2.2.1, ?_⟩
  unfold openPhase at h
  dsimp only at h
  split at h
  · split at h
    · split at h
      · obtain ⟨rfl, -⟩ := Prod.mk.inj (Option.some.inj h)
        exact .inl ⟨rfl, rfl⟩
      · cases h
    · split at h
      · cases h
      split at h
      · obtain ⟨rfl, -⟩ := Prod.mk.inj (Option.some.inj h)
        exact .inr rfl
      split at h
      · obtain ⟨rfl, -⟩ := Prod.mk.inj (Option.some.inj h)
        exact .inl ⟨rfl, rfl⟩
      split at h
      · obtain ⟨rfl, -⟩ := Prod.mk.inj (Option.some.inj h)
        exact .inr rfl
      · cases h
  · cases h

/-- What a step makes of the dates of a rule: nothing, or it moves on the date of the step and either
consumes a Trigger there or remembers the one it had. -/
theorem stepRule_dates (rule : MonitorRuleLifecycle D) (observation : MonitorRuleObservation)
    (date : D) (eligible : Bool) :
    (stepRule rule observation date eligible).afterOpen = rule
      ∨ (stepRule rule observation date eligible).afterOpen.since = some date
        ∧ ((stepRule rule observation date eligible).afterOpen.state = .active
            ∧ (stepRule rule observation date eligible).afterOpen.triggerDate = some date
          ∨ (stepRule rule observation date eligible).afterOpen.triggerDate = rule.triggerDate) := by
  unfold stepRule
  split
  · exact .inl rfl
  · cases hclose : closePhase rule observation date eligible with
    | none =>
      dsimp only [Option.elim]
      cases hopen : openPhase rule observation date eligible with
      | none => exact .inl rfl
      | some opened => exact .inr (openPhase_dates hopen)
    | some close =>
      dsimp only [Option.elim]
      cases hopen : openPhase { rule with state := close.1, since := some date } observation date
          eligible with
      | none => exact .inr ⟨rfl, .inr rfl⟩
      | some opened =>
        have hdates := openPhase_dates hopen
        exact .inr hdates

/-- A step keeps a rule's dates in order. -/
theorem RuleDated.next (h : RuleDated date rule) {later : D} (hlt : date < later) :
    RuleDated later (stepRule rule observation date eligible).afterOpen := by
  rcases stepRule_dates rule observation date eligible with hkept | ⟨hsince, htrigger⟩
  · rw [hkept]
    exact ⟨fun since hmem => (h.since since hmem).trans hlt, h.trigger⟩
  · constructor
    · intro since hmem
      rw [hsince] at hmem
      rw [← Option.some.inj hmem]
      exact hlt
    · intro fired hfired
      refine ⟨date, hsince, ?_⟩
      rcases htrigger with ⟨hactive, hdate⟩ | hkept
      · rw [hdate] at hfired
        exact ⟨(Option.some.inj hfired).ge, fun hne => absurd hactive hne⟩
      · rw [hkept] at hfired
        have hearlier := h.fired_lt fired hfired
        exact ⟨hearlier.le, fun _ => hearlier⟩

/-! ### A settled rule -/

/-- A rule that forgets a Trigger consumed before the anchor. -/
def forgetBefore (anchor : D) (rule : MonitorRuleLifecycle D) : MonitorRuleLifecycle D :=
  { rule with triggerDate := rule.triggerDate.filter fun date => decide (anchor ≤ date) }

theorem settleRule_of_restsAt (h : restsAt anchor rule.state rule.since = true) :
    settleRule anchor rule = ⟨.inactive, some anchor, none⟩ := if_pos h

theorem settleRule_rested {state : MonitorLifecycleState} {since triggerDate : Option D}
    (h : restsAt anchor state since = true) :
    settleRule anchor ⟨state, since, triggerDate⟩ = ⟨.inactive, some anchor, none⟩ := if_pos h

theorem settleRule_of_not_restsAt (h : restsAt anchor rule.state rule.since = false) :
    settleRule anchor rule = forgetBefore anchor rule :=
  if_neg (by rw [h]; exact Bool.false_ne_true)

theorem restsAt_settled (anchor : D) : restsAt anchor .inactive (some anchor) = true := by
  unfold restsAt
  simp [MonitorLifecycleState.atRest]

@[simp] theorem settleRule_settleRule (anchor : D) (rule : MonitorRuleLifecycle D) :
    settleRule anchor (settleRule anchor rule) = settleRule anchor rule := by
  cases hrests : restsAt anchor rule.state rule.since with
  | true =>
    rw [settleRule_of_restsAt hrests]
    exact settleRule_of_restsAt (restsAt_settled anchor)
  | false =>
    have hforgotten : restsAt anchor (forgetBefore anchor rule).state
        (forgetBefore anchor rule).since = false := hrests
    rw [settleRule_of_not_restsAt hrests, settleRule_of_not_restsAt hforgotten]
    unfold forgetBefore
    rw [Option.filter_filter]
    simp

/-- Settling a rule that forgot nothing more. -/
theorem settleRule_forgetBefore (anchor : D) (rule : MonitorRuleLifecycle D) :
    settleRule anchor (forgetBefore anchor rule) = settleRule anchor rule := by
  cases hrests : restsAt anchor rule.state rule.since with
  | true =>
    rw [settleRule_of_restsAt hrests]
    exact settleRule_rested hrests
  | false => rw [← settleRule_of_not_restsAt hrests, settleRule_settleRule]

/-- Settling keeps what a rule is, but for the name of its rest. -/
theorem current_settleRule (anchor : D) (rule : MonitorRuleLifecycle D) :
    (settleRule anchor rule).state.current = rule.state.current := by
  cases hrests : restsAt anchor rule.state rule.since with
  | true =>
    rw [settleRule_of_restsAt hrests]
    have hrest : rule.state.atRest = true := (Bool.and_eq_true_iff.mp hrests).1
    unfold MonitorLifecycleState.current
    rw [hrest]
    rfl
  | false =>
    rw [settleRule_of_not_restsAt hrests]
    rfl

theorem current_eq_of_settleRule_eq {left right : MonitorRuleLifecycle D}
    (h : settleRule anchor left = settleRule anchor right) : left.state.current = right.state.current := by
  rw [← current_settleRule anchor left, h, current_settleRule]

/-- Two steps of a rule that settle alike. -/
structure StepsAlike (anchor : D) (left right : RuleStep D) : Prop where
  closeReason : left.closeReason = right.closeReason
  openReason : left.openReason = right.openReason
  afterClose : left.afterClose.state.current = right.afterClose.state.current
  afterOpen : settleRule anchor left.afterOpen = settleRule anchor right.afterOpen

/-- Whether a Trigger the open phase sees is fresh. -/
theorem all_lt_forgetBefore (hlt : anchor < date) :
    ((forgetBefore anchor rule).triggerDate.all fun fired => decide (fired < date))
      = rule.triggerDate.all fun fired => decide (fired < date) := by
  unfold forgetBefore
  cases rule.triggerDate with
  | none => rfl
  | some fired =>
    by_cases hle : anchor ≤ fired
    · rw [Option.filter_some, if_pos (decide_eq_true hle)]
    · rw [Option.filter_some, if_neg (by simpa using hle)]
      -- what is forgotten is older than the anchor, so older than the date
      have hfired : fired < date := (not_le.mp hle).trans hlt
      simp [hfired]

theorem openPhase_forgetBefore (hlt : anchor < date) :
    openPhase (forgetBefore anchor rule) observation date eligible
      = (openPhase rule observation date eligible).map fun opened =>
        (forgetBefore anchor opened.1, opened.2) := by
  have hfresh : ((forgetBefore anchor rule).triggerDate.all fun fired => decide (fired < date))
      = rule.triggerDate.all fun fired => decide (fired < date) := all_lt_forgetBefore hlt
  have hfired : forgetBefore anchor ⟨.active, some date, some date⟩ = ⟨.active, some date, some date⟩ := by
    unfold forgetBefore
    rw [Option.filter_some, if_pos (decide_eq_true hlt.le)]
  unfold openPhase
  dsimp only
  rw [hfresh, show (forgetBefore anchor rule).state = rule.state from rfl]
  split
  · split
    · split
      · rw [Option.map_some, hfired]
      · rfl
    · split
      · rfl
      split
      · rfl
      split
      · rw [Option.map_some, hfired]
      split
      · rfl
      · rfl
  · rfl

/-- A rule steps alike with and without what it consumed before the anchor. -/
theorem stepRule_forgetBefore (rule : MonitorRuleLifecycle D) (observation : MonitorRuleObservation)
    (eligible : Bool) (hlt : anchor < date) :
    StepsAlike anchor (stepRule (forgetBefore anchor rule) observation date eligible)
      (stepRule rule observation date eligible) := by
  have hclose : closePhase (forgetBefore anchor rule) observation date eligible
      = closePhase rule observation date eligible := rfl
  unfold stepRule
  rw [show (forgetBefore anchor rule).since = rule.since from rfl]
  split
  · exact ⟨rfl, rfl, rfl, settleRule_forgetBefore anchor rule⟩
  · rw [hclose]
    -- the close phase leaves the memory alone
    have hafter : (closePhase rule observation date eligible).elim (forgetBefore anchor rule)
          (fun c => { forgetBefore anchor rule with state := c.1, since := some date })
        = forgetBefore anchor ((closePhase rule observation date eligible).elim rule
            fun c => { rule with state := c.1, since := some date }) := by
      cases closePhase rule observation date eligible <;> rfl
    dsimp only
    rw [hafter, openPhase_forgetBefore hlt]
    refine ⟨rfl, by rw [Option.map_map]; rfl, rfl, ?_⟩
    cases openPhase ((closePhase rule observation date eligible).elim rule
        fun c => { rule with state := c.1, since := some date }) observation date eligible with
    | none => exact settleRule_forgetBefore anchor _
    | some opened => exact settleRule_forgetBefore anchor opened.1

/-- A rule at rest since the anchor or longer forgets whatever it consumed. -/
theorem RuleDated.trigger_of_restsAt (h : RuleDated date rule)
    (hrests : restsAt anchor rule.state rule.since = true) :
    ∀ fired ∈ rule.triggerDate, fired < anchor := by
  obtain ⟨hrest, hbefore⟩ := Bool.and_eq_true_iff.mp hrests
  intro fired hfired
  obtain ⟨since, hsince, -, hstrict⟩ := h.trigger fired hfired
  have hle : since ≤ anchor := by
    rw [Option.mem_def.mp hsince] at hbefore
    exact of_decide_eq_true hbefore
  exact (hstrict (atRest_iff_ne.mp hrest).1).trans_le hle

/-- A rule at rest since the anchor or longer begins what a rule that never moved begins. -/
theorem openPhase_of_restsAt (h : RuleDated date rule)
    (hrests : restsAt anchor rule.state rule.since = true) :
    (openPhase ⟨.inactive, some anchor, none⟩ observation date eligible).map
        (fun opened => (settleRule anchor opened.1, opened.2))
      = (openPhase rule observation date eligible).map
        fun opened => (settleRule anchor opened.1, opened.2) := by
  obtain ⟨hactive, hpending⟩ := atRest_iff_ne.mp (Bool.and_eq_true_iff.mp hrests).1
  have hfresh : (rule.triggerDate.all fun fired => decide (fired < date)) = true := by
    cases htrigger : rule.triggerDate with
    | none => rfl
    | some fired => exact decide_eq_true (h.fired_lt fired htrigger)
  -- what moves after the anchor remembers nothing from before it
  have hforgets : ∀ state : MonitorLifecycleState,
      settleRule anchor ⟨state, some date, none⟩
        = settleRule anchor ⟨state, some date, rule.triggerDate⟩ := by
    intro state
    rw [← settleRule_forgetBefore anchor ⟨state, some date, rule.triggerDate⟩]
    have hforgotten : rule.triggerDate.filter (fun date => decide (anchor ≤ date)) = none := by
      cases htrigger : rule.triggerDate with
      | none => rfl
      | some fired =>
        have hearlier := h.trigger_of_restsAt hrests fired htrigger
        rw [Option.filter_some, if_neg (by simpa using hearlier)]
    unfold forgetBefore
    rw [hforgotten]
  unfold openPhase
  dsimp only
  rw [hfresh]
  simp only [hactive, hpending, ne_eq, not_false_eq_true, decide_true, Bool.and_true,
    reduceCtorEq, Option.all_none]
  cases eligible with
  | false => rfl
  | true =>
    rw [if_pos rfl, if_pos rfl]
    cases observation.conditions with
    | none => rfl
    | some conditions =>
      dsimp only
      split
      · rfl
      split
      · rw [Option.map_some, Option.map_some, hforgets]
      split
      · rfl
      · rw [if_pos trivial, if_pos trivial, Option.map_some, Option.map_some, hforgets]

/-- **A rule and its settled form step alike.** -/
theorem stepRule_settleRule (h : RuleDated date rule) (hanchor : anchor < date)
    (observation : MonitorRuleObservation) (eligible : Bool) :
    StepsAlike anchor (stepRule (settleRule anchor rule) observation date eligible)
      (stepRule rule observation date eligible) := by
  -- a rule at rest closes nothing, so the step only opens
  cases hrests : restsAt anchor rule.state rule.since with
  | false =>
    rw [settleRule_of_not_restsAt hrests]
    exact stepRule_forgetBefore rule observation eligible hanchor
  | true =>
    have hrest := (Bool.and_eq_true_iff.mp hrests).1
    have hopen : (openPhase ⟨.inactive, some anchor, none⟩ observation date eligible).map
          (fun opened => (settleRule anchor opened.1, opened.2))
        = (openPhase rule observation date eligible).map
          fun opened => (settleRule anchor opened.1, opened.2) := openPhase_of_restsAt h hrests
    have hsettled := settleRule_of_restsAt hrests
    have hfound : stepRule ⟨.inactive, some anchor, none⟩ observation date eligible
        = ⟨⟨.inactive, some anchor, none⟩,
          (openPhase ⟨.inactive, some anchor, none⟩ observation date eligible).elim
            ⟨.inactive, some anchor, none⟩ Prod.fst, none,
          (openPhase ⟨.inactive, some anchor, none⟩ observation date eligible).map Prod.snd⟩ := by
      unfold stepRule
      rw [if_neg (by simpa using hanchor.le), closePhase_of_atRest rfl]
      rfl
    have hkept : stepRule rule observation date eligible
        = ⟨rule, (openPhase rule observation date eligible).elim rule Prod.fst, none,
          (openPhase rule observation date eligible).map Prod.snd⟩ := by
      unfold stepRule
      rw [if_neg (by rw [h.not_younger]; exact Bool.false_ne_true), closePhase_of_atRest hrest]
      rfl
    rw [hsettled, hfound, hkept]
    have hcurrent := current_settleRule anchor rule
    rw [hsettled] at hcurrent
    refine ⟨rfl, ?_, hcurrent, ?_⟩
    · have hreasons := congrArg (Option.map Prod.snd) hopen
      rw [Option.map_map, Option.map_map] at hreasons
      exact hreasons
    · dsimp only
      generalize openPhase ⟨.inactive, some anchor, none⟩ observation date eligible = left at hopen
      generalize openPhase rule observation date eligible = right at hopen
      cases left with
      | none =>
        cases right with
        | none => rw [Option.elim_none, Option.elim_none, ← hsettled, settleRule_settleRule]
        | some opened => cases hopen
      | some first =>
        cases right with
        | none => cases hopen
        | some opened => exact (Prod.mk.inj (Option.some.inj hopen)).1

/-- Two rules that settle alike step alike. -/
theorem stepsAlike_of_settleRule_eq {left right : MonitorRuleLifecycle D} (hleft : RuleDated date left)
    (hright : RuleDated date right) (hanchor : anchor < date)
    (h : settleRule anchor left = settleRule anchor right) (observation : MonitorRuleObservation)
    (eligible : Bool) :
    StepsAlike anchor (stepRule left observation date eligible)
      (stepRule right observation date eligible) := by
  have hfirst := stepRule_settleRule hleft hanchor observation eligible
  have hsecond := stepRule_settleRule hright hanchor observation eligible
  rw [h] at hfirst
  exact {
    closeReason := hfirst.closeReason.symm.trans hsecond.closeReason
    openReason := hfirst.openReason.symm.trans hsecond.openReason
    afterClose := hfirst.afterClose.symm.trans hsecond.afterClose
    afterOpen := hfirst.afterOpen.symm.trans hsecond.afterOpen }

end Rule

/-! ### Entries that settle alike -/

/-- Two entries of one observation, whose rules settle alike before and after. -/
structure EntryAlike (anchor : D) (left right : RuleEntry D) : Prop where
  observation : left.observation = right.observation
  before : left.before.state.current = right.before.state.current
  step : StepsAlike anchor left.step right.step

section Entries

variable {anchor : D} {left right : MonitorRuleObservation → RuleEntry D}
  {observations : List MonitorRuleObservation}

variable (h : ∀ observation ∈ observations, EntryAlike anchor (left observation) (right observation))

theorem EntryAlike.current_afterOpen {left right : RuleEntry D} (h : EntryAlike anchor left right) :
    left.step.afterOpen.state.current = right.step.afterOpen.state.current :=
  current_eq_of_settleRule_eq h.step.afterOpen

include h

theorem levelOf_afterClose_alike :
    levelOf ((observations.map left).map fun entry => entry.step.afterClose)
      = levelOf ((observations.map right).map fun entry => entry.step.afterClose) := by
  rw [List.map_map, List.map_map]
  exact levelOf_congr fun observation hmem => (h observation hmem).step.afterClose

theorem levelOf_afterOpen_alike :
    levelOf ((observations.map left).map fun entry => entry.step.afterOpen)
      = levelOf ((observations.map right).map fun entry => entry.step.afterOpen) := by
  rw [List.map_map, List.map_map]
  exact levelOf_congr fun observation hmem => (h observation hmem).current_afterOpen

theorem takesOver_alike :
    takesOver (observations.map left) = takesOver (observations.map right) := by
  refine any_map_congr fun observation hmem => ?_
  have halike := h observation hmem
  have hactive : decide ((left observation).step.afterOpen.state = .active)
      = decide ((right observation).step.afterOpen.state = .active) :=
    decide_eq_of_current rfl halike.current_afterOpen
  rw [halike.step.openReason, halike.step.closeReason, hactive]

theorem levelAfterClose_alike (prior : MonitorLifecycleState) :
    levelAfterClose prior (observations.map left)
      = levelAfterClose prior (observations.map right) := by
  unfold levelAfterClose
  rw [levelOf_afterClose_alike h, levelOf_afterOpen_alike h, takesOver_alike h]

theorem levelAfterOpen_alike (afterClose : MonitorLifecycleState) :
    levelAfterOpen afterClose (observations.map left)
      = levelAfterOpen afterClose (observations.map right) := by
  unfold levelAfterOpen
  rw [levelOf_afterOpen_alike h]

theorem closingReason_alike {prior : MonitorLifecycleState} (hprior : prior.atRest = false) :
    (closingReason prior (observations.map left)).map explanation
      = (closingReason prior (observations.map right)).map explanation := by
  have hsame : ∀ observation ∈ observations,
      ((fun entry : RuleEntry D => entry.step.closeReason.isSome
          && decide (entry.before.state = prior)) ∘ left) observation
        = ((fun entry : RuleEntry D => entry.step.closeReason.isSome
          && decide (entry.before.state = prior)) ∘ right) observation := by
    intro observation hmem
    simp only [Function.comp_apply, (h observation hmem).step.closeReason,
      decide_eq_of_current hprior (h observation hmem).before]
  unfold closingReason closingEntry
  rw [List.find?_map, List.find?_map, List.find?_congr hsame]
  cases hfound : List.find? _ observations with
  | none => rfl
  | some found =>
    have halike := h found (List.mem_of_find?_eq_some hfound)
    change Option.map explanation (Option.map _ _) = Option.map explanation (Option.map _ _)
    rw [Option.map_map, Option.map_map, halike.step.closeReason]
    unfold explanation
    simp only [Function.comp_def, halike.observation]

theorem openingEntry_alike {afterOpen : MonitorLifecycleState} (hopen : afterOpen.atRest = false) :
    (openingEntry afterOpen (observations.map left)).map explanation
      = (openingEntry afterOpen (observations.map right)).map explanation := by
  -- two rules alike differ in what rests only, so each test finds the same observation
  have hstate : ∀ observation ∈ observations, ∀ state : MonitorLifecycleState,
      state.atRest = false → decide ((left observation).step.afterOpen.state = state)
        = decide ((right observation).step.afterOpen.state = state) :=
    fun observation hmem state hstate =>
      decide_eq_of_current hstate (h observation hmem).current_afterOpen
  have hopened : ∀ observation ∈ observations,
      ((fun entry : RuleEntry D => entry.step.openReason.isSome
          && decide (entry.step.afterOpen.state = afterOpen)) ∘ left) observation
        = ((fun entry : RuleEntry D => entry.step.openReason.isSome
          && decide (entry.step.afterOpen.state = afterOpen)) ∘ right) observation := by
    intro observation hmem
    simp only [Function.comp_apply, (h observation hmem).step.openReason,
      hstate observation hmem afterOpen hopen]
  have hwaiting : ∀ observation ∈ observations,
      ((fun entry : RuleEntry D => decide (entry.step.afterOpen.state = .pendingTrigger)) ∘ left)
          observation
        = ((fun entry : RuleEntry D =>
          decide (entry.step.afterOpen.state = .pendingTrigger)) ∘ right) observation :=
    fun observation hmem => hstate observation hmem .pendingTrigger rfl
  unfold openingEntry
  rw [List.find?_map, List.find?_map, List.find?_map, List.find?_map, List.find?_congr hopened,
    List.find?_congr hwaiting]
  cases hfound : List.find? _ observations with
  | some found =>
    have halike := h found (List.mem_of_find?_eq_some hfound)
    dsimp only [Option.map_some]
    rw [Option.map_map, Option.map_map, halike.step.openReason]
    unfold explanation
    simp only [Function.comp_def, halike.observation]
  | none =>
    dsimp only [Option.map_none]
    split
    · cases hwaits : List.find? _ observations with
      | none => rfl
      | some found =>
        have halike := h found (List.mem_of_find?_eq_some hwaits)
        unfold explanation
        simp only [Option.map_some, halike.observation]
    · rfl

/-- A level of one state records the same of entries that settle alike. -/
theorem recordedTransitions_alike (date : D) (prior : MonitorLifecycleState) :
    recordedTransitions date prior (observations.map left)
      = recordedTransitions date prior (observations.map right) := by
  unfold recordedTransitions
  dsimp only
  rw [levelAfterClose_alike h, levelAfterOpen_alike h]
  refine levelTransitions_congr (fun hclosed => closingReason_alike h ?_)
    fun hopened => openingEntry_alike h ?_
  · -- a level at rest ends nothing
    cases hrest : prior.atRest with
    | false => rfl
    | true => exact absurd (levelAfterClose_of_atRest hrest _) hclosed
  · exact (levelAfterOpen_eq_or _ _).resolve_left hopened

end Entries

end FactorSage
