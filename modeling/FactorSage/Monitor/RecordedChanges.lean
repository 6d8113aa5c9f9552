import FactorSage.Monitor.SessionHistory

/-!
# What a catch-up records

A catch-up steps its sessions in order and records every change. Over its sessions the changes are a
chain from the state before them to the state after, and an occurrence is current after them exactly
when the level is active (`records_changesFrom`). From a lifecycle that tracks the canonical one it
ends and begins the same occurrences (`occurrences_changesFrom`).

A level replayed over a window records the state it was in before the window, when something was
current, and then the changes of the window's sessions. They are a chain, in the order of their
sessions; no two of them enter one state on one session, and only the first is reconstructed
(`isReplay_of_write`).
-/

namespace FactorSage

open TransitionLog

variable {F : Type}

/-- The occurrence a change ends, and the one it begins. -/
def LevelChange.occurrence (change : LevelChange F) :
    Option OccurrenceClose × Option (OccurrenceOpen F) :=
  (change.close, change.opens)

def LevelChange.events (change : LevelChange F) : List OccurrenceEvent :=
  (if change.close.isSome then [.closed] else []) ++ if change.opens.isSome then [.opened] else []

/-- The changes of a decision, from the state before it: a chain of transitions to the state after,
whose occurrences alternate and leave one open exactly when that is active. -/
structure Records (before : MonitorLifecycleState) (changes : List (LevelChange F))
    (after : MonitorLifecycleState) : Prop where
  linked : Linked (fun change : LevelChange F => change.transition.fromState)
    (fun change => change.transition.toState) before changes after
  occurrences : occursFrom (decide (before = .active)) (changes.flatMap LevelChange.events)
    = some (decide (after = .active))

theorem records_nil (state : MonitorLifecycleState) : Records state ([] : List (LevelChange F)) state :=
  ⟨rfl, rfl⟩

theorem Records.append {before middle after : MonitorLifecycleState}
    {changes later : List (LevelChange F)} (h : Records before changes middle)
    (hlater : Records middle later after) : Records before (changes ++ later) after where
  linked := linked_append.mpr ⟨middle, h.linked, hlater.linked⟩
  occurrences := by
    rw [List.flatMap_append, occursFrom_append, h.occurrences, Option.bind_some, hlater.occurrences]

/-- The one change that begins what is current, when something is. -/
theorem records_beginning {state : MonitorLifecycleState} {changes : List (LevelChange F)}
    (hrest : state.atRest = true → state = .inactive ∧ changes = [])
    (hcurrent : state.atRest = false → ∃ change, changes = [change]
      ∧ change.transition.fromState = .inactive ∧ change.transition.toState = state
      ∧ change.close = none ∧ change.opens.isSome = decide (state = .active)) :
    Records .inactive changes state := by
  cases hstate : state.atRest with
  | true =>
    obtain ⟨rfl, rfl⟩ := hrest hstate
    exact records_nil _
  | false =>
    obtain ⟨change, rfl, hfrom, hto, hclose, hopens⟩ := hcurrent hstate
    refine ⟨⟨hfrom, ?_, hto⟩, ?_⟩
    · show change.transition.fromState ≠ change.transition.toState
      rw [hfrom, hto]
      rintro rfl
      cases hstate
    · rw [List.flatMap_singleton, LevelChange.events, hclose, hopens]
      cases state <;> rfl

variable [JsNumber F]

namespace SessionDecisionInput

variable {input : SessionDecisionInput F}

/-- The changes of some sessions stepped in order. -/
def changesFrom (input : SessionDecisionInput F) :
    MonitorLevelLifecycle → List input.frame.Session → List (LevelChange F)
  | _, [] => []
  | lifecycle, session :: rest =>
    let reading := input.read session
    let result := stepMonitorLevel lifecycle reading.step
    result.transitions.map (input.changeOf reading result) ++ input.changesFrom result.next rest

theorem changesFrom_append (start : MonitorLevelLifecycle)
    (sessions later : List input.frame.Session) :
    input.changesFrom start (sessions ++ later)
      = input.changesFrom start sessions
        ++ input.changesFrom (replayMonitorLevel (input.steps sessions) start) later := by
  induction sessions generalizing start with
  | nil => rfl
  | cons session rest ih =>
    rw [List.cons_append, changesFrom, ih, ← List.append_assoc]
    rfl

theorem stepThrough_eq (start : MonitorLevelLifecycle) (sessions : List input.frame.Session) :
    (input.stepThrough start (sessions.map input.read)).changes = input.changesFrom start sessions
      ∧ (input.stepThrough start (sessions.map input.read)).lifecycle
        = replayMonitorLevel (input.steps sessions) start := by
  -- the fold carries the changes of the sessions before
  have hfold : ∀ (sessions : List input.frame.Session) (stepped : Stepped F),
      let folded := (sessions.map input.read).foldl input.stepReading stepped
      folded.changes = stepped.changes ++ input.changesFrom stepped.lifecycle sessions
        ∧ folded.lifecycle = replayMonitorLevel (input.steps sessions) stepped.lifecycle := by
    intro sessions
    induction sessions with
    | nil => exact fun stepped => ⟨(List.append_nil _).symm, rfl⟩
    | cons session rest ih =>
      intro stepped
      rw [List.map_cons, List.foldl_cons]
      obtain ⟨hchanges, hlifecycle⟩ := ih (input.stepReading stepped (input.read session))
      exact ⟨by rw [hchanges, stepReading, List.append_assoc]; rfl, hlifecycle⟩
  exact hfold sessions ⟨[], start, none⟩

/-! ### One session -/

/-- The occurrences of a change, from its transition up to the name of a rest. -/
theorem occurrence_changeOf (reading : SessionReading input.frame) (result : MonitorLevelStepResult)
    (transition : MonitorLifecycleTransition) :
    (input.changeOf reading result transition).occurrence
      = (fun read : Option MonitorLifecycleState × MonitorLifecycleState
          × MonitorTransitionReason × Option String × LocalDate =>
        (if read.1 = some .active then
            result.closed.map fun reason => (⟨reason, some read.2.2.2.2⟩ : OccurrenceClose)
          else none,
          if read.2.1 = .active ∧ result.opened = true then
            some (⟨read.2.2.2.2, reading.price,
              decide (input.originOf read.2.2.2.2 = .history)⟩ : OccurrenceOpen F)
          else none)) transition.upToRest := by
  have hactive : transition.fromState.current = some .active ↔ transition.fromState = .active := by
    cases transition.fromState <;> decide
  unfold LevelChange.occurrence changeOf MonitorLifecycleTransition.upToRest
  simp only [hactive]

/-- Steps with the same outcome end and begin the same occurrences. -/
theorem occurrences_of_sameOutcome (reading : SessionReading input.frame)
    {left right : MonitorLevelStepResult} (h : SameOutcome left right) :
    (left.transitions.map (input.changeOf reading left)).map LevelChange.occurrence
      = (right.transitions.map (input.changeOf reading right)).map LevelChange.occurrence := by
  rw [List.map_map, List.map_map]
  have hread : ∀ result : MonitorLevelStepResult,
      result.transitions.map (LevelChange.occurrence ∘ input.changeOf reading result)
        = (result.transitions.map MonitorLifecycleTransition.upToRest).map
          fun read : Option MonitorLifecycleState × MonitorLifecycleState
              × MonitorTransitionReason × Option String × LocalDate =>
            (if read.1 = some .active then
                result.closed.map fun reason => (⟨reason, some read.2.2.2.2⟩ : OccurrenceClose)
              else none,
              if read.2.1 = .active ∧ result.opened = true then
                some (⟨read.2.2.2.2, reading.price,
                  decide (input.originOf read.2.2.2.2 = .history)⟩ : OccurrenceOpen F)
              else none) := by
    intro result
    rw [List.map_map]
    exact List.map_congr_left fun transition _ => occurrence_changeOf reading result transition
  rw [hread, hread, h.transitions, h.closed, h.opened]

/-- The transitions of a move carry the end and the beginning of an occurrence once each. -/
theorem occurrences_of_recordsMove {D : Type} {date : D}
    {prior afterClose afterOpen : MonitorLifecycleState}
    {transitions : List (MonitorLifecycleTransition D)}
    (h : RecordsMove date prior afterClose afterOpen transitions)
    (hcontinues : afterClose = .active → afterOpen = .active) {closed opened : Bool}
    (hclosed : closed = true ↔ prior = .active ∧ afterClose = .resolved)
    (hopened : opened = true ↔ afterOpen = .active ∧ afterClose ≠ .active) :
    (transitions.flatMap fun transition =>
        (if transition.fromState = .active ∧ closed = true then [OccurrenceEvent.closed] else [])
          ++ if transition.toState = .active ∧ opened = true then [.opened] else [])
      = (if closed then [.closed] else []) ++ if opened then [.opened] else [] := by
  simp only [hclosed, hopened]
  cases h with
  | unchanged hclose hopen =>
    subst hclose hopen
    cases afterOpen <;> simp
  | swapped hprior hclose hopen =>
    subst hprior hclose hopen
    simp
  | ended reason exitRuleId hclose hopen =>
    subst hopen
    rcases endedStateOf_eq_some hclose with ⟨rfl, rfl⟩ | ⟨rfl, rfl⟩ <;> simp
  | began reason exitRuleId hclose hopen =>
    subst hclose
    cases afterClose with
    | active => exact absurd (hcontinues rfl) hopen
    | inactive => simp
    | pendingTrigger => simp
    | resolved => simp
  | endedAndBegan closeReason openReason closeRuleId openRuleId hclose hopen _ =>
    rcases endedStateOf_eq_some hclose with ⟨rfl, rfl⟩ | ⟨rfl, rfl⟩ <;> simp

theorem events_changeOf (reading : SessionReading input.frame) (result : MonitorLevelStepResult)
    (transition : MonitorLifecycleTransition) :
    (input.changeOf reading result transition).events
      = (if transition.fromState = .active ∧ result.closed.isSome = true then [.closed] else [])
        ++ if transition.toState = .active ∧ result.opened = true then [.opened] else [] := by
  unfold LevelChange.events changeOf
  congr 1
  · by_cases hfrom : transition.fromState = .active <;> simp [hfrom]
  · by_cases hto : transition.toState = .active ∧ result.opened = true <;> simp [hto]

/-- **The changes of one session are recorded as it moves the level.** -/
theorem records_session {keys : List String} {lifecycle : MonitorLevelLifecycle}
    (h : Coherent keys lifecycle) (session : input.frame.Session)
    (hstep : HasKeys keys (input.read session).step) :
    let result := stepMonitorLevel lifecycle (input.read session).step
    Records lifecycle.state (result.transitions.map (input.changeOf (input.read session) result))
      result.next.state := by
  intro result
  obtain ⟨afterClose, afterOpen, hlevel⟩ := h.exists_isLevelStep hstep
  obtain ⟨hlinked, -, -, -⟩ := hlevel.records.agrees hlevel.move.continues
  rw [← hlevel.next_eq] at hlinked
  refine ⟨(linked_map _).mpr hlinked, ?_⟩
  -- the changes carry the occurrences of the observation itself
  have hevents : (result.transitions.map (input.changeOf (input.read session) result)).flatMap
      LevelChange.events = occurrenceEvents result := by
    rw [List.flatMap_map, List.flatMap_congr fun _ _ => events_changeOf _ _ _]
    exact occurrences_of_recordsMove hlevel.records hlevel.move.continues hlevel.closed_iff
      hlevel.opened_iff
  rw [hevents]
  exact h.occursFrom hstep

/-! ### A whole catch-up -/

/-- **A catch-up records its sessions as they move the level.** -/
theorem records_changesFrom {lifecycle : MonitorLevelLifecycle}
    (h : Coherent input.level.ruleIds lifecycle) (sessions : List input.frame.Session) :
    Records lifecycle.state (input.changesFrom lifecycle sessions)
      (replayMonitorLevel (input.steps sessions) lifecycle).state := by
  induction sessions generalizing lifecycle with
  | nil => exact records_nil _
  | cons session rest ih =>
    have hstep : HasKeys input.level.ruleIds (input.read session).step :=
      hasKeys_historyStep _ _ _ _
    exact (records_session h session hstep).append (ih (h.next hstep input.level.ruleIds_nodup))

/-- **Lifecycles that stand alike record the same occurrences.** -/
theorem occurrences_changesFrom {anchor last : LocalDate} {left right : MonitorLevelLifecycle}
    (h : Tracks input.level.ruleIds anchor last left right) {sessions : List input.frame.Session}
    (hascends : (last :: sessions.map input.frame.dateOf).Pairwise (· < ·)) :
    (input.changesFrom left sessions).map LevelChange.occurrence
      = (input.changesFrom right sessions).map LevelChange.occurrence := by
  induction sessions generalizing last left right with
  | nil => rfl
  | cons session rest ih =>
    obtain ⟨hafter, hrest⟩ := List.pairwise_cons.mp hascends
    have hlater : last < (input.read session).step.date := hafter _ List.mem_cons_self
    have hstep : HasKeys input.level.ruleIds (input.read session).step :=
      hasKeys_historyStep _ _ _ _
    unfold changesFrom
    dsimp only
    rw [List.map_append, List.map_append,
      occurrences_of_sameOutcome _ (h.sameOutcome hstep hlater),
      ih (h.next input.level.ruleIds_nodup hstep hlater) hrest]

end SessionDecisionInput

end FactorSage

/-! ## What a replay records -/

namespace FactorSage

open TransitionLog

/-! ### Reasons -/

section Reasons

variable {D : Type} [LinearOrder D]

theorem closePhase_reason {rule : MonitorRuleLifecycle D} {observation : MonitorRuleObservation}
    {date : D} {eligible : Bool} {close : MonitorLifecycleState × MonitorTransitionReason}
    (h : closePhase rule observation date eligible = some close) : close.2 ≠ .reconstructed := by
  unfold closePhase at h
  split at h
  · obtain ⟨_, _, rfl⟩ := Option.map_eq_some_iff.mp h
    simp
  · split at h
    · split at h
      · obtain ⟨_, _, rfl⟩ := Option.map_eq_some_iff.mp h
        simp
      · cases h
    · split at h
      · obtain rfl := Option.some.inj h
        simp
      · cases h

theorem openPhase_reason {rule : MonitorRuleLifecycle D} {observation : MonitorRuleObservation}
    {date : D} {eligible : Bool} {opened : MonitorRuleLifecycle D × MonitorTransitionReason}
    (h : openPhase rule observation date eligible = some opened) : opened.2 ≠ .reconstructed := by
  unfold openPhase at h
  dsimp only at h
  split at h
  · split at h
    · split at h
      · obtain rfl := Option.some.inj h
        simp
      · cases h
    · split at h
      · cases h
      · split at h
        · obtain rfl := Option.some.inj h
          simp
        · split at h
          · obtain rfl := Option.some.inj h
            simp
          · split at h
            · obtain rfl := Option.some.inj h
              simp
            · cases h
  · cases h

theorem stepRule_reasons (rule : MonitorRuleLifecycle D) (observation : MonitorRuleObservation)
    (date : D) (eligible : Bool) :
    (stepRule rule observation date eligible).closeReason ≠ some .reconstructed
      ∧ (stepRule rule observation date eligible).openReason ≠ some .reconstructed := by
  unfold stepRule
  split
  · exact ⟨by simp, by simp⟩
  · constructor
    · intro h
      obtain ⟨close, hclose, hreason⟩ := Option.map_eq_some_iff.mp h
      exact closePhase_reason hclose hreason
    · intro h
      obtain ⟨opened, hopened, hreason⟩ := Option.map_eq_some_iff.mp h
      exact openPhase_reason hopened hreason

/-- An observation never records a reconstruction. -/
theorem reason_ne_reconstructed {level : MonitorLevelLifecycle D} {step : MonitorLevelStep D}
    {transition : MonitorLifecycleTransition D}
    (h : transition ∈ (stepMonitorLevel level step).transitions) :
    transition.reason ≠ .reconstructed := by
  -- the reasons come from the rules' own steps, which never give this one
  have hentry : ∀ entry ∈ ruleEntries level step,
      entry.step.closeReason ≠ some .reconstructed
        ∧ entry.step.openReason ≠ some .reconstructed := by
    intro entry hmem
    obtain ⟨observation, -, rfl⟩ := List.mem_map.mp hmem
    exact stepRule_reasons _ _ _ _
  have hclosing : ∀ closing ∈ closingReason level.state (ruleEntries level step),
      closing.2 ≠ .reconstructed := by
    intro closing hclosing heq
    obtain ⟨entry, hfound, hmap⟩ := Option.bind_eq_some_iff.mp hclosing
    obtain ⟨reason, hreason, rfl⟩ := Option.map_eq_some_iff.mp hmap
    have heq : reason = .reconstructed := heq
    rw [heq] at hreason
    exact (hentry entry (List.mem_of_find?_eq_some hfound)).1 hreason
  have hopening : ∀ afterOpen, ∀ opening ∈ openingEntry afterOpen (ruleEntries level step),
      opening.2 ≠ .reconstructed := by
    intro afterOpen opening hopening heq
    unfold openingEntry at hopening
    split at hopening
    · next entry hfound =>
      obtain ⟨reason, hreason, rfl⟩ := Option.map_eq_some_iff.mp hopening
      have heq : reason = .reconstructed := heq
      rw [heq] at hreason
      exact (hentry entry (List.mem_of_find?_eq_some hfound)).2 hreason
    · split at hopening
      · obtain ⟨entry, -, rfl⟩ := Option.map_eq_some_iff.mp hopening
        cases heq
      · cases hopening
  change transition ∈ levelTransitions step.date level.state _ _
    (closingReason level.state (ruleEntries level step)) _ at h
  unfold levelTransitions at h
  split at h
  · cases h
  · rcases List.mem_append.mp h with h | h
    · split at h
      · obtain ⟨closing, hmem, rfl⟩ := Option.map_eq_some_iff.mp (Option.mem_toList.mp h)
        exact hclosing closing hmem
      · cases h
    · split at h
      · obtain ⟨opening, hmem, rfl⟩ := Option.map_eq_some_iff.mp (Option.mem_toList.mp h)
        exact hopening _ opening hmem
      · cases h

end Reasons

/-! ### The state before a window -/

section Start

variable {D : Type}

theorem coherent_unresolved {keys : List String} {level : MonitorLevelLifecycle D}
    (h : Coherent keys level) : Coherent keys (unresolved level) := by
  unfold Coherent
  rw [current_unresolved, ← h]
  refine levelOf_congr fun key _ => ?_
  obtain ⟨hrules, hsince⟩ := unresolved_rules level
  rw [ruleOf_eq, ruleOf_eq, hrules]
  cases level.rules.get? key with
  | some rule => rfl
  | none =>
    -- a rule that is not stored inherits the rest, under either name
    show (inheritedRule (unresolved level)).state.current = (inheritedRule level).state.current
    obtain ⟨state, since, rules⟩ := level
    cases state <;> rfl

theorem sinceResting_suffix (steps : List (MonitorLevelStep D)) : sinceResting steps <:+ steps := by
  unfold sinceResting
  cases hstart : restingStart steps with
  | none => exact List.suffix_refl steps
  | some start =>
    obtain ⟨-, before, hbefore⟩ := restingStart_eq_some hstart
    exact ⟨before, hbefore.symm⟩

variable [LinearOrder D]

theorem LevelDated.unresolved {later : D} {level : MonitorLevelLifecycle D}
    (h : LevelDated later level) : LevelDated later (unresolved level) := by
  obtain ⟨hrules, hsince⟩ := unresolved_rules level
  constructor
  · rw [hsince]
    exact h.since
  · rw [hrules]
    exact h.rules

/-- What a reconstruction folds is followed up to its live observation. -/
theorem followed_reconstructedStart {shapes : List RuleShape} {history : List (MonitorLevelStep D)}
    {date : D} (hkeys : (shapes.map RuleShape.key).Nodup)
    (hshapes : ∀ step ∈ history, HasShapes shapes step) (hascends : AscendsBefore history date) :
    Followed shapes date (reconstructedStart history) := by
  have hsuffix := sinceResting_suffix history
  show Followed shapes date (replayMonitorLevel (sinceResting history) initialMonitorLevelLifecycle)
  apply Followed.replay hkeys
  · intro other _
    exact followed_initial shapes other
  · intro step hstep
    exact hshapes step (hsuffix.subset hstep)
  · exact hascends.sublist ((hsuffix.sublist.map _).append_right _)

/-- A reconstruction is the OR of its rules, and nothing in it is later than its observation. -/
theorem reconstructMonitorLevel_stands {shapes : List RuleShape}
    {history : List (MonitorLevelStep D)} {live : MonitorLevelStep D} (complete : Bool)
    (hkeys : (shapes.map RuleShape.key).Nodup)
    (hshapes : ∀ step ∈ history ++ [live], HasShapes shapes step)
    (hascends : AscendsBefore history live.date) :
    Coherent (shapes.map RuleShape.key) (reconstructMonitorLevel history live complete).lifecycle
      ∧ ∀ later, live.date < later →
        LevelDated later (reconstructMonitorLevel history live complete).lifecycle := by
  have hlive := hshapes live (List.mem_append_right _ (List.mem_singleton_self live))
  have hfollowed := followed_reconstructedStart hkeys
    (fun step hstep => hshapes step (List.mem_append_left _ hstep)) hascends
  have hcoherent := hfollowed.coherent.next hlive.hasKeys hkeys
  have hdated : ∀ later, live.date < later →
      LevelDated later (stepMonitorLevel (reconstructedStart history) live).next :=
    fun later hlater => hfollowed.dated.next hlater
  have hle := anchor_le_of_reconstruct hascends complete
  obtain ⟨anchor, heq, -⟩ := reconstructMonitorLevel_eq history live complete
  rw [heq] at hle ⊢
  cases anchor with
  | none => exact ⟨hcoherent, hdated⟩
  | some anchor =>
    refine ⟨hcoherent.settle anchor, ?_⟩
    intro later hlater
    exact (hdated later hlater).settle ((hle anchor rfl).trans_lt hlater)

end Start

/-! ### The changes of one observation -/

section Moves

variable {D : Type} {date : D} {prior afterClose afterOpen : MonitorLifecycleState}
  {closing opening : Option (RuleEntry D × MonitorTransitionReason)}

theorem levelTransitions_date {transition : MonitorLifecycleTransition D}
    (h : transition ∈ levelTransitions date prior afterClose afterOpen closing opening) :
    transition.date = date := by
  unfold levelTransitions at h
  split at h
  · cases h
  · rcases List.mem_append.mp h with h | h
    · split at h
      · obtain ⟨_, -, rfl⟩ := Option.map_eq_some_iff.mp (Option.mem_toList.mp h)
        rfl
      · cases h
    · split at h
      · obtain ⟨_, -, rfl⟩ := Option.map_eq_some_iff.mp (Option.mem_toList.mp h)
        rfl
      · cases h

/-- The transitions of one observation enter different states. -/
theorem pairwise_levelTransitions :
    (levelTransitions date prior afterClose afterOpen closing opening).Pairwise
      fun earlier later => earlier.toState ≠ later.toState := by
  have hsingle : ∀ {p : Prop} [Decidable p] (transition : Option (MonitorLifecycleTransition D)),
      (if p then transition.toList else []).Pairwise
        fun earlier later => earlier.toState ≠ later.toState := by
    intro p _ transition
    split
    · cases transition with
      | none => exact .nil
      | some transition => exact List.pairwise_singleton _ _
    · exact .nil
  unfold levelTransitions
  split
  · exact .nil
  · refine List.pairwise_append.mpr ⟨hsingle _, hsingle _, ?_⟩
    intro earlier hearlier later hlater
    split at hearlier
    · obtain ⟨_, -, rfl⟩ := Option.map_eq_some_iff.mp (Option.mem_toList.mp hearlier)
      split at hlater
      · next hopen =>
        obtain ⟨_, -, rfl⟩ := Option.map_eq_some_iff.mp (Option.mem_toList.mp hlater)
        exact hopen.symm
      · cases hlater
    · cases hearlier

end Moves

variable {F : Type}

/-! ### The order of the changes -/

/-- The session a change is recorded for. -/
def LevelChange.date (change : LevelChange F) : Option LocalDate :=
  change.transition.observationDate

/-- One change is recorded before another: no session later, and on one session into another
state. -/
structure LevelChange.Precedes (earlier later : LevelChange F) : Prop where
  ordered : ∃ date ∈ earlier.date, ∃ date' ∈ later.date, date ≤ date'
  distinct : earlier.date = later.date →
    earlier.transition.toState ≠ later.transition.toState

/-- The changes a replay records: at most one of the past, the state before the window, and those of
the window's sessions, whose dates are `dates`. -/
structure IsReplay (dates : List LocalDate) (anchor : Option (LevelChange F))
    (stepped : List (LevelChange F)) : Prop where
  linked : ∃ start after, (∀ first ∈ anchor, first.transition.toState = start)
    ∧ Linked (fun change : LevelChange F => change.transition.fromState)
      (fun change => change.transition.toState) start stepped after
  reconstructed : ∀ first ∈ anchor, first.transition.reason = .reconstructed
    ∧ ∃ since, first.date = some since ∧ ∀ date ∈ dates, since < date
  leaves : ∀ first ∈ anchor, first.transition.fromState = .inactive
  observed : ∀ change ∈ stepped, change.transition.reason ≠ .reconstructed
    ∧ ∃ date ∈ dates, change.date = some date
  opened : ∀ change ∈ anchor.toList ++ stepped, ∀ opening ∈ change.opens,
    change.date = some opening.observationDate
  ordered : stepped.Pairwise LevelChange.Precedes

variable [JsNumber F]

namespace SessionDecisionInput

variable {input : SessionDecisionInput F}

theorem date_of_opens {reading : SessionReading input.frame} {result : MonitorLevelStepResult}
    {transition : MonitorLifecycleTransition} {opening : OccurrenceOpen F}
    (h : opening ∈ (input.changeOf reading result transition).opens) :
    (input.changeOf reading result transition).date = some opening.observationDate := by
  unfold changeOf at h
  dsimp only at h
  split at h
  · obtain rfl := Option.some.inj h
    rfl
  · cases h

theorem date_of_prefixChange_opens {price : Option F} {state : MonitorLifecycleState}
    {since : LocalDate} {opening : OccurrenceOpen F}
    (h : opening ∈ (input.prefixChange price state since).opens) :
    (input.prefixChange price state since).date = some opening.observationDate := by
  unfold prefixChange at h
  dsimp only at h
  split at h
  · obtain ⟨_, -, rfl⟩ := Option.map_eq_some_iff.mp h
    rfl
  · cases h

/-- The changes of some sessions are those of their observations. -/
theorem exists_of_mem_changesFrom {lifecycle : MonitorLevelLifecycle}
    {sessions : List input.frame.Session} {change : LevelChange F}
    (h : change ∈ input.changesFrom lifecycle sessions) :
    ∃ reading result transition, change = input.changeOf reading result transition := by
  induction sessions generalizing lifecycle with
  | nil => exact (List.not_mem_nil h).elim
  | cons session rest ih =>
    rcases List.mem_append.mp h with h | h
    · obtain ⟨transition, -, rfl⟩ := List.mem_map.mp h
      exact ⟨_, _, transition, rfl⟩
    · exact ih h

/-- The changes of one session are dated on it and observed, and enter different states. -/
theorem changes_session (lifecycle : MonitorLevelLifecycle) (session : input.frame.Session) :
    let result := stepMonitorLevel lifecycle (input.read session).step
    let changes := result.transitions.map (input.changeOf (input.read session) result)
    (∀ change ∈ changes, change.date = some (input.frame.dateOf session)
        ∧ change.transition.reason ≠ .reconstructed)
      ∧ changes.Pairwise LevelChange.Precedes := by
  intro result changes
  have hdates : ∀ transition ∈ result.transitions, transition.date = input.frame.dateOf session :=
    fun transition hmem => levelTransitions_date hmem
  constructor
  · intro change hchange
    obtain ⟨transition, hmem, rfl⟩ := List.mem_map.mp hchange
    exact ⟨congrArg some (hdates transition hmem), reason_ne_reconstructed hmem⟩
  · have hdistinct : result.transitions.Pairwise fun earlier later =>
        earlier.toState ≠ later.toState := pairwise_levelTransitions
    refine List.pairwise_map.mpr ((List.Pairwise.and_mem.mp hdistinct).imp ?_)
    rintro earlier later ⟨hearlier, hlater, hne⟩
    constructor
    · exact ⟨_, rfl, _, rfl, ((hdates earlier hearlier).trans (hdates later hlater).symm).le⟩
    · intro _
      exact hne

/-- **The changes of ascending sessions** are dated on them, observed, and in their order. -/
theorem changes_changesFrom (lifecycle : MonitorLevelLifecycle)
    {sessions : List input.frame.Session} (hascends : sessions.Pairwise (· < ·)) :
    (∀ change ∈ input.changesFrom lifecycle sessions,
        (∃ date ∈ sessions.map input.frame.dateOf, change.date = some date)
          ∧ change.transition.reason ≠ .reconstructed)
      ∧ (input.changesFrom lifecycle sessions).Pairwise LevelChange.Precedes := by
  induction sessions generalizing lifecycle with
  | nil => exact ⟨fun _ hmem => (List.not_mem_nil hmem).elim, .nil⟩
  | cons session rest ih =>
    obtain ⟨hafter, hrest⟩ := List.pairwise_cons.mp hascends
    obtain ⟨hdated, hsession⟩ := changes_session lifecycle session
    obtain ⟨hlater, hordered⟩ := ih
      (stepMonitorLevel lifecycle (input.read session).step).next hrest
    constructor
    · intro change hmem
      rcases List.mem_append.mp hmem with hmem | hmem
      · obtain ⟨hdate, hreason⟩ := hdated change hmem
        exact ⟨⟨_, List.mem_cons_self, hdate⟩, hreason⟩
      · obtain ⟨⟨date, hmem, hdate⟩, hreason⟩ := hlater change hmem
        exact ⟨⟨date, List.mem_cons_of_mem _ hmem, hdate⟩, hreason⟩
    · refine List.pairwise_append.mpr ⟨hsession, hordered, ?_⟩
      intro earlier hearlier later hlaterMem
      obtain ⟨hearlierDate, -⟩ := hdated earlier hearlier
      obtain ⟨⟨date, hmem, hdate⟩, -⟩ := hlater later hlaterMem
      obtain ⟨other, hother, rfl⟩ := List.mem_map.mp hmem
      have hlt := dateOf_lt_iff.mpr (hafter other hother)
      constructor
      · exact ⟨_, hearlierDate, _, hdate, hlt.le⟩
      · -- the dates of different sessions differ
        intro hsame
        rw [hearlierDate, hdate] at hsame
        exact absurd (Option.some.inj hsame) hlt.ne

/-! ### A whole replay -/

/-- The state a replay starts from stands, and is dated before every session after its reading. -/
theorem reconstructAt_stands (input : SessionDecisionInput F) (session : input.frame.Session) :
    Coherent input.level.ruleIds (input.reconstructAt (input.read session)).lifecycle
      ∧ ∀ later, input.frame.dateOf session < later →
        LevelDated later (input.reconstructAt (input.read session)).lifecycle := by
  have hstands := reconstructMonitorLevel_stands input.historyComplete
    input.level.nodup_keys_shapes (input.hasShapes_steps session) (input.ascendsBefore_steps session)
  rw [MonitorStrategyLevel.map_key_shapes] at hstands
  rw [reconstructAt_eq]
  exact hstands

/-- What a replay from a state before its window writes. -/
theorem isReplay_of_replayFrom (hprevious : input.previous = none)
    (hascends : input.sessions.Pairwise (· < ·)) {start : MonitorLevelLifecycle}
    (hstart : Coherent input.level.ruleIds start)
    (hdated : ∀ session ∈ input.sessions, LevelDated (input.frame.dateOf session) start)
    {prefixReading : Option (SessionReading input.frame)} {newest : input.frame.Session}
    {write : LevelSessionsWrite F}
    (h : (input.replayFrom start prefixReading newest).write = some write) :
    ∃ anchor stepped, write.changes = anchor.toList ++ stepped
      ∧ IsReplay (input.sessions.map input.frame.dateOf) anchor stepped := by
  have hstale : input.stale = false := by
    unfold stale
    rw [hprevious]
    rfl
  unfold replayFrom at h
  dsimp only at h
  split at h
  · unfold resetOnly at h
    rw [hstale] at h
    cases h
  · obtain rfl := Option.some.inj h
    -- the sessions' own changes, behind the one that stands for the prefix
    have hchanges : (input.stepThrough start (input.sessions.map input.read)).changes
        = input.changesFrom start input.sessions := (stepThrough_eq start input.sessions).1
    obtain ⟨hstepped, hordered⟩ := changes_changesFrom start hascends
    refine ⟨(if start.state.atRest then none else start.since).map
        (input.prefixChange ((if start.state.atRest then none else start.since).bind fun since =>
          (closeOn input.frame since).or (prefixReading.map (·.price))) start.state),
      input.changesFrom start input.sessions, ?_, ?_, ?_, ?_, ?_, ?_, hordered⟩
    · show input.reset ++ _ ++ (input.stepThrough start _).changes = _
      rw [hchanges, reset, hstale]
      rfl
    · refine ⟨start.state, _, ?_, (records_changesFrom hstart input.sessions).linked⟩
      intro first hfirst
      obtain ⟨since, -, rfl⟩ := Option.map_eq_some_iff.mp hfirst
      rfl
    · intro first hfirst
      obtain ⟨since, hsince, rfl⟩ := Option.map_eq_some_iff.mp hfirst
      refine ⟨rfl, since, rfl, ?_⟩
      intro date hdate
      obtain ⟨session, hsession, rfl⟩ := List.mem_map.mp hdate
      split at hsince
      · cases hsince
      · exact (hdated session hsession).since since hsince
    · intro first hfirst
      obtain ⟨since, -, rfl⟩ := Option.map_eq_some_iff.mp hfirst
      rfl
    · intro change hchange
      obtain ⟨hdate, hreason⟩ := hstepped change hchange
      exact ⟨hreason, hdate⟩
    · intro change hchange opening hopening
      rcases List.mem_append.mp hchange with hfirst | hchange
      · obtain ⟨since, -, rfl⟩ := Option.map_eq_some_iff.mp (Option.mem_toList.mp hfirst)
        exact date_of_prefixChange_opens hopening
      · obtain ⟨_, _, _, rfl⟩ := exists_of_mem_changesFrom hchange
        exact date_of_opens hopening

/-- **What a replay writes** is a chain in the order of its sessions, after at most one change of
the past. -/
theorem isReplay_of_write (hprevious : input.previous = none) (hreplay : input.replay = true)
    (hascends : input.sessions.Pairwise (· < ·)) {write : LevelSessionsWrite F}
    (h : (decideLevelSessions input).write = some write) :
    ∃ anchor stepped, write.changes = anchor.toList ++ stepped
      ∧ IsReplay (input.sessions.map input.frame.dateOf) anchor stepped := by
  have hstale : input.stale = false := by
    unfold stale
    rw [hprevious]
    rfl
  have hreset : ¬ input.resetOnly.write = some write := by
    unfold resetOnly
    rw [hstale]
    simp
  unfold decideLevelSessions at h
  split at h
  · next newest first hnewest hfirst =>
    rw [hprevious, hstale] at h
    simp only [hreplay, if_true] at h
    unfold replayLevel at h
    split at h
    · next session hbefore =>
      dsimp only at h
      split at h
      · exact absurd h hreset
      · obtain ⟨hstands, hdated⟩ := reconstructAt_stands input session
        refine isReplay_of_replayFrom hprevious hascends (coherent_unresolved hstands) ?_ h
        intro other hother
        -- the session read is the one just before the first of the window
        have hlt : session < other := by
          have hle := AscendingList.le_of_head? hascends hfirst hother
          refine lt_of_lt_of_le ?_ hle
          unfold beforeWindow at hbefore
          split at hbefore
          · next hpositive =>
            obtain rfl := Option.some.inj hbefore
            exact Nat.sub_lt hpositive.1 Nat.one_pos
          · cases hbefore
        exact (hdated _ (dateOf_lt_iff.mpr hlt)).unresolved
    · split at h
      · exact absurd h hreset
      · exact isReplay_of_replayFrom hprevious hascends (coherent_initial _)
          (fun session _ => levelDated_initial _) h
  · exact absurd h hreset

end SessionDecisionInput

end FactorSage
