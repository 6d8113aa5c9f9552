import FactorSage.Domain.StockLists
import FactorSage.Monitor.RecordedChanges

/-!
# Recording the sessions a member never evaluated

A member's recorded evaluation can begin inside its rolling window. `planCoverageBackfill` decides
the missing sessions as a window replay does, verifies the canonical history against what is
recorded, and plans the changes that are missing, each on its occurrence. `applyCoverageBackfill`
appends them, when the checkpoint and the states are still those the plan was read from.

The date of a recorded change is optional, as in the store: the non-null assertions of the planner
are comparisons that fail without a date.

* `reconcileLevel_changes` — the changes of the missing sessions that are not recorded are planned,
  each once, in the order of the canonical history.
* `reconciles_reconcileLevel` — a planned occurrence is opened and closed by one change each, before
  the recorded sessions; a recorded one that a planned change closes ended on that change's session.
-/

namespace FactorSage

variable {F : Type}

/-- One recorded change of a member. The list of them is ordered by sequence. -/
structure RecordedTransition where
  levelId : String
  signalFingerprint : String
  fromState : MonitorLifecycleState
  toState : MonitorLifecycleState
  reason : MonitorTransitionReason
  origin : TransitionOrigin
  observationDate : Option LocalDate
  signalId : Option String
  deriving DecidableEq

/-- One recorded occurrence of a member, with how it ended, if it has. -/
structure RecordedSignal where
  id : String
  levelId : String
  /-- `none` on occurrences recorded before fingerprints were. -/
  signalFingerprint : Option String
  observationDate : LocalDate
  resolved : Bool
  resolvedObservationDate : Option LocalDate
  resolutionReason : Option MonitorTransitionReason
  deriving DecidableEq

/-- What a back-fill reads of a member's progress. -/
structure MemberCheckpoint where
  evaluatedThrough : LocalDate
  coverageStart : LocalDate
  coverageBlockedFrom : Option LocalDate
  deriving DecidableEq

/-- Everything a coverage back-fill reads about one member, at one moment. -/
structure MemberRecord where
  checkpoint : MemberCheckpoint
  /-- The member's states, by level id. -/
  states : OrderedMap String PersistedSignalState
  transitions : List RecordedTransition
  signals : List RecordedSignal

/-- Which occurrence a change concerns: one already recorded, or one this write adds. -/
inductive BackfillSignalRef where
  | existing (id : String)
  | planned (index : ℕ)
  deriving DecidableEq

structure BackfillChange (F : Type) where
  fromState : MonitorLifecycleState
  toState : MonitorLifecycleState
  reason : MonitorTransitionReason
  exitRuleId : Option String
  observationDate : Option LocalDate
  evidence : Option (MonitorTransitionEvidence F)
  signal : Option BackfillSignalRef

/-- An occurrence the missing sessions began and ended. -/
structure PlannedSignal (F : Type) where
  observationDate : LocalDate
  price : F
  closeDate : Option LocalDate
  closeReason : MonitorTransitionReason

structure BackfillLevelWrite (F : Type) where
  levelId : String
  levelKind : MonitorLevelKind
  signalFingerprint : String
  hasTrigger : Bool
  strategyVersionId : String
  signals : List (PlannedSignal F)
  changes : List (BackfillChange F)

/-- Why a member's missing sessions could not be recorded as they are. -/
inductive CoverageConflict where
  | stateDiffers | recordedDecisionDiffers | occurrenceUnmatched | logicChanged
  deriving DecidableEq

inductive CoveragePlan (F : Type) where
  | planned (levels : List (BackfillLevelWrite F)) (sessions : ℕ)
  | deeperHistory
  | conflict (reason : CoverageConflict) (levelId : String) (session : Option LocalDate)
    (retryFrom : Option (WithBot LocalDate))

structure CoveragePlanInput (F : Type) where
  levels : List (MonitorStrategyLevel F)
  /-- The levels of one strategy version have ids of their own. -/
  levelIds_nodup : (levels.map MonitorStrategyLevel.id).Nodup
  strategyVersionId : String
  frame : EvaluationFrame F
  historyComplete : Bool
  /-- The first session the member's recorded evaluation must cover. -/
  start : LocalDate
  monitoredOn : LocalDate → Bool
  record : MemberRecord

/-! ### What is recorded -/

/-- A change's identity on a level: its session, where it went and why. -/
abbrev ChangeKey : Type := Option LocalDate × MonitorLifecycleState × MonitorTransitionReason

def RecordedTransition.key (row : RecordedTransition) : ChangeKey :=
  (row.observationDate, row.toState, row.reason)

def LevelChange.key (change : LevelChange F) : ChangeKey :=
  (change.transition.observationDate, change.transition.toState, change.transition.reason)

/-- Both mean nothing is current: a reconstruction stores a level at rest as `INACTIVE`. -/
def resting (state : MonitorLifecycleState) : MonitorLifecycleState :=
  if state = .resolved then .inactive else state

def sameRestingLifecycle (left right : MonitorLevelLifecycle) : Bool :=
  if resting left.state ≠ resting right.state ∨ left.since ≠ right.since then false
  else if left.rules.size ≠ right.rules.size then false
  else left.rules.entries.all fun (key, a) =>
    (right.rules.get? key).any fun b =>
      decide (resting a.state = resting b.state ∧ a.since = b.since ∧ a.triggerDate = b.triggerDate)

/-- What is recorded for a level under its very logic, by any binding or membership. -/
def recordedOf (levelId fingerprint : String) (transitions : List RecordedTransition) :
    List RecordedTransition :=
  transitions.filter fun row => row.levelId = levelId ∧ row.signalFingerprint = fingerprint
    ∧ row.origin ≠ .administrative ∧ row.observationDate.isSome

/-- The decisions among them. -/
def decidedOf (recorded : List RecordedTransition) : List RecordedTransition :=
  recorded.filter fun row => row.reason ≠ .reconstructed

/-! ### Occurrences -/

/-- How an occurrence ends. -/
inductive Fate where
  | stillOpen
  | ended (observationDate : Option LocalDate) (reason : MonitorTransitionReason)
  deriving DecidableEq

/-- How the occurrence a change opens ends, by the changes after it. -/
def fateOf (after : List (LevelChange F)) : Fate :=
  match after.find? fun change => change.transition.fromState = .active with
  | some ending => .ended ending.transition.observationDate
      ((ending.close.map OccurrenceClose.reason).getD ending.transition.reason)
  | none => .stillOpen

/-- What `reconcileLevel` reads of one level's record. -/
structure ReconcileInput where
  coverageStart : LocalDate
  recorded : List RecordedTransition
  /-- The level's recorded occurrences. -/
  signals : List RecordedSignal
  activeSignalId : Option String

namespace ReconcileInput

variable (input : ReconcileInput)

def decidedKeys : List ChangeKey := (decidedOf input.recorded).map RecordedTransition.key

/-- Nothing recorded decided the change. -/
def isNew (key : ChangeKey) : Bool := decide (key ∉ input.decidedKeys)

/-- A later occurrence of one id replaces an earlier in the map. -/
def signalOf (id : String) : Option RecordedSignal :=
  input.signals.reverse.find? fun signal => signal.id = id

/-- Whether a recorded occurrence ended, or not, exactly as the canonical one did. -/
def compatible (signal : RecordedSignal) : Fate → Bool
  | .stillOpen => !signal.resolved && decide (some signal.id = input.activeSignalId)
  | .ended date reason => signal.resolved && decide (signal.resolvedObservationDate = date)
      && decide (signal.resolutionReason = some reason)

/-- The most recently recorded occurrence entered on a date that can be this one. -/
def recordedOccurrence (date : Option LocalDate) (fate : Fate) : Option String :=
  input.recorded.reverse.findSome? fun row =>
    if row.toState = .active ∧ row.observationDate = date then
      (row.signalId.bind input.signalOf).bind fun signal =>
        if input.compatible signal fate then some signal.id else none
    else none

/-- The change is of a session already recorded. -/
def reaches (date : Option LocalDate) : Bool :=
  date.any fun date => decide (input.coverageStart ≤ date)

/-- A new occurrence, for one that began and ended inside the missing sessions. -/
def plannedOccurrence (opening : LevelChange F) : Fate → Option (PlannedSignal F)
  | .stillOpen => none
  | .ended date reason =>
    if input.reaches date then none
    else opening.opens.map fun opens => ⟨opens.observationDate, opens.price, date, reason⟩

end ReconcileInput

/-! ### One level -/

/-- What has been planned of a level so far, and the occurrence current there. -/
structure Reconciled (F : Type) where
  changes : List (BackfillChange F)
  signals : List (PlannedSignal F)
  current : Option BackfillSignalRef

def toChange (change : LevelChange F) (signal : Option BackfillSignalRef) : BackfillChange F where
  fromState := change.transition.fromState
  toState := change.transition.toState
  reason := change.transition.reason
  exitRuleId := change.transition.exitRuleId
  observationDate := change.transition.observationDate
  evidence := change.evidence
  signal

namespace Reconciled

def record (state : Reconciled F) (change : LevelChange F) (signal : Option BackfillSignalRef) :
    Reconciled F :=
  { state with changes := state.changes ++ [toChange change signal] }

/-- The occurrence current from a change on. -/
def entering (state : Reconciled F) (reference : BackfillSignalRef) : Reconciled F :=
  { state with current := some reference }

/-- Adds an occurrence, current from its opening change on. -/
def plan (state : Reconciled F) (opening : LevelChange F) (signal : PlannedSignal F) :
    Reconciled F where
  changes := state.changes ++ [toChange opening (some (.planned state.signals.length))]
  signals := state.signals ++ [signal]
  current := some (.planned state.signals.length)

end Reconciled

namespace ReconcileInput

variable (input : ReconcileInput)

/-- The state the window started from, on its occurrence. An error is the session of a conflict. -/
def anchorLevel (anchor : Option (LevelChange F)) (stepped : List (LevelChange F)) :
    Except (Option LocalDate) (Reconciled F) :=
  let nothing : Reconciled F := ⟨[], [], none⟩
  match anchor with
  | none => .ok nothing
  | some anchor =>
    let since := anchor.transition.observationDate
    if anchor.transition.toState = .active then
      let fate := fateOf stepped
      match input.recordedOccurrence since fate with
      | some id => .ok (nothing.entering (.existing id))
      | none =>
        match input.plannedOccurrence anchor fate with
        | some signal => .ok (nothing.plan anchor signal)
        | none => .error since
    else if input.recorded.any fun row =>
        decide (row.toState = anchor.transition.toState ∧ row.observationDate = since) then
      .ok nothing
    else .ok (nothing.record anchor none)

/-- A change that leaves `ACTIVE` ends the current occurrence. -/
def closeCurrent (state : Reconciled F) (change : LevelChange F) (recorded : Bool) :
    Except (Option LocalDate) (Reconciled F) :=
  if change.transition.fromState = .active then
    match state.current with
    | none => .error change.transition.observationDate
    | some reference =>
      if !recorded then .ok { state.record change (some reference) with current := none }
      else
        match reference with
        -- the ending is recorded on another occurrence, the beginning nowhere
        | .planned _ => .error change.transition.observationDate
        | .existing _ => .ok { state with current := none }
  else .ok state

/-- A change that enters `ACTIVE` is on an occurrence; any other is recorded without. -/
def enterState (state : Reconciled F) (change : LevelChange F) (after : List (LevelChange F))
    (recorded : Bool) : Except (Option LocalDate) (Reconciled F) :=
  if change.transition.toState = .active then
    let date := change.transition.observationDate
    let fate := fateOf after
    match input.recordedOccurrence date fate with
    | some id =>
      let entered := state.entering (.existing id)
      .ok (if !recorded then entered.record change (some (.existing id)) else entered)
    | none =>
      -- the session's decision is recorded, on an occurrence that ended otherwise
      if recorded then .error date
      else
        match input.plannedOccurrence change fate with
        | some signal => .ok (state.plan change signal)
        | none => .error date
  else if change.transition.fromState ≠ .active ∧ recorded = false then
    .ok (state.record change none)
  else .ok state

/-- The changes before the recorded sessions, in order. -/
def reconcileFrom (state : Reconciled F) : List (LevelChange F) →
    Except (Option LocalDate) (Reconciled F)
  | [] => .ok state
  | change :: after =>
    if input.reaches change.transition.observationDate then .ok state
    else
      let recorded := decide (change.key ∈ input.decidedKeys)
      match closeCurrent state change recorded with
      | .error session => .error session
      | .ok closed =>
        match input.enterState closed change after recorded with
        | .error session => .error session
        | .ok entered => reconcileFrom entered after

/-- The changes one level's missing sessions add, each tied to its occurrence. -/
def reconcileLevel (anchor : Option (LevelChange F)) (stepped : List (LevelChange F)) :
    Except (Option LocalDate) (Reconciled F) :=
  match input.anchorLevel anchor stepped with
  | .error session => .error session
  | .ok anchored => input.reconcileFrom anchored stepped

end ReconcileInput

/-! ### The plan -/

/-- What a level adds to the plan of a member, or why there is none. -/
inductive LevelPlan (F : Type) where
  | deeperHistory
  | conflict (reason : CoverageConflict) (session : Option LocalDate)
  | retry (next : WithBot LocalDate)
  /-- `none` without a state, or without a change to record. -/
  | add (write : Option (BackfillLevelWrite F))

/-- The state a window started from, when something was current, and the changes since. -/
def anchorOf : List (LevelChange F) → Option (LevelChange F) × List (LevelChange F)
  | [] => (none, [])
  | first :: rest =>
    if first.transition.reason = .reconstructed then (some first, rest) else (none, first :: rest)

namespace CoveragePlanInput

variable (input : CoveragePlanInput F)

def coverageStart : LocalDate := input.record.checkpoint.coverageStart

def through : LocalDate := input.record.checkpoint.evaluatedThrough

/-- The sessions the member was monitored on, from the window's first through the checkpoint. -/
def sessions : List input.frame.Session :=
  input.frame.period.filter fun session =>
    input.start ≤ input.frame.dateOf session ∧ input.frame.dateOf session ≤ input.through
      ∧ input.monitoredOn (input.frame.dateOf session) = true

def missing : List input.frame.Session :=
  input.sessions.filter fun session => input.frame.dateOf session < input.coverageStart

/-- Decided now, for sessions nobody was watching for this member: history. -/
def decisionInput (level : MonitorStrategyLevel F) : SessionDecisionInput F where
  level
  strategyVersionId := input.strategyVersionId
  previous := none
  frame := input.frame
  sessions := input.sessions
  historyComplete := input.historyComplete
  originOf _ := .history
  monitoredOn := input.monitoredOn
  replay := true

def recordedFor (level : MonitorStrategyLevel F) : List RecordedTransition :=
  recordedOf level.id level.fingerprint input.record.transitions

def reconcileInput (level : MonitorStrategyLevel F) (persisted : PersistedSignalState) :
    ReconcileInput where
  coverageStart := input.coverageStart
  recorded := input.recordedFor level
  signals := input.record.signals.filter fun signal => signal.levelId = level.id
  activeSignalId := persisted.activeSignalId

variable [JsNumber F]

/-- The recorded decisions of the window's sessions that are not canonical. -/
def divergent (level : MonitorStrategyLevel F) (stepped : List (LevelChange F)) :
    List RecordedTransition :=
  (decidedOf (input.recordedFor level)).filter fun row =>
    row.observationDate.any (fun date => decide (input.start ≤ date ∧ date ≤ input.through))
      ∧ row.key ∉ stepped.map LevelChange.key

/-- One level with a state under its logic, against the canonical changes of the window. -/
def planState (level : MonitorStrategyLevel F) (persisted : PersistedSignalState)
    (anchor : Option (LevelChange F)) (stepped : List (LevelChange F)) : LevelPlan F :=
  let reconcile := input.reconcileInput level persisted
  -- every change of a session already recorded must be recorded
  match stepped.find? fun change => reconcile.reaches change.transition.observationDate
      && reconcile.isNew change.key with
  | some unrecorded =>
    .conflict .recordedDecisionDiffers unrecorded.transition.observationDate
  | none =>
    -- and every decision recorded for the sessions in question must be canonical
    let divergent := input.divergent level stepped
    match divergent.find? fun row => reconcile.reaches row.observationDate with
    | some row => .conflict .recordedDecisionDiffers row.observationDate
    | none =>
      match (divergent.filterMap RecordedTransition.observationDate).max? with
      -- recording may still start after the newest of them
      | some newest => .retry (nextCalendarDay newest)
      | none =>
        match reconcile.reconcileLevel anchor stepped with
        | .error session => .conflict .occurrenceUnmatched session
        | .ok planned =>
          if planned.changes.isEmpty then .add none
          else .add (some
            { levelId := level.id
              levelKind := level.kind
              signalFingerprint := level.fingerprint
              hasTrigger := level.hasTrigger
              strategyVersionId := input.strategyVersionId
              signals := planned.signals
              changes := planned.changes })

def planLevel (level : MonitorStrategyLevel F) : LevelPlan F :=
  let state := input.record.states.get? level.id
  if state.any fun persisted => decide (persisted.signalFingerprint ≠ level.fingerprint) then
    .conflict .logicChanged none
  else
    let decision := decideLevelSessions (input.decisionInput level)
    if decision.needsDeeperHistory then .deeperHistory
    else
      let changes := decision.write.elim [] (·.changes)
      match state with
      | none => if changes.isEmpty then .add none else .conflict .stateDiffers none
      | some persisted =>
        -- the canonical history must end exactly where the member is
        if (decision.write.bind (·.lifecycle)).any fun lifecycle =>
            sameRestingLifecycle lifecycle persisted.lifecycle then
          input.planState level persisted (anchorOf changes).1 (anchorOf changes).2
        else .conflict .stateDiffers none

/-- The levels in turn, with what is planned and the latest retry so far. -/
def planLevels (planned : List (BackfillLevelWrite F))
    (retry : Option (WithBot LocalDate × String)) :
    List (MonitorStrategyLevel F) → CoveragePlan F
  | [] =>
    match retry with
    | none => .planned planned input.missing.length
    | some (next, levelId) => .conflict .recordedDecisionDiffers levelId none (some next)
  | level :: rest =>
    match input.planLevel level with
    | .deeperHistory => .deeperHistory
    | .conflict reason session => .conflict reason level.id session none
    | .retry next =>
      let later := retry.all fun found => decide (found.1 < next)
      planLevels planned (if later then some (next, level.id) else retry) rest
    | .add write => planLevels (planned ++ write.toList) retry rest

end CoveragePlanInput

variable [JsNumber F]

/-- Which of a member's window sessions were never evaluated, and what recording them adds. -/
def planCoverageBackfill (input : CoveragePlanInput F) : CoveragePlan F :=
  -- no session the security printed lies in between: the window is covered already
  if input.missing.isEmpty then .planned [] 0 else input.planLevels [] none input.levels

/-- The start a plan may be retried from. -/
def CoveragePlan.retryFrom : CoveragePlan F → Option LocalDate
  | .conflict _ _ _ (some next) => next
  | _ => none

def maxBackfillAttempts : ℕ := 4

/-- A member's plan from its window's first session or, past recorded decisions that disagree, from
the day after the newest of them; and the session it starts from. -/
def planBackfill : ℕ → CoveragePlanInput F → CoveragePlan F × LocalDate
  | 0, input => (planCoverageBackfill input, input.start)
  | attempts + 1, input =>
    match (planCoverageBackfill input).retryFrom with
    | some next =>
      if input.start < next ∧ next < input.coverageStart then
        planBackfill attempts { input with start := next }
      else (planCoverageBackfill input, input.start)
    | none => (planCoverageBackfill input, input.start)

/-! ### Writing it -/

omit [JsNumber F]

/-- A member's missing window sessions, to record behind what the plan was read from. -/
structure CoverageBackfillWrite (F : Type) where
  evaluatedThrough : LocalDate
  expectedStart : LocalDate
  /-- The states the plan was read from, with their versions. -/
  states : List (String × ℕ)
  coverageStart : LocalDate
  coverageBlockedFrom : Option LocalDate
  levels : List (BackfillLevelWrite F)

/-- The write of a plan that starts from a session on or after the one its window requires. -/
def CoveragePlanInput.backfillWrite (input : CoveragePlanInput F)
    (levels : List (BackfillLevelWrite F)) (start : LocalDate) : CoverageBackfillWrite F where
  evaluatedThrough := input.record.checkpoint.evaluatedThrough
  expectedStart := input.record.checkpoint.coverageStart
  states := input.record.states.values.map fun state => (state.id, state.stateVersion)
  coverageStart := start
  coverageBlockedFrom := if input.start < start then some input.start else none
  levels

namespace BackfillLevelWrite

variable (created : ℕ → String) (level : BackfillLevelWrite F)

/-- An occurrence recorded already ended, under the id the store gave it. -/
def signalRow (index : ℕ) (signal : PlannedSignal F) : RecordedSignal where
  id := created index
  levelId := level.levelId
  signalFingerprint := some level.signalFingerprint
  observationDate := signal.observationDate
  resolved := true
  resolvedObservationDate := signal.closeDate
  resolutionReason := some signal.closeReason

/-- Decided now, for a session nobody was watching for it: history, always. -/
def transitionRow (change : BackfillChange F) : RecordedTransition where
  levelId := level.levelId
  signalFingerprint := level.signalFingerprint
  fromState := change.fromState
  toState := change.toState
  reason := change.reason
  origin := .history
  observationDate := change.observationDate
  signalId := change.signal.map fun
    | .existing id => id
    | .planned index => created index

end BackfillLevelWrite

/-- The states are those the plan was read from. -/
def statesUnchanged (expected : List (String × ℕ)) (states : List PersistedSignalState) : Bool :=
  let byId := OrderedMap.ofList expected
  decide (states.length = byId.size)
    && states.all fun state => decide (byId.get? state.id = some state.stateVersion)

/-- Appends what a plan adds, in one transaction: nothing when the binding, the checkpoint or a
state has changed since it was read. `created level index` is the id of a new occurrence. -/
def applyCoverageBackfill (bound : Bool) (created : String → ℕ → String)
    (write : CoverageBackfillWrite F) (record : MemberRecord) : Option MemberRecord :=
  if bound = false then none
  else if record.checkpoint.evaluatedThrough ≠ write.evaluatedThrough
      ∨ record.checkpoint.coverageStart ≠ write.expectedStart then none
  else if statesUnchanged write.states record.states.values then
    some
      { record with
        checkpoint := { record.checkpoint with
          coverageStart := write.coverageStart
          coverageBlockedFrom := write.coverageBlockedFrom }
        transitions := record.transitions ++ write.levels.flatMap fun level =>
          level.changes.map (level.transitionRow (created level.levelId))
        signals := record.signals ++ write.levels.flatMap fun level =>
          level.signals.mapIdx (level.signalRow (created level.levelId)) }
  else none

end FactorSage

/-! ## What a back-fill adds to one level -/

namespace FactorSage

open TransitionLog

variable {F : Type}

/-! ### A chain of changes -/

/-- The changes lead on from one state. -/
abbrev Chained (start : MonitorLifecycleState) (changes : List (LevelChange F)) : Prop :=
  ∃ finish, Linked (fun change : LevelChange F => change.transition.fromState)
    (fun change => change.transition.toState) start changes finish

section Chain

variable {start : MonitorLifecycleState} {change : LevelChange F} {rest : List (LevelChange F)}

theorem Chained.from_eq (h : Chained start (change :: rest)) :
    change.transition.fromState = start := by
  obtain ⟨_, hlinked⟩ := h
  exact hlinked.1

theorem Chained.ne (h : Chained start (change :: rest)) :
    change.transition.fromState ≠ change.transition.toState := by
  obtain ⟨_, hlinked⟩ := h
  exact hlinked.2.1

theorem Chained.tail (h : Chained start (change :: rest)) :
    Chained change.transition.toState rest := by
  obtain ⟨finish, hlinked⟩ := h
  exact ⟨finish, hlinked.2.2⟩

/-- What leads on from an active level ends with its next change. -/
theorem fateOf_of_chained {after : List (LevelChange F)} (h : Chained .active after) :
    fateOf after = .stillOpen ∧ after = []
      ∨ ∃ ending rest, after = ending :: rest ∧ ending.transition.fromState = .active
        ∧ fateOf after = .ended ending.transition.observationDate
          ((ending.close.map OccurrenceClose.reason).getD ending.transition.reason) := by
  cases after with
  | nil => exact .inl ⟨rfl, rfl⟩
  | cons ending rest =>
    have hfrom : ending.transition.fromState = .active := h.from_eq
    have hfound : (ending :: rest).find?
        (fun change => decide (change.transition.fromState = .active)) = some ending :=
      List.find?_cons_of_pos (decide_eq_true hfrom)
    refine .inr ⟨ending, rest, rfl, hfrom, ?_⟩
    unfold fateOf
    rw [hfound]

end Chain

/-! ### The changes planned -/

namespace ReconcileInput

variable {input : ReconcileInput}

/-- The canonical changes of the missing sessions that nothing recorded. -/
def unrecorded (input : ReconcileInput) (stepped : List (LevelChange F)) : List (LevelChange F) :=
  (stepped.takeWhile fun change => !input.reaches change.transition.observationDate).filter
    fun change => input.isNew change.key

theorem unrecorded_cons {change : LevelChange F} {after : List (LevelChange F)}
    (h : input.reaches change.transition.observationDate = false) :
    input.unrecorded (change :: after)
      = if change.key ∈ input.decidedKeys then input.unrecorded after
        else change :: input.unrecorded after := by
  unfold unrecorded
  rw [List.takeWhile_cons_of_pos (by simp [h]), List.filter_cons]
  by_cases hrecorded : change.key ∈ input.decidedKeys
  · rw [if_pos hrecorded, if_neg (by simp [isNew, hrecorded])]
  · rw [if_neg hrecorded, if_pos (by simp [isNew, hrecorded])]

/-- A planned change, but for which occurrence it is on: it is on one just where it enters or leaves
`ACTIVE`. -/
def IsPlanned (change : LevelChange F) (planned : BackfillChange F) : Prop :=
  ∃ signal, planned = toChange change signal ∧ (signal.isSome = true ↔
    change.transition.fromState = .active ∨ change.transition.toState = .active)

theorem exists_isPlanned {changes : List (LevelChange F)} {added : List (BackfillChange F)}
    (h : List.Forall₂ IsPlanned changes added) {planned : BackfillChange F}
    (hplanned : planned ∈ added) : ∃ change ∈ changes, IsPlanned change planned := by
  induction h with
  | nil => cases hplanned
  | @cons change _ _ _ hchange _ ih =>
    rcases List.mem_cons.mp hplanned with rfl | hplanned
    · exact ⟨change, List.mem_cons_self, hchange⟩
    · obtain ⟨other, hother, hmatches⟩ := ih hplanned
      exact ⟨other, List.mem_cons_of_mem _ hother, hmatches⟩

theorem closeCurrent_changes {state closed : Reconciled F} {change : LevelChange F}
    {recorded : Bool} (h : closeCurrent state change recorded = .ok closed) :
    closed.signals = state.signals ∧
      (if change.transition.fromState = .active ∧ recorded = false then
        ∃ reference, closed.changes = state.changes ++ [toChange change (some reference)]
      else closed.changes = state.changes) := by
  unfold closeCurrent at h
  split at h
  · next hfrom =>
    split at h
    · cases h
    · next reference _ =>
      cases recorded with
      | false =>
        obtain rfl := Except.ok.inj h
        exact ⟨rfl, by rw [if_pos ⟨hfrom, rfl⟩]; exact ⟨reference, rfl⟩⟩
      | true =>
        cases reference with
        | planned _ => cases h
        | existing _ =>
          obtain rfl := Except.ok.inj h
          exact ⟨rfl, by rw [if_neg (by simp)]⟩
  · next hfrom =>
    obtain rfl := Except.ok.inj h
    exact ⟨rfl, by rw [if_neg fun h => hfrom h.1]⟩

theorem enterState_changes {state entered : Reconciled F} {change : LevelChange F}
    {after : List (LevelChange F)} {recorded : Bool}
    (h : input.enterState state change after recorded = .ok entered) :
    if (change.transition.toState = .active ∨ change.transition.fromState ≠ .active)
        ∧ recorded = false then
      ∃ signal, entered.changes = state.changes ++ [toChange change signal]
        ∧ (signal.isSome = true ↔ change.transition.toState = .active)
    else entered.changes = state.changes := by
  unfold enterState at h
  split at h
  · next hto =>
    dsimp only at h
    split at h
    · next id _ =>
      obtain rfl := Except.ok.inj h
      cases recorded with
      | false =>
        rw [if_pos ⟨.inl hto, rfl⟩]
        exact ⟨some (.existing id), rfl, fun _ => hto, fun _ => rfl⟩
      | true => exact (if_neg (by simp)).mpr rfl
    · split at h
      · cases h
      · next hrecorded =>
        split at h
        · obtain rfl := Except.ok.inj h
          rw [if_pos ⟨.inl hto, Bool.eq_false_iff.mpr hrecorded⟩]
          exact ⟨_, rfl, fun _ => hto, fun _ => rfl⟩
        · cases h
  · next hto =>
    split at h
    · next hmoved =>
      obtain rfl := Except.ok.inj h
      rw [if_pos ⟨.inr hmoved.1, hmoved.2⟩]
      exact ⟨none, rfl, by simp [hto]⟩
    · next hstays =>
      obtain rfl := Except.ok.inj h
      rw [if_neg]
      rintro ⟨hto' | hfrom, hrecorded⟩
      · exact hto hto'
      · exact hstays ⟨hfrom, hrecorded⟩

/-- **The missing changes are planned once each**, in their order. -/
theorem reconcileFrom_changes {start : MonitorLifecycleState} {stepped : List (LevelChange F)}
    (hchain : Chained start stepped) {state planned : Reconciled F}
    (h : input.reconcileFrom state stepped = .ok planned) :
    ∃ added, planned.changes = state.changes ++ added
      ∧ List.Forall₂ IsPlanned (input.unrecorded stepped) added := by
  induction stepped generalizing start state with
  | nil =>
    obtain rfl := Except.ok.inj h
    exact ⟨[], (List.append_nil _).symm, .nil⟩
  | cons change after ih =>
    unfold reconcileFrom at h
    split at h
    · next hreaches =>
      obtain rfl := Except.ok.inj h
      refine ⟨[], (List.append_nil _).symm, ?_⟩
      unfold unrecorded
      rw [List.takeWhile_cons_of_neg (by simp [hreaches])]
      exact .nil
    · next hmissing =>
      dsimp only at h
      split at h
      · cases h
      · next closed hclosed =>
        split at h
        · cases h
        · next entered hentered =>
          obtain ⟨added, hadded, hplanned⟩ := ih hchain.tail h
          obtain ⟨-, hclosing⟩ := closeCurrent_changes hclosed
          have hentering := enterState_changes hentered
          rw [unrecorded_cons (Bool.eq_false_iff.mpr hmissing), hadded]
          by_cases hrecorded : change.key ∈ input.decidedKeys
          · -- nothing of a recorded change is recorded again
            rw [if_neg (by simp [hrecorded])] at hclosing hentering
            rw [if_pos hrecorded, hentering, hclosing]
            exact ⟨added, rfl, hplanned⟩
          · rw [if_neg hrecorded]
            have hnew : decide (change.key ∈ input.decidedKeys) = false := decide_eq_false hrecorded
            rw [hnew] at hclosing hentering
            by_cases hfrom : change.transition.fromState = .active
            · -- a change that ends an occurrence begins none
              have hto : change.transition.toState ≠ .active := fun h =>
                hchain.ne (hfrom.trans h.symm)
              rw [if_pos ⟨hfrom, rfl⟩] at hclosing
              rw [if_neg (by simp [hto, hfrom])] at hentering
              obtain ⟨reference, hclosing⟩ := hclosing
              refine ⟨toChange change (some reference) :: added, ?_,
                .cons ⟨some reference, rfl, fun _ => .inl hfrom, fun _ => rfl⟩ hplanned⟩
              rw [hentering, hclosing, List.append_assoc]
              rfl
            · rw [if_neg fun h => hfrom h.1] at hclosing
              rw [if_pos ⟨.inr hfrom, rfl⟩] at hentering
              obtain ⟨signal, hentering, hoccurrence⟩ := hentering
              refine ⟨toChange change signal :: added, ?_,
                .cons ⟨signal, rfl, hoccurrence.trans (or_iff_right hfrom).symm⟩ hplanned⟩
              rw [hentering, hclosing, List.append_assoc]
              rfl

/-- The anchor is planned at most once. -/
theorem anchorLevel_changes {anchor : Option (LevelChange F)} {stepped : List (LevelChange F)}
    {anchored : Reconciled F} (h : input.anchorLevel anchor stepped = .ok anchored) :
    anchored.changes = [] ∨ ∃ first ∈ anchor, ∃ signal, anchored.changes = [toChange first signal]
      ∧ (signal.isSome = true ↔ first.transition.toState = .active) := by
  unfold anchorLevel at h
  dsimp only at h
  split at h
  · obtain rfl := Except.ok.inj h
    exact .inl rfl
  · next first =>
    split at h
    · next hto =>
      split at h
      · obtain rfl := Except.ok.inj h
        exact .inl rfl
      · split at h
        · obtain rfl := Except.ok.inj h
          exact .inr ⟨first, rfl, _, rfl, fun _ => hto, fun _ => rfl⟩
        · cases h
    · next hto =>
      split at h
      · obtain rfl := Except.ok.inj h
        exact .inl rfl
      · obtain rfl := Except.ok.inj h
        exact .inr ⟨first, rfl, none, rfl, by simp [hto]⟩

end ReconcileInput

/-! ### The occurrences of the changes planned -/

def PlannedSignal.BeginsWith (signal : PlannedSignal F) (change : BackfillChange F) : Prop :=
  change.toState = .active ∧ change.observationDate = some signal.observationDate

def PlannedSignal.EndsWith (signal : PlannedSignal F) (change : BackfillChange F) : Prop :=
  change.fromState = .active ∧ change.observationDate = signal.closeDate

/-- The changes planned on one occurrence. -/
def changesOn (reference : BackfillSignalRef) (changes : List (BackfillChange F)) :
    List (BackfillChange F) :=
  changes.filter fun change => change.signal = some reference

theorem changesOn_append (reference : BackfillSignalRef) (changes later : List (BackfillChange F)) :
    changesOn reference (changes ++ later) = changesOn reference changes ++ changesOn reference later :=
  List.filter_append ..

theorem changesOn_toChange_self (reference : BackfillSignalRef) (change : LevelChange F) :
    changesOn reference [toChange change (some reference)] = [toChange change (some reference)] :=
  List.filter_cons_of_pos (decide_eq_true rfl)

theorem changesOn_toChange_ne {reference : BackfillSignalRef} {signal : Option BackfillSignalRef}
    (change : LevelChange F) (h : signal ≠ some reference) :
    changesOn reference [toChange change signal] = [] :=
  List.filter_cons_of_neg (mt of_decide_eq_true h)

/-- A change on a recorded occurrence: one that ends it is of the session it ended on. -/
def OnRecorded (input : ReconcileInput) (change : BackfillChange F) (id : String) : Prop :=
  ∃ signal ∈ input.signals, signal.id = id
    ∧ (change.fromState = .active →
      signal.resolved = true ∧ signal.resolvedObservationDate = change.observationDate)

/-- What has been planned up to a state, with some changes of the canonical history to come. -/
structure Reconciles (input : ReconcileInput) (state : Reconciled F)
    (start : MonitorLifecycleState) (rest : List (LevelChange F)) : Prop where
  active : state.current.isSome = true → start = .active
  known : ∀ change ∈ state.changes, ∀ index, change.signal = some (.planned index) →
    index < state.signals.length
  /-- A planned occurrence is current, with its opening, or has both its changes. -/
  occurrences : ∀ index signal, state.signals[index]? = some signal →
    ∃ opening, signal.BeginsWith opening
      ∧ (state.current = some (.planned index)
          ∧ changesOn (.planned index) state.changes = [opening]
        ∨ state.current ≠ some (.planned index) ∧ ∃ ending, signal.EndsWith ending
          ∧ changesOn (.planned index) state.changes = [opening, ending])
  /-- The change that ends the planned occurrence current comes next. -/
  awaits : ∀ index, state.current = some (.planned index) →
    ∃ signal ending after, state.signals[index]? = some signal ∧ rest = ending :: after
      ∧ ending.transition.observationDate = signal.closeDate
  reuses : ∀ id, state.current = some (.existing id) →
    ∃ signal ∈ input.signals, signal.id = id ∧ input.compatible signal (fateOf rest) = true
  recorded : ∀ change ∈ state.changes, ∀ id, change.signal = some (.existing id) →
    OnRecorded input change id
  /-- No planned occurrence reaches the recorded sessions. -/
  inside : ∀ signal ∈ state.signals, input.reaches signal.closeDate = false

section Occurrences

variable {input : ReconcileInput} {state : Reconciled F} {start : MonitorLifecycleState}
  {change : LevelChange F} {after : List (LevelChange F)}

theorem ReconcileInput.plannedOccurrence_eq_some {opening : LevelChange F} {fate : Fate}
    {signal : PlannedSignal F} (h : input.plannedOccurrence opening fate = some signal) :
    ∃ date reason, ∃ opens ∈ opening.opens, fate = .ended date reason
      ∧ input.reaches date = false ∧ signal.observationDate = opens.observationDate
      ∧ signal.closeDate = date := by
  unfold plannedOccurrence at h
  split at h
  · cases h
  · next date reason =>
    split at h
    · cases h
    · next hmissing =>
      obtain ⟨opens, hopens, rfl⟩ := Option.map_eq_some_iff.mp h
      exact ⟨date, reason, opens, hopens, rfl, Bool.eq_false_iff.mpr hmissing, rfl, rfl⟩

theorem ReconcileInput.recordedOccurrence_eq_some {date : Option LocalDate} {fate : Fate}
    {id : String} (h : input.recordedOccurrence date fate = some id) :
    ∃ signal ∈ input.signals, signal.id = id ∧ input.compatible signal fate = true := by
  unfold recordedOccurrence at h
  obtain ⟨row, -, hrow⟩ := List.exists_of_findSome?_eq_some h
  split at hrow
  · obtain ⟨signal, hsignal, hcompatible⟩ := Option.bind_eq_some_iff.mp hrow
    obtain ⟨other, -, hfound⟩ := Option.bind_eq_some_iff.mp hsignal
    split at hcompatible
    · next hfits =>
      have hmem := List.mem_of_find?_eq_some hfound
      exact ⟨signal, List.mem_reverse.mp hmem, Option.some.inj hcompatible, hfits⟩
    · cases hcompatible
  · cases hrow

/-- Nothing is planned on an occurrence not planned yet. -/
theorem Reconciles.changesOn_length (h : Reconciles input state start after) :
    changesOn (.planned state.signals.length) state.changes = [] := by
  refine List.filter_eq_nil_iff.mpr fun planned hmem hsignal => ?_
  exact absurd (h.known planned hmem _ (of_decide_eq_true hsignal)) (lt_irrefl _)

variable {next : MonitorLifecycleState}

/-- Where no planned occurrence is current, changes on no planned occurrence keep what is planned. -/
theorem Reconciles.extend (h : Reconciles input state start after)
    (hcurrent : ∀ index, state.current ≠ some (.planned index)) {added : List (BackfillChange F)}
    (hadded : ∀ planned ∈ added, (∀ index, planned.signal ≠ some (.planned index))
      ∧ ∀ id, planned.signal = some (.existing id) → OnRecorded input planned id)
    {rest : List (LevelChange F)}
    {current : Option BackfillSignalRef} (hactive : current.isSome = true → next = .active)
    (hreuses : ∀ reference, current = some reference → ∃ id, reference = .existing id
      ∧ ∃ found ∈ input.signals, found.id = id ∧ input.compatible found (fateOf rest) = true) :
    Reconciles input ⟨state.changes ++ added, state.signals, current⟩ next rest where
  active := hactive
  known planned hmem index hindex := by
    rcases List.mem_append.mp hmem with hmem | hmem
    · exact h.known planned hmem index hindex
    · exact absurd hindex ((hadded planned hmem).1 index)
  occurrences index found hfound := by
    obtain ⟨opening, hbegins, hopen | ⟨-, ending, hends, hchanges⟩⟩ :=
      h.occurrences index found hfound
    · exact absurd hopen.1 (hcurrent index)
    · refine ⟨opening, hbegins, .inr ⟨?_, ending, hends, ?_⟩⟩
      · intro hplanned
        obtain ⟨id, hid, -⟩ := hreuses _ hplanned
        cases hid
      · have hnone : changesOn (.planned index) added = [] := by
          refine List.filter_eq_nil_iff.mpr fun planned hmem hsignal => ?_
          exact (hadded planned hmem).1 index (of_decide_eq_true hsignal)
        show changesOn _ (state.changes ++ added) = _
        rw [changesOn_append, hnone, hchanges]
        rfl
  awaits index hplanned := by
    obtain ⟨id, hid, -⟩ := hreuses _ hplanned
    cases hid
  reuses id hexisting := by
    obtain ⟨other, hother, hfound⟩ := hreuses _ hexisting
    cases hother
    exact hfound
  recorded planned hmem id hid := by
    rcases List.mem_append.mp hmem with hmem | hmem
    · exact h.recorded planned hmem id hid
    · exact (hadded planned hmem).2 id hid
  inside := h.inside

/-- So does a change that is recorded already. -/
theorem Reconciles.moves (h : Reconciles input state start after)
    (hcurrent : ∀ index, state.current ≠ some (.planned index))
    {rest : List (LevelChange F)} {current : Option BackfillSignalRef}
    (hactive : current.isSome = true → next = .active)
    (hreuses : ∀ reference, current = some reference → ∃ id, reference = .existing id
      ∧ ∃ found ∈ input.signals, found.id = id ∧ input.compatible found (fateOf rest) = true) :
    Reconciles input { state with current } next rest := by
  have hnone : ∀ planned ∈ ([] : List (BackfillChange F)),
      (∀ index, planned.signal ≠ some (.planned index))
        ∧ ∀ id, planned.signal = some (.existing id) → OnRecorded input planned id :=
    fun _ hmem => (List.not_mem_nil hmem).elim
  have hextended := h.extend hcurrent hnone hactive hreuses
  rw [List.append_nil] at hextended
  exact hextended

/-- A planned occurrence is current from its opening on, and its ending comes next. -/
theorem Reconciles.plan (h : Reconciles input state start (change :: after))
    (hcurrent : state.current = none) (hto : change.transition.toState = .active)
    (hchain : Chained .active after)
    (hopens : ∀ opening ∈ change.opens, change.date = some opening.observationDate)
    {signal : PlannedSignal F} (hplanned : input.plannedOccurrence change (fateOf after) = some signal) :
    Reconciles input (state.plan change signal) .active after := by
  obtain ⟨date, reason, opens, hmem, hfate, hinside, hobserved, hclose⟩ :=
    ReconcileInput.plannedOccurrence_eq_some hplanned
  -- the change that ends the occurrence is known: it is the next that leaves ACTIVE
  obtain ⟨hstill, -⟩ | ⟨ending, rest, hafter, hfrom, hended⟩ := fateOf_of_chained hchain
  · rw [hfate] at hstill
    cases hstill
  have hlast : (state.signals ++ [signal])[state.signals.length]? = some signal :=
    List.getElem?_concat_length
  refine ⟨fun _ => rfl, ?_, ?_, ?_, ?_, ?_, ?_⟩
  · intro planned hmem index hindex
    show index < (state.signals ++ [signal]).length
    rw [List.length_append]
    rcases List.mem_append.mp hmem with hmem | hmem
    · exact (h.known planned hmem index hindex).trans (Nat.lt_succ_self _)
    · rw [List.mem_singleton.mp hmem] at hindex
      cases hindex
      exact Nat.lt_succ_self _
  · intro index found hfound
    change (state.signals ++ [signal])[index]? = some found at hfound
    by_cases hnew : index = state.signals.length
    · subst hnew
      rw [hlast] at hfound
      obtain rfl := Option.some.inj hfound
      refine ⟨toChange change (some (.planned state.signals.length)), ⟨hto, ?_⟩, .inl ⟨rfl, ?_⟩⟩
      · show change.transition.observationDate = _
        rw [hobserved]
        exact hopens opens hmem
      · show changesOn _ (state.changes ++ [toChange change _]) = _
        rw [changesOn_append, h.changesOn_length, changesOn_toChange_self]
        rfl
    · -- an occurrence planned before has been ended, for none is current
      have hold : state.signals[index]? = some found := by
        rw [List.getElem?_append] at hfound
        split at hfound
        · exact hfound
        · next hlarge =>
          have : index - state.signals.length ≠ 0 := by omega
          rw [List.getElem?_singleton, if_neg this] at hfound
          cases hfound
      obtain ⟨opening, hbegins, hopen | ⟨-, ending, hends, hchanges⟩⟩ := h.occurrences index found hold
      · rw [hcurrent] at hopen
        cases hopen.1
      · refine ⟨opening, hbegins, .inr ⟨?_, ending, hends, ?_⟩⟩
        · intro hsame
          cases hsame
          exact hnew rfl
        · show changesOn _ (state.changes ++ [toChange change _]) = _
          rw [changesOn_append, changesOn_toChange_ne, hchanges]
          · rfl
          · intro hsame
            cases hsame
            exact hnew rfl
  · intro index hindex
    cases hindex
    refine ⟨signal, ending, rest, hlast, hafter, ?_⟩
    rw [hclose]
    rw [hfate] at hended
    exact (Fate.ended.inj hended).1.symm
  · intro id hid
    cases hid
  · intro planned hmem id hid
    rcases List.mem_append.mp hmem with hmem | hmem
    · exact h.recorded planned hmem id hid
    · rw [List.mem_singleton.mp hmem] at hid
      cases hid
  · intro found hfound
    rcases List.mem_append.mp hfound with hfound | hfound
    · exact h.inside found hfound
    · rw [List.mem_singleton.mp hfound, hclose]
      exact hinside

/-- The change that ends a planned occurrence completes it. -/
theorem Reconciles.closePlanned (h : Reconciles input state start (change :: after)) {index : ℕ}
    (hcurrent : state.current = some (.planned index))
    (hfrom : change.transition.fromState = .active) :
    Reconciles input { state.record change (some (.planned index)) with current := none } next
      after := by
  -- the change the open occurrence waits for is this one
  obtain ⟨signal, ending, rest, hsignal, hrest, hdate⟩ := h.awaits index hcurrent
  obtain ⟨rfl, rfl⟩ := List.cons.inj hrest
  refine ⟨?_, ?_, ?_, ?_, ?_, ?_, h.inside⟩
  · intro hsome
    cases hsome
  · intro planned hmem other hother
    rcases List.mem_append.mp hmem with hmem | hmem
    · exact h.known planned hmem other hother
    · rw [List.mem_singleton.mp hmem] at hother
      cases hother
      exact (List.getElem?_eq_some_iff.mp hsignal).1
  · intro other found hfound
    obtain ⟨opening, hbegins, ⟨hopen, hchanges⟩ | ⟨hopen, ending, hends, hchanges⟩⟩ :=
      h.occurrences other found hfound
    · rw [hcurrent] at hopen
      cases hopen
      change state.signals[index]? = some found at hfound
      rw [hsignal] at hfound
      obtain rfl := Option.some.inj hfound
      refine ⟨opening, hbegins, .inr ⟨by simp, toChange change (some (.planned index)),
        ⟨hfrom, hdate⟩, ?_⟩⟩
      show changesOn _ (state.changes ++ [toChange change _]) = _
      rw [changesOn_append, hchanges, changesOn_toChange_self]
      rfl
    · refine ⟨opening, hbegins, .inr ⟨by simp, ending, hends, ?_⟩⟩
      show changesOn _ (state.changes ++ [toChange change _]) = _
      rw [changesOn_append, changesOn_toChange_ne, hchanges]
      · rfl
      · intro hsame
        rw [hcurrent] at hopen
        exact hopen hsame
  · intro other hother
    cases hother
  · intro id hid
    cases hid
  · intro planned hmem id hid
    rcases List.mem_append.mp hmem with hmem | hmem
    · exact h.recorded planned hmem id hid
    · rw [List.mem_singleton.mp hmem] at hid
      cases hid

end Occurrences

section Run

variable {input : ReconcileInput} {start : MonitorLifecycleState} {state : Reconciled F}
  {change : LevelChange F} {after : List (LevelChange F)} {recorded : Bool}

theorem ReconcileInput.compatible_ended {signal : RecordedSignal} {date : Option LocalDate}
    {reason : MonitorTransitionReason}
    (h : input.compatible signal (.ended date reason) = true) :
    signal.resolved = true ∧ signal.resolvedObservationDate = date := by
  unfold compatible at h
  simp only [Bool.and_eq_true, decide_eq_true_eq] at h
  exact h.1

/-- **A change that leaves `ACTIVE`** ends the occurrence current there. -/
theorem Reconciles.closeCurrent (h : Reconciles input state start (change :: after))
    (hchain : Chained start (change :: after)) {closed : Reconciled F}
    (hclosed : ReconcileInput.closeCurrent state change recorded = .ok closed)
    (hfrom : change.transition.fromState = .active) :
    closed.current = none ∧ Reconciles input closed change.transition.toState after := by
  unfold ReconcileInput.closeCurrent at hclosed
  rw [if_pos hfrom] at hclosed
  -- the change itself is the one that ends the current occurrence
  have hfate : fateOf (change :: after) = .ended change.transition.observationDate
      ((change.close.map OccurrenceClose.reason).getD change.transition.reason) := by
    have hactive : Chained .active (change :: after) := by
      rw [← hfrom, hchain.from_eq]
      exact hchain
    obtain ⟨-, hnil⟩ | ⟨ending, rest, heq, -, hended⟩ := fateOf_of_chained hactive
    · cases hnil
    · obtain ⟨rfl, -⟩ := List.cons.inj heq
      exact hended
  split at hclosed
  · cases hclosed
  · next reference hcurrent =>
    cases reference with
    | planned index =>
      cases recorded with
      | false =>
        obtain rfl := Except.ok.inj hclosed
        exact ⟨rfl, h.closePlanned hcurrent hfrom⟩
      | true => cases hclosed
    | existing id =>
      have hother : ∀ index, state.current ≠ some (.planned index) := by
        intro index hplanned
        rw [hcurrent] at hplanned
        cases hplanned
      obtain ⟨signal, hmem, hid, hcompatible⟩ := h.reuses id hcurrent
      rw [hfate] at hcompatible
      have honRecorded : OnRecorded input (toChange change (some (.existing id))) id :=
        ⟨signal, hmem, hid, fun _ => ReconcileInput.compatible_ended hcompatible⟩
      cases recorded with
      | false =>
        obtain rfl := Except.ok.inj hclosed
        refine ⟨rfl, h.extend hother (fun planned hplanned => ?_) (fun hsome => by cases hsome)
          fun reference hnone => by cases hnone⟩
        rw [List.mem_singleton.mp hplanned]
        constructor
        · intro index hindex
          cases hindex
        · intro other hother
          cases hother
          exact honRecorded
      | true =>
        obtain rfl := Except.ok.inj hclosed
        exact ⟨rfl, h.moves hother (fun hsome => by cases hsome) fun reference hnone => by
          cases hnone⟩

/-- **A change that does not leave `ACTIVE`** begins at most one occurrence. -/
theorem Reconciles.enterState (h : Reconciles input state start (change :: after))
    (hcurrent : state.current = none) (hfrom : change.transition.fromState ≠ .active)
    (hchain : Chained change.transition.toState after)
    (hopens : ∀ opening ∈ change.opens, change.date = some opening.observationDate)
    {entered : Reconciled F} (hentered : input.enterState state change after recorded = .ok entered) :
    Reconciles input entered change.transition.toState after := by
  -- nothing is current, so no planned occurrence is taken from
  have hother : ∀ index, state.current ≠ some (.planned index) := by
    intro index hplanned
    rw [hcurrent] at hplanned
    cases hplanned
  unfold ReconcileInput.enterState at hentered
  split at hentered
  · next hto =>
    dsimp only at hentered
    split at hentered
    · next id hfound =>
      obtain rfl := Except.ok.inj hentered
      -- a recorded occurrence of the same entry and fate is reused
      obtain ⟨signal, hmem, hid, hcompatible⟩ := ReconcileInput.recordedOccurrence_eq_some hfound
      have hreuses : ∀ reference, some (BackfillSignalRef.existing id) = some reference →
          ∃ other, reference = .existing other ∧ ∃ found ∈ input.signals,
            found.id = other ∧ input.compatible found (fateOf after) = true := by
        intro reference hreference
        obtain rfl := Option.some.inj hreference
        exact ⟨id, rfl, signal, hmem, hid, hcompatible⟩
      cases recorded with
      | false =>
        refine h.extend hother (fun planned hplanned => ?_) (fun _ => hto) hreuses
        rw [List.mem_singleton.mp hplanned]
        constructor
        · intro index hindex
          cases hindex
        · intro other hother
          cases hother
          exact ⟨signal, hmem, hid, fun hleaves => absurd hleaves hfrom⟩
      | true => exact h.moves hother (fun _ => hto) hreuses
    · split at hentered
      · cases hentered
      · split at hentered
        · next signal hsignal =>
          obtain rfl := Except.ok.inj hentered
          rw [hto] at hchain ⊢
          exact h.plan hcurrent hto hchain hopens hsignal
        · cases hentered
  · split at hentered
    · obtain rfl := Except.ok.inj hentered
      show Reconciles input ⟨state.changes ++ [toChange change none], state.signals, state.current⟩
        _ after
      rw [hcurrent]
      refine h.extend hother (fun planned hplanned => ?_) (fun hsome => by cases hsome)
        fun reference hnone => by cases hnone
      rw [List.mem_singleton.mp hplanned]
      constructor
      · intro index hindex
        cases hindex
      · intro id hid
        cases hid
    · obtain rfl := Except.ok.inj hentered
      have hmoves : Reconciles input { state with current := none } change.transition.toState after :=
        h.moves hother (fun hsome => by cases hsome) fun reference hnone => by cases hnone
      rw [← hcurrent] at hmoves
      exact hmoves

/-- **The occurrences of the missing changes.** -/
theorem reconciles_reconcileFrom {stepped : List (LevelChange F)}
    (h : Reconciles input state start stepped) (hchain : Chained start stepped)
    (hopens : ∀ change ∈ stepped, ∀ opening ∈ change.opens,
      change.date = some opening.observationDate) {planned : Reconciled F}
    (hplanned : input.reconcileFrom state stepped = .ok planned) :
    ∃ finish rest, Reconciles input planned finish rest
      ∧ ∀ index, planned.current ≠ some (.planned index) := by
  induction stepped generalizing start state with
  | nil =>
    obtain rfl := Except.ok.inj hplanned
    refine ⟨start, [], h, fun index hcurrent => ?_⟩
    obtain ⟨_, _, _, -, hrest, -⟩ := h.awaits index hcurrent
    cases hrest
  | cons change after ih =>
    unfold ReconcileInput.reconcileFrom at hplanned
    split at hplanned
    · next hreaches =>
      obtain rfl := Except.ok.inj hplanned
      refine ⟨start, change :: after, h, fun index hcurrent => ?_⟩
      -- the ending of the planned occurrence would be of a session already recorded
      obtain ⟨signal, ending, rest, hsignal, hrest, hdate⟩ := h.awaits index hcurrent
      obtain ⟨rfl, -⟩ := List.cons.inj hrest
      have hinside := h.inside signal (List.mem_of_getElem? hsignal)
      rw [← hdate, hreaches] at hinside
      cases hinside
    · dsimp only at hplanned
      split at hplanned
      · cases hplanned
      · next closed hclosed =>
        split at hplanned
        · cases hplanned
        · next entered hentered =>
          have hafter := fun other hother => hopens other (List.mem_cons_of_mem _ hother)
          refine ih ?_ hchain.tail hafter hplanned
          by_cases hfrom : change.transition.fromState = .active
          · obtain ⟨-, hkeeps⟩ := h.closeCurrent hchain hclosed hfrom
            have hto : change.transition.toState ≠ .active := fun hto =>
              hchain.ne (hfrom.trans hto.symm)
            unfold ReconcileInput.enterState at hentered
            rw [if_neg hto, if_neg (by simp [hfrom])] at hentered
            obtain rfl := Except.ok.inj hentered
            exact hkeeps
          · unfold ReconcileInput.closeCurrent at hclosed
            rw [if_neg hfrom] at hclosed
            obtain rfl := Except.ok.inj hclosed
            have hcurrent : state.current = none := by
              cases hcurrent : state.current with
              | none => rfl
              | some reference =>
                have hactive := h.active (by rw [hcurrent]; rfl)
                rw [← hchain.from_eq] at hactive
                exact absurd hactive hfrom
            exact h.enterState hcurrent hfrom hchain.tail
              (hopens change List.mem_cons_self) hentered

/-- Nothing is planned before the anchor. -/
theorem reconciles_nothing (start : MonitorLifecycleState) (rest : List (LevelChange F)) :
    Reconciles input (⟨[], [], none⟩ : Reconciled F) start rest := by
  refine ⟨fun hsome => ?_, fun _ hmem => ?_, fun index signal hsignal => ?_, fun index hindex => ?_,
    fun id hid => ?_, fun _ hmem => ?_, fun _ hmem => ?_⟩
  · cases hsome
  · exact (List.not_mem_nil hmem).elim
  · cases hsignal
  · cases hindex
  · cases hid
  · exact (List.not_mem_nil hmem).elim
  · exact (List.not_mem_nil hmem).elim

/-- The anchor is on the occurrence current when the window begins. -/
theorem reconciles_anchorLevel {anchor : Option (LevelChange F)} {stepped : List (LevelChange F)}
    (hstart : ∀ first ∈ anchor, first.transition.toState = start) (hchain : Chained start stepped)
    (hopens : ∀ first ∈ anchor, ∀ opening ∈ first.opens,
      first.date = some opening.observationDate) {anchored : Reconciled F}
    (h : input.anchorLevel anchor stepped = .ok anchored) :
    Reconciles input anchored start stepped := by
  -- without an anchor, into ACTIVE (a recorded occurrence or a planned one), or into another state
  unfold ReconcileInput.anchorLevel at h
  dsimp only at h
  split at h
  · obtain rfl := Except.ok.inj h
    exact reconciles_nothing start stepped
  · next first =>
    have hto := hstart first rfl
    have hother : ∀ index, (none : Option BackfillSignalRef) ≠ some (.planned index) := by
      intro index hplanned
      cases hplanned
    split at h
    · next hactive =>
      rw [hactive] at hto
      subst hto
      split at h
      · next id hfound =>
        obtain rfl := Except.ok.inj h
        obtain ⟨signal, hmem, hid, hcompatible⟩ := ReconcileInput.recordedOccurrence_eq_some hfound
        refine (reconciles_nothing .active (first :: stepped)).moves hother (fun _ => rfl) ?_
        intro reference hreference
        obtain rfl := Option.some.inj hreference
        exact ⟨id, rfl, signal, hmem, hid, hcompatible⟩
      · split at h
        · next signal hsignal =>
          obtain rfl := Except.ok.inj h
          exact (reconciles_nothing .active (first :: stepped)).plan rfl hactive hchain
            (hopens first rfl) hsignal
        · cases h
    · split at h
      · obtain rfl := Except.ok.inj h
        exact reconciles_nothing start stepped
      · obtain rfl := Except.ok.inj h
        refine (reconciles_nothing start (first :: stepped)).extend hother
          (fun planned hplanned => ?_) (fun hsome => by cases hsome)
          fun reference hnone => by cases hnone
        rw [List.mem_singleton.mp hplanned]
        constructor
        · intro index hindex
          cases hindex
        · intro id hid
          cases hid

end Run

/-! ### A whole level -/

namespace ReconcileInput

variable {input : ReconcileInput} {dates : List LocalDate} {anchor : Option (LevelChange F)}
  {stepped : List (LevelChange F)} {planned : Reconciled F}

theorem reconcileLevel_eq_ok (h : input.reconcileLevel anchor stepped = .ok planned) :
    ∃ anchored, input.anchorLevel anchor stepped = .ok anchored
      ∧ input.reconcileFrom anchored stepped = .ok planned := by
  unfold reconcileLevel at h
  split at h
  · cases h
  · next anchored hanchored => exact ⟨anchored, hanchored, h⟩

/-- **What is planned of a replay**: at most its anchor, and then every missing change once. -/
theorem reconcileLevel_changes (hreplay : IsReplay dates anchor stepped)
    (h : input.reconcileLevel anchor stepped = .ok planned) :
    ∃ first added, planned.changes = first ++ added
      ∧ (∀ change ∈ first, ∃ before ∈ anchor, IsPlanned before change)
      ∧ List.Forall₂ IsPlanned (input.unrecorded stepped) added := by
  obtain ⟨anchored, hanchored, hplanned⟩ := reconcileLevel_eq_ok h
  obtain ⟨start, finish, -, hlinked⟩ := hreplay.linked
  obtain ⟨added, hadded, hmissing⟩ := reconcileFrom_changes ⟨finish, hlinked⟩ hplanned
  refine ⟨anchored.changes, added, hadded, ?_, hmissing⟩
  intro change hchange
  rcases anchorLevel_changes hanchored with hnone | ⟨first, hfirst, signal, hone, hoccurrence⟩
  · rw [hnone] at hchange
    cases hchange
  · rw [hone] at hchange
    rw [List.mem_singleton.mp hchange]
    -- the state before the window was reached from `INACTIVE`
    have hfrom : first.transition.fromState ≠ .active := by
      rw [hreplay.leaves first hfirst]
      decide
    exact ⟨first, hfirst, signal, rfl, hoccurrence.trans (or_iff_right hfrom).symm⟩

/-- Every change planned of a replay is dated. -/
theorem isSome_date_of_reconcileLevel (hreplay : IsReplay dates anchor stepped)
    (h : input.reconcileLevel anchor stepped = .ok planned) {change : BackfillChange F}
    (hchange : change ∈ planned.changes) : change.observationDate.isSome = true := by
  obtain ⟨first, added, hchanges, hfirst, hadded⟩ := reconcileLevel_changes hreplay h
  rw [hchanges] at hchange
  rcases List.mem_append.mp hchange with hchange | hchange
  · obtain ⟨before, hbefore, signal, rfl, -⟩ := hfirst change hchange
    obtain ⟨-, since, hsince, -⟩ := hreplay.reconstructed before hbefore
    exact Option.isSome_iff_exists.mpr ⟨since, hsince⟩
  · obtain ⟨source, hsource, signal, rfl, -⟩ := exists_isPlanned hadded hchange
    have hmem : source ∈ stepped := List.takeWhile_subset _ (List.mem_of_mem_filter hsource)
    obtain ⟨-, date, -, hdate⟩ := hreplay.observed source hmem
    exact Option.isSome_iff_exists.mpr ⟨date, hdate⟩

/-- **The changes of a replay on an occurrence** are those that begin or end one. -/
theorem isSome_signal_of_reconcileLevel (hreplay : IsReplay dates anchor stepped)
    (h : input.reconcileLevel anchor stepped = .ok planned) {change : BackfillChange F}
    (hchange : change ∈ planned.changes) :
    change.signal.isSome = true ↔ change.fromState = .active ∨ change.toState = .active := by
  obtain ⟨first, added, hchanges, hfirst, hadded⟩ := reconcileLevel_changes hreplay h
  rw [hchanges] at hchange
  rcases List.mem_append.mp hchange with hchange | hchange
  · obtain ⟨before, -, signal, rfl, hoccurrence⟩ := hfirst change hchange
    exact hoccurrence
  · obtain ⟨source, -, signal, rfl, hoccurrence⟩ := exists_isPlanned hadded hchange
    exact hoccurrence

/-- **The occurrences planned of a replay** are complete. -/
theorem reconciles_reconcileLevel (hreplay : IsReplay dates anchor stepped)
    (h : input.reconcileLevel anchor stepped = .ok planned) :
    ∃ finish rest, Reconciles input planned finish rest
      ∧ ∀ index, planned.current ≠ some (.planned index) := by
  obtain ⟨anchored, hanchored, hplanned⟩ := reconcileLevel_eq_ok h
  obtain ⟨start, finish, hstart, hlinked⟩ := hreplay.linked
  have hbegins : Reconciles input anchored start stepped := by
    apply reconciles_anchorLevel hstart ⟨finish, hlinked⟩ _ hanchored
    intro first hfirst opening hopening
    exact hreplay.opened first (List.mem_append_left _ (Option.mem_toList.mpr hfirst)) opening
      hopening
  apply reconciles_reconcileFrom hbegins ⟨finish, hlinked⟩ _ hplanned
  intro change hchange opening hopening
  exact hreplay.opened change (List.mem_append_right _ hchange) opening hopening

end ReconcileInput

end FactorSage
