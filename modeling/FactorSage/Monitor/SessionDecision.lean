import FactorSage.Monitor.Levels

/-!
# What an evaluation decides for one level

`decideLevelSessions` decides one level of one member over one or more finalized sessions of a frame.
A level with state under its current logic is caught up session by session. A level without is
replayed over a window from the exact state before it, or reconstructed at the newest session.

Sessions are indices of the frame: an index the frame has not got cannot be asked for. The store's
own columns of a level state are passed through and never read.
-/

namespace FactorSage

variable {F R : Type}

inductive MonitorEvaluationOutcome where
  | matched | notMatched | notEvaluable
  deriving DecidableEq

/-- Where a recorded change came from. -/
inductive TransitionOrigin where
  | observed | history | administrative
  deriving DecidableEq

/-- The durable state of one level of one member. -/
structure PersistedSignalState (R : Type := RuleMap) where
  id : String
  stateVersion : ℕ
  /-- Fingerprint of the logic this state belongs to. -/
  signalFingerprint : String
  levelKind : MonitorLevelKind
  lastOutcome : MonitorEvaluationOutcome
  activeSignalId : Option String
  lifecycle : MonitorLevelLifecycle LocalDate R

/-- Whether a change ends the occurrence that is current or begins one. -/
inductive SignalReference where
  | closed | opened
  deriving DecidableEq

structure TransitionRecord where
  fromState : MonitorLifecycleState
  toState : MonitorLifecycleState
  reason : MonitorTransitionReason
  exitRuleId : Option String
  observationDate : Option LocalDate
  signalFingerprint : String
  signal : Option SignalReference
  deriving DecidableEq

/-- The end of the occurrence current before a change. -/
structure OccurrenceClose where
  reason : MonitorTransitionReason
  observationDate : Option LocalDate
  deriving DecidableEq

/-- The beginning of an occurrence. -/
structure OccurrenceOpen (F : Type) where
  observationDate : LocalDate
  price : F
  reconstructed : Bool

structure LevelChange (F : Type) where
  transition : TransitionRecord
  origin : TransitionOrigin
  close : Option OccurrenceClose
  opens : Option (OccurrenceOpen F)
  evidence : Option (MonitorTransitionEvidence F)

structure MonitorObservation (F : Type) where
  date : LocalDate
  price : F

/-- Where and at what price a state was entered. -/
structure EnteredAt (F : Type) where
  observationDate : Option LocalDate
  price : Option F

structure LevelSessionsWrite (F : Type) (R : Type := RuleMap) where
  levelId : String
  levelKind : MonitorLevelKind
  signalFingerprint : String
  hasTrigger : Bool
  strategyVersionId : String
  previous : Option (PersistedSignalState R)
  changes : List (LevelChange F)
  /-- `none` deletes the row. -/
  lifecycle : Option (MonitorLevelLifecycle LocalDate R)
  outcome : MonitorEvaluationOutcome
  decided : Option (MonitorEvaluationOutcome × MonitorObservation F)
  enteredAt : Option (EnteredAt F)

structure SessionDecision (F : Type) (R : Type := RuleMap) where
  write : Option (LevelSessionsWrite F R)
  /-- The frame does not reach a resting session: read deeper. -/
  needsDeeperHistory : Bool
  reconstructed : Bool

/-- The sessions of a frame. -/
abbrev EvaluationFrame.Session (frame : EvaluationFrame F) : Type := Fin frame.dates.length

def EvaluationFrame.dateOf (frame : EvaluationFrame F) (session : frame.Session) : LocalDate :=
  frame.dates.get session

def EvaluationFrame.closeOf (frame : EvaluationFrame F) (session : frame.Session) : F :=
  frame.closes.get (session.cast frame.closes_length.symm)

structure SessionDecisionInput (F : Type) (R : Type := RuleMap) where
  level : MonitorStrategyLevel F
  strategyVersionId : String
  previous : Option (PersistedSignalState R)
  frame : EvaluationFrame F
  /-- The sessions to decide, ascending. -/
  sessions : List frame.Session
  /-- The frame begins at the security's first session. -/
  historyComplete : Bool
  originOf : LocalDate → TransitionOrigin
  /-- Whether the member is a current member of the List on a session. -/
  monitoredOn : LocalDate → Bool
  replay : Bool

/-! ### Pieces -/

def outcomeOf : Evaluability → MonitorEvaluationOutcome
  | .true => .matched
  | .false => .notMatched
  | .notEvaluable => .notEvaluable

/-- The administrative reset a logic change makes to state recorded under the previous logic. -/
def resetChanges (previous : PersistedSignalState R) : List (LevelChange F) :=
  (endedStateOf previous.lifecycle.state).toList.map fun ended =>
    let closes := decide (previous.lifecycle.state = .active)
    { transition :=
        { fromState := previous.lifecycle.state
          toState := ended
          reason := .logicChanged
          exitRuleId := none
          observationDate := none
          signalFingerprint := previous.signalFingerprint
          signal := if closes then some .closed else none }
      origin := .administrative
      close := if closes then previous.activeSignalId.map fun _ => ⟨.logicChanged, none⟩ else none
      opens := none
      evidence := none }

/-- A reconstructed "resolved" is simply "nothing is current". -/
def unresolved {D : Type} (lifecycle : MonitorLevelLifecycle D R) : MonitorLevelLifecycle D R :=
  if lifecycle.state = .resolved then { lifecycle with state := .inactive } else lifecycle

variable [JsNumber F]

def historyStep (level : MonitorStrategyLevel F) (frame : EvaluationFrame F)
    (eligibility : LocalDate → Bool) (session : frame.Session) : MonitorLevelStep where
  date := frame.dateOf session
  eligible := eligibility (frame.dateOf session)
  rules := observeMonitorLevel level frame session

/-- The sessions of the frame's period, ascending. -/
def EvaluationFrame.period (frame : EvaluationFrame F) : List frame.Session :=
  (List.finRange frame.dates.length).filter fun session => frame.periodStartIndex ≤ session.val

/-- The period's sessions before a date, newest first: the walk back from the end of the frame. -/
def closedSessions (frame : EvaluationFrame F) (before : LocalDate) : List frame.Session :=
  frame.period.reverse.dropWhile fun session => before ≤ frame.dateOf session

/-- A walk back that stops at the first resting observation. -/
def untilResting : List MonitorLevelStep → List MonitorLevelStep
  | [] => []
  | step :: earlier => if isRestingMonitorStep step then [step] else step :: untilResting earlier

/-- The closed sessions before a date as steps, from the latest resting session on. -/
def historySteps (level : MonitorStrategyLevel F) (frame : EvaluationFrame F) (before : LocalDate)
    (eligibility : LocalDate → Bool) : List MonitorLevelStep :=
  (untilResting ((closedSessions frame before).map (historyStep level frame eligibility))).reverse

/-- The search for a date over `[low, high)`. -/
def frameIndexOf (frame : EvaluationFrame F) (date : LocalDate) :
    ℕ → ℕ → ℕ → Option frame.Session
  | 0, _, _ => none
  | fuel + 1, low, high =>
    let middle := (low + (high - 1)) / 2
    if h : low < high ∧ middle < frame.dates.length then
      let candidate := frame.dates.get ⟨middle, h.2⟩
      if candidate = date then some ⟨middle, h.2⟩
      else if candidate < date then frameIndexOf frame date fuel (middle + 1) high
      else frameIndexOf frame date fuel low middle
    else none

/-- The finite close of a date the frame holds. -/
def closeOn (frame : EvaluationFrame F) (date : LocalDate) : Option F :=
  (frameIndexOf frame date frame.dates.length 0 frame.dates.length).bind fun session =>
    finiteOrNull (frame.closeOf session)

/-- The evidence on a date, when the frame holds that session. -/
def evidenceAt (level : MonitorStrategyLevel F) (frame : EvaluationFrame F) (date : LocalDate)
    (exitRuleId : Option String) : Option (MonitorTransitionEvidence F) :=
  (frame.dates.idxOf? date).map fun index => explainMonitorLevel level frame index exitRuleId

/-! ### One session -/

structure SessionReading (frame : EvaluationFrame F) where
  session : frame.Session
  step : MonitorLevelStep
  outcome : MonitorEvaluationOutcome
  price : F

namespace SessionDecisionInput

variable (input : SessionDecisionInput F R)

def read (session : input.frame.Session) : SessionReading input.frame where
  session
  step := historyStep input.level input.frame input.monitoredOn session
  outcome := outcomeOf (if input.monitoredOn (input.frame.dateOf session) then
      evaluateLevelWithoutPosition input.level.rules input.frame session
    else .false)
  price := input.frame.closeOf session

def historyBefore (date : LocalDate) : List MonitorLevelStep :=
  historySteps input.level input.frame date input.monitoredOn

def decidedOf (reading : SessionReading input.frame) :
    Option (MonitorEvaluationOutcome × MonitorObservation F) :=
  if reading.outcome = .notEvaluable then none
  else some (reading.outcome, ⟨reading.step.date, reading.price⟩)

/-- The state belongs to logic that changed. -/
def stale : Bool :=
  input.previous.any fun previous => decide (previous.signalFingerprint ≠ input.level.fingerprint)

def reset : List (LevelChange F) :=
  if input.stale then input.previous.elim [] resetChanges else []

/-- A write of the level, as every decision fills it in. -/
def write (changes : List (LevelChange F))
    (lifecycle : Option (MonitorLevelLifecycle LocalDate R)) (outcome : MonitorEvaluationOutcome)
    (decided : Option (MonitorEvaluationOutcome × MonitorObservation F))
    (enteredAt : Option (EnteredAt F)) : LevelSessionsWrite F R where
  levelId := input.level.id
  levelKind := input.level.kind
  signalFingerprint := input.level.fingerprint
  hasTrigger := input.level.hasTrigger
  strategyVersionId := input.strategyVersionId
  previous := input.previous
  changes
  lifecycle
  outcome
  decided
  enteredAt

/-- Nothing decidable: at most the reset of logic that no longer exists. -/
def resetOnly : SessionDecision F R where
  write := if input.stale then some (input.write input.reset none .notEvaluable none none) else none
  needsDeeperHistory := false
  reconstructed := false

def needsDeeper : SessionDecision F R := { input.resetOnly with needsDeeperHistory := true }

/-! ### Stepping -/

/-- The record of one transition of a session. -/
def changeOf (reading : SessionReading input.frame) (result : MonitorLevelStepResult LocalDate R)
    (transition : MonitorLifecycleTransition) : LevelChange F :=
  let origin := input.originOf transition.date
  { transition :=
      { fromState := transition.fromState
        toState := transition.toState
        reason := transition.reason
        exitRuleId := transition.exitRuleId
        observationDate := some transition.date
        signalFingerprint := input.level.fingerprint
        signal := if transition.toState = .active then some .opened
          else if transition.fromState = .active then some .closed else none }
    origin
    close := if transition.fromState = .active then
        result.closed.map fun reason => ⟨reason, some transition.date⟩
      else none
    opens := if transition.toState = .active ∧ result.opened = true then
        some ⟨transition.date, reading.price, decide (origin = .history)⟩
      else none
    evidence := some
      (explainMonitorLevel input.level input.frame reading.session transition.exitRuleId) }

structure Stepped (F : Type) (R : Type := RuleMap) where
  changes : List (LevelChange F)
  lifecycle : MonitorLevelLifecycle LocalDate R
  enteredAt : Option (EnteredAt F)

variable [RuleRecord LocalDate R]

/-- Applies one session to what was stepped before it. -/
def stepReading (stepped : Stepped F R) (reading : SessionReading input.frame) : Stepped F R :=
  let result := stepMonitorLevel stepped.lifecycle reading.step
  { changes := stepped.changes ++ result.transitions.map (input.changeOf reading result)
    lifecycle := result.next
    enteredAt := if result.transitions.isEmpty then stepped.enteredAt
      else some ⟨some reading.step.date, some reading.price⟩ }

/-- Applies each session in order, recording every change with its session. -/
def stepThrough (start : MonitorLevelLifecycle LocalDate R)
    (readings : List (SessionReading input.frame)) : Stepped F R :=
  readings.foldl input.stepReading ⟨[], start, none⟩

/-! ### The three shapes -/

/-- A level with state under its current logic. -/
def catchUp (previous : PersistedSignalState R) (newest : input.frame.Session) : SessionDecision F R :=
  let stepped := input.stepThrough previous.lifecycle (input.sessions.map input.read)
  let newestReading := input.read newest
  { write := some (input.write stepped.changes (some stepped.lifecycle) newestReading.outcome
      (input.decidedOf newestReading) stepped.enteredAt)
    needsDeeperHistory := false
    reconstructed := false }

def reconstructAt (reading : SessionReading input.frame) :
    MonitorLevelReconstruction LocalDate R :=
  reconstructMonitorLevel (input.historyBefore reading.step.date) reading.step
    input.historyComplete

omit [RuleRecord LocalDate R] in
/-- The one change a reconstruction at the newest session records. -/
def reconstructedChange (live : SessionReading input.frame)
    (transitions : List MonitorLifecycleTransition) (state : MonitorLifecycleState)
    (since : LocalDate) : LevelChange F :=
  let entered := if since = live.step.date then transitions.getLast? else none
  let exitRuleId := entered.bind (·.exitRuleId)
  let origin := if entered.isSome then input.originOf since else .history
  let price := if since = live.step.date then some live.price else closeOn input.frame since
  { transition :=
      { fromState := .inactive
        toState := state
        reason := entered.elim .reconstructed (·.reason)
        exitRuleId
        observationDate := some since
        signalFingerprint := input.level.fingerprint
        signal := if state = .active then some .opened else none }
    origin
    close := none
    opens := if state = .active then
        some ⟨since, price.getD live.price, decide (origin = .history)⟩
      else none
    evidence := evidenceAt input.level input.frame since exitRuleId }

/-- A level with no state for its logic, at the newest session. -/
def reconstructNewest (newest : input.frame.Session) : SessionDecision F R :=
  let live := input.read newest
  -- only a decidable observation may create a state
  if live.outcome = .notEvaluable then input.resetOnly
  else
    let reconstruction := input.reconstructAt live
    if !reconstruction.exact then input.needsDeeper
    else
      let lifecycle := unresolved reconstruction.lifecycle
      let change := if lifecycle.state ≠ .inactive then
          lifecycle.since.map
            (input.reconstructedChange live reconstruction.live.transitions lifecycle.state)
        else none
      { write := some (input.write (input.reset ++ change.toList) (some lifecycle) live.outcome
          (input.decidedOf live) (lifecycle.since.map fun since =>
            ⟨some since, if since = live.step.date then some live.price
              else closeOn input.frame since⟩))
        needsDeeperHistory := false
        reconstructed := true }

omit [RuleRecord LocalDate R] in
/-- The one change a replay records of the state before its window. -/
def prefixChange (price : Option F) (state : MonitorLifecycleState) (since : LocalDate) :
    LevelChange F where
  transition :=
    { fromState := .inactive
      toState := state
      reason := .reconstructed
      exitRuleId := none
      observationDate := some since
      signalFingerprint := input.level.fingerprint
      signal := if state = .active then some .opened else none }
  origin := .history
  close := none
  opens := if state = .active then price.map fun price => ⟨since, price, true⟩ else none
  evidence := evidenceAt input.level input.frame since none

/-- A window replayed from the state before it, and the reading that established that state. -/
def replayFrom (start : MonitorLevelLifecycle LocalDate R)
    (prefixReading : Option (SessionReading input.frame))
    (newest : input.frame.Session) : SessionDecision F R :=
  let since := if start.state.atRest then none else start.since
  let price := since.bind fun since =>
    (closeOn input.frame since).or (prefixReading.map (·.price))
  let readings := input.sessions.map input.read
  let stepped := input.stepThrough start readings
  -- a new state needs a decidable observation to exist at all
  let decided := (readings ++ prefixReading.toList).filter fun reading =>
    reading.outcome ≠ .notEvaluable
  if decided.isEmpty then input.resetOnly
  else
    let newestDecided := decided.foldl (fun best reading =>
      if best.any fun best => decide (reading.session < best.session) then best
      else some reading) none
    { write := some (input.write
        (input.reset ++ (since.map (input.prefixChange price start.state)).toList ++ stepped.changes)
        (some stepped.lifecycle) (input.read newest).outcome (newestDecided.bind input.decidedOf)
        (stepped.enteredAt.or (since.map fun since => ⟨some since, price⟩)))
      needsDeeperHistory := false
      reconstructed := true }

omit [RuleRecord LocalDate R] in
/-- The session just before a window, when the frame's period holds one. -/
def beforeWindow (first : input.frame.Session) : Option input.frame.Session :=
  if 0 < first.val ∧ input.frame.periodStartIndex ≤ first.val - 1 then
    some ⟨first.val - 1, (Nat.sub_le _ _).trans_lt first.isLt⟩
  else none

/-- A never-evaluated member's activity window. -/
def replayLevel (first newest : input.frame.Session) : SessionDecision F R :=
  match input.beforeWindow first with
  | some session =>
    let reading := input.read session
    let reconstruction := input.reconstructAt reading
    if !reconstruction.exact then input.needsDeeper
    else input.replayFrom (unresolved reconstruction.lifecycle) (some reading) newest
  | none =>
    if !input.historyComplete then input.needsDeeper
    else input.replayFrom initialMonitorLevelLifecycle none newest

end SessionDecisionInput

/-- What one evaluation decides for one level over some sessions. -/
def decideLevelSessions [RuleRecord LocalDate R] (input : SessionDecisionInput F R) :
    SessionDecision F R :=
  match input.sessions.getLast?, input.sessions.head? with
  | some newest, some first =>
    match input.previous, input.stale with
    | some previous, false => input.catchUp previous newest
    | _, _ =>
      if input.replay then input.replayLevel first newest else input.reconstructNewest newest
  | _, _ => input.resetOnly

end FactorSage
