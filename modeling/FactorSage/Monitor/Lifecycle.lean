import FactorSage.Domain.LocalDate
import FactorSage.Library.OrderedMap
import FactorSage.Strategy.Evaluability

/-!
# The Monitor signal lifecycle

One pure reducer: `stepMonitorLevel` applies one real observation to one level. Each rule of the
level keeps its own lifecycle, and the level's state is their OR. The live cycle and historical
reconstruction both fold observations through it.

A loop over parallel arrays by index is a list of `RuleEntry`, one for each observation. The
lifecycle only compares dates: `D` is `LocalDate` wherever nothing else is said.

The source keeps a level's rules in a plain object. What the reducer asks of it is a `RuleRecord`, so
that one reducer runs over such an object and over the map it is meant to be, `RuleMap`: the record
wherever nothing else is said.
-/

namespace FactorSage

variable {D R : Type}

inductive MonitorLifecycleState where
  | inactive | pendingTrigger | active | resolved
  deriving DecidableEq

/-- Why a lifecycle state changed. -/
inductive MonitorTransitionReason where
  | conditionsMet | setupStarted | triggerFired | conditionsEnded | eventSessionEnded
  | buyWindowClosed | logicChanged | levelRemoved | memberRemoved | monitorRebound | reconstructed
  | membershipChanged
  deriving DecidableEq

/-- One rule's own lifecycle. -/
structure MonitorRuleLifecycle (D : Type := LocalDate) where
  state : MonitorLifecycleState
  /-- The observation date the rule entered `state`, `none` only for the initial state. -/
  since : Option D
  /-- The observation date of the Trigger event the most recent occurrence consumed. -/
  triggerDate : Option D
  deriving DecidableEq

/-- The lifecycles of a level's rules, each under its key. -/
abbrev RuleMap (D : Type := LocalDate) : Type := OrderedMap String (MonitorRuleLifecycle D)

/-- One level's lifecycle: the state the product sees, and the rule-local state behind it. -/
structure MonitorLevelLifecycle (D : Type := LocalDate) (R : Type := RuleMap D) where
  state : MonitorLifecycleState
  since : Option D
  rules : R

/-- What one rule's predicates evaluated to on one observation; `none` for a part it has not got. -/
structure MonitorRuleObservation where
  key : String
  exitRuleId : Option String
  conditions : Option Evaluability
  trigger : Option Evaluability
  deriving DecidableEq

/-- One real observation of one level. -/
structure MonitorLevelStep (D : Type := LocalDate) where
  date : D
  /-- Whether new entries are admitted on `date`. -/
  eligible : Bool
  rules : List MonitorRuleObservation
  deriving DecidableEq

structure MonitorLifecycleTransition (D : Type := LocalDate) where
  fromState : MonitorLifecycleState
  toState : MonitorLifecycleState
  reason : MonitorTransitionReason
  exitRuleId : Option String
  date : D
  deriving DecidableEq

structure MonitorLevelStepResult (D : Type := LocalDate) (R : Type := RuleMap D) where
  next : MonitorLevelLifecycle D R
  /-- Level state changes only, in order. -/
  transitions : List (MonitorLifecycleTransition D)
  /-- Why the occurrence that was active before this step ended. -/
  closed : Option MonitorTransitionReason
  /-- A new occurrence began. -/
  opened : Bool
  /-- Whether anything durable differs from the input. -/
  changed : Bool

/-! ### One rule -/

/-- The lifecycle of a rule the stored level does not describe yet. -/
def inheritedRule (level : MonitorLevelLifecycle D R) : MonitorRuleLifecycle D :=
  match level.state with
  | .active => ⟨.active, level.since, level.since⟩
  | .pendingTrigger => ⟨.pendingTrigger, level.since, none⟩
  | state => ⟨state, level.since, none⟩

/-- The state that follows the end of a current one; nothing ends at rest. -/
def endedStateOf : MonitorLifecycleState → Option MonitorLifecycleState
  | .active => some .resolved
  | .pendingTrigger => some .inactive
  | .inactive | .resolved => none

structure RuleStep (D : Type := LocalDate) where
  afterClose : MonitorRuleLifecycle D
  afterOpen : MonitorRuleLifecycle D
  closeReason : Option MonitorTransitionReason
  openReason : Option MonitorTransitionReason

/-- Close phase: where an observation sends what is current, and why. -/
def closePhase [LinearOrder D] (rule : MonitorRuleLifecycle D)
    (observation : MonitorRuleObservation) (date : D) (eligible : Bool) :
    Option (MonitorLifecycleState × MonitorTransitionReason) :=
  if !eligible then (endedStateOf rule.state).map (·, .buyWindowClosed)
  else
    match observation.conditions with
    | some conditions =>
      if conditions = .false then (endedStateOf rule.state).map (·, .conditionsEnded) else none
    | none =>
      -- a trigger-only event lives for the session it fired in
      if rule.state = .active && rule.since.all (fun since => decide (since < date)) then
        some (.resolved, .eventSessionEnded)
      else none

/-- Open phase: what an observation begins, and why. -/
def openPhase [LinearOrder D] (current : MonitorRuleLifecycle D)
    (observation : MonitorRuleObservation) (date : D) (eligible : Bool) :
    Option (MonitorRuleLifecycle D × MonitorTransitionReason) :=
  if eligible && decide (current.state ≠ .active) then
    let freshTrigger := decide (observation.trigger = some .true)
      && current.triggerDate.all fun triggerDate => decide (triggerDate < date)
    match observation.conditions with
    | none =>
      if freshTrigger then some (⟨.active, some date, some date⟩, .triggerFired) else none
    | some conditions =>
      if conditions ≠ .true then none
      else if observation.trigger.isNone then
        some ({ current with state := .active, since := some date }, .conditionsMet)
      else if freshTrigger then some (⟨.active, some date, some date⟩, .triggerFired)
      else if current.state ≠ .pendingTrigger then
        some ({ current with state := .pendingTrigger, since := some date }, .setupStarted)
      else none
  else none

def stepRule [LinearOrder D] (rule : MonitorRuleLifecycle D) (observation : MonitorRuleObservation)
    (date : D) (eligible : Bool) : RuleStep D :=
  -- a reading older than the session the rule already moved on never moves it back
  if rule.since.any fun since => decide (date < since) then ⟨rule, rule, none, none⟩
  else
    let close := closePhase rule observation date eligible
    let afterClose := close.elim rule fun c => { rule with state := c.1, since := some date }
    let opened := openPhase afterClose observation date eligible
    { afterClose
      afterOpen := opened.elim afterClose Prod.fst
      closeReason := close.map Prod.snd
      openReason := opened.map Prod.snd }

/-! ### One level -/

/-- The OR of some rules' states; `none` when all are at rest. -/
def levelOf (rules : List (MonitorRuleLifecycle D)) : Option MonitorLifecycleState :=
  if rules.any fun rule => decide (rule.state = .active) then some .active
  else if rules.any fun rule => decide (rule.state = .pendingTrigger) then some .pendingTrigger
  else none

/-- One observation of a step, the rule it found and what it made of it. -/
structure RuleEntry (D : Type := LocalDate) where
  observation : MonitorRuleObservation
  before : MonitorRuleLifecycle D
  step : RuleStep D

/-- What keeps the lifecycles of a level's rules. -/
class RuleRecord (D R : Type) where
  empty : R
  /-- What a level's lifecycle holds for one rule. -/
  ruleOf : MonitorLevelLifecycle D R → String → MonitorRuleLifecycle D
  ruleEntries [LinearOrder D] : MonitorLevelLifecycle D R → MonitorLevelStep D → List (RuleEntry D)
  /-- The record an observation leaves. -/
  observed [LinearOrder D] : MonitorLevelLifecycle D R → MonitorLevelStep D → R
  /-- The record in its canonical form since an anchor. -/
  settle [LinearOrder D] : D → R → R
  /-- Whether two records hold the same, in whatever order. -/
  same [LinearOrder D] : R → R → Bool
  /-- What is read back of a stored record. -/
  reread : R → R
  /-- The states of the rules it holds. -/
  states : R → List MonitorLifecycleState

export RuleRecord (ruleOf ruleEntries)

/-- `INITIAL_MONITOR_LEVEL_LIFECYCLE`. -/
def initialMonitorLevelLifecycle [RuleRecord D R] : MonitorLevelLifecycle D R :=
  ⟨.inactive, none, RuleRecord.empty D⟩

/-- Structural equality of two lifecycles, rules included, independent of key order. -/
def sameLifecycle [LinearOrder D] [RuleRecord D R] (left right : MonitorLevelLifecycle D R) : Bool :=
  decide (left.state = right.state) && decide (left.since = right.since)
    && RuleRecord.same D left.rules right.rules

/-- Whether a rule that did not end itself became active. -/
def takesOver (entries : List (RuleEntry D)) : Bool :=
  entries.any fun entry => entry.step.openReason.isSome && entry.step.closeReason.isNone
    && decide (entry.step.afterOpen.state = .active)

/-- The level's state after the close phase. A rule taking over on the observation the last active
one ended continues the same occurrence. -/
def levelAfterClose (prior : MonitorLifecycleState) (entries : List (RuleEntry D)) :
    MonitorLifecycleState :=
  let closedAggregate := levelOf (entries.map fun entry => entry.step.afterClose)
  let afterClose : MonitorLifecycleState :=
    if prior = .active && decide (closedAggregate ≠ some .active) then .resolved
    else if prior = .pendingTrigger && closedAggregate.isNone then .inactive
    else prior
  let afterOpen := (levelOf (entries.map fun entry => entry.step.afterOpen)).getD afterClose
  if prior = .active && afterClose = .resolved && afterOpen = .active && takesOver entries then
    .active
  else afterClose

/-- The level's state after both phases. The take-over of `levelAfterClose` leaves it as it was,
since it asks for an active rule. -/
def levelAfterOpen (afterClose : MonitorLifecycleState) (entries : List (RuleEntry D)) :
    MonitorLifecycleState :=
  (levelOf (entries.map fun entry => entry.step.afterOpen)).getD afterClose

/-- Why the level's state ended: the reason of the first rule that ended that same state. -/
def closingEntry (prior : MonitorLifecycleState) (entries : List (RuleEntry D)) :
    Option (RuleEntry D) :=
  entries.find? fun entry => entry.step.closeReason.isSome && decide (entry.before.state = prior)

/-- What began the level's new state, and why. A level that ended its occurrence while another
rule's setup was already waiting now waits on that setup. -/
def openingEntry (afterOpen : MonitorLifecycleState) (entries : List (RuleEntry D)) :
    Option (RuleEntry D × MonitorTransitionReason) :=
  match entries.find? fun entry =>
      entry.step.openReason.isSome && decide (entry.step.afterOpen.state = afterOpen) with
  | some entry => entry.step.openReason.map fun reason => (entry, reason)
  | none =>
    if afterOpen = .pendingTrigger then
      (entries.find? fun entry => decide (entry.step.afterOpen.state = .pendingTrigger)).map
        fun entry => (entry, .setupStarted)
    else none

/-- The level's transitions on one observation, in order. -/
def levelTransitions (date : D) (prior afterClose afterOpen : MonitorLifecycleState)
    (closing : Option (RuleEntry D × MonitorTransitionReason))
    (opening : Option (RuleEntry D × MonitorTransitionReason)) :
    List (MonitorLifecycleTransition D) :=
  if prior = .pendingTrigger ∧ afterClose = .inactive ∧ afterOpen = .pendingTrigger then
    -- one pending rule breaking while another starts its own setup is not a level change
    []
  else
    (if afterClose ≠ prior then
      (closing.map fun c : RuleEntry D × MonitorTransitionReason =>
        { fromState := prior, toState := afterClose, reason := c.2
          exitRuleId := c.1.observation.exitRuleId, date }).toList
    else [])
    ++ if afterOpen ≠ afterClose then
      (opening.map fun o : RuleEntry D × MonitorTransitionReason =>
        { fromState := afterClose, toState := afterOpen, reason := o.2
          exitRuleId := o.1.observation.exitRuleId, date }).toList
    else []

/-- Applies one real observation to one level. Resolution is decided before activation. -/
def stepMonitorLevel [LinearOrder D] [RuleRecord D R] (previous : MonitorLevelLifecycle D R)
    (step : MonitorLevelStep D) : MonitorLevelStepResult D R :=
  let entries := ruleEntries previous step
  let prior := previous.state
  let afterClose := levelAfterClose prior entries
  let afterOpen := levelAfterOpen afterClose entries
  let closing := (closingEntry prior entries).bind fun entry =>
    entry.step.closeReason.map fun reason => (entry, reason)
  let transitions :=
    levelTransitions step.date prior afterClose afterOpen closing (openingEntry afterOpen entries)
  let next : MonitorLevelLifecycle D R :=
    { state := if transitions.isEmpty then prior else afterOpen
      since := if transitions.isEmpty then previous.since else some step.date
      rules := RuleRecord.observed previous step }
  { next
    transitions
    closed := if prior = .active ∧ afterClose = .resolved then closing.map Prod.snd else none
    opened := decide (afterOpen = .active ∧ afterClose ≠ .active)
    changed := !sameLifecycle previous next }

/-! ### Reconstruction -/

/-- Folds a run of observations through the lifecycle. -/
def replayMonitorLevel [LinearOrder D] [RuleRecord D R] (steps : List (MonitorLevelStep D))
    (initial : MonitorLevelLifecycle D R) : MonitorLevelLifecycle D R :=
  steps.foldl (fun current step => (stepMonitorLevel current step).next) initial

/-- Whether one observation leaves every rule of the level at rest. -/
def isRestingMonitorStep (step : MonitorLevelStep D) : Bool :=
  step.rules.all fun rule => !step.eligible ||
    match rule.conditions with
    | some conditions => decide (conditions = .false)
    | none => decide (rule.trigger ≠ some .true)

/-- `settleMonitorLevelLifecycle` asks this of rules and of the level. -/
def MonitorLifecycleState.atRest (state : MonitorLifecycleState) : Bool :=
  decide (state ≠ .active) && decide (state ≠ .pendingTrigger)

/-- At rest since the anchor or longer. -/
def restsAt [LinearOrder D] (anchor : D) (state : MonitorLifecycleState) (since : Option D) :
    Bool :=
  state.atRest && since.all fun since => decide (since ≤ anchor)

def settleRule [LinearOrder D] (anchor : D) (rule : MonitorRuleLifecycle D) :
    MonitorRuleLifecycle D :=
  if restsAt anchor rule.state rule.since then ⟨.inactive, some anchor, none⟩
  else { rule with triggerDate := rule.triggerDate.filter fun date => decide (anchor ≤ date) }

/-- The canonical form of a lifecycle whose history before `anchor` is not known. -/
def settleMonitorLevelLifecycle [LinearOrder D] [RuleRecord D R]
    (lifecycle : MonitorLevelLifecycle D R) (anchor : D) : MonitorLevelLifecycle D R :=
  let levelSettled := restsAt anchor lifecycle.state lifecycle.since
  { state := if levelSettled then .inactive else lifecycle.state
    since := if levelSettled then some anchor else lifecycle.since
    rules := RuleRecord.settle anchor lifecycle.rules }

/-- The latest resting observation of a history, and the observations after it. -/
def restingStart :
    List (MonitorLevelStep D) → Option (MonitorLevelStep D × List (MonitorLevelStep D))
  | [] => none
  | step :: rest =>
    match restingStart rest with
    | some start => some start
    | none => if isRestingMonitorStep step then some (step, rest) else none

structure MonitorLevelReconstruction (D : Type := LocalDate) (R : Type := RuleMap D) where
  /-- Whether the steps establish the state. -/
  exact : Bool
  /-- The reconstructed lifecycle, settled at `anchor`. -/
  lifecycle : MonitorLevelLifecycle D R
  /-- The live observation's own result. -/
  live : MonitorLevelStepResult D R
  /-- The latest resting observation the replay started from. -/
  anchor : Option D
  /-- Historical observations folded. -/
  replayed : ℕ

/-- Reconstructs a level with no current state from closed history and the live observation. -/
def reconstructMonitorLevel [LinearOrder D] [RuleRecord D R] (history : List (MonitorLevelStep D))
    (live : MonitorLevelStep D) (complete : Bool) : MonitorLevelReconstruction D R :=
  let start := restingStart history
  let folded := start.elim history fun s => s.1 :: s.2
  let historyAnchor := start.map fun s => s.1.date
  let liveRests := isRestingMonitorStep live
  let result :=
    stepMonitorLevel (replayMonitorLevel folded initialMonitorLevelLifecycle) live
  let anchor := historyAnchor.or (if liveRests then some live.date else none)
  { exact := historyAnchor.isSome || liveRests || complete
    lifecycle := anchor.elim result.next (settleMonitorLevelLifecycle result.next)
    live := result
    anchor
    replayed := folded.length }

/-! ### Rules in a map -/

namespace RuleMap

/-- What a level's lifecycle holds for one rule. -/
def ruleOf (level : MonitorLevelLifecycle D) (key : String) : MonitorRuleLifecycle D :=
  (level.rules.get? key).getD (inheritedRule level)

def ruleEntries [LinearOrder D] (previous : MonitorLevelLifecycle D) (step : MonitorLevelStep D) :
    List (RuleEntry D) :=
  step.rules.map fun observation =>
    let before := ruleOf previous observation.key
    { observation, before, step := stepRule before observation step.date step.eligible }

def observed [LinearOrder D] (previous : MonitorLevelLifecycle D) (step : MonitorLevelStep D) :
    RuleMap D :=
  .ofList ((ruleEntries previous step).map fun entry => (entry.observation.key, entry.step.afterOpen))

def same [LinearOrder D] (left right : RuleMap D) : Bool :=
  decide (left.keys.length = right.keys.length)
    && left.keys.all fun key =>
      match left.get? key, right.get? key with
      | some a, some b => decide (a = b)
      | _, _ => false

end RuleMap

@[default_instance]
instance : RuleRecord D (RuleMap D) where
  empty := .empty
  ruleOf := RuleMap.ruleOf
  ruleEntries := RuleMap.ruleEntries
  observed := RuleMap.observed
  settle anchor rules := rules.mapValues (settleRule anchor)
  same := RuleMap.same
  reread rules := rules
  states rules := rules.values.map (·.state)

theorem ruleOf_eq (level : MonitorLevelLifecycle D) (key : String) :
    ruleOf level key = (level.rules.get? key).getD (inheritedRule level) := rfl

theorem ruleEntries_eq [LinearOrder D] (previous : MonitorLevelLifecycle D)
    (step : MonitorLevelStep D) :
    ruleEntries previous step = step.rules.map fun observation =>
      ⟨observation, ruleOf previous observation.key,
        stepRule (ruleOf previous observation.key) observation step.date step.eligible⟩ := rfl

theorem same_eq [LinearOrder D] (left right : RuleMap D) :
    RuleRecord.same D left right
      = (decide (left.keys.length = right.keys.length) && left.keys.all fun key =>
          match left.get? key, right.get? key with
          | some a, some b => decide (a = b)
          | _, _ => false) := rfl

theorem rules_settle [LinearOrder D] (level : MonitorLevelLifecycle D) (anchor : D) :
    (settleMonitorLevelLifecycle level anchor).rules = level.rules.mapValues (settleRule anchor) :=
  rfl

end FactorSage
