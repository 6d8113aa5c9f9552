import FactorSage.Domain.EodFinality
import Mathlib.Data.Finset.Sort

/-!
# The forward evaluation of one security

One pass over the (Monitor, member) pairs that watch one security: from one readiness answer and one
frame, each member is decided from its checkpoint, held before a session that may still be printed
late, and written in a transaction of its own.

Dates are day numbers and instants milliseconds, as in `EodFinality`. What the pass is told by the
store, the provider's records and the venue schedule is `PassAnswers`; a frame is its axis of dates,
since the rest of it only reaches `decideLevelSessions`, which stays abstract. What the pass logs
and counts is left out.
-/

namespace FactorSage.Monitor

open EodFinality

/-! ### What a pass is given -/

/-- A level of a Strategy, with the canonical fingerprint of its logic. -/
structure MonitorStrategyLevel where
  id : String
  fingerprint : String
  deriving DecidableEq

structure PersistedCheckpoint where
  evaluatedThrough : ℤ
  configVersion : ℕ
  basisGeneration : ℕ
  /-- The ongoing membership the progress belongs to, when it was recorded: its start, or none for
  "Always eligible". -/
  membership : Option (Option ℤ)
  coverageStart : ℤ
  deriving DecidableEq

/-- What is stored for one member: its progress, and for each level with a state the fingerprint of
the logic the state belongs to. -/
structure MemberRecord where
  checkpoint : Option PersistedCheckpoint
  states : List (String × String)
  deriving DecidableEq

/-- One (Monitor, member) pair, as a pass has loaded it. -/
structure Entry where
  monitorId : String
  configVersion : ℕ
  levels : List MonitorStrategyLevel
  record : MemberRecord
  /-- The start of the member's ongoing membership, none for "Always eligible". -/
  membershipStart : Option ℤ
  windowStart : Option ℤ
  lastRecorded : Option ℤ
  etfCodes : List String
  readsSector : Bool
  deriving DecidableEq

structure EtfSnapshot where
  latestSession : Option ℤ
  dates : List ℤ

/-- What one pass knows when it evaluates one security. -/
structure SecurityPass where
  entries : List Entry
  expected : ℤ
  now : ℤ
  sectorCode : Option String
  etfSnapshots : String → Option EtfSnapshot
  etfUnreadable : String → Bool

structure MonitorEvaluationOptions where
  reconstructionSessions : ℕ
  lateRecoveryMs : ℤ

/-- The bars one frame read finds, and their price basis. -/
structure FrameRead where
  bars : Finset ℤ
  generation : ℕ

/-- What the store and the schedule answer while a security is evaluated. -/
structure PassAnswers where
  /-- The stored bars when the readiness is read, and what the tail's record and the derived state
  say then. -/
  bars : Finset ℤ
  lastSyncedAt : Option ℤ
  tailDate : Option ℤ
  derivedLatest : Option ℤ
  generation : ℕ
  /-- The schedule while the session to pass to is looked for; `none` when it cannot say. -/
  passSchedule : ℤ → Option Bool
  /-- The first session of the security's canonical history. -/
  historyStart : ℤ
  /-- How many days of context the frame of these operands begins with. -/
  contextDays : ℕ
  /-- Each read of a frame; `none` when the history was re-based while it was read. -/
  read : ℕ → Option FrameRead
  /-- The schedule while the gaps of each read are looked for. -/
  gapSchedule : ℕ → ℤ → Option Bool

/-! ### Readiness -/

structure StockRefreshState where
  latestBar : Option ℤ
  lastTailSyncAt : Option ℤ
  latestVerifiedBar : Option ℤ
  derivedThrough : Option ℤ
  priceBasisGeneration : ℕ

/-- The newest of some stored bars. -/
def newestBar (bars : Finset ℤ) : Option ℤ := bars.sort.getLast?

/-- The newest date whose stored bar was read after its session became final. -/
def verifiedThrough (policy : EodFinalityPolicy) (answers : PassAnswers) : Option ℤ :=
  match answers.lastSyncedAt, answers.tailDate with
  | some syncedAt, some tailDate => some (min tailDate (policy.eodCutoffDate syncedAt))
  | _, _ => none

def stockRefreshState (policy : EodFinalityPolicy) (answers : PassAnswers) : StockRefreshState where
  latestBar := newestBar answers.bars
  lastTailSyncAt := answers.lastSyncedAt
  latestVerifiedBar :=
    (verifiedThrough policy answers).bind fun verified =>
      newestBar (answers.bars.filter (· ≤ verified))
  derivedThrough := answers.derivedLatest
  priceBasisGeneration := answers.generation

/-- The least date, when every one is there. -/
def minDefined : List (Option ℤ) → Option ℤ
  | [] => none
  | [date] => date
  | date :: dates =>
    match date, minDefined dates with
    | some a, some b => some (min a b)
    | _, _ => none

/-- The newest session the security is ready for. -/
def horizonOf (state : StockRefreshState) (expected : ℤ) : Option ℤ :=
  minDefined [state.latestVerifiedBar, state.derivedThrough, some expected]

section Evaluation

variable (policy : EodFinalityPolicy) (options : MonitorEvaluationOptions)

/-- The newest date whose finalization is older than the late-recovery horizon. -/
def abandonedThrough (now : ℤ) : ℤ := policy.eodCutoffDate (now - options.lateRecoveryMs)

/-- The newest session whose missing bar is confirmed absent: by the newest provider read, or for a
security never read by the clock. -/
def confirmedThrough (state : StockRefreshState) (now : ℤ) : ℤ :=
  policy.eodCutoffDate (state.lastTailSyncAt.getD now - options.lateRecoveryMs)

/-- The dates from `first` through `last`, ascending. -/
def datesThrough (first last : ℤ) : List ℤ :=
  (List.range (last + 1 - first).toNat).map fun offset : ℕ => first + offset

/-- The newest scheduled session in `(after, through]`. -/
def newestSessionAfter (schedule : ℤ → Option Bool) (after through : ℤ) : Option ℤ :=
  (datesThrough (after + 1) through).reverse.find? fun date => schedule date = some true

/-- Through where a member at the horizon may be passed without an observation. -/
def passThroughOf (state : StockRefreshState) (answers : PassAnswers) (pass : SecurityPass)
    (horizon : ℤ) : Option ℤ :=
  let confirmed := confirmedThrough policy options state pass.now
  if (∀ bar ∈ state.latestBar, bar ≤ horizon) ∧ horizon < confirmed then
    newestSessionAfter answers.passSchedule horizon (min confirmed pass.expected)
  else none

/-! ### Plans -/

/-- The ETFs a member's rules read. -/
def Entry.codes (entry : Entry) (sectorCode : Option String) : List String :=
  entry.etfCodes ++ if entry.readsSector then sectorCode.toList else []

/-- One ETF's part of `entryHorizon`: nothing while it holds the horizon, otherwise what it holds or
the give-up bound. -/
def holdForEtf (pass : SecurityPass) (horizon abandoned : ℤ) (held : ℤ × List String)
    (code : String) : ℤ × List String :=
  match (pass.etfSnapshots code).bind EtfSnapshot.latestSession with
  | some latest =>
    if horizon ≤ latest then held
    else
      let allowed := max latest abandoned
      (min held.1 allowed, if allowed < horizon then held.2 ++ [code] else held.2)
  | none => (min held.1 abandoned, if abandoned < horizon then held.2 ++ [code] else held.2)

/-- The newest session one member may be decided through, and the ETFs it waits for. -/
def entryHorizon (pass : SecurityPass) (entry : Entry) (horizon : ℤ) : Option ℤ × List String :=
  let codes := entry.codes pass.sectorCode
  let unread := codes.filter pass.etfUnreadable
  if unread ≠ [] then (none, unread)
  else
    let held := codes.foldl (holdForEtf pass horizon (abandonedThrough policy options pass.now))
      (horizon, [])
    (some held.1, held.2)

structure Plan where
  entry : Entry
  stored : Option ℤ
  /-- The member's progress under this binding and membership. -/
  fromDate : Option ℤ
  through : Option ℤ
  waitingOn : List String
  needsReconstruction : Bool
  resetMembership : Bool
  replayFrom : Option ℤ
  logicChanged : Bool

/-- Progress recorded under a different ongoing membership. -/
def Entry.resetMembership (entry : Entry) : Bool :=
  match entry.record.checkpoint.bind PersistedCheckpoint.membership with
  | some start => start ≠ entry.membershipStart
  | none => false

/-- A checkpoint of another binding or membership is no progress. -/
def Entry.fromDate (entry : Entry) : Option ℤ :=
  entry.record.checkpoint.bind fun checkpoint =>
    if entry.resetMembership = false ∧ checkpoint.configVersion = entry.configVersion then
      some checkpoint.evaluatedThrough
    else none

/-- Some level has no state under its logic. -/
def Entry.levelsNeedReconstruction (entry : Entry) : Bool :=
  entry.levels.any fun level => entry.record.states.lookup level.id ≠ some level.fingerprint

/-- Some level's logic was edited since its state was written. -/
def Entry.logicChanged (entry : Entry) : Bool :=
  entry.levels.any fun level =>
    match entry.record.states.lookup level.id with
    | some fingerprint => fingerprint ≠ level.fingerprint
    | none => false

/-- Where a member's activity window is replayed from, when it has no progress. -/
def Entry.replayFrom (entry : Entry) : Option ℤ :=
  let fresh := entry.fromDate = none ∧ (entry.resetMembership ∨ entry.record.states = [])
  entry.windowStart.bind fun windowStart =>
    if fresh then
      some (max windowStart (max (entry.membershipStart.getD windowStart)
        (entry.lastRecorded.elim windowStart (· + 1))))
    else none

def planOf (pass : SecurityPass) (horizon : ℤ) (entry : Entry) : Plan where
  entry
  stored := entry.record.checkpoint.map PersistedCheckpoint.evaluatedThrough
  fromDate := entry.fromDate
  through := (entryHorizon policy options pass entry horizon).1
  waitingOn := (entryHorizon policy options pass entry horizon).2
  needsReconstruction :=
    entry.resetMembership || entry.levelsNeedReconstruction || entry.replayFrom.isSome
  resetMembership := entry.resetMembership
  replayFrom := entry.replayFrom
  logicChanged := entry.logicChanged

/-- The plan has sessions to decide, or edited levels to decide again. -/
def Plan.hasWork (plan : Plan) : Bool :=
  match plan.through, plan.fromDate with
  | none, _ => false
  | some _, none => true
  | some through, some fromDate => fromDate < through || plan.logicChanged

/-- The member has every printed session and is passed without an observation. -/
def Plan.passesOnly (plan : Plan) (horizon : ℤ) (passThrough : Option ℤ) : Bool :=
  match passThrough, plan.fromDate with
  | some passThrough, some fromDate =>
    horizon ≤ fromDate ∧ fromDate < passThrough ∧ plan.waitingOn = []
  | _, _ => false

/-! ### The frame and its gaps -/

/-- The sessions a frame holds, ascending, and where its period starts. -/
structure EvaluationFrame where
  dates : List ℤ
  periodStartIndex : ℕ

/-- `readFinalizedEvaluationFrame`: the bars of the range and of the context before it. -/
def frameOf (bars : Finset ℤ) (contextDays : ℕ) (fromDate through : ℤ) : EvaluationFrame :=
  let dates := (bars.filter fun date => fromDate - contextDays ≤ date ∧ date ≤ through).sort
  { dates, periodStartIndex := dates.findIdx fun date => fromDate ≤ date }

/-- The sessions of the period. -/
def EvaluationFrame.period (frame : EvaluationFrame) : List ℤ :=
  frame.dates.drop frame.periodStartIndex

/-- The sessions after `confirmed`, up to the horizon, that the frame holds no bar for and the
schedule does not rule out. -/
def recoverableGaps (schedule : ℤ → Option Bool) (frame : EvaluationFrame)
    (fromDate confirmed horizon : ℤ) : List ℤ :=
  (datesThrough (if fromDate ≤ confirmed then confirmed + 1 else fromDate) horizon).filter
    fun date => date ∉ frame.dates ∧ schedule date ≠ some false

/-- A date after the member's progress. -/
def Plan.after (plan : Plan) (date : ℤ) : Bool :=
  match plan.fromDate with
  | none => true
  | some fromDate => fromDate < date

/-- The first session before `gap` that the stock printed and one ETF did not, while its bar may
still arrive; otherwise `gap`. -/
def etfGap (plan : Plan) (frame : EvaluationFrame) (pass : SecurityPass) (abandoned through : ℤ)
    (gap : Option ℤ) (code : String) : Option ℤ :=
  match pass.etfSnapshots code with
  | none => gap
  | some snapshot =>
    match snapshot.dates.head? with
    | none => gap
    | some listed =>
      match frame.dates.find? fun date => plan.after date ∧ date ≤ through ∧ listed < date
          ∧ abandoned < date ∧ date ∉ snapshot.dates ∧ (∀ first ∈ gap, date < first) with
      | some date => some date
      | none => gap

/-- Where one member is held, and whether it is: before the first session that may still be printed,
its own or an ETF's. -/
def holdAtRecoverableGap (pass : SecurityPass) (plan : Plan) (frame : EvaluationFrame)
    (stockGaps : List ℤ) : Bool × Option ℤ :=
  match plan.through with
  | none => (false, none)
  | some through =>
    let stockGap := stockGaps.find? fun date => plan.after date ∧ date ≤ through
    let gap := (plan.entry.codes pass.sectorCode).foldl
      (etfGap plan frame pass (abandonedThrough policy options pass.now) through) stockGap
    match gap with
    | none => (false, some through)
    | some gap =>
      match (frame.dates.takeWhile (· < gap)).getLast? with
      | some held => (true, if plan.after held then some held else plan.fromDate)
      | none => (true, plan.fromDate)

/-! ### Deciding a member -/

/-- What `decideLevelSessions` is asked about one level. -/
structure LevelCall where
  level : MonitorStrategyLevel
  /-- The fingerprint of the state it is decided from. -/
  previous : Option String
  sessions : List ℤ
  historyComplete : Bool
  replay : Bool
  deriving DecidableEq

/-- What is written for one level: the state it has afterwards, if any. -/
structure LevelSessionsWrite where
  levelId : String
  signalFingerprint : String
  hasLifecycle : Bool
  deriving DecidableEq

structure SessionDecision where
  write : Option LevelSessionsWrite
  needsDeeperHistory : Bool

variable (decideLevelSessions : Entry → EvaluationFrame → LevelCall → SessionDecision)

/-- A current member on a session. -/
def Entry.monitoredOn (entry : Entry) (date : ℤ) : Bool := ∀ start ∈ entry.membershipStart, start ≤ date

/-- The sessions of the period after the member's progress, through `through`. -/
def Plan.candidates (plan : Plan) (frame : EvaluationFrame) (through : Option ℤ) : List ℤ :=
  frame.period.filter fun date =>
    plan.after date ∧ (∃ last ∈ through, date ≤ last) ∧ plan.entry.monitoredOn date

/-- The window sessions of a replay. -/
def Plan.window (plan : Plan) (frame : EvaluationFrame) (through : Option ℤ) : List ℤ :=
  match plan.replayFrom with
  | none => []
  | some replayFrom => (plan.candidates frame through).filter fun date => replayFrom ≤ date

/-- Already evaluated through its newest session, with a level whose logic changed. -/
def Plan.redecideEdited (plan : Plan) (frame : EvaluationFrame) (through : Option ℤ) : Bool :=
  plan.fromDate.isSome ∧ plan.candidates frame through = [] ∧ plan.logicChanged

/-- The sessions handed to the levels. -/
def Plan.sessions (plan : Plan) (frame : EvaluationFrame) (through : Option ℤ) : List ℤ :=
  if plan.window frame through ≠ [] then plan.window frame through
  else if plan.redecideEdited frame through then
    frame.period.filter fun date => plan.fromDate = some date
  else if plan.fromDate = none then (plan.candidates frame through).getLast?.toList
  else plan.candidates frame through

/-- The calls of `decideLevelSessions`: in a re-decision only levels whose state is not of their
present logic. -/
def Plan.levelCalls (plan : Plan) (frame : EvaluationFrame) (through : Option ℤ)
    (complete : Bool) : List LevelCall :=
  let calls := plan.entry.levels.filter fun level =>
    ¬ (plan.redecideEdited frame through
      ∧ plan.entry.record.states.lookup level.id = some level.fingerprint)
  calls.map fun level =>
    { level
      previous := if plan.resetMembership then none else plan.entry.record.states.lookup level.id
      sessions := plan.sessions frame through
      historyComplete := complete
      replay := plan.window frame through ≠ [] }

/-- The member's progress after these sessions. -/
def nextOf (sessions : List ℤ) (passThrough : Option ℤ) (horizon : ℤ) : Option ℤ :=
  match sessions.getLast?, passThrough with
  | some lastStepped, some passThrough =>
    if horizon ≤ lastStepped ∧ lastStepped < passThrough then some passThrough
    else some lastStepped
  | lastStepped, _ => lastStepped

/-- One member's write: what is asked of the transaction, and the read, the sessions and the calls it
came of. -/
structure MemberEvaluationWrite where
  entry : Entry
  previous : Option ℤ
  next : ℤ
  basisGeneration : ℕ
  coverageStart : Option ℤ
  resetMembership : Bool
  levels : List LevelSessionsWrite
  /-- The frame read it was decided over; none where no frame was read. -/
  attempt : Option ℕ
  /-- The sessions that were not decided before. -/
  decided : List ℤ
  calls : List LevelCall

/-- Whether a level of a decided member needs deeper history, and the write, when the member moves
at all. -/
def decideEntry (plan : Plan) (frame : EvaluationFrame) (through : Option ℤ) (complete : Bool)
    (passThrough : Option ℤ) (horizon : ℤ) (generation attempt : ℕ) :
    Bool × Option MemberEvaluationWrite :=
  let sessions := plan.sessions frame through
  let calls := plan.levelCalls frame through complete
  let decisions := calls.map (decideLevelSessions plan.entry frame)
  let replay := plan.window frame through ≠ []
  (decisions.any SessionDecision.needsDeeperHistory,
    (nextOf sessions passThrough horizon).map fun next =>
      { entry := plan.entry
        previous := plan.stored
        next
        basisGeneration := generation
        coverageStart :=
          if plan.fromDate.isSome then none else if replay then plan.replayFrom
          else sessions.getLast?
        resetMembership := plan.resetMembership
        levels := decisions.filterMap SessionDecision.write
        attempt := some attempt
        decided := if plan.redecideEdited frame through then [] else sessions
        calls })

/-! ### The pass -/

/-- `monitorWindowCalendarDays`. -/
def monitorWindowCalendarDays (observations : ℕ) : ℕ := (observations * 1461 + 1007) / 1008 + 30

/-- A member's first session to decide. -/
def Plan.firstSession (horizon : ℤ) (plan : Plan) : ℤ :=
  match plan.replayFrom, plan.fromDate with
  | some replayFrom, _ => replayFrom
  | none, some fromDate => fromDate + 1
  | none, none => plan.through.getD horizon

/-- Where a reconstruction is anchored. -/
def Plan.anchor (horizon : ℤ) (plan : Plan) : ℤ :=
  (plan.replayFrom.or plan.through).getD horizon

def oldestOf (horizon : ℤ) (dates : List ℤ) : ℤ := dates.foldl min horizon

/-- How far back the plans reach: to the first session to decide, and for a reconstruction a window
before its anchor. -/
def reachOf (work : List Plan) (horizon : ℤ) (sessions : ℕ) : ℤ :=
  let steadyFrom := oldestOf horizon (work.map (Plan.firstSession horizon))
  let base := oldestOf horizon ((work.filter Plan.needsReconstruction).map (Plan.anchor horizon))
  let reconstructionFrom :=
    if work.any Plan.needsReconstruction then base - monitorWindowCalendarDays sessions else horizon
  min steadyFrom reconstructionFrom

/-- Where the frame of a read starts, and whether it is complete. -/
def frameStart (work : List Plan) (horizon historyStart : ℤ) (sessions : ℕ) : ℤ × Bool :=
  let start := reachOf work horizon sessions
  if start ≤ historyStart then (if historyStart ≤ horizon then historyStart else start, true)
  else (start, false)

/-- One read: what is decided for each plan over one frame. -/
def decideOver (pass : SecurityPass) (answers : PassAnswers) (confirmed horizon : ℤ)
    (passThrough : Option ℤ) (work : List Plan) (sessions attempt : ℕ) (read : FrameRead) :
    List (Bool × Option MemberEvaluationWrite) :=
  let (start, complete) := frameStart work horizon answers.historyStart sessions
  let frame := frameOf read.bars answers.contextDays start horizon
  let gaps := recoverableGaps (answers.gapSchedule attempt) frame start confirmed horizon
  work.map fun plan =>
    let (held, through) := holdAtRecoverableGap policy options pass plan frame gaps
    decideEntry decideLevelSessions plan frame through complete
      (if held then none else passThrough) horizon read.generation attempt

/-- Reads deeper until no level needs deeper history or the read is complete; `none` when the fuel
does not suffice. -/
def decideWork (pass : SecurityPass) (answers : PassAnswers) (confirmed horizon : ℤ)
    (passThrough : Option ℤ) (work : List Plan) :
    ℕ → ℕ → ℕ → Option (List MemberEvaluationWrite)
  | 0, _, _ => none
  | fuel + 1, sessions, attempt =>
    match answers.read attempt with
    | none => some []
    | some read =>
      let decided := decideOver policy options decideLevelSessions pass answers confirmed horizon
        passThrough work sessions attempt read
      if decided.any Prod.fst ∧ (frameStart work horizon answers.historyStart sessions).2 = false
      then decideWork pass answers confirmed horizon passThrough work fuel (sessions * 2)
        (attempt + 1)
      else some (decided.filterMap Prod.snd)

/-- The write of a member that is passed without an observation. -/
def passWrite (passThrough : ℤ) (generation : ℕ) (plan : Plan) : MemberEvaluationWrite where
  entry := plan.entry
  previous := plan.stored
  next := passThrough
  basisGeneration := generation
  coverageStart := none
  resetMembership := false
  levels := []
  attempt := none
  decided := []
  calls := []

/-- **The pass**: the writes it makes, in order. -/
def evaluateForward (pass : SecurityPass) (answers : PassAnswers) (fuel : ℕ) :
    Option (List MemberEvaluationWrite) :=
  let state := stockRefreshState policy answers
  match horizonOf state pass.expected with
  | none => some []
  | some horizon =>
    let passThrough := passThroughOf policy options state answers pass horizon
    let plans := pass.entries.map (planOf policy options pass horizon)
    let passed := plans.filter fun plan => plan.passesOnly horizon passThrough
    let passWrites := (passThrough.toList).flatMap fun through =>
      passed.map (passWrite through state.priceBasisGeneration)
    let work := plans.filter Plan.hasWork
    if work = [] then some passWrites
    else
      (decideWork policy options decideLevelSessions pass answers
        (confirmedThrough policy options state pass.now) horizon passThrough work fuel
        options.reconstructionSessions 0).map (passWrites ++ ·)

end Evaluation

/-! ### The transaction -/

/-- Writes one level's state. -/
def writeState (states : List (String × String)) (write : LevelSessionsWrite) :
    List (String × String) :=
  let others := states.filter fun state => state.1 ≠ write.levelId
  if write.hasLifecycle then others ++ [(write.levelId, write.signalFingerprint)] else others

/-- `applyMemberEvaluation`: refused unless the stored progress is what the member was decided
from. -/
def MemberRecord.apply (record : MemberRecord) (write : MemberEvaluationWrite) : MemberRecord :=
  if record.checkpoint.map PersistedCheckpoint.evaluatedThrough = write.previous then
    { checkpoint := some
        { evaluatedThrough := write.next
          configVersion := write.entry.configVersion
          basisGeneration := write.basisGeneration
          membership := some write.entry.membershipStart
          coverageStart := write.coverageStart.getD
            (record.checkpoint.elim write.next PersistedCheckpoint.coverageStart) }
      states := write.levels.foldl writeState (if write.resetMembership then [] else record.states) }
  else record

end FactorSage.Monitor
