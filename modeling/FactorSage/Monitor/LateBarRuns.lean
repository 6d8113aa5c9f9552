import FactorSage.Library.StepSystem
import FactorSage.Monitor.LateBars

/-!
# A member's progress over any sequence of passes

One member of a Monitor under passes in any order, each with any clock, any provider answers and any
schedule answers, and the changes made to its stored progress between them: a rebind, a pruned
checkpoint, ended states, a coverage that was completed.

Ghost state is the coverage start its present progress recorded when it began, and the log of the
sessions decided since. `Progress` says that the log is ascending and misses no session from that
coverage start on whose bar was stored in time; every write that `Issued` describes keeps it,
whichever of a pass's writes the transactions accept.
-/

namespace FactorSage.Monitor

open EodFinality

/-! ### The member -/

structure MemberState where
  configVersion : ℕ
  record : MemberRecord
  /-- The coverage start the present progress recorded when it began. -/
  began : ℤ
  /-- The sessions decided since, in the order they were. -/
  log : List ℤ

/-- The transaction of one write, and the log of what it decided. -/
def MemberState.apply (s : MemberState) (write : MemberEvaluationWrite) : MemberState :=
  if s.record.checkpoint.map PersistedCheckpoint.evaluatedThrough = write.previous then
    { s with
      record := s.record.apply write
      began :=
        if write.entry.fromDate = none then write.coverageStart.getD write.next else s.began
      log := if write.entry.fromDate = none then write.decided else s.log ++ write.decided }
  else s

/-- What is fixed of a security over a run: when each bar was stored, which dates no schedule answer
rules out, and where its canonical history starts. -/
structure Supply where
  storedAt : ℤ → Option ℤ
  session : ℤ → Prop
  historyStart : ℤ

/-- What a pass is told agrees with the supply. -/
structure Supply.Answers (supply : Supply) (answers : PassAnswers) : Prop where
  history : answers.historyStart ≤ supply.historyStart
  schedule : ∀ session, supply.session session → ∀ attempt,
    answers.gapSchedule attempt session ≠ some false
  /-- A bar stored before the newest recorded provider read is found. -/
  found : ∀ session storedAt syncedAt, supply.storedAt session = some storedAt →
    answers.lastSyncedAt = some syncedAt → storedAt ≤ syncedAt →
    session ∈ answers.bars ∧ ∀ attempt read, answers.read attempt = some read → session ∈ read.bars

/-- A session whose bar is stored before its recovery deadline. -/
def Supply.Timely (policy : EodFinalityPolicy) (options : MonitorEvaluationOptions)
    (supply : Supply) (session : ℤ) : Prop :=
  supply.historyStart ≤ session ∧ supply.session session ∧ ∃ storedAt,
    supply.storedAt session = some storedAt
      ∧ storedAt < policy.eodSessionFinalizedAt session + options.lateRecoveryMs

/-- A pass in which this member is an entry. -/
structure PassOf (supply : Supply) (s : MemberState) (pass : SecurityPass) (answers : PassAnswers)
    (entry : Entry) : Prop where
  entered : entry ∈ pass.entries
  record : entry.record = s.record
  binding : entry.configVersion = s.configVersion
  levels : entry.levels ≠ []
  answers : supply.Answers answers

inductive MemberAct
  | pass (pass : SecurityPass) (answers : PassAnswers) (entry : Entry)
      (applied : List MemberEvaluationWrite)
  | rebind
  | pruneCheckpoint
  | endStates (kept : List (String × String))
  | recordCoverage (coverageStart : ℤ)

section System

variable (policy : EodFinalityPolicy) (options : MonitorEvaluationOptions)
  (decideLevelSessions : Entry → EvaluationFrame → LevelCall → SessionDecision) (supply : Supply)

/-- One member: a pass applies some of the writes it makes for it. -/
inductive MemberStep : MemberState → MemberAct → MemberState → Prop
  | pass {s pass answers entry applied fuel writes} (hpass : PassOf supply s pass answers entry)
      (hwrites : evaluateForward policy options decideLevelSessions pass answers fuel = some writes)
      (happlied : applied.Sublist (writes.filter fun write => write.entry = entry)) :
      MemberStep s (.pass pass answers entry applied) (applied.foldl MemberState.apply s)
  | rebind {s} :
      MemberStep s .rebind { s with configVersion := s.configVersion + 1, record := ⟨none, []⟩ }
  | pruneCheckpoint {s} :
      MemberStep s .pruneCheckpoint { s with record := { s.record with checkpoint := none } }
  | endStates {s kept} (hkept : kept.Sublist s.record.states) :
      MemberStep s (.endStates kept) { s with record := { s.record with states := kept } }
  | recordCoverage {s coverageStart} :
      MemberStep s (.recordCoverage coverageStart) { s with record :=
        { s.record with
          checkpoint := s.record.checkpoint.map fun checkpoint =>
            { checkpoint with coverageStart } } }

/-- A run starts with any stored progress of the present binding, and an empty log. -/
def memberSystem : StepSystem MemberState MemberAct where
  start s := s.log = [] ∧ ∀ checkpoint, s.record.checkpoint = some checkpoint →
    checkpoint.configVersion = s.configVersion ∧ checkpoint.evaluatedThrough < s.began
  step := MemberStep policy options decideLevelSessions supply

/-! ### The invariant -/

/-- What a member's stored progress stands for. -/
structure Progress (s : MemberState) (checkpoint : PersistedCheckpoint) : Prop where
  binding : checkpoint.configVersion = s.configVersion
  ascending : s.log.Pairwise (· < ·)
  within : ∀ session ∈ s.log, session ≤ checkpoint.evaluatedThrough
  complete : ∀ session, supply.Timely policy options session → s.began ≤ session →
    session ≤ checkpoint.evaluatedThrough →
    (∀ start, checkpoint.membership = some (some start) → start ≤ session) → session ∈ s.log

/-- An entry that the stored progress is read with: of the same binding, and where the entry has
progress the progress is of its membership. -/
structure Fits (s : MemberState) (entry : Entry) : Prop where
  binding : entry.configVersion = s.configVersion
  membership : ∀ fromDate, entry.fromDate = some fromDate → ∀ checkpoint,
    s.record.checkpoint = some checkpoint → ∀ start, checkpoint.membership = some start →
    start = entry.membershipStart

end System

section Run

variable {policy : EodFinalityPolicy} {options : MonitorEvaluationOptions}
  {decideLevelSessions : Entry → EvaluationFrame → LevelCall → SessionDecision} {supply : Supply}

/-- A recorded date is its checkpoint's. -/
theorem fromDate_eq_some {entry : Entry} {fromDate : ℤ} (h : entry.fromDate = some fromDate) :
    ∃ checkpoint, entry.record.checkpoint = some checkpoint
      ∧ checkpoint.evaluatedThrough = fromDate ∧ entry.resetMembership = false := by
  obtain ⟨checkpoint, hcheckpoint, hfrom⟩ := Option.bind_eq_some_iff.mp h
  split at hfrom
  · next hprogress => exact ⟨checkpoint, hcheckpoint, Option.some.inj hfrom, hprogress.1⟩
  · cases hfrom

/-- The entry of a pass fits the state it was loaded from. -/
theorem PassOf.fits {s : MemberState} {pass : SecurityPass} {answers : PassAnswers} {entry : Entry}
    (h : PassOf supply s pass answers entry) : Fits s entry := by
  refine ⟨h.binding, fun fromDate hfrom checkpoint hcheckpoint start hstart => ?_⟩
  obtain ⟨-, -, -, hreset⟩ := fromDate_eq_some hfrom
  unfold Entry.resetMembership at hreset
  rw [h.record, hcheckpoint, Option.bind_some, hstart] at hreset
  exact not_not.mp (of_decide_eq_false hreset)

/-- An entry of the present binding whose member has no states without progress is current. -/
theorem PassOf.current {s : MemberState} {pass : SecurityPass} {answers : PassAnswers}
    {entry : Entry} (h : PassOf supply s pass answers entry)
    (hprogress : ∀ checkpoint, s.record.checkpoint = some checkpoint →
      Progress policy options supply s checkpoint)
    (hfresh : s.record.checkpoint = none → s.record.states = []) : entry.Current := by
  refine ⟨h.levels, fun hnone => ?_, fun checkpoint hcheckpoint => ?_⟩
  · rw [h.record] at hnone ⊢
    exact hfresh hnone
  · rw [h.record] at hcheckpoint
    rw [h.binding]
    exact (hprogress checkpoint hcheckpoint).binding

/-! ### One write -/

section Apply

variable {s : MemberState} {pass : SecurityPass} {answers : PassAnswers}
  {write : MemberEvaluationWrite}

/-- An accepted write leaves its own progress. -/
theorem checkpoint_apply
    (h : s.record.checkpoint.map PersistedCheckpoint.evaluatedThrough = write.previous) :
    ∃ checkpoint, (s.apply write).record.checkpoint = some checkpoint
      ∧ checkpoint.evaluatedThrough = write.next
      ∧ checkpoint.configVersion = write.entry.configVersion
      ∧ checkpoint.membership = some write.entry.membershipStart := by
  unfold MemberState.apply MemberRecord.apply
  rw [if_pos h, if_pos h]
  exact ⟨_, rfl, rfl, rfl, rfl⟩

theorem configVersion_apply : (s.apply write).configVersion = s.configVersion := by
  unfold MemberState.apply
  split <;> rfl

/-- A write keeps an entry fitting the state it was loaded from. -/
theorem Fits.apply {entry : Entry} (h : Fits s entry) (hentry : write.entry = entry) :
    Fits (s.apply write) entry := by
  refine ⟨h.binding.trans configVersion_apply.symm, fun fromDate hfrom checkpoint hcheckpoint start
    hstart => ?_⟩
  by_cases hguard : s.record.checkpoint.map PersistedCheckpoint.evaluatedThrough = write.previous
  · obtain ⟨checkpoint', hnew, -, -, hmembership⟩ := checkpoint_apply hguard
    obtain rfl := Option.some.inj (hnew.symm.trans hcheckpoint)
    rw [hmembership, hentry] at hstart
    exact (Option.some.inj hstart).symm
  · unfold MemberState.apply at hcheckpoint
    rw [if_neg hguard] at hcheckpoint
    exact h.membership fromDate hfrom checkpoint hcheckpoint start hstart

/-- **A session stored in time is decided by the write that moves past it.** -/
theorem mem_decided (hanswers : supply.Answers answers)
    (hissued : Issued policy options pass answers write) {session : ℤ}
    (htimely : supply.Timely policy options session) (hle : session ≤ write.next)
    (hmonitored : write.entry.monitoredOn session = true)
    (hafter : ∀ fromDate, write.entry.fromDate = some fromDate → fromDate < session)
    (hcovered : write.entry.fromDate = none →
      ∃ start, write.coverageStart = some start ∧ start ≤ session) :
    session ∈ write.decided := by
  obtain ⟨hhistory, hsession, storedAt, hstored, hdeadline⟩ := htimely
  obtain ⟨syncedAt, hsynced⟩ := hissued.synced
  have hstart := hanswers.history.trans hhistory
  -- a confirmed absence comes of a read after the deadline, and the bar was stored before it
  have hshown : Confirmed policy options answers pass.now session → session ∈ answers.bars
      ∧ ∀ attempt read, answers.read attempt = some read → session ∈ read.bars := by
    intro hconfirmed
    unfold Confirmed at hconfirmed
    rw [hsynced] at hconfirmed
    exact hanswers.found session storedAt syncedAt hstored hsynced
      (hdeadline.le.trans hconfirmed)
  refine hissued.complete session hstart hle hmonitored hafter hcovered
    (fun hconfirmed => (hshown hconfirmed).1) fun attempt read hattempt hread => ?_
  by_contra hmissing
  refine hmissing ((hshown ?_).2 attempt read hread)
  refine hissued.passed session hstart hle hafter (fun hnone => .inr (hcovered hnone)) ?_
  intro attempt' read' hattempt' hread'
  obtain rfl := Option.some.inj (hattempt.symm.trans hattempt')
  obtain rfl := Option.some.inj (hread.symm.trans hread')
  exact ⟨hmissing, hanswers.schedule session hsession _⟩

/-- **One write keeps what the progress stands for.** -/
theorem Progress.apply (hanswers : supply.Answers answers)
    (hissued : Issued policy options pass answers write) (hfits : Fits s write.entry)
    (hprogress : ∀ checkpoint, s.record.checkpoint = some checkpoint →
      Progress policy options supply s checkpoint) {checkpoint : PersistedCheckpoint}
    (hcheckpoint : (s.apply write).record.checkpoint = some checkpoint) :
    Progress policy options supply (s.apply write) checkpoint := by
  by_cases hguard : s.record.checkpoint.map PersistedCheckpoint.evaluatedThrough = write.previous
  · obtain ⟨checkpoint', hnew, hthrough, hconfig, hmembership⟩ := checkpoint_apply hguard
    obtain rfl := Option.some.inj (hnew.symm.trans hcheckpoint)
    have hmonitoredOf : ∀ session,
        (∀ start, checkpoint'.membership = some (some start) → start ≤ session) →
        write.entry.monitoredOn session = true := by
      intro session h
      unfold Entry.monitoredOn
      rw [decide_eq_true_eq]
      exact fun start hstart => h start (hmembership.trans (congrArg some hstart))
    have hbinding : checkpoint'.configVersion = (s.apply write).configVersion :=
      (hconfig.trans hfits.binding).trans configVersion_apply.symm
    cases hfrom : write.entry.fromDate with
    | none =>
      -- the progress begins here
      obtain ⟨start, hcoverage⟩ := hissued.begins hfrom
      have hstate : (s.apply write).log = write.decided ∧ (s.apply write).began = start := by
        unfold MemberState.apply
        rw [if_pos hguard, hfrom, if_pos rfl, if_pos rfl, hcoverage]
        exact ⟨rfl, rfl⟩
      obtain ⟨hlog, hbegan⟩ := hstate
      refine ⟨hbinding, ?_, fun session hmem => ?_, fun session htimely hafter hle hmonitored => ?_⟩
      · rw [hlog]
        exact hissued.ascending
      · rw [hlog] at hmem
        rw [hthrough]
        exact (hissued.after session hmem).1
      · rw [hlog]
        rw [hbegan] at hafter
        rw [hthrough] at hle
        refine mem_decided hanswers hissued htimely hle (hmonitoredOf session hmonitored)
          (fun fromDate heq => ?_) fun _ => ⟨start, hcoverage, hafter⟩
        rw [hfrom] at heq
        cases heq
    | some fromDate =>
      -- the stored progress goes on
      obtain ⟨loaded, hloaded, hfromDate, -⟩ := fromDate_eq_some hfrom
      rw [hissued.previous, hloaded, Option.map_some, hfromDate] at hguard
      obtain ⟨old, hold, holdThrough⟩ := Option.map_eq_some_iff.mp hguard
      have hstate : (s.apply write).log = s.log ++ write.decided
          ∧ (s.apply write).began = s.began := by
        unfold MemberState.apply
        rw [hissued.previous, hloaded, Option.map_some, hfromDate, if_pos hguard, hfrom,
          if_neg (Option.some_ne_none _), if_neg (Option.some_ne_none _)]
        exact ⟨rfl, rfl⟩
      obtain ⟨hlog, hbegan⟩ := hstate
      have hbefore := hprogress old hold
      have hforward := hissued.forward fromDate hfrom
      refine ⟨hbinding, ?_, fun session hmem => ?_, fun session htimely hafter hle hmonitored => ?_⟩
      · rw [hlog, List.pairwise_append]
        refine ⟨hbefore.ascending, hissued.ascending, fun session hmem session' hmem' => ?_⟩
        have hlt := (hissued.after session' hmem').2 fromDate hfrom
        exact ((hbefore.within session hmem).trans holdThrough.le).trans_lt hlt
      · rw [hlog] at hmem
        rw [hthrough]
        rcases List.mem_append.mp hmem with hmem | hmem
        · exact ((hbefore.within session hmem).trans holdThrough.le).trans hforward
        · exact (hissued.after session hmem).1
      · rw [hlog]
        rw [hbegan] at hafter
        rw [hthrough] at hle
        rcases le_or_gt session fromDate with hsession | hsession
        · refine List.mem_append_left _ (hbefore.complete session htimely hafter
            (hsession.trans holdThrough.symm.le) fun start hstart => hmonitored start ?_)
          have hsame := hfits.membership fromDate hfrom old hold (some start) hstart
          rw [hmembership, ← hsame]
        · refine List.mem_append_right _ (mem_decided hanswers hissued htimely hle
            (hmonitoredOf session hmonitored) (fun fromDate' heq => ?_) fun hnone => ?_)
          · exact Option.some.inj (hfrom.symm.trans heq) ▸ hsession
          · rw [hfrom] at hnone
            cases hnone
  · unfold MemberState.apply at hcheckpoint ⊢
    rw [if_neg hguard] at hcheckpoint ⊢
    exact hprogress checkpoint hcheckpoint

/-- The writes of one pass, whichever are applied. -/
theorem Progress.foldl_apply (hanswers : supply.Answers answers) {entry : Entry}
    {writes : List MemberEvaluationWrite}
    (hwrites : ∀ write ∈ writes, write.entry = entry ∧ Issued policy options pass answers write) :
    ∀ {s : MemberState}, Fits s entry →
      (∀ checkpoint, s.record.checkpoint = some checkpoint →
        Progress policy options supply s checkpoint) →
      ∀ checkpoint, (writes.foldl MemberState.apply s).record.checkpoint = some checkpoint →
        Progress policy options supply (writes.foldl MemberState.apply s) checkpoint := by
  induction writes with
  | nil => exact fun _ hprogress => hprogress
  | cons write writes ih =>
    intro s hfits hprogress
    obtain ⟨hentry, hissued⟩ := hwrites write List.mem_cons_self
    rw [List.foldl_cons]
    refine ih (fun write hmem => hwrites write (List.mem_cons_of_mem _ hmem))
      (hfits.apply hentry) fun checkpoint hcheckpoint => ?_
    exact Progress.apply hanswers hissued (hentry ▸ hfits) hprogress hcheckpoint

end Apply

/-! ### Any run -/

/-- **The invariant.** -/
theorem progress_of_reachable (hpolicy : policy.NewYork)
    (hlate : options.lateRecoveryMs ≤ 6 * dayMs) {s : MemberState}
    (hr : (memberSystem policy options decideLevelSessions supply).Reachable s) :
    ∀ checkpoint, s.record.checkpoint = some checkpoint →
      Progress policy options supply s checkpoint := by
  induction hr with
  | start hstart =>
    intro checkpoint hcheckpoint
    obtain ⟨hlog, hbinding⟩ := hstart
    obtain ⟨hconfig, hbegan⟩ := hbinding checkpoint hcheckpoint
    refine ⟨hconfig, ?_, ?_, fun session _ hafter hle _ => ?_⟩
    · rw [hlog]
      exact List.Pairwise.nil
    · rw [hlog]
      exact fun _ h => (nomatch h)
    · exact absurd (hafter.trans hle) (not_le.mpr hbegan)
  | step _ hstep ih =>
    cases hstep with
    | @pass pass answers entry applied _ _ hpass hwrites happlied =>
      have hissued : ∀ write ∈ applied,
          write.entry = entry ∧ Issued policy options pass answers write := by
        intro write hmem
        obtain ⟨hmem, hentry⟩ := List.mem_filter.mp (happlied.subset hmem)
        exact ⟨of_decide_eq_true hentry,
          issued_evaluateForward hpolicy hlate hwrites write hmem⟩
      exact Progress.foldl_apply hpass.answers hissued hpass.fits ih
    | rebind => exact fun _ h => (nomatch h)
    | pruneCheckpoint => exact fun _ h => (nomatch h)
    | endStates =>
      intro checkpoint hcheckpoint
      obtain ⟨hbinding, hascending, hwithin, hcomplete⟩ := ih checkpoint hcheckpoint
      exact ⟨hbinding, hascending, hwithin, hcomplete⟩
    | recordCoverage =>
      intro checkpoint hcheckpoint
      obtain ⟨old, hold, rfl⟩ := Option.map_eq_some_iff.mp hcheckpoint
      obtain ⟨hbinding, hascending, hwithin, hcomplete⟩ := ih old hold
      exact ⟨hbinding, hascending, hwithin, hcomplete⟩

/-- What one write of a pass owes to the late bars, where the member it was decided for carries no
states without progress. -/
structure SkipsNoLateBar (policy : EodFinalityPolicy) (options : MonitorEvaluationOptions)
    (answers : PassAnswers) (write : MemberEvaluationWrite) : Prop where
  /-- A session it moves past, without a bar in the read it was decided over and not ruled out, was
  still without one in a provider read issued after its recovery deadline. -/
  passed : ∀ session, answers.historyStart ≤ session → session ≤ write.next →
    (∀ fromDate, write.entry.fromDate = some fromDate → fromDate < session) →
    (∀ attempt read, write.attempt = some attempt → answers.read attempt = some read →
      session ∉ read.bars ∧ answers.gapSchedule attempt session ≠ some false) →
    ∃ readAt, answers.lastSyncedAt = some readAt
      ∧ policy.eodSessionFinalizedAt session + options.lateRecoveryMs ≤ readAt
  /-- The levels are handed the sessions decided, and in a re-decision those whose state is not of
  their present logic the session of the progress again. -/
  handed : ∀ call ∈ write.calls, call.sessions = write.decided
    ∨ (write.decided = [] ∧ (∀ session ∈ call.sessions, write.entry.fromDate = some session)
        ∧ write.entry.record.states.lookup call.level.id ≠ some call.level.fingerprint)
  everyLevel : write.decided ≠ [] → ∀ level ∈ write.entry.levels,
    ∃ call ∈ write.calls, call.level = level ∧ call.sessions = write.decided

/-- **A late bar is not skipped.** At any point of any run: no pass moves the member past a session
that may still be printed, unless the member carries states without a checkpoint; and from the
coverage start its present progress recorded when it began, every session whose bar was stored in
time was decided exactly once, in ascending order. -/
theorem late_bar_not_skipped (hpolicy : policy.NewYork)
    (hlate : options.lateRecoveryMs ≤ 6 * dayMs) {s : MemberState}
    (hr : (memberSystem policy options decideLevelSessions supply).Reachable s) :
    (∀ pass answers entry fuel writes, PassOf supply s pass answers entry →
      (s.record.checkpoint = none → s.record.states = []) →
      evaluateForward policy options decideLevelSessions pass answers fuel = some writes →
      ∀ write ∈ writes, write.entry = entry → SkipsNoLateBar policy options answers write)
    ∧ ∀ checkpoint, s.record.checkpoint = some checkpoint →
        s.log.Pairwise (· < ·) ∧ (∀ session ∈ s.log, session ≤ checkpoint.evaluatedThrough)
          ∧ ∀ session, supply.Timely policy options session → s.began ≤ session →
              session ≤ checkpoint.evaluatedThrough →
              (∀ start, checkpoint.membership = some (some start) → start ≤ session) →
              s.log.count session = 1 := by
  have hprogress := progress_of_reachable hpolicy hlate hr
  constructor
  · intro pass answers entry fuel writes hpass hfresh hwrites write hmem hentry
    have hissued := issued_evaluateForward hpolicy hlate hwrites write hmem
    have hcurrent : write.entry.Current := hentry ▸ hpass.current hprogress hfresh
    refine ⟨fun session hhistory hle hafter hmissing => ?_, hissued.handed, hissued.everyLevel⟩
    have hconfirmed := hissued.passed session hhistory hle hafter (fun _ => .inl hcurrent) hmissing
    obtain ⟨readAt, hreadAt⟩ := hissued.synced
    unfold Confirmed at hconfirmed
    rw [hreadAt] at hconfirmed
    exact ⟨readAt, hreadAt, hconfirmed⟩
  · intro checkpoint hcheckpoint
    obtain ⟨-, hascending, hwithin, hcomplete⟩ := hprogress checkpoint hcheckpoint
    refine ⟨hascending, hwithin, fun session htimely hafter hle hmonitored => ?_⟩
    have hnodup : s.log.Nodup := hascending.imp fun hlt => ne_of_lt hlt
    exact List.count_eq_one_of_mem hnodup (hcomplete session htimely hafter hle hmonitored)

end Run

/-! ### A member in winter -/

/-- New York without daylight saving, and bars published at the close. -/
def winter : EodFinalityPolicy := ⟨fun _ => -5 * hourMs, 0⟩

theorem winter_newYork : winter.NewYork :=
  ⟨fun _ => ⟨le_refl _, by change -5 * hourMs ≤ -4 * hourMs; decide⟩, le_refl _⟩

def threeDays : MonitorEvaluationOptions := ⟨5, 3 * dayMs⟩

def decideNothing : Entry → EvaluationFrame → LevelCall → SessionDecision := fun _ _ _ =>
  ⟨none, false⟩

def memberOf (record : MemberRecord) : Entry where
  monitorId := "monitor"
  configVersion := 1
  levels := [⟨"level", "logic"⟩]
  record
  membershipStart := none
  windowStart := none
  lastRecorded := none
  etfCodes := []
  readsSector := false

/-- Just after the close of day 10. -/
def passOver (record : MemberRecord) : SecurityPass where
  entries := [memberOf record]
  expected := 10
  now := 10 * dayMs + 21 * hourMs
  sectorCode := none
  etfSnapshots := fun _ => none
  etfUnreadable := fun _ => false

def answersOf (bars : Finset ℤ) : PassAnswers where
  bars
  lastSyncedAt := some (10 * dayMs + 21 * hourMs)
  tailDate := some 10
  derivedLatest := some 10
  generation := 1
  passSchedule := fun _ => some true
  historyStart := 0
  contextDays := 0
  read := fun _ => some ⟨bars, 1⟩
  gapSchedule := fun _ _ => some true

def readState : StockRefreshState :=
  ⟨some 10, some (10 * dayMs + 21 * hourMs), some 10, some 10, 1⟩

theorem stockRefreshState_answersOf {bars : Finset ℤ} (hmem : 10 ∈ bars)
    (hmax : ∀ bar ∈ bars, bar ≤ 10) : stockRefreshState winter (answersOf bars) = readState := by
  have hverified : verifiedThrough winter (answersOf bars) = some 10 := by
    change some (min 10 (winter.eodCutoffDate (10 * dayMs + 21 * hourMs))) = some 10
    decide +kernel
  have hfilter : bars.filter (· ≤ (10 : ℤ)) = bars := Finset.filter_true_of_mem hmax
  unfold stockRefreshState
  rw [hverified, Option.bind_some]
  change StockRefreshState.mk (newestBar bars) _ (newestBar (bars.filter (· ≤ (10 : ℤ)))) _ _ = _
  rw [hfilter, newestBar_eq hmem hmax]
  rfl

/-- The write of a pass with one member, from its frame. -/
theorem evaluateForward_passOver {bars : Finset ℤ} (hmem : 10 ∈ bars)
    (hmax : ∀ bar ∈ bars, bar ≤ 10) {record : MemberRecord} {start : ℤ} {frame : EvaluationFrame}
    {write : MemberEvaluationWrite}
    (hwork : (planOf winter threeDays (passOver record) 10 (memberOf record)).hasWork = true)
    (hstart : frameStart [planOf winter threeDays (passOver record) 10 (memberOf record)] 10 0 5
      = (start, false))
    (hframe : frameOf bars 0 start 10 = frame)
    (hwrite : decideEntry decideNothing
      (planOf winter threeDays (passOver record) 10 (memberOf record)) frame
      (holdAtRecoverableGap winter threeDays (passOver record)
        (planOf winter threeDays (passOver record) 10 (memberOf record)) frame
        (recoverableGaps (fun _ => some true) frame start
          (confirmedThrough winter threeDays readState (passOver record).now) 10)).2 false none 10
            1 0
      = (false, some write)) :
    evaluateForward winter threeDays decideNothing (passOver record) (answersOf bars) 1
      = some [write] := by
  have hhorizon : horizonOf readState (passOver record).expected = some 10 := rfl
  -- the newest bar is already at the horizon, so no session is passed through
  have hpass : passThroughOf winter threeDays readState (answersOf bars) (passOver record) 10
      = none := by
    change (if (∀ bar ∈ readState.latestBar, bar ≤ 10) ∧ 10 < confirmedThrough winter threeDays
      readState (10 * dayMs + 21 * hourMs) then newestSessionAfter (fun _ => some true) 10
        (min (confirmedThrough winter threeDays readState (10 * dayMs + 21 * hourMs)) 10) else none)
      = none
    decide +kernel
  have hplans : ((passOver record).entries.map
      (planOf winter threeDays (passOver record) 10)).filter Plan.hasWork
        = [planOf winter threeDays (passOver record) 10 (memberOf record)] := by
    change [planOf winter threeDays (passOver record) 10 (memberOf record)].filter _ = _
    rw [List.filter_cons_of_pos hwork]
    rfl
  have hover : decideOver winter threeDays decideNothing (passOver record) (answersOf bars)
      (confirmedThrough winter threeDays readState (passOver record).now) 10 none
      [planOf winter threeDays (passOver record) 10 (memberOf record)] 5 0 ⟨bars, 1⟩
      = [(false, some write)] := by
    have hstart' : frameStart [planOf winter threeDays (passOver record) 10 (memberOf record)] 10
      (answersOf bars).historyStart 5 = (start, false) := hstart
    have hframe' : frameOf bars (answersOf bars).contextDays start 10 = frame := hframe
    unfold decideOver
    dsimp only
    rw [hstart', hframe', List.map_cons, ite_self, List.map_nil]
    exact congrArg (fun decided => [decided]) hwrite
  have hdecide : decideWork winter threeDays decideNothing (passOver record) (answersOf bars)
      (confirmedThrough winter threeDays readState (passOver record).now) 10 none
      [planOf winter threeDays (passOver record) 10 (memberOf record)] 1 5 0 = some [write] := by
    have hread : (answersOf bars).read 0 = some ⟨bars, 1⟩ := rfl
    rw [decideWork, hread]
    dsimp only
    rw [hover]
    rfl
  unfold evaluateForward
  rw [stockRefreshState_answersOf hmem hmax]
  dsimp only
  rw [hhorizon]
  dsimp only
  rw [hpass, hplans, if_neg (List.cons_ne_nil _ _)]
  exact congrArg (Option.map _) hdecide

def supplyOf (bars : Finset ℤ) : Supply where
  storedAt := fun session => if session ∈ bars then some 0 else none
  session := fun _ => True
  historyStart := 0

theorem answers_supplyOf (bars : Finset ℤ) : (supplyOf bars).Answers (answersOf bars) := by
  refine ⟨le_refl _, fun _ _ _ h => (nomatch h), fun session _ _ hstored _ _ => ?_⟩
  have hbar : session ∈ bars := by
    by_contra hnot
    change (if session ∈ bars then some 0 else none) = some _ at hstored
    rw [if_neg hnot] at hstored
    cases hstored
  exact ⟨hbar, fun _ read hread => Option.some.inj hread ▸ hbar⟩

/-- The pass that decides one member, applied. -/
theorem step_passOver {bars : Finset ℤ} {s : MemberState} (hbinding : s.configVersion = 1)
    {write : MemberEvaluationWrite}
    (hwrites : evaluateForward winter threeDays decideNothing (passOver s.record) (answersOf bars) 1
      = some [write]) (hentry : write.entry = memberOf s.record) :
    MemberStep winter threeDays decideNothing (supplyOf bars) s
      (.pass (passOver s.record) (answersOf bars) (memberOf s.record) [write]) (s.apply write) := by
  refine MemberStep.pass ⟨List.mem_singleton.mpr rfl, rfl, hbinding.symm, List.cons_ne_nil _ _,
    answers_supplyOf bars⟩ hwrites ?_
  have hall : ([write]).filter (fun write => write.entry = memberOf s.record) = [write] :=
    List.filter_eq_self.mpr fun _ hmem =>
      decide_eq_true ((List.mem_singleton.mp hmem).symm ▸ hentry)
  rw [hall]

theorem late_bar_not_skipped_winter :
    ∃ s, (memberSystem winter threeDays decideNothing (supplyOf {8, 9, 10})).Reachable s
      ∧ s.log = [9, 10] ∧ s.log.count 9 = 1 := by
  have hframe : frameOf {8, 9, 10} 0 9 10 = ⟨[9, 10], 0⟩ := by
    have hfilter : ({8, 9, 10} : Finset ℤ).filter
        (fun date => 9 - ((0 : ℕ) : ℤ) ≤ date ∧ date ≤ 10) = [9, 10].toFinset := by decide
    have hsort : ([9, 10] : List ℤ).toFinset.sort = [9, 10] :=
      (List.toFinset_sort (· ≤ ·) (by decide)).mpr (by decide)
    unfold frameOf
    rw [hfilter, hsort]
    rfl
  let s : MemberState := ⟨1, ⟨some ⟨8, 1, 1, some none, 8⟩, [("level", "logic")]⟩, 9, []⟩
  have hstart : (memberSystem winter threeDays decideNothing (supplyOf {8, 9, 10})).start s :=
    ⟨rfl, fun checkpoint h => Option.some.inj h ▸ ⟨rfl, by decide⟩⟩
  have hwrites := @evaluateForward_passOver {8, 9, 10} (by decide) (by decide) s.record 9 _ _ rfl
    rfl hframe rfl
  have hr := (StepSystem.Reachable.start hstart).step (step_passOver rfl hwrites rfl)
  have hlate : threeDays.lateRecoveryMs ≤ 6 * dayMs := by decide
  refine ⟨_, hr, rfl, ((late_bar_not_skipped winter_newYork hlate hr).2 _ rfl).2.2 9
    ⟨by decide, trivial, 0, rfl, by decide +kernel⟩ (by decide) (by decide) fun _ h => (nomatch h)⟩

/-- A member that carries states without a checkpoint is decided on its newest session alone: day 9,
which may still be printed, is passed at the first evaluation. -/
theorem late_bar_skipped :
    ∃ s pass answers entry applied s',
      (memberSystem winter threeDays decideNothing (supplyOf {7, 8, 10})).start s
      ∧ (memberSystem winter threeDays decideNothing (supplyOf {7, 8, 10})).step s
          (.pass pass answers entry applied) s'
      ∧ (∃ checkpoint, s'.record.checkpoint = some checkpoint ∧ 9 ≤ checkpoint.evaluatedThrough)
      ∧ answers.historyStart ≤ 9 ∧ (∀ attempt, answers.gapSchedule attempt 9 = some true)
      ∧ (∀ attempt read, answers.read attempt = some read → 9 ∉ read.bars)
      ∧ ¬ Confirmed winter threeDays answers pass.now 9 := by
  have hframe : frameOf {7, 8, 10} 0 10 10 = ⟨[10], 0⟩ := by
    have hfilter : ({7, 8, 10} : Finset ℤ).filter
        (fun date => 10 - ((0 : ℕ) : ℤ) ≤ date ∧ date ≤ 10) = {10} := by decide
    unfold frameOf
    rw [hfilter, Finset.sort_singleton]
    rfl
  let s : MemberState := ⟨1, ⟨none, [("level", "logic")]⟩, 0, []⟩
  have hwrites := @evaluateForward_passOver {7, 8, 10} (by decide) (by decide) s.record 10 _ _ rfl
    rfl hframe rfl
  have hconfirmed : ¬ winter.eodSessionFinalizedAt 9 + threeDays.lateRecoveryMs
      ≤ 10 * dayMs + 21 * hourMs := by decide +kernel
  refine ⟨s, _, _, _, _, _, ⟨rfl, fun _ h => (nomatch h)⟩, step_passOver rfl hwrites rfl,
    ⟨_, rfl, by decide⟩, by decide, fun _ => rfl, fun _ read hread => ?_, hconfirmed⟩
  obtain rfl := Option.some.inj hread
  decide

end FactorSage.Monitor
