import FactorSage.Monitor.RecordedChanges

/-!
# Three ways to establish a level

A level without state is reconstructed at the newest session, replayed over a window that ends
there, or was established at an earlier session and is caught up since, in any batches. The three
read history differently, rename a rest differently and date a setup differently, but each leaves a
lifecycle that tracks the canonical one of the newest session (`Establishes`). So they end with the
same thing current, and no later catch-up records a different occurrence
(`decideLevelSessions_threeWays`).

The predicate for membership is arbitrary: it need not be monotone.
-/

namespace FactorSage

open TransitionLog

variable {F R : Type}

/-- One evaluation of a level: the sessions it decides, and the store's own columns of the row it
reads. -/
structure LevelEvaluation (frame : EvaluationFrame F) where
  columns : PersistedSignalState
  sessions : List frame.Session
  replay : Bool

/-- Evaluations in order: the changes each recorded, and the lifecycle the last left stored. -/
structure EvaluationRun (F : Type) (R : Type := RuleMap) where
  recorded : List (List (LevelChange F))
  lifecycle : Option (MonitorLevelLifecycle LocalDate R)

/-- The state a stored row is in; nothing is current without one. -/
def storedState (lifecycle : Option (MonitorLevelLifecycle LocalDate R)) : MonitorLifecycleState :=
  lifecycle.elim .inactive (·.state)

/-- The sessions of the period in a window. -/
def windowOf {frame : EvaluationFrame F} (first newest : frame.Session) : List frame.Session :=
  frame.period.filter fun session => first ≤ session ∧ session ≤ newest

variable [JsNumber F]

namespace SessionDecisionInput

section Record

variable [RuleRecord LocalDate R] (input : SessionDecisionInput F R)

/-- The decision input of an evaluation that finds a lifecycle stored: what is read back of it. -/
def evaluating (stored : Option (MonitorLevelLifecycle LocalDate R))
    (evaluation : LevelEvaluation input.frame) : SessionDecisionInput F R :=
  { input with
    previous := stored.map fun lifecycle =>
      { evaluation.columns with
        signalFingerprint := input.level.fingerprint
        lifecycle := { lifecycle with rules := RuleRecord.reread LocalDate lifecycle.rules } }
    sessions := evaluation.sessions
    replay := evaluation.replay }

/-- Runs evaluations in order, each from the row the one before it left. -/
def run : Option (MonitorLevelLifecycle LocalDate R) → List (LevelEvaluation input.frame) →
    EvaluationRun F R
  | stored, [] => ⟨[], stored⟩
  | stored, evaluation :: rest =>
    let write := (decideLevelSessions (input.evaluating stored evaluation)).write
    let later := run (write.elim stored (·.lifecycle)) rest
    ⟨write.elim [] (·.changes) :: later.recorded, later.lifecycle⟩

/-- The lifecycle an evaluation leaves stored. -/
def storedAfter (stored : Option (MonitorLevelLifecycle LocalDate R))
    (evaluation : LevelEvaluation input.frame) : Option (MonitorLevelLifecycle LocalDate R) :=
  (decideLevelSessions (input.evaluating stored evaluation)).write.elim stored (·.lifecycle)

theorem run_cons (stored : Option (MonitorLevelLifecycle LocalDate R))
    (evaluation : LevelEvaluation input.frame) (rest : List (LevelEvaluation input.frame)) :
    input.run stored (evaluation :: rest)
      = ⟨(decideLevelSessions (input.evaluating stored evaluation)).write.elim [] (·.changes)
            :: (input.run (input.storedAfter stored evaluation) rest).recorded,
          (input.run (input.storedAfter stored evaluation) rest).lifecycle⟩ := rfl

/-- Evaluations that find nothing stored establish a lifecycle: from any of them on, the changes
recorded lead from the state stored before to the one that is left. -/
structure Establishes (evaluations : List (LevelEvaluation input.frame))
    (lifecycle : MonitorLevelLifecycle LocalDate R) : Prop where
  stored : (input.run none evaluations).lifecycle = some lifecycle
  records : ∀ before after, evaluations = before ++ after →
    Records (storedState (input.run none before).lifecycle)
      (input.run (input.run none before).lifecycle after).recorded.flatten lifecycle.state

/-- Two lifecycles of one session agree: on what is current and since when, and on the occurrences
every later catch-up ends and begins. -/
structure AgreeAfter (session : input.frame.Session)
    (left right : MonitorLevelLifecycle LocalDate R) : Prop where
  current : left.state.current = right.state.current
  since : left.state.atRest = false → left.since = right.since
  occurrences : ∀ later : List (LevelEvaluation input.frame),
    (session :: later.flatMap (·.sessions)).Pairwise (· < ·) →
      (input.run (some left) later).recorded.map (·.map LevelChange.occurrence)
        = (input.run (some right) later).recorded.map (·.map LevelChange.occurrence)

end Record

variable {input : SessionDecisionInput F}

theorem run_append (stored : Option MonitorLevelLifecycle)
    (evaluations later : List (LevelEvaluation input.frame)) :
    input.run stored (evaluations ++ later)
      = ⟨(input.run stored evaluations).recorded
            ++ (input.run (input.run stored evaluations).lifecycle later).recorded,
          (input.run (input.run stored evaluations).lifecycle later).lifecycle⟩ := by
  induction evaluations generalizing stored with
  | nil => rfl
  | cons evaluation rest ih =>
    rw [List.cons_append, run, ih]
    rfl

/-! ### Catch-ups -/

theorem changesFrom_evaluating (stored : Option MonitorLevelLifecycle)
    (evaluation : LevelEvaluation input.frame) (lifecycle : MonitorLevelLifecycle)
    (sessions : List input.frame.Session) :
    (input.evaluating stored evaluation).changesFrom lifecycle sessions
      = input.changesFrom lifecycle sessions := by
  induction sessions generalizing lifecycle with
  | nil => rfl
  | cons session rest ih => exact congrArg _ (ih _)

/-- A level with a row is stepped through the sessions of its evaluation; one without sessions writes
nothing. -/
theorem write_of_current (input : SessionDecisionInput F) {previous : PersistedSignalState}
    (hprevious : input.previous = some previous) (hstale : input.stale = false) :
    let write := (decideLevelSessions input).write
    write.elim [] (·.changes) = input.changesFrom previous.lifecycle input.sessions
      ∧ write.elim (some previous.lifecycle) (·.lifecycle)
        = some (replayMonitorLevel (input.steps input.sessions) previous.lifecycle) := by
  cases hsessions : input.sessions with
  | nil =>
    have hdecision : decideLevelSessions input = input.resetOnly := by
      unfold decideLevelSessions
      rw [hsessions]
      rfl
    rw [hdecision, resetOnly, hstale]
    exact ⟨rfl, rfl⟩
  | cons first rest =>
    have hdecision : decideLevelSessions input
        = input.catchUp previous ((first :: rest).getLast (List.cons_ne_nil _ _)) := by
      unfold decideLevelSessions
      rw [hsessions, List.getLast?_eq_getLast_of_ne_nil (List.cons_ne_nil _ _), hprevious, hstale]
      rfl
    obtain ⟨hchanges, hlifecycle⟩ := input.stepThrough_eq previous.lifecycle (first :: rest)
    rw [hdecision]
    unfold catchUp
    rw [hsessions]
    exact ⟨hchanges, congrArg some hlifecycle⟩

theorem write_over_some (lifecycle : MonitorLevelLifecycle)
    (evaluation : LevelEvaluation input.frame) :
    let write := (decideLevelSessions (input.evaluating (some lifecycle) evaluation)).write
    write.elim [] (·.changes) = input.changesFrom lifecycle evaluation.sessions
      ∧ write.elim (some lifecycle) (·.lifecycle)
        = some (replayMonitorLevel (input.steps evaluation.sessions) lifecycle) := by
  have hstale : (input.evaluating (some lifecycle) evaluation).stale = false := by
    simp [stale, evaluating]
  have hwrite := write_of_current (input.evaluating (some lifecycle) evaluation) rfl hstale
  exact ⟨hwrite.1.trans (changesFrom_evaluating _ _ _ _), hwrite.2⟩

theorem run_some_cons (lifecycle : MonitorLevelLifecycle) (evaluation : LevelEvaluation input.frame)
    (rest : List (LevelEvaluation input.frame)) :
    input.run (some lifecycle) (evaluation :: rest)
      = ⟨input.changesFrom lifecycle evaluation.sessions
            :: (input.run (some (replayMonitorLevel (input.steps evaluation.sessions) lifecycle))
              rest).recorded,
          (input.run (some (replayMonitorLevel (input.steps evaluation.sessions) lifecycle))
            rest).lifecycle⟩ := by
  obtain ⟨hchanges, hlifecycle⟩ := write_over_some lifecycle evaluation
  rw [run, hchanges, hlifecycle]

/-- **Catch-ups step their sessions, however they are batched.** -/
theorem run_some (lifecycle : MonitorLevelLifecycle)
    (evaluations : List (LevelEvaluation input.frame)) :
    (input.run (some lifecycle) evaluations).recorded.flatten
        = input.changesFrom lifecycle (evaluations.flatMap (·.sessions))
      ∧ (input.run (some lifecycle) evaluations).lifecycle
        = some (replayMonitorLevel (input.steps (evaluations.flatMap (·.sessions))) lifecycle) := by
  induction evaluations generalizing lifecycle with
  | nil => exact ⟨rfl, rfl⟩
  | cons evaluation rest ih =>
    obtain ⟨hrecorded, hlifecycle⟩ :=
      ih (replayMonitorLevel (input.steps evaluation.sessions) lifecycle)
    rw [run_some_cons, List.flatMap_cons, List.flatten_cons, changesFrom_append]
    refine ⟨congrArg _ hrecorded, ?_⟩
    rw [hlifecycle, steps_append, replayMonitorLevel_append]

variable {session : input.frame.Session}

/-- What tracks another lifecycle has the same occurrences recorded from then on. -/
theorem occurrences_run {anchor : LocalDate} {left right : MonitorLevelLifecycle}
    (h : Tracks input.level.ruleIds anchor (input.frame.dateOf session) left right)
    {later : List (LevelEvaluation input.frame)}
    (hascends : (session :: later.flatMap (·.sessions)).Pairwise (· < ·)) :
    (input.run (some left) later).recorded.map (·.map LevelChange.occurrence)
      = (input.run (some right) later).recorded.map (·.map LevelChange.occurrence) := by
  induction later generalizing session left right with
  | nil => rfl
  | cons evaluation rest ih =>
    rw [List.flatMap_cons, ← List.cons_append] at hascends
    have hsessions := (List.pairwise_append.mp hascends).1
    rw [run_some_cons, run_some_cons, List.map_cons, List.map_cons,
      occurrences_changesFrom h (pairwise_dateOf hsessions)]
    obtain ⟨-, hrest, hafter⟩ := List.pairwise_append.mp hascends
    refine congrArg _ (ih (input.tracks_steps h hsessions) (List.pairwise_cons.mpr ⟨?_, hrest⟩))
    exact hafter _ List.getLastD_mem_cons

/-- A level without a row is replayed or reconstructed. -/
theorem decideLevelSessions_of_none (input : SessionDecisionInput F)
    {first newest : input.frame.Session}
    (hprevious : input.previous = none) (hfirst : input.sessions.head? = some first)
    (hlast : input.sessions.getLast? = some newest) :
    decideLevelSessions input
      = if input.replay then input.replayLevel first newest else input.reconstructNewest newest := by
  unfold decideLevelSessions
  rw [hlast, hfirst, hprevious]

/-! ### What is established -/

variable {lifecycle : MonitorLevelLifecycle} {evaluation : LevelEvaluation input.frame}

/-- One evaluation that writes what it leaves. -/
theorem establishes_singleton {write : LevelSessionsWrite F}
    (hwrite : (decideLevelSessions (input.evaluating none evaluation)).write = some write)
    (hlifecycle : write.lifecycle = some lifecycle)
    (hrecords : Records .inactive write.changes lifecycle.state) :
    input.Establishes [evaluation] lifecycle := by
  have hrun : input.run none [evaluation] = ⟨[write.changes], some lifecycle⟩ := by
    rw [run, hwrite, Option.elim_some, Option.elim_some, hlifecycle]
    rfl
  refine ⟨by rw [hrun], fun before after hsplit => ?_⟩
  cases before with
  | nil =>
    obtain rfl : [evaluation] = after := hsplit
    change Records .inactive (input.run none [evaluation]).recorded.flatten _
    rw [hrun, List.flatten_singleton]
    exact hrecords
  | cons first rest =>
    obtain ⟨rfl, hrest⟩ := List.cons.inj hsplit
    obtain ⟨rfl, rfl⟩ := List.nil_eq_append_iff.mp hrest
    rw [hrun]
    exact records_nil _

/-- **Catch-ups go on from what is established.** -/
theorem Establishes.catchUps {evaluations : List (LevelEvaluation input.frame)}
    (h : input.Establishes evaluations lifecycle)
    (hcoherent : Coherent input.level.ruleIds lifecycle)
    (batches : List (LevelEvaluation input.frame)) :
    input.Establishes (evaluations ++ batches)
      (replayMonitorLevel (input.steps (batches.flatMap (·.sessions))) lifecycle) where
  stored := by
    rw [run_append, h.stored]
    exact (run_some lifecycle batches).2
  records := by
    intro before after hsplit
    rcases List.append_eq_append_iff.mp hsplit with ⟨caught, rfl, rfl⟩ | ⟨rest, rfl, rfl⟩
    · -- the split falls among the catch-ups
      rw [run_append, h.stored, List.flatMap_append, steps_append, replayMonitorLevel_append]
      dsimp only
      rw [(run_some lifecycle caught).2, (run_some _ after).1]
      refine records_changesFrom (hcoherent.replay input.level.ruleIds_nodup fun step hstep => ?_) _
      obtain ⟨session, -, rfl⟩ := List.mem_map.mp hstep
      exact hasKeys_historyStep _ _ _ _
    · -- it falls among the evaluations before them
      have hstored := h.stored
      rw [run_append] at hstored
      rw [run_append, hstored, List.flatten_append, (run_some lifecycle batches).1]
      exact (h.records before rest rfl).append (records_changesFrom hcoherent _)

/-! ### Reconstructing -/

/-- A lifecycle that tracks the canonical one of a session is current since some observation. -/
theorem isSome_since_of_tracks {anchor last : LocalDate}
    (h : Tracks input.level.ruleIds anchor last lifecycle (input.canonical session))
    (hcurrent : lifecycle.state.atRest = false) : lifecycle.since.isSome := by
  rw [h.stands.since hcurrent]
  refine isSome_since_replay _ (fun hrest => by cases hrest) ?_
  rcases eq_or_atRest_of_current h.stands.current with hsame | ⟨hrest, -⟩
  · rw [canonical] at hsame
    rw [← hsame, hcurrent]
  · rw [hcurrent] at hrest
    cases hrest

/-- **Reconstructing at the newest session** writes one change at most, to what is current. -/
theorem write_reconstructNewest (input : SessionDecisionInput F) {newest : input.frame.Session}
    (hprevious : input.previous = none) (hcomplete : input.historyComplete = true)
    (hperiod : newest ∈ input.frame.period)
    (hdecidable : (input.read newest).outcome ≠ .notEvaluable) :
    ∃ write, (input.reconstructNewest newest).write = some write
      ∧ write.lifecycle = some (unresolved (input.reconstructAt (input.read newest)).lifecycle)
      ∧ Records .inactive write.changes
        (unresolved (input.reconstructAt (input.read newest)).lifecycle).state := by
  obtain ⟨hexact, anchor, htracks⟩ := input.tracks_reconstructAt hcomplete hperiod
  have hreset : input.reset = [] := by
    unfold reset
    rw [hprevious]
    split <;> rfl
  unfold reconstructNewest
  dsimp only
  rw [if_neg hdecidable, hexact, if_neg (by decide)]
  refine ⟨_, rfl, rfl, records_beginning (fun hrest => ?_) fun hcurrent => ?_⟩
  · have hinactive := state_unresolved _ hrest
    refine ⟨hinactive, ?_⟩
    change input.reset ++ _ = _
    rw [hreset, if_neg (not_not.mpr hinactive)]
    rfl
  · obtain ⟨since, hsince⟩ := Option.isSome_iff_exists.mp (isSome_since_of_tracks htracks hcurrent)
    have hne : (unresolved (input.reconstructAt (input.read newest)).lifecycle).state
        ≠ .inactive := by
      intro heq
      rw [heq] at hcurrent
      cases hcurrent
    refine ⟨input.reconstructedChange (input.read newest)
      (input.reconstructAt (input.read newest)).live.transitions _ since, ?_, rfl, rfl, rfl, ?_⟩
    · change input.reset ++ _ = _
      rw [hreset, if_pos hne, hsince]
      rfl
    · unfold reconstructedChange
      dsimp only
      split <;> simp [*]

/-! ### Replaying a window -/

/-- **A replay from a state before the window** writes that state and steps the window. -/
theorem write_replayFrom {start : MonitorLevelLifecycle}
    (prefixReading : Option (SessionReading input.frame)) {newest : input.frame.Session}
    (hprevious : input.previous = none) (hnewest : newest ∈ input.sessions)
    (hdecidable : (input.read newest).outcome ≠ .notEvaluable)
    (hcoherent : Coherent input.level.ruleIds start)
    (hrest : start.state.atRest = true → start.state = .inactive)
    (hsince : start.state.atRest = false → start.since.isSome ∧ prefixReading.isSome) :
    ∃ write, (input.replayFrom start prefixReading newest).write = some write
      ∧ write.lifecycle = some (replayMonitorLevel (input.steps input.sessions) start)
      ∧ Records .inactive write.changes
        (replayMonitorLevel (input.steps input.sessions) start).state := by
  have hreset : input.reset = [] := by
    unfold reset
    rw [hprevious]
    split <;> rfl
  obtain ⟨hchanges, hlifecycle⟩ := input.stepThrough_eq start input.sessions
  have hdecided : ¬ (((input.sessions.map input.read ++ prefixReading.toList).filter fun reading =>
      decide (reading.outcome ≠ .notEvaluable)).isEmpty = true) := by
    rw [List.isEmpty_iff]
    refine List.ne_nil_of_mem (a := input.read newest) (List.mem_filter.mpr ⟨?_, ?_⟩)
    · exact List.mem_append_left _ (List.mem_map_of_mem hnewest)
    · exact decide_eq_true hdecidable
  unfold replayFrom
  dsimp only
  rw [if_neg hdecided, hlifecycle, hchanges]
  refine ⟨_, rfl, rfl, ?_⟩
  have hstepped := records_changesFrom hcoherent input.sessions
  refine Records.append (records_beginning (fun hatRest => ?_) fun hcurrent => ?_) hstepped
  · refine ⟨hrest hatRest, ?_⟩
    rw [hreset, if_pos hatRest]
    rfl
  · obtain ⟨hsome, hprefix⟩ := hsince hcurrent
    obtain ⟨since, heq⟩ := Option.isSome_iff_exists.mp hsome
    obtain ⟨reading, rfl⟩ := Option.isSome_iff_exists.mp hprefix
    rw [hreset, if_neg (by rw [hcurrent]; decide), heq]
    refine ⟨_, rfl, rfl, rfl, rfl, ?_⟩
    unfold prefixChange
    cases hclose : closeOn input.frame since <;> cases hstate : start.state <;> simp [hclose]

section

omit [JsNumber F]

/-- A window runs from its first session to its newest. -/
theorem windowOf_ends {first newest : input.frame.Session} (hfirst : first ∈ input.frame.period)
    (hle : first ≤ newest) :
    (windowOf first newest).head? = some first ∧ (windowOf first newest).getLast? = some newest := by
  have hascending : (windowOf first newest).Pairwise (· < ·) := (period_ascending _).filter _
  have hmem : ∀ session ∈ windowOf first newest, first ≤ session ∧ session ≤ newest :=
    fun session hsession => of_decide_eq_true (List.mem_filter.mp hsession).2
  constructor
  · refine AscendingList.head?_of_least hascending ?_ fun session hsession => (hmem session hsession).1
    exact List.mem_filter.mpr ⟨hfirst, decide_eq_true ⟨le_rfl, hle⟩⟩
  · refine AscendingList.getLast?_of_greatest hascending ?_ fun session hsession =>
      (hmem session hsession).2
    exact List.mem_filter.mpr ⟨mem_period_of_le hfirst hle, decide_eq_true ⟨hle, le_rfl⟩⟩

/-- The window begins after the session before it. -/
theorem windowOf_of_beforeWindow {first before : input.frame.Session} (newest : input.frame.Session)
    (h : input.beforeWindow first = some before) :
    before ∈ input.frame.period ∧ before < first
      ∧ windowOf first newest = sessionsBetween before newest := by
  unfold beforeWindow at h
  split at h
  · next hbefore =>
    obtain rfl := Option.some.inj h
    refine ⟨List.mem_filter.mpr ⟨List.mem_finRange _, decide_eq_true hbefore.2⟩, ?_, ?_⟩
    · exact Fin.lt_def.mpr (Nat.sub_lt hbefore.1 Nat.one_pos)
    · refine List.filter_congr fun session _ => ?_
      have hiff : first ≤ session ↔ (⟨first.val - 1, (Nat.sub_le _ _).trans_lt first.isLt⟩ :
          input.frame.Session) < session := by
        change first.val ≤ session.val ↔ first.val - 1 < session.val
        omega
      rw [decide_eq_decide]
      exact and_congr_left' hiff
  · cases h

/-- The window begins where the period does. -/
theorem windowOf_of_beforeWindow_eq_none {first : input.frame.Session} (newest : input.frame.Session)
    (h : input.beforeWindow first = none) : windowOf first newest = sessionsThrough newest := by
  unfold beforeWindow at h
  split at h
  · cases h
  · next hno =>
    refine List.filter_congr fun session hsession => ?_
    have hstart := of_decide_eq_true (List.mem_filter.mp hsession).2
    have hfirst : first ≤ session := by
      rw [Fin.le_def]
      omega
    rw [decide_eq_decide]
    exact and_iff_right hfirst

end

/-- What tracks the canonical lifecycle of a session goes on tracking it to a later one. -/
theorem tracks_through {anchor : LocalDate} {earlier newest : input.frame.Session}
    (hearlier : earlier ∈ input.frame.period)
    (hnewest : newest ∈ input.frame.period) (hle : earlier ≤ newest)
    (h : Tracks input.level.ruleIds anchor (input.frame.dateOf earlier) lifecycle
      (input.canonical earlier)) :
    Tracks input.level.ruleIds anchor (input.frame.dateOf newest)
      (replayMonitorLevel (input.steps (sessionsBetween earlier newest)) lifecycle)
      (input.canonical newest) := by
  have hascends : (earlier :: sessionsBetween earlier newest).Pairwise (· < ·) :=
    List.pairwise_cons.mpr ⟨fun _ hmem => (of_decide_eq_true (List.mem_filter.mp hmem).2).1,
      (period_ascending _).filter _⟩
  have htracks := input.tracks_steps h hascends
  rw [getLastD_sessionsBetween hearlier hnewest hle] at htracks
  rw [input.canonical_append hle]
  exact htracks

/-- **A replay over a window** writes a lifecycle that tracks the canonical one of its end. -/
theorem write_replayLevel (input : SessionDecisionInput F) {first newest : input.frame.Session}
    (hprevious : input.previous = none) (hcomplete : input.historyComplete = true)
    (hsessions : input.sessions = windowOf first newest)
    (hfirst : first ∈ input.frame.period) (hle : first ≤ newest)
    (hdecidable : (input.read newest).outcome ≠ .notEvaluable) :
    ∃ write lifecycle anchor, (input.replayLevel first newest).write = some write
      ∧ write.lifecycle = some lifecycle ∧ Records .inactive write.changes lifecycle.state
      ∧ Tracks input.level.ruleIds anchor (input.frame.dateOf newest) lifecycle
        (input.canonical newest) := by
  have hnewest := mem_period_of_le hfirst hle
  have hmem : newest ∈ input.sessions := by
    rw [hsessions]
    exact List.mem_filter.mpr ⟨hnewest, decide_eq_true ⟨hle, le_rfl⟩⟩
  unfold replayLevel
  cases hbefore : input.beforeWindow first with
  | some before =>
    -- the state before the window tracks the canonical one there, and so does what is stepped
    obtain ⟨hperiod, hlt, hwindow⟩ := windowOf_of_beforeWindow newest hbefore
    obtain ⟨hexact, anchor, htracks⟩ := input.tracks_reconstructAt hcomplete hperiod
    obtain ⟨write, hwrite, hlifecycle, hrecords⟩ := write_replayFrom
      (some (input.read before)) hprevious hmem hdecidable htracks.coherent
      (state_unresolved _) fun hcurrent => ⟨isSome_since_of_tracks htracks hcurrent, rfl⟩
    dsimp only
    rw [hexact, if_neg (by decide)]
    refine ⟨write, _, anchor, hwrite, hlifecycle, hrecords, ?_⟩
    rw [hsessions, hwindow]
    exact tracks_through hperiod hnewest (hlt.le.trans hle) htracks
  | none =>
    -- the window is all of the history: it is replayed as the canonical lifecycle is
    have hwindow := windowOf_of_beforeWindow_eq_none newest hbefore
    have hinitial := coherent_initial (D := LocalDate) input.level.ruleIds
    obtain ⟨write, hwrite, hlifecycle, hrecords⟩ := write_replayFrom none
      hprevious hmem hdecidable hinitial (fun _ => rfl) fun hcurrent => by cases hcurrent
    dsimp only
    rw [hcomplete, if_neg (by decide)]
    refine ⟨write, _, input.frame.dateOf newest, hwrite, hlifecycle, hrecords, ?_⟩
    obtain ⟨-, anchor, htracks⟩ := input.tracks_reconstructAt hcomplete hnewest
    rw [hsessions, hwindow]
    refine tracks_self htracks.dated' (hinitial.replay input.level.ruleIds_nodup fun step hstep => ?_)
    obtain ⟨session, -, rfl⟩ := List.mem_map.mp hstep
    exact hasKeys_historyStep _ _ _ _

/-! ### The three ways -/

/-- What tracks one lifecycle agrees. -/
theorem agreeAfter_of_tracks {anchor anchor' : LocalDate}
    {left right canonical : MonitorLevelLifecycle}
    (h : Tracks input.level.ruleIds anchor (input.frame.dateOf session) left canonical)
    (hother : Tracks input.level.ruleIds anchor' (input.frame.dateOf session) right canonical) :
    input.AgreeAfter session left right where
  current := h.stands.current.trans hother.stands.current.symm
  since := by
    intro hcurrent
    have hright : right.state.atRest = false := by
      rcases eq_or_atRest_of_current (h.stands.current.trans hother.stands.current.symm)
        with hsame | ⟨hrest, -⟩
      · rw [← hsame, hcurrent]
      · rw [hcurrent] at hrest
        cases hrest
    rw [h.stands.since hcurrent, hother.stands.since hright]
  occurrences later hascends := (occurrences_run h hascends).trans (occurrences_run hother hascends).symm

/-- A level without a row, reconstructed. -/
theorem establishes_reconstructed (hcomplete : input.historyComplete = true)
    {newest : input.frame.Session} (hperiod : newest ∈ input.frame.period)
    (hdecidable : (input.read newest).outcome ≠ .notEvaluable)
    (hreplay : evaluation.replay = false) (hlast : evaluation.sessions.getLast? = some newest) :
    ∃ lifecycle anchor, input.Establishes [evaluation] lifecycle
      ∧ Tracks input.level.ruleIds anchor (input.frame.dateOf newest) lifecycle
        (input.canonical newest) := by
  obtain ⟨write, hwrite, hlifecycle, hrecords⟩ := write_reconstructNewest
    (input.evaluating none evaluation) rfl hcomplete hperiod hdecidable
  obtain ⟨-, anchor, htracks⟩ := input.tracks_reconstructAt hcomplete hperiod
  refine ⟨_, anchor, establishes_singleton ?_ hlifecycle hrecords, htracks⟩
  obtain ⟨first, hfirst⟩ : ∃ first, evaluation.sessions.head? = some first := by
    cases hsessions : evaluation.sessions with
    | nil =>
      rw [hsessions] at hlast
      cases hlast
    | cons first rest => exact ⟨first, rfl⟩
  rw [← hwrite, decideLevelSessions_of_none (input.evaluating none evaluation) rfl hfirst hlast]
  exact congrArg _ (if_neg (Bool.eq_false_iff.mp hreplay))

/-- A level without a row, replayed over a window. -/
theorem establishes_replayed (hcomplete : input.historyComplete = true)
    {first newest : input.frame.Session} (hfirst : first ∈ input.frame.period) (hle : first ≤ newest)
    (hdecidable : (input.read newest).outcome ≠ .notEvaluable)
    (hreplay : evaluation.replay = true) (hwindow : evaluation.sessions = windowOf first newest) :
    ∃ lifecycle anchor, input.Establishes [evaluation] lifecycle
      ∧ Tracks input.level.ruleIds anchor (input.frame.dateOf newest) lifecycle
        (input.canonical newest) := by
  obtain ⟨write, lifecycle, anchor, hwrite, hlifecycle, hrecords, htracks⟩ := write_replayLevel
    (input.evaluating none evaluation) rfl hcomplete hwindow hfirst hle hdecidable
  refine ⟨lifecycle, anchor, establishes_singleton ?_ hlifecycle hrecords, htracks⟩
  obtain ⟨hhead, hlast⟩ := windowOf_ends hfirst hle
  rw [← hwrite, decideLevelSessions_of_none (input.evaluating none evaluation) rfl
    ((congrArg List.head? hwindow).trans hhead) ((congrArg List.getLast? hwindow).trans hlast)]
  exact congrArg _ (if_pos hreplay)

/-- **The three ways a Monitor establishes a level agree.** With all of the security's history in
the period of its frame, a level without a row reconstructed at the newest session, replayed over a
window that ends there, and established at an earlier session and caught up since agree, and each
records its changes as a chain to what is current. -/
theorem decideLevelSessions_threeWays (input : SessionDecisionInput F)
    (hcomplete : input.historyComplete = true) {newest first earlier : input.frame.Session}
    (hfirst : first ∈ input.frame.period) (hfirst_le : first ≤ newest)
    (hearlier : earlier ∈ input.frame.period) (hearlier_le : earlier ≤ newest)
    (hnewest_decidable : (input.read newest).outcome ≠ .notEvaluable)
    (hearlier_decidable : (input.read earlier).outcome ≠ .notEvaluable)
    {single window initial : LevelEvaluation input.frame}
    {batches : List (LevelEvaluation input.frame)}
    (hsingle : single.replay = false ∧ single.sessions.getLast? = some newest)
    (hwindow : window.replay = true ∧ window.sessions = windowOf first newest)
    (hinitial : initial.replay = false ∧ initial.sessions.getLast? = some earlier)
    (hbatches : batches.flatMap (·.sessions) = sessionsBetween earlier newest) :
    ∃ reconstructed replayed caughtUp,
      input.Establishes [single] reconstructed
        ∧ input.Establishes [window] replayed
        ∧ input.Establishes (initial :: batches) caughtUp
        ∧ input.AgreeAfter newest reconstructed replayed
        ∧ input.AgreeAfter newest reconstructed caughtUp := by
  have hnewest := mem_period_of_le hfirst hfirst_le
  obtain ⟨reconstructed, anchor, hreconstructed, htracks⟩ :=
    establishes_reconstructed hcomplete hnewest hnewest_decidable hsingle.1 hsingle.2
  obtain ⟨replayed, anchor', hreplayed, htracks'⟩ :=
    establishes_replayed hcomplete hfirst hfirst_le hnewest_decidable hwindow.1 hwindow.2
  obtain ⟨established, anchor'', hestablished, htracks''⟩ :=
    establishes_reconstructed hcomplete hearlier hearlier_decidable hinitial.1 hinitial.2
  have hcaughtUp := hestablished.catchUps htracks''.coherent batches
  rw [hbatches] at hcaughtUp
  exact ⟨reconstructed, replayed, _, hreconstructed, hreplayed, hcaughtUp,
    agreeAfter_of_tracks htracks htracks',
    agreeAfter_of_tracks htracks (tracks_through hearlier hnewest hearlier_le htracks'')⟩

/-! ### A sample level -/

/-- A BUY level while the price is above ten. -/
def aboveTen : MonitorStrategyLevel ExactNumber where
  id := "level"
  kind := .buy
  rules :=
    [{ conditions :=
        [{ id := "above", metric := .price none, operator := .isAbove
           value := .number (.finite 10) }]
       trigger := none }]
  ruleIds := ["rule"]
  fingerprint := "price above 10"
  hasTrigger := false
  ruleIds_length := rfl
  ruleIds_nodup := List.nodup_singleton _

/-- Four sessions; the price rises above ten on the second. -/
def risingFrame : EvaluationFrame ExactNumber where
  securityId := "security"
  symbol := "ACME"
  name := "Acme"
  dates := [.ofYmd 2024 1 2, .ofYmd 2024 1 3, .ofYmd 2024 1 4, .ofYmd 2024 1 5]
  closes := [.finite 9, .finite 11, .finite 12, .finite 8]
  columns := .empty
  periodStartIndex := 0
  closes_length := rfl
  ascending := by decide
  columns_length _ h := absurd h List.not_mem_nil

def risingInput : SessionDecisionInput ExactNumber where
  level := aboveTen
  strategyVersionId := "version"
  previous := none
  frame := risingFrame
  sessions := []
  historyComplete := true
  originOf _ := .observed
  monitoredOn _ := true
  replay := false

def risingSession (index : Fin 4) : risingInput.frame.Session := index

/-- An evaluation of the sample, over a new row. -/
def risingEvaluation (sessions : List (Fin 4)) (replay : Bool) : LevelEvaluation risingInput.frame where
  columns :=
    { id := "state"
      stateVersion := 1
      signalFingerprint := "price above 10"
      levelKind := .buy
      lastOutcome := .notMatched
      activeSignalId := none
      lifecycle := initialMonitorLevelLifecycle }
  sessions := sessions.map risingSession
  replay := replay

end SessionDecisionInput

end FactorSage
