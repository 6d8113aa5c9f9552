import FactorSage.Library.AscendingList
import FactorSage.Monitor.ForwardEvaluation

/-!
# What one pass moves past

`Issued.passed`: a member's progress moves past a session only when the read it was decided over
found its bar, or the schedule ruled the session out, or its absence was confirmed.
-/

namespace FactorSage.Monitor

open EodFinality

/-! ### Dates -/

theorem mem_datesThrough {first last date : ℤ} :
    date ∈ datesThrough first last ↔ first ≤ date ∧ date ≤ last := by
  unfold datesThrough
  rw [List.mem_map]
  constructor
  · rintro ⟨offset, hoffset, rfl⟩
    rw [List.mem_range] at hoffset
    omega
  · rintro ⟨hfirst, hlast⟩
    exact ⟨(date - first).toNat, List.mem_range.mpr (by omega), by omega⟩

theorem datesThrough_ascending (first last : ℤ) : (datesThrough first last).Pairwise (· < ·) := by
  unfold datesThrough
  rw [List.pairwise_map]
  exact List.pairwise_lt_range.imp fun hlt => by omega

/-- The least date is one of them and at most each. -/
theorem oldestOf_le {horizon : ℤ} {dates : List ℤ} :
    oldestOf horizon dates ≤ horizon ∧ ∀ date ∈ dates, oldestOf horizon dates ≤ date := by
  unfold oldestOf
  induction dates generalizing horizon with
  | nil => exact ⟨le_refl _, fun _ h => (nomatch h)⟩
  | cons date dates ih =>
    rw [List.foldl_cons]
    obtain ⟨hle, hall⟩ := @ih (min horizon date)
    refine ⟨hle.trans (min_le_left _ _), fun date' hmem => ?_⟩
    rcases List.mem_cons.mp hmem with rfl | hmem
    · exact hle.trans (min_le_right _ _)
    · exact hall date' hmem

/-! ### The frame -/

section Frame

variable {bars : Finset ℤ} {contextDays : ℕ} {start horizon : ℤ}

theorem frameOf_ascending : (frameOf bars contextDays start horizon).dates.Pairwise (· < ·) :=
  (Finset.sortedLT_sort _).pairwise

/-- A frame holds the bars from its context to the horizon. -/
theorem mem_frameOf {date : ℤ} :
    date ∈ (frameOf bars contextDays start horizon).dates
      ↔ date ∈ bars ∧ start - contextDays ≤ date ∧ date ≤ horizon := by
  unfold frameOf
  rw [Finset.mem_sort, Finset.mem_filter]

theorem period_eq : (frameOf bars contextDays start horizon).period
    = (frameOf bars contextDays start horizon).dates.filter fun date => start ≤ date :=
  AscendingList.drop_findIdx_eq_filter frameOf_ascending start

/-- The period of a frame holds the bars of its range. -/
theorem mem_period {date : ℤ} :
    date ∈ (frameOf bars contextDays start horizon).period
      ↔ date ∈ bars ∧ start ≤ date ∧ date ≤ horizon := by
  rw [period_eq, List.mem_filter, mem_frameOf, decide_eq_true_eq]
  constructor
  · rintro ⟨⟨hbar, -, hlast⟩, hfirst⟩
    exact ⟨hbar, hfirst, hlast⟩
  · rintro ⟨hbar, hfirst, hlast⟩
    exact ⟨⟨hbar, by omega, hlast⟩, hfirst⟩

/-- The dates a frame is evaluated on ascend. -/
theorem period_ascending : (frameOf bars contextDays start horizon).period.Pairwise (· < ·) := by
  rw [period_eq]
  exact frameOf_ascending.filter _

end Frame

/-! ### Readiness -/

section Pass

variable {policy : EodFinalityPolicy} {options : MonitorEvaluationOptions}

/-- The newest bar is stored, and no bar is newer. -/
theorem newestBar_spec {bars : Finset ℤ} {newest : ℤ} (h : newestBar bars = some newest) :
    newest ∈ bars ∧ ∀ bar ∈ bars, bar ≤ newest := by
  unfold newestBar at h
  have hmem := List.mem_of_getLast? h
  refine ⟨(Finset.mem_sort _).mp hmem, fun bar hbar => ?_⟩
  obtain ⟨front, hfront⟩ := List.getLast?_eq_some_iff.mp h
  have hsorted := (Finset.sortedLT_sort bars).pairwise
  rw [hfront] at hsorted
  have hin := (Finset.mem_sort (· ≤ ·)).mpr hbar
  rw [hfront] at hin
  rcases List.mem_append.mp hin with hin | hin
  · exact ((List.pairwise_append.mp hsorted).2.2 bar hin newest (List.mem_singleton.mpr rfl)).le
  · rw [List.mem_singleton.mp hin]

theorem newestBar_ne_none {bars : Finset ℤ} {bar : ℤ} (h : bar ∈ bars) :
    ∃ newest, newestBar bars = some newest := by
  unfold newestBar
  have hne : bars.sort ≠ [] := List.ne_nil_of_mem ((Finset.mem_sort (· ≤ ·)).mpr h)
  exact ⟨_, List.getLast?_eq_some_getLast hne⟩

theorem newestBar_eq {bars : Finset ℤ} {newest : ℤ} (hmem : newest ∈ bars)
    (hmax : ∀ bar ∈ bars, bar ≤ newest) : newestBar bars = some newest := by
  obtain ⟨found, hfound⟩ := newestBar_ne_none hmem
  obtain ⟨hin, hle⟩ := newestBar_spec hfound
  rw [hfound, le_antisymm (hmax found hin) (hle newest hmem)]

variable {answers : PassAnswers}

/-- The horizon is a session the newest read proved final, and at most the expected one. -/
theorem horizonOf_spec {expected horizon : ℤ}
    (h : horizonOf (stockRefreshState policy answers) expected = some horizon) :
    horizon ≤ expected ∧ ∃ syncedAt, answers.lastSyncedAt = some syncedAt
      ∧ horizon ≤ policy.eodCutoffDate syncedAt := by
  unfold horizonOf stockRefreshState minDefined at h
  dsimp only at h
  split at h
  · next a b hverified hrest =>
    obtain rfl := Option.some.inj h
    have hexpected : b ≤ expected := by
      unfold minDefined at hrest
      split at hrest
      · next hlast =>
        obtain rfl := Option.some.inj hrest
        unfold minDefined at hlast
        obtain rfl := Option.some.inj hlast
        exact min_le_right _ _
      · cases hrest
    refine ⟨(min_le_right _ _).trans hexpected, ?_⟩
    obtain ⟨verified, hthrough, hnewest⟩ := Option.bind_eq_some_iff.mp hverified
    obtain ⟨hmem, -⟩ := newestBar_spec hnewest
    have hle := (Finset.mem_filter.mp hmem).2
    unfold verifiedThrough at hthrough
    split at hthrough
    · next syncedAt tailDate hsynced htail =>
      obtain rfl := Option.some.inj hthrough
      exact ⟨syncedAt, hsynced, (min_le_left _ _).trans (hle.trans (min_le_right _ _))⟩
    · cases hthrough
  · cases h

/-- A session's missing bar is confirmed absent: the newest provider read was issued at least the
late-recovery horizon after it became final; of a security never read, the clock says so. -/
def Confirmed (policy : EodFinalityPolicy) (options : MonitorEvaluationOptions)
    (answers : PassAnswers) (now session : ℤ) : Prop :=
  match answers.lastSyncedAt with
  | some readAt => policy.eodSessionFinalizedAt session + options.lateRecoveryMs ≤ readAt
  | none => policy.eodSessionFinalizedAt session + options.lateRecoveryMs ≤ now

/-- The confirmed sessions are those up to a date. -/
theorem confirmed_iff (hpolicy : policy.NewYork) {now session : ℤ} :
    Confirmed policy options answers now session
      ↔ session ≤ confirmedThrough policy options (stockRefreshState policy answers) now := by
  unfold confirmedThrough
  rw [le_eodCutoffDate_iff hpolicy]
  unfold Confirmed stockRefreshState
  cases answers.lastSyncedAt with
  | none =>
    change _ ↔ _ ≤ now - _
    constructor <;> intro h <;> linarith
  | some readAt =>
    change _ ↔ _ ≤ readAt - _
    constructor <;> intro h <;> linarith

/-- The confirmed sessions reach to a week before the horizon. -/
theorem horizon_le_confirmedThrough (hpolicy : policy.NewYork)
    (hlate : options.lateRecoveryMs ≤ 6 * dayMs) {now expected horizon : ℤ}
    (h : horizonOf (stockRefreshState policy answers) expected = some horizon) :
    horizon - 7 ≤ confirmedThrough policy options (stockRefreshState policy answers) now := by
  obtain ⟨-, syncedAt, hsynced, hle⟩ := horizonOf_spec h
  rw [← confirmed_iff hpolicy]
  unfold Confirmed
  rw [hsynced]
  have hfinal := (le_eodCutoffDate_iff hpolicy).mp hle
  have hsteps := hpolicy.steps (horizon - 7) 7
  have hback : horizon - 7 + ((7 : ℕ) : ℤ) = horizon := by omega
  rw [hback] at hsteps
  change _ + _ ≤ syncedAt
  unfold dayMs at hlate
  unfold hourMs at hsteps
  push_cast at hsteps
  linarith

/-- What it finds lies between its bounds. -/
theorem newestSessionAfter_spec {schedule : ℤ → Option Bool} {after through date : ℤ}
    (h : newestSessionAfter schedule after through = some date) :
    after < date ∧ date ≤ through := by
  have hmem := List.mem_of_find?_eq_some h
  rw [List.mem_reverse, mem_datesThrough] at hmem
  omega

/-- A pass goes past the horizon over confirmed sessions only. -/
theorem passThroughOf_spec {state : StockRefreshState} {pass : SecurityPass} {horizon through : ℤ}
    (h : passThroughOf policy options state answers pass horizon = some through) :
    horizon < through ∧ through ≤ confirmedThrough policy options state pass.now
      ∧ ∀ bar ∈ state.latestBar, bar ≤ horizon := by
  unfold passThroughOf at h
  dsimp only at h
  split at h
  · next hready =>
    obtain ⟨hafter, hle⟩ := newestSessionAfter_spec h
    exact ⟨hafter, hle.trans (min_le_left _ _), hready.1⟩
  · cases h

/-! ### Plans -/

/-- An ETF behind the horizon only holds a member back. -/
theorem holdForEtf_le (pass : SecurityPass) (horizon abandoned : ℤ) (codes : List String)
    (held : ℤ × List String) :
    (codes.foldl (holdForEtf pass horizon abandoned) held).1 ≤ held.1 := by
  induction codes generalizing held with
  | nil => exact le_refl _
  | cons code codes ih =>
    rw [List.foldl_cons]
    refine (ih _).trans ?_
    unfold holdForEtf
    split
    · split
      · exact le_refl _
      · exact min_le_left _ _
    · exact min_le_left _ _

/-- No member is decided past the horizon. -/
theorem entryHorizon_le {pass : SecurityPass} {entry : Entry} {horizon through : ℤ}
    (h : (entryHorizon policy options pass entry horizon).1 = some through) :
    through ≤ horizon := by
  unfold entryHorizon at h
  dsimp only at h
  split at h
  · cases h
  · obtain rfl := Option.some.inj h
    exact holdForEtf_le pass horizon _ _ (horizon, [])

/-- A member with progress replays nothing. -/
theorem Entry.replayFrom_eq_none {entry : Entry} {fromDate : ℤ}
    (h : entry.fromDate = some fromDate) :
    entry.replayFrom = none := by
  unfold replayFrom
  dsimp only
  cases entry.windowStart with
  | none => rfl
  | some windowStart =>
    rw [h]
    rw [Option.bind_some, if_neg fun hfresh => Option.some_ne_none _ hfresh.1]

/-- A member without progress and without states, or whose membership changed, is reconstructed. -/
theorem Entry.levelsNeedReconstruction_of_states {entry : Entry} (hlevels : entry.levels ≠ [])
    (hstates : entry.record.states = []) : entry.levelsNeedReconstruction = true := by
  obtain ⟨level, hlevel⟩ := List.exists_mem_of_ne_nil _ hlevels
  unfold levelsNeedReconstruction
  rw [List.any_eq_true]
  refine ⟨level, hlevel, ?_⟩
  rw [hstates]
  rfl

/-! ### Gaps -/

variable {frame : EvaluationFrame}

/-- A session that may be scheduled and has no bar is a gap until it is confirmed. -/
theorem mem_recoverableGaps {schedule : ℤ → Option Bool}
    {fromDate confirmed horizon date : ℤ} (hfrom : fromDate ≤ date) (hconfirmed : confirmed < date)
    (hhorizon : date ≤ horizon) (hbar : date ∉ frame.dates)
    (hschedule : schedule date ≠ some false) :
    date ∈ recoverableGaps schedule frame fromDate confirmed horizon := by
  unfold recoverableGaps
  rw [List.mem_filter, mem_datesThrough, decide_eq_true_eq]
  refine ⟨⟨?_, hhorizon⟩, hbar, hschedule⟩
  split <;> omega

theorem recoverableGaps_ascending (schedule : ℤ → Option Bool) (frame : EvaluationFrame)
    (fromDate confirmed horizon : ℤ) :
    (recoverableGaps schedule frame fromDate confirmed horizon).Pairwise (· < ·) :=
  (datesThrough_ascending _ _).filter _

/-- An ETF's missing session moves a gap only to an earlier date. -/
structure GapBelow (through : ℤ) (stockGap gap : Option ℤ) : Prop where
  found : gap = none → stockGap = none
  within : ∀ date, gap = some date → date ≤ through
  earlier : ∀ date, gap = some date → ∀ first, stockGap = some first → date ≤ first

/-- All ETFs together move a gap only to an earlier date. -/
theorem gapBelow_foldl (plan : Plan) (frame : EvaluationFrame) (pass : SecurityPass)
    (abandoned : ℤ) {through : ℤ} {stockGap : Option ℤ} (codes : List String) :
    ∀ {gap : Option ℤ}, GapBelow through stockGap gap →
      GapBelow through stockGap (codes.foldl (etfGap plan frame pass abandoned through) gap) := by
  induction codes with
  | nil => exact fun h => h
  | cons code codes ih =>
    intro gap h
    rw [List.foldl_cons]
    refine ih ?_
    unfold etfGap
    split
    · exact h
    split
    · exact h
    split
    · next date hfind =>
      have hdate := List.find?_some hfind
      rw [decide_eq_true_eq] at hdate
      obtain ⟨-, hwithin, -, -, -, hfirst⟩ := hdate
      refine ⟨fun hnone => (nomatch hnone), ?_, ?_⟩
      · intro date' heq
        obtain rfl := Option.some.inj heq
        exact hwithin
      · intro date' heq first hstock
        obtain rfl := Option.some.inj heq
        cases gap with
        | none =>
          rw [h.found rfl] at hstock
          cases hstock
        | some earlier => exact (hfirst earlier rfl).le.trans (h.earlier earlier rfl first hstock)
    · exact h

variable {plan : Plan}

/-- **Where a member is held**: at its progress, or before each of the gaps after it. -/
theorem hold_spec {pass : SecurityPass} {gaps : List ℤ}
    (hgaps : gaps.Pairwise (· < ·)) {through : ℤ}
    (h : (holdAtRecoverableGap policy options pass plan frame gaps).2 = some through) :
    plan.fromDate = some through ∨ ((∃ last, plan.through = some last ∧ through ≤ last)
      ∧ ∀ gap ∈ gaps, plan.after gap = true → through < gap) := by
  unfold holdAtRecoverableGap at h
  split at h
  · cases h
  next last hlast =>
  dsimp only at h
  -- the first stock gap after the progress
  have hstock : GapBelow last (gaps.find? fun date => plan.after date ∧ date ≤ last)
      (gaps.find? fun date => plan.after date ∧ date ≤ last) := by
    refine ⟨id, fun date hdate => ?_, fun date hdate first hfirst => ?_⟩
    · have hfound := List.find?_some hdate
      rw [decide_eq_true_eq] at hfound
      exact hfound.2
    · exact (Option.some.inj (hdate.symm.trans hfirst)).le
  have hbelow := gapBelow_foldl plan frame pass (abandonedThrough policy options pass.now)
    (plan.entry.codes pass.sectorCode) hstock
  have hfirst : ∀ gap ∈ gaps, plan.after gap = true → gap ≤ last →
      ∃ first, (gaps.find? fun date => plan.after date ∧ date ≤ last) = some first
        ∧ first ≤ gap := by
    intro gap hgap hafter hle
    have hsome : (gaps.find? fun date => plan.after date ∧ date ≤ last).isSome = true :=
      List.find?_isSome.mpr ⟨gap, hgap, by rw [decide_eq_true_eq]; exact ⟨hafter, hle⟩⟩
    obtain ⟨first, hfind⟩ := Option.isSome_iff_exists.mp hsome
    refine ⟨first, hfind, ?_⟩
    obtain ⟨-, front, back, hsplit, hfront⟩ := List.find?_eq_some_iff_append.mp hfind
    rw [hsplit] at hgap hgaps
    rcases List.mem_append.mp hgap with hgap | hgap
    · exact absurd (hfront gap hgap) (by simp [hafter, hle])
    · rcases List.mem_cons.mp hgap with rfl | hgap
      · exact le_refl _
      · exact ((List.pairwise_cons.mp (List.pairwise_append.mp hgaps).2.1).1 gap hgap).le
  split at h
  · next hnone =>
    obtain rfl := Option.some.inj h
    refine .inr ⟨⟨last, hlast, le_refl _⟩, fun gap hgap hafter => ?_⟩
    by_contra hnot
    obtain ⟨first, hfind, -⟩ := hfirst gap hgap hafter (not_lt.mp hnot)
    rw [hbelow.found hnone] at hfind
    cases hfind
  · next held hheld =>
    split at h
    · next newest hnewest =>
      dsimp only at h
      split at h
      · obtain rfl := Option.some.inj h
        have hlt := List.mem_takeWhile_imp (List.mem_of_getLast? hnewest)
        rw [decide_eq_true_eq] at hlt
        refine .inr ⟨⟨last, hlast, hlt.le.trans (hbelow.within held hheld)⟩,
          fun gap hgap hafter => ?_⟩
        by_cases hle : gap ≤ last
        · obtain ⟨first, hfind, hfirst⟩ := hfirst gap hgap hafter hle
          exact hlt.trans_le ((hbelow.earlier held hheld first hfind).trans hfirst)
        · exact hlt.trans_le ((hbelow.within held hheld).trans (not_le.mp hle).le)
      · exact .inl h
    · exact .inl h

/-! ### The start of the frame -/

/-- An entry whose progress and states are those of the present binding: a member without progress
has no states. -/
structure Entry.Current (entry : Entry) : Prop where
  levels : entry.levels ≠ []
  fresh : entry.record.checkpoint = none → entry.record.states = []
  binding : ∀ checkpoint, entry.record.checkpoint = some checkpoint →
    checkpoint.configVersion = entry.configVersion

theorem Entry.Current.needsReconstruction {entry : Entry} (h : entry.Current)
    (hfrom : entry.fromDate = none) :
    (entry.resetMembership || entry.levelsNeedReconstruction) = true := by
  cases hcheckpoint : entry.record.checkpoint with
  | none =>
    rw [Entry.levelsNeedReconstruction_of_states h.levels (h.fresh hcheckpoint), Bool.or_true]
  | some checkpoint =>
    have hbinding := h.binding checkpoint hcheckpoint
    have hreset : entry.resetMembership = true := by
      by_contra hnot
      rw [Bool.not_eq_true] at hnot
      rw [Entry.fromDate, hcheckpoint, Option.bind_some, if_pos ⟨hnot, hbinding⟩] at hfrom
      cases hfrom
    rw [hreset, Bool.true_or]

/-- The frame starts at most at a date after a plan's progress or from its replay's start on, and for
a reconstruction at most a month before the horizon; but never before the canonical history. -/
theorem frameStart_le {work : List Plan} {horizon historyStart : ℤ} {sessions : ℕ}
    (hplan : plan ∈ work) {date : ℤ} (hhistory : historyStart ≤ date)
    (hreach : (∃ fromDate, plan.replayFrom = none ∧ plan.fromDate = some fromDate
        ∧ fromDate < date) ∨ (∃ replayFrom, plan.replayFrom = some replayFrom ∧ replayFrom ≤ date)
      ∨ (plan.needsReconstruction = true ∧ horizon - 30 ≤ date)) :
    (frameStart work horizon historyStart sessions).1 ≤ date := by
  have hsteady := (@oldestOf_le horizon (work.map (Plan.firstSession horizon))).2 _
    (List.mem_map_of_mem hplan)
  have hstart : reachOf work horizon sessions ≤ date := by
    unfold reachOf
    rcases hreach with ⟨fromDate, hreplay, hfrom, hlt⟩ | ⟨replayFrom, hreplay, hle⟩ | ⟨hneeds, hdate⟩
    · have hfirst : plan.firstSession horizon = fromDate + 1 := by
        unfold Plan.firstSession
        rw [hreplay, hfrom]
      rw [hfirst] at hsteady
      exact (min_le_left _ _).trans (hsteady.trans hlt)
    · have hfirst : plan.firstSession horizon = replayFrom := by
        unfold Plan.firstSession
        rw [hreplay]
      rw [hfirst] at hsteady
      exact (min_le_left _ _).trans (hsteady.trans hle)
    · have hany : work.any Plan.needsReconstruction = true :=
        List.any_eq_true.mpr ⟨plan, hplan, hneeds⟩
      have hbase := (@oldestOf_le horizon
        ((work.filter Plan.needsReconstruction).map (Plan.anchor horizon))).1
      have hwindow : 30 ≤ monitorWindowCalendarDays sessions := Nat.le_add_left _ _
      refine (min_le_right _ _).trans ?_
      rw [if_pos hany]
      omega
  unfold frameStart
  dsimp only
  split
  · split
    · exact hhistory
    · exact hstart
  · exact hstart

/-! ### One write -/

/-- A member moves on to the last session decided, or to the end of the pass. -/
theorem nextOf_spec {sessions : List ℤ} {passThrough : Option ℤ} {horizon next : ℤ}
    (h : nextOf sessions passThrough horizon = some next) :
    ∃ last, sessions.getLast? = some last
      ∧ (next = last ∨ (horizon ≤ last ∧ last < next ∧ passThrough = some next)) := by
  unfold nextOf at h
  split at h
  · next last through hlast =>
    split at h
    · next hpass =>
      obtain rfl := Option.some.inj h
      exact ⟨last, hlast, .inr ⟨hpass.1, hpass.2, rfl⟩⟩
    · obtain rfl := Option.some.inj h
      exact ⟨last, hlast, .inl rfl⟩
  · exact ⟨next, h, .inl rfl⟩

/-- What can be decided: the monitored sessions after the recorded one. -/
theorem Plan.mem_candidates {through : Option ℤ} {date : ℤ} :
    date ∈ plan.candidates frame through ↔ date ∈ frame.period ∧ plan.after date = true
      ∧ (∃ last, through = some last ∧ date ≤ last) ∧ plan.entry.monitoredOn date = true := by
  unfold candidates
  rw [List.mem_filter, decide_eq_true_eq]
  rfl

theorem Plan.after_iff {date : ℤ} :
    plan.after date = true ↔ ∀ fromDate, plan.fromDate = some fromDate → fromDate < date := by
  unfold after
  cases plan.fromDate with
  | none => exact ⟨fun _ _ h => (nomatch h), fun _ => rfl⟩
  | some fromDate =>
    rw [decide_eq_true_eq]
    exact ⟨fun h _ heq => Option.some.inj heq ▸ h, fun h => h fromDate rfl⟩

/-- What a member's sessions are: all candidates after its progress, the window of its replay or the
newest candidate where it has none, or its newest session again. -/
inductive Plan.SessionsOf (plan : Plan) (frame : EvaluationFrame) (through : Option ℤ) : Prop
  /-- Every session after the progress. -/
  | steady (fromDate : ℤ) (hfrom : plan.fromDate = some fromDate)
      (hsessions : plan.sessions frame through = plan.candidates frame through)
      (hredecide : plan.redecideEdited frame through = false)
  /-- The newest session, again, for the edited levels. -/
  | redecided (fromDate : ℤ) (hfrom : plan.fromDate = some fromDate)
      (hsessions : ∀ date ∈ plan.sessions frame through, date = fromDate)
      (hredecide : plan.redecideEdited frame through = true)
  /-- Every window session of a replay. -/
  | replayed (replayFrom : ℤ) (hfrom : plan.fromDate = none)
      (hreplay : plan.replayFrom = some replayFrom) (hwindow : plan.window frame through ≠ [])
      (hsessions : plan.sessions frame through
        = (plan.candidates frame through).filter fun date => replayFrom ≤ date)
      (hredecide : plan.redecideEdited frame through = false)
  /-- The newest session alone. -/
  | newest (hfrom : plan.fromDate = none) (hwindow : plan.window frame through = [])
      (hsessions : plan.sessions frame through = (plan.candidates frame through).getLast?.toList)
      (hredecide : plan.redecideEdited frame through = false)

/-- **What a plan decides**, by how its member starts. -/
theorem Plan.sessionsOf {through : Option ℤ}
    (hreplay : ∀ fromDate, plan.fromDate = some fromDate → plan.replayFrom = none) :
    plan.SessionsOf frame through := by
  -- a member with a recorded date goes on from it; one without starts at the newest session or
  -- replays
  cases hfrom : plan.fromDate with
  | some fromDate =>
    have hwindow : plan.window frame through = [] := by
      unfold window
      rw [hreplay fromDate hfrom]
    cases hredecide : plan.redecideEdited frame through with
    | true =>
      refine .redecided fromDate hfrom (fun date hdate => ?_) hredecide
      unfold sessions at hdate
      rw [hwindow, if_neg (not_not.mpr rfl), hredecide, if_pos rfl, List.mem_filter, hfrom,
        decide_eq_true_eq] at hdate
      exact (Option.some.inj hdate.2).symm
    | false =>
      refine .steady fromDate hfrom ?_ hredecide
      unfold sessions
      rw [hwindow, if_neg (not_not.mpr rfl), hredecide, if_neg (by decide), hfrom,
        if_neg (Option.some_ne_none _)]
  | none =>
    have hredecide : plan.redecideEdited frame through = false := by
      unfold redecideEdited
      rw [hfrom]
      rfl
    by_cases hwindow : plan.window frame through = []
    · refine .newest hfrom hwindow ?_ hredecide
      unfold sessions
      rw [hwindow, if_neg (not_not.mpr rfl), hredecide, if_neg (by decide), hfrom, if_pos rfl]
    · have hsessions : plan.sessions frame through = plan.window frame through := by
        unfold sessions
        rw [if_pos hwindow]
      cases hstart : plan.replayFrom with
      | none =>
        unfold window at hwindow
        rw [hstart] at hwindow
        exact absurd rfl hwindow
      | some replayFrom =>
        refine .replayed replayFrom hfrom hstart hwindow (hsessions.trans ?_) hredecide
        unfold window
        rw [hstart]

namespace Plan.SessionsOf

variable {plan : Plan} {frame : EvaluationFrame} {through : Option ℤ}

/-- A re-decision hands the progress again. -/
theorem eq_of_redecideEdited (h : plan.SessionsOf frame through)
    (hredecide : plan.redecideEdited frame through = true) {session : ℤ}
    (hmem : session ∈ plan.sessions frame through) : plan.fromDate = some session := by
  cases h with
  | redecided fromDate hfrom hsessions _ =>
    rw [hsessions session hmem]
    exact hfrom
  | steady _ _ _ hfalse | replayed _ _ _ _ _ hfalse | newest _ _ _ hfalse =>
    rw [hredecide] at hfalse
    cases hfalse

/-- Every session handed is a candidate, or the progress itself. -/
theorem mem (h : plan.SessionsOf frame through) {session : ℤ}
    (hmem : session ∈ plan.sessions frame through) :
    session ∈ plan.candidates frame through
      ∨ (plan.redecideEdited frame through = true ∧ plan.fromDate = some session) := by
  have hof := h
  cases h with
  | steady fromDate hfrom hsessions hredecide => exact .inl (hsessions ▸ hmem)
  | redecided fromDate hfrom hsessions hredecide =>
    exact .inr ⟨hredecide, hof.eq_of_redecideEdited hredecide hmem⟩
  | replayed replayFrom hfrom hreplay hwindow hsessions hredecide =>
    rw [hsessions] at hmem
    exact .inl (List.mem_of_mem_filter hmem)
  | newest hfrom hwindow hsessions hredecide =>
    rw [hsessions, Option.mem_toList] at hmem
    exact .inl (List.mem_of_getLast? hmem)

theorem ascending (h : plan.SessionsOf frame through) (hascending : frame.period.Pairwise (· < ·))
    (hredecide : plan.redecideEdited frame through = false) :
    (plan.sessions frame through).Pairwise (· < ·) := by
  have hcandidates : (plan.candidates frame through).Pairwise (· < ·) := hascending.filter _
  cases h with
  | steady fromDate hfrom hsessions _ => exact hsessions ▸ hcandidates
  | redecided fromDate hfrom _ htrue =>
    rw [hredecide] at htrue
    cases htrue
  | replayed replayFrom hfrom hreplay hwindow hsessions _ => exact hsessions ▸ hcandidates.filter _
  | newest hfrom hwindow hsessions _ =>
    rw [hsessions]
    cases (plan.candidates frame through).getLast? with
    | none => exact List.Pairwise.nil
    | some last => exact List.pairwise_singleton _ _

/-- A session after the progress is at most the newest one handed only where that is a candidate. -/
theorem last_mem_candidates (h : plan.SessionsOf frame through) {session last : ℤ}
    (hlast : last ∈ plan.sessions frame through) (hafter : plan.after session = true)
    (hle : session ≤ last) :
    last ∈ plan.candidates frame through ∧ plan.redecideEdited frame through = false := by
  have hnot : plan.fromDate ≠ some last := fun hfrom =>
    absurd (Plan.after_iff.mp hafter last hfrom) (not_lt.mpr hle)
  refine ⟨(h.mem hlast).resolve_right fun hagain => hnot hagain.2, ?_⟩
  by_contra htrue
  exact hnot (h.eq_of_redecideEdited (Bool.not_eq_false _ ▸ htrue) hlast)

end Plan.SessionsOf

/-- **What one write of a pass does** with the member it was decided for. -/
structure Issued (policy : EodFinalityPolicy) (options : MonitorEvaluationOptions)
    (pass : SecurityPass) (answers : PassAnswers) (write : MemberEvaluationWrite) : Prop where
  /-- The security was read. -/
  synced : ∃ syncedAt, answers.lastSyncedAt = some syncedAt
  previous : write.previous
    = write.entry.record.checkpoint.map PersistedCheckpoint.evaluatedThrough
  /-- Progress never moves back, and where it begins the write records a coverage start. -/
  forward : ∀ fromDate, write.entry.fromDate = some fromDate → fromDate ≤ write.next
  begins : write.entry.fromDate = none → ∃ start, write.coverageStart = some start
  ascending : write.decided.Pairwise (· < ·)
  after : ∀ session ∈ write.decided, session ≤ write.next
    ∧ ∀ fromDate, write.entry.fromDate = some fromDate → fromDate < session
  /-- A session it moves past has its bar in the read, or is none, or is confirmed absent. -/
  passed : ∀ session, answers.historyStart ≤ session → session ≤ write.next →
    (∀ fromDate, write.entry.fromDate = some fromDate → fromDate < session) →
    (write.entry.fromDate = none →
      write.entry.Current ∨ ∃ start, write.coverageStart = some start ∧ start ≤ session) →
    (∀ attempt read, write.attempt = some attempt → answers.read attempt = some read →
      session ∉ read.bars ∧ answers.gapSchedule attempt session ≠ some false) →
    Confirmed policy options answers pass.now session
  /-- A session whose bar is found is decided: after the progress, and where the progress begins here
  from the coverage start recorded with it. -/
  complete : ∀ session, answers.historyStart ≤ session → session ≤ write.next →
    write.entry.monitoredOn session = true →
    (∀ fromDate, write.entry.fromDate = some fromDate → fromDate < session) →
    (write.entry.fromDate = none → ∃ start, write.coverageStart = some start ∧ start ≤ session) →
    (Confirmed policy options answers pass.now session → session ∈ answers.bars) →
    (∀ attempt read, write.attempt = some attempt → answers.read attempt = some read →
      session ∈ read.bars) →
    session ∈ write.decided
  /-- The levels are handed the sessions decided. A re-decision decides no new one: the levels whose
  state is not of their present logic are handed the session of the progress again. -/
  handed : ∀ call ∈ write.calls, call.sessions = write.decided
    ∨ (write.decided = [] ∧ (∀ session ∈ call.sessions, write.entry.fromDate = some session)
        ∧ write.entry.record.states.lookup call.level.id ≠ some call.level.fingerprint)
  everyLevel : write.decided ≠ [] → ∀ level ∈ write.entry.levels,
    ∃ call ∈ write.calls, call.level = level ∧ call.sessions = write.decided

section Issued

variable {pass : SecurityPass} {answers : PassAnswers} {horizon : ℤ} {entry : Entry}

/-- Nothing after the horizon is stored when the security may be passed. -/
theorem le_horizon_of_passThrough {through session : ℤ}
    (h : passThroughOf policy options (stockRefreshState policy answers) answers pass horizon
      = some through) (hbar : session ∈ answers.bars) : session ≤ horizon := by
  obtain ⟨newest, hnewest⟩ := newestBar_ne_none hbar
  exact ((newestBar_spec hnewest).2 session hbar).trans
    ((passThroughOf_spec h).2.2 newest hnewest)

/-- The write that only passes sessions. -/
theorem issued_passWrite (hpolicy : policy.NewYork)
    (hhorizon : horizonOf (stockRefreshState policy answers) pass.expected = some horizon)
    {through : ℤ} {generation : ℕ}
    (hthrough : passThroughOf policy options (stockRefreshState policy answers) answers pass horizon
      = some through)
    (hpasses : (planOf policy options pass horizon entry).passesOnly horizon (some through)
      = true) :
    Issued policy options pass answers
      (passWrite through generation (planOf policy options pass horizon entry)) := by
  have hplan : ∃ fromDate, entry.fromDate = some fromDate ∧ horizon ≤ fromDate
      ∧ fromDate < through := by
    unfold Plan.passesOnly at hpasses
    split at hpasses
    · next passThrough fromDate hsome hfrom =>
      obtain rfl := Option.some.inj hsome
      rw [decide_eq_true_eq] at hpasses
      exact ⟨fromDate, hfrom, hpasses.1, hpasses.2.1⟩
    · cases hpasses
  obtain ⟨fromDate, hfrom, hdone, hlt⟩ := hplan
  have hbefore : ∀ session, (∀ fromDate', entry.fromDate = some fromDate' → fromDate' < session) →
      horizon < session := fun session hafter => hdone.trans_lt (hafter fromDate hfrom)
  have hconfirmed : ∀ session, session ≤ through →
      Confirmed policy options answers pass.now session :=
    fun session hle =>
      (confirmed_iff hpolicy).mpr (le_trans hle (passThroughOf_spec hthrough).2.1)
  obtain ⟨-, syncedAt, hsynced, -⟩ := horizonOf_spec hhorizon
  refine ⟨⟨syncedAt, hsynced⟩, rfl, fun fromDate' heq => ?_, fun hnone => ?_, List.Pairwise.nil,
    fun _ h => (nomatch h), fun session _ hnext _ _ _ => hconfirmed session hnext,
    fun session _ hnext _ hafter _ hbar _ => ?_, fun _ h => (nomatch h), fun h => absurd rfl h⟩
  · obtain rfl := Option.some.inj (hfrom.symm.trans heq)
    exact hlt.le
  · exact absurd (hfrom.symm.trans hnone) (Option.some_ne_none _)
  · exact absurd (le_horizon_of_passThrough hthrough (hbar (hconfirmed session hnext)))
      (not_le.mpr (hbefore session hafter))

variable {decideLevelSessions : Entry → EvaluationFrame → LevelCall → SessionDecision}

/-- Every call is for the plan's sessions, and a re-decision calls edited levels only. -/
theorem mem_levelCalls {plan : Plan} {frame : EvaluationFrame} {through : Option ℤ}
    {complete : Bool} {call : LevelCall} (h : call ∈ plan.levelCalls frame through complete) :
    call.sessions = plan.sessions frame through ∧ (plan.redecideEdited frame through = true →
      plan.entry.record.states.lookup call.level.id ≠ some call.level.fingerprint) := by
  unfold Plan.levelCalls at h
  obtain ⟨level, hlevel, rfl⟩ := List.mem_map.mp h
  refine ⟨rfl, fun hredecide hstate => ?_⟩
  have hfilter := (List.mem_filter.mp hlevel).2
  rw [decide_eq_true_eq] at hfilter
  exact hfilter ⟨hredecide, hstate⟩

/-- Without one every level is called. -/
theorem exists_levelCall {plan : Plan} {frame : EvaluationFrame} {through : Option ℤ}
    {complete : Bool} (hredecide : plan.redecideEdited frame through = false)
    {level : MonitorStrategyLevel} (hlevel : level ∈ plan.entry.levels) :
    ∃ call ∈ plan.levelCalls frame through complete, call.level = level
      ∧ call.sessions = plan.sessions frame through := by
  unfold Plan.levelCalls
  refine ⟨_, List.mem_map_of_mem (List.mem_filter.mpr ⟨hlevel, ?_⟩), rfl, rfl⟩
  rw [decide_eq_true_eq]
  rintro ⟨hnot, -⟩
  rw [hredecide] at hnot
  cases hnot

section DecideEntry

variable {plan : Plan} {frame : EvaluationFrame} {start : ℤ} {attempt : ℕ} {read : FrameRead}
  {through passThrough : Option ℤ} {write : MemberEvaluationWrite}

/-- What a plan is decided over: one read of a frame, how far the member is held in it, and how far
the frame reaches back. -/
structure DecidedOver (policy : EodFinalityPolicy) (options : MonitorEvaluationOptions)
    (pass : SecurityPass) (answers : PassAnswers) (horizon : ℤ) (plan : Plan)
    (frame : EvaluationFrame) (start : ℤ) (attempt : ℕ) (read : FrameRead)
    (through passThrough : Option ℤ) : Prop where
  found : answers.read attempt = some read
  axis : frame = frameOf read.bars answers.contextDays start horizon
  stored : plan.stored = plan.entry.record.checkpoint.map PersistedCheckpoint.evaluatedThrough
  progress : plan.fromDate = plan.entry.fromDate
  replays : ∀ fromDate, plan.fromDate = some fromDate → plan.replayFrom = none
  held : ∀ last, through = some last → plan.fromDate = some last
    ∨ (last ≤ horizon ∧ ∀ gap ∈ recoverableGaps (answers.gapSchedule attempt) frame start
        (confirmedThrough policy options (stockRefreshState policy answers) pass.now) horizon,
      plan.after gap = true → last < gap)
  pass : ∀ last, passThrough = some last →
    passThroughOf policy options (stockRefreshState policy answers) answers pass horizon = some last
  reach : ∀ session, answers.historyStart ≤ session → plan.after session = true →
    (plan.fromDate = none → (plan.entry.Current ∧ horizon - 30 ≤ session)
      ∨ ∃ replayFrom, plan.replayFrom = some replayFrom ∧ replayFrom ≤ session) →
    start ≤ session

/-- What the write of a decided plan says. -/
structure Plan.Writes (plan : Plan) (frame : EvaluationFrame) (through passThrough : Option ℤ)
    (horizon : ℤ) (attempt : ℕ) (write : MemberEvaluationWrite) : Prop where
  entry : write.entry = plan.entry
  previous : write.previous = plan.stored
  attempt : write.attempt = some attempt
  decided : write.decided
    = if plan.redecideEdited frame through then [] else plan.sessions frame through
  calls : ∃ complete, write.calls = plan.levelCalls frame through complete
  coverage : plan.fromDate = none → write.coverageStart
    = if plan.window frame through ≠ [] then plan.replayFrom
      else (plan.sessions frame through).getLast?
  moves : ∃ last, (plan.sessions frame through).getLast? = some last
    ∧ (write.next = last
      ∨ (horizon ≤ last ∧ last < write.next ∧ passThrough = some write.next))

/-- What is written is what was decided. -/
theorem writes_decideEntry {complete : Bool} {generation : ℕ}
    (h : (decideEntry decideLevelSessions plan frame through complete passThrough horizon generation
      attempt).2 = some write) :
    plan.Writes frame through passThrough horizon attempt write := by
  obtain ⟨next, hnext, rfl⟩ := Option.map_eq_some_iff.mp h
  refine ⟨rfl, rfl, rfl, rfl, ⟨complete, rfl⟩, fun hnone => ?_, nextOf_spec hnext⟩
  rw [hnone]
  rfl

theorem Plan.Writes.decided_of_not_redecided
    (hw : plan.Writes frame through passThrough horizon attempt write)
    (hredecide : plan.redecideEdited frame through = false) :
    write.decided = plan.sessions frame through := by
  rw [hw.decided, hredecide]
  rfl

/-- A session decided was handed, and not again. -/
theorem Plan.Writes.of_mem_decided
    (hw : plan.Writes frame through passThrough horizon attempt write) {session : ℤ}
    (hmem : session ∈ write.decided) :
    plan.redecideEdited frame through = false ∧ session ∈ plan.sessions frame through := by
  rw [hw.decided] at hmem
  cases hredecide : plan.redecideEdited frame through with
  | false =>
    rw [hredecide] at hmem
    exact ⟨rfl, hmem⟩
  | true =>
    rw [hredecide] at hmem
    cases hmem

/-- Where the progress begins, its coverage start is recorded. -/
theorem Plan.Writes.begins
    (hw : plan.Writes frame through passThrough horizon attempt write)
    (hnone : plan.fromDate = none) : ∃ coverageStart, write.coverageStart = some coverageStart := by
  obtain ⟨last, hlast, -⟩ := hw.moves
  rw [hw.coverage hnone]
  split
  · next hwindow =>
    cases hreplay : plan.replayFrom with
    | some replayFrom => exact ⟨replayFrom, rfl⟩
    | none =>
      unfold window at hwindow
      rw [hreplay] at hwindow
      exact absurd rfl hwindow
  · exact ⟨last, hlast⟩

namespace DecidedOver

variable (h : DecidedOver policy options pass answers horizon plan frame start attempt read through
  passThrough)

include h

/-- The session is not beyond where the member is held. -/
theorem of_mem_candidates {date : ℤ} (hmem : date ∈ plan.candidates frame through) :
    start ≤ date ∧ date ≤ horizon ∧ plan.after date = true
      ∧ ∃ held, through = some held ∧ date ≤ held := by
  obtain ⟨hin, hafter, hheld, -⟩ := Plan.mem_candidates.mp hmem
  rw [h.axis] at hin
  obtain ⟨-, hstart, hle⟩ := mem_period.mp hin
  exact ⟨hstart, hle, hafter, hheld⟩

theorem mem_candidates {session last : ℤ} (hlast : last ∈ plan.candidates frame through)
    (hle : session ≤ last) (hstart : start ≤ session) (hbar : session ∈ read.bars)
    (hafter : plan.after session = true) (hmonitored : plan.entry.monitoredOn session = true) :
    session ∈ plan.candidates frame through := by
  obtain ⟨-, hlastHorizon, -, held, hheld, hlastHeld⟩ := h.of_mem_candidates hlast
  refine Plan.mem_candidates.mpr ⟨?_, hafter, ⟨held, hheld, hle.trans hlastHeld⟩, hmonitored⟩
  rw [h.axis]
  exact mem_period.mpr ⟨hbar, hstart, hle.trans hlastHorizon⟩

theorem ascending : frame.period.Pairwise (· < ·) := by
  rw [h.axis]
  exact period_ascending

variable (hw : plan.Writes frame through passThrough horizon attempt write)

include hw

/-- From the coverage start of a progress that begins here, the frame holds what is printed. -/
theorem start_le (hnone : plan.fromDate = none) {coverageStart session : ℤ}
    (hcoverage : write.coverageStart = some coverageStart) (hle : coverageStart ≤ session)
    (hhistory : answers.historyStart ≤ session) : start ≤ session := by
  rw [hw.coverage hnone] at hcoverage
  have hof : plan.SessionsOf frame through := Plan.sessionsOf h.replays
  cases hof with
  | steady fromDate hfrom | redecided fromDate hfrom =>
    rw [hnone] at hfrom
    cases hfrom
  | replayed replayFrom _ hreplay hwindow =>
    rw [if_pos hwindow] at hcoverage
    refine h.reach session hhistory (Plan.after_iff.mpr fun _ hfrom => ?_)
      fun _ => .inr ⟨coverageStart, hcoverage, hle⟩
    rw [hnone] at hfrom
    cases hfrom
  | newest _ hwindow hsessions =>
    rw [if_neg (not_not.mpr hwindow)] at hcoverage
    have hmem := List.mem_of_getLast? hcoverage
    rw [hsessions, Option.mem_toList] at hmem
    exact (h.of_mem_candidates (List.mem_of_getLast? hmem)).1.trans hle

/-- A session that the write moves past has its bar in the read, or is none, or is confirmed
absent. -/
theorem passed (hpolicy : policy.NewYork) (hlate : options.lateRecoveryMs ≤ 6 * dayMs)
    (hhorizon : horizonOf (stockRefreshState policy answers) pass.expected = some horizon)
    {session : ℤ} (hhistory : answers.historyStart ≤ session) (hle : session ≤ write.next)
    (hafter : plan.after session = true)
    (hentered : plan.fromDate = none → plan.entry.Current
      ∨ ∃ coverageStart, write.coverageStart = some coverageStart ∧ coverageStart ≤ session)
    (hbar : session ∉ read.bars) (hschedule : answers.gapSchedule attempt session ≠ some false) :
    Confirmed policy options answers pass.now session := by
  rw [confirmed_iff hpolicy]
  obtain ⟨last, hlast, hnext | ⟨-, -, hpass⟩⟩ := hw.moves
  · rw [hnext] at hle
    by_contra hunconfirmed
    obtain ⟨hcandidate, -⟩ := (Plan.sessionsOf h.replays).last_mem_candidates
      (List.mem_of_getLast? hlast) hafter hle
    obtain ⟨-, hlastHorizon, hlastAfter, held, hheld, hlastHeld⟩ := h.of_mem_candidates hcandidate
    rcases h.held held hheld with hprogress | ⟨-, hgaps⟩
    · exact absurd (Plan.after_iff.mp hlastAfter held hprogress) (not_lt.mpr hlastHeld)
    · -- the session is a gap the member would have been held before
      have hweek : horizon - 7
          ≤ confirmedThrough policy options (stockRefreshState policy answers) pass.now :=
        horizon_le_confirmedThrough hpolicy hlate hhorizon
      have hstart : start ≤ session := by
        by_cases hcovered : plan.fromDate = none ∧ ∃ coverageStart,
            write.coverageStart = some coverageStart ∧ coverageStart ≤ session
        · obtain ⟨hnone, coverageStart, hcoverage, hcovered⟩ := hcovered
          exact h.start_le hw hnone hcoverage hcovered hhistory
        · refine h.reach session hhistory hafter fun hnone => .inl ⟨?_, by omega⟩
          exact (hentered hnone).resolve_right fun hstart => hcovered ⟨hnone, hstart⟩
      have hdates : session ∉ frame.dates := fun hin => by
        rw [h.axis] at hin
        exact hbar (mem_frameOf.mp hin).1
      have hgap := mem_recoverableGaps hstart (not_le.mp hunconfirmed) (hle.trans hlastHorizon)
        hdates hschedule
      exact absurd (hgaps session hgap hafter) (not_lt.mpr (hle.trans hlastHeld))
  · exact hle.trans (passThroughOf_spec (h.pass _ hpass)).2.1

/-- A session whose bar is found is decided. -/
theorem complete (hpolicy : policy.NewYork) {session : ℤ} (hhistory : answers.historyStart ≤ session)
    (hle : session ≤ write.next) (hmonitored : plan.entry.monitoredOn session = true)
    (hafter : plan.after session = true)
    (hcovered : plan.fromDate = none →
      ∃ coverageStart, write.coverageStart = some coverageStart ∧ coverageStart ≤ session)
    (hshown : Confirmed policy options answers pass.now session → session ∈ answers.bars)
    (hbar : session ∈ read.bars) : session ∈ write.decided := by
  obtain ⟨last, hlast, hmove⟩ := hw.moves
  have hleLast : session ≤ last := by
    rcases hmove with hnext | ⟨hhorizonLast, -, hpass⟩
    · exact hnext ▸ hle
    · -- past the newest session handed everything is confirmed absent
      have hthrough := h.pass _ hpass
      have hconfirmed : Confirmed policy options answers pass.now session :=
        (confirmed_iff hpolicy).mpr (hle.trans (passThroughOf_spec hthrough).2.1)
      exact (le_horizon_of_passThrough hthrough (hshown hconfirmed)).trans hhorizonLast
  have hof : plan.SessionsOf frame through := Plan.sessionsOf h.replays
  obtain ⟨hcandidate, hredecide⟩ :=
    hof.last_mem_candidates (List.mem_of_getLast? hlast) hafter hleLast
  have hin : start ≤ session → session ∈ plan.candidates frame through := fun hstart =>
    h.mem_candidates hcandidate hleLast hstart hbar hafter hmonitored
  rw [hw.decided_of_not_redecided hredecide]
  cases hof with
  | steady fromDate hprogress hsessions _ =>
    rw [hsessions]
    refine hin (h.reach session hhistory hafter fun hnone => ?_)
    rw [hprogress] at hnone
    cases hnone
  | redecided _ _ _ htrue =>
    rw [hredecide] at htrue
    cases htrue
  | replayed replayFrom hnone hreplay hwindow hsessions _ =>
    obtain ⟨coverageStart, hcoverage, hstart⟩ := hcovered hnone
    have hsession := hin (h.start_le hw hnone hcoverage hstart hhistory)
    rw [hw.coverage hnone, if_pos hwindow, hreplay] at hcoverage
    obtain rfl := Option.some.inj hcoverage
    rw [hsessions]
    exact List.mem_filter.mpr ⟨hsession, decide_eq_true hstart⟩
  | newest hnone hwindow hsessions _ =>
    -- the coverage begins with the newest session, so the session is that one
    obtain ⟨coverageStart, hcoverage, hstart⟩ := hcovered hnone
    rw [hw.coverage hnone, if_neg (not_not.mpr hwindow), hlast] at hcoverage
    obtain rfl := Option.some.inj hcoverage
    rw [le_antisymm hleLast hstart]
    exact List.mem_of_getLast? hlast

/-- Progress never moves back: the newest session handed is the progress again, or after it. -/
theorem forward {fromDate : ℤ} (hfrom : plan.fromDate = some fromDate) : fromDate ≤ write.next := by
  obtain ⟨last, hlast, hmove⟩ := hw.moves
  have hlastNext : last ≤ write.next := by
    rcases hmove with hnext | ⟨-, hlt, -⟩
    · exact hnext.ge
    · exact hlt.le
  refine le_trans ?_ hlastNext
  rcases (Plan.sessionsOf h.replays).mem (List.mem_of_getLast? hlast) with hcandidate | ⟨-, hagain⟩
  · exact (Plan.after_iff.mp (h.of_mem_candidates hcandidate).2.2.1 fromDate hfrom).le
  · exact (Option.some.inj (hfrom.symm.trans hagain)).le

/-- A decided session is after the progress, and not after the one the write leaves. -/
theorem after {session : ℤ} (hmem : session ∈ write.decided) :
    session ≤ write.next ∧ plan.after session = true := by
  have hof : plan.SessionsOf frame through := Plan.sessionsOf h.replays
  obtain ⟨hredecide, hmem⟩ := hw.of_mem_decided hmem
  obtain ⟨last, hlast, hmove⟩ := hw.moves
  have hle := AscendingList.le_of_getLast? (hof.ascending h.ascending hredecide) hlast hmem
  constructor
  · rcases hmove with hnext | ⟨-, hlt, -⟩
    · exact hle.trans hnext.ge
    · exact hle.trans hlt.le
  · rcases hof.mem hmem with hcandidate | ⟨htrue, -⟩
    · exact (h.of_mem_candidates hcandidate).2.2.1
    · rw [hredecide] at htrue
      cases htrue

/-- The decided sessions ascend. -/
theorem decided_ascending : write.decided.Pairwise (· < ·) := by
  rw [hw.decided]
  split
  · exact List.Pairwise.nil
  · next hredecide =>
    exact (Plan.sessionsOf h.replays).ascending h.ascending (Bool.not_eq_true _ ▸ hredecide)

/-- What each level is handed. -/
theorem handed {call : LevelCall} (hcall : call ∈ write.calls) : call.sessions = write.decided
      ∨ (write.decided = [] ∧ (∀ session ∈ call.sessions, plan.fromDate = some session)
        ∧ plan.entry.record.states.lookup call.level.id ≠ some call.level.fingerprint) := by
  obtain ⟨complete, hcalls⟩ := hw.calls
  rw [hcalls] at hcall
  obtain ⟨hsessions, hstale⟩ := mem_levelCalls hcall
  cases hredecide : plan.redecideEdited frame through with
  | false => exact .inl (hsessions.trans (hw.decided_of_not_redecided hredecide).symm)
  | true =>
    refine .inr ⟨?_, fun session hmem => ?_, hstale hredecide⟩
    · rw [hw.decided, hredecide]
      rfl
    · rw [hsessions] at hmem
      exact (Plan.sessionsOf h.replays).eq_of_redecideEdited hredecide hmem

/-- **A write from a frame is issued** as its plan says. -/
theorem issued (hpolicy : policy.NewYork) (hlate : options.lateRecoveryMs ≤ 6 * dayMs)
    (hhorizon : horizonOf (stockRefreshState policy answers) pass.expected = some horizon) :
    Issued policy options pass answers write := by
  obtain ⟨-, syncedAt, hsynced, -⟩ := horizonOf_spec hhorizon
  have hfrom : write.entry.fromDate = plan.fromDate := by rw [hw.entry, h.progress]
  refine {
    synced := ⟨syncedAt, hsynced⟩
    previous := by rw [hw.previous, hw.entry, h.stored]
    forward := fun fromDate heq => h.forward hw (hfrom ▸ heq)
    begins := fun hnone => hw.begins (hfrom ▸ hnone)
    ascending := h.decided_ascending hw
    after := fun session hmem => ?_
    passed := fun session hhistory hle hafter hentered hmissing => ?_
    complete := fun session hhistory hle hmonitored hafter hcovered hshown hbar => ?_
    handed := ?_
    everyLevel := fun hne level hlevel => ?_ }
  · rw [hfrom]
    obtain ⟨hle, hafter⟩ := h.after hw hmem
    exact ⟨hle, Plan.after_iff.mp hafter⟩
  · rw [hfrom] at hafter hentered
    rw [hw.entry] at hentered
    obtain ⟨hbar, hschedule⟩ := hmissing attempt read hw.attempt h.found
    exact h.passed hw hpolicy hlate hhorizon hhistory hle (Plan.after_iff.mpr hafter) hentered hbar
      hschedule
  · rw [hfrom] at hafter hcovered
    rw [hw.entry] at hmonitored
    exact h.complete hw hpolicy hhistory hle hmonitored (Plan.after_iff.mpr hafter) hcovered hshown
      (hbar attempt read hw.attempt h.found)
  · rw [hfrom, hw.entry]
    exact fun call => h.handed hw
  · have hredecide : plan.redecideEdited frame through = false := by
      by_contra htrue
      rw [Bool.not_eq_false] at htrue
      rw [hw.decided, htrue] at hne
      exact hne rfl
    obtain ⟨complete, hcalls⟩ := hw.calls
    rw [hcalls, hw.decided_of_not_redecided hredecide]
    rw [hw.entry] at hlevel
    exact exists_levelCall hredecide hlevel

end DecidedOver

end DecideEntry

/-- **What a read decides is issued.** -/
theorem issued_decideOver (hpolicy : policy.NewYork) (hlate : options.lateRecoveryMs ≤ 6 * dayMs)
    (hhorizon : horizonOf (stockRefreshState policy answers) pass.expected = some horizon)
    {work : List Plan}
    (hwork : ∀ plan ∈ work, ∃ entry, plan = planOf policy options pass horizon entry)
    {sessions attempt : ℕ} {read : FrameRead} (hread : answers.read attempt = some read)
    {decided : Bool × Option MemberEvaluationWrite}
    (hdecided : decided ∈ decideOver policy options decideLevelSessions pass answers
      (confirmedThrough policy options (stockRefreshState policy answers) pass.now) horizon
      (passThroughOf policy options (stockRefreshState policy answers) answers pass horizon) work
      sessions attempt read)
    {write : MemberEvaluationWrite} (hwrite : decided.2 = some write) :
    Issued policy options pass answers write := by
  obtain ⟨plan, hplan, rfl⟩ := List.mem_map.mp hdecided
  obtain ⟨entry, rfl⟩ := hwork plan hplan
  refine DecidedOver.issued ⟨hread, rfl, rfl, rfl, fun _ => Entry.replayFrom_eq_none,
    fun last hlast => ?_, fun last hlast => ?_, fun session hhistory hafter hnear => ?_⟩
    (writes_decideEntry hwrite) hpolicy hlate hhorizon
  · rcases hold_spec (recoverableGaps_ascending _ _ _ _ _) hlast with
      hfrom | ⟨⟨far, hfar, hle⟩, hgaps⟩
    · exact .inl hfrom
    · exact .inr ⟨hle.trans (entryHorizon_le hfar), hgaps⟩
  · exact (Option.ite_none_left_eq_some.mp hlast).2
  · refine frameStart_le hplan hhistory ?_
    cases hfrom : entry.fromDate with
    | some fromDate =>
      exact .inl ⟨fromDate, Entry.replayFrom_eq_none hfrom, hfrom,
        Plan.after_iff.mp hafter fromDate hfrom⟩
    | none =>
      rcases hnear hfrom with ⟨hcurrent, hmonth⟩ | hreplay
      · refine .inr (.inr ⟨?_, hmonth⟩)
        have hcurrent : entry.Current := hcurrent
        change (entry.resetMembership || entry.levelsNeedReconstruction || entry.replayFrom.isSome)
          = true
        rw [hcurrent.needsReconstruction hfrom, Bool.true_or]
      · exact .inr (.inl hreplay)

/-- The writes of the work, whichever attempt ends it. -/
theorem issued_decideWork (hpolicy : policy.NewYork) (hlate : options.lateRecoveryMs ≤ 6 * dayMs)
    (hhorizon : horizonOf (stockRefreshState policy answers) pass.expected = some horizon)
    {work : List Plan}
    (hwork : ∀ plan ∈ work, ∃ entry, plan = planOf policy options pass horizon entry)
    (fuel : ℕ) : ∀ {sessions attempt : ℕ} {writes : List MemberEvaluationWrite},
      decideWork policy options decideLevelSessions pass answers
        (confirmedThrough policy options (stockRefreshState policy answers) pass.now) horizon
        (passThroughOf policy options (stockRefreshState policy answers) answers pass horizon) work
        fuel sessions attempt = some writes →
      ∀ write ∈ writes, Issued policy options pass answers write := by
  induction fuel with
  | zero => exact fun h => (nomatch h)
  | succ fuel ih =>
    intro sessions attempt writes h write hmem
    rw [decideWork] at h
    split at h
    · obtain rfl := Option.some.inj h
      cases hmem
    · next read hread =>
      dsimp only at h
      split at h
      · exact ih h write hmem
      · obtain rfl := Option.some.inj h
        obtain ⟨decided, hdecided, hwrite⟩ := List.mem_filterMap.mp hmem
        exact issued_decideOver hpolicy hlate hhorizon hwork hread hdecided hwrite

/-- **Every write of a pass is issued**. -/
theorem issued_evaluateForward (hpolicy : policy.NewYork)
    (hlate : options.lateRecoveryMs ≤ 6 * dayMs) {fuel : ℕ} {writes : List MemberEvaluationWrite}
    (h : evaluateForward policy options decideLevelSessions pass answers fuel = some writes) :
    ∀ write ∈ writes, Issued policy options pass answers write := by
  intro write hmem
  unfold evaluateForward at h
  dsimp only at h
  split at h
  · obtain rfl := Option.some.inj h
    cases hmem
  · next horizon hhorizon =>
    have hpass : ∀ write ∈ (passThroughOf policy options (stockRefreshState policy answers) answers
        pass horizon).toList.flatMap (fun through =>
          ((pass.entries.map (planOf policy options pass horizon)).filter fun plan =>
            plan.passesOnly horizon (passThroughOf policy options (stockRefreshState policy answers)
              answers pass horizon)).map (passWrite through
                (stockRefreshState policy answers).priceBasisGeneration)),
        Issued policy options pass answers write := by
      intro write hwrite
      obtain ⟨through, hthrough, hwrite⟩ := List.mem_flatMap.mp hwrite
      rw [Option.mem_toList] at hthrough
      obtain ⟨plan, hplan, rfl⟩ := List.mem_map.mp hwrite
      obtain ⟨hplan, hpasses⟩ := List.mem_filter.mp hplan
      obtain ⟨entry, -, rfl⟩ := List.mem_map.mp hplan
      rw [hthrough] at hpasses
      exact issued_passWrite hpolicy hhorizon hthrough hpasses
    split at h
    · obtain rfl := Option.some.inj h
      exact hpass write hmem
    · obtain ⟨decided, hdecided, rfl⟩ := Option.map_eq_some_iff.mp h
      rcases List.mem_append.mp hmem with hmem | hmem
      · exact hpass write hmem
      · refine issued_decideWork hpolicy hlate hhorizon (fun plan hplan => ?_) fuel hdecided
          write hmem
        obtain ⟨entry, -, rfl⟩ := List.mem_map.mp (List.mem_filter.mp hplan).1
        exact ⟨entry, rfl⟩

end Issued

end Pass

end FactorSage.Monitor
