import FactorSage.Library.StepSystem
import FactorSage.Monitor.CoverageBackfill
import FactorSage.Monitor.ThreeWays

/-!
# Back-fills and evaluations of one member

Any number of passes plan the missing sessions of a member and record their plans, while evaluation
passes advance it. A plan is recorded only onto the record it was read from, for each one recorded
moves the start of the coverage back and each evaluation moves its end forward. So no decision is
recorded twice and nothing recorded is changed (`recordedOnce_of_reachable`), and a window's recorded
decisions are its canonical ones (`window_recorded`).
-/

namespace FactorSage

open TransitionLog

variable {F : Type}

/-! ### Decisions -/

/-- The decisions recorded of a level under one logic. -/
def decisionsOf (levelId fingerprint : String) (transitions : List RecordedTransition) :
    List ChangeKey :=
  (decidedOf (recordedOf levelId fingerprint transitions)).map RecordedTransition.key

theorem decisionsOf_append (levelId fingerprint : String)
    (transitions later : List RecordedTransition) :
    decisionsOf levelId fingerprint (transitions ++ later)
      = decisionsOf levelId fingerprint transitions ++ decisionsOf levelId fingerprint later := by
  unfold decisionsOf decidedOf recordedOf
  rw [List.filter_append, List.filter_append, List.map_append]

theorem decisionsOf_flatMap {α : Type} (levelId fingerprint : String) (items : List α)
    (rows : α → List RecordedTransition) :
    decisionsOf levelId fingerprint (items.flatMap rows)
      = items.flatMap fun item => decisionsOf levelId fingerprint (rows item) := by
  induction items with
  | nil => rfl
  | cons item rest ih => rw [List.flatMap_cons, decisionsOf_append, ih, List.flatMap_cons]

/-- Rows of one level under one logic, and what they record. -/
theorem decisionsOf_rows {rows : List RecordedTransition} {levelId fingerprint : String}
    (hrows : ∀ row ∈ rows, row.origin ≠ .administrative →
      row.levelId = levelId ∧ row.signalFingerprint = fingerprint) (otherId other : String) :
    decisionsOf otherId other rows
      = if levelId = otherId ∧ fingerprint = other then
          (rows.filter fun row => row.origin ≠ .administrative ∧ row.observationDate.isSome
            ∧ row.reason ≠ .reconstructed).map RecordedTransition.key
        else [] := by
  unfold decisionsOf decidedOf recordedOf
  rw [List.filter_filter]
  split
  · next hsame =>
    congr 1
    refine List.filter_congr fun row hrow => ?_
    rw [← Bool.decide_and, decide_eq_decide]
    constructor
    · rintro ⟨hreason, -, -, horigin, hdate⟩
      exact ⟨horigin, hdate, hreason⟩
    · rintro ⟨horigin, hdate, hreason⟩
      obtain ⟨hid, hfingerprint⟩ := hrows row hrow horigin
      exact ⟨hreason, hid.trans hsame.1, hfingerprint.trans hsame.2, horigin, hdate⟩
  · next hother =>
    rw [List.filter_eq_nil_iff.mpr, List.map_nil]
    intro row hrow hkept
    rw [← Bool.decide_and, decide_eq_true_eq] at hkept
    obtain ⟨-, hid, hfingerprint, horigin, -⟩ := hkept
    obtain ⟨hid', hfingerprint'⟩ := hrows row hrow horigin
    exact hother ⟨hid'.symm.trans hid, hfingerprint'.symm.trans hfingerprint⟩

/-- Of items with names of their own at most one has a name. -/
theorem flatMap_named {α β : Type} (items : List α) {name : α → String} (p : α → Prop)
    [DecidablePred p] (hnodup : (items.map name).Nodup) {value : String}
    (hname : ∀ item ∈ items, p item → name item = value) (f : α → List β) :
    (∃ item ∈ items, p item ∧ (items.flatMap fun item => if p item then f item else []) = f item)
      ∨ (∀ item ∈ items, ¬ p item)
        ∧ (items.flatMap fun item => if p item then f item else []) = [] := by
  induction items with
  | nil => exact .inr ⟨fun _ hmem => (List.not_mem_nil hmem).elim, rfl⟩
  | cons item rest ih =>
    obtain ⟨hfresh, hrest⟩ := List.nodup_cons.mp hnodup
    rw [List.flatMap_cons]
    by_cases hitem : p item
    · have hnone : ∀ other ∈ rest, ¬ p other := by
        intro other hother hp
        apply hfresh
        rw [hname item List.mem_cons_self hitem,
          ← hname other (List.mem_cons_of_mem _ hother) hp]
        exact List.mem_map_of_mem hother
      refine .inl ⟨item, List.mem_cons_self, hitem, ?_⟩
      rw [if_pos hitem, List.flatMap_eq_nil_iff.mpr, List.append_nil]
      intro other hother
      rw [if_neg (hnone other hother)]
    · rw [if_neg hitem, List.nil_append]
      rcases ih hrest fun other hother => hname other (List.mem_cons_of_mem _ hother) with
        ⟨other, hother, hp, heq⟩ | ⟨hnone, heq⟩
      · exact .inl ⟨other, List.mem_cons_of_mem _ hother, hp, heq⟩
      · refine .inr ⟨?_, heq⟩
        intro other hother
        rcases List.mem_cons.mp hother with rfl | hother
        · exact hitem
        · exact hnone other hother

/-! ### One level of a plan -/

namespace CoveragePlanInput

variable [JsNumber F] {input : CoveragePlanInput F} {level : MonitorStrategyLevel F}

/-- The canonical changes of a window's sessions. -/
def canonical (input : CoveragePlanInput F) (level : MonitorStrategyLevel F) :
    List (LevelChange F) :=
  (anchorOf ((decideLevelSessions (input.decisionInput level)).write.elim [] (·.changes))).2

def anchor (input : CoveragePlanInput F) (level : MonitorStrategyLevel F) :
    Option (LevelChange F) :=
  (anchorOf ((decideLevelSessions (input.decisionInput level)).write.elim [] (·.changes))).1

section

omit [JsNumber F]

theorem sessions_ascending (input : CoveragePlanInput F) : input.sessions.Pairwise (· < ·) :=
  (period_ascending input.frame).filter _

/-- The sessions of the window lie in it. -/
theorem mem_window {date : LocalDate} (h : date ∈ input.sessions.map input.frame.dateOf) :
    input.start ≤ date ∧ date ≤ input.through := by
  obtain ⟨session, hsession, rfl⟩ := List.mem_map.mp h
  obtain ⟨hstart, hthrough, -⟩ := of_decide_eq_true (List.mem_filter.mp hsession).2
  exact ⟨hstart, hthrough⟩

theorem anchorOf_eq {dates : List LocalDate} {anchor : Option (LevelChange F)}
    {stepped : List (LevelChange F)} (h : IsReplay dates anchor stepped) :
    anchorOf (anchor.toList ++ stepped) = (anchor, stepped) := by
  cases anchor with
  | some first => exact if_pos (h.reconstructed first rfl).1
  | none =>
    cases stepped with
    | nil => rfl
    | cons change rest => exact if_neg (h.observed change List.mem_cons_self).1

end

/-- What a replay of the window writes is its anchor and its canonical changes. -/
theorem isReplay_canonical {write : LevelSessionsWrite F}
    (h : (decideLevelSessions (input.decisionInput level)).write = some write) :
    IsReplay (input.sessions.map input.frame.dateOf) (input.anchor level) (input.canonical level)
      ∧ write.changes = (input.anchor level).toList ++ input.canonical level := by
  obtain ⟨anchor, stepped, hchanges, hreplay⟩ :=
    SessionDecisionInput.isReplay_of_write rfl rfl input.sessions_ascending h
  have hanchor := anchorOf_eq hreplay
  rw [← hchanges] at hanchor
  unfold CoveragePlanInput.anchor canonical
  rw [h, Option.elim_some, hanchor]
  exact ⟨hreplay, hchanges⟩

/-- The decisions recorded for a level of the plan. -/
def decisions (input : CoveragePlanInput F) (level : MonitorStrategyLevel F) : List ChangeKey :=
  decisionsOf level.id level.fingerprint input.record.transitions

/-- A level with a state whose recorded decisions agree with the canonical history. -/
structure Verified (input : CoveragePlanInput F) (level : MonitorStrategyLevel F)
    (persisted : PersistedSignalState) (write : Option (BackfillLevelWrite F)) : Prop where
  replay : IsReplay (input.sessions.map input.frame.dateOf) (input.anchor level)
    (input.canonical level)
  recorded : ∀ change ∈ input.canonical level, (∃ date ∈ change.date, input.coverageStart ≤ date) →
    change.key ∈ input.decisions level
  agrees : ∀ key ∈ input.decisions level,
    (∃ date ∈ key.1, input.start ≤ date ∧ date ≤ input.through) →
      key ∈ (input.canonical level).map LevelChange.key
  reconciled : ∃ planned, (input.reconcileInput level persisted).reconcileLevel (input.anchor level)
      (input.canonical level) = .ok planned
    ∧ write = if planned.changes.isEmpty then none else some
      { levelId := level.id
        levelKind := level.kind
        signalFingerprint := level.fingerprint
        hasTrigger := level.hasTrigger
        strategyVersionId := input.strategyVersionId
        signals := planned.signals
        changes := planned.changes }

variable {write : Option (BackfillLevelWrite F)} {persisted : PersistedSignalState}

theorem verified_of_planState
    (hreplay : IsReplay (input.sessions.map input.frame.dateOf) (input.anchor level)
      (input.canonical level))
    (h : input.planState level persisted (input.anchor level) (input.canonical level) = .add write) :
    input.Verified level persisted write := by
  unfold planState at h
  dsimp only at h
  split at h
  · cases h
  · next hrecorded =>
    split at h
    · cases h
    · split at h
      · cases h
      · next hnewest =>
        -- the newest divergence is none, so no recorded change diverges
        have hnone : input.divergent level (input.canonical level) = [] := by
          rw [List.max?_eq_none_iff, List.filterMap_eq_nil_iff] at hnewest
          refine List.eq_nil_iff_forall_not_mem.mpr fun row hrow => ?_
          have hdated := (List.mem_filter.mp hrow).2
          rw [hnewest row hrow] at hdated
          simp at hdated
        split at h
        · cases h
        · next planned hplanned =>
          refine ⟨hreplay, ?_, ?_, planned, hplanned, ?_⟩
          · rintro change hchange ⟨date, hdate, hle⟩
            have hnot := List.find?_eq_none.mp hrecorded change hchange
            have hdate' : change.transition.observationDate = some date := hdate
            by_contra hmissing
            apply hnot
            rw [Bool.and_eq_true, ReconcileInput.reaches, hdate']
            exact ⟨decide_eq_true hle, decide_eq_true hmissing⟩
          · rintro key hkey ⟨date, hdate, hwindow⟩
            obtain ⟨row, hrow, rfl⟩ := List.mem_map.mp hkey
            by_contra hmissing
            have hdate' : row.observationDate = some date := hdate
            have hdivergent : row ∈ input.divergent level (input.canonical level) := by
              refine List.mem_filter.mpr ⟨hrow, decide_eq_true ⟨?_, hmissing⟩⟩
              rw [hdate']
              exact decide_eq_true hwindow
            rw [hnone] at hdivergent
            exact List.not_mem_nil hdivergent
          · split at h
            · next hempty =>
              rw [if_pos hempty]
              exact (LevelPlan.add.inj h).symm
            · next hchanges =>
              rw [if_neg hchanges]
              exact (LevelPlan.add.inj h).symm

/-- **A level the plan adds to** has no state, or is verified. -/
theorem planLevel_add (h : input.planLevel level = .add write) :
    input.record.states.get? level.id = none ∧ write = none
      ∨ ∃ persisted, input.record.states.get? level.id = some persisted
        ∧ input.Verified level persisted write := by
  unfold planLevel at h
  dsimp only at h
  split at h
  · cases h
  · split at h
    · cases h
    · split at h
      · next hstate =>
        split at h
        · exact .inl ⟨hstate, (LevelPlan.add.inj h).symm⟩
        · cases h
      · next persisted hstate =>
        split at h
        · next hends =>
          cases hwrite : (decideLevelSessions (input.decisionInput level)).write with
          | none =>
            rw [hwrite] at hends
            cases hends
          | some decided =>
            obtain ⟨hreplay, -⟩ := isReplay_canonical hwrite
            exact .inr ⟨persisted, hstate, verified_of_planState hreplay h⟩
        · cases h

/-! ### A whole plan -/

/-- What a level of a plan adds. -/
def addedBy (input : CoveragePlanInput F) (level : MonitorStrategyLevel F) :
    Option (BackfillLevelWrite F) :=
  match input.planLevel level with
  | .add write => write
  | _ => none

/-- The canonical changes of a level that the plan adds. -/
def unrecorded (input : CoveragePlanInput F) (level : MonitorStrategyLevel F) :
    List (LevelChange F) :=
  match input.record.states.get? level.id with
  | none => []
  | some persisted => (input.reconcileInput level persisted).unrecorded (input.canonical level)

/-- A level to retry later leaves no plan. -/
theorem planLevels_of_retry {planned added : List (BackfillLevelWrite F)}
    {retry : WithBot LocalDate × String} {levels : List (MonitorStrategyLevel F)} {sessions : ℕ} :
    input.planLevels planned (some retry) levels ≠ .planned added sessions := by
  induction levels generalizing planned retry with
  | nil =>
    intro h
    cases h
  | cons level rest ih =>
    intro h
    unfold planLevels at h
    split at h
    · cases h
    · cases h
    · dsimp only at h
      split at h
      · exact ih h
      · exact ih h
    · exact ih h

/-- **A plan adds to each of its levels in turn.** -/
theorem planLevels_planned {planned added : List (BackfillLevelWrite F)}
    {levels : List (MonitorStrategyLevel F)} {sessions : ℕ}
    (h : input.planLevels planned none levels = .planned added sessions) :
    (∀ level ∈ levels, ∃ write, input.planLevel level = .add write)
      ∧ added = planned ++ levels.flatMap fun level => (input.addedBy level).toList := by
  induction levels generalizing planned with
  | nil =>
    obtain ⟨rfl, -⟩ := CoveragePlan.planned.inj h
    exact ⟨fun _ hmem => (List.not_mem_nil hmem).elim, (List.append_nil _).symm⟩
  | cons level rest ih =>
    unfold planLevels at h
    split at h
    · cases h
    · cases h
    · exact absurd h planLevels_of_retry
    · next write hlevel =>
      obtain ⟨hadds, hadded⟩ := ih h
      have hwrite : input.addedBy level = write := by
        unfold addedBy
        rw [hlevel]
      constructor
      · intro other hother
        rcases List.mem_cons.mp hother with rfl | hother
        · exact ⟨write, hlevel⟩
        · exact hadds other hother
      · rw [hadded, List.flatMap_cons, hwrite, List.append_assoc]

/-- What a plan adds, when a session is missing. -/
theorem planned_spec {added : List (BackfillLevelWrite F)} {sessions : ℕ}
    (h : planCoverageBackfill input = .planned added sessions) :
    added = [] ∧ input.missing = []
      ∨ (∀ level ∈ input.levels, ∃ write, input.planLevel level = .add write)
        ∧ added = input.levels.flatMap fun level => (input.addedBy level).toList := by
  unfold planCoverageBackfill at h
  split at h
  · next hmissing =>
    exact .inl ⟨(CoveragePlan.planned.inj h).1.symm, List.isEmpty_iff.mp hmissing⟩
  · exact .inr (planLevels_planned h)

/-- The rows a plan appends. -/
def rowsOf (created : String → ℕ → String) (added : List (BackfillLevelWrite F)) :
    List RecordedTransition :=
  added.flatMap fun level => level.changes.map (level.transitionRow (created level.levelId))

omit [JsNumber F] in
/-- A reconstruction is no decision; every other planned change is one. -/
theorem keys_of_planned {write : BackfillLevelWrite F} {ids : ℕ → String}
    {changes : List (LevelChange F)} {added : List (BackfillChange F)}
    (h : List.Forall₂ ReconcileInput.IsPlanned changes added)
    (hdecided : ∀ change ∈ changes, change.transition.reason ≠ .reconstructed
      ∧ change.date.isSome = true) :
    ((added.map (write.transitionRow ids)).filter fun row => row.origin ≠ .administrative
        ∧ row.observationDate.isSome ∧ row.reason ≠ .reconstructed).map RecordedTransition.key
      = changes.map LevelChange.key := by
  induction h with
  | nil => rfl
  | cons hchange hrest ih =>
    obtain ⟨signal, rfl, -⟩ := hchange
    obtain ⟨hreason, hdate⟩ := hdecided _ List.mem_cons_self
    rw [List.map_cons, List.filter_cons_of_pos, List.map_cons, List.map_cons,
      ih fun change hmem => hdecided change (List.mem_cons_of_mem _ hmem)]
    · rfl
    · exact decide_eq_true ⟨by simp [BackfillLevelWrite.transitionRow], hdate, hreason⟩

theorem Verified.observed (h : input.Verified level persisted write)
    {change : LevelChange F} (hchange : change ∈ input.canonical level) :
    change.transition.reason ≠ .reconstructed ∧ ∃ date, change.date = some date
      ∧ input.start ≤ date ∧ date ≤ input.through := by
  obtain ⟨hreason, date, hmem, hdate⟩ := h.replay.observed change hchange
  exact ⟨hreason, date, hdate, mem_window hmem⟩

/-- The changes a level adds, as decisions, are the canonical ones not recorded. -/
theorem decisionsOf_addedBy (h : input.planLevel level = .add write) (created : String → ℕ → String)
    (levelId fingerprint : String) :
    decisionsOf levelId fingerprint (rowsOf created (input.addedBy level).toList)
      = if level.id = levelId ∧ level.fingerprint = fingerprint then
          (input.unrecorded level).map LevelChange.key
        else [] := by
  have hwrite : input.addedBy level = write := by
    unfold addedBy
    rw [h]
  unfold unrecorded
  rw [hwrite]
  rcases planLevel_add h with ⟨hstate, rfl⟩ | ⟨persisted, hstate, hverified⟩
  · rw [hstate]
    dsimp only
    rw [List.map_nil, ite_self]
    rfl
  · obtain ⟨planned, hplanned, rfl⟩ := hverified.reconciled
    obtain ⟨first, added, hchanges, hfirst, hadded⟩ :=
      ReconcileInput.reconcileLevel_changes hverified.replay hplanned
    rw [hstate]
    dsimp only
    generalize hlevel : ({
      levelId := level.id
      levelKind := level.kind
      signalFingerprint := level.fingerprint
      hasTrigger := level.hasTrigger
      strategyVersionId := input.strategyVersionId
      signals := planned.signals
      changes := planned.changes } : BackfillLevelWrite F) = added'
    -- a level without a change to record adds no row, as if it were written
    have hrows : rowsOf created (if planned.changes.isEmpty then none else some added').toList
        = planned.changes.map (added'.transitionRow (created level.id)) := by
      subst hlevel
      split
      · next hempty =>
        rw [List.isEmpty_iff.mp hempty]
        rfl
      · exact List.append_nil _
    have hnamed : ∀ row ∈ planned.changes.map (added'.transitionRow (created level.id)),
        row.origin ≠ .administrative →
          row.levelId = level.id ∧ row.signalFingerprint = level.fingerprint := by
      intro row hrow _
      obtain ⟨change, -, rfl⟩ := List.mem_map.mp hrow
      subst hlevel
      exact ⟨rfl, rfl⟩
    rw [hrows, decisionsOf_rows hnamed]
    split
    · have hnone : ((first.map (added'.transitionRow (created level.id))).filter fun row =>
          row.origin ≠ .administrative ∧ row.observationDate.isSome
            ∧ row.reason ≠ .reconstructed) = [] := by
        refine List.filter_eq_nil_iff.mpr fun row hrow hdecided => ?_
        obtain ⟨change, hchange, rfl⟩ := List.mem_map.mp hrow
        obtain ⟨before, hbefore, signal, rfl, -⟩ := hfirst change hchange
        exact (of_decide_eq_true hdecided).2.2 (hverified.replay.reconstructed before hbefore).1
      rw [hchanges, List.map_append, List.filter_append, hnone, List.nil_append]
      apply keys_of_planned hadded
      intro change hchange
      have hmem : change ∈ input.canonical level :=
        List.takeWhile_subset _ (List.mem_of_mem_filter hchange)
      obtain ⟨hreason, date, hdate, -⟩ := hverified.observed hmem
      exact ⟨hreason, by rw [hdate]; rfl⟩
    · rfl

omit [JsNumber F] in
/-- Changes in order have identities of their own. -/
theorem nodup_keys {changes : List (LevelChange F)}
    (h : changes.Pairwise LevelChange.Precedes) : (changes.map LevelChange.key).Nodup := by
  refine List.pairwise_map.mpr (h.imp ?_)
  intro earlier later hprecedes hsame
  obtain ⟨hdate, hrest⟩ := Prod.mk.inj hsame
  exact hprecedes.distinct hdate (Prod.mk.inj hrest).1

/-- What a level adds is canonical, of the window, and not recorded. -/
theorem mem_unrecorded (h : input.planLevel level = .add write) {change : LevelChange F}
    (hchange : change ∈ input.unrecorded level) :
    change ∈ input.canonical level ∧ change.key ∉ input.decisions level
      ∧ ∃ date, change.date = some date ∧ input.start ≤ date ∧ date ≤ input.through := by
  unfold unrecorded at hchange
  rcases planLevel_add h with ⟨hstate, -⟩ | ⟨persisted, hstate, hverified⟩
  · rw [hstate] at hchange
    cases hchange
  · rw [hstate] at hchange
    obtain ⟨hbefore, hnew⟩ := List.mem_filter.mp hchange
    have hmem : change ∈ input.canonical level := List.takeWhile_subset _ hbefore
    exact ⟨hmem, of_decide_eq_true hnew, (hverified.observed hmem).2⟩

theorem nodup_unrecorded (h : input.planLevel level = .add write) :
    ((input.unrecorded level).map LevelChange.key).Nodup := by
  unfold unrecorded
  rcases planLevel_add h with ⟨hstate, -⟩ | ⟨persisted, hstate, hverified⟩
  · rw [hstate]
    exact List.nodup_nil
  · rw [hstate]
    have hsublist : ((input.reconcileInput level persisted).unrecorded (input.canonical level)).Sublist
        (input.canonical level) :=
      List.filter_sublist.trans (List.takeWhile_sublist _)
    exact (nodup_keys hverified.replay.ordered).sublist (hsublist.map _)

/-- A canonical change is recorded already, or added. -/
theorem mem_unrecorded_of_canonical (hstate : input.record.states.get? level.id = some persisted)
    (hverified : input.Verified level persisted write) {change : LevelChange F}
    (hchange : change ∈ input.canonical level) :
    change.key ∈ input.decisions level ∨ change ∈ input.unrecorded level := by
  by_cases hrecorded : change.key ∈ input.decisions level
  · exact .inl hrecorded
  · right
    unfold unrecorded
    rw [hstate]
    refine List.mem_filter.mpr ⟨?_, decide_eq_true hrecorded⟩
    obtain ⟨-, date, hdate, -⟩ := hverified.observed hchange
    have hbefore : date < input.coverageStart := by
      by_contra hreaches
      exact hrecorded (hverified.recorded change hchange ⟨date, hdate, not_lt.mp hreaches⟩)
    -- every change before it is of an earlier session, or of the same one
    obtain ⟨earlier, later, hsplit⟩ := List.append_of_mem hchange
    have hmissing : ∀ other ∈ earlier ++ [change], (!(input.reconcileInput level persisted).reaches
        other.transition.observationDate) = true := by
      intro other hother
      have hle : ∃ date', other.date = some date' ∧ date' ≤ date := by
        rcases List.mem_append.mp hother with hother | hother
        · have hordered := hverified.replay.ordered
          rw [hsplit] at hordered
          obtain ⟨date', hdate', last, hlast, hle⟩ := ((List.pairwise_append.mp hordered).2.2 other
            hother change List.mem_cons_self).ordered
          rw [hdate] at hlast
          obtain rfl := Option.some.inj hlast
          exact ⟨date', hdate', hle⟩
        · rw [List.mem_singleton.mp hother]
          exact ⟨date, hdate, le_rfl⟩
      obtain ⟨date', hdate', hle⟩ := hle
      change other.transition.observationDate = some date' at hdate'
      rw [hdate', Bool.not_eq_true']
      exact decide_eq_false (not_le.mpr (hle.trans_lt hbefore))
    rw [hsplit, List.append_cons, List.takeWhile_append_of_pos hmissing]
    exact List.mem_append_left _ (List.mem_append_right _ (List.mem_singleton_self change))

/-- **The decisions a plan adds** of one level under one logic. -/
theorem decisionsOf_rowsOf_levels
    (hadds : ∀ level ∈ input.levels, ∃ write, input.planLevel level = .add write)
    (created : String → ℕ → String) (levelId fingerprint : String) :
    let decided := decisionsOf levelId fingerprint
      (rowsOf created (input.levels.flatMap fun level => (input.addedBy level).toList))
    (∃ level ∈ input.levels, (level.id = levelId ∧ level.fingerprint = fingerprint)
        ∧ decided = (input.unrecorded level).map LevelChange.key)
      ∨ (∀ level ∈ input.levels, ¬ (level.id = levelId ∧ level.fingerprint = fingerprint))
        ∧ decided = [] := by
  have hrows : decisionsOf levelId fingerprint (rowsOf created
      (input.levels.flatMap fun level => (input.addedBy level).toList))
      = input.levels.flatMap fun level =>
        if level.id = levelId ∧ level.fingerprint = fingerprint then
          (input.unrecorded level).map LevelChange.key
        else [] := by
    unfold rowsOf
    rw [List.flatMap_assoc, decisionsOf_flatMap]
    refine List.flatMap_congr fun level hlevel => ?_
    obtain ⟨write, hwrite⟩ := hadds level hlevel
    exact decisionsOf_addedBy hwrite created levelId fingerprint
  intro decided
  show (∃ level ∈ input.levels, _ ∧ decisionsOf levelId fingerprint _ = _)
    ∨ _ ∧ decisionsOf levelId fingerprint _ = _
  rw [hrows]
  exact flatMap_named input.levels
    (fun level => level.id = levelId ∧ level.fingerprint = fingerprint) input.levelIds_nodup
    (fun _ _ hlevel => hlevel.1) fun level => (input.unrecorded level).map LevelChange.key

omit [JsNumber F] in
/-- Levels with one id are one level. -/
theorem level_ext {other : MonitorStrategyLevel F} (hlevel : level ∈ input.levels)
    (hother : other ∈ input.levels) (hid : other.id = level.id) : other = level :=
  List.inj_on_of_nodup_map input.levelIds_nodup hother hlevel hid

theorem decisionsOf_rowsOf_level
    (hadds : ∀ level ∈ input.levels, ∃ write, input.planLevel level = .add write)
    (hlevel : level ∈ input.levels) (created : String → ℕ → String) :
    decisionsOf level.id level.fingerprint
        (rowsOf created (input.levels.flatMap fun level => (input.addedBy level).toList))
      = (input.unrecorded level).map LevelChange.key := by
  rcases decisionsOf_rowsOf_levels hadds created level.id level.fingerprint with
    ⟨other, hother, hnamed, heq⟩ | ⟨hnone, -⟩
  · rw [level_ext hlevel hother hnamed.1] at heq
    exact heq
  · exact absurd ⟨rfl, rfl⟩ (hnone level hlevel)

/-- **A plan adds no decision twice**, and none that is recorded or outside the window. -/
theorem decisionsOf_rowsOf {added : List (BackfillLevelWrite F)} {sessions : ℕ}
    (h : planCoverageBackfill input = .planned added sessions) (created : String → ℕ → String)
    (levelId fingerprint : String) :
    (decisionsOf levelId fingerprint (rowsOf created added)).Nodup
      ∧ ∀ key ∈ decisionsOf levelId fingerprint (rowsOf created added),
        key ∉ decisionsOf levelId fingerprint input.record.transitions
          ∧ ∃ date, key.1 = some date ∧ input.start ≤ date ∧ date ≤ input.through := by
  have hnone : ([] : List ChangeKey).Nodup ∧ ∀ key ∈ ([] : List ChangeKey),
      key ∉ decisionsOf levelId fingerprint input.record.transitions
        ∧ ∃ date, key.1 = some date ∧ input.start ≤ date ∧ date ≤ input.through :=
    ⟨List.nodup_nil, fun _ hmem => (List.not_mem_nil hmem).elim⟩
  rcases planned_spec h with ⟨rfl, -⟩ | ⟨hadds, rfl⟩
  · exact hnone
  · rcases decisionsOf_rowsOf_levels hadds created levelId fingerprint with
      ⟨level, hlevel, ⟨rfl, rfl⟩, heq⟩ | ⟨-, heq⟩
    · obtain ⟨write, hwrite⟩ := hadds level hlevel
      rw [heq]
      refine ⟨nodup_unrecorded hwrite, ?_⟩
      intro key hkey
      obtain ⟨change, hchange, rfl⟩ := List.mem_map.mp hkey
      exact (mem_unrecorded hwrite hchange).2
    · rw [heq]
      exact hnone

/-- The window's decisions, after a plan is added to them, are the canonical ones. -/
theorem perm_window
    (hadds : ∀ level ∈ input.levels, ∃ write, input.planLevel level = .add write)
    (hlevel : level ∈ input.levels)
    (hstate : input.record.states.get? level.id = some persisted) (created : String → ℕ → String)
    {transitions : List RecordedTransition}
    (htransitions : transitions = input.record.transitions
      ++ rowsOf created (input.levels.flatMap fun level => (input.addedBy level).toList))
    (hnodup : (decisionsOf level.id level.fingerprint transitions).Nodup) :
    ((decisionsOf level.id level.fingerprint transitions).filter fun key =>
      key.1.any fun date => decide (input.start ≤ date ∧ date ≤ input.through)).Perm
        ((input.canonical level).map LevelChange.key) := by
  obtain ⟨write, hwrite⟩ := hadds level hlevel
  obtain ⟨hnone, -⟩ | ⟨_, hpersisted, hverified⟩ := planLevel_add hwrite
  · rw [hstate] at hnone
    cases hnone
  rw [List.perm_ext_iff_of_nodup (hnodup.filter _) (nodup_keys hverified.replay.ordered)]
  intro key
  rw [List.mem_filter, htransitions, decisionsOf_append, List.mem_append,
    decisionsOf_rowsOf_level hadds hlevel]
  constructor
  · rintro ⟨hrecorded | hadded, hwindow⟩
    · cases hdate : key.1 with
      | none =>
        rw [hdate] at hwindow
        cases hwindow
      | some date =>
        rw [hdate] at hwindow
        exact hverified.agrees key hrecorded ⟨date, hdate, of_decide_eq_true hwindow⟩
    · obtain ⟨change, hchange, rfl⟩ := List.mem_map.mp hadded
      exact List.mem_map_of_mem (mem_unrecorded hwrite hchange).1
  · intro hkey
    obtain ⟨change, hchange, rfl⟩ := List.mem_map.mp hkey
    obtain ⟨-, date, hdate, hwindow⟩ := hverified.observed hchange
    constructor
    · rcases mem_unrecorded_of_canonical hpersisted hverified hchange with hrecorded | hadded
      · exact .inl hrecorded
      · exact .inr (List.mem_map_of_mem hadded)
    · show change.date.any _ = true
      rw [hdate]
      exact decide_eq_true hwindow

/-- What a level adds has its id, and the changes and occurrences planned of it. -/
theorem exists_of_mem_addedBy {write : BackfillLevelWrite F}
    (h : ∃ write, input.planLevel level = .add write) (hwrite : write ∈ input.addedBy level) :
    ∃ persisted planned, IsReplay (input.sessions.map input.frame.dateOf) (input.anchor level)
        (input.canonical level)
      ∧ (input.reconcileInput level persisted).reconcileLevel (input.anchor level)
        (input.canonical level) = .ok planned
      ∧ write.levelId = level.id ∧ write.signals = planned.signals
      ∧ write.changes = planned.changes := by
  obtain ⟨added, hadded⟩ := h
  unfold addedBy at hwrite
  rw [hadded] at hwrite
  rcases planLevel_add hadded with ⟨-, rfl⟩ | ⟨persisted, -, hverified⟩
  · cases hwrite
  · obtain ⟨planned, hplanned, rfl⟩ := hverified.reconciled
    dsimp only at hwrite
    split at hwrite
    · cases hwrite
    · obtain rfl := Option.some.inj hwrite
      exact ⟨persisted, planned, hverified.replay, hplanned, rfl, rfl, rfl⟩

/-- **The occurrences of a plan.** An occurrence it adds has exactly the change that begins it and the
change that ends it, both planned with it, and ends before the recorded sessions; a change is on an
occurrence just where it enters or leaves `ACTIVE`, and then on one of the plan or a recorded one of
its level; a recorded occurrence it ends, ended on that session. -/
theorem occurrences_planned {added : List (BackfillLevelWrite F)} {sessions : ℕ}
    (h : planCoverageBackfill input = .planned added sessions) {write : BackfillLevelWrite F}
    (hwrite : write ∈ added) :
    (∀ index signal, write.signals[index]? = some signal →
        (∃ opening ending, signal.BeginsWith opening ∧ signal.EndsWith ending
          ∧ changesOn (.planned index) write.changes = [opening, ending])
        ∧ ∃ date, signal.closeDate = some date ∧ date < input.coverageStart)
      ∧ (∀ change ∈ write.changes,
        (change.signal.isSome = true ↔ change.fromState = .active ∨ change.toState = .active))
      ∧ (∀ change ∈ write.changes, ∀ index, change.signal = some (.planned index) →
        index < write.signals.length)
      ∧ ∀ change ∈ write.changes, ∀ id, change.signal = some (.existing id) →
        ∃ signal ∈ input.record.signals, signal.id = id ∧ signal.levelId = write.levelId
          ∧ (change.fromState = .active →
            signal.resolved = true ∧ signal.resolvedObservationDate = change.observationDate) := by
  rcases planned_spec h with ⟨rfl, -⟩ | ⟨hadds, rfl⟩
  · cases hwrite
  obtain ⟨level, hlevel, hmem⟩ := List.mem_flatMap.mp hwrite
  obtain ⟨persisted, planned, hreplay, hplanned, hid, hsignals, hchanges⟩ :=
    exists_of_mem_addedBy (hadds level hlevel) (Option.mem_toList.mp hmem)
  -- the invariant at the end of the level's changes, where no occurrence is open
  obtain ⟨finish, rest, hreconciles, hcomplete⟩ :=
    ReconcileInput.reconciles_reconcileLevel hreplay hplanned
  rw [hsignals, hchanges, hid]
  refine ⟨?_, fun change => ReconcileInput.isSome_signal_of_reconcileLevel hreplay hplanned,
    hreconciles.known, ?_⟩
  · intro index signal hsignal
    obtain ⟨opening, hbegins, hopen | ⟨-, ending, hends, hboth⟩⟩ :=
      hreconciles.occurrences index signal hsignal
    · exact absurd hopen.1 (hcomplete index)
    · refine ⟨⟨opening, ending, hbegins, hends, hboth⟩, ?_⟩
      have hending : ending ∈ planned.changes := by
        have hmem : ending ∈ changesOn (.planned index) planned.changes := by
          rw [hboth]
          exact List.mem_cons_of_mem _ (List.mem_singleton_self ending)
        exact List.mem_of_mem_filter hmem
      have hdated := ReconcileInput.isSome_date_of_reconcileLevel hreplay hplanned hending
      rw [hends.2] at hdated
      obtain ⟨date, hdate⟩ := Option.isSome_iff_exists.mp hdated
      have hinside := hreconciles.inside signal (List.mem_of_getElem? hsignal)
      rw [hdate] at hinside
      exact ⟨date, hdate, not_le.mp (of_decide_eq_false hinside)⟩
  · intro change hchange id hexisting
    obtain ⟨signal, hsignal, hsame, hends⟩ := hreconciles.recorded change hchange id hexisting
    obtain ⟨hrecorded, hlevelId⟩ := List.mem_filter.mp hsignal
    exact ⟨signal, hrecorded, hsame, of_decide_eq_true hlevelId, hends⟩

/-! ### A sample member -/

/-- The dates of four sessions. -/
def risingDate (session : Fin 4) : LocalDate :=
  SessionDecisionInput.risingInput.frame.dateOf (SessionDecisionInput.risingSession session)

/-- A member at rest since the last of them, whose coverage begins after them. -/
def risingRecord : MemberRecord where
  checkpoint := ⟨.ofYmd 2024 1 8, .ofYmd 2024 1 8, none⟩
  states := .ofList
    [("level",
      { id := "state"
        stateVersion := 1
        signalFingerprint := "price above 10"
        levelKind := .buy
        lastOutcome := .notMatched
        activeSignalId := none
        lifecycle := ⟨.inactive, some (risingDate 3),
          .ofList [("rule", ⟨.inactive, some (risingDate 3), none⟩)]⟩ })]
  transitions := []
  signals := []

def risingPlan : CoveragePlanInput ExactNumber where
  levels := [SessionDecisionInput.aboveTen]
  levelIds_nodup := List.nodup_singleton _
  strategyVersionId := "version"
  frame := SessionDecisionInput.risingFrame
  historyComplete := true
  start := risingDate 0
  monitoredOn _ := true
  record := risingRecord

/-- The levels of a plan. -/
def plannedLevels : CoveragePlan F → List (BackfillLevelWrite F)
  | .planned levels _ => levels
  | _ => []

/-- The level rose above ten and fell back: one occurrence, with its two changes. -/
theorem occurrences_planned_rising :
    ∃ write ∈ plannedLevels (planCoverageBackfill risingPlan), ∃ signal,
      write.signals[0]? = some signal
        ∧ ∃ opening ending, signal.BeginsWith opening ∧ signal.EndsWith ending
          ∧ changesOn (.planned 0) write.changes = [opening, ending] := by
  have hplan : planCoverageBackfill risingPlan
      = .planned (plannedLevels (planCoverageBackfill risingPlan)) 4 := rfl
  obtain ⟨write, hwrites, signal, hsignal⟩ : ∃ write,
      plannedLevels (planCoverageBackfill risingPlan) = [write]
        ∧ ∃ signal, write.signals[0]? = some signal := ⟨_, rfl, _, rfl⟩
  have hmem : write ∈ plannedLevels (planCoverageBackfill risingPlan) := by
    rw [hwrites]
    exact List.mem_singleton_self write
  exact ⟨write, hmem, signal, hsignal, ((occurrences_planned hplan hmem).1 0 signal hsignal).1⟩

end CoveragePlanInput

/-! ### One record -/

namespace MemberRecord

/-- No decision of a level is recorded twice under one logic, and none is later than the member's
checkpoint. -/
structure RecordedOnce (record : MemberRecord) : Prop where
  nodup : ∀ levelId fingerprint, (decisionsOf levelId fingerprint record.transitions).Nodup
  through : ∀ levelId fingerprint, ∀ key ∈ decisionsOf levelId fingerprint record.transitions,
    ∃ date, key.1 = some date ∧ date ≤ record.checkpoint.evaluatedThrough

/-- Decisions of their own, none recorded yet and none later than a checkpoint, can be added. -/
theorem RecordedOnce.append {record next : MemberRecord} (h : record.RecordedOnce)
    {rows : List RecordedTransition} (htransitions : next.transitions = record.transitions ++ rows)
    (hthrough : record.checkpoint.evaluatedThrough ≤ next.checkpoint.evaluatedThrough)
    (hnodup : ∀ levelId fingerprint, (decisionsOf levelId fingerprint rows).Nodup)
    (hnew : ∀ levelId fingerprint, ∀ key ∈ decisionsOf levelId fingerprint rows,
      key ∉ decisionsOf levelId fingerprint record.transitions
        ∧ ∃ date, key.1 = some date ∧ date ≤ next.checkpoint.evaluatedThrough) :
    next.RecordedOnce where
  nodup levelId fingerprint := by
    rw [htransitions, decisionsOf_append]
    refine List.nodup_append.mpr ⟨h.nodup _ _, hnodup _ _, ?_⟩
    rintro key hold other hadded rfl
    exact (hnew _ _ key hadded).1 hold
  through levelId fingerprint key hkey := by
    rw [htransitions, decisionsOf_append] at hkey
    rcases List.mem_append.mp hkey with hkey | hkey
    · obtain ⟨date, hdate, hle⟩ := h.through _ _ key hkey
      exact ⟨date, hdate, hle.trans hthrough⟩
    · exact (hnew _ _ key hkey).2

end MemberRecord

section Apply

variable {bound : Bool} {created : String → ℕ → String} {write : CoverageBackfillWrite F}
  {record next : MemberRecord}

/-- **What a recorded back-fill changes**: rows and occurrences are added, and the coverage begins
where the plan starts. -/
theorem applyCoverageBackfill_eq_some (h : applyCoverageBackfill bound created write record = some next) :
    record.checkpoint.evaluatedThrough = write.evaluatedThrough
      ∧ record.checkpoint.coverageStart = write.expectedStart
      ∧ next.transitions = record.transitions ++ CoveragePlanInput.rowsOf created write.levels
      ∧ record.signals <+: next.signals ∧ next.states = record.states
      ∧ next.checkpoint.evaluatedThrough = record.checkpoint.evaluatedThrough
      ∧ next.checkpoint.coverageStart = write.coverageStart := by
  unfold applyCoverageBackfill at h
  split at h
  · cases h
  · split at h
    · cases h
    · next hexpected =>
      obtain ⟨hthrough, hstart⟩ := not_or.mp hexpected
      split at h
      · obtain rfl := Option.some.inj h
        exact ⟨not_not.mp hthrough, not_not.mp hstart, rfl, List.prefix_append _ _, rfl, rfl, rfl⟩
      · cases h

variable [JsNumber F]

/-- **A plan recorded onto the record it was read from** records nothing twice. -/
theorem MemberRecord.RecordedOnce.backfill (h : record.RecordedOnce)
    {input : CoveragePlanInput F} (hrecord : input.record.transitions = record.transitions)
    (hcheckpoint : input.through = record.checkpoint.evaluatedThrough) {sessions : ℕ}
    (hplan : planCoverageBackfill input = .planned write.levels sessions)
    (happlied : applyCoverageBackfill bound created write record = some next) :
    next.RecordedOnce := by
  obtain ⟨-, -, htransitions, -, -, hthrough, -⟩ := applyCoverageBackfill_eq_some happlied
  refine h.append htransitions hthrough.ge (fun levelId fingerprint =>
    (CoveragePlanInput.decisionsOf_rowsOf hplan created levelId fingerprint).1)
    fun levelId fingerprint key hkey => ?_
  obtain ⟨hnew, date, hdate, -, hle⟩ :=
    (CoveragePlanInput.decisionsOf_rowsOf hplan created levelId fingerprint).2 key hkey
  constructor
  · rw [← hrecord]
    exact hnew
  · rw [hthrough, ← hcheckpoint]
    exact ⟨date, hdate, hle⟩

end Apply

/-! ### An evaluation -/

section Evaluation

variable [JsNumber F]

/-- The row of a change an evaluation records. -/
def LevelChange.row (change : LevelChange F) (levelId : String) (signalId : Option String) :
    RecordedTransition where
  levelId
  signalFingerprint := change.transition.signalFingerprint
  fromState := change.transition.fromState
  toState := change.transition.toState
  reason := change.transition.reason
  origin := change.origin
  observationDate := change.transition.observationDate
  signalId

/-- The rows an evaluation of one level records, on the occurrences the store gives them. -/
def evaluatedRows (signalOf : LevelChange F → Option String) (input : SessionDecisionInput F) :
    List RecordedTransition :=
  ((decideLevelSessions input).write.elim [] (·.changes)).map fun change =>
    change.row input.level.id (signalOf change)

/-- What an evaluation records: at most the reset of state under other logic, and then changes of its
own logic, each of the past or of one of its sessions. -/
structure IsEvaluation (input : SessionDecisionInput F) (changes : List (LevelChange F)) : Prop where
  split : ∃ resets decided, changes = resets ++ decided
    ∧ (∀ change ∈ resets, change.origin = .administrative)
    ∧ (∀ change ∈ decided, change.transition.signalFingerprint = input.level.fingerprint
      ∧ (change.transition.reason = .reconstructed
        ∨ ∃ date ∈ input.sessions.map input.frame.dateOf, change.date = some date))
    ∧ (decided.map LevelChange.key).Nodup

namespace SessionDecisionInput

variable {input : SessionDecisionInput F}

section

omit [JsNumber F]

theorem origin_of_mem_reset {change : LevelChange F} (h : change ∈ input.reset) :
    change.origin = .administrative := by
  unfold reset at h
  split at h
  · cases hprevious : input.previous with
    | none =>
      rw [hprevious] at h
      cases h
    | some previous =>
      rw [hprevious] at h
      obtain ⟨ended, -, rfl⟩ := List.mem_map.mp h
      rfl
  · cases h

theorem isEvaluation_resets : IsEvaluation input input.reset :=
  ⟨input.reset, [], (List.append_nil _).symm, fun _ h => origin_of_mem_reset h,
    fun _ hmem => (List.not_mem_nil hmem).elim, List.nodup_nil⟩

theorem isEvaluation_resetOnly {write : LevelSessionsWrite F}
    (h : input.resetOnly.write = some write) : IsEvaluation input write.changes := by
  unfold resetOnly at h
  dsimp only at h
  split at h
  · obtain rfl := Option.some.inj h
    exact isEvaluation_resets
  · cases h

end

variable {write : LevelSessionsWrite F}

theorem isEvaluation_catchUp {previous : PersistedSignalState} {newest : input.frame.Session}
    (hascends : input.sessions.Pairwise (· < ·))
    (h : (input.catchUp previous newest).write = some write) :
    IsEvaluation input write.changes := by
  obtain rfl := Option.some.inj h
  have hchanges : (input.stepThrough previous.lifecycle (input.sessions.map input.read)).changes
      = input.changesFrom previous.lifecycle input.sessions :=
    (stepThrough_eq previous.lifecycle input.sessions).1
  obtain ⟨hdated, hordered⟩ := changes_changesFrom previous.lifecycle hascends
  refine ⟨[], _, rfl, fun _ hmem => (List.not_mem_nil hmem).elim, ?_, ?_⟩
  · intro change hchange
    change change ∈ (input.stepThrough _ _).changes at hchange
    rw [hchanges] at hchange
    refine ⟨?_, .inr (hdated change hchange).1⟩
    obtain ⟨_, _, _, rfl⟩ := exists_of_mem_changesFrom hchange
    rfl
  · show ((input.stepThrough _ _).changes.map LevelChange.key).Nodup
    rw [hchanges]
    exact CoveragePlanInput.nodup_keys hordered

omit [JsNumber F] in
theorem nodup_keys_toList (change : Option (LevelChange F)) :
    (change.toList.map LevelChange.key).Nodup := by
  cases change with
  | none => exact List.nodup_nil
  | some change => exact List.nodup_singleton _

theorem isEvaluation_reconstructNewest {newest : input.frame.Session}
    (hnewest : newest ∈ input.sessions) (h : (input.reconstructNewest newest).write = some write) :
    IsEvaluation input write.changes := by
  unfold reconstructNewest at h
  dsimp only at h
  split at h
  · exact isEvaluation_resetOnly h
  · split at h
    · exact isEvaluation_resetOnly h
    · obtain rfl := Option.some.inj h
      refine ⟨input.reset, _, rfl, fun _ hmem => origin_of_mem_reset hmem, ?_, ?_⟩
      · intro change hchange
        have hchange := Option.mem_toList.mp hchange
        split at hchange
        · obtain ⟨since, -, rfl⟩ := Option.map_eq_some_iff.mp hchange
          refine ⟨rfl, ?_⟩
          -- only the newest session's own change names its reason
          by_cases hlive : since = input.frame.dateOf newest
          · exact .inr ⟨since, List.mem_map.mpr ⟨newest, hnewest, hlive.symm⟩, rfl⟩
          · left
            show (Option.elim (if since = input.frame.dateOf newest then _ else none)
              MonitorTransitionReason.reconstructed _) = _
            rw [if_neg hlive]
            rfl
        · cases hchange
      · exact nodup_keys_toList _

/-- **What an evaluation records.** -/
theorem isEvaluation_of_write (hreplay : input.replay = false)
    (hascends : input.sessions.Pairwise (· < ·))
    (h : (decideLevelSessions input).write = some write) : IsEvaluation input write.changes := by
  unfold decideLevelSessions at h
  split at h
  · next newest first hnewest hfirst =>
    split at h
    · exact isEvaluation_catchUp hascends h
    · rw [hreplay, if_neg Bool.false_ne_true] at h
      exact isEvaluation_reconstructNewest (List.mem_of_getLast? hnewest) h
  · exact isEvaluation_resetOnly h

end SessionDecisionInput

/-- **The decisions an evaluation of one level records** are its own, each of one of its sessions. -/
theorem decisionsOf_evaluatedRows {input : SessionDecisionInput F} (hreplay : input.replay = false)
    (hascends : input.sessions.Pairwise (· < ·)) (signalOf : LevelChange F → Option String)
    (levelId fingerprint : String) :
    ∃ keys : List ChangeKey, keys.Nodup
      ∧ (∀ key ∈ keys, ∃ date ∈ input.sessions.map input.frame.dateOf, key.1 = some date)
      ∧ decisionsOf levelId fingerprint (evaluatedRows signalOf input)
        = if input.level.id = levelId ∧ input.level.fingerprint = fingerprint then keys else [] := by
  unfold evaluatedRows
  cases hwrite : (decideLevelSessions input).write with
  | none => exact ⟨[], List.nodup_nil, fun _ hmem => (List.not_mem_nil hmem).elim, by simp; rfl⟩
  | some write =>
    -- the resets of stale changes are administrative; the rest decides sessions, each once
    obtain ⟨resets, decided, hchanges, hresets, hdecided, hnodup⟩ :=
      (SessionDecisionInput.isEvaluation_of_write hreplay hascends hwrite).split
    rw [Option.elim_some, hchanges]
    have hnamed : ∀ row ∈ (resets ++ decided).map fun change =>
        change.row input.level.id (signalOf change), row.origin ≠ .administrative →
          row.levelId = input.level.id ∧ row.signalFingerprint = input.level.fingerprint := by
      intro row hrow horigin
      obtain ⟨change, hchange, rfl⟩ := List.mem_map.mp hrow
      rcases List.mem_append.mp hchange with hchange | hchange
      · exact absurd (hresets change hchange) horigin
      · exact ⟨rfl, (hdecided change hchange).1⟩
    rw [decisionsOf_rows hnamed]
    refine ⟨_, ?_, ?_, rfl⟩
    · rw [List.map_append, List.filter_append, List.filter_eq_nil_iff.mpr, List.nil_append]
      · have hsublist := (List.filter_sublist (p := fun row : RecordedTransition =>
          decide (row.origin ≠ .administrative ∧ row.observationDate.isSome
            ∧ row.reason ≠ .reconstructed)) (l := decided.map fun change =>
          change.row input.level.id (signalOf change))).map RecordedTransition.key
        rw [List.map_map] at hsublist
        exact hnodup.sublist hsublist
      · intro row hrow hkept
        obtain ⟨change, hchange, rfl⟩ := List.mem_map.mp hrow
        exact (of_decide_eq_true hkept).1 (hresets change hchange)
    · intro key hkey
      obtain ⟨row, hrow, rfl⟩ := List.mem_map.mp hkey
      obtain ⟨hmem, hkept⟩ := List.mem_filter.mp hrow
      obtain ⟨horigin, -, hreason⟩ := of_decide_eq_true hkept
      obtain ⟨change, hchange, rfl⟩ := List.mem_map.mp hmem
      rcases List.mem_append.mp hchange with hchange | hchange
      · exact absurd (hresets change hchange) horigin
      · rcases (hdecided change hchange).2 with hpast | hdate
        · exact absurd hpast hreason
        · exact hdate

end Evaluation

/-! ### Any order of passes -/

section System

variable [JsNumber F]

/-- A back-fill that was planned: what the pass read, the start it settled on (the required one or a
later one), and the levels its plan adds to. -/
structure PlannedBackfill (F : Type) [JsNumber F] where
  required : CoveragePlanInput F
  start : LocalDate
  levels : List (BackfillLevelWrite F)
  sessions : ℕ
  planned : planCoverageBackfill { required with start } = .planned levels sessions
  start_lt : start < required.coverageStart

/-- What was planned, from the session the plan starts at. -/
def PlannedBackfill.input (plan : PlannedBackfill F) : CoveragePlanInput F :=
  { plan.required with start := plan.start }

def PlannedBackfill.write (plan : PlannedBackfill F) : CoverageBackfillWrite F :=
  plan.required.backfillWrite plan.levels plan.start

theorem PlannedBackfill.planCoverageBackfill_input (plan : PlannedBackfill F) :
    planCoverageBackfill plan.input = .planned plan.write.levels plan.sessions :=
  plan.planned

/-- A member's record, and the back-fills planned from it. -/
structure CoverageState (F : Type) [JsNumber F] where
  record : MemberRecord
  pending : List (PlannedBackfill F)

inductive CoverageAct where
  | plan | backfill | evaluate

/-- **A plan** covers the missing sessions from its start. -/
theorem planBackfill_planned {attempts : ℕ} {input : CoveragePlanInput F}
    (hmissing : input.start < input.coverageStart) {levels : List (BackfillLevelWrite F)}
    {sessions : ℕ} {start : LocalDate}
    (h : planBackfill attempts input = (.planned levels sessions, start)) :
    planCoverageBackfill { input with start } = .planned levels sessions
      ∧ start < input.coverageStart := by
  induction attempts generalizing input with
  | zero =>
    obtain ⟨hplan, rfl⟩ := Prod.mk.inj h
    exact ⟨hplan, hmissing⟩
  | succ attempts ih =>
    unfold planBackfill at h
    split at h
    · next next _ =>
      split at h
      · next hlater => exact @ih { input with start := next } hlater.2 h
      · obtain ⟨hplan, rfl⟩ := Prod.mk.inj h
        exact ⟨hplan, hmissing⟩
    · obtain ⟨hplan, rfl⟩ := Prod.mk.inj h
      exact ⟨hplan, hmissing⟩

/-- The plan a pass made of what it read. -/
def PlannedBackfill.of {input : CoveragePlanInput F} (hmissing : input.start < input.coverageStart)
    {levels : List (BackfillLevelWrite F)} {sessions : ℕ} {start : LocalDate}
    (hplan : planBackfill maxBackfillAttempts input = (.planned levels sessions, start)) :
    PlannedBackfill F where
  required := input
  start
  levels
  sessions
  planned := (planBackfill_planned hmissing hplan).1
  start_lt := (planBackfill_planned hmissing hplan).2

/-- The levels are decided over sessions after the checkpoint, and the checkpoint moves there. The
states and the occurrences of `next` are the evaluation's own. -/
structure MemberRecord.Evaluates (record : MemberRecord) (levels : List (SessionDecisionInput F))
    (signalOf : LevelChange F → Option String) (next : MemberRecord) : Prop where
  nodup : (levels.map fun input => input.level.id).Nodup
  previous : ∀ input ∈ levels, input.previous = record.states.get? input.level.id
  steps : ∀ input ∈ levels, input.replay = false ∧ input.sessions.Pairwise (· < ·)
    ∧ ∀ session ∈ input.sessions,
      record.checkpoint.evaluatedThrough < input.frame.dateOf session
        ∧ input.frame.dateOf session ≤ next.checkpoint.evaluatedThrough
  through : record.checkpoint.evaluatedThrough < next.checkpoint.evaluatedThrough
  start : next.checkpoint.coverageStart = record.checkpoint.coverageStart
  transitions : next.transitions = record.transitions ++ levels.flatMap (evaluatedRows signalOf)

inductive CoverageStep : CoverageState F → CoverageAct → CoverageState F → Prop
  /-- A pass reads the record and plans the sessions missing before its coverage. -/
  | plan {s : CoverageState F} (input : CoveragePlanInput F) (hrecord : input.record = s.record)
      (hmissing : input.start < input.coverageStart) {levels : List (BackfillLevelWrite F)}
      {sessions : ℕ} {start : LocalDate}
      (hplan : planBackfill maxBackfillAttempts input = (.planned levels sessions, start)) :
      CoverageStep s .plan { s with pending := s.pending ++ [.of hmissing hplan] }
  /-- A plan is recorded, whatever happened since it was made. -/
  | backfill {s : CoverageState F} {bound : Bool} {created : String → ℕ → String}
      {plan : PlannedBackfill F} {next : MemberRecord} (hpending : plan ∈ s.pending)
      (happlied : applyCoverageBackfill bound created plan.write s.record = some next) :
      CoverageStep s .backfill { s with record := next }
  | evaluate {s : CoverageState F} {levels : List (SessionDecisionInput F)}
      {signalOf : LevelChange F → Option String} {next : MemberRecord}
      (hevaluates : s.record.Evaluates levels signalOf next) :
      CoverageStep s .evaluate { s with record := next }

/-- The passes over a member, from its record. -/
def coverageSystem (record : MemberRecord) : StepSystem (CoverageState F) CoverageAct where
  start s := s = ⟨record, []⟩
  step := CoverageStep

/-- A record without a repeated decision, and plans that are of it or are refused. -/
structure CoverageState.Sound (s : CoverageState F) : Prop where
  once : s.record.RecordedOnce
  /-- No plan was read from a later checkpoint or, at its checkpoint, from an earlier coverage. -/
  earlier : ∀ plan ∈ s.pending,
    plan.write.evaluatedThrough ≤ s.record.checkpoint.evaluatedThrough
      ∧ (plan.write.evaluatedThrough = s.record.checkpoint.evaluatedThrough →
        s.record.checkpoint.coverageStart ≤ plan.write.expectedStart)
  current : ∀ plan ∈ s.pending,
    plan.write.evaluatedThrough = s.record.checkpoint.evaluatedThrough →
      plan.write.expectedStart = s.record.checkpoint.coverageStart → plan.input.record = s.record

variable {s : CoverageState F}

theorem CoverageState.Sound.plan (h : s.Sound) {input : CoveragePlanInput F}
    (hrecord : input.record = s.record) (hmissing : input.start < input.coverageStart)
    {levels : List (BackfillLevelWrite F)} {sessions : ℕ} {start : LocalDate}
    (hplan : planBackfill maxBackfillAttempts input = (.planned levels sessions, start)) :
    CoverageState.Sound { s with pending := s.pending ++ [.of hmissing hplan] } := by
  have hcheckpoint : input.record.checkpoint = s.record.checkpoint := by rw [hrecord]
  refine ⟨h.once, ?_, ?_⟩
  · intro plan hmem
    rcases List.mem_append.mp hmem with hmem | hmem
    · exact h.earlier plan hmem
    · rw [List.mem_singleton.mp hmem]
      show input.record.checkpoint.evaluatedThrough ≤ _
        ∧ (_ → _ ≤ input.record.checkpoint.coverageStart)
      rw [hcheckpoint]
      exact ⟨le_rfl, fun _ => le_rfl⟩
  · intro plan hmem hthrough hexpected
    rcases List.mem_append.mp hmem with hmem | hmem
    · exact h.current plan hmem hthrough hexpected
    · rw [List.mem_singleton.mp hmem]
      exact hrecord

/-- A plan that is recorded was read from the record it is recorded onto, and starts before it. -/
theorem CoverageState.Sound.plannedFrom (h : s.Sound) {bound : Bool}
    {created : String → ℕ → String} {plan : PlannedBackfill F} {next : MemberRecord}
    (hpending : plan ∈ s.pending)
    (happlied : applyCoverageBackfill bound created plan.write s.record = some next) :
    plan.input.record = s.record ∧ plan.input.start < s.record.checkpoint.coverageStart := by
  obtain ⟨hthrough, hstart, -⟩ := applyCoverageBackfill_eq_some happlied
  have hrecord := h.current plan hpending hthrough.symm hstart.symm
  refine ⟨hrecord, ?_⟩
  rw [← hrecord]
  exact plan.start_lt

theorem CoverageState.Sound.backfill (h : s.Sound) {bound : Bool}
    {created : String → ℕ → String} {plan : PlannedBackfill F} {next : MemberRecord}
    (hpending : plan ∈ s.pending)
    (happlied : applyCoverageBackfill bound created plan.write s.record = some next) :
    CoverageState.Sound { s with record := next } := by
  obtain ⟨hrecord, hlt⟩ := h.plannedFrom hpending happlied
  obtain ⟨-, -, -, -, -, hthrough, hcovers⟩ := applyCoverageBackfill_eq_some happlied
  have hback : next.checkpoint.coverageStart < s.record.checkpoint.coverageStart := by
    rw [hcovers]
    exact hlt
  have hsame : plan.input.through = s.record.checkpoint.evaluatedThrough := by
    rw [CoveragePlanInput.through, hrecord]
  refine ⟨h.once.backfill (by rw [hrecord]) hsame plan.planCoverageBackfill_input happlied, ?_, ?_⟩
  · intro other hother
    obtain ⟨hle, hcoverage⟩ := h.earlier other hother
    show other.write.evaluatedThrough ≤ next.checkpoint.evaluatedThrough
      ∧ (other.write.evaluatedThrough = next.checkpoint.evaluatedThrough → _)
    rw [hthrough]
    exact ⟨hle, fun heq => hback.le.trans (hcoverage heq)⟩
  · -- the coverage a plan still expects has been moved back
    intro other hother heq hexpected
    change other.write.evaluatedThrough = next.checkpoint.evaluatedThrough at heq
    change other.write.expectedStart = next.checkpoint.coverageStart at hexpected
    have hcoverage := (h.earlier other hother).2 (heq.trans hthrough)
    rw [hexpected] at hcoverage
    exact absurd hback hcoverage.not_gt

theorem CoverageState.Sound.evaluate (h : s.Sound)
    {levels : List (SessionDecisionInput F)} {signalOf : LevelChange F → Option String}
    {next : MemberRecord} (hevaluates : s.record.Evaluates levels signalOf next) :
    CoverageState.Sound { s with record := next } := by
  obtain ⟨hnodup, -, hsteps, hthrough, -, htransitions⟩ := hevaluates
  -- of one level and logic, the decisions are those of the one evaluation of it
  have hdecisions : ∀ levelId fingerprint,
      (decisionsOf levelId fingerprint (levels.flatMap (evaluatedRows signalOf))).Nodup
        ∧ ∀ key ∈ decisionsOf levelId fingerprint (levels.flatMap (evaluatedRows signalOf)),
          ∃ date, key.1 = some date ∧ s.record.checkpoint.evaluatedThrough < date
            ∧ date ≤ next.checkpoint.evaluatedThrough := by
    intro levelId fingerprint
    rw [decisionsOf_flatMap]
    have hrows : (levels.flatMap fun input =>
          decisionsOf levelId fingerprint (evaluatedRows signalOf input))
        = levels.flatMap fun input =>
          if input.level.id = levelId ∧ input.level.fingerprint = fingerprint then
            decisionsOf levelId fingerprint (evaluatedRows signalOf input)
          else [] := by
      refine List.flatMap_congr fun input hinput => ?_
      obtain ⟨hreplay, hascends, -⟩ := hsteps input hinput
      obtain ⟨keys, -, -, hkeys⟩ :=
        decisionsOf_evaluatedRows hreplay hascends signalOf levelId fingerprint
      rw [hkeys]
      split <;> rfl
    rw [hrows]
    rcases flatMap_named levels (fun input : SessionDecisionInput F =>
        input.level.id = levelId ∧ input.level.fingerprint = fingerprint) hnodup
        (fun _ _ hnamed => hnamed.1) (fun input =>
          decisionsOf levelId fingerprint (evaluatedRows signalOf input)) with
      ⟨input, hinput, hnamed, heq⟩ | ⟨-, heq⟩
    · obtain ⟨hreplay, hascends, hdates⟩ := hsteps input hinput
      obtain ⟨keys, hkeysNodup, hkeysDated, hkeys⟩ :=
        decisionsOf_evaluatedRows hreplay hascends signalOf levelId fingerprint
      rw [if_pos hnamed] at hkeys
      rw [heq, hkeys]
      refine ⟨hkeysNodup, ?_⟩
      intro key hkey
      obtain ⟨date, hdate, hkeyDate⟩ := hkeysDated key hkey
      obtain ⟨session, hsession, rfl⟩ := List.mem_map.mp hdate
      exact ⟨_, hkeyDate, hdates session hsession⟩
    · rw [heq]
      exact ⟨List.nodup_nil, fun _ hmem => (List.not_mem_nil hmem).elim⟩
  refine ⟨h.once.append htransitions hthrough.le (fun levelId fingerprint =>
    (hdecisions levelId fingerprint).1) (fun levelId fingerprint key hkey => ?_), ?_, ?_⟩
  · obtain ⟨date, hdate, hafter, hle⟩ := (hdecisions levelId fingerprint).2 key hkey
    refine ⟨?_, date, hdate, hle⟩
    intro hold
    obtain ⟨date', hdate', hle'⟩ := h.once.through levelId fingerprint key hold
    rw [hdate] at hdate'
    obtain rfl := Option.some.inj hdate'
    exact absurd hafter hle'.not_gt
  · intro write hwrite
    obtain ⟨hle, -⟩ := h.earlier write hwrite
    exact ⟨hle.trans hthrough.le, fun heq => absurd heq (hle.trans_lt hthrough).ne⟩
  · intro write hwrite heq
    exact absurd heq ((h.earlier write hwrite).1.trans_lt hthrough).ne

/-- **Every order of passes keeps the record sound.** -/
theorem sound_of_reachable {record : MemberRecord} (h : record.RecordedOnce)
    (hs : (coverageSystem record).Reachable s) : s.Sound := by
  refine StepSystem.Inductive.reachable ⟨?_, ?_⟩ hs
  · rintro s rfl
    exact ⟨h, fun _ hmem => (List.not_mem_nil hmem).elim, fun _ hmem =>
      (List.not_mem_nil hmem).elim⟩
  · intro s act s' hsound hstep
    cases hstep with
    | plan _ hrecord hmissing hplan => exact hsound.plan hrecord hmissing hplan
    | backfill hpending happlied => exact hsound.backfill hpending happlied
    | evaluate hevaluates => exact hsound.evaluate hevaluates

/-- **Whatever the order of the passes over a member**, no decision is recorded twice under one logic,
nothing recorded is changed, and its coverage only grows. -/
theorem recordedOnce_of_later {record : MemberRecord} (h : record.RecordedOnce)
    {s s' : CoverageState F} (hs : (coverageSystem record).Reachable s)
    (hlater : (coverageSystem record).Later s s') :
    (∀ levelId fingerprint, (decisionsOf levelId fingerprint s'.record.transitions).Nodup)
      ∧ s.record.transitions <+: s'.record.transitions
      ∧ s.record.checkpoint.evaluatedThrough ≤ s'.record.checkpoint.evaluatedThrough
      ∧ s'.record.checkpoint.coverageStart ≤ s.record.checkpoint.coverageStart := by
  refine ⟨(sound_of_reachable h (hs.later hlater)).once.nodup, ?_⟩
  refine StepSystem.Later.of_step (R := fun s s' : CoverageState F =>
    s.record.transitions <+: s'.record.transitions
      ∧ s.record.checkpoint.evaluatedThrough ≤ s'.record.checkpoint.evaluatedThrough
      ∧ s'.record.checkpoint.coverageStart ≤ s.record.checkpoint.coverageStart)
    (fun s => ⟨List.prefix_refl _, le_rfl, le_rfl⟩) ?_ ?_ hs hlater
  · rintro s middle s' ⟨hrows, hthrough, hstart⟩ ⟨hrows', hthrough', hstart'⟩
    exact ⟨hrows.trans hrows', hthrough.trans hthrough', hstart'.trans hstart⟩
  · intro s act s' hreachable hstep
    cases hstep with
    | plan => exact ⟨List.prefix_refl _, le_rfl, le_rfl⟩
    | backfill hpending happlied =>
      obtain ⟨-, hlt⟩ := (sound_of_reachable h hreachable).plannedFrom hpending happlied
      obtain ⟨-, -, hrows, -, -, hthrough, hcovers⟩ := applyCoverageBackfill_eq_some happlied
      refine ⟨?_, hthrough.ge, ?_⟩
      · show _ <+: _
        rw [hrows]
        exact List.prefix_append _ _
      · rw [hcovers]
        exact hlt.le
    | evaluate hevaluates =>
      refine ⟨?_, hevaluates.through.le, hevaluates.start.le⟩
      show _ <+: _
      rw [hevaluates.transitions]
      exact List.prefix_append _ _

/-- **A recorded back-fill leaves its window's canonical decisions recorded**, each once and no other:
of every level of what it was planned from that has a state, unless no session is missing. -/
theorem window_recorded {record : MemberRecord} (h : record.RecordedOnce)
    {s : CoverageState F} (hs : (coverageSystem record).Reachable s) {bound : Bool}
    {created : String → ℕ → String} {plan : PlannedBackfill F} {next : MemberRecord}
    (hpending : plan ∈ s.pending)
    (happlied : applyCoverageBackfill bound created plan.write s.record = some next) :
    plan.input.record = s.record
      ∧ plan.input.start = next.checkpoint.coverageStart
      ∧ plan.input.start < s.record.checkpoint.coverageStart
      ∧ (plan.input.missing ≠ [] → ∀ level ∈ plan.input.levels,
        (s.record.states.get? level.id).isSome = true →
          ((decisionsOf level.id level.fingerprint next.transitions).filter fun key =>
            key.1.any fun date =>
              decide (plan.input.start ≤ date ∧ date ≤ plan.input.through)).Perm
                ((plan.input.canonical level).map LevelChange.key)) := by
  have hsound := sound_of_reachable h hs
  have hnodup := (hsound.backfill hpending happlied).once.nodup
  obtain ⟨hrecord, hlt⟩ := hsound.plannedFrom hpending happlied
  obtain ⟨-, -, hrows, -, -, -, hcovers⟩ := applyCoverageBackfill_eq_some happlied
  refine ⟨hrecord, hcovers.symm, hlt, ?_⟩
  intro hmissing level hlevel hstate
  obtain ⟨persisted, hpersisted⟩ := Option.isSome_iff_exists.mp hstate
  rw [← hrecord] at hpersisted
  rcases CoveragePlanInput.planned_spec plan.planCoverageBackfill_input with ⟨-, hnone⟩ | ⟨hadds, hadded⟩
  · exact absurd hnone hmissing
  · rw [hadded, ← hrecord] at hrows
    exact CoveragePlanInput.perm_window hadds hlevel hpersisted created hrows (hnodup _ _)

/-! ### A sample run -/

theorem recordedOnce_risingRecord : CoveragePlanInput.risingRecord.RecordedOnce where
  nodup _ _ := List.nodup_nil
  through _ _ _ hkey := (List.not_mem_nil hkey).elim

/-- The sample member's missing sessions planned. -/
def risingBackfill : PlannedBackfill ExactNumber :=
  .of (by decide : CoveragePlanInput.risingPlan.start < CoveragePlanInput.risingPlan.coverageStart)
    (rfl : planBackfill maxBackfillAttempts CoveragePlanInput.risingPlan
      = (.planned (CoveragePlanInput.plannedLevels
          (planCoverageBackfill CoveragePlanInput.risingPlan)) 4, CoveragePlanInput.risingDate 0))

theorem reachable_risingBackfill :
    (coverageSystem CoveragePlanInput.risingRecord).Reachable
      ⟨CoveragePlanInput.risingRecord, [risingBackfill]⟩ :=
  .step (.start rfl) (CoverageStep.plan CoveragePlanInput.risingPlan rfl (by decide) rfl)

/-- The plan of the sample member is recorded: two rows are added. -/
theorem exists_rising_recorded :
    ∃ next, applyCoverageBackfill true (fun _ _ => "signal") risingBackfill.write
      CoveragePlanInput.risingRecord = some next ∧ next.transitions.length = 2 := by
  have happlied : (applyCoverageBackfill true (fun _ _ => "signal") risingBackfill.write
      CoveragePlanInput.risingRecord).map (·.transitions.length) = some 2 := by
    decide +kernel
  exact Option.map_eq_some_iff.mp happlied

theorem recordedOnce_of_later_rising :
    ∃ s : CoverageState ExactNumber, s.record.transitions.length = 2
      ∧ ∀ levelId fingerprint, (decisionsOf levelId fingerprint s.record.transitions).Nodup := by
  obtain ⟨next, happlied, hlength⟩ := exists_rising_recorded
  exact ⟨_, hlength, (recordedOnce_of_later recordedOnce_risingRecord reachable_risingBackfill
    ((StepSystem.Later.refl _).snoc
      (CoverageStep.backfill (List.mem_singleton_self _) happlied))).1⟩

theorem window_recorded_rising :
    ∃ next : MemberRecord, next.transitions.length = 2
      ∧ risingBackfill.input.record = CoveragePlanInput.risingRecord
      ∧ risingBackfill.input.start = next.checkpoint.coverageStart := by
  obtain ⟨next, happlied, hlength⟩ := exists_rising_recorded
  obtain ⟨hrecord, hstart, -⟩ := window_recorded recordedOnce_risingRecord
    reachable_risingBackfill (List.mem_singleton_self _) happlied
  exact ⟨next, hlength, hrecord, hstart⟩

end System

end FactorSage
