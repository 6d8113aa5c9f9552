import FactorSage.Rebase.Measured

/-!
# A re-based history is measured exactly, and restored before its events

`rebase_measured` is about any history the provider re-based: cut into segments, each but the newest
with one ratio that all its sessions admit. The comparison reports the steps between the segments,
and nothing else. For an observation made before all of them, the oldest segment is restored by one
factor, which is a ratio that each of its sessions admits up to the rounding of the doubles it is
multiplied up in; a session on or after one of the events is withheld, since the units of the
observation are unknown there.
-/

namespace FactorSage.Rebase

open BinaryRounding ComparatorSort

/-! ### The sessions both histories hold -/

namespace CommonSession

/-- The new close is the stored one over a ratio, up to the rounding of both. -/
def IsQuotient (ratio : ℚ) (session : CommonSession) : Prop :=
  |session.stored - ratio * session.fresh|
    ≤ priceRoundingAllowance session.stored + ratio * priceRoundingAllowance session.fresh

instance (ratio : ℚ) (session : CommonSession) : Decidable (session.IsQuotient ratio) :=
  inferInstanceAs (Decidable (_ ≤ _))

end CommonSession

theorem compares_byDate : Compares byDate PriceComparisonRow.date := by
  intro left right
  unfold byDate
  split
  · next h => exact ⟨fun _ => h, fun _ => by decide⟩
  · next h =>
    refine ⟨fun hneg => ?_, fun hlt => absurd hlt h⟩
    split at hneg <;> exact absurd hneg (by decide)

/-- The close of a date, where no date comes twice. -/
theorem freshClose_of_mem {fresh : List PriceComparisonRow}
    (hdates : (fresh.map PriceComparisonRow.date).Nodup) {row : PriceComparisonRow}
    (h : row ∈ fresh) : freshClose fresh row.date = some row.close := by
  unfold freshClose
  cases hfound : fresh.reverse.find? fun other => other.date = row.date with
  | none =>
    have hnone := List.find?_eq_none.mp hfound row (List.mem_reverse.mpr h)
    exact absurd (decide_eq_true rfl) hnone
  | some other =>
    have hmem := List.mem_reverse.mp (List.mem_of_find?_eq_some hfound)
    have hsame : other.date = row.date := of_decide_eq_true (List.find?_some hfound :)
    rw [List.inj_on_of_nodup_map hdates hmem h hsame]
    rfl

/-- Two histories of the same sessions, in any order, have them in common. -/
theorem commonSessions_of_perm {sessions : List CommonSession}
    {stored fresh : List PriceComparisonRow}
    (hstored : stored.Perm (sessions.map CommonSession.storedRow))
    (hfresh : fresh.Perm (sessions.map CommonSession.freshRow))
    (hdates : (sessions.map CommonSession.date).Pairwise (· < ·)) :
    commonSessions stored fresh = sessions := by
  have hnodup : (sessions.map CommonSession.date).Nodup := hdates.imp ne_of_lt
  have hsorted : sortBy byDate stored = sessions.map CommonSession.storedRow := by
    refine (eq_sortBy_of_perm compares_byDate hstored.symm ?_ ?_).symm
    · rw [List.pairwise_map] at hdates ⊢
      exact hdates.imp le_of_lt
    · rw [List.map_map]
      exact hnodup
  have hclose : ∀ session ∈ sessions, freshClose fresh session.date = some session.fresh := by
    intro session hsession
    have hfreshDates : (fresh.map PriceComparisonRow.date).Nodup := by
      refine (hfresh.map _).nodup_iff.mpr ?_
      rw [List.map_map]
      exact hnodup
    exact freshClose_of_mem hfreshDates (hfresh.symm.subset (List.mem_map_of_mem hsession))
  unfold commonSessions
  rw [hsorted, List.filterMap_map]
  refine (List.filterMap_congr fun session hsession => ?_).trans List.filterMap_some
  change (freshClose fresh session.date).map _ = some session
  rw [hclose session hsession]
  rfl

/-! ### A re-based history -/

/-- The sessions of some segments, newest first, in ascending order. -/
def sessionsOf (segments : List (List CommonSession)) : List CommonSession :=
  segments.reverse.flatten

/-- The first session of each segment but the oldest, newest first. -/
def boundaries (segments : List (List CommonSession)) : List ℤ :=
  segments.dropLast.filterMap fun segment => segment.head?.map CommonSession.date

/-- A history the provider re-based, its segments newest first. -/
structure RebasedHistory (input : ComparisonInput) (newest : List CommonSession)
    (older : List (List CommonSession)) : Prop where
  stored : input.stored.Perm ((sessionsOf (newest :: older)).map CommonSession.storedRow)
  fresh : input.fresh.Perm ((sessionsOf (newest :: older)).map CommonSession.freshRow)
  ascending : ((sessionsOf (newest :: older)).map CommonSession.date).Pairwise (· < ·)
  positive : ∀ segment ∈ newest :: older, ∀ session ∈ segment, session.hasRatio = true
  long : ∀ segment ∈ newest :: older, 3 ≤ segment.length
  unchanged : ∀ session ∈ newest, session.changed = false ∧ 1 ∈ session.admitted
  rebased : ∀ segment ∈ older, ∃ ratio, 0 < ratio ∧ ∀ session ∈ segment,
    session.changed = true ∧ ratio ∈ session.admitted
  apart : (newest :: older).Pairwise fun newer segment => ∀ session ∈ newer, ∀ other ∈ segment,
    ¬ session.admitted.Meets other.admitted

section Rebased

variable {input : ComparisonInput} {newest : List CommonSession}
  {older : List (List CommonSession)} (h : RebasedHistory input newest older)

/-- The rows of a segment. -/
def rowsOf (segment : List CommonSession) : List ComparedRow := segment.map comparedRow

include h

theorem RebasedHistory.common : input.common = sessionsOf (newest :: older) :=
  commonSessions_of_perm h.stored h.fresh h.ascending

theorem RebasedHistory.valid : input.valid = ((newest :: older).map rowsOf).reverse.flatten := by
  unfold ComparisonInput.valid validRows
  rw [h.common, List.filter_eq_self.mpr]
  · unfold sessionsOf
    rw [List.map_flatten, ← List.map_reverse]
    rfl
  · intro session hsession
    obtain ⟨segment, hsegment, hmem⟩ := List.mem_flatten.mp hsession
    exact h.positive segment (List.mem_reverse.mp hsegment) session hmem

variable {segment : List CommonSession}

theorem RebasedHistory.ne_nil (hsegment : segment ∈ newest :: older) : segment ≠ [] :=
  List.ne_nil_of_length_pos (lt_of_lt_of_le (by decide) (h.long segment hsegment))

theorem RebasedHistory.isSegment_newest : IsSegment (rowsOf newest) true := by
  have hne := h.ne_nil List.mem_cons_self
  refine isSegment_kept (fun row hrow => ?_) (fun hnil => hne (List.map_eq_nil_iff.mp hnil))
  obtain ⟨session, hsession, rfl⟩ := List.mem_map.mp hrow
  obtain ⟨hsame, hone⟩ := h.unchanged session hsession
  exact CommonSession.comparedRow_agrees (h.positive newest List.mem_cons_self session hsession)
    hsame fun _ _ => hone

/-- An older segment is a changed one, and a positive ratio fits all of it. -/
theorem RebasedHistory.isSegment_older (hsegment : segment ∈ older) :
    IsSegment (rowsOf segment) false
      ∧ ∃ ratio, 0 < ratio ∧ ∀ row ∈ rowsOf segment, ratio ∈ row.toBand := by
  obtain ⟨ratio, hpos, hratio⟩ := h.rebased segment hsegment
  have hmem := List.mem_cons_of_mem newest hsegment
  have hadmits : ∀ row ∈ rowsOf segment, ratio ∈ row.toBand := by
    intro row hrow
    obtain ⟨session, hsession, rfl⟩ := List.mem_map.mp hrow
    exact (hratio session hsession).2
  refine ⟨⟨fun hnil => h.ne_nil hmem (List.map_eq_nil_iff.mp hnil), fun row hrow => ?_, ratio,
    hadmits⟩, ratio, hpos, hadmits⟩
  obtain ⟨session, hsession, rfl⟩ := List.mem_map.mp hrow
  exact (CommonSession.comparedRow_differs (h.positive segment hmem session hsession)
    (hratio session hsession).1).kind

theorem RebasedHistory.apart_rows : ((newest :: older).map rowsOf).Pairwise fun newer segment =>
    ∀ row ∈ newer, ∀ other ∈ segment, ¬ row.toBand.Meets other.toBand := by
  rw [List.pairwise_map]
  refine h.apart.imp fun {newer segment} hapart row hrow other hother => ?_
  obtain ⟨session, hsession, rfl⟩ := List.mem_map.mp hrow
  obtain ⟨old, hold, rfl⟩ := List.mem_map.mp hother
  exact hapart session hsession old hold

/-- The runs are the segments. -/
theorem RebasedHistory.runs_behind :
    ∃ newer runs, growRuns input.valid = newer :: runs
      ∧ Behind ((newest :: older).map rowsOf) (newer :: runs) := by
  have hsegments : ∀ segment ∈ ((newest :: older).map rowsOf).reverse,
      ∃ unchanged, IsSegment segment unchanged := by
    intro segment hsegment
    obtain ⟨sessions, hsessions, rfl⟩ := List.mem_map.mp (List.mem_reverse.mp hsegment)
    rcases List.mem_cons.mp hsessions with rfl | hsessions
    · exact ⟨true, h.isSegment_newest⟩
    · exact ⟨false, (h.isSegment_older hsessions).1⟩
  have hchain : ((newest :: older).map rowsOf).reverse.IsChain Apart := by
    refine List.Pairwise.isChain ?_
    rw [List.pairwise_reverse]
    exact h.apart_rows.imp fun {newer segment} hapart old hold new hnew hsame =>
      hapart new hnew old hold hsame.2
  obtain ⟨runs, hgrow, hruns⟩ := growRuns_flatten hsegments hchain
  have hbehind := @Described.behind _ 0 runs [] [] hruns trivial rfl
  rw [List.reverse_reverse, List.append_nil, List.append_nil] at hbehind
  rw [h.valid, hgrow]
  cases hreverse : runs.reverse with
  | nil =>
    rw [hreverse] at hbehind
    exact absurd hbehind id
  | cons newer rest =>
    rw [hreverse] at hbehind
    exact ⟨newer, rest, rfl, hbehind⟩

/-- What the run of a segment is. -/
structure RunOf (segment : List CommonSession) (run : Run) : Prop where
  long : run.short = false
  positive : 0 < runRatio run
  double : toDouble (runRatio run) = runRatio run
  admitted : ∀ session ∈ segment, runRatio run ∈ session.admitted

theorem RebasedHistory.runOf {run : Run} {start : ℕ}
    (hsegment : segment ∈ newest :: older) (hcovers : Covers start (rowsOf segment) run) :
    RunOf segment run := by
  obtain ⟨ratio, hratio, hadmits⟩ :
      ∃ ratio, 0 < ratio ∧ ∀ row ∈ rowsOf segment, ratio ∈ row.toBand := by
    rcases List.mem_cons.mp hsegment with rfl | hsegment
    · refine ⟨1, one_pos, fun row hrow => ?_⟩
      obtain ⟨session, hsession, rfl⟩ := List.mem_map.mp hrow
      exact (h.unchanged session hsession).2
    · exact (h.isSegment_older hsegment).2
  have hcount : run.ratios.length = segment.length := by
    rw [hcovers.count]
    exact List.length_map _
  have hlong := h.long segment hsegment
  have hmem : ratio ∈ run.toBand := (hcovers.mem ratio).mpr hadmits
  have hkept : run.unchanged = true → 1 ∈ run.toBand := by
    intro hunchanged
    refine (hcovers.mem 1).mpr fun row hrow => ?_
    have hsame := (hcovers.kind row hrow).trans hunchanged
    obtain ⟨session, hsession, rfl⟩ := List.mem_map.mp hrow
    rcases List.mem_cons.mp hsegment with rfl | hsegment
    · exact (h.unchanged session hsession).2
    · -- no session of an older segment is unchanged
      obtain ⟨other, -, hrebased⟩ := h.rebased segment hsegment
      have hchanged := (hrebased session hsession).1
      rw [(Bool.not_eq_true' _).mp hsame] at hchanged
      exact absurd hchanged Bool.false_ne_true
  refine ⟨?_, runRatio_pos hmem hratio ?_ fun value hvalue => ?_,
    toDouble_runRatio hcovers fun row hrow => ?_, fun session hsession => ?_⟩
  · unfold Run.short
    rw [hcount]
    exact decide_eq_false (not_lt.mpr hlong)
  · refine List.ne_nil_of_length_pos ?_
    omega
  · obtain ⟨row, hrow, rfl⟩ := hcovers.ratios value hvalue
    obtain ⟨session, hsession, rfl⟩ := List.mem_map.mp hrow
    obtain ⟨hstored, hfresh⟩ := of_decide_eq_true (h.positive segment hsegment session hsession)
    exact toDouble_pos (div_pos hstored hfresh)
  · obtain ⟨session, -, rfl⟩ := List.mem_map.mp hrow
    exact ofDoubles_comparedRow session
  · exact (hcovers.mem _).mp (runRatio_mem hmem hkept) (comparedRow session)
      (List.mem_map_of_mem hsession)

/-- There is nothing to resolve. -/
theorem RebasedHistory.settled {newer : Run} {runs : List Run}
    (hbehind : Behind ((newest :: older).map rowsOf) (newer :: runs)) :
    Settled newer runs := by
  refine ⟨fun run hrun => ?_, ?_, fun run hrun => ?_, hbehind.pairwise ?_ h.apart_rows⟩
  · obtain ⟨rows, hrows, start, hcovers⟩ := hbehind.covers run hrun
    obtain ⟨segment, hsegment, rfl⟩ := List.mem_map.mp hrows
    exact (h.runOf hsegment hcovers).long
  · obtain ⟨row, hrow⟩ := List.exists_mem_of_ne_nil _ h.isSegment_newest.nonempty
    rw [← hbehind.1.kind row hrow, h.isSegment_newest.kind row hrow]
  · obtain ⟨rows, hrows, start, hcovers⟩ := hbehind.2.covers run hrun
    obtain ⟨segment, hsegment, rfl⟩ := List.mem_map.mp hrows
    have hrowsSegment := (h.isSegment_older hsegment).1
    obtain ⟨row, hrow⟩ := List.exists_mem_of_ne_nil _ hrowsSegment.nonempty
    rw [← hcovers.kind row hrow, hrowsSegment.kind row hrow]
  · intro rows hrows
    obtain ⟨segment, hsegment, rfl⟩ := List.mem_map.mp hrows
    exact fun hnil => h.ne_nil hsegment (List.map_eq_nil_iff.mp hnil)

/-- The events are the dated steps between the segments. -/
theorem RebasedHistory.events {newer : Run} {runs : List Run}
    (hgrow : growRuns input.valid = newer :: runs)
    (hbehind : Behind ((newest :: older).map rowsOf) (newer :: runs)) :
    input.events = measuredSteps input.context ((newest :: older).map rowsOf) (newer :: runs) := by
  have hsettled := h.settled hbehind
  have hsegmented : input.segmented = (newer :: runs, 0) := by
    unfold ComparisonInput.segmented segmentRuns
    rw [hgrow, List.length_cons, resolve, hsettled.resolveStep]
  have hlength : input.valid.length = input.common.length := by
    have hall := length_validRows input.common
    have hnone : input.common.filter (fun session => !session.hasRatio) = [] := by
      refine List.filter_eq_nil_iff.mpr fun session hsession => ?_
      rw [h.common] at hsession
      obtain ⟨segment, hsegment, hmem⟩ := List.mem_flatten.mp hsession
      rw [h.positive segment (List.mem_reverse.mp hsegment) session hmem]
      decide
    rw [hnone] at hall
    exact hall
  have hunfitted : input.unfitted = 0 := by
    unfold ComparisonInput.unfitted
    rw [hsegmented, hlength, Nat.sub_self]
    rfl
  have hfew : ¬ exceedsShare input.unfitted input.common.length = true := by
    rw [hunfitted, exceedsShare_zero]
    exact Bool.false_ne_true
  have hruns : input.segmented.1 = newer :: runs := congrArg Prod.fst hsegmented
  unfold ComparisonInput.events
  rw [if_neg (not_or.mpr ⟨by rw [hruns]; exact List.cons_ne_nil _ _, hfew⟩), hruns]
  cases runs with
  | nil =>
    -- one segment, and nothing in it changed
    have holder : older = [] := by
      cases older with
      | nil => rfl
      | cons => exact absurd hbehind.2 id
    subst holder
    have hchanged : input.changed = [] := by
      unfold PriceHistories.changed
      rw [h.common, List.filter_eq_nil_iff]
      intro session hsession
      obtain ⟨segment, hsegment, hmem⟩ := List.mem_flatten.mp hsession
      obtain rfl := List.mem_singleton.mp (List.mem_reverse.mp hsegment)
      rw [(h.unchanged session hmem).1]
      exact Bool.false_ne_true
    rw [if_pos hchanged]
    rfl
  | cons next runs =>
    cases older with
    | nil => exact absurd hbehind.2 id
    | cons segment older =>
      have hmem : segment ∈ newest :: segment :: older :=
        List.mem_cons_of_mem _ List.mem_cons_self
      have hchanged : input.changed ≠ [] := by
        obtain ⟨session, hsession⟩ := List.exists_mem_of_ne_nil _ (h.ne_nil hmem)
        obtain ⟨ratio, -, hratio⟩ := h.rebased segment List.mem_cons_self
        refine List.ne_nil_of_mem (List.mem_filter.mpr ⟨?_, (hratio session hsession).1⟩)
        rw [h.common]
        exact List.mem_flatten.mpr ⟨segment, List.mem_reverse.mpr hmem, hsession⟩
      have hne : ∀ rows ∈ (newest :: segment :: older).map rowsOf, rows ≠ [] := by
        intro rows hrows
        obtain ⟨sessions, hsessions, rfl⟩ := List.mem_map.mp hrows
        exact fun hnil => h.ne_nil hsessions (List.map_eq_nil_iff.mp hnil)
      have hexcluded : ∀ row ∈ rowsOf newest, runRatio next ∉ row.toBand := by
        intro row hrow hmemRow
        obtain ⟨session, hsession, rfl⟩ := List.mem_map.mp hrow
        have hnext := (h.runOf hmem hbehind.2.1).admitted
        obtain ⟨other, hother⟩ := List.exists_mem_of_ne_nil _ (h.ne_nil hmem)
        exact (List.pairwise_cons.mp h.apart).1 segment List.mem_cons_self session hsession other
          hother (.of_mem hmemRow (hnext other hother))
      have hlatest := @latestStep_eq input.context _ _ _ _ _ h.valid (hne _ List.mem_cons_self)
        hbehind.1 hbehind.2.1 hexcluded
      have hsteps := @stepsBehind_eq input.context _ [rowsOf newest] _ _ _ hbehind.2 h.valid
        (fun rows hrows => hne rows (List.mem_cons_of_mem _ hrows))
        fun run hrun => hsettled.changed run (List.mem_cons_of_mem _ hrun)
      rw [if_neg hchanged]
      unfold eventsOf
      dsimp only
      rw [hsettled.kept, if_pos rfl, List.nil_append]
      change input.context.stepsBehind true false newer (next :: runs) = _
      unfold EventContext.stepsBehind
      rw [hsettled.kept, hlatest, hsteps]
      rfl

omit h in
/-- A boundary is the first session of a segment that has one. -/
theorem map_boundaries {β : Type} (f : Option ℤ → β) {segments : List (List CommonSession)}
    (hne : ∀ segment ∈ segments, segment ≠ []) :
    (segments.filterMap fun segment => segment.head?.map CommonSession.date).map
        (fun date => f (some date))
      = segments.map fun segment => f ((rowsOf segment).head?.map ComparedRow.date) := by
  induction segments with
  | nil => rfl
  | cons segment segments ih =>
    have hrest := ih fun other hother => hne other (List.mem_cons_of_mem _ hother)
    cases segment with
    | nil => exact absurd rfl (hne [] List.mem_cons_self)
    | cons session segment =>
      rw [List.filterMap_cons, List.map_cons]
      dsimp only [List.head?_cons, Option.map_some]
      rw [List.map_cons, hrest]
      rfl

/-- Sessions of an older segment precede those of a newer one. -/
theorem RebasedHistory.dates_apart : (newest :: older).Pairwise fun newer segment =>
    ∀ session ∈ newer, ∀ other ∈ segment, other.date < session.date := by
  have hdates := h.ascending
  rw [List.pairwise_map] at hdates
  have hsegments := (List.pairwise_flatten.mp hdates).2
  rw [List.pairwise_reverse] at hsegments
  exact hsegments.imp fun {newer segment} hpair session hsession other hother =>
    hpair other hother session hsession

/-- The first session of a segment is its earliest. -/
theorem RebasedHistory.head_le (hsegment : segment ∈ newest :: older)
    {session : CommonSession} (hsession : session ∈ segment) :
    ∃ first ∈ segment.head?, first.date ≤ session.date := by
  have hdates := h.ascending
  rw [List.pairwise_map] at hdates
  have hpairs := (List.pairwise_flatten.mp hdates).1 segment (List.mem_reverse.mpr hsegment)
  cases segment with
  | nil => cases hsession
  | cons first segment =>
    refine ⟨first, rfl, ?_⟩
    rcases List.mem_cons.mp hsession with rfl | hsession
    · exact le_rfl
    · exact ((List.pairwise_cons.mp hpairs).1 session hsession).le

/-- **A re-base is measured exactly, and restored before its events.** -/
theorem rebase_measured :
    (comparePriceHistories input).events.map (fun event =>
        (event.kind, event.effectiveDate, event.effectiveFrom, event.effectiveTo))
      = (boundaries (newest :: older)).map (fun date => (.MEASURED, some date, none, none))
    ∧ ∀ observedAt < input.detectedAt,
      (∀ date ∈ boundaries (newest :: older), instantDate observedAt < date) →
      ∀ events : List PriceBasisEvent, events.Perm (comparePriceHistories input).events →
        (∃ ratio factor, WithinRoundings (2 * (older.length - 1)) ratio factor
          ∧ ∀ session ∈ (newest :: older).getLast (List.cons_ne_nil _ _),
            ratio ∈ session.admitted
              ∧ basisFactorAt session.date observedAt events = .FACTOR factor)
        ∧ ∀ segment ∈ (newest :: older).dropLast, ∀ session ∈ segment,
          basisFactorAt session.date observedAt events = .WITHHELD .AFTER_REBASE := by
  obtain ⟨newer, runs, hgrow, hbehind⟩ := h.runs_behind
  have hevents : (comparePriceHistories input).events
      = measuredSteps input.context ((newest :: older).map rowsOf) (newer :: runs) :=
    h.events hgrow hbehind
  have hdates : (comparePriceHistories input).events.map (fun event =>
      (event.kind, event.effectiveDate, event.effectiveFrom, event.effectiveTo))
      = (boundaries (newest :: older)).map (fun date => (.MEASURED, some date, none, none)) := by
    rw [hevents, dates_measuredSteps _ hbehind, ← List.map_dropLast, List.map_map]
    exact (map_boundaries (fun date => (PriceBasisEventKind.MEASURED, date, none, none))
      fun segment hsegment => h.ne_nil ((List.dropLast_sublist _).subset hsegment)).symm
  refine ⟨hdates, fun observedAt hdetected hobserved events hperm => ?_⟩
  -- every event is dated after the observation, on one of the boundaries
  have hdated : ∀ event ∈ events, ∃ date ∈ boundaries (newest :: older), ∃ ratio,
      DatedAfter observedAt event date ratio := by
    intro event hevent
    have hmem := hperm.subset hevent
    have hfact := List.mem_map_of_mem (f := fun event : PriceBasisEvent =>
      (event.kind, event.effectiveDate, event.effectiveFrom, event.effectiveTo)) hmem
    rw [hdates] at hfact
    obtain ⟨date, hdate, hsame⟩ := List.mem_map.mp hfact
    rw [hevents] at hmem
    obtain ⟨hdetectedAt, first, -, second, -, hratio⟩ := mem_measuredSteps _ hmem
    refine ⟨date, hdate, _, (congrArg Prod.fst hsame).symm,
      (congrArg (fun facts => facts.2.1) hsame).symm, hratio, ?_, hobserved date hdate⟩
    rw [hdetectedAt]
    exact hdetected
  have hboundary : ∀ date ∈ boundaries (newest :: older), ∃ segment ∈ (newest :: older).dropLast,
      ∃ first ∈ segment.head?, first.date = date := by
    intro date hdate
    obtain ⟨segment, hsegment, hfirst⟩ := List.mem_filterMap.mp hdate
    obtain ⟨first, hfirst, hsame⟩ := Option.map_eq_some_iff.mp hfirst
    exact ⟨segment, hsegment, first, hfirst, hsame⟩
  have hsplit := List.dropLast_append_getLast (List.cons_ne_nil newest older)
  constructor
  · have hrunOf : ∀ run ∈ newer :: runs, 0 < runRatio run ∧ toDouble (runRatio run) = runRatio run := by
      intro run hrun
      obtain ⟨rows, hrows, start, hcovers⟩ := hbehind.covers run hrun
      obtain ⟨segment, hsegment, rfl⟩ := List.mem_map.mp hrows
      have hrunOf := h.runOf hsegment hcovers
      exact ⟨hrunOf.positive, hrunOf.double⟩
    have hratios : ∀ ratio ∈ events.filterMap PriceBasisEvent.priceRatio,
        0 < ratio ∧ toDouble ratio = ratio := by
      intro ratio hratio
      obtain ⟨event, hevent, hrated⟩ := List.mem_filterMap.mp hratio
      have hmem := hperm.subset hevent
      rw [hevents] at hmem
      obtain ⟨-, first, hfirst, second, hsecond, hquotient⟩ := mem_measuredSteps _ hmem
      obtain rfl := Option.some.inj (hquotient.symm.trans hrated)
      exact ⟨toDouble_pos (div_pos (hrunOf second hsecond).1 (hrunOf first hfirst).1),
        toDouble_toDouble _⟩
    have hcount : (events.filterMap PriceBasisEvent.priceRatio).length = older.length := by
      have hlengths := congrArg List.length (@dates_measuredSteps input.context _ _ hbehind)
      rw [List.length_map, List.length_map, List.length_dropLast, List.length_map,
        List.length_cons, Nat.add_sub_cancel] at hlengths
      rw [← hlengths, ← hevents, ← hperm.length_eq]
      refine List.filterMap_length_eq_length.mpr fun event hevent => ?_
      obtain ⟨date, hdate, ratio, hafter⟩ := hdated event hevent
      exact Option.isSome_iff_exists.mpr ⟨ratio, hafter.rated⟩
    refine ⟨runRatio ((newer :: runs).getLast (List.cons_ne_nil _ _)),
      roundedProduct 1 (events.filterMap PriceBasisEvent.priceRatio), ?_,
      fun session hsession => ⟨?_, ?_⟩⟩
    · -- the quotients of the steps, and then their product
      have hsteps := @prod_measuredSteps_unchanged input.context _ _ _ hbehind
        (fun run hrun => (hrunOf run hrun).1) (if_pos (h.settled hbehind).kept)
        fun run hrun => (hrunOf run (List.mem_cons_of_mem _ hrun)).2
      rw [← hevents, ← (hperm.filterMap _).prod_eq, hbehind.length_runs, List.length_map] at hsteps
      have hproduct := withinRoundings_roundedProduct_one (fun ratio hratio =>
        (hratios ratio hratio).1) fun ratio hratio => (hratios ratio hratio).2
      rw [hcount] at hproduct
      rw [Nat.two_mul]
      exact hsteps.trans hproduct
    · obtain ⟨start, hcovers⟩ := hbehind.getLast (List.cons_ne_nil _ _) (List.cons_ne_nil _ _)
      rw [List.getLast_map] at hcovers
      exact (h.runOf (List.getLast_mem _) hcovers).admitted session hsession
    · have hbefore : ∀ event ∈ events, ∃ date ratio, DatedAfter observedAt event date ratio
          ∧ session.date < date := by
        intro event hevent
        obtain ⟨date, hdate, ratio, hafter⟩ := hdated event hevent
        obtain ⟨segment, hsegment, first, hfirst, rfl⟩ := hboundary date hdate
        refine ⟨first.date, ratio, hafter, ?_⟩
        have hapart := h.dates_apart
        rw [← hsplit, List.pairwise_append] at hapart
        exact hapart.2.2 segment hsegment _ List.mem_cons_self first (List.mem_of_mem_head? hfirst)
          session hsession
      exact basisFactorFrom_before hbefore
  · intro segment hsegment session hsession
    obtain ⟨first, hfirst, hle⟩ := h.head_le ((List.dropLast_sublist _).subset hsegment) hsession
    have hdate : first.date ∈ boundaries (newest :: older) :=
      List.mem_filterMap.mpr ⟨segment, hsegment, by rw [hfirst]; rfl⟩
    have hfact := List.mem_map_of_mem (f := fun date : ℤ => (PriceBasisEventKind.MEASURED,
      some date, (none : Option ℤ), (none : Option ℤ))) hdate
    rw [← hdates] at hfact
    obtain ⟨event, hevent, hsame⟩ := List.mem_map.mp hfact
    refine basisFactorFrom_after (fun event hevent => ?_)
      ⟨event, hperm.symm.subset hevent, first.date, congrArg (fun facts => facts.2.1) hsame, hle⟩
    obtain ⟨date, -, ratio, hafter⟩ := hdated event hevent
    exact ⟨date, ratio, hafter⟩

end Rebased

/-- Nine sessions read before and after two re-bases, of 3 and then of 2. -/
def twiceNewest : List CommonSession := segmentOf 7 [(50, 50), (51, 51), (52, 52)]

def twiceMiddle : List CommonSession := segmentOf 4 [(100, 50), (102, 51), (104, 52)]

def twiceOldest : List CommonSession := segmentOf 1 [(300, 50), (306, 51), (312, 52)]

def rebasedTwice : ComparisonInput := rereadHistory (twiceOldest ++ twiceMiddle ++ twiceNewest)

theorem rebasedHistory_rebasedTwice :
    RebasedHistory rebasedTwice twiceNewest [twiceMiddle, twiceOldest] := by
  refine ⟨by decide +kernel, by decide +kernel, by decide +kernel, by decide +kernel, by decide,
    by decide +kernel, List.forall_mem_cons.mpr ⟨⟨2, by norm_num, by decide +kernel⟩,
      List.forall_mem_singleton.mpr ⟨6, by norm_num, by decide +kernel⟩⟩, by decide +kernel⟩

/-- The oldest three sessions are restored for an observation made on the third of them. -/
theorem rebase_measured_twice :
    ∃ ratio factor, WithinRoundings 2 ratio factor
      ∧ ∀ session ∈ twiceOldest, ratio ∈ session.admitted
        ∧ basisFactorAt session.date (3 * 86400000) (comparePriceHistories rebasedTwice).events
          = .FACTOR factor :=
  ((rebase_measured rebasedHistory_rebasedTwice).2 (3 * 86400000) (by decide) (by decide) _
    (List.Perm.refl _)).1

/-- Two re-bases whose ratios, as they are measured, multiply to just above the last ratio that the
first session admits. -/
def roundedNewest : List CommonSession :=
  segmentOf 7 [(19561 / 100, 19561 / 100), (7581 / 100, 7581 / 100), (11332 / 100, 11332 / 100)]

def roundedMiddle : List CommonSession :=
  segmentOf 4 [(14323 / 100, 4774 / 100), (15026 / 100, 5009 / 100), (1847 / 100, 616 / 100)]

def roundedOldest : List CommonSession :=
  segmentOf 1 [(18924 / 100, 5735 / 100), (5604 / 100, 1698 / 100), (2958 / 100, 896 / 100)]

def rebasedRounded : ComparisonInput :=
  rereadHistory (roundedOldest ++ roundedMiddle ++ roundedNewest)

/-- A re-base of 3 whose first and third session are as far from it as their rounding allows, to
either side. -/
def edgeNewest : List CommonSession := segmentOf 4 [(50, 50), (51, 51), (52, 52)]

def edgeOldest : List CommonSession :=
  segmentOf 1 [(4799924 / 100, 1599974 / 100), (30000, 10000), (4258939 / 100, 1419647 / 100)]

/-- What a re-base does not restore. A session between two events is withheld: no factor is returned.
The factor of the oldest segment, multiplied up in doubles, can lie outside the interval of one of
its sessions. And a ratio that every close is on, up to its rounding, can lie outside the interval
of doubles, so that nothing is measured. -/
theorem middle_segment_withheld :
    (RebasedHistory rebasedTwice twiceNewest [twiceMiddle, twiceOldest]
      ∧ (∀ session ∈ twiceMiddle, session.IsQuotient 2)
      ∧ (∀ session ∈ twiceOldest, session.IsQuotient 6)
      ∧ (comparePriceHistories rebasedTwice).events.map PriceBasisEvent.effectiveDate
        = [some 7, some 4]
      ∧ basisFactorAt 5 (3 * 86400000) (comparePriceHistories rebasedTwice).events
        = .WITHHELD .AFTER_REBASE)
    ∧ (RebasedHistory rebasedRounded roundedNewest [roundedMiddle, roundedOldest]
      ∧ (∀ session ∈ roundedMiddle, session.IsQuotient 3)
      ∧ (∀ session ∈ roundedOldest, session.IsQuotient (33 / 10))
      ∧ basisFactorAt 1 (3 * 86400000) (comparePriceHistories rebasedRounded).events
        = .FACTOR (7431194624481033 / 2 ^ 51)
      ∧ ∃ first ∈ roundedOldest.head?, 7431194624481033 / 2 ^ 51 ∉ first.admitted)
    ∧ ((∀ session ∈ edgeNewest, session.changed = false ∧ session.stored = session.fresh)
      ∧ (∀ session ∈ edgeOldest, session.changed = true ∧ session.IsQuotient 3)
      ∧ (∀ session ∈ edgeNewest, ∀ other ∈ edgeOldest, ¬ session.admitted.Meets other.admitted)
      ∧ (comparePriceHistories (rereadHistory (edgeOldest ++ edgeNewest))).events.map
        PriceBasisEvent.kind = [.UNEXPLAINED]) := by
  refine ⟨⟨rebasedHistory_rebasedTwice, by decide +kernel, by decide +kernel, by decide +kernel,
    by decide +kernel⟩, ⟨⟨by decide +kernel, by decide +kernel, by decide +kernel,
      by decide +kernel, by decide, by decide +kernel,
      List.forall_mem_cons.mpr ⟨⟨3, by norm_num, by decide +kernel⟩,
        List.forall_mem_singleton.mpr ⟨33 / 10, by norm_num, by decide +kernel⟩⟩,
      by decide +kernel⟩, by decide +kernel, by decide +kernel, by decide +kernel,
      by decide +kernel⟩, by decide +kernel⟩

end FactorSage.Rebase
