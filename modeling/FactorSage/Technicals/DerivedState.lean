import FactorSage.Technicals.NoHindsight

/-!
# A session's technical row

`buildDailyDerivedState` puts the daily families, the completed week a day sees and that week's
averages onto one row for each trading day. The fundamental and intrinsic states it merges by date
are calculated elsewhere and left out.

A row is decided by the bars dated up to it (`technicalRow_eq`): the daily families read no later
bar, and what the day sees of the weeks is the same from the bars up to it as from any later ones.
-/

namespace FactorSage.Technicals

open ComparatorSort BinarySearch

structure TechnicalRow where
  securityId : String
  date : ℤ
  technicals : List (DailyMovingAverageField × ℚ)
  weeklySourceWeekStart : Option ℤ
  weeklyTechnicals : List (WeeklyMovingAverageField × ℚ)
  oscillators : List (DailyOscillatorField × ℚ)
  relativeVolumes : List (DailyRelativeVolumeField × ℚ)
  deriving DecidableEq

/-- A family's rows, by date. -/
def valuesByDate {F : Type} (rows : List (DailyValues F)) : OrderedMap ℤ (List (F × ℚ)) :=
  .ofList (rows.map fun row => (row.date, row.values))

/-- One trading day's row, from its moving averages and what the other families hold for it. -/
def derivedRow (prices : List DailyPrice) (weeklyBars : List WeeklyPrice)
    (row : DailyValues DailyMovingAverageField) : TechnicalRow :=
  let weekly := completedWeeklyBarLookup weeklyBars row.date
  { securityId := row.securityId
    date := row.date
    technicals := row.values
    weeklySourceWeekStart := weekly.map (·.weekStartDate)
    weeklyTechnicals := (weekly.bind fun bar =>
      calculateWeeklyTechnicalValues weeklyBars bar.weekStartDate).getD []
    oscillators := ((valuesByDate (calculateDailyOscillators prices)).get? row.date).getD []
    relativeVolumes :=
      ((valuesByDate (calculateDailyRelativeVolumes prices)).get? row.date).getD [] }

def buildDailyDerivedState (prices : List DailyPrice) (weeklyBars : List WeeklyPrice) :
    List TechnicalRow :=
  (calculateDailyTechnicals prices).map (derivedRow prices weeklyBars)

/-- The rows the loader materializes through a cutoff: the bars stored by then, the weeks complete by
then, and the schedule's answers from a week on. -/
def rowsAt (yearOf : ℤ → ℤ) (isScheduledSession : ℤ → Option Bool)
    (history : Option WeeklyHistoryContext) (fromWeek : Option ℤ) (prices : List DailyPrice)
    (asOf : ℤ) : List TechnicalRow :=
  let stored := barsUpTo prices asOf
  buildDailyDerivedState stored
    (aggregateCompletedWeeks stored asOf history
      (resolveWeekSessionEnds yearOf isScheduledSession (stored.map (·.date)) fromWeek))

/-- The row of a date. -/
def technicalRow (rows : List TechnicalRow) (date : ℤ) : Option TechnicalRow :=
  rows.find? (·.date = date)

/-! ### The daily families -/

theorem get?_valuesByDate_append {F : Type} {rows later : List (DailyValues F)} {date : ℤ}
    (hlater : ∀ row ∈ later, date < row.date) :
    (valuesByDate (rows ++ later)).get? date = (valuesByDate rows).get? date := by
  induction later using List.reverseRecOn with
  | nil => rw [List.append_nil]
  | append_singleton later row ih =>
    unfold valuesByDate at ih ⊢
    have hne : date ≠ row.date := (hlater row (by simp)).ne
    rw [← List.append_assoc, List.map_append, List.map_singleton, OrderedMap.get?_ofList_append,
      if_neg hne]
    exact ih fun other hother => hlater other (by simp [hother])

theorem barsUpTo_barsUpTo {prices : List DailyPrice} {date asOf : ℤ} (h : date ≤ asOf) :
    (barsUpTo prices asOf).filter (·.date ≤ date) = barsUpTo prices date := by
  unfold barsUpTo
  rw [List.filter_filter]
  refine List.filter_congr fun bar _ => ?_
  rw [← Bool.decide_and]
  exact decide_eq_decide.mpr ⟨And.left, fun hle => ⟨hle, hle.trans h⟩⟩

section Families

variable {prices : List DailyPrice} {date asOf : ℤ}

/-- A family's values on a date are those of the bars up to it. -/
theorem get?_dailySeries {E F α : Type} (registry : List E) (field : E → F)
    (column : DailyPrice → α) {calculate : E → List α → List (Option ℚ)}
    (hstable : ∀ entry, PrefixStable (calculate entry)) (hdates : (prices.map (·.date)).Nodup)
    (hle : date ≤ asOf) :
    (valuesByDate (dailySeries registry field column calculate (barsUpTo prices asOf))).get? date
      = (valuesByDate (dailySeries registry field column calculate
          (barsUpTo prices date))).get? date := by
  obtain ⟨later, hrows, hlater⟩ := dailySeries_cut registry field column hstable
    (barsUpTo_nodup hdates asOf) date
  rw [hrows, get?_valuesByDate_append hlater, barsUpTo_barsUpTo hle]

theorem find?_dailySeries {E F α : Type} (registry : List E) (field : E → F)
    (column : DailyPrice → α) {calculate : E → List α → List (Option ℚ)}
    (hstable : ∀ entry, PrefixStable (calculate entry)) (hdates : (prices.map (·.date)).Nodup)
    (hle : date ≤ asOf) :
    (dailySeries registry field column calculate (barsUpTo prices asOf)).find? (·.date = date)
      = (dailySeries registry field column calculate (barsUpTo prices date)).find?
          (·.date = date) := by
  obtain ⟨later, hrows, hlater⟩ := dailySeries_cut registry field column hstable
    (barsUpTo_nodup hdates asOf) date
  have hnone : later.find? (·.date = date) = none := by
    rw [List.find?_eq_none]
    intro row hrow
    have := hlater row hrow
    simpa using this.ne'
  rw [hrows, List.find?_append, hnone, Option.or_none, barsUpTo_barsUpTo hle]

end Families

/-! ### The weekly part -/

/-- What a row takes from the weekly bars. -/
theorem weekly_eq_seenWeeks {bars : List WeeklyPrice} {date : ℤ}
    (heligible : bars.Pairwise fun a b => a.eligibleDate < b.eligibleDate)
    (hweeks : bars.Pairwise fun a b => a.weekStartDate < b.weekStartDate) :
    ((completedWeeklyBarLookup bars date).map (·.weekStartDate),
        ((completedWeeklyBarLookup bars date).bind fun bar =>
          calculateWeeklyTechnicalValues bars bar.weekStartDate).getD [])
      = ((seenWeeks bars date).getLast?.map Prod.fst,
          if seenWeeks bars date = [] then []
          else valuesOfSeen ((seenWeeks bars date).map Prod.snd)) := by
  rw [completedWeeklyBarLookup_eq, latest_eq_getLast? heligible]
  cases hlast : (eligibleBars bars date).getLast? with
  | none =>
    have hnil := List.getLast?_eq_none_iff.mp hlast
    simp [seenWeeks, hnil]
  | some bar =>
    have hne : seenWeeks bars date ≠ [] := by
      intro hnil
      rw [seenWeeks, List.map_eq_nil_iff] at hnil
      rw [hnil] at hlast
      cases hlast
    have hfirst : (seenWeeks bars date).getLast?.map Prod.fst = some bar.weekStartDate := by
      simp [seenWeeks, List.getLast?_map, hlast]
    rw [if_neg hne, hfirst, Option.bind_some, weeklyValues_eq_seenWeeks heligible hweeks hlast]
    rfl

section Row

variable {yearOf : ℤ → ℤ} {isScheduledSession : ℤ → Option Bool} {prices : List DailyPrice}
  {history : Option WeeklyHistoryContext} {fromWeek fromWeek' : Option ℤ} {asOf date : ℤ}

/-- Seen weeks come in the order of their weeks. -/
theorem seenWeeks_sorted {bars : List WeeklyPrice}
    (hweeks : bars.Pairwise fun a b => a.weekStartDate < b.weekStartDate) (date : ℤ) :
    (seenWeeks bars date).Pairwise fun a b => a.1 < b.1 :=
  List.pairwise_map.mpr (hweeks.filter _)

/-- Two lists in strict order with the same members are one list. -/
theorem eq_of_mem_iff {l l' : List (ℤ × ℚ)} (h : l.Pairwise fun a b => a.1 < b.1)
    (h' : l'.Pairwise fun a b => a.1 < b.1) (hmem : ∀ week, week ∈ l ↔ week ∈ l') : l = l' := by
  have hnodup : ∀ {l : List (ℤ × ℚ)}, (l.Pairwise fun a b => a.1 < b.1) → l.Nodup :=
    fun h => h.imp fun hlt heq => absurd (congrArg Prod.fst heq) hlt.ne
  refine List.Perm.eq_of_pairwise ?_ h h'
    ((List.perm_ext_iff_of_nodup (hnodup h) (hnodup h')).mpr hmem)
  intro a b _ _ hab hba
  exact absurd hab hba.asymm

/-- **Rows do not depend on when they were materialized.** -/
theorem technicalRow_rowsAt (hdates : (prices.map (·.date)).Nodup)
    (hweekdays : ∀ bar ∈ prices, IsWeekday bar.date)
    (hopen : ∀ bar ∈ prices, isScheduledSession bar.date ≠ some false)
    (hdate : date ∈ prices.map (·.date)) (hle : date ≤ asOf)
    (hfrom : ¬ fromWeek.any (startOfIsoWeek date < ·))
    (hfrom' : ¬ fromWeek'.any (startOfIsoWeek date < ·))
    (hcomparable : Comparable yearOf isScheduledSession prices fromWeek fromWeek') :
    technicalRow (rowsAt yearOf isScheduledSession history fromWeek' prices asOf) date
      = technicalRow (rowsAt yearOf isScheduledSession history fromWeek prices date) date := by
  have heligible : ∀ asOf fromWeek, (aggregateCompletedWeeks (barsUpTo prices asOf) asOf history
      (resolveWeekSessionEnds yearOf isScheduledSession ((barsUpTo prices asOf).map (·.date))
        fromWeek)).Pairwise fun a b => a.eligibleDate < b.eligibleDate :=
    fun asOf fromWeek => aggregateCompletedWeeks_eligible (barsUpTo_nodup hdates asOf)
      fun bar hbar => hweekdays bar (mem_barsUpTo.mp hbar).1
  -- on the date itself the same completed weeks can be seen, whatever came after
  have hseen : seenWeeks (aggregateCompletedWeeks (barsUpTo prices asOf) asOf history
        (resolveWeekSessionEnds yearOf isScheduledSession ((barsUpTo prices asOf).map (·.date))
          fromWeek')) date
      = seenWeeks (aggregateCompletedWeeks (barsUpTo prices date) date history
        (resolveWeekSessionEnds yearOf isScheduledSession ((barsUpTo prices date).map (·.date))
          fromWeek)) date :=
    eq_of_mem_iff (seenWeeks_sorted aggregateCompletedWeeks_sorted date)
      (seenWeeks_sorted aggregateCompletedWeeks_sorted date) fun ⟨k, close⟩ =>
        mem_seenWeeks_iff hdates hweekdays hopen hdate hle hfrom hfrom' hcomparable
  have hweekly := @weekly_eq_seenWeeks _ date (heligible asOf fromWeek')
    aggregateCompletedWeeks_sorted
  rw [hseen, ← weekly_eq_seenWeeks (heligible date fromWeek) aggregateCompletedWeeks_sorted,
    Prod.mk.injEq] at hweekly
  -- each daily series only grows at its end
  have hdaily : (calculateDailyTechnicals (barsUpTo prices asOf)).find? (·.date = date)
      = (calculateDailyTechnicals (barsUpTo prices date)).find? (·.date = date) :=
    find?_dailySeries _ _ _ (fun average => movingAverage_prefixStable average.type average.period)
      hdates hle
  have hoscillators : (valuesByDate (calculateDailyOscillators (barsUpTo prices asOf))).get? date
      = (valuesByDate (calculateDailyOscillators (barsUpTo prices date))).get? date :=
    get?_dailySeries _ _ _ (fun oscillator => calculateWilderRsi_prefixStable oscillator.period)
      hdates hle
  have hvolumes : (valuesByDate (calculateDailyRelativeVolumes (barsUpTo prices asOf))).get? date
      = (valuesByDate (calculateDailyRelativeVolumes (barsUpTo prices date))).get? date :=
    get?_dailySeries _ _ _ (fun entry => calculateRelativeVolume_prefixStable entry.period)
      hdates hle
  unfold technicalRow rowsAt buildDailyDerivedState
  dsimp only
  rw [List.find?_map, List.find?_map]
  change ((calculateDailyTechnicals _).find? (·.date = date)).map _
    = ((calculateDailyTechnicals _).find? (·.date = date)).map _
  rw [hdaily]
  cases hrow : (calculateDailyTechnicals (barsUpTo prices date)).find? (·.date = date) with
  | none => rfl
  | some row =>
    have hrowDate : row.date = date := by simpa using List.find?_some hrow
    refine congrArg some ?_
    unfold derivedRow
    dsimp only
    rw [hrowDate, hweekly.1, hweekly.2, hoscillators, hvolumes]

end Row

/-- **When a row was materialized does not show**: over bars on distinct weekdays the schedule does
not report closed, a date's row is the same from the bars up to any later date as from the bars up to
it, where the bars are listed by date or the schedule answers for whole years; and the one lookup over
all bars finds for every date the bar its own filter and sort would. -/
theorem technicalRow_eq {yearOf : ℤ → ℤ} {isScheduledSession : ℤ → Option Bool}
    {prices : List DailyPrice} {fromWeek fromWeek' : Option ℤ} {asOf date : ℤ}
    (hdates : (prices.map (·.date)).Nodup) (hweekdays : ∀ bar ∈ prices, IsWeekday bar.date)
    (hopen : ∀ bar ∈ prices, isScheduledSession bar.date ≠ some false)
    (hdate : date ∈ prices.map (·.date)) (hle : date ≤ asOf)
    (hfrom : ¬ fromWeek.any (startOfIsoWeek date < ·))
    (hfrom' : ¬ fromWeek'.any (startOfIsoWeek date < ·))
    (hcomparable : Comparable yearOf isScheduledSession prices fromWeek fromWeek')
    (history : Option WeeklyHistoryContext) :
    technicalRow (rowsAt yearOf isScheduledSession history fromWeek' prices asOf) date
        = technicalRow (rowsAt yearOf isScheduledSession history fromWeek prices date) date
      ∧ ∀ bars day, completedWeeklyBarLookup bars day = latestCompletedWeeklyBar bars day :=
  ⟨technicalRow_rowsAt hdates hweekdays hopen hdate hle hfrom hfrom' hcomparable,
    completedWeeklyBarLookup_eq⟩

/-- A bar that closed at its open. -/
def flatBar (date : ℤ) : DailyPrice := ⟨"ACME", date, 100, 100, 100, 100, some 1000⟩

/-- A schedule that reports the first Friday closed and cannot answer for the second. -/
def twoFridays (day : ℤ) : Option Bool :=
  if day = 8 then some false else if day = 15 then none else some true

/-- The Thursday before a closed Friday reads its own week, on the day and once later bars are
known. -/
theorem technicalRow_eq_closed_friday :
    technicalRow (rowsAt (1970 + · / 365) twoFridays none none [flatBar 7, flatBar 11] 11) 7
        = some ⟨"ACME", 7, [], some 4, [], [], []⟩
      ∧ completedWeeklyBarLookup [] 7 = latestCompletedWeeklyBar [] 7 := by
  obtain ⟨hrow, hlookup⟩ := @technicalRow_eq (1970 + · / 365) twoFridays [flatBar 7, flatBar 11]
    none none 11 7 (by decide) (by unfold IsWeekday; decide) (by decide) (by decide) (by decide)
    (by decide) (by decide) (.inr ⟨by decide, rfl⟩) none
  exact ⟨hrow.trans (by decide +kernel), hlookup _ _⟩

/-- Listed behind a later week whose Friday the schedule cannot answer for, the same Thursday no
longer reads its own week. -/
theorem listed_behind_loses_week :
    ([flatBar 11, flatBar 7].map (·.date)).Nodup
      ∧ (∀ bar ∈ [flatBar 11, flatBar 7], IsWeekday bar.date)
      ∧ (∀ bar ∈ [flatBar 11, flatBar 7], twoFridays bar.date ≠ some false)
      ∧ technicalRow (rowsAt (1970 + · / 365) twoFridays none none [flatBar 11, flatBar 7] 11) 7
        = some ⟨"ACME", 7, [], none, [], [], []⟩
      ∧ technicalRow (rowsAt (1970 + · / 365) twoFridays none none [flatBar 11, flatBar 7] 7) 7
        = some ⟨"ACME", 7, [], some 4, [], [], []⟩ := by
  refine ⟨by decide, by unfold IsWeekday; decide, by decide, by decide +kernel, by decide +kernel⟩

end FactorSage.Technicals
