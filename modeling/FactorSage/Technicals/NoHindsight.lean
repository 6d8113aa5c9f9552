import FactorSage.Technicals.WeekBars

/-!
# What a date sees of the weeks

The weeks a date sees are decided by the bars up to it (`seenWeeks_eq`): an earlier week ended before
the date whatever the schedule says, the date's own week is judged alike before and after later bars
are known, and a later week ends behind the date. What is written on the date, the week it reads and
that week's averages, is read from the seen weeks alone (`latest_eq_seenWeeks`,
`weeklyValues_eq_seenWeeks`).
-/

namespace FactorSage.Technicals

open ComparatorSort BinarySearch

variable {yearOf : ℤ → ℤ} {isScheduledSession : ℤ → Option Bool}

section Bounds

variable {bars : List DailyPrice} {asOf : ℤ} {history : Option WeeklyHistoryContext}
  {fromWeek : Option ℤ}

/-- A weekly bar becomes visible within its own week. -/
theorem eligibleDate_bounds (hdates : (bars.map (·.date)).Nodup)
    (hweekdays : ∀ bar ∈ bars, IsWeekday bar.date) {bar : WeeklyPrice}
    (h : bar ∈ aggregateCompletedWeeks bars asOf history
      (resolveWeekSessionEnds yearOf isScheduledSession (bars.map (·.date)) fromWeek)) :
    bar.weekStartDate ≤ bar.eligibleDate
      ∧ bar.eligibleDate ≤ fridayOfIsoWeek bar.weekStartDate
      ∧ startOfIsoWeek bar.weekStartDate = bar.weekStartDate := by
  obtain ⟨-, last, hlast, hget, heligible, -, -⟩ := mem_aggregateCompletedWeeks hdates h
  obtain ⟨-, hweek, -⟩ := get?_lastBarByWeek hget
  have hfriday := (hweekdays last hlast).le_friday
  rw [hweek] at hfriday
  obtain ⟨hlow, hhigh⟩ := @sessionEnd_bounds yearOf isScheduledSession _ fromWeek _ _ hget hfriday
  have hstart := (startOfIsoWeek_le last.date).1
  rw [heligible]
  refine ⟨?_, hhigh, ?_⟩
  · omega
  · rw [← hweek]
    unfold startOfIsoWeek getUTCDay
    split <;> split <;> omega

/-- Weekly bars become visible in the order of their weeks. -/
theorem aggregateCompletedWeeks_eligible (hdates : (bars.map (·.date)).Nodup)
    (hweekdays : ∀ bar ∈ bars, IsWeekday bar.date) :
    (aggregateCompletedWeeks bars asOf history
      (resolveWeekSessionEnds yearOf isScheduledSession (bars.map (·.date)) fromWeek)).Pairwise
      fun a b => a.eligibleDate < b.eligibleDate := by
  refine (aggregateCompletedWeeks_sorted).imp_of_mem fun {a b} ha hb hab => ?_
  obtain ⟨-, hhigh, hstart⟩ := eligibleDate_bounds hdates hweekdays ha
  obtain ⟨hlow, -, hstart'⟩ := eligibleDate_bounds hdates hweekdays hb
  have hapart := startOfIsoWeek_add_seven_le (a := a.weekStartDate) (b := b.weekStartDate)
    (by rw [hstart, hstart']; exact hab)
  unfold fridayOfIsoWeek at hhigh
  omega

end Bounds

/-! ### The seen weeks -/

section Seen

variable {prices : List DailyPrice} {asOf date : ℤ} {history : Option WeeklyHistoryContext}
  {fromWeek fromWeek' : Option ℤ}

/-- The bars dated up to a date. -/
def barsUpTo (prices : List DailyPrice) (asOf : ℤ) : List DailyPrice :=
  prices.filter (·.date ≤ asOf)

theorem mem_barsUpTo {bar : DailyPrice} : bar ∈ barsUpTo prices asOf ↔ bar ∈ prices ∧ bar.date ≤ asOf := by
  simp [barsUpTo]

theorem barsUpTo_nodup (hdates : (prices.map (·.date)).Nodup) (asOf : ℤ) :
    ((barsUpTo prices asOf).map (·.date)).Nodup :=
  hdates.sublist (List.filter_sublist.map _)

/-- The last bar of a week among the bars up to a date. -/
theorem lastBar_of_le {k : ℤ} {last : ℤ}
    (h : (lastBarByWeek ((barsUpTo prices asOf).map (·.date))).get? k = some last)
    (hlast : last ≤ date) (hle : date ≤ asOf) :
    (lastBarByWeek ((barsUpTo prices date).map (·.date))).get? k = some last := by
  obtain ⟨hmem, hweek, hlatest⟩ := get?_lastBarByWeek h
  obtain ⟨bar, hbar, rfl⟩ := List.mem_map.mp hmem
  have hbar' : bar ∈ barsUpTo prices date :=
    mem_barsUpTo.mpr ⟨(mem_barsUpTo.mp hbar).1, hlast⟩
  cases hget : (lastBarByWeek ((barsUpTo prices date).map (·.date))).get? k with
  | none =>
    exact absurd hweek (get?_lastBarByWeek_eq_none.mp hget _ (List.mem_map.mpr ⟨bar, hbar', rfl⟩))
  | some other =>
    obtain ⟨hmem', hweek', hlatest'⟩ := get?_lastBarByWeek hget
    obtain ⟨bar', hbar'', rfl⟩ := List.mem_map.mp hmem'
    have hin : bar' ∈ barsUpTo prices asOf :=
      mem_barsUpTo.mpr ⟨(mem_barsUpTo.mp hbar'').1, (mem_barsUpTo.mp hbar'').2.trans hle⟩
    exact congrArg some (le_antisymm (hlatest _ (List.mem_map.mpr ⟨bar', hin, rfl⟩) hweek')
      (hlatest' _ (List.mem_map.mpr ⟨bar, hbar', rfl⟩) hweek))

/-- The bars up to a later date continue the ones up to an earlier one, in the order of dates or
under a schedule that answers by year. -/
def Comparable (yearOf : ℤ → ℤ) (isScheduledSession : ℤ → Option Bool) (prices : List DailyPrice)
    (fromWeek fromWeek' : Option ℤ) : Prop :=
  AnswersByYear yearOf isScheduledSession
    ∨ (prices.Pairwise fun a b => a.date ≤ b.date) ∧ fromWeek' = fromWeek

theorem extends_of_comparable (h : Comparable yearOf isScheduledSession prices fromWeek fromWeek')
    (hle : date ≤ asOf) :
    Extends yearOf isScheduledSession (startOfIsoWeek date)
      ((barsUpTo prices date).map (·.date)) fromWeek ((barsUpTo prices asOf).map (·.date))
      fromWeek' := by
  rcases h with hyears | ⟨hsorted, hfrom⟩
  · exact .byYear hyears
  · have hcut := filter_append_of_sorted (date + 1) (hsorted.filter (·.date ≤ asOf))
    have hfront : (prices.filter (·.date ≤ asOf)).filter (·.date < date + 1)
        = barsUpTo prices date := by
      rw [List.filter_filter]
      refine List.filter_congr fun bar _ => ?_
      simp only [Int.lt_add_one_iff, ← Bool.decide_and]
      exact decide_eq_decide.mpr ⟨And.left, fun h => ⟨h, h.trans hle⟩⟩
    rw [hfront] at hcut
    refine .behind _ hfrom ((congrArg (List.map _) hcut.symm).trans List.map_append) ?_ ?_
    · intro day hday
      obtain ⟨bar, hbar, rfl⟩ := List.mem_map.mp hday
      exact startOfIsoWeek_mono (mem_barsUpTo.mp hbar).2
    · intro day hday
      obtain ⟨bar, hbar, rfl⟩ := List.mem_map.mp hday
      have hnot := (List.mem_filter.mp hbar).2
      simp only [decide_eq_true_eq, not_lt] at hnot
      exact startOfIsoWeek_mono (by omega)

/-- **The seen weeks**: a date sees the same weeks, with the same closes, from the bars up to it as
from the bars up to any later date. -/
theorem mem_seenWeeks_iff (hdates : (prices.map (·.date)).Nodup)
    (hweekdays : ∀ bar ∈ prices, IsWeekday bar.date)
    (hopen : ∀ bar ∈ prices, isScheduledSession bar.date ≠ some false)
    (hdate : date ∈ prices.map (·.date)) (hle : date ≤ asOf)
    (hfrom : ¬ fromWeek.any (startOfIsoWeek date < ·))
    (hfrom' : ¬ fromWeek'.any (startOfIsoWeek date < ·))
    (hcomparable : Comparable yearOf isScheduledSession prices fromWeek fromWeek') {k : ℤ}
    {close : ℚ} :
    (k, close) ∈ seenWeeks (aggregateCompletedWeeks (barsUpTo prices asOf) asOf history
        (resolveWeekSessionEnds yearOf isScheduledSession ((barsUpTo prices asOf).map (·.date))
          fromWeek')) date
      ↔ (k, close) ∈ seenWeeks (aggregateCompletedWeeks (barsUpTo prices date) date history
        (resolveWeekSessionEnds yearOf isScheduledSession ((barsUpTo prices date).map (·.date))
          fromWeek)) date := by
  rw [mem_seenWeeks (barsUpTo_nodup hdates asOf) hle,
    mem_seenWeeks (barsUpTo_nodup hdates date) le_rfl]
  refine and_congr_right fun _ => ?_
  have hfriday : ∀ bar ∈ prices, bar.date ≤ fridayOfIsoWeek (startOfIsoWeek bar.date) :=
    fun bar hbar => (hweekdays bar hbar).le_friday
  obtain ⟨own, hown, rfl⟩ := List.mem_map.mp hdate
  have hown' : own.date ∈ (barsUpTo prices own.date).map (·.date) :=
    List.mem_map.mpr ⟨own, mem_barsUpTo.mpr ⟨hown, le_rfl⟩, rfl⟩
  -- a week before the date's own is over, whatever the schedule says of it
  have hearlier : ∀ (dates : List ℤ) (from_ : Option ℤ) (bar : DailyPrice), bar ∈ prices →
      (lastBarByWeek dates).get? k = some bar.date → k < startOfIsoWeek own.date →
      sessionEnd (resolveWeekSessionEnds yearOf isScheduledSession dates from_) k bar.date
        ≤ own.date := by
    intro dates from_ bar hbar hget hk
    obtain ⟨-, hweek, -⟩ := get?_lastBarByWeek hget
    have hend := (@sessionEnd_bounds yearOf isScheduledSession _ from_ _ _ hget
      (hweek ▸ hfriday bar hbar)).2
    have hapart := startOfIsoWeek_add_seven_le (hweek.symm ▸ hk)
    have hstart := (startOfIsoWeek_le own.date).1
    rw [hweek] at hapart
    unfold fridayOfIsoWeek at hend
    omega
  constructor
  · rintro ⟨last, hlast, hget, hseen, hclose⟩
    obtain ⟨hprices, -⟩ := mem_barsUpTo.mp hlast
    obtain ⟨-, hweek, hlatest⟩ := get?_lastBarByWeek hget
    have hbounds := (@sessionEnd_bounds yearOf isScheduledSession _ fromWeek' _ _ hget
      (hweek ▸ hfriday last hprices)).1
    have hbefore : last.date ≤ own.date := hbounds.trans hseen
    have hget' := lastBar_of_le hget hbefore hle
    refine ⟨last, mem_barsUpTo.mpr ⟨hprices, hbefore⟩, hget', ?_, hclose⟩
    rcases lt_or_eq_of_le (hweek ▸ startOfIsoWeek_mono hbefore) with hk | hk
    · exact hearlier _ _ last hprices hget' hk
    · -- the date's own week, its last bar the date's
      have hdateLast : last.date = own.date := by
        refine le_antisymm hbefore ((get?_lastBarByWeek hget').2.2 _ hown' hk.symm)
      rw [hdateLast] at hget hget' hseen ⊢
      subst hk
      exact (sessionEnd_le_iff_later hget' hget le_rfl (hfriday own hown) (hopen own hown) hfrom
        hfrom' (extends_of_comparable hcomparable hle)).1.mp hseen
  · rintro ⟨last, hlast, hget, hseen, hclose⟩
    obtain ⟨hprices, hbefore⟩ := mem_barsUpTo.mp hlast
    obtain ⟨-, hweek, hlatest⟩ := get?_lastBarByWeek hget
    have hin : last ∈ barsUpTo prices asOf := mem_barsUpTo.mpr ⟨hprices, hbefore.trans hle⟩
    -- the week's last bar among all the bars
    obtain ⟨later, hlater⟩ : ∃ later,
        (lastBarByWeek ((barsUpTo prices asOf).map (·.date))).get? k = some later := by
      cases hall : (lastBarByWeek ((barsUpTo prices asOf).map (·.date))).get? k with
      | none =>
        exact absurd hweek (get?_lastBarByWeek_eq_none.mp hall _ (List.mem_map.mpr ⟨last, hin, rfl⟩))
      | some later => exact ⟨later, rfl⟩
    obtain ⟨hlaterMem, hlaterWeek, hlaterLatest⟩ := get?_lastBarByWeek hlater
    obtain ⟨laterBar, hlaterBar, rfl⟩ := List.mem_map.mp hlaterMem
    have hlaterPrices := (mem_barsUpTo.mp hlaterBar).1
    rcases lt_or_eq_of_le (hweek ▸ startOfIsoWeek_mono hbefore) with hk | hk
    · have hsame : laterBar.date = last.date := by
        have hlaterBefore : laterBar.date ≤ own.date := by
          by_contra hlt
          have := startOfIsoWeek_mono (not_le.mp hlt).le
          rw [hlaterWeek] at this
          omega
        exact Option.some.inj ((lastBar_of_le hlater hlaterBefore hle).symm.trans hget)
      rw [hsame] at hlater
      exact ⟨last, hin, hlater, hearlier _ _ last hprices hlater hk, hclose⟩
    · have hdateLast : last.date = own.date :=
        le_antisymm hbefore (hlatest _ hown' hk.symm)
      rw [hdateLast] at hget hseen
      have hownLater : own.date ≤ laterBar.date :=
        hlaterLatest _ (List.mem_map.mpr
          ⟨own, mem_barsUpTo.mpr ⟨hown, hle⟩, rfl⟩) hk.symm
      subst hk
      obtain ⟨hiff, hnone⟩ := sessionEnd_le_iff_later hget hlater hownLater
        (hlaterWeek ▸ hfriday laterBar hlaterPrices) (hopen laterBar hlaterPrices) hfrom hfrom'
        (extends_of_comparable hcomparable hle)
      rw [hnone hseen] at hlater
      refine ⟨last, hin, ?_, ?_, hclose⟩
      · rw [hdateLast]
        exact hlater
      · rw [hdateLast, ← hnone hseen]
        exact (hnone hseen).symm ▸ hiff.mpr hseen

end Seen

/-! ### What is read from the seen weeks -/

section Reads

variable {bars : List WeeklyPrice} {date : ℤ}

/-- The eligible bars come first. -/
theorem eligibleBars_isPrefix (heligible : bars.Pairwise fun a b => a.eligibleDate < b.eligibleDate)
    (date : ℤ) : ∃ later, bars = eligibleBars bars date ++ later := by
  have hsorted : bars.Pairwise fun a b => a.eligibleDate ≤ b.eligibleDate :=
    heligible.imp fun h => h.le
  refine ⟨_, (?_ : bars = _ ++ bars.filter (¬ ·.eligibleDate < date + 1))⟩
  have hfront : eligibleBars bars date = bars.filter (·.eligibleDate < date + 1) := by
    refine List.filter_congr fun bar _ => ?_
    simp only [compareDates_le_zero, Int.lt_add_one_iff]
  rw [hfront]
  exact (filter_append_of_sorted (date + 1) hsorted).symm

/-- The week a date reads is the last it sees. -/
theorem latest_eq_getLast? (heligible : bars.Pairwise fun a b => a.eligibleDate < b.eligibleDate) :
    latestCompletedWeeklyBar bars date = (eligibleBars bars date).getLast? := by
  have hsorted := heligible.filter fun bar => compareDates bar.eligibleDate date ≤ 0
  cases hlast : (eligibleBars bars date).getLast? with
  | none =>
    change (sortBy _ (eligibleBars bars date)).head? = none
    rw [List.getLast?_eq_none_iff.mp hlast]
    rfl
  | some bar =>
    obtain ⟨front, hfront⟩ := List.getLast?_eq_some_iff.mp hlast
    have hmem : bar ∈ eligibleBars bars date := List.mem_of_getLast? hlast
    change (eligibleBars bars date).Pairwise _ at hsorted
    rw [latestCompletedWeeklyBar_eq_find hmem fun other hother => ?_]
    · -- no other bar shares its eligible date
      refine List.find?_eq_some_iff_append.mpr ⟨by simp, ?_⟩
      obtain ⟨before, after, hsplit⟩ := List.append_of_mem (mem_eligibleBars.mp hmem).1
      refine ⟨before, after, hsplit, fun other hother => ?_⟩
      rw [hsplit] at heligible
      have := (List.pairwise_append.mp heligible).2.2 other hother bar (by simp)
      simp [this.ne]
    · rw [hfront] at hsorted hother
      rcases List.mem_append.mp hother with hother | hother
      · exact ((List.pairwise_append.mp hsorted).2.2 other hother bar (by simp)).le
      · rw [List.mem_singleton.mp hother]

/-- Of values zipped with distinct weeks, the one of a week. -/
theorem filterMap_zip_week {bars : List WeeklyPrice} {values : List (Option ℚ)}
    (hlength : values.length = bars.length)
    (hweeks : bars.Pairwise fun a b => a.weekStartDate < b.weekStartDate) {index : ℕ}
    (hindex : index < bars.length) :
    ((bars.zip values).filterMap fun entry =>
        if entry.1.weekStartDate = bars[index].weekStartDate then entry.2 else none)
      = values[index]?.join.toList := by
  induction bars generalizing values index with
  | nil => exact nomatch hindex
  | cons bar bars ih =>
    cases values with
    | nil => exact nomatch hlength
    | cons value values =>
      obtain ⟨hfirst, hrest⟩ := List.pairwise_cons.mp hweeks
      have hlength : values.length = bars.length := by simpa using hlength
      cases index with
      | zero =>
        have hnone : ((bars.zip values).filterMap fun entry =>
            if entry.1.weekStartDate = bar.weekStartDate then entry.2 else none) = [] := by
          rw [List.filterMap_eq_nil_iff]
          intro entry hentry
          rw [if_neg]
          exact (hfirst entry.1 (List.of_mem_zip hentry).1).ne'
        cases value <;> simp [hnone]
      | succ index =>
        have hindex : index < bars.length := by simpa using hindex
        have hne : bar.weekStartDate ≠ bars[index].weekStartDate :=
          (hfirst _ (List.getElem_mem hindex)).ne
        have hread := ih hlength hrest hindex
        simp only [List.getElem_cons_succ, List.zip_cons_cons, List.filterMap_cons, hne, if_false,
          List.getElem?_cons_succ]
        exact hread

/-- The weekly averages of the last seen week, from the closes of the seen weeks. -/
def valuesOfSeen (closes : List ℚ) : List (WeeklyMovingAverageField × ℚ) :=
  WEEKLY_MOVING_AVERAGES.filterMap fun average =>
    ((movingAverage closes average.type average.period)[closes.length - 1]?.join).map
      (average.field, ·)

theorem byWeekStart_compares :
    Compares (fun left right : WeeklyPrice => compareDates left.weekStartDate right.weekStartDate)
      (·.weekStartDate) :=
  fun _ _ => compareDates_lt_zero

/-- **The averages a date reads** are decided by the closes of the weeks it sees. -/
theorem weeklyValues_eq_seenWeeks
    (heligible : bars.Pairwise fun a b => a.eligibleDate < b.eligibleDate)
    (hweeks : bars.Pairwise fun a b => a.weekStartDate < b.weekStartDate) {bar : WeeklyPrice}
    (hlast : (eligibleBars bars date).getLast? = some bar) :
    calculateWeeklyTechnicalValues bars bar.weekStartDate
      = some (valuesOfSeen ((seenWeeks bars date).map Prod.snd)) := by
  -- the weeks eligible by the date are the first ones, and an average reads no later week
  obtain ⟨later, hcut⟩ := eligibleBars_isPrefix heligible date
  obtain ⟨front, hfront⟩ := List.getLast?_eq_some_iff.mp hlast
  have hordered : sortBy (fun left right : WeeklyPrice =>
      compareDates left.weekStartDate right.weekStartDate) bars = bars := by
    refine (eq_sortBy_of_perm byWeekStart_compares (List.Perm.refl _)
      (hweeks.imp fun h => h.le) ?_).symm
    exact List.pairwise_map.mpr (hweeks.imp fun h => h.ne)
  have hall : bars = front ++ bar :: later := hcut.trans (by rw [hfront, List.append_assoc]; rfl)
  have hget : bars[front.length]? = some bar := by
    rw [hall]
    simp
  obtain ⟨hindex, hbar⟩ := List.getElem?_eq_some_iff.mp hget
  have hseen : (seenWeeks bars date).map Prod.snd = (eligibleBars bars date).map (·.close) := by
    simp [seenWeeks, Function.comp_def]
  have hlength : (eligibleBars bars date).length = front.length + 1 := by simp [hfront]
  unfold calculateWeeklyTechnicalValues
  dsimp only
  rw [hordered, if_pos (List.mem_map.mpr ⟨bar, hbar ▸ List.getElem_mem hindex, rfl⟩)]
  refine congrArg some (List.filterMap_congr fun average _ => ?_)
  have hstable := movingAverage_prefixStable average.type average.period
  have hread : ((bars.zip (movingAverage (bars.map (·.close)) average.type average.period)).filterMap
      fun entry => if entry.1.weekStartDate = bar.weekStartDate then entry.2 else none)
      = (movingAverage (bars.map (·.close)) average.type average.period)[front.length]?.join.toList
      := by
    rw [← hbar]
    exact filterMap_zip_week (by rw [hstable.length_eq]; simp) hweeks hindex
  have hvalue : (movingAverage (bars.map (·.close)) average.type average.period)[front.length]?
      = (movingAverage ((eligibleBars bars date).map (·.close)) average.type
          average.period)[front.length]? := by
    conv_lhs => rw [hcut, List.map_append]
    exact hstable.getElem? _ (by simp [hlength])
  rw [hread, hvalue, hseen, List.length_map, hlength, Nat.add_sub_cancel]
  congr 1
  cases (movingAverage ((eligibleBars bars date).map (·.close)) average.type
    average.period)[front.length]?.join <;> rfl

end Reads

end FactorSage.Technicals
