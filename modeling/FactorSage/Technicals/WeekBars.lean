import FactorSage.Technicals.SessionEnds
import FactorSage.Technicals.WeeklyLookup

/-!
# The weekly bars of a list of daily bars

A week's bars are collected in order, so the weekly bars come in order of their weeks and of their
eligible dates (`aggregateCompletedWeeks_inOrder`), and what a date sees of them is an initial
segment: the weeks that closed by then, each with its last bar's close (`mem_seenWeeks`).
-/

namespace FactorSage.Technicals

open ComparatorSort BinarySearch

/-! ### Groups -/

section Groups

variable {skipped : Option ℤ} {bars : List DailyPrice}

theorem groupByWeek_append (skipped : Option ℤ) (bars : List DailyPrice) (price : DailyPrice) :
    groupByWeek skipped (bars ++ [price])
      = if some (startOfIsoWeek price.date) = skipped then groupByWeek skipped bars
        else (groupByWeek skipped bars).set (startOfIsoWeek price.date)
          (((groupByWeek skipped bars).get? (startOfIsoWeek price.date)).getD [] ++ [price]) := by
  unfold groupByWeek
  rw [List.foldl_append]
  rfl

/-- A group holds the week's bars, in order. -/
theorem get?_groupByWeek (skipped : Option ℤ) (bars : List DailyPrice) (k : ℤ) :
    (groupByWeek skipped bars).get? k
      = if some k = skipped ∨ bars.filter (startOfIsoWeek ·.date = k) = [] then none
        else some (bars.filter (startOfIsoWeek ·.date = k)) := by
  induction bars using List.reverseRecOn with
  | nil => simp [groupByWeek]
  | append_singleton bars price ih =>
    rw [groupByWeek_append, List.filter_append]
    by_cases hskip : some (startOfIsoWeek price.date) = skipped
    · rw [if_pos hskip, ih]
      by_cases hk : startOfIsoWeek price.date = k
      · simp [← hk, hskip]
      · simp [hk]
    · rw [if_neg hskip, OrderedMap.get?_set]
      by_cases hk : k = startOfIsoWeek price.date
      · subst hk
        rw [if_pos rfl, ih]
        by_cases hnil : bars.filter (fun x => startOfIsoWeek x.date = startOfIsoWeek price.date) = []
        · simp [hnil, hskip]
        · simp [hnil, hskip]
      · rw [if_neg hk, ih]
        have : ¬ startOfIsoWeek price.date = k := fun h => hk h.symm
        simp [this]

/-- Groups come in the order of their weeks. -/
theorem groupByWeek_keys_sorted (hsorted : bars.Pairwise fun a b => a.date ≤ b.date) :
    (groupByWeek skipped bars).keys.Pairwise (· < ·) := by
  induction bars using List.reverseRecOn with
  | nil => exact List.Pairwise.nil
  | append_singleton bars price ih =>
    obtain ⟨hbars, -, hlast⟩ := List.pairwise_append.mp hsorted
    have hkeys := ih hbars
    rw [groupByWeek_append]
    split
    · exact hkeys
    · change ((OrderedMap.setEntries _ _ _).map Prod.fst).Pairwise _
      rw [OrderedMap.map_fst_setEntries]
      split
      · exact hkeys
      · next hnew =>
        refine List.pairwise_append.mpr ⟨hkeys, List.pairwise_singleton _ _, ?_⟩
        rintro k hk _ hprice
        obtain rfl := List.mem_singleton.mp hprice
        -- every week so far is that of an earlier bar
        obtain ⟨rows, hrows⟩ := OrderedMap.mem_keys_iff.mp hk
        rw [get?_groupByWeek] at hrows
        split at hrows
        · exact nomatch hrows
        · next hsome =>
          rw [not_or] at hsome
          obtain ⟨bar, hbar⟩ := List.exists_mem_of_ne_nil _ hsome.2
          obtain ⟨hmem, hweek⟩ := List.mem_filter.mp hbar
          have hweek : startOfIsoWeek bar.date = k := by simpa using hweek
          have hle := startOfIsoWeek_mono (hlast bar hmem price (by simp))
          rw [hweek] at hle
          exact lt_of_le_of_ne hle fun heq => hnew (heq ▸ hk)

end Groups

/-! ### The last bar of a week -/

variable {bars : List DailyPrice}

theorem mem_ascending {bar : DailyPrice} :
    bar ∈ ascending bars ↔ bar ∈ bars := mem_sortBy

theorem ascending_sorted (bars : List DailyPrice) :
    (ascending bars).Pairwise fun a b => a.date ≤ b.date :=
  compareDates_compares.pairwise_sortBy bars

/-- One bar a date. -/
theorem eq_of_date_eq (hdates : (bars.map (·.date)).Nodup)
    {a b : DailyPrice} (ha : a ∈ bars) (hb : b ∈ bars) (h : a.date = b.date) : a = b :=
  List.inj_on_of_nodup_map hdates ha hb h

variable {last : DailyPrice}

/-- Of a week's bars in order none is behind the last. -/
theorem le_getLast? {rows : List DailyPrice} (hsorted : rows.Pairwise fun a b => a.date ≤ b.date)
    (hlast : rows.getLast? = some last) {bar : DailyPrice} (hbar : bar ∈ rows) :
    bar.date ≤ last.date := by
  obtain ⟨front, rfl⟩ := List.getLast?_eq_some_iff.mp hlast
  rcases List.mem_append.mp hbar with hfront | hend
  · exact (List.pairwise_append.mp hsorted).2.2 bar hfront last (by simp)
  · rw [List.mem_singleton.mp hend]

theorem getLast?_week {k : ℤ}
    (hlast : ((ascending bars).filter (startOfIsoWeek ·.date = k)).getLast? = some last) :
    last ∈ bars ∧ (lastBarByWeek (bars.map (·.date))).get? k = some last.date := by
  obtain ⟨hmem, hweek⟩ := List.mem_filter.mp (List.mem_of_getLast? hlast)
  have hweek : startOfIsoWeek last.date = k := by simpa using hweek
  have hmem : last ∈ bars := mem_ascending.mp hmem
  refine ⟨hmem, ?_⟩
  cases hget : (lastBarByWeek (bars.map (·.date))).get? k with
  | none =>
    exact absurd hweek (get?_lastBarByWeek_eq_none.mp hget _ (List.mem_map.mpr ⟨last, hmem, rfl⟩))
  | some date =>
    obtain ⟨hdate, hdateWeek, hlatest⟩ := get?_lastBarByWeek hget
    obtain ⟨bar, hbar, rfl⟩ := List.mem_map.mp hdate
    have hle : bar.date ≤ last.date := by
      refine le_getLast? ((ascending_sorted bars).filter _) hlast (List.mem_filter.mpr ⟨?_, ?_⟩)
      · exact mem_ascending.mpr hbar
      · simpa using hdateWeek
    exact congrArg some (le_antisymm hle (hlatest _ (List.mem_map.mpr ⟨last, hmem, rfl⟩) hweek))

theorem getLast?_week_iff (hdates : (bars.map (·.date)).Nodup) {k : ℤ} :
    ((ascending bars).filter (startOfIsoWeek ·.date = k)).getLast? = some last
      ↔ last ∈ bars ∧ (lastBarByWeek (bars.map (·.date))).get? k = some last.date := by
  refine ⟨getLast?_week, fun ⟨hmem, hget⟩ => ?_⟩
  have hin : last ∈ (ascending bars).filter (startOfIsoWeek ·.date = k) := by
    refine List.mem_filter.mpr ⟨mem_ascending.mpr hmem, ?_⟩
    simpa using (get?_lastBarByWeek hget).2.1
  cases hlast : ((ascending bars).filter (startOfIsoWeek ·.date = k)).getLast? with
  | none =>
    rw [List.getLast?_eq_none_iff.mp hlast] at hin
    exact nomatch hin
  | some last' =>
    obtain ⟨hmem', hget'⟩ := getLast?_week hlast
    rw [hget] at hget'
    exact congrArg some (eq_of_date_eq hdates hmem' hmem (Option.some.inj hget').symm)

/-! ### The weekly bars -/

theorem completeWeek_eq_some {asOf : ℤ} {ends : OrderedMap ℤ ℤ} {week : ℤ × List DailyPrice}
    {bar : WeeklyPrice} (h : completeWeek asOf ends week = some bar) :
    ∃ last, week.2.getLast? = some last ∧ bar.weekStartDate = week.1
      ∧ bar.eligibleDate = sessionEnd ends week.1 last.date ∧ bar.eligibleDate ≤ asOf
      ∧ bar.close = last.close := by
  unfold completeWeek at h
  split at h
  · next first last hfirst hlast =>
    split at h
    · exact nomatch h
    · next hfinal =>
      obtain rfl := Option.some.inj h
      exact ⟨last, hlast, rfl, rfl, not_lt.mp hfinal, rfl⟩
  · exact nomatch h

theorem exists_completeWeek {asOf : ℤ} {ends : OrderedMap ℤ ℤ} {week : ℤ × List DailyPrice}
    (hlast : week.2.getLast? = some last) (hfinal : sessionEnd ends week.1 last.date ≤ asOf) :
    ∃ bar, completeWeek asOf ends week = some bar := by
  cases hfirst : week.2.head? with
  | none =>
    rw [List.head?_eq_none_iff.mp hfirst] at hlast
    exact nomatch hlast
  | some first =>
    unfold completeWeek
    rw [hfirst, hlast]
    dsimp only
    rw [if_neg (not_lt.mpr hfinal)]
    exact ⟨_, rfl⟩

/-- The weeks a date sees, with their closes. -/
def seenWeeks (bars : List WeeklyPrice) (date : ℤ) : List (ℤ × ℚ) :=
  (eligibleBars bars date).map fun bar => (bar.weekStartDate, bar.close)

section Weeks

variable {bars : List DailyPrice} {asOf : ℤ} {history : Option WeeklyHistoryContext}
  {ends : OrderedMap ℤ ℤ}

theorem mem_aggregateCompletedWeeks (hdates : (bars.map (·.date)).Nodup) {bar : WeeklyPrice}
    (h : bar ∈ aggregateCompletedWeeks bars asOf history ends) :
    some bar.weekStartDate ≠ artificialFirstWeek history
      ∧ ∃ last ∈ bars,
        (lastBarByWeek (bars.map (·.date))).get? bar.weekStartDate = some last.date
        ∧ bar.eligibleDate = sessionEnd ends bar.weekStartDate last.date
        ∧ bar.eligibleDate ≤ asOf ∧ bar.close = last.close := by
  obtain ⟨⟨k, rows⟩, hmem, hbar⟩ := List.mem_filterMap.mp h
  obtain ⟨last, hlast, hweek, heligible, hfinal, hclose⟩ := completeWeek_eq_some hbar
  have hrows := OrderedMap.mem_entries_iff.mp hmem
  rw [get?_groupByWeek] at hrows
  split at hrows
  · exact nomatch hrows
  · next hsome =>
    rw [not_or] at hsome
    obtain rfl := Option.some.inj hrows
    dsimp only at hweek hlast heligible
    subst hweek
    obtain ⟨hin, hget⟩ := (getLast?_week_iff hdates).mp hlast
    exact ⟨hsome.1, last, hin, hget, heligible, hfinal, hclose⟩

/-- What a date sees: the weeks its history keeps that ended by then, with the close of their last
bar. -/
theorem mem_seenWeeks (hdates : (bars.map (·.date)).Nodup) {date : ℤ} (hdate : date ≤ asOf)
    {k : ℤ} {close : ℚ} :
    (k, close) ∈ seenWeeks (aggregateCompletedWeeks bars asOf history ends) date
      ↔ some k ≠ artificialFirstWeek history
        ∧ ∃ last ∈ bars, (lastBarByWeek (bars.map (·.date))).get? k = some last.date
          ∧ sessionEnd ends k last.date ≤ date ∧ close = last.close := by
  unfold seenWeeks
  rw [List.mem_map]
  constructor
  · rintro ⟨bar, hbar, heq⟩
    obtain ⟨rfl, rfl⟩ := Prod.mk.inj heq
    obtain ⟨hmem, hseen⟩ := mem_eligibleBars.mp hbar
    obtain ⟨hkept, last, hlast, hget, heligible, -, hclose⟩ :=
      mem_aggregateCompletedWeeks hdates hmem
    exact ⟨hkept, last, hlast, hget, heligible ▸ hseen, hclose⟩
  · rintro ⟨hkept, last, hlast, hget, hseen, rfl⟩
    have hrows := (getLast?_week_iff hdates).mpr ⟨hlast, hget⟩
    have hgroup : (groupByWeek (artificialFirstWeek history) (ascending bars)).get? k
        = some ((ascending bars).filter (startOfIsoWeek ·.date = k)) := by
      rw [get?_groupByWeek, if_neg]
      rw [not_or]
      refine ⟨hkept, fun hnil => ?_⟩
      rw [hnil] at hrows
      exact nomatch hrows
    obtain ⟨bar, hbar⟩ : ∃ bar, completeWeek asOf ends (k, _) = some bar :=
      exists_completeWeek hrows (hseen.trans hdate)
    obtain ⟨last', hlast', hweek, heligible, -, hclose⟩ := completeWeek_eq_some hbar
    obtain rfl : last = last' := Option.some.inj (hrows.symm.trans hlast')
    refine ⟨bar, mem_eligibleBars.mpr ⟨?_, ?_⟩, by rw [hweek, hclose]⟩
    · exact List.mem_filterMap.mpr ⟨_, OrderedMap.mem_entries_iff.mpr hgroup, hbar⟩
    · rw [heligible]
      exact hseen

/-- Weekly bars come in the order of their weeks. -/
theorem aggregateCompletedWeeks_sorted :
    (aggregateCompletedWeeks bars asOf history ends).Pairwise fun a b =>
      a.weekStartDate < b.weekStartDate := by
  have hkeys : (groupByWeek (artificialFirstWeek history) (ascending bars)).entries.Pairwise
      fun a b => a.1 < b.1 := by
    exact List.pairwise_map.mp (groupByWeek_keys_sorted (ascending_sorted bars))
  refine List.Pairwise.filterMap _ ?_ hkeys
  intro a b hab bar hbar bar' hbar'
  obtain ⟨-, -, hweek, -⟩ := completeWeek_eq_some hbar
  obtain ⟨-, -, hweek', -⟩ := completeWeek_eq_some hbar'
  rw [hweek, hweek']
  exact hab

end Weeks

end FactorSage.Technicals
