import FactorSage.Backtest.Window

/-!
# The window plan

What `planExecutionWindows` makes of an ascending calendar: windows that hold the calendar's dates in
order, one per calendar year, each requesting its own year clamped to the run's period.

`PlansWindows` is the invariant of its loop, and `plansWindows_planExecutionWindows` the fact about
the whole plan.
-/

namespace FactorSage

/-- The windows planned for the dates seen so far. -/
structure PlansWindows (startDate endDate : LocalDate) (calendar : List LocalDate)
    (windows : List BacktestExecutionWindow) : Prop where
  /-- The windows hold the calendar, in order. -/
  dates_eq : windows.flatMap (·.dates) = calendar
  /-- A window's index is its position. -/
  index_eq : ∀ (i : ℕ) (w : BacktestExecutionWindow), windows[i]? = some w → w.index = i
  /-- A window was opened by one of its dates. -/
  opened : ∀ w ∈ windows, ∃ d ∈ w.dates,
    w.fromDate = maxDate startDate d.yearStart ∧ w.toDate = minDate endDate d.yearEnd
  /-- A window's dates share its year. -/
  year_eq : ∀ w ∈ windows, ∀ d ∈ w.dates, d.year = w.year
  /-- Later windows are of later years. -/
  years_ascending : windows.Pairwise fun a b => a.year < b.year

variable {startDate endDate : LocalDate} {calendar : List LocalDate}
  {windows : List BacktestExecutionWindow}

section

variable (h : PlansWindows startDate endDate calendar windows)

include h

theorem PlansWindows.mem_calendar {w : BacktestExecutionWindow} (hw : w ∈ windows) {d : LocalDate} (hd : d ∈ w.dates) :
    d ∈ calendar := by
  rw [← h.dates_eq]
  exact List.mem_flatMap.mpr ⟨w, hw, hd⟩

omit h in
theorem plansWindows_nil : PlansWindows startDate endDate [] [] where
  dates_eq := rfl
  index_eq := by simp
  opened := by simp
  year_eq := by simp
  years_ascending := .nil

/-- A date of a new year opens the next window. -/
theorem PlansWindows.open {date : LocalDate}
    (hyear : ∀ w ∈ windows, w.year < date.year) :
    PlansWindows startDate endDate (calendar ++ [date])
      (windows ++ [openingWindow startDate endDate windows.length date]) where
  dates_eq := by
    rw [List.flatMap_append, h.dates_eq]
    rfl
  index_eq i w hi := by
    rcases lt_trichotomy i windows.length with hlt | heq | hgt
    · rw [List.getElem?_append_left hlt] at hi
      exact h.index_eq i w hi
    · rw [heq, List.getElem?_concat_length] at hi
      obtain rfl : openingWindow startDate endDate windows.length date = w := by simpa using hi
      exact heq.symm
    · rw [List.getElem?_eq_none (by simp; omega)] at hi
      cases hi
  opened w hw := by
    rcases List.mem_append.mp hw with hw | hw
    · exact h.opened w hw
    · obtain rfl := List.mem_singleton.mp hw
      exact ⟨date, List.mem_cons_self, rfl, rfl⟩
  year_eq w hw d hd := by
    rcases List.mem_append.mp hw with hw | hw
    · exact h.year_eq w hw d hd
    · obtain rfl := List.mem_singleton.mp hw
      obtain rfl : d = date := by simpa [openingWindow] using hd
      rfl
  years_ascending := by
    refine List.pairwise_append.mpr ⟨h.years_ascending, List.pairwise_singleton _ _, ?_⟩
    intro a ha b hb
    obtain rfl := List.mem_singleton.mp hb
    exact hyear a ha

omit h in
/-- A date of the last window's year joins it. -/
theorem PlansWindows.join {earlier : List BacktestExecutionWindow}
    {current : BacktestExecutionWindow}
    (h : PlansWindows startDate endDate calendar (earlier ++ [current])) {date : LocalDate}
    (hyear : current.year = date.year) :
    PlansWindows startDate endDate (calendar ++ [date])
      (earlier ++ [{ current with dates := current.dates ++ [date] }]) where
  dates_eq := by
    have hdates := h.dates_eq
    rw [List.flatMap_append] at hdates ⊢
    simp only [List.flatMap_cons, List.flatMap_nil, List.append_nil] at hdates ⊢
    rw [← List.append_assoc, hdates]
  index_eq i w hi := by
    rcases lt_trichotomy i earlier.length with hlt | heq | hgt
    · rw [List.getElem?_append_left hlt] at hi
      exact h.index_eq i w (by rw [List.getElem?_append_left hlt, hi])
    · rw [heq, List.getElem?_concat_length] at hi
      obtain rfl : { current with dates := current.dates ++ [date] } = w := by simpa using hi
      exact h.index_eq i current (by rw [heq, List.getElem?_concat_length])
    · rw [List.getElem?_eq_none (by simp; omega)] at hi
      cases hi
  opened w hw := by
    rcases List.mem_append.mp hw with hw | hw
    · exact h.opened w (List.mem_append_left _ hw)
    · obtain rfl := List.mem_singleton.mp hw
      obtain ⟨d, hd, hopened⟩ := h.opened current (by simp)
      exact ⟨d, List.mem_append_left _ hd, hopened⟩
  year_eq w hw d hd := by
    rcases List.mem_append.mp hw with hw | hw
    · exact h.year_eq w (List.mem_append_left _ hw) d hd
    · obtain rfl := List.mem_singleton.mp hw
      rcases List.mem_append.mp hd with hd | hd
      · exact h.year_eq current (by simp) d hd
      · rw [List.mem_singleton.mp hd]
        exact hyear.symm
  years_ascending := by
    obtain ⟨hearlier, -, hcross⟩ := List.pairwise_append.mp h.years_ascending
    refine List.pairwise_append.mpr ⟨hearlier, List.pairwise_singleton _ _, ?_⟩
    intro a ha b hb
    obtain rfl := List.mem_singleton.mp hb
    exact hcross a ha current List.mem_cons_self

/-- The loop body keeps the plan, date by ascending date. -/
theorem PlansWindows.step {date : LocalDate}
    (hlater : ∀ d ∈ calendar, d < date) :
    PlansWindows startDate endDate (calendar ++ [date])
      (planStep startDate endDate windows date) := by
  have hyear_le : ∀ w ∈ windows, w.year ≤ date.year := fun w hw => by
    obtain ⟨d, hd, -⟩ := h.opened w hw
    rw [← h.year_eq w hw d hd]
    exact LocalDate.year_le_of_le (hlater d (h.mem_calendar hw hd)).le
  unfold planStep
  rcases List.eq_nil_or_concat windows with rfl | ⟨earlier, current, rfl⟩
  · exact h.open (by simp)
  · rw [List.concat_eq_append] at h hyear_le ⊢
    rw [List.getLast?_concat]
    by_cases hyear : current.year = date.year
    · simp only [hyear, if_true, List.dropLast_concat]
      rw [← hyear]
      exact h.join hyear
    · simp only [hyear, if_false]
      refine h.open fun w hw => ?_
      -- the last window's year is smaller, and every other year is smaller still
      have hcurrent : current.year < date.year :=
        lt_of_le_of_ne (hyear_le current (by simp)) hyear
      rcases List.mem_append.mp hw with hw | hw
      · obtain ⟨-, -, hcross⟩ := List.pairwise_append.mp h.years_ascending
        exact (hcross w hw current List.mem_cons_self).trans hcurrent
      · rw [List.mem_singleton.mp hw]
        exact hcurrent

omit h in
/-- **The plan of an ascending calendar.** -/
theorem plansWindows_planExecutionWindows (h : calendar.Pairwise (· < ·)) :
    PlansWindows startDate endDate calendar
      (planExecutionWindows calendar startDate endDate) := by
  induction calendar using List.reverseRecOn with
  | nil => exact plansWindows_nil
  | append_singleton calendar date ih =>
    obtain ⟨hcalendar, -, hcross⟩ := List.pairwise_append.mp h
    rw [planExecutionWindows, List.foldl_append]
    exact (ih hcalendar).step fun d hd => hcross d hd date List.mem_cons_self

/-! ### What a window requests -/

/-- Every simulated date of a window lies in the range the window requests. -/
theorem PlansWindows.mem_range (hperiod : ∀ d ∈ calendar, startDate ≤ d ∧ d ≤ endDate) {w : BacktestExecutionWindow}
    (hw : w ∈ windows) {d : LocalDate} (hd : d ∈ w.dates) :
    w.fromDate ≤ d ∧ d ≤ w.toDate := by
  obtain ⟨opening, hopening, hfrom, hto⟩ := h.opened w hw
  have hyear : opening.year = d.year := by
    rw [h.year_eq w hw opening hopening, h.year_eq w hw d hd]
  obtain ⟨hstart, hend⟩ := hperiod d (h.mem_calendar hw hd)
  rw [hfrom, hto, maxDate_le_iff, le_minDate_iff, LocalDate.yearStart_le_iff,
    LocalDate.le_yearEnd_iff]
  exact ⟨⟨hstart, hyear.le⟩, hend, hyear.ge⟩

/-- Between two consecutive windows lie whole calendar years: a date is before the later one's
range exactly when its year is smaller. -/
theorem PlansWindows.lt_fromDate_iff (hperiod : ∀ d ∈ calendar, startDate ≤ d ∧ d ≤ endDate) {w previous : BacktestExecutionWindow}
    (hw : w ∈ windows) (hprevious : previous ∈ windows) (hlt : previous.year < w.year)
    {d : LocalDate} : d < w.fromDate ↔ d.year < w.year := by
  obtain ⟨opening, hopening, hfrom, -⟩ := h.opened w hw
  obtain ⟨early, hearly, -⟩ := h.opened previous hprevious
  have hyear := h.year_eq w hw opening hopening
  have hstart : startDate ≤ opening.yearStart := by
    refine (hperiod early (h.mem_calendar hprevious hearly)).1.trans (le_of_lt ?_)
    rw [← not_le, LocalDate.yearStart_le_iff, h.year_eq previous hprevious early hearly, hyear]
    exact not_le.mpr hlt
  rw [← not_iff_not, not_lt, not_lt, hfrom, maxDate_le_iff, LocalDate.yearStart_le_iff, hyear]
  exact ⟨fun hd => hd.2, fun hd => ⟨hstart.trans
    (LocalDate.yearStart_le_iff.mpr (hyear.trans_le hd)), hd⟩⟩

/-- A date is after the earlier one's range exactly when its year is greater. -/
theorem PlansWindows.le_toDate_iff (hperiod : ∀ d ∈ calendar, startDate ≤ d ∧ d ≤ endDate) {w next : BacktestExecutionWindow}
    (hw : w ∈ windows) (hnext : next ∈ windows) (hlt : w.year < next.year)
    {d : LocalDate} : d ≤ w.toDate ↔ d.year ≤ w.year := by
  obtain ⟨opening, hopening, -, hto⟩ := h.opened w hw
  obtain ⟨late, hlate, -⟩ := h.opened next hnext
  have hyear := h.year_eq w hw opening hopening
  have hend : opening.yearEnd ≤ endDate := by
    refine le_trans (le_of_lt ?_) (hperiod late (h.mem_calendar hnext hlate)).2
    rw [← not_le, LocalDate.le_yearEnd_iff, h.year_eq next hnext late hlate, hyear]
    exact not_le.mpr hlt
  rw [hto, le_minDate_iff, LocalDate.le_yearEnd_iff, hyear]
  exact ⟨fun hd => hd.2, fun hd =>
    ⟨(LocalDate.le_yearEnd_iff.mpr (hd.trans hyear.ge)).trans hend, hd⟩⟩

end

end FactorSage
