import FactorSage.Domain.LocalDate
import FactorSage.Library.AscendingList
import Mathlib.Data.List.Dedup

/-!
# The execution calendar

The portfolio's date axis and the dates that receive a monthly contribution.

* `buildExecutionCalendar_ascending` — the axis is strictly ascending, whatever order and however
  often the reference series names a date.
* `buildExecutionCalendar_earlierEnd` — ending the period earlier cuts the axis there.
* `mem_buildContributionDates_append` — which dates of a month receive a contribution does not
  depend on the dates that follow.
-/

namespace FactorSage

/-- The dates of the reference series inside the period, sorted and deduplicated. -/
def buildExecutionCalendar (startDate endDate : LocalDate)
    (executionCalendarDates : List LocalDate) : List LocalDate :=
  let dates := executionCalendarDates.filter fun candidate =>
    startDate ≤ candidate ∧ candidate ≤ endDate
  dates.dedup.insertionSort (· ≤ ·)

/-- The loop of `buildContributionDates` after its first date: the dates that open a new month. -/
def contributionDatesAfter (previousMonth : ℕ × ℕ) : List LocalDate → List LocalDate
  | [] => []
  | date :: rest =>
    if date.yearMonth ≠ previousMonth then date :: contributionDatesAfter date.yearMonth rest
    else contributionDatesAfter previousMonth rest

/-- The first simulated date of each month but the run's very first date. -/
def buildContributionDates : List LocalDate → List LocalDate
  | [] => []
  | first :: rest => contributionDatesAfter first.yearMonth rest

/-! ### The axis -/

variable {startDate endDate : LocalDate} {dates : List LocalDate} {date : LocalDate}

theorem mem_buildExecutionCalendar :
    date ∈ buildExecutionCalendar startDate endDate dates
      ↔ date ∈ dates ∧ startDate ≤ date ∧ date ≤ endDate := by
  simp [buildExecutionCalendar]

theorem buildExecutionCalendar_ascending :
    (buildExecutionCalendar startDate endDate dates).Pairwise (· < ·) := by
  have hsorted := List.pairwise_insertionSort (· ≤ ·)
    (dates.filter fun candidate => startDate ≤ candidate ∧ candidate ≤ endDate).dedup
  have hnodup : (buildExecutionCalendar startDate endDate dates).Nodup :=
    (List.perm_insertionSort _ _).nodup_iff.mpr (List.nodup_dedup _)
  exact (List.Pairwise.and hsorted hnodup).imp fun h => lt_of_le_of_ne h.1 h.2

/-- Ending the period earlier keeps exactly the dates up to the new end. -/
theorem buildExecutionCalendar_earlierEnd {d e : LocalDate} (hde : d ≤ e) :
    buildExecutionCalendar startDate d dates
      = (buildExecutionCalendar startDate e dates).filter (· ≤ d) := by
  refine AscendingList.eq_of_mem_iff buildExecutionCalendar_ascending
    (buildExecutionCalendar_ascending.filter _) fun date => ?_
  rw [List.mem_filter, mem_buildExecutionCalendar, mem_buildExecutionCalendar]
  constructor
  · rintro ⟨hmem, hstart, hend⟩
    exact ⟨⟨hmem, hstart, hend.trans hde⟩, by simpa using hend⟩
  · rintro ⟨⟨hmem, hstart, -⟩, hend⟩
    exact ⟨hmem, hstart, by simpa using hend⟩

/-! ### Contribution dates -/

theorem mem_of_mem_contributionDatesAfter {month : ℕ × ℕ} {l : List LocalDate}
    (h : date ∈ contributionDatesAfter month l) : date ∈ l := by
  induction l generalizing month with
  | nil => exact h
  | cons d rest ih =>
    rw [contributionDatesAfter] at h
    split at h
    · rcases List.mem_cons.mp h with rfl | h
      · exact List.mem_cons_self
      · exact List.mem_cons_of_mem _ (ih h)
    · exact List.mem_cons_of_mem _ (ih h)

theorem mem_contributionDatesAfter_append {month : ℕ × ℕ} {l later : List LocalDate}
    (h : date ∉ later) :
    date ∈ contributionDatesAfter month (l ++ later) ↔ date ∈ contributionDatesAfter month l := by
  induction l generalizing month with
  | nil =>
    exact iff_of_false (fun hmem => h (mem_of_mem_contributionDatesAfter hmem)) List.not_mem_nil
  | cons d rest ih =>
    rw [List.cons_append, contributionDatesAfter, contributionDatesAfter]
    split
    · rw [List.mem_cons, List.mem_cons, ih]
    · exact ih

/-- Whether a date receives a contribution is settled by the calendar up to it. -/
theorem mem_buildContributionDates_append {l later : List LocalDate}
    (h : date ∉ later) (hl : l ≠ []) :
    date ∈ buildContributionDates (l ++ later) ↔ date ∈ buildContributionDates l := by
  cases l with
  | nil => exact absurd rfl hl
  | cons first rest => exact mem_contributionDatesAfter_append h

end FactorSage
