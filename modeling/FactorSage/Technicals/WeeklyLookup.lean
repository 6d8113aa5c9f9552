import FactorSage.Technicals.Weekly
import Mathlib.Algebra.Order.Group.Int

/-!
# One lookup for every date

`completedWeeklyBarLookup` orders the bars once and searches; `latestCompletedWeeklyBar` filters and
sorts for each date. Both return the first, as given, of the bars with the latest eligible date that
has come (`completedWeeklyBarLookup_eq`).
-/

namespace FactorSage.Technicals

open ComparatorSort BinarySearch

theorem byEligibleDate_compares :
    Compares (fun left right : WeeklyPrice => compareDates left.eligibleDate right.eligibleDate)
      (·.eligibleDate) :=
  fun _ _ => compareDates_lt_zero

theorem byEligibleDate_desc_compares :
    Compares (fun left right : WeeklyPrice => compareDates right.eligibleDate left.eligibleDate)
      (-·.eligibleDate) :=
  fun _ _ => by rw [compareDates_lt_zero, neg_lt_neg_iff]

/-- The bars a date may see. -/
def eligibleBars (bars : List WeeklyPrice) (asOf : ℤ) : List WeeklyPrice :=
  bars.filter fun bar => compareDates bar.eligibleDate asOf ≤ 0

theorem mem_eligibleBars {bars : List WeeklyPrice} {asOf : ℤ} {bar : WeeklyPrice} :
    bar ∈ eligibleBars bars asOf ↔ bar ∈ bars ∧ bar.eligibleDate ≤ asOf := by
  simp [eligibleBars, compareDates_le_zero]

/-- The latest eligible bar is the first given of those with the latest eligible date. -/
theorem latestCompletedWeeklyBar_eq_find {bars : List WeeklyPrice} {asOf : ℤ} {bar : WeeklyPrice}
    (hmem : bar ∈ eligibleBars bars asOf)
    (hlatest : ∀ other ∈ eligibleBars bars asOf, other.eligibleDate ≤ bar.eligibleDate) :
    latestCompletedWeeklyBar bars asOf = bars.find? (·.eligibleDate = bar.eligibleDate) := by
  have hhead := head?_sortBy byEligibleDate_desc_compares hmem
    fun other hother => neg_le_neg (hlatest other hother)
  simp only [neg_inj] at hhead
  refine Eq.trans hhead ?_
  rw [eligibleBars, List.find?_filter]
  refine congrArg (List.find? · bars) (funext fun other => ?_)
  -- a bar of that eligible date is eligible itself
  have heligible := (mem_eligibleBars.mp hmem).2
  by_cases hdate : other.eligibleDate = bar.eligibleDate
  · simp [hdate, compareDates_le_zero, heligible]
  · simp [hdate]

/-- Walking back over a tie ends at the first bar of its eligible date. -/
theorem getElem?_firstOfTie {ordered : List WeeklyPrice}
    (hsorted : ordered.Pairwise fun a b => a.eligibleDate ≤ b.eligibleDate) {index : ℕ}
    (hindex : index < ordered.length) :
    ordered[firstOfTie ordered index]?
      = ordered.find? (·.eligibleDate = ordered[index].eligibleDate) := by
  induction index with
  | zero =>
    cases ordered with
    | nil => exact nomatch hindex
    | cons first rest => simp [firstOfTie]
  | succ index ih =>
    have hbefore : index < ordered.length := by omega
    have hle : ordered[index].eligibleDate ≤ ordered[index + 1].eligibleDate :=
      List.pairwise_iff_getElem.mp hsorted _ _ hbefore hindex (by omega)
    unfold firstOfTie
    rw [List.getElem?_eq_getElem hbefore, List.getElem?_eq_getElem hindex]
    simp only [Option.map_some, Option.some.injEq]
    split
    · next heq => rw [ih hbefore, heq]
    · next hne =>
      rw [List.getElem?_eq_getElem hindex]
      refine (List.find?_eq_some_iff_getElem.mpr ⟨by simp, index + 1, hindex, rfl, ?_⟩).symm
      intro j hj
      have hj' : ordered[j].eligibleDate ≤ ordered[index].eligibleDate := by
        rcases Nat.eq_or_lt_of_le (Nat.lt_succ_iff.mp hj) with rfl | hlt
        · exact le_rfl
        · exact List.pairwise_iff_getElem.mp hsorted _ _ _ hbefore hlt
      have hlt : ordered[j].eligibleDate ≠ ordered[index + 1].eligibleDate := by omega
      simpa using hlt

/-- **One ordering serves every date**: the search finds the bar a date's own filter and sort
would. -/
theorem completedWeeklyBarLookup_eq (bars : List WeeklyPrice) (asOf : ℤ) :
    completedWeeklyBarLookup bars asOf = latestCompletedWeeklyBar bars asOf := by
  have hsorted : (byEligibleDate bars).Pairwise fun a b => a.eligibleDate ≤ b.eligibleDate :=
    byEligibleDate_compares.pairwise_sortBy bars
  have hmem : ∀ bar, bar ∈ byEligibleDate bars ↔ bar ∈ bars := fun bar => mem_sortBy
  obtain ⟨front, back, hcut, hfront, hback⟩ : ∃ front back, byEligibleDate bars = front ++ back
      ∧ (∀ bar, bar ∈ front ↔ bar ∈ eligibleBars bars asOf)
      ∧ ∀ bar ∈ back, asOf < bar.eligibleDate := by
    refine ⟨_, _, (filter_append_of_sorted (asOf + 1) hsorted).symm, fun bar => ?_,
      fun bar hbar => ?_⟩
    · rw [List.mem_filter, hmem, mem_eligibleBars, decide_eq_true_eq, Int.lt_add_one_iff]
    · have hnot := (List.mem_filter.mp hbar).2
      simp only [decide_eq_true_eq, not_lt] at hnot
      omega
  have hsearch : search (fun middle => (byEligibleDate bars)[middle]?.any fun bar =>
      compareDates bar.eligibleDate asOf ≤ 0) (byEligibleDate bars).length 0
      (byEligibleDate bars).length = front.length := by
    rw [hcut]
    refine search_append (fun bar hbar => ?_) fun bar hbar hle => ?_
    · simpa [compareDates_le_zero] using (mem_eligibleBars.mp ((hfront bar).mp hbar)).2
    · rw [decide_eq_true_eq, compareDates_le_zero] at hle
      exact absurd (hback bar hbar) (not_lt.mpr hle)
  unfold completedWeeklyBarLookup
  dsimp only
  rw [hsearch]
  cases hlength : front.length with
  | zero =>
    have hnil : eligibleBars bars asOf = [] := by
      refine List.eq_nil_iff_forall_not_mem.mpr fun bar hbar => ?_
      have := (hfront bar).mpr hbar
      rw [List.length_eq_zero_iff.mp hlength] at this
      exact nomatch this
    change none = (sortBy _ (eligibleBars bars asOf)).head?
    rw [hnil]
    rfl
  | succ index =>
    -- the last bar of the eligible ones, and the first of its tie
    have hindex : index < front.length := by omega
    have hall : index < (byEligibleDate bars).length := by
      rw [hcut, List.length_append]
      omega
    have hlast : (byEligibleDate bars)[index] = front[index] := by
      simp only [hcut, List.getElem_append_left hindex]
    dsimp only
    rw [getElem?_firstOfTie hsorted hall, hlast]
    have hin : front[index] ∈ eligibleBars bars asOf :=
      (hfront _).mp (List.getElem_mem hindex)
    have hlatest : ∀ other ∈ eligibleBars bars asOf,
        other.eligibleDate ≤ front[index].eligibleDate := by
      intro other hother
      obtain ⟨j, hj, rfl⟩ := List.mem_iff_getElem.mp ((hfront other).mpr hother)
      rcases Nat.eq_or_lt_of_le (show j ≤ index by omega) with rfl | hlt
      · exact le_rfl
      · have hfrontSorted : front.Pairwise fun a b => a.eligibleDate ≤ b.eligibleDate :=
          (List.pairwise_append.mp (hcut ▸ hsorted)).1
        exact List.pairwise_iff_getElem.mp hfrontSorted _ _ hj hindex hlt
    rw [latestCompletedWeeklyBar_eq_find hin hlatest, ← List.head?_filter, ← List.head?_filter]
    exact congrArg List.head? (filter_sortBy byEligibleDate_compares bars _)

end FactorSage.Technicals
