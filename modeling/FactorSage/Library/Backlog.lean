import Mathlib.Algebra.Order.BigOperators.Group.List

/-!
# A backlog that is cleared on open days

Amounts arrive on days of an ascending axis and wait for the first open day from theirs on. On an
open day everything that waits is served together. `waiting` is what has not been served after a run
of days and `served` what a day serves; an amount is served on one day at most, so what a day serves
is what was waiting for it (`served_eq_waiting`), and after it nothing waits (`waiting_concat_of_open`).
-/

namespace Backlog

variable {D M : Type} [LinearOrder D] [AddCommMonoid M]

/-- The day that serves an arrival: the first open one not before it. -/
def servedOn (isOpen : D → Bool) (axis : List D) (arrival : D) : Option D :=
  axis.find? fun day => decide (arrival ≤ day) && isOpen day

/-- What has arrived and no day of the axis has served. -/
def waiting (isOpen : D → Bool) (axis : List D) (arrivals : List (D × M)) : M :=
  ((arrivals.filter fun a => (servedOn isOpen axis a.1).isNone).map Prod.snd).sum

/-- What a day of the axis serves. -/
def served (isOpen : D → Bool) (axis : List D) (arrivals : List (D × M)) (day : D) : M :=
  ((arrivals.filter fun a => decide (servedOn isOpen axis a.1 = some day)).map Prod.snd).sum

variable {isOpen : D → Bool} {axis : List D} {arrivals later : List (D × M)} {day : D}

theorem waiting_append :
    waiting isOpen axis (arrivals ++ later)
      = waiting isOpen axis arrivals + waiting isOpen axis later := by
  unfold waiting
  rw [List.filter_append, List.map_append, List.sum_append]

/-- What arrives after a run of days waits. -/
theorem waiting_of_lt (h : ∀ d ∈ axis, ∀ a ∈ arrivals, d < a.1) :
    waiting isOpen axis arrivals = (arrivals.map Prod.snd).sum := by
  unfold waiting
  congr 2
  refine List.filter_eq_self.mpr fun a ha => ?_
  rw [Option.isNone_iff_eq_none, servedOn, List.find?_eq_none]
  intro d hd hserves
  rw [Bool.and_eq_true, decide_eq_true_eq] at hserves
  exact absurd hserves.1 (not_le.mpr (h d hd a ha))

theorem servedOn_concat (arrival : D) :
    servedOn isOpen (axis ++ [day]) arrival
      = (servedOn isOpen axis arrival).or
          (if arrival ≤ day ∧ isOpen day = true then some day else none) := by
  unfold servedOn
  rw [List.find?_append, List.find?_singleton]
  congr 1
  simp only [Bool.and_eq_true, decide_eq_true_eq]

/-- A closed day serves nothing. -/
theorem waiting_concat_of_closed (h : isOpen day = false) :
    waiting isOpen (axis ++ [day]) arrivals = waiting isOpen axis arrivals := by
  unfold waiting
  congr 2
  refine List.filter_congr fun a _ => ?_
  rw [servedOn_concat, if_neg (by rw [h]; exact fun hopen => Bool.false_ne_true hopen.2),
    Option.or_none]

/-- After an open day nothing waits that had arrived. -/
theorem waiting_concat_of_open (h : isOpen day = true) (harrived : ∀ a ∈ arrivals, a.1 ≤ day) :
    waiting isOpen (axis ++ [day]) arrivals = 0 := by
  have hnone : (arrivals.filter fun a => (servedOn isOpen (axis ++ [day]) a.1).isNone) = [] := by
    refine List.filter_eq_nil_iff.mpr fun a ha => ?_
    rw [servedOn_concat, if_pos ⟨harrived a ha, h⟩]
    cases servedOn isOpen axis a.1 <;> simp
  unfold waiting
  rw [hnone, List.map_nil, List.sum_nil]

/-- **An open day serves exactly what was waiting for it.** -/
theorem served_eq_waiting {rest : List D} (h : isOpen day = true) (hbefore : ∀ d ∈ axis, d ≠ day)
    (harrived : ∀ a ∈ arrivals, a.1 ≤ day) (hlater : ∀ a ∈ later, day < a.1) :
    served isOpen (axis ++ day :: rest) (arrivals ++ later) day = waiting isOpen axis arrivals := by
  have hnone : (later.filter fun a =>
      decide (servedOn isOpen (axis ++ day :: rest) a.1 = some day)) = [] := by
    refine List.filter_eq_nil_iff.mpr fun a ha hserves => ?_
    rw [decide_eq_true_eq] at hserves
    have hfound := List.find?_some hserves
    rw [Bool.and_eq_true, decide_eq_true_eq] at hfound
    exact absurd hfound.1 (not_le.mpr (hlater a ha))
  unfold served waiting
  rw [List.filter_append, hnone, List.append_nil]
  congr 2
  refine List.filter_congr fun a ha => ?_
  have hserves : (decide (a.1 ≤ day) && isOpen day) = true := by
    rw [h, Bool.and_true]
    exact decide_eq_true (harrived a ha)
  have hsplit : servedOn isOpen (axis ++ day :: rest) a.1
      = (servedOn isOpen axis a.1).or (some day) := by
    unfold servedOn
    rw [List.find?_append, List.find?_cons, hserves]
  rw [hsplit]
  cases hearly : servedOn isOpen axis a.1 with
  | none => simp
  | some d =>
    have hne := hbefore d (List.mem_of_find?_eq_some hearly)
    simpa using hne

theorem waiting_nonneg [PartialOrder M] [IsOrderedAddMonoid M] (h : ∀ a ∈ arrivals, 0 ≤ a.2) :
    0 ≤ waiting isOpen axis arrivals := by
  refine List.sum_nonneg fun m hm => ?_
  obtain ⟨a, ha, rfl⟩ := List.mem_map.mp hm
  exact h a (List.mem_of_mem_filter ha)

end Backlog
