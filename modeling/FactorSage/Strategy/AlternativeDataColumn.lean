import FactorSage.Strategy.AlternativeData

/-!
# What a disclosure column reports

At every session whose whole window lies in the frame and in coverage, the swept column reports the
aggregate of the observations whose first session lies in the window; everywhere else it is absent.

An observation that became observable before the frame's first session belongs to a session the
frame does not hold, and the sweep drops it. So a window that starts with the frame's first session
says what the observations say, over the sessions of the security, only when none of them became
observable in the gap between that session and the one before it.
-/

namespace FactorSage

open SlidingWindow ComparatorSort

/-! ### The first session on or after a date -/

section Sessions

variable {dates : List LocalDate} {date : LocalDate}

/-- How many sessions precede a date. -/
def CountsSessionsBefore (dates : List LocalDate) (date : LocalDate) (n : ℕ) : Prop :=
  n ≤ dates.length ∧ ∀ q session, dates[q]? = some session → (q < n ↔ session < date)

theorem searchSession_spec (hasc : dates.Pairwise (· < ·)) {fuel low until_ : ℕ}
    {found : Option ℕ} (hfuel : until_ - low ≤ fuel) (hle : low ≤ until_)
    (huntil : until_ ≤ dates.length)
    (hfound : found = if until_ < dates.length then some until_ else none)
    (hlow : ∀ q session, dates[q]? = some session → q < low → session < date)
    (hhigh : ∀ q session, dates[q]? = some session → until_ ≤ q → date ≤ session) :
    ∃ n, CountsSessionsBefore dates date n
      ∧ searchSession dates date fuel low until_ found
        = if n < dates.length then some n else none := by
  induction fuel generalizing low until_ found with
  | zero =>
    obtain rfl : low = until_ := by omega
    refine ⟨low, ⟨huntil, fun q session hq => ⟨hlow q session hq, fun hlt => ?_⟩⟩, hfound⟩
    exact not_le.mp fun hge => absurd (hhigh q session hq hge) (not_le.mpr hlt)
  | succ fuel ih =>
    rw [searchSession]
    split
    · next hlt =>
      have hmiddle : (low + (until_ - 1)) / 2 < until_ := by omega
      obtain ⟨session, hsession⟩ : ∃ session, dates[(low + (until_ - 1)) / 2]? = some session :=
        ⟨_, List.getElem?_eq_getElem (hmiddle.trans_le huntil)⟩
      simp only [hsession, Option.any_some]
      split
      · next hafter =>
        have hdate : date ≤ session := of_decide_eq_true hafter
        refine ih (by omega) (by omega) (by omega) ?_ hlow fun q other hq hge => ?_
        · rw [if_pos (hmiddle.trans_le huntil)]
        · exact hdate.trans ((AscendingList.le_iff_index_le hasc hsession hq).mpr hge)
      · next hbefore =>
        have hdate : session < date := not_le.mp fun hle => hbefore (decide_eq_true hle)
        refine ih (by omega) (by omega) huntil hfound (fun q other hq hlt => ?_) hhigh
        exact ((AscendingList.le_iff_index_le hasc hq hsession).mpr (by omega)).trans_lt hdate
    · next hend =>
      obtain rfl : low = until_ := by omega
      refine ⟨low, ⟨huntil, fun q session hq => ⟨hlow q session hq, fun hlt => ?_⟩⟩, hfound⟩
      exact not_le.mp fun hge => absurd (hhigh q session hq hge) (not_le.mpr hlt)

/-- **The binary search finds the first session on or after a date.** -/
theorem firstSessionAtOrAfter_eq (hasc : dates.Pairwise (· < ·)) (date : LocalDate) :
    firstSessionAtOrAfter dates date = dates.findIdx? fun session => decide (date ≤ session) := by
  obtain ⟨n, ⟨hn, hcounts⟩, hsearch⟩ : ∃ n, CountsSessionsBefore dates date n
      ∧ searchSession dates date dates.length 0 dates.length none
        = if n < dates.length then some n else none := by
    refine searchSession_spec hasc (by omega) (by omega) le_rfl (by simp) ?_ ?_
    · exact fun q session _ hq => absurd hq (Nat.not_lt_zero q)
    · exact fun q session hq hge =>
        absurd (List.getElem?_eq_some_iff.mp hq).1 (not_lt.mpr hge)
  have hbefore : ∀ q (hq : q < dates.length), q < n ↔ dates[q] < date :=
    fun q hq => hcounts q _ (List.getElem?_eq_getElem hq)
  rw [firstSessionAtOrAfter, hsearch]
  symm
  split
  · next hlt =>
    refine List.findIdx?_eq_some_iff_getElem.mpr ⟨hlt, ?_, fun j hj => ?_⟩
    · rw [decide_eq_true_eq, ← not_lt, ← hbefore n hlt]
      exact lt_irrefl n
    · rw [decide_eq_true_eq, not_le]
      exact (hbefore j (hj.trans hlt)).mp hj
  · next hge =>
    refine List.findIdx?_eq_none_iff.mpr fun session hmem => ?_
    obtain ⟨q, hq, rfl⟩ := List.mem_iff_getElem.mp hmem
    rw [decide_eq_false_iff_not, not_le]
    exact (hbefore q hq).mp (by omega)

end Sessions

/-! ### Windows of observations -/

variable {F : Type}

/-- Whether an observation's first session lies in the window that ends at a session. -/
def inWindow (dates : List LocalDate) (lookback index : ℕ)
    (observation : AlternativeDataObservation F) : Bool :=
  (dates.findIdx? fun session => decide (observation.observableFrom ≤ session)).any fun first =>
    decide (index < first + lookback ∧ first ≤ index)

/-- The observations whose first session lies in the window that ends at a session. -/
def windowObservations (dates : List LocalDate) (lookback index : ℕ)
    (observations : List (AlternativeDataObservation F)) : List (AlternativeDataObservation F) :=
  observations.filter (inWindow dates lookback index)

/-- The whole window of a session lies in the frame and in coverage. -/
def WindowCovered (dates : List LocalDate) (coverage : AlternativeDataCoverage)
    (lookback index : ℕ) : Prop :=
  lookback ≤ index + 1 ∧ ∃ date windowStartDate, dates[index]? = some date
    ∧ dates[index + 1 - lookback]? = some windowStartDate
    ∧ date ≤ coverage.toDate ∧ coverage.fromDate ≤ windowStartDate

section Placement

variable {dates : List LocalDate}

/-- Whether an observation is not older than the frame. -/
def observedInFrame (dates : List LocalDate) (observation : AlternativeDataObservation F) : Bool :=
  !dates.head?.any fun first => decide (observation.observableFrom < first)

theorem placeObservation_eq (hasc : dates.Pairwise (· < ·))
    (observation : AlternativeDataObservation F) :
    placeObservation dates observation
      = if observedInFrame dates observation then
          (dates.findIdx? fun session => decide (observation.observableFrom ≤ session)).map
            fun index => { index, observation }
        else none := by
  unfold placeObservation observedInFrame
  rw [firstSessionAtOrAfter_eq hasc]
  cases dates.head?.any fun first => decide (observation.observableFrom < first) <;>
    cases dates.findIdx? fun session => decide (observation.observableFrom ≤ session) <;> rfl

/-- The placed observations of a window are the frame's observations whose first session lies in it. -/
theorem map_observation_placed (hasc : dates.Pairwise (· < ·)) (lookback index : ℕ)
    (observations : List (AlternativeDataObservation F)) :
    ((placeObservations dates observations).filter fun p =>
        decide (index < p.index + lookback ∧ p.index ≤ index)).map PlacedObservation.observation
      = windowObservations dates lookback index (observations.filter (observedInFrame dates)) := by
  unfold windowObservations placeObservations
  induction observations with
  | nil => rfl
  | cons observation rest ih =>
    cases hin : observedInFrame dates observation with
    | false =>
      have hplace : placeObservation dates observation = none := by
        rw [placeObservation_eq hasc, hin]
        rfl
      rw [List.filter_cons_of_neg (by simp [hin]), List.filterMap_cons_none hplace, ih]
    | true =>
      rw [List.filter_cons_of_pos hin]
      cases hfirst : dates.findIdx? fun session => decide (observation.observableFrom ≤ session) with
      | none =>
        have hplace : placeObservation dates observation = none := by
          rw [placeObservation_eq hasc, hin, hfirst]
          rfl
        rw [List.filterMap_cons_none hplace,
          List.filter_cons_of_neg (by simp [inWindow, hfirst]), ih]
      | some first =>
        have hplace : placeObservation dates observation = some ⟨first, observation⟩ := by
          rw [placeObservation_eq hasc, hin, hfirst]
          rfl
        rw [List.filterMap_cons_some hplace]
        by_cases hwindow : index < first + lookback ∧ first ≤ index
        · rw [List.filter_cons_of_pos (by simpa using hwindow), List.map_cons, ih,
            List.filter_cons_of_pos (by simpa [inWindow, hfirst] using hwindow)]
        · rw [List.filter_cons_of_neg (by simpa using hwindow), ih,
            List.filter_cons_of_neg (by simpa [inWindow, hfirst] using hwindow)]

end Placement

/-! ### Frames of different length -/

section Frames

variable {dates earlier : List LocalDate} {lookback index : ℕ}
  {observations : List (AlternativeDataObservation F)}

theorem windowObservations_filter (keep : AlternativeDataObservation F → Bool) :
    windowObservations dates lookback index (observations.filter keep)
      = observations.filter fun observation =>
          inWindow dates lookback index observation && keep observation := by
  unfold windowObservations
  rw [List.filter_filter]

section

variable {observation : AlternativeDataObservation F}

/-- An observation older than the frame has the frame's first session for its first in it. -/
theorem findIdx?_of_older {first : LocalDate} (hfirst : dates.head? = some first) (holder : observation.observableFrom < first) :
    dates.findIdx? (fun session => decide (observation.observableFrom ≤ session)) = some 0 := by
  cases dates with
  | nil => cases hfirst
  | cons date rest =>
    obtain rfl := Option.some.inj hfirst
    rw [List.findIdx?_cons, if_pos (decide_eq_true holder.le)]

theorem observedInFrame_eq_false_iff :
    observedInFrame dates observation = false
      ↔ ∃ first, dates.head? = some first ∧ observation.observableFrom < first := by
  unfold observedInFrame
  cases dates.head? with
  | none => simp
  | some first => simp

/-- Whether an observation became observable between two runs of sessions. -/
def ObservedBetween (earlier dates : List LocalDate)
    (observation : AlternativeDataObservation F) : Prop :=
  ∃ last first, earlier.getLast? = some last ∧ dates.head? = some first
    ∧ last < observation.observableFrom ∧ observation.observableFrom < first

/-- A longer frame sees the same observations in a window, if none of those became observable just
before the shorter one. -/
theorem inWindow_append (hasc : (earlier ++ dates).Pairwise (· < ·)) (hindex : index < dates.length)
    (hlookback : lookback ≤ index + 1)
    (h : lookback ≤ index ∨ ¬ ObservedBetween earlier dates observation) :
    (inWindow (earlier ++ dates) lookback (earlier.length + index) observation
        && observedInFrame (earlier ++ dates) observation)
      = (inWindow dates lookback index observation && observedInFrame dates observation) := by
  obtain ⟨first, hfirst⟩ : ∃ first, dates.head? = some first :=
    ⟨_, List.head?_eq_some_head (List.ne_nil_of_length_pos (by omega))⟩
  have hbefore : ∀ session ∈ earlier, session < first := fun session hsession =>
    (List.pairwise_append.mp hasc).2.2 session hsession first (List.mem_of_head? hfirst)
  cases hin : observedInFrame dates observation with
  | true =>
    -- every earlier session precedes it, so it has the same first session
    have hfrom : first ≤ observation.observableFrom := by
      by_contra holder
      rw [observedInFrame_eq_false_iff.mpr ⟨first, hfirst, not_le.mp holder⟩] at hin
      cases hin
    have hnone : earlier.findIdx? (fun session => decide (observation.observableFrom ≤ session))
        = none := by
      refine List.findIdx?_eq_none_iff.mpr fun session hsession => ?_
      rw [decide_eq_false_iff_not, not_le]
      exact (hbefore session hsession).trans_le hfrom
    have hlonger : observedInFrame (earlier ++ dates) observation = true := by
      by_contra hout
      obtain ⟨head, hhead, holder⟩ :=
        observedInFrame_eq_false_iff.mp (by simpa using hout)
      have hle : head ≤ first := by
        cases earlier with
        | nil =>
          rw [List.nil_append, hfirst] at hhead
          exact (Option.some.inj hhead).ge
        | cons date rest =>
          obtain rfl := Option.some.inj hhead
          exact (hbefore date List.mem_cons_self).le
      exact absurd (holder.trans_le hle) (not_lt.mpr hfrom)
    have hsame : inWindow (earlier ++ dates) lookback (earlier.length + index) observation
        = inWindow dates lookback index observation := by
      unfold inWindow
      rw [List.findIdx?_append, hnone, Option.none_or]
      cases dates.findIdx? fun session => decide (observation.observableFrom ≤ session) with
      | none => rfl
      | some position =>
        rw [Option.map_some, Option.any_some, Option.any_some]
        exact decide_eq_decide.mpr (by omega)
    rw [hsame, hlonger]
  | false =>
    rw [Bool.and_false]
    obtain ⟨head, hhead, holder⟩ := observedInFrame_eq_false_iff.mp hin
    obtain rfl := Option.some.inj (hfirst.symm.trans hhead)
    cases hfound : earlier.findIdx? fun session =>
        decide (observation.observableFrom ≤ session) with
    | some position =>
      -- its first session is one the shorter frame does not hold
      have hposition : position < earlier.length :=
        (List.findIdx?_eq_some_iff_getElem.mp hfound).1
      have hout : inWindow (earlier ++ dates) lookback (earlier.length + index) observation
          = false := by
        unfold inWindow
        rw [List.findIdx?_append, hfound, Option.some_or, Option.any_some,
          decide_eq_false_iff_not]
        omega
      rw [hout, Bool.false_and]
    | none =>
      cases hlast : earlier.getLast? with
      | none =>
        rw [List.getLast?_eq_none_iff.mp hlast, List.nil_append, hin, Bool.and_false]
      | some last =>
        have hlater : last < observation.observableFrom := by
          have hno := List.findIdx?_eq_none_iff.mp hfound last (List.mem_of_getLast? hlast)
          rw [decide_eq_false_iff_not, not_le] at hno
          exact hno
        have hlong : lookback ≤ index :=
          h.resolve_right (not_not.mpr ⟨last, first, hlast, hfirst, hlater, holder⟩)
        have hout : inWindow (earlier ++ dates) lookback (earlier.length + index) observation
            = false := by
          unfold inWindow
          rw [List.findIdx?_append, hfound, Option.none_or, findIdx?_of_older hfirst holder,
            Option.map_some, Option.any_some, decide_eq_false_iff_not]
          omega
        rw [hout, Bool.false_and]

/-- Whether an observation became observable before a frame and after every session before it. -/
def ObservedInGap (earlier dates : List LocalDate)
    (observation : AlternativeDataObservation F) : Prop :=
  (∃ first, dates.head? = some first ∧ observation.observableFrom < first)
    ∧ ∀ session ∈ earlier, session < observation.observableFrom

theorem ObservedBetween.inGap (hasc : earlier.Pairwise (· < ·)) (h : ObservedBetween earlier dates observation) :
    ObservedInGap earlier dates observation := by
  obtain ⟨last, first, hlast, hfirst, hlater, holder⟩ := h
  refine ⟨⟨first, hfirst, holder⟩, fun session hsession => ?_⟩
  obtain ⟨init, rfl⟩ := List.getLast?_eq_some_iff.mp hlast
  rcases List.mem_append.mp hsession with hinit | hsingle
  · exact ((List.pairwise_append.mp hasc).2.2 session hinit last (List.mem_singleton_self _)).trans
      hlater
  · rw [List.mem_singleton.mp hsingle]
    exact hlater

/-- With a session before the frame, a window in the frame holds nothing older than both. -/
theorem inWindow_and_observedInFrame (hlookback : lookback ≤ index + 1)
    (h : lookback ≤ index ∨ ¬ ObservedInGap earlier dates observation) :
    (inWindow (earlier ++ dates) lookback (earlier.length + index) observation
        && observedInFrame (earlier ++ dates) observation)
      = inWindow (earlier ++ dates) lookback (earlier.length + index) observation := by
  cases hin : observedInFrame (earlier ++ dates) observation with
  | true => rw [Bool.and_true]
  | false =>
    obtain ⟨head, hhead, holder⟩ := observedInFrame_eq_false_iff.mp hin
    -- its first session is the very first, which the window does not reach
    have hbefore : lookback ≤ earlier.length + index := by
      cases earlier with
      | nil =>
        have hlong : lookback ≤ index :=
          h.resolve_right (not_not.mpr ⟨⟨head, hhead, holder⟩, fun _ hmem => absurd hmem
            List.not_mem_nil⟩)
        omega
      | cons session rest =>
        rw [List.length_cons]
        omega
    have hout : inWindow (earlier ++ dates) lookback (earlier.length + index) observation
        = false := by
      rw [inWindow, findIdx?_of_older hhead holder, Option.any_some, decide_eq_false_iff_not]
      omega
    rw [hout, Bool.and_false]

end

/-- A window in the frame, over all sessions of the security. -/
theorem windowObservations_observedInFrame (hasc : (earlier ++ dates).Pairwise (· < ·))
    (hindex : index < dates.length) (hlookback : lookback ≤ index + 1)
    (h : lookback ≤ index
      ∨ ∀ observation ∈ observations, ¬ ObservedInGap earlier dates observation) :
    windowObservations dates lookback index (observations.filter (observedInFrame dates))
      = windowObservations (earlier ++ dates) lookback (earlier.length + index) observations := by
  rw [windowObservations_filter]
  refine List.filter_congr fun observation hmem => ?_
  have hgap : lookback ≤ index ∨ ¬ ObservedInGap earlier dates observation :=
    h.imp id fun hnone => hnone observation hmem
  have hbetween : lookback ≤ index ∨ ¬ ObservedBetween earlier dates observation :=
    hgap.imp id fun hnot hobserved => hnot (hobserved.inGap (List.pairwise_append.mp hasc).1)
  rw [← inWindow_append hasc hindex hlookback hbetween, inWindow_and_observedInFrame hlookback hgap]

end Frames

variable [JsNumber F]

/-- Counted afresh: the distinct actors, the events, or the sum of the amounts. -/
def aggregateObservations (aggregation : AlternativeDataAggregation)
    (observations : List (AlternativeDataObservation F)) : F :=
  match aggregation with
  | .distinctActors =>
    JsNumber.ofInt ((observations.map AlternativeDataObservation.actorKey).dedup.length : ℕ)
  | .eventCount => JsNumber.ofInt (observations.length : ℕ)
  | .sumAmount =>
    JsNumber.ofInt (observations.map AlternativeDataObservation.units).sum
      / JsNumber.ofInt moneyUnitsPerDollar

/-- What the window's totals say of the observations in it. -/
structure Totals (totals : WindowTotals) (placed : List (PlacedObservation F)) : Prop where
  actorCounts : Tally.IsTallyOf totals.actorCounts
    (placed.map fun p => p.observation.actorKey)
  events : totals.events = placed.length
  amountUnits : totals.amountUnits = (placed.map fun p => p.observation.units).sum

theorem totals_empty : Totals (F := F) ⟨.empty, 0, 0⟩ [] :=
  ⟨Tally.isTallyOf_empty, rfl, rfl⟩

variable {placed : List (PlacedObservation F)}

theorem Totals.enter {totals : WindowTotals} (h : Totals totals placed) (p : PlacedObservation F) :
    Totals (enterWindow totals p) (placed ++ [p]) := by
  have hperm : (p :: placed).Perm (placed ++ [p]) := (List.perm_append_singleton p placed).symm
  refine ⟨?_, ?_, ?_⟩
  · exact (h.actorCounts.add p.observation.actorKey).perm
      (hperm.map fun q : PlacedObservation F => q.observation.actorKey)
  · rw [List.length_append, List.length_singleton]
    push_cast
    rw [← h.events]
    rfl
  · rw [List.map_append, List.sum_append, ← h.amountUnits, List.map_singleton, List.sum_singleton]
    rfl

theorem Totals.leave {totals : WindowTotals}
    {p : PlacedObservation F} (h : Totals totals (p :: placed)) :
    Totals (leaveWindow totals p) placed := by
  refine ⟨h.actorCounts.remove, ?_, ?_⟩
  · change totals.events - 1 = placed.length
    rw [h.events, List.length_cons]
    push_cast
    ring
  · change totals.amountUnits - p.observation.units = _
    rw [h.amountUnits, List.map_cons, List.sum_cons]
    ring

/-- Totals report what a recount of the same observations does. -/
theorem Totals.aggregate {totals : WindowTotals}
    (h : Totals totals placed) (aggregation : AlternativeDataAggregation) :
    aggregateTotals (F := F) aggregation totals
      = aggregateObservations aggregation (placed.map PlacedObservation.observation) := by
  cases aggregation with
  | distinctActors =>
    change JsNumber.ofInt _ = JsNumber.ofInt _
    rw [h.actorCounts.size, List.map_map]
    rfl
  | eventCount =>
    change JsNumber.ofInt _ = JsNumber.ofInt _
    rw [h.events, List.length_map]
  | sumAmount =>
    change JsNumber.ofInt _ / _ = JsNumber.ofInt _ / _
    rw [h.amountUnits, List.map_map]
    rfl

theorem aggregateObservations_perm {observations others : List (AlternativeDataObservation F)}
    (h : observations.Perm others) (aggregation : AlternativeDataAggregation) :
    aggregateObservations aggregation observations = aggregateObservations aggregation others := by
  cases aggregation with
  | distinctActors =>
    change JsNumber.ofInt _ = JsNumber.ofInt _
    rw [((h.map _).dedup).length_eq]
  | eventCount =>
    change JsNumber.ofInt _ = JsNumber.ofInt _
    rw [h.length_eq]
  | sumAmount =>
    change JsNumber.ofInt _ / _ = JsNumber.ofInt _ / _
    rw [(h.map _).sum_eq]

/-! ### The sweep -/

section Sweep

variable {placed : List (PlacedObservation F)} {lookback : ℕ}

/-- Before a session the window holds what entered by the session before it and is not older than
that session's window. -/
def HoldsBefore (placed : List (PlacedObservation F)) (lookback index : ℕ)
    (cursor : Cursor WindowTotals) : Prop :=
  Holds Totals placed cursor
    (placed.takeWhile fun p => decide (p.index + lookback < index))
    (placed.takeWhile fun p => decide (p.index < index))

theorem holdsBefore_zero (placed : List (PlacedObservation F)) (lookback : ℕ) :
    HoldsBefore placed lookback 0 ⟨⟨.empty, 0, 0⟩, 0, 0⟩ := by
  have hleft : (placed.takeWhile fun p => decide (p.index + lookback < 0)) = [] := by
    cases placed <;> simp
  have hright : (placed.takeWhile fun p => decide (p.index < 0)) = [] := by
    cases placed <;> simp
  unfold HoldsBefore
  rw [hleft, hright]
  exact ⟨rfl, rfl, totals_empty⟩

variable {cursor : Cursor WindowTotals}

/-- **One session of the sweep.** -/
theorem HoldsBefore.sweepSession {index : ℕ} (h : HoldsBefore placed lookback index cursor) :
    HoldsBefore placed lookback (index + 1) (sweepSession placed lookback index cursor) := by
  have hleft : (fun p : PlacedObservation F => decide (p.index + lookback < index + 1))
      = fun p => decide (p.index + lookback ≤ index) := by
    simp only [Nat.lt_succ_iff]
  have hright : (fun p : PlacedObservation F => decide (p.index < index + 1))
      = fun p => decide (p.index ≤ index) := by
    simp only [Nat.lt_succ_iff]
  unfold HoldsBefore at h ⊢
  rw [hleft, hright]
  have hle : (placed.takeWhile fun p => decide (p.index + lookback < index)).length
      ≤ (placed.takeWhile fun p => decide (p.index < index)).length := by
    rw [AscendingList.takeWhile_split (p := fun p => decide (p.index + lookback < index))
      (q := fun p => decide (p.index < index)) ?_ placed, List.length_append]
    · omega
    · intro p hp
      rw [decide_eq_true_eq] at hp ⊢
      omega
  have hentered := h.enterWhile (fun totals l p ht => ht.enter p)
    (q := fun p => decide (p.index ≤ index)) hle fun p hp => by
      rw [decide_eq_true_eq] at hp ⊢
      omega
  refine hentered.leaveWhile (fun totals l p ht => ht.leave) (fun p hp => ?_) fun p hp => ?_
  · rw [decide_eq_true_eq] at hp ⊢
    omega
  · rw [decide_eq_true_eq] at hp ⊢
    omega

/-- After a session the totals are those of the placed observations in its window. -/
theorem HoldsBefore.totals {index : ℕ} (h : HoldsBefore placed lookback (index + 1) cursor)
    (hsorted : placed.Pairwise fun a b => a.index ≤ b.index) :
    Totals cursor.state
      (placed.filter fun p => decide (index < p.index + lookback ∧ p.index ≤ index)) := by
  have htotals := h.state
  rw [drop_takeWhile_eq_filter] at htotals
  · have hcongr : (fun p : PlacedObservation F =>
        decide (p.index < index + 1) && !decide (p.index + lookback < index + 1))
        = fun p => decide (index < p.index + lookback ∧ p.index ≤ index) := by
      funext p
      rw [← decide_not, ← Bool.decide_and]
      exact decide_eq_decide.mpr (by omega)
    rwa [hcongr] at htotals
  · refine hsorted.imp fun {a b} hab hb => ?_
    rw [decide_eq_true_eq] at hb ⊢
    omega
  · refine hsorted.imp fun {a b} hab hb => ?_
    rw [decide_eq_true_eq] at hb ⊢
    omega
  · intro p hp
    rw [decide_eq_true_eq] at hp ⊢
    omega

variable {dates : List LocalDate} (coverage : AlternativeDataCoverage)
  (aggregation : AlternativeDataAggregation)

@[simp] theorem length_sweepColumn (indices : List ℕ) (cursor : Cursor WindowTotals) :
    (sweepColumn dates coverage aggregation lookback placed indices cursor).length
      = indices.length := by
  induction indices generalizing cursor with
  | nil => rfl
  | cons index rest ih => rw [sweepColumn, List.length_cons, List.length_cons, ih]

/-- **The sweep over a run of sessions.** -/
theorem getElem?_sweepColumn (hsorted : placed.Pairwise fun a b => a.index ≤ b.index)
    {start count : ℕ} (h : HoldsBefore placed lookback start cursor) {k : ℕ} (hk : k < count) :
    ∃ totals, Totals totals
        (placed.filter fun p => decide (start + k < p.index + lookback ∧ p.index ≤ start + k))
      ∧ (sweepColumn dates coverage aggregation lookback placed (List.range' start count) cursor)[k]?
        = some (sessionValue dates coverage aggregation lookback (start + k) totals) := by
  induction count generalizing start cursor k with
  | zero => omega
  | succ count ih =>
    have hswept := h.sweepSession
    rw [List.range'_succ, sweepColumn]
    cases k with
    | zero => exact ⟨_, hswept.totals hsorted, rfl⟩
    | succ k =>
      have hshift : start + (k + 1) = start + 1 + k := by omega
      rw [hshift, List.getElem?_cons_succ]
      exact ih hswept (by omega)

end Sweep

/-! ### The column -/

section Column

variable {dates : List LocalDate} (request : AlternativeDataColumnRequest)
  (coverage : AlternativeDataCoverage) (observations : List (AlternativeDataObservation F))

variable {coverage} in
theorem sessionValue_of_covered {aggregation : AlternativeDataAggregation} {lookback index : ℕ}
    {totals : WindowTotals} (h : WindowCovered dates coverage lookback index) :
    sessionValue (F := F) dates coverage aggregation lookback index totals
      = aggregateTotals aggregation totals := by
  obtain ⟨hlookback, date, start, hdate, hstart, hto, hfrom⟩ := h
  unfold sessionValue
  rw [if_neg (by omega), hdate, hstart]
  simp only [not_lt.mpr hto, not_lt.mpr hfrom, decide_false, Bool.or_self]
  rfl

variable {coverage} in
theorem sessionValue_of_not_covered {aggregation : AlternativeDataAggregation}
    {lookback index : ℕ} {totals : WindowTotals}
    (h : ¬ WindowCovered dates coverage lookback index) :
    sessionValue (F := F) dates coverage aggregation lookback index totals = JsNumber.nan := by
  unfold sessionValue
  split
  · rfl
  · next hlookback =>
    split
    · next date start hdate hstart =>
      split
      · rfl
      · next hinside =>
        rw [Bool.or_eq_true, decide_eq_true_eq, decide_eq_true_eq, not_or, not_lt, not_lt]
          at hinside
        exact absurd ⟨by omega, date, start, hdate, hstart, hinside⟩ h
    · rfl

omit [JsNumber F] in
/-- The comparator of the placement compares sessions. -/
theorem compares_index :
    Compares (fun left right : PlacedObservation F => (left.index : ℤ) - right.index)
      PlacedObservation.index := by
  intro a b
  change (a.index : ℤ) - b.index < 0 ↔ a.index < b.index
  omega

theorem length_buildAlternativeDataColumn :
    (buildAlternativeDataColumn dates request ⟨some coverage, observations⟩).length
      = dates.length := by
  unfold buildAlternativeDataColumn
  simp only [length_sweepColumn, List.length_range]

/-- **What the sweep computes at a session**: absent outside coverage, else a recount of the
observations that are not older than the frame. -/
theorem getElem?_buildAlternativeDataColumn (hasc : dates.Pairwise (· < ·)) {index : ℕ}
    (hindex : index < dates.length) :
    ∃ value,
      (buildAlternativeDataColumn dates request ⟨some coverage, observations⟩)[index]? = some value
      ∧ (WindowCovered dates coverage (max 1 request.lookbackSessions) index →
        value = aggregateObservations request.aggregation
          (windowObservations dates (max 1 request.lookbackSessions) index
            (observations.filter (observedInFrame dates))))
      ∧ (¬ WindowCovered dates coverage (max 1 request.lookbackSessions) index →
        value = JsNumber.nan) := by
  have hsorted := compares_index.pairwise_sortBy (placeObservations dates observations)
  have hperm := sortBy_perm
    (fun left right : PlacedObservation F => (left.index : ℤ) - right.index)
    (placeObservations dates observations)
  obtain ⟨totals, htotals, hvalue⟩ := getElem?_sweepColumn coverage request.aggregation hsorted
    (holdsBefore_zero _ (max 1 request.lookbackSessions)) hindex
  rw [Nat.zero_add] at htotals hvalue
  unfold buildAlternativeDataColumn
  simp only [List.range_eq_range']
  refine ⟨_, hvalue, fun hcovered => ?_, sessionValue_of_not_covered⟩
  rw [sessionValue_of_covered hcovered, htotals.aggregate]
  refine aggregateObservations_perm ?_ _
  rw [← map_observation_placed hasc]
  exact (hperm.filter _).map _

end Column

theorem WindowCovered.index_lt {dates : List LocalDate} {coverage : AlternativeDataCoverage}
    {lookback index : ℕ} (h : WindowCovered dates coverage lookback index) :
    index < dates.length := by
  obtain ⟨-, date, -, hdate, -⟩ := h
  exact (List.getElem?_eq_some_iff.mp hdate).1

/-- A window in a frame is the same window in a longer one. -/
theorem WindowCovered.append {dates : List LocalDate} {coverage : AlternativeDataCoverage}
    {lookback index : ℕ} (h : WindowCovered dates coverage lookback index)
    (earlier : List LocalDate) :
    WindowCovered (earlier ++ dates) coverage lookback (earlier.length + index) := by
  obtain ⟨hlookback, date, start, hdate, hstart, hinside⟩ := h
  refine ⟨by omega, date, start, ?_, ?_, hinside⟩
  · rw [List.getElem?_append_right (by omega), Nat.add_sub_cancel_left]
    exact hdate
  · rw [List.getElem?_append_right (by omega)]
    have hindex : earlier.length + index + 1 - lookback - earlier.length = index + 1 - lookback := by
      omega
    rw [hindex]
    exact hstart

/-- What a disclosure column reports. -/
structure ReportsWindows (dates : List LocalDate) (request : AlternativeDataColumnRequest)
    (coverage : AlternativeDataCoverage) (observations : List (AlternativeDataObservation F)) :
    Prop where
  aligned : (buildAlternativeDataColumn dates request ⟨some coverage, observations⟩).length
    = dates.length
  /-- Absent where the window is not wholly in the frame and in coverage. -/
  absent : ∀ index < dates.length,
    ¬ WindowCovered dates coverage request.lookbackSessions index →
      (buildAlternativeDataColumn dates request ⟨some coverage, observations⟩)[index]?
        = some JsNumber.nan
  /-- Elsewhere a recount of the observations that are not older than the frame. -/
  recounts : ∀ index, WindowCovered dates coverage request.lookbackSessions index →
    (buildAlternativeDataColumn dates request ⟨some coverage, observations⟩)[index]?
      = some (aggregateObservations request.aggregation
          (windowObservations dates request.lookbackSessions index
            (observations.filter (observedInFrame dates))))
  /-- It is the recount of all observations over the sessions of the security, those before the
  frame included, where the window starts after the frame's first session or no observation lies in
  the gap before that session. -/
  recounts_sessions : ∀ earlier, (earlier ++ dates).Pairwise (· < ·) →
    ∀ index, WindowCovered dates coverage request.lookbackSessions index →
      (request.lookbackSessions ≤ index
        ∨ ∀ observation ∈ observations, ¬ ObservedInGap earlier dates observation) →
          (buildAlternativeDataColumn dates request ⟨some coverage, observations⟩)[index]?
            = some (aggregateObservations request.aggregation
                (windowObservations (earlier ++ dates) request.lookbackSessions
                  (earlier.length + index) observations))
  /-- A longer frame reports the same numbers, where the window starts after the shorter frame's
  first session or no observation became observable just before it. -/
  extends_left : ∀ earlier, (earlier ++ dates).Pairwise (· < ·) →
    ∀ index value, (request.lookbackSessions ≤ index
      ∨ ∀ observation ∈ observations, ¬ ObservedBetween earlier dates observation) →
        (buildAlternativeDataColumn dates request ⟨some coverage, observations⟩)[index]?
            = some value →
          value ≠ JsNumber.nan →
            (buildAlternativeDataColumn (earlier ++ dates) request
              ⟨some coverage, observations⟩)[earlier.length + index]? = some value

/-- **A disclosure column reports its windows**, whatever the order of the observations and however
many sessions the frame holds before them. -/
theorem reportsWindows_buildAlternativeDataColumn {dates : List LocalDate}
    (hasc : dates.Pairwise (· < ·)) {request : AlternativeDataColumnRequest}
    (hlookback : 1 ≤ request.lookbackSessions) (coverage : AlternativeDataCoverage)
    (observations : List (AlternativeDataObservation F)) :
    ReportsWindows dates request coverage observations := by
  have hmax : max 1 request.lookbackSessions = request.lookbackSessions := max_eq_right hlookback
  -- the recount over the observations the frame holds, from which the other parts follow
  have hrecounts : ∀ index, WindowCovered dates coverage request.lookbackSessions index →
      (buildAlternativeDataColumn dates request ⟨some coverage, observations⟩)[index]?
        = some (aggregateObservations request.aggregation
            (windowObservations dates request.lookbackSessions index
              (observations.filter (observedInFrame dates)))) := by
    intro index hcovered
    obtain ⟨value, hvalue, hcounts, -⟩ :=
      getElem?_buildAlternativeDataColumn request coverage observations hasc hcovered.index_lt
    rw [hmax] at hcounts
    rw [hvalue, hcounts hcovered]
  refine ⟨length_buildAlternativeDataColumn _ _ _, fun index hindex hout => ?_, hrecounts,
    fun earlier hlonger index hcovered hwindow => ?_,
    fun earlier hlonger index value hwindow hvalue hnumber => ?_⟩
  · obtain ⟨value, hvalue, -, habsent⟩ :=
      getElem?_buildAlternativeDataColumn request coverage observations hasc hindex
    rw [hmax] at habsent
    rw [hvalue, habsent hout]
  · rw [hrecounts index hcovered,
      windowObservations_observedInFrame hlonger hcovered.index_lt hcovered.1 hwindow]
  · have hindex : index < dates.length := by
      rw [← length_buildAlternativeDataColumn request coverage observations]
      exact (List.getElem?_eq_some_iff.mp hvalue).1
    obtain ⟨value', hvalue', hcounts, habsent⟩ :=
      getElem?_buildAlternativeDataColumn request coverage observations hasc hindex
    obtain rfl := Option.some.inj (hvalue'.symm.trans hvalue)
    rw [hmax] at hcounts habsent
    have hcovered : WindowCovered dates coverage request.lookbackSessions index := by
      by_contra hout
      exact hnumber (habsent hout)
    have hlongIndex : earlier.length + index < (earlier ++ dates).length := by
      rw [List.length_append]
      omega
    obtain ⟨long, hlong, hlongCounts, -⟩ :=
      getElem?_buildAlternativeDataColumn request coverage observations hlonger hlongIndex
    rw [hmax] at hlongCounts
    rw [hlong, hlongCounts (hcovered.append earlier), hcounts hcovered, windowObservations_filter,
      windowObservations_filter]
    congr 2
    exact List.filter_congr fun observation hmem => inWindow_append hlonger hindex hcovered.1
      (hwindow.imp id fun hbetween => hbetween observation hmem)

/-- A disclosure of a Saturday, in a frame of the two sessions after it. -/
def weekendFacts : AlternativeDataFacts ExactNumber :=
  ⟨some ⟨.ofYmd 2026 1 1, .ofYmd 2026 12 31⟩, [⟨.ofYmd 2026 2 28, "A", none⟩]⟩

/-- Its first session is the Monday the frame starts with, and the Monday's count leaves it out. -/
theorem not_recounts_weekend :
    ¬ ∀ (dates : List LocalDate) (request : AlternativeDataColumnRequest)
      (coverage : AlternativeDataCoverage)
      (observations : List (AlternativeDataObservation ExactNumber)),
      dates.Pairwise (· < ·) → 1 ≤ request.lookbackSessions →
        ∀ index, WindowCovered dates coverage request.lookbackSessions index →
          (buildAlternativeDataColumn dates request ⟨some coverage, observations⟩)[index]?
            = some (aggregateObservations request.aggregation
                (windowObservations dates request.lookbackSessions index observations)) := by
  intro hclaim
  have hmonday := hclaim [.ofYmd 2026 3 2, .ofYmd 2026 3 3] ⟨1, .eventCount⟩
    ⟨.ofYmd 2026 1 1, .ofYmd 2026 12 31⟩ weekendFacts.observations (by decide) le_rfl 0
    ⟨le_rfl, .ofYmd 2026 3 2, .ofYmd 2026 3 2, rfl, rfl, by decide, by decide⟩
  revert hmonday
  decide +kernel

/-- The column of that frame with the Friday before it. -/
theorem reportsWindows_sample :
    ReportsWindows [.ofYmd 2026 2 27, .ofYmd 2026 3 2, .ofYmd 2026 3 3] ⟨1, .eventCount⟩
      ⟨.ofYmd 2026 1 1, .ofYmd 2026 12 31⟩ weekendFacts.observations :=
  reportsWindows_buildAlternativeDataColumn (by decide) le_rfl _ _

end FactorSage
