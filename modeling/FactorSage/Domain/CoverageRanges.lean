import FactorSage.Domain.BuyWindows

/-!
# Missing coverage

The part of a requested range of dates that no coverage range holds: the coverage in order of its
starts, and a cursor that moves past each range. What it returns is the exact complement, maximal
and in order (`ExactComplement`), except where the cursor moves past the last day of the year 9999:
the text `addDays` writes there is below every date, so the sweep starts again below the calendar.
That happens exactly when the first range that reaches the end of the request ends on that day
(`missingCoverageRanges_exact_iff`).
-/

namespace FactorSage

open ComparatorSort IntervalUnion

structure DateRange where
  start : LocalDate
  stop : LocalDate
  deriving DecidableEq

/-- A date, or the text `addDays` writes off the calendar's ends. Below every date lies
`-000001-12`, the day before the first; and below that `+010000-01`, the day after the last. -/
abbrev DateText := WithBot (WithBot LocalDate)

/-- A range as it is returned. -/
structure MissingRange where
  start : DateText
  stop : DateText
  deriving DecidableEq

/-- `addDays(date, 1)`. -/
def dayAfter (date : LocalDate) : DateText := (nextCalendarDay date).map WithBot.some

/-- `addDays(date, -1)`, or the text before the calendar. -/
def previousCalendarDay (value : LocalDate) : WithBot LocalDate :=
  if hday : 1 < value.day then
    ((⟨value.year, value.month, value.day - 1, value.year_le, value.month_mem,
      by have := value.day_mem; omega⟩ : LocalDate) : WithBot LocalDate)
  else if hmonth : 1 < value.month then
    ((⟨value.year, value.month - 1, daysInMonth value.year (value.month - 1), value.year_le,
      by have := value.month_mem; omega, ⟨one_le_daysInMonth _ _, le_rfl⟩⟩ :
      LocalDate) : WithBot LocalDate)
  else if hyear : 0 < value.year then
    ((⟨value.year - 1, 12, 31, by have := value.year_le; omega, by omega,
      by simp [daysInMonth]⟩ : LocalDate) : WithBot LocalDate)
  else ⊥

def dayBefore (date : LocalDate) : DateText := (previousCalendarDay date : DateText)

/-- The source throws; a caller's ranges are in order. -/
def assertDateRange (range : DateRange) : Except String Unit :=
  if range.stop < range.start then .error "The from date must not be after the to date" else .ok ()

/-- By start. -/
def compareStarts (left right : DateRange) : ℤ :=
  if left.start < right.start then -1 else if right.start < left.start then 1 else 0

/-- The coverage that meets the request, in order. -/
def relevantCoverage (requested : DateRange) (coverage : List DateRange) : List DateRange :=
  sortBy compareStarts (coverage.filter fun range =>
    requested.start ≤ range.stop && range.start ≤ requested.stop)

/-- The sweep: what is missing so far, and the cursor. -/
structure CoverageSweep where
  missing : List MissingRange
  cursor : DateText
  deriving DecidableEq

/-- One coverage range. -/
def CoverageSweep.cover (sweep : CoverageSweep) (covered : DateRange) : CoverageSweep where
  missing :=
    if sweep.cursor < (covered.start : DateText) then
      sweep.missing ++ [⟨sweep.cursor, dayBefore covered.start⟩]
    else sweep.missing
  cursor := if sweep.cursor ≤ (covered.stop : DateText) then dayAfter covered.stop else sweep.cursor

/-- The loop, which stops once the cursor is behind the request. -/
def CoverageSweep.coverAll (requestedStop : LocalDate) (sweep : CoverageSweep) :
    List DateRange → CoverageSweep
  | [] => sweep
  | covered :: rest =>
    if (requestedStop : DateText) < (sweep.cover covered).cursor then sweep.cover covered
    else (sweep.cover covered).coverAll requestedStop rest

def CoverageSweep.finish (requestedStop : LocalDate) (sweep : CoverageSweep) : List MissingRange :=
  if sweep.cursor ≤ (requestedStop : DateText) then
    sweep.missing ++ [⟨sweep.cursor, requestedStop⟩]
  else sweep.missing

def missingCoverageRanges (requested : DateRange) (coverage : List DateRange) :
    Except String (List MissingRange) := do
  assertDateRange requested
  coverage.forM assertDateRange
  return ((CoverageSweep.coverAll requested.stop ⟨[], requested.start⟩
    (relevantCoverage requested coverage)).finish requested.stop)

/-! ### The calendar -/

/-- No date lies between a date and the day before it; only the first one has none before it. -/
theorem previousCalendarDay_eq (date : LocalDate) :
    (∃ previous : LocalDate, previousCalendarDay date = previous ∧ previous < date
      ∧ ∀ earlier, earlier < date → earlier ≤ previous)
    ∨ previousCalendarDay date = ⊥ ∧ ∀ other, date ≤ other := by
  have hday := date.day_mem
  have hmonth := date.month_mem
  unfold previousCalendarDay
  split
  · next hfirst =>
    refine .inl ⟨_, rfl, ?_, fun earlier hearlier => ?_⟩
    · rw [LocalDate.lt_iff_toKey]
      simp only [LocalDate.toKey]
      omega
    · rw [LocalDate.lt_iff_toKey] at hearlier
      rw [LocalDate.le_iff_toKey]
      simp only [LocalDate.toKey] at hearlier ⊢
      omega
  · next hfirst =>
    -- what comes before the first of a month lies in an earlier month
    have hbefore : ∀ earlier : LocalDate, earlier < date →
        earlier.year < date.year ∨ earlier.year = date.year ∧ earlier.month < date.month := by
      intro earlier hearlier
      have h₁ := earlier.day_mem
      have h₂ := earlier.month_mem
      rw [LocalDate.lt_iff_toKey] at hearlier
      simp only [LocalDate.toKey] at hearlier
      have := earlier.day_le
      omega
    split
    · next hmonths =>
      have hlast := daysInMonth_le date.year (date.month - 1)
      refine .inl ⟨_, rfl, ?_, fun earlier hearlier => ?_⟩
      · rw [LocalDate.lt_iff_toKey]
        simp only [LocalDate.toKey]
        omega
      · have hearlierDay := earlier.day_mem
        have hearlierLe := earlier.day_le
        have hone := one_le_daysInMonth date.year (date.month - 1)
        rw [LocalDate.le_iff_toKey]
        simp only [LocalDate.toKey]
        rcases hbefore earlier hearlier with hyear | ⟨hyear, hmonth'⟩
        · have := earlier.month_mem
          omega
        · by_cases hsame : earlier.month = date.month - 1
          · rw [hyear, hsame] at hearlierDay
            omega
          · omega
    · next hmonths =>
      split
      · next hyears =>
        refine .inl ⟨_, rfl, ?_, fun earlier hearlier => ?_⟩
        · rw [LocalDate.lt_iff_toKey]
          simp only [LocalDate.toKey]
          omega
        · have hearlierLe := earlier.day_le
          have hearlierMonth := earlier.month_mem
          rw [LocalDate.le_iff_toKey]
          simp only [LocalDate.toKey]
          rcases hbefore earlier hearlier with hyear | ⟨hyear, hmonth'⟩ <;> omega
      · next hyears =>
        refine .inr ⟨rfl, fun other => not_lt.mp fun hlt => ?_⟩
        rcases hbefore other hlt with hyear | ⟨hyear, hmonth'⟩
        · omega
        · have := other.month_mem
          omega

/-- The day before a date that has an earlier one. -/
theorem dayBefore_eq {date earlier : LocalDate} (h : earlier < date) :
    ∃ previous : LocalDate, dayBefore date = previous ∧ previous < date
      ∧ ∀ other, other < date ↔ other ≤ previous := by
  rcases previousCalendarDay_eq date with ⟨previous, heq, hlt, hlast⟩ | ⟨-, hfirst⟩
  · refine ⟨previous, by rw [dayBefore, heq], hlt, fun other => ⟨hlast other, fun hle => ?_⟩⟩
    exact hle.trans_lt hlt
  · exact absurd h (not_lt.mpr (hfirst earlier))

/-- The day after a date that is not the last. -/
theorem dayAfter_eq {date : LocalDate} (h : date ≠ lastCalendarDay) :
    ∃ next : LocalDate, dayAfter date = next ∧ date < next
      ∧ ∀ other, date < other ↔ next ≤ other := by
  rcases nextCalendarDay_eq date with ⟨next, heq, hlt, hnext⟩ | ⟨-, hlast⟩
  · refine ⟨next, by rw [dayAfter, heq]; rfl, hlt, fun other => ⟨hnext other, fun hle => ?_⟩⟩
    exact hlt.trans_le hle
  · exact absurd hlast h

theorem dayAfter_last : dayAfter lastCalendarDay = ⊥ := by
  rw [dayAfter, nextCalendarDay_lastCalendarDay]
  rfl

/-! ### The exact complement -/

/-- A date of a range. -/
def DateRange.Holds (range : DateRange) (date : LocalDate) : Prop :=
  range.start ≤ date ∧ date ≤ range.stop

def DateRange.toMissing (range : DateRange) : MissingRange := ⟨range.start, range.stop⟩

/-- The returned ranges are ranges of dates, ascending, disjoint and not adjacent, and hold exactly
the dates of the request that no coverage range holds. -/
def ExactComplement (requested : DateRange) (coverage : List DateRange)
    (missing : List MissingRange) : Prop :=
  ∃ ranges : List DateRange, missing = ranges.map DateRange.toMissing
    ∧ (∀ range ∈ ranges, range.start ≤ range.stop)
    ∧ (ranges.Pairwise fun a b => Gap a.stop b.start)
    ∧ ∀ date, (∃ range ∈ ranges, range.Holds date)
      ↔ requested.Holds date ∧ ∀ covered ∈ coverage, ¬ covered.Holds date

/-- The sweep after some coverage, the cursor on a date: what lies before it is settled. Coverage
comes in order of its starts, and one of those already swept starts behind every range returned
(`passed`): coverage still to come holds no date of a range that was returned. -/
structure Swept (first : LocalDate) (done : List DateRange) (ranges : List DateRange)
    (cursor : LocalDate) : Prop where
  first_le : first ≤ cursor
  in_order : ∀ range ∈ ranges, range.start ≤ range.stop
  apart : ranges.Pairwise fun a b => Gap a.stop b.start
  before : ∀ range ∈ ranges, Gap range.stop cursor
  behind : ∀ covered ∈ done, covered.stop < cursor
  passed : ∀ range ∈ ranges, ∃ covered ∈ done, range.stop < covered.start
  exact : ∀ date, (∃ range ∈ ranges, range.Holds date)
    ↔ first ≤ date ∧ date < cursor ∧ ∀ covered ∈ done, ¬ covered.Holds date

theorem Swept.start (first : LocalDate) : Swept first [] [] first where
  first_le := le_rfl
  in_order := fun _ h => nomatch h
  apart := .nil
  before := fun _ h => nomatch h
  behind := fun _ h => nomatch h
  passed := fun _ h => nomatch h
  exact := fun date => by
    constructor
    · rintro ⟨_, h, -⟩
      exact nomatch h
    · rintro ⟨hge, hlt, -⟩
      exact absurd hge (not_le.mpr hlt)

section Step

variable {first cursor cursor' previous stop : LocalDate} {done ranges : List DateRange}
  {covered : DateRange}

/-- What starts behind everything swept holds no date that was returned. -/
theorem Swept.not_holds (h : Swept first done ranges cursor)
    (hsorted : ∀ c ∈ done, c.start ≤ covered.start) {range : DateRange} (hrange : range ∈ ranges)
    {date : LocalDate} (hdate : range.Holds date) : ¬ covered.Holds date := by
  intro hholds
  obtain ⟨c, hc, hlt⟩ := h.passed range hrange
  have hle : c.start ≤ date := (hsorted c hc).trans hholds.1
  exact absurd (hdate.2.trans_lt hlt) (not_lt.mpr hle)

/-- A range that starts at or before the cursor takes the cursor behind its end, or leaves it
there. -/
theorem Swept.extend (h : Swept first done ranges cursor)
    (hsorted : ∀ c ∈ done, c.start ≤ covered.start) (hstart : covered.start ≤ cursor)
    (hle : cursor ≤ cursor') (hstop : covered.stop < cursor')
    (hnext : ∀ date, cursor ≤ date → date < cursor' → date ≤ covered.stop) :
    Swept first (done ++ [covered]) ranges cursor' where
  first_le := h.first_le.trans hle
  in_order := h.in_order
  apart := h.apart
  before := fun range hrange => (h.before range hrange).mono hle
  behind := by
    intro c hc
    rcases List.mem_append.mp hc with hc | hc
    · exact (h.behind c hc).trans_le hle
    · rw [List.mem_singleton.mp hc]
      exact hstop
  passed := by
    intro range hrange
    obtain ⟨c, hc, hlt⟩ := h.passed range hrange
    exact ⟨c, List.mem_append_left _ hc, hlt⟩
  exact := by
    intro date
    constructor
    · rintro ⟨range, hrange, hdate⟩
      obtain ⟨hfirst, hlt, hnone⟩ := (h.exact date).mp ⟨range, hrange, hdate⟩
      refine ⟨hfirst, hlt.trans_le hle, fun c hc => ?_⟩
      rcases List.mem_append.mp hc with hc | hc
      · exact hnone c hc
      · rw [List.mem_singleton.mp hc]
        exact h.not_holds hsorted hrange hdate
    · rintro ⟨hfirst, hlt, hnone⟩
      have hbefore : date < cursor := by
        by_contra hge
        have hge := not_lt.mp hge
        exact hnone covered (by simp) ⟨hstart.trans hge, hnext date hge hlt⟩
      exact (h.exact date).mpr ⟨hfirst, hbefore, fun c hc => hnone c (List.mem_append_left _ hc)⟩

/-- A range that starts behind the cursor leaves the dates between the two missing. -/
theorem Swept.gap (h : Swept first done ranges cursor) (hvalid : covered.start ≤ covered.stop)
    (hstart : cursor < covered.start) (hprevious : ∀ date, date < covered.start ↔ date ≤ previous)
    (hnext : ∀ date, covered.stop < date ↔ cursor' ≤ date) :
    Swept first (done ++ [covered]) (ranges ++ [⟨cursor, previous⟩]) cursor' := by
  have hlt : covered.stop < cursor' := (hnext cursor').mpr le_rfl
  have hcursor : cursor < cursor' := hstart.trans_le hvalid |>.trans hlt
  have hprev : previous < covered.start := (hprevious previous).mpr le_rfl
  exact {
    first_le := h.first_le.trans hcursor.le
    in_order := by
      intro range hrange
      rcases List.mem_append.mp hrange with hrange | hrange
      · exact h.in_order range hrange
      · rw [List.mem_singleton.mp hrange]
        exact (hprevious cursor).mp hstart
    apart := by
      refine List.pairwise_append.mpr ⟨h.apart, List.pairwise_singleton _ _, ?_⟩
      intro a ha b hb
      rw [List.mem_singleton.mp hb]
      exact h.before a ha
    before := by
      intro range hrange
      rcases List.mem_append.mp hrange with hrange | hrange
      · exact (h.before range hrange).mono hcursor.le
      · rw [List.mem_singleton.mp hrange]
        exact ⟨covered.start, hprev, hvalid.trans_lt hlt⟩
    behind := by
      intro c hc
      rcases List.mem_append.mp hc with hc | hc
      · exact (h.behind c hc).trans hcursor
      · rw [List.mem_singleton.mp hc]
        exact hlt
    passed := by
      intro range hrange
      rcases List.mem_append.mp hrange with hrange | hrange
      · obtain ⟨c, hc, hpassed⟩ := h.passed range hrange
        exact ⟨c, List.mem_append_left _ hc, hpassed⟩
      · rw [List.mem_singleton.mp hrange]
        exact ⟨covered, by simp, hprev⟩
    exact := by
      intro date
      constructor
      · rintro ⟨range, hrange, hdate⟩
        rcases List.mem_append.mp hrange with hrange | hrange
        · obtain ⟨hfirst, hbefore, hnone⟩ := (h.exact date).mp ⟨range, hrange, hdate⟩
          refine ⟨hfirst, hbefore.trans hcursor, fun c hc => ?_⟩
          rcases List.mem_append.mp hc with hc | hc
          · exact hnone c hc
          · rw [List.mem_singleton.mp hc]
            exact fun hholds => absurd (hbefore.trans hstart) (not_lt.mpr hholds.1)
        · rw [List.mem_singleton.mp hrange] at hdate
          have hlow : cursor ≤ date := hdate.1
          have hhigh : date < covered.start := (hprevious date).mpr hdate.2
          refine ⟨h.first_le.trans hlow, (hhigh.trans_le hvalid).trans hlt, fun c hc => ?_⟩
          rcases List.mem_append.mp hc with hc | hc
          · exact fun hholds => absurd (h.behind c hc) (not_lt.mpr (hlow.trans hholds.2))
          · rw [List.mem_singleton.mp hc]
            exact fun hholds => absurd hhigh (not_lt.mpr hholds.1)
      · rintro ⟨hfirst, hbefore, hnone⟩
        rcases lt_or_ge date cursor with hdate | hdate
        · obtain ⟨range, hrange, hholds⟩ := (h.exact date).mpr
            ⟨hfirst, hdate, fun c hc => hnone c (List.mem_append_left _ hc)⟩
          exact ⟨range, List.mem_append_left _ hrange, hholds⟩
        · -- behind the cursor, a date that the new range does not hold lies before its start
          have hstop : date ≤ covered.stop :=
            not_lt.mp fun hlater => absurd ((hnext date).mp hlater) (not_le.mpr hbefore)
          have hhigh : date < covered.start :=
            not_le.mp fun hge => hnone covered (by simp) ⟨hge, hstop⟩
          exact ⟨⟨cursor, previous⟩, by simp, hdate, (hprevious date).mp hhigh⟩ }

/-- **One range of coverage.** Unless it ends on the last day of the calendar. -/
theorem Swept.cover (h : Swept first done ranges cursor) (hvalid : covered.start ≤ covered.stop)
    (hsorted : ∀ c ∈ done, c.start ≤ covered.start) (hlast : covered.stop ≠ lastCalendarDay) :
    ∃ ranges' cursor', Swept first (done ++ [covered]) ranges' cursor'
      ∧ CoverageSweep.cover ⟨ranges.map DateRange.toMissing, cursor⟩ covered
        = ⟨ranges'.map DateRange.toMissing, cursor'⟩
      ∧ ∀ bound, cursor ≤ bound → covered.stop < bound → cursor' ≤ bound := by
  obtain ⟨next, hafter, hlt, hnext⟩ := dayAfter_eq hlast
  have hcoe : ∀ a b : LocalDate, ((a : DateText) ≤ (b : DateText)) ↔ a ≤ b := fun a b => by
    rw [WithBot.coe_le_coe, WithBot.coe_le_coe]
  have hcoelt : ∀ a b : LocalDate, ((a : DateText) < (b : DateText)) ↔ a < b := fun a b => by
    rw [WithBot.coe_lt_coe, WithBot.coe_lt_coe]
  by_cases hstart : cursor < covered.start
  · obtain ⟨previous, hbefore, -, hprevious⟩ := dayBefore_eq hstart
    refine ⟨ranges ++ [⟨cursor, previous⟩], next, h.gap hvalid hstart hprevious hnext, ?_,
      fun bound _ hbound => (hnext bound).mp hbound⟩
    have hle : cursor ≤ covered.stop := hstart.le.trans hvalid
    rw [CoverageSweep.cover, if_pos ((hcoelt _ _).mpr hstart), if_pos ((hcoe _ _).mpr hle), hbefore,
      hafter, List.map_append]
    rfl
  · have hstart' := not_lt.mp hstart
    by_cases hstop : cursor ≤ covered.stop
    · refine ⟨ranges, next, h.extend hsorted hstart' (hstop.trans hlt.le) hlt
        (fun date _ hdate => not_lt.mp fun hlater => ?_), ?_,
        fun bound _ hbound => (hnext bound).mp hbound⟩
      · exact absurd ((hnext date).mp hlater) (not_le.mpr hdate)
      · rw [CoverageSweep.cover, if_neg (mt (hcoelt _ _).mp hstart), if_pos ((hcoe _ _).mpr hstop),
          hafter]
    · refine ⟨ranges, cursor, h.extend hsorted hstart' le_rfl (not_le.mp hstop)
        (fun date hge hlt => absurd hge (not_le.mpr hlt)), ?_, fun bound hbound _ => hbound⟩
      rw [CoverageSweep.cover, if_neg (mt (hcoelt _ _).mp hstart), if_neg (mt (hcoe _ _).mp hstop)]

end Step

section Run

variable {first cursor stop : LocalDate} {done ranges rest : List DateRange}

theorem coverAll_cons (requestedStop : LocalDate) (sweep : CoverageSweep) (covered : DateRange)
    (rest : List DateRange) : sweep.coverAll requestedStop (covered :: rest)
      = if (requestedStop : DateText) < (sweep.cover covered).cursor then sweep.cover covered
        else (sweep.cover covered).coverAll requestedStop rest := rfl

/-- **Coverage that ends before the request does.** The loop goes through all of it. -/
theorem Swept.coverAll (stop : LocalDate) (front : List DateRange) :
    ∀ (done ranges : List DateRange) (cursor : LocalDate), Swept first done ranges cursor →
    cursor ≤ stop → (∀ c ∈ front, c.start ≤ c.stop ∧ c.stop < stop) →
    ((done ++ front).Pairwise fun a b => a.start ≤ b.start) →
    ∃ ranges' cursor', Swept first (done ++ front) ranges' cursor' ∧ cursor' ≤ stop
      ∧ ∀ rest, CoverageSweep.coverAll stop ⟨ranges.map DateRange.toMissing, cursor⟩ (front ++ rest)
        = CoverageSweep.coverAll stop ⟨ranges'.map DateRange.toMissing, cursor'⟩ rest := by
  induction front with
  | nil =>
    intro done ranges cursor h hcursor _ _
    exact ⟨ranges, cursor, by rwa [List.append_nil], hcursor, fun rest => rfl⟩
  | cons covered front ih =>
    intro done ranges cursor h hcursor hfront hsorted
    obtain ⟨hvalid, hstop⟩ := hfront covered List.mem_cons_self
    have hbefore : ∀ c ∈ done, c.start ≤ covered.start := fun c hc =>
      (List.pairwise_append.mp hsorted).2.2 c hc covered List.mem_cons_self
    have hlast : covered.stop ≠ lastCalendarDay :=
      fun heq => absurd (heq ▸ hstop) (not_lt.mpr (le_lastCalendarDay stop))
    obtain ⟨ranges₁, cursor₁, hswept, hcover, hbound⟩ := h.cover hvalid hbefore hlast
    have hle : cursor₁ ≤ stop := hbound stop hcursor hstop
    have hlists : done ++ covered :: front = done ++ [covered] ++ front := by simp
    rw [hlists] at hsorted ⊢
    obtain ⟨ranges', cursor', hdone, hcursor', hrun⟩ := ih (done ++ [covered]) ranges₁ cursor₁
      hswept hle (fun c hc => hfront c (List.mem_cons_of_mem _ hc)) hsorted
    refine ⟨ranges', cursor', hdone, hcursor', fun rest => ?_⟩
    have hgo : ¬ (stop : DateText) < (cursor₁ : DateText) := by
      rw [WithBot.coe_lt_coe, WithBot.coe_lt_coe]
      exact not_lt.mpr hle
    rw [List.cons_append, coverAll_cons, hcover, if_neg hgo]
    exact hrun rest

/-- All coverage swept, the request open: the rest of it is missing. -/
theorem Swept.exact_open (h : Swept first done ranges cursor) (hcursor : cursor ≤ stop) :
    ExactComplement ⟨first, stop⟩ done
      (CoverageSweep.finish stop ⟨ranges.map DateRange.toMissing, cursor⟩) := by
  have hopen : (cursor : DateText) ≤ (stop : DateText) := by
    rw [WithBot.coe_le_coe, WithBot.coe_le_coe]
    exact hcursor
  refine ⟨ranges ++ [⟨cursor, stop⟩], ?_, ?_, ?_, fun date => ?_⟩
  · rw [CoverageSweep.finish, if_pos hopen, List.map_append]
    rfl
  · intro range hrange
    rcases List.mem_append.mp hrange with hrange | hrange
    · exact h.in_order range hrange
    · rw [List.mem_singleton.mp hrange]
      exact hcursor
  · refine List.pairwise_append.mpr ⟨h.apart, List.pairwise_singleton _ _, ?_⟩
    intro a ha b hb
    rw [List.mem_singleton.mp hb]
    exact h.before a ha
  · constructor
    · rintro ⟨range, hrange, hdate⟩
      rcases List.mem_append.mp hrange with hrange | hrange
      · obtain ⟨hfirst, hlt, hnone⟩ := (h.exact date).mp ⟨range, hrange, hdate⟩
        exact ⟨⟨hfirst, hlt.le.trans hcursor⟩, hnone⟩
      · rw [List.mem_singleton.mp hrange] at hdate
        refine ⟨⟨h.first_le.trans hdate.1, hdate.2⟩, fun c hc hholds => ?_⟩
        exact absurd (h.behind c hc) (not_lt.mpr (hdate.1.trans hholds.2))
    · rintro ⟨⟨hfirst, hle⟩, hnone⟩
      rcases lt_or_ge date cursor with hlt | hge
      · obtain ⟨range, hrange, hholds⟩ := (h.exact date).mpr ⟨hfirst, hlt, hnone⟩
        exact ⟨range, List.mem_append_left _ hrange, hholds⟩
      · exact ⟨⟨cursor, stop⟩, by simp, hge, hle⟩

/-- The cursor behind the request: what is still to come holds nothing of what is missing. -/
theorem Swept.exact_closed (h : Swept first done ranges cursor) (hcursor : stop < cursor)
    (hdone : ∀ c ∈ done, c.start ≤ stop) (hrest : ∀ c ∈ done, ∀ r ∈ rest, c.start ≤ r.start) :
    ExactComplement ⟨first, stop⟩ (done ++ rest)
      (CoverageSweep.finish stop ⟨ranges.map DateRange.toMissing, cursor⟩) := by
  have hclosed : ¬ (cursor : DateText) ≤ (stop : DateText) := by
    rw [WithBot.coe_le_coe, WithBot.coe_le_coe]
    exact not_le.mpr hcursor
  refine ⟨ranges, by rw [CoverageSweep.finish, if_neg hclosed], h.in_order, h.apart, fun date => ?_⟩
  constructor
  · rintro ⟨range, hrange, hdate⟩
    obtain ⟨hfirst, -, hnone⟩ := (h.exact date).mp ⟨range, hrange, hdate⟩
    obtain ⟨c, hc, hpassed⟩ := h.passed range hrange
    refine ⟨⟨hfirst, (hdate.2.trans hpassed.le).trans (hdone c hc)⟩, fun r hr => ?_⟩
    rcases List.mem_append.mp hr with hr | hr
    · exact hnone r hr
    · exact h.not_holds (fun d hd => hrest d hd r hr) hrange hdate
  · rintro ⟨⟨hfirst, hle⟩, hnone⟩
    exact (h.exact date).mpr
      ⟨hfirst, hle.trans_lt hcursor, fun c hc => hnone c (List.mem_append_left _ hc)⟩

end Run

/-! ### Off the calendar -/

/-- What is missing stays missing. -/
theorem CoverageSweep.mem_coverAll {entry : MissingRange} {requestedStop : LocalDate}
    (rest : List DateRange) : ∀ sweep : CoverageSweep, entry ∈ sweep.missing →
      entry ∈ (sweep.coverAll requestedStop rest).missing := by
  have hcover : ∀ (sweep : CoverageSweep) (covered : DateRange), entry ∈ sweep.missing →
      entry ∈ (sweep.cover covered).missing := by
    intro sweep covered hentry
    unfold CoverageSweep.cover
    dsimp only
    split
    · exact List.mem_append_left _ hentry
    · exact hentry
  induction rest with
  | nil => exact fun sweep hentry => hentry
  | cons covered rest ih =>
    intro sweep hentry
    rw [coverAll_cons]
    split
    · exact hcover sweep covered hentry
    · exact ih _ (hcover sweep covered hentry)

theorem CoverageSweep.mem_finish {entry : MissingRange} {requestedStop : LocalDate}
    {sweep : CoverageSweep} (hentry : entry ∈ sweep.missing) :
    entry ∈ sweep.finish requestedStop := by
  unfold CoverageSweep.finish
  split
  · exact List.mem_append_left _ hentry
  · exact hentry

/-- With the cursor below the calendar, whatever comes next makes it the start of a range. -/
theorem CoverageSweep.exists_off_calendar (requestedStop : LocalDate)
    (missing : List MissingRange) (rest : List DateRange) :
    ∃ entry ∈ (CoverageSweep.coverAll requestedStop ⟨missing, ⊥⟩ rest).finish requestedStop,
      entry.start = ⊥ := by
  cases rest with
  | nil =>
    refine ⟨⟨⊥, requestedStop⟩, ?_, rfl⟩
    rw [CoverageSweep.coverAll, CoverageSweep.finish, if_pos bot_le]
    simp
  | cons covered rest =>
    refine ⟨⟨⊥, dayBefore covered.start⟩, CoverageSweep.mem_finish ?_, rfl⟩
    have hmem : (⟨⊥, dayBefore covered.start⟩ : MissingRange)
        ∈ (CoverageSweep.cover ⟨missing, ⊥⟩ covered).missing := by
      rw [CoverageSweep.cover, if_pos (WithBot.bot_lt_coe _)]
      simp
    rw [coverAll_cons]
    split
    · exact hmem
    · exact CoverageSweep.mem_coverAll rest _ hmem

theorem not_exactComplement_of_off_calendar {requested : DateRange} {coverage : List DateRange}
    {missing : List MissingRange} (h : ∃ entry ∈ missing, entry.start = ⊥) :
    ¬ ExactComplement requested coverage missing := by
  rintro ⟨ranges, rfl, -⟩
  obtain ⟨entry, hentry, hstart⟩ := h
  obtain ⟨range, -, rfl⟩ := List.mem_map.mp hentry
  exact WithBot.coe_ne_bot hstart

/-! ### The whole request -/

theorem compares_compareStarts : Compares compareStarts DateRange.start := by
  intro a b
  unfold compareStarts
  split
  · next h => simp [h]
  · next h =>
    split
    · simp [h]
    · simp [h]

theorem forM_assertDateRange {coverage : List DateRange}
    (h : ∀ covered ∈ coverage, covered.start ≤ covered.stop) :
    coverage.forM assertDateRange = .ok () := by
  induction coverage with
  | nil => rfl
  | cons covered rest ih =>
    have hvalid : assertDateRange covered = .ok () := by
      rw [assertDateRange, if_neg (not_lt.mpr (h covered List.mem_cons_self))]
    change (assertDateRange covered >>= fun _ => rest.forM assertDateRange) = .ok ()
    rw [hvalid]
    exact ih fun c hc => h c (List.mem_cons_of_mem _ hc)

/-- Coverage that starts within the request, or before it, and holds its last date. -/
def reachesEnd (requested covered : DateRange) : Bool :=
  covered.start ≤ requested.stop && requested.stop ≤ covered.stop

section Whole

variable {requested : DateRange} {coverage : List DateRange}

theorem mem_relevantCoverage {covered : DateRange} :
    covered ∈ relevantCoverage requested coverage
      ↔ covered ∈ coverage ∧ requested.start ≤ covered.stop ∧ covered.start ≤ requested.stop := by
  simp [relevantCoverage, mem_sortBy]

/-- Coverage that does not meet the request holds none of its dates. -/
theorem ExactComplement.of_relevant {missing : List MissingRange}
    (h : ExactComplement requested (relevantCoverage requested coverage) missing) :
    ExactComplement requested coverage missing := by
  obtain ⟨ranges, hmissing, hvalid, happart, hexact⟩ := h
  refine ⟨ranges, hmissing, hvalid, happart, fun date => (hexact date).trans ?_⟩
  refine and_congr_right fun hdate => ⟨fun hnone c hc hholds => ?_, fun hnone c hc => ?_⟩
  · exact hnone c (mem_relevantCoverage.mpr
      ⟨hc, hdate.1.trans hholds.2, hholds.1.trans hdate.2⟩) hholds
  · exact hnone c (mem_relevantCoverage.mp hc).1

/-- Of the coverage that meets the request, the first swept that reaches its end is the first given
of those with the earliest start. -/
theorem firstLeast_reachesEnd (hrequested : requested.start ≤ requested.stop)
    {front rest : List DateRange} {covered : DateRange}
    (hsplit : relevantCoverage requested coverage = front ++ covered :: rest)
    (hcovered : requested.stop ≤ covered.stop) (hfront : ∀ c ∈ front, c.stop < requested.stop) :
    FirstLeast DateRange.start (coverage.filter (reachesEnd requested)) covered := by
  have hmem : covered ∈ relevantCoverage requested coverage := by
    rw [hsplit]
    simp
  have hfirst := firstLeast_of_sortBy (p := reachesEnd requested) compares_compareStarts hsplit
    (by simp [reachesEnd, (mem_relevantCoverage.mp hmem).2.2, hcovered])
    (fun c hc => by simp [reachesEnd, hfront c hc])
  rw [List.filter_filter] at hfirst
  have hsame : (coverage.filter fun c => reachesEnd requested c
      && (decide (requested.start ≤ c.stop) && decide (c.start ≤ requested.stop)))
      = coverage.filter (reachesEnd requested) := by
    refine List.filter_congr fun c _ => ?_
    by_cases hreach : reachesEnd requested c = true
    · have hreach' := hreach
      simp only [reachesEnd, Bool.and_eq_true, decide_eq_true_eq] at hreach'
      simp [hreach, hrequested.trans hreach'.2, hreach'.1]
    · simp [hreach]
  rwa [hsame] at hfirst

/-- The coverage swept, cut before the first range that reaches the end of the request. -/
theorem relevantCoverage_cases (requested : DateRange) (coverage : List DateRange) :
    (∀ c ∈ relevantCoverage requested coverage, c.stop < requested.stop)
    ∨ ∃ front covered rest, relevantCoverage requested coverage = front ++ covered :: rest
      ∧ (∀ c ∈ front, c.stop < requested.stop) ∧ requested.stop ≤ covered.stop := by
  cases hfind : (relevantCoverage requested coverage).find? fun c => requested.stop ≤ c.stop with
  | none =>
    refine .inl fun c hc => not_le.mp ?_
    simpa using List.find?_eq_none.mp hfind c hc
  | some covered =>
    obtain ⟨hcovered, front, rest, hsplit, hfront⟩ := List.find?_eq_some_iff_append.mp hfind
    refine .inr ⟨front, covered, rest, hsplit, fun c hc => not_le.mp ?_, by simpa using hcovered⟩
    simpa using hfront c hc

/-- **The exact complement.** It is returned exactly when the first range by start, among the
coverage that reaches the end of the request, does not end on the last day of the calendar. -/
theorem missingCoverageRanges_exact_iff (requested : DateRange) (coverage : List DateRange)
    (hrequested : requested.start ≤ requested.stop)
    (hcoverage : ∀ covered ∈ coverage, covered.start ≤ covered.stop) :
    (∃ missing, missingCoverageRanges requested coverage = .ok missing
      ∧ ExactComplement requested coverage missing)
    ↔ ∀ covered, FirstLeast DateRange.start (coverage.filter (reachesEnd requested)) covered →
        covered.stop ≠ lastCalendarDay := by
  have hrun : missingCoverageRanges requested coverage
      = .ok ((CoverageSweep.coverAll requested.stop ⟨[], requested.start⟩
        (relevantCoverage requested coverage)).finish requested.stop) := by
    rw [missingCoverageRanges, assertDateRange, if_neg (not_lt.mpr hrequested),
      forM_assertDateRange hcoverage]
    rfl
  have hsorted : (relevantCoverage requested coverage).Pairwise fun a b => a.start ≤ b.start :=
    compares_compareStarts.pairwise_sortBy _
  have hvalid : ∀ c ∈ relevantCoverage requested coverage, c.start ≤ c.stop :=
    fun c hc => hcoverage c (mem_relevantCoverage.mp hc).1
  have hswept := Swept.start requested.start
  rw [hrun]
  rcases relevantCoverage_cases requested coverage with hshort | ⟨front, covered, rest, hsplit,
    hfront, hcovered⟩
  · -- nothing reaches the end: the sweep ends before it, and the rest is missing
    obtain ⟨ranges, cursor, hdone, hcursor, hall⟩ := Swept.coverAll requested.stop
      (relevantCoverage requested coverage) [] [] requested.start hswept
      hrequested (fun c hc => ⟨hvalid c hc, hshort c hc⟩) (by rwa [List.nil_append])
    have hall := hall []
    rw [List.append_nil] at hall
    refine iff_of_true ⟨_, rfl, ExactComplement.of_relevant ?_⟩ fun c hfirst => ?_
    · rw [List.map_nil] at hall
      rw [hall]
      exact hdone.exact_open hcursor
    · obtain ⟨hc, hreach⟩ := List.mem_filter.mp hfirst.mem
      simp only [reachesEnd, Bool.and_eq_true, decide_eq_true_eq] at hreach
      have hmem := mem_relevantCoverage.mpr ⟨hc, hrequested.trans hreach.2, hreach.1⟩
      exact absurd (hshort c hmem) (not_lt.mpr hreach.2)
  · have hfirst := firstLeast_reachesEnd hrequested hsplit hcovered hfront
    rw [hsplit] at hsorted hvalid
    obtain ⟨hsortedFront, hsortedRest, hcross⟩ := List.pairwise_append.mp hsorted
    obtain ⟨ranges, cursor, hdone, hcursor, hall⟩ := Swept.coverAll requested.stop
      front [] [] requested.start hswept hrequested
      (fun c hc => ⟨hvalid c (List.mem_append_left _ hc), hfront c hc⟩)
      (by rwa [List.nil_append])
    have hall := hall (covered :: rest)
    rw [List.map_nil] at hall
    rw [hsplit, hall, coverAll_cons]
    by_cases hlast : covered.stop = lastCalendarDay
    · -- the cursor goes below the calendar, and the text there starts a returned range
      refine iff_of_false ?_ (fun h => h covered hfirst hlast)
      rintro ⟨missing, hok, hexact⟩
      have hcover :
          (CoverageSweep.cover ⟨ranges.map DateRange.toMissing, cursor⟩ covered).cursor = ⊥ := by
        have hle : (cursor : DateText) ≤ (covered.stop : DateText) := by
          rw [WithBot.coe_le_coe, WithBot.coe_le_coe]
          exact hcursor.trans hcovered
        rw [CoverageSweep.cover]
        dsimp only
        rw [if_pos hle, hlast, dayAfter_last]
      rw [hcover, if_neg not_lt_bot] at hok
      refine not_exactComplement_of_off_calendar ?_ hexact
      rw [← Except.ok.inj hok, ← hcover]
      have hoff := CoverageSweep.exists_off_calendar requested.stop
        (CoverageSweep.cover ⟨ranges.map DateRange.toMissing, cursor⟩ covered).missing rest
      rw [← hcover] at hoff
      exact hoff
    · obtain ⟨ranges', cursor', hdone', hcover, -⟩ := hdone.cover
        (hvalid covered (by simp)) (fun c hc => hcross c hc covered List.mem_cons_self) hlast
      have hbehind : requested.stop < cursor' :=
        hcovered.trans_lt (hdone'.behind covered (by simp))
      have hstop : (requested.stop : DateText) < (cursor' : DateText) := by
        rw [WithBot.coe_lt_coe, WithBot.coe_lt_coe]
        exact hbehind
      rw [hcover, if_pos hstop]
      refine iff_of_true ⟨_, rfl, ExactComplement.of_relevant ?_⟩ fun c hc => ?_
      · have hlists : relevantCoverage requested coverage = [] ++ front ++ [covered] ++ rest := by
          rw [hsplit]
          simp
        rw [hlists]
        refine hdone'.exact_closed hbehind (fun c hc => ?_) (fun c hc r hr => ?_)
        · exact (mem_relevantCoverage.mp (hlists ▸ List.mem_append_left _ hc)).2.2
        · rcases List.mem_append.mp hc with hc | hc
          · exact hcross c hc r (List.mem_cons_of_mem _ hr)
          · rw [List.mem_singleton.mp hc]
            exact (List.pairwise_cons.mp hsortedRest).1 r hr
      · rw [← hfirst.unique hc]
        exact hlast

end Whole

/-- A month of which two stretches are stored, one of them twice, and the last one beyond its
end. -/
theorem missingCoverageRanges_exact_january :
    ∃ missing, missingCoverageRanges ⟨.ofYmd 2024 1 3, .ofYmd 2024 1 31⟩
        [⟨.ofYmd 2024 1 25, .ofYmd 2024 2 10⟩, ⟨.ofYmd 2024 1 1, .ofYmd 2024 1 9⟩,
          ⟨.ofYmd 2024 1 5, .ofYmd 2024 1 7⟩] = .ok missing
      ∧ ExactComplement ⟨.ofYmd 2024 1 3, .ofYmd 2024 1 31⟩
        [⟨.ofYmd 2024 1 25, .ofYmd 2024 2 10⟩, ⟨.ofYmd 2024 1 1, .ofYmd 2024 1 9⟩,
          ⟨.ofYmd 2024 1 5, .ofYmd 2024 1 7⟩] missing := by
  have hends : ∀ covered ∈ ([⟨.ofYmd 2024 1 25, .ofYmd 2024 2 10⟩,
      ⟨.ofYmd 2024 1 1, .ofYmd 2024 1 9⟩, ⟨.ofYmd 2024 1 5, .ofYmd 2024 1 7⟩] : List DateRange),
      covered.stop ≠ lastCalendarDay := by decide
  exact (missingCoverageRanges_exact_iff _ _ (by decide) (by decide)).mpr fun covered hfirst =>
    hends covered (List.mem_filter.mp hfirst.mem).1

/-- Coverage through the last day of the calendar: the day after it is written `+010000-01`, and
the whole request is returned from there. -/
theorem missingCoverageRanges_last_day :
    ¬ ∃ missing, missingCoverageRanges ⟨.ofYmd 2020 1 1, .ofYmd 2024 12 31⟩
        [⟨.ofYmd 2020 1 1, .ofYmd 9999 12 31⟩] = .ok missing
      ∧ ExactComplement ⟨.ofYmd 2020 1 1, .ofYmd 2024 12 31⟩
        [⟨.ofYmd 2020 1 1, .ofYmd 9999 12 31⟩] missing := by
  rintro ⟨missing, hok, hexact⟩
  have hreturned : missingCoverageRanges ⟨.ofYmd 2020 1 1, .ofYmd 2024 12 31⟩
      [⟨.ofYmd 2020 1 1, .ofYmd 9999 12 31⟩]
      = .ok [⟨⊥, (LocalDate.ofYmd 2024 12 31 : DateText)⟩] := by
    decide +kernel
  rw [hreturned] at hok
  rw [← Except.ok.inj hok] at hexact
  exact not_exactComplement_of_off_calendar ⟨_, List.mem_cons_self, rfl⟩ hexact

end FactorSage
