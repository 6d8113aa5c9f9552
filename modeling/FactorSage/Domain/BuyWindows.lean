import FactorSage.Domain.StockLists
import FactorSage.Library.IntervalUnion
import Mathlib.Data.Prod.Lex

/-!
# The canonical form of a set of buy windows

A range is a closed interval of dates, with one point beyond the calendar that exactly the
open-ended ranges reach. `normalizeBuyWindowRanges` is then the sweep of `IntervalUnion` over the
ranges in order, and what it needs of the calendar is that the day after a date is the next one
(`nextCalendarDay_eq`).

The last day of the year 9999 has no day after it. A range that ends on it joins nothing that
follows, so the sweep leaves the two apart although they overlap: the normal form is canonical
exactly when nothing follows such a range (`LastDayLast`).
-/

namespace FactorSage

open IntervalUnion ComparatorSort

/-! ### The day after -/

/-- `9999-12-31`. -/
def lastCalendarDay : LocalDate := .ofYmd 9999 12 31

theorem le_lastCalendarDay (date : LocalDate) : date ≤ lastCalendarDay := by
  have hday := date.day_le
  have hmonth := date.month_mem
  have hyear := date.year_le
  rw [LocalDate.le_iff_toKey]
  simp only [LocalDate.toKey, lastCalendarDay, LocalDate.ofYmd]
  omega

/-- After the last day of a month comes another month. -/
theorem LocalDate.month_lt_of_lt {a b : LocalDate} (h : a < b)
    (hend : daysInMonth a.year a.month ≤ a.day) :
    a.year < b.year ∨ a.year = b.year ∧ a.month < b.month := by
  have ha := a.month_mem
  have hb := b.month_mem
  have hday := b.day_le
  have hlast := b.day_mem.2
  rw [lt_iff_toKey] at h
  simp only [toKey] at h
  by_contra hno
  have hyear : b.year = a.year := by omega
  have hmonth : b.month = a.month := by omega
  rw [hyear, hmonth] at hlast
  omega

/-- No date lies between a date and its next day; only the last one has no next day. -/
theorem nextCalendarDay_eq (date : LocalDate) :
    (∃ next : LocalDate, nextCalendarDay date = next ∧ date < next
      ∧ ∀ later, date < later → next ≤ later)
    ∨ nextCalendarDay date = ⊥ ∧ date = lastCalendarDay := by
  have hdays := date.day_mem
  have hmonths := date.month_mem
  have hlast := date.day_le
  -- the next day of the month, the first of the next month, of the next year, or none
  unfold nextCalendarDay
  split
  · next hday =>
    refine .inl ⟨_, rfl, ?_, fun later hlater => ?_⟩
    · rw [LocalDate.lt_iff_toKey]
      simp only [LocalDate.toKey]
      omega
    · rw [LocalDate.lt_iff_toKey] at hlater
      rw [LocalDate.le_iff_toKey]
      simp only [LocalDate.toKey] at hlater ⊢
      omega
  · next hday =>
    split
    · next hmonth =>
      refine .inl ⟨_, rfl, ?_, fun later hlater => ?_⟩
      · rw [LocalDate.lt_iff_toKey]
        simp only [LocalDate.toKey]
        omega
      · have hafter := LocalDate.month_lt_of_lt hlater (not_lt.mp hday)
        have hmonths := later.month_mem
        have hfirst := later.day_mem.1
        rw [LocalDate.le_iff_toKey]
        simp only [LocalDate.toKey]
        omega
    · next hmonth =>
      split
      · next hyear =>
        refine .inl ⟨_, rfl, ?_, fun later hlater => ?_⟩
        · rw [LocalDate.lt_iff_toKey]
          simp only [LocalDate.toKey]
          omega
        · have hafter := LocalDate.month_lt_of_lt hlater (not_lt.mp hday)
          have hmonths := later.month_mem
          have hfirst := later.day_mem.1
          rw [LocalDate.le_iff_toKey]
          simp only [LocalDate.toKey]
          omega
      · next hyear =>
        refine .inr ⟨rfl, le_antisymm (le_lastCalendarDay date) (not_lt.mp fun hlt => ?_)⟩
        have hafter := LocalDate.month_lt_of_lt hlt (not_lt.mp hday)
        have hend := lastCalendarDay.month_mem
        have hyears := lastCalendarDay.year_le
        omega

theorem nextCalendarDay_lastCalendarDay : nextCalendarDay lastCalendarDay = ⊥ := by
  rcases nextCalendarDay_eq lastCalendarDay with ⟨next, -, hlt, -⟩ | ⟨hbot, -⟩
  · exact absurd hlt (not_lt.mpr (le_lastCalendarDay next))
  · exact hbot

/-! ### Ranges as intervals -/

namespace BuyWindowRange

/-- The end of a range; an open-ended one reaches beyond the calendar. -/
def finish (range : BuyWindowRange) : WithTop LocalDate :=
  match range.endDate with
  | none => ⊤
  | some endDate => endDate

/-- What `assertValidRange` asks. -/
def IsValid (range : BuyWindowRange) : Prop := (range.startDate : WithTop LocalDate) ≤ range.finish

/-- The points of a range. -/
def interval (range : BuyWindowRange) : NonemptyInterval (WithTop LocalDate) :=
  ⟨(range.startDate, range.startDate ⊔ range.finish), le_sup_left⟩

variable {range other : BuyWindowRange}

@[simp] theorem fst_interval (range : BuyWindowRange) :
    range.interval.fst = (range.startDate : WithTop LocalDate) := rfl

theorem IsValid.snd_interval (h : range.IsValid) : range.interval.snd = range.finish :=
  sup_eq_right.mpr h

theorem finish_injective {a b : Option LocalDate} {start : LocalDate}
    (h : (BuyWindowRange.mk start a).finish = (BuyWindowRange.mk start b).finish) : a = b := by
  cases a <;> cases b
  · rfl
  · cases h
  · cases h
  · exact congrArg some (WithTop.coe_injective h)

theorem IsValid.interval_inj (h : range.IsValid) (h' : other.IsValid)
    (heq : range.interval = other.interval) : range = other := by
  have hfst : range.interval.fst = other.interval.fst := by rw [heq]
  have hsnd : range.interval.snd = other.interval.snd := by rw [heq]
  rw [h.snd_interval, h'.snd_interval] at hsnd
  obtain ⟨start, finish⟩ := range
  obtain ⟨start', finish'⟩ := other
  obtain rfl : start = start' := WithTop.coe_injective hfst
  rw [finish_injective hsnd]

end BuyWindowRange

/-! ### The sweep -/

/-- The sweep joins a range to the one before it: that one is open-ended, or ends no earlier than
the day before. -/
def Touches (finish start : WithTop LocalDate) : Prop :=
  finish = ⊤ ∨ ∃ endDate startDate : LocalDate, finish = endDate ∧ start = startDate
    ∧ (startDate : WithBot LocalDate) ≤ nextCalendarDay endDate

noncomputable instance : DecidableRel Touches := Classical.decRel _

theorem touches_coe {endDate startDate : LocalDate} :
    Touches endDate startDate ↔ (startDate : WithBot LocalDate) ≤ nextCalendarDay endDate := by
  constructor
  · rintro (htop | ⟨e, s, he, hs, hle⟩)
    · cases htop
    · rw [WithTop.coe_injective he, WithTop.coe_injective hs]
      exact hle
  · intro hle
    exact .inr ⟨endDate, startDate, rfl, rfl, hle⟩

/-- Two dates with no date between them. -/
theorem coe_le_nextCalendarDay_iff {endDate startDate : LocalDate}
    (hlast : endDate ≠ lastCalendarDay) :
    (startDate : WithBot LocalDate) ≤ nextCalendarDay endDate
      ↔ ¬ Gap (endDate : WithTop LocalDate) startDate := by
  rcases nextCalendarDay_eq endDate with ⟨next, heq, hlt, hnext⟩ | ⟨-, hno⟩
  · rw [heq, WithBot.coe_le_coe]
    constructor
    · rintro hle ⟨x, hafter, hbefore⟩
      obtain ⟨date, rfl⟩ := WithTop.ne_top_iff_exists.mp (ne_top_of_lt hbefore)
      have hdate := hnext date (WithTop.coe_lt_coe.mp hafter)
      exact absurd (WithTop.coe_lt_coe.mp hbefore) (not_lt.mpr (hle.trans hdate))
    · intro hgap
      by_contra hlater
      exact hgap ⟨next, WithTop.coe_lt_coe.mpr hlt, WithTop.coe_lt_coe.mpr (not_le.mp hlater)⟩
  · exact absurd hno hlast

theorem not_touches_lastCalendarDay (startDate : LocalDate) :
    ¬ Touches lastCalendarDay startDate := by
  rw [touches_coe, nextCalendarDay_lastCalendarDay]
  exact WithBot.not_coe_le_bot startDate

theorem not_gap_of_touches (a b : WithTop LocalDate) (h : Touches a b) : ¬ Gap a b := by
  rcases h with rfl | ⟨e, s, rfl, rfl, hle⟩
  · exact fun hgap => not_top_lt hgap.lt
  · by_cases hlast : e = lastCalendarDay
    · subst hlast
      exact absurd (touches_coe.mpr hle) (not_touches_lastCalendarDay s)
    · exact (coe_le_nextCalendarDay_iff hlast).mp hle

section MergeRange

variable {previous range : BuyWindowRange}

/-- **One range of the sweep**: it joins the most recently merged one, or follows it. -/
theorem mergeRange_concat (done : List BuyWindowRange) (hprevious : previous.IsValid) (hrange : range.IsValid)
    (hle : previous.startDate ≤ range.startDate) :
    (Touches previous.interval.snd range.interval.fst
      ∧ ∃ merged, mergeRange (done ++ [previous]) range = done ++ [merged] ∧ merged.IsValid
        ∧ merged.interval = previous.interval ⊔ range.interval)
    ∨ ¬ Touches previous.interval.snd range.interval.fst
      ∧ mergeRange (done ++ [previous]) range = done ++ [previous] ++ [range] := by
  have hfst : (previous.interval ⊔ range.interval).fst = previous.interval.fst :=
    fst_sup_of_le (WithTop.coe_le_coe.mpr hle)
  unfold mergeRange
  rw [List.getLast?_concat, hprevious.snd_interval, BuyWindowRange.fst_interval]
  obtain ⟨start, previousEnd⟩ := previous
  cases previousEnd with
  | none =>
    -- an open-ended range absorbs everything after it
    refine .inl ⟨.inl rfl, _, rfl, hprevious, NonemptyInterval.ext (Prod.ext hfst.symm ?_)⟩
    rw [NonemptyInterval.snd_sup, hprevious.snd_interval]
    exact (top_sup_eq _).symm
  | some previousEnd =>
    change (Touches (previousEnd : WithTop LocalDate) range.startDate ∧ _)
      ∨ ¬ Touches (previousEnd : WithTop LocalDate) range.startDate ∧ _
    rw [touches_coe]
    dsimp only
    by_cases htouches : (range.startDate : WithBot LocalDate) ≤ nextCalendarDay previousEnd
    · refine .inl ⟨htouches, ?_⟩
      rw [if_pos htouches]
      split
      · next hlonger =>
        have hfinish : (previousEnd : WithTop LocalDate) ≤ range.finish := by
          unfold BuyWindowRange.finish
          cases hend : range.endDate with
          | none => exact le_top
          | some endDate =>
            rw [hend] at hlonger
            exact WithTop.coe_le_coe.mpr (of_decide_eq_true hlonger).le
        have hvalid : (BuyWindowRange.mk start range.endDate).IsValid :=
          (WithTop.coe_le_coe.mpr hle).trans hrange
        refine ⟨_, by rw [List.dropLast_concat], hvalid,
          NonemptyInterval.ext (Prod.ext hfst.symm ?_)⟩
        rw [NonemptyInterval.snd_sup, hvalid.snd_interval, hprevious.snd_interval,
          hrange.snd_interval]
        exact (sup_eq_right.mpr hfinish).symm
      · next hshorter =>
        have hfinish : range.finish ≤ (previousEnd : WithTop LocalDate) := by
          unfold BuyWindowRange.finish
          cases hend : range.endDate with
          | none =>
            rw [hend] at hshorter
            exact absurd rfl hshorter
          | some endDate =>
            rw [hend] at hshorter
            exact WithTop.coe_le_coe.mpr (not_lt.mp fun hlt => hshorter (decide_eq_true hlt))
        refine ⟨_, rfl, hprevious, NonemptyInterval.ext (Prod.ext hfst.symm ?_)⟩
        rw [NonemptyInterval.snd_sup, hprevious.snd_interval, hrange.snd_interval]
        exact (sup_eq_left.mpr hfinish).symm
    · exact .inr ⟨htouches, by rw [if_neg htouches]⟩

/-- **The fold over ranges in order is the sweep over their intervals.** -/
theorem foldl_mergeRange (done : List BuyWindowRange) {rest : List BuyWindowRange}
    (hprevious : previous.IsValid)
    (hrest : ∀ range ∈ rest, range.IsValid)
    (hascends : (previous :: rest).Pairwise fun a b => a.startDate ≤ b.startDate) :
    ∃ merged, rest.foldl mergeRange (done ++ [previous]) = done ++ merged
      ∧ (∀ range ∈ merged, range.IsValid)
      ∧ merged.map BuyWindowRange.interval
        = sweep Touches previous.interval (rest.map BuyWindowRange.interval) := by
  induction rest generalizing done previous with
  | nil =>
    refine ⟨[previous], rfl, fun range hrange => ?_, rfl⟩
    rw [List.mem_singleton.mp hrange]
    exact hprevious
  | cons range rest ih =>
    obtain ⟨hfirst, hlater⟩ := List.pairwise_cons.mp hascends
    have hrange := hrest range List.mem_cons_self
    have hvalid := fun r hr => hrest r (List.mem_cons_of_mem _ hr)
    have hle := hfirst range List.mem_cons_self
    rw [List.foldl_cons, List.map_cons, sweep]
    rcases mergeRange_concat done hprevious hrange hle with
      ⟨htouches, joined, heq, hjoined, hinterval⟩ | ⟨hapart, heq⟩
    · have hstart : joined.startDate = previous.startDate := by
        have hfst : joined.interval.fst = previous.interval.fst := by
          rw [hinterval]
          exact fst_sup_of_le (WithTop.coe_le_coe.mpr hle)
        exact WithTop.coe_injective hfst
      rw [if_pos htouches, heq, ← hinterval]
      refine ih done hjoined hvalid (List.pairwise_cons.mpr ⟨fun r hr => ?_,
        (List.pairwise_cons.mp hlater).2⟩)
      rw [hstart]
      exact hfirst r (List.mem_cons_of_mem _ hr)
    · rw [if_neg hapart, heq]
      obtain ⟨merged, hfold, hmerged, hmap⟩ := ih (done ++ [previous]) hrange hvalid hlater
      refine ⟨previous :: merged, ?_, ?_, ?_⟩
      · rw [hfold, List.append_assoc, List.singleton_append]
      · intro r hr
        rcases List.mem_cons.mp hr with rfl | hr
        · exact hprevious
        · exact hmerged r hr
      · rw [List.map_cons, hmap]

end MergeRange

/-! ### The order of the sweep -/

/-- What `compareRanges` compares: the start, then the end, latest first. -/
def sweepKey (range : BuyWindowRange) : LocalDate ×ₗ (WithTop LocalDate)ᵒᵈ :=
  toLex (range.startDate, OrderDual.toDual range.finish)

variable {a b : BuyWindowRange}

theorem sweepKey_lt_iff :
    sweepKey a < sweepKey b
      ↔ a.startDate < b.startDate ∨ a.startDate = b.startDate ∧ b.finish < a.finish := by
  unfold sweepKey
  rw [Prod.Lex.toLex_lt_toLex, OrderDual.toDual_lt_toDual]

theorem sweepKey_le_iff :
    sweepKey a ≤ sweepKey b
      ↔ a.startDate < b.startDate ∨ a.startDate = b.startDate ∧ b.finish ≤ a.finish := by
  unfold sweepKey
  rw [Prod.Lex.toLex_le_toLex, OrderDual.toDual_le_toDual]

theorem startDate_le_of_sweepKey_le (h : sweepKey a ≤ sweepKey b) :
    a.startDate ≤ b.startDate := by
  rcases sweepKey_le_iff.mp h with hlt | ⟨heq, -⟩
  · exact hlt.le
  · exact heq.le

theorem compares_compareRanges : Compares compareRanges sweepKey := by
  intro a b
  rw [sweepKey_lt_iff]
  obtain ⟨start, finish⟩ := a
  obtain ⟨start', finish'⟩ := b
  unfold compareRanges BuyWindowRange.finish
  by_cases hstart : start = start'
  · subst hstart
    cases finish with
    | none => cases finish' <;> simp
    | some e =>
      cases finish' with
      | none => simp
      | some e' =>
        rcases lt_trichotomy e e' with hlt | rfl | hgt
        · simp [hlt, not_lt.mpr hlt.le]
        · simp
        · simp [hgt]
  · rcases lt_or_gt_of_ne hstart with hlt | hgt
    · simp [hstart, hlt]
    · simp [hstart, not_lt.mpr hgt.le]

/-! ### The last day -/

/-- Nothing follows a range that ends on the last day of the calendar: an open-ended range comes
before it, or every other range starts earlier. -/
def LastDayLast (ranges : List BuyWindowRange) : Prop :=
  ∀ range ∈ ranges, range.endDate = some lastCalendarDay →
    (∃ other ∈ ranges, other.endDate = none ∧ other.startDate ≤ range.startDate)
      ∨ ∀ other ∈ ranges.erase range, other.startDate < range.startDate

theorem LastDayLast.perm {ranges others : List BuyWindowRange} (h : LastDayLast ranges)
    (hperm : ranges.Perm others) : LastDayLast others := by
  intro range hrange hlast
  rcases h range (hperm.mem_iff.mpr hrange) hlast with ⟨other, hother, hopen⟩ | hearlier
  · exact .inl ⟨other, hperm.mem_iff.mp hother, hopen⟩
  · exact .inr fun other hother => hearlier other ((hperm.erase range).mem_iff.mpr hother)

/-- The same of ranges in the order of the sweep. -/
def EndsWithLastDay : List BuyWindowRange → Prop
  | [] => True
  | range :: rest =>
    range.endDate = none ∨ if range.endDate = some lastCalendarDay then rest = []
      else EndsWithLastDay rest

theorem finish_of_none {range : BuyWindowRange} (h : range.endDate = none) : range.finish = ⊤ := by
  rw [BuyWindowRange.finish, h]

theorem finish_of_some {range : BuyWindowRange} {endDate : LocalDate}
    (h : range.endDate = some endDate) : range.finish = endDate := by
  rw [BuyWindowRange.finish, h]

/-- A bounded range that does not end on the last day ends before it. -/
theorem finish_lt_last {range : BuyWindowRange} (hopen : range.endDate ≠ none)
    (hlast : range.endDate ≠ some lastCalendarDay) : range.finish < (lastCalendarDay : LocalDate) := by
  obtain ⟨endDate, hend⟩ := Option.ne_none_iff_exists'.mp hopen
  rw [finish_of_some hend, WithTop.coe_lt_coe]
  rw [hend] at hlast
  exact lt_of_le_of_ne (le_lastCalendarDay endDate) fun heq => hlast (congrArg some heq)

section LastDayLast

variable {range : BuyWindowRange} {rest : List BuyWindowRange}
  (hfirst : ∀ other ∈ rest, sweepKey range ≤ sweepKey other)

include hfirst in
theorem lastDayLast_cons_of_last (hlast : range.endDate = some lastCalendarDay) :
    LastDayLast (range :: rest) ↔ rest = [] := by
  constructor
  · intro h
    rcases h range List.mem_cons_self hlast with ⟨other, hother, hopen, hle⟩ | hearlier
    · -- an open-ended range of the same start would come first
      rcases List.mem_cons.mp hother with rfl | hother
      · rw [hopen] at hlast
        cases hlast
      · rcases sweepKey_le_iff.mp (hfirst other hother) with hlt | ⟨-, hfinish⟩
        · exact absurd hle (not_le.mpr hlt)
        · rw [finish_of_none hopen, finish_of_some hlast, top_le_iff] at hfinish
          cases hfinish
    · rw [List.erase_cons_head] at hearlier
      refine List.eq_nil_iff_forall_not_mem.mpr fun other hother => ?_
      exact absurd (hearlier other hother)
        (not_lt.mpr (startDate_le_of_sweepKey_le (hfirst other hother)))
  · rintro rfl other hother -
    rw [List.mem_singleton.mp hother, List.erase_cons_head]
    exact .inr fun _ hno => by cases hno

include hfirst in
theorem lastDayLast_cons_of_before (hopen : range.endDate ≠ none)
    (hlast : range.endDate ≠ some lastCalendarDay) :
    LastDayLast (range :: rest) ↔ LastDayLast rest := by
  have hne : ∀ other : BuyWindowRange, other.endDate = some lastCalendarDay → range ≠ other := by
    rintro other hother rfl
    exact hlast hother
  constructor
  · intro h other hother hotherLast
    rcases h other (List.mem_cons_of_mem _ hother) hotherLast with ⟨o, ho, hnone, hle⟩ | hearlier
    · rcases List.mem_cons.mp ho with rfl | ho
      · exact absurd hnone hopen
      · exact .inl ⟨o, ho, hnone, hle⟩
    · refine .inr fun o ho => hearlier o ?_
      rw [List.erase_cons_tail (by simpa using hne other hotherLast)]
      exact List.mem_cons_of_mem _ ho
  · intro h other hother hotherLast
    have hotherRest : other ∈ rest := by
      rcases List.mem_cons.mp hother with heq | hother
      · exact absurd heq.symm (hne other hotherLast)
      · exact hother
    rcases h other hotherRest hotherLast with ⟨o, ho, hnone, hle⟩ | hearlier
    · exact .inl ⟨o, List.mem_cons_of_mem _ ho, hnone, hle⟩
    · refine .inr fun o ho => ?_
      rw [List.erase_cons_tail (by simpa using hne other hotherLast)] at ho
      rcases List.mem_cons.mp ho with rfl | ho
      · -- of equal starts the longer comes first
        rcases sweepKey_le_iff.mp (hfirst other hotherRest) with hlt | ⟨-, hfinish⟩
        · exact hlt
        · rw [finish_of_some hotherLast] at hfinish
          exact absurd (finish_lt_last hopen hlast) (not_lt.mpr hfinish)
      · exact hearlier o ho

end LastDayLast

variable {ranges : List BuyWindowRange}

theorem lastDayLast_iff (h : ranges.Pairwise fun a b => sweepKey a ≤ sweepKey b) :
    LastDayLast ranges ↔ EndsWithLastDay ranges := by
  induction ranges with
  | nil => exact iff_of_true (fun range hrange => by cases hrange) trivial
  | cons range rest ih =>
    obtain ⟨hfirst, hrest⟩ := List.pairwise_cons.mp h
    unfold EndsWithLastDay
    by_cases hopen : range.endDate = none
    · -- an open-ended first range comes before every other
      refine iff_of_true (fun other hother hlast => .inl ⟨range, List.mem_cons_self, hopen, ?_⟩)
        (.inl hopen)
      rcases List.mem_cons.mp hother with rfl | hother
      · exact le_rfl
      · exact startDate_le_of_sweepKey_le (hfirst other hother)
    · rw [or_iff_right hopen]
      by_cases hlast : range.endDate = some lastCalendarDay
      · rw [if_pos hlast]
        exact lastDayLast_cons_of_last hfirst hlast
      · rw [if_neg hlast, ← ih hrest]
        exact lastDayLast_cons_of_before hfirst hopen hlast

/-! ### Where the sweep keeps gaps -/

section KeepsGaps

variable {previous : NonemptyInterval (WithTop LocalDate)} {rest : List BuyWindowRange}

theorem keepsGaps_of_top (h : previous.snd = ⊤) (rest : List (NonemptyInterval (WithTop LocalDate))) :
    KeepsGaps Touches previous rest := by
  induction rest generalizing previous with
  | nil => trivial
  | cons i rest ih =>
    rw [KeepsGaps, if_pos (.inl h)]
    refine ih ?_
    rw [NonemptyInterval.snd_sup, h, top_sup_eq]

theorem keepsGaps_of_last (h : previous.snd = (lastCalendarDay : LocalDate)) :
    KeepsGaps Touches previous (rest.map BuyWindowRange.interval) ↔ rest = [] := by
  cases rest with
  | nil => exact iff_of_true trivial rfl
  | cons range rest =>
    refine iff_of_false ?_ (List.cons_ne_nil _ _)
    rw [List.map_cons, KeepsGaps, BuyWindowRange.fst_interval, h,
      if_neg (not_touches_lastCalendarDay _)]
    rintro ⟨hgap, -⟩
    exact absurd hgap.lt (not_lt.mpr (WithTop.coe_le_coe.mpr (le_lastCalendarDay range.startDate)))

/-- **The sweep keeps gaps until a range ends on the last day**; if it then goes on it keeps none. -/
theorem keepsGaps_iff (h : previous.snd < (lastCalendarDay : LocalDate))
    (hvalid : ∀ range ∈ rest, range.IsValid) :
    KeepsGaps Touches previous (rest.map BuyWindowRange.interval) ↔ EndsWithLastDay rest := by
  induction rest generalizing previous with
  | nil => exact Iff.rfl
  | cons range rest ih =>
    have hrange := hvalid range List.mem_cons_self
    have hrest := fun r hr => hvalid r (List.mem_cons_of_mem _ hr)
    -- whichever interval is compared next ends as this range does, unless it ends earlier
    have hnext : ∀ next : NonemptyInterval (WithTop LocalDate),
        next.snd = range.finish ∨ next.snd < (lastCalendarDay : LocalDate)
            ∧ range.finish < (lastCalendarDay : LocalDate) →
          (KeepsGaps Touches next (rest.map BuyWindowRange.interval)
            ↔ EndsWithLastDay (range :: rest)) := by
      intro next hsnd
      unfold EndsWithLastDay
      by_cases hopen : range.endDate = none
      · rw [finish_of_none hopen] at hsnd
        rcases hsnd with htop | ⟨-, hno⟩
        · exact iff_of_true (keepsGaps_of_top htop _) (.inl hopen)
        · exact absurd hno not_top_lt
      · rw [or_iff_right hopen]
        by_cases hlast : range.endDate = some lastCalendarDay
        · rw [finish_of_some hlast] at hsnd
          rw [if_pos hlast]
          rcases hsnd with heq | ⟨-, hno⟩
          · exact keepsGaps_of_last heq
          · exact absurd hno (lt_irrefl _)
        · rw [if_neg hlast]
          refine ih ?_ hrest
          rcases hsnd with heq | ⟨hlt, -⟩
          · rw [heq]
            exact finish_lt_last hopen hlast
          · exact hlt
    rw [List.map_cons, KeepsGaps]
    split
    · refine hnext _ ?_
      rw [NonemptyInterval.snd_sup, hrange.snd_interval]
      rcases le_or_gt ((lastCalendarDay : LocalDate) : WithTop LocalDate) range.finish with hle | hlt
      · exact .inl (sup_eq_right.mpr (h.le.trans hle))
      · exact .inr ⟨sup_lt_iff.mpr ⟨h, hlt⟩, hlt⟩
    · next hapart =>
      have hgap : Gap previous.snd range.interval.fst := by
        obtain ⟨endDate, hend⟩ := WithTop.ne_top_iff_exists.mp (ne_top_of_lt h)
        rw [← hend, BuyWindowRange.fst_interval, touches_coe] at hapart
        rw [← hend, WithTop.coe_lt_coe] at h
        rw [coe_le_nextCalendarDay_iff h.ne, not_not] at hapart
        rw [← hend]
        exact hapart
      rw [and_iff_right hgap]
      exact hnext _ (.inl hrange.snd_interval)

end KeepsGaps

/-! ### The normal form -/

/-- Every start is at most its end. -/
def ValidRanges (ranges : List BuyWindowRange) : Prop := ∀ range ∈ ranges, range.IsValid

theorem forM_assertValidRange (h : ValidRanges ranges) :
    ranges.forM assertValidRange = .ok () := by
  induction ranges with
  | nil => rfl
  | cons range rest ih =>
    have hassert : assertValidRange range = .ok () := by
      have hrange := h range List.mem_cons_self
      unfold assertValidRange
      cases hend : range.endDate with
      | none => rfl
      | some endDate =>
        rw [BuyWindowRange.IsValid, finish_of_some hend, WithTop.coe_le_coe] at hrange
        exact if_neg (not_lt.mpr hrange)
    change (assertValidRange range >>= fun _ => rest.forM assertValidRange) = .ok ()
    rw [hassert]
    exact ih fun r hr => h r (List.mem_cons_of_mem _ hr)

/-- The sweep over valid ranges in order. -/
theorem exists_sweep {sorted : List BuyWindowRange}
    (hsorted : sorted.Pairwise fun a b => sweepKey a ≤ sweepKey b) (hvalid : ValidRanges sorted) :
    ∃ merged, sorted.foldl mergeRange [] = merged ∧ ValidRanges merged
      ∧ (∀ x, Covers (merged.map BuyWindowRange.interval) x
        ↔ Covers (sorted.map BuyWindowRange.interval) x)
      ∧ (Separated (merged.map BuyWindowRange.interval) ↔ EndsWithLastDay sorted) := by
  cases sorted with
  | nil => exact ⟨[], rfl, hvalid, fun x => Iff.rfl, iff_of_true List.Pairwise.nil trivial⟩
  | cons range rest =>
    have hrange := hvalid range List.mem_cons_self
    have hrest := fun r hr => hvalid r (List.mem_cons_of_mem _ hr)
    have hstarts : (range :: rest).Pairwise fun a b => a.startDate ≤ b.startDate :=
      hsorted.imp startDate_le_of_sweepKey_le
    have hascends : Ascends (range.interval :: rest.map BuyWindowRange.interval) := by
      rw [← List.map_cons, Ascends, List.pairwise_map]
      exact hstarts.imp fun hle => WithTop.coe_le_coe.mpr hle
    obtain ⟨merged, hfold, hmerged, hmap⟩ := foldl_mergeRange [] hrange hrest hstarts
    refine ⟨merged, hfold, hmerged, fun x => ?_, ?_⟩
    · rw [hmap, covers_sweep not_gap_of_touches hascends, List.map_cons]
    · rw [hmap, separated_sweep_iff hascends]
      -- the first range is compared as if it followed nothing
      unfold EndsWithLastDay
      by_cases hopen : range.endDate = none
      · refine iff_of_true (keepsGaps_of_top ?_ _) (.inl hopen)
        rw [hrange.snd_interval, finish_of_none hopen]
      · rw [or_iff_right hopen]
        by_cases hlast : range.endDate = some lastCalendarDay
        · rw [if_pos hlast]
          exact keepsGaps_of_last (by rw [hrange.snd_interval, finish_of_some hlast])
        · rw [if_neg hlast]
          refine keepsGaps_iff ?_ hrest
          rw [hrange.snd_interval]
          exact finish_lt_last hopen hlast

/-- What the sweep makes of valid ranges: it covers the same, and it is apart unless a range that
ends on the last day came before another. -/
theorem exists_normalized (hvalid : ValidRanges ranges) :
    ∃ merged, normalizeBuyWindowRanges ranges = .ok merged ∧ ValidRanges merged
      ∧ (∀ x, Covers (merged.map BuyWindowRange.interval) x
        ↔ Covers (ranges.map BuyWindowRange.interval) x)
      ∧ (Separated (merged.map BuyWindowRange.interval) ↔ LastDayLast ranges) := by
  have hperm := sortBy_perm compareRanges ranges
  have hsorted := compares_compareRanges.pairwise_sortBy ranges
  have hcovers : ∀ x, Covers ((sortBy compareRanges ranges).map BuyWindowRange.interval) x
      ↔ Covers (ranges.map BuyWindowRange.interval) x := by
    intro x
    unfold Covers
    simp only [(hperm.map BuyWindowRange.interval).mem_iff]
  have hlast : LastDayLast ranges ↔ EndsWithLastDay (sortBy compareRanges ranges) := by
    rw [← lastDayLast_iff hsorted]
    exact ⟨fun h => h.perm hperm.symm, fun h => h.perm hperm⟩
  have hsortedValid : ValidRanges (sortBy compareRanges ranges) :=
    fun r hr => hvalid r (hperm.mem_iff.mp hr)
  have hrun : normalizeBuyWindowRanges ranges
      = .ok ((sortBy compareRanges ranges).foldl mergeRange []) := by
    unfold normalizeBuyWindowRanges
    rw [forM_assertValidRange hvalid]
    rfl
  obtain ⟨merged, hmerged, hmergedValid, hsame, hseparated⟩ := exists_sweep hsorted hsortedValid
  refine ⟨merged, by rw [hrun, hmerged], hmergedValid, fun x => (hsame x).trans (hcovers x), ?_⟩
  rw [hlast]
  exact hseparated

/-! ### The canonical form -/

/-- Maximal periods in order: ascending, disjoint, never adjacent, with at most one open-ended
range, the last. -/
structure IsCanonical (ranges : List BuyWindowRange) : Prop where
  ascending : ranges.Pairwise fun a b => a.startDate < b.startDate
  disjoint : ranges.Pairwise fun a b => ∀ date,
    ¬ (isBuyWindowEligible (.custom [a]) date = true ∧ isBuyWindowEligible (.custom [b]) date = true)
  /-- The day after one's end is before the next's start. -/
  apart : ranges.Pairwise fun a b => ∃ endDate next : LocalDate, a.endDate = some endDate
    ∧ nextCalendarDay endDate = next ∧ next < b.startDate
  openEnded_last : ∀ before range after, ranges = before ++ range :: after →
    range.endDate = none → after = []

theorem isBuyWindowEligible_iff (h : ValidRanges ranges) (date : LocalDate) :
    isBuyWindowEligible (.custom ranges) date = true
      ↔ Covers (ranges.map BuyWindowRange.interval) (date : WithTop LocalDate) := by
  unfold isBuyWindowEligible Covers
  simp only [List.any_eq_true, List.mem_map, exists_exists_and_eq_and, Bool.and_eq_true,
    decide_eq_true_eq]
  refine exists_congr fun range => and_congr_right fun hrange => ?_
  rw [NonemptyInterval.mem_def, (h range hrange).snd_interval, BuyWindowRange.fst_interval,
    WithTop.coe_le_coe]
  refine and_congr_right fun _ => ?_
  unfold BuyWindowRange.finish
  cases range.endDate with
  | none => simp
  | some endDate => simp

/-- Two ranges with a date between them. -/
theorem gap_iff (ha : a.IsValid) :
    Gap a.interval.snd b.interval.fst
      ↔ ∃ endDate next : LocalDate, a.endDate = some endDate ∧ nextCalendarDay endDate = next
        ∧ next < b.startDate := by
  rw [ha.snd_interval, BuyWindowRange.fst_interval]
  constructor
  · rintro ⟨x, hafter, hbefore⟩
    obtain ⟨date, rfl⟩ := WithTop.ne_top_iff_exists.mp (ne_top_of_lt hbefore)
    obtain ⟨endDate, hend⟩ : ∃ endDate, a.endDate = some endDate := by
      refine Option.ne_none_iff_exists'.mp fun hopen => ?_
      rw [finish_of_none hopen] at hafter
      exact absurd hafter not_top_lt
    rw [finish_of_some hend, WithTop.coe_lt_coe] at hafter
    rcases nextCalendarDay_eq endDate with ⟨next, heq, -, hnext⟩ | ⟨-, rfl⟩
    · exact ⟨endDate, next, hend, heq,
        (hnext date hafter).trans_lt (WithTop.coe_lt_coe.mp hbefore)⟩
    · exact absurd hafter (not_lt.mpr (le_lastCalendarDay date))
  · rintro ⟨endDate, next, hend, heq, hlt⟩
    rcases nextCalendarDay_eq endDate with ⟨next', heq', hafter, -⟩ | ⟨hbot, -⟩
    · obtain rfl : next = next' := WithBot.coe_injective (heq.symm.trans heq')
      refine ⟨next, ?_, WithTop.coe_lt_coe.mpr hlt⟩
      rw [finish_of_some hend]
      exact WithTop.coe_lt_coe.mpr hafter
    · rw [hbot] at heq
      cases heq

/-- **Canonical is separated.** -/
theorem isCanonical_iff (h : ValidRanges ranges) :
    IsCanonical ranges ↔ Separated (ranges.map BuyWindowRange.interval) := by
  rw [Separated, List.pairwise_map]
  constructor
  · intro hcanonical
    exact hcanonical.apart.imp_of_mem fun ha _ hapart => (gap_iff (h _ ha)).mpr hapart
  · intro hseparated
    have hvalid : ranges.Pairwise fun a b => a.IsValid ∧ b.IsValid
        ∧ Gap a.interval.snd b.interval.fst :=
      hseparated.imp_of_mem fun ha hb hgap => ⟨h _ ha, h _ hb, hgap⟩
    refine ⟨hvalid.imp ?_, hvalid.imp ?_, hvalid.imp ?_, ?_⟩
    · rintro a b ⟨ha, -, hgap⟩
      have hstart : (a.startDate : WithTop LocalDate) ≤ a.interval.snd := a.interval.fst_le_snd
      exact WithTop.coe_lt_coe.mp (hstart.trans_lt hgap.lt)
    · rintro a b ⟨ha, hb, hgap⟩ date ⟨hina, hinb⟩
      rw [isBuyWindowEligible_iff (fun r hr => List.mem_singleton.mp hr ▸ ha)] at hina
      rw [isBuyWindowEligible_iff (fun r hr => List.mem_singleton.mp hr ▸ hb)] at hinb
      obtain ⟨i, hi, hdate⟩ := hina
      obtain ⟨j, hj, hdate'⟩ := hinb
      obtain rfl := List.mem_singleton.mp hi
      obtain rfl := List.mem_singleton.mp hj
      exact absurd (hdate'.1.trans hdate.2) (not_le.mpr hgap.lt)
    · rintro a b ⟨ha, -, hgap⟩
      exact (gap_iff ha).mp hgap
    · rintro before range after rfl hopen
      cases after with
      | nil => rfl
      | cons other after =>
        have hlater := (List.pairwise_append.mp hvalid).2.1
        obtain ⟨hrange, -, hgap⟩ := (List.pairwise_cons.mp hlater).1 other List.mem_cons_self
        obtain ⟨endDate, -, hend, -⟩ := (gap_iff hrange).mp hgap
        rw [hopen] at hend
        cases hend

/-- Beyond the calendar only an open-ended range reaches. -/
theorem covers_top_iff (h : ValidRanges ranges) :
    Covers (ranges.map BuyWindowRange.interval) ⊤ ↔ ∃ range ∈ ranges, range.endDate = none := by
  unfold Covers
  simp only [List.mem_map, exists_exists_and_eq_and]
  refine exists_congr fun range => and_congr_right fun hrange => ?_
  rw [NonemptyInterval.mem_def, (h range hrange).snd_interval, top_le_iff]
  constructor
  · rintro ⟨-, htop⟩
    by_contra hbounded
    obtain ⟨endDate, hend⟩ := Option.ne_none_iff_exists'.mp hbounded
    rw [finish_of_some hend] at htop
    cases htop
  · intro hopen
    exact ⟨le_top, finish_of_none hopen⟩

/-- The same eligible dates, also after the calendar's last: there only an open-ended range
reaches. -/
structure CoverSameDates (ranges others : List BuyWindowRange) : Prop where
  eligible : ∀ date,
    isBuyWindowEligible (.custom ranges) date = isBuyWindowEligible (.custom others) date
  openEnded : (∃ range ∈ ranges, range.endDate = none) ↔ ∃ range ∈ others, range.endDate = none

theorem coverSameDates_iff {ranges others : List BuyWindowRange} (h : ValidRanges ranges)
    (h' : ValidRanges others) :
    CoverSameDates ranges others ↔ ∀ x, Covers (ranges.map BuyWindowRange.interval) x
      ↔ Covers (others.map BuyWindowRange.interval) x := by
  constructor
  · rintro ⟨heligible, hopen⟩ x
    cases x with
    | top => rw [covers_top_iff h, covers_top_iff h', hopen]
    | coe date =>
      rw [← isBuyWindowEligible_iff h, ← isBuyWindowEligible_iff h', heligible]
  · intro hcovers
    refine ⟨fun date => ?_, ?_⟩
    · rw [Bool.eq_iff_iff, isBuyWindowEligible_iff h, isBuyWindowEligible_iff h', hcovers]
    · rw [← covers_top_iff h, ← covers_top_iff h', hcovers]

theorem eq_of_map_interval_eq {ranges others : List BuyWindowRange} (h : ValidRanges ranges)
    (h' : ValidRanges others)
    (heq : ranges.map BuyWindowRange.interval = others.map BuyWindowRange.interval) :
    ranges = others := by
  induction ranges generalizing others with
  | nil => exact (List.map_eq_nil_iff.mp heq.symm).symm
  | cons range rest ih =>
    cases others with
    | nil => cases heq
    | cons other rest' =>
      obtain ⟨hhead, htail⟩ := List.cons.inj heq
      rw [(h range List.mem_cons_self).interval_inj (h' other List.mem_cons_self) hhead,
        ih (fun r hr => h r (List.mem_cons_of_mem _ hr))
          (fun r hr => h' r (List.mem_cons_of_mem _ hr)) htail]

/-- In a canonical set nothing follows a range that ends on the last day. -/
theorem IsCanonical.lastDayLast (h : IsCanonical ranges) :
    LastDayLast ranges := by
  intro range hrange hlast
  obtain ⟨before, after, rfl⟩ := List.append_of_mem hrange
  have hafter : after = [] := by
    cases after with
    | nil => rfl
    | cons other after =>
      have hlater := (List.pairwise_append.mp h.apart).2.1
      obtain ⟨endDate, next, hend, hnext, hlt⟩ :=
        (List.pairwise_cons.mp hlater).1 other List.mem_cons_self
      obtain rfl := Option.some.inj (hlast.symm.trans hend)
      rw [nextCalendarDay_lastCalendarDay] at hnext
      cases hnext
  subst hafter
  have hearlier : ∀ other ∈ before, other.startDate < range.startDate :=
    fun other hother => (List.pairwise_append.mp h.ascending).2.2 other hother range
      (List.mem_singleton_self _)
  have hnot : range ∉ before := fun hmem => lt_irrefl _ (hearlier range hmem)
  refine .inr fun other hother => ?_
  rw [List.erase_append_right _ hnot, List.erase_cons_head, List.append_nil] at hother
  exact hearlier other hother

/-- What the normal form of a set of ranges is. -/
structure IsNormalFormOf (ranges merged : List BuyWindowRange) : Prop where
  canonical : IsCanonical merged
  eligible : ∀ date,
    isBuyWindowEligible (.custom merged) date = isBuyWindowEligible (.custom ranges) date
  again : normalizeBuyWindowRanges merged = .ok merged
  /-- Every set of the same dates has it. -/
  unique : ∀ others, ValidRanges others → LastDayLast others → CoverSameDates others ranges →
    normalizeBuyWindowRanges others = .ok merged

/-- **Normalization is canonical exactly when nothing follows a range that ends on the last day.** -/
theorem normalizes_iff_lastDayLast {ranges : List BuyWindowRange} (hvalid : ValidRanges ranges) :
    (∃ merged, normalizeBuyWindowRanges ranges = .ok merged ∧ IsNormalFormOf ranges merged)
      ↔ LastDayLast ranges := by
  obtain ⟨merged, hrun, hmerged, hcovers, hseparated⟩ := exists_normalized hvalid
  constructor
  · rintro ⟨merged', hrun', hnormal⟩
    obtain rfl := Except.ok.inj (hrun.symm.trans hrun')
    exact hseparated.mp ((isCanonical_iff hmerged).mp hnormal.canonical)
  · intro hlast
    have hcanonical := (isCanonical_iff hmerged).mpr (hseparated.mpr hlast)
    have hunique : ∀ others, ValidRanges others → LastDayLast others →
        CoverSameDates others ranges → normalizeBuyWindowRanges others = .ok merged := by
      intro others hothers hothersLast hsame
      obtain ⟨merged', hrun', hmerged', hcovers', hseparated'⟩ := exists_normalized hothers
      have heq := (hseparated'.mpr hothersLast).eq_of_covers (hseparated.mpr hlast) fun x =>
        (hcovers' x).trans (((coverSameDates_iff hothers hvalid).mp hsame x).trans (hcovers x).symm)
      rw [hrun', eq_of_map_interval_eq hmerged' hmerged heq]
    have hsame := (coverSameDates_iff hmerged hvalid).mpr hcovers
    exact ⟨merged, hrun, hcanonical, hsame.eligible,
      hunique merged hmerged hcanonical.lastDayLast hsame, hunique⟩

/-- Two overlapping windows, the first of them up to the last day of the calendar. -/
def overlappingRanges : List BuyWindowRange :=
  [⟨.ofYmd 2020 1 1, some (.ofYmd 9999 12 31)⟩, ⟨.ofYmd 2021 1 1, some (.ofYmd 2021 5 5)⟩]

/-- They are left apart: no normal form of theirs is canonical. -/
theorem not_normalizes :
    ¬ ∃ merged, normalizeBuyWindowRanges overlappingRanges = .ok merged
      ∧ IsNormalFormOf overlappingRanges merged := by
  rintro ⟨merged, hrun, hnormal⟩
  have hkept : normalizeBuyWindowRanges overlappingRanges = .ok overlappingRanges := by decide
  obtain rfl := Except.ok.inj (hkept.symm.trans hrun)
  have hdisjoint := (List.pairwise_cons.mp hnormal.canonical.disjoint).1 _ List.mem_cons_self
  exact hdisjoint (.ofYmd 2021 2 3) (by decide)

/-- Three windows around the end of a leap February, one of them open-ended. -/
theorem normalizes_iff_lastDayLast_sample :
    let ranges : List BuyWindowRange := [⟨.ofYmd 2024 3 1, none⟩,
      ⟨.ofYmd 2023 12 1, some (.ofYmd 2024 2 29)⟩, ⟨.ofYmd 2025 1 1, some (.ofYmd 9999 12 31)⟩]
    (∃ merged, normalizeBuyWindowRanges ranges = .ok merged ∧ IsNormalFormOf ranges merged)
      ↔ LastDayLast ranges := by
  intro ranges
  have hvalid : ValidRanges ranges := by
    intro range hrange
    simp only [ranges, List.mem_cons, List.not_mem_nil, or_false] at hrange
    rcases hrange with rfl | rfl | rfl
    · exact le_top
    · exact WithTop.coe_le_coe.mpr (by decide)
    · exact WithTop.coe_le_coe.mpr (by decide)
  exact normalizes_iff_lastDayLast hvalid

end FactorSage
