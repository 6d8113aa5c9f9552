import FactorSage.Domain.CoverageRanges
import FactorSage.Library.EventSweep
import Mathlib.Data.List.Forall2

/-!
# The peak of an index's members

How many list members may be bought at once, at most, over a period: a member counts on the dates
its buy window holds. The source sweeps over the dates at which a member joins or has left.

A member that is still there on the period's last date leaves on the day after it. Where that date
is the last of the calendar, the text of the day after is below every date: the member leaves before
the first event, and every count comes out too small. That is the only case in which the peak is
not the one of the dates (`peakSimultaneousMembers_isPeak_iff`).
-/

namespace FactorSage

open EventSweep

structure PeakMembers where
  peak : ℤ
  date : Option (WithBot LocalDate)
  deriving DecidableEq

/-- The members that are always there, and what joins and leaves by date. -/
structure MemberEvents where
  always : ℤ
  deltas : OrderedMap (WithBot LocalDate) ℤ

section Events

variable (period : DateRange)

def clippedStart (range : BuyWindowRange) : LocalDate :=
  if period.start < range.startDate then range.startDate else period.start

def clippedEnd (range : BuyWindowRange) : LocalDate :=
  match range.endDate with
  | none => period.stop
  | some endDate => if period.stop < endDate then period.stop else endDate

/-- One range of a member: it joins on the first date of it within the period, and leaves on the
day after the last. -/
def addRange (deltas : OrderedMap (WithBot LocalDate) ℤ) (range : BuyWindowRange) :
    OrderedMap (WithBot LocalDate) ℤ :=
  if clippedEnd period range < clippedStart period range then deltas
  else
    add (add deltas (clippedStart period range) 1) (nextCalendarDay (clippedEnd period range)) (-1)

def MemberEvents.addConfiguration (events : MemberEvents) :
    BuyWindowConfiguration → MemberEvents
  | .full => { events with always := events.always + 1 }
  | .custom ranges => { events with deltas := ranges.foldl (addRange period) events.deltas }

/-- The events of all members. -/
def memberEvents (configurations : List BuyWindowConfiguration) : MemberEvents :=
  configurations.foldl (MemberEvents.addConfiguration period) ⟨0, .empty⟩

end Events

def peakSimultaneousMembers (configurations : List BuyWindowConfiguration) (period : DateRange) :
    PeakMembers :=
  if period.stop < period.start then ⟨0, none⟩
  else
    let events := memberEvents period configurations
    let swept := Sweep.visitAll events.deltas period.stop
      ⟨events.always, events.always, if 0 < events.always then some period.start else none⟩
      (events.deltas.keys.insertionSort (· ≤ ·))
    ⟨swept.peak, swept.point⟩

/-! ### What the peak is -/

/-- How many members may be bought on a date. -/
def eligibleMembers (configurations : List BuyWindowConfiguration) (date : LocalDate) : ℕ :=
  configurations.countP fun configuration => isBuyWindowEligible configuration date

/-- The greatest number of members eligible on one date of the period, and the first such date. -/
structure IsPeak (configurations : List BuyWindowConfiguration) (period : DateRange)
    (result : PeakMembers) : Prop where
  bound : ∀ date, period.Holds date → (eligibleMembers configurations date : ℤ) ≤ result.peak
  attained : ∃ date, period.Holds date ∧ (eligibleMembers configurations date : ℤ) = result.peak
  none_iff : result.date = none ↔ result.peak = 0
  first : ∀ date, result.date = some date → ∃ day : LocalDate, date = (day : WithBot LocalDate)
    ∧ period.Holds day ∧ (eligibleMembers configurations day : ℤ) = result.peak
    ∧ ∀ earlier, period.Holds earlier → earlier < day →
        (eligibleMembers configurations earlier : ℤ) < result.peak

/-- The dates of a range. -/
def BuyWindowRange.Holds (range : BuyWindowRange) (date : LocalDate) : Prop :=
  range.startDate ≤ date ∧ (date : WithTop LocalDate) ≤ range.finish

/-- No date lies in two of a member's ranges. -/
def BuyWindowConfiguration.IsDisjoint : BuyWindowConfiguration → Prop
  | .full => True
  | .custom ranges => ranges.Pairwise fun a b => ∀ date, a.Holds date → ¬ b.Holds date

/-- The same configuration with its ranges in another order. -/
inductive BuyWindowConfiguration.SameRanges :
    BuyWindowConfiguration → BuyWindowConfiguration → Prop
  | full : SameRanges .full .full
  | custom {ranges others : List BuyWindowRange} (h : ranges.Perm others) :
      SameRanges (.custom ranges) (.custom others)

/-- The same configurations, and the ranges of each, in another order. -/
def Reordered (configurations others : List BuyWindowConfiguration) : Prop :=
  ∃ middle, configurations.Perm middle ∧
    List.Forall₂ BuyWindowConfiguration.SameRanges middle others

theorem IsPeak.unique {configurations : List BuyWindowConfiguration} {period : DateRange}
    {a b : PeakMembers} (ha : IsPeak configurations period a)
    (hb : IsPeak configurations period b) : a = b := by
  have hpeak : a.peak = b.peak := by
    obtain ⟨da, hda, hca⟩ := ha.attained
    obtain ⟨db, hdb, hcb⟩ := hb.attained
    exact le_antisymm (hca ▸ hb.bound da hda) (hcb ▸ ha.bound db hdb)
  have hdate : a.date = b.date := by
    cases hda : a.date with
    | none => exact (hb.none_iff.mpr (hpeak ▸ ha.none_iff.mp hda)).symm
    | some date =>
      cases hdb : b.date with
      | none =>
        have hnone := ha.none_iff.mpr (hpeak.trans (hb.none_iff.mp hdb))
        rw [hda] at hnone
        exact nomatch hnone
      | some other =>
        obtain ⟨day, rfl, hday, hcount, hearlier⟩ := ha.first date hda
        obtain ⟨day', rfl, hday', hcount', hearlier'⟩ := hb.first other hdb
        rcases lt_trichotomy day day' with hlt | rfl | hlt
        · have hless := hearlier' day hday hlt
          rw [hcount, hpeak] at hless
          exact absurd hless (lt_irrefl _)
        · rfl
        · have hless := hearlier day' hday' hlt
          rw [hcount', hpeak] at hless
          exact absurd hless (lt_irrefl _)
  cases a
  cases b
  congr

/-! ### The dates of a range -/

section Ranges

variable {range : BuyWindowRange} {ranges : List BuyWindowRange} {date : LocalDate}
  {period : DateRange}

instance : Decidable (range.Holds date) := inferInstanceAs (Decidable (_ ∧ _))

theorem isBuyWindowEligible_custom :
    isBuyWindowEligible (.custom ranges) date = ranges.any fun range => range.Holds date := by
  rw [isBuyWindowEligible]
  congr 1
  funext range
  cases h : range.endDate with
  | none => simp [BuyWindowRange.Holds, BuyWindowRange.finish, h]
  | some endDate => simp [BuyWindowRange.Holds, BuyWindowRange.finish, h]

/-- Of disjoint ranges at most one holds a date. -/
theorem countP_holds (h : (BuyWindowConfiguration.custom ranges).IsDisjoint) :
    ranges.countP (fun range => range.Holds date)
      = if isBuyWindowEligible (.custom ranges) date then 1 else 0 := by
  rw [isBuyWindowEligible_custom]
  induction ranges with
  | nil => rfl
  | cons range rest ih =>
    obtain ⟨hfirst, hrest⟩ := List.pairwise_cons.mp h
    rw [List.countP_cons, ih hrest, List.any_cons]
    by_cases hholds : range.Holds date
    · have hnone : (rest.any fun range => decide (range.Holds date)) = false := by
        rw [List.any_eq_false]
        intro other hother
        simpa using hfirst other hother date hholds
      simp [hholds, hnone]
    · simp [hholds]

theorem clippedStart_le_iff (hdate : period.Holds date) :
    clippedStart period range ≤ date ↔ range.startDate ≤ date := by
  rw [clippedStart]
  split
  · exact Iff.rfl
  · next h => exact iff_of_true hdate.1 ((not_lt.mp h).trans hdate.1)

theorem le_clippedEnd_iff (hdate : period.Holds date) :
    date ≤ clippedEnd period range ↔ (date : WithTop LocalDate) ≤ range.finish := by
  rw [clippedEnd]
  split
  · next hopen =>
    rw [finish_of_none hopen]
    exact iff_of_true hdate.2 le_top
  · next endDate hend =>
    rw [finish_of_some hend, WithTop.coe_le_coe]
    split
    · next h => exact iff_of_true hdate.2 (hdate.2.trans h.le)
    · exact Iff.rfl

theorem clippedEnd_le : clippedEnd period range ≤ period.stop := by
  rw [clippedEnd]
  split
  · exact le_rfl
  · split
    · exact le_rfl
    · next h => exact not_lt.mp h

theorem le_clippedStart : period.start ≤ clippedStart period range := by
  rw [clippedStart]
  split
  · next h => exact h.le
  · exact le_rfl

/-- Within the period a range holds the dates between its clipped ends. -/
theorem holds_iff_clipped (range : BuyWindowRange) (hdate : period.Holds date) :
    range.Holds date ↔ clippedStart period range ≤ date ∧ date ≤ clippedEnd period range := by
  rw [clippedStart_le_iff hdate, le_clippedEnd_iff hdate, BuyWindowRange.Holds]

end Ranges

/-! ### Levels -/

/-- The ranges that leave below the calendar: those that hold its last day, where the period ends
there. -/
def lostRanges (period : DateRange) (ranges : List BuyWindowRange) : ℕ :=
  if period.stop = lastCalendarDay then ranges.countP fun range => range.Holds lastCalendarDay
  else 0

/-- A member that one of its ranges makes eligible. -/
def isEligibleByRange (date : LocalDate) : BuyWindowConfiguration → Bool
  | .full => false
  | .custom ranges => isBuyWindowEligible (.custom ranges) date

/-- The members that leave below the calendar. -/
def lostMembers (period : DateRange) (configurations : List BuyWindowConfiguration) : ℕ :=
  if period.stop = lastCalendarDay then configurations.countP (isEligibleByRange lastCalendarDay)
  else 0

theorem eligibleMembers_cons (configuration : BuyWindowConfiguration)
    (rest : List BuyWindowConfiguration) (date : LocalDate) :
    eligibleMembers (configuration :: rest) date
      = eligibleMembers rest date + if isBuyWindowEligible configuration date then 1 else 0 :=
  List.countP_cons

section Level

variable {period : DateRange} {date : LocalDate}

theorem lostRanges_cons (range : BuyWindowRange) (ranges : List BuyWindowRange) :
    lostRanges period (range :: ranges) = lostRanges period ranges
      + if period.stop = lastCalendarDay ∧ range.Holds lastCalendarDay then 1 else 0 := by
  unfold lostRanges
  by_cases h : period.stop = lastCalendarDay
  · simp [h, List.countP_cons]
  · simp [h]

/-- The clipped end is the last day of the calendar exactly for the ranges that are lost. -/
theorem clippedEnd_eq_last_iff (hperiod : period.start ≤ period.stop) {range : BuyWindowRange}
    (hmeets : clippedStart period range ≤ clippedEnd period range) :
    clippedEnd period range = lastCalendarDay
      ↔ period.stop = lastCalendarDay ∧ range.Holds lastCalendarDay := by
  constructor
  · intro hend
    have hstop : period.stop = lastCalendarDay :=
      le_antisymm (le_lastCalendarDay _) (hend ▸ clippedEnd_le)
    have hdate : period.Holds lastCalendarDay := ⟨hperiod.trans hstop.le, hstop.ge⟩
    exact ⟨hstop, (holds_iff_clipped range hdate).mpr ⟨hmeets.trans hend.le, hend.ge⟩⟩
  · rintro ⟨hstop, hholds⟩
    have hdate : period.Holds lastCalendarDay := ⟨hperiod.trans hstop.le, hstop.ge⟩
    exact le_antisymm (le_lastCalendarDay _) ((holds_iff_clipped range hdate).mp hholds).2

/-- The day after the clipped end has come. -/
theorem nextCalendarDay_le_iff (endDate date : LocalDate) :
    nextCalendarDay endDate ≤ (date : WithBot LocalDate)
      ↔ endDate < date ∨ endDate = lastCalendarDay := by
  rcases nextCalendarDay_eq endDate with ⟨next, heq, hlt, hnext⟩ | ⟨heq, hlast⟩
  · rw [heq, WithBot.coe_le_coe]
    refine ⟨fun h => .inl (hlt.trans_le h), fun h => h.elim (hnext date) fun hlast => ?_⟩
    exact absurd (hlast ▸ hlt) (not_lt.mpr (le_lastCalendarDay next))
  · rw [heq]
    exact iff_of_true bot_le (.inr hlast)

/-- A range raises the level of the dates it holds, and lowers all where it is lost. -/
theorem level_addRange (hperiod : period.start ≤ period.stop) (hdate : period.Holds date)
    (deltas : OrderedMap (WithBot LocalDate) ℤ) (range : BuyWindowRange) :
    level (addRange period deltas range) date = level deltas date
      + (if range.Holds date then 1 else 0)
      - if period.stop = lastCalendarDay ∧ range.Holds lastCalendarDay then 1 else 0 := by
  have hholds := holds_iff_clipped range hdate
  rw [addRange]
  split
  · next hempty =>
    have hnone : ∀ day, period.Holds day → ¬ range.Holds day := by
      intro day hday hin
      obtain ⟨hstart, hend⟩ := (holds_iff_clipped range hday).mp hin
      exact absurd (hstart.trans hend) (not_le.mpr hempty)
    have hlost : ¬ (period.stop = lastCalendarDay ∧ range.Holds lastCalendarDay) := by
      rintro ⟨hstop, hin⟩
      exact hnone _ ⟨hperiod.trans hstop.le, hstop.ge⟩ hin
    rw [if_neg (hnone date hdate), if_neg hlost]
    simp
  · next hmeets =>
    have hmeets := not_lt.mp hmeets
    have hlost := clippedEnd_eq_last_iff hperiod hmeets
    have hnext := nextCalendarDay_le_iff (clippedEnd period range) date
    rw [level_add, level_add]
    simp only [WithBot.coe_le_coe, hnext, hholds, ← hlost]
    by_cases hlast : clippedEnd period range = lastCalendarDay
    · have hle : date ≤ clippedEnd period range := hlast ▸ le_lastCalendarDay date
      simp [hlast, le_lastCalendarDay]
      split <;> rfl
    · by_cases hbehind : clippedEnd period range < date
      · have hin : clippedStart period range ≤ date := hmeets.trans hbehind.le
        simp [hlast, hbehind, hin, not_le.mpr hbehind]
      · simp [hlast, hbehind, not_lt.mp hbehind]

/-- Below the calendar only what is lost has happened. -/
theorem level_addRange_bot (deltas : OrderedMap (WithBot LocalDate) ℤ)
    (range : BuyWindowRange) :
    level (addRange period deltas range) ⊥ ≤ level deltas ⊥ := by
  rw [addRange]
  split
  · exact le_rfl
  · rw [level_add, level_add]
    simp only [le_bot_iff, WithBot.coe_ne_bot, if_false, add_zero]
    split
    · simp
    · simp

theorem level_foldl_addRange (hperiod : period.start ≤ period.stop) (hdate : period.Holds date)
    (ranges : List BuyWindowRange) : ∀ deltas : OrderedMap (WithBot LocalDate) ℤ,
    level (ranges.foldl (addRange period) deltas) date = level deltas date
      + (ranges.countP fun range => range.Holds date) - lostRanges period ranges := by
  induction ranges with
  | nil =>
    intro deltas
    simp [lostRanges]
  | cons range rest ih =>
    intro deltas
    rw [List.foldl_cons, ih, level_addRange hperiod hdate, List.countP_cons, lostRanges_cons]
    simp only [decide_eq_true_eq]
    push_cast
    ring

theorem level_foldl_addRange_bot (ranges : List BuyWindowRange) :
    ∀ deltas : OrderedMap (WithBot LocalDate) ℤ,
    level (ranges.foldl (addRange period) deltas) ⊥ ≤ level deltas ⊥ := by
  induction ranges with
  | nil => exact fun deltas => le_rfl
  | cons range rest ih => exact fun deltas => (ih _).trans (level_addRange_bot deltas range)

/-- Disjoint ranges lose a member at most once. -/
theorem lostRanges_eq {ranges : List BuyWindowRange}
    (h : (BuyWindowConfiguration.custom ranges).IsDisjoint) :
    lostRanges period ranges = lostMembers period [.custom ranges] := by
  rw [lostRanges, lostMembers, countP_holds h]
  cases hbuy : isBuyWindowEligible (.custom ranges) lastCalendarDay <;>
    simp [isEligibleByRange, hbuy]

theorem lostMembers_cons (configuration : BuyWindowConfiguration)
    (rest : List BuyWindowConfiguration) : lostMembers period (configuration :: rest)
      = lostMembers period [configuration] + lostMembers period rest := by
  unfold lostMembers
  split
  · rw [List.countP_cons, List.countP_cons, List.countP_nil]
    omega
  · rfl

/-- **The levels of the events.** Over the members that are always there, a date's level is the
number of members eligible on it, less what is lost below the calendar. -/
theorem level_memberEvents (hperiod : period.start ≤ period.stop) (hdate : period.Holds date)
    {configurations : List BuyWindowConfiguration}
    (hdisjoint : ∀ configuration ∈ configurations, configuration.IsDisjoint) :
    (memberEvents period configurations).always
        + level (memberEvents period configurations).deltas date
      = eligibleMembers configurations date - lostMembers period configurations := by
  have hfold : ∀ events : MemberEvents,
      (configurations.foldl (MemberEvents.addConfiguration period) events).always
        + level (configurations.foldl (MemberEvents.addConfiguration period) events).deltas date
      = events.always + level events.deltas date + eligibleMembers configurations date
        - lostMembers period configurations := by
    induction configurations with
    | nil =>
      intro events
      simp [eligibleMembers, lostMembers]
    | cons configuration rest ih =>
      intro events
      have hrest := ih (fun c hc => hdisjoint c (List.mem_cons_of_mem _ hc))
      rw [List.foldl_cons, hrest, lostMembers_cons, eligibleMembers_cons]
      cases configuration with
      | full =>
        have hlost : lostMembers period [.full] = 0 := by
          simp [lostMembers, isEligibleByRange]
        simp only [MemberEvents.addConfiguration, isBuyWindowEligible, if_true, hlost]
        push_cast
        ring
      | custom ranges =>
        have hone := hdisjoint (.custom ranges) List.mem_cons_self
        have hlevel := level_foldl_addRange hperiod hdate ranges events.deltas
        rw [countP_holds hone, lostRanges_eq hone] at hlevel
        simp only [MemberEvents.addConfiguration, hlevel]
        push_cast
        ring
  rw [memberEvents, hfold]
  simp

theorem level_memberEvents_bot (period : DateRange) (configurations : List BuyWindowConfiguration) :
    level (memberEvents period configurations).deltas ⊥ ≤ 0 := by
  have hfold : ∀ events : MemberEvents,
      level (configurations.foldl (MemberEvents.addConfiguration period) events).deltas ⊥
        ≤ level events.deltas ⊥ := by
    induction configurations with
    | nil => exact fun events => le_rfl
    | cons configuration rest ih =>
      intro events
      refine (ih _).trans ?_
      cases configuration with
      | full => exact le_rfl
      | custom ranges => exact level_foldl_addRange_bot ranges events.deltas
  exact hfold _

/-- The members that are always there are those without ranges. -/
theorem always_memberEvents (period : DateRange) (configurations : List BuyWindowConfiguration)
    (date : LocalDate) :
    (eligibleMembers configurations date : ℤ) = (memberEvents period configurations).always
      + configurations.countP (isEligibleByRange date) := by
  have hfold : ∀ events : MemberEvents,
      (configurations.foldl (MemberEvents.addConfiguration period) events).always
        + configurations.countP (isEligibleByRange date)
      = events.always + (eligibleMembers configurations date : ℤ) := by
    induction configurations with
    | nil => exact fun events => rfl
    | cons configuration rest ih =>
      intro events
      have hrest := ih (events.addConfiguration period configuration)
      rw [List.foldl_cons, List.countP_cons, eligibleMembers_cons]
      cases configuration with
      | full =>
        simp only [MemberEvents.addConfiguration, isBuyWindowEligible, isEligibleByRange] at hrest ⊢
        push_cast
        omega
      | custom ranges =>
        have hsame : isEligibleByRange date (.custom ranges)
            = isBuyWindowEligible (.custom ranges) date := rfl
        simp only [MemberEvents.addConfiguration] at hrest ⊢
        rw [hsame]
        push_cast
        omega
  rw [memberEvents, hfold]
  simp

/-- No event of a date lies before the period. -/
theorem start_le_of_mem_keys (configurations : List BuyWindowConfiguration) :
    ∀ day : LocalDate,
      (day : WithBot LocalDate) ∈ (memberEvents period configurations).deltas.keys →
      period.start ≤ day := by
  -- a range counts from its clipped start to the day behind its clipped end
  have hrange : ∀ (deltas : OrderedMap (WithBot LocalDate) ℤ) (range : BuyWindowRange),
      (∀ day : LocalDate, (day : WithBot LocalDate) ∈ deltas.keys → period.start ≤ day) →
      ∀ day : LocalDate, (day : WithBot LocalDate) ∈ (addRange period deltas range).keys →
        period.start ≤ day := by
    intro deltas range h day hday
    rw [addRange] at hday
    split at hday
    · exact h day hday
    · next hmeets =>
      have hle : clippedStart period range ≤ clippedEnd period range := not_lt.mp hmeets
      rw [mem_keys_add, mem_keys_add] at hday
      rcases hday with (hday | hday) | hday
      · exact h day hday
      · rw [WithBot.coe_inj.mp hday]
        exact le_clippedStart
      · rcases nextCalendarDay_eq (clippedEnd period range) with ⟨next, heq, hlt, -⟩ | ⟨heq, -⟩
        · rw [heq] at hday
          rw [WithBot.coe_inj.mp hday]
          exact le_clippedStart.trans (hle.trans hlt.le)
        · rw [heq] at hday
          exact absurd hday WithBot.coe_ne_bot
  have hranges : ∀ (ranges : List BuyWindowRange) (deltas : OrderedMap (WithBot LocalDate) ℤ),
      (∀ day : LocalDate, (day : WithBot LocalDate) ∈ deltas.keys → period.start ≤ day) →
      ∀ day : LocalDate, (day : WithBot LocalDate) ∈ (ranges.foldl (addRange period) deltas).keys →
        period.start ≤ day := by
    intro ranges
    induction ranges with
    | nil => exact fun deltas h => h
    | cons range rest ih => exact fun deltas h => ih _ (hrange deltas range h)
  have hfold : ∀ events : MemberEvents,
      (∀ day : LocalDate, (day : WithBot LocalDate) ∈ events.deltas.keys → period.start ≤ day) →
      ∀ day : LocalDate, (day : WithBot LocalDate)
        ∈ (configurations.foldl (MemberEvents.addConfiguration period) events).deltas.keys →
        period.start ≤ day := by
    induction configurations with
    | nil => exact fun events h => h
    | cons configuration rest ih =>
      intro events h
      refine ih _ ?_
      cases configuration with
      | full => exact h
      | custom ranges => exact hranges ranges events.deltas h
  exact hfold _ fun day hday => nomatch hday

end Level

/-! ### The peak -/

section Peak

variable {configurations others : List BuyWindowConfiguration} {period : DateRange}

/-- What the sweep has found over the whole period. -/
theorem found_peakSimultaneousMembers (hperiod : period.start ≤ period.stop)
    (configurations : List BuyWindowConfiguration) :
    ∃ swept : Sweep (WithBot LocalDate),
      peakSimultaneousMembers configurations period = ⟨swept.peak, swept.point⟩
      ∧ Found (memberEvents period configurations).always
        (if 0 < (memberEvents period configurations).always then
          some (period.start : WithBot LocalDate) else none)
        (memberEvents period configurations).deltas
        (fun key => key ∈ (memberEvents period configurations).deltas.keys
          ∧ key ≤ (period.stop : WithBot LocalDate)) swept := by
  refine ⟨_, ?_, sweep_spec _ _ _ _⟩
  rw [peakSimultaneousMembers, if_neg (not_lt.mpr hperiod)]

/-- With nothing lost below the calendar, the sweep finds the peak. -/
theorem isPeak_of_lost_eq_zero (hperiod : period.start ≤ period.stop)
    (hdisjoint : ∀ configuration ∈ configurations, configuration.IsDisjoint)
    (hlost : lostMembers period configurations = 0) :
    IsPeak configurations period (peakSimultaneousMembers configurations period) := by
  obtain ⟨swept, hswept, hfound⟩ := found_peakSimultaneousMembers hperiod configurations
  -- no member is lost, so those eligible on a date are the level of the sweep there
  have hlevel : ∀ date, period.Holds date → (eligibleMembers configurations date : ℤ)
      = (memberEvents period configurations).always
        + level (memberEvents period configurations).deltas date := by
    intro date hdate
    rw [level_memberEvents hperiod hdate hdisjoint, hlost]
    simp
  have halways : ∀ date, (memberEvents period configurations).always
      ≤ eligibleMembers configurations date := by
    intro date
    rw [always_memberEvents period configurations date]
    omega
  have hnonneg : 0 ≤ (memberEvents period configurations).always := by
    have hmembers := always_memberEvents period configurations period.start
    have hbase := level_memberEvents hperiod ⟨le_rfl, hperiod⟩ hdisjoint
    have hcount : ∀ l : List BuyWindowConfiguration,
        l.countP (isEligibleByRange period.start) ≤ eligibleMembers l period.start := by
      intro l
      refine List.countP_mono_left fun c _ h => ?_
      cases c with
      | full => exact nomatch h
      | custom ranges => exact h
    have := hcount configurations
    omega
  have hbound : ∀ date, period.Holds date →
      (eligibleMembers configurations date : ℤ) ≤ swept.peak := by
    intro date hdate
    rw [hlevel date hdate]
    rcases level_eq_zero_or (memberEvents period configurations).deltas date with
      hzero | ⟨key, hkey, hle, heq⟩
    · rw [hzero, add_zero]
      exact hfound.base_le
    · rw [heq]
      exact hfound.le_peak key ⟨hkey, hle.trans (WithBot.coe_le_coe.mpr hdate.2)⟩
  have hfirst : period.Holds period.start := ⟨le_rfl, hperiod⟩
  rw [hswept]
  rcases hfound.first with ⟨hpeak, hpoint⟩ | ⟨point, hpoint, hseen, hbase, hreach, hearlier⟩
  · -- nothing rises above the members that are always there
    have hstart : (eligibleMembers configurations period.start : ℤ) = swept.peak :=
      le_antisymm (hbound _ hfirst) (hpeak ▸ halways _)
    refine ⟨hbound, ⟨period.start, hfirst, hstart⟩, ?_, fun date hdate => ?_⟩
    · change swept.point = none ↔ swept.peak = 0
      rw [hpeak, hpoint]
      split
      · next h => exact iff_of_false (fun h' => nomatch h') h.ne'
      · next h => exact iff_of_true rfl (le_antisymm (not_lt.mp h) hnonneg)
    · change swept.point = some date at hdate
      rw [hpoint] at hdate
      split at hdate
      · refine ⟨period.start, (Option.some.inj hdate).symm, hfirst, hstart, ?_⟩
        exact fun earlier hin hlt => absurd hin.1 (not_le.mpr hlt)
      · exact nomatch hdate
  · -- the sweep peaks at a change, and changes lie on days of the period
    obtain ⟨day, rfl⟩ : ∃ day : LocalDate, point = day := by
      cases point with
      | bot =>
        have := level_memberEvents_bot period configurations
        omega
      | coe day => exact ⟨day, rfl⟩
    have hday : period.Holds day :=
      ⟨start_le_of_mem_keys configurations day hseen.1, WithBot.coe_le_coe.mp hseen.2⟩
    have hcount : (eligibleMembers configurations day : ℤ) = swept.peak :=
      (hlevel day hday).trans hreach
    refine ⟨hbound, ⟨day, hday, hcount⟩, ?_, fun date hdate => ?_⟩
    · change swept.point = none ↔ swept.peak = 0
      rw [hpoint]
      exact iff_of_false (fun h => nomatch h) (by omega)
    · change swept.point = some date at hdate
      rw [hpoint] at hdate
      refine ⟨day, (Option.some.inj hdate).symm, hday, hcount, fun earlier hin hlt => ?_⟩
      change (eligibleMembers configurations earlier : ℤ) < swept.peak
      rw [hlevel earlier hin]
      rcases level_eq_zero_or (memberEvents period configurations).deltas earlier with
        hzero | ⟨key, hkey, hle, heq⟩
      · rw [hzero, add_zero]
        exact hbase
      · rw [heq]
        refine hearlier key ⟨hkey, hle.trans (WithBot.coe_le_coe.mpr hin.2)⟩ ?_
        exact hle.trans_lt (WithBot.coe_lt_coe.mpr hlt)

/-- What is lost is missing from every count. -/
theorem not_isPeak_of_lost (hperiod : period.start ≤ period.stop)
    (hdisjoint : ∀ configuration ∈ configurations, configuration.IsDisjoint)
    (hlost : 0 < lostMembers period configurations) :
    ¬ IsPeak configurations period (peakSimultaneousMembers configurations period) := by
  intro h
  obtain ⟨swept, hswept, hfound⟩ := found_peakSimultaneousMembers hperiod configurations
  rw [hswept] at h
  have hstop : period.Holds period.stop := ⟨hperiod, le_rfl⟩
  have hlast : period.stop = lastCalendarDay := by
    by_contra hother
    rw [lostMembers, if_neg hother] at hlost
    exact absurd hlost (lt_irrefl 0)
  have hthere : (eligibleMembers configurations period.stop : ℤ)
      = (memberEvents period configurations).always + lostMembers period configurations := by
    rw [always_memberEvents period configurations, lostMembers, if_pos hlast, hlast]
  have hmax : (eligibleMembers configurations period.stop : ℤ) ≤ swept.peak := h.bound _ hstop
  rcases hfound.first with ⟨hpeak, -⟩ | ⟨point, -, hseen, hbase, hreach, -⟩
  · omega
  · cases point with
    | bot =>
      have := level_memberEvents_bot period configurations
      omega
    | coe day =>
      have hday : period.Holds day :=
        ⟨start_le_of_mem_keys configurations day hseen.1, WithBot.coe_le_coe.mp hseen.2⟩
      have hlevel := level_memberEvents hperiod hday hdisjoint
      have hle : (eligibleMembers configurations day : ℤ) ≤ swept.peak := h.bound day hday
      omega

/-! ### Another order -/

theorem isBuyWindowEligible_of_sameRanges {a b : BuyWindowConfiguration} (h : a.SameRanges b)
    (date : LocalDate) : isBuyWindowEligible a date = isBuyWindowEligible b date := by
  cases h with
  | full => rfl
  | custom hperm =>
    rw [isBuyWindowEligible_custom, isBuyWindowEligible_custom]
    exact hperm.any_eq

theorem eligibleMembers_of_reordered (h : Reordered configurations others) (date : LocalDate) :
    eligibleMembers others date = eligibleMembers configurations date := by
  obtain ⟨middle, hperm, hsame⟩ := h
  rw [eligibleMembers, eligibleMembers, hperm.countP_eq]
  clear hperm
  induction hsame with
  | nil => rfl
  | cons hhead _ ih =>
    rw [List.countP_cons, List.countP_cons, ih, isBuyWindowEligible_of_sameRanges hhead date]

theorem forall_mem_of_reordered (h : Reordered configurations others)
    {p : BuyWindowConfiguration → Prop} (hp : ∀ a b, a.SameRanges b → p a → p b)
    (hall : ∀ configuration ∈ configurations, p configuration) :
    ∀ configuration ∈ others, p configuration := by
  obtain ⟨middle, hperm, hsame⟩ := h
  have hall : ∀ configuration ∈ middle, p configuration :=
    fun c hc => hall c (hperm.mem_iff.mpr hc)
  clear hperm
  induction hsame with
  | nil => exact fun c hc => nomatch hc
  | cons hhead _ ih =>
    intro c hc
    rcases List.mem_cons.mp hc with rfl | hc
    · exact hp _ _ hhead (hall _ List.mem_cons_self)
    · exact ih (fun d hd => hall d (List.mem_cons_of_mem _ hd)) c hc

theorem IsDisjoint.of_sameRanges {a b : BuyWindowConfiguration} (h : a.SameRanges b)
    (ha : a.IsDisjoint) : b.IsDisjoint := by
  cases h with
  | full => exact ha
  | custom hperm =>
    exact (hperm.pairwise_iff fun hab date hb ha => hab date ha hb).mp ha

theorem lostMembers_eq_zero_iff : lostMembers period configurations = 0
    ↔ (period.stop = lastCalendarDay → ∀ configuration ∈ configurations,
        configuration ≠ .full → ¬ isBuyWindowEligible configuration period.stop) := by
  unfold lostMembers
  split
  · next hlast =>
    rw [List.countP_eq_zero, hlast]
    refine ⟨fun h _ c hc hcustom => ?_, fun h c hc => ?_⟩
    · have hc := h c hc
      cases c with
      | full => exact absurd rfl hcustom
      | custom ranges => exact hc
    · cases c with
      | full => exact fun hfull => nomatch hfull
      | custom ranges => exact h rfl _ hc fun hfull => nomatch hfull
  · next hlast => exact iff_of_true rfl fun h => absurd h hlast

/-- **The true peak.** Found, and found in every order, exactly when no member with ranges is still
there on the last day of the calendar. -/
theorem peakSimultaneousMembers_isPeak_iff (configurations : List BuyWindowConfiguration)
    (period : DateRange) (hperiod : period.start ≤ period.stop)
    (hdisjoint : ∀ configuration ∈ configurations, configuration.IsDisjoint) :
    (IsPeak configurations period (peakSimultaneousMembers configurations period)
      ∧ ∀ others, Reordered configurations others →
        peakSimultaneousMembers others period = peakSimultaneousMembers configurations period)
    ↔ (period.stop = lastCalendarDay → ∀ configuration ∈ configurations,
        configuration ≠ .full → ¬ isBuyWindowEligible configuration period.stop) := by
  rw [← lostMembers_eq_zero_iff]
  constructor
  · rintro ⟨hpeak, -⟩
    by_contra hlost
    exact not_isPeak_of_lost hperiod hdisjoint (Nat.pos_of_ne_zero hlost) hpeak
  · intro hlost
    have hpeak := isPeak_of_lost_eq_zero hperiod hdisjoint hlost
    refine ⟨hpeak, fun others hothers => ?_⟩
    have hdisjoint' : ∀ configuration ∈ others, configuration.IsDisjoint :=
      forall_mem_of_reordered hothers (fun _ _ => IsDisjoint.of_sameRanges) hdisjoint
    -- an order of entries loses a member when the other does
    have hlost' : lostMembers period others = 0 := by
      rw [lostMembers_eq_zero_iff] at hlost ⊢
      intro hlast
      refine forall_mem_of_reordered hothers (fun a b hab ha hb => ?_) (hlost hlast)
      rw [← isBuyWindowEligible_of_sameRanges hab]
      refine ha fun hfull => hb ?_
      cases hab with
      | full => rfl
      | custom => exact nomatch hfull
    have hother := isPeak_of_lost_eq_zero hperiod hdisjoint' hlost'
    have hcount := eligibleMembers_of_reordered hothers
    refine (IsPeak.unique hpeak ?_).symm
    exact {
      bound := fun date hdate => hcount date ▸ hother.bound date hdate
      attained := by
        obtain ⟨date, hdate, heq⟩ := hother.attained
        exact ⟨date, hdate, hcount date ▸ heq⟩
      none_iff := hother.none_iff
      first := by
        intro date hdate
        obtain ⟨day, heq, hday, hday', hearlier⟩ := hother.first date hdate
        exact ⟨day, heq, hday, hcount day ▸ hday',
          fun earlier hin hlt => hcount earlier ▸ hearlier earlier hin hlt⟩ }

end Peak

/-- A member that leaves as another joins, and one that is always there: two of them at once, from
the first date. -/
theorem peakSimultaneousMembers_isPeak_handover :
    IsPeak [.custom [⟨.ofYmd 2024 1 1, some (.ofYmd 2024 1 31)⟩], .full,
        .custom [⟨.ofYmd 2024 2 1, none⟩]] ⟨.ofYmd 2024 1 10, .ofYmd 2024 3 1⟩
      (peakSimultaneousMembers [.custom [⟨.ofYmd 2024 1 1, some (.ofYmd 2024 1 31)⟩], .full,
        .custom [⟨.ofYmd 2024 2 1, none⟩]] ⟨.ofYmd 2024 1 10, .ofYmd 2024 3 1⟩) := by
  refine ((peakSimultaneousMembers_isPeak_iff _ _ (by decide) ?_).mpr fun hlast => ?_).1
  · intro configuration hmem
    simp only [List.mem_cons, List.not_mem_nil, or_false] at hmem
    rcases hmem with rfl | rfl | rfl
    · exact List.pairwise_singleton _ _
    · trivial
    · exact List.pairwise_singleton _ _
  · exact absurd hlast (by decide)

/-- A member with an open-ended range, over a period that ends on the last day of the calendar: it
leaves before it joins, and the peak found is zero. -/
theorem peakSimultaneousMembers_last_day :
    ¬ IsPeak [.custom [⟨.ofYmd 2020 1 1, none⟩]] ⟨.ofYmd 2024 1 1, .ofYmd 9999 12 31⟩
      (peakSimultaneousMembers [.custom [⟨.ofYmd 2020 1 1, none⟩]]
        ⟨.ofYmd 2024 1 1, .ofYmd 9999 12 31⟩) := by
  intro h
  have hfound : peakSimultaneousMembers [.custom [⟨.ofYmd 2020 1 1, none⟩]]
      ⟨.ofYmd 2024 1 1, .ofYmd 9999 12 31⟩ = ⟨0, none⟩ := by
    decide +kernel
  rw [hfound] at h
  have hthere := h.bound (.ofYmd 2024 1 1) ⟨by decide, by decide⟩
  revert hthere
  decide

end FactorSage
