import FactorSage.IndexMembership.Conservation

/-!
# Forward histories

An index as time runs: its members, and each date of a change log that takes the removed ones out
and then lets the added ones in. A history without renames is clean where every removal names a
member and no two members ever hold one ticker.

A stint is one stay of an issuer, with the date and the change of each end the log knows. What a
reconstruction owes to a stint is one period, from the day after it joined to the day before it
left, or a report where that leaves no day.
-/

namespace FactorSage.IndexMembership

/-- One stay in the index. -/
structure Stint where
  ticker : String
  /-- The date and the change of its addition; none where it was there before the log. -/
  joined : Option (ℤ × String)
  /-- The date and the change of its removal. -/
  left : Option (ℤ × String)
  deriving DecidableEq

namespace Stint

/-- The stint while it lasts. -/
def opened (stint : Stint) : Stint := { stint with left := none }

/-- The last day certainly in the index. -/
def lastDay (stint : Stint) : Option ℤ := stint.left.map fun removal => removal.1 - 1

/-- No day lies between the two ends. -/
def isEmpty (stint : Stint) : Bool :=
  ∃ addition ∈ stint.joined, ∃ last ∈ stint.lastDay, last < addition.1 + 1

/-- The period of a stint. -/
def period (stint : Stint) : ReconstructedPeriod where
  startDate := stint.joined.map fun addition => addition.1 + 1
  startLogDate := stint.joined.map Prod.fst
  endDate := stint.lastDay
  endLogDate := none
  quality := if stint.joined = none then .START_BEFORE_LOG else .CONFIRMED
  startChangeHash := stint.joined.map Prod.snd
  endChangeHash := stint.left.map Prod.snd
  startMatch := stint.joined.map fun _ => .EXACT_TICKER

/-- The constituent a stint leaves behind: its ticker and its one period. -/
def entry (stint : Stint) : Option (String × List ReconstructedPeriod) :=
  if stint.isEmpty then none else some (stint.ticker, [stint.period])

/-- The report of a stint without a day. -/
def report (stint : Stint) : Option ReconstructionAnomaly :=
  if stint.isEmpty then
    stint.joined.map fun addition => .NO_CONFIRMED_SESSION addition.1 stint.ticker addition.2
  else none

end Stint

/-- An index at some date: its members, and the stints that ended. -/
structure History where
  members : List Stint
  ended : List Stint

def History.stints (history : History) : List Stint := history.ended ++ history.members

def History.tickers (history : History) : List String := history.members.map Stint.ticker

/-- Before the log. -/
def History.start (initial : List String) : History where
  members := initial.map fun ticker => ⟨ticker, none, none⟩
  ended := []

/-! ### One date -/

def logOn (log : List IndexChange) (date : ℤ) : List IndexChange :=
  log.filter fun change => change.effectiveDate = date

/-- The stint an addition begins. -/
def joinedBy (change : IndexChange) : Option Stint :=
  (present change.addedTicker).map fun ticker =>
    ⟨ticker, some (change.effectiveDate, change.contentHash), none⟩

def removedTickers (changes : List IndexChange) : List String :=
  changes.filterMap fun change => present change.removedTicker

/-- The stint a removal ends. -/
def endedBy (members : List Stint) (change : IndexChange) : Option Stint :=
  (present change.removedTicker).bind fun ticker =>
    (members.find? fun member => member.ticker = ticker).map fun member =>
      { member with left := some (change.effectiveDate, change.contentHash) }

/-- The removals of a date, then its additions. -/
def History.cross (log : List IndexChange) (history : History) (date : ℤ) : History where
  members := (history.members.filter fun member => member.ticker ∉ removedTickers (logOn log date))
    ++ (logOn log date).filterMap joinedBy
  ended := history.ended ++ (logOn log date).filterMap (endedBy history.members)

/-! ### The whole log -/

/-- The dates of a log, oldest first. -/
def logDates (log : List IndexChange) : List ℤ :=
  (log.map IndexChange.effectiveDate).dedup.insertionSort (· ≤ ·)

def historyAfter (log : List IndexChange) (initial : List String) (dates : List ℤ) : History :=
  dates.foldl (History.cross log) (History.start initial)

/-- A date whose removals name members, each once, and whose additions leave the tickers
distinct. -/
structure CleanDay (log : List IndexChange) (history : History) (date : ℤ) : Prop where
  removed : (removedTickers (logOn log date)).Nodup
  held : ∀ ticker ∈ removedTickers (logOn log date), ticker ∈ history.tickers
  distinct : (history.cross log date).tickers.Nodup

/-- A forward history without renames. -/
structure CleanHistory (log : List IndexChange) (initial : List String) : Prop where
  distinct : initial.Nodup
  days : ∀ front date back, logDates log = front ++ date :: back →
    CleanDay log (historyAfter log initial front) date

/-- Where the log leads. -/
def finalHistory (log : List IndexChange) (initial : List String) : History :=
  historyAfter log initial (logDates log)

theorem historyAfter_snoc (log : List IndexChange) (initial : List String) (dates : List ℤ)
    (date : ℤ) : historyAfter log initial (dates ++ [date])
      = (historyAfter log initial dates).cross log date := by
  unfold historyAfter
  rw [List.foldl_append]
  rfl

theorem nodup_logDates (log : List IndexChange) : (logDates log).Nodup :=
  (List.perm_insertionSort _ _).nodup_iff.mpr (List.nodup_dedup _)

/-- The tickers of the members are distinct at all times. -/
theorem CleanHistory.nodup_tickers {log : List IndexChange} {initial : List String}
    (h : CleanHistory log initial) {front back : List ℤ} (hdates : logDates log = front ++ back) :
    (historyAfter log initial front).tickers.Nodup := by
  rcases List.eq_nil_or_concat front with rfl | ⟨earlier, date, rfl⟩
  · change (List.map Stint.ticker (initial.map _)).Nodup
    rw [List.map_map]
    exact (List.map_id initial).symm ▸ h.distinct
  · rw [List.concat_eq_append] at hdates ⊢
    rw [historyAfter_snoc]
    rw [List.append_assoc] at hdates
    exact (h.days earlier date back hdates).distinct

/-- The members a date takes out, as its removals name them. -/
theorem perm_endedBy {members : List Stint} (hmembers : (members.map Stint.ticker).Nodup)
    {day : List IndexChange} (hremoved : (removedTickers day).Nodup)
    (hheld : ∀ ticker ∈ removedTickers day, ticker ∈ members.map Stint.ticker)
    (hopened : ∀ member ∈ members, member.opened = member) :
    ((day.filterMap (endedBy members)).map Stint.opened).Perm
      (members.filter fun member => member.ticker ∈ removedTickers day) := by
  have htickers : (((day.filterMap (endedBy members)).map Stint.opened).map Stint.ticker)
      = removedTickers day := by
    rw [List.map_map]
    clear hremoved
    induction day with
    | nil => rfl
    | cons change day ih =>
      unfold removedTickers at hheld ⊢
      rw [List.filterMap_cons] at hheld ⊢
      rw [List.filterMap_cons]
      unfold endedBy
      cases hpresent : present change.removedTicker with
      | none =>
        rw [hpresent] at hheld
        exact ih hheld
      | some ticker =>
        rw [hpresent] at hheld
        obtain ⟨member, hmember, hticker⟩ := List.mem_map.mp (hheld ticker List.mem_cons_self)
        have hfound : ∃ found,
            members.find? (fun member => member.ticker = ticker) = some found := by
          refine Option.isSome_iff_exists.mp (List.find?_isSome.mpr ⟨member, hmember, ?_⟩)
          exact decide_eq_true hticker
        obtain ⟨found, hfound⟩ := hfound
        have hsame : found.ticker = ticker := of_decide_eq_true (List.find?_some hfound :)
        dsimp only [Option.bind_some]
        rw [hfound]
        dsimp only [Option.map_some]
        rw [List.map_cons]
        congr 1
        exact ih fun other hother => hheld other (List.mem_cons_of_mem _ hother)
  refine (List.perm_ext_iff_of_nodup (List.Nodup.of_map Stint.ticker (htickers.symm ▸ hremoved))
    (List.filter_sublist.nodup (List.Nodup.of_map Stint.ticker hmembers))).mpr fun stint => ?_
  have hinj := List.inj_on_of_nodup_map hmembers
  -- what a removal ends is the member of its ticker
  have hfrom : ∀ stint ∈ (day.filterMap (endedBy members)).map Stint.opened, stint ∈ members := by
    intro stint hstint
    obtain ⟨ended, hended, rfl⟩ := List.mem_map.mp hstint
    obtain ⟨change, -, hchange⟩ := List.mem_filterMap.mp hended
    obtain ⟨ticker, -, hchange⟩ := Option.bind_eq_some_iff.mp hchange
    obtain ⟨member, hmember, rfl⟩ := Option.map_eq_some_iff.mp hchange
    have hmem := List.mem_of_find?_eq_some hmember
    exact (hopened member hmem).symm ▸ hmem
  rw [List.mem_filter, decide_eq_true_iff]
  constructor
  · intro hstint
    exact ⟨hfrom stint hstint, htickers ▸ List.mem_map_of_mem hstint⟩
  · rintro ⟨hmem, hticker⟩
    rw [← htickers] at hticker
    obtain ⟨other, hother, hsame⟩ := List.mem_map.mp hticker
    exact hinj (hfrom other hother) hmem hsame ▸ hother

/-- A member's stint has not ended. -/
theorem opened_historyAfter (log : List IndexChange) (initial : List String) (dates : List ℤ) :
    ∀ member ∈ (historyAfter log initial dates).members, member.opened = member := by
  induction dates using List.reverseRecOn with
  | nil =>
    intro member hmember
    obtain ⟨ticker, -, rfl⟩ := List.mem_map.mp hmember
    rfl
  | append_singleton dates date ih =>
    intro member hmember
    rw [historyAfter_snoc] at hmember
    rcases List.mem_append.mp hmember with hmember | hmember
    · exact ih member (List.mem_filter.mp hmember).1
    · obtain ⟨change, -, hchange⟩ := List.mem_filterMap.mp hmember
      obtain ⟨ticker, -, rfl⟩ := Option.map_eq_some_iff.mp hchange
      rfl

end FactorSage.IndexMembership
