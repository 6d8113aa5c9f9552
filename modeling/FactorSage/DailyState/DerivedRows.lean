import FactorSage.DailyState.StatementColumns
import FactorSage.Technicals.DerivedState

/-!
# The derived row of a trading day

`computeDailyDerivedState` calculates the rows of a whole history: the price indicators and the
completed weeks, and the two statement families merged onto them by date, the intrinsic one on the
research scale of the stored closes.

A row is decided by what is dated up to its day (`derivedRow_congr`): the bars, the statements
available, and the recorded re-bases. It does not show through which cutoff the history was
calculated, nor from which date on the rows were to be written.
-/

namespace FactorSage.DailyState

open CarryForward Fundamentals Intrinsic Statements Technicals
open Rebase (BasisFactor PriceBasisEvent basisFactorAt)

variable {F H : Type}

/-! ### Listing evidence -/

/-- The earlier of the IPO date and the first bar; none without an IPO date. -/
def listingFloor (ipoDate earliestPriceDate : Option ℤ) : Option ℤ :=
  ipoDate.map fun ipo => earliestPriceDate.elim ipo fun earliest =>
    if earliest < ipo then earliest else ipo

def startsAtListing (ipoDate : Option ℤ) (historyStart : ℤ) : Bool :=
  ipoDate.any fun ipo => historyStart ≤ ipo && startOfIsoWeek ipo = startOfIsoWeek historyStart

def weeklyHistoryContext (ipoDate : Option ℤ) (historyStart : ℤ) : WeeklyHistoryContext where
  historyStart
  historyStartOrigin := if startsAtListing ipoDate historyStart then .LISTING else .HORIZON

/-- A revision of a period before the listing counts only on a real filing date. -/
def statementsWithEvidencedAvailability (statements : List (Revision F H)) (floor : Option ℤ) :
    List (Revision F H) :=
  match floor with
  | none => statements
  | some floor => statements.filter fun statement =>
      floor ≤ statement.fiscalDate || statement.hasProviderFilingDate

/-! ### The share basis -/

section ShareBasis

variable [LinearOrder H]

def SHARE_BASIS : String := "share basis"

/-- The security's quarterly Income revisions. -/
def incomeQuarters (statements : List (Revision F H)) (securityId : String) :
    List (Revision F H) :=
  statements.filter fun statement =>
    statement.securityId = securityId && statement.statementType = .income
      && isFiscalQuarterPeriod statement.period

/-- The latest quarterly Income revision of a date. -/
def shareRevisionOn (income : List (Revision F H)) (date : CalendarDay) : Option (Revision F H) :=
  latestFiscalQuarterStatement (indexFiscalQuarters
    (selectFinancialStatements income ⟨none, some .quarterly, none, none, some date⟩) .income)

/-- The share-count revision of each trading day, read on the events and carried between them. -/
def shareRevisionsByDate (request : StatementEvaluationRequest (StatementValues F) H) :
    Except DuplicateTradingDate (List (CalendarDay × Option (Revision F H))) := do
  let dates ← normalizeTradingDates request.tradingDates SHARE_BASIS
  let income := incomeQuarters request.statements request.securityId
  let events ← planStatementEvaluationDates
    { securityId := request.securityId, tradingDates := dates, statements := income } SHARE_BASIS
  return carryForward (fun date => date ∈ events) (shareRevisionOn income) none dates

def carriesIntrinsicValue (state : IntrinsicSnapshot F) : Bool :=
  state.intrinsicValues.any (!·.keys.isEmpty) || state.intrinsicValueBlends.any (!·.keys.isEmpty)

variable [JsNumber F]

omit [LinearOrder H] in
/-- Every per-share value of a day multiplied; provenance and currency unchanged. -/
def scaled (state : IntrinsicSnapshot F) (factor : F) : IntrinsicSnapshot F :=
  { state with
    intrinsicValues := state.intrinsicValues.map (·.mapValues (· * factor))
    intrinsicValueBlends := state.intrinsicValueBlends.map (·.mapValues (· * factor)) }

/-- One day's state on the research scale of the stored closes, from its share revision. -/
def onResearchScale (events : List PriceBasisEvent) (date : CalendarDay)
    (revision : Option (Revision F H)) (state : IntrinsicSnapshot F) : IntrinsicSnapshot F :=
  if !carriesIntrinsicValue state then state
  else
    match revision with
    | none => EMPTY_SNAPSHOT
    | some revision =>
      match basisFactorAt date revision.observedAt events with
      | .WITHHELD _ => EMPTY_SNAPSHOT
      | .FACTOR factor =>
        if factor = 1 then state else scaled state (JsNumber.ofDecimal (1 / factor))

/-- The states on the research scale; without a measured re-base they are what they were. -/
def applyPriceBasisToIntrinsicStates (states : List (CalendarDay × IntrinsicSnapshot F))
    (securityId : String) (statements : List (Revision F H)) (events : List PriceBasisEvent) :
    Except DuplicateTradingDate (List (CalendarDay × IntrinsicSnapshot F)) := do
  if events.isEmpty || states.isEmpty then return states
  let revisions ← shareRevisionsByDate ⟨securityId, states.map Prod.fst, statements⟩
  return states.map fun state =>
    (state.1, onResearchScale events state.1
      ((OrderedMap.ofList revisions).get? state.1).join state.2)

end ShareBasis

/-! ### The rows -/

/-- The unified row of a trading day. -/
structure DerivedRow (F : Type) where
  technical : TechnicalRow
  fundamentals : FundamentalMetricSnapshot F
  intrinsic : IntrinsicSnapshot F

/-- What the venue schedule answers, and the year of a date. -/
structure VenueSchedule where
  yearOf : ℤ → ℤ
  isScheduledSession : ℤ → Option Bool

/-- What PostgreSQL holds of a security for its derived rows to be calculated from. -/
structure StoredInputs (F H : Type) where
  securityId : String
  ipoDate : Option ℤ
  /-- By date. -/
  prices : List DailyPrice
  statements : List (Revision F H)
  events : List PriceBasisEvent

section Compute

variable [JsNumber F] [LinearOrder H]

/-- The rows of the history through a cutoff. The schedule is asked for the weeks from the one of
`writtenFrom` on. -/
def computeDailyDerivedState (schedule : VenueSchedule) (stored : StoredInputs F H)
    (targetFrom targetTo : ℤ) (writtenFrom : Option ℤ) :
    Except DuplicateTradingDate (List (DerivedRow F)) := do
  let bars := Technicals.barsUpTo stored.prices targetTo
  let firstBar := bars.head?.map (·.date)
  let history := weeklyHistoryContext stored.ipoDate (firstBar.getD targetFrom)
  let request : StatementEvaluationRequest (StatementValues F) H :=
    { securityId := stored.securityId
      tradingDates := bars.map (·.date)
      statements := statementsWithEvidencedAvailability stored.statements
        (listingFloor stored.ipoDate firstBar) }
  let fundamentalStates ← materializeDailyFundamentals request
  let intrinsicStates ← applyPriceBasisToIntrinsicStates (← materializeDailyIntrinsicValues request)
    stored.securityId request.statements stored.events
  return (rowsAt schedule.yearOf schedule.isScheduledSession (some history)
      (writtenFrom.map startOfIsoWeek) stored.prices targetTo).map fun row =>
    { technical := row
      fundamentals := ((OrderedMap.ofList fundamentalStates).get? row.date).getD .empty
      intrinsic := ((OrderedMap.ofList intrinsicStates).get? row.date).getD EMPTY_SNAPSHOT }

/-- The row of a date. -/
def derivedRowOn (rows : List (DerivedRow F)) (date : ℤ) : Option (DerivedRow F) :=
  rows.find? (·.technical.date = date)

/-- A date's row of the whole history. -/
def derivedRow (schedule : VenueSchedule) (stored : StoredInputs F H) (targetFrom targetTo : ℤ)
    (writtenFrom : Option ℤ) (date : ℤ) : Option (DerivedRow F) :=
  (computeDailyDerivedState schedule stored targetFrom targetTo writtenFrom).toOption.bind
    fun rows => derivedRowOn rows date

end Compute

/-! ### The share revision of every trading day -/

section Fresh

variable [LinearOrder H]

/-- The share revision of a date is that of the statements available on it. -/
theorem shareRevisionOn_congr {income income' : List (Revision F H)} {date date' : CalendarDay}
    (h : availableOn income date = availableOn income' date') :
    shareRevisionOn income date = shareRevisionOn income' date' := by
  unfold shareRevisionOn
  rw [select_congr (some .quarterly) h]

/-- It moves only when an Income revision becomes available. -/
theorem constantBetween_shareRevisionOn (income : List (Revision F H)) :
    ConstantBetween (income.map fun statement => statement.availableFromDate)
      (shareRevisionOn income) := by
  intro a b hle hnone
  apply shareRevisionOn_congr
  apply availableOn_between hle
  intro statement hmem hafter
  exact hnone _ (List.mem_map_of_mem hmem) hafter

omit [LinearOrder H] in
theorem ofSecurity_incomeQuarters (statements : List (Revision F H)) (securityId : String) :
    ofSecurity (incomeQuarters statements securityId) securityId
      = incomeQuarters statements securityId := by
  refine List.filter_eq_self.mpr fun statement hmem => ?_
  have hincome := (List.mem_filter.mp hmem).2
  simp only [Bool.and_eq_true] at hincome
  exact hincome.1.1

theorem shareRevisionsByDate_eq (request : StatementEvaluationRequest (StatementValues F) H)
    (hnodup : request.tradingDates.Nodup) :
    shareRevisionsByDate request
      = .ok ((request.tradingDates.insertionSort (· ≤ ·)).map fun date =>
        (date, shareRevisionOn (incomeQuarters request.statements request.securityId) date)) := by
  have hnormal := normalizeTradingDates_eq_ok hnodup SHARE_BASIS
  unfold shareRevisionsByDate
  rw [hnormal]
  by_cases hempty : request.tradingDates.insertionSort (· ≤ ·) = []
  · rw [hempty]
    rfl
  · have hconstant : ConstantBetween
        ((ofSecurity (incomeQuarters request.statements request.securityId) request.securityId).map
          fun statement => statement.availableFromDate)
        (shareRevisionOn (incomeQuarters request.statements request.securityId)) := by
      rw [ofSecurity_incomeQuarters]
      exact constantBetween_shareRevisionOn _
    obtain ⟨planned, hplanned, hcarried⟩ := carryForward_planned
      { securityId := request.securityId
        tradingDates := request.tradingDates.insertionSort (· ≤ ·)
        statements := incomeQuarters request.statements request.securityId }
      (AscendingList.sorted_ascending hnodup) (normalizeTradingDates_sorted hnodup SHARE_BASIS)
      hempty hconstant
    simp only [bind, Except.bind, hplanned]
    exact congrArg Except.ok (hcarried none)

end Fresh

/-! ### What a row is -/

section Columns

/-- A map of every date to its value holds the values of its dates. -/
theorem get?_ofList_map {A : Type} {dates : List ℤ} (hnodup : dates.Nodup) (value : ℤ → A)
    {date : ℤ} (hdate : date ∈ dates) :
    (OrderedMap.ofList (dates.map fun d => (d, value d))).get? date = some (value date) := by
  apply (OrderedMap.get?_ofList_iff ?_).mpr
  · exact List.mem_map.mpr ⟨date, hdate, rfl⟩
  · simpa [Function.comp_def] using hnodup

variable [JsNumber F] [LinearOrder H]

/-- The statements a day's columns are evaluated from. -/
def evidencedStatements (stored : StoredInputs F H) (firstBar : Option ℤ) (date : ℤ) :
    List (Revision F H) :=
  availableOn (statementsWithEvidencedAvailability stored.statements
    (listingFloor stored.ipoDate firstBar)) date

/-- The intrinsic columns of a day, from the statements available on it. -/
def intrinsicOn (stored : StoredInputs F H) (statements : List (Revision F H)) (date : ℤ) :
    IntrinsicSnapshot F :=
  let state := freshIntrinsicValues stored.securityId date statements
  if stored.events.isEmpty then state
  else onResearchScale stored.events date
    (shareRevisionOn (incomeQuarters statements stored.securityId) date) state

theorem applyPriceBasis_eq {dates : List ℤ} (hnodup : dates.Nodup) {securityId : String}
    (state : ℤ → IntrinsicSnapshot F) (statements : List (Revision F H))
    (events : List PriceBasisEvent) :
    applyPriceBasisToIntrinsicStates (dates.map fun date => (date, state date)) securityId statements
        events
      = .ok (dates.map fun date => (date, if events.isEmpty then state date
          else onResearchScale events date
            (shareRevisionOn (incomeQuarters statements securityId) date) (state date))) := by
  unfold applyPriceBasisToIntrinsicStates
  by_cases hevents : events = []
  · simp [hevents, pure, Except.pure]
  · by_cases hdates : dates = []
    · subst hdates
      simp [pure, Except.pure]
    · have hfst : (dates.map fun date => (date, state date)).map Prod.fst = dates := by
        simp [Function.comp_def]
      rw [if_neg (by simp [hevents, hdates]), hfst, shareRevisionsByDate_eq _ hnodup]
      simp only [bind, Except.bind, pure, Except.pure, List.map_map, Function.comp_def,
        List.isEmpty_iff, hevents, if_false]
      refine congrArg Except.ok (List.map_congr_left fun date hdate => ?_)
      have hperm := List.perm_insertionSort (· ≤ ·) dates
      rw [get?_ofList_map (hperm.nodup_iff.mpr hnodup) _ (hperm.mem_iff.mpr hdate)]
      rfl

omit [JsNumber F] [LinearOrder H] in
theorem availableOn_incomeQuarters (statements : List (Revision F H)) (securityId : String)
    (date : CalendarDay) :
    availableOn (incomeQuarters (availableOn statements date) securityId) date
      = availableOn (incomeQuarters statements securityId) date := by
  have hcomm := List.filter_comm (fun statement : Revision F H =>
    statement.securityId = securityId && statement.statementType = .income
      && isFiscalQuarterPeriod statement.period)
    (fun statement => decide (statement.availableFromDate ≤ date)) statements
  unfold incomeQuarters availableOn
  rw [hcomm, List.filter_filter]
  exact List.filter_congr fun _ _ => Bool.and_self _

/-- **A row, column by column**: the technical row of the history, and what the two statement
families give of the statements available on its day. -/
theorem derivedRow_eq {schedule : VenueSchedule} {stored : StoredInputs F H}
    {targetFrom targetTo date : ℤ} {writtenFrom : Option ℤ}
    (hnodup : (stored.prices.map (·.date)).Nodup)
    (hdate : date ∈ stored.prices.map (·.date)) (hle : date ≤ targetTo) :
    let firstBar := (Technicals.barsUpTo stored.prices targetTo).head?.map (·.date)
    let statements := evidencedStatements stored firstBar date
    derivedRow schedule stored targetFrom targetTo writtenFrom date
      = (technicalRow (rowsAt schedule.yearOf schedule.isScheduledSession
          (some (weeklyHistoryContext stored.ipoDate (firstBar.getD targetFrom)))
          (writtenFrom.map startOfIsoWeek) stored.prices targetTo) date).map fun row =>
        ⟨row, freshFundamentals stored.securityId date statements, intrinsicOn stored statements date⟩
    := by
  intro firstBar statements
  have hbars := barsUpTo_nodup hnodup targetTo
  have hmem : date ∈ (Technicals.barsUpTo stored.prices targetTo).map (·.date) := by
    obtain ⟨bar, hbar, rfl⟩ := List.mem_map.mp hdate
    exact List.mem_map.mpr ⟨bar, mem_barsUpTo.mpr ⟨hbar, hle⟩, rfl⟩
  have hperm := List.perm_insertionSort (· ≤ ·)
    ((Technicals.barsUpTo stored.prices targetTo).map (·.date))
  have hsorted := hperm.nodup_iff.mpr hbars
  have hmemSorted := hperm.mem_iff.mpr hmem
  unfold derivedRow computeDailyDerivedState derivedRowOn
  dsimp only
  rw [materializeDailyFundamentals_eq _ hbars, materializeDailyIntrinsicValues_eq _ hbars]
  simp only [bind, Except.bind]
  rw [applyPriceBasis_eq hsorted]
  simp only [pure, Except.pure, Except.toOption, Option.bind_some, List.find?_map]
  change Option.map _ ((rowsAt _ _ _ _ _ _).find? (·.date = date)) = Option.map _ (technicalRow _ _)
  refine Option.map_congr fun row hrow => ?_
  have hrowDate : row.date = date := by simpa using List.find?_some hrow
  have hrevision := shareRevisionOn_congr (availableOn_incomeQuarters
    (statementsWithEvidencedAvailability stored.statements (listingFloor stored.ipoDate firstBar))
    stored.securityId date)
  rw [hrowDate, get?_ofList_map hsorted _ hmemSorted, get?_ofList_map hsorted _ hmemSorted,
    Option.getD_some, Option.getD_some, ← hrevision]
  rfl

end Columns

/-! ### What a row reads -/

section Reads

/-- Two stored states are alike up to a date. -/
structure AgreeOn (date : ℤ) (stored other : StoredInputs F H) : Prop where
  securityId : stored.securityId = other.securityId
  ipoDate : stored.ipoDate = other.ipoDate
  prices : Technicals.barsUpTo stored.prices date = Technicals.barsUpTo other.prices date
  statements : availableOn stored.statements date = availableOn other.statements date
  events : stored.events = other.events

/-- Bars as the store and the venue have them: by date, one a day, on days that were sessions. -/
structure SessionBars (schedule : VenueSchedule) (prices : List DailyPrice) : Prop where
  sorted : prices.Pairwise fun a b => a.date < b.date
  weekdays : ∀ bar ∈ prices, IsWeekday bar.date
  opened : ∀ bar ∈ prices, schedule.isScheduledSession bar.date ≠ some false

variable {schedule : VenueSchedule}

theorem SessionBars.nodup {prices : List DailyPrice}
    (h : SessionBars schedule prices) : (prices.map (·.date)).Nodup :=
  List.pairwise_map.mpr (h.sorted.imp fun hlt => hlt.ne)

/-- A history starts with its first bar, through whichever cutoff on or after a bar of it. -/
theorem SessionBars.head?_barsUpTo {prices : List DailyPrice}
    (h : SessionBars schedule prices) {date cutoff : ℤ} (hdate : date ∈ prices.map (·.date))
    (hle : date ≤ cutoff) : (Technicals.barsUpTo prices cutoff).head? = prices.head? := by
  cases prices with
  | nil => rfl
  | cons first rest =>
    have hfirst : first.date ≤ cutoff := by
      obtain ⟨bar, hbar, rfl⟩ := List.mem_map.mp hdate
      rcases List.mem_cons.mp hbar with rfl | hbar
      · exact hle
      · exact ((List.pairwise_cons.mp h.sorted).1 bar hbar).le.trans hle
    unfold Technicals.barsUpTo
    rw [List.filter_cons_of_pos (by simpa using hfirst)]
    rfl

variable {stored other : StoredInputs F H}

theorem AgreeOn.mem_prices {date : ℤ}
    (h : AgreeOn date stored other) (hdate : date ∈ stored.prices.map (·.date)) :
    date ∈ other.prices.map (·.date) := by
  obtain ⟨bar, hbar, rfl⟩ := List.mem_map.mp hdate
  have hupTo : bar ∈ Technicals.barsUpTo other.prices bar.date :=
    h.prices ▸ mem_barsUpTo.mpr ⟨hbar, le_rfl⟩
  exact List.mem_map.mpr ⟨bar, (mem_barsUpTo.mp hupTo).1, rfl⟩

/-- The evidence of a listing is the same for both, so what is read of the statements is. -/
theorem evidencedStatements_congr {date : ℤ} (h : AgreeOn date stored other) (firstBar : Option ℤ) :
    evidencedStatements stored firstBar date = evidencedStatements other firstBar date := by
  have hcut : ∀ (statements : List (Revision F H)) (floor : Option ℤ),
      availableOn (statementsWithEvidencedAvailability statements floor) date
        = statementsWithEvidencedAvailability (availableOn statements date) floor := by
    intro statements floor
    cases floor with
    | none => rfl
    | some floor => exact List.filter_comm _ _ _
  unfold evidencedStatements
  rw [hcut, hcut, h.statements, h.ipoDate]

/-- The weeks from one up to a date's own are asked about. -/
theorem not_any_startOfIsoWeek {writtenFrom : Option ℤ} {date : ℤ}
    (h : ∀ first ∈ writtenFrom, first ≤ date) :
    ¬ (writtenFrom.map startOfIsoWeek).any (startOfIsoWeek date < ·) := by
  cases writtenFrom with
  | none => simp
  | some first =>
    have hweek := startOfIsoWeek_mono (h first rfl)
    simpa using hweek

variable [JsNumber F] [LinearOrder H]

/-- **A row reads what is dated up to its day.** Two stored states that are alike up to a date with
a bar have one row on it, whichever cutoffs on or after it they are calculated through and whichever
dates up to it the rows are to be written from. -/
theorem derivedRow_congr (hyears : AnswersByYear schedule.yearOf schedule.isScheduledSession)
    (h : SessionBars schedule stored.prices) (hother : SessionBars schedule other.prices) {date : ℤ}
    (hagree : AgreeOn date stored other) (hdate : date ∈ stored.prices.map (·.date))
    {targetTo targetTo' : ℤ} (hle : date ≤ targetTo) (hle' : date ≤ targetTo')
    {writtenFrom writtenFrom' : Option ℤ} (hfrom : ∀ first ∈ writtenFrom, first ≤ date)
    (hfrom' : ∀ first ∈ writtenFrom', first ≤ date) (targetFrom targetFrom' : ℤ) :
    derivedRow schedule stored targetFrom targetTo writtenFrom date
      = derivedRow schedule other targetFrom' targetTo' writtenFrom' date := by
  have hdate' := hagree.mem_prices hdate
  -- both histories start with one bar, and are read through the date's own cutoff
  have hhead : stored.prices.head? = other.prices.head? := by
    rw [← h.head?_barsUpTo hdate le_rfl, hagree.prices, hother.head?_barsUpTo hdate' le_rfl]
  obtain ⟨first, hfirst⟩ : ∃ first, other.prices.head? = some first := by
    refine Option.ne_none_iff_exists'.mp fun hnone => ?_
    rw [List.head?_eq_none_iff.mp hnone] at hdate'
    cases hdate'
  have htechnical : ∀ {stored : StoredInputs F H}, SessionBars schedule stored.prices →
      date ∈ stored.prices.map (·.date) → ∀ {cutoff : ℤ}, date ≤ cutoff →
      ∀ {writtenFrom : Option ℤ}, (∀ first ∈ writtenFrom, first ≤ date) → ∀ history,
      technicalRow (rowsAt schedule.yearOf schedule.isScheduledSession history
          (writtenFrom.map startOfIsoWeek) stored.prices cutoff) date
        = technicalRow (rowsAt schedule.yearOf schedule.isScheduledSession history none
          stored.prices date) date := by
    intro stored h hdate cutoff hle writtenFrom hfrom history
    exact technicalRow_rowsAt h.nodup h.weekdays h.opened hdate hle (by simp)
      (not_any_startOfIsoWeek hfrom) (.inl hyears)
  have hrows : ∀ history, rowsAt schedule.yearOf schedule.isScheduledSession history none
      stored.prices date
        = rowsAt schedule.yearOf schedule.isScheduledSession history none other.prices date := by
    intro history
    unfold rowsAt
    rw [hagree.prices]
  have hintrinsic : ∀ statements,
      intrinsicOn stored statements date = intrinsicOn other statements date := by
    intro statements
    unfold intrinsicOn
    rw [hagree.securityId, hagree.events]
  rw [derivedRow_eq h.nodup hdate hle, derivedRow_eq hother.nodup hdate' hle',
    h.head?_barsUpTo hdate hle, hother.head?_barsUpTo hdate' hle', hhead, hfirst,
    htechnical h hdate hle hfrom, htechnical hother hdate' hle' hfrom', hrows,
    evidencedStatements_congr hagree, hintrinsic, hagree.securityId, hagree.ipoDate]
  rfl

/-- What was dated up to a day. -/
def StoredInputs.upTo (stored : StoredInputs F H) (date : ℤ) : StoredInputs F H :=
  { stored with
    prices := Technicals.barsUpTo stored.prices date
    statements := availableOn stored.statements date }

omit [JsNumber F] [LinearOrder H] in
theorem agreeOn_upTo (date : ℤ) (stored : StoredInputs F H) :
    AgreeOn date stored (stored.upTo date) := by
  refine ⟨rfl, rfl, ?_, ?_, rfl⟩
  · exact (barsUpTo_barsUpTo le_rfl).symm
  · unfold StoredInputs.upTo availableOn
    rw [List.filter_filter]
    exact List.filter_congr fun _ _ => (Bool.and_self _).symm

/-- **No hindsight.** The row that a rebuild gives a session, from whichever date on and through
whichever cutoff, is the row of the history that ended on its day: no later bar and no revision that
became available later is in it. -/
theorem derivedRow_eq_upTo {schedule : VenueSchedule} {stored : StoredInputs F H}
    (hyears : AnswersByYear schedule.yearOf schedule.isScheduledSession)
    (h : SessionBars schedule stored.prices) {date : ℤ}
    (hdate : date ∈ stored.prices.map (·.date)) {targetTo : ℤ} (hle : date ≤ targetTo)
    {writtenFrom : Option ℤ} (hfrom : ∀ first ∈ writtenFrom, first ≤ date) (targetFrom : ℤ) :
    derivedRow schedule stored targetFrom targetTo writtenFrom date
      = derivedRow schedule (stored.upTo date) targetFrom date none date := by
  have hcut : SessionBars schedule (stored.upTo date).prices := by
    refine ⟨h.sorted.filter _, fun bar hbar => ?_, fun bar hbar => ?_⟩
    · exact h.weekdays bar (mem_barsUpTo.mp hbar).1
    · exact h.opened bar (mem_barsUpTo.mp hbar).1
  exact derivedRow_congr hyears h hcut (agreeOn_upTo date stored) hdate hle le_rfl hfrom (by simp)
    targetFrom targetFrom

/-- A Thursday and the Friday behind it. -/
def twoSessions : StoredInputs ExactNumber ℕ :=
  ⟨"s", none, [⟨"s", 0, 1, 1, 1, 1, none⟩, ⟨"s", 1, 2, 2, 2, 2, none⟩], [], []⟩

theorem derivedRow_upTo_thursday :
    derivedRow ⟨fun _ => 0, fun _ => none⟩ twoSessions 0 1 (some 0) 0
      = derivedRow ⟨fun _ => 0, fun _ => none⟩ (twoSessions.upTo 0) 0 0 none 0 :=
  derivedRow_eq_upTo (fun _ _ _ _ => rfl)
    ⟨by simp [twoSessions], by simp [twoSessions, IsWeekday, getUTCDay], by simp⟩
    (by simp [twoSessions]) (by simp) (by simp) 0

end Reads

end FactorSage.DailyState
