import FactorSage.Fundamentals.FundamentalMetrics
import FactorSage.Statements.EveryTradingDay

/-!
# Daily Fundamental Metrics

The fifteen metrics of every trading day: evaluated on the events of the security's quarterly
statements, and carried between them, absence included. Every day has what an evaluation of it alone
gives (`materializeDailyFundamentals_fresh`).
-/

namespace FactorSage.Fundamentals

open AscendingList CarryForward Statements

variable {F H : Type} [JsNumber F] [LinearOrder H]

abbrev DailyFundamentalMaterializationRequest (F H : Type) :=
  StatementEvaluationRequest (StatementValues F) H

def MATERIALIZATION : String := "fundamental materialization"

omit [JsNumber F] [LinearOrder H] in
/-- The only statements a metric reads: the security's standalone quarterly rows. -/
def fundamentalSourceStatements (request : DailyFundamentalMaterializationRequest F H) :
    List (Revision F H) :=
  request.statements.filter fun statement =>
    statement.securityId = request.securityId && isFiscalQuarterPeriod statement.period

/-- The metrics of every trading day, evaluated on the events only. -/
def materializeDailyFundamentals (request : DailyFundamentalMaterializationRequest F H) :
    Except DuplicateTradingDate (List (CalendarDay × FundamentalMetricSnapshot F)) := do
  let sortedDates ← normalizeTradingDates request.tradingDates MATERIALIZATION
  if sortedDates.isEmpty then return []
  let statements := fundamentalSourceStatements request
  let evaluationDates ← planStatementEvaluationDates
    { securityId := request.securityId, tradingDates := sortedDates, statements } MATERIALIZATION
  return carryForward (fun date => date ∈ evaluationDates)
    (fun date => evaluateFundamentalMetrics { securityId := request.securityId, date, statements })
    .empty sortedDates

/-- The metrics of one day, from some statements. -/
def freshFundamentals (securityId : String) (date : CalendarDay)
    (statements : List (Revision F H)) : FundamentalMetricSnapshot F :=
  evaluateFundamentalMetrics { securityId, date, statements }

/-! ### What an evaluation reads -/

omit [JsNumber F] in
/-- The quarters eligible on a date are those of the statements available on it. -/
theorem eligibleQuarters_congr {l l' : List (Revision F H)} {securityId : String}
    {date date' : CalendarDay}
    (h : availableOn (ofSecurity l securityId) date
      = availableOn (ofSecurity l' securityId) date') :
    eligibleQuarters l securityId date = eligibleQuarters l' securityId date' :=
  select_congr (some .quarterly) h

omit [JsNumber F] in
/-- Annual statements and those of other securities are not among the eligible quarters. -/
theorem eligibleQuarters_source (request : DailyFundamentalMaterializationRequest F H)
    (date : CalendarDay) :
    eligibleQuarters (fundamentalSourceStatements request) request.securityId date
      = eligibleQuarters request.statements request.securityId date := by
  unfold eligibleQuarters fundamentalSourceStatements
  refine select_of_matching ?_
  simp only [List.filter_filter]
  refine List.filter_congr fun statement _ => ?_
  cases hperiod : statement.period <;>
    simp [matchesQuery, cadenceForPeriod, isFiscalQuarterPeriod, hperiod]

theorem freshFundamentals_congr {l l' : List (Revision F H)} {securityId : String}
    {date date' : CalendarDay}
    (h : eligibleQuarters l securityId date = eligibleQuarters l' securityId date') :
    freshFundamentals securityId date l = freshFundamentals securityId date' l' :=
  congrArg (fun eligible => snapshotOf (windowsOf eligible)) h

/-- The metrics of a day are those of the statements available on it. -/
theorem freshFundamentals_source (request : DailyFundamentalMaterializationRequest F H)
    (date : CalendarDay) :
    freshFundamentals request.securityId date (fundamentalSourceStatements request)
      = freshFundamentals request.securityId date (availableOn request.statements date) := by
  refine freshFundamentals_congr ?_
  rw [eligibleQuarters_source]
  refine eligibleQuarters_congr ?_
  rw [availableOn_ofSecurity, availableOn_availableOn]

/-- The metrics move only when a quarterly statement of the security becomes available. -/
theorem constantBetween_freshFundamentals (securityId : String) (statements : List (Revision F H)) :
    ConstantBetween ((ofSecurity statements securityId).map fun statement =>
        statement.availableFromDate)
      fun date => freshFundamentals securityId date statements := by
  intro a b hle hnone
  refine freshFundamentals_congr (eligibleQuarters_congr (availableOn_between hle ?_))
  intro statement hmem hafter
  exact hnone _ (List.mem_map_of_mem hmem) hafter

/-- The metrics do not depend on the order of the statements. -/
theorem freshFundamentals_perm (securityId : String) (date : CalendarDay)
    (l l' : List (Revision F H)) (hread : AsRead l) (hperm : l.Perm l') :
    freshFundamentals securityId date l = freshFundamentals securityId date l' :=
  freshFundamentals_congr (hread.select_perm hperm securityId _)

/-! ### Every trading day -/

theorem materializeDailyFundamentals_eq (request : DailyFundamentalMaterializationRequest F H)
    (hnodup : request.tradingDates.Nodup) :
    materializeDailyFundamentals request
      = .ok ((request.tradingDates.insertionSort (· ≤ ·)).map fun date =>
        (date, freshFundamentals request.securityId date (availableOn request.statements date))) := by
  have hnormal := normalizeTradingDates_eq_ok hnodup MATERIALIZATION
  unfold materializeDailyFundamentals
  rw [hnormal]
  by_cases hempty : request.tradingDates.insertionSort (· ≤ ·) = []
  · rw [hempty]
    rfl
  · have hsource := constantBetween_freshFundamentals request.securityId
      (fundamentalSourceStatements request)
    obtain ⟨planned, hplanned, hcarried⟩ := carryForward_planned
      { securityId := request.securityId
        tradingDates := request.tradingDates.insertionSort (· ≤ ·)
        statements := fundamentalSourceStatements request }
      (sorted_ascending hnodup) (normalizeTradingDates_sorted hnodup MATERIALIZATION) hempty hsource
    simp only [bind, Except.bind, List.isEmpty_iff, hempty, if_false, hplanned]
    refine congrArg Except.ok ((hcarried .empty).trans (List.map_congr_left fun date _ => ?_))
    exact congrArg (Prod.mk date) (freshFundamentals_source request date)

/-- **Daily fundamentals are fresh.** -/
theorem materializeDailyFundamentals_fresh {request : DailyFundamentalMaterializationRequest F H}
    (hnodup : request.tradingDates.Nodup) :
    MaterializesFresh materializeDailyFundamentals freshFundamentals request :=
  materializesFresh_of_rows materializeDailyFundamentals_eq freshFundamentals_perm hnodup

end FactorSage.Fundamentals
