import FactorSage.Intrinsic.Evaluation
import FactorSage.Statements.EveryTradingDay

/-!
# Daily intrinsic values

The intrinsic fields of every trading day: evaluated on the events of all the security's statements,
and carried between them, unavailability included. Every day has what an evaluation of it alone gives
(`materializeDailyIntrinsicValues_fresh`).
-/

namespace FactorSage.Intrinsic

open AscendingList CarryForward Statements

variable {F H : Type} [JsNumber F] [LinearOrder H]

abbrev DailyIntrinsicMaterializationRequest (F H : Type) :=
  StatementEvaluationRequest (StatementValues F) H

def MATERIALIZATION : String := "intrinsic materialization"

omit [JsNumber F] [LinearOrder H] in
/-- The trading days on which the intrinsic values are evaluated. -/
def planIntrinsicEvaluationDates (request : DailyIntrinsicMaterializationRequest F H) :
    Except DuplicateTradingDate (List CalendarDay) :=
  planStatementEvaluationDates request MATERIALIZATION

/-- The intrinsic fields of every trading day, evaluated on the events only. -/
def materializeDailyIntrinsicValues (request : DailyIntrinsicMaterializationRequest F H) :
    Except DuplicateTradingDate (List (CalendarDay × IntrinsicSnapshot F)) := do
  let sortedDates ← normalizeTradingDates request.tradingDates MATERIALIZATION
  if sortedDates.isEmpty then return []
  let evaluationDates ← planIntrinsicEvaluationDates request
  return carryForward (fun date => date ∈ evaluationDates)
    (fun date => toSnapshot (evaluateIntrinsicValues
      { securityId := request.securityId, valuationDate := date, statements := request.statements }))
    EMPTY_SNAPSHOT sortedDates

/-- The intrinsic fields of one day, from some statements. -/
def freshIntrinsicValues (securityId : String) (date : CalendarDay)
    (statements : List (Revision F H)) : IntrinsicSnapshot F :=
  toSnapshot (evaluateIntrinsicValues { securityId, valuationDate := date, statements })

/-! ### What an evaluation reads -/

omit [JsNumber F] in
/-- The statements eligible on a date are chosen from those available on it. -/
theorem eligibleStatements_congr {l l' : List (Revision F H)} {securityId : String}
    {date date' : CalendarDay}
    (h : availableOn (ofSecurity l securityId) date
      = availableOn (ofSecurity l' securityId) date') :
    eligibleStatements l securityId date = eligibleStatements l' securityId date' :=
  select_congr none h

theorem freshIntrinsicValues_congr {l l' : List (Revision F H)} {securityId : String}
    {date date' : CalendarDay}
    (h : eligibleStatements l securityId date = eligibleStatements l' securityId date') :
    freshIntrinsicValues securityId date l = freshIntrinsicValues securityId date' l' :=
  congrArg (fun eligible => toSnapshot (valuesOf (inputsOf eligible))) h

/-- The intrinsic fields of a day are those of the statements available on it. -/
theorem freshIntrinsicValues_available (securityId : String) (date : CalendarDay)
    (statements : List (Revision F H)) :
    freshIntrinsicValues securityId date statements
      = freshIntrinsicValues securityId date (availableOn statements date) := by
  refine freshIntrinsicValues_congr (eligibleStatements_congr ?_)
  rw [availableOn_ofSecurity, availableOn_availableOn]

/-- The intrinsic fields move only when a statement of the security becomes available. -/
theorem constantBetween_freshIntrinsicValues (securityId : String)
    (statements : List (Revision F H)) :
    ConstantBetween ((ofSecurity statements securityId).map fun statement =>
        statement.availableFromDate)
      fun date => freshIntrinsicValues securityId date statements := by
  intro a b hle hnone
  refine freshIntrinsicValues_congr (eligibleStatements_congr (availableOn_between hle ?_))
  intro statement hmem hafter
  exact hnone _ (List.mem_map_of_mem hmem) hafter

/-- The intrinsic fields do not depend on the order of the statements. -/
theorem freshIntrinsicValues_perm (securityId : String) (date : CalendarDay)
    (l l' : List (Revision F H)) (hread : AsRead l) (hperm : l.Perm l') :
    freshIntrinsicValues securityId date l = freshIntrinsicValues securityId date l' :=
  freshIntrinsicValues_congr (hread.select_perm hperm securityId _)

/-! ### Every trading day -/

theorem materializeDailyIntrinsicValues_eq (request : DailyIntrinsicMaterializationRequest F H)
    (hnodup : request.tradingDates.Nodup) :
    materializeDailyIntrinsicValues request
      = .ok ((request.tradingDates.insertionSort (· ≤ ·)).map fun date =>
        (date,
          freshIntrinsicValues request.securityId date (availableOn request.statements date))) := by
  have hnormal := normalizeTradingDates_eq_ok hnodup MATERIALIZATION
  unfold materializeDailyIntrinsicValues
  rw [hnormal]
  by_cases hempty : request.tradingDates.insertionSort (· ≤ ·) = []
  · rw [hempty]
    rfl
  · have hconstant := constantBetween_freshIntrinsicValues request.securityId request.statements
    obtain ⟨planned, hplanned, hcarried⟩ :=
      carryForward_planned request (sorted_ascending hnodup) hnormal hempty hconstant
    unfold planIntrinsicEvaluationDates
    simp only [bind, Except.bind, List.isEmpty_iff, hempty, if_false, hplanned]
    refine congrArg Except.ok
      ((hcarried EMPTY_SNAPSHOT).trans (List.map_congr_left fun date _ => ?_))
    exact congrArg (Prod.mk date) (freshIntrinsicValues_available _ date _)

/-- **Daily intrinsic values are fresh.** -/
theorem materializeDailyIntrinsicValues_fresh
    {request : DailyIntrinsicMaterializationRequest F H} (hnodup : request.tradingDates.Nodup) :
    MaterializesFresh materializeDailyIntrinsicValues freshIntrinsicValues request :=
  materializesFresh_of_rows materializeDailyIntrinsicValues_eq freshIntrinsicValues_perm hnodup

end FactorSage.Intrinsic
