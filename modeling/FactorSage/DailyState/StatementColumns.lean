import FactorSage.Fundamentals.Materializer
import FactorSage.Intrinsic.Materializer

/-!
# The statement columns of a day's state

A day's row takes its fundamental and its intrinsic columns from two materializers, which share the
days they evaluate on. Both are fresh on every trading day (`statementColumns_fresh`).
-/

namespace FactorSage.DailyState

open Fundamentals Intrinsic Statements

/-- **Event-driven statement columns are fresh**: on distinct trading dates, the fundamental and the
intrinsic columns of each are those evaluated from the statements available on it, whatever the order
the statements are listed in and whatever becomes available later. -/
theorem statementColumns_fresh {F H : Type} [JsNumber F] [LinearOrder H]
    (request : StatementEvaluationRequest (StatementValues F) H)
    (hnodup : request.tradingDates.Nodup) :
    MaterializesFresh materializeDailyFundamentals freshFundamentals request
      ∧ MaterializesFresh materializeDailyIntrinsicValues freshIntrinsicValues request :=
  ⟨materializeDailyFundamentals_fresh hnodup, materializeDailyIntrinsicValues_fresh hnodup⟩

/-- A balance sheet of assets twice its liabilities, available from a date. -/
def reportedBalanceSheet (fiscalYear : ℕ) (availableFromDate : CalendarDay) :
    Revision ExactNumber ℤ where
  statementType := .balanceSheet
  fiscalDate := availableFromDate - 46
  fiscalYear
  period := .q1
  reportedCurrency := "USD"
  filingDate := availableFromDate - 1
  values := .ofList [(.totalCurrentAssets, .finite 2), (.totalCurrentLiabilities, .finite 1)]
  securityId := "ACME"
  providerAcceptedDate := none
  availableFromDate
  observedAt := 0
  contentHash := availableFromDate

/-- A sheet that comes out between two trading days, and one a year later. -/
def twoSheets : StatementEvaluationRequest (StatementValues ExactNumber) ℤ where
  securityId := "ACME"
  tradingDates := [49, 45, 48]
  statements := [reportedBalanceSheet 1970 46, reportedBalanceSheet 1971 411]

theorem statementColumns_fresh_twoSheets :
    MaterializesFresh materializeDailyFundamentals freshFundamentals twoSheets
      ∧ MaterializesFresh materializeDailyIntrinsicValues freshIntrinsicValues twoSheets :=
  statementColumns_fresh twoSheets (by decide)

end FactorSage.DailyState
