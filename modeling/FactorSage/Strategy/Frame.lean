import FactorSage.Domain.LocalDate
import FactorSage.Library.JsNumber
import FactorSage.Library.OrderedMap
import FactorSage.Strategy.Operands

/-!
# Evaluation frames

One security's operand values as aligned columns over the trading days it has rows for.
`EvaluationFrame` carries what `createEvaluationFrame` checks — strictly ascending dates, and
columns of one length with them — so a frame that violates it cannot be built.
-/

namespace FactorSage

variable {F : Type}

/-- One security's projected columns. Rows before `periodStartIndex` are context only. -/
structure EvaluationFrame (F : Type) where
  securityId : String
  symbol : String
  name : String
  /-- The security's own trading days. -/
  dates : List LocalDate
  /-- End-of-day closes, aligned with `dates`. -/
  closes : List F
  /-- Every other projected column, aligned with `dates`. -/
  columns : OrderedMap OperandKey (List F)
  periodStartIndex : ℕ
  closes_length : closes.length = dates.length
  ascending : dates.Pairwise (· < ·)
  columns_length : ∀ column ∈ columns.values, column.length = dates.length

/-- Builds a frame, refusing what the evaluator could not rely on. -/
def createEvaluationFrame (securityId symbol name : String) (dates : List LocalDate)
    (closes : List F) (columns : OrderedMap OperandKey (List F)) (periodStartIndex : ℕ) :
    Except String (EvaluationFrame F) :=
  if hlen : closes.length = dates.length then
    if hasc : dates.Pairwise (· < ·) then
      if hcol : ∀ column ∈ columns.values, column.length = dates.length then
        .ok
          { securityId, symbol, name, dates, closes, columns, periodStartIndex
            closes_length := hlen
            ascending := hasc
            columns_length := hcol }
      else .error s!"Evaluation frame column for {symbol} has another length than its dates"
    else .error s!"Evaluation frame for {symbol} is not strictly ascending"
  else
    .error s!"Evaluation frame for {symbol} has {closes.length} closes for {dates.length} dates"

variable [JsNumber F]

/-- One operand at one frame index, `NaN` when it is unavailable. -/
def readOperand (frame : EvaluationFrame F) (key : OperandKey) (index : ℕ) : F :=
  if frame.dates.length ≤ index then JsNumber.nan
  else if key = priceOperand then frame.closes[index]?.getD JsNumber.nan
  else
    match frame.columns.get? key with
    | none => JsNumber.nan
    | some column => column[index]?.getD JsNumber.nan

end FactorSage
