import FactorSage.Domain.LocalDate
import FactorSage.Library.JsNumber

/-!
# Return, drawdown and alpha

The mathematics the engine, the live checkpoints and the final summary share.
-/

namespace FactorSage

open JsNumber

variable {F : Type} [JsNumber F]

/-- Percentage growth of a growth index based at `1.0`. -/
def indexToPercent (index : F) : F := (index - ofInt 1) * ofInt 100

/-- Chains one day of a time-weighted return index. -/
def chainReturnIndex (previousIndex previousValue contribution currentValue : F) : F :=
  let invested := previousValue + contribution
  if !(lt (ofInt 0) invested) || !(isFinite currentValue) then previousIndex
  else previousIndex * (currentValue / invested)

/-- Running maximum drawdown of a growth index. -/
structure DrawdownTracker (F : Type) where
  peak : F
  worst : F

def DrawdownTracker.initial : DrawdownTracker F where
  peak := negativeInfinity
  worst := ofInt 0

def DrawdownTracker.observe (tracker : DrawdownTracker F) (index : F) : DrawdownTracker F :=
  if !(isFinite index) || le index (ofInt 0) then tracker
  else if lt tracker.peak index then { tracker with peak := index }
  else
    let drawdown := (ofInt 1 - index / tracker.peak) * ofInt 100
    if lt tracker.worst drawdown then { tracker with worst := drawdown } else tracker

def DrawdownTracker.maxDrawdownPercent (tracker : DrawdownTracker F) : F := tracker.worst

/-- The portfolio's growth minus the benchmark's. -/
def alphaPercent (portfolioReturnPercent : F) (benchmarkReturnPercent : Option F) : Option F :=
  benchmarkReturnPercent.map fun benchmark => portfolioReturnPercent - benchmark

/-- `DAYS_PER_YEAR`. -/
def daysPerYear : F := ofDecimal (36525 / 100)

/-- Compound annual growth rate of the index over the simulated calendar span. -/
def cagrPercent (finalIndex : F) (firstDate lastDate : LocalDate) : Option F :=
  let start : ℤ := firstDate.dayNumber * 86400000
  let finish : ℤ := lastDate.dayNumber * 86400000
  if finish ≤ start then none
  else if !(lt (ofInt 0) finalIndex) then none
  else
    let years : F := ofInt (finish - start) / ofInt 86400000 / daysPerYear
    if le years (ofInt 0) then none
    else some ((pow finalIndex (ofInt 1 / years) - ofInt 1) * ofInt 100)

/-- Uniformly strides a series down to at most `maxPoints`, keeping the first and last entry. -/
def downsample (F : Type) [JsNumber F] {T : Type} (points : List T) (maxPoints : ℕ) : List T :=
  if points.length ≤ maxPoints ∨ maxPoints < 2 then points
  else
    let stride : F := ofInt (points.length - 1) / ofInt (maxPoints - 1)
    (List.range (maxPoints - 1)).filterMap (fun step =>
        points[(round (ofInt step * stride)).toNat]?)
      ++ points.getLast?.toList

end FactorSage
