import FactorSage.Library.ComparatorSort
import FactorSage.Library.PrefixStable
import Mathlib.Algebra.Order.Ring.Rat
import Mathlib.Data.List.GetD
import Mathlib.Data.Rat.Lemmas

/-!
# Daily indicators

The moving averages, the Wilder oscillators and the relative volumes over a list of daily bars, each
with the loop it is calculated by, and why none of them looks ahead: the value of a position is
decided by the bars up to it (`movingAverage_prefixStable`, `calculateWilderRsi_prefixStable`,
`calculateRelativeVolume_prefixStable`).

Arithmetic is exact. A rational number is finite, so the checks that a close is one never fail; a
volume that is not a finite number is `none`. The registered periods are positive, so the checks of
the period never fail either.
-/

namespace FactorSage.Technicals

open ComparatorSort

structure DailyPrice where
  securityId : String
  date : ℤ
  open_ : ℚ
  high : ℚ
  low : ℚ
  close : ℚ
  volume : Option ℚ
  deriving DecidableEq

/-- `left.localeCompare(right)` of two dates. -/
def compareDates (left right : ℤ) : ℤ := if left < right then -1 else if right < left then 1 else 0

theorem compareDates_lt_zero {left right : ℤ} : compareDates left right < 0 ↔ left < right := by
  unfold compareDates
  split
  · simpa
  · split <;> simp_all

theorem compareDates_le_zero {left right : ℤ} : compareDates left right ≤ 0 ↔ left ≤ right := by
  unfold compareDates
  split
  · simp_all [le_of_lt]
  · split <;> simp_all

/-! ### Moving averages -/

inductive MovingAverageType
  | SMA
  | EMA
  deriving DecidableEq

/-- The window's sum once the first values have been passed. -/
def windowSum (values : List ℚ) (period : ℕ) : ℕ → ℚ
  | 0 => 0
  | index + 1 =>
    let sum := windowSum values period index + values.getD index 0
    if period ≤ index then sum - values.getD (index - period) 0 else sum

/-- The exponential average, counted from the position of the first complete window. -/
def emaFrom (values : List ℚ) (period : ℕ) : ℕ → ℚ
  | 0 => windowSum values period period / period
  | after + 1 =>
    let previous := emaFrom values period after
    (values.getD (period + after) 0 - previous) * (2 / (period + 1)) + previous

def movingAverageAt (values : List ℚ) (type : MovingAverageType) (period index : ℕ) : Option ℚ :=
  if index + 1 < period then none
  else
    match type with
    | .SMA => some (windowSum values period (index + 1) / period)
    | .EMA => some (emaFrom values period (index + 1 - period))

def movingAverage (values : List ℚ) (type : MovingAverageType) (period : ℕ) : List (Option ℚ) :=
  if values.length < period then List.replicate values.length none
  else (List.range values.length).map fun index => movingAverageAt values type period index

/-! ### Wilder oscillators -/

/-- The gains and the losses of the first changes. -/
def changeSums (closes : List ℚ) : ℕ → ℚ × ℚ
  | 0 => (0, 0)
  | index + 1 =>
    let sums := changeSums closes index
    let change := closes.getD (index + 1) 0 - closes.getD index 0
    (sums.1 + max change 0, sums.2 + max (-change) 0)

/-- The average gain and loss, counted from the position of the seed. -/
def wilderAverages (closes : List ℚ) (period : ℕ) : ℕ → ℚ × ℚ
  | 0 => ((changeSums closes period).1 / period, (changeSums closes period).2 / period)
  | after + 1 =>
    let averages := wilderAverages closes period after
    let change := closes.getD (period + after + 1) 0 - closes.getD (period + after) 0
    ((averages.1 * (period - 1) + max change 0) / period,
      (averages.2 * (period - 1) + max (-change) 0) / period)

def rsiOf (avgGain avgLoss : ℚ) : ℚ :=
  if avgGain = 0 ∧ avgLoss = 0 then 50 else 100 * avgGain / (avgGain + avgLoss)

def wilderRsiAt (closes : List ℚ) (period index : ℕ) : Option ℚ :=
  if index < period then none
  else
    let averages := wilderAverages closes period (index - period)
    some (rsiOf averages.1 averages.2)

def calculateWilderRsi (closes : List ℚ) (period : ℕ) : List (Option ℚ) :=
  if closes.length < period + 1 then List.replicate closes.length none
  else (List.range closes.length).map fun index => wilderRsiAt closes period index

/-! ### Relative volumes -/

/-- What the rolling window holds: the sum of its volumes and how many were not numbers. -/
structure VolumeWindow where
  sum : ℚ
  invalid : ℤ

namespace VolumeWindow

def enter (window : VolumeWindow) : Option ℚ → VolumeWindow
  | some volume => { window with sum := window.sum + volume }
  | none => { window with invalid := window.invalid + 1 }

def leave (window : VolumeWindow) : Option ℚ → VolumeWindow
  | some volume => { window with sum := window.sum - volume }
  | none => { window with invalid := window.invalid - 1 }

end VolumeWindow

/-- The window after the first volumes entered. -/
def firstWindow (volumes : List (Option ℚ)) : ℕ → VolumeWindow
  | 0 => ⟨0, 0⟩
  | index + 1 => (firstWindow volumes index).enter (volumes.getD index none)

/-- The window before a position, counted from the first one with a full lookback. -/
def volumeWindow (volumes : List (Option ℚ)) (period : ℕ) : ℕ → VolumeWindow
  | 0 => firstWindow volumes period
  | after + 1 =>
    ((volumeWindow volumes period after).enter (volumes.getD (period + after) none)).leave
      (volumes.getD after none)

def relativeVolumeAt (volumes : List (Option ℚ)) (period index : ℕ) : Option ℚ :=
  if index < period then none
  else
    let window := volumeWindow volumes period (index - period)
    (volumes.getD index none).bind fun current =>
      if window.invalid = 0 ∧ 0 < window.sum / period then some (current / (window.sum / period))
      else none

def calculateRelativeVolume (volumes : List (Option ℚ)) (period : ℕ) : List (Option ℚ) :=
  if volumes.length ≤ period then List.replicate volumes.length none
  else (List.range volumes.length).map fun index => relativeVolumeAt volumes period index

/-! ### No look-ahead -/

section Prefix

variable {α : Type} {values later : List α} {period : ℕ}

theorem windowSum_append {values later : List ℚ} {n : ℕ} (h : n ≤ values.length) :
    windowSum (values ++ later) period n = windowSum values period n := by
  induction n with
  | zero => rfl
  | succ index ih =>
    simp only [windowSum]
    rw [ih (by omega), List.getD_append _ _ _ _ (by omega), List.getD_append _ _ _ _ (by omega)]

theorem emaFrom_append {values later : List ℚ} {after : ℕ}
    (h : period + after ≤ values.length) :
    emaFrom (values ++ later) period after = emaFrom values period after := by
  induction after with
  | zero =>
    simp only [emaFrom]
    rw [windowSum_append (by omega)]
  | succ after ih =>
    simp only [emaFrom]
    rw [ih (by omega), List.getD_append _ _ _ _ (by omega)]

theorem changeSums_append {closes later : List ℚ} {n : ℕ} (h : n < closes.length) :
    changeSums (closes ++ later) n = changeSums closes n := by
  induction n with
  | zero => rfl
  | succ index ih =>
    simp only [changeSums]
    rw [ih (by omega), List.getD_append _ _ _ _ (by omega), List.getD_append _ _ _ _ (by omega)]

theorem wilderAverages_append {closes later : List ℚ} {after : ℕ}
    (h : period + after < closes.length) :
    wilderAverages (closes ++ later) period after = wilderAverages closes period after := by
  induction after with
  | zero =>
    simp only [wilderAverages]
    rw [changeSums_append (by omega)]
  | succ after ih =>
    simp only [wilderAverages]
    rw [ih (by omega), List.getD_append _ _ _ _ (by omega), List.getD_append _ _ _ _ (by omega)]

theorem firstWindow_append {volumes later : List (Option ℚ)} {n : ℕ} (h : n ≤ volumes.length) :
    firstWindow (volumes ++ later) n = firstWindow volumes n := by
  induction n with
  | zero => rfl
  | succ index ih =>
    simp only [firstWindow]
    rw [ih (by omega), List.getD_append _ _ _ _ (by omega)]

theorem volumeWindow_append {volumes later : List (Option ℚ)} {after : ℕ}
    (h : period + after ≤ volumes.length) :
    volumeWindow (volumes ++ later) period after = volumeWindow volumes period after := by
  induction after with
  | zero =>
    simp only [volumeWindow]
    rw [firstWindow_append (by omega)]
  | succ after ih =>
    simp only [volumeWindow]
    rw [ih (by omega), List.getD_append _ _ _ _ (by omega), List.getD_append _ _ _ _ (by omega)]

end Prefix

/-- A history too short for any value reads as the loop would have left it. -/
theorem replicate_none_eq {value : ℕ → Option ℚ} {n : ℕ} (h : ∀ i, i < n → value i = none) :
    List.replicate n none = (List.range n).map value := by
  refine (List.eq_replicate_iff.mpr ⟨by simp, fun b hb => ?_⟩).symm
  obtain ⟨i, hi, rfl⟩ := List.mem_map.mp hb
  exact h i (List.mem_range.mp hi)

/-- **Moving averages do not look ahead.** -/
theorem movingAverage_prefixStable (type : MovingAverageType) (period : ℕ) :
    PrefixStable fun values => movingAverage values type period := by
  have hpoint : (fun values => movingAverage values type period)
      = fun values => (List.range values.length).map (movingAverageAt values type period) := by
    funext values
    unfold movingAverage
    split
    · next hshort =>
      refine replicate_none_eq fun i hi => ?_
      unfold movingAverageAt
      rw [if_pos (by omega)]
    · rfl
  rw [hpoint]
  refine PrefixStable.of_forall fun values later i hi => ?_
  unfold movingAverageAt
  split
  · rfl
  · next hwarm =>
    cases type with
    | SMA =>
      dsimp only
      rw [windowSum_append (by omega)]
    | EMA =>
      dsimp only
      rw [emaFrom_append (by omega)]

/-- **Wilder oscillators do not look ahead.** -/
theorem calculateWilderRsi_prefixStable (period : ℕ) :
    PrefixStable fun closes => calculateWilderRsi closes period := by
  have hpoint : (fun closes => calculateWilderRsi closes period)
      = fun closes => (List.range closes.length).map (wilderRsiAt closes period) := by
    funext closes
    unfold calculateWilderRsi
    split
    · next hshort =>
      refine replicate_none_eq fun i hi => ?_
      unfold wilderRsiAt
      rw [if_pos (by omega)]
    · rfl
  rw [hpoint]
  refine PrefixStable.of_forall fun closes later i hi => ?_
  unfold wilderRsiAt
  split
  · rfl
  · next hwarm => rw [wilderAverages_append (by omega)]

/-- **Relative volumes do not look ahead.** -/
theorem calculateRelativeVolume_prefixStable (period : ℕ) :
    PrefixStable fun volumes => calculateRelativeVolume volumes period := by
  have hpoint : (fun volumes => calculateRelativeVolume volumes period)
      = fun volumes => (List.range volumes.length).map (relativeVolumeAt volumes period) := by
    funext volumes
    unfold calculateRelativeVolume
    split
    · next hshort =>
      refine replicate_none_eq fun i hi => ?_
      unfold relativeVolumeAt
      rw [if_pos (by omega)]
    · rfl
  rw [hpoint]
  refine PrefixStable.of_forall fun volumes later i hi => ?_
  unfold relativeVolumeAt
  split
  · rfl
  · next hwarm => rw [volumeWindow_append (by omega), List.getD_append _ _ _ _ hi]

/-! ### The daily families -/

inductive DailyMovingAverageField
  | sma20d
  | sma50d
  | sma100d
  | sma200d
  | ema20d
  | ema50d
  | ema200d
  deriving DecidableEq

inductive WeeklyMovingAverageField
  | sma20w
  | sma50w
  | sma100w
  | sma200w
  | ema20w
  | ema50w
  | ema200w
  deriving DecidableEq

inductive DailyOscillatorField
  | rsi7d
  | rsi14d
  | rsi21d
  deriving DecidableEq

inductive DailyRelativeVolumeField
  | rvol10
  | rvol20
  | rvol50
  deriving DecidableEq

/-- A registered moving average. -/
structure MaterializedMovingAverage (F : Type) where
  type : MovingAverageType
  period : ℕ
  field : F

/-- A registered oscillator or relative volume. -/
structure MaterializedSeries (F : Type) where
  period : ℕ
  field : F

def DAILY_MOVING_AVERAGES : List (MaterializedMovingAverage DailyMovingAverageField) :=
  [⟨.SMA, 20, .sma20d⟩, ⟨.SMA, 50, .sma50d⟩, ⟨.SMA, 100, .sma100d⟩, ⟨.SMA, 200, .sma200d⟩,
    ⟨.EMA, 20, .ema20d⟩, ⟨.EMA, 50, .ema50d⟩, ⟨.EMA, 200, .ema200d⟩]

def WEEKLY_MOVING_AVERAGES : List (MaterializedMovingAverage WeeklyMovingAverageField) :=
  [⟨.SMA, 20, .sma20w⟩, ⟨.SMA, 50, .sma50w⟩, ⟨.SMA, 100, .sma100w⟩, ⟨.SMA, 200, .sma200w⟩,
    ⟨.EMA, 20, .ema20w⟩, ⟨.EMA, 50, .ema50w⟩, ⟨.EMA, 200, .ema200w⟩]

def DAILY_OSCILLATORS : List (MaterializedSeries DailyOscillatorField) :=
  [⟨7, .rsi7d⟩, ⟨14, .rsi14d⟩, ⟨21, .rsi21d⟩]

def DAILY_RELATIVE_VOLUMES : List (MaterializedSeries DailyRelativeVolumeField) :=
  [⟨10, .rvol10⟩, ⟨20, .rvol20⟩, ⟨50, .rvol50⟩]

/-- One family's values of a trading day: the registered fields that have one, in registry order. -/
structure DailyValues (F : Type) where
  securityId : String
  date : ℤ
  values : List (F × ℚ)
  deriving DecidableEq

/-- The bars by date. -/
def ascending (prices : List DailyPrice) : List DailyPrice :=
  sortBy (fun left right => compareDates left.date right.date) prices

section Series

variable {E F α : Type}

/-- The registered series that have a value at a position. -/
def valuesAt (calculated : List (F × List (Option ℚ))) (index : ℕ) : List (F × ℚ) :=
  calculated.filterMap fun series => (series.2[index]?.join).map (series.1, ·)

/-- Every registered series over one column of bars in order, one row for each bar. -/
def seriesRows (registry : List E) (field : E → F) (column : DailyPrice → α)
    (calculate : E → List α → List (Option ℚ)) (bars : List DailyPrice) : List (DailyValues F) :=
  let calculated := registry.map fun entry => (field entry, calculate entry (bars.map column))
  bars.mapIdx fun index price => ⟨price.securityId, price.date, valuesAt calculated index⟩

def dailySeries (registry : List E) (field : E → F) (column : DailyPrice → α)
    (calculate : E → List α → List (Option ℚ)) (prices : List DailyPrice) :
    List (DailyValues F) :=
  seriesRows registry field column calculate (ascending prices)

end Series

def calculateDailyTechnicals : List DailyPrice → List (DailyValues DailyMovingAverageField) :=
  dailySeries DAILY_MOVING_AVERAGES (·.field) (·.close) fun average closes =>
    movingAverage closes average.type average.period

def calculateDailyOscillators : List DailyPrice → List (DailyValues DailyOscillatorField) :=
  dailySeries DAILY_OSCILLATORS (·.field) (·.close) fun oscillator closes =>
    calculateWilderRsi closes oscillator.period

def calculateDailyRelativeVolumes : List DailyPrice → List (DailyValues DailyRelativeVolumeField) :=
  dailySeries DAILY_RELATIVE_VOLUMES (·.field) (·.volume) fun entry volumes =>
    calculateRelativeVolume volumes entry.period

theorem compareDates_compares :
    Compares (fun left right : DailyPrice => compareDates left.date right.date) (·.date) :=
  fun _ _ => compareDates_lt_zero

/-- The bars up to a date, and the bars behind it. -/
theorem ascending_cut {prices : List DailyPrice} (hdates : (prices.map (·.date)).Nodup) (date : ℤ) :
    ∃ later, ascending prices = ascending (prices.filter (·.date ≤ date)) ++ later
      ∧ ∀ price ∈ later, date < price.date := by
  have hsorted := compareDates_compares.pairwise_sortBy prices
  refine ⟨(ascending prices).filter (¬ ·.date < date + 1), ?_, ?_⟩
  · have hfront : (ascending prices).filter (·.date < date + 1)
        = ascending (prices.filter (·.date ≤ date)) := by
      refine eq_sortBy_of_perm compareDates_compares ?_ (hsorted.filter _) ?_
      · simp only [Int.lt_add_one_iff]
        exact (sortBy_perm _ prices).filter _
      · refine List.Nodup.sublist (List.filter_sublist.map _) ?_
        exact ((sortBy_perm _ prices).map _).nodup_iff.mpr hdates
    rw [← hfront]
    exact (filter_append_of_sorted (date + 1) hsorted).symm
  · intro price hprice
    have hnot := (List.mem_filter.mp hprice).2
    simp only [decide_eq_true_eq, not_lt] at hnot
    omega

section Cut

variable {E F α : Type} (registry : List E) (field : E → F) (column : DailyPrice → α)
  {calculate : E → List α → List (Option ℚ)}

theorem seriesRows_append (hstable : ∀ entry, PrefixStable (calculate entry))
    (front back : List DailyPrice) :
    ∃ later, seriesRows registry field column calculate (front ++ back)
        = seriesRows registry field column calculate front ++ later
      ∧ later.map (·.date) = back.map (·.date) := by
  -- the series over all bars, read at the positions of the first ones
  have hvalues : ∀ index, index < front.length →
      valuesAt (registry.map fun entry =>
          (field entry, calculate entry ((front ++ back).map column))) index
        = valuesAt (registry.map fun entry => (field entry, calculate entry (front.map column)))
          index := by
    intro index hindex
    unfold valuesAt
    rw [List.filterMap_map, List.filterMap_map]
    refine List.filterMap_congr fun entry _ => ?_
    have hread : (calculate entry (front.map column ++ back.map column))[index]?
        = (calculate entry (front.map column))[index]? :=
      (hstable entry).getElem? (back.map column) (by simpa using hindex)
    simp only [Function.comp_apply, List.map_append, hread]
  have hfront : front.mapIdx (fun index price => DailyValues.mk price.securityId price.date
      (valuesAt (registry.map fun entry =>
        (field entry, calculate entry ((front ++ back).map column))) index))
      = seriesRows registry field column calculate front := by
    refine List.ext_getElem (by simp [seriesRows]) fun index h _ => ?_
    have hindex : index < front.length := by simpa using h
    simp only [seriesRows, List.getElem_mapIdx, hvalues index hindex]
  refine ⟨back.mapIdx fun index price => DailyValues.mk price.securityId price.date
    (valuesAt (registry.map fun entry =>
      (field entry, calculate entry ((front ++ back).map column))) (index + front.length)), ?_, ?_⟩
  · rw [← hfront]
    exact List.mapIdx_append
  · refine List.ext_getElem (by simp) fun index _ _ => ?_
    simp

/-- **A day's indicators are decided by the bars up to it**: later bars only append rows. -/
theorem dailySeries_cut (hstable : ∀ entry, PrefixStable (calculate entry))
    {prices : List DailyPrice} (hdates : (prices.map (·.date)).Nodup) (date : ℤ) :
    ∃ later, dailySeries registry field column calculate prices
        = dailySeries registry field column calculate (prices.filter (·.date ≤ date)) ++ later
      ∧ ∀ row ∈ later, date < row.date := by
  obtain ⟨behind, hcut, hbehind⟩ := ascending_cut hdates date
  obtain ⟨later, hrows, hlater⟩ := seriesRows_append registry field column hstable
    (ascending (prices.filter (·.date ≤ date))) behind
  refine ⟨later, ?_, fun row hrow => ?_⟩
  · rw [dailySeries, hcut, hrows]
    rfl
  · have hmem : row.date ∈ behind.map (·.date) := hlater ▸ List.mem_map.mpr ⟨row, hrow, rfl⟩
    obtain ⟨price, hprice, heq⟩ := List.mem_map.mp hmem
    exact heq ▸ hbehind price hprice

end Cut

end FactorSage.Technicals
