import FactorSage.Library.AscendingList
import FactorSage.Strategy.Gates

/-!
# Rows and slices of a frame

`rowsBefore` and `rowsUpTo` count the rows a date cuts off; an index is below the count exactly when
its date is on that side.

`IsSlice small big offset count` says that `small` holds exactly the `count` rows of `big` from
index `offset` on, under the same column keys. Every row of a slice reads what the same row of the
whole reads; but for its first one, a row of a slice also has the same row before it
(`IsSlice.samePast`).
-/

namespace FactorSage

open AscendingList

variable {F : Type}

/-! ### Rows and dates -/

/-- How many rows a frame has before a date. -/
def rowsBefore (frame : EvaluationFrame F) (date : LocalDate) : ℕ :=
  frame.dates.countP (· < date)

/-- How many rows a frame has up to a date. -/
def rowsUpTo (frame : EvaluationFrame F) (date : LocalDate) : ℕ :=
  frame.dates.countP (· ≤ date)

variable {frame : EvaluationFrame F}

theorem lt_rowsBefore_iff {i : ℕ} {a date : LocalDate}
    (hi : frame.dates[i]? = some a) : i < rowsBefore frame date ↔ a < date := by
  rw [rowsBefore, lt_countP_iff frame.ascending _ hi, decide_eq_true_iff]
  intro x y hxy hy
  simp only [decide_eq_true_eq] at hy ⊢
  exact hxy.trans hy

theorem lt_rowsUpTo_iff {i : ℕ} {a date : LocalDate}
    (hi : frame.dates[i]? = some a) : i < rowsUpTo frame date ↔ a ≤ date := by
  rw [rowsUpTo, lt_countP_iff frame.ascending _ hi, decide_eq_true_iff]
  intro x y hxy hy
  simp only [decide_eq_true_eq] at hy ⊢
  exact hxy.le.trans hy

theorem rowsUpTo_le_length (frame : EvaluationFrame F) (date : LocalDate) :
    rowsUpTo frame date ≤ frame.dates.length :=
  List.countP_le_length

theorem rowsBefore_le_rowsUpTo (frame : EvaluationFrame F) {a b : LocalDate} (h : a ≤ b) :
    rowsBefore frame a ≤ rowsUpTo frame b := by
  refine List.countP_mono_left fun d _ hd => ?_
  simp only [decide_eq_true_eq] at hd ⊢
  exact hd.le.trans h

/-! ### Slices -/

/-- `small` holds rows `offset`, …, `offset + count - 1` of `big`. -/
structure IsSlice (small big : EvaluationFrame F) (offset count : ℕ) : Prop where
  le_length : offset + count ≤ big.dates.length
  dates_eq : small.dates = (big.dates.drop offset).take count
  closes_eq : small.closes = (big.closes.drop offset).take count
  columns_eq : ∀ key, small.columns.get? key
    = (big.columns.get? key).map fun column => (column.drop offset).take count

/-- The slice itself, under the whole frame's identity. -/
def EvaluationFrame.slice (frame : EvaluationFrame F) (offset count : ℕ) : EvaluationFrame F where
  securityId := frame.securityId
  symbol := frame.symbol
  name := frame.name
  dates := (frame.dates.drop offset).take count
  closes := (frame.closes.drop offset).take count
  columns := frame.columns.mapValues fun column => (column.drop offset).take count
  periodStartIndex := frame.periodStartIndex - offset
  closes_length := by simp [frame.closes_length]
  ascending := frame.ascending.sublist
    ((List.take_sublist _ _).trans (List.drop_sublist _ _))
  columns_length column hcolumn := by
    obtain ⟨key, hkey⟩ := OrderedMap.mem_values_iff.mp hcolumn
    rw [OrderedMap.get?_mapValues, Option.map_eq_some_iff] at hkey
    obtain ⟨source, hsource, rfl⟩ := hkey
    simp [frame.columns_length source (OrderedMap.mem_values_iff.mpr ⟨key, hsource⟩)]

theorem isSlice_slice {offset count : ℕ} (h : offset + count ≤ frame.dates.length) :
    IsSlice (frame.slice offset count) frame offset count where
  le_length := h
  dates_eq := rfl
  closes_eq := rfl
  columns_eq _ := OrderedMap.get?_mapValues _ _ _

theorem getElem?_drop_take {α : Type} (l : List α) {offset count i : ℕ} (h : i < count) :
    ((l.drop offset).take count)[i]? = l[offset + i]? := by
  rw [List.getElem?_take_of_lt h, List.getElem?_drop]

namespace IsSlice

variable {small big : EvaluationFrame F} {offset count : ℕ}

theorem length_eq (h : IsSlice small big offset count) : small.dates.length = count := by
  have := h.le_length
  rw [h.dates_eq, List.length_take, List.length_drop]
  omega

theorem getElem?_dates (h : IsSlice small big offset count) {i : ℕ} (hi : i < count) :
    small.dates[i]? = big.dates[offset + i]? := by
  rw [h.dates_eq, getElem?_drop_take _ hi]

theorem getElem?_closes (h : IsSlice small big offset count) {i : ℕ} (hi : i < count) :
    small.closes[i]? = big.closes[offset + i]? := by
  rw [h.closes_eq, getElem?_drop_take _ hi]

variable [JsNumber F]

theorem readsAlike (h : IsSlice small big offset count) {i : ℕ} (hi : i < count) :
    ReadsAlike small big i (offset + i) := by
  intro key
  have hsmall : ¬ small.dates.length ≤ i := by rw [h.length_eq]; omega
  have hbig : ¬ big.dates.length ≤ offset + i := by have := h.le_length; omega
  unfold readOperand
  rw [if_neg hsmall, if_neg hbig, h.getElem?_closes hi, h.columns_eq key]
  cases big.columns.get? key with
  | none => rfl
  | some column => simp only [Option.map_some, getElem?_drop_take _ hi]

/-- A row of a slice has the whole's past, unless the slice cut it off. -/
theorem samePast (h : IsSlice small big offset count) {i : ℕ} (hi : i < count)
    (hpast : 0 < i ∨ offset = 0) : SamePast small big i (offset + i) := by
  cases i with
  | zero =>
    obtain rfl : offset = 0 := hpast.resolve_left (Nat.lt_irrefl 0)
    exact h.readsAlike hi
  | succ i => exact ⟨h.readsAlike hi, h.readsAlike (by omega)⟩

end IsSlice

end FactorSage
