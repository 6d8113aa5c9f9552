import FactorSage.Rebase.Comparison

/-!
# Daily prices and what the loader compares of them

The pure rules of the price loader: whether a read would change the stored rows, what it reads of
the comparison of two histories, which of the newest rows are held after a split-sized move, and
which ranges of a target no read has covered yet.

A date is its day number; the `YYYY-MM-DD` strings of the source compare as their day numbers do. A
price is the number the store keeps, to its eight decimals; it is computed with in doubles.
-/

namespace FactorSage.PriceBasis

open BinaryRounding

open FactorSage.Rebase (PriceComparisonRow PriceHistories CommonSession closesDiffer freshClose
  commonSessions)

/-- One session's bar. -/
structure DailyPrice where
  date : ℤ
  openPrice : ℚ
  high : ℚ
  low : ℚ
  close : ℚ
  volume : ℤ
  vwap : Option ℚ
  deriving DecidableEq

structure DateRange where
  fromDate : ℤ
  toDate : ℤ
  deriving DecidableEq

namespace DateRange

def Holds (range : DateRange) (date : ℤ) : Prop := range.fromDate ≤ date ∧ date ≤ range.toDate

instance (range : DateRange) (date : ℤ) : Decidable (range.Holds date) :=
  inferInstanceAs (Decidable (_ ∧ _))

end DateRange

/-- The rows of a provider answer that lie inside the range it was asked for. -/
def withinRequestedRange (rows : List DailyPrice) (range : DateRange) : List DailyPrice :=
  rows.filter fun row => range.Holds row.date

variable {row : DailyPrice}

theorem mem_withinRequestedRange {rows : List DailyPrice} {range : DateRange} :
    row ∈ withinRequestedRange rows range ↔ row ∈ rows ∧ range.Holds row.date := by
  unfold withinRequestedRange
  rw [List.mem_filter, decide_eq_true_iff]

/-! ### Comparing closes -/

/-- Whether a provider value reads back as the stored one. -/
def sameStoredValue (stored loaded : ℚ) : Bool :=
  stored = loaded
    || |toDouble (stored - loaded)|
      ≤ toDouble (toDouble (5 / 1000000000) * toDouble (1 + |loaded|))

/-- `sameStoredValue` of two values that may be absent. -/
def sameStoredOptional : Option ℚ → Option ℚ → Bool
  | none, none => true
  | some stored, some loaded => sameStoredValue stored loaded
  | _, _ => false

/-- Whether a loaded bar is the stored one in every field. -/
def sameStoredRow (existing row : DailyPrice) : Bool :=
  sameStoredValue existing.openPrice row.openPrice && sameStoredValue existing.high row.high
    && sameStoredValue existing.low row.low && sameStoredValue existing.close row.close
    && existing.volume = row.volume && sameStoredOptional existing.vwap row.vwap

/-- The row a map by date holds: the last one of that date. -/
def rowOn (rows : List DailyPrice) (date : ℤ) : Option DailyPrice :=
  rows.reverse.find? fun row => row.date = date

/-- Whether saving `loaded` would change the stored history. -/
def changesStoredRows (stored loaded : List DailyPrice) : Bool :=
  loaded.any fun row =>
    match rowOn stored row.date with
    | none => true
    | some existing => !sameStoredRow existing row

theorem rowOn_some {rows : List DailyPrice} {date : ℤ}
    (h : rowOn rows date = some row) : row ∈ rows ∧ row.date = date := by
  unfold rowOn at h
  refine ⟨List.mem_reverse.mp (List.mem_of_find?_eq_some h), ?_⟩
  simpa using List.find?_some h

theorem rowOn_isSome {rows : List DailyPrice} (h : row ∈ rows) :
    ∃ found, rowOn rows row.date = some found := by
  refine Option.isSome_iff_exists.mp ?_
  unfold rowOn
  rw [List.find?_isSome]
  exact ⟨row, List.mem_reverse.mpr h, by simp⟩

/-- A read that changes nothing holds a stored row for each of its own. -/
theorem stored_of_not_changesStoredRows {stored loaded : List DailyPrice}
    (h : changesStoredRows stored loaded = false) (hrow : row ∈ loaded) :
    ∃ existing ∈ stored, existing.date = row.date ∧ sameStoredRow existing row = true := by
  unfold changesStoredRows at h
  have hany := List.any_eq_false.mp h row hrow
  cases hfound : rowOn stored row.date with
  | none => simp [hfound] at hany
  | some existing =>
    rw [hfound] at hany
    obtain ⟨hmem, hdate⟩ := rowOn_some hfound
    exact ⟨existing, hmem, hdate, by simpa using hany⟩

theorem sameStoredValue_of_sameStoredRow {existing row : DailyPrice}
    (h : sameStoredRow existing row = true) :
    sameStoredValue existing.close row.close = true := by
  unfold sameStoredRow at h
  simp only [Bool.and_eq_true] at h
  exact h.1.1.2

/-! ### Comparing two histories -/

/-- A bar as the comparison reads it. -/
def closeOf (row : DailyPrice) : PriceComparisonRow := ⟨row.date, row.close⟩

/-- What the loader has compared. -/
def histories (stored fresh : List DailyPrice) : PriceHistories :=
  ⟨stored.map closeOf, fresh.map closeOf⟩

theorem freshClose_closeOf (fresh : List DailyPrice) (date : ℤ) :
    freshClose (fresh.map closeOf) date = (rowOn fresh date).map DailyPrice.close := by
  unfold freshClose rowOn
  rw [← List.map_reverse, List.find?_map, Option.map_map]
  rfl

/-- Where nothing changed, every stored session reads as it is stored. -/
theorem not_closesDiffer_of_unchanged {stored fresh : List DailyPrice} {row read : DailyPrice}
    (h : (histories stored fresh).changed = []) (hrow : row ∈ stored)
    (hread : rowOn fresh row.date = some read) : closesDiffer row.close read.close = false := by
  have hcommon : CommonSession.mk row.date row.close read.close
      ∈ (histories stored fresh).common := by
    refine List.mem_filterMap.mpr ⟨closeOf row, ?_, ?_⟩
    · exact (ComparatorSort.sortBy_perm _ _).symm.subset (List.mem_map_of_mem hrow)
    · change (freshClose (fresh.map closeOf) row.date).map _ = _
      rw [freshClose_closeOf, hread]
      rfl
  have hnone := List.filter_eq_nil_iff.mp h _ hcommon
  rwa [Bool.not_eq_true] at hnone

/-! ### The ex-date hold -/

/-- Sessions a split-sized move is held for before it is accepted as genuine. -/
def splitSizedMoveHoldSessions : ℕ := 4

/-- Whether `close` moved from `previousClose` by an amount only a split or a crash produces. -/
def isSplitSizedMove (previousClose close : ℚ) : Bool :=
  if previousClose ≤ 0 ∨ close ≤ 0 then false
  else
    toDouble (close / previousClose) < toDouble (7 / 10)
      || toDouble (14 / 10) < toDouble (close / previousClose)

/-- Whether the row at an index starts a hold. -/
def startsHold (series : List DailyPrice) (index : ℕ) : Bool :=
  match series[index - 1]?, series[index]? with
  | some previous, some current =>
    isSplitSizedMove previous.close current.close
      && series.length - index < splitSizedMoveHoldSessions
  | _, _ => false

/-- The index from which rows must not be saved yet, or `none` when every row may be. -/
def heldFromIndex (series : List DailyPrice) (firstNewIndex : ℕ) : Option ℕ :=
  (List.range series.length).find? fun index =>
    max firstNewIndex 1 ≤ index && startsHold series index

/-! ### Coverage -/

/-- Where the search for gaps goes on after a covered range. -/
def nextCursor (cursor : ℤ) (covered : DateRange) : ℤ :=
  if cursor ≤ covered.toDate then covered.toDate + 1 else cursor

/-- The gaps of a request from a cursor on, past each covered range in turn. -/
def gapsFrom (requested : DateRange) (cursor : ℤ) : List DateRange → List DateRange
  | [] => if cursor ≤ requested.toDate then [⟨cursor, requested.toDate⟩] else []
  | covered :: rest =>
    (if cursor < covered.fromDate then [⟨cursor, covered.fromDate - 1⟩] else [])
      ++ if requested.toDate < nextCursor cursor covered then []
        else gapsFrom requested (nextCursor cursor covered) rest

/-- The ranges of a request that no covered range holds, by day numbers: what the calendar and the
texts of its dates add is in `Domain.CoverageRanges`. -/
def missingCoverageRanges (requested : DateRange) (coverage : List DateRange) : List DateRange :=
  let relevant := coverage.filter fun range =>
    decide (requested.fromDate ≤ range.toDate ∧ range.fromDate ≤ requested.toDate)
  gapsFrom requested requested.fromDate
    (relevant.insertionSort fun left right => left.fromDate ≤ right.fromDate)

theorem le_nextCursor (cursor : ℤ) (covered : DateRange) : cursor ≤ nextCursor cursor covered := by
  unfold nextCursor
  split <;> omega

/-- Every gap starts no earlier than the cursor and ends no later than the request. -/
theorem mem_gapsFrom {requested gap : DateRange} {covered : List DateRange} {cursor : ℤ}
    (hcovered : ∀ range ∈ covered, range.fromDate ≤ requested.toDate)
    (h : gap ∈ gapsFrom requested cursor covered) :
    cursor ≤ gap.fromDate ∧ gap.toDate ≤ requested.toDate := by
  induction covered generalizing cursor with
  | nil =>
    unfold gapsFrom at h
    split at h
    · rw [List.mem_singleton] at h
      subst h
      exact ⟨le_rfl, le_rfl⟩
    · simp at h
  | cons range rest ih =>
    have hrange := hcovered range List.mem_cons_self
    unfold gapsFrom at h
    rcases List.mem_append.mp h with hgap | hgap
    · split at hgap
      · rw [List.mem_singleton] at hgap
        subst hgap
        exact ⟨le_rfl, by show range.fromDate - 1 ≤ requested.toDate; omega⟩
      · simp at hgap
    · split at hgap
      · simp at hgap
      · obtain ⟨hfrom, hto⟩ := ih (fun r hr => hcovered r (List.mem_cons_of_mem _ hr)) hgap
        exact ⟨(le_nextCursor cursor range).trans hfrom, hto⟩

theorem mem_missingCoverageRanges {requested gap : DateRange} {coverage : List DateRange}
    (h : gap ∈ missingCoverageRanges requested coverage) :
    requested.fromDate ≤ gap.fromDate ∧ gap.toDate ≤ requested.toDate := by
  refine mem_gapsFrom (fun range hrange => ?_) h
  have hmem := (List.mem_insertionSort _).mp hrange
  rw [List.mem_filter, decide_eq_true_iff] at hmem
  exact hmem.2.2

/-- The gaps before and after the covered range. -/
example : missingCoverageRanges ⟨1, 9⟩ [⟨4, 6⟩] = [⟨1, 3⟩, ⟨7, 9⟩] := by decide

end FactorSage.PriceBasis
