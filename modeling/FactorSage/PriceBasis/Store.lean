import FactorSage.PriceBasis.Provider

/-!
# The stored price history

What the database keeps of one security's prices: the rows, the ranges a read has covered, the date
the stored tail is fresh through, and the generation of the price basis once the history is
verified. Each write is one transaction: it happens whole or throws.

A table of rows is in ascending order of its dates, and so holds one row a session.
-/

namespace FactorSage.PriceBasis

/-- The rows of one security under their primary key, in the order of their dates. -/
structure PriceTable where
  rows : List DailyPrice
  ascending : rows.Pairwise fun left right => left.date < right.date

namespace PriceTable

/-- The table without the rows of these dates. -/
def deleteMany (table : PriceTable) (dates : List ℤ) : PriceTable where
  rows := table.rows.filter fun row => decide (row.date ∉ dates)
  ascending := table.ascending.filter _

/-- The rows of a table with new ones among them, in the order of their dates. -/
def mergedRows (table : PriceTable) (created : List DailyPrice) : List DailyPrice :=
  (table.rows ++ created).insertionSort fun left right => left.date ≤ right.date

/-- The table with new rows. A second row of one date breaks the primary key. -/
def createMany (table : PriceTable) (created : List DailyPrice) : Option PriceTable :=
  if h : (table.mergedRows created).Pairwise fun left right => left.date < right.date then
    some ⟨table.mergedRows created, h⟩
  else none

theorem mem_createMany {table table' : PriceTable} {created : List DailyPrice}
    (h : table.createMany created = some table') {row : DailyPrice} :
    row ∈ table'.rows ↔ row ∈ table.rows ∨ row ∈ created := by
  unfold createMany at h
  split at h
  · obtain rfl : ⟨table.mergedRows created, _⟩ = table' := Option.some.inj h
    show row ∈ table.mergedRows created ↔ _
    unfold mergedRows
    rw [List.mem_insertionSort, List.mem_append]
  · cases h

theorem mem_deleteMany {table : PriceTable} {dates : List ℤ} {row : DailyPrice} :
    row ∈ (table.deleteMany dates).rows ↔ row ∈ table.rows ∧ row.date ∉ dates := by
  show row ∈ table.rows.filter _ ↔ _
  rw [List.mem_filter, decide_eq_true_iff]

/-- The first row is the earliest. -/
theorem head_le {table : PriceTable} {earliest : DailyPrice} {rest : List DailyPrice}
    (h : table.rows = earliest :: rest) {row : DailyPrice} (hrow : row ∈ table.rows) :
    earliest.date ≤ row.date := by
  have hascending := table.ascending
  rw [h] at hascending hrow
  rcases List.mem_cons.mp hrow with rfl | hrest
  · exact le_rfl
  · exact (List.rel_of_pairwise_cons hascending hrest).le

end PriceTable

/-- The stored price data of one security. `coverage` is what reads covered, `freshThrough` the
newest tail date a leading-edge read reached, and `generation` the price basis, absent while the
history has not been verified. -/
structure PriceStore where
  prices : PriceTable
  coverage : List DateRange
  freshThrough : Option ℤ
  generation : Option ℕ

/-- The earliest bar a read of the whole stored history asks for: 1900-01-01. -/
def earliestPersistedPriceDate : ℤ := -25567

/-- Adjoining and overlapping intervals in the order of their starts, taken together. -/
def compactFrom (previous : DateRange) : List DateRange → List DateRange
  | [] => [previous]
  | interval :: rest =>
    if interval.fromDate ≤ previous.toDate + 1 then
      compactFrom { previous with toDate := max previous.toDate interval.toDate } rest
    else previous :: compactFrom interval rest

/-- The coverage with one more covered range. -/
def advanceState (coverage : List DateRange) (range : DateRange) : List DateRange :=
  match (coverage ++ [range]).insertionSort fun left right => left.fromDate ≤ right.fromDate with
  | [] => []
  | first :: rest => compactFrom first rest

/-- Why a cycle ends early. -/
inductive Failure
  | providerRequestFailed
  | leaseLost
  | uniqueConstraint
  | priceBasisConflict (expectedGeneration actualGeneration : ℕ)
  deriving DecidableEq

namespace PriceStore

def getDailyPrices (store : PriceStore) (range : DateRange) : List DailyPrice :=
  store.prices.rows.filter fun row => range.Holds row.date

theorem mem_getDailyPrices {store : PriceStore} {range : DateRange} {row : DailyPrice} :
    row ∈ store.getDailyPrices range ↔ row ∈ store.prices.rows ∧ range.Holds row.date := by
  unfold getDailyPrices
  rw [List.mem_filter, decide_eq_true_iff]

def getEarliestDailyPriceDate (store : PriceStore) : Option ℤ :=
  store.prices.rows.head?.map DailyPrice.date

/-- The newest stored price row up to a date, if any. -/
def newestStoredPrice (store : PriceStore) (toDate : ℤ) : Option DailyPrice :=
  (store.getDailyPrices ⟨earliestPersistedPriceDate, toDate⟩).getLast?

def getDatasetCoverage (store : PriceStore) (range : DateRange) : List DateRange :=
  store.coverage.filter fun covered =>
    decide (covered.fromDate ≤ range.toDate ∧ range.fromDate ≤ covered.toDate)

/-- The tail date a leading-edge read establishes, which never moves back. -/
def advanceFreshnessState (current : Option ℤ) (tailDate : ℤ) : Option ℤ :=
  match current with
  | none => some tailDate
  | some latest => if tailDate < latest then current else some tailDate

structure SaveInput where
  prices : List DailyPrice
  successfulCoverage : List DateRange
  tailDate : ℤ
  freshThrough : Option ℤ

/-- Whether a save also records the stored tail as fresh. -/
def advancesFreshness (freshThrough : Option ℤ) (tailDate : ℤ) : Bool :=
  match freshThrough with
  | none => false
  | some through => tailDate ≤ through

/-- The transaction of `saveDailyPriceSync`: the rows of the saved dates are replaced. -/
def saveDailyPriceSync (store : PriceStore) (input : SaveInput) : Except Failure PriceStore :=
  match (store.prices.deleteMany (input.prices.map DailyPrice.date)).createMany input.prices with
  | none => .error .uniqueConstraint
  | some prices => .ok
    { store with
      prices := prices
      coverage := input.successfulCoverage.foldl advanceState store.coverage
      freshThrough :=
        if advancesFreshness input.freshThrough input.tailDate then
          advanceFreshnessState store.freshThrough input.tailDate
        else store.freshThrough }

structure ReplaceInput where
  expectedGeneration : ℕ
  prices : List DailyPrice
  priceCoverage : DateRange
  tailDate : ℤ
  freshThrough : Option ℤ

/-- The transaction of `replaceDailyPriceHistory`: every stored row is replaced. -/
def replaceDailyPriceHistory (store : PriceStore) (input : ReplaceInput) :
    Except Failure PriceStore :=
  if store.generation.getD 0 ≠ input.expectedGeneration then
    .error (.priceBasisConflict input.expectedGeneration (store.generation.getD 0))
  else
    match PriceTable.createMany ⟨[], List.Pairwise.nil⟩ input.prices with
    | none => .error .uniqueConstraint
    | some prices => .ok
      { prices := prices
        coverage := advanceState store.coverage input.priceCoverage
        freshThrough :=
          if advancesFreshness input.freshThrough input.tailDate then
            advanceFreshnessState store.freshThrough input.tailDate
          else store.freshThrough
        generation := some (store.generation.getD 0 + 1) }

/-- The first verification of a history; an existing basis is never rewritten. -/
def createPriceBasis (store : PriceStore) : PriceStore :=
  { store with generation := some (store.generation.getD 0) }

@[simp] theorem prices_createPriceBasis (store : PriceStore) :
    store.createPriceBasis.prices = store.prices := rfl

theorem mem_saveDailyPriceSync {store store' : PriceStore} {input : SaveInput}
    (h : store.saveDailyPriceSync input = .ok store') (row : DailyPrice) :
    row ∈ store'.prices.rows ↔ (row ∈ store.prices.rows
      ∧ row.date ∉ input.prices.map DailyPrice.date) ∨ row ∈ input.prices := by
  unfold saveDailyPriceSync at h
  split at h
  · cases h
  · next prices hcreate =>
    obtain rfl := Except.ok.inj h
    show row ∈ prices.rows ↔ _
    rw [PriceTable.mem_createMany hcreate, PriceTable.mem_deleteMany]

theorem mem_replaceDailyPriceHistory {store store' : PriceStore} {input : ReplaceInput}
    (h : store.replaceDailyPriceHistory input = .ok store') (row : DailyPrice) :
    row ∈ store'.prices.rows ↔ row ∈ input.prices := by
  unfold replaceDailyPriceHistory at h
  split at h
  · cases h
  · split at h
    · cases h
    · next prices hcreate =>
      obtain rfl := Except.ok.inj h
      show row ∈ prices.rows ↔ _
      rw [PriceTable.mem_createMany hcreate]
      simp

end PriceStore

end FactorSage.PriceBasis
