import FactorSage.DailyState.Accepted
import FactorSage.Library.JsonInteger

/-!
# The codec as a whole

`CanonicalCodec` collects what the two functions do together: rows of the declared type come back in
date order, the text depends only on what the rows hold, a range reads what the whole chunk reads,
and an accepted payload defines each value once and stands for rows that encode again.

A row that holds a `null` is not of the declared type, and is refused
(`encodeDailyStateChunk_null`).
-/

namespace FactorSage.DailyState

open JsonText

variable {N : Type} [JsonNumber N]

/-! ### Rows that hold the same -/

theorem mapM_congr {α β : Type} {f g : α → Except Text β} {l : List α}
    (h : ∀ a ∈ l, f a = g a) : l.mapM f = l.mapM g := by
  induction l with
  | nil => rfl
  | cons a l ih =>
    rw [List.mapM_cons, List.mapM_cons, h a List.mem_cons_self,
      ih fun b hb => h b (List.mem_cons_of_mem _ hb)]

section Canonical

variable {rows rows' : List (DailyDerivedState N)}

theorem ordered_map_canonical (rows : List (DailyDerivedState N)) :
    ordered (rows.map canonical) = (ordered rows).map canonical :=
  (List.map_insertionSort _ _ canonical rows fun _ _ _ _ => Iff.rfl).symm

theorem assertOneRowPerTradingDay_map (rows : List (DailyDerivedState N)) :
    ∀ seen, assertOneRowPerTradingDay seen (rows.map canonical)
      = assertOneRowPerTradingDay seen rows := by
  induction rows with
  | nil => exact fun _ => rfl
  | cons row rows ih =>
    intro seen
    rw [List.map_cons, assertOneRowPerTradingDay, assertOneRowPerTradingDay, ih]
    rfl

theorem assertRows_map (securityId : Text) (year : N) (rows : List (DailyDerivedState N)) :
    (rows.map canonical).forM (assertRowOfChunk securityId year)
      = rows.forM (assertRowOfChunk securityId year) := by
  induction rows with
  | nil => rfl
  | cons row rows ih =>
    change (assertRowOfChunk securityId year (canonical row)).bind _ = _
    rw [ih]
    rfl

/-- The text of rows is that of their canonical rows. -/
theorem encode_map_canonical [DecidableEq N] (securityId : Text) (year : N)
    (htyped : ∀ row ∈ rows, Typed row) :
    encodeDailyStateChunk securityId year (rows.map canonical)
      = encodeDailyStateChunk securityId year rows := by
  have hcolumn : ∀ column ∈ columns,
      encodeColumn column ((ordered rows).map canonical) = encodeColumn column (ordered rows) := by
    intro column hmem
    have hcells : ((ordered rows).map canonical).mapM (cellOf column)
        = (ordered rows).mapM (cellOf column) := by
      rw [List.mapM_map]
      exact mapM_congr fun row hrow =>
        (htyped row ((ordered_perm rows).mem_iff.mp hrow)).cellOf_canonical hmem
    unfold encodeColumn
    rw [hcells]
  have hdates : ((ordered rows).map canonical).map (fun row => (.str row.date : Value N))
      = (ordered rows).map fun row => .str row.date := by
    rw [List.map_map]
    rfl
  have hordered : ComparatorSort.sortBy compareDates (rows.map canonical)
      = (ordered rows).map canonical := ordered_map_canonical rows
  unfold encodeDailyStateChunk
  dsimp only
  rw [hordered, assertOneRowPerTradingDay_map, assertRows_map, mapM_congr hcolumn, hdates]
  rfl

omit [JsonNumber N] in
/-- Rows with distinct dates have one order. -/
theorem ordered_eq_of_perm (hperm : rows.Perm rows')
    (hdistinct : (rows.map DailyDerivedState.date).Nodup) : ordered rows = ordered rows' :=
  ComparatorSort.sortBy_eq_of_perm compares_dates hperm hdistinct

theorem encode_eq_of_perm [DecidableEq N] (securityId : Text) (year : N) (hperm : rows.Perm rows')
    (hdistinct : (rows.map DailyDerivedState.date).Nodup) :
    encodeDailyStateChunk securityId year rows = encodeDailyStateChunk securityId year rows' := by
  have hordered : ComparatorSort.sortBy compareDates rows
      = ComparatorSort.sortBy compareDates rows' := ordered_eq_of_perm hperm hdistinct
  unfold encodeDailyStateChunk
  rw [hordered]

/-- **The text depends only on what the rows hold**: not on their order, nor on that of their
properties. -/
theorem encode_eq_of_sameRow [DecidableEq N] (securityId : Text) (year : N)
    {permuted : List (DailyDerivedState N)} (hperm : rows.Perm permuted)
    (hsame : List.Forall₂ SameRow permuted rows')
    (hdistinct : (rows.map DailyDerivedState.date).Nodup)
    (htyped : ∀ row ∈ rows, Typed row) (htyped' : ∀ row ∈ rows', Typed row) :
    encodeDailyStateChunk securityId year rows = encodeDailyStateChunk securityId year rows' := by
  have hcanonical : permuted.map canonical = rows'.map canonical := by
    have htyped'' : ∀ row ∈ permuted, Typed row := fun row hrow =>
      htyped row (hperm.mem_iff.mpr hrow)
    clear hperm
    induction hsame with
    | nil => rfl
    | cons hrow _ ih =>
      rw [List.map_cons, List.map_cons,
        hrow.canonical_eq (htyped'' _ List.mem_cons_self) (htyped' _ List.mem_cons_self),
        ih (fun row h => htyped' row (List.mem_cons_of_mem _ h))
          fun row h => htyped'' row (List.mem_cons_of_mem _ h)]
  calc encodeDailyStateChunk securityId year rows
      = encodeDailyStateChunk securityId year (rows.map canonical) :=
        (encode_map_canonical securityId year htyped).symm
    _ = encodeDailyStateChunk securityId year (permuted.map canonical) :=
        encode_eq_of_perm securityId year (hperm.map canonical) (by rwa [List.map_map])
    _ = encodeDailyStateChunk securityId year (rows'.map canonical) := by rw [hcanonical]
    _ = encodeDailyStateChunk securityId year rows' :=
        encode_map_canonical securityId year htyped'

end Canonical

/-! ### The codec -/

/-- What the encoder and the decoder of a chunk do together. -/
structure CanonicalCodec (N : Type) [JsonNumber N] [DecidableEq N] : Prop where
  /-- Rows of one security and year with distinct dates come back in date order. -/
  roundTrip : ∀ (securityId : Text) (year : N) (rows : List (DailyDerivedState N)),
    isInteger year = true → (rows.map DailyDerivedState.date).Nodup →
    (∀ row ∈ rows, row.securityId = securityId ∧ isLocalDate row.date = true
      ∧ (yearPrefix year).isPrefixOf row.date = true) →
    (∀ row ∈ rows, Typed row) →
    ∃ payload sorted decoded, encodeDailyStateChunk securityId year rows = .ok payload
      ∧ sorted.Perm rows ∧ (sorted.map DailyDerivedState.date).Pairwise (· < ·)
      ∧ decodeDailyStateChunk payload securityId year none = .ok decoded
      ∧ List.Forall₂ SameRow sorted decoded
  /-- Neither the order of the rows nor that of their properties shows in the text. -/
  oneText : ∀ (securityId : Text) (year : N) (rows permuted rows' : List (DailyDerivedState N)),
    (rows.map DailyDerivedState.date).Nodup → (∀ row ∈ rows, Typed row) →
    (∀ row ∈ rows', Typed row) → rows.Perm permuted → List.Forall₂ SameRow permuted rows' →
    encodeDailyStateChunk securityId year rows = encodeDailyStateChunk securityId year rows'
  /-- A range is read as the whole chunk is: it fails as the whole does, and gives the rows of the
  whole inside the range. -/
  ranged : ∀ (payload securityId : Text) (year : N) (range : DateRange),
    decodeDailyStateChunk payload securityId year (some range)
      = (decodeDailyStateChunk payload securityId year none).map (rowsInside range)
  /-- Each column of an accepted payload is runs, one of which covers each date. -/
  once : ∀ (payload securityId : Text) (year : N) (rows : List (DailyDerivedState N)),
    decodeDailyStateChunk payload securityId year none = .ok rows →
    ∃ chunk cells, parse payload = some (.obj chunk)
      ∧ property? chunk (lit "dates")
        = some (.arr ((rows.map DailyDerivedState.date).map .str))
      ∧ (rows.map DailyDerivedState.date).Pairwise (· < ·)
      ∧ property? chunk (lit "columns") = some (.arr cells)
      ∧ cells.length = columns.length
      ∧ ∀ (j : ℕ) (column : DailyStateColumn), columns[j]? = some column →
        ∃ items : List (Value N), cells[j]? = some (.arr items) ∧ DefinesOnce column items rows
  /-- The rows of an accepted payload encode again, and decode to themselves. -/
  stable : ∀ (payload securityId : Text) (year : N) (rows : List (DailyDerivedState N)),
    isInteger year = true → decodeDailyStateChunk payload securityId year none = .ok rows →
    ∃ payload', encodeDailyStateChunk securityId year rows = .ok payload'
      ∧ decodeDailyStateChunk payload' securityId year none = .ok rows

omit [JsonNumber N] in
theorem forall₂_map_self {α β : Type} {R : α → β → Prop} {f : α → β} {l : List α}
    (h : ∀ a ∈ l, R a (f a)) : List.Forall₂ R l (l.map f) := by
  rw [List.forall₂_map_right_iff, List.forall₂_same]
  exact h

theorem canonicalCodec [DecidableEq N] [LawfulJsonNumber N] : CanonicalCodec N where
  roundTrip securityId year rows hyear hdistinct hrows htyped := by
    have hchunk : ChunkRows securityId year rows :=
      ⟨hyear, hdistinct, fun row hrow => (hrows row hrow).1, fun row hrow => (hrows row hrow).2,
        fun row hrow column hcolumn => (htyped row hrow).exists_cellOf hcolumn⟩
    obtain ⟨payload, hencode, hdecode⟩ := decode_encode hchunk
    refine ⟨payload, ordered rows, _, hencode, ordered_perm rows, ordered_ascending hdistinct,
      hdecode, forall₂_map_self fun row hrow => ?_⟩
    exact (htyped row ((ordered_perm rows).mem_iff.mp hrow)).sameRow_canonical
  oneText securityId year _ _ _ hdistinct htyped htyped' hperm hsame :=
    encode_eq_of_sameRow securityId year hperm hsame hdistinct htyped htyped'
  ranged := decode_range
  once _ _ _ _ h := column_of_decode h
  stable _ _ _ _ hyear h := decode_encode_of_decode hyear h

theorem canonicalCodec_int : CanonicalCodec ℤ := canonicalCodec

/-- A row whose only property is a `null`. -/
def nullRow : DailyDerivedState ℤ where
  securityId := lit "US0378331005"
  date := lit "2024-03-05"
  fields := OrderedMap.ofList [("rvol20", .scalar .null)]

/-- A `null` is refused, where an absent value is not. -/
theorem encodeDailyStateChunk_null :
    encodeDailyStateChunk (lit "US0378331005") (2024 : ℤ) [nullRow]
      = .error (lit "Refusing to encode rvol20 = null for 2024-03-05: not a finite number")
    ∧ (encodeDailyStateChunk (lit "US0378331005") (2024 : ℤ)
        [{ nullRow with fields := OrderedMap.ofList [] }]).toOption.isSome = true := by
  decide +kernel

end FactorSage.DailyState
