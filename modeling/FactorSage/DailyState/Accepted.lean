import FactorSage.DailyState.RoundTrip

/-!
# What is accepted

`exists_of_decode`: a payload that decodes holds a chunk of the security and the year whose axis
ascends, and each of its columns is a list of runs of at least one session that add up to the axis.

So every column of an accepted payload defines one value for each date (`column_of_decode`), and the
rows encode again and decode to themselves (`decode_encode_of_decode`).
-/

namespace FactorSage.DailyState

open JsonText

variable {N : Type} [JsonNumber N] {kind : ColumnKind}

/-! ### One column -/

theorem pos_of_countOf {least n : ℕ} {count : Value N} (h : countOf least count = some n)
    (hleast : 0 < least) : 0 < n := by
  cases count with
  | num x =>
    change ((safeInteger? x).bind fun n => if n < least then none else some n.toNat) = _ at h
    obtain ⟨z, -, hz⟩ := Option.bind_eq_some_iff.mp h
    split at hz
    · cases hz
    · obtain rfl := Option.some.inj hz
      omega
  | _ => cases h

theorem fits_of_readValueOf {value : Value N} {cell : Option (Cell N)}
    (h : readValueOf kind value = .ok cell) : ∀ c, cell = some c → Fits kind c := by
  rintro c rfl
  unfold readValueOf at h
  split at h
  · next held hheld =>
    obtain rfl := Option.some.inj (Except.ok.inj h)
    unfold holdsKind at hheld
    split at hheld
    · split at hheld
      · next hfinite =>
        obtain rfl := Option.some.inj hheld
        exact hfinite
      · cases hheld
    · obtain rfl := Option.some.inj hheld
      exact trivial
    · cases hheld
  · cases h

theorem readValueOf_map {value : Value N} {count : ℕ} {run : Option (Cell N) × ℕ}
    (h : (readValueOf kind value).map (fun cell => (cell, count)) = .ok run) :
    readValueOf kind value = .ok run.1 ∧ run.2 = count := by
  cases hread : readValueOf kind value with
  | error failure =>
    rw [hread] at h
    cases h
  | ok cell =>
    rw [hread] at h
    obtain rfl := Except.ok.inj h
    exact ⟨rfl, rfl⟩

/-- A cell that is read stands for at least one session, with a value its column may hold. -/
theorem readCell_spec {cell : Value N} {run : Option (Cell N) × ℕ}
    (h : readCell kind cell = .ok run) :
    0 < run.2 ∧ ∀ c, run.1 = some c → Fits kind c := by
  unfold readCell at h
  split at h
  · split at h
    · cases h
    · next n hcount =>
      obtain rfl := Except.ok.inj h
      exact ⟨pos_of_countOf hcount Nat.one_pos, fun _ h => (nomatch h)⟩
  · split at h
    · cases h
    · next n hcount =>
      obtain ⟨hvalue, hn⟩ := readValueOf_map h
      exact ⟨hn ▸ pos_of_countOf hcount Nat.two_pos, fits_of_readValueOf hvalue⟩
  · cases h
  · obtain ⟨hvalue, hn⟩ := readValueOf_map h
    exact ⟨hn ▸ Nat.one_pos, fits_of_readValueOf hvalue⟩

/-- The runs of a column are what its cells are read as. -/
theorem forall₂_of_readRuns {sessions : ℕ} {cells : List (Value N)} :
    ∀ {index : ℕ} {runs : List (Option (Cell N) × ℕ)},
      readRuns kind sessions cells index = .ok runs →
      List.Forall₂ (fun cell run => readCell kind cell = .ok run) cells runs := by
  induction cells with
  | nil =>
    intro index runs h
    obtain rfl := Except.ok.inj h
    exact List.Forall₂.nil
  | cons cell rest ih =>
    intro index runs h
    rw [readRuns] at h
    cases hcell : readCell kind cell with
    | error failure =>
      rw [hcell] at h
      cases h
    | ok run =>
      rw [hcell] at h
      change ite _ _ _ = _ at h
      split at h
      · cases h
      · change (readRuns kind sessions rest (index + run.2)).bind _ = _ at h
        cases hrest : readRuns kind sessions rest (index + run.2) with
        | error failure =>
          rw [hrest] at h
          cases h
        | ok runs' =>
          rw [hrest] at h
          obtain rfl := Except.ok.inj h
          exact List.Forall₂.cons hcell (ih hrest)

/-- The cells of a column stand for runs of at least one session that add up to the axis. -/
structure ColumnRuns (kind : ColumnKind) (cells : List (Value N)) (values : List (Option (Cell N)))
    (runs : List (Option (Cell N) × ℕ)) : Prop where
  read : List.Forall₂ (fun cell run => readCell kind cell = .ok run) cells runs
  pos : ∀ run ∈ runs, 0 < run.2
  fits : ∀ run ∈ runs, ∀ cell, run.1 = some cell → Fits kind cell
  expand : RunLength.expand runs = values

theorem exists_columnRuns {held : Value N} {sessions : ℕ} {values : List (Option (Cell N))}
    (h : readColumn kind (some held) sessions = .ok values) :
    ∃ cells runs, held = .arr cells ∧ values.length = sessions
      ∧ ColumnRuns kind cells values runs := by
  have hlength := length_readColumn h
  cases held with
  | arr cells =>
    unfold readColumn at h
    rw [expandColumn_eq] at h
    cases hruns : readRuns kind sessions cells 0 with
    | error failure =>
      rw [hruns] at h
      cases h
    | ok runs =>
      rw [hruns] at h
      change ite _ _ _ = _ at h
      split at h
      · next hsum =>
        rw [← hsum, windowed_whole] at h
        have hread := forall₂_of_readRuns hruns
        have hspec : ∀ run ∈ runs, 0 < run.2 ∧ ∀ c, run.1 = some c → Fits kind c := by
          intro run hrun
          obtain ⟨hcount, hget⟩ := List.forall₂_iff_get.mp hread
          obtain ⟨i, rfl⟩ := List.mem_iff_get.mp hrun
          exact readCell_spec (hget i (hcount.symm ▸ i.isLt) i.isLt)
        exact ⟨cells, runs, rfl, hlength, hread, fun run hrun => (hspec run hrun).1,
          fun run hrun => (hspec run hrun).2, Except.ok.inj h⟩
      · cases h
  | _ => cases h

/-! ### The whole chunk -/

variable {year : N}

theorem dates_of_readDates {previous : Text} {dates : List (Value N)} {axis : List Text}
    (h : readDates year previous dates = .ok axis) :
    dates = axis.map .str ∧ ∀ date ∈ axis,
      isLocalDate date = true ∧ (yearPrefix year).isPrefixOf date = true := by
  induction dates generalizing previous axis with
  | nil =>
    obtain rfl := Except.ok.inj h
    exact ⟨rfl, fun _ h => (nomatch h)⟩
  | cons value rest ih =>
    cases value with
    | str date =>
      rw [readDates] at h
      split at h
      · cases h
      next hlocal =>
      split at h
      · cases h
      next hprefix =>
      split at h
      · cases h
      cases hrest : readDates year date rest with
      | error failure =>
        rw [hrest] at h
        cases h
      | ok axis' =>
        rw [hrest] at h
        obtain rfl := Except.ok.inj h
        obtain ⟨hdates, hall⟩ := ih hrest
        refine ⟨by rw [hdates, List.map_cons], fun d hd => ?_⟩
        rcases List.mem_cons.mp hd with rfl | hd
        · exact ⟨Bool.not_eq_false _ ▸ hlocal, Bool.not_eq_false _ ▸ hprefix⟩
        · exact hall d hd
    | _ => cases h

/-- What a payload that decodes holds: the dates of an axis, and for each column a list of cells. -/
structure Accepted (securityId : Text) (year : N) (chunk : List (Text × Value N))
    (axis : List Text) (cells : List (Value N)) (values : List (List (Option (Cell N)))) :
    Prop where
  dates : property? chunk (lit "dates") = some (.arr (axis.map .str))
  ascending : axis.Pairwise (· < ·)
  inYear : ∀ date ∈ axis, isLocalDate date = true ∧ (yearPrefix year).isPrefixOf date = true
  columns : property? chunk (lit "columns") = some (.arr cells)
  count : cells.length = DailyState.columns.length
  held : List.Forall₂ (fun (entry : DailyStateColumn × Value N) column =>
    readColumn entry.1.kind (some entry.2) axis.length = .ok column)
    (DailyState.columns.zip cells) values

omit [JsonNumber N] in
/-- The rows of an accepted chunk. -/
def acceptedRows (securityId : Text) (axis : List Text) (values : List (List (Option (Cell N)))) :
    List (DailyDerivedState N) :=
  (List.range axis.length).map fun i =>
    rowAt securityId (axis.getD i []) (cellsAt values i)

theorem mapError_ok {α : Type} {f : Text → Text} {x : Except Text α} {a : α}
    (h : x.mapError f = .ok a) : x = .ok a := by
  cases x with
  | error failure => cases h
  | ok b => exact h

/-- **A payload that decodes** holds a chunk of the security and the year, and its rows are those of
its sessions. -/
theorem exists_of_decode [DecidableEq N] {payload securityId : Text}
    {rows : List (DailyDerivedState N)}
    (h : decodeDailyStateChunk payload securityId year none = .ok rows) :
    ∃ chunk axis cells values, parse payload = some (.obj chunk)
      ∧ headerFailure chunk securityId year = none
      ∧ Accepted securityId year chunk axis cells values
      ∧ rows = acceptedRows securityId axis values := by
  -- each check that does not fail is one part of what was accepted
  unfold decodeDailyStateChunk at h
  split at h
  · cases h
  · next chunk hparse =>
    split at h
    · cases h
    next hheader =>
    cases haxis : dateAxis year (property? chunk (lit "dates")) with
    | error failure =>
      rw [haxis] at h
      cases h
    | ok axis =>
      rw [haxis] at h
      change decodeColumns securityId axis none _ = _ at h
      unfold decodeColumns at h
      split at h
      · next cells hcells =>
        split at h
        · cases h
        next hcount =>
        change (expandColumns cells axis.length 0 axis.length).bind _ = _ at h
        cases hvalues : expandColumns cells axis.length 0 axis.length with
        | error failure =>
          rw [hvalues] at h
          cases h
        | ok values =>
          rw [hvalues] at h
          obtain rfl := Except.ok.inj h
          have hheld := (forall₂_of_mapM hvalues).imp fun _ _ hread => mapError_ok hread
          have hascending := dateAxis_ascending haxis
          unfold dateAxis at haxis
          split at haxis
          · next dates hdates =>
            obtain ⟨rfl, hall⟩ := dates_of_readDates haxis
            exact ⟨chunk, axis, cells, values, hparse, hheader,
              ⟨hdates, hascending, hall, hcells, not_not.mp hcount, hheld⟩,
              materializeRows_whole securityId axis values⟩
          · cases haxis
      · cases h
  · cases h

section Accepted

variable {securityId : Text} {chunk : List (Text × Value N)} {axis : List Text}
  {cells : List (Value N)} {values : List (List (Option (Cell N)))}

section

variable (h : Accepted securityId year chunk axis cells values)

include h

theorem Accepted.length_values :
    values.length = DailyState.columns.length := by
  rw [← h.held.length_eq, List.length_zip, h.count, min_self]

/-- The runs of a column of an accepted chunk. -/
theorem Accepted.exists_runs {j : ℕ}
    {column : DailyStateColumn} (hj : DailyState.columns[j]? = some column) :
    ∃ items runs whole, cells[j]? = some (.arr items) ∧ values[j]? = some whole
      ∧ whole.length = axis.length ∧ ColumnRuns column.kind items whole runs := by
  obtain ⟨hlt, -⟩ := List.getElem?_eq_some_iff.mp hj
  have hcells : j < cells.length := h.count ▸ hlt
  have hheld := List.getElem?_eq_getElem (l := cells) (i := j) hcells
  have hvalues := List.getElem?_eq_getElem (l := values) (i := j) (h.length_values ▸ hlt)
  have hentry : (DailyState.columns.zip cells)[j]? = some (column, cells[j]) :=
    List.getElem?_zip_eq_some.mpr ⟨hj, hheld⟩
  obtain ⟨hi, hentry⟩ := List.getElem?_eq_some_iff.mp hentry
  have hread := (List.forall₂_iff_get.mp h.held).2 j hi (h.length_values ▸ hlt)
  rw [List.get_eq_getElem, hentry] at hread
  obtain ⟨items, runs, heq, hlength, hruns⟩ := exists_columnRuns hread
  exact ⟨items, runs, _, heq ▸ hheld, hvalues, hlength, hruns⟩

theorem Accepted.getElem?_cellsAt {j i : ℕ}
    {column : DailyStateColumn} {value : Option (Cell N)}
    (hmem : (DailyState.columns.zip (cellsAt values i))[j]? = some (column, value)) :
    ∃ items runs whole, cells[j]? = some (.arr items) ∧ whole.length = axis.length
      ∧ value = (whole[i]?).join ∧ ColumnRuns column.kind items whole runs := by
  obtain ⟨hcolumn, hvalue⟩ := List.getElem?_zip_eq_some.mp hmem
  obtain ⟨items, runs, whole, hitems, hwhole, hlength, hruns⟩ := h.exists_runs hcolumn
  rw [cellsAt, List.getElem?_map, hwhole] at hvalue
  exact ⟨items, runs, whole, hitems, hlength, (Option.some.inj hvalue).symm, hruns⟩

theorem Accepted.fits (i : ℕ) :
    ∀ column cell, (column, some cell) ∈ DailyState.columns.zip (cellsAt values i) →
      Fits column.kind cell := by
  intro column cell hmem
  obtain ⟨j, hj⟩ := List.mem_iff_getElem?.mp hmem
  obtain ⟨items, runs, whole, -, -, hcell, hruns⟩ := h.getElem?_cellsAt hj
  have hwhole : some cell ∈ whole :=
    List.mem_of_getElem? (Option.join_eq_some_iff.mp hcell.symm)
  rw [← hruns.expand] at hwhole
  obtain ⟨run, hrun, hreplicate⟩ := List.mem_flatMap.mp hwhole
  exact hruns.fits run hrun cell (List.eq_of_mem_replicate hreplicate).symm

theorem Accepted.length_cellsAt (i : ℕ) :
    (cellsAt values i).length = DailyState.columns.length := by
  rw [cellsAt, List.length_map, h.length_values]

end

omit [JsonNumber N] in
theorem mem_acceptedRows {row : DailyDerivedState N}
    (h : row ∈ acceptedRows securityId axis values) :
    ∃ i, ∃ hi : i < axis.length, row = rowAt securityId axis[i] (cellsAt values i) := by
  obtain ⟨i, hi, rfl⟩ := List.mem_map.mp h
  have hlt := List.mem_range.mp hi
  exact ⟨i, hlt, by rw [List.getD_eq_getElem _ _ hlt]⟩

omit [JsonNumber N] in
theorem map_date_acceptedRows :
    (acceptedRows securityId axis values).map DailyDerivedState.date = axis := by
  refine List.ext_getElem? fun i => ?_
  rw [acceptedRows, List.map_map, List.getElem?_map]
  by_cases hi : i < axis.length
  · rw [List.getElem?_range hi, List.getElem?_eq_getElem hi]
    exact congrArg some (List.getD_eq_getElem _ _ hi)
  · rw [List.getElem?_eq_none (by rw [List.length_range]; omega),
      List.getElem?_eq_none (not_lt.mp hi)]
    rfl

theorem Accepted.chunkRows (h : Accepted securityId year chunk axis cells values)
    (hyear : isInteger year = true) :
    ChunkRows securityId year (acceptedRows securityId axis values) where
  integral := hyear
  distinct := by
    rw [map_date_acceptedRows]
    exact h.ascending.imp ne_of_lt
  security row hrow := by
    obtain ⟨i, hi, rfl⟩ := mem_acceptedRows hrow
    rfl
  dates row hrow := by
    obtain ⟨i, hi, rfl⟩ := mem_acceptedRows hrow
    exact h.inYear _ (List.getElem_mem hi)
  cells row hrow column hcolumn := by
    obtain ⟨i, hi, rfl⟩ := mem_acceptedRows hrow
    exact (typed_rowAt (h.length_cellsAt i) (h.fits i) _ _).exists_cellOf hcolumn

/-- The rows of an accepted chunk are in order and canonical. -/
theorem Accepted.ordered_canonical (h : Accepted securityId year chunk axis cells values) :
    (ordered (acceptedRows securityId axis values)).map canonical
      = acceptedRows securityId axis values := by
  have hascending : (acceptedRows securityId axis values).Pairwise
      fun a b => a.date ≤ b.date := by
    have hdates : ((acceptedRows securityId axis values).map DailyDerivedState.date).Pairwise
        (· < ·) := by
      rw [map_date_acceptedRows]
      exact h.ascending
    exact (List.pairwise_map.mp hdates).imp le_of_lt
  have hordered : ordered (acceptedRows securityId axis values)
      = acceptedRows securityId axis values :=
    List.Pairwise.insertionSort_eq
      (hascending.imp fun {a b} hab => (compares_dates.precedes_iff a b).mpr hab)
  rw [hordered]
  refine (List.map_congr_left fun row hrow => ?_).trans (List.map_id _)
  obtain ⟨i, hi, rfl⟩ := mem_acceptedRows hrow
  exact canonical_rowAt (h.length_cellsAt i) (h.fits i) _ _

end Accepted

section Decoded

variable [DecidableEq N] {payload securityId : Text} {rows : List (DailyDerivedState N)}

/-- **The rows of an accepted payload encode again**, to a text that decodes to themselves. -/
theorem decode_encode_of_decode [LawfulJsonNumber N] (hyear : isInteger year = true)
    (h : decodeDailyStateChunk payload securityId year none = .ok rows) :
    ∃ payload', encodeDailyStateChunk securityId year rows = .ok payload'
      ∧ decodeDailyStateChunk payload' securityId year none = .ok rows := by
  obtain ⟨chunk, axis, cells, values, -, -, haccepted, rfl⟩ := exists_of_decode h
  obtain ⟨payload', hencode, hdecode⟩ := decode_encode (haccepted.chunkRows hyear)
  rw [haccepted.ordered_canonical] at hdecode
  exact ⟨payload', hencode, hdecode⟩

/-- Cells of a column that stand for runs, exactly one of which covers each row and holds what the
row has in the column. -/
def DefinesOnce (column : DailyStateColumn) (items : List (Value N))
    (rows : List (DailyDerivedState N)) : Prop :=
  ∃ runs : List (Option (Cell N) × ℕ),
    List.Forall₂ (fun cell run => readCell column.kind cell = .ok run) items runs
    ∧ (∀ run ∈ runs, 0 < run.2) ∧ (RunLength.expand runs).length = rows.length
    ∧ ∀ i row, rows[i]? = some row → ∃ k value, RunLength.Covers runs k i
      ∧ (runs[k]?).map Prod.fst = some value ∧ cellOf column row = .ok value
      ∧ ∀ k', RunLength.Covers runs k' i → k' = k

/-- **Every column of an accepted payload defines one value for each date.** -/
theorem column_of_decode (h : decodeDailyStateChunk payload securityId year none = .ok rows) :
    ∃ chunk cells, parse payload = some (.obj chunk)
      ∧ property? chunk (lit "dates")
        = some (.arr ((rows.map DailyDerivedState.date).map .str))
      ∧ (rows.map DailyDerivedState.date).Pairwise (· < ·)
      ∧ property? chunk (lit "columns") = some (.arr cells)
      ∧ cells.length = columns.length
      ∧ ∀ (j : ℕ) (column : DailyStateColumn), columns[j]? = some column →
        ∃ items : List (Value N), cells[j]? = some (.arr items) ∧ DefinesOnce column items rows := by
  obtain ⟨chunk, axis, cells, values, hparse, -, haccepted, rfl⟩ := exists_of_decode h
  refine ⟨chunk, cells, hparse, ?_, ?_, haccepted.columns, haccepted.count, fun j column hj => ?_⟩
  · rw [map_date_acceptedRows]
    exact haccepted.dates
  · rw [map_date_acceptedRows]
    exact haccepted.ascending
  · obtain ⟨items, runs, whole, hitems, hwhole, hlength, hruns⟩ := haccepted.exists_runs hj
    refine ⟨items, hitems, runs, hruns.read, hruns.pos, ?_, fun i row hrow => ?_⟩
    · rw [hruns.expand, hlength, acceptedRows, List.length_map, List.length_range]
    · obtain ⟨hi, -⟩ := List.getElem?_eq_some_iff.mp hrow
      rw [acceptedRows, List.length_map, List.length_range] at hi
      rw [acceptedRows, List.getElem?_map, List.getElem?_range hi] at hrow
      obtain rfl := Option.some.inj hrow
      -- the session's value, and the run that covers it
      have hwithin : i < whole.length := hlength ▸ hi
      have hvalue := List.getElem?_eq_getElem hwithin
      have hexpanded : (RunLength.expand runs)[i]? = some whole[i] := by
        rw [hruns.expand]
        exact hvalue
      obtain ⟨k, hcovers, hfirst, hunique⟩ := RunLength.exists_run hexpanded
      have hcell : (columns.zip (cellsAt values i))[j]? = some (column, (whole[i]?).join) := by
        refine List.getElem?_zip_eq_some.mpr ⟨hj, ?_⟩
        rw [cellsAt, List.getElem?_map, hwhole]
        rfl
      rw [hvalue] at hcell
      exact ⟨k, _, hcovers, hfirst, cellOf_rowAt (haccepted.length_cellsAt i) (haccepted.fits i) _ _
        (List.mem_of_getElem? hcell), hunique⟩

end Decoded

end FactorSage.DailyState
