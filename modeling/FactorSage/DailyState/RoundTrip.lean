import FactorSage.DailyState.Rows
import FactorSage.Library.JsonRoundTrip
import Mathlib.Data.List.ProdSigma

/-!
# What is encoded is decoded

`decode_encode`: rows of one security and year with distinct dates, each of whose columns takes a
value, encode to a text that decodes to their canonical rows in date order.

A year has fewer than `10000` dates of the accepted form (`length_le_of_dates`), so every count of a
run is an integer a double holds exactly.
-/

namespace FactorSage.DailyState

open JsonText

variable {N : Type} [JsonNumber N]

/-! ### One column -/

section Column

variable [LawfulJsonNumber N] {kind : ColumnKind}

/-- The largest integer below which a double holds every one. -/
def maxSafeInteger : ℕ := 9007199254740991

theorem countOf_ofInt {least n : ℕ} (hleast : least ≤ n) (hsafe : n ≤ maxSafeInteger) :
    countOf least (.num (ofInt n) : Value N) = some n := by
  have hread : safeInteger? (ofInt n : N) = some (n : ℤ) := LawfulJsonNumber.safeInteger?_ofInt _ hsafe
  change ((safeInteger? (ofInt n : N)).bind fun n => if n < least then none else some n.toNat) = _
  rw [hread, Option.bind_some, if_neg (by omega), Int.toNat_natCast]

omit [LawfulJsonNumber N] in
theorem readValueOf_value {cell : Cell N} (hfits : Fits kind cell) :
    readValueOf kind cell.value = .ok (some cell) := by
  have hholds : holdsKind kind cell.value = some cell := by
    cases kind with
    | number =>
      cases cell with
      | num x => exact if_pos hfits
      | text s => exact hfits.elim
    | text =>
      cases cell with
      | num x => exact hfits.elim
      | text s => rfl
  rw [readValueOf, hholds]

/-- The cell of a run is read as the run. -/
theorem readCell_encodeRun {run : Option (Cell N) × ℕ} (hpos : 0 < run.2)
    (hsafe : run.2 ≤ maxSafeInteger) (hfits : ∀ cell, run.1 = some cell → Fits kind cell) :
    readCell kind (encodeRun run) = .ok run := by
  obtain ⟨value, count⟩ := run
  cases value with
  | none =>
    rw [encodeRun, readCell, countOf_ofInt hpos hsafe]
  | some cell =>
    have hcell := readValueOf_value (hfits cell rfl)
    rw [encodeRun]
    split
    · next hone =>
      change count = 1 at hone
      subst hone
      cases cell with
      | num x =>
        change (readValueOf kind (Cell.num x).value).map _ = _
        rw [hcell]
        rfl
      | text s =>
        change (readValueOf kind (Cell.text s).value).map _ = _
        rw [hcell]
        rfl
    · next hone =>
      have htwo : 2 ≤ count := by
        change 0 < count at hpos
        omega
      rw [readCell, countOf_ofInt htwo hsafe]
      change (readValueOf kind cell.value).map _ = _
      rw [hcell]
      rfl

omit [LawfulJsonNumber N] in
/-- The runs of a column are read back while they fit the axis. -/
theorem readRuns_encodeRun {sessions : ℕ} {rs : List (Option (Cell N) × ℕ)}
    (hread : ∀ run ∈ rs, readCell kind (encodeRun run) = .ok run) :
    ∀ index, index + (RunLength.expand rs).length ≤ sessions →
      readRuns kind sessions (rs.map encodeRun) index = .ok rs := by
  induction rs with
  | nil => exact fun _ _ => rfl
  | cons run rs ih =>
    intro index hfits
    rw [RunLength.expand_cons, List.length_append, List.length_replicate] at hfits
    have hrest := ih (fun run' hmem => hread run' (List.mem_cons_of_mem _ hmem)) (index + run.2)
      (by omega)
    rw [List.map_cons, readRuns, hread run List.mem_cons_self]
    change ite _ _ _ = _
    rw [if_neg (by omega)]
    change (readRuns kind sessions (rs.map encodeRun) (index + run.2)).bind _ = _
    rw [hrest]
    rfl

/-- **A column is read back.** -/
theorem readColumn_encode [DecidableEq N] {values : List (Option (Cell N))}
    (hsafe : values.length ≤ maxSafeInteger)
    (hfits : ∀ cell, some cell ∈ values → Fits kind cell) :
    readColumn kind (some (.arr ((RunLength.runs values).map encodeRun))) values.length
      = .ok values := by
  have hread : ∀ run ∈ RunLength.runs values, readCell kind (encodeRun run) = .ok run := by
    intro run hrun
    refine readCell_encodeRun (RunLength.pos_of_mem_runs run hrun)
      ((RunLength.snd_le_of_mem_runs hrun).trans hsafe) fun cell heq => ?_
    exact hfits cell (heq ▸ RunLength.fst_mem_of_mem_runs hrun)
  have hruns : readRuns kind values.length ((RunLength.runs values).map encodeRun) 0
      = .ok (RunLength.runs values) :=
    readRuns_encodeRun hread 0 (by rw [RunLength.expand_runs, Nat.zero_add])
  unfold readColumn
  rw [expandColumn_eq, hruns]
  change ite _ _ _ = _
  rw [RunLength.expand_runs, if_pos rfl, windowed_whole]

end Column

/-! ### Dates -/

/-- The dates of the accepted form that start with five given units. -/
def datesFrom (front : Text) : List Text :=
  let digits := (List.range 10).map (48 + ·)
  (digits ×ˢ digits ×ˢ digits ×ˢ digits).map fun (a, b, c, d) => front ++ [a, b, 45, c, d]

theorem length_datesFrom (front : Text) : (datesFrom front).length = 10000 := by
  unfold datesFrom
  rw [List.length_map, List.length_product, List.length_product, List.length_product]
  rfl

theorem mem_digits {u : ℕ} (h : isDigit u = true) : u ∈ (List.range 10).map (48 + ·) := by
  unfold isDigit at h
  rw [decide_eq_true_eq] at h
  exact List.mem_map.mpr ⟨u - 48, List.mem_range.mpr (by omega), by omega⟩

omit [JsonNumber N] in
theorem mem_datesFrom {date start : Text} (hdate : isLocalDate date = true)
    (hstart : start.isPrefixOf date = true) (hlength : 5 ≤ start.length) :
    date ∈ datesFrom (start.take 5) := by
  unfold isLocalDate at hdate
  split at hdate
  · next a b c d dash e f dash' g h =>
    simp only [List.all_cons, List.all_nil, Bool.and_true, Bool.and_eq_true, decide_eq_true_eq]
      at hdate
    obtain ⟨⟨-, -, -, -, he, hf, hg, hh⟩, rfl, rfl⟩ := hdate
    have htake : start.take 5 = [a, b, c, d, 45] := by
      obtain ⟨rest, hrest⟩ := List.isPrefixOf_iff_prefix.mp hstart
      have := congrArg (List.take 5) hrest
      rwa [List.take_append_of_le_length hlength] at this
    rw [htake]
    exact List.mem_map.mpr ⟨(e, f, g, h), List.pair_mem_product.mpr ⟨mem_digits he,
      List.pair_mem_product.mpr ⟨mem_digits hf,
        List.pair_mem_product.mpr ⟨mem_digits hg, mem_digits hh⟩⟩⟩, rfl⟩
  · cases hdate

theorem length_yearPrefix (year : N) : 5 ≤ (yearPrefix year).length := by
  unfold yearPrefix
  rw [List.length_append, List.length_append, List.length_replicate, List.length_singleton]
  omega

/-- **A year has few dates.** -/
theorem length_le_of_dates {year : N} {dates : List Text} (hnodup : dates.Nodup)
    (hdates : ∀ date ∈ dates,
      isLocalDate date = true ∧ (yearPrefix year).isPrefixOf date = true) :
    dates.length ≤ maxSafeInteger := by
  have hsubset : dates ⊆ datesFrom ((yearPrefix year).take 5) := fun date hmem =>
    mem_datesFrom (hdates date hmem).1 (hdates date hmem).2 (length_yearPrefix year)
  calc dates.length ≤ (datesFrom ((yearPrefix year).take 5)).length :=
        (List.subperm_of_subset hnodup hsubset).length_le
    _ = 10000 := length_datesFrom _
    _ ≤ maxSafeInteger := by decide

/-! ### The text of a chunk -/

/-- The chunk object of some rows. -/
def chunkOf (securityId : Text) (year : N) (dates : List Text) (cells : List (List (Value N))) :
    List (Text × Value N) :=
  [(lit "version", .num dailyStateEncodingVersion), (lit "securityId", .str securityId),
    (lit "year", .num year), (lit "fields", .arr (dailyStateChunkFields.map .str)),
    (lit "dates", .arr (dates.map .str)), (lit "columns", .arr (cells.map .arr))]

def chunkKeys : List Text :=
  [lit "version", lit "securityId", lit "year", lit "fields", lit "dates", lit "columns"]

theorem chunkKeys_nodup : chunkKeys.Nodup := by decide +kernel

theorem chunkKeys_named : ∀ key ∈ chunkKeys, arrayIndex? key = none := by decide +kernel

omit [JsonNumber N] in
/-- Distinct keys none of which is an index are in their own order. -/
theorem ownProperties_of_named {fields : List (Text × Value N)}
    (hnodup : (fields.map Prod.fst).Nodup)
    (hnamed : ∀ key ∈ fields.map Prod.fst, arrayIndex? key = none) :
    ownProperties fields = fields := by
  have hnone : ∀ field ∈ fields, arrayIndex? field.1 = none := fun field hmem =>
    hnamed field.1 (List.mem_map_of_mem hmem)
  have hindexed : fields.filter (fun field => (arrayIndex? field.1).isSome) = [] :=
    List.filter_eq_nil_iff.mpr fun field hmem => by rw [hnone field hmem]; decide
  have hall : fields.filter (fun field => (arrayIndex? field.1).isNone) = fields :=
    List.filter_eq_self.mpr fun field hmem => by rw [hnone field hmem]; rfl
  unfold ownProperties
  dsimp only
  rw [OrderedMap.entries_ofList hnodup, hindexed, hall]
  rfl

omit [JsonNumber N] in
theorem property?_of_mem {fields : List (Text × Value N)} (hnodup : (fields.map Prod.fst).Nodup)
    {key : Text} {value : Value N} (hmem : (key, value) ∈ fields) :
    property? fields key = some value := by
  unfold property?
  induction fields with
  | nil => cases hmem
  | cons field fields ih =>
    rw [List.map_cons, List.nodup_cons] at hnodup
    rcases List.mem_cons.mp hmem with rfl | hmem
    · rw [List.find?_cons, decide_eq_true (rfl : (key, value).1 = key)]
      rfl
    · have hne : field.1 ≠ key := fun heq => hnodup.1 (heq ▸ List.mem_map_of_mem hmem)
      rw [List.find?_cons, decide_eq_false hne]
      exact ih hnodup.2 hmem

variable {securityId : Text}

/-- What a chunk holds under its keys. -/
theorem property?_chunkOf {year : N} {dates : List Text}
    {cells : List (List (Value N))} {key : Text} {value : Value N}
    (hmem : (key, value) ∈ chunkOf securityId year dates cells) :
    property? (chunkOf securityId year dates cells) key = some value := by
  have hnodup : ((chunkOf securityId year dates cells).map Prod.fst).Nodup := chunkKeys_nodup
  exact property?_of_mem hnodup hmem

section Stringify

variable [LawfulJsonNumber N]

theorem isFinite_version : isFinite (dailyStateEncodingVersion : N) = true :=
  LawfulJsonNumber.isFinite_ofInt 2 (by decide)

/-- The text is that of the chunk object. -/
theorem stringify_chunkOf {year : N} (hyear : isInteger year = true) (securityId : Text)
    (dates : List Text) (cells : List (List (Value N))) :
    lit "\x7b\"version\":" ++ JsonNumber.text (dailyStateEncodingVersion : N)
      ++ (lit ",\"securityId\":" ++ stringify (.str securityId : Value N)
      ++ (lit ",\"year\":" ++ JsonNumber.text year
      ++ (lit ",\"fields\":" ++ stringify (.arr (dailyStateChunkFields.map .str) : Value N)
      ++ (lit ",\"dates\":" ++ stringify (.arr (dates.map .str) : Value N)
      ++ (lit ",\"columns\":" ++ stringify (.arr (cells.map .arr)) ++ lit "\x7d")))))
      = stringify (.obj (chunkOf securityId year dates cells)) := by
  have hversion : lit "\x7b\"version\":" = 123 :: (quote (lit "version") ++ [58]) := by
    decide +kernel
  have hsecurity : lit ",\"securityId\":" = 44 :: (quote (lit "securityId") ++ [58]) := by
    decide +kernel
  have hyearKey : lit ",\"year\":" = 44 :: (quote (lit "year") ++ [58]) := by decide +kernel
  have hfields : lit ",\"fields\":" = 44 :: (quote (lit "fields") ++ [58]) := by decide +kernel
  have hdates : lit ",\"dates\":" = 44 :: (quote (lit "dates") ++ [58]) := by decide +kernel
  have hcolumns : lit ",\"columns\":" = 44 :: (quote (lit "columns") ++ [58]) := by
    decide +kernel
  have hclose : lit "\x7d" = [125] := by decide +kernel
  have hfinite := LawfulJsonNumber.isFinite_of_isInteger year hyear
  rw [stringify.eq_def (.obj _)]
  dsimp only
  unfold chunkOf
  simp only [stringifyFields]
  rw [stringify.eq_def (.num dailyStateEncodingVersion), stringify.eq_def (.num year)]
  dsimp only
  rw [if_pos isFinite_version, if_pos hfinite, hversion, hsecurity, hyearKey, hfields, hdates,
    hcolumns, hclose]
  simp only [List.cons_append, List.append_assoc, List.nil_append]

theorem wellFormed_chunkOf {year : N} (hyear : isInteger year = true) (securityId : Text)
    (dates : List Text) {cells : List (List (Value N))}
    (hcells : ∀ column ∈ cells, ∀ cell ∈ column, WellFormed cell) :
    WellFormed (.obj (chunkOf securityId year dates cells)) := by
  refine .obj (fun field hmem => ?_) (ownProperties_of_named chunkKeys_nodup chunkKeys_named)
  have htexts : ∀ texts : List Text, WellFormed (.arr (texts.map .str) : Value N) := by
    intro texts
    refine .arr fun value hvalue => ?_
    obtain ⟨text, -, rfl⟩ := List.mem_map.mp hvalue
    exact .str text
  simp only [chunkOf, List.mem_cons, List.not_mem_nil, or_false] at hmem
  rcases hmem with rfl | rfl | rfl | rfl | rfl | rfl
  · exact .num isFinite_version
  · exact .str securityId
  · exact .num (LawfulJsonNumber.isFinite_of_isInteger year hyear)
  · exact htexts dailyStateChunkFields
  · exact htexts dates
  · refine .arr fun value hvalue => ?_
    obtain ⟨column, hcolumn, rfl⟩ := List.mem_map.mp hvalue
    exact .arr (hcells column hcolumn)

theorem wellFormed_encodeRun {kind : ColumnKind} {run : Option (Cell N) × ℕ}
    (hsafe : run.2 ≤ maxSafeInteger) (hfits : ∀ cell, run.1 = some cell → Fits kind cell) :
    WellFormed (encodeRun run) := by
  obtain ⟨value, count⟩ := run
  have hcount : WellFormed (.num (ofInt count) : Value N) :=
    .num (LawfulJsonNumber.isFinite_ofInt _ hsafe)
  cases value with
  | none =>
    refine .arr fun value hvalue => ?_
    rw [List.mem_singleton.mp hvalue]
    exact hcount
  | some cell =>
    have hcell : WellFormed cell.value := by
      have hfit := hfits cell rfl
      cases cell with
      | num x =>
        cases kind with
        | number => exact .num hfit
        | text => exact hfit.elim
      | text s => exact .str s
    rw [encodeRun]
    split
    · exact hcell
    · refine .arr fun value hvalue => ?_
      rcases List.mem_cons.mp hvalue with rfl | hvalue
      · exact hcell
      · rw [List.mem_singleton.mp hvalue]
        exact hcount

end Stringify

/-! ### Rows of one chunk -/

/-- The rows `encodeDailyStateChunk` takes. -/
structure ChunkRows (securityId : Text) (year : N) (rows : List (DailyDerivedState N)) : Prop where
  integral : isInteger year = true
  distinct : (rows.map DailyDerivedState.date).Nodup
  security : ∀ row ∈ rows, row.securityId = securityId
  dates : ∀ row ∈ rows,
    isLocalDate row.date = true ∧ (yearPrefix year).isPrefixOf row.date = true
  cells : ∀ row ∈ rows, ∀ column ∈ columns, ∃ value, cellOf column row = .ok value

omit [JsonNumber N] in
theorem compares_dates :
    ComparatorSort.Compares (compareDates (N := N)) DailyDerivedState.date := by
  intro a b
  unfold compareDates
  split
  · next hlt => exact ⟨fun _ => hlt, fun _ => by decide⟩
  · next hnot =>
    split
    · exact ⟨fun h => absurd h (by decide), fun hlt => absurd hlt hnot⟩
    · exact ⟨fun h => absurd h (by decide), fun hlt => absurd hlt hnot⟩

/-- The rows in date order. -/
def ordered (rows : List (DailyDerivedState N)) : List (DailyDerivedState N) :=
  ComparatorSort.sortBy compareDates rows

omit [JsonNumber N] in
theorem ordered_perm (rows : List (DailyDerivedState N)) : (ordered rows).Perm rows :=
  ComparatorSort.sortBy_perm _ _

variable {rows : List (DailyDerivedState N)}

omit [JsonNumber N] in
theorem ordered_ascending (h : (rows.map DailyDerivedState.date).Nodup) :
    ((ordered rows).map DailyDerivedState.date).Pairwise (· < ·) := by
  have hnodup := ((ordered_perm rows).map DailyDerivedState.date).nodup_iff.mpr h
  have hle := compares_dates.pairwise_sortBy rows
  rw [← List.pairwise_map (f := DailyDerivedState.date) (R := fun a b => a ≤ b)] at hle
  exact (hle.and hnodup).imp fun hab => lt_of_le_of_ne hab.1 hab.2

theorem ChunkRows.ordered {year : N}
    (h : ChunkRows securityId year rows) : ChunkRows securityId year (ordered rows) := by
  have hmem : ∀ row, row ∈ DailyState.ordered rows → row ∈ rows := fun row hrow =>
    (ordered_perm rows).mem_iff.mp hrow
  refine ⟨h.integral, ?_, fun row hrow => h.security row (hmem row hrow),
    fun row hrow => h.dates row (hmem row hrow), fun row hrow => h.cells row (hmem row hrow)⟩
  exact ((ordered_perm rows).map DailyDerivedState.date).nodup_iff.mpr h.distinct

omit [JsonNumber N] in
theorem assertOneRowPerTradingDay_ok :
    ∀ {seen : List Text}, (rows.map DailyDerivedState.date).Nodup →
      (∀ row ∈ rows, row.date ∉ seen) → assertOneRowPerTradingDay seen rows = .ok () := by
  induction rows with
  | nil => exact fun _ _ => rfl
  | cons row rows ih =>
    intro seen hnodup hnew
    rw [List.map_cons, List.nodup_cons] at hnodup
    rw [assertOneRowPerTradingDay, if_neg (hnew row List.mem_cons_self)]
    refine ih hnodup.2 fun row' hrow' => ?_
    rw [List.mem_cons, not_or]
    refine ⟨fun heq => hnodup.1 (heq ▸ List.mem_map_of_mem hrow'), ?_⟩
    exact hnew row' (List.mem_cons_of_mem _ hrow')

theorem assertRows_ok {year : N} (h : ∀ row ∈ rows, assertRowOfChunk securityId year row = .ok ()) :
    rows.forM (assertRowOfChunk securityId year) = .ok () := by
  induction rows with
  | nil => rfl
  | cons row rows ih =>
    change (assertRowOfChunk securityId year row).bind (fun _ => rows.forM _) = _
    rw [h row List.mem_cons_self]
    exact ih fun row' hrow' => h row' (List.mem_cons_of_mem _ hrow')

omit [JsonNumber N] in
theorem mapM_ok {α β : Type} {f : α → Except Text β} {g : α → β} {l : List α}
    (h : ∀ a ∈ l, f a = .ok (g a)) : l.mapM f = .ok (l.map g) := by
  induction l with
  | nil => rfl
  | cons a l ih =>
    rw [List.mapM_cons, h a List.mem_cons_self, ih fun b hb => h b (List.mem_cons_of_mem _ hb)]
    rfl

/-- What a column takes from rows, session by session. -/
def valuesOf (column : DailyStateColumn) (rows : List (DailyDerivedState N)) :
    List (Option (Cell N)) :=
  rows.map fun row => (cellOf column row).toOption.join

theorem encodeColumn_ok [DecidableEq N] {column : DailyStateColumn}
    (h : ∀ row ∈ rows, ∃ value, cellOf column row = .ok value) :
    encodeColumn column rows = .ok ((RunLength.runs (valuesOf column rows)).map encodeRun) := by
  have hvalues : rows.mapM (cellOf column) = .ok (valuesOf column rows) := by
    refine mapM_ok fun row hrow => ?_
    obtain ⟨value, hvalue⟩ := h row hrow
    rw [hvalue]
    rfl
  unfold encodeColumn
  rw [hvalues]
  rfl

/-- The cells of every column. -/
def encodedColumns [DecidableEq N] (rows : List (DailyDerivedState N)) : List (List (Value N)) :=
  columns.map fun column => (RunLength.runs (valuesOf column rows)).map encodeRun

/-- **The text of rows a chunk takes** is that of their chunk object. -/
theorem encode_ok [DecidableEq N] [LawfulJsonNumber N] {year : N}
    (h : ChunkRows securityId year rows) :
    encodeDailyStateChunk securityId year rows
      = .ok (stringify (.obj (chunkOf securityId year
          ((ordered rows).map DailyDerivedState.date) (encodedColumns (ordered rows))))) := by
  have hordered := h.ordered
  have hrows : (ordered rows).forM (assertRowOfChunk securityId year) = .ok () := by
    refine assertRows_ok fun row hrow => ?_
    unfold assertRowOfChunk
    obtain ⟨hlocal, hprefix⟩ := hordered.dates row hrow
    rw [if_neg (not_not.mpr (hordered.security row hrow)), hlocal, hprefix, if_neg (by decide)]
  have hcolumns : (columns.mapM fun column => encodeColumn column (ordered rows))
      = .ok (encodedColumns (ordered rows)) :=
    mapM_ok fun column hcolumn => encodeColumn_ok fun row hrow =>
      hordered.cells row hrow column hcolumn
  have hone : assertOneRowPerTradingDay [] (ordered rows) = .ok () :=
    assertOneRowPerTradingDay_ok hordered.distinct fun _ _ => List.not_mem_nil
  rw [← stringify_chunkOf h.integral]
  unfold encodeDailyStateChunk
  rw [h.integral]
  change (assertOneRowPerTradingDay [] (ordered rows)).bind _ = _
  rw [hone]
  change ((ordered rows).forM (assertRowOfChunk securityId year)).bind _ = _
  rw [hrows]
  change (columns.mapM fun column => encodeColumn column (ordered rows)).bind _ = _
  rw [hcolumns, List.map_map]
  rfl

/-! ### Reading the text back -/

section ReadBack

variable {securityId : Text} {year : N} {rows : List (DailyDerivedState N)}

theorem readDates_ok {dates : List Text} :
    ∀ {previous : Text}, (previous :: dates).Pairwise (· < ·) →
      (∀ date ∈ dates, isLocalDate date = true ∧ (yearPrefix year).isPrefixOf date = true) →
      readDates year previous (dates.map .str) = .ok dates := by
  induction dates with
  | nil => exact fun _ _ => rfl
  | cons date dates ih =>
    intro previous hascending hdates
    obtain ⟨hlocal, hprefix⟩ := hdates date List.mem_cons_self
    obtain ⟨hfirst, hrest⟩ := List.pairwise_cons.mp hascending
    have hafter : previous < date := hfirst date List.mem_cons_self
    rw [List.map_cons, readDates, hlocal, if_neg (by decide), hprefix, if_neg (by decide),
      if_neg (not_le.mpr hafter),
      ih hrest fun date' hmem => hdates date' (List.mem_cons_of_mem _ hmem)]
    rfl

theorem dateAxis_ok {dates : List Text} (hascending : dates.Pairwise (· < ·))
    (hdates : ∀ date ∈ dates,
      isLocalDate date = true ∧ (yearPrefix year).isPrefixOf date = true) :
    dateAxis year (some (.arr (dates.map .str))) = .ok dates := by
  refine readDates_ok (List.pairwise_cons.mpr ⟨fun date hmem => ?_, hascending⟩) hdates
  cases date with
  | nil => exact absurd (hdates _ hmem).1 (by decide)
  | cons u rest => exact List.nil_lt_cons u rest

omit [JsonNumber N] in
theorem sameFieldDictionary_ok :
    sameFieldDictionary (some (.arr (dailyStateChunkFields.map .str)) : Option (Value N)) = true := by
  unfold sameFieldDictionary
  rw [decide_eq_true_eq, List.length_map]
  refine ⟨rfl, List.all_eq_true.mpr fun entry hmem => ?_⟩
  rw [List.zip_map_left, List.mem_map] at hmem
  obtain ⟨⟨name, name'⟩, hname, rfl⟩ := hmem
  obtain ⟨i, hi⟩ := List.mem_iff_getElem?.mp hname
  obtain ⟨hfirst, hsecond⟩ := List.getElem?_zip_eq_some.mp hi
  exact decide_eq_true (Option.some.inj (hfirst.symm.trans hsecond))

theorem headerFailure_chunkOf [DecidableEq N] (securityId : Text) (year : N) (dates : List Text)
    (cells : List (List (Value N))) :
    headerFailure (chunkOf securityId year dates cells) securityId year = none := by
  unfold headerFailure
  have hversion : property? (chunkOf securityId year dates cells) (lit "version")
      = some (.num dailyStateEncodingVersion) := property?_chunkOf (.head _)
  have hsecurity : property? (chunkOf securityId year dates cells) (lit "securityId")
      = some (.str securityId) := property?_chunkOf (.tail _ (.head _))
  have hyear : property? (chunkOf securityId year dates cells) (lit "year")
      = some (.num year) := property?_chunkOf (.tail _ (.tail _ (.head _)))
  have hfields : property? (chunkOf securityId year dates cells) (lit "fields")
      = some (.arr (dailyStateChunkFields.map .str)) :=
    property?_chunkOf (.tail _ (.tail _ (.tail _ (.head _))))
  rw [hversion, hsecurity, hyear, hfields, sameFieldDictionary_ok]
  have hnumber : ∀ x : N, isNumber x (some (.num x)) = true := fun x => decide_eq_true rfl
  have htext : isText securityId (some (.str securityId) : Option (Value N)) = true :=
    decide_eq_true rfl
  rw [hnumber, hnumber, htext]
  rfl

theorem ChunkRows.fits (h : ChunkRows securityId year rows) {column : DailyStateColumn}
    (hcolumn : column ∈ columns) :
    ∀ cell, some cell ∈ valuesOf column rows → Fits column.kind cell := by
  intro cell hmem
  obtain ⟨row, hrow, hcell⟩ := List.mem_map.mp hmem
  obtain ⟨value, hvalue⟩ := h.cells row hrow column hcolumn
  rw [hvalue] at hcell
  exact (valueAt_of_cellOf hvalue).2 cell hcell

theorem ChunkRows.length_le (h : ChunkRows securityId year rows) :
    rows.length ≤ maxSafeInteger := by
  rw [← List.length_map (f := DailyDerivedState.date)]
  have hdates : ∀ date ∈ rows.map DailyDerivedState.date,
      isLocalDate date = true ∧ (yearPrefix year).isPrefixOf date = true := by
    intro date hmem
    obtain ⟨row, hrow, rfl⟩ := List.mem_map.mp hmem
    exact h.dates row hrow
  exact length_le_of_dates h.distinct hdates

/-- The rows of the columns' values are the canonical rows. -/
theorem materializeRows_valuesOf (hsecurity : ∀ row ∈ rows, row.securityId = securityId) :
    materializeRows securityId (rows.map DailyDerivedState.date) 0 rows.length
      (columns.map fun column => valuesOf column rows) = rows.map canonical := by
  have hwhole := materializeRows_whole securityId (rows.map DailyDerivedState.date)
    (columns.map fun column => valuesOf column rows)
  rw [List.length_map] at hwhole
  rw [hwhole]
  refine List.ext_getElem? fun i => ?_
  rw [List.getElem?_map, List.getElem?_map]
  by_cases hi : i < rows.length
  · have hrow := List.getElem?_eq_getElem hi
    have hdate : (rows.map DailyDerivedState.date).getD i [] = rows[i].date := by
      rw [List.getD_eq_getElem?_getD, List.getElem?_map, hrow]
      rfl
    have hcells : cellsAt (columns.map fun column => valuesOf column rows) i = cellsOf rows[i] := by
      unfold cellsAt cellsOf
      rw [List.map_map]
      refine List.map_congr_left fun column _ => ?_
      change ((rows.map fun row => (cellOf column row).toOption.join)[i]?).join = _
      rw [List.getElem?_map, hrow]
      rfl
    rw [List.getElem?_range hi, hrow, Option.map_some, Option.map_some, hdate, hcells, canonical,
      hsecurity rows[i] (List.getElem_mem hi)]
  · rw [List.getElem?_eq_none (by rw [List.length_range]; omega),
      List.getElem?_eq_none (not_lt.mp hi)]
    rfl

theorem decodeColumns_encode [DecidableEq N] [LawfulJsonNumber N]
    (h : ChunkRows securityId year rows) :
    decodeColumns securityId (rows.map DailyDerivedState.date) none
      (some (.arr ((encodedColumns rows).map .arr))) = .ok (rows.map canonical) := by
  have hlength : ((encodedColumns rows).map (Value.arr (N := N))).length = columns.length := by
    rw [List.length_map, encodedColumns, List.length_map]
  have hexpand : expandColumns ((encodedColumns rows).map .arr) rows.length 0 rows.length
      = .ok (columns.map fun column => valuesOf column rows) := by
    unfold expandColumns encodedColumns
    rw [List.map_map, ← List.map_prod_left_eq_zip]
    have hread : ∀ entry ∈ columns.map (fun column => (column,
        (Value.arr ∘ fun column => (RunLength.runs (valuesOf column rows)).map encodeRun) column)),
        (expandColumn entry.1.kind (some entry.2) rows.length 0 rows.length).mapError
            (fun failure => lit "column " ++ lit entry.1.name ++ lit ": " ++ failure)
          = .ok (valuesOf entry.1 rows) := by
      intro entry hentry
      obtain ⟨column, hcolumn, rfl⟩ := List.mem_map.mp hentry
      have hcount : (valuesOf column rows).length = rows.length := List.length_map _
      have hread : readColumn column.kind
          (some (.arr ((RunLength.runs (valuesOf column rows)).map encodeRun)))
          (valuesOf column rows).length = .ok (valuesOf column rows) :=
        readColumn_encode (hcount.trans_le h.length_le) (h.fits hcolumn)
      rw [hcount] at hread
      change (readColumn column.kind
        (some (.arr ((RunLength.runs (valuesOf column rows)).map encodeRun))) rows.length).mapError _
        = _
      rw [hread]
      rfl
    rw [mapM_ok hread, List.map_map]
    rfl
  unfold decodeColumns
  dsimp only
  rw [if_neg (not_not.mpr hlength)]
  change (expandColumns _ _ 0 (rows.map DailyDerivedState.date).length).bind _ = _
  rw [List.length_map, hexpand]
  change Except.ok (materializeRows securityId (rows.map DailyDerivedState.date) 0
    (rows.map DailyDerivedState.date).length _) = _
  rw [List.length_map, materializeRows_valuesOf h.security]

/-- **What is encoded is decoded**: the canonical rows, in date order. -/
theorem decode_encode [DecidableEq N] [LawfulJsonNumber N] (h : ChunkRows securityId year rows) :
    ∃ payload, encodeDailyStateChunk securityId year rows = .ok payload
      ∧ decodeDailyStateChunk payload securityId year none
        = .ok ((ordered rows).map canonical) := by
  have hordered := h.ordered
  have hdates : ∀ date ∈ (ordered rows).map DailyDerivedState.date,
      isLocalDate date = true ∧ (yearPrefix year).isPrefixOf date = true := by
    intro date hmem
    obtain ⟨row, hrow, rfl⟩ := List.mem_map.mp hmem
    exact hordered.dates row hrow
  have hwell : ∀ column ∈ encodedColumns (ordered rows), ∀ cell ∈ column, WellFormed cell := by
    intro cells hcells cell hcell
    obtain ⟨column, hcolumn, rfl⟩ := List.mem_map.mp hcells
    obtain ⟨run, hrun, rfl⟩ := List.mem_map.mp hcell
    have hcount : (valuesOf column (ordered rows)).length = (ordered rows).length :=
      List.length_map _
    have hfits : ∀ value, run.1 = some value → Fits column.kind value := fun value heq =>
      hordered.fits hcolumn value (heq ▸ RunLength.fst_mem_of_mem_runs hrun)
    exact wellFormed_encodeRun
      ((RunLength.snd_le_of_mem_runs hrun).trans (hcount.trans_le hordered.length_le)) hfits
  refine ⟨_, encode_ok h, ?_⟩
  unfold decodeDailyStateChunk
  rw [parse_stringify (wellFormed_chunkOf h.integral securityId _ hwell)]
  dsimp only
  rw [headerFailure_chunkOf]
  dsimp only
  have hdateProperty : property? (chunkOf securityId year
      ((ordered rows).map DailyDerivedState.date) (encodedColumns (ordered rows))) (lit "dates")
      = some (.arr (((ordered rows).map DailyDerivedState.date).map .str)) :=
    property?_chunkOf (.tail _ (.tail _ (.tail _ (.tail _ (.head _)))))
  have hcolumnProperty : property? (chunkOf securityId year
      ((ordered rows).map DailyDerivedState.date) (encodedColumns (ordered rows))) (lit "columns")
      = some (.arr ((encodedColumns (ordered rows)).map .arr)) :=
    property?_chunkOf (.tail _ (.tail _ (.tail _ (.tail _ (.tail _ (.head _))))))
  rw [hdateProperty, hcolumnProperty, dateAxis_ok (ordered_ascending h.distinct) hdates]
  exact decodeColumns_encode hordered

end ReadBack

end FactorSage.DailyState
