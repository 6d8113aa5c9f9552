import FactorSage.DailyState.Window

/-!
# A row and its cells

`cellOf_rowAt`: a row built from a session's cells holds each of them in its column. The loop that
writes them keeps one object for the nested family it is in, so it relies on how the columns are
laid out: a field outside the families has one column (`columns_top`), and the columns of a family
stand next to each other (`columns_family`).

Two rows are the same (`SameRow`) when they hold the same values, in whatever order their properties
were written and whether or not a family without values is there as an empty object. A row of the
declared type (`Typed`) is the same as the row built from its cells (`sameRow_canonical`).
-/

namespace FactorSage.DailyState

open JsonText

variable {N : Type}

/-! ### The layout of the columns -/

/-- A field outside the families has one column. -/
theorem columns_top : ∀ column ∈ columns, column.key = none →
    columns.filter (fun other => other.field = column.field) = [column] := by
  decide +kernel

/-- A family of columns and what stands around it. -/
structure Family (field : String) where
  before : List DailyStateColumn
  members : List DailyStateColumn
  after : List DailyStateColumn
  split : columns = before ++ (members ++ after)
  member : ∀ column ∈ members, column.field = field ∧ column.key.isSome
  keys : (members.map DailyStateColumn.key).Nodup
  outside : ∀ column ∈ before ++ after, column.field ≠ field

/-- The columns of a field, between those before the first and those after. -/
def familyOf (field : String)
    (hsplit : columns = columns.takeWhile (fun column => column.field ≠ field)
      ++ (columns.filter (fun column => column.field = field)
        ++ (columns.dropWhile fun column => column.field ≠ field).dropWhile
            fun column => column.field = field))
    (hkey : ∀ column ∈ columns, column.field = field → column.key.isSome)
    (hkeys : ((columns.filter fun column => column.field = field).map DailyStateColumn.key).Nodup)
    (houtside : ∀ column ∈ (columns.dropWhile fun column => column.field ≠ field).dropWhile
      fun column => column.field = field, column.field ≠ field) : Family field where
  before := columns.takeWhile fun column => column.field ≠ field
  members := columns.filter fun column => column.field = field
  after := (columns.dropWhile fun column => column.field ≠ field).dropWhile
    fun column => column.field = field
  split := hsplit
  member column hmem := by
    rw [List.mem_filter, decide_eq_true_eq] at hmem
    exact ⟨hmem.2, hkey column hmem.1 hmem.2⟩
  keys := hkeys
  outside column hmem := by
    rcases List.mem_append.mp hmem with hmem | hmem
    · exact of_decide_eq_true (List.all_eq_true.mp (List.all_takeWhile (p := fun column : DailyStateColumn =>
        column.field ≠ field)) column hmem)
    · exact houtside column hmem

/-- **The columns of a family stand next to each other.** -/
theorem columns_family : ∀ column ∈ columns, column.key ≠ none →
    Nonempty (Family column.field) := by
  have hfields : ∀ column ∈ columns, column.key ≠ none →
      column.field = "intrinsicValues" ∨ column.field = "intrinsicValueBlends" := by
    decide +kernel
  intro column hmem hkey
  rcases hfields column hmem hkey with h | h
  · rw [h]
    exact ⟨familyOf _ (by decide +kernel) (by decide +kernel) (by decide +kernel)
      (by decide +kernel)⟩
  · rw [h]
    exact ⟨familyOf _ (by decide +kernel) (by decide +kernel) (by decide +kernel)
      (by decide +kernel)⟩

/-! ### What the loop writes -/

/-- A column of the loop and what it holds. -/
abbrev Entry (N : Type) := DailyStateColumn × Option (Cell N)

variable {column : DailyStateColumn}

theorem writeFields_top (hkey : column.key = none) (cell : Cell N)
    (rest : List (Entry N)) (fields : OrderedMap String (FieldValue N))
    (nested : Option (String × OrderedMap String (Scalar N))) :
    writeFields ((column, some cell) :: rest) fields nested
      = writeFields rest (fields.set column.field (.scalar cell.scalar)) nested := by
  rw [writeFields.eq_def]
  dsimp only
  rw [hkey]

theorem writeFields_nested {key : String} (hkey : column.key = some key)
    (cell : Cell N) (rest : List (Entry N)) (fields : OrderedMap String (FieldValue N))
    (nested : Option (String × OrderedMap String (Scalar N))) :
    writeFields ((column, some cell) :: rest) fields nested
      = writeFields rest
          (fields.set column.field (.nested ((openFamily column.field nested).set key cell.scalar)))
          (some (column.field, (openFamily column.field nested).set key cell.scalar)) := by
  rw [writeFields.eq_def]
  dsimp only
  rw [hkey]

/-- Walking the first entries leaves the object of a family one of them is in, or the one that was
there. -/
theorem exists_writeFields_append (front rest : List (Entry N)) :
    ∀ (fields : OrderedMap String (FieldValue N))
      (nested : Option (String × OrderedMap String (Scalar N))),
      ∃ fields' nested', writeFields (front ++ rest) fields nested = writeFields rest fields' nested'
        ∧ ∀ family values, nested' = some (family, values) →
          nested = some (family, values) ∨ ∃ entry ∈ front, entry.1.field = family := by
  induction front with
  | nil => exact fun fields nested => ⟨fields, nested, rfl, fun _ _ h => .inl h⟩
  | cons entry front ih =>
    intro fields nested
    obtain ⟨column, value⟩ := entry
    have hlater : ∀ {fields₀ nested₀}, writeFields ((column, value) :: (front ++ rest)) fields nested
        = writeFields (front ++ rest) fields₀ nested₀ →
        (∀ family values, nested₀ = some (family, values) →
          nested = some (family, values) ∨ column.field = family) →
        ∃ fields' nested', writeFields ((column, value) :: (front ++ rest)) fields nested
            = writeFields rest fields' nested'
          ∧ ∀ family values, nested' = some (family, values) →
            nested = some (family, values)
              ∨ ∃ entry ∈ (column, value) :: front, entry.1.field = family := by
      intro fields₀ nested₀ heq hnested
      obtain ⟨fields', nested', hwalk, hfamily⟩ := ih fields₀ nested₀
      refine ⟨fields', nested', heq.trans hwalk, fun family values h => ?_⟩
      rcases hfamily family values h with hold | ⟨entry, hmem, hfield⟩
      · rcases hnested family values hold with hbefore | hfield
        · exact .inl hbefore
        · exact .inr ⟨_, List.mem_cons_self, hfield⟩
      · exact .inr ⟨entry, List.mem_cons_of_mem _ hmem, hfield⟩
    rw [List.cons_append]
    cases value with
    | none => exact @hlater fields nested rfl fun _ _ h => .inl h
    | some cell =>
      cases hkey : column.key with
      | none => exact hlater (writeFields_top hkey cell _ _ _) fun _ _ h => .inl h
      | some key =>
        refine hlater (writeFields_nested hkey cell _ _ _) fun family values h => .inr ?_
        exact (Prod.mk.inj (Option.some.inj h)).1

/-- A field none of whose columns holds a value stays as it is. -/
theorem get?_writeFields_other {field : String} {entries : List (Entry N)}
    (h : ∀ entry ∈ entries, entry.1.field = field → entry.2 = none) :
    ∀ (fields : OrderedMap String (FieldValue N))
      (nested : Option (String × OrderedMap String (Scalar N))),
      (writeFields entries fields nested).get? field = fields.get? field := by
  induction entries with
  | nil => exact fun _ _ => rfl
  | cons entry rest ih =>
    intro fields nested
    obtain ⟨column, value⟩ := entry
    have hrest := ih fun entry hmem => h entry (List.mem_cons_of_mem _ hmem)
    cases value with
    | none => exact hrest fields nested
    | some cell =>
      have hne : field ≠ column.field := fun heq =>
        absurd (h _ List.mem_cons_self heq.symm) (Option.some_ne_none cell)
      cases hkey : column.key with
      | none =>
        rw [writeFields_top hkey, hrest]
        exact OrderedMap.get?_set_of_ne _ _ hne
      | some key =>
        rw [writeFields_nested hkey, hrest]
        exact OrderedMap.get?_set_of_ne _ _ hne

/-- The values a family's entries hold, by key. -/
def familyValues (entries : List (Entry N)) : List (String × Scalar N) :=
  entries.filterMap fun
    | (column, some cell) => column.key.map fun key => (key, cell.scalar)
    | (_, none) => none

theorem familyValues_cons {key : String} (hkey : column.key = some key)
    (cell : Cell N) (entries : List (Entry N)) :
    familyValues ((column, some cell) :: entries) = (key, cell.scalar) :: familyValues entries := by
  rw [familyValues, List.filterMap_cons]
  dsimp only
  rw [hkey]
  rfl

theorem mem_familyValues {members : List (Entry N)} {key : String} {value : Scalar N} :
    (key, value) ∈ familyValues members
      ↔ ∃ column cell, (column, some cell) ∈ members ∧ column.key = some key
        ∧ cell.scalar = value := by
  unfold familyValues
  rw [List.mem_filterMap]
  constructor
  · rintro ⟨⟨column, _ | cell⟩, hmem, heq⟩
    · cases heq
    · obtain ⟨key', hkey, heq⟩ := Option.map_eq_some_iff.mp heq
      obtain ⟨rfl, rfl⟩ := Prod.mk.inj heq
      exact ⟨column, cell, hmem, hkey, rfl⟩
  · rintro ⟨column, cell, hmem, hkey, rfl⟩
    exact ⟨_, hmem, by simp only [hkey, Option.map_some]⟩

theorem nodup_familyValues {members : List (Entry N)}
    (h : (members.map fun entry => entry.1.key).Nodup) :
    ((familyValues members).map Prod.fst).Nodup := by
  have hsublist : ((familyValues members).map fun value => some value.1).Sublist
      (members.map fun entry => entry.1.key) := by
    clear h
    induction members with
    | nil => exact List.Sublist.refl _
    | cons entry members ih =>
      obtain ⟨column, value⟩ := entry
      cases value with
      | none => exact ih.cons _
      | some cell =>
        cases hkey : column.key with
        | none =>
          have hskip : familyValues ((column, some cell) :: members) = familyValues members := by
            rw [familyValues, List.filterMap_cons]
            dsimp only
            rw [hkey]
            rfl
          rw [hskip]
          exact ih.cons _
        | some key =>
          rw [familyValues_cons hkey, List.map_cons, List.map_cons, hkey]
          exact ih.cons_cons _
  have hsome : (((familyValues members).map Prod.fst).map some).Nodup := by
    rw [List.map_map]
    exact h.sublist hsublist
  exact hsome.of_map

/-- Inside a family its object takes the values one after another. -/
theorem get?_writeFields_inside {field : String} {members after : List (Entry N)}
    (hmember : ∀ entry ∈ members, entry.1.field = field ∧ entry.1.key.isSome)
    (hafter : ∀ entry ∈ after, entry.1.field ≠ field) :
    ∀ (fields : OrderedMap String (FieldValue N)) (values : OrderedMap String (Scalar N)),
      fields.get? field = some (.nested values) →
      (writeFields (members ++ after) fields (some (field, values))).get? field
        = some (.nested ((familyValues members).foldl (fun m e => m.set e.1 e.2) values)) := by
  induction members with
  | nil =>
    intro fields values hfields
    rw [List.nil_append, get?_writeFields_other fun entry hmem heq => absurd heq (hafter entry hmem)]
    exact hfields
  | cons entry members ih =>
    intro fields values hfields
    obtain ⟨column, value⟩ := entry
    obtain ⟨hfield, hkey⟩ := hmember _ List.mem_cons_self
    have hrest := ih fun entry hmem => hmember entry (List.mem_cons_of_mem _ hmem)
    cases value with
    | none => exact hrest fields values hfields
    | some cell =>
      obtain ⟨key, hkey⟩ := Option.isSome_iff_exists.mp hkey
      change column.key = some key at hkey
      change column.field = field at hfield
      have hopen : openFamily field (some (field, values)) = values := if_pos rfl
      rw [List.cons_append, writeFields_nested hkey, hfield, hopen,
        hrest _ _ (OrderedMap.get?_set_self _ _ _), familyValues_cons hkey]
      rfl

/-- A family is a new object at its first value. -/
theorem get?_writeFields_family {field : String} {members after : List (Entry N)}
    (hmember : ∀ entry ∈ members, entry.1.field = field ∧ entry.1.key.isSome)
    (hafter : ∀ entry ∈ after, entry.1.field ≠ field)
    (fields : OrderedMap String (FieldValue N))
    {nested : Option (String × OrderedMap String (Scalar N))}
    (hnested : ∀ family values, nested = some (family, values) → family ≠ field) :
    (writeFields (members ++ after) fields nested).get? field
      = if familyValues members = [] then fields.get? field
        else some (.nested (OrderedMap.ofList (familyValues members))) := by
  induction members with
  | nil =>
    rw [List.nil_append, get?_writeFields_other fun entry hmem heq => absurd heq (hafter entry hmem)]
    exact (if_pos rfl).symm
  | cons entry members ih =>
    obtain ⟨column, value⟩ := entry
    obtain ⟨hfield, hkey⟩ := hmember _ List.mem_cons_self
    have hmember' := fun entry hmem => hmember entry (List.mem_cons_of_mem _ hmem)
    cases value with
    | none => exact ih hmember'
    | some cell =>
      obtain ⟨key, hkey⟩ := Option.isSome_iff_exists.mp hkey
      change column.key = some key at hkey
      change column.field = field at hfield
      have hopen : openFamily field nested = .empty := by
        cases nested with
        | none => rfl
        | some family => exact if_neg (hnested family.1 family.2 rfl)
      rw [List.cons_append, writeFields_nested hkey, hfield, hopen,
        get?_writeFields_inside hmember' hafter _ _ (OrderedMap.get?_set_self _ _ _),
        familyValues_cons hkey, if_neg (List.cons_ne_nil _ _)]
      rfl

/-! ### The row of a session -/

theorem mem_of_mem_templateFields {field : String} {placeholder : FieldValue N} :
    ∀ {entries : List (DailyStateColumn × Bool)} {nestedField : Option String},
      (field, placeholder) ∈ templateFields entries nestedField →
        ∃ column, (column, true) ∈ entries ∧ column.field = field := by
  intro entries
  induction entries with
  | nil => exact fun h => (nomatch h)
  | cons entry rest ih =>
    intro nestedField h
    have hlater : ∀ {nestedField'}, (field, placeholder) ∈ templateFields rest nestedField' →
        ∃ column, (column, true) ∈ entry :: rest ∧ column.field = field := by
      intro nestedField' hrest
      obtain ⟨column, hmem, hfield⟩ := ih hrest
      exact ⟨column, List.mem_cons_of_mem _ hmem, hfield⟩
    obtain ⟨column, present⟩ := entry
    cases present with
    | false => exact hlater h
    | true =>
      have hhead : ∀ {nestedField'},
          (field, placeholder) ∈ (column.field, .scalar .null) :: templateFields rest nestedField' →
          ∃ column', (column', true) ∈ (column, true) :: rest ∧ column'.field = field := by
        intro nestedField' hmem
        rcases List.mem_cons.mp hmem with heq | hrest
        · exact ⟨column, List.mem_cons_self, (Prod.mk.inj heq).1.symm⟩
        · exact hlater hrest
      rw [templateFields.eq_def] at h
      dsimp only at h
      split at h
      · exact hhead h
      · split at h
        · exact hlater h
        · exact hhead h

section RowAt

variable {cells : List (Option (Cell N))} (hlength : cells.length = columns.length)
  (securityId date : Text)

omit hlength in
/-- A row has no field without a value. -/
theorem get?_rowAt_absent {field : String}
    (h : ∀ entry ∈ columns.zip cells, entry.1.field = field → entry.2 = none) :
    (rowAt securityId date cells).fields.get? field = none := by
  rw [rowAt, get?_writeFields_other h, rowTemplate]
  refine Option.eq_none_iff_forall_ne_some.mpr fun placeholder hget => ?_
  obtain ⟨column, hmem, hfield⟩ :=
    mem_of_mem_templateFields (OrderedMap.mem_of_get?_ofList hget)
  rw [shapeOf, List.zip_map_right] at hmem
  obtain ⟨⟨column', value⟩, hentry, heq⟩ := List.mem_map.mp hmem
  obtain ⟨rfl, hsome⟩ := Prod.mk.inj heq
  have hnone : value = none := h _ hentry hfield
  rw [hnone] at hsome
  cases hsome

include hlength

theorem map_fst_entries : (columns.zip cells).map Prod.fst = columns :=
  List.map_fst_zip hlength.ge

theorem get?_rowAt_top {column : DailyStateColumn} {cell : Cell N}
    (hmem : (column, some cell) ∈ columns.zip cells) (hkey : column.key = none) :
    (rowAt securityId date cells).fields.get? column.field = some (.scalar cell.scalar) := by
  obtain ⟨front, after, hsplit⟩ := List.append_of_mem hmem
  have hcolumns := map_fst_entries hlength
  rw [hsplit, List.map_append, List.map_cons] at hcolumns
  have hcolumn : column ∈ columns := (List.of_mem_zip hmem).1
  have honly := columns_top column hcolumn hkey
  rw [← hcolumns, List.filter_append, List.filter_cons_of_pos (by simp)] at honly
  have hafter : ∀ entry ∈ after, entry.1.field ≠ column.field := by
    -- the column itself is the only one of its field
    have hcount := congrArg List.length honly
    rw [List.length_append, List.length_cons, List.length_singleton] at hcount
    have hnil : (after.map Prod.fst).filter (fun other => other.field = column.field) = [] :=
      List.length_eq_zero_iff.mp (by omega)
    intro entry hentry heq
    have := List.filter_eq_nil_iff.mp hnil entry.1 (List.mem_map_of_mem hentry)
    exact this (decide_eq_true heq)
  obtain ⟨fields, nested, hwalk, -⟩ := exists_writeFields_append front ((column, some cell) :: after)
    (rowTemplate (shapeOf cells)) none
  rw [rowAt]
  dsimp only
  rw [hsplit, hwalk, writeFields_top hkey,
    get?_writeFields_other fun entry hentry heq => absurd heq (hafter entry hentry)]
  exact OrderedMap.get?_set_self _ _ _

/-- The entries of a family, and its object in the row. -/
theorem exists_family {column : DailyStateColumn} (hcolumn : column ∈ columns)
    (hkey : column.key ≠ none) :
    ∃ members : List (Entry N),
      (∀ entry, entry ∈ members ↔ entry ∈ columns.zip cells ∧ entry.1.field = column.field)
        ∧ (∀ entry ∈ members, entry.1.key.isSome)
        ∧ (members.map fun entry => entry.1.key).Nodup
        ∧ (rowAt securityId date cells).fields.get? column.field
          = if familyValues members = [] then none
            else some (.nested (OrderedMap.ofList (familyValues members))) := by
  -- the columns of a nested field stand together: before, members, after
  obtain ⟨family⟩ := columns_family column hcolumn hkey
  have hcolumns := (map_fst_entries hlength).trans family.split
  obtain ⟨front, rest, hsplit, hfront, hrest⟩ := List.map_eq_append_iff.mp hcolumns
  obtain ⟨members, after, rfl, hmembers, hafter⟩ := List.map_eq_append_iff.mp hrest
  have hmember : ∀ entry ∈ members, entry.1.field = column.field ∧ entry.1.key.isSome :=
    fun entry hentry => family.member entry.1 (hmembers ▸ List.mem_map_of_mem hentry)
  have hfrontField : ∀ entry ∈ front, entry.1.field ≠ column.field := fun entry hentry =>
    family.outside entry.1 (List.mem_append_left _ (hfront ▸ List.mem_map_of_mem hentry))
  have hafterField : ∀ entry ∈ after, entry.1.field ≠ column.field := fun entry hentry =>
    family.outside entry.1 (List.mem_append_right _ (hafter ▸ List.mem_map_of_mem hentry))
  refine ⟨members, fun entry => ?_, fun entry hentry => (hmember entry hentry).2, ?_, ?_⟩
  · rw [hsplit, List.mem_append, List.mem_append]
    constructor
    · exact fun hentry => ⟨.inr (.inl hentry), (hmember entry hentry).1⟩
    · rintro ⟨hentry | hentry | hentry, hfield⟩
      · exact absurd hfield (hfrontField entry hentry)
      · exact hentry
      · exact absurd hfield (hafterField entry hentry)
  · have hkeys := family.keys
    rw [← hmembers, List.map_map] at hkeys
    exact hkeys
  · split
    · next hnone =>
      refine get?_rowAt_absent securityId date fun entry hentry hfield => ?_
      rw [hsplit, List.mem_append, List.mem_append] at hentry
      rcases hentry with hentry | hentry | hentry
      · exact absurd hfield (hfrontField entry hentry)
      · obtain ⟨column', value⟩ := entry
        obtain ⟨key, hkey'⟩ := Option.isSome_iff_exists.mp (hmember _ hentry).2
        cases value with
        | none => rfl
        | some cell =>
          have hvalue : (key, cell.scalar) ∈ familyValues members :=
            mem_familyValues.mpr ⟨column', cell, hentry, hkey', rfl⟩
          rw [hnone] at hvalue
          cases hvalue
      · exact absurd hfield (hafterField entry hentry)
    · next hsome =>
      obtain ⟨fields, nested, hwalk, hnested⟩ := exists_writeFields_append front (members ++ after)
        (rowTemplate (shapeOf cells)) none
      rw [rowAt]
      dsimp only
      rw [hsplit, hwalk, get?_writeFields_family hmember hafterField fields fun name values h => ?_,
        if_neg hsome]
      rcases hnested name values h with hstart | ⟨entry, hentry, rfl⟩
      · cases hstart
      · exact hfrontField entry hentry

/-- **A row holds each of its cells** in its column. -/
theorem valueAt_rowAt {column : DailyStateColumn} {value : Option (Cell N)}
    (hmem : (column, value) ∈ columns.zip cells) :
    valueAt column (rowAt securityId date cells)
      = value.map fun cell => .scalar cell.scalar := by
  have hcolumn : column ∈ columns := (List.of_mem_zip hmem).1
  unfold valueAt
  cases hkey : column.key with
  | none =>
    dsimp only
    cases value with
    | some cell => exact get?_rowAt_top hlength securityId date hmem hkey
    | none =>
      refine get?_rowAt_absent securityId date fun entry hentry hfield => ?_
      -- the field has one column
      have hsame : entry.1 = column := by
        have honly : entry.1 ∈ columns.filter fun other => other.field = column.field :=
          List.mem_filter.mpr ⟨(List.of_mem_zip hentry).1, decide_eq_true hfield⟩
        rw [columns_top column hcolumn hkey] at honly
        exact List.mem_singleton.mp honly
      have hnodup : ((columns.zip cells).map Prod.fst).Nodup := by
        rw [map_fst_entries hlength]
        decide +kernel
      rw [List.inj_on_of_nodup_map hnodup hentry hmem hsame]
  | some key =>
    obtain ⟨members, hmembers, hkeys, hnodup, hobject⟩ :=
      exists_family hlength securityId date hcolumn (by rw [hkey]; exact Option.some_ne_none key)
    have hentry : (column, value) ∈ members := (hmembers _).mpr ⟨hmem, rfl⟩
    rw [hobject]
    cases value with
    | some cell =>
      have hvalue : (key, cell.scalar) ∈ familyValues members :=
        mem_familyValues.mpr ⟨column, cell, hentry, hkey, rfl⟩
      rw [if_neg (List.ne_nil_of_mem hvalue)]
      change Option.map _ ((OrderedMap.ofList (familyValues members)).get? key) = _
      rw [(OrderedMap.get?_ofList_iff (nodup_familyValues hnodup)).mpr hvalue]
      rfl
    | none =>
      by_cases hnone : familyValues members = []
      · rw [if_pos hnone]
        rfl
      · rw [if_neg hnone]
        change Option.map _ ((OrderedMap.ofList (familyValues members)).get? key) = _
        cases hget : (OrderedMap.ofList (familyValues members)).get? key with
        | none => rfl
        | some found =>
          obtain ⟨column', cell, hother, hkey', -⟩ :=
            mem_familyValues.mp (OrderedMap.mem_of_get?_ofList hget)
          have hsame := List.inj_on_of_nodup_map hnodup hentry hother (hkey.trans hkey'.symm)
          cases (Prod.mk.inj hsame).2

end RowAt

/-! ### Rows of the declared type -/

section Typed

variable [JsonNumber N]

/-- A column of a kind may hold a value. -/
def Fits : ColumnKind → Cell N → Prop
  | .number, .num x => isFinite x = true
  | .text, .text _ => True
  | _, _ => False

variable {row : DailyDerivedState N} {column : DailyStateColumn} {value : Option (Cell N)}

/-- A value of the right kind is taken as it is. -/
theorem cellOf_of_valueAt (h : valueAt column row = value.map fun cell => .scalar cell.scalar)
    (hfits : ∀ cell, value = some cell → Fits column.kind cell) : cellOf column row = .ok value := by
  unfold cellOf
  rw [h]
  cases value with
  | none => rfl
  | some cell =>
    have hcell := hfits cell rfl
    cases hkind : column.kind with
    | number =>
      rw [hkind] at hcell
      cases cell with
      | num x => exact if_pos hcell
      | text s => exact hcell.elim
    | text =>
      rw [hkind] at hcell
      cases cell with
      | num x => exact hcell.elim
      | text s => rfl

/-- What is taken is the value, of the right kind. -/
theorem valueAt_of_cellOf (h : cellOf column row = .ok value) :
    valueAt column row = (value.map fun cell => .scalar cell.scalar)
      ∧ ∀ cell, value = some cell → Fits column.kind cell := by
  unfold cellOf at h
  cases hvalue : valueAt column row with
  | none =>
    rw [hvalue] at h
    obtain rfl := Except.ok.inj h
    exact ⟨rfl, fun _ h => (nomatch h)⟩
  | some found =>
    rw [hvalue] at h
    dsimp only at h
    split at h
    · next hkind =>
      split at h
      · next hfinite =>
        obtain rfl := Except.ok.inj h
        refine ⟨rfl, fun cell hcell => ?_⟩
        obtain rfl := Option.some.inj hcell
        rw [hkind]
        exact hfinite
      · cases h
    · cases h
    · next hkind =>
      obtain rfl := Except.ok.inj h
      refine ⟨rfl, fun cell hcell => ?_⟩
      obtain rfl := Option.some.inj hcell
      rw [hkind]
      exact trivial
    · cases h

/-- The declared type of a row: a field of a column with a value of its kind, a family with values
under the keys of its columns. -/
structure Typed (row : DailyDerivedState N) : Prop where
  scalar : ∀ field value, row.fields.get? field = some (.scalar value) →
    ∃ column ∈ columns, column.field = field ∧ column.key = none
      ∧ ∃ cell, Fits column.kind cell ∧ cell.scalar = value
  family : ∀ field values, row.fields.get? field = some (.nested values) →
    ∃ column ∈ columns, column.field = field ∧ column.key ≠ none
  nested : ∀ field values, row.fields.get? field = some (.nested values) →
    ∀ key value, values.get? key = some value →
      ∃ column ∈ columns, column.field = field ∧ column.key = some key
        ∧ ∃ cell, Fits column.kind cell ∧ cell.scalar = value

omit [JsonNumber N] in
/-- The value of a field, or of a key of a family. -/
def leafAt (row : DailyDerivedState N) (field : String) (key : Option String) :
    Option (Scalar N) :=
  match key, row.fields.get? field with
  | none, some (.scalar value) => some value
  | some key, some (.nested values) => values.get? key
  | _, _ => none

/-- Two rows hold the same values. -/
structure SameRow (row row' : DailyDerivedState N) : Prop where
  securityId : row.securityId = row'.securityId
  date : row.date = row'.date
  leaf : ∀ field key, leafAt row field key = leafAt row' field key

theorem Typed.exists_column (h : Typed row) {field : String}
    {key : Option String} {value : Scalar N} (hleaf : leafAt row field key = some value) :
    ∃ column ∈ columns, column.field = field ∧ column.key = key
      ∧ ∃ cell, Fits column.kind cell ∧ cell.scalar = value := by
  unfold leafAt at hleaf
  split at hleaf
  · next hget =>
    obtain rfl := Option.some.inj hleaf
    exact h.scalar _ _ hget
  · next hget => exact h.nested _ _ hget _ _ hleaf
  · cases hleaf

/-- In a row of the declared type a column's value is its leaf. -/
theorem Typed.valueAt_eq (h : Typed row) (hcolumn : column ∈ columns) :
    valueAt column row = (leafAt row column.field column.key).map .scalar := by
  unfold valueAt leafAt
  cases hkey : column.key with
  | some key =>
    cases row.fields.get? column.field with
    | none => rfl
    | some found => cases found <;> rfl
  | none =>
    cases hget : row.fields.get? column.field with
    | none => rfl
    | some found =>
      cases found with
      | scalar value => rfl
      | nested values =>
        -- a field outside the families is no family
        obtain ⟨column', hcolumn', hfield, hkey'⟩ := h.family _ _ hget
        have honly : column' ∈ columns.filter fun other => other.field = column.field :=
          List.mem_filter.mpr ⟨hcolumn', decide_eq_true hfield⟩
        rw [columns_top column hcolumn hkey, List.mem_singleton] at honly
        exact absurd hkey (honly ▸ hkey')

/-- What a row of the declared type holds for a column fits it. -/
theorem Typed.exists_cellOf (h : Typed row)
    (hcolumn : column ∈ columns) : ∃ value, cellOf column row = .ok value := by
  have hvalue := h.valueAt_eq hcolumn
  cases hleaf : leafAt row column.field column.key with
  | none =>
    rw [hleaf] at hvalue
    exact ⟨none, cellOf_of_valueAt hvalue fun _ h => (nomatch h)⟩
  | some leaf =>
    rw [hleaf] at hvalue
    obtain ⟨column', hcolumn', hfield, hkey, cell, hfits, rfl⟩ := h.exists_column hleaf
    have hsame : column' = column := by
      have hunique : ∀ a ∈ columns, ∀ b ∈ columns, a.field = b.field → a.key = b.key → a = b := by
        decide +kernel
      exact hunique _ hcolumn' _ hcolumn hfield hkey
    refine ⟨some cell, cellOf_of_valueAt hvalue fun cell' heq => ?_⟩
    obtain rfl := Option.some.inj heq
    exact hsame ▸ hfits

/-- What each column takes from a row. -/
def cellsOf (row : DailyDerivedState N) : List (Option (Cell N)) :=
  columns.map fun column => (cellOf column row).toOption.join

/-- The row built from what the columns take: its properties in canonical order, no family without
values. -/
def canonical (row : DailyDerivedState N) : DailyDerivedState N :=
  rowAt row.securityId row.date (cellsOf row)

theorem length_cellsOf (row : DailyDerivedState N) : (cellsOf row).length = columns.length :=
  List.length_map ..

theorem mem_zip_cellsOf :
    (column, value) ∈ columns.zip (cellsOf row)
      ↔ column ∈ columns ∧ value = (cellOf column row).toOption.join := by
  rw [cellsOf, List.zip_map_right, List.mem_map]
  constructor
  · rintro ⟨⟨a, b⟩, hmem, heq⟩
    obtain ⟨rfl, rfl⟩ := Prod.mk.inj heq
    obtain ⟨ha, -⟩ := List.of_mem_zip hmem
    obtain ⟨i, hi⟩ := List.mem_iff_getElem?.mp hmem
    obtain ⟨hfst, hsnd⟩ := List.getElem?_zip_eq_some.mp hi
    obtain rfl : a = b := Option.some.inj (hfst.symm.trans hsnd)
    exact ⟨ha, rfl⟩
  · rintro ⟨hmem, rfl⟩
    obtain ⟨i, hi⟩ := List.mem_iff_getElem?.mp hmem
    exact ⟨(column, column), List.mem_iff_getElem?.mpr ⟨i, List.getElem?_zip_eq_some.mpr ⟨hi, hi⟩⟩,
      rfl⟩

variable {cells : List (Option (Cell N))}

/-- **The row of fitting cells is of the declared type.** -/
theorem typed_rowAt (hlength : cells.length = columns.length)
    (hfits : ∀ column cell, (column, some cell) ∈ columns.zip cells → Fits column.kind cell)
    (securityId date : Text) : Typed (rowAt securityId date cells) := by
  -- a field that is there has an entry with a value
  have hentry : ∀ {field found}, (rowAt securityId date cells).fields.get? field = some found →
      ∃ column cell, (column, some cell) ∈ columns.zip cells ∧ column.field = field := by
    intro field found hget
    by_contra hnone
    rw [get?_rowAt_absent securityId date fun entry hmem hfield => ?_] at hget
    · cases hget
    · obtain ⟨column, value⟩ := entry
      cases value with
      | none => rfl
      | some cell => exact absurd ⟨column, cell, hmem, hfield⟩ hnone
  refine ⟨fun field value hget => ?_, fun field values hget => ?_,
    fun field values hget key value hkey => ?_⟩
  · obtain ⟨column, cell, hmem, rfl⟩ := hentry hget
    have hcolumn := (List.of_mem_zip hmem).1
    cases hkey : column.key with
    | none =>
      rw [get?_rowAt_top hlength securityId date hmem hkey] at hget
      obtain rfl := FieldValue.scalar.inj (Option.some.inj hget)
      exact ⟨column, hcolumn, rfl, hkey, cell, hfits column cell hmem, rfl⟩
    | some key =>
      obtain ⟨members, -, -, -, hobject⟩ := exists_family hlength securityId date hcolumn
        (by rw [hkey]; exact Option.some_ne_none key)
      rw [hobject] at hget
      split at hget <;> cases hget
  · obtain ⟨column, cell, hmem, rfl⟩ := hentry hget
    refine ⟨column, (List.of_mem_zip hmem).1, rfl, fun hkey => ?_⟩
    rw [get?_rowAt_top hlength securityId date hmem hkey] at hget
    cases hget
  · obtain ⟨column, cell, hmem, rfl⟩ := hentry hget
    have hcolumn := (List.of_mem_zip hmem).1
    cases hcolumnKey : column.key with
    | none =>
      rw [get?_rowAt_top hlength securityId date hmem hcolumnKey] at hget
      cases hget
    | some key' =>
      obtain ⟨members, hmembers, -, -, hobject⟩ := exists_family hlength securityId date hcolumn
        (by rw [hcolumnKey]; exact Option.some_ne_none key')
      rw [hobject] at hget
      split at hget
      · cases hget
      · obtain rfl := FieldValue.nested.inj (Option.some.inj hget)
        obtain ⟨column', cell', hmem', hkey', rfl⟩ :=
          mem_familyValues.mp (OrderedMap.mem_of_get?_ofList hkey)
        obtain ⟨hzip, hfield⟩ := (hmembers _).mp hmem'
        exact ⟨column', (List.of_mem_zip hzip).1, hfield, hkey', cell', hfits column' cell' hzip,
          rfl⟩

theorem cellOf_rowAt (hlength : cells.length = columns.length)
    (hfits : ∀ column cell, (column, some cell) ∈ columns.zip cells → Fits column.kind cell)
    (securityId date : Text) (hmem : (column, value) ∈ columns.zip cells) :
    cellOf column (rowAt securityId date cells) = .ok value := by
  refine cellOf_of_valueAt (valueAt_rowAt hlength securityId date hmem) fun cell heq => ?_
  exact hfits column cell (heq ▸ hmem)

/-- A row built from its cells is its own canonical row. -/
theorem canonical_rowAt (hlength : cells.length = columns.length)
    (hfits : ∀ column cell, (column, some cell) ∈ columns.zip cells → Fits column.kind cell)
    (securityId date : Text) :
    canonical (rowAt securityId date cells) = rowAt securityId date cells := by
  have hcells : cellsOf (rowAt securityId date cells) = cells := by
    refine List.ext_getElem? fun i => ?_
    rw [cellsOf, List.getElem?_map]
    cases hcolumn : columns[i]? with
    | none =>
      rw [List.getElem?_eq_none_iff] at hcolumn
      rw [List.getElem?_eq_none_iff.mpr (hlength.trans_le hcolumn)]
      rfl
    | some column =>
      have hi : i < cells.length := by
        rw [hlength]
        exact (List.getElem?_eq_some_iff.mp hcolumn).1
      have hvalue := List.getElem?_eq_getElem hi
      have hmem : (column, cells[i]) ∈ columns.zip cells :=
        List.mem_iff_getElem?.mpr ⟨i, List.getElem?_zip_eq_some.mpr ⟨hcolumn, hvalue⟩⟩
      rw [Option.map_some, cellOf_rowAt hlength hfits securityId date hmem, hvalue]
      rfl
  unfold canonical
  rw [hcells]
  rfl

/-- What the columns take from a row of the declared type fits them. -/
theorem Typed.fits_cellsOf (h : Typed row) :
    ∀ column cell, (column, some cell) ∈ columns.zip (cellsOf row) → Fits column.kind cell := by
  intro column cell hmem
  obtain ⟨hcolumn, hcell⟩ := mem_zip_cellsOf.mp hmem
  obtain ⟨value, hvalue⟩ := h.exists_cellOf hcolumn
  rw [hvalue] at hcell
  exact (valueAt_of_cellOf hvalue).2 cell hcell.symm

theorem Typed.cellOf_canonical (h : Typed row) (hcolumn : column ∈ columns) :
    cellOf column (canonical row) = cellOf column row := by
  obtain ⟨value, hvalue⟩ := h.exists_cellOf hcolumn
  rw [hvalue]
  exact cellOf_rowAt (length_cellsOf row) h.fits_cellsOf row.securityId row.date
    (mem_zip_cellsOf.mpr ⟨hcolumn, by rw [hvalue]; rfl⟩)

/-- **A row of the declared type is the same as its canonical row.** -/
theorem Typed.sameRow_canonical (h : Typed row) :
    SameRow row (canonical row) := by
  have htyped : Typed (canonical row) :=
    typed_rowAt (length_cellsOf row) h.fits_cellsOf row.securityId row.date
  have hsame : ∀ column ∈ columns,
      leafAt row column.field column.key = leafAt (canonical row) column.field column.key := by
    intro column hcolumn
    obtain ⟨value, hvalue⟩ := h.exists_cellOf hcolumn
    have hmem : (column, value) ∈ columns.zip (cellsOf row) :=
      mem_zip_cellsOf.mpr ⟨hcolumn, by rw [hvalue]; rfl⟩
    have hleft := (h.valueAt_eq hcolumn).symm.trans (valueAt_of_cellOf hvalue).1
    have hright := (htyped.valueAt_eq hcolumn).symm.trans
      (valueAt_rowAt (length_cellsOf row) row.securityId row.date hmem)
    exact Option.map_injective (fun _ _ heq => FieldValue.scalar.inj heq) (hleft.trans hright.symm)
  refine ⟨rfl, rfl, fun field key => ?_⟩
  by_cases hcolumn : ∃ column ∈ columns, column.field = field ∧ column.key = key
  · obtain ⟨column, hmem, rfl, rfl⟩ := hcolumn
    exact hsame column hmem
  · -- a path of no column has no value in either
    have hnone : ∀ {row' : DailyDerivedState N}, Typed row' → leafAt row' field key = none := by
      intro row' htyped'
      refine Option.eq_none_iff_forall_ne_some.mpr fun value hleaf => ?_
      obtain ⟨column, hmem, hfield, hkey, -⟩ := htyped'.exists_column hleaf
      exact hcolumn ⟨column, hmem, hfield, hkey⟩
    rw [hnone h, hnone htyped]

/-- Rows with the same values give each column the same cell. -/
theorem SameRow.cellOf_eq {row row' : DailyDerivedState N} (h : SameRow row row')
    (htyped : Typed row) (htyped' : Typed row')
    (hcolumn : column ∈ columns) : cellOf column row = cellOf column row' := by
  obtain ⟨value, hvalue⟩ := htyped.exists_cellOf hcolumn
  obtain ⟨hat, hfits⟩ := valueAt_of_cellOf hvalue
  rw [hvalue, cellOf_of_valueAt ?_ hfits]
  rw [htyped'.valueAt_eq hcolumn, ← h.leaf, ← htyped.valueAt_eq hcolumn, hat]

theorem SameRow.canonical_eq {row row' : DailyDerivedState N} (h : SameRow row row')
    (htyped : Typed row) (htyped' : Typed row') : canonical row = canonical row' := by
  have hcells : cellsOf row = cellsOf row' := by
    refine List.map_congr_left fun column hcolumn => ?_
    rw [h.cellOf_eq htyped htyped' hcolumn]
  unfold canonical
  rw [hcells, h.securityId, h.date]

end Typed

end FactorSage.DailyState
