import FactorSage.Library.JsonText
import FactorSage.Library.RunLength

/-!
# Daily-state chunks

One security's derived state of one year as the text the cache stores: a date axis, and one column
for each field as runs over that axis.

A row holds the security and the date it belongs to and its other properties in the order they were
written. Numbers are doubles with the two zeros identified. A text, a JSON value and what the parser
reads are those of `JsonText`; a call that throws, and a chunk that is refused, is an `Except.error`
with its message.
-/

namespace FactorSage.DailyState

open JsonText

/-! ### Rows -/

/-- A primitive value of a property. -/
inductive Scalar (N : Type) where
  | num (value : N)
  | text (value : Text)
  | bool (value : Bool)
  | null
  deriving DecidableEq

/-- A property of a row: a value of its own, or one of the two nested families. -/
inductive FieldValue (N : Type) where
  | scalar (value : Scalar N)
  | nested (values : OrderedMap String (Scalar N))

structure DailyDerivedState (N : Type) where
  securityId : Text
  date : Text
  /-- The other properties that are not `undefined`. -/
  fields : OrderedMap String (FieldValue N)

/-! ### Columns -/

inductive ColumnKind where
  | number
  | text
  deriving DecidableEq

/-- Where a column's value lives on a row, and what it may hold. -/
structure DailyStateColumn where
  kind : ColumnKind
  field : String
  /-- For a nested family, the key of its object. -/
  key : Option String
  deriving DecidableEq

def DailyStateColumn.name (column : DailyStateColumn) : String :=
  match column.key with
  | none => column.field
  | some key => column.field ++ "." ++ key

def numberColumn (field : String) : DailyStateColumn := ⟨.number, field, none⟩

def textColumn (field : String) : DailyStateColumn := ⟨.text, field, none⟩

def nestedColumn (field key : String) : DailyStateColumn := ⟨.number, field, some key⟩

def dailyMovingAverages : List String :=
  ["sma20d", "sma50d", "sma100d", "sma200d", "ema20d", "ema50d", "ema200d"]

def weeklyMovingAverages : List String :=
  ["sma20w", "sma50w", "sma100w", "sma200w", "ema20w", "ema50w", "ema200w"]

def dailyOscillators : List String := ["rsi7d", "rsi14d", "rsi21d"]

def dailyRelativeVolumes : List String := ["rvol10", "rvol20", "rvol50"]

def fundamentalMetricFields : List String :=
  ["revenueGrowthTtmYoy", "epsGrowthTtmYoy", "fcfGrowthTtmYoy", "grossMarginTtm",
    "operatingMarginTtm", "netMarginTtm", "fcfMarginTtm", "roicTtm", "roeTtm", "roaTtm",
    "debtToEquity", "currentRatio", "netDebtToEbitdaTtm", "interestCoverageTtm",
    "assetTurnoverTtm"]

/-- `INTRINSIC_VALUE_MODELS`, each with its `INTRINSIC_MODEL_SOURCE_FIELDS`. -/
def intrinsicValueModels : List (String × String) :=
  [("DCF_FCFF", "dcfFcffSourceAsOf"), ("RESIDUAL_INCOME", "residualIncomeSourceAsOf"),
    ("DDM", "ddmSourceAsOf"), ("GRAHAM", "grahamSourceAsOf")]

def intrinsicValueBlendIds : List String := ["BALANCED", "CONSERVATIVE", "DIVIDEND"]

/-- `COLUMNS`: every column of a chunk, in canonical order. -/
def columns : List DailyStateColumn :=
  dailyMovingAverages.map numberColumn
    ++ [textColumn "weeklySourceWeekStart"]
    ++ weeklyMovingAverages.map numberColumn
    ++ dailyOscillators.map numberColumn
    ++ dailyRelativeVolumes.map numberColumn
    ++ fundamentalMetricFields.map numberColumn
    ++ intrinsicValueModels.map (fun model => nestedColumn "intrinsicValues" model.1)
    ++ intrinsicValueBlendIds.map (nestedColumn "intrinsicValueBlends")
    ++ intrinsicValueModels.map (fun model => textColumn model.2)
    ++ [textColumn "intrinsicCurrency"]

/-- `DAILY_STATE_CHUNK_FIELDS`. -/
def dailyStateChunkFields : List Text := columns.map fun column => lit column.name

variable {N : Type}

/-- `DAILY_STATE_ENCODING_VERSION`. -/
def dailyStateEncodingVersion [JsonNumber N] : N := ofInt 2

/-- One session's value in one column. -/
inductive Cell (N : Type) where
  | num (value : N)
  | text (value : Text)
  deriving DecidableEq

/-! ### Encoding -/

/-- What a row holds for a column, of whatever type; `none` is `undefined`. -/
def valueAt (column : DailyStateColumn) (row : DailyDerivedState N) : Option (FieldValue N) :=
  match column.key, row.fields.get? column.field with
  | none, holder => holder
  | some key, some (.nested values) => (values.get? key).map .scalar
  | some _, _ => none

def Cell.value : Cell N → Value N
  | .num x => .num x
  | .text s => .str s

/-- The comparison the rows are sorted with. -/
def compareDates (left right : DailyDerivedState N) : ℤ :=
  if left.date < right.date then -1 else if right.date < left.date then 1 else 0

/-- `/^\d{4}-\d{2}-\d{2}$/`. -/
def isLocalDate : Text → Bool
  | [a, b, c, d, dash, e, f, dash', g, h] =>
    [a, b, c, d, e, f, g, h].all isDigit ∧ dash = 45 ∧ dash' = 45
  | _ => false

/-- Fails at the first row whose date an earlier row has. -/
def assertOneRowPerTradingDay (seen : List Text) : List (DailyDerivedState N) → Except Text Unit
  | [] => .ok ()
  | row :: rest =>
    if row.date ∈ seen then
      .error (lit "Daily derived state must hold exactly one row per trading day; duplicate "
        ++ row.date)
    else assertOneRowPerTradingDay (row.date :: seen) rest

section Encoding

variable [JsonNumber N]

/-- `String` of a property. -/
def FieldValue.string : FieldValue N → Text
  | .scalar (.num x) => JsonNumber.text x
  | .scalar (.text s) => s
  | .scalar (.bool b) => if b then lit "true" else lit "false"
  | .scalar .null => lit "null"
  | .nested _ => lit "[object Object]"

def refusal (column : DailyStateColumn) (row : DailyDerivedState N) (value : FieldValue N)
    (what : String) : Text :=
  lit "Refusing to encode " ++ lit column.name ++ lit " = " ++ value.string ++ lit " for "
    ++ row.date ++ lit ": not " ++ lit what

/-- The value a row holds for a column; a value of the wrong type is refused. -/
def cellOf (column : DailyStateColumn) (row : DailyDerivedState N) :
    Except Text (Option (Cell N)) :=
  match valueAt column row with
  | none => .ok none
  | some value =>
    match column.kind, value with
    | .number, .scalar (.num x) =>
      if isFinite x then .ok (some (.num x))
      else .error (refusal column row value "a finite number")
    | .number, _ => .error (refusal column row value "a finite number")
    | .text, .scalar (.text s) => .ok (some (.text s))
    | .text, _ => .error (refusal column row value "a string")

/-- The cell of one run: a count where there is no value, and the value alone where it is one. -/
def encodeRun : Option (Cell N) × ℕ → Value N
  | (none, count) => .arr [.num (ofInt count)]
  | (some cell, count) =>
    if count = 1 then cell.value else .arr [cell.value, .num (ofInt count)]

def encodeColumn [DecidableEq N] (column : DailyStateColumn) (rows : List (DailyDerivedState N)) :
    Except Text (List (Value N)) := do
  let values ← rows.mapM (cellOf column)
  return (RunLength.runs values).map encodeRun

/-- `padStart(4, "0")` of the year, and a dash. -/
def yearPrefix (year : N) : Text :=
  List.replicate (4 - (JsonNumber.text year).length) 48 ++ JsonNumber.text year ++ [45]

/-- Fails for a row of another security or outside the year. -/
def assertRowOfChunk (securityId : Text) (year : N) (row : DailyDerivedState N) :
    Except Text Unit :=
  if row.securityId ≠ securityId then
    .error (lit "Refusing to encode a " ++ row.securityId ++ lit " row into " ++ securityId
      ++ lit "'s daily-state chunk")
  else if isLocalDate row.date = false ∨ (yearPrefix year).isPrefixOf row.date = false then
    .error (lit "Refusing to encode " ++ row.date ++ lit " into the " ++ JsonNumber.text year
      ++ lit " daily-state chunk")
  else .ok ()

def encodeDailyStateChunk [DecidableEq N] (securityId : Text) (year : N)
    (rows : List (DailyDerivedState N)) : Except Text Text := do
  if isInteger year = false then
    throw (lit "A daily-state chunk year must be an integer, got " ++ JsonNumber.text year)
  let ordered := ComparatorSort.sortBy compareDates rows
  assertOneRowPerTradingDay [] ordered
  ordered.forM (assertRowOfChunk securityId year)
  let encoded ← columns.mapM fun column => encodeColumn column ordered
  return lit "\x7b\"version\":" ++ JsonNumber.text (dailyStateEncodingVersion : N)
    ++ (lit ",\"securityId\":" ++ stringify (.str securityId : Value N)
    ++ (lit ",\"year\":" ++ JsonNumber.text year
    ++ (lit ",\"fields\":" ++ stringify (.arr (dailyStateChunkFields.map .str) : Value N)
    ++ (lit ",\"dates\":" ++ stringify (.arr (ordered.map fun row => .str row.date) : Value N)
    ++ (lit ",\"columns\":" ++ stringify (.arr (encoded.map .arr)) ++ lit "\x7d")))))

end Encoding

/-! ### Decoding -/

/-- `=== s` of a string. -/
def isText (s : Text) : Option (Value N) → Bool
  | some (.str t) => t = s
  | _ => false

def sameFieldDictionary : Option (Value N) → Bool
  | some (.arr fields) =>
    fields.length = dailyStateChunkFields.length
      ∧ (fields.zip dailyStateChunkFields).all fun (field, name) => isText name (some field)
  | _ => false

def ColumnKind.string : ColumnKind → String
  | .number => "number"
  | .text => "text"

def typeOf : Value N → String
  | .num _ => "number"
  | .str _ => "string"
  | .bool _ => "boolean"
  | _ => "object"

/-- Writes a value on consecutive sessions. -/
def writeRun (cell : Cell N) (expanded : List (Option (Cell N))) (position : ℕ) :
    ℕ → List (Option (Cell N))
  | 0 => expanded
  | count + 1 => writeRun cell (expanded.set position (some cell)) (position + 1) count

/-- Writes the part of a run that lies in the window `[first, last)`, if it holds a value. -/
def writeCell (first last index count : ℕ) (expanded : List (Option (Cell N))) :
    Option (Cell N) → List (Option (Cell N))
  | none => expanded
  | some cell =>
    writeRun cell expanded (max index first - first) (min (index + count) last - max index first)

section Decoding

variable [JsonNumber N]

/-- `JSON.stringify` in a template, where `undefined` shows as something else. -/
def shown (otherwise : String) : Option (Value N) → Text
  | none => lit otherwise
  | some value => stringify value

/-- `=== x` of a number. -/
def isNumber [DecidableEq N] (x : N) : Option (Value N) → Bool
  | some (.num y) => y = x
  | _ => false

/-- Why a chunk is not of this version, security, year and dictionary. -/
def headerFailure [DecidableEq N] (chunk : List (Text × Value N)) (securityId : Text) (year : N) :
    Option Text :=
  if isNumber dailyStateEncodingVersion (property? chunk (lit "version")) = false then
    some (lit "the encoding version is " ++ shown "missing" (property? chunk (lit "version"))
      ++ lit ", not " ++ JsonNumber.text (dailyStateEncodingVersion : N))
  else if isText securityId (property? chunk (lit "securityId")) = false then
    some (lit "the chunk belongs to " ++ shown "undefined" (property? chunk (lit "securityId"))
      ++ lit ", not " ++ securityId)
  else if isNumber year (property? chunk (lit "year")) = false then
    some (lit "the chunk holds year " ++ shown "undefined" (property? chunk (lit "year"))
      ++ lit ", not " ++ JsonNumber.text year)
  else if sameFieldDictionary (property? chunk (lit "fields")) = false then
    some (lit "the field dictionary differs from this version's columns")
  else none

/-- The dates of an axis, each in the year and after the one before it. -/
def readDates (year : N) (previous : Text) : List (Value N) → Except Text (List Text)
  | [] => .ok []
  | .str date :: rest =>
    if isLocalDate date = false then
      .error (lit "the date axis holds " ++ stringify (.str date : Value N))
    else if (yearPrefix year).isPrefixOf date = false then
      .error (lit "the date axis holds " ++ date ++ lit " outside " ++ JsonNumber.text year)
    else if date ≤ previous then
      .error (lit "the date axis is not strictly ascending at " ++ date)
    else (readDates year date rest).map (date :: ·)
  | value :: _ => .error (lit "the date axis holds " ++ stringify value)

/-- `dateAxisFailure`, and the axis where it finds none. -/
def dateAxis (year : N) : Option (Value N) → Except Text (List Text)
  | some (.arr dates) => readDates year [] dates
  | _ => .error (lit "the date axis is not a list")

/-- `holdsKind`, and the cell where it does. -/
def holdsKind : ColumnKind → Value N → Option (Cell N)
  | .number, .num x => if isFinite x then some (.num x) else none
  | .text, .str s => some (.text s)
  | _, _ => none

/-- The count of a run, when it is an integer of at least `least`. -/
def countOf (least : ℕ) : Value N → Option ℕ
  | .num x => (safeInteger? x).bind fun n => if n < least then none else some n.toNat
  | _ => none

def cellText : Value N → Text
  | .num x => JsonNumber.text x
  | value => stringify value

/-- The value of a cell, if its column can hold it. -/
def readValueOf (kind : ColumnKind) (value : Value N) : Except Text (Option (Cell N)) :=
  match holdsKind kind value with
  | some cell => .ok (some cell)
  | none =>
    .error (lit "a " ++ lit (typeOf value) ++ lit " cell " ++ cellText value ++ lit " in a "
      ++ lit kind.string ++ lit " column")

/-- The value and the length of the run a cell stands for. -/
def readCell (kind : ColumnKind) : Value N → Except Text (Option (Cell N) × ℕ)
  | .arr [count] =>
    match countOf 1 count with
    | none => .error (lit "an absent run of " ++ stringify count ++ lit " sessions")
    | some n => .ok (none, n)
  | .arr [value, count] =>
    match countOf 2 count with
    | none => .error (lit "a run of " ++ stringify count ++ lit " sessions")
    | some n => (readValueOf kind value).map fun cell => (cell, n)
  | .arr items =>
    .error (lit "a cell of " ++ JsonNumber.text (ofInt items.length : N) ++ lit " elements")
  | value => (readValueOf kind value).map fun cell => (cell, 1)

/-- Walks the cells of a column and writes the values of the window `[first, last)`. -/
def expandCells (kind : ColumnKind) (sessions first last : ℕ) :
    List (Value N) → ℕ → List (Option (Cell N)) → Except Text (ℕ × List (Option (Cell N)))
  | [], index, expanded => .ok (index, expanded)
  | cell :: rest, index, expanded => do
    let (value, count) ← readCell kind cell
    if index + count > sessions then
      throw (lit "more cells than the " ++ JsonNumber.text (ofInt sessions : N) ++ lit " dates")
    expandCells kind sessions first last rest (index + count)
      (writeCell first last index count expanded value)

/-- `expandColumn`, into a window that starts without values. -/
def expandColumn (kind : ColumnKind) (cells : Option (Value N)) (sessions first last : ℕ) :
    Except Text (List (Option (Cell N))) :=
  match cells with
  | some (.arr cells) => do
    let (index, expanded) ←
      expandCells kind sessions first last cells 0 (List.replicate (last - first) none)
    if index = sessions then return expanded
    else throw (JsonNumber.text (ofInt index : N) ++ lit " cells for "
      ++ JsonNumber.text (ofInt sessions : N) ++ lit " dates")
  | _ => .error (lit "not a list of cells")

end Decoding

/-- The search of `lowerBound` and `upperBound`, for the first date that is not before. -/
def searchDates (isBefore : Text → Bool) (dates : List Text) : ℕ → ℕ → ℕ → ℕ
  | 0, low, _ => low
  | fuel + 1, low, high =>
    if low < high then
      let middle := (low + high) / 2
      if isBefore (dates.getD middle []) then searchDates isBefore dates fuel (middle + 1) high
      else searchDates isBefore dates fuel low middle
    else low

/-- The first index whose date is on or after `date`. -/
def lowerBound (dates : List Text) (date : Text) : ℕ :=
  searchDates (fun d => d < date) dates dates.length 0 dates.length

/-- The first index whose date is after `date`. -/
def upperBound (dates : List Text) (date : Text) : ℕ :=
  searchDates (fun d => d ≤ date) dates dates.length 0 dates.length

/-! ### Rows of a window -/

def Cell.scalar : Cell N → Scalar N
  | .num x => .num x
  | .text s => .text s

/-- What each column holds on one session of the window. -/
def cellsAt (values : List (List (Option (Cell N)))) (offset : ℕ) : List (Option (Cell N)) :=
  values.map fun column => (column[offset]?).join

/-- Which columns hold a value. -/
def shapeOf (cells : List (Option (Cell N))) : List Bool := cells.map Option.isSome

/-- `shapeChanged`: some column holds a value on one of the two sessions only. -/
def shapeChanged (values : List (List (Option (Cell N)))) (offset : ℕ) : Bool :=
  values.any fun column =>
    (column[offset]?).join.isNone ≠ (column[offset - 1]?).join.isNone

/-- The properties present on a session, in canonical order: a nested family once, where its first
present member is. -/
def templateFields :
    List (DailyStateColumn × Bool) → Option String → List (String × FieldValue N)
  | [], _ => []
  | (_, false) :: rest, nestedField => templateFields rest nestedField
  | (column, true) :: rest, nestedField =>
    match column.key with
    | none => (column.field, .scalar .null) :: templateFields rest none
    | some _ =>
      if nestedField = some column.field then templateFields rest nestedField
      else (column.field, .scalar .null) :: templateFields rest (some column.field)

/-- A row with exactly the properties of a shape, each still a placeholder. -/
def rowTemplate (shape : List Bool) : OrderedMap String (FieldValue N) :=
  OrderedMap.ofList (templateFields (columns.zip shape) none)

/-- The object a value of a family goes into: the one it is in the middle of, or a new one. -/
def openFamily (field : String) :
    Option (String × OrderedMap String (Scalar N)) → OrderedMap String (Scalar N)
  | some (family, values) => if family = field then values else .empty
  | none => .empty

/-- Writes the values of a session into its template. -/
def writeFields : List (DailyStateColumn × Option (Cell N)) →
    OrderedMap String (FieldValue N) → Option (String × OrderedMap String (Scalar N)) →
    OrderedMap String (FieldValue N)
  | [], fields, _ => fields
  | (_, none) :: rest, fields, nested => writeFields rest fields nested
  | (column, some cell) :: rest, fields, nested =>
    match column.key with
    | none => writeFields rest (fields.set column.field (.scalar cell.scalar)) nested
    | some key =>
      let values := (openFamily column.field nested).set key cell.scalar
      writeFields rest (fields.set column.field (.nested values)) (some (column.field, values))

/-- What the loop over a window keeps: the template of the last row, those built so far, and the
rows. -/
structure Materializing (N : Type) where
  template : Option (OrderedMap String (FieldValue N))
  templates : OrderedMap (List Bool) (OrderedMap String (FieldValue N))
  rows : List (DailyDerivedState N)

/-- The template of a session: the last one while the shape stays, one built before for a shape seen
before, a new one otherwise. -/
def Materializing.templateAt (state : Materializing N) (values : List (List (Option (Cell N))))
    (offset : ℕ) :
    OrderedMap String (FieldValue N)
      × OrderedMap (List Bool) (OrderedMap String (FieldValue N)) :=
  let shape := shapeOf (cellsAt values offset)
  match state.template, shapeChanged values offset with
  | some template, false => (template, state.templates)
  | _, _ =>
    match state.templates.get? shape with
    | some template => (template, state.templates)
    | none => (rowTemplate shape, state.templates.set shape (rowTemplate shape))

def materializeRow (securityId : Text) (axis : List Text) (first : ℕ)
    (values : List (List (Option (Cell N)))) (state : Materializing N) (offset : ℕ) :
    Materializing N :=
  let (template, templates) := state.templateAt values offset
  { template := some template
    templates
    rows := state.rows ++
      [{ securityId
         date := axis.getD (first + offset) []
         fields := writeFields (columns.zip (cellsAt values offset)) template none }] }

/-- The rows of the window `[first, last)`. -/
def materializeRows (securityId : Text) (axis : List Text) (first last : ℕ)
    (values : List (List (Option (Cell N)))) : List (DailyDerivedState N) :=
  ((List.range (last - first)).foldl (materializeRow securityId axis first values)
    ⟨none, .empty, []⟩).rows

/-- A range of dates, both ends included. -/
structure DateRange where
  fromDate : Text
  toDate : Text

/-- The window of an axis a range asks for. -/
def windowOf (axis : List Text) : Option DateRange → ℕ × ℕ
  | none => (0, axis.length)
  | some range =>
    let first := lowerBound axis range.fromDate
    (first, max first (upperBound axis range.toDate))

variable [JsonNumber N]

/-- The columns of a chunk, expanded over a window. -/
def expandColumns (cells : List (Value N)) (sessions first last : ℕ) :
    Except Text (List (List (Option (Cell N)))) :=
  (columns.zip cells).mapM fun (column, cells) =>
    (expandColumn column.kind (some cells) sessions first last).mapError fun failure =>
      lit "column " ++ lit column.name ++ lit ": " ++ failure

/-- What is left of a chunk whose header and dates are sound. -/
def decodeColumns (securityId : Text) (axis : List Text) (range : Option DateRange) :
    Option (Value N) → Except Text (List (DailyDerivedState N))
  | some (.arr cells) =>
    if cells.length ≠ columns.length then
      .error (lit "the chunk holds " ++ JsonNumber.text (ofInt cells.length : N)
        ++ lit " columns, not " ++ JsonNumber.text (ofInt columns.length : N))
    else do
      let (first, last) := windowOf axis range
      let values ← expandColumns cells axis.length first last
      return materializeRows securityId axis first last values
  | _ =>
    .error (lit "the chunk holds no columns, not " ++ JsonNumber.text (ofInt columns.length : N))

def decodeDailyStateChunk [DecidableEq N] (payload securityId : Text) (year : N) (range : Option DateRange) :
    Except Text (List (DailyDerivedState N)) :=
  match parse payload with
  | none => .error (lit "the payload is not JSON")
  | some (.obj chunk) =>
    match headerFailure chunk securityId year with
    | some failure => .error failure
    | none => do
      let axis ← dateAxis year (property? chunk (lit "dates"))
      decodeColumns securityId axis range (property? chunk (lit "columns"))
  | some _ =>
    .error (lit "the payload is not a version-2 chunk object (a version-1 chunk is an array of rows)")

end FactorSage.DailyState
