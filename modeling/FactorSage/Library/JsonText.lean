import FactorSage.Library.CodeUnits
import FactorSage.Library.ComparatorSort
import FactorSage.Library.OrderedMap

/-!
# JSON text

What a language whose strings are sequences of 16-bit code units writes with `JSON.stringify` and
reads with `JSON.parse`, over the code units themselves: a string may hold half of a surrogate pair,
which the text spells as an escape.

Numbers stay abstract. `JsonNumber` lists what a program asks of them, up to the sign of zero, which
no JSON text keeps; `LawfulJsonNumber` says that the digits written for a finite number are a number
of the grammar and denote it.

The parser is a recursive descent with fuel; `parse` gives it twice the length of the text, and
`Library/JsonRoundTrip` shows that more fuel changes nothing.
-/

namespace JsonText

/-- The code units of a string. -/
abbrev Text := List ℕ

/-- The text of a literal. -/
def lit (s : String) : Text := CodeUnits.codeUnits s

/-- Double-precision numbers, the two zeros identified. -/
class JsonNumber (N : Type) where
  isFinite : N → Bool
  isInteger : N → Bool
  /-- `Number.isSafeInteger`, with the integer. -/
  safeInteger? : N → Option ℤ
  /-- An integer literal. -/
  ofInt : ℤ → N
  /-- `String` of a number. -/
  text : N → Text
  /-- The number nearest to what a numeric literal denotes. -/
  ofToken : Text → N

export JsonNumber (isFinite isInteger safeInteger? ofInt)

/-- What `JSON.parse` builds. An object lists its own properties in their own order. -/
inductive Value (N : Type) where
  | null
  | bool (value : Bool)
  | num (value : N)
  | str (value : Text)
  | arr (items : List (Value N))
  | obj (fields : List (Text × Value N))

variable {N : Type}

/-- A property of an object. -/
def property? (fields : List (Text × Value N)) (key : Text) : Option (Value N) :=
  (fields.find? (·.1 = key)).map Prod.snd

/-! ### Writing -/

/-- A hexadecimal digit, in lower case. -/
def hexDigit (n : ℕ) : ℕ := if n < 10 then 48 + n else 87 + n

/-- `\uXXXX`. -/
def unicodeEscape (u : ℕ) : Text :=
  [92, 117, hexDigit (u / 4096 % 16), hexDigit (u / 256 % 16), hexDigit (u / 16 % 16),
    hexDigit (u % 16)]

def isLeadSurrogate (u : ℕ) : Bool := 0xD800 ≤ u ∧ u ≤ 0xDBFF

def isTrailSurrogate (u : ℕ) : Bool := 0xDC00 ≤ u ∧ u ≤ 0xDFFF

/-- A unit that is not part of a surrogate pair: the quote, the backslash, a control character or
half of a pair is escaped. -/
def escapeUnit (u : ℕ) : Text :=
  if u = 34 then [92, 34]
  else if u = 92 then [92, 92]
  else if u = 8 then [92, 98]
  else if u = 9 then [92, 116]
  else if u = 10 then [92, 110]
  else if u = 12 then [92, 102]
  else if u = 13 then [92, 114]
  else if u < 32 ∨ isLeadSurrogate u ∨ isTrailSurrogate u then unicodeEscape u
  else [u]

/-- The units between the quotes. -/
def quoteUnits : Text → Text
  | [] => []
  | [u] => escapeUnit u
  | u :: v :: rest =>
    if isLeadSurrogate u ∧ isTrailSurrogate v then u :: v :: quoteUnits rest
    else escapeUnit u ++ quoteUnits (v :: rest)

def quote (s : Text) : Text := 34 :: (quoteUnits s ++ [34])

variable [JsonNumber N]

mutual

/-- `JSON.stringify`. -/
def stringify : Value N → Text
  | .null => lit "null"
  | .bool true => lit "true"
  | .bool false => lit "false"
  | .num x => if isFinite x then JsonNumber.text x else lit "null"
  | .str s => quote s
  | .arr items => 91 :: (stringifyItems items ++ [93])
  | .obj fields => 123 :: (stringifyFields fields ++ [125])

def stringifyItems : List (Value N) → Text
  | [] => []
  | [v] => stringify v
  | v :: w :: rest => stringify v ++ 44 :: stringifyItems (w :: rest)

def stringifyFields : List (Text × Value N) → Text
  | [] => []
  | [(key, v)] => quote key ++ 58 :: stringify v
  | (key, v) :: field :: rest =>
    quote key ++ 58 :: (stringify v ++ 44 :: stringifyFields (field :: rest))

end

/-! ### Reading -/

def isSpace (u : ℕ) : Bool := u = 32 ∨ u = 9 ∨ u = 10 ∨ u = 13

def skipSpace : Text → Text
  | [] => []
  | u :: rest => if isSpace u then skipSpace rest else u :: rest

/-- The next unit that is not space, and what follows it. -/
def nextUnit (t : Text) : Option (ℕ × Text) :=
  match skipSpace t with
  | [] => none
  | u :: rest => some (u, rest)

def isDigit (u : ℕ) : Bool := 48 ≤ u ∧ u ≤ 57

/-- The digits at the front. -/
def scanDigits : Text → Text × Text
  | [] => ([], [])
  | u :: rest =>
    if isDigit u then (u :: (scanDigits rest).1, (scanDigits rest).2) else ([], u :: rest)

def scanMinus : Text → Text × Text
  | [] => ([], [])
  | u :: rest => if u = 45 then ([u], rest) else ([], u :: rest)

/-- `0`, or digits that do not start with it. -/
def scanInteger : Text → Option (Text × Text)
  | [] => none
  | u :: rest =>
    if u = 48 then some ([u], rest)
    else if isDigit u then some (u :: (scanDigits rest).1, (scanDigits rest).2)
    else none

def scanFraction : Text → Option (Text × Text)
  | [] => some ([], [])
  | u :: rest =>
    if u = 46 then
      if (scanDigits rest).1 = [] then none
      else some (u :: (scanDigits rest).1, (scanDigits rest).2)
    else some ([], u :: rest)

def scanSign : Text → Text × Text
  | [] => ([], [])
  | u :: rest => if u = 43 ∨ u = 45 then ([u], rest) else ([], u :: rest)

def scanExponent : Text → Option (Text × Text)
  | [] => some ([], [])
  | u :: rest =>
    if u = 69 ∨ u = 101 then
      let (sign, digits) := scanSign rest
      if (scanDigits digits).1 = [] then none
      else some (u :: (sign ++ (scanDigits digits).1), (scanDigits digits).2)
    else some ([], u :: rest)

/-- The longest number of the grammar at the front. -/
def scanNumber (t : Text) : Option (Text × Text) := do
  let (minus, t₀) := scanMinus t
  let (integer, t₁) ← scanInteger t₀
  let (fraction, t₂) ← scanFraction t₁
  let (exponent, t₃) ← scanExponent t₂
  some (minus ++ (integer ++ (fraction ++ exponent)), t₃)

/-- A text that is one number of the grammar. -/
def IsNumber (t : Text) : Prop := scanNumber t = some (t, [])

/-- A finite number is written as a number of the grammar that denotes it, and the integers a double
holds exactly are safe. -/
class LawfulJsonNumber (N : Type) [JsonNumber N] : Prop where
  isNumber_text : ∀ x : N, isFinite x = true → IsNumber (JsonNumber.text x)
  ofToken_text : ∀ x : N, isFinite x = true → JsonNumber.ofToken (JsonNumber.text x) = x
  isFinite_of_isInteger : ∀ x : N, isInteger x = true → isFinite x = true
  isFinite_ofInt : ∀ n : ℤ, n.natAbs ≤ 9007199254740991 → isFinite (ofInt n : N) = true
  safeInteger?_ofInt : ∀ n : ℤ, n.natAbs ≤ 9007199254740991 → safeInteger? (ofInt n : N) = some n

/-- The value of a hexadecimal digit. -/
def hexValue (u : ℕ) : Option ℕ :=
  if 48 ≤ u ∧ u ≤ 57 then some (u - 48)
  else if 97 ≤ u ∧ u ≤ 102 then some (u - 87)
  else if 65 ≤ u ∧ u ≤ 70 then some (u - 55)
  else none

def hexUnit (a b c d : ℕ) : Option ℕ := do
  let a ← hexValue a
  let b ← hexValue b
  let c ← hexValue c
  let d ← hexValue d
  some (4096 * a + 256 * b + 16 * c + d)

/-- The unit an escape of one letter stands for. -/
def simpleEscape (u : ℕ) : Option ℕ :=
  if u = 34 ∨ u = 92 ∨ u = 47 then some u
  else if u = 98 then some 8
  else if u = 102 then some 12
  else if u = 110 then some 10
  else if u = 114 then some 13
  else if u = 116 then some 9
  else none

/-- One more unit in front of what was read. -/
def consUnit (u : ℕ) (read : Text × Text) : Text × Text := (u :: read.1, read.2)

/-- The units up to the closing quote, and what follows it. -/
def parseUnits : Text → Option (Text × Text)
  | [] => none
  | u :: rest =>
    if u = 34 then some ([], rest)
    else if u = 92 then
      match rest with
      | [] => none
      | e :: rest =>
        if e = 117 then
          match rest with
          | a :: b :: c :: d :: rest =>
            (hexUnit a b c d).bind fun unit => (parseUnits rest).map (consUnit unit)
          | _ => none
        else (simpleEscape e).bind fun unit => (parseUnits rest).map (consUnit unit)
    else if u < 32 then none
    else (parseUnits rest).map (consUnit u)

/-- What follows a word. -/
def expect : Text → Text → Option Text
  | [], t => some t
  | _ :: _, [] => none
  | w :: word, u :: rest => if w = u then expect word rest else none

/-- The index a key stands for, when it is the decimal spelling of one. -/
def arrayIndex? (key : Text) : Option ℕ :=
  if key.all isDigit ∧ key ≠ [] ∧ (key.head? ≠ some 48 ∨ key = [48]) then
    let index := key.foldl (fun n u => 10 * n + (u - 48)) 0
    if index < 4294967295 then some index else none
  else none

/-- The properties of an object in their own order: a key written twice holds its last value, and
the keys that are array indices come first, ascending. -/
def ownProperties (fields : List (Text × Value N)) : List (Text × Value N) :=
  let entries := (OrderedMap.ofList fields).entries
  let indexed := entries.filter fun field => (arrayIndex? field.1).isSome
  let named := entries.filter fun field => (arrayIndex? field.1).isNone
  let index (field : Text × Value N) : ℤ := ((arrayIndex? field.1).getD 0 : ℕ)
  ComparatorSort.sortBy (fun a b => index a - index b) indexed ++ named

/-- What reads a value, or several, at the front of a text. -/
abbrev Reader (α : Type) := Text → Option (α × Text)

/-- A value, by what reads the items of an array and the fields of an object. -/
def readValue (items : Reader (List (Value N))) (fields : Reader (List (Text × Value N))) :
    Reader (Value N) := fun t =>
  (nextUnit t).bind fun (u, rest) =>
    if u = 34 then (parseUnits rest).map fun (s, rest) => (.str s, rest)
    else if u = 91 then
      (nextUnit rest).bind fun (v, empty) =>
        if v = 93 then some (.arr [], empty)
        else (items rest).map fun (items, rest) => (.arr items, rest)
    else if u = 123 then
      (nextUnit rest).bind fun (v, empty) =>
        if v = 125 then some (.obj [], empty)
        else (fields rest).map fun (fields, rest) => (.obj (ownProperties fields), rest)
    else if u = 110 then (expect (lit "ull") rest).map fun rest => (.null, rest)
    else if u = 116 then (expect (lit "rue") rest).map fun rest => (.bool true, rest)
    else if u = 102 then (expect (lit "alse") rest).map fun rest => (.bool false, rest)
    else (scanNumber (u :: rest)).map fun (token, rest) => (.num (JsonNumber.ofToken token), rest)

/-- The entries of an array or an object, up to the unit that closes it. -/
def readEntries {α : Type} (entry : Reader α) (close : ℕ) (entries : Reader (List α)) :
    Reader (List α) := fun t =>
  (entry t).bind fun (a, rest) =>
    (nextUnit rest).bind fun (u, rest) =>
      if u = 44 then (entries rest).map fun (as, rest) => (a :: as, rest)
      else if u = close then some ([a], rest)
      else none

/-- A key, and the colon after it. -/
def readKey : Reader Text := fun t =>
  (nextUnit t).bind fun (u, rest) =>
    if u = 34 then
      (parseUnits rest).bind fun (key, rest) =>
        (nextUnit rest).bind fun (u, rest) => if u = 58 then some (key, rest) else none
    else none

/-- A field of an object. -/
def readField (value : Reader (Value N)) : Reader (Text × Value N) := fun t =>
  (readKey t).bind fun (key, rest) => (value rest).map fun (v, rest) => ((key, v), rest)

mutual

/-- A value at the front of a text. -/
def parseValue : ℕ → Reader (Value N)
  | 0 => fun _ => none
  | fuel + 1 => readValue (parseItems fuel) (parseFields fuel)

def parseItems : ℕ → Reader (List (Value N))
  | 0 => fun _ => none
  | fuel + 1 => readEntries (parseValue fuel) 93 (parseItems fuel)

def parseFields : ℕ → Reader (List (Text × Value N))
  | 0 => fun _ => none
  | fuel + 1 => readEntries (readField (parseValue fuel)) 125 (parseFields fuel)

end

/-- `JSON.parse`; `none` where it throws. -/
def parse (t : Text) : Option (Value N) :=
  (parseValue (2 * t.length + 1) t).bind fun (v, rest) =>
    if skipSpace rest = [] then some v else none

end JsonText
