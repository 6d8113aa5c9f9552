import FactorSage.Library.CodePoints
import FactorSage.Library.Sha256
import FactorSage.Library.WordOps
import Mathlib.Data.Nat.Digits.Lemmas

/-!
# The digest of a fingerprint

`sha256Hex` computes SHA-256 on numbers, whose bitwise operators give signed words and whose sums
grow past 32 bits before they are stored or shifted by `>>> 0`. Numbers are integers here: every one
of the computation is exact.
-/

namespace FactorSage.Digest

open WordOps

/-- An array of 32-bit words: a store takes a number modulo `2³²`, and none past the end is kept. -/
abbrev Uint32Array := List Word

/-- The number at an index inside the array. -/
def wordAt (words : Uint32Array) (index : ℕ) : ℤ := (words.getD index 0).toNat

def store (words : Uint32Array) (index : ℕ) (value : ℤ) : Uint32Array := words.set index (toWord value)

def ROUND_CONSTANTS : Uint32Array :=
  [0x428a2f98, 0x71374491, 0xb5c0fbcf, 0xe9b5dba5, 0x3956c25b, 0x59f111f1,
    0x923f82a4, 0xab1c5ed5, 0xd807aa98, 0x12835b01, 0x243185be, 0x550c7dc3,
    0x72be5d74, 0x80deb1fe, 0x9bdc06a7, 0xc19bf174, 0xe49b69c1, 0xefbe4786,
    0x0fc19dc6, 0x240ca1cc, 0x2de92c6f, 0x4a7484aa, 0x5cb0a9dc, 0x76f988da,
    0x983e5152, 0xa831c66d, 0xb00327c8, 0xbf597fc7, 0xc6e00bf3, 0xd5a79147,
    0x06ca6351, 0x14292967, 0x27b70a85, 0x2e1b2138, 0x4d2c6dfc, 0x53380d13,
    0x650a7354, 0x766a0abb, 0x81c2c92e, 0x92722c85, 0xa2bfe8a1, 0xa81a664b,
    0xc24b8b70, 0xc76c51a3, 0xd192e819, 0xd6990624, 0xf40e3585, 0x106aa070,
    0x19a4c116, 0x1e376c08, 0x2748774c, 0x34b0bcb5, 0x391c0cb3, 0x4ed8aa4a,
    0x5b9cca4f, 0x682e6ff3, 0x748f82ee, 0x78a5636f, 0x84c87814, 0x8cc70208,
    0x90befffa, 0xa4506ceb, 0xbef9a3f7, 0xc67178f2]

/-! ### The bytes of a string -/

/-- The bytes of one code point. -/
def pointBytes (point : ℤ) : List ℤ :=
  if point < 0x80 then [point]
  else if point < 0x800 then
    [bitOr 0xc0 (shiftRight point 6), bitOr 0x80 (bitAnd point 0x3f)]
  else if point < 0x10000 then
    [bitOr 0xe0 (shiftRight point 12), bitOr 0x80 (bitAnd (shiftRight point 6) 0x3f),
      bitOr 0x80 (bitAnd point 0x3f)]
  else
    [bitOr 0xf0 (shiftRight point 18), bitOr 0x80 (bitAnd (shiftRight point 12) 0x3f),
      bitOr 0x80 (bitAnd (shiftRight point 6) 0x3f), bitOr 0x80 (bitAnd point 0x3f)]

/-- The UTF-8 encoding of a string, half of a surrogate pair encoded like any other point. -/
def utf8Bytes (text : List UInt16) : List ℤ :=
  (CodePoints.codePoints text).flatMap fun (point : ℕ) => pointBytes point

/-! ### Padding -/

/-- `while (bytes.length % 64 !== 56) bytes.push(0)`. -/
def pushZeros (bytes : List ℤ) : List ℤ :=
  if bytes.length % 64 ≠ 56 then pushZeros (bytes ++ [0]) else bytes
termination_by (120 - bytes.length % 64) % 64
decreasing_by
  rw [List.length_append, List.length_singleton]
  omega

/-- A word's bytes, the most significant first. -/
def wordBytes (word : ℤ) : List ℤ :=
  [bitAnd (shiftRightUnsigned word 24) 0xff, bitAnd (shiftRightUnsigned word 16) 0xff,
    bitAnd (shiftRightUnsigned word 8) 0xff, bitAnd word 0xff]

/-- The bytes with their padding: a one, zeros and the length in bits in two words. -/
def paddedBytes (bytes : List ℤ) : List ℤ :=
  let bitLength : ℤ := bytes.length * 8
  let high := bitLength / 0x100000000
  let low := shiftRightUnsigned bitLength 0
  pushZeros (bytes ++ [0x80]) ++ (wordBytes high ++ wordBytes low)

/-! ### Blocks -/

def rotateRight (value bits : ℤ) : ℤ :=
  bitOr (shiftRightUnsigned value bits) (shiftLeft value (32 - bits))

/-- Four bytes as one unsigned word. -/
def loadWord (bytes : List ℤ) (start : ℕ) : ℤ :=
  shiftRightUnsigned
    (bitOr
      (bitOr
        (bitOr (shiftLeft (bytes.getD start 0) 24) (shiftLeft (bytes.getD (start + 1) 0) 16))
        (shiftLeft (bytes.getD (start + 2) 0) 8))
      (bytes.getD (start + 3) 0)) 0

/-- The first sixteen words of the schedule. -/
def loadBlock (bytes : List ℤ) (offset : ℕ) (schedule : Uint32Array) : Uint32Array :=
  (List.range 16).foldl
    (fun schedule index => store schedule index (loadWord bytes (offset + index * 4))) schedule

/-- One further word of the schedule. -/
def extendStep (schedule : Uint32Array) (index : ℕ) : Uint32Array :=
  let previous := wordAt schedule (index - 15)
  let recent := wordAt schedule (index - 2)
  let small0 := bitXor (bitXor (rotateRight previous 7) (rotateRight previous 18))
    (shiftRightUnsigned previous 3)
  let small1 := bitXor (bitXor (rotateRight recent 17) (rotateRight recent 19))
    (shiftRightUnsigned recent 10)
  store schedule index (wordAt schedule (index - 16) + small0 + wordAt schedule (index - 7) + small1)

/-- The words from the seventeenth on. -/
def extend (schedule : Uint32Array) : Uint32Array := (List.range' 16 48).foldl extendStep schedule

/-- The working variables. -/
structure Variables where
  a : ℤ
  b : ℤ
  c : ℤ
  d : ℤ
  e : ℤ
  f : ℤ
  g : ℤ
  h : ℤ

def roundStep (schedule : Uint32Array) (v : Variables) (index : ℕ) : Variables :=
  let big1 := bitXor (bitXor (rotateRight v.e 6) (rotateRight v.e 11)) (rotateRight v.e 25)
  let choice := bitXor (bitAnd v.e v.f) (bitAnd (bitNot v.e) v.g)
  let first := shiftRightUnsigned
    (v.h + big1 + choice + wordAt ROUND_CONSTANTS index + wordAt schedule index) 0
  let big0 := bitXor (bitXor (rotateRight v.a 2) (rotateRight v.a 13)) (rotateRight v.a 22)
  let majority := bitXor (bitXor (bitAnd v.a v.b) (bitAnd v.a v.c)) (bitAnd v.b v.c)
  let second := shiftRightUnsigned (big0 + majority) 0
  { a := shiftRightUnsigned (first + second) 0
    b := v.a
    c := v.b
    d := v.c
    e := shiftRightUnsigned (v.d + first) 0
    f := v.e
    g := v.f
    h := v.g }

def initialState : Uint32Array :=
  [0x6a09e667, 0xbb67ae85, 0x3c6ef372, 0xa54ff53a, 0x510e527f, 0x9b05688c, 0x1f83d9ab, 0x5be0cd19]

/-- The variables at the start of a block. -/
def variablesOf (state : Uint32Array) : Variables where
  a := wordAt state 0
  b := wordAt state 1
  c := wordAt state 2
  d := wordAt state 3
  e := wordAt state 4
  f := wordAt state 5
  g := wordAt state 6
  h := wordAt state 7

/-- The variables added to the state, word by word. -/
def addVariables (state : Uint32Array) (v : Variables) : Uint32Array :=
  let state := store state 0 (wordAt state 0 + v.a)
  let state := store state 1 (wordAt state 1 + v.b)
  let state := store state 2 (wordAt state 2 + v.c)
  let state := store state 3 (wordAt state 3 + v.d)
  let state := store state 4 (wordAt state 4 + v.e)
  let state := store state 5 (wordAt state 5 + v.f)
  let state := store state 6 (wordAt state 6 + v.g)
  store state 7 (wordAt state 7 + v.h)

/-- One block, read into a schedule and mixed into the state. -/
def blockStep (bytes : List ℤ) (offset : ℕ) (state schedule : Uint32Array) :
    Uint32Array × Uint32Array :=
  let schedule := extend (loadBlock bytes offset schedule)
  (addVariables state ((List.range 64).foldl (roundStep schedule) (variablesOf state)), schedule)

/-- `for (offset = 0; offset < bytes.length; offset += 64)`, from an offset on. -/
def blocks (bytes : List ℤ) (offset : ℕ) (state schedule : Uint32Array) : Uint32Array :=
  if offset < bytes.length then
    blocks bytes (offset + 64) (blockStep bytes offset state schedule).1
      (blockStep bytes offset state schedule).2
  else state
termination_by bytes.length - offset

/-! ### The digest -/

/-- `toString(16)` of a natural number. -/
def hexText (n : ℕ) : List Char :=
  if n = 0 then ['0'] else ((Nat.digits 16 n).map Sha256.hexDigit).reverse

/-- SHA-256 of a string, in lower-case hexadecimal. -/
def sha256Hex (text : List UInt16) : String :=
  let bytes := paddedBytes (utf8Bytes text)
  let state := blocks bytes 0 initialState (List.replicate 64 0)
  String.ofList (state.flatMap fun word => (hexText word.toNat).leftpad 8 '0')

end FactorSage.Digest
