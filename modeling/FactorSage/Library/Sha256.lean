import Mathlib.Data.List.Basic
import Mathlib.Data.Nat.Bitwise
import Mathlib.Tactic.Ring

/-!
# SHA-256

The secure hash standard's SHA-256 of a message given bit by bit: the functions and constants
(§ 4.1.2, § 4.2.2), padding and parsing (§ 5.1.1, § 5.2.1, § 5.3.3) and the hash computation
(§ 6.2.2). The standard's messages are shorter than `2⁶⁴` bits; the length block holds the length
modulo `2⁶⁴`.

The constants are the first 32 bits of the fractional parts of the cube and square roots of the first
primes (`roundConstants_cubeRoots`, `initialHash_squareRoots`).
-/

namespace Sha256

abbrev Word := BitVec 32

/-! ### Functions and constants -/

def ch (x y z : Word) : Word := (x &&& y) ^^^ (~~~x &&& z)

def maj (x y z : Word) : Word := (x &&& y) ^^^ (x &&& z) ^^^ (y &&& z)

def bigSigma0 (x : Word) : Word := x.rotateRight 2 ^^^ x.rotateRight 13 ^^^ x.rotateRight 22

def bigSigma1 (x : Word) : Word := x.rotateRight 6 ^^^ x.rotateRight 11 ^^^ x.rotateRight 25

def smallSigma0 (x : Word) : Word := x.rotateRight 7 ^^^ x.rotateRight 18 ^^^ x >>> 3

def smallSigma1 (x : Word) : Word := x.rotateRight 17 ^^^ x.rotateRight 19 ^^^ x >>> 10

def roundConstants : List Word :=
  [0x428a2f98, 0x71374491, 0xb5c0fbcf, 0xe9b5dba5, 0x3956c25b, 0x59f111f1, 0x923f82a4, 0xab1c5ed5,
    0xd807aa98, 0x12835b01, 0x243185be, 0x550c7dc3, 0x72be5d74, 0x80deb1fe, 0x9bdc06a7, 0xc19bf174,
    0xe49b69c1, 0xefbe4786, 0x0fc19dc6, 0x240ca1cc, 0x2de92c6f, 0x4a7484aa, 0x5cb0a9dc, 0x76f988da,
    0x983e5152, 0xa831c66d, 0xb00327c8, 0xbf597fc7, 0xc6e00bf3, 0xd5a79147, 0x06ca6351, 0x14292967,
    0x27b70a85, 0x2e1b2138, 0x4d2c6dfc, 0x53380d13, 0x650a7354, 0x766a0abb, 0x81c2c92e, 0x92722c85,
    0xa2bfe8a1, 0xa81a664b, 0xc24b8b70, 0xc76c51a3, 0xd192e819, 0xd6990624, 0xf40e3585, 0x106aa070,
    0x19a4c116, 0x1e376c08, 0x2748774c, 0x34b0bcb5, 0x391c0cb3, 0x4ed8aa4a, 0x5b9cca4f, 0x682e6ff3,
    0x748f82ee, 0x78a5636f, 0x84c87814, 0x8cc70208, 0x90befffa, 0xa4506ceb, 0xbef9a3f7, 0xc67178f2]

/-- `Kₜ`. -/
def k (t : ℕ) : Word := roundConstants.getD t 0

/-- Eight words: the hash value `H₀ … H₇`, and the working variables `a … h`. -/
@[ext] structure Words where
  a : Word
  b : Word
  c : Word
  d : Word
  e : Word
  f : Word
  g : Word
  h : Word
  deriving DecidableEq

def Words.toList (v : Words) : List Word := [v.a, v.b, v.c, v.d, v.e, v.f, v.g, v.h]

def initialHash : Words where
  a := 0x6a09e667
  b := 0xbb67ae85
  c := 0x3c6ef372
  d := 0xa54ff53a
  e := 0x510e527f
  f := 0x9b05688c
  g := 0x1f83d9ab
  h := 0x5be0cd19

/-! ### Padding and parsing -/

/-- How many zero bits follow the one. -/
def zeroBits (l : ℕ) : ℕ := (448 + 512 - (l + 1) % 512) % 512

/-- The 64-bit block that holds a length, most significant bit first. -/
def lengthBlock (l : ℕ) : List Bool := (List.range 64).map fun i => l.testBit (63 - i)

/-- The padded message: a one, zeros, and the length block. -/
def pad (message : List Bool) : List Bool :=
  message ++ true :: (List.replicate (zeroBits message.length) false ++ lengthBlock message.length)

/-- The number bits denote, most significant bit first. -/
def bitsValue (bits : List Bool) : ℕ := bits.foldl (fun n bit => 2 * n + bit.toNat) 0

/-- Word `t` of block `i`. -/
def messageWord (padded : List Bool) (i t : ℕ) : Word :=
  BitVec.ofNat 32 (bitsValue ((padded.drop (512 * i + 32 * t)).take 32))

/-! ### Hash computation -/

/-- `Wₜ`. -/
def schedule (m : ℕ → Word) (t : ℕ) : Word :=
  if t < 16 then m t
  else
    smallSigma1 (schedule m (t - 2)) + schedule m (t - 7) + smallSigma0 (schedule m (t - 15))
      + schedule m (t - 16)
termination_by t

/-- One round, with its `T₁` and `T₂`. -/
def round (w : ℕ → Word) (v : Words) (t : ℕ) : Words :=
  let t₁ := v.h + bigSigma1 v.e + ch v.e v.f v.g + k t + w t
  let t₂ := bigSigma0 v.a + maj v.a v.b v.c
  { a := t₁ + t₂, b := v.a, c := v.b, d := v.c, e := v.d + t₁, f := v.e, g := v.f, h := v.g }

/-- The next hash value, from one block. -/
def compress (m : ℕ → Word) (hash : Words) : Words :=
  let v := (List.range 64).foldl (round (schedule m)) hash
  { a := v.a + hash.a
    b := v.b + hash.b
    c := v.c + hash.c
    d := v.d + hash.d
    e := v.e + hash.e
    f := v.f + hash.f
    g := v.g + hash.g
    h := v.h + hash.h }

/-- The hash of a message. -/
def digest (message : List Bool) : Words :=
  (List.range ((pad message).length / 512)).foldl
    (fun hash i => compress (messageWord (pad message) i) hash) initialHash

/-- A hexadecimal digit, in lower case. -/
def hexDigit (n : ℕ) : Char := "0123456789abcdef".toList.getD n '0'

/-- The eight hexadecimal digits of a word. -/
def hexWord (w : Word) : List Char := (List.range 8).map fun i => hexDigit (w.toNat / 16 ^ (7 - i) % 16)

/-- A hash value in hexadecimal. -/
def Words.hex (hash : Words) : String := String.ofList (hash.toList.flatMap hexWord)

/-! ### Facts of the standard -/

/-- The first 32 bits of the fractional part of the `r`-th root of `p`, a root below eight. -/
def IsRootFraction (r p : ℕ) (w : Word) : Prop :=
  ∃ n < 8, (n * 2 ^ 32 + w.toNat) ^ r ≤ p * 2 ^ (32 * r)
    ∧ p * 2 ^ (32 * r) < (n * 2 ^ 32 + w.toNat + 1) ^ r

instance (r p : ℕ) (w : Word) : Decidable (IsRootFraction r p w) :=
  inferInstanceAs (Decidable (∃ n < 8, _))

/-- The first 64 primes. -/
def firstPrimes : List ℕ :=
  [2, 3, 5, 7, 11, 13, 17, 19, 23, 29, 31, 37, 41, 43, 47, 53, 59, 61, 67, 71, 73, 79, 83, 89, 97,
    101, 103, 107, 109, 113, 127, 131, 137, 139, 149, 151, 157, 163, 167, 173, 179, 181, 191, 193,
    197, 199, 211, 223, 227, 229, 233, 239, 241, 251, 257, 263, 269, 271, 277, 281, 283, 293, 307,
    311]

theorem roundConstants_cubeRoots : List.Forall₂ (IsRootFraction 3) firstPrimes roundConstants := by
  decide +kernel

theorem initialHash_squareRoots :
    List.Forall₂ (IsRootFraction 2) (firstPrimes.take 8) initialHash.toList := by
  decide +kernel

/-! ### Messages of bytes

A message of bytes is padded byte by byte: the one and seven zeros are a byte, the other zeros and
the length block are bytes as well. -/

/-- The bits of a byte, most significant bit first. -/
def byteBits (b : ℕ) : List Bool := (List.range 8).map fun i => b.testBit (7 - i)

/-- The message a list of bytes is. -/
def ofBytes (bytes : List ℕ) : List Bool := bytes.flatMap byteBits

/-- How many zero bytes follow the one. -/
def zeroBytes (n : ℕ) : ℕ := (119 - n % 64) % 64

/-- The bytes of a length block. -/
def lengthBytes (l : ℕ) : List ℕ := (List.range 8).map fun j => l / 2 ^ (8 * (7 - j)) % 256

def padBytes (bytes : List ℕ) : List ℕ :=
  bytes ++ 0x80 :: (List.replicate (zeroBytes bytes.length) 0 ++ lengthBytes (8 * bytes.length))

theorem length_ofBytes (bytes : List ℕ) : (ofBytes bytes).length = 8 * bytes.length := by
  induction bytes with
  | nil => rfl
  | cons b rest ih =>
    unfold ofBytes at ih ⊢
    rw [List.flatMap_cons, List.length_append, ih, List.length_cons]
    unfold byteBits
    rw [List.length_map, List.length_range]
    omega

theorem ofBytes_append (bytes more : List ℕ) : ofBytes (bytes ++ more) = ofBytes bytes ++ ofBytes more :=
  List.flatMap_append

theorem ofBytes_replicate (n : ℕ) : ofBytes (List.replicate n 0) = List.replicate (8 * n) false := by
  induction n with
  | zero => rfl
  | succ n ih =>
    have hzero : byteBits 0 = List.replicate 8 false := by decide
    rw [List.replicate_succ]
    unfold ofBytes at ih ⊢
    rw [List.flatMap_cons, ih, hzero, ← List.replicate_add]
    congr 1
    omega

/-- A range of eight times as many indices, eight by eight. -/
theorem map_range_mul {α : Type} (f : ℕ → α) (n : ℕ) :
    (List.range (8 * n)).map f
      = (List.range n).flatMap fun j => (List.range 8).map fun i => f (8 * j + i) := by
  induction n with
  | zero => rfl
  | succ n ih =>
    rw [Nat.mul_succ, List.range_add, List.map_append, ih, @List.range_succ n, List.flatMap_append,
      List.flatMap_singleton, List.map_map]
    rfl

theorem ofBytes_lengthBytes (l : ℕ) : ofBytes (lengthBytes l) = lengthBlock l := by
  have hrange := map_range_mul (fun i => l.testBit (63 - i)) 8
  unfold lengthBlock
  rw [hrange]
  unfold ofBytes lengthBytes
  rw [List.flatMap_map]
  refine List.flatMap_congr fun j hj => ?_
  have hj : j < 8 := List.mem_range.mp hj
  unfold byteBits
  refine List.map_congr_left fun i hi => ?_
  have hi : i < 8 := List.mem_range.mp hi
  have hindex : 7 - i + 8 * (7 - j) = 63 - (8 * j + i) := by omega
  rw [show 256 = 2 ^ 8 from rfl, Nat.testBit_mod_two_pow, Nat.testBit_div_two_pow, hindex,
    decide_eq_true (by omega : 7 - i < 8), Bool.true_and]

/-- **Padding bytes is padding their bits.** -/
theorem pad_ofBytes (bytes : List ℕ) : pad (ofBytes bytes) = ofBytes (padBytes bytes) := by
  have hone : byteBits 0x80 = true :: List.replicate 7 false := by decide
  have hzeros : zeroBits (8 * bytes.length) = 7 + 8 * zeroBytes bytes.length := by
    unfold zeroBits zeroBytes
    omega
  have hcons : ∀ more, ofBytes (0x80 :: more) = byteBits 0x80 ++ ofBytes more := fun more => rfl
  unfold pad padBytes
  rw [length_ofBytes, ofBytes_append, hcons, ofBytes_append, ofBytes_replicate, ofBytes_lengthBytes,
    hone, hzeros, List.replicate_add, List.cons_append, List.append_assoc]

theorem length_padBytes (bytes : List ℕ) : (padBytes bytes).length % 64 = 0 := by
  unfold padBytes lengthBytes zeroBytes
  rw [List.length_append, List.length_cons, List.length_append, List.length_replicate,
    List.length_map, List.length_range]
  omega

theorem drop_ofBytes (bytes : List ℕ) (n : ℕ) :
    (ofBytes bytes).drop (8 * n) = ofBytes (bytes.drop n) := by
  induction n generalizing bytes with
  | zero => rfl
  | succ n ih =>
    cases bytes with
    | nil => simp [ofBytes]
    | cons b rest =>
      have hlength : (byteBits b).length = 8 := by simp [byteBits]
      have hcons : ofBytes (b :: rest) = byteBits b ++ ofBytes rest := rfl
      rw [hcons, Nat.mul_succ, Nat.add_comm, ← List.drop_drop, List.drop_left' hlength, ih]
      rfl

theorem take_ofBytes (bytes : List ℕ) (n : ℕ) :
    (ofBytes bytes).take (8 * n) = ofBytes (bytes.take n) := by
  induction n generalizing bytes with
  | zero => rfl
  | succ n ih =>
    cases bytes with
    | nil => simp [ofBytes]
    | cons b rest =>
      have hlength : (byteBits b).length = 8 := by simp [byteBits]
      have hcons : ∀ more, ofBytes (b :: more) = byteBits b ++ ofBytes more := fun more => rfl
      rw [hcons, Nat.mul_succ, List.take_succ_cons, hcons, ← ih, List.take_append, hlength,
        List.take_of_length_le (by omega)]
      congr 2

/-- Bits read behind a number shift it. -/
theorem foldl_bits (b n : ℕ) (start : ℕ) :
    ((List.range n).map fun i => b.testBit (n - 1 - i)).foldl (fun n bit => 2 * n + bit.toNat) start
      = 2 ^ n * start + b % 2 ^ n := by
  induction n generalizing start with
  | zero => simp [Nat.mod_one]
  | succ n ih =>
    have hrest : ∀ i, n + 1 - 1 - (i + 1) = n - 1 - i := fun i => by omega
    rw [List.range_succ_eq_map, List.map_cons, List.map_map, List.foldl_cons]
    simp only [Function.comp_def, Nat.succ_eq_add_one, hrest]
    rw [ih, Nat.pow_succ, Nat.mod_mul, Nat.add_sub_cancel, Nat.sub_zero, Nat.toNat_testBit]
    ring

/-- The number four bytes denote. -/
theorem bitsValue_four {b₀ b₁ b₂ b₃ : ℕ} (h₀ : b₀ < 256) (h₁ : b₁ < 256) (h₂ : b₂ < 256)
    (h₃ : b₃ < 256) :
    bitsValue (ofBytes [b₀, b₁, b₂, b₃]) = ((b₀ * 256 + b₁) * 256 + b₂) * 256 + b₃ := by
  have hbyte : ∀ b < 256, ∀ start, (byteBits b).foldl (fun n bit => 2 * n + bit.toNat) start
      = start * 256 + b := by
    intro b hb start
    have hbits := foldl_bits b 8 start
    have hlt : b % 2 ^ 8 = b := Nat.mod_eq_of_lt hb
    rw [hlt, Nat.mul_comm] at hbits
    exact hbits
  unfold bitsValue ofBytes
  simp only [List.flatMap_cons, List.flatMap_nil, List.append_nil, List.foldl_append]
  rw [hbyte b₀ h₀, hbyte b₁ h₁, hbyte b₂ h₂, hbyte b₃ h₃, Nat.zero_mul, Nat.zero_add]

end Sha256
