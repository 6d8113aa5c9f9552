import Mathlib.Data.Int.Basic
import Mathlib.Data.Nat.Bitwise

/-!
# Bitwise operators on numbers

In a language whose only integers are numbers, a bitwise operator takes its operands modulo `2³²`,
works on 32-bit words, and gives a signed integer back, or an unsigned one for `>>>`. A typed array of
32-bit words takes a number modulo `2³²` as well.

`toWord` is that reduction. It commutes with every operator and with exact sums (`toWord_bitOr`,
`toWord_add`), so a computation on numbers is the computation on words, wherever it is reduced.
-/

namespace WordOps

abbrev Word := BitVec 32

/-- The word of a number: its value modulo `2³²`. -/
def toWord (x : ℤ) : Word := BitVec.ofInt 32 x

/-- `x & y`. -/
def bitAnd (x y : ℤ) : ℤ := (toWord x &&& toWord y).toInt

/-- `x | y`. -/
def bitOr (x y : ℤ) : ℤ := (toWord x ||| toWord y).toInt

/-- `x ^ y`. -/
def bitXor (x y : ℤ) : ℤ := (toWord x ^^^ toWord y).toInt

/-- `~x`. -/
def bitNot (x : ℤ) : ℤ := (~~~toWord x).toInt

/-- How far a shift goes: modulo `32`. -/
def shiftCount (n : ℤ) : ℕ := (toWord n).toNat % 32

/-- `x << n`. -/
def shiftLeft (x n : ℤ) : ℤ := (toWord x <<< shiftCount n).toInt

/-- `x >> n`. -/
def shiftRight (x n : ℤ) : ℤ := ((toWord x).sshiftRight (shiftCount n)).toInt

/-- `x >>> n`. -/
def shiftRightUnsigned (x n : ℤ) : ℤ := (toWord x >>> shiftCount n).toNat

/-! ### Words of results -/

@[simp] theorem toWord_toInt (w : Word) : toWord w.toInt = w := BitVec.ofInt_toInt

@[simp] theorem toWord_toNat (w : Word) : toWord (w.toNat : ℤ) = w := by
  unfold toWord
  rw [BitVec.ofInt_natCast, BitVec.ofNat_toNat, BitVec.setWidth_eq]

@[simp] theorem toWord_natCast (n : ℕ) : toWord (n : ℤ) = BitVec.ofNat 32 n :=
  BitVec.ofInt_natCast 32 n

@[simp] theorem toWord_add (x y : ℤ) : toWord (x + y) = toWord x + toWord y := BitVec.ofInt_add x y

@[simp] theorem toWord_bitAnd (x y : ℤ) : toWord (bitAnd x y) = toWord x &&& toWord y :=
  toWord_toInt _

@[simp] theorem toWord_bitOr (x y : ℤ) : toWord (bitOr x y) = toWord x ||| toWord y :=
  toWord_toInt _

@[simp] theorem toWord_bitXor (x y : ℤ) : toWord (bitXor x y) = toWord x ^^^ toWord y :=
  toWord_toInt _

@[simp] theorem toWord_bitNot (x : ℤ) : toWord (bitNot x) = ~~~toWord x := toWord_toInt _

@[simp] theorem toWord_shiftLeft (x n : ℤ) : toWord (shiftLeft x n) = toWord x <<< shiftCount n :=
  toWord_toInt _

@[simp] theorem toWord_shiftRightUnsigned (x n : ℤ) :
    toWord (shiftRightUnsigned x n) = toWord x >>> shiftCount n := toWord_toNat _

theorem shiftCount_of_lt {n : ℕ} (h : n < 32) : shiftCount n = n := by
  unfold shiftCount
  rw [toWord_natCast, BitVec.toNat_ofNat]
  omega

/-- `x >>> 0` is the value modulo `2³²`. -/
theorem shiftRightUnsigned_zero (x : ℤ) : shiftRightUnsigned x 0 = (toWord x).toNat := by
  have hcount : shiftCount 0 = 0 := shiftCount_of_lt (n := 0) (by decide)
  unfold shiftRightUnsigned
  rw [hcount, BitVec.ushiftRight_zero]

/-! ### Small naturals

On naturals below `2³¹` the operators are those of the naturals. -/

theorem toNat_toWord {n : ℕ} (h : n < 2 ^ 32) : (toWord (n : ℤ)).toNat = n := by
  rw [toWord_natCast, BitVec.toNat_ofNat, Nat.mod_eq_of_lt h]

/-- A word below `2³¹` reads as itself. -/
theorem toInt_of_lt {w : Word} (h : w.toNat < 2 ^ 31) : w.toInt = (w.toNat : ℤ) := by
  rw [BitVec.toInt_eq_toNat_of_lt]
  omega

theorem bitAnd_natCast {m n : ℕ} (hm : m < 2 ^ 31) (hn : n < 2 ^ 31) :
    bitAnd m n = ((m &&& n : ℕ) : ℤ) := by
  have hand : (toWord (m : ℤ) &&& toWord (n : ℤ)).toNat = m &&& n := by
    rw [BitVec.toNat_and, toNat_toWord (by omega), toNat_toWord (by omega)]
  unfold bitAnd
  rw [toInt_of_lt, hand]
  rw [hand]
  exact lt_of_le_of_lt Nat.and_le_left hm

theorem bitOr_natCast {m n : ℕ} (hm : m < 2 ^ 31) (hn : n < 2 ^ 31) :
    bitOr m n = ((m ||| n : ℕ) : ℤ) := by
  have hor : (toWord (m : ℤ) ||| toWord (n : ℤ)).toNat = m ||| n := by
    rw [BitVec.toNat_or, toNat_toWord (by omega), toNat_toWord (by omega)]
  unfold bitOr
  rw [toInt_of_lt, hor]
  rw [hor]
  exact Nat.or_lt_two_pow hm hn

theorem shiftRight_natCast {m k : ℕ} (hm : m < 2 ^ 31) (hk : k < 32) :
    shiftRight m k = ((m / 2 ^ k : ℕ) : ℤ) := by
  have hword : (toWord (m : ℤ)).toNat = m := toNat_toWord (by omega)
  have hmsb : (toWord (m : ℤ)).msb = false := by
    rw [BitVec.msb_eq_false_iff_two_mul_lt, hword]
    omega
  have hshift : (toWord (m : ℤ) >>> k).toNat = m / 2 ^ k := by
    rw [BitVec.toNat_ushiftRight, hword, Nat.shiftRight_eq_div_pow]
  unfold shiftRight
  rw [shiftCount_of_lt hk, BitVec.sshiftRight_eq_of_msb_false hmsb, toInt_of_lt, hshift]
  rw [hshift]
  exact lt_of_le_of_lt (Nat.div_le_self m _) hm

/-- Bits set above a smaller number are added to it. -/
theorem bitOr_add (high k : ℕ) {low : ℕ} (hlow : low < 2 ^ k) (hsum : high * 2 ^ k + low < 2 ^ 31) :
    bitOr (high * 2 ^ k : ℕ) low = ((high * 2 ^ k + low : ℕ) : ℤ) := by
  rw [bitOr_natCast (by omega) (by omega), ← Nat.shiftLeft_eq,
    ← Nat.shiftLeft_add_eq_or_of_lt hlow]

/-- A mask of the low bits is a remainder. -/
theorem bitAnd_mask {m k : ℕ} (hm : m < 2 ^ 31) (hk : k < 31) :
    bitAnd m ((2 ^ k - 1 : ℕ)) = ((m % 2 ^ k : ℕ) : ℤ) := by
  have hpow : 2 ^ k < 2 ^ 31 := Nat.pow_lt_pow_right (by decide) hk
  rw [bitAnd_natCast hm (by omega), Nat.and_two_pow_sub_one_eq_mod]

end WordOps
