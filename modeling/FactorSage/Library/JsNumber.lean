import Mathlib.Algebra.Order.Floor.Semiring
import Mathlib.Data.Rat.Floor

/-!
# Double-precision numbers

`JsNumber F` lists the operations a program performs on IEEE doubles, with no equation between
them: what is proved over it holds of the rounding arithmetic itself. `toDecimal` reads a finite
number as the exact decimal its shortest digits denote, and `ofDecimal` is the number nearest to a
decimal, which is also what a literal of the language denotes.

`LawfulJsNumber` names the facts about the order and the digits that a ledger over doubles relies on.
`ExactNumber` is an instance that computes: it agrees with doubles wherever no rounding takes place.
-/

/-- The operations of double-precision arithmetic. The comparisons are those of the language: each
is false when an operand is not a number. -/
class JsNumber (F : Type) extends Add F, Sub F, Mul F, Div F where
  /-- The number nearest to a decimal. -/
  ofDecimal : ℚ → F
  /-- The decimal the shortest digits of a finite number denote. -/
  toDecimal : F → ℚ
  nan : F
  negativeInfinity : F
  isNaN : F → Bool
  isFinite : F → Bool
  /-- `a < b`. -/
  lt : F → F → Bool
  /-- `a <= b`. -/
  le : F → F → Bool
  /-- `a === b`. -/
  eq : F → F → Bool
  neg : F → F
  abs : F → F
  max : F → F → F
  pow : F → F → F
  /-- `Math.round` of a finite number. -/
  round : F → ℤ

namespace JsNumber

variable {F : Type} [JsNumber F]

/-- An integer literal. -/
def ofInt (n : ℤ) : F := ofDecimal n

end JsNumber

/-- No number is below itself, a finite number is at most zero exactly when zero is not below it, and
a positive number has positive digits. -/
class LawfulJsNumber (F : Type) [JsNumber F] : Prop where
  lt_irrefl : ∀ x : F, JsNumber.lt x x = false
  le_zero : ∀ x : F, JsNumber.isFinite x = true →
    JsNumber.le x (JsNumber.ofInt 0) = !JsNumber.lt (JsNumber.ofInt 0) x
  toDecimal_pos : ∀ x : F, JsNumber.isFinite x = true → JsNumber.lt (JsNumber.ofInt 0) x = true →
    0 < JsNumber.toDecimal x

/-! ### Numbers that do not round -/

/-- Exact rationals with the one non-finite value they cannot express and the least infinity. -/
inductive ExactNumber where
  | nan
  | negativeInfinity
  | finite (q : ℚ)
  deriving DecidableEq

namespace ExactNumber

/-- An operation on finite operands, `NaN` on any other. -/
def lift (f : ℚ → ℚ → ExactNumber) : ExactNumber → ExactNumber → ExactNumber
  | finite a, finite b => f a b
  | _, _ => nan

/-- The strict order: minus infinity is below every finite number. -/
def lt : ExactNumber → ExactNumber → Bool
  | finite a, finite b => a < b
  | negativeInfinity, finite _ => true
  | _, _ => false

def eq : ExactNumber → ExactNumber → Bool
  | nan, _ => false
  | a, b => a = b

def toRat : ExactNumber → ℚ
  | finite q => q
  | _ => 0

instance : JsNumber ExactNumber where
  add := lift fun a b => finite (a + b)
  sub := lift fun a b => finite (a - b)
  mul := lift fun a b => finite (a * b)
  div := lift fun a b => if b = 0 then nan else finite (a / b)
  ofDecimal := finite
  toDecimal := toRat
  nan := nan
  negativeInfinity := negativeInfinity
  isNaN a := a = nan
  isFinite
    | finite _ => true
    | _ => false
  lt := lt
  le a b := lt a b || eq a b
  eq := eq
  neg a := lift (fun x y => finite (x - y)) (finite 0) a
  abs a := lift (fun _ x => finite |x|) (finite 0) a
  max := lift fun a b => finite (max a b)
  -- the only power that stays rational at every exponent
  pow := lift fun a _ => if a = 1 then finite 1 else nan
  round a := ⌊a.toRat + 1 / 2⌋

instance : LawfulJsNumber ExactNumber where
  lt_irrefl x := by
    cases x <;> simp [JsNumber.lt, ExactNumber.lt]
  le_zero x hfin := by
    cases x with
    | nan => cases hfin
    | negativeInfinity => cases hfin
    | finite q =>
      change (decide (q < ((0 : ℤ) : ℚ)) || decide (finite q = finite ((0 : ℤ) : ℚ)))
        = !decide (((0 : ℤ) : ℚ) < q)
      rw [Int.cast_zero, ← Bool.decide_or, ← decide_not, decide_eq_decide, not_lt,
        le_iff_lt_or_eq, finite.injEq]
  toDecimal_pos x hfin hlt := by
    cases x with
    | nan => cases hfin
    | negativeInfinity => cases hfin
    | finite q =>
      change 0 < q
      simpa [JsNumber.lt, JsNumber.ofInt, JsNumber.ofDecimal, ExactNumber.lt] using hlt

end ExactNumber
