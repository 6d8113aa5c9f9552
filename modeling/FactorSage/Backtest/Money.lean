import FactorSage.Library.DecimalScale
import FactorSage.Library.JsNumber

/-!
# The decimal ledger

Numbers are doubles while they are being decided and exact decimals while they are being recorded;
this module is the boundary. A `MoneyValue` is an exact decimal. Sums and products of ledger values
fit the fifty digits the ledger carries and are exact; a quotient is rounded to fifty significant
digits (`decimalDiv`), and so is what is built from quotients.

What leaves the ledger is a `FixedString`: a decimal string at its column's scale.
-/

namespace FactorSage

open DecimalScale

/-- An exact decimal. -/
abbrev MoneyValue := ℚ

/-- `MONEY_SCALE`. -/
abbrev moneyScale : ℕ := 6

/-- `SHARES_SCALE`. -/
abbrev sharesScale : ℕ := 10

/-- `PRICE_SCALE`. -/
abbrev priceScale : ℕ := 8

/-- The significant digits a quotient keeps. -/
def moneyPrecision : ℕ := 50

/-- `left.plus(right)`, to fifty digits. -/
def decimalPlus (left right : MoneyValue) : MoneyValue :=
  roundSignificant moneyPrecision (left + right)

/-- `left.times(right)`, to fifty digits. -/
def decimalTimes (left right : MoneyValue) : MoneyValue :=
  roundSignificant moneyPrecision (left * right)

/-- `left.div(right)`, to fifty digits. -/
def decimalDiv (left right : MoneyValue) : MoneyValue :=
  roundSignificant moneyPrecision (left / right)

/-- Money, half away from zero. -/
def quantizeMoney (value : MoneyValue) : MoneyValue := halfAway moneyScale value

/-- Prices and per-share costs, half away from zero. -/
def quantizePrice (value : MoneyValue) : MoneyValue := halfAway priceScale value

/-- Share quantities, always downwards. -/
def quantizeSharesDown (value : MoneyValue) : MoneyValue := truncate sharesScale value

/-- `SHARES_ULP`: one unit in the last place of a share quantity. -/
def sharesUlp : MoneyValue := 1 / 10 ^ sharesScale

/-- A decimal string with exactly `scale` fractional digits, by the whole number its digits spell. -/
structure FixedString (scale : ℕ) where
  units : ℤ
  deriving DecidableEq

abbrev MoneyString := FixedString moneyScale

abbrev SharesString := FixedString sharesScale

abbrev PriceString := FixedString priceScale

/-- The decimal a canonical string reads as. -/
def FixedString.value {scale : ℕ} (s : FixedString scale) : MoneyValue := s.units / 10 ^ scale

/-- `toFixed` at a scale. -/
def toFixed (scale : ℕ) (value : MoneyValue) : FixedString scale := ⟨unitsHalfAway scale value⟩

def moneyString (value : MoneyValue) : MoneyString := toFixed moneyScale value

def sharesString (value : MoneyValue) : SharesString := toFixed sharesScale value

def priceString (value : MoneyValue) : PriceString := toFixed priceScale value

/-- A canonical value as a number, for ratios and display. -/
def toNumber {F : Type} [JsNumber F] (value : MoneyValue) : F := JsNumber.ofDecimal value

/-- A finite number's digits as a ledger value. -/
def decimal {F : Type} [JsNumber F] (value : F) : MoneyValue := JsNumber.toDecimal value

/-- `V1_FEE`: `quantizeMoney(V1_FEE_PER_TRADE)`, zero and routed through the ledger all the same. -/
def v1Fee : MoneyValue := quantizeMoney 0

/-- What a purchase takes out of cash. -/
def buyCashOutflow (amount fees : MoneyValue) : MoneyValue := quantizeMoney (amount + fees)

/-- What an exit puts back into cash. -/
def exitCashInflow (proceeds fees : MoneyValue) : MoneyValue := quantizeMoney (proceeds - fees)

/-- What may be spent on shares once the trade's own fee is reserved, never below zero. -/
def spendableAfterFees (cash fees : MoneyValue) : MoneyValue :=
  let spendable := cash - fees
  if 0 < spendable then quantizeMoney spendable else 0

/-! ### Canonical values -/

@[simp] theorem v1Fee_eq : v1Fee = 0 := halfAway_of_onScale (onScale_zero _)

theorem onScale_quantizeMoney (value : MoneyValue) : OnScale moneyScale (quantizeMoney value) :=
  onScale_halfAway _ _

variable {value : MoneyValue}

theorem quantizeMoney_of_onScale (h : OnScale moneyScale value) :
    quantizeMoney value = value :=
  halfAway_of_onScale h

theorem quantizeMoney_nonneg (h : 0 ≤ value) : 0 ≤ quantizeMoney value :=
  halfAway_nonneg h

/-- A canonical string reads back as the value it was written from. -/
theorem value_toFixed {scale : ℕ} (h : OnScale scale value) :
    (toFixed scale value).value = value :=
  halfAway_of_onScale h

theorem value_moneyString (h : OnScale moneyScale value) :
    (moneyString value).value = value :=
  value_toFixed h

theorem value_sharesString (h : OnScale sharesScale value) :
    (sharesString value).value = value :=
  value_toFixed h

theorem value_priceString (h : OnScale priceScale value) :
    (priceString value).value = value :=
  value_toFixed h

/-- Without a fee an outflow on the money scale is the amount itself. -/
theorem buyCashOutflow_v1Fee {amount : MoneyValue} (h : OnScale moneyScale amount) :
    buyCashOutflow amount v1Fee = amount := by
  rw [buyCashOutflow, v1Fee_eq, add_zero, quantizeMoney_of_onScale h]

theorem exitCashInflow_v1Fee {proceeds : MoneyValue} (h : OnScale moneyScale proceeds) :
    exitCashInflow proceeds v1Fee = proceeds := by
  rw [exitCashInflow, v1Fee_eq, sub_zero, quantizeMoney_of_onScale h]

/-- Without a fee the whole balance is spendable. -/
theorem spendableAfterFees_v1Fee {cash : MoneyValue} (h : OnScale moneyScale cash)
    (hcash : 0 ≤ cash) : spendableAfterFees cash v1Fee = cash := by
  rw [spendableAfterFees, v1Fee_eq, sub_zero]
  split
  · exact quantizeMoney_of_onScale h
  · next hpos => exact le_antisymm hcash (not_lt.mp hpos)

end FactorSage
