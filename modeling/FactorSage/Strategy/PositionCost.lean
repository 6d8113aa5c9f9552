import FactorSage.Strategy.Position

/-!
# The two cost figures of a position

A position carries its basis per share and the total cost of the shares it holds. A BUY averages the
basis again from the total; a partial SELL leaves the basis alone and takes its rounded share of the
basis off the total. Every partial SELL can so move the two apart by half a unit of money, and a BUY
leaves them apart by what eight places are worth at the shares held.

They stay within `costBudget` of each other over any run of trades (`costsConsistent_runTrades`).
What stays within a budget may cross zero: a position whose basis is worth less than the budget can
be left with shares and no cost, or less. The total stays positive exactly as long as no partial SELL
takes off all of it.
-/

namespace FactorSage

open DecimalScale

/-- One trade in the life of a position, at its canonical price. -/
inductive PositionTrade where
  | buy (shares price : MoneyValue)
  | sell (shares price : MoneyValue)

/-- `amount`: what a BUY of so many shares is recorded to cost. -/
def buyAmount (shares price : MoneyValue) : MoneyValue := quantizeMoney (shares * price)

/-- What the run makes, and what its trade row has digits for: `Decimal(28, 10)` shares and a
`Decimal(24, 6)` amount. -/
def PositionTrade.Recordable : PositionTrade → Prop
  | .buy shares price =>
    (0 < shares ∧ shares < 10 ^ 18 ∧ OnScale sharesScale shares)
      ∧ 0 < buyAmount shares price ∧ buyAmount shares price < 10 ^ 18
  | .sell shares _ => 0 < shares ∧ OnScale sharesScale shares

variable {F : Type}

def PositionTrade.apply (position : PositionState F) : PositionTrade → PositionState F
  | .buy shares price => applyBuy position shares (buyAmount shares price) v1Fee
  | .sell shares price => (applySell position shares price v1Fee).1

def runTrades (position : PositionState F) (trades : List PositionTrade) : PositionState F :=
  trades.foldl PositionTrade.apply position

/-- The largest share count held over a run of trades. -/
def largestHolding (position : PositionState F) : List PositionTrade → MoneyValue
  | [] => position.shares
  | trade :: rest => max position.shares (largestHolding (trade.apply position) rest)

/-- A money unit for each of `n` trades, and half a price unit for each share. -/
def costBudget (n : ℕ) (shares : MoneyValue) : MoneyValue :=
  n / 10 ^ moneyScale + shares / (2 * 10 ^ priceScale)

/-- A position that holds nothing and cost nothing: just opened, or sold out. -/
structure PositionState.IsEmpty (position : PositionState F) : Prop where
  shares : position.shares = 0
  costTotalValue : position.costTotalValue = 0
  averageCostValue : position.averageCostValue = 0

/-! ### One trade -/

section Trade

variable {position : PositionState F} {shares price : MoneyValue}

theorem costTotalValue_buy (h : OnScale moneyScale position.costTotalValue) :
    ((PositionTrade.buy shares price).apply position).costTotalValue
      = position.costTotalValue + buyAmount shares price := by
  change quantizeMoney (position.costTotalValue + buyAmount shares price + v1Fee) = _
  have hamount : OnScale moneyScale (buyAmount shares price) := onScale_quantizeMoney _
  rw [v1Fee_eq, add_zero, quantizeMoney_of_onScale (h.add hamount)]

theorem shares_buy :
    ((PositionTrade.buy shares price).apply position).shares = position.shares + shares :=
  rfl

theorem averageCostValue_buy :
    ((PositionTrade.buy shares price).apply position).averageCostValue
      = quantizePrice (decimalDiv ((PositionTrade.buy shares price).apply position).costTotalValue
          (position.shares + shares)) :=
  rfl

/-- A full SELL takes off everything. -/
theorem isEmpty_sell (h : position.shares ≤ shares) :
    ((PositionTrade.sell shares price).apply position).IsEmpty := by
  refine ⟨?_, ?_, ?_⟩
  · exact if_pos h
  · exact if_pos h
  · exact if_pos h

theorem shares_partialSell (h : shares < position.shares) :
    ((PositionTrade.sell shares price).apply position).shares = position.shares - shares :=
  if_neg (not_le.mpr h)

/-- **A partial SELL never moves the basis per share.** -/
theorem averageCostValue_partialSell (h : shares < position.shares) :
    ((PositionTrade.sell shares price).apply position).averageCostValue
      = position.averageCostValue :=
  if_neg (not_le.mpr h)

theorem costTotalValue_partialSell (hcost : OnScale moneyScale position.costTotalValue)
    (h : shares < position.shares) :
    ((PositionTrade.sell shares price).apply position).costTotalValue
      = position.costTotalValue - quantizeMoney (position.averageCostValue * shares) := by
  have hpartial : ¬ position.shares ≤ shares := not_le.mpr h
  have hread : ((PositionTrade.sell shares price).apply position).costTotalValue
      = if position.shares ≤ shares then 0
        else quantizeMoney (position.costTotalValue
          - if position.shares ≤ shares then position.costTotalValue
            else quantizeMoney (position.averageCostValue * shares)) := rfl
  rw [hread, if_neg hpartial, if_neg hpartial]
  exact quantizeMoney_of_onScale (hcost.sub (onScale_quantizeMoney _))

end Trade

/-! ### What a run of trades keeps -/

/-- What `n` trades keep, of which none left more than `most` shares. -/
structure CostsAgree (n : ℕ) (most : MoneyValue) (position : PositionState F) : Prop where
  shares_nonneg : 0 ≤ position.shares
  shares_le : position.shares ≤ most
  most_le : most ≤ n * 10 ^ 18
  onScale : OnScale moneyScale position.costTotalValue
  empty : position.shares = 0 → position.IsEmpty
  basis : |position.costTotalValue - position.averageCostValue * position.shares|
    ≤ costBudget n most
  floor : -costBudget n most ≤ position.costTotalValue
  ceiling : position.costTotalValue ≤ costBudget n most + n * 10 ^ 18

theorem costBudget_nonneg (n : ℕ) {shares : MoneyValue} (h : 0 ≤ shares) :
    0 ≤ costBudget n shares := by
  unfold costBudget
  positivity

theorem costBudget_succ (n : ℕ) (shares : MoneyValue) :
    costBudget (n + 1) shares = costBudget n shares + 1 / 10 ^ moneyScale := by
  unfold costBudget
  push_cast
  ring

theorem costBudget_mono (n : ℕ) {shares most : MoneyValue} (h : shares ≤ most) :
    costBudget n shares ≤ costBudget n most := by
  unfold costBudget
  gcongr

theorem PositionState.IsEmpty.costsAgree {position : PositionState F} (h : position.IsEmpty)
    {n : ℕ} {most : MoneyValue} (hmost : 0 ≤ most) (hle : most ≤ n * 10 ^ 18) :
    CostsAgree n most position := by
  have hbudget := costBudget_nonneg n hmost
  have hcount : (0 : ℚ) ≤ n * 10 ^ 18 := by positivity
  refine ⟨h.shares.ge, h.shares.trans_le hmost, hle, ?_, fun _ => h, ?_, ?_, ?_⟩
  · rw [h.costTotalValue]
    exact onScale_zero _
  · rw [h.costTotalValue, h.shares, mul_zero, sub_zero, abs_zero]
    exact hbudget
  · rw [h.costTotalValue]
    exact neg_nonpos.mpr hbudget
  · rw [h.costTotalValue]
    exact add_nonneg hbudget hcount

section Step

variable {n : ℕ} {most : MoneyValue} {position : PositionState F} {shares price : MoneyValue}

/-- Nothing a run records takes the total out of the digits a quotient keeps. -/
theorem CostsAgree.abs_costTotalValue_le (h : CostsAgree n most position) :
    |position.costTotalValue| ≤ n * (2 * 10 ^ 18) := by
  have hbudget : costBudget n most ≤ n * 10 ^ 18 := by
    have hmost := h.most_le
    have hn : (0 : ℚ) ≤ n := Nat.cast_nonneg n
    unfold costBudget
    norm_num at hmost ⊢
    linarith
  have hfloor := h.floor
  have hceiling := h.ceiling
  rw [abs_le]
  constructor <;> linarith

/-- A fresh basis is off by half a price unit a share, and by what fifty digits lose of the total. -/
theorem abs_freshBasis_sub_le (cost : MoneyValue) {held : MoneyValue} (hheld : 0 < held) :
    |cost - quantizePrice (decimalDiv cost held) * held|
      ≤ held / (2 * 10 ^ priceScale) + |cost| * (5 / 10 ^ moneyPrecision) := by
  have hprice := abs_halfAway_sub_le priceScale (decimalDiv cost held)
  have hdigits := abs_roundSignificant_sub_le moneyPrecision (cost / held)
  have hsplit : cost - quantizePrice (decimalDiv cost held) * held
      = -((quantizePrice (decimalDiv cost held) - decimalDiv cost held) * held)
        - (decimalDiv cost held - cost / held) * held := by
    field_simp
    ring
  rw [hsplit]
  refine (abs_sub _ _).trans ?_
  rw [abs_neg, abs_mul, abs_mul, abs_of_pos hheld]
  apply add_le_add
  · calc |quantizePrice (decimalDiv cost held) - decimalDiv cost held| * held
        ≤ 1 / (2 * 10 ^ priceScale) * held := mul_le_mul_of_nonneg_right hprice hheld.le
      _ = held / (2 * 10 ^ priceScale) := by ring
  · calc |decimalDiv cost held - cost / held| * held
        ≤ |cost / held| * (5 / 10 ^ moneyPrecision) * held :=
          mul_le_mul_of_nonneg_right hdigits hheld.le
      _ = |cost| * (5 / 10 ^ moneyPrecision) := by
        rw [abs_div, abs_of_pos hheld]
        field_simp

/-- **A BUY brings the two figures together again.** -/
theorem CostsAgree.buy (h : CostsAgree n most position)
    (htrade : (PositionTrade.buy shares price).Recordable) :
    CostsAgree (n + 1) (max most (position.shares + shares))
      ((PositionTrade.buy shares price).apply position) := by
  obtain ⟨⟨hpos, hfits, -⟩, hamount, hamountFits⟩ := htrade
  have hcost := @costTotalValue_buy _ _ shares price h.onScale
  have hheld : 0 < position.shares + shares := add_pos_of_nonneg_of_pos h.shares_nonneg hpos
  have hbudget : costBudget n most ≤ costBudget (n + 1) (max most (position.shares + shares)) := by
    rw [costBudget_succ]
    have hmono := costBudget_mono n (le_max_left most (position.shares + shares))
    have hunit : (0 : ℚ) ≤ 1 / 10 ^ moneyScale := by positivity
    linarith
  have hfloor := h.floor
  have hceiling := h.ceiling
  refine ⟨hheld.le, le_max_right _ _, ?_, ?_, fun hzero => absurd hzero hheld.ne', ?_, ?_, ?_⟩
  · have hmost := h.most_le
    have hshares := h.shares_le
    push_cast
    apply max_le <;> linarith
  · rw [hcost]
    exact h.onScale.add (onScale_quantizeMoney _)
  · -- what fifty digits lose of the total is far below the unit this trade adds
    have habs : |((PositionTrade.buy shares price).apply position).costTotalValue|
        ≤ (n + 1) * (2 * 10 ^ 18) := by
      have hprevious := h.abs_costTotalValue_le
      rw [hcost]
      calc |position.costTotalValue + buyAmount shares price|
          ≤ |position.costTotalValue| + |buyAmount shares price| := abs_add_le _ _
        _ ≤ n * (2 * 10 ^ 18) + 10 ^ 18 := by
          rw [abs_of_pos hamount]
          exact add_le_add hprevious hamountFits.le
        _ ≤ (n + 1) * (2 * 10 ^ 18) := by linarith
    have hdigits : |((PositionTrade.buy shares price).apply position).costTotalValue|
          * (5 / 10 ^ moneyPrecision) ≤ (n + 1) / 10 ^ moneyScale := by
      calc |((PositionTrade.buy shares price).apply position).costTotalValue|
            * (5 / 10 ^ moneyPrecision)
          ≤ (n + 1) * (2 * 10 ^ 18) * (5 / 10 ^ moneyPrecision) :=
            mul_le_mul_of_nonneg_right habs (by positivity)
        _ ≤ (n + 1) / 10 ^ moneyScale := by
          have hn : (0 : ℚ) ≤ n := Nat.cast_nonneg n
          norm_num [moneyPrecision]
          linarith
    have hshares : (position.shares + shares) / (2 * 10 ^ priceScale)
        ≤ max most (position.shares + shares) / (2 * 10 ^ priceScale) :=
      div_le_div_of_nonneg_right (le_max_right _ _) (by positivity)
    rw [shares_buy, averageCostValue_buy]
    refine (abs_freshBasis_sub_le _ hheld).trans ?_
    unfold costBudget
    push_cast
    linarith
  · rw [hcost]
    linarith
  · rw [hcost]
    push_cast
    linarith

/-- **A SELL moves them apart by half a unit at most.** -/
theorem CostsAgree.sell (h : CostsAgree n most position) (hpos : 0 < shares) :
    CostsAgree (n + 1) most ((PositionTrade.sell shares price).apply position) := by
  have hmost : most ≤ ((n + 1 : ℕ) : ℚ) * 10 ^ 18 := by
    have hle := h.most_le
    push_cast
    linarith
  rcases le_or_gt position.shares shares with hall | hpartial
  · exact (isEmpty_sell hall).costsAgree (h.shares_nonneg.trans h.shares_le) hmost
  · have hcost := @costTotalValue_partialSell _ _ _ price h.onScale hpartial
    have hheld := @shares_partialSell _ _ _ price hpartial
    have hbasis := @averageCostValue_partialSell _ _ _ price hpartial
    have hunit := abs_le.mp (abs_halfAway_sub_le moneyScale (position.averageCostValue * shares))
    change _ ≤ quantizeMoney (position.averageCostValue * shares) - _
      ∧ quantizeMoney (position.averageCostValue * shares) - _ ≤ _ at hunit
    norm_num at hunit
    have hbudget := costBudget_succ n most
    norm_num at hbudget
    have hrange := abs_le.mp h.basis
    have hfloor := h.floor
    have hceiling := h.ceiling
    have hleft : 0 < position.shares - shares := sub_pos.mpr hpartial
    have hapart : |position.costTotalValue - quantizeMoney (position.averageCostValue * shares)
        - position.averageCostValue * (position.shares - shares)| ≤ costBudget (n + 1) most := by
      rw [abs_le]
      constructor <;> linarith
    have hwithin := abs_le.mp hapart
    refine ⟨?_, ?_, hmost, ?_, fun hzero => ?_, ?_, ?_, ?_⟩
    · rw [hheld]
      exact hleft.le
    · rw [hheld]
      exact (sub_le_self _ hpos.le).trans h.shares_le
    · rw [hcost]
      exact h.onScale.sub (onScale_quantizeMoney _)
    · rw [hheld] at hzero
      exact absurd hzero hleft.ne'
    · rw [hcost, hheld, hbasis]
      exact hapart
    -- a basis below zero takes less than nothing off the total
    · rw [hcost]
      rcases le_total 0 position.averageCostValue with hbasis | hbasis
      · have hworth := mul_nonneg hbasis hleft.le
        linarith
      · have hremoved : quantizeMoney (position.averageCostValue * shares) ≤ 0 :=
          halfAway_nonpos (mul_nonpos_of_nonpos_of_nonneg hbasis hpos.le)
        linarith
    · rw [hcost]
      push_cast
      rcases le_total 0 position.averageCostValue with hbasis | hbasis
      · have hremoved : 0 ≤ quantizeMoney (position.averageCostValue * shares) :=
          quantizeMoney_nonneg (mul_nonneg hbasis hpos.le)
        linarith
      · have hworth := mul_nonpos_of_nonpos_of_nonneg hbasis hleft.le
        have hcount : (0 : ℚ) ≤ n := Nat.cast_nonneg n
        linarith

/-- **One trade.** -/
theorem CostsAgree.apply (h : CostsAgree n most position) {trade : PositionTrade}
    (htrade : trade.Recordable) :
    CostsAgree (n + 1) (max most (trade.apply position).shares) (trade.apply position) := by
  cases trade with
  | buy shares price => exact h.buy htrade
  | sell shares price =>
    have hsold : CostsAgree (n + 1) most ((PositionTrade.sell shares price).apply position) :=
      h.sell htrade.1
    rwa [max_eq_left hsold.shares_le]

end Step

/-! ### A run of trades -/

section Run

variable {position : PositionState F} {trades : List PositionTrade}

theorem le_largestHolding (position : PositionState F) (trades : List PositionTrade) :
    position.shares ≤ largestHolding position trades := by
  cases trades with
  | nil => exact le_rfl
  | cons trade rest => exact le_max_left _ _

/-- **A run of trades.** -/
theorem CostsAgree.runTrades {n : ℕ} {most : MoneyValue} (h : CostsAgree n most position)
    (htrades : ∀ trade ∈ trades, trade.Recordable) :
    CostsAgree (n + trades.length) (max most (largestHolding position trades))
      (runTrades position trades) := by
  induction trades generalizing position n most with
  | nil =>
    rw [largestHolding, max_eq_left h.shares_le]
    exact h
  | cons trade rest ih =>
    have hrest := ih (h.apply (htrades trade List.mem_cons_self))
      fun other hother => htrades other (List.mem_cons_of_mem _ hother)
    have hlength : n + 1 + rest.length = n + (trade :: rest).length := by
      rw [List.length_cons]
      omega
    have hmax : max (max most (trade.apply position).shares)
        (largestHolding (trade.apply position) rest)
        = max most (largestHolding position (trade :: rest)) := by
      rw [largestHolding, max_assoc, max_eq_right (le_largestHolding _ rest), ← max_assoc,
        max_eq_left h.shares_le]
    rw [hlength, hmax] at hrest
    exact hrest

/-- The total is positive while shares are held. -/
def PositionState.CostPositive (position : PositionState F) : Prop :=
  0 < position.shares → 0 < position.costTotalValue

/-- A trade that does not take off the whole total while it leaves shares. -/
def PositionTrade.LeavesCost (position : PositionState F) : PositionTrade → Prop
  | .buy _ _ => True
  | .sell shares _ =>
    shares < position.shares →
      quantizeMoney (position.averageCostValue * shares) < position.costTotalValue

theorem CostsAgree.costPositive_apply_iff {n : ℕ} {most : MoneyValue}
    (h : CostsAgree n most position) (hpositive : position.CostPositive) {trade : PositionTrade}
    (htrade : trade.Recordable) :
    (trade.apply position).CostPositive ↔ trade.LeavesCost position := by
  cases trade with
  | buy shares price =>
    refine iff_of_true (fun _ => ?_) trivial
    have hamount := htrade.2.1
    rw [costTotalValue_buy h.onScale]
    rcases h.shares_nonneg.eq_or_lt with hzero | hheld
    · rw [(h.empty hzero.symm).costTotalValue, zero_add]
      exact hamount
    · exact add_pos (hpositive hheld) hamount
  | sell shares price =>
    rcases le_or_gt position.shares shares with hall | hpartial
    · have hempty := @isEmpty_sell _ _ _ price hall
      exact iff_of_true (fun hheld => absurd hempty.shares hheld.ne')
        fun hless => absurd hall (not_le.mpr hless)
    · unfold PositionState.CostPositive PositionTrade.LeavesCost
      rw [costTotalValue_partialSell h.onScale hpartial, shares_partialSell hpartial, sub_pos,
        sub_pos]

theorem runTrades_concat (done : List PositionTrade) (trade : PositionTrade) :
    FactorSage.runTrades position (done ++ [trade])
      = trade.apply (FactorSage.runTrades position done) :=
  List.foldl_concat _ _ _ _

/-- The total stays positive exactly as long as no partial SELL takes off all of it. -/
theorem costPositive_iff {n : ℕ} {most : MoneyValue} (h : CostsAgree n most position)
    (hpositive : position.CostPositive) (htrades : ∀ trade ∈ trades, trade.Recordable) :
    (∀ done, done <+: trades → (FactorSage.runTrades position done).CostPositive)
      ↔ ∀ done trade, done ++ [trade] <+: trades →
          trade.LeavesCost (FactorSage.runTrades position done) := by
  have hagree : ∀ done, done <+: trades → ∃ most',
      CostsAgree (n + done.length) most' (FactorSage.runTrades position done) := fun done hdone =>
    ⟨_, h.runTrades fun trade hmem => htrades trade (hdone.subset hmem)⟩
  have hstep : ∀ done trade, done ++ [trade] <+: trades →
      (FactorSage.runTrades position done).CostPositive →
        ((FactorSage.runTrades position (done ++ [trade])).CostPositive
          ↔ trade.LeavesCost (FactorSage.runTrades position done)) := by
    intro done trade hstart hdone
    obtain ⟨most', hbefore⟩ := hagree done ((List.prefix_append done [trade]).trans hstart)
    rw [runTrades_concat]
    exact hbefore.costPositive_apply_iff hdone
      (htrades trade (hstart.subset (List.mem_append_right done (List.mem_singleton_self trade))))
  constructor
  · intro hall done trade hstart
    have hdone := hall done ((List.prefix_append done [trade]).trans hstart)
    exact (hstep done trade hstart hdone).mp (hall _ hstart)
  · intro hleaves done
    induction done using List.reverseRecOn with
    | nil => exact fun _ => hpositive
    | append_singleton done trade ih =>
      intro hstart
      have hdone := ih ((List.prefix_append done [trade]).trans hstart)
      exact (hstep done trade hstart hdone).mpr (hleaves done trade hstart)

/-- What holds of the two cost figures after any run of trades on a position. -/
structure CostsConsistent (position : PositionState F) (trades : List PositionTrade) : Prop where
  /-- No shares, no cost. -/
  soldOut : (FactorSage.runTrades position trades).shares = 0 →
    (FactorSage.runTrades position trades).costTotalValue = 0
  /-- A money unit a trade, and half a price unit for each of the most shares held. -/
  basis : |(FactorSage.runTrades position trades).costTotalValue
      - (FactorSage.runTrades position trades).averageCostValue
        * (FactorSage.runTrades position trades).shares|
    ≤ costBudget trades.length (largestHolding position trades)
  /-- What the total can fall below zero by. -/
  floor : -costBudget trades.length (largestHolding position trades)
    ≤ (FactorSage.runTrades position trades).costTotalValue
  /-- When the total is positive all along. -/
  positive : (∀ done, done <+: trades → (FactorSage.runTrades position done).CostPositive)
    ↔ ∀ done trade, done ++ [trade] <+: trades →
        trade.LeavesCost (FactorSage.runTrades position done)
  /-- A partial SELL leaves the basis per share where it is. -/
  kept : ∀ shares price, shares < (FactorSage.runTrades position trades).shares →
    ((PositionTrade.sell shares price).apply
        (FactorSage.runTrades position trades)).averageCostValue
      = (FactorSage.runTrades position trades).averageCostValue

/-- **The two cost figures of a position stay consistent**, over any run of trades from the BUY that
opens it. -/
theorem costsConsistent_runTrades (hposition : position.IsEmpty)
    (htrades : ∀ trade ∈ trades, trade.Recordable) : CostsConsistent position trades := by
  have hopened : CostsAgree 0 0 position :=
    hposition.costsAgree le_rfl (by rw [Nat.cast_zero, zero_mul])
  have hrun := hopened.runTrades htrades
  have hmax : max 0 (largestHolding position trades) = largestHolding position trades :=
    max_eq_right (hposition.shares.ge.trans (le_largestHolding position trades))
  rw [Nat.zero_add, hmax] at hrun
  refine ⟨fun hzero => (hrun.empty hzero).costTotalValue, hrun.basis, hrun.floor, ?_, ?_⟩
  · exact costPositive_iff hopened (fun hheld => absurd hposition.shares hheld.ne') htrades
  · exact fun _ _ hpartial => averageCostValue_partialSell hpartial

end Run

/-! ### A total that is used up -/

/-- A position in a share of a hundred-millionth of a dollar, before its first BUY. -/
def pennyPosition : PositionState ExactNumber where
  securityId := "penny"
  symbol := "PENNY"
  name := "Penny"
  epoch := 1
  openedDate := .ofYmd 2026 3 2
  shares := 0
  averageCostValue := 0
  costTotalValue := 0
  buyLevelsSettled := []
  sellLevelsFired := []
  previousSignedReturnPercent := none
  previousValueDate := none
  lastPrice := JsNumber.ofInt 1
  lastPriceDate := .ofYmd 2026 3 2
  realizedPnl := 0

/-- A hundred dollars of it, two hundred more at twice the price, and a SELL of four fifths. -/
def pennyTrades : List PositionTrade :=
  [.buy (10 ^ 10) (1 / 10 ^ 8), .buy (10 ^ 10) (2 / 10 ^ 8), .sell (16 * 10 ^ 9) (2 / 10 ^ 8)]

theorem recordable_pennyTrades : ∀ trade ∈ pennyTrades, trade.Recordable := by
  have hshares : (0 : ℚ) < 10 ^ 10 ∧ (10 : ℚ) ^ 10 < 10 ^ 18 ∧ OnScale sharesScale (10 ^ 10) :=
    ⟨by norm_num, by norm_num, 10 ^ 20, by norm_num⟩
  have hsold : (0 : ℚ) < 16 * 10 ^ 9 ∧ OnScale sharesScale (16 * 10 ^ 9) :=
    ⟨by norm_num, 16 * 10 ^ 19, by norm_num⟩
  intro trade hmem
  simp only [pennyTrades, List.mem_cons, List.not_mem_nil, or_false] at hmem
  rcases hmem with rfl | rfl | rfl
  · exact ⟨hshares, by decide +kernel, by decide +kernel⟩
  · exact ⟨hshares, by decide +kernel, by decide +kernel⟩
  · exact hsold

/-- The basis of a share and a half of a price unit is kept as two, and the SELL takes off more than
the whole total. -/
theorem not_costTotalValue_nonneg :
    ¬ ∀ trades : List PositionTrade, (∀ trade ∈ trades, trade.Recordable) →
      0 < (runTrades pennyPosition trades).shares →
        0 ≤ (runTrades pennyPosition trades).costTotalValue := by
  intro hclaim
  have hpenny := hclaim pennyTrades recordable_pennyTrades (by decide +kernel)
  revert hpenny
  decide +kernel

/-- The three trades of that position. -/
theorem costsConsistent_penny : CostsConsistent pennyPosition pennyTrades :=
  costsConsistent_runTrades ⟨rfl, rfl, rfl⟩ recordable_pennyTrades

end FactorSage
