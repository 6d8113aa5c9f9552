import FactorSage.Backtest.LedgerStep

/-!
# What the ledger keeps

The invariant of the strategy's own book, kept by every step of a day.

* `IsRecorded` — the arithmetic of one row of the trade log.
* `LedgerInvariant` — cash is the capital that came in and what the log did with it; what the open
  positions cost is the capital that neither stayed in cash nor was realized.
* `LedgerInvariant.sale`, `LedgerInvariant.buy` — the two ways a step writes a row. Every amount is
  rounded once, so each identity holds to the last digit.
* `LedgerInvariant.steps` — the invariant after any number of steps of one date.
-/

namespace FactorSage

open JsNumber DecimalScale

variable {F : Type}

/-! ### The log -/

/-- What a trade does to cash. -/
def cashFlow (trade : BacktestTradeRecord F) : MoneyValue :=
  if trade.action = .buy then -trade.amount.value else trade.amount.value

def cashFlows (trades : List (BacktestTradeRecord F)) : MoneyValue :=
  (trades.map cashFlow).sum

/-- The profit a trade row reports; a BUY realizes none. -/
def realizedOf (trade : BacktestTradeRecord F) : MoneyValue :=
  trade.realizedPnl.elim 0 FixedString.value

def realizedTotal (trades : List (BacktestTradeRecord F)) : MoneyValue :=
  (trades.map realizedOf).sum

/-- One row of the log, after the rows before it, once `received` has come in as capital. -/
structure IsRecorded (received : MoneyValue) (before : List (BacktestTradeRecord F))
    (trade : BacktestTradeRecord F) : Prop where
  amount_eq : trade.amount.value = quantizeMoney (trade.shares.value * trade.price.value)
  cashAfter_eq : trade.cashAfter.value = received + cashFlows (before ++ [trade])
  cashAfter_nonneg : 0 ≤ trade.cashAfter.value
  buy_le : trade.action = .buy → trade.amount.value ≤ received + cashFlows before

/-- Every row of a log, each against the capital received by its date. -/
def IsLedgerLog (received : LocalDate → MoneyValue) (trades : List (BacktestTradeRecord F)) :
    Prop :=
  ∀ before trade after, trades = before ++ trade :: after →
    IsRecorded (received trade.date) before trade

@[simp] theorem cashFlows_append (trades later : List (BacktestTradeRecord F)) :
    cashFlows (trades ++ later) = cashFlows trades + cashFlows later := by
  simp [cashFlows]

@[simp] theorem cashFlows_singleton (trade : BacktestTradeRecord F) :
    cashFlows [trade] = cashFlow trade := by
  simp [cashFlows]

theorem realizedTotal_append_singleton (trades : List (BacktestTradeRecord F))
    (trade : BacktestTradeRecord F) :
    realizedTotal (trades ++ [trade]) = realizedTotal trades + realizedOf trade := by
  simp [realizedTotal]

theorem onScale_value {scale : ℕ} (s : FixedString scale) : OnScale scale s.value :=
  ⟨s.units, rfl⟩

theorem onScale_cashFlow (trade : BacktestTradeRecord F) : OnScale moneyScale (cashFlow trade) := by
  unfold cashFlow
  split
  · exact (onScale_value _).neg
  · exact onScale_value _

theorem onScale_realizedOf (trade : BacktestTradeRecord F) :
    OnScale moneyScale (realizedOf trade) := by
  unfold realizedOf
  cases trade.realizedPnl with
  | none => exact onScale_zero _
  | some pnl => exact onScale_value pnl

theorem isLedgerLog_nil (received : LocalDate → MoneyValue) :
    IsLedgerLog (F := F) received [] := by
  intro before trade after h
  simp at h

/-- A log grows row by row. -/
theorem IsLedgerLog.append_singleton {received : LocalDate → MoneyValue}
    {trades : List (BacktestTradeRecord F)} {trade : BacktestTradeRecord F}
    (h : IsLedgerLog received trades) (htrade : IsRecorded (received trade.date) trades trade) :
    IsLedgerLog received (trades ++ [trade]) := by
  intro before row after heq
  rcases after.eq_nil_or_concat with rfl | ⟨rest, last, rfl⟩
  · obtain ⟨rfl, hrow⟩ := List.append_inj' heq rfl
    obtain rfl := (List.cons.inj hrow).1
    exact htrade
  · rw [List.concat_eq_append, ← List.cons_append, ← List.append_assoc] at heq
    exact h before row rest (List.append_inj' heq rfl).1

variable [JsNumber F]

/-! ### The invariant -/

/-- A position as the map holds it under a security id. -/
structure IsHeld (securityId : String) (position : PositionState F) : Prop where
  securityId_eq : position.securityId = securityId
  shares_pos : 0 < position.shares
  shares_onScale : OnScale sharesScale position.shares
  cost_onScale : OnScale moneyScale position.costTotalValue
  isPrice_lastPrice : isPrice position.lastPrice = true

structure LedgerInvariant (received : LocalDate → MoneyValue) (s : Ledger F) : Prop where
  cash_onScale : OnScale moneyScale s.cash
  cash_nonneg : 0 ≤ s.cash
  invested_onScale : OnScale moneyScale s.investedCapital
  realized_onScale : OnScale moneyScale s.realizedPnl
  cash_eq : s.cash = s.investedCapital + cashFlows s.trades
  realized_eq : s.realizedPnl = realizedTotal s.trades
  cost_eq : s.cash + s.positions.sum costTotal = s.investedCapital + s.realizedPnl
  held : ∀ id position, s.positions.get? id = some position → IsHeld id position
  log : IsLedgerLog received s.trades

/-- What a step that writes one row has to establish. -/
structure RecordsTrade (s s' : Ledger F) (trade : BacktestTradeRecord F) : Prop where
  trades_eq : s'.trades = s.trades ++ [trade]
  invested_eq : s'.investedCapital = s.investedCapital
  cash_eq : s'.cash = s.cash + cashFlow trade
  cash_nonneg : 0 ≤ s'.cash
  realized_eq : s'.realizedPnl = s.realizedPnl + realizedOf trade
  cost_eq : s'.positions.sum costTotal
    = s.positions.sum costTotal - cashFlow trade + realizedOf trade
  held : ∀ id position, s'.positions.get? id = some position → IsHeld id position
  amount_eq : trade.amount.value = quantizeMoney (trade.shares.value * trade.price.value)
  cashAfter_eq : trade.cashAfter = moneyString s'.cash

variable {received : LocalDate → MoneyValue} {s s' : Ledger F} {date : LocalDate}
  {source : BacktestTradeSource}

theorem LedgerInvariant.record (h : LedgerInvariant received s) {trade : BacktestTradeRecord F}
    (hreceived : s.investedCapital = received trade.date) (hrecords : RecordsTrade s s' trade) :
    LedgerInvariant received s' := by
  obtain ⟨htrades, hinvested, hcash, hnonneg, hrealized, hcost, hheld, hamount, hafter⟩ := hrecords
  have hscale : OnScale moneyScale s'.cash := by
    rw [hcash]
    exact h.cash_onScale.add (onScale_cashFlow trade)
  have hflows : s'.cash = received trade.date + cashFlows (s.trades ++ [trade]) := by
    rw [hcash, h.cash_eq, hreceived, cashFlows_append, cashFlows_singleton, add_assoc]
  have hvalue : trade.cashAfter.value = s'.cash := by rw [hafter, value_moneyString hscale]
  have hrow : IsRecorded (received trade.date) s.trades trade := by
    refine ⟨hamount, hvalue.trans hflows, hvalue ▸ hnonneg, fun hbuy => ?_⟩
    have hflow : cashFlow trade = -trade.amount.value := by rw [cashFlow, if_pos hbuy]
    rw [← hreceived, ← h.cash_eq]
    rw [hcash, hflow] at hnonneg
    linarith
  constructor
  · exact hscale
  · exact hnonneg
  · rw [hinvested]
    exact h.invested_onScale
  · rw [hrealized]
    exact h.realized_onScale.add (onScale_realizedOf trade)
  · rw [hflows, hinvested, hreceived, htrades]
  · rw [hrealized, h.realized_eq, htrades, realizedTotal_append_singleton]
  · have hbefore := h.cost_eq
    rw [hcash, hcost, hinvested, hrealized]
    linarith
  · exact hheld
  · rw [htrades]
    exact h.log.append_singleton hrow

/-! ### Sales -/

section Sale

variable {position : PositionState F} {securityId : String} {shares price : MoneyValue}

omit [JsNumber F] in
/-- A sale's cost basis is removed exactly, whether it closes the position or not. -/
theorem applySell_costs (h : OnScale moneyScale position.costTotalValue)
    (shares price : MoneyValue) :
    (applySell position shares price v1Fee).2.realizedPnl
        = quantizeMoney (price * shares) - (applySell position shares price v1Fee).2.costRemoved
      ∧ (applySell position shares price v1Fee).1.costTotalValue
        = position.costTotalValue - (applySell position shares price v1Fee).2.costRemoved := by
  unfold applySell
  simp only [v1Fee_eq, sub_zero]
  by_cases hcloses : position.shares ≤ shares
  · simp only [if_pos hcloses, sub_self, and_true]
    exact quantizeMoney_of_onScale ((onScale_quantizeMoney _).sub h)
  · simp only [if_neg hcloses]
    exact ⟨quantizeMoney_of_onScale ((onScale_quantizeMoney _).sub (onScale_quantizeMoney _)),
      quantizeMoney_of_onScale (h.sub (onScale_quantizeMoney _))⟩

omit [JsNumber F] in
/-- A position keeps shares only when the sale was a smaller part of them. -/
theorem applySell_shares (position : PositionState F) (shares price : MoneyValue) :
    0 < (applySell position shares price v1Fee).1.shares ↔ shares < position.shares := by
  change 0 < (if position.shares ≤ shares then 0 else position.shares - shares) ↔ _
  split
  · next h => exact iff_of_false (lt_irrefl 0) (not_lt.mpr h)
  · next h => simp

theorem IsSalePrice.onScale (h : IsSalePrice position price) : OnScale priceScale price := by
  obtain ⟨x, rfl, -⟩ := h
  exact onScale_halfAway _ _

theorem IsSaleSize.spec (h : IsSaleSize position shares) (hheld : IsHeld securityId position) :
    0 < shares ∧ OnScale sharesScale shares := by
  rcases h with rfl | h
  · exact ⟨hheld.shares_pos, hheld.shares_onScale⟩
  · exact h

/-- The book after a sale: the position written back with what is left of it, or removed. -/
theorem sum_costTotal_executeSale (order : SaleOrder)
    (hopen : s.positions.get? position.securityId = some position)
    (hcost : OnScale moneyScale position.costTotalValue) {fired : List String} :
    (executeSale date { position with sellLevelsFired := fired } order s).positions.sum costTotal
      = s.positions.sum costTotal
        - (applySell position order.shares order.price v1Fee).2.costRemoved := by
  obtain ⟨-, hleft⟩ := applySell_costs hcost order.shares order.price
  rw [executeSale_positions, positionsAfterSale]
  split
  · rw [OrderedMap.sum_set_of_get? _ hopen]
    change _ - position.costTotalValue
      + (applySell position order.shares order.price v1Fee).1.costTotalValue = _
    rw [hleft]
    ring
  · next hclosed =>
    have hall : (applySell position order.shares order.price v1Fee).2.costRemoved
        = position.costTotalValue :=
      if_pos (not_lt.mp fun hlt => hclosed ((applySell_shares _ _ _).mpr hlt))
    rw [OrderedMap.sum_erase hopen, hall]
    rfl

theorem held_executeSale (order : SaleOrder)
    (hheld : ∀ id position, s.positions.get? id = some position → IsHeld id position)
    (hopen : s.positions.get? position.securityId = some position)
    (hscale : OnScale sharesScale order.shares) {fired : List String} {id : String}
    {left : PositionState F}
    (h : (executeSale date { position with sellLevelsFired := fired } order s).positions.get? id
      = some left) : IsHeld id left := by
  have hposition := hheld _ _ hopen
  obtain ⟨-, hleft⟩ := applySell_costs hposition.cost_onScale order.shares order.price
  rw [executeSale_positions, positionsAfterSale] at h
  split at h
  · next hpos =>
    rw [OrderedMap.get?_set] at h
    split at h
    · next hid =>
      obtain rfl := Option.some.inj h
      have hlt := (applySell_shares _ _ _).mp hpos
      refine ⟨hid.symm, hpos, ?_, ?_, hposition.isPrice_lastPrice⟩
      · change OnScale sharesScale (if position.shares ≤ order.shares then 0 else _)
        rw [if_neg (not_le.mpr hlt)]
        exact hposition.shares_onScale.sub hscale
      · change OnScale moneyScale
          (if position.shares ≤ order.shares then 0 else quantizeMoney _)
        rw [if_neg (not_le.mpr hlt)]
        exact onScale_quantizeMoney _
    · exact hheld _ _ h
  · rw [OrderedMap.get?_erase] at h
    split at h
    · cases h
    · exact hheld _ _ h

variable [LawfulJsNumber F]

theorem quantizePrice_nonneg {x : F} (h : isPrice x = true) : 0 ≤ quantizePrice (decimal x) := by
  obtain ⟨hfinite, hpos⟩ := Bool.and_eq_true_iff.mp h
  exact halfAway_nonneg (LawfulJsNumber.toDecimal_pos x hfinite hpos).le

theorem IsSalePrice.nonneg (h : IsSalePrice position price) (hheld : IsHeld securityId position) :
    0 ≤ price := by
  obtain ⟨x, rfl, hx | rfl⟩ := h
  · exact quantizePrice_nonneg hx
  · exact quantizePrice_nonneg hheld.isPrice_lastPrice

/-- **A sale** puts its proceeds into cash and realizes what they exceed the removed cost by. -/
theorem LedgerInvariant.sale (h : LedgerInvariant received s)
    (hreceived : s.investedCapital = received date)
    (hopen : s.positions.get? securityId = some position) (fired : List String)
    {order : SaleOrder} (hsize : IsSaleSize position order.shares)
    (hprice : IsSalePrice position order.price) (haction : order.action ≠ .buy) :
    LedgerInvariant received
      (executeSale date { position with sellLevelsFired := fired } order s) := by
  have hheld := h.held _ _ hopen
  obtain rfl := hheld.securityId_eq
  obtain ⟨hshares, hscale⟩ := hsize.spec hheld
  have hproceeds := onScale_quantizeMoney (order.price * order.shares)
  obtain ⟨hrealized, -⟩ := applySell_costs hheld.cost_onScale order.shares order.price
  -- the cost removed is all of it, or a rounded share of it
  have hremoved : OnScale moneyScale
      (applySell position order.shares order.price v1Fee).2.costRemoved := by
    change OnScale moneyScale (if position.shares ≤ order.shares then _ else quantizeMoney _)
    split
    · exact hheld.cost_onScale
    · exact onScale_quantizeMoney _
  have hrealizedScale : OnScale moneyScale
      (applySell position order.shares order.price v1Fee).2.realizedPnl := by
    rw [hrealized]
    exact hproceeds.sub hremoved
  have hcash : (executeSale date { position with sellLevelsFired := fired } order s).cash
      = s.cash + quantizeMoney (order.price * order.shares) := by
    change quantizeMoney
      (s.cash + exitCashInflow (quantizeMoney (order.price * order.shares)) v1Fee) = _
    rw [exitCashInflow_v1Fee hproceeds, quantizeMoney_of_onScale (h.cash_onScale.add hproceeds)]
  have hflow : ∀ trade : BacktestTradeRecord F, trade.action = order.action →
      trade.amount = moneyString (quantizeMoney (order.price * order.shares)) →
      cashFlow trade = quantizeMoney (order.price * order.shares) := fun trade ha hamount => by
    rw [cashFlow, if_neg (ha ▸ haction), hamount, value_moneyString hproceeds]
  refine h.record hreceived ⟨rfl, rfl, ?_, ?_, ?_, ?_, ?_, ?_, rfl⟩
  · rw [hcash, hflow _ rfl rfl]
  · rw [hcash]
    exact add_nonneg h.cash_nonneg
      (quantizeMoney_nonneg (mul_nonneg (hprice.nonneg hheld) hshares.le))
  · change quantizeMoney
        (s.realizedPnl + (applySell position order.shares order.price v1Fee).2.realizedPnl)
      = s.realizedPnl
        + (moneyString (applySell position order.shares order.price v1Fee).2.realizedPnl).value
    rw [quantizeMoney_of_onScale (h.realized_onScale.add hrealizedScale),
      value_moneyString hrealizedScale]
  · rw [sum_costTotal_executeSale order hopen hheld.cost_onScale, hflow _ rfl rfl]
    change _ = _
      + (moneyString (applySell position order.shares order.price v1Fee).2.realizedPnl).value
    rw [value_moneyString hrealizedScale, hrealized]
    ring
  · intro id left hleft
    exact held_executeSale order h.held hopen hscale hleft
  · change (moneyString _).value = quantizeMoney ((sharesString _).value * (priceString _).value)
    rw [value_moneyString hproceeds, value_sharesString hscale, value_priceString hprice.onScale,
      mul_comm]

end Sale

/-! ### Purchases -/

/-- What a purchase leaves in the map. -/
theorem isHeld_bought {candidate : BuyCandidate F} {position : PositionState F} {fill : Fill}
    {available : MoneyValue} (hfill : IsFill available fill)
    (hclose : isPrice candidate.row.close = true) (hshares : 0 ≤ position.shares)
    (hsharesScale : OnScale sharesScale position.shares) :
    IsHeld position.securityId
      { applyBuy position fill.shares fill.amount v1Fee with
        lastPrice := candidate.row.close
        lastPriceDate := date } where
  securityId_eq := rfl
  shares_pos := add_pos_of_nonneg_of_pos hshares hfill.shares_pos
  shares_onScale := hsharesScale.add hfill.shares_onScale
  cost_onScale := onScale_quantizeMoney _
  isPrice_lastPrice := hclose

/-- **A purchase** takes its amount out of cash and adds it to what the positions cost. -/
theorem LedgerInvariant.buy (h : LedgerInvariant received s)
    (hreceived : s.investedCapital = received date) {candidate : BuyCandidate F}
    {position : PositionState F} {fill : Fill}
    (hfill : IsFill (spendableAfterFees s.cash v1Fee) fill)
    (hclose : isPrice candidate.row.close = true)
    (hshares : 0 ≤ position.shares) (hsharesScale : OnScale sharesScale position.shares)
    (hcostScale : OnScale moneyScale position.costTotalValue)
    (hsum : ∀ bought : PositionState F,
      (s.positions.set position.securityId bought).sum costTotal
        = s.positions.sum costTotal - costTotal position + costTotal bought) :
    LedgerInvariant received (executeBuy date candidate position fill s) := by
  have hamountScale : OnScale moneyScale fill.amount := by
    rw [hfill.amount_eq]
    exact onScale_quantizeMoney _
  have hamount : fill.amount ≤ s.cash := by
    have hle := hfill.amount_le
    rwa [spendableAfterFees_v1Fee h.cash_onScale h.cash_nonneg] at hle
  have hcash : (executeBuy date candidate position fill s).cash = s.cash - fill.amount := by
    change quantizeMoney (s.cash - buyCashOutflow fill.amount v1Fee) = _
    rw [buyCashOutflow_v1Fee hamountScale,
      quantizeMoney_of_onScale (h.cash_onScale.sub hamountScale)]
  have hcost : quantizeMoney (position.costTotalValue + fill.amount + v1Fee)
      = position.costTotalValue + fill.amount := by
    rw [v1Fee_eq, add_zero, quantizeMoney_of_onScale (hcostScale.add hamountScale)]
  -- what the trade records is what left the cash and what the cost gained
  have hflow : ∀ trade : BacktestTradeRecord F, trade.action = .buy →
      trade.amount = moneyString fill.amount → cashFlow trade = -fill.amount :=
    fun trade ha hm => by rw [cashFlow, if_pos ha, hm, value_moneyString hamountScale]
  refine h.record hreceived ⟨rfl, rfl, ?_, ?_, (add_zero _).symm, ?_, ?_, ?_, rfl⟩
  · rw [hcash, hflow _ rfl rfl, sub_eq_add_neg]
  · rw [hcash]
    exact sub_nonneg.mpr hamount
  · rw [hflow _ rfl rfl]
    change (s.positions.set position.securityId _).sum costTotal = _ + 0
    rw [hsum]
    change _ - position.costTotalValue
      + quantizeMoney (position.costTotalValue + fill.amount + v1Fee) = _
    rw [hcost]
    ring
  · intro id bought hget
    change (s.positions.set position.securityId _).get? id = some bought at hget
    rw [OrderedMap.get?_set] at hget
    split at hget
    · next hid =>
      obtain rfl := Option.some.inj hget
      rw [hid]
      exact isHeld_bought hfill hclose hshares hsharesScale
    · exact h.held _ _ hget
  · change (moneyString _).value = quantizeMoney ((sharesString _).value * (priceString _).value)
    rw [value_moneyString hamountScale, value_sharesString hfill.shares_onScale,
      value_priceString hfill.price_onScale, hfill.amount_eq]

/-! ### Steps -/

/-- Steps that write no row keep the book. -/
theorem LedgerInvariant.rebook (h : LedgerInvariant received s)
    {positions : OrderedMap String (PositionState F)}
    (hsum : positions.sum costTotal = s.positions.sum costTotal)
    (hheld : ∀ id position, positions.get? id = some position → IsHeld id position) :
    LedgerInvariant received { s with positions } :=
  { h with
    cost_eq := by rw [hsum]; exact h.cost_eq
    held := hheld }

theorem IsHeld.sameBook {id : String} {position marked : PositionState F}
    (h : IsHeld id position) (hbook : SameBook position marked) : IsHeld id marked where
  securityId_eq := hbook.securityId_eq.trans h.securityId_eq
  shares_pos := hbook.shares_eq ▸ h.shares_pos
  shares_onScale := hbook.shares_eq ▸ h.shares_onScale
  cost_onScale := hbook.costTotalValue_eq ▸ h.cost_onScale
  isPrice_lastPrice := hbook.isPrice_lastPrice h.isPrice_lastPrice

variable [LawfulJsNumber F]

/-- **One step keeps the invariant**, once the date's capital has come in. -/
theorem LedgerInvariant.step (h : LedgerInvariant received s)
    (hreceived : s.investedCapital = received date) (step : LedgerStep source date s s') :
    LedgerInvariant received s' := by
  cases step with
  | mark f hbook =>
    refine h.rebook ?_ fun id position hget => ?_
    · rw [OrderedMap.sum_mapValues]
      exact OrderedMap.sum_congr fun position _ => (hbook position).costTotalValue_eq
    · rw [OrderedMap.get?_mapValues, Option.map_eq_some_iff] at hget
      obtain ⟨source, hsource, rfl⟩ := hget
      exact (h.held _ _ hsource).sameBook (hbook source)
  | sale id position fired order hopen hsize hprice haction _ =>
    exact h.sale hreceived hopen fired hsize hprice haction
  | settle id position settled hopen =>
    have hheld := h.held _ _ hopen
    obtain rfl := hheld.securityId_eq
    refine h.rebook ?_ fun id left hget => ?_
    · rw [OrderedMap.sum_set_of_get? _ hopen]
      change _ - position.costTotalValue + position.costTotalValue = _
      ring
    · rw [OrderedMap.get?_set] at hget
      split at hget
      · next hid =>
        obtain rfl := Option.some.inj hget
        exact ⟨hid.symm, hheld.shares_pos, hheld.shares_onScale, hheld.cost_onScale,
          hheld.isPrice_lastPrice⟩
      · exact h.held _ _ hget
  | topUp id position settled candidate fill hopen hclose hfill _ =>
    have hheld := h.held _ _ hopen
    obtain rfl := hheld.securityId_eq
    exact h.buy hreceived hfill hclose hheld.shares_pos.le hheld.shares_onScale
      hheld.cost_onScale fun bought => OrderedMap.sum_set_of_get? bought hopen _
  | enter candidate settled epoch fill hnone hclose hfill _ =>
    -- an epoch is no part of the invariant
    have hbefore : LedgerInvariant received
        { s with epochs := s.epochs.set candidate.setup.securityId epoch } := { h with }
    refine hbefore.buy hreceived hfill hclose le_rfl (onScale_zero _) (onScale_zero _)
      fun bought => ?_
    change (s.positions.set candidate.setup.securityId bought).sum costTotal = _ - 0 + _
    rw [OrderedMap.sum_set_of_get?_none bought hnone, sub_zero]
  | drop id position hopen hshares =>
    exact absurd (h.held _ _ hopen).shares_pos (not_lt.mpr hshares)

omit [LawfulJsNumber F] in
/-- Only a contribution brings capital in. -/
theorem LedgerStep.investedCapital_eq (step : LedgerStep source date s s') :
    s'.investedCapital = s.investedCapital := by
  cases step <;> rfl

omit [LawfulJsNumber F] in
theorem LedgerSteps.investedCapital_eq (steps : LedgerSteps source date s s') :
    s'.investedCapital = s.investedCapital := by
  induction steps with
  | refl => rfl
  | tail _ step ih => rw [step.investedCapital_eq, ih]

/-- **Every step of a date** keeps the invariant. -/
theorem LedgerInvariant.steps (h : LedgerInvariant received s)
    (hreceived : s.investedCapital = received date) (steps : LedgerSteps source date s s') :
    LedgerInvariant received s' := by
  induction steps with
  | refl => exact h
  | tail before step ih => exact ih.step ((LedgerSteps.investedCapital_eq before).trans hreceived) step

end FactorSage
