import FactorSage.Backtest.LedgerInvariant

/-!
# The terminal liquidation

Selling every open position at the price it was last marked at.

* `Liquidates` — what selling a list of positions does to a ledger: each has one sale of all its
  shares, and what they were worth is cash.
* `liquidateRemainingPositions_spec` — the liquidation of a whole book.
* `positionsValue_eq_sum` — the book was valued at exactly what the liquidation pays.
-/

namespace FactorSage

open JsNumber DecimalScale ComparatorSort

variable {F : Type} [JsNumber F]

/-- What a position is worth at its last mark. -/
def marketValue (position : PositionState F) : MoneyValue :=
  quantizeMoney (position.shares * quantizePrice (decimal position.lastPrice))

theorem onScale_marketValue (position : PositionState F) :
    OnScale moneyScale (marketValue position) :=
  onScale_quantizeMoney _

theorem onScale_sum_marketValue (positions : List (PositionState F)) :
    OnScale moneyScale (positions.map marketValue).sum := by
  refine OnScale.list_sum fun q hq => ?_
  obtain ⟨position, -, rfl⟩ := List.mem_map.mp hq
  exact onScale_marketValue position

/-- **A book is valued at the sum of its marks**: the rounding of the sum rounds nothing. -/
theorem positionsValue_eq_sum (positions : OrderedMap String (PositionState F)) :
    positionsValue positions = (positions.values.map marketValue).sum :=
  quantizeMoney_of_onScale (onScale_sum_marketValue positions.values)

/-- The one row a position's liquidation writes. -/
structure IsLiquidationOf (date : LocalDate) (position : PositionState F)
    (trade : BacktestTradeRecord F) : Prop where
  date_eq : trade.date = date
  securityId_eq : trade.securityId = position.securityId
  action_eq : trade.action = .sell
  source_eq : trade.source = .endOfBacktest
  shares_eq : trade.shares.value = position.shares
  amount_eq : trade.amount.value = marketValue position
  sharesAfter_eq : trade.sharesAfter.value = 0

/-- What selling `positions` off does to a ledger. -/
structure Liquidates (date : LocalDate) (positions : List (PositionState F)) (s s' : Ledger F) :
    Prop where
  cash_eq : s'.cash = s.cash + (positions.map marketValue).sum
  invested_eq : s'.investedCapital = s.investedCapital
  get?_eq : ∀ id, s'.positions.get? id
    = if id ∈ positions.map PositionState.securityId then none else s.positions.get? id
  trades_eq : ∃ sales, s'.trades = s.trades ++ sales
    ∧ List.Forall₂ (IsLiquidationOf date) positions sales

variable {date : LocalDate} {s s' s'' : Ledger F}

theorem Liquidates.nil (date : LocalDate) (s : Ledger F) : Liquidates date [] s s where
  cash_eq := by simp
  invested_eq := rfl
  get?_eq id := by simp
  trades_eq := ⟨[], by simp, .nil⟩

variable {position : PositionState F}

/-- One position first, the others after it. -/
theorem Liquidates.cons {rest : List (PositionState F)}
    (hfirst : Liquidates date [position] s s') (hrest : Liquidates date rest s' s'') :
    Liquidates date (position :: rest) s s'' where
  cash_eq := by
    rw [hrest.cash_eq, hfirst.cash_eq, List.map_cons, List.sum_cons]
    simp [add_assoc]
  invested_eq := hrest.invested_eq.trans hfirst.invested_eq
  get?_eq id := by
    rw [hrest.get?_eq, hfirst.get?_eq]
    by_cases hid : id = position.securityId <;>
      by_cases hmem : id ∈ rest.map PositionState.securityId <;> simp [hid, hmem]
  trades_eq := by
    obtain ⟨sales, htrades, hsales⟩ := hfirst.trades_eq
    obtain ⟨others, hothers, hmatch⟩ := hrest.trades_eq
    cases hsales with
    | cons hsale hnone =>
      cases hnone
      exact ⟨_, by rw [hothers, htrades, List.append_assoc]; rfl, .cons hsale hmatch⟩

/-- Selling all shares of a held position at its last mark. -/
theorem liquidates_liquidatePosition (date : LocalDate) (hcash : OnScale moneyScale s.cash)
    (hopen : s.positions.get? position.securityId = some position)
    (hheld : IsHeld position.securityId position) :
    Liquidates date [position] s (liquidatePosition date s position.securityId) := by
  have hsale : liquidatePosition date s position.securityId
      = executeSale date position (liquidationOrder position) s := by
    unfold liquidatePosition
    rw [hopen]
    exact if_neg (not_le.mpr hheld.shares_pos)
  have hshares : (applySell position (liquidationOrder position).shares
      (liquidationOrder position).price v1Fee).1.shares = 0 := if_pos le_rfl
  have hproceeds : quantizeMoney (quantizePrice (decimal position.lastPrice) * position.shares)
      = marketValue position := by rw [mul_comm]; rfl
  rw [hsale]
  constructor
  · change quantizeMoney (s.cash + exitCashInflow (quantizeMoney
      (quantizePrice (decimal position.lastPrice) * position.shares)) v1Fee) = _
    rw [hproceeds, exitCashInflow_v1Fee (onScale_marketValue position),
      quantizeMoney_of_onScale (hcash.add (onScale_marketValue position))]
    simp
  · rfl
  · intro id
    rw [executeSale_positions, positionsAfterSale, if_neg hshares.not_gt,
      OrderedMap.get?_erase]
    simp
  · refine ⟨[_], rfl, .cons ⟨rfl, rfl, rfl, rfl, ?_, ?_, ?_⟩ .nil⟩
    · exact value_sharesString hheld.shares_onScale
    · change (moneyString (quantizeMoney _)).value = _
      rw [value_moneyString (onScale_quantizeMoney _)]
      exact hproceeds
    · change (sharesString (applySell position (liquidationOrder position).shares
        (liquidationOrder position).price v1Fee).1.shares).value = 0
      rw [hshares, value_sharesString (onScale_zero _)]

/-- Selling off a list of distinct held positions. -/
theorem liquidates_foldl (date : LocalDate) {positions : List (PositionState F)}
    (hnodup : (positions.map PositionState.securityId).Nodup)
    (hcash : OnScale moneyScale s.cash)
    (hopen : ∀ position ∈ positions, s.positions.get? position.securityId = some position
      ∧ IsHeld position.securityId position) :
    Liquidates date positions s
      ((positions.map PositionState.securityId).foldl (liquidatePosition date) s) := by
  induction positions generalizing s with
  | nil => exact .nil date s
  | cons position rest ih =>
    obtain ⟨hnew, hrest⟩ := List.nodup_cons.mp hnodup
    obtain ⟨hget, hheld⟩ := hopen position List.mem_cons_self
    have hfirst := liquidates_liquidatePosition date hcash hget hheld
    refine hfirst.cons (ih hrest ?_ fun other hother => ?_)
    · rw [hfirst.cash_eq]
      exact hcash.add (onScale_sum_marketValue _)
    · -- a later position is not the one just sold
      have hne : other.securityId ≠ position.securityId := fun heq =>
        hnew (heq ▸ List.mem_map.mpr ⟨other, hother, rfl⟩)
      obtain ⟨hget', hheld'⟩ := hopen other (List.mem_cons_of_mem _ hother)
      rw [hfirst.get?_eq]
      exact ⟨by simpa [hne] using hget', hheld'⟩

omit [JsNumber F] in
theorem mem_sortedPositions {positions : OrderedMap String (PositionState F)} :
    position ∈ sortedPositions positions ↔ ∃ id, positions.get? id = some position :=
  mem_sortBy.trans OrderedMap.mem_values_iff

omit [JsNumber F] in
/-- A map that holds each position under its own id sorts to distinct positions. -/
theorem map_securityId_sortedPositions {positions : OrderedMap String (PositionState F)}
    (h : ∀ id position, positions.get? id = some position → position.securityId = id) :
    ((sortedPositions positions).map PositionState.securityId).Perm positions.keys := by
  rw [← OrderedMap.map_values_eq_keys h]
  exact (sortBy_perm _ _).map _

variable {received : LocalDate → MoneyValue}

/-- **The whole book is sold**: no position is left, each had one sale of all its shares, and cash
grew by what the book was valued at. -/
theorem liquidateRemainingPositions_spec (h : LedgerInvariant received s) (date : LocalDate) :
    Liquidates date (sortedPositions s.positions) s (liquidateRemainingPositions date s)
      ∧ (liquidateRemainingPositions date s).cash = s.cash + positionsValue s.positions
      ∧ ∀ id, (liquidateRemainingPositions date s).positions.get? id = none := by
  have hids := map_securityId_sortedPositions fun id position hget =>
    (h.held id position hget).securityId_eq
  have hopen : ∀ position ∈ sortedPositions s.positions,
      s.positions.get? position.securityId = some position
        ∧ IsHeld position.securityId position := fun position hmem => by
    obtain ⟨id, hget⟩ := mem_sortedPositions.mp hmem
    have hheld := h.held _ _ hget
    obtain rfl := hheld.securityId_eq
    exact ⟨hget, hheld⟩
  have hspec := liquidates_foldl date (hids.nodup_iff.mpr s.positions.nodup) h.cash_onScale hopen
  refine ⟨hspec, ?_, fun id => ?_⟩
  · have hvalues : (sortedPositions s.positions).Perm s.positions.values := sortBy_perm _ _
    rw [positionsValue_eq_sum, ← (hvalues.map marketValue).sum_eq]
    exact hspec.cash_eq
  · rw [liquidateRemainingPositions, hspec.get?_eq]
    by_cases hmem : id ∈ (sortedPositions s.positions).map PositionState.securityId
    · rw [if_pos hmem]
    · rw [if_neg hmem, OrderedMap.get?_eq_none_iff, ← hids.mem_iff]
      exact hmem

end FactorSage
