import FactorSage.Backtest.Day
import Mathlib.Logic.Relation

/-!
# What one ledger step can do

After its contribution, every change a simulated day makes to the ledger is one of six steps, each
with the guards the code checks before it. An invariant that every step keeps is kept by the whole
day.

* `LedgerStep` — the steps of one date.
* `tradeDay_steps`, `closeDay_steps` — a day's trading and closing are runs of such steps.
* `retreat_le` — the defensive retreat ends with an affordable amount or without shares.
* `LedgerSteps.trades_extend` — steps only append to the trade log, and date what they append.
-/

namespace FactorSage

open JsNumber ComparatorSort DecimalScale

variable {F : Type} [JsNumber F]

/-! ### Fills -/

/-- A fill that `available` pays for. -/
structure IsFill (available : MoneyValue) (fill : Fill) : Prop where
  shares_pos : 0 < fill.shares
  shares_onScale : OnScale sharesScale fill.shares
  price_onScale : OnScale priceScale fill.price
  amount_eq : fill.amount = quantizeMoney (fill.shares * fill.price)
  amount_pos : 0 < fill.amount
  amount_le : fill.amount ≤ available

omit [JsNumber F] in
theorem retreat_spec (available price : MoneyValue) {shares : MoneyValue}
    (h : OnScale sharesScale shares) (fuel : ℕ) :
    OnScale sharesScale (retreat available price shares fuel).shares
      ∧ (retreat available price shares fuel).price = price
      ∧ (retreat available price shares fuel).amount
        = quantizeMoney ((retreat available price shares fuel).shares * price) := by
  induction fuel generalizing shares with
  | zero => exact ⟨h, rfl, rfl⟩
  | succ fuel ih =>
    rw [retreat]
    split
    · exact ih (h.sub ⟨1, by simp [sharesUlp]⟩)
    · exact ⟨h, rfl, rfl⟩

omit [JsNumber F] in
/-- With a step for every unit of the shares, the retreat runs until its test fails. -/
theorem retreat_le (available price : MoneyValue) {shares : MoneyValue} {fuel : ℕ}
    (hfuel : shares * 10 ^ sharesScale ≤ fuel) :
    (retreat available price shares fuel).amount ≤ available
      ∨ (retreat available price shares fuel).shares ≤ 0 := by
  induction fuel generalizing shares with
  | zero =>
    refine .inr ?_
    change shares ≤ 0
    rw [Nat.cast_zero] at hfuel
    exact nonpos_of_mul_nonpos_left hfuel (scale_pos _)
  | succ fuel ih =>
    rw [retreat]
    split
    · refine ih ?_
      rw [sub_mul, sharesUlp, one_div, inv_mul_cancel₀ (scale_ne_zero _)]
      push_cast at hfuel
      linarith
    · next htest =>
      rcases not_and_or.mp htest with h | h
      · exact .inl (not_lt.mp h)
      · exact .inr (not_lt.mp h)

theorem retreatFuel_ge (shares : MoneyValue) :
    shares * 10 ^ sharesScale ≤ (retreatFuel shares : ℚ) :=
  Nat.le_ceil _

/-- What is bought is paid for from the spendable balance. -/
theorem isFill_of_sizePurchase {cash : MoneyValue} {shortfall close : F} {fill : Fill}
    (h : sizePurchase cash shortfall close = some fill) :
    IsFill (spendableAfterFees cash v1Fee) fill
      ∧ fill.price = quantizePrice (decimal close) := by
  unfold sizePurchase at h
  simp only [Option.bind_eq_some_iff] at h
  obtain ⟨spend, -, hfill⟩ := h
  split at hfill
  · cases hfill
  · split at hfill
    · next hbuyable =>
      obtain rfl := Option.some.inj hfill
      have hquotient : OnScale sharesScale
          (quantizeSharesDown (decimalDiv spend (quantizePrice (decimal close)))) :=
        onScale_truncate _ _
      obtain ⟨hscale, hprice, hamount⟩ := retreat_spec (spendableAfterFees cash v1Fee)
        (quantizePrice (decimal close)) hquotient (retreatFuel _)
      refine ⟨⟨hbuyable.1, hscale, by rw [hprice]; exact onScale_halfAway _ _,
        by rw [hprice]; exact hamount, hbuyable.2, ?_⟩, hprice⟩
      exact (retreat_le _ _ (retreatFuel_ge _)).resolve_right (not_le.mpr hbuyable.1)
    · cases hfill

/-! ### Steps -/

/-- The positions after a sale: what is left of the position is written back, or it is removed. -/
def positionsAfterSale (position : PositionState F) (order : SaleOrder)
    (positions : OrderedMap String (PositionState F)) : OrderedMap String (PositionState F) :=
  if 0 < (applySell position order.shares order.price v1Fee).1.shares then
    positions.set position.securityId (applySell position order.shares order.price v1Fee).1
  else positions.erase position.securityId

theorem executeSale_positions (date : LocalDate) (position : PositionState F) (order : SaleOrder)
    (s : Ledger F) :
    (executeSale date position order s).positions
      = positionsAfterSale position order s.positions := rfl

/-- Marking and recording change what a position was last worth, never its book. A new mark is a
price. -/
structure SameBook (position marked : PositionState F) : Prop where
  securityId_eq : marked.securityId = position.securityId
  symbol_eq : marked.symbol = position.symbol
  name_eq : marked.name = position.name
  shares_eq : marked.shares = position.shares
  costTotalValue_eq : marked.costTotalValue = position.costTotalValue
  buyLevelsSettled_eq : marked.buyLevelsSettled = position.buyLevelsSettled
  sellLevelsFired_eq : marked.sellLevelsFired = position.sellLevelsFired
  isPrice_lastPrice : isPrice position.lastPrice = true → isPrice marked.lastPrice = true

theorem SameBook.refl (position : PositionState F) : SameBook position position :=
  ⟨rfl, rfl, rfl, rfl, rfl, rfl, rfl, id⟩

/-- The price a sale executes at: today's close or the position's last mark. -/
def IsSalePrice (position : PositionState F) (price : MoneyValue) : Prop :=
  ∃ x : F, price = quantizePrice (decimal x) ∧ (isPrice x = true ∨ x = position.lastPrice)

/-- The shares a sale moves: all of them, or a positive quantity of its own. -/
def IsSaleSize (position : PositionState F) (shares : MoneyValue) : Prop :=
  shares = position.shares ∨ 0 < shares ∧ OnScale sharesScale shares

/-- One change to the ledger on a date, once the date's contribution has arrived. Every row a step
writes names what put it in the log. -/
inductive LedgerStep (source : BacktestTradeSource) (date : LocalDate) :
    Ledger F → Ledger F → Prop
  | mark (s : Ledger F) (f : PositionState F → PositionState F)
      (hbook : ∀ position, SameBook position (f position)) :
      LedgerStep source date s { s with positions := s.positions.mapValues f }
  | sale (s : Ledger F) (securityId : String) (position : PositionState F) (fired : List String)
      (order : SaleOrder) (hopen : s.positions.get? securityId = some position)
      (hsize : IsSaleSize position order.shares) (hprice : IsSalePrice position order.price)
      (haction : order.action ≠ .buy) (hsource : order.source = source) :
      LedgerStep source date s
        (executeSale date { position with sellLevelsFired := fired } order s)
  | settle (s : Ledger F) (securityId : String) (position : PositionState F)
      (settled : List String) (hopen : s.positions.get? securityId = some position) :
      LedgerStep source date s
        { s with
          positions := s.positions.set position.securityId
            { position with buyLevelsSettled := settled } }
  | topUp (s : Ledger F) (securityId : String) (position : PositionState F)
      (settled : List String) (candidate : BuyCandidate F) (fill : Fill)
      (hopen : s.positions.get? securityId = some position)
      (hclose : isPrice candidate.row.close = true)
      (hfill : IsFill (spendableAfterFees s.cash v1Fee) fill) (hsource : source = .strategy) :
      LedgerStep source date s
        (executeBuy date candidate { position with buyLevelsSettled := settled } fill s)
  | enter (s : Ledger F) (candidate : BuyCandidate F) (settled : List String) (epoch : ℕ)
      (fill : Fill) (hnone : s.positions.get? candidate.setup.securityId = none)
      (hclose : isPrice candidate.row.close = true)
      (hfill : IsFill (spendableAfterFees s.cash v1Fee) fill) (hsource : source = .strategy) :
      LedgerStep source date s
        (executeBuy date candidate
          { newPosition candidate.setup epoch date candidate.row.close with
            buyLevelsSettled := settled } fill
          { s with epochs := s.epochs.set candidate.setup.securityId epoch })
  | drop (s : Ledger F) (securityId : String) (position : PositionState F)
      (hopen : s.positions.get? securityId = some position) (hshares : position.shares ≤ 0) :
      LedgerStep source date s { s with positions := s.positions.erase securityId }

/-- Any number of steps of one date and source. -/
abbrev LedgerSteps (source : BacktestTradeSource) (date : LocalDate) :
    Ledger F → Ledger F → Prop :=
  Relation.ReflTransGen (LedgerStep source date)

section Day

variable {source : BacktestTradeSource} {rules : ExecutionRules F} {date : LocalDate}
  {contribution : F} {today : TodayRows F}

theorem LedgerStep.steps {s s' : Ledger F} (h : LedgerStep source date s s') :
    LedgerSteps source date s s' :=
  .single h

/-- A loop whose body takes steps takes steps. -/
theorem foldl_steps {α : Type} {body : Ledger F → α → Ledger F}
    (h : ∀ s a, LedgerSteps source date s (body s a)) (l : List α) (s : Ledger F) :
    LedgerSteps source date s (l.foldl body s) := by
  induction l generalizing s with
  | nil => exact .refl
  | cons a rest ih => exact (h s a).trans (ih _)

theorem sameBook_markPosition (position : PositionState F) :
    SameBook position (markPosition today date position) := by
  unfold markPosition
  split
  · exact .refl _
  · split
    · next hprice => exact ⟨rfl, rfl, rfl, rfl, rfl, rfl, rfl, fun _ => hprice⟩
    · exact .refl _

theorem sameBook_recordPositionMetric (position : PositionState F) :
    SameBook position (recordPositionMetric today date position) := by
  unfold recordPositionMetric
  split
  · exact .refl _
  · split
    · exact ⟨rfl, rfl, rfl, rfl, rfl, rfl, rfl, id⟩
    · exact .refl _

/-! ### Exits -/

variable {row : RuntimeRow F}

/-- A partial SELL moves a positive quantity at today's close, and fires its level for the first
time. -/
theorem sellOrder_spec {level : StrategySellLevel F}
    {position : PositionState F} {order : SaleOrder}
    (h : sellOrder level row position = some order) :
    0 < order.shares ∧ OnScale sharesScale order.shares
      ∧ order.price = quantizePrice (decimal row.close) ∧ order.action = .sell
      ∧ order.source = .strategy ∧ order.levelId = some level.id
      ∧ level.id ∉ position.sellLevelsFired := by
  unfold sellOrder at h
  split at h
  · cases h
  · next hready =>
    split at h
    · cases h
    · simp only at h
      split at h
      · cases h
      · next hshares =>
        obtain rfl := Option.some.inj h
        exact ⟨not_le.mp hshares, onScale_truncate _ _, rfl, rfl, rfl, rfl,
          (not_or.mp hready).2⟩

/-- A FINAL EXIT sells every share at today's close. -/
theorem finalExitOrder_spec {definition : StrategyDefinition F}
    {position : PositionState F} {order : SaleOrder}
    (h : finalExitOrder definition row position = some order) :
    order.shares = position.shares ∧ order.price = quantizePrice (decimal row.close)
      ∧ order.action = .finalExit ∧ order.source = .strategy := by
  unfold finalExitOrder at h
  rw [Option.bind_eq_some_iff] at h
  obtain ⟨finalExit, -, h⟩ := h
  simp only at h
  split at h
  · obtain rfl := Option.some.inj h
    exact ⟨rfl, rfl, rfl, rfl⟩
  · cases h

theorem executeSellLevel_steps (hclose : isPrice row.close = true)
    (securityId : String) (s : Ledger F) (level : StrategySellLevel F) :
    LedgerSteps .strategy date s (executeSellLevel date row securityId s level) := by
  unfold executeSellLevel
  split
  · exact .refl
  · next position hopen =>
    split
    · exact .refl
    · next order horder =>
      obtain ⟨hshares, hscale, hprice, haction, hsource, -⟩ := sellOrder_spec horder
      exact (LedgerStep.sale s securityId position _ order hopen (.inr ⟨hshares, hscale⟩)
        ⟨row.close, hprice, .inl hclose⟩ (by rw [haction]; decide) hsource).steps

theorem executeExits_steps (s : Ledger F) (securityId : String) :
    LedgerSteps .strategy date s (executeExits rules today date s securityId) := by
  unfold executeExits
  split
  · next position row hopen _ =>
    split
    · exact .refl
    · next hclose =>
      have hprice : isPrice row.close = true := by simpa using hclose
      split
      · next order horder =>
        obtain ⟨hshares, hp, haction, hsource⟩ := finalExitOrder_spec horder
        exact (LedgerStep.sale s securityId position position.sellLevelsFired order hopen
          (.inl hshares) ⟨row.close, hp, .inl hprice⟩ (by rw [haction]; decide) hsource).steps
      · exact foldl_steps (fun s level => executeSellLevel_steps hprice securityId s level) _ s
  · exact .refl

theorem executeAllExits_steps (s : Ledger F) :
    LedgerSteps .strategy date s (executeAllExits rules today date s) :=
  foldl_steps (fun s id => executeExits_steps s id) _ s

/-! ### Entries and the end of the day -/

omit [JsNumber F] in
/-- The level chosen is one of the strategy's, and a dormant one only on a deposit date. -/
theorem bestBuyLevel_spec {definition : StrategyDefinition F}
    {settled : List String} {depositedToday : Bool} {best : BestBuyLevel}
    (h : bestBuyLevel definition row settled depositedToday = some best) :
    ∃ level ∈ definition.buyLevels, level.percentage = best.percentage
      ∧ (depositedToday = false → level.id ∉ settled) := by
  refine List.foldlRecOn (motive := fun chosen => ∀ best, chosen = some best →
    ∃ level ∈ definition.buyLevels, level.percentage = best.percentage
      ∧ (depositedToday = false → level.id ∉ settled))
    definition.buyLevels (considerBuyLevel row settled depositedToday) ?_ ?_ best h
  · intro best hnone
    cases hnone
  · intro chosen ih level hlevel best hbest
    unfold considerBuyLevel at hbest
    simp only at hbest
    split at hbest
    · exact ih best hbest
    · next hawake =>
      split at hbest
      · exact ih best hbest
      · split at hbest
        · obtain rfl := Option.some.inj hbest
          refine ⟨level, hlevel, rfl, fun hno hmem => hawake ?_⟩
          simp [hno, hmem]
        · exact ih best hbest

/-- What a candidate owes to the security it is of. -/
theorem buyCandidate_spec {openAtDayStart : List String}
    {positions : OrderedMap String (PositionState F)}
    {entry : BacktestSecuritySetup × Option (RuntimeRow F)} {candidate : BuyCandidate F}
    (h : buyCandidate rules date contribution openAtDayStart positions entry = some candidate) :
    candidate.setup = entry.1 ∧ isBuyWindowEligible entry.1.buyWindows date = true
      ∧ (positions.get? entry.1.securityId = none → entry.1.securityId ∉ openAtDayStart)
      ∧ (isDeposit contribution = false → ∃ level ∈ rules.definition.buyLevels,
          level.percentage = candidate.percentage
            ∧ ∀ position, positions.get? entry.1.securityId = some position →
                level.id ∉ position.buyLevelsSettled) := by
  unfold buyCandidate at h
  rw [Option.bind_eq_some_iff] at h
  obtain ⟨row, -, h⟩ := h
  simp only at h
  split at h
  · cases h
  · next heligible =>
    split at h
    · cases h
    · next hwaits =>
      rw [Option.map_eq_some_iff] at h
      obtain ⟨best, hbest, rfl⟩ := h
      obtain ⟨level, hlevel, hpercentage, hdormant⟩ := bestBuyLevel_spec hbest
      refine ⟨rfl, by simpa using heligible, fun hnone hmem => hwaits ?_,
        fun hno => ⟨level, hlevel, hpercentage, fun position hposition => ?_⟩⟩
      · simp [hnone, hmem]
      · have hsettled := hdormant hno
        rw [hposition] at hsettled
        exact hsettled

omit [JsNumber F] in
/-- Selecting elements selects their keys. -/
theorem map_filterMap_sublist {α β κ : Type} {f : α → Option β} {g : α → κ} {k : β → κ}
    {l : List α} (h : ∀ a ∈ l, ∀ b, f a = some b → k b = g a) :
    ((l.filterMap f).map k).Sublist (l.map g) := by
  induction l with
  | nil => exact .slnil
  | cons a rest ih =>
    have hrest := ih fun b hb => h b (List.mem_cons_of_mem _ hb)
    cases hf : f a with
    | none =>
      rw [List.filterMap_cons_none hf]
      exact hrest.cons _
    | some b =>
      rw [List.filterMap_cons_some hf, List.map_cons, List.map_cons,
        h a List.mem_cons_self b hf]
      exact hrest.cons_cons _

/-- A date has one candidate a security at most. -/
theorem nodup_candidates (rules : ExecutionRules F) (date : LocalDate) (contribution : F)
    (openAtDayStart : List String) (positions : OrderedMap String (PositionState F))
    {today : TodayRows F} (h : (today.map (·.1.securityId)).Nodup) :
    ((today.filterMap (buyCandidate rules date contribution openAtDayStart positions)).map
      (·.setup.securityId)).Nodup := by
  refine h.sublist (map_filterMap_sublist fun entry _ candidate hcandidate => ?_)
  rw [(buyCandidate_spec hcandidate).1]

theorem executeCandidate_steps (budget : F) (s : Ledger F) (candidate : BuyCandidate F) :
    LedgerSteps .strategy date s (executeCandidate rules date budget s candidate) := by
  unfold executeCandidate
  simp only
  split
  · exact .refl
  · next hclose =>
    have hprice : isPrice candidate.row.close = true := by simpa using hclose
    split
    · next position hopen =>
      split
      · exact (LedgerStep.settle s _ position _ hopen).steps
      · next fill hfill =>
        exact (LedgerStep.topUp s _ position _ candidate fill hopen hprice
          (isFill_of_sizePurchase hfill).1 rfl).steps
    · next hnone =>
      split
      · exact .refl
      · split
        · exact .refl
        · split
          · exact .refl
          · next fill hfill =>
            exact (LedgerStep.enter s candidate _ _ fill hnone hprice
              (isFill_of_sizePurchase hfill).1 rfl).steps

theorem executeEntries_steps (openAtDayStart : List String) (s : Ledger F) :
    LedgerSteps .strategy date s
      (executeEntries rules today date contribution openAtDayStart s) :=
  foldl_steps (fun s candidate => executeCandidate_steps _ s candidate) _ s

theorem liquidatePosition_steps (s : Ledger F) (securityId : String) :
    LedgerSteps .endOfBacktest date s (liquidatePosition date s securityId) := by
  unfold liquidatePosition
  split
  · exact .refl
  · next position hopen =>
    split
    · next hshares => exact (LedgerStep.drop s securityId position hopen hshares).steps
    · exact (LedgerStep.sale s securityId position position.sellLevelsFired
        (liquidationOrder position) hopen (.inl rfl) ⟨position.lastPrice, rfl, .inr rfl⟩
        (by simp [liquidationOrder]) rfl).steps

theorem liquidateRemainingPositions_steps (s : Ledger F) :
    LedgerSteps .endOfBacktest date s (liquidateRemainingPositions date s) :=
  foldl_steps (fun s id => liquidatePosition_steps s id) _ s

/-- **A day's trading is a run of ledger steps** from the ledger its contribution left. -/
theorem tradeDay_steps (rules : ExecutionRules F) (date : LocalDate) (contribution : F)
    (today : TodayRows F) (s : Ledger F) :
    LedgerSteps .strategy date (applyContribution contribution s)
      (tradeDay rules date contribution today s) :=
  (LedgerStep.mark _ (markPosition today date) fun _ => sameBook_markPosition _).steps.trans
    ((executeAllExits_steps _).trans (executeEntries_steps _ _))

/-- **So is its closing**, on the last date and on any other. -/
theorem closeDay_steps (isLastDay : Bool) (today : TodayRows F) (date : LocalDate)
    (s : Ledger F) :
    LedgerSteps .endOfBacktest date s (closeDay isLastDay today date s) := by
  unfold closeDay
  have hrecord : ∀ t : Ledger F,
      LedgerSteps .endOfBacktest date t (recordPositionMetrics today date t) := fun t =>
    (LedgerStep.mark t (recordPositionMetric today date)
      fun _ => sameBook_recordPositionMetric _).steps
  split
  · exact (liquidateRemainingPositions_steps s).trans (hrecord _)
  · exact hrecord s

/-! ### The log -/

theorem LedgerStep.trades_extend {s s' : Ledger F} (h : LedgerStep source date s s') :
    ∃ added, s'.trades = s.trades ++ added
      ∧ ∀ trade ∈ added, trade.date = date ∧ trade.source = source := by
  have hnothing : ∀ t : Ledger F, t.trades = s.trades →
      ∃ added, t.trades = s.trades ++ added
        ∧ ∀ trade ∈ added, trade.date = date ∧ trade.source = source :=
    fun t ht => ⟨[], by rw [ht, List.append_nil], by simp⟩
  have hone : ∀ trade : BacktestTradeRecord F, trade.date = date → trade.source = source →
      ∃ added, s.trades ++ [trade] = s.trades ++ added
        ∧ ∀ trade ∈ added, trade.date = date ∧ trade.source = source :=
    fun trade hdate hsource => ⟨[trade], rfl, by simpa using ⟨hdate, hsource⟩⟩
  cases h with
  | mark => exact hnothing _ rfl
  | sale _ _ _ _ _ _ _ _ hsource => exact hone _ rfl hsource
  | settle => exact hnothing _ rfl
  | topUp _ _ _ _ _ _ _ _ hsource => exact hone _ rfl hsource.symm
  | enter _ _ _ _ _ _ _ hsource => exact hone _ rfl hsource.symm
  | drop => exact hnothing _ rfl

@[simp] theorem applyContribution_trades (contribution : F) (s : Ledger F) :
    (applyContribution contribution s).trades = s.trades := by
  unfold applyContribution
  split <;> rfl

@[simp] theorem applyContribution_positions (contribution : F) (s : Ledger F) :
    (applyContribution contribution s).positions = s.positions := by
  unfold applyContribution
  split <;> rfl

/-- **Steps only append to the trade log**, and what they append carries their date and source. -/
theorem LedgerSteps.trades_extend {s s' : Ledger F} (h : LedgerSteps source date s s') :
    ∃ added, s'.trades = s.trades ++ added
      ∧ ∀ trade ∈ added, trade.date = date ∧ trade.source = source := by
  induction h with
  | refl => exact ⟨[], (List.append_nil _).symm, by simp⟩
  | tail _ step ih =>
    obtain ⟨first, hfirst, hdate⟩ := ih
    obtain ⟨second, hsecond, hdate'⟩ := step.trades_extend
    refine ⟨first ++ second, by rw [hsecond, hfirst, List.append_assoc], fun trade hmem => ?_⟩
    rcases List.mem_append.mp hmem with hmem | hmem
    · exact hdate trade hmem
    · exact hdate' trade hmem

end Day

end FactorSage
