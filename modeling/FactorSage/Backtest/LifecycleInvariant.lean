import FactorSage.Backtest.LedgerInvariant
import FactorSage.Backtest.Lifecycle

/-!
# Lifecycles and the positions that carry them

A position remembers which BUY tiers its lifecycle has consumed and which SELL levels have fired.
The invariant ties what it remembers to the trades of its lifecycle, so that the log stays methodical
whatever a day does.

* `Remembers` — the tiers a lifecycle has bought are settled, with every smaller one.
* `LifecycleInvariant` — the log is methodical, and every open lifecycle has its position.
* `LifecycleDay` — the same within a date, after that date's FINAL EXITs.
* `LifecycleDay.sale`, `LifecycleDay.buy`, `LifecycleDay.rebook` — what each kind of change keeps.
-/

namespace FactorSage

open JsNumber DecimalScale

variable {F : Type}

/-! ### What a position remembers -/

/-- The settled set is closed downwards under every tier bought, and every SELL level that fired is
in the fired set. -/
structure Remembers (definition : StrategyDefinition F) (life : List (BacktestTradeRecord F))
    (position : PositionState F) : Prop where
  settled : ∀ trade ∈ life, trade.action = .buy → ∃ tier, trade.levelPercentage = some tier
    ∧ ∀ level ∈ definition.buyLevels, level.percentage ≤ tier →
        level.id ∈ position.buyLevelsSettled
  fired : ∀ trade ∈ life, IsStrategySell trade →
    ∃ levelId ∈ position.sellLevelsFired, trade.levelId = some levelId

theorem remembers_nil (definition : StrategyDefinition F) (position : PositionState F) :
    Remembers definition [] position where
  settled := fun trade htrade => by cases htrade
  fired := fun trade htrade => by cases htrade

variable {life : List (BacktestTradeRecord F)} {definition : StrategyDefinition F}

theorem Remembers.mono {position later : PositionState F} (h : Remembers definition life position)
    (hsettled : position.buyLevelsSettled ⊆ later.buyLevelsSettled)
    (hfired : position.sellLevelsFired ⊆ later.sellLevelsFired) :
    Remembers definition life later where
  settled := fun trade htrade hbuy => by
    obtain ⟨tier, htier, hlevels⟩ := h.settled trade htrade hbuy
    exact ⟨tier, htier, fun level hlevel hle => hsettled (hlevels level hlevel hle)⟩
  fired := fun trade htrade hsell => by
    obtain ⟨levelId, hlevel, heq⟩ := h.fired trade htrade hsell
    exact ⟨levelId, hfired hlevel, heq⟩

variable {position : PositionState F}

/-- A tier of a level that is not settled is larger than every tier bought so far. -/
theorem Remembers.raisesTier (h : Remembers definition life position) {level : StrategyBuyLevel F}
    (hlevel : level ∈ definition.buyLevels) (hdormant : level.id ∉ position.buyLevelsSettled)
    {earlier later : BacktestTradeRecord F} (hearlier : earlier ∈ life)
    (hbuy : earlier.action = .buy) (hlater : later.levelPercentage = some level.percentage) :
    RaisesTier earlier later := by
  obtain ⟨tier, htier, hlevels⟩ := h.settled earlier hearlier hbuy
  refine ⟨tier, level.percentage, htier, hlater, ?_⟩
  by_contra hle
  exact hdormant (hlevels level hlevel (not_lt.mp hle))

theorem settleTiers_settled (definition : StrategyDefinition F) (percentage : ℕ)
    (position : PositionState F) :
    position.buyLevelsSettled ⊆ (settleTiers definition percentage position).buyLevelsSettled
      ∧ ∀ level ∈ definition.buyLevels, level.percentage ≤ percentage →
        level.id ∈ (settleTiers definition percentage position).buyLevelsSettled := by
  have hfold : ∀ (levels : List (StrategyBuyLevel F)) (settled : List String),
      settled ⊆ levels.foldl (fun settled level =>
          if level.percentage ≤ percentage then settled.insert level.id else settled) settled
        ∧ ∀ level ∈ levels, level.percentage ≤ percentage →
          level.id ∈ levels.foldl (fun settled level =>
            if level.percentage ≤ percentage then settled.insert level.id else settled)
            settled := by
    intro levels
    induction levels with
    | nil => exact fun settled => ⟨List.Subset.refl _, fun level hlevel => by cases hlevel⟩
    | cons first rest ih =>
      intro settled
      rw [List.foldl_cons]
      obtain ⟨hkept, hrest⟩ := ih
        (if first.percentage ≤ percentage then settled.insert first.id else settled)
      refine ⟨fun id hid => hkept ?_, fun level hlevel hle => ?_⟩
      · split
        · exact List.mem_insert_iff.mpr (.inr hid)
        · exact hid
      · rcases List.mem_cons.mp hlevel with rfl | hlevel
        · refine hkept ?_
          rw [if_pos hle]
          exact List.mem_insert_iff.mpr (.inl rfl)
        · exact hrest level hlevel hle
  exact hfold definition.buyLevels position.buyLevelsSettled

variable [JsNumber F]

/-! ### The invariant -/

/-- A position as the map holds it, and the lifecycle it carries. -/
structure Carries (definition : StrategyDefinition F) (id : String)
    (life : List (BacktestTradeRecord F)) (position : PositionState F) : Prop where
  held : IsHeld id position
  remembers : Remembers definition life position
  last : ∃ last, life.getLast? = some last ∧ last.sharesAfter = sharesString position.shares

structure LifecycleInvariant (run : BacktestRun F) (s : Ledger F) : Prop where
  log : IsMethodical run s.trades
  closed : ∀ id, s.positions.get? id = none → (lifecycles id s.trades).current = []
  carries : ∀ id position, s.positions.get? id = some position →
    Carries run.input.definition id (lifecycles id s.trades).current position
  size_le : (s.positions.size : ℤ) ≤ run.input.maximumPositions

/-- The invariant within a date: a FINAL EXIT of the date has left no position behind. -/
structure LifecycleDay (run : BacktestRun F) (date : LocalDate) (s : Ledger F) : Prop
    extends LifecycleInvariant run s where
  exited : ∀ trade ∈ s.trades, trade.date = date → trade.action = .finalExit →
    s.positions.get? trade.securityId = none

/-- No trade of the security is dated by the date. -/
def Untraded (date : LocalDate) (id : String) (s : Ledger F) : Prop :=
  ∀ trade ∈ s.trades, trade.securityId = id → trade.date ≠ date

variable {run : BacktestRun F} {date : LocalDate} {s s' : Ledger F} {id : String}

omit [JsNumber F] in
/-- Every open lifecycle has a slot of its own in the map. -/
theorem length_openSecurities_le
    (hclosed : ∀ id, s.positions.get? id = none → (lifecycles id s.trades).current = []) :
    (openSecurities s.trades).length ≤ s.positions.size := by
  have hsubset : openSecurities s.trades ⊆ s.positions.keys := fun id hid => by
    by_contra hkey
    exact mem_openSecurities.mp hid (hclosed id (OrderedMap.get?_eq_none_iff.mpr hkey))
  have hle := (nodup_openSecurities s.trades).subperm hsubset
  calc (openSecurities s.trades).length
      ≤ s.positions.keys.length := hle.length_le
    _ = s.positions.size := List.length_map _

/-- What a change that writes one row has to establish. The position is gone with the shares, or it
carries the longer lifecycle. -/
structure RecordsLifecycleTrade (run : BacktestRun F) (date : LocalDate) (s s' : Ledger F)
    (trade : BacktestTradeRecord F) : Prop where
  date_eq : trade.date = date
  trades_eq : s'.trades = s.trades ++ [trade]
  others : ∀ id, id ≠ trade.securityId → s'.positions.get? id = s.positions.get? id
  size_le : (s'.positions.size : ℤ) ≤ run.input.maximumPositions
  lifecycle : IsLifecycleTrade run trade.securityId (lifecycles trade.securityId s.trades).current
    trade
  reopens : (lifecycles trade.securityId s.trades).current = [] →
    Untraded date trade.securityId s
  alone : ∀ earlier ∈ s.trades, earlier.securityId = trade.securityId → earlier.date = date →
    earlier.action ≠ .finalExit ∧ trade.action ≠ .finalExit
  after : (s'.positions.get? trade.securityId = none ∧ trade.sharesAfter.value = 0)
    ∨ ∃ position, s'.positions.get? trade.securityId = some position
      ∧ trade.action ≠ .finalExit
      ∧ Carries run.input.definition trade.securityId
          ((lifecycles trade.securityId s.trades).current ++ [trade]) position

variable {trade : BacktestTradeRecord F}

omit [JsNumber F] in
theorem value_sharesAfter {shares : MoneyValue}
    (h : trade.sharesAfter = sharesString shares) (hscale : OnScale sharesScale shares) :
    trade.sharesAfter.value = shares := by
  rw [h, value_sharesString hscale]

/-- A position that carries a lifecycle carries the trade that ends it: its shares are those the
trade left. -/
theorem Carries.sharesAfter_pos (h : Carries definition id (life ++ [trade]) position) :
    0 < trade.sharesAfter.value := by
  obtain ⟨last, hlast, hshares⟩ := h.last
  rw [List.getLast?_concat] at hlast
  obtain rfl := Option.some.inj hlast
  rw [value_sharesAfter hshares h.held.shares_onScale]
  exact h.held.shares_pos

/-- **One more row** keeps the invariant within its date. -/
theorem LifecycleDay.record (h : LifecycleDay run date s)
    (hrecords : RecordsLifecycleTrade run date s s' trade) : LifecycleDay run date s' := by
  obtain ⟨hdate, htrades, hothers, hsize, hlife, hreopens, halone, hafter⟩ := hrecords
  have hnonneg : 0 ≤ trade.sharesAfter.value := by
    rcases hafter with ⟨-, hzero⟩ | ⟨position, -, -, hcarries⟩
    · exact hzero.ge
    · exact hcarries.sharesAfter_pos.le
  -- only the trade's own lifecycle is extended, and closed when no share is left
  have hclosed : ∀ id, s'.positions.get? id = none → (lifecycles id s'.trades).current = [] := by
    intro id hnone
    rw [htrades]
    by_cases hid : trade.securityId = id
    · subst hid
      rcases hafter with ⟨-, hzero⟩ | ⟨position, hsome, -, -⟩
      · rw [lifecycles_append_of_eq rfl, Episodes.push_of_closes (by simp [closesLifecycle, hzero])]
      · rw [hnone] at hsome
        cases hsome
    · rw [lifecycles_append_of_ne hid]
      exact h.closed id (by rw [← hothers id (Ne.symm hid)]; exact hnone)
  have hslots : ((openSecurities (s.trades ++ [trade])).length : ℤ)
      ≤ run.input.maximumPositions := by
    have hlength := length_openSecurities_le hclosed
    rw [htrades] at hlength
    exact le_trans (by exact_mod_cast hlength) hsize
  constructor
  · constructor
    · rw [htrades]
      refine h.log.append_singleton ⟨hlife, ?_, ?_, hslots, hnonneg⟩
      · intro hnil earlier hmem hid
        rw [hdate]
        exact hreopens hnil earlier hmem hid
      · rw [hdate]
        exact halone
    · exact hclosed
    · intro id position hget
      rw [htrades]
      by_cases hid : trade.securityId = id
      · subst hid
        rcases hafter with ⟨hnone, -⟩ | ⟨left, hsome, -, hcarries⟩
        · rw [hnone] at hget
          cases hget
        · rw [hsome] at hget
          obtain rfl := Option.some.inj hget
          have hpos := hcarries.sharesAfter_pos
          rw [lifecycles_append_of_eq rfl,
            Episodes.push_of_not_closes (by simpa [closesLifecycle] using hpos.ne')]
          exact hcarries
      · rw [lifecycles_append_of_ne hid]
        exact h.carries id position (by rw [← hothers id (Ne.symm hid)]; exact hget)
    · exact hsize
  · intro exit hmem hexitDate hexit
    rw [htrades] at hmem
    rcases List.mem_append.mp hmem with hmem | hmem
    · by_cases hid : exit.securityId = trade.securityId
      · exact absurd hexit (halone exit hmem hid hexitDate).1
      · rw [hothers _ hid]
        exact h.exited exit hmem hexitDate hexit
    · obtain rfl := List.mem_singleton.mp hmem
      rcases hafter with ⟨hnone, -⟩ | ⟨-, -, hnot, -⟩
      · exact hnone
      · exact absurd hexit hnot

/-! ### Kinds of change -/

/-- Changes that write no row, and leave every position with the book it had and at least the memory
it had, keep the invariant. -/
theorem LifecycleDay.rebook (h : LifecycleDay run date s)
    {positions : OrderedMap String (PositionState F)} (hsize : positions.size = s.positions.size)
    (hget : ∀ id position, positions.get? id = some position → ∃ before,
      s.positions.get? id = some before ∧ IsHeld id position ∧ position.shares = before.shares
        ∧ before.buyLevelsSettled ⊆ position.buyLevelsSettled
        ∧ before.sellLevelsFired ⊆ position.sellLevelsFired)
    (hnone : ∀ id, positions.get? id = none ↔ s.positions.get? id = none) :
    LifecycleDay run date { s with positions } := by
  constructor
  · constructor
    · exact h.log
    · intro id hid
      exact h.closed id ((hnone id).mp hid)
    · intro id position hsome
      obtain ⟨before, hbefore, hheld, hshares, hsettled, hfired⟩ := hget id position hsome
      obtain ⟨-, hremembers, last, hlast, hafter⟩ := h.carries id before hbefore
      exact ⟨hheld, hremembers.mono hsettled hfired, last, hlast, by rw [hafter, hshares]⟩
    · change (positions.size : ℤ) ≤ _
      rw [hsize]
      exact h.size_le
  · intro exit hmem hdate hexit
    exact (hnone _).mpr (h.exited exit hmem hdate hexit)

theorem LifecycleDay.mark (h : LifecycleDay run date s) {f : PositionState F → PositionState F}
    (hbook : ∀ position, SameBook position (f position)) :
    LifecycleDay run date { s with positions := s.positions.mapValues f } := by
  refine h.rebook (OrderedMap.size_mapValues _ _) (fun id position hget => ?_) fun id => ?_
  · rw [OrderedMap.get?_mapValues, Option.map_eq_some_iff] at hget
    obtain ⟨before, hbefore, rfl⟩ := hget
    have hsame := hbook before
    refine ⟨before, hbefore, (h.carries id before hbefore).held.sameBook hsame,
      hsame.shares_eq, ?_, ?_⟩
    · rw [hsame.buyLevelsSettled_eq]
      exact List.Subset.refl _
    · rw [hsame.sellLevelsFired_eq]
      exact List.Subset.refl _
  · rw [OrderedMap.get?_mapValues, Option.map_eq_none_iff]

theorem LifecycleDay.settle (h : LifecycleDay run date s)
    (hopen : s.positions.get? id = some position) (percentage : ℕ) :
    LifecycleDay run date { s with
      positions := s.positions.set id (settleTiers run.input.definition percentage position) } := by
  have hheld := (h.carries id position hopen).held
  refine h.rebook (OrderedMap.size_set_of_get? _ hopen) (fun other left hget => ?_) fun other => ?_
  · rw [OrderedMap.get?_set] at hget
    split at hget
    · next hid =>
      obtain rfl := Option.some.inj hget
      subst hid
      exact ⟨position, hopen, ⟨hheld.securityId_eq, hheld.shares_pos, hheld.shares_onScale,
        hheld.cost_onScale, hheld.isPrice_lastPrice⟩, rfl, (settleTiers_settled _ _ _).1,
        List.Subset.refl _⟩
    · exact ⟨left, hget, (h.carries other left hget).held, rfl, List.Subset.refl _,
        List.Subset.refl _⟩
  · rw [OrderedMap.get?_set]
    split
    · next hid =>
      subst hid
      rw [hopen]
      simp
    · rfl

/-! ### Sales -/

/-- What the row of a sale says. -/
structure IsSaleRow (date : LocalDate) (position : PositionState F) (order : SaleOrder)
    (trade : BacktestTradeRecord F) : Prop where
  date_eq : trade.date = date
  securityId_eq : trade.securityId = position.securityId
  action_eq : trade.action = order.action
  source_eq : trade.source = order.source
  levelId_eq : trade.levelId = order.levelId
  shares_eq : trade.shares = sharesString order.shares
  sharesAfter_eq : trade.sharesAfter
    = sharesString (applySell position order.shares order.price v1Fee).1.shares

theorem exists_isSaleRow (date : LocalDate) (position : PositionState F) (order : SaleOrder)
    (s : Ledger F) :
    ∃ trade, (executeSale date position order s).trades = s.trades ++ [trade]
      ∧ IsSaleRow date position order trade :=
  ⟨_, rfl, rfl, rfl, rfl, rfl, rfl, rfl, rfl⟩

omit [JsNumber F] in
/-- A sale of all the shares, or more, leaves none. -/
theorem IsSaleRow.sharesAfter_eq_zero {order : SaleOrder} (h : IsSaleRow date position order trade)
    (hall : position.shares ≤ order.shares) : trade.sharesAfter.value = 0 := by
  have hnone : (applySell position order.shares order.price v1Fee).1.shares = 0 := if_pos hall
  exact value_sharesAfter (h.sharesAfter_eq.trans (by rw [hnone])) (onScale_zero _)

/-- What makes a sale methodical: a SELL of the strategy fires a level that had not fired, a FINAL
EXIT sells everything on a date its security has not traded on. -/
structure IsMethodicalSale (date : LocalDate) (position : PositionState F) (fired : List String)
    (order : SaleOrder) (s : Ledger F) : Prop where
  size : IsSaleSize position order.shares
  not_buy : order.action ≠ .buy
  kept : position.sellLevelsFired ⊆ fired
  fires : order.action = .sell → order.source = .strategy → ∃ levelId ∈ fired,
    order.levelId = some levelId ∧ levelId ∉ position.sellLevelsFired
  exits : order.action = .finalExit →
    order.shares = position.shares ∧ Untraded date position.securityId s

section Sale

variable {position : PositionState F} {fired : List String} {order : SaleOrder}
  {life : List (BacktestTradeRecord F)} {trade : BacktestTradeRecord F}

/-- A methodical sale continues the lifecycle its position carries. -/
theorem IsMethodicalSale.lifecycle (h : IsMethodicalSale date position fired order s)
    {run : BacktestRun F}
    (hcarries : Carries run.input.definition id life position)
    (hrow : IsSaleRow date { position with sellLevelsFired := fired } order trade) :
    IsLifecycleTrade run id life trade := by
  obtain ⟨-, hremembers, last, hlast, hlastShares⟩ := hcarries
  have hsold : trade.action ≠ .buy := by
    rw [hrow.action_eq]
    exact h.not_buy
  constructor
  · intro hnil
    rw [hnil] at hlast
    cases hlast
  · exact fun hbuy => absurd hbuy hsold
  · -- the level of an earlier SELL is in the fired set, this one's was not
    rintro ⟨hsell, hstrategy⟩ earlier hmem hearlier heq
    rw [hrow.action_eq] at hsell
    rw [hrow.source_eq] at hstrategy
    obtain ⟨levelId, -, hlevel, hready⟩ := h.fires hsell hstrategy
    obtain ⟨firedId, hfiredId, hfired⟩ := hremembers.fired earlier hmem hearlier
    rw [hfired, hrow.levelId_eq, hlevel] at heq
    obtain rfl := Option.some.inj heq
    exact hready hfiredId
  · exact fun hbuy => absurd hbuy hsold
  · intro hexit
    rw [hrow.action_eq] at hexit
    obtain ⟨hall, -⟩ := h.exits hexit
    refine ⟨hrow.sharesAfter_eq_zero hall.ge, last, hlast, ?_⟩
    rw [hrow.shares_eq, hlastShares, hall]

omit [JsNumber F] in
/-- What the position remembers after a methodical sale. -/
theorem IsMethodicalSale.remembers (h : IsMethodicalSale date position fired order s)
    {definition : StrategyDefinition F} (hremembers : Remembers definition life position)
    (hrow : IsSaleRow date { position with sellLevelsFired := fired } order trade)
    {left : PositionState F} (hsettled : left.buyLevelsSettled = position.buyLevelsSettled)
    (hfired : left.sellLevelsFired = fired) : Remembers definition (life ++ [trade]) left := by
  have hbefore : Remembers definition life left :=
    hremembers.mono (by rw [hsettled]; exact List.Subset.refl _) (by rw [hfired]; exact h.kept)
  constructor
  · intro row hmem hbuy
    rcases List.mem_append.mp hmem with hmem | hmem
    · exact hbefore.settled row hmem hbuy
    · obtain rfl := List.mem_singleton.mp hmem
      rw [hrow.action_eq] at hbuy
      exact absurd hbuy h.not_buy
  · intro row hmem hsell
    rcases List.mem_append.mp hmem with hmem | hmem
    · exact hbefore.fired row hmem hsell
    · obtain rfl := List.mem_singleton.mp hmem
      obtain ⟨hsold, hstrategy⟩ := hsell
      rw [hrow.action_eq] at hsold
      rw [hrow.source_eq] at hstrategy
      obtain ⟨levelId, hmem, hlevel, -⟩ := h.fires hsold hstrategy
      exact ⟨levelId, hfired ▸ hmem, hrow.levelId_eq.trans hlevel⟩

omit [JsNumber F] in
/-- A sale touches its own position only, and takes no slot. -/
theorem positionsAfterSale_spec (position : PositionState F) (order : SaleOrder)
    {positions : OrderedMap String (PositionState F)} {before : PositionState F}
    (hopen : positions.get? position.securityId = some before) :
    (∀ other, other ≠ position.securityId →
        (positionsAfterSale position order positions).get? other = positions.get? other)
      ∧ (positionsAfterSale position order positions).size ≤ positions.size := by
  unfold positionsAfterSale
  split
  · exact ⟨fun other hne => OrderedMap.get?_set_of_ne _ _ hne,
      (OrderedMap.size_set_of_get? _ hopen).le⟩
  · exact ⟨fun other hne => OrderedMap.get?_erase_of_ne _ hne, OrderedMap.size_erase_le _ _⟩

/-- **A sale** keeps the invariant. -/
theorem LifecycleDay.sale (h : LifecycleDay run date s)
    (hopen : s.positions.get? id = some position)
    (horder : IsMethodicalSale date position fired order s) :
    LifecycleDay run date
      (executeSale date { position with sellLevelsFired := fired } order s) := by
  have hcarries := h.carries id position hopen
  obtain rfl := hcarries.held.securityId_eq
  obtain ⟨-, hscale⟩ := horder.size.spec hcarries.held
  obtain ⟨trade, htrades, hrow⟩ :=
    exists_isSaleRow date { position with sellLevelsFired := fired } order s
  have hid : trade.securityId = position.securityId := hrow.securityId_eq
  obtain ⟨hothers, hsize⟩ :=
    positionsAfterSale_spec { position with sellLevelsFired := fired } order hopen
  have hlife := horder.lifecycle hcarries hrow
  -- one more sale, which leaves shares or closes the position
  refine h.record ⟨hrow.date_eq, htrades, fun other hne => hothers other (hid ▸ hne),
    le_trans (Nat.cast_le.mpr hsize) h.size_le, hid ▸ hlife, ?_, ?_, ?_⟩
  · rw [hid]
    intro hnil
    obtain ⟨last, hlast, -⟩ := hcarries.last
    rw [hnil] at hlast
    cases hlast
  · intro earlier hmem hearlierId hearlierDate
    rw [hid] at hearlierId
    refine ⟨fun hexit => ?_, fun hexit => ?_⟩
    · have hgone := h.exited earlier hmem hearlierDate hexit
      rw [hearlierId, hopen] at hgone
      cases hgone
    · rw [hrow.action_eq] at hexit
      exact (horder.exits hexit).2 earlier hmem hearlierId hearlierDate
  · rw [hid, executeSale_positions, positionsAfterSale]
    by_cases hleft : 0 < (applySell { position with sellLevelsFired := fired } order.shares
        order.price v1Fee).1.shares
    · have hgot : (executeSale date { position with sellLevelsFired := fired } order
          s).positions.get? position.securityId
            = some (applySell { position with sellLevelsFired := fired } order.shares order.price
                v1Fee).1 := by
        rw [executeSale_positions, positionsAfterSale, if_pos hleft]
        exact OrderedMap.get?_set_self _ _ _
      rw [if_pos hleft]
      refine .inr ⟨_, OrderedMap.get?_set_self _ _ _, fun hexit => ?_, ?_,
        horder.remembers hcarries.remembers hrow rfl rfl, trade, List.getLast?_concat,
        hrow.sharesAfter_eq⟩
      · rw [hrow.action_eq] at hexit
        have hlt := (applySell_shares _ _ _).mp hleft
        exact absurd (horder.exits hexit).1.ge (not_le.mpr hlt)
      · exact held_executeSale order (fun id position hget => (h.carries id position hget).held)
          hopen hscale hgot
    · rw [if_neg hleft]
      exact .inl ⟨OrderedMap.get?_erase_self _ _,
        hrow.sharesAfter_eq_zero (not_lt.mp fun hlt => hleft ((applySell_shares _ _ _).mpr hlt))⟩

end Sale

/-! ### Purchases -/

/-- What the row of a purchase says. -/
structure IsBuyRow (date : LocalDate) (candidate : BuyCandidate F) (position : PositionState F)
    (fill : Fill) (trade : BacktestTradeRecord F) : Prop where
  date_eq : trade.date = date
  securityId_eq : trade.securityId = position.securityId
  action_eq : trade.action = .buy
  levelPercentage_eq : trade.levelPercentage = some candidate.percentage
  sharesAfter_eq : trade.sharesAfter = sharesString (position.shares + fill.shares)

omit [JsNumber F] in
theorem exists_isBuyRow (date : LocalDate) (candidate : BuyCandidate F)
    (position : PositionState F) (fill : Fill) (s : Ledger F) :
    ∃ trade, (executeBuy date candidate position fill s).trades = s.trades ++ [trade]
      ∧ IsBuyRow date candidate position fill trade :=
  ⟨_, rfl, rfl, rfl, rfl, rfl, rfl⟩

/-- What makes a purchase methodical, for the position it finds, already settled. -/
structure IsMethodicalBuy (run : BacktestRun F) (date : LocalDate) (candidate : BuyCandidate F)
    (position : PositionState F) (s : Ledger F) : Prop where
  shares_nonneg : 0 ≤ position.shares
  shares_onScale : OnScale sharesScale position.shares
  remembers : Remembers run.input.definition
    (lifecycles position.securityId s.trades).current position
  settled : ∀ level ∈ run.input.definition.buyLevels, level.percentage ≤ candidate.percentage →
    level.id ∈ position.buyLevelsSettled
  raises : receivesContribution run date = false →
    ∀ earlier ∈ (lifecycles position.securityId s.trades).current, earlier.action = .buy →
      ∀ later, later.levelPercentage = some candidate.percentage → RaisesTier earlier later
  eligible : ∃ setup ∈ run.input.securities,
    setup.securityId = position.securityId ∧ isBuyWindowEligible setup.buyWindows date = true
  reopens : (lifecycles position.securityId s.trades).current = [] →
    Untraded date position.securityId s
  alone : ∀ earlier ∈ s.trades, earlier.securityId = position.securityId → earlier.date = date →
    earlier.action ≠ .finalExit
  slot : ∀ bought, ((s.positions.set position.securityId bought).size : ℤ)
    ≤ run.input.maximumPositions

/-- **A purchase** keeps the invariant. -/
theorem LifecycleDay.buy (h : LifecycleDay run date s) {candidate : BuyCandidate F}
    {fill : Fill} {available : MoneyValue}
    (hbuy : IsMethodicalBuy run date candidate position s) (hfill : IsFill available fill)
    (hclose : isPrice candidate.row.close = true) :
    LifecycleDay run date (executeBuy date candidate position fill s) := by
  obtain ⟨trade, htrades, hrow⟩ := exists_isBuyRow date candidate position fill s
  have hid : trade.securityId = position.securityId := hrow.securityId_eq
  have hnotExit : trade.action ≠ .finalExit := by
    rw [hrow.action_eq]
    decide
  have hgot : (executeBuy date candidate position fill s).positions.get? position.securityId
      = some { applyBuy position fill.shares fill.amount v1Fee with
          lastPrice := candidate.row.close
          lastPriceDate := date } := OrderedMap.get?_set_self _ _ _
  -- one more BUY of the position it leaves, which is open
  refine h.record ⟨hrow.date_eq, htrades, ?_, hbuy.slot _, ?_, ?_, ?_,
    .inr ⟨_, hid ▸ hgot, hnotExit, ?_⟩⟩
  · exact fun other hne => OrderedMap.get?_set_of_ne _ _ (hid ▸ hne)
  · rw [hid]
    constructor
    · exact fun _ => hrow.action_eq
    · intro _ hdate earlier hmem hearlier
      rw [hrow.date_eq] at hdate
      exact hbuy.raises hdate earlier hmem hearlier trade hrow.levelPercentage_eq
    · rintro ⟨hsell, -⟩
      rw [hrow.action_eq] at hsell
      cases hsell
    · intro _
      rw [hrow.date_eq]
      exact hbuy.eligible
    · exact fun hexit => absurd hexit hnotExit
  · rw [hid]
    exact hbuy.reopens
  · rw [hid]
    exact fun earlier hmem hearlier hdate => ⟨hbuy.alone earlier hmem hearlier hdate, hnotExit⟩
  · rw [hid]
    refine ⟨isHeld_bought hfill hclose hbuy.shares_nonneg hbuy.shares_onScale, ?_, trade,
      List.getLast?_concat, hrow.sharesAfter_eq⟩
    constructor
    · intro row hmem hbought
      rcases List.mem_append.mp hmem with hmem | hmem
      · exact hbuy.remembers.settled row hmem hbought
      · obtain rfl := List.mem_singleton.mp hmem
        exact ⟨candidate.percentage, hrow.levelPercentage_eq, hbuy.settled⟩
    · intro row hmem hsell
      rcases List.mem_append.mp hmem with hmem | hmem
      · exact hbuy.remembers.fired row hmem hsell
      · obtain rfl := List.mem_singleton.mp hmem
        obtain ⟨hsold, -⟩ := hsell
        rw [hrow.action_eq] at hsold
        cases hsold

end FactorSage
