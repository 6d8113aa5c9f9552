import FactorSage.Backtest.Conservation
import FactorSage.Backtest.LifecycleInvariant

/-!
# Every run follows the methodology

The lifecycle invariant through the phases of a day, and from there over every run.

* `ExitPhase`, `EntryPhase` — what each phase of a day knows of the trades made before it.
* `LifecycleInvariant.day` — the step: one simulated day.
* `isMethodical_of_reachable` — the trade log of every reachable simulation is methodical.
-/

namespace FactorSage

open JsNumber ComparatorSort DecimalScale

variable {F : Type} [JsNumber F] {run : BacktestRun F} {date : LocalDate} {s s' : Ledger F}
  {openAtDayStart : List String} {today : TodayRows F}

/-- The invariant reads the log and the positions. -/
theorem LifecycleDay.congr (h : LifecycleDay run date s) (htrades : s'.trades = s.trades)
    (hpositions : s'.positions = s.positions) : LifecycleDay run date s' := by
  constructor
  · constructor
    · rw [htrades]
      exact h.log
    · rw [htrades, hpositions]
      exact h.closed
    · rw [htrades, hpositions]
      exact h.carries
    · rw [hpositions]
      exact h.size_le
  · rw [htrades, hpositions]
    exact h.exited

/-! ### Exits -/

/-- The exits of a date: they sell what was open when the date began, and trade nothing else. -/
structure ExitPhase (run : BacktestRun F) (date : LocalDate) (openAtDayStart : List String)
    (s : Ledger F) : Prop extends LifecycleDay run date s where
  wasOpen : ∀ id position, s.positions.get? id = some position → id ∈ openAtDayStart
  traded : ∀ trade ∈ s.trades, trade.date = date → trade.securityId ∈ openAtDayStart

/-- Between two ledgers of the exit phase, one security was sold at most. -/
def TradesOnly (date : LocalDate) (id : String) (s s' : Ledger F) : Prop :=
  ∀ other, other ≠ id → Untraded date other s → Untraded date other s'

theorem ExitPhase.sale (h : ExitPhase run date openAtDayStart s) {id : String}
    {position : PositionState F} (hopen : s.positions.get? id = some position)
    {fired : List String} {order : SaleOrder}
    (horder : IsMethodicalSale date position fired order s) :
    ExitPhase run date openAtDayStart
        (executeSale date { position with sellLevelsFired := fired } order s)
      ∧ TradesOnly date id s
        (executeSale date { position with sellLevelsFired := fired } order s) := by
  have hid : position.securityId = id := (h.carries id position hopen).held.securityId_eq
  obtain ⟨trade, htrades, hrow⟩ :=
    exists_isSaleRow date { position with sellLevelsFired := fired } order s
  have htradeId : trade.securityId = id := hrow.securityId_eq.trans hid
  obtain ⟨hothers, -⟩ := positionsAfterSale_spec
    { position with sellLevelsFired := fired } order (hid ▸ hopen)
  refine ⟨⟨h.toLifecycleDay.sale hopen horder, ?_, ?_⟩, ?_⟩
  · intro other left hget
    by_cases hother : other = id
    · subst hother
      exact h.wasOpen other position hopen
    · rw [executeSale_positions, hothers other (hid ▸ hother)] at hget
      exact h.wasOpen other left hget
  · intro row hmem hdate
    rw [htrades] at hmem
    rcases List.mem_append.mp hmem with hmem | hmem
    · exact h.traded row hmem hdate
    · obtain rfl := List.mem_singleton.mp hmem
      rw [htradeId]
      exact h.wasOpen id position hopen
  · intro other hother huntraded row hmem hrowId
    rw [htrades] at hmem
    rcases List.mem_append.mp hmem with hmem | hmem
    · exact huntraded row hmem hrowId
    · obtain rfl := List.mem_singleton.mp hmem
      exact absurd (hrowId.symm.trans htradeId) hother

omit [JsNumber F] in
theorem TradesOnly.refl (date : LocalDate) (id : String) (s : Ledger F) : TradesOnly date id s s :=
  fun _ _ h => h

omit [JsNumber F] in
theorem TradesOnly.trans {id : String} {middle : Ledger F} (h : TradesOnly date id s middle)
    (hlater : TradesOnly date id middle s') : TradesOnly date id s s' :=
  fun other hother huntraded => hlater other hother (h other hother huntraded)

theorem ExitPhase.executeSellLevel (h : ExitPhase run date openAtDayStart s)
    (row : RuntimeRow F) (id : String) (level : StrategySellLevel F) :
    ExitPhase run date openAtDayStart (executeSellLevel date row id s level)
      ∧ TradesOnly date id s (executeSellLevel date row id s level) := by
  unfold FactorSage.executeSellLevel
  split
  · exact ⟨h, .refl _ _ _⟩
  · next position hopen =>
    split
    · exact ⟨h, .refl _ _ _⟩
    · next order horder =>
      obtain ⟨hshares, hscale, -, haction, -, hlevel, hready⟩ := sellOrder_spec horder
      refine h.sale hopen ⟨.inr ⟨hshares, hscale⟩, ?_, ?_, ?_, ?_⟩
      · rw [haction]
        decide
      · exact fun fired hfired => List.mem_insert_iff.mpr (.inr hfired)
      · exact fun _ _ => ⟨level.id, List.mem_insert_iff.mpr (.inl rfl), hlevel, hready⟩
      · intro hexit
        rw [haction] at hexit
        cases hexit

/-- The exits of one position, on a date its security has not traded on. -/
theorem ExitPhase.executeExits (h : ExitPhase run date openAtDayStart s) (today : TodayRows F)
    {id : String} (huntraded : Untraded date id s) :
    ExitPhase run date openAtDayStart (executeExits run.rules today date s id)
      ∧ TradesOnly date id s (executeExits run.rules today date s id) := by
  unfold FactorSage.executeExits
  split
  · next position row hopen _ =>
    split
    · exact ⟨h, .refl _ _ _⟩
    · split
      · next order horder =>
        obtain ⟨hshares, -, haction, -⟩ := finalExitOrder_spec horder
        have hid : position.securityId = id := (h.carries id position hopen).held.securityId_eq
        have hexit : IsMethodicalSale date position position.sellLevelsFired order s := by
          refine ⟨.inl hshares, ?_, List.Subset.refl _, ?_, fun _ => ⟨hshares, hid ▸ huntraded⟩⟩
          · rw [haction]
            decide
          · intro hsell
            rw [haction] at hsell
            cases hsell
        exact h.sale hopen hexit
      · -- the levels of one position run in order, each over what the one before left
        refine List.foldlRecOn (motive := fun t => ExitPhase run date openAtDayStart t
          ∧ TradesOnly date id s t) _ _ ⟨h, .refl _ _ _⟩ fun t ht level _ => ?_
        obtain ⟨hphase, honly⟩ := ht
        obtain ⟨hnext, hnextOnly⟩ := hphase.executeSellLevel row id level
        exact ⟨hnext, honly.trans hnextOnly⟩
  · exact ⟨h, .refl _ _ _⟩

theorem ExitPhase.foldl_executeExits {ids : List String} (hnodup : ids.Nodup)
    (h : ExitPhase run date openAtDayStart s) (huntraded : ∀ id ∈ ids, Untraded date id s) :
    ExitPhase run date openAtDayStart
      (ids.foldl (FactorSage.executeExits run.rules today date) s) := by
  induction ids generalizing s with
  | nil => exact h
  | cons id rest ih =>
    obtain ⟨hfresh, hrest⟩ := List.nodup_cons.mp hnodup
    obtain ⟨hnext, honly⟩ := h.executeExits today (huntraded id List.mem_cons_self)
    refine ih hrest hnext fun other hother => honly other ?_ ?_
    · rintro rfl
      exact hfresh hother
    · exact huntraded other (List.mem_cons_of_mem _ hother)

/-- **The exits of a date**, on a log with no trade of that date yet. -/
theorem LifecycleDay.executeAllExits (h : LifecycleDay run date s) (today : TodayRows F)
    (huntraded : ∀ trade ∈ s.trades, trade.date ≠ date) :
    ExitPhase run date s.positions.keys (executeAllExits run.rules today date s) := by
  have hphase : ExitPhase run date s.positions.keys s := by
    refine ⟨h, fun id position hget => ?_, fun trade hmem hdate => ?_⟩
    · exact OrderedMap.mem_keys_iff.mpr ⟨position, hget⟩
    · exact absurd hdate (huntraded trade hmem)
  have hids := map_securityId_sortedPositions fun id position hget =>
    (h.carries id position hget).held.securityId_eq
  exact hphase.foldl_executeExits (hids.nodup_iff.mpr s.positions.nodup)
    fun id _ trade hmem _ => huntraded trade hmem

/-! ### Entries -/

/-- The entries of a date. What traded today was open when the date began, or is open now. -/
structure EntryPhase (run : BacktestRun F) (date : LocalDate) (openAtDayStart : List String)
    (s : Ledger F) : Prop extends LifecycleDay run date s where
  traded : ∀ trade ∈ s.trades, trade.date = date →
    trade.securityId ∈ openAtDayStart ∨ s.positions.get? trade.securityId ≠ none

/-- A candidate that has not been executed yet: it is still as it was when it was gathered. -/
structure IsPending (run : BacktestRun F) (date : LocalDate) (openAtDayStart : List String)
    (s : Ledger F) (candidate : BuyCandidate F) : Prop where
  setup_mem : candidate.setup ∈ run.input.securities
  eligible : isBuyWindowEligible candidate.setup.buyWindows date = true
  waits : s.positions.get? candidate.setup.securityId = none →
    candidate.setup.securityId ∉ openAtDayStart
  dormant : receivesContribution run date = false → ∃ level ∈ run.input.definition.buyLevels,
    level.percentage = candidate.percentage ∧ ∀ position,
      s.positions.get? candidate.setup.securityId = some position →
        level.id ∉ position.buyLevelsSettled

variable {candidate : BuyCandidate F}

section

variable (h : IsPending run date openAtDayStart s candidate)

include h

theorem IsPending.congr (heq : s'.positions.get? candidate.setup.securityId
      = s.positions.get? candidate.setup.securityId) :
    IsPending run date openAtDayStart s' candidate where
  setup_mem := h.setup_mem
  eligible := h.eligible
  waits := by
    rw [heq]
    exact h.waits
  dormant := by
    rw [heq]
    exact h.dormant

omit h in
theorem EntryPhase.buy (h : EntryPhase run date openAtDayStart s) {position : PositionState F}
    {fill : Fill} {available : MoneyValue} (hbuy : IsMethodicalBuy run date candidate position s)
    (hfill : IsFill available fill) (hclose : isPrice candidate.row.close = true) :
    EntryPhase run date openAtDayStart (executeBuy date candidate position fill s) := by
  obtain ⟨trade, htrades, hrow⟩ := exists_isBuyRow date candidate position fill s
  refine ⟨h.toLifecycleDay.buy hbuy hfill hclose, fun row hmem hdate => ?_⟩
  change _ ∨ (s.positions.set position.securityId _).get? row.securityId ≠ none
  rw [OrderedMap.get?_set]
  split
  · exact .inr (by simp)
  · next hne =>
    rw [htrades] at hmem
    rcases List.mem_append.mp hmem with hmem | hmem
    · exact h.traded row hmem hdate
    · obtain rfl := List.mem_singleton.mp hmem
      exact absurd hrow.securityId_eq hne

/-- A top-up is methodical: its tier is new to the lifecycle, or the date deposits capital. -/
theorem IsPending.isMethodicalTopUp (hphase : EntryPhase run date openAtDayStart s) {position : PositionState F}
    (hopen : s.positions.get? candidate.setup.securityId = some position) :
    IsMethodicalBuy run date candidate
      (settleTiers run.input.definition candidate.percentage position) s := by
  obtain ⟨hheld, hremembers, last, hlast, -⟩ := hphase.carries _ position hopen
  have hid : (settleTiers run.input.definition candidate.percentage position).securityId
      = candidate.setup.securityId := hheld.securityId_eq
  have hsettles := settleTiers_settled run.input.definition candidate.percentage position
  constructor
  · exact hheld.shares_pos.le
  · exact hheld.shares_onScale
  · rw [hid]
    exact hremembers.mono hsettles.1 (List.Subset.refl _)
  · exact hsettles.2
  · rw [hid]
    intro hno earlier hmem hearlier later hlater
    obtain ⟨level, hlevel, hpercentage, hdormant⟩ := h.dormant hno
    exact hremembers.raisesTier hlevel (hdormant position hopen) hmem hearlier
      (hlater.trans (by rw [hpercentage]))
  · exact ⟨candidate.setup, h.setup_mem, hid.symm, h.eligible⟩
  · rw [hid]
    intro hnil
    rw [hnil] at hlast
    cases hlast
  · rw [hid]
    intro earlier hmem hearlier hdate hexit
    have hgone := hphase.exited earlier hmem hdate hexit
    rw [hearlier, hopen] at hgone
    cases hgone
  · rw [hid]
    intro bought
    rw [OrderedMap.size_set_of_get? bought hopen]
    exact hphase.size_le

/-- So is an entry: its security has not traded today, and a slot is free. -/
theorem IsPending.isMethodicalEntry (hphase : EntryPhase run date openAtDayStart s)
    (hnone : s.positions.get? candidate.setup.securityId = none)
    (hslot : (s.positions.size : ℤ) < run.input.maximumPositions) (epoch : ℕ) :
    IsMethodicalBuy run date candidate
      (settleTiers run.input.definition candidate.percentage
        (newPosition candidate.setup epoch date candidate.row.close)) s := by
  have hnil := hphase.closed _ hnone
  have huntraded : Untraded date candidate.setup.securityId s := by
    intro trade hmem hid hdate
    rcases hphase.traded trade hmem hdate with hopen | hopen
    · exact h.waits hnone (hid ▸ hopen)
    · exact hopen (hid ▸ hnone)
  constructor
  · exact le_rfl
  · exact onScale_zero _
  · change Remembers _ (lifecycles candidate.setup.securityId s.trades).current _
    rw [hnil]
    exact remembers_nil _ _
  · exact (settleTiers_settled _ _ _).2
  · change _ → ∀ earlier ∈ (lifecycles candidate.setup.securityId s.trades).current, _
    rw [hnil]
    exact fun _ earlier hmem => by cases hmem
  · exact ⟨candidate.setup, h.setup_mem, rfl, h.eligible⟩
  · exact fun _ => huntraded
  · exact fun earlier hmem hid hdate => absurd hdate (huntraded earlier hmem hid)
  · intro bought
    change ((s.positions.set candidate.setup.securityId bought).size : ℤ) ≤ _
    rw [OrderedMap.size_set_of_get?_none bought hnone]
    push_cast
    omega

/-- Executing a candidate keeps the phase, and leaves every other security's position as it was. -/
theorem IsPending.executeCandidate (hphase : EntryPhase run date openAtDayStart s) (budget : F) :
    EntryPhase run date openAtDayStart (executeCandidate run.rules date budget s candidate)
      ∧ ∀ other, other ≠ candidate.setup.securityId →
        (FactorSage.executeCandidate run.rules date budget s candidate).positions.get? other
          = s.positions.get? other := by
  unfold FactorSage.executeCandidate
  simp only
  split
  · exact ⟨hphase, fun _ _ => rfl⟩
  · next hclose =>
    have hprice : isPrice candidate.row.close = true := by simpa using hclose
    split
    · next position hopen =>
      have hid : position.securityId = candidate.setup.securityId :=
        (hphase.carries _ position hopen).held.securityId_eq
      split
      · -- the tier is consumed without a trade
        have hsettled := hphase.toLifecycleDay.settle hopen candidate.percentage
        rw [← hid] at hsettled
        refine ⟨⟨hsettled, fun trade hmem hdate => ?_⟩, fun other hother => ?_⟩
        · change _ ∨ (s.positions.set position.securityId _).get? trade.securityId ≠ none
          rw [OrderedMap.get?_set]
          split
          · exact .inr (by simp)
          · exact hphase.traded trade hmem hdate
        · exact OrderedMap.get?_set_of_ne _ _ (hid ▸ hother)
      · next fill hfill =>
        refine ⟨hphase.buy (h.isMethodicalTopUp hphase hopen) (isFill_of_sizePurchase hfill).1
          hprice, fun other hother => ?_⟩
        exact OrderedMap.get?_set_of_ne _ _ (hid ▸ hother)
    · next hnone =>
      split
      · exact ⟨hphase, fun _ _ => rfl⟩
      · split
        · exact ⟨hphase, fun _ _ => rfl⟩
        · next hslot =>
          split
          · exact ⟨hphase, fun _ _ => rfl⟩
          · next fill hfill =>
            refine ⟨?_, fun other hother => OrderedMap.get?_set_of_ne _ _ hother⟩
            have hentered : ∀ epochs, EntryPhase run date openAtDayStart { s with epochs } :=
              fun epochs => ⟨hphase.toLifecycleDay.congr rfl rfl, hphase.traded⟩
            have hentry : ∀ epochs epoch, IsMethodicalBuy run date candidate
                (settleTiers run.input.definition candidate.percentage
                  (newPosition candidate.setup epoch date candidate.row.close))
                { s with epochs } := fun epochs epoch => by
              have hpending : IsPending run date openAtDayStart { s with epochs } candidate :=
                h.congr rfl
              exact hpending.isMethodicalEntry (hentered epochs) hnone (not_le.mp hslot) epoch
            exact (hentered _).buy (hentry _ _) (isFill_of_sizePurchase hfill).1 hprice

end

theorem EntryPhase.foldl_executeCandidate {candidates : List (BuyCandidate F)}
    (hnodup : (candidates.map (·.setup.securityId)).Nodup)
    (h : EntryPhase run date openAtDayStart s) (budget : F)
    (hpending : ∀ candidate ∈ candidates, IsPending run date openAtDayStart s candidate) :
    EntryPhase run date openAtDayStart
      (candidates.foldl (executeCandidate run.rules date budget) s) := by
  induction candidates generalizing s with
  | nil => exact h
  | cons candidate rest ih =>
    obtain ⟨hfresh, hrest⟩ := List.nodup_cons.mp hnodup
    obtain ⟨hnext, hothers⟩ :=
      (hpending candidate List.mem_cons_self).executeCandidate h budget
    refine ih hrest hnext fun other hother => ?_
    refine (hpending other (List.mem_cons_of_mem _ hother)).congr (hothers _ fun heq => hfresh ?_)
    exact List.mem_map.mpr ⟨other, hother, heq⟩

/-- **The entries of a date**, one candidate a security. -/
theorem EntryPhase.executeEntries (h : EntryPhase run date openAtDayStart s)
    (htoday : today.map Prod.fst = run.input.securities)
    (hsecurities : (run.input.securities.map (·.securityId)).Nodup) :
    EntryPhase run date openAtDayStart
      (executeEntries run.rules today date (contributionOn run date) openAtDayStart s) := by
  unfold FactorSage.executeEntries
  have hnodup : (today.map fun entry => entry.1.securityId).Nodup := by
    rw [← htoday, List.map_map] at hsecurities
    exact hsecurities
  have hids := nodup_candidates run.rules date (contributionOn run date) openAtDayStart
    s.positions hnodup
  refine h.foldl_executeCandidate
    (((sortBy_perm compareCandidates _).map _).nodup_iff.mpr hids) _ fun candidate hmem => ?_
  obtain ⟨entry, hentry, hcandidate⟩ := List.mem_filterMap.mp (mem_sortBy.mp hmem)
  obtain ⟨hsetup, heligible, hwaits, hdormant⟩ := buyCandidate_spec hcandidate
  have hmem : entry.1 ∈ run.input.securities := by
    rw [← htoday]
    exact List.mem_map_of_mem hentry
  constructor
  · rw [hsetup]
    exact hmem
  · rw [hsetup]
    exact heligible
  · rw [hsetup]
    exact hwaits
  · rw [hsetup]
    exact hdormant

/-! ### A day -/

theorem LifecycleDay.liquidatePosition (h : LifecycleDay run date s) (id : String) :
    LifecycleDay run date (liquidatePosition date s id) := by
  unfold FactorSage.liquidatePosition
  split
  · exact h
  · next position hopen =>
    split
    · next hshares =>
      exact absurd (h.carries id position hopen).held.shares_pos (not_lt.mpr hshares)
    · have horder : IsMethodicalSale date position position.sellLevelsFired
          (liquidationOrder position) s := by
        refine ⟨.inl rfl, ?_, List.Subset.refl _, fun _ hstrategy => ?_, fun hexit => ?_⟩
        · simp [liquidationOrder]
        · cases hstrategy
        · cases hexit
      exact h.sale hopen horder

theorem LifecycleDay.closeDay (h : LifecycleDay run date s) (isLastDay : Bool)
    (today : TodayRows F) : LifecycleDay run date (closeDay isLastDay today date s) := by
  have hrecorded : ∀ t, LifecycleDay run date t →
      LifecycleDay run date (recordPositionMetrics today date t) := fun t ht =>
    ht.mark fun _ => sameBook_recordPositionMetric _
  unfold FactorSage.closeDay
  split
  · refine hrecorded _ ?_
    exact List.foldlRecOn (motive := fun t => LifecycleDay run date t) _ _ h
      fun t ht id _ => ht.liquidatePosition id
  · exact hrecorded s h

/-- **One day follows the methodology**, whatever it reads. -/
theorem LifecycleInvariant.day {state : SimulationState F}
    (h : LifecycleInvariant run state.ledger)
    (hdates : ∀ trade ∈ state.ledger.trades, trade.date ≠ date)
    (htoday : today.map Prod.fst = run.input.securities)
    (hsecurities : (run.input.securities.map (·.securityId)).Nodup) :
    LifecycleInvariant run (executeDay run date today state).ledger := by
  have hstart : LifecycleDay run date state.ledger :=
    ⟨h, fun trade hmem hdate => absurd hdate (hdates trade hmem)⟩
  have hmarked : LifecycleDay run date
      (markHoldings today date (applyContribution (contributionOn run date) state.ledger)) :=
    (hstart.congr (applyContribution_trades _ _) (applyContribution_positions _ _)).mark
      fun _ => sameBook_markPosition _
  have huntraded : ∀ trade ∈ (markHoldings today date
      (applyContribution (contributionOn run date) state.ledger)).trades, trade.date ≠ date := by
    change ∀ trade ∈ (applyContribution (contributionOn run date) state.ledger).trades, _
    rw [applyContribution_trades]
    exact hdates
  have hexits := hmarked.executeAllExits today huntraded
  have hentries : EntryPhase run date _ _ :=
    ⟨hexits.toLifecycleDay, fun trade hmem hdate => .inl (hexits.traded trade hmem hdate)⟩
  have htraded := hentries.executeEntries htoday hsecurities
  rw [executeDay_ledger]
  exact (htraded.toLifecycleDay.closeDay _ today).toLifecycleInvariant

/-! ### Every run -/

theorem lifecycleInvariant_of_reachableState (haccepted : IsAccepted run)
    (hsecurities : (run.input.securities.map (·.securityId)).Nodup) {state : SimulationState F}
    (h : ReachableState run state) : LifecycleInvariant run state.ledger := by
  induction h with
  | refl =>
    constructor
    · exact .nil haccepted.input.maximumPositions_pos
    · exact fun id _ => rfl
    · intro id position hget
      cases hget
    · exact haccepted.input.maximumPositions_pos.le
  | @tail state next hbefore day ih =>
    obtain ⟨date, today, hdate, htoday, rfl⟩ := day
    refine ih.day (fun trade hmem => ?_) htoday hsecurities
    -- the calendar ascends, so no completed day is this one
    have hcompleted := date_mem_of_reachableState hbefore trade hmem
    rintro rfl
    obtain ⟨i, hi, heq⟩ := List.mem_take_iff_getElem.mp hcompleted
    have hlt : i < run.calendar.length := by omega
    have hle := (AscendingList.le_iff_index_le haccepted.ascending hdate
      ((List.getElem?_eq_getElem hlt).trans (congrArg some heq))).mp le_rfl
    omega

/-- **Allocation tiers and exit levels fire as the methodology states, over every run**: whatever
the frames, the trade log of every simulation a caller can reach is methodical, and so is the one a
finished run reports. A list has each security once. -/
theorem isMethodical_of_reachable {input : BacktestSimulationInput F}
    {options : BacktestSimulationOptions} {simulation : BacktestSimulation F}
    (hsecurities : (input.securities.map (·.securityId)).Nodup)
    (h : Reachable input options simulation) :
    IsMethodical (backtestRun input options) simulation.state.ledger.trades
      ∧ ∀ result, finish simulation = .ok result →
        IsMethodical (backtestRun input options) result.trades := by
  obtain ⟨haccepted, -⟩ := h.acceptedInput
  have hlog := (lifecycleInvariant_of_reachableState (isAccepted_backtestRun haccepted options)
    hsecurities h.reached.state).log
  refine ⟨hlog, fun result hfinish => ?_⟩
  obtain ⟨_, _, _, -, htrades, -, -⟩ := finish_spec hfinish
  rw [htrades]
  exact hlog

/-- The sample run over its whole period. -/
theorem isMethodical_sample :
    IsMethodical (backtestRun sampleInput sampleOptions)
      (wholePeriodSimulation sampleInput sampleOptions
        [sampleFrame "A", sampleFrame "B"]).state.ledger.trades :=
  (isMethodical_of_reachable (by decide) reachable_sample).1

end FactorSage
