import FactorSage.Backtest.Reachable
import Mathlib.Data.Prod.Lex

/-!
# The order of the securities

A run that names its securities in another order is the same run. Its open positions may have been
written in another order, so the two states bind the same keys to the same values
(`OrderedMap.Equiv`); whatever a day reads of them goes through a read by key, a sum or a sort by a
total order.

* `sortedPositions_eq`, `sortedCandidates_eq` — the two sorts forget the order.
* `StateEquiv` — the relation, and `executeDay_equiv` the day that keeps it.
* `SimulationEquiv.consume` — a window, or the whole period.
* `finish_of_permuted` — equivalent runs report the same.
-/

namespace FactorSage

open JsNumber ComparatorSort CodeUnits

variable {F : Type}

/-! ### Total orders -/

/-- What `comparePositions` compares. -/
def positionKey (position : PositionState F) : List ℕ ×ₗ List ℕ :=
  toLex (codeUnits position.symbol, codeUnits position.securityId)

theorem compares_comparePositions :
    Compares comparePositions (positionKey : PositionState F → _) := by
  intro left right
  rw [positionKey, positionKey, Prod.Lex.toLex_lt_toLex]
  unfold comparePositions codeUnitLt
  by_cases hsymbol : left.symbol = right.symbol
  · simp only [hsymbol, ne_eq, not_true_eq_false, if_false, decide_eq_true_eq]
    split <;> simp_all
  · have hunits : codeUnits left.symbol ≠ codeUnits right.symbol :=
      codeUnits_injective.ne hsymbol
    simp only [hsymbol, hunits, ne_eq, not_false_eq_true, if_true, decide_eq_true_eq]
    split <;> simp_all

/-- What `compareCandidates` compares: top-ups first, then the larger percentage. -/
def candidateKey (candidate : BuyCandidate F) : Bool ×ₗ ℕᵒᵈ ×ₗ List ℕ ×ₗ List ℕ :=
  toLex (!candidate.isTopUp, toLex (OrderDual.toDual candidate.percentage,
    toLex (codeUnits candidate.setup.symbol, codeUnits candidate.setup.securityId)))

theorem compares_compareCandidates :
    Compares compareCandidates (candidateKey : BuyCandidate F → _) := by
  intro left right
  rw [candidateKey, candidateKey, Prod.Lex.toLex_lt_toLex, Prod.Lex.toLex_lt_toLex,
    Prod.Lex.toLex_lt_toLex, OrderDual.toDual_lt_toDual]
  unfold compareCandidates codeUnitLt
  by_cases htopUp : left.isTopUp = right.isTopUp
  · by_cases hpercentage : left.percentage = right.percentage
    · by_cases hsymbol : left.setup.symbol = right.setup.symbol
      · simp only [htopUp, hpercentage, hsymbol, ne_eq, not_true_eq_false, if_false,
          decide_eq_true_eq]
        split <;> simp_all
      · have hunits : codeUnits left.setup.symbol ≠ codeUnits right.setup.symbol :=
          codeUnits_injective.ne hsymbol
        simp only [htopUp, hpercentage, hsymbol, hunits, ne_eq, not_true_eq_false,
          not_false_eq_true, if_true, if_false, decide_eq_true_eq]
        split <;> simp_all
    · simp only [htopUp, hpercentage, ne_eq, not_true_eq_false, not_false_eq_true, if_true,
        if_false]
      simp
      omega
  · cases hleft : left.isTopUp <;> cases hright : right.isTopUp <;> simp_all

/-! ### Equivalent ledgers -/

/-- Every position is held under its own security id. -/
def KeyedById (positions : OrderedMap String (PositionState F)) : Prop :=
  ∀ id position, positions.get? id = some position → position.securityId = id

variable {positions : OrderedMap String (PositionState F)}

theorem KeyedById.set (h : KeyedById positions)
    (position : PositionState F) : KeyedById (positions.set position.securityId position) := by
  intro id other hget
  rw [OrderedMap.get?_set] at hget
  split at hget
  · next hid =>
    obtain rfl := Option.some.inj hget
    exact hid.symm
  · exact h id other hget

theorem KeyedById.erase (h : KeyedById positions)
    (id : String) : KeyedById (positions.erase id) := by
  intro key position hget
  rw [OrderedMap.get?_erase] at hget
  split at hget
  · cases hget
  · exact h key position hget

theorem KeyedById.mapValues (h : KeyedById positions) {f : PositionState F → PositionState F}
    (hf : ∀ position, (f position).securityId = position.securityId) :
    KeyedById (positions.mapValues f) := by
  intro id position hget
  rw [OrderedMap.get?_mapValues, Option.map_eq_some_iff] at hget
  obtain ⟨source, hsource, rfl⟩ := hget
  rw [hf, h id source hsource]

/-- **The positions sort alike**, in whatever order they were written. -/
theorem sortedPositions_eq {positions other : OrderedMap String (PositionState F)}
    (h : positions.Equiv other) (hkeyed : KeyedById positions) :
    sortedPositions positions = sortedPositions other := by
  refine sortBy_eq_of_perm compares_comparePositions h.values_perm ?_
  refine List.Nodup.of_map (fun key => (ofLex key).2) ?_
  have hunits : (positions.values.map positionKey).map (fun key => (ofLex key).2)
      = (positions.values.map PositionState.securityId).map codeUnits := by
    rw [List.map_map, List.map_map]
    rfl
  rw [hunits, OrderedMap.map_values_eq_keys hkeyed]
  exact positions.nodup.map codeUnits_injective

/-- The same ledger, its positions and epochs written in another order. -/
def LedgerEquiv (s t : Ledger F) : Prop :=
  ∃ positions epochs, t = { s with positions, epochs } ∧ s.positions.Equiv positions
    ∧ s.epochs.Equiv epochs ∧ KeyedById s.positions

section Ledger

variable {s t : Ledger F} {date : LocalDate}

section

variable (h : LedgerEquiv s t)

include h

theorem LedgerEquiv.sortedIds_eq :
    (sortedPositions s.positions).map PositionState.securityId
      = (sortedPositions t.positions).map PositionState.securityId := by
  obtain ⟨positions, epochs, rfl, hpositions, -, hkeyed⟩ := h
  rw [sortedPositions_eq hpositions hkeyed]

variable [JsNumber F]

theorem LedgerEquiv.executeSale (date : LocalDate)
    (position : PositionState F) (order : SaleOrder) :
    LedgerEquiv (executeSale date position order s) (executeSale date position order t) := by
  obtain ⟨positions, epochs, rfl, hpositions, hepochs, hkeyed⟩ := h
  refine ⟨positionsAfterSale position order positions, epochs, rfl, ?_, hepochs, ?_⟩
  · rw [executeSale_positions]
    unfold positionsAfterSale
    split
    · exact hpositions.set _ _
    · exact hpositions.erase _
  · rw [executeSale_positions, positionsAfterSale]
    split
    · exact hkeyed.set (applySell position order.shares order.price v1Fee).1
    · exact hkeyed.erase _

theorem LedgerEquiv.applyContribution (contribution : F) :
    LedgerEquiv (applyContribution contribution s) (applyContribution contribution t) := by
  obtain ⟨positions, epochs, rfl, hpositions, hepochs, hkeyed⟩ := h
  unfold FactorSage.applyContribution
  split
  · exact ⟨positions, epochs, rfl, hpositions, hepochs, hkeyed⟩
  · exact ⟨positions, epochs, rfl, hpositions, hepochs, hkeyed⟩

omit [JsNumber F] in
theorem LedgerEquiv.mapPositions {f : PositionState F → PositionState F}
    (hf : ∀ position, (f position).securityId = position.securityId) :
    LedgerEquiv { s with positions := s.positions.mapValues f }
      { t with positions := t.positions.mapValues f } := by
  obtain ⟨positions, epochs, rfl, hpositions, hepochs, hkeyed⟩ := h
  exact ⟨_, epochs, rfl, hpositions.mapValues f, hepochs, hkeyed.mapValues hf⟩

/-! ### Exits -/

theorem LedgerEquiv.executeSellLevel (date : LocalDate)
    (row : RuntimeRow F) (id : String) (level : StrategySellLevel F) :
    LedgerEquiv (executeSellLevel date row id s level) (executeSellLevel date row id t level) := by
  obtain ⟨positions, epochs, rfl, hpositions, hepochs, hkeyed⟩ := h
  have hequiv : LedgerEquiv s { s with positions, epochs } :=
    ⟨positions, epochs, rfl, hpositions, hepochs, hkeyed⟩
  unfold FactorSage.executeSellLevel
  simp only [← hpositions id]
  split
  · exact hequiv
  · split
    · exact hequiv
    · exact hequiv.executeSale _ _ _

theorem LedgerEquiv.executeExits (rules : ExecutionRules F)
    {today other : TodayRows F} (hrows : rowOf today = rowOf other) (date : LocalDate)
    (id : String) :
    LedgerEquiv (executeExits rules today date s id) (executeExits rules other date t id) := by
  obtain ⟨positions, epochs, rfl, hpositions, hepochs, hkeyed⟩ := h
  have hequiv : LedgerEquiv s { s with positions, epochs } :=
    ⟨positions, epochs, rfl, hpositions, hepochs, hkeyed⟩
  unfold FactorSage.executeExits
  simp only [← hpositions id, ← hrows]
  split
  · split
    · exact hequiv
    · split
      · exact hequiv.executeSale _ _ _
      · exact List.foldl_rel hequiv fun level _ _ _ hrel => hrel.executeSellLevel _ _ _ level
  · exact hequiv

theorem LedgerEquiv.executeAllExits (rules : ExecutionRules F)
    {today other : TodayRows F} (hrows : rowOf today = rowOf other) (date : LocalDate) :
    LedgerEquiv (executeAllExits rules today date s) (executeAllExits rules other date t) := by
  unfold FactorSage.executeAllExits
  rw [← h.sortedIds_eq]
  exact List.foldl_rel h fun id _ _ _ hrel => hrel.executeExits rules hrows date id

theorem LedgerEquiv.liquidatePosition (date : LocalDate) (id : String) :
    LedgerEquiv (liquidatePosition date s id) (liquidatePosition date t id) := by
  obtain ⟨positions, epochs, rfl, hpositions, hepochs, hkeyed⟩ := h
  have hequiv : LedgerEquiv s { s with positions, epochs } :=
    ⟨positions, epochs, rfl, hpositions, hepochs, hkeyed⟩
  unfold FactorSage.liquidatePosition
  simp only [← hpositions id]
  split
  · exact hequiv
  · split
    · exact ⟨_, epochs, rfl, hpositions.erase id, hepochs, hkeyed.erase id⟩
    · exact hequiv.executeSale _ _ _

theorem LedgerEquiv.liquidateRemainingPositions (date : LocalDate) :
    LedgerEquiv (liquidateRemainingPositions date s) (liquidateRemainingPositions date t) := by
  unfold FactorSage.liquidateRemainingPositions
  rw [← h.sortedIds_eq]
  exact List.foldl_rel h fun id _ _ _ hrel => hrel.liquidatePosition date id

/-! ### Entries -/

omit [JsNumber F] in
theorem LedgerEquiv.executeBuy (date : LocalDate)
    (candidate : BuyCandidate F) (position : PositionState F) (fill : Fill) :
    LedgerEquiv (executeBuy date candidate position fill s)
      (executeBuy date candidate position fill t) := by
  obtain ⟨positions, epochs, rfl, hpositions, hepochs, hkeyed⟩ := h
  exact ⟨_, epochs, rfl, hpositions.set _ _, hepochs, hkeyed.set
    { applyBuy position fill.shares fill.amount v1Fee with
      lastPrice := candidate.row.close
      lastPriceDate := date }⟩

theorem LedgerEquiv.executeCandidate (rules : ExecutionRules F)
    (date : LocalDate) (budget : F) (candidate : BuyCandidate F) :
    LedgerEquiv (executeCandidate rules date budget s candidate)
      (executeCandidate rules date budget t candidate) := by
  obtain ⟨positions, epochs, rfl, hpositions, hepochs, hkeyed⟩ := h
  have hequiv : LedgerEquiv s { s with positions, epochs } :=
    ⟨positions, epochs, rfl, hpositions, hepochs, hkeyed⟩
  have hentered : ∀ id epoch, LedgerEquiv { s with epochs := s.epochs.set id epoch }
      { s with positions, epochs := epochs.set id epoch } := fun id epoch =>
    ⟨positions, epochs.set id epoch, rfl, hpositions, hepochs.set id epoch, hkeyed⟩
  unfold FactorSage.executeCandidate
  simp only [← hpositions candidate.setup.securityId, ← hpositions.size_eq,
    ← hepochs candidate.setup.securityId]
  split
  · exact hequiv
  · split
    · next position hopen =>
      split
      · exact ⟨_, epochs, rfl, hpositions.set _ _, hepochs, hkeyed.set _⟩
      · exact hequiv.executeBuy _ _ _ _
    · split
      · exact hequiv
      · split
        · exact hequiv
        · split
          · exact hequiv
          · exact (hentered _ _).executeBuy _ _ _ _

omit h in
/-- The candidates of permuted rows are permuted, and sort alike: one security has at most one. -/
theorem sortedCandidates_eq {rules : ExecutionRules F} {contribution : F}
    {openAtDayStart other : List String} (hopen : ∀ id, id ∈ openAtDayStart ↔ id ∈ other)
    {positions written : OrderedMap String (PositionState F)} (hpositions : positions.Equiv written)
    {today permuted : TodayRows F} (htoday : today.Perm permuted)
    (hnodup : (today.map (·.1.securityId)).Nodup) :
    sortBy compareCandidates
        (today.filterMap (buyCandidate rules date contribution openAtDayStart positions))
      = sortBy compareCandidates
        (permuted.filterMap (buyCandidate rules date contribution other written)) := by
  have hcandidate : buyCandidate rules date contribution openAtDayStart positions
      = buyCandidate rules date contribution other written := by
    funext entry
    unfold buyCandidate
    simp only [hpositions entry.1.securityId, hopen]
  rw [hcandidate]
  refine sortBy_eq_of_perm compares_compareCandidates (htoday.filterMap _) ?_
  -- the keys of the candidates are distinct because their security ids are
  have hids := nodup_candidates rules date contribution other written hnodup
  refine List.Nodup.of_map (fun key => (ofLex (ofLex (ofLex key).2).2).2) ?_
  rw [List.map_map]
  have hunits : ((today.filterMap (buyCandidate rules date contribution other written)).map
      fun candidate => codeUnits candidate.setup.securityId).Nodup := by
    have := hids.map codeUnits_injective
    rwa [List.map_map] at this
  exact hunits

theorem LedgerEquiv.executeEntries (rules : ExecutionRules F)
    {today permuted : TodayRows F} (htoday : today.Perm permuted)
    (hnodup : (today.map (·.1.securityId)).Nodup) (date : LocalDate) (contribution : F)
    {openAtDayStart other : List String} (hopen : ∀ id, id ∈ openAtDayStart ↔ id ∈ other) :
    LedgerEquiv (executeEntries rules today date contribution openAtDayStart s)
      (executeEntries rules permuted date contribution other t) := by
  obtain ⟨positions, epochs, rfl, hpositions, hepochs, hkeyed⟩ := h
  have hvalue : positionsValue s.positions = positionsValue positions :=
    congrArg quantizeMoney (hpositions.sum_eq _)
  unfold FactorSage.executeEntries
  simp only [← hvalue]
  rw [sortedCandidates_eq hopen hpositions htoday hnodup]
  exact List.foldl_rel ⟨positions, epochs, rfl, hpositions, hepochs, hkeyed⟩
    fun candidate _ _ _ hrel => hrel.executeCandidate rules date _ candidate

end

end Ledger

/-! ### Equivalent states -/

section Day

variable [JsNumber F] {s t : SimulationState F} {today permuted : TodayRows F} {date : LocalDate}

omit [JsNumber F] in
/-- The rows a security id answers to do not depend on the order of the rows. -/
theorem rowOf_eq_of_perm (htoday : today.Perm permuted)
    (hnodup : (today.map (·.1.securityId)).Nodup) : rowOf today = rowOf permuted := by
  funext id
  have hkeys : ((today.map fun entry => (entry.1.securityId, entry.2)).map Prod.fst).Nodup := by
    rw [List.map_map]
    exact hnodup
  rw [rowOf, rowOf, OrderedMap.Equiv.ofList_of_perm (htoday.map _) hkeys id]

/-- The same state, its ledger written in another order. -/
def StateEquiv (s t : SimulationState F) : Prop :=
  ∃ ledger, t = { s with ledger } ∧ LedgerEquiv s.ledger ledger

theorem LedgerEquiv.tradeDay {ledger other : Ledger F} (h : LedgerEquiv ledger other)
    (rules : ExecutionRules F) (htoday : today.Perm permuted)
    (hnodup : (today.map (·.1.securityId)).Nodup) (date : LocalDate) (contribution : F) :
    LedgerEquiv (tradeDay rules date contribution today ledger)
      (tradeDay rules date contribution permuted other) := by
  have hrows := rowOf_eq_of_perm htoday hnodup
  have hmark : markPosition today date = markPosition permuted date := by
    funext position
    unfold markPosition
    rw [hrows]
  have hmarked := (h.applyContribution contribution).mapPositions
    fun position => (@sameBook_markPosition _ _ date today position).securityId_eq
  unfold FactorSage.tradeDay markHoldings
  rw [← hmark]
  refine (hmarked.executeAllExits rules hrows date).executeEntries rules htoday hnodup date
    contribution fun id => ?_
  obtain ⟨positions, epochs, hother, hpositions, -, -⟩ := hmarked
  rw [hother]
  exact hpositions.keys_perm.mem_iff

theorem LedgerEquiv.closeDay {ledger other : Ledger F} (h : LedgerEquiv ledger other)
    (isLastDay : Bool) (htoday : today.Perm permuted)
    (hnodup : (today.map (·.1.securityId)).Nodup) (date : LocalDate) :
    LedgerEquiv (closeDay isLastDay today date ledger) (closeDay isLastDay permuted date other) := by
  have hrows := rowOf_eq_of_perm htoday hnodup
  have hrecord : recordPositionMetric today date = recordPositionMetric permuted date := by
    funext position
    unfold recordPositionMetric
    rw [hrows]
  unfold FactorSage.closeDay recordPositionMetrics
  rw [← hrecord]
  split
  · exact (h.liquidateRemainingPositions date).mapPositions
      fun _ => (sameBook_recordPositionMetric _).securityId_eq
  · exact h.mapPositions fun _ => (sameBook_recordPositionMetric _).securityId_eq

/-- What a day records does not depend on the order the ledger was written in. -/
theorem valueDay_equiv {ledger other : Ledger F} (h : LedgerEquiv ledger other)
    (series : Option (BenchmarkSeriesInput F)) (date : LocalDate) (contribution : F)
    (s : SimulationState F) :
    StateEquiv (valueDay series date contribution ledger s)
      (valueDay series date contribution other s) := by
  obtain ⟨positions, epochs, rfl, hpositions, hepochs, hkeyed⟩ := h
  have hvalue : positionsValue ledger.positions = positionsValue positions :=
    congrArg quantizeMoney (hpositions.sum_eq _)
  refine ⟨{ ledger with positions, epochs }, ?_,
    ⟨positions, epochs, rfl, hpositions, hepochs, hkeyed⟩⟩
  unfold valueDay
  simp only [← hvalue, ← hpositions.size_eq]

/-- **A day of permuted rows** leaves equivalent states equivalent. -/
theorem executeDay_equiv (h : StateEquiv s t) (run : BacktestRun F)
    (htoday : today.Perm permuted) (hnodup : (today.map (·.1.securityId)).Nodup)
    (date : LocalDate) :
    StateEquiv (executeDay run date today s) (executeDay run date permuted t) := by
  obtain ⟨ledger, rfl, hledger⟩ := h
  have hclosed := (hledger.tradeDay run.rules htoday hnodup date
    (contributionOn run date)).closeDay
      (decide (s.completedDays + 1 = run.calendar.length)) htoday hnodup date
  exact valueDay_equiv hclosed run.input.benchmark date (contributionOn run date)
    { s with scenarios := fundScenarios (contributionOn run date) s.scenarios }

theorem dayCheckpoint_equiv (h : StateEquiv s t) (run : BacktestRun F) (date : LocalDate) :
    dayCheckpoint run date s = dayCheckpoint run date t := by
  obtain ⟨_, rfl, positions, epochs, rfl, hpositions, hepochs, hkeyed⟩ := h
  have hvalue : positionsValue s.ledger.positions = positionsValue positions :=
    congrArg quantizeMoney (hpositions.sum_eq _)
  unfold dayCheckpoint buildCheckpoint
  simp only [← hvalue, ← sortedPositions_eq hpositions hkeyed]

end Day

/-! ### Equivalent simulations -/

section Simulation

variable [JsNumber F]

/-- The same run over its securities in another order. -/
def BacktestRun.withSecurities (run : BacktestRun F) (securities : List BacktestSecuritySetup) :
    BacktestRun F :=
  { run with input := { run.input with securities } }

/-- A day reads nothing of the list of securities but its rows. -/
theorem executeDay_withSecurities (run : BacktestRun F) (securities : List BacktestSecuritySetup)
    (date : LocalDate) (today : TodayRows F) (s : SimulationState F) :
    executeDay (run.withSecurities securities) date today s = executeDay run date today s := rfl

theorem dayCheckpoint_withSecurities (run : BacktestRun F)
    (securities : List BacktestSecuritySetup) (date : LocalDate) (s : SimulationState F) :
    dayCheckpoint (run.withSecurities securities) date s = dayCheckpoint run date s := rfl

/-- Two simulations of one run whose securities are `securities` in the second. What a window binds
and retains is the same, in another order. -/
def SimulationEquiv (securities : List BacktestSecuritySetup) (a b : BacktestSimulation F) :
    Prop :=
  ∃ state contextRows runtimes,
    b = { a with run := a.run.withSecurities securities, state, contextRows, runtimes }
      ∧ StateEquiv a.state state ∧ a.contextRows.Equiv contextRows
      ∧ a.runtimes.Perm runtimes
      ∧ (a.runtimes.map (·.setup.securityId)).Nodup

variable {securities : List BacktestSecuritySetup} {a b : BacktestSimulation F}
  {next : BacktestSimulation F}

theorem SimulationEquiv.simulateDate (h : SimulationEquiv securities a b) {date : LocalDate}
    (hnext : simulateDate a date = .ok next) :
    ∃ other, FactorSage.simulateDate b date = .ok other
      ∧ SimulationEquiv securities next other := by
  obtain ⟨state, contextRows, runtimes, rfl, hstate, hcontext, hruntimes, hnodup⟩ := h
  have hcompleted : state.completedDays = a.state.completedDays := by
    obtain ⟨ledger, rfl, -⟩ := hstate
    rfl
  unfold FactorSage.simulateDate at hnext ⊢
  split at hnext
  · cases hnext
  · next hdate =>
    obtain rfl := Except.ok.inj hnext
    have hadvanced := hruntimes.map (SecurityRuntime.advanceTo · date)
    have hsetups : (a.runtimes.map (SecurityRuntime.advanceTo · date)).map
        (·.setup.securityId) = a.runtimes.map (·.setup.securityId) := by
      rw [List.map_map]
      rfl
    have htoday : (todayRows (a.runtimes.map (SecurityRuntime.advanceTo · date)) date).Perm
        (todayRows (runtimes.map (SecurityRuntime.advanceTo · date)) date) :=
      hadvanced.map _
    have hids : ((todayRows (a.runtimes.map (SecurityRuntime.advanceTo · date)) date).map
        (·.1.securityId)).Nodup := by
      rw [todayRows, List.map_map]
      exact hsetups ▸ hnodup
    have hday := executeDay_equiv hstate a.run htoday hids date
    have hcontinues : ¬ (a.run.withSecurities securities).calendar[state.completedDays]?
        ≠ some date := by
      rw [hcompleted]
      exact hdate
    rw [if_neg hcontinues]
    refine ⟨_, rfl, _, contextRows, _, ?_, hday, hcontext, hadvanced, hsetups ▸ hnodup⟩
    simp only [executeDay_withSecurities, dayCheckpoint_withSecurities,
      ← dayCheckpoint_equiv hday]

theorem SimulationEquiv.simulateDates (h : SimulationEquiv securities a b)
    {dates : List LocalDate} (hnext : dates.foldlM FactorSage.simulateDate a = .ok next) :
    ∃ other, dates.foldlM FactorSage.simulateDate b = .ok other
      ∧ SimulationEquiv securities next other := by
  induction dates generalizing a b with
  | nil =>
    obtain rfl := Except.ok.inj hnext
    exact ⟨b, rfl, h⟩
  | cons date rest ih =>
    rw [List.foldlM_cons] at hnext
    cases hday : FactorSage.simulateDate a date with
    | error message =>
      rw [hday] at hnext
      cases hnext
    | ok middle =>
      rw [hday] at hnext
      obtain ⟨other, hother, hequiv⟩ := h.simulateDate hday
      obtain ⟨last, hlast, hequiv⟩ := ih hequiv hnext
      refine ⟨last, ?_, hequiv⟩
      rw [List.foldlM_cons, hother]
      exact hlast

/-! ### Windows -/

theorem get?_retainRow (rows : OrderedMap String (EvaluationFrameContextRow F))
    (entry : BacktestSecuritySetup × EvaluationFrame F) (id : String) :
    (retainRow rows entry).get? id
      = if id = entry.1.securityId then (evaluationFrameContextRow entry.2).or (rows.get? id)
        else rows.get? id := by
  unfold retainRow
  cases evaluationFrameContextRow entry.2 with
  | none => simp
  | some row => simp [OrderedMap.get?_set]

/-- The rows retained of distinct securities do not depend on the order they are written in. -/
theorem foldl_retainRow_equiv {l permuted : List (BacktestSecuritySetup × EvaluationFrame F)}
    (h : l.Perm permuted) (hnodup : (l.map (·.1.securityId)).Nodup)
    {rows other : OrderedMap String (EvaluationFrameContextRow F)} (hrows : rows.Equiv other) :
    (l.foldl retainRow rows).Equiv (permuted.foldl retainRow other) := by
  let bindings := fun l : List (BacktestSecuritySetup × EvaluationFrame F) =>
    l.map fun entry => (entry.1.securityId, evaluationFrameContextRow entry.2)
  have hkeys : ∀ l, (bindings l).map Prod.fst = l.map (·.1.securityId) := fun l => by
    rw [List.map_map]
    rfl
  have hfold : ∀ l : List (BacktestSecuritySetup × EvaluationFrame F),
      (l.map (·.1.securityId)).Nodup → ∀ rows id, (l.foldl retainRow rows).get? id
        = if id ∈ l.map (·.1.securityId) then
            (((OrderedMap.ofList (bindings l)).get? id).join).or (rows.get? id)
          else rows.get? id := by
    intro l hl rows id
    refine OrderedMap.get?_foldl_write _
      (fun id => ((OrderedMap.ofList (bindings l)).get? id).join) (fun entry hentry m k => ?_) rows id
    rw [get?_retainRow]
    split
    · next hk =>
      have hget : (OrderedMap.ofList (bindings l)).get? k
          = some (evaluationFrameContextRow entry.2) := by
        rw [OrderedMap.get?_ofList_iff (hkeys l ▸ hl), hk]
        exact List.mem_map.mpr ⟨entry, hentry, rfl⟩
      simp only [hget, Option.join_some]
    · rfl
  intro id
  have hmem : id ∈ l.map (·.1.securityId) ↔ id ∈ permuted.map (·.1.securityId) :=
    (h.map _).mem_iff
  have hbindings : (OrderedMap.ofList (bindings l)).get? id
      = (OrderedMap.ofList (bindings permuted)).get? id :=
    OrderedMap.Equiv.ofList_of_perm (h.map _) (hkeys l ▸ hnodup) id
  rw [hfold l hnodup, hfold permuted ((h.map _).nodup_iff.mp hnodup), hbindings, hrows id]
  simp only [hmem]

/-- Frames permuted together with the securities they answer to. -/
def PermutedTogether (setups permuted : List BacktestSecuritySetup)
    (frames others : List (EvaluationFrame F)) : Prop :=
  others.length = permuted.length ∧ (setups.zip frames).Perm (permuted.zip others)

omit [JsNumber F] in
theorem framesMatch_of_permuted {setups permuted : List BacktestSecuritySetup}
    {frames others : List (EvaluationFrame F)} (h : PermutedTogether setups permuted frames others)
    (hmatch : FramesMatch setups frames) : FramesMatch permuted others :=
  List.forall₂_iff_zip.mpr ⟨h.1.symm, fun hmem =>
    (List.forall₂_iff_zip.mp hmatch).2 (h.2.mem_iff.mpr hmem)⟩

theorem SimulationEquiv.simulateFrames (h : SimulationEquiv securities a b)
    {frames others : List (EvaluationFrame F)}
    (hframes : PermutedTogether a.run.input.securities securities frames others)
    (hsetups : (a.run.input.securities.map (·.securityId)).Nodup) {dates : List LocalDate}
    (hnext : simulateFrames a frames dates = .ok next) :
    ∃ other, FactorSage.simulateFrames b others dates = .ok other
      ∧ SimulationEquiv securities next other := by
  obtain ⟨hmatch, simulated, hdays, rfl⟩ := exists_of_simulateFrames hnext
  have hothers := framesMatch_of_permuted hframes hmatch
  obtain ⟨state, contextRows, runtimes, rfl, hstate, hcontext, -, -⟩ := h
  -- the frames are bound to the same securities, spliced with the same retained rows
  have hbound : (boundRuntimes a.run.input.definition a.contextRows a.run.input.securities
      frames).Perm (boundRuntimes a.run.input.definition contextRows securities others) := by
    have hsplice : (fun entry : BacktestSecuritySetup × EvaluationFrame F =>
        boundRuntime a.run.input.definition entry.1
          (splicedFrame entry.2 (a.contextRows.get? entry.1.securityId)))
        = fun entry => boundRuntime a.run.input.definition entry.1
          (splicedFrame entry.2 (contextRows.get? entry.1.securityId)) := by
      funext entry
      rw [hcontext entry.1.securityId]
    unfold boundRuntimes
    rw [hsplice]
    exact hframes.2.map _
  have hids : ((boundRuntimes a.run.input.definition a.contextRows a.run.input.securities
      frames).map (·.setup.securityId)).Nodup := by
    have hmap := map_setup_boundRuntimes a.run.input.definition a.contextRows hmatch
    have hcomp := congrArg (List.map BacktestSecuritySetup.securityId) hmap
    rw [List.map_map] at hcomp
    exact hcomp ▸ hsetups
  have hopened : SimulationEquiv securities
      { a with
        runtimes := boundRuntimes a.run.input.definition a.contextRows a.run.input.securities
          frames }
      { a with
        run := a.run.withSecurities securities
        state
        contextRows
        runtimes := boundRuntimes a.run.input.definition contextRows securities others } :=
    ⟨state, contextRows, _, rfl, hstate, hcontext, hbound, hids⟩
  obtain ⟨other, hother, state', contextRows', runtimes', rfl, hstate', hcontext', hruntimes',
    hnodup'⟩ := hopened.simulateDates hdays
  refine ⟨_, simulateFrames_eq_ok hothers hother, state', _, [], rfl, hstate', ?_, .nil,
    List.nodup_nil⟩
  refine foldl_retainRow_equiv (hruntimes'.map _) ?_ hcontext'
  rw [List.map_map]
  exact hnodup'

/-! ### Whole runs -/

/-- The same call, its frames permuted together with the securities. -/
inductive PermutedCall (setups permuted : List BacktestSecuritySetup) :
    SimulationCall F → SimulationCall F → Prop
  | window (window : BacktestExecutionWindow) (frames others : List (EvaluationFrame F))
      (h : PermutedTogether setups permuted frames others) :
      PermutedCall setups permuted (.window window frames) (.window window others)
  | wholePeriod (frames others : List (EvaluationFrame F))
      (h : PermutedTogether setups permuted frames others) :
      PermutedCall setups permuted (.wholePeriod frames) (.wholePeriod others)

/-- **One call**, whatever it consumes. -/
theorem SimulationEquiv.consume (h : SimulationEquiv securities a b)
    (hsetups : (a.run.input.securities.map (·.securityId)).Nodup) {call other : SimulationCall F}
    (hcall : PermutedCall a.run.input.securities securities call other)
    (hnext : consumeCall a call = .ok next) :
    ∃ simulated, consumeCall b other = .ok simulated ∧ SimulationEquiv securities next simulated
      ∧ next.run = a.run := by
  obtain ⟨state, contextRows, runtimes, rfl, hstate, hcontext, hruntimes, hnodup⟩ := h
  cases hcall with
  | window window frames others hframes =>
    obtain ⟨hexpected, hdays⟩ := consumeWindow_eq_ok_iff.mp hnext
    have hclaimed : SimulationEquiv securities a.claimWindow
        (BacktestSimulation.claimWindow
          { a with run := a.run.withSecurities securities, state, contextRows, runtimes }) :=
      ⟨state, contextRows, runtimes, rfl, hstate, hcontext, hruntimes, hnodup⟩
    obtain ⟨simulated, hsimulated, hequiv⟩ := hclaimed.simulateFrames hframes hsetups hdays
    exact ⟨simulated, consumeWindow_eq_ok_iff.mpr ⟨hexpected, hsimulated⟩, hequiv,
      (simulatesDates_of_simulateFrames hdays).run_eq⟩
  | wholePeriod frames others hframes =>
    obtain ⟨hstarted, hdays⟩ := consumeWholePeriod_eq_ok_iff_simulateFrames.mp hnext
    have hclaimed : SimulationEquiv securities
        { a with nextWindowIndex := a.windows.length }
        { a with
          run := a.run.withSecurities securities
          state
          contextRows
          runtimes
          nextWindowIndex := a.windows.length } :=
      ⟨state, contextRows, runtimes, rfl, hstate, hcontext, hruntimes, hnodup⟩
    obtain ⟨simulated, hsimulated, hequiv⟩ := hclaimed.simulateFrames hframes hsetups hdays
    exact ⟨simulated, consumeWholePeriod_eq_ok_iff_simulateFrames.mpr ⟨hstarted, hsimulated⟩,
      hequiv, (simulatesDates_of_simulateFrames hdays).run_eq⟩

theorem SimulationEquiv.consumeAll {calls others : List (SimulationCall F)}
    (h : SimulationEquiv securities a b)
    (hsetups : (a.run.input.securities.map (·.securityId)).Nodup)
    (hcalls : List.Forall₂ (PermutedCall a.run.input.securities securities) calls others)
    (hnext : calls.foldlM consumeCall a = .ok next) :
    ∃ simulated, others.foldlM consumeCall b = .ok simulated
      ∧ SimulationEquiv securities next simulated := by
  induction calls generalizing a b others with
  | nil =>
    cases hcalls
    obtain rfl := Except.ok.inj hnext
    exact ⟨b, rfl, h⟩
  | cons call rest ih =>
    cases hcalls with
    | cons hcall hrest =>
      rw [List.foldlM_cons] at hnext
      cases hfirst : consumeCall a call with
      | error message =>
        rw [hfirst] at hnext
        cases hnext
      | ok middle =>
        rw [hfirst] at hnext
        obtain ⟨simulated, hsimulated, hequiv, hrun⟩ := h.consume hsetups hcall hfirst
        obtain ⟨last, hlast, hequiv⟩ :=
          ih hequiv (hrun ▸ hsetups) (hrun ▸ hrest) hnext
        refine ⟨last, ?_, hequiv⟩
        rw [List.foldlM_cons, hsimulated]
        exact hlast

/-- A result reads the state and the sorted positions, and nothing of the list of securities. -/
theorem SimulationEquiv.finish_eq (h : SimulationEquiv securities a b) : finish b = finish a := by
  obtain ⟨_, contextRows, runtimes, rfl, ⟨_, rfl, positions, epochs, rfl, hpositions, -, hkeyed⟩,
    -, -, -⟩ := h
  have hfinal : ∀ total, finalPositions positions total
      = finalPositions a.state.ledger.positions total := fun total => by
    unfold finalPositions
    rw [sortedPositions_eq hpositions hkeyed]
  unfold finish buildSummary
  simp only [hfinal]
  rfl

omit [JsNumber F] in
theorem SimulationEquiv.checkpoints_eq (h : SimulationEquiv securities a b) :
    b.checkpoints = a.checkpoints := by
  obtain ⟨state, contextRows, runtimes, rfl, -⟩ := h
  rfl

variable {input : BacktestSimulationInput F} {permuted : List BacktestSecuritySetup}
  {options : BacktestSimulationOptions}

/-- The constructor accepts the permuted input and starts in the same state. -/
theorem createBacktestSimulation_permuted (hpermuted : input.securities.Perm permuted)
    {created : BacktestSimulation F}
    (hcreated : createBacktestSimulation input options = .ok created) :
    ∃ other, createBacktestSimulation { input with securities := permuted } options = .ok other
      ∧ SimulationEquiv permuted created other ∧ created.run.input = input := by
  obtain ⟨haccepted, hcalendar, rfl⟩ := createBacktestSimulation_eq_ok_iff.mp hcreated
  have hnonempty : permuted ≠ [] := fun hnil =>
    haccepted.securities_ne_nil (List.perm_nil.mp (hnil ▸ hpermuted))
  have hledger : LedgerEquiv (initialState input).ledger (initialState input).ledger :=
    ⟨_, _, rfl, .refl _, .refl _, fun id position hget => by cases hget⟩
  exact ⟨_, createBacktestSimulation_eq_ok_iff.mpr
      ⟨{ haccepted with securities_ne_nil := hnonempty }, hcalendar, rfl⟩,
    ⟨_, _, _, rfl, ⟨_, rfl, hledger⟩, .refl _, .nil, List.nodup_nil⟩, rfl⟩

/-- **A run does not depend on the order of its securities.** Permuting them together with the
frames of every call leaves every checkpoint and the whole result as they were. -/
theorem finish_of_permuted {calls others : List (SimulationCall F)}
    {created simulated : BacktestSimulation F} (hpermuted : input.securities.Perm permuted)
    (hsetups : (input.securities.map (·.securityId)).Nodup)
    (hcalls : List.Forall₂ (PermutedCall input.securities permuted) calls others)
    (hcreated : createBacktestSimulation input options = .ok created)
    (hsimulated : calls.foldlM consumeCall created = .ok simulated) :
    ∃ created' simulated',
      createBacktestSimulation { input with securities := permuted } options = .ok created'
        ∧ others.foldlM consumeCall created' = .ok simulated'
        ∧ simulated'.checkpoints = simulated.checkpoints
        ∧ finish simulated' = finish simulated := by
  obtain ⟨created', hcreated', hequiv, hinput⟩ :=
    createBacktestSimulation_permuted hpermuted hcreated
  obtain ⟨simulated', hsimulated', hequiv⟩ :=
    hequiv.consumeAll (hinput ▸ hsetups) (hinput ▸ hcalls) hsimulated
  exact ⟨created', simulated', hcreated', hsimulated', hequiv.checkpoints_eq, hequiv.finish_eq⟩

end Simulation

/-- The sample run with its two securities exchanged. -/
theorem finish_of_permuted_sample :
    ∃ created' simulated',
      createBacktestSimulation
          { sampleInput with securities := [sampleSetup "B", sampleSetup "A"] } sampleOptions
            = .ok created'
        ∧ [SimulationCall.wholePeriod [sampleFrame "B", sampleFrame "A"]].foldlM
            consumeCall created' = .ok simulated'
        ∧ simulated'.checkpoints = (wholePeriodSimulation sampleInput sampleOptions
            [sampleFrame "A", sampleFrame "B"]).checkpoints
        ∧ finish simulated' = finish (wholePeriodSimulation sampleInput sampleOptions
            [sampleFrame "A", sampleFrame "B"]) := by
  have hconsumed : consumeWholePeriod (freshSimulation sampleInput sampleOptions)
      [sampleFrame "A", sampleFrame "B"] = .ok (wholePeriodSimulation sampleInput sampleOptions
        [sampleFrame "A", sampleFrame "B"]) :=
    consumeWholePeriod_eq_ok_iff.mpr ⟨.cons rfl (.cons rfl .nil), rfl⟩
  refine finish_of_permuted (.swap _ _ _) (by decide)
    (.cons (.wholePeriod [sampleFrame "A", sampleFrame "B"] _ ⟨rfl, .swap _ _ _⟩) .nil)
    createBacktestSimulation_sampleInput ?_
  rw [List.foldlM_cons, consumeCall, hconsumed]
  rfl

end FactorSage
