import FactorSage.Backtest.Run
import FactorSage.Library.Episodes

/-!
# Position lifecycles

What the methodology says of a trade log, security by security: from the BUY that opens a position
to the trade that leaves it without shares.

* `lifecycles` — the lifecycles of one security, the open one last.
* `IsLifecycleTrade` — what one trade owes to the trades of its lifecycle before it.
* `IsMethodical` — every lifecycle, what lies between two of them, and how many are open at once.
* `IsMethodical.append_singleton` — a log stays methodical trade by trade.
-/

namespace FactorSage

variable {F : Type}

/-! ### Lifecycles -/

/-- A trade that leaves no shares closes its lifecycle. -/
def closesLifecycle (trade : BacktestTradeRecord F) : Bool := decide (trade.sharesAfter.value = 0)

/-- The lifecycles of one security in a trade log. -/
def lifecycles (securityId : String) (trades : List (BacktestTradeRecord F)) :
    Episodes (BacktestTradeRecord F) :=
  episodes closesLifecycle (trades.filter fun trade => decide (trade.securityId = securityId))

/-- The securities whose lifecycle is open after some trades. -/
def openSecurities (trades : List (BacktestTradeRecord F)) : List String :=
  (trades.map (·.securityId)).dedup.filter fun id => decide (0 < (lifecycles id trades).current.length)

/-- The shares of an open lifecycle: those its last trade left. -/
def sharesHeld (securityId : String) (trades : List (BacktestTradeRecord F)) : MoneyValue :=
  ((lifecycles securityId trades).current.getLast?.map fun trade => trade.sharesAfter.value).getD 0

variable {trades : List (BacktestTradeRecord F)} {trade : BacktestTradeRecord F} {id : String}

theorem lifecycles_append_of_eq (h : trade.securityId = id) :
    lifecycles id (trades ++ [trade]) = (lifecycles id trades).push closesLifecycle trade := by
  rw [lifecycles, List.filter_append, List.filter_singleton]
  simp [h, lifecycles]

theorem lifecycles_append_of_ne (h : trade.securityId ≠ id) :
    lifecycles id (trades ++ [trade]) = lifecycles id trades := by
  rw [lifecycles, List.filter_append, List.filter_singleton]
  simp [h, lifecycles]

theorem mem_of_mem_lifecycles {life : List (BacktestTradeRecord F)}
    (hlife : life ∈ (lifecycles id trades).all) (h : trade ∈ life) :
    trade ∈ trades ∧ trade.securityId = id := by
  simpa using mem_of_mem_all_episodes hlife h

theorem mem_of_mem_current (h : trade ∈ (lifecycles id trades).current) :
    trade ∈ trades ∧ trade.securityId = id :=
  mem_of_mem_lifecycles (Episodes.current_mem_all (List.ne_nil_of_mem h)) h

/-- A lifecycle is open when it has trades. -/
theorem mem_openSecurities : id ∈ openSecurities trades ↔ (lifecycles id trades).current ≠ [] := by
  rw [openSecurities, List.mem_filter, decide_eq_true_eq, List.length_pos_iff, List.mem_dedup]
  refine ⟨fun h => h.2, fun h => ⟨?_, h⟩⟩
  obtain ⟨trade, hmem⟩ := List.exists_mem_of_ne_nil _ h
  obtain ⟨htrade, rfl⟩ := mem_of_mem_current hmem
  exact List.mem_map_of_mem htrade

theorem nodup_openSecurities (trades : List (BacktestTradeRecord F)) :
    (openSecurities trades).Nodup :=
  (List.nodup_dedup _).filter _

/-! ### The methodology -/

/-- A partial SELL of the strategy's own. -/
def IsStrategySell (trade : BacktestTradeRecord F) : Prop :=
  trade.action = .sell ∧ trade.source = .strategy

/-- The later BUY is of a strictly larger allocation tier. -/
def RaisesTier (earlier later : BacktestTradeRecord F) : Prop :=
  ∃ smaller larger, earlier.levelPercentage = some smaller ∧ later.levelPercentage = some larger
    ∧ smaller < larger

/-- A lifecycle that ends on one date and another that starts on a different one. -/
def OpensOnAnotherDate (previous next : List (BacktestTradeRecord F)) : Prop :=
  ∀ last ∈ previous.getLast?, ∀ first ∈ next.head?, last.date ≠ first.date

variable [JsNumber F]

/-- Whether a date of a run receives a monthly contribution. -/
def receivesContribution (run : BacktestRun F) (date : LocalDate) : Bool :=
  isDeposit (contributionOn run date)

/-- One trade of a lifecycle, after the trades of the lifecycle before it. -/
structure IsLifecycleTrade (run : BacktestRun F) (securityId : String)
    (before : List (BacktestTradeRecord F)) (trade : BacktestTradeRecord F) : Prop where
  /-- A BUY opens it. -/
  opens : before = [] → trade.action = .buy
  /-- Without new capital a BUY is of a larger tier than every BUY before it. -/
  raises : trade.action = .buy → receivesContribution run trade.date = false →
    ∀ earlier ∈ before, earlier.action = .buy → RaisesTier earlier trade
  /-- A SELL level fires once. -/
  firesOnce : IsStrategySell trade → ∀ earlier ∈ before, IsStrategySell earlier →
    earlier.levelId ≠ trade.levelId
  /-- A BUY is inside the security's buy windows. -/
  eligible : trade.action = .buy → ∃ setup ∈ run.input.securities,
    setup.securityId = securityId ∧ isBuyWindowEligible setup.buyWindows trade.date = true
  /-- A FINAL EXIT sells all the shares the trade before it left. -/
  exits : trade.action = .finalExit → trade.sharesAfter.value = 0
    ∧ ∃ previous, before.getLast? = some previous ∧ trade.shares = previous.sharesAfter

/-- One lifecycle, closed or still open. -/
structure IsLifecycle (run : BacktestRun F) (securityId : String)
    (life : List (BacktestTradeRecord F)) : Prop where
  trade : ∀ before trade after, life = before ++ trade :: after →
    IsLifecycleTrade run securityId before trade
  exitLast : ∀ before trade after, life = before ++ trade :: after →
    trade.action = .finalExit → after = []

/-- A trade log as the methodology has it. -/
structure IsMethodical (run : BacktestRun F) (trades : List (BacktestTradeRecord F)) : Prop where
  lifecycle : ∀ id, ∀ life ∈ (lifecycles id trades).all, IsLifecycle run id life
  /-- No lifecycle opens on a date an earlier one of the security closed. -/
  reopens : ∀ id, (lifecycles id trades).all.Pairwise OpensOnAnotherDate
  /-- A FINAL EXIT is the only trade of its security on its date. -/
  exitsAlone : trades.Pairwise fun earlier later =>
    earlier.securityId = later.securityId → earlier.date = later.date →
      earlier.action ≠ .finalExit ∧ later.action ≠ .finalExit
  /-- At every moment, the lifecycles open have a slot each and hold shares. -/
  slots : ∀ before, before <+: trades →
    ((openSecurities before).length : ℤ) ≤ run.input.maximumPositions
      ∧ ∀ id ∈ openSecurities before, 0 < sharesHeld id before

/-! ### One more trade -/

/-- What a trade owes to the log before it. -/
structure IsMethodicalTrade (run : BacktestRun F) (trades : List (BacktestTradeRecord F))
    (trade : BacktestTradeRecord F) : Prop where
  lifecycle : IsLifecycleTrade run trade.securityId (lifecycles trade.securityId trades).current
    trade
  reopens : (lifecycles trade.securityId trades).current = [] →
    ∀ earlier ∈ trades, earlier.securityId = trade.securityId → earlier.date ≠ trade.date
  alone : ∀ earlier ∈ trades, earlier.securityId = trade.securityId → earlier.date = trade.date →
    earlier.action ≠ .finalExit ∧ trade.action ≠ .finalExit
  slots : ((openSecurities (trades ++ [trade])).length : ℤ) ≤ run.input.maximumPositions
  shares_nonneg : 0 ≤ trade.sharesAfter.value

variable {run : BacktestRun F}

theorem isLifecycle_nil (run : BacktestRun F) (id : String) : IsLifecycle run id [] :=
  ⟨fun before trade after h => by simp at h, fun before trade after h => by simp at h⟩

/-- A lifecycle grows trade by trade, as long as no FINAL EXIT has ended it. -/
theorem IsLifecycle.append_singleton {life : List (BacktestTradeRecord F)}
    (h : IsLifecycle run id life) (hopen : ∀ earlier ∈ life, earlier.action ≠ .finalExit)
    (htrade : IsLifecycleTrade run id life trade) : IsLifecycle run id (life ++ [trade]) := by
  have hsplit : ∀ before row after, life ++ [trade] = before ++ row :: after →
      (after = [] ∧ before = life ∧ row = trade) ∨ ∃ rest, life = before ++ row :: rest := by
    intro before row after heq
    rcases after.eq_nil_or_concat with rfl | ⟨rest, last, rfl⟩
    · obtain ⟨rfl, hrow⟩ := List.append_inj' heq rfl
      exact .inl ⟨rfl, rfl, (List.cons.inj hrow).1.symm⟩
    · rw [List.concat_eq_append, ← List.cons_append, ← List.append_assoc] at heq
      exact .inr ⟨rest, (List.append_inj' heq rfl).1⟩
  constructor
  · intro before row after heq
    rcases hsplit before row after heq with ⟨-, rfl, rfl⟩ | ⟨rest, hlife⟩
    · exact htrade
    · exact h.trade before row rest hlife
  · intro before row after heq hexit
    rcases hsplit before row after heq with ⟨hafter, -, -⟩ | ⟨rest, hlife⟩
    · exact hafter
    · refine absurd hexit (hopen row ?_)
      rw [hlife]
      exact List.mem_append.mpr (.inr List.mem_cons_self)

/-- The open lifecycle of a methodical log has no FINAL EXIT in it: one would have closed it. -/
theorem IsMethodical.not_finalExit_of_mem_current (h : IsMethodical run trades)
    (hmem : trade ∈ (lifecycles id trades).current) : trade.action ≠ .finalExit := by
  intro hexit
  have hlife := h.lifecycle id _ (Episodes.current_mem_all (List.ne_nil_of_mem hmem))
  obtain ⟨before, after, heq⟩ := List.append_of_mem hmem
  obtain ⟨hzero, -⟩ := (hlife.trade before trade after heq).exits hexit
  have hcloses := not_closes_of_mem_current hmem
  rw [closesLifecycle, decide_eq_false_iff_not] at hcloses
  exact hcloses hzero

theorem IsMethodical.isLifecycle_current (h : IsMethodical run trades) (id : String) :
    IsLifecycle run id (lifecycles id trades).current := by
  by_cases hnil : (lifecycles id trades).current = []
  · rw [hnil]
    exact isLifecycle_nil run id
  · exact h.lifecycle id _ (Episodes.current_mem_all hnil)

theorem IsMethodical.nil (hpositions : 0 < run.input.maximumPositions) :
    IsMethodical run [] where
  lifecycle := fun id life hlife => by
    change life ∈ [] at hlife
    cases hlife
  reopens := fun id => List.Pairwise.nil
  exitsAlone := List.Pairwise.nil
  slots := fun before hbefore => by
    obtain rfl := List.prefix_nil.mp hbefore
    refine ⟨hpositions.le, fun id hid => ?_⟩
    change id ∈ [] at hid
    cases hid

/-- The shares of every lifecycle open after one more trade. -/
theorem IsMethodical.sharesHeld_pos (h : IsMethodical run trades)
    (hnonneg : 0 ≤ trade.sharesAfter.value) (hid : id ∈ openSecurities (trades ++ [trade])) :
    0 < sharesHeld id (trades ++ [trade]) := by
  rw [mem_openSecurities] at hid
  by_cases heq : trade.securityId = id
  · rw [sharesHeld]
    rw [lifecycles_append_of_eq heq] at hid ⊢
    cases hcloses : closesLifecycle trade with
    | true =>
      rw [Episodes.push_of_closes hcloses] at hid
      exact absurd rfl hid
    | false =>
      rw [closesLifecycle, decide_eq_false_iff_not] at hcloses
      rw [Episodes.push_of_not_closes (by rw [closesLifecycle, decide_eq_false_iff_not]; exact hcloses),
        List.getLast?_concat]
      exact lt_of_le_of_ne hnonneg (Ne.symm hcloses)
  · rw [sharesHeld]
    rw [lifecycles_append_of_ne heq] at hid ⊢
    exact (h.slots trades List.prefix_rfl).2 id (mem_openSecurities.mpr hid)

/-- **A log stays methodical trade by trade.** -/
theorem IsMethodical.append_singleton (h : IsMethodical run trades)
    (htrade : IsMethodicalTrade run trades trade) : IsMethodical run (trades ++ [trade]) := by
  constructor
  · intro id
    by_cases heq : trade.securityId = id
    · subst heq
      rw [lifecycles_append_of_eq rfl]
      refine Episodes.forall_mem_all_push (h.lifecycle _) ?_
      exact (h.isLifecycle_current _).append_singleton
        (fun earlier hmem => h.not_finalExit_of_mem_current hmem) htrade.lifecycle
    · rw [lifecycles_append_of_ne heq]
      exact h.lifecycle id
  · intro id
    by_cases heq : trade.securityId = id
    · subst heq
      rw [lifecycles_append_of_eq rfl]
      refine Episodes.pairwise_all_push (h.reopens _) fun previous hprevious last hlast first hfirst => ?_
      have hclosed := Episodes.closed_subset_all hprevious
      by_cases hcurrent : (lifecycles trade.securityId trades).current = []
      · -- the trade itself opens the next lifecycle
        rw [hcurrent, List.nil_append, List.head?_cons, Option.mem_some_iff] at hfirst
        subst hfirst
        obtain ⟨hmem, hid⟩ := mem_of_mem_lifecycles hclosed (List.mem_of_getLast? hlast)
        exact htrade.reopens hcurrent last hmem hid
      · -- it joins one that was already there
        rw [List.head?_append_of_ne_nil _ hcurrent] at hfirst
        have hpair := (List.pairwise_append.mp (h.reopens trade.securityId)).2.2 previous hprevious
          (lifecycles trade.securityId trades).current (by rw [if_neg hcurrent]; exact List.mem_cons_self)
        exact hpair last hlast first hfirst
    · rw [lifecycles_append_of_ne heq]
      exact h.reopens id
  · rw [List.pairwise_append]
    refine ⟨h.exitsAlone, List.pairwise_singleton _ _, fun earlier hmem later hlater => ?_⟩
    obtain rfl := List.mem_singleton.mp hlater
    exact htrade.alone earlier hmem
  · intro before hbefore
    rcases List.prefix_concat_iff.mp hbefore with rfl | hbefore
    · exact ⟨htrade.slots, fun id hid => h.sharesHeld_pos htrade.shares_nonneg hid⟩
    · exact h.slots before hbefore

end FactorSage
