import FactorSage.FmpGate.Traffic

/-!
# The window that is open and the cooldown

Two keys with a lifetime. The counter takes its deadline from its first increment, so while it is
there it counts exactly the admissions of one window, and once it is gone every window has ended
(`WindowsKept`). The cooldown key holds the latest deadline published and is gone only when that
deadline has passed (`CooldownKept`).
-/

namespace FactorSage.FmpGate

open RateWindow

variable {Token : Type} [LinearOrder Token] {options : GateOptions} {gate next : Gate Token}

/-! ### Windows -/

/-- The admissions, each with the window that counts it. -/
def windowLog (history : List (GateEvent Token)) : List Event :=
  history.filterMap fun
    | .admitted _ instant _ windowEnd => some ⟨instant, windowEnd⟩
    | _ => none

section

omit [LinearOrder Token]

theorem windowLog_concat (history : List (GateEvent Token)) (token : Token)
    (instant leaseEnd windowEnd : ℕ) :
    windowLog (history ++ [.admitted token instant leaseEnd windowEnd])
      = windowLog history ++ [⟨instant, windowEnd⟩] :=
  List.filterMap_append

theorem windowLog_concat_released (history : List (GateEvent Token)) (token : Token) :
    windowLog (history ++ [.released token]) = windowLog history :=
  List.filterMap_append.trans (List.append_nil _)

theorem windowLog_concat_published (history : List (GateEvent Token)) (deadline : ℕ) :
    windowLog (history ++ [.published deadline]) = windowLog history :=
  List.filterMap_append.trans (List.append_nil _)

end

/-- What the counter counts: the admissions of the window that ends at its deadline, which is the
last window. -/
structure CountsWindow (span now : ℕ) (log : List Event) (counter : Expiring ℕ) (deadline : ℕ) :
    Prop where
  lasts : counter.expiresAt = some deadline
  counted : counter.value = countIn log deadline
  positive : 0 < counter.value
  underWay : now ≤ deadline ∧ deadline ≤ now + span
  last : ∀ e ∈ log, e.windowEnd = deadline ∨ e.windowEnd + span < deadline

structure WindowsKept (options : GateOptions) (gate : Gate Token) : Prop where
  windowed : Windowed options.rateWindowMs options.rateLimitPerWindow (windowLog gate.history)
  /-- An admission is counted in a window that an admission opened. -/
  opener : ∀ e ∈ windowLog gate.history, ∃ first ∈ windowLog gate.history,
    first.windowEnd = e.windowEnd ∧ first.windowEnd = first.instant + options.rateWindowMs
  counting : ∀ counter, gate.store.rateWindow = some counter →
    ∃ deadline, CountsWindow options.rateWindowMs gate.store.now (windowLog gate.history) counter
      deadline
  ended : gate.store.rateWindow = none →
    ∀ e ∈ windowLog gate.history, e.windowEnd < gate.store.now

theorem countWindow_of_none {st : GateStore Token} (h : st.rateWindow = none) :
    countWindow options st = ⟨1, some (st.now + options.rateWindowMs)⟩ := by
  unfold countWindow incr
  rw [h]
  rfl

theorem countWindow_of_some {st : GateStore Token} {counter : Expiring ℕ}
    (h : st.rateWindow = some counter) (hpositive : 0 < counter.value) :
    countWindow options st = ⟨counter.value + 1, counter.expiresAt⟩ := by
  unfold countWindow incr
  rw [h]
  exact if_neg fun heq => hpositive.ne' (Nat.succ.inj heq)

theorem countIn_eq_zero {log : List Event} {deadline : ℕ} (h : ∀ e ∈ log, e.windowEnd < deadline) :
    countIn log deadline = 0 :=
  List.countP_eq_zero.mpr fun e he heq => (h e he).ne (of_decide_eq_true heq)

/-- An admission opens a window when none is open, and is the next one of the open window
otherwise. -/
theorem WindowsKept.admitToken (h : WindowsKept options gate) {token : Token}
    (hadmits : Admits options token gate next) : WindowsKept options next := by
  have hnow : next.store.now = gate.store.now := by rw [hadmits.store]
  have hcounter : next.store.rateWindow = some (countWindow options gate.store) := by
    rw [hadmits.store]
  have hlog : windowLog next.history
      = windowLog gate.history ++ [⟨gate.store.now, next.store.windowEnd⟩] := by
    rw [hadmits.history, windowLog_concat]
  have hspan : 0 < (options.rateWindowMs : ℕ) := options.rateWindowMs.pos
  have hroom := hadmits.room
  cases hwindow : gate.store.rateWindow with
  | none =>
    -- a first admission opens a window: every earlier one has ended
    have hended := h.ended hwindow
    rw [countWindow_of_none hwindow] at hcounter
    have hend : next.store.windowEnd = gate.store.now + options.rateWindowMs := by
      unfold GateStore.windowEnd
      rw [hcounter]
      rfl
    have hzero : countIn (windowLog gate.history) (gate.store.now + options.rateWindowMs) = 0 :=
      countIn_eq_zero fun e he => (hended e he).trans_le (Nat.le_add_right _ _)
    have hlast : ∀ e ∈ windowLog gate.history,
        e.windowEnd = gate.store.now + options.rateWindowMs
          ∨ e.windowEnd + options.rateWindowMs < gate.store.now + options.rateWindowMs :=
      fun e he => .inr (Nat.add_lt_add_right (hended e he) _)
    rw [hend] at hlog
    refine ⟨?_, fun e he => ?_, fun counter hsome => ?_, fun hnone => ?_⟩
    · rw [hlog]
      refine h.windowed.append ⟨Nat.le_add_right _ _, le_refl _⟩ hlast ?_
      exact hzero ▸ options.rateLimitPerWindow.pos
    · rw [hlog] at he ⊢
      rcases List.mem_append.mp he with hold | hnew
      · obtain ⟨first, hfirst, hopens⟩ := h.opener e hold
        exact ⟨first, List.mem_append_left _ hfirst, hopens⟩
      · rw [List.mem_singleton.mp hnew]
        exact ⟨_, List.mem_append_right _ (List.mem_singleton_self _), rfl, rfl⟩
    · obtain rfl := Option.some.inj (hcounter.symm.trans hsome)
      refine ⟨gate.store.now + options.rateWindowMs, rfl, ?_, Nat.one_pos, ?_, fun e he => ?_⟩
      · rw [hlog, countIn_append, hzero, if_pos rfl]
      · rw [hnow]
        exact ⟨Nat.le_add_right _ _, le_refl _⟩
      · rw [hlog] at he
        rcases List.mem_append.mp he with hold | hnew
        · exact hlast e hold
        · exact .inl (by rw [List.mem_singleton.mp hnew])
    · rw [hcounter] at hnone
      cases hnone
  | some counter =>
    -- a later one counts in the window under way, which has room
    obtain ⟨deadline, hcounts⟩ := h.counting counter hwindow
    rw [countWindow_of_some hwindow hcounts.positive, hcounts.lasts] at hcounter
    have hend : next.store.windowEnd = deadline := by
      unfold GateStore.windowEnd
      rw [hcounter]
      rfl
    have hbelow : countIn (windowLog gate.history) deadline < options.rateLimitPerWindow := by
      rw [← hcounts.counted]
      rw [hwindow] at hroom
      exact hroom
    rw [hend] at hlog
    refine ⟨?_, fun e he => ?_, fun counter' hsome => ?_, fun hnone => ?_⟩
    · rw [hlog]
      exact h.windowed.append hcounts.underWay hcounts.last hbelow
    · rw [hlog] at he ⊢
      rcases List.mem_append.mp he with hold | hnew
      · obtain ⟨first, hfirst, hopens⟩ := h.opener e hold
        exact ⟨first, List.mem_append_left _ hfirst, hopens⟩
      · -- the counter is positive, so the window has an admission already
        have hsome : 0 < countIn (windowLog gate.history) deadline :=
          hcounts.counted ▸ hcounts.positive
        obtain ⟨old, hold, heq⟩ := List.countP_pos_iff.mp hsome
        obtain ⟨first, hfirst, hsame, hopens⟩ := h.opener old hold
        rw [List.mem_singleton.mp hnew]
        refine ⟨first, List.mem_append_left _ hfirst, ?_, hopens⟩
        exact hsame.trans (of_decide_eq_true heq)
    · obtain rfl := Option.some.inj (hcounter.symm.trans hsome)
      refine ⟨deadline, rfl, ?_, Nat.succ_pos _, ?_, fun e he => ?_⟩
      · rw [hlog, countIn_append, if_pos rfl, ← hcounts.counted]
      · rw [hnow]
        exact hcounts.underWay
      · rw [hlog] at he
        rcases List.mem_append.mp he with hold | hnew
        · exact hcounts.last e hold
        · exact .inl (by rw [List.mem_singleton.mp hnew])
    · rw [hcounter] at hnone
      cases hnone

/-- A gate with the log, the counter and the clock of another. -/
theorem WindowsKept.of_eq (h : WindowsKept options gate)
    (hlog : windowLog next.history = windowLog gate.history)
    (hcounter : next.store.rateWindow = gate.store.rateWindow)
    (hnow : next.store.now = gate.store.now) : WindowsKept options next := by
  obtain ⟨hwindowed, hopener, hcounting, hended⟩ := h
  refine ⟨?_, ?_, ?_, ?_⟩
  · rwa [hlog]
  · rwa [hlog]
  · rwa [hlog, hcounter, hnow]
  · rwa [hlog, hcounter, hnow]

/-- The counter is gone once its window has ended. -/
theorem WindowsKept.advance (h : WindowsKept options gate) {now : ℕ}
    (hlater : gate.store.now ≤ now) :
    WindowsKept options { gate with store := gate.store.advance now } := by
  refine ⟨h.windowed, h.opener, fun counter hsome => ?_, fun hnone e he => ?_⟩
  · obtain ⟨hwindow, hlive⟩ := Option.filter_eq_some_iff.mp hsome
    obtain ⟨deadline, hcounts⟩ := h.counting counter hwindow
    rw [Expiring.live, hcounts.lasts] at hlive
    refine ⟨deadline, hcounts.lasts, hcounts.counted, hcounts.positive,
      ⟨of_decide_eq_true hlive, ?_⟩, hcounts.last⟩
    exact hcounts.underWay.2.trans (Nat.add_le_add_right hlater _)
  · change e.windowEnd < now
    cases hwindow : gate.store.rateWindow with
    | none => exact (h.ended hwindow e he).trans_le hlater
    | some counter =>
      obtain ⟨deadline, hcounts⟩ := h.counting counter hwindow
      change gate.store.rateWindow.filter (Expiring.live now) = none at hnone
      have hexpired := Option.filter_eq_none_iff.mp hnone counter hwindow
      rw [Expiring.live, hcounts.lasts] at hexpired
      have hpast : deadline < now := not_le.mp fun hle => hexpired (decide_eq_true hle)
      rcases hcounts.last e he with heq | hbefore
      · exact heq ▸ hpast
      · exact (Nat.lt_of_add_right_lt hbefore).trans hpast

/-- **The windows over one step.** -/
theorem WindowsKept.step (h : WindowsKept options gate) {action : GateAction Token}
    (hstep : Gate.Step options gate action next) : WindowsKept options next := by
  cases action with
  | advance now =>
    obtain ⟨hlater, rfl⟩ := hstep
    exact h.advance hlater
  | attempt token =>
    obtain ⟨-, rfl⟩ := hstep
    rcases attempt_cases options token gate with (hrefused | hrefused) | hadmits
    · exact hrefused.symm ▸ h
    · rw [hrefused]
      exact h.of_eq rfl rfl rfl
    · exact h.admitToken hadmits
  | finish token =>
    obtain ⟨-, rfl⟩ := hstep
    exact h.of_eq (windowLog_concat_released _ _) rfl rfl
  | stop token =>
    obtain rfl := hstep
    exact h.of_eq rfl rfl rfl
  | cooldown delayMs =>
    obtain rfl := hstep
    refine h.of_eq (windowLog_concat_published _ _) ?_ ?_
    · unfold publishCooldown
      dsimp only
      split <;> rfl
    · unfold publishCooldown
      dsimp only
      split <;> rfl

theorem windowsKept_initial (now : ℕ) :
    WindowsKept options (Gate.initial now : Gate Token) := by
  refine ⟨windowed_nil, fun _ h => ?_, fun _ h => ?_, fun _ _ h => ?_⟩
  · cases h
  · cases h
  · cases h

/-! ### The cooldown -/

/-- An admission comes no earlier than the deadlines published before it. -/
def Respects : GateEvent Token → GateEvent Token → Prop
  | .published deadline, .admitted _ instant _ _ => deadline ≤ instant
  | _, _ => True

structure CooldownKept (gate : Gate Token) : Prop where
  /-- The key lasts until the deadline it holds. -/
  lasts : ∀ entry, gate.store.cooldownUntil = some entry →
    entry.expiresAt = some entry.value ∧ gate.store.now ≤ entry.value
  latest : ∀ deadline, .published deadline ∈ gate.history →
    deadline ≤ gate.store.now
      ∨ ∃ entry, gate.store.cooldownUntil = some entry ∧ deadline ≤ entry.value
  respected : gate.history.Pairwise Respects

/-- While a deadline is ahead the key keeps every request out. -/
theorem CooldownKept.le_now (h : CooldownKept gate)
    (hpassed : pttl gate.store.now gate.store.cooldownUntil ≤ 0) {deadline : ℕ}
    (hmem : .published deadline ∈ gate.history) : deadline ≤ gate.store.now := by
  rcases h.latest deadline hmem with hpast | ⟨⟨value, expiresAt⟩, hkey, hle⟩
  · exact hpast
  · obtain ⟨hlasts, -⟩ := h.lasts _ hkey
    change expiresAt = some value at hlasts
    rw [hkey, hlasts] at hpassed
    change (value : ℤ) - gate.store.now ≤ 0 at hpassed
    change deadline ≤ value at hle
    omega

omit [LinearOrder Token] in
theorem pairwise_concat_respects {history : List (GateEvent Token)} {event : GateEvent Token}
    (h : history.Pairwise Respects) (hevent : ∀ earlier ∈ history, Respects earlier event) :
    (history ++ [event]).Pairwise Respects := by
  refine List.pairwise_append.mpr ⟨h, List.pairwise_singleton _ _, fun a ha b hb => ?_⟩
  rw [List.mem_singleton.mp hb]
  exact hevent a ha

theorem CooldownKept.admitToken (h : CooldownKept gate) {token : Token}
    (hadmits : Admits options token gate next) : CooldownKept next := by
  have hstore : next.store.now = gate.store.now
      ∧ next.store.cooldownUntil = gate.store.cooldownUntil := by
    rw [hadmits.store]
    exact ⟨rfl, rfl⟩
  refine ⟨fun entry hkey => ?_, fun deadline hmem => ?_, ?_⟩
  · rw [hstore.2] at hkey
    rw [hstore.1]
    exact h.lasts entry hkey
  · rw [hstore.1, hstore.2]
    rw [hadmits.history] at hmem
    rcases List.mem_append.mp hmem with hold | hnew
    · exact h.latest deadline hold
    · cases List.mem_singleton.mp hnew
  · rw [hadmits.history]
    refine pairwise_concat_respects h.respected fun earlier hearlier => ?_
    cases earlier with
    | admitted => exact trivial
    | released => exact trivial
    | published deadline => exact h.le_now hadmits.cooldown hearlier

/-- A later deadline replaces the one that is there; an earlier one is covered by it. -/
theorem CooldownKept.publish (h : CooldownKept gate) (delayMs : ℕ+) :
    CooldownKept
      { gate with
        store := publishCooldown delayMs gate.store
        history := gate.history ++ [.published (gate.store.now + delayMs)] } := by
  have hrespected : List.Pairwise Respects
      (gate.history ++ [.published (gate.store.now + delayMs)]) := by
    refine pairwise_concat_respects h.respected fun earlier _ => ?_
    cases earlier <;> exact trivial
  by_cases hlonger : gate.store.now + delayMs > numberOf gate.store.cooldownUntil
  · have hstore : publishCooldown delayMs gate.store = { gate.store with
        cooldownUntil := some ⟨gate.store.now + delayMs, some (gate.store.now + delayMs)⟩ } :=
      if_pos hlonger
    rw [hstore]
    refine ⟨fun entry hkey => ?_, fun deadline hmem => .inr ⟨_, rfl, ?_⟩, hrespected⟩
    · obtain rfl := Option.some.inj hkey
      exact ⟨rfl, Nat.le_add_right _ _⟩
    · change deadline ≤ gate.store.now + delayMs
      rcases List.mem_append.mp hmem with hold | hnew
      · rcases h.latest deadline hold with hpast | ⟨entry, hkey, hle⟩
        · exact hpast.trans (Nat.le_add_right _ _)
        · rw [hkey] at hlonger
          exact hle.trans hlonger.le
      · obtain rfl := GateEvent.published.inj (List.mem_singleton.mp hnew)
        exact le_refl _
  · have hstore : publishCooldown delayMs gate.store = gate.store := if_neg hlonger
    rw [hstore]
    refine ⟨h.lasts, fun deadline hmem => ?_, hrespected⟩
    change GateEvent.published deadline ∈ _ at hmem
    rcases List.mem_append.mp hmem with hold | hnew
    · exact h.latest deadline hold
    · right
      obtain rfl := GateEvent.published.inj (List.mem_singleton.mp hnew)
      cases hkey : gate.store.cooldownUntil with
      | none =>
        rw [hkey] at hlonger
        exact absurd (Nat.add_pos_right _ delayMs.pos) hlonger
      | some entry =>
        rw [hkey] at hlonger
        exact ⟨entry, rfl, not_lt.mp hlonger⟩

/-- The key is gone only when the deadline it holds has passed. -/
theorem CooldownKept.advance (h : CooldownKept gate) {now : ℕ} (hlater : gate.store.now ≤ now) :
    CooldownKept { gate with store := gate.store.advance now } := by
  refine ⟨fun entry hkey => ?_, fun deadline hmem => ?_, h.respected⟩
  · obtain ⟨hold, hlive⟩ := Option.filter_eq_some_iff.mp hkey
    obtain ⟨hlasts, -⟩ := h.lasts entry hold
    rw [Expiring.live, hlasts] at hlive
    exact ⟨hlasts, of_decide_eq_true hlive⟩
  · change deadline ≤ now ∨ ∃ entry,
      gate.store.cooldownUntil.filter (Expiring.live now) = some entry ∧ deadline ≤ entry.value
    rcases h.latest deadline hmem with hpast | ⟨entry, hkey, hle⟩
    · exact .inl (hpast.trans hlater)
    · by_cases hlive : now ≤ entry.value
      · refine .inr ⟨entry, Option.filter_eq_some_iff.mpr ⟨hkey, ?_⟩, hle⟩
        rw [Expiring.live, (h.lasts entry hkey).1]
        exact decide_eq_true hlive
      · exact .inl (hle.trans (not_le.mp hlive).le)

theorem CooldownKept.released (h : CooldownKept gate) (token : Token)
    (phase : Token → RequestPhase) :
    CooldownKept
      { store := release token gate.store
        phase
        history := gate.history ++ [.released token] } := by
  refine ⟨h.lasts, fun deadline hmem => ?_, ?_⟩
  · rcases List.mem_append.mp hmem with hold | hnew
    · exact h.latest deadline hold
    · cases List.mem_singleton.mp hnew
  · refine pairwise_concat_respects h.respected fun earlier _ => ?_
    cases earlier <;> exact trivial

/-- **The cooldown over one step.** -/
theorem CooldownKept.step (h : CooldownKept gate) {action : GateAction Token}
    (hstep : Gate.Step options gate action next) : CooldownKept next := by
  cases action with
  | advance now =>
    obtain ⟨hlater, rfl⟩ := hstep
    exact h.advance hlater
  | attempt token =>
    obtain ⟨-, rfl⟩ := hstep
    rcases attempt_cases options token gate with (hrefused | hrefused) | hadmits
    · exact hrefused.symm ▸ h
    · rw [hrefused]
      exact ⟨h.lasts, h.latest, h.respected⟩
    · exact h.admitToken hadmits
  | finish token =>
    obtain ⟨-, rfl⟩ := hstep
    exact h.released token _
  | stop token =>
    obtain rfl := hstep
    exact ⟨h.lasts, h.latest, h.respected⟩
  | cooldown delayMs =>
    obtain rfl := hstep
    exact h.publish delayMs

theorem cooldownKept_initial (now : ℕ) : CooldownKept (Gate.initial now : Gate Token) := by
  refine ⟨fun _ h => ?_, fun _ h => ?_, List.Pairwise.nil⟩
  · cases h
  · cases h

end FactorSage.FmpGate
