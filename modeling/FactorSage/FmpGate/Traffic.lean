import FactorSage.FmpGate.Gate

/-!
# What the gate lets through

`attempt_cases` says what an attempt can do; each of the invariants of the gate follows from it. The
first is that of the leases: over any interleaving of any number of processes, a request whose lease
has neither ended nor been given back is still in the lease set, and an attempt adds to the set only
while it has room (`LeasesKept`).
-/

namespace FactorSage.FmpGate

open RateWindow

variable {Token : Type} [LinearOrder Token] {options : GateOptions}

/-! ### What an attempt can do -/

/-- An attempt that was admitted. -/
structure Admits (options : GateOptions) (token : Token) (gate next : Gate Token) : Prop where
  cooldown : pttl gate.store.now gate.store.cooldownUntil ≤ 0
  free : (gate.store.concurrent.above gate.store.now).card < options.maxConcurrentRequests
  room : numberOf gate.store.rateWindow < options.rateLimitPerWindow
  store : next.store =
    { gate.store with
      concurrent := (gate.store.concurrent.above gate.store.now).add token
        (gate.store.now + options.requestLeaseMs)
      rateWindow := some (countWindow options gate.store) }
  phase : next.phase = Function.update gate.phase token .admitted
  history : next.history = gate.history ++
    [.admitted token gate.store.now (gate.store.now + options.requestLeaseMs)
      next.store.windowEnd]

/-- An attempt that was refused leaves everything but leases that have ended. -/
def Refuses (gate next : Gate Token) : Prop :=
  next = gate ∨ next = { gate with
    store := { gate.store with concurrent := gate.store.concurrent.above gate.store.now } }

theorem attempt_cases (options : GateOptions) (token : Token) (gate : Gate Token) :
    Refuses gate (gate.attempt options token)
      ∨ Admits options token gate (gate.attempt options token) := by
  by_cases hcooldown : pttl gate.store.now gate.store.cooldownUntil > 0
  · have hrefused : acquireStart options token gate.store
        = (gate.store, ⟨false, pttl gate.store.now gate.store.cooldownUntil, 1⟩) :=
      if_pos hcooldown
    left
    left
    unfold Gate.attempt
    rw [hrefused]
    rfl
  · have hpassed : acquireStart options token gate.store
        = admitToken options token
            { gate.store with concurrent := gate.store.concurrent.above gate.store.now } :=
      if_neg hcooldown
    unfold Gate.attempt
    rw [hpassed]
    unfold admitToken
    dsimp only
    split
    · exact .inl (.inr rfl)
    · next hfree =>
      split
      · exact .inl (.inr rfl)
      · next hroom =>
        exact .inr ⟨not_lt.mp hcooldown, not_le.mp hfree, not_le.mp hroom, rfl, rfl, rfl⟩

/-! ### Leases -/

/-- The tokens of the admissions, in order. -/
def admittedTokens (history : List (GateEvent Token)) : List Token :=
  history.filterMap fun
    | .admitted token _ _ _ => some token
    | _ => none

/-- The requests whose lease has neither ended nor been given back. -/
def heldLeases (gate : Gate Token) : List Token :=
  gate.history.filterMap fun
    | .admitted token _ leaseEnd _ =>
      if gate.store.now < leaseEnd ∧ .released token ∉ gate.history then some token else none
    | _ => none

structure LeasesKept (options : GateOptions) (gate : Gate Token) : Prop where
  /-- A request asks until it is admitted, and is admitted once. -/
  fresh : ∀ token, gate.phase token = .waiting → token ∉ admittedTokens gate.history
  nodup : (admittedTokens gate.history).Nodup
  recorded : ∀ token instant leaseEnd windowEnd,
    .admitted token instant leaseEnd windowEnd ∈ gate.history →
      .released token ∉ gate.history → gate.store.now < leaseEnd →
        (token, leaseEnd) ∈ gate.store.concurrent.entries
  bounded : (gate.store.concurrent.above gate.store.now).card ≤ options.maxConcurrentRequests

omit [LinearOrder Token] in
theorem mem_admittedTokens {history : List (GateEvent Token)} {token : Token} :
    token ∈ admittedTokens history
      ↔ ∃ instant leaseEnd windowEnd, .admitted token instant leaseEnd windowEnd ∈ history := by
  unfold admittedTokens
  rw [List.mem_filterMap]
  constructor
  · rintro ⟨event, hmem, hevent⟩
    cases event with
    | admitted token' instant leaseEnd windowEnd =>
      obtain rfl := Option.some.inj hevent
      exact ⟨instant, leaseEnd, windowEnd, hmem⟩
    | released => cases hevent
    | published => cases hevent
  · rintro ⟨instant, leaseEnd, windowEnd, hmem⟩
    exact ⟨_, hmem, rfl⟩

omit [LinearOrder Token] in
/-- What a narrower selection picks is picked in the same order. -/
theorem filterMap_sublist {α β : Type} {f g : α → Option β} (h : ∀ a b, f a = some b → g a = some b)
    (l : List α) : (l.filterMap f).Sublist (l.filterMap g) := by
  induction l with
  | nil => exact List.Sublist.refl _
  | cons a rest ih =>
    cases hf : f a with
    | some b =>
      rw [List.filterMap_cons_some hf, List.filterMap_cons_some (h a b hf)]
      exact ih.cons_cons b
    | none =>
      rw [List.filterMap_cons_none hf]
      cases hg : g a with
      | none => exact (List.filterMap_cons_none hg).symm ▸ ih
      | some b => exact (List.filterMap_cons_some hg).symm ▸ ih.cons b

/-- A request that holds its lease was admitted. -/
theorem heldLeases_sublist (gate : Gate Token) :
    (heldLeases gate).Sublist (admittedTokens gate.history) := by
  refine filterMap_sublist (fun event token h => ?_) gate.history
  cases event with
  | admitted other instant leaseEnd windowEnd =>
    dsimp only at h ⊢
    split at h
    · exact h
    · cases h
  | released => cases h
  | published => cases h

/-- Fewer members above a later instant. -/
theorem card_above_le {z : ScoredSet Token} {m n : ℕ} (h : m ≤ n) :
    (z.above n).card ≤ (z.above m).card := by
  refine (List.Sublist.length_le ?_)
  change (z.entries.filter _).Sublist (z.entries.filter _)
  refine List.monotone_filter_right _ fun e he => ?_
  rw [decide_eq_true_eq] at he ⊢
  omega

section

omit [LinearOrder Token]

theorem admittedTokens_concat (history : List (GateEvent Token)) (token : Token)
    (instant leaseEnd windowEnd : ℕ) :
    admittedTokens (history ++ [.admitted token instant leaseEnd windowEnd])
      = admittedTokens history ++ [token] :=
  List.filterMap_append

theorem admittedTokens_concat_released (history : List (GateEvent Token)) (token : Token) :
    admittedTokens (history ++ [.released token]) = admittedTokens history :=
  List.filterMap_append.trans (List.append_nil _)

theorem admittedTokens_concat_published (history : List (GateEvent Token)) (deadline : ℕ) :
    admittedTokens (history ++ [.published deadline]) = admittedTokens history :=
  List.filterMap_append.trans (List.append_nil _)

end

section Leases

variable {gate next : Gate Token}

theorem LeasesKept.refuse (h : LeasesKept options gate) (hrefused : Refuses gate next) :
    LeasesKept options next := by
  rcases hrefused with rfl | rfl
  · exact h
  · refine ⟨h.fresh, h.nodup, fun token instant leaseEnd windowEnd hmem hheld hlive => ?_, ?_⟩
    · rw [ScoredSet.mem_above]
      exact ⟨h.recorded token instant leaseEnd windowEnd hmem hheld hlive, hlive⟩
    · change ((gate.store.concurrent.above gate.store.now).above gate.store.now).card ≤ _
      refine le_trans (List.Sublist.length_le ?_) h.bounded
      exact List.filter_sublist

theorem LeasesKept.admitToken (h : LeasesKept options gate) {token : Token}
    (hwaiting : gate.phase token = .waiting) (hadmits : Admits options token gate next) :
    LeasesKept options next := by
  have hnew := h.fresh token hwaiting
  have hnow : next.store.now = gate.store.now := by rw [hadmits.store]
  have htokens : admittedTokens next.history = admittedTokens gate.history ++ [token] := by
    rw [hadmits.history, admittedTokens_concat]
  refine ⟨fun other hother => ?_, ?_, fun other instant leaseEnd windowEnd hmem hheld hlive => ?_,
    ?_⟩
  · rw [htokens, List.mem_append, List.mem_singleton]
    rw [hadmits.phase] at hother
    rintro (hmem | rfl)
    · by_cases heq : other = token
      · exact hnew (heq ▸ hmem)
      · rw [Function.update_of_ne heq] at hother
        exact h.fresh other hother hmem
    · rw [Function.update_self] at hother
      cases hother
  · rw [htokens]
    refine List.nodup_append.mpr ⟨h.nodup, List.nodup_singleton token, fun a ha b hb => ?_⟩
    rw [List.mem_singleton.mp hb]
    exact fun heq => hnew (heq ▸ ha)
  · rw [hadmits.store, ScoredSet.mem_entries_add]
    rw [hnow] at hlive
    rw [hadmits.history] at hmem hheld
    rcases List.mem_append.mp hmem with hold | hlast
    · right
      refine ⟨ScoredSet.mem_above.mpr ⟨h.recorded other instant leaseEnd windowEnd hold
        (fun hreleased => hheld (List.mem_append_left _ hreleased)) hlive, hlive⟩, fun heq => ?_⟩
      exact hnew (heq ▸ mem_admittedTokens.mpr ⟨_, _, _, hold⟩)
    · left
      obtain ⟨rfl, -, rfl, -⟩ := GateEvent.admitted.inj (List.mem_singleton.mp hlast)
      rfl
  · rw [hnow, hadmits.store]
    refine le_trans (List.Sublist.length_le List.filter_sublist) ?_
    exact (ScoredSet.card_add_le _ _ _).trans hadmits.free

/-- **The leases over one step.** -/
theorem LeasesKept.step (h : LeasesKept options gate) {action : GateAction Token}
    (hstep : Gate.Step options gate action next) : LeasesKept options next := by
  -- time and releases only take live leases away, an admission adds the token's own
  cases action with
  | advance now =>
    obtain ⟨hlater, rfl⟩ := hstep
    refine ⟨h.fresh, h.nodup, fun token instant leaseEnd windowEnd hmem hheld hlive => ?_, ?_⟩
    · exact h.recorded token instant leaseEnd windowEnd hmem hheld (hlater.trans_lt hlive)
    · exact (card_above_le hlater).trans h.bounded
  | attempt token =>
    obtain ⟨hwaiting, rfl⟩ := hstep
    rcases attempt_cases options token gate with hrefused | hadmits
    · exact h.refuse hrefused
    · exact h.admitToken hwaiting hadmits
  | finish token =>
    obtain ⟨-, rfl⟩ := hstep
    refine ⟨fun other hother => ?_, ?_, fun other instant leaseEnd windowEnd hmem hheld hlive => ?_,
      ?_⟩
    · rw [admittedTokens_concat_released]
      change Function.update gate.phase token .finished other = .waiting at hother
      by_cases heq : other = token
      · rw [heq, Function.update_self] at hother
        cases hother
      · rw [Function.update_of_ne heq] at hother
        exact h.fresh other hother
    · rw [admittedTokens_concat_released]
      exact h.nodup
    · rcases List.mem_append.mp hmem with hold | hlast
      · rw [List.mem_append, not_or] at hheld
        refine ScoredSet.mem_entries_remove.mpr
          ⟨h.recorded other instant leaseEnd windowEnd hold hheld.1 hlive, fun heq => ?_⟩
        change other = token at heq
        rw [heq] at hheld
        exact hheld.2 (List.mem_singleton_self _)
      · cases List.mem_singleton.mp hlast
    · refine le_trans (List.Sublist.length_le ?_) h.bounded
      exact (gate.store.concurrent.entriesWithout_sublist token).filter _
  | stop token =>
    obtain rfl := hstep
    refine ⟨fun other hother => ?_, h.nodup, h.recorded, h.bounded⟩
    change Function.update gate.phase token .finished other = .waiting at hother
    by_cases heq : other = token
    · rw [heq, Function.update_self] at hother
      cases hother
    · rw [Function.update_of_ne heq] at hother
      exact h.fresh other hother
  | cooldown delayMs =>
    obtain rfl := hstep
    have hstore : (publishCooldown delayMs gate.store).now = gate.store.now
        ∧ (publishCooldown delayMs gate.store).concurrent = gate.store.concurrent := by
      unfold publishCooldown
      dsimp only
      split
      · exact ⟨rfl, rfl⟩
      · exact ⟨rfl, rfl⟩
    refine ⟨fun other hother => ?_, ?_, fun other instant leaseEnd windowEnd hmem hheld hlive => ?_,
      ?_⟩
    · rw [admittedTokens_concat_published]
      exact h.fresh other hother
    · rw [admittedTokens_concat_published]
      exact h.nodup
    · rw [hstore.2]
      rw [hstore.1] at hlive
      rcases List.mem_append.mp hmem with hold | hlast
      · exact h.recorded other instant leaseEnd windowEnd hold
          (fun hreleased => hheld (List.mem_append_left _ hreleased)) hlive
      · cases List.mem_singleton.mp hlast
    · rw [hstore.1, hstore.2]
      exact h.bounded

theorem leasesKept_initial (now : ℕ) : LeasesKept options (Gate.initial now : Gate Token) := by
  refine ⟨fun _ _ hmem => ?_, List.nodup_nil, fun _ _ _ _ hmem => ?_, Nat.zero_le _⟩
  · cases hmem
  · cases hmem

/-- **No more leases are held than requests may run.** -/
theorem LeasesKept.length_heldLeases_le (h : LeasesKept options gate) :
    (heldLeases gate).length ≤ options.maxConcurrentRequests := by
  refine le_trans ?_ h.bounded
  have hsubset : heldLeases gate ⊆ (gate.store.concurrent.above gate.store.now).members := by
    intro token hmem
    obtain ⟨event, hevent, hheld⟩ := List.mem_filterMap.mp hmem
    cases event with
    | admitted other instant leaseEnd windowEnd =>
      dsimp only at hheld
      split at hheld
      · next hlive =>
        obtain rfl := Option.some.inj hheld
        refine List.mem_map.mpr ⟨(other, leaseEnd), ScoredSet.mem_above.mpr ⟨?_, hlive.1⟩, rfl⟩
        exact h.recorded other instant leaseEnd windowEnd hevent hlive.2 hlive.1
      · cases hheld
    | released => cases hheld
    | published => cases hheld
  have hnodup : (heldLeases gate).Nodup := h.nodup.sublist (heldLeases_sublist gate)
  rw [← ScoredSet.length_members]
  exact (List.subperm_of_subset hnodup hsubset).length_le

end Leases

end FactorSage.FmpGate
