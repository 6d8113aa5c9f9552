import FactorSage.FmpGate.Windows

/-!
# The bounds on provider traffic

`boundsTraffic_of_reachable` puts the three invariants together and adds that the gate recovers:
once every deadline that stood in the store has passed, and nothing was admitted or published since,
a request that asks is admitted. A key without a deadline would break it; the invariants say there is
none.
-/

namespace FactorSage.FmpGate

open RateWindow

variable {Token : Type} [LinearOrder Token] {options : GateOptions} {gate next : Gate Token}

/-- Every lease, window and cooldown of the store has ended at an instant. -/
structure Expired (st : GateStore Token) (now : ℕ) : Prop where
  leases : ∀ lease ∈ st.concurrent.entries, lease.2 ≤ now
  rateWindow : ∀ counter, st.rateWindow = some counter →
    ∀ deadline, counter.expiresAt = some deadline → deadline < now
  cooldownUntil : ∀ entry, st.cooldownUntil = some entry →
    ∀ deadline, entry.expiresAt = some deadline → deadline ≤ now

/-- Nothing is admitted and no cooldown published. -/
def Quiet (options : GateOptions) (gate : Gate Token) : GateAction Token → Prop
  | .attempt token => (acquireStart options token gate.store).2.admitted = false
  | .cooldown _ => False
  | _ => True

/-- A store whose keys are some of those of another. -/
theorem Expired.of_subset {st st' : GateStore Token} {now : ℕ} (h : Expired st now)
    (hleases : ∀ lease ∈ st'.concurrent.entries, lease ∈ st.concurrent.entries)
    (hwindow : ∀ counter, st'.rateWindow = some counter → st.rateWindow = some counter)
    (hcooldown : ∀ entry, st'.cooldownUntil = some entry → st.cooldownUntil = some entry) :
    Expired st' now := by
  refine ⟨fun lease hmem => ?_, fun counter hsome => ?_, fun entry hsome => ?_⟩
  · exact h.leases lease (hleases lease hmem)
  · exact h.rateWindow counter (hwindow counter hsome)
  · exact h.cooldownUntil entry (hcooldown entry hsome)

/-- A quiet step adds no deadline. -/
theorem Expired.quiet {now : ℕ} (h : Expired gate.store now) {action : GateAction Token}
    (hquiet : Quiet options gate action) (hstep : Gate.Step options gate action next) :
    Expired next.store now := by
  cases action with
  | advance instant =>
    obtain ⟨-, rfl⟩ := hstep
    refine h.of_subset (fun _ hmem => hmem) (fun counter hsome => ?_) fun entry hsome => ?_
    · exact (Option.filter_eq_some_iff.mp hsome).1
    · exact (Option.filter_eq_some_iff.mp hsome).1
  | attempt token =>
    obtain ⟨-, rfl⟩ := hstep
    rcases attempt_cases options token gate with (hrefused | hrefused) | hadmits
    · exact hrefused.symm ▸ h
    · rw [hrefused]
      exact h.of_subset (fun _ hmem => (ScoredSet.mem_above.mp hmem).1) (fun _ hsome => hsome)
        fun _ hsome => hsome
    · -- an attempt that is admitted is not quiet
      have hhistory := hadmits.history
      unfold Gate.attempt at hhistory
      change (acquireStart options token gate.store).2.admitted = false at hquiet
      dsimp only at hhistory
      rw [hquiet] at hhistory
      exact absurd (congrArg List.length hhistory) (by simp)
  | finish token =>
    obtain ⟨-, rfl⟩ := hstep
    exact h.of_subset (fun _ hmem => (ScoredSet.mem_entries_remove.mp hmem).1)
      (fun _ hsome => hsome) fun _ hsome => hsome
  | stop token =>
    obtain rfl := hstep
    exact h
  | cooldown delayMs => exact hquiet.elim

/-- **The gate is open** once everything in the store has ended. -/
theorem admitted_of_expired (hwindows : WindowsKept options gate) (hcooldown : CooldownKept gate)
    (hexpired : Expired gate.store gate.store.now) (token : Token) :
    (acquireStart options token gate.store).2 = ⟨true, 0, 0⟩ := by
  have hpassed : ¬ pttl gate.store.now gate.store.cooldownUntil > 0 := by
    cases hkey : gate.store.cooldownUntil with
    | none =>
      change ¬ (-2 : ℤ) > 0
      decide
    | some entry =>
      obtain ⟨value, expiresAt⟩ := entry
      have hlasts : expiresAt = some value := (hcooldown.lasts _ hkey).1
      have hpast : value ≤ gate.store.now := hexpired.cooldownUntil _ hkey value hlasts
      rw [hlasts]
      change ¬ (value : ℤ) - gate.store.now > 0
      omega
  have hempty : (gate.store.concurrent.above gate.store.now).card = 0 := by
    refine List.length_eq_zero_iff.mpr (List.eq_nil_iff_forall_not_mem.mpr fun lease hmem => ?_)
    obtain ⟨hold, hlive⟩ := ScoredSet.mem_above.mp hmem
    exact absurd (hexpired.leases lease hold) (not_le.mpr hlive)
  have hclosed : gate.store.rateWindow = none := by
    cases hwindow : gate.store.rateWindow with
    | none => rfl
    | some counter =>
      obtain ⟨deadline, hcounts⟩ := hwindows.counting counter hwindow
      have hpast := hexpired.rateWindow counter hwindow deadline hcounts.lasts
      exact absurd hcounts.underWay.1 (not_le.mpr hpast)
  have hfree :
      ¬ (gate.store.concurrent.above gate.store.now).card ≥ options.maxConcurrentRequests := by
    rw [hempty]
    exact not_le.mpr options.maxConcurrentRequests.pos
  have hroom : ¬ numberOf gate.store.rateWindow ≥ options.rateLimitPerWindow := by
    rw [hclosed]
    exact not_le.mpr options.rateLimitPerWindow.pos
  unfold acquireStart
  dsimp only
  rw [if_neg hpassed]
  unfold admitToken
  dsimp only
  rw [if_neg hfree, if_neg hroom]

/-- What the gate promises the provider and the requests. -/
structure BoundsTraffic (options : GateOptions) (gate : Gate Token) : Prop where
  leases : (heldLeases gate).length ≤ options.maxConcurrentRequests
  /-- Every admission is counted in a window that an admission opened. -/
  opener : ∀ e ∈ windowLog gate.history, ∃ first ∈ windowLog gate.history,
    first.windowEnd = e.windowEnd ∧ first.windowEnd = first.instant + options.rateWindowMs
  window : ∀ first ∈ windowLog gate.history,
    first.windowEnd = first.instant + options.rateWindowMs →
      countBetween (windowLog gate.history) first.instant first.windowEnd
        ≤ options.rateLimitPerWindow
  interval : ∀ first, countBetween (windowLog gate.history) first (first + options.rateWindowMs)
    ≤ 2 * options.rateLimitPerWindow
  cooldown : gate.history.Pairwise Respects
  recovers : ∀ later, ((gateSystem Token options).restrict (Quiet options)).Later gate later →
    Expired gate.store later.store.now → ∀ token,
      (acquireStart options token later.store).2 = ⟨true, 0, 0⟩

theorem leasesKept_of_reachable (h : (gateSystem Token options).Reachable gate) :
    LeasesKept options gate := by
  refine StepSystem.Inductive.reachable ⟨?_, fun _ _ _ hkept hstep => hkept.step hstep⟩ h
  rintro _ ⟨now, rfl⟩
  exact leasesKept_initial now

theorem windowsKept_of_reachable (h : (gateSystem Token options).Reachable gate) :
    WindowsKept options gate := by
  refine StepSystem.Inductive.reachable ⟨?_, fun _ _ _ hkept hstep => hkept.step hstep⟩ h
  rintro _ ⟨now, rfl⟩
  exact windowsKept_initial now

theorem cooldownKept_of_reachable (h : (gateSystem Token options).Reachable gate) :
    CooldownKept gate := by
  refine StepSystem.Inductive.reachable ⟨?_, fun _ _ _ hkept hstep => hkept.step hstep⟩ h
  rintro _ ⟨now, rfl⟩
  exact cooldownKept_initial now

/-- Along a quiet path the gate stays reachable and no deadline is added. -/
theorem quiet_path {later : Gate Token} (h : (gateSystem Token options).Reachable gate)
    (hpath : ((gateSystem Token options).restrict (Quiet options)).Later gate later) :
    (gateSystem Token options).Reachable later
      ∧ ∀ now, Expired gate.store now → Expired later.store now := by
  induction hpath with
  | refl => exact ⟨h, fun _ hexpired => hexpired⟩
  | tail _ hlast ih =>
    obtain ⟨action, hquiet, hstep⟩ := hlast
    exact ⟨ih.1.step hstep, fun now hexpired => (ih.2 now hexpired).quiet hquiet hstep⟩

/-- **The gate bounds the traffic**, whatever the processes do and in whatever order. -/
theorem boundsTraffic_of_reachable (options : GateOptions) (gate : Gate Token)
    (h : (gateSystem Token options).Reachable gate) : BoundsTraffic options gate := by
  have hwindows := windowsKept_of_reachable h
  have hleases := leasesKept_of_reachable h
  have hcooldown := cooldownKept_of_reachable h
  refine ⟨hleases.length_heldLeases_le, hwindows.opener, fun first hmem hopens => ?_,
    fun first => ?_, hcooldown.respected, fun later hpath hexpired token => ?_⟩
  · exact hwindows.windowed.countBetween_opening_le hmem hopens
  · exact hwindows.windowed.countBetween_le_two first
  · obtain ⟨hreachable, hexpires⟩ := quiet_path h hpath
    exact admitted_of_expired (windowsKept_of_reachable hreachable)
      (cooldownKept_of_reachable hreachable) (hexpires _ hexpired) token

/-- One slot and one start in a window of ten milliseconds. -/
def sampleOptions : GateOptions := ⟨1, 1, 10, 20⟩

/-- A request is admitted and finishes, a cooldown is published, a second request is refused. -/
def sampleGate : Gate ℕ where
  store := ⟨3, .empty, some ⟨1, some 10⟩, some ⟨8, some 8⟩⟩
  phase := Function.update (Function.update (fun _ => .waiting) 0 .admitted) 0 .finished
  history := [.admitted 0 0 20 10, .released 0, .published 8]

/-- One more step. -/
theorem reachable_snoc (h : (gateSystem Token options).Reachable gate) (action : GateAction Token)
    (hstep : Gate.Step options gate action next) : (gateSystem Token options).Reachable next :=
  h.step hstep

theorem sampleGate_reachable : (gateSystem ℕ sampleOptions).Reachable sampleGate := by
  have hstart : (gateSystem ℕ sampleOptions).Reachable (Gate.initial 0) := .start ⟨0, rfl⟩
  have hattempt := reachable_snoc hstart (.attempt 0) ⟨rfl, rfl⟩
  have hfinish := reachable_snoc hattempt (.finish 0) ⟨rfl, rfl⟩
  have hadvance := reachable_snoc hfinish (.advance 3) ⟨Nat.zero_le 3, rfl⟩
  have hcooldown := reachable_snoc hadvance (.cooldown 5) rfl
  exact reachable_snoc hcooldown (.attempt 1) ⟨rfl, rfl⟩

theorem boundsTraffic_sampleGate :
    (gateSystem ℕ sampleOptions).Reachable sampleGate ∧ BoundsTraffic sampleOptions sampleGate :=
  ⟨sampleGate_reachable, boundsTraffic_of_reachable sampleOptions sampleGate sampleGate_reachable⟩

end FactorSage.FmpGate
