import Mathlib.Algebra.Order.Ring.Int
import Mathlib.Tactic.Common
import Mathlib.Tactic.Linarith
import Mathlib.Tactic.Ring

/-!
# When an end-of-day bar is final

A session's bar is final at its 16:00 New York close plus the publication delay, and the EOD cutoff
of an instant is the newest calendar date whose bar is final then (`eodCutoffDate_spec`,
`le_eodCutoffDate`).

A date is the number of its day, so `addDays` is addition and dates compare as the numbers do;
instants are in milliseconds. The venue's offset from UTC is the host's time zone data: `NewYork`
says what is known of it.
-/

namespace FactorSage.EodFinality

def dayMs : ℤ := 86400000

def hourMs : ℤ := 3600000

/-- The venue's clock, and how long after a close the bar is published. -/
structure EodFinalityPolicy where
  /-- How far the venue's wall clock is ahead of UTC at an instant. -/
  venueOffsetMs : ℤ → ℤ
  publicationDelayMs : ℤ

/-- The trading day an instant belongs to. -/
def EodFinalityPolicy.tradingSessionDate (policy : EodFinalityPolicy) (instant : ℤ) : ℤ :=
  (instant + policy.venueOffsetMs instant) / dayMs

/-- The instant a session closed: 16:00 local, the offset resolved at an approximate instant and
again at the corrected one. -/
def EodFinalityPolicy.tradingSessionCloseInstant (policy : EodFinalityPolicy) (date : ℤ) : ℤ :=
  let wallClock := date * dayMs + 16 * hourMs
  let approximate := wallClock - policy.venueOffsetMs wallClock
  wallClock - policy.venueOffsetMs approximate

def EodFinalityPolicy.eodSessionFinalizedAt (policy : EodFinalityPolicy) (session : ℤ) : ℤ :=
  policy.tradingSessionCloseInstant session + policy.publicationDelayMs

/-- Steps back until the bar is final. -/
def EodFinalityPolicy.cutoffFrom (policy : EodFinalityPolicy) (instant : ℤ) : ℕ → ℤ → ℤ
  | 0, date => date
  | steps + 1, date =>
    if policy.eodSessionFinalizedAt date > instant then cutoffFrom policy instant steps (date - 1)
    else date

/-- The newest calendar date whose bar is final: the search steps back from the instant's own date,
and each step is worth more than a millisecond. -/
def EodFinalityPolicy.eodCutoffDate (policy : EodFinalityPolicy) (now : ℤ) : ℤ :=
  let date := policy.tradingSessionDate now
  policy.cutoffFrom now (policy.eodSessionFinalizedAt date - now).toNat date

/-- New York is five hours behind UTC, or four; and a bar is not final before its session closed. -/
structure EodFinalityPolicy.NewYork (policy : EodFinalityPolicy) : Prop where
  offset : ∀ instant, -5 * hourMs ≤ policy.venueOffsetMs instant
    ∧ policy.venueOffsetMs instant ≤ -4 * hourMs
  delay : 0 ≤ policy.publicationDelayMs

section NewYork

variable {policy : EodFinalityPolicy} (h : policy.NewYork)

include h

/-- A day ends at least 23 hours after the day before. -/
theorem EodFinalityPolicy.NewYork.step (session : ℤ) :
    policy.eodSessionFinalizedAt session + 23 * hourMs
      ≤ policy.eodSessionFinalizedAt (session + 1) := by
  unfold eodSessionFinalizedAt tradingSessionCloseInstant
  dsimp only
  have hfirst := (h.offset (session * dayMs + 16 * hourMs
    - policy.venueOffsetMs (session * dayMs + 16 * hourMs))).1
  have hsecond := (h.offset ((session + 1) * dayMs + 16 * hourMs
    - policy.venueOffsetMs ((session + 1) * dayMs + 16 * hourMs))).2
  unfold dayMs hourMs at *
  omega

theorem EodFinalityPolicy.NewYork.steps (session : ℤ) (days : ℕ) :
    policy.eodSessionFinalizedAt session + days * (23 * hourMs)
      ≤ policy.eodSessionFinalizedAt (session + days) := by
  induction days with
  | zero => simp
  | succ days ih =>
    have hstep := h.step (session + days)
    have hnext : session + ((days + 1 : ℕ) : ℤ) = session + days + 1 := by omega
    rw [hnext]
    have hsplit : ((days + 1 : ℕ) : ℤ) * (23 * hourMs)
        = days * (23 * hourMs) + 23 * hourMs := by
      push_cast
      ring
    linarith

theorem EodFinalityPolicy.NewYork.mono {a b : ℤ} (hab : a ≤ b) :
    policy.eodSessionFinalizedAt a ≤ policy.eodSessionFinalizedAt b := by
  obtain ⟨days, rfl⟩ := Int.le.dest hab
  have hsteps := h.steps a days
  have hpos : 0 ≤ (days : ℤ) * (23 * hourMs) := by unfold hourMs; omega
  omega

/-- The date of an instant is the last that can have closed by then. -/
theorem EodFinalityPolicy.NewYork.le_tradingSessionDate {session : ℤ} {instant : ℤ}
    (hfinal : policy.eodSessionFinalizedAt session ≤ instant) :
    session ≤ policy.tradingSessionDate instant := by
  unfold eodSessionFinalizedAt tradingSessionCloseInstant at hfinal
  dsimp only at hfinal
  have hclose := (h.offset (session * dayMs + 16 * hourMs
    - policy.venueOffsetMs (session * dayMs + 16 * hourMs))).2
  have hnow := (h.offset instant).1
  have hdelay := h.delay
  unfold tradingSessionDate
  rw [Int.le_ediv_iff_mul_le (by decide)]
  unfold dayMs hourMs at *
  omega

theorem EodFinalityPolicy.NewYork.cutoffFrom_spec (now : ℤ) :
    ∀ (steps : ℕ) (date : ℤ), policy.eodSessionFinalizedAt date - now ≤ steps →
      policy.eodSessionFinalizedAt (policy.cutoffFrom now steps date) ≤ now
        ∧ ∀ session, session ≤ date → policy.eodSessionFinalizedAt session ≤ now →
          session ≤ policy.cutoffFrom now steps date := by
  intro steps
  induction steps with
  | zero =>
    intro date hsteps
    exact ⟨by rw [cutoffFrom]; push_cast at hsteps; omega, fun session hle _ => hle⟩
  | succ steps ih =>
    intro date hsteps
    rw [cutoffFrom]
    split
    · next hlate =>
      have hstep := h.step (date - 1)
      rw [Int.sub_add_cancel] at hstep
      obtain ⟨hfinal, hnewest⟩ := ih (date - 1) (by unfold hourMs at hstep; push_cast at hsteps; omega)
      refine ⟨hfinal, fun session hle hsession => hnewest session ?_ hsession⟩
      -- the date itself is not final yet
      have hne : session ≠ date := fun heq => absurd (heq ▸ hsession) (not_le.mpr hlate)
      exact Int.le_sub_one_of_lt (lt_of_le_of_ne hle hne)
    · next hearly => exact ⟨not_lt.mp hearly, fun session hle _ => hle⟩

/-- **The cutoff is final.** -/
theorem eodCutoffDate_spec (now : ℤ) :
    policy.eodSessionFinalizedAt (policy.eodCutoffDate now) ≤ now :=
  (h.cutoffFrom_spec now _ _ (Int.self_le_toNat _)).1

/-- **Every final date is at most the cutoff.** -/
theorem le_eodCutoffDate {session : ℤ} {now : ℤ}
    (hfinal : policy.eodSessionFinalizedAt session ≤ now) : session ≤ policy.eodCutoffDate now :=
  (h.cutoffFrom_spec now _ _ (Int.self_le_toNat _)).2 session (h.le_tradingSessionDate hfinal) hfinal

/-- A date is at most the cutoff exactly when it is final. -/
theorem le_eodCutoffDate_iff {session : ℤ} {now : ℤ} :
    session ≤ policy.eodCutoffDate now ↔ policy.eodSessionFinalizedAt session ≤ now :=
  ⟨fun hle => (h.mono hle).trans (eodCutoffDate_spec h now), le_eodCutoffDate h⟩

end NewYork

end FactorSage.EodFinality
