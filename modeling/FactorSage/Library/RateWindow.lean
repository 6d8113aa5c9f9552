import Mathlib.Order.Basic
import Mathlib.Order.Nat
import Mathlib.Tactic.Common

/-!
# Windows that follow one another

A log of events, each with its instant and the instant its window ends at. The windows are `span`
long, a later one starts after an earlier one has ended, and none holds more than `limit` events
(`Windowed`).

What an event that opens its window and everything after it up to the window's end come to is one
window (`countBetween_opening_le`), and an interval as long as a window meets two at most
(`countBetween_le_two`).
-/

namespace RateWindow

/-- An event and the window that counts it. -/
structure Event where
  instant : ℕ
  /-- The last instant of its window. -/
  windowEnd : ℕ
  deriving DecidableEq

/-- How many events of the log one window counts. -/
def countIn (log : List Event) (windowEnd : ℕ) : ℕ :=
  log.countP fun e => decide (e.windowEnd = windowEnd)

/-- How many events of the log lie in an interval. -/
def countBetween (log : List Event) (first last : ℕ) : ℕ :=
  log.countP fun e => decide (first ≤ e.instant ∧ e.instant ≤ last)

structure Windowed (span limit : ℕ) (log : List Event) : Prop where
  inside : ∀ e ∈ log, e.instant ≤ e.windowEnd ∧ e.windowEnd ≤ e.instant + span
  spaced : ∀ a ∈ log, ∀ b ∈ log, a.windowEnd < b.windowEnd → a.windowEnd + span < b.windowEnd
  counted : ∀ windowEnd, countIn log windowEnd ≤ limit

variable {span limit : ℕ} {log : List Event}

theorem countIn_append (log : List Event) (e : Event) (windowEnd : ℕ) :
    countIn (log ++ [e]) windowEnd
      = countIn log windowEnd + if e.windowEnd = windowEnd then 1 else 0 := by
  unfold countIn
  rw [List.countP_append, List.countP_singleton]
  simp only [decide_eq_true_eq]

theorem windowed_nil : Windowed span limit [] :=
  ⟨fun _ h => (List.not_mem_nil h).elim, fun _ h => (List.not_mem_nil h).elim,
    fun _ => Nat.zero_le _⟩

/-- One more event, of a window that has room and starts after every earlier one. -/
theorem Windowed.append (h : Windowed span limit log) {e : Event}
    (hinside : e.instant ≤ e.windowEnd ∧ e.windowEnd ≤ e.instant + span)
    (hlast : ∀ a ∈ log, a.windowEnd = e.windowEnd ∨ a.windowEnd + span < e.windowEnd)
    (hroom : countIn log e.windowEnd < limit) : Windowed span limit (log ++ [e]) := by
  refine ⟨fun a ha => ?_, fun a ha b hb hlt => ?_, fun windowEnd => ?_⟩
  · rcases List.mem_append.mp ha with ha | ha
    · exact h.inside a ha
    · exact List.mem_singleton.mp ha ▸ hinside
  · rcases List.mem_append.mp ha with ha | ha <;> rcases List.mem_append.mp hb with hb | hb
    · exact h.spaced a ha b hb hlt
    · rw [List.mem_singleton.mp hb] at hlt ⊢
      exact (hlast a ha).resolve_left hlt.ne
    · rw [List.mem_singleton.mp ha] at hlt
      rcases hlast b hb with heq | hbefore
      · exact absurd heq hlt.ne'
      · omega
    · rw [List.mem_singleton.mp ha, List.mem_singleton.mp hb] at hlt
      exact absurd hlt (lt_irrefl _)
  · rw [countIn_append]
    split
    · next heq => exact heq ▸ hroom
    · exact h.counted windowEnd

/-- **From an opening event to the end of its window** the log holds the events of that window. -/
theorem Windowed.countBetween_opening_le (h : Windowed span limit log) {opening : Event}
    (hmem : opening ∈ log) (hopens : opening.windowEnd = opening.instant + span) :
    countBetween log opening.instant opening.windowEnd ≤ limit := by
  refine le_trans (List.countP_mono_left fun e he hbetween => ?_) (h.counted opening.windowEnd)
  rw [decide_eq_true_eq] at hbetween ⊢
  obtain ⟨hafter, hbefore⟩ := h.inside e he
  rcases Nat.lt_trichotomy e.windowEnd opening.windowEnd with hlt | heq | hgt
  · -- an earlier window has ended before this one opens
    have hspaced := h.spaced e he opening hmem hlt
    omega
  · exact heq
  · have hspaced := h.spaced opening hmem e he hgt
    omega

/-- Events whose windows end within one span of each other are of one window. -/
theorem Windowed.countP_le_of_near (h : Windowed span limit log) {p : Event → Bool}
    (hnear : ∀ a ∈ log, ∀ b ∈ log, p a = true → p b = true → b.windowEnd ≤ a.windowEnd + span) :
    log.countP p ≤ limit := by
  by_cases hsome : ∃ a ∈ log, p a = true
  · obtain ⟨a, ha, hpa⟩ := hsome
    refine le_trans (List.countP_mono_left fun b hb hpb => ?_) (h.counted a.windowEnd)
    rw [decide_eq_true_eq]
    rcases lt_trichotomy b.windowEnd a.windowEnd with hlt | heq | hgt
    · exact absurd (hnear b hb a ha hpb hpa) (not_le.mpr (h.spaced b hb a ha hlt))
    · exact heq
    · exact absurd (hnear a ha b hb hpa hpb) (not_le.mpr (h.spaced a ha b hb hgt))
  · have hnone : log.countP p = 0 :=
      List.countP_eq_zero.mpr fun a ha hpa => hsome ⟨a, ha, hpa⟩
    rw [hnone]
    exact Nat.zero_le _

/-- **An interval as long as a window** meets two windows at most: one that ends in it and one that
ends after it. -/
theorem Windowed.countBetween_le_two (h : Windowed span limit log) (first : ℕ) :
    countBetween log first (first + span) ≤ 2 * limit := by
  unfold countBetween
  rw [List.countP_eq_countP_filter_add _ _ fun e => decide (e.windowEnd ≤ first + span),
    List.countP_filter, List.countP_filter, Nat.two_mul]
  apply Nat.add_le_add
  · refine h.countP_le_of_near fun a ha b _ hpa hpb => ?_
    have hin := (h.inside a ha).1
    rw [Bool.and_eq_true, decide_eq_true_eq, decide_eq_true_eq] at hpa hpb
    omega
  · refine h.countP_le_of_near fun a _ b hb hpa hpb => ?_
    have hin := (h.inside b hb).2
    simp only [Bool.and_eq_true, decide_eq_true_eq, Bool.not_eq_true', decide_eq_false_iff_not]
      at hpa hpb
    omega

end RateWindow
