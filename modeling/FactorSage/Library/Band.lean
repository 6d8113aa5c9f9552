import Mathlib.Order.WithBot
import Mathlib.Order.Lattice
import Mathlib.Order.MinMax

/-!
# Bands

A band is a closed range of a linear order that may have no upper end. Two bands meet when the
larger of their lower ends is no more than the smaller of their upper ends, which is to have an
element in common.
-/

structure Band (α : Type*) where
  low : α
  high : WithTop α
  deriving DecidableEq

namespace Band

variable {α : Type*} [LinearOrder α] {a b c : Band α} {x : α}

instance : Membership α (Band α) := ⟨fun band x => band.low ≤ x ∧ (x : WithTop α) ≤ band.high⟩

theorem mem_def : x ∈ a ↔ a.low ≤ x ∧ (x : WithTop α) ≤ a.high := Iff.rfl

instance : Decidable (x ∈ a) := inferInstanceAs (Decidable (_ ∧ _))

/-- What two bands have in common. -/
def inter (a b : Band α) : Band α := ⟨max a.low b.low, min a.high b.high⟩

/-- Two bands have something in common. -/
def Meets (a b : Band α) : Prop :=
  ((max a.low b.low : α) : WithTop α) ≤ min a.high b.high

instance : Decidable (Meets a b) := inferInstanceAs (Decidable (_ ≤ _))

theorem mem_inter : x ∈ a.inter b ↔ x ∈ a ∧ x ∈ b := by
  rw [mem_def, mem_def, mem_def]
  change max a.low b.low ≤ x ∧ (x : WithTop α) ≤ min a.high b.high ↔ _
  rw [max_le_iff, le_min_iff]
  exact and_and_and_comm

theorem Meets.of_mem (ha : x ∈ a) (hb : x ∈ b) : Meets a b := by
  have hlow : max a.low b.low ≤ x := max_le ha.1 hb.1
  exact (WithTop.coe_le_coe.mpr hlow).trans (le_min ha.2 hb.2)

/-- Bands that meet have the larger of their lower ends in common. -/
theorem Meets.mem (h : Meets a b) : max a.low b.low ∈ a ∧ max a.low b.low ∈ b :=
  ⟨⟨le_max_left _ _, h.trans (min_le_left _ _)⟩, ⟨le_max_right _ _, h.trans (min_le_right _ _)⟩⟩

theorem meets_iff : Meets a b ↔ ∃ x, x ∈ a ∧ x ∈ b :=
  ⟨fun h => ⟨_, h.mem⟩, fun ⟨_, ha, hb⟩ => .of_mem ha hb⟩

/-- The element of a band nearest to another. -/
def clamp (a : Band α) (x : α) : α :=
  match a.high with
  | ⊤ => max x a.low
  | (high : α) => min (max x a.low) high

theorem clamp_mem (h : x ∈ a) (y : α) : a.clamp y ∈ a := by
  obtain ⟨hlow, hhigh⟩ := h
  rw [mem_def]
  unfold clamp
  cases hband : a.high with
  | top => exact ⟨le_max_right _ _, le_top⟩
  | coe high =>
    rw [hband, WithTop.coe_le_coe] at hhigh
    exact ⟨le_min (le_max_right _ _) (hlow.trans hhigh), WithTop.coe_le_coe.mpr (min_le_right _ _)⟩

/-- What is above a bound is clamped above it, where the band reaches above it. -/
theorem lt_clamp {bound y : α} (h : x ∈ a) (hx : bound < x) (hy : bound < y) :
    bound < a.clamp y := by
  obtain ⟨-, hhigh⟩ := h
  unfold clamp
  cases hband : a.high with
  | top => exact lt_max_of_lt_left hy
  | coe high =>
    rw [hband, WithTop.coe_le_coe] at hhigh
    exact lt_min (lt_max_of_lt_left hy) (hx.trans_le hhigh)

end Band
