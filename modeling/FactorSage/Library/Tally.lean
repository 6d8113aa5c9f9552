import FactorSage.Library.OrderedMap
import Mathlib.Data.List.Dedup

/-!
# Reference counts

A map from keys to how often each is held. A key enters with its first reference and leaves with its
last, so the map has as many entries as there are distinct keys (`IsTallyOf.size`).
-/

namespace FactorSage

namespace Tally

variable {K : Type} [DecidableEq K]

/-- One more reference to a key. -/
def add (counts : OrderedMap K ℤ) (key : K) : OrderedMap K ℤ :=
  counts.set key ((counts.get? key).getD 0 + 1)

/-- One reference less; the key goes with its last. -/
def remove (counts : OrderedMap K ℤ) (key : K) : OrderedMap K ℤ :=
  if (counts.get? key).getD 0 - 1 ≤ 0 then counts.erase key
  else counts.set key ((counts.get? key).getD 0 - 1)

/-- The counts of the keys of a list. -/
def IsTallyOf (counts : OrderedMap K ℤ) (keys : List K) : Prop :=
  ∀ key, counts.get? key = if key ∈ keys then some (keys.count key : ℤ) else none

variable {counts : OrderedMap K ℤ} {keys keys' : List K} {key : K}

theorem isTallyOf_empty : IsTallyOf (.empty : OrderedMap K ℤ) [] := fun _ => rfl

theorem IsTallyOf.perm (h : IsTallyOf counts keys) (hperm : keys.Perm keys') :
    IsTallyOf counts keys' := by
  intro key
  rw [h key, hperm.count_eq]
  simp only [hperm.mem_iff]

theorem IsTallyOf.getD (h : IsTallyOf counts keys) (key : K) :
    (counts.get? key).getD 0 = keys.count key := by
  rw [h key]
  split
  · rfl
  · next hmem => rw [List.count_eq_zero_of_not_mem hmem]; rfl

theorem IsTallyOf.add (h : IsTallyOf counts keys) (key : K) :
    IsTallyOf (add counts key) (key :: keys) := by
  intro other
  rw [Tally.add, OrderedMap.get?_set, h.getD]
  by_cases heq : other = key
  · subst heq
    rw [if_pos rfl, if_pos List.mem_cons_self, List.count_cons_self]
    push_cast
    rfl
  · rw [if_neg heq, h other, List.count_cons_of_ne (Ne.symm heq)]
    simp only [List.mem_cons, heq, false_or]

theorem IsTallyOf.remove (h : IsTallyOf counts (key :: keys)) :
    IsTallyOf (remove counts key) keys := by
  intro other
  rw [Tally.remove, h.getD, List.count_cons_self]
  by_cases heq : other = key
  · subst heq
    by_cases hmem : other ∈ keys
    · have hpos : 0 < keys.count other := List.count_pos_iff.mpr hmem
      rw [if_neg (by push_cast; omega), OrderedMap.get?_set_self, if_pos hmem]
      push_cast
      rw [add_sub_cancel_right]
    · rw [if_pos (by rw [List.count_eq_zero_of_not_mem hmem]; simp), OrderedMap.get?_erase_self,
        if_neg hmem]
  · have hget : counts.get? other = if other ∈ keys then some (keys.count other : ℤ) else none := by
      rw [h other, List.count_cons_of_ne (Ne.symm heq)]
      simp only [List.mem_cons, heq, false_or]
    split
    · rw [OrderedMap.get?_erase_of_ne _ heq, hget]
    · rw [OrderedMap.get?_set_of_ne _ _ heq, hget]

/-- A tally has as many entries as there are distinct keys. -/
theorem IsTallyOf.size (h : IsTallyOf counts keys) : counts.size = keys.dedup.length := by
  have hperm : counts.keys.Perm keys.dedup := by
    refine (List.perm_ext_iff_of_nodup counts.nodup keys.nodup_dedup).mpr fun key => ?_
    change key ∈ counts.keys ↔ _
    rw [List.mem_dedup, OrderedMap.mem_keys_iff, h key]
    split
    · next hmem => exact iff_of_true ⟨_, rfl⟩ hmem
    · next hmem => exact iff_of_false (fun ⟨_, hno⟩ => by cases hno) hmem
  rw [← hperm.length_eq, OrderedMap.keys, List.length_map]
  rfl

end Tally

end FactorSage
