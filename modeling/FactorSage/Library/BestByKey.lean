import FactorSage.Library.OrderedMap
import Mathlib.Order.Defs.LinearOrder
import Mathlib.Order.Lattice

/-!
# The best value under each key

A map filled by one pass over a list that keeps, under each key, the value of the greatest rank: a
later value replaces an earlier one only when it ranks strictly above it.

`IsBest` says what such a map holds, whatever the order of the list; `isBest_addBest_empty` says that
one pass from the empty map makes it.
-/

namespace OrderedMap

variable {K V R A : Type} [DecidableEq K] [LinearOrder R]

/-- Binds `k` to `v`, unless it is bound to a value that ranks at least as high. -/
def keepBest (rank : V → R) (m : OrderedMap K V) (k : K) (v : V) : OrderedMap K V :=
  match m.get? k with
  | none => m.set k v
  | some existing => if rank existing < rank v then m.set k v else m

/-- Adds the values of a list, in its order. -/
def addBest (rank : V → R) (key : A → K) (value : A → V) (m : OrderedMap K V) (l : List A) :
    OrderedMap K V :=
  l.foldl (fun m a => keepBest rank m (key a) (value a)) m

/-- `m` holds the best value that `l` has under each key. -/
structure IsBest (rank : V → R) (key : A → K) (value : A → V) (l : List A) (m : OrderedMap K V) :
    Prop where
  eq_none_iff : ∀ k, m.get? k = none ↔ ∀ a ∈ l, key a ≠ k
  exists_mem : ∀ k v, m.get? k = some v → ∃ a ∈ l, key a = k ∧ value a = v
  rank_le : ∀ k v, m.get? k = some v → ∀ a ∈ l, key a = k → rank (value a) ≤ rank v

variable {rank : V → R} {key : A → K} {value : A → V} {l : List A} {m : OrderedMap K V}

theorem get?_keepBest_of_ne (k : K) (v : V) {k' : K} (h : k' ≠ k) :
    (keepBest rank m k v).get? k' = m.get? k' := by
  unfold keepBest
  split
  · exact get?_set_of_ne m v h
  · split
    · exact get?_set_of_ne m v h
    · rfl

theorem get?_keepBest_self (rank : V → R) (m : OrderedMap K V) (k : K) (v : V) :
    (keepBest rank m k v).get? k = some v ∧ (∀ existing ∈ m.get? k, rank existing < rank v)
      ∨ ∃ existing, m.get? k = some existing ∧ rank v ≤ rank existing
        ∧ (keepBest rank m k v).get? k = some existing := by
  unfold keepBest
  cases h : m.get? k with
  | none => exact .inl ⟨by simp, fun _ h => by cases h⟩
  | some existing =>
    by_cases hlt : rank existing < rank v
    · refine .inl ⟨by simp [hlt], fun existing' h' => ?_⟩
      obtain rfl := Option.some.inj h'
      exact hlt
    · exact .inr ⟨existing, rfl, not_lt.mp hlt, by simp [hlt, h]⟩

theorem IsBest.concat (h : IsBest rank key value l m) (a : A) :
    IsBest rank key value (l ++ [a]) (keepBest rank m (key a) (value a)) where
  eq_none_iff := by
    intro k
    by_cases hk : k = key a
    · subst hk
      have hsome : (keepBest rank m (key a) (value a)).get? (key a) ≠ none := by
        obtain ⟨hget, -⟩ | ⟨existing, -, -, hget⟩ :=
          get?_keepBest_self rank m (key a) (value a) <;> rw [hget] <;> simp
      simp [hsome]
    · rw [get?_keepBest_of_ne (key a) (value a) hk, h.eq_none_iff k]
      constructor
      · intro hall b hb
        obtain hb | hb := List.mem_append.mp hb
        · exact hall b hb
        · rw [List.mem_singleton.mp hb]
          exact Ne.symm hk
      · exact fun hall b hb => hall b (List.mem_append_left _ hb)
  exists_mem := by
    intro k v hget
    have hold : m.get? k = some v → ∃ b ∈ l ++ [a], key b = k ∧ value b = v := by
      intro hget
      obtain ⟨b, hb, hkey, hvalue⟩ := h.exists_mem k v hget
      exact ⟨b, List.mem_append_left _ hb, hkey, hvalue⟩
    by_cases hk : k = key a
    · subst hk
      obtain ⟨hnew, -⟩ | ⟨existing, hexisting, -, hkept⟩ :=
        get?_keepBest_self rank m (key a) (value a)
      · exact ⟨a, by simp, rfl, Option.some.inj (hnew.symm.trans hget)⟩
      · exact hold (hexisting.trans (hkept.symm.trans hget))
    · rw [get?_keepBest_of_ne (key a) (value a) hk] at hget
      exact hold hget
  rank_le := by
    intro k v hget b hb hkey
    by_cases hk : k = key a
    · subst hk
      obtain ⟨hnew, hlt⟩ | ⟨existing, hexisting, hle, hkept⟩ :=
        get?_keepBest_self rank m (key a) (value a)
      · obtain rfl : value a = v := Option.some.inj (hnew.symm.trans hget)
        obtain hb | hb := List.mem_append.mp hb
        · -- an earlier value of the key ranks below the one that replaced the best of them
          cases hm : m.get? (key a) with
          | none => exact absurd hkey ((h.eq_none_iff _).mp hm b hb)
          | some existing => exact (h.rank_le _ _ hm b hb hkey).trans (hlt existing hm).le
        · rw [List.mem_singleton.mp hb]
      · obtain rfl : existing = v := Option.some.inj (hkept.symm.trans hget)
        obtain hb | hb := List.mem_append.mp hb
        · exact h.rank_le _ _ hexisting b hb hkey
        · rw [List.mem_singleton.mp hb]
          exact hle
    · rw [get?_keepBest_of_ne (key a) (value a) hk] at hget
      obtain hb | hb := List.mem_append.mp hb
      · exact h.rank_le _ _ hget b hb hkey
      · exact absurd (List.mem_singleton.mp hb ▸ hkey).symm hk

theorem IsBest.addBest (h : IsBest rank key value l m) (l' : List A) :
    IsBest rank key value (l ++ l') (addBest rank key value m l') := by
  induction l' generalizing l m with
  | nil =>
    rw [List.append_nil]
    exact h
  | cons a l' ih =>
    rw [List.append_cons]
    exact ih (h.concat a)

/-- **What one pass keeps**: the best value of the list under each key. -/
theorem isBest_addBest_empty (l : List A) :
    IsBest rank key value l (addBest rank key value empty l) := by
  have hempty : IsBest rank key value ([] : List A) (empty : OrderedMap K V) :=
    { eq_none_iff := fun _ => ⟨fun _ _ h => (by cases h), fun _ => rfl⟩
      exists_mem := fun _ _ h => by cases h
      rank_le := fun _ _ h => by cases h }
  exact hempty.addBest l

/-- A condition that a value passes on to those it outranks holds of the best exactly when it holds
of all. -/
theorem IsBest.all_iff (h : IsBest rank key value l m) {p : V → Bool}
    (hp : ∀ v w, rank v ≤ rank w → p w = true → p v = true) (k : K) :
    (m.get? k).all p = true ↔ ∀ a ∈ l, key a = k → p (value a) = true := by
  cases hget : m.get? k with
  | none =>
    have hnone := (h.eq_none_iff k).mp hget
    exact ⟨fun _ a ha hkey => absurd hkey (hnone a ha), fun _ => rfl⟩
  | some best =>
    constructor
    · exact fun hbest a ha hkey => hp _ _ (h.rank_le k best hget a ha hkey) hbest
    · intro hall
      obtain ⟨a, ha, hkey, rfl⟩ := h.exists_mem k best hget
      exact hall a ha hkey

end OrderedMap
