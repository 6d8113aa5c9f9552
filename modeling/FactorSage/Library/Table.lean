import FactorSage.Library.OrderedMap
import Mathlib.Data.List.Perm.Subperm

/-!
# Tables of rows under a primary key

An `OrderedMap` read as a table of a relational store: the key is the primary key and the value the
row.

* `updateWhere`: `UPDATE … SET … WHERE …`; `get?_updateWhere` reads a row back.
* `upsert`: update the row of a key, or insert one.
* `countWhere`: `SELECT count(*) … WHERE …`. Two tables are compared by what their rows are, not by
  how the one was made from the other: `countWhere_le` bounds the count when every counted row was
  counted before, and `countWhere_le_succ` when all but one row were.
-/

namespace OrderedMap

variable {K V : Type} [DecidableEq K]

/-- Updates the rows that meet a condition. -/
def updateWhere (t : OrderedMap K V) (p : K → V → Bool) (f : V → V) : OrderedMap K V :=
  t.mapWithKey fun k v => if p k v then f v else v

@[simp] theorem get?_updateWhere (t : OrderedMap K V) (p : K → V → Bool) (f : V → V) (k : K) :
    (t.updateWhere p f).get? k = (t.get? k).map fun v => if p k v then f v else v :=
  get?_mapWithKey t _ k

/-- Updates the row of `k`, or inserts `create` when there is none. -/
def upsert (t : OrderedMap K V) (k : K) (create : V) (update : V → V) : OrderedMap K V :=
  t.set k (((t.get? k).map update).getD create)

theorem get?_upsert (t : OrderedMap K V) (k k' : K) (create : V) (update : V → V) :
    (t.upsert k create update).get? k'
      = if k' = k then some (((t.get? k).map update).getD create) else t.get? k' := by
  unfold upsert
  exact get?_set t k k' _

omit [DecidableEq K] in
/-- The keys of the rows that meet a condition. -/
def keysWhere (t : OrderedMap K V) (p : V → Bool) : List K :=
  (t.entries.filter fun e => p e.2).map Prod.fst

theorem mem_keysWhere {t : OrderedMap K V} {p : V → Bool} {k : K} :
    k ∈ t.keysWhere p ↔ ∃ v, t.get? k = some v ∧ p v = true := by
  unfold keysWhere
  constructor
  · intro h
    obtain ⟨⟨k', v⟩, hmem, rfl⟩ := List.mem_map.mp h
    obtain ⟨hentry, hp⟩ := List.mem_filter.mp hmem
    exact ⟨v, mem_entries_iff.mp hentry, hp⟩
  · rintro ⟨v, hget, hp⟩
    exact List.mem_map.mpr ⟨(k, v), List.mem_filter.mpr ⟨mem_entries_iff.mpr hget, hp⟩, rfl⟩

omit [DecidableEq K] in
theorem nodup_keysWhere (t : OrderedMap K V) (p : V → Bool) : (t.keysWhere p).Nodup :=
  t.nodup.sublist (List.filter_sublist.map _)

omit [DecidableEq K] in
/-- The number of rows that meet a condition. -/
def countWhere (t : OrderedMap K V) (p : V → Bool) : ℕ := (t.keysWhere p).length

theorem countWhere_le {t t' : OrderedMap K V} {p q : V → Bool}
    (h : ∀ k v', t'.get? k = some v' → p v' = true → ∃ v, t.get? k = some v ∧ q v = true) :
    t'.countWhere p ≤ t.countWhere q := by
  have hsub : t'.keysWhere p ⊆ t.keysWhere q := by
    intro k hk
    obtain ⟨v', hget, hp⟩ := mem_keysWhere.mp hk
    exact mem_keysWhere.mpr (h k v' hget hp)
  exact (List.subperm_of_subset (nodup_keysWhere t' p) hsub).length_le

theorem countWhere_le_succ {t t' : OrderedMap K V} {p q : V → Bool} (k₀ : K)
    (h : ∀ k v', k ≠ k₀ → t'.get? k = some v' → p v' = true → ∃ v, t.get? k = some v ∧ q v = true) :
    t'.countWhere p ≤ t.countWhere q + 1 := by
  have hsub : t'.keysWhere p ⊆ k₀ :: t.keysWhere q := by
    intro k hk
    by_cases hk₀ : k = k₀
    · exact hk₀ ▸ List.mem_cons_self
    · obtain ⟨v', hget, hp⟩ := mem_keysWhere.mp hk
      exact List.mem_cons_of_mem _ (mem_keysWhere.mpr (h k v' hk₀ hget hp))
  exact (List.subperm_of_subset (nodup_keysWhere t' p) hsub).length_le

end OrderedMap
