import Mathlib.Data.List.Nodup
import Mathlib.Data.List.Induction
import Mathlib.Data.List.Perm.Basic
import Mathlib.Algebra.BigOperators.Group.List.Basic

/-!
# Insertion-ordered maps

The map type of a language whose maps remember insertion order: a list of entries with distinct
keys. Writing an existing key replaces its value in place, writing a new key appends, and
iteration follows the entries.

* `get?_set`, `get?_erase`, `get?_mapValues` — the read-over-write equations.
* `OrderedMap.Equiv` — two maps with the same bindings, in whatever order they were written. Every
  operation respects it (`Equiv.set`, `Equiv.erase`, `Equiv.mapValues`), and equivalent maps have
  permuted entries (`Equiv.entries_perm`), so what an order-insensitive reader computes from them
  agrees.
* `OrderedMap.sum` — the sum of a quantity over the values, with its exact change under each write
  (`sum_set_of_get?`, `sum_set_of_get?_none`, `sum_erase`).
-/

/-- What every plain object of the language inherits, and so answers for beside its own entries. -/
def objectPrototypeNames : List String :=
  ["constructor", "__defineGetter__", "__defineSetter__", "hasOwnProperty", "__lookupGetter__",
    "__lookupSetter__", "isPrototypeOf", "propertyIsEnumerable", "toString", "valueOf", "__proto__",
    "toLocaleString"]

/-- A list of entries with distinct keys, in insertion order. -/
structure OrderedMap (K V : Type) where
  /-- The bindings, oldest key first. -/
  entries : List (K × V)
  /-- No key is bound twice. -/
  nodup : (entries.map Prod.fst).Nodup

namespace OrderedMap

variable {K V W : Type}

@[ext] theorem ext {m₁ m₂ : OrderedMap K V} (h : m₁.entries = m₂.entries) : m₁ = m₂ := by
  cases m₁; cases m₂; cases h; rfl

/-- The map with no binding. -/
def empty : OrderedMap K V := ⟨[], List.nodup_nil⟩

/-- The keys, in insertion order. -/
def keys (m : OrderedMap K V) : List K := m.entries.map Prod.fst

/-- The values, in insertion order of their keys. -/
def values (m : OrderedMap K V) : List V := m.entries.map Prod.snd

/-- The number of bindings. -/
def size (m : OrderedMap K V) : ℕ := m.entries.length

/-- Rewrites every value in place; the keys and their order are kept. -/
def mapWithKey (m : OrderedMap K V) (f : K → V → W) : OrderedMap K W where
  entries := m.entries.map fun e => (e.1, f e.1 e.2)
  nodup := by simpa [List.map_map, Function.comp_def] using m.nodup

/-- Rewrites every value in place, whatever its key. -/
def mapValues (m : OrderedMap K V) (f : V → W) : OrderedMap K W := m.mapWithKey fun _ => f

@[simp] theorem keys_mapValues (m : OrderedMap K V) (f : V → W) :
    (m.mapValues f).keys = m.keys := by
  simp [keys, mapValues, mapWithKey, Function.comp_def]

@[simp] theorem size_mapValues (m : OrderedMap K V) (f : V → W) :
    (m.mapValues f).size = m.size := by
  simp [size, mapValues, mapWithKey]

theorem values_mapValues (m : OrderedMap K V) (f : V → W) :
    (m.mapValues f).values = m.values.map f := by
  simp [values, mapValues, mapWithKey, Function.comp_def]

section Sum

variable {M : Type} [AddCommGroup M]

/-- The sum of `f` over the values. -/
def sum (m : OrderedMap K V) (f : V → M) : M := (m.values.map f).sum

theorem sum_eq_sum_entries (m : OrderedMap K V) (f : V → M) :
    m.sum f = (m.entries.map fun e => f e.2).sum := by
  simp [sum, values, Function.comp_def]

theorem sum_mapValues (m : OrderedMap K V) (g : V → W) (f : W → M) :
    (m.mapValues g).sum f = m.sum fun v => f (g v) := by
  simp [sum, values_mapValues, Function.comp_def]

theorem sum_congr {m : OrderedMap K V} {f g : V → M} (h : ∀ v ∈ m.values, f v = g v) :
    m.sum f = m.sum g := by
  unfold sum
  rw [List.map_congr_left h]

end Sum

variable [DecidableEq K]

/-- The value bound to `k`, if any. -/
def get? (m : OrderedMap K V) (k : K) : Option V :=
  (m.entries.find? fun e => e.1 = k).map Prod.snd

/-- Whether `k` is bound. -/
def contains (m : OrderedMap K V) (k : K) : Bool := (m.get? k).isSome

/-- Removes the binding of `k`. -/
def erase (m : OrderedMap K V) (k : K) : OrderedMap K V where
  entries := m.entries.filter fun e => e.1 ≠ k
  nodup := m.nodup.sublist (List.filter_sublist.map _)

theorem entries_erase (m : OrderedMap K V) (k : K) :
    (m.erase k).entries = m.entries.filter fun e => e.1 ≠ k := rfl

/-- The entries after binding `k` to `v`: replaced in place, or appended when `k` is new. -/
def setEntries (m : OrderedMap K V) (k : K) (v : V) : List (K × V) :=
  if k ∈ m.keys then m.entries.map fun e => if e.1 = k then (k, v) else e
  else m.entries ++ [(k, v)]

theorem map_fst_setEntries (m : OrderedMap K V) (k : K) (v : V) :
    (m.setEntries k v).map Prod.fst = if k ∈ m.keys then m.keys else m.keys ++ [k] := by
  unfold setEntries
  split
  · rw [List.map_map]
    refine List.map_congr_left fun e _ => ?_
    by_cases h : e.1 = k <;> simp [h]
  · simp [keys]

/-- Binds `k` to `v`. -/
def set (m : OrderedMap K V) (k : K) (v : V) : OrderedMap K V where
  entries := m.setEntries k v
  nodup := by
    rw [map_fst_setEntries]
    split
    · exact m.nodup
    · next hk =>
      refine List.nodup_append.mpr ⟨m.nodup, List.nodup_singleton k, ?_⟩
      rintro a ha b hb rfl
      exact hk (List.mem_singleton.mp hb ▸ ha)

/-- The map built by writing the given bindings in order: a later one wins. -/
def ofList (l : List (K × V)) : OrderedMap K V :=
  l.foldl (fun m e => m.set e.1 e.2) empty

/-! ### Reads over writes -/

@[simp] theorem get?_empty (k : K) : (empty : OrderedMap K V).get? k = none := rfl

variable {m : OrderedMap K V} {k : K}

theorem mem_entries_iff {v : V} :
    (k, v) ∈ m.entries ↔ m.get? k = some v := by
  obtain ⟨entries, hnd⟩ := m
  unfold get?
  induction entries with
  | nil => simp
  | cons e rest ih =>
    obtain ⟨k', v'⟩ := e
    obtain ⟨hnew, hrest⟩ := List.nodup_cons.mp hnd
    by_cases h : k' = k
    · subst h
      have hnot : (k', v) ∉ rest := fun hmem =>
        hnew (List.mem_map.mpr ⟨(k', v), hmem, rfl⟩)
      simp [hnot, eq_comm]
    · have h' : k ≠ k' := fun hk => h hk.symm
      simpa [List.find?_cons, h, h'] using ih hrest

theorem get?_eq_none_iff : m.get? k = none ↔ k ∉ m.keys := by
  have hiff : k ∈ m.keys ↔ ∃ v, (k, v) ∈ m.entries := by simp [keys]
  rw [hiff, Option.eq_none_iff_forall_ne_some]
  simp only [mem_entries_iff, not_exists, ne_eq]

theorem mem_keys_iff : k ∈ m.keys ↔ ∃ v, m.get? k = some v := by
  rw [← Option.isSome_iff_exists, ← not_iff_not, ← get?_eq_none_iff]
  simp

theorem mem_keys_of_get? {v : V} (h : m.get? k = some v) :
    k ∈ m.keys :=
  mem_keys_iff.mpr ⟨v, h⟩

theorem mem_values_iff {v : V} : v ∈ m.values ↔ ∃ k, m.get? k = some v := by
  unfold values
  rw [List.mem_map]
  constructor
  · rintro ⟨⟨k, v'⟩, hmem, rfl⟩
    exact ⟨k, mem_entries_iff.mp hmem⟩
  · rintro ⟨k, h⟩
    exact ⟨(k, v), mem_entries_iff.mpr h, rfl⟩

/-- A map whose values name their own keys. -/
theorem map_values_eq_keys {f : V → K} (h : ∀ k v, m.get? k = some v → f v = k) :
    m.values.map f = m.keys := by
  unfold values keys
  rw [List.map_map]
  exact List.map_congr_left fun entry hentry => h _ _ (mem_entries_iff.mp hentry)

/-- Two maps that answer every read alike hold the same entries, up to order. -/
theorem entries_perm_of_get?_eq {m₁ m₂ : OrderedMap K V} (h : ∀ k, m₁.get? k = m₂.get? k) :
    m₁.entries.Perm m₂.entries := by
  refine (List.perm_ext_iff_of_nodup m₁.nodup.of_map m₂.nodup.of_map).mpr ?_
  rintro ⟨k, v⟩
  rw [mem_entries_iff, mem_entries_iff, h]

theorem get?_set (m : OrderedMap K V) (k k' : K) (v : V) :
    (m.set k v).get? k' = if k' = k then some v else m.get? k' := by
  refine Option.ext fun w => ?_
  rw [← mem_entries_iff]
  change (k', w) ∈ m.setEntries k v ↔ _
  unfold setEntries
  split
  · next hk =>
    -- in place: the entry of `k` is rewritten, the others are kept
    rw [List.mem_map]
    constructor
    · rintro ⟨⟨a, b⟩, hmem, heq⟩
      by_cases ha : a = k
      · subst ha
        obtain ⟨rfl, rfl⟩ : a = k' ∧ v = w := by simpa using heq
        simp
      · obtain ⟨rfl, rfl⟩ : a = k' ∧ b = w := by simpa [ha] using heq
        simpa [ha] using mem_entries_iff.mp hmem
    · intro h
      by_cases hk' : k' = k
      · subst hk'
        obtain rfl : v = w := by simpa using h
        obtain ⟨u, hu⟩ := mem_keys_iff.mp hk
        exact ⟨(k', u), mem_entries_iff.mpr hu, by simp⟩
      · refine ⟨(k', w), mem_entries_iff.mpr (by simpa [hk'] using h), by simp [hk']⟩
  · next hk =>
    -- appended: the key was not bound before
    rw [List.mem_append, List.mem_singleton, mem_entries_iff, Prod.mk.injEq]
    by_cases hk' : k' = k
    · subst hk'
      simp [get?_eq_none_iff.mpr hk, eq_comm]
    · simp [hk']

@[simp] theorem get?_set_self (m : OrderedMap K V) (k : K) (v : V) :
    (m.set k v).get? k = some v := by
  simp [get?_set]

theorem get?_set_of_ne (m : OrderedMap K V) {k k' : K} (v : V) (h : k' ≠ k) :
    (m.set k v).get? k' = m.get? k' := by
  simp [get?_set, h]

theorem get?_erase (m : OrderedMap K V) (k k' : K) :
    (m.erase k).get? k' = if k' = k then none else m.get? k' := by
  refine Option.ext fun w => ?_
  rw [← mem_entries_iff]
  change (k', w) ∈ m.entries.filter _ ↔ _
  rw [List.mem_filter, mem_entries_iff]
  by_cases h : k' = k <;> simp [h]

@[simp] theorem get?_erase_self (m : OrderedMap K V) (k : K) : (m.erase k).get? k = none := by
  simp [get?_erase]

theorem get?_erase_of_ne (m : OrderedMap K V) {k k' : K} (h : k' ≠ k) :
    (m.erase k).get? k' = m.get? k' := by
  simp [get?_erase, h]

@[simp] theorem get?_mapWithKey (m : OrderedMap K V) (f : K → V → W) (k : K) :
    (m.mapWithKey f).get? k = (m.get? k).map (f k) := by
  refine Option.ext fun w => ?_
  rw [← mem_entries_iff, mapWithKey, List.mem_map, Option.map_eq_some_iff]
  constructor
  · rintro ⟨⟨k', v⟩, hmem, heq⟩
    obtain ⟨rfl, hw⟩ := Prod.mk.inj heq
    exact ⟨v, mem_entries_iff.mp hmem, hw⟩
  · rintro ⟨v, hv, rfl⟩
    exact ⟨(k, v), mem_entries_iff.mpr hv, rfl⟩

@[simp] theorem get?_mapValues (m : OrderedMap K V) (f : V → W) (k : K) :
    (m.mapValues f).get? k = (m.get? k).map f :=
  get?_mapWithKey m (fun _ => f) k

theorem size_set (m : OrderedMap K V) (k : K) (v : V) :
    (m.set k v).size = if k ∈ m.keys then m.size else m.size + 1 := by
  change (m.setEntries k v).length = _
  unfold setEntries size
  split <;> simp

theorem size_set_of_get? {u : V} (v : V) (h : m.get? k = some u) :
    (m.set k v).size = m.size := by
  rw [size_set, if_pos (mem_keys_of_get? h)]

theorem size_set_of_get?_none (v : V) (h : m.get? k = none) :
    (m.set k v).size = m.size + 1 := by
  rw [size_set, if_neg (get?_eq_none_iff.mp h)]

theorem size_erase_le (m : OrderedMap K V) (k : K) : (m.erase k).size ≤ m.size :=
  List.length_filter_le _ _

theorem values_eq_nil_iff : m.values = [] ↔ ∀ k, m.get? k = none := by
  rw [List.eq_nil_iff_forall_not_mem]
  simp only [mem_values_iff, not_exists]
  constructor
  · intro h k
    cases hk : m.get? k with
    | none => rfl
    | some v => exact absurd hk (h v k)
  · intro h v k hk
    simp [h k] at hk

theorem get?_ofList_append (l : List (K × V)) (e : K × V) (k : K) :
    (ofList (l ++ [e])).get? k = if k = e.1 then some e.2 else (ofList l).get? k := by
  simp [ofList, List.foldl_append, get?_set]

/-- What a map built from bindings holds is one of them. -/
theorem mem_of_get?_ofList {l : List (K × V)} {v : V} (h : (ofList l).get? k = some v) :
    (k, v) ∈ l := by
  induction l using List.reverseRecOn with
  | nil => cases h
  | append_singleton l e ih =>
    rw [get?_ofList_append] at h
    split at h
    · next heq =>
      obtain rfl := Option.some.inj h
      subst heq
      exact List.mem_append_right _ (List.mem_singleton_self _)
    · exact List.mem_append_left _ (ih h)

/-- In a list of bindings with distinct keys no later one overrides an earlier one. -/
theorem get?_ofList_iff {l : List (K × V)} (hnd : (l.map Prod.fst).Nodup) {v : V} :
    (ofList l).get? k = some v ↔ (k, v) ∈ l := by
  induction l using List.reverseRecOn with
  | nil => simp [ofList]
  | append_singleton l e ih =>
    rw [List.map_append, List.nodup_append] at hnd
    obtain ⟨hl, -, hdisj⟩ := hnd
    rw [get?_ofList_append, List.mem_append, List.mem_singleton]
    by_cases h : k = e.1
    · subst h
      have hnot : (e.1, v) ∉ l := fun hmem =>
        hdisj e.1 (List.mem_map.mpr ⟨_, hmem, rfl⟩) e.1 (by simp) rfl
      simp [hnot, Prod.ext_iff, eq_comm]
    · simp [h, ih hl, Prod.ext_iff]

/-- Bindings with distinct keys are the map's entries, in order. -/
theorem entries_ofList {l : List (K × V)} (hnd : (l.map Prod.fst).Nodup) :
    (ofList l).entries = l := by
  induction l using List.reverseRecOn with
  | nil => rfl
  | append_singleton l e ih =>
    rw [List.map_append, List.nodup_append] at hnd
    obtain ⟨hl, -, hdisj⟩ := hnd
    have hentries := ih hl
    have hkey : e.1 ∉ (ofList l).keys := fun hmem => by
      rw [keys, hentries] at hmem
      exact hdisj e.1 hmem e.1 (by simp) rfl
    rw [ofList, List.foldl_append]
    change ((ofList l).setEntries e.1 e.2) = _
    rw [setEntries, if_neg hkey, hentries]

theorem mapValues_set (m : OrderedMap K V) (k : K) (v : V) (f : V → W) :
    (m.set k v).mapValues f = (m.mapValues f).set k (f v) := by
  ext1
  change (m.setEntries k v).map _ = (m.mapValues f).setEntries k (f v)
  unfold setEntries
  rw [keys_mapValues]
  split
  · change List.map _ (List.map _ m.entries) = List.map _ (List.map _ m.entries)
    rw [List.map_map, List.map_map]
    refine List.map_congr_left fun e _ => ?_
    by_cases h : e.1 = k <;> simp [h]
  · rw [List.map_append]
    rfl

/-- Rewriting the values of a map built from bindings rewrites the bindings. -/
theorem mapValues_ofList (l : List (K × V)) (f : V → W) :
    (ofList l).mapValues f = ofList (l.map fun e => (e.1, f e.2)) := by
  induction l using List.reverseRecOn with
  | nil => rfl
  | append_singleton l e ih =>
    rw [List.map_append, ofList, ofList, List.foldl_append, List.foldl_append]
    change ((ofList l).set e.1 e.2).mapValues f = (ofList _).set e.1 (f e.2)
    rw [mapValues_set, ih]

/-- Writes whose value the key alone decides leave that value, or what was there before. -/
theorem get?_foldl_write {ι : Type} (key : ι → K) (value : K → Option V)
    {write : OrderedMap K V → ι → OrderedMap K V} {l : List ι}
    (hwrite : ∀ i ∈ l, ∀ m k, (write m i).get? k
      = if k = key i then (value k).or (m.get? k) else m.get? k)
    (m : OrderedMap K V) (k : K) :
    (l.foldl write m).get? k
      = if k ∈ l.map key then (value k).or (m.get? k) else m.get? k := by
  induction l generalizing m with
  | nil => simp
  | cons i rest ih =>
    have hrest := ih fun j hj => hwrite j (List.mem_cons_of_mem _ hj)
    rw [List.foldl_cons, hrest, List.map_cons, hwrite i List.mem_cons_self]
    by_cases hk : k = key i <;> by_cases hmem : k ∈ rest.map key <;>
      simp [hk, hmem, ← Option.or_assoc]

/-! ### Maps with the same bindings -/

/-- The two maps bind the same keys to the same values, in whatever insertion order. -/
def Equiv (m₁ m₂ : OrderedMap K V) : Prop := ∀ k, m₁.get? k = m₂.get? k

namespace Equiv

variable {m₁ m₂ : OrderedMap K V}

theorem refl (m : OrderedMap K V) : Equiv m m := fun _ => rfl

theorem entries_perm (h : Equiv m₁ m₂) : m₁.entries.Perm m₂.entries :=
  entries_perm_of_get?_eq h

theorem values_perm (h : Equiv m₁ m₂) : m₁.values.Perm m₂.values :=
  h.entries_perm.map Prod.snd

theorem keys_perm (h : Equiv m₁ m₂) : m₁.keys.Perm m₂.keys :=
  h.entries_perm.map Prod.fst

theorem size_eq (h : Equiv m₁ m₂) : m₁.size = m₂.size :=
  h.entries_perm.length_eq

theorem set (h : Equiv m₁ m₂) (k : K) (v : V) : Equiv (m₁.set k v) (m₂.set k v) := by
  intro k'
  rw [get?_set, get?_set, h k']

theorem erase (h : Equiv m₁ m₂) (k : K) : Equiv (m₁.erase k) (m₂.erase k) := by
  intro k'
  rw [get?_erase, get?_erase, h k']

theorem mapValues (h : Equiv m₁ m₂) (f : V → W) : Equiv (m₁.mapValues f) (m₂.mapValues f) := by
  intro k
  rw [get?_mapValues, get?_mapValues, h k]

/-- Permuted bindings with distinct keys build equivalent maps. -/
theorem ofList_of_perm {l₁ l₂ : List (K × V)} (h : l₁.Perm l₂)
    (hnd : (l₁.map Prod.fst).Nodup) : Equiv (ofList l₁) (ofList l₂) := by
  have hnd' : (l₂.map Prod.fst).Nodup := (h.map Prod.fst).nodup_iff.mp hnd
  intro k
  refine Option.ext fun v => ?_
  rw [get?_ofList_iff hnd, get?_ofList_iff hnd', h.mem_iff]

end Equiv

/-! ### Sums over the values -/

section Sum

variable {M : Type} [AddCommGroup M]

theorem Equiv.sum_eq {m₁ m₂ : OrderedMap K V} (h : Equiv m₁ m₂) (f : V → M) :
    m₁.sum f = m₂.sum f :=
  (h.values_perm.map f).sum_eq

/-- Removing a binding takes exactly its value's part out of the sum. -/
theorem sum_erase {m : OrderedMap K V} {k : K} {v : V} (h : m.get? k = some v) (f : V → M) :
    (m.erase k).sum f = m.sum f - f v := by
  rw [sum_eq_sum_entries, sum_eq_sum_entries, entries_erase]
  obtain ⟨entries, hnd⟩ := m
  induction entries with
  | nil => simp [get?] at h
  | cons e rest ih =>
    obtain ⟨hnew, hrest⟩ := List.nodup_cons.mp hnd
    by_cases hk : e.1 = k
    · obtain rfl : e.2 = v := by simpa [get?, hk] using h
      -- no later entry has the removed key, so the filter keeps the whole rest
      have hkeep : rest.filter (fun e => e.1 ≠ k) = rest := by
        refine List.filter_eq_self.mpr fun a ha => ?_
        have : a.1 ≠ k := fun hak =>
          hnew (List.mem_map.mpr ⟨a, ha, hak.trans hk.symm⟩)
        simpa using this
      rw [List.filter_cons_of_neg (by simp [hk]), hkeep, List.map_cons, List.sum_cons,
        add_sub_cancel_left]
    · have hget : (⟨rest, hrest⟩ : OrderedMap K V).get? k = some v := by
        simpa [get?, List.find?_cons, hk] using h
      rw [List.filter_cons_of_pos (by simp [hk]), List.map_cons, List.sum_cons, ih hrest hget,
        List.map_cons, List.sum_cons, add_sub_assoc]

/-- Rewriting a binding exchanges the two values' parts of the sum. -/
theorem sum_set_of_get? {m : OrderedMap K V} {k : K} {u : V} (v : V) (h : m.get? k = some u)
    (f : V → M) : (m.set k v).sum f = m.sum f - f u + f v := by
  have hset : (m.set k v).get? k = some v := get?_set_self m k v
  have herase : Equiv ((m.set k v).erase k) (m.erase k) := by
    intro k'
    by_cases hk : k' = k
    · simp [hk]
    · rw [get?_erase_of_ne _ hk, get?_erase_of_ne _ hk, get?_set_of_ne _ _ hk]
  have hsum : (m.set k v).sum f - f v = m.sum f - f u := by
    rw [← sum_erase hset, herase.sum_eq, sum_erase h]
  rw [← hsum, sub_add_cancel]

/-- A new binding adds its value's part. -/
theorem sum_set_of_get?_none {m : OrderedMap K V} {k : K} (v : V) (h : m.get? k = none)
    (f : V → M) : (m.set k v).sum f = m.sum f + f v := by
  have hset : (m.set k v).get? k = some v := get?_set_self m k v
  have herase : Equiv ((m.set k v).erase k) m := by
    intro k'
    by_cases hk : k' = k
    · rw [hk, get?_erase_self, h]
    · rw [get?_erase_of_ne _ hk, get?_set_of_ne _ _ hk]
  rw [← herase.sum_eq, sum_erase hset, sub_add_cancel]

end Sum

end OrderedMap
