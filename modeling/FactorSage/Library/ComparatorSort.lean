import Mathlib.Data.List.Sort

/-!
# Sorting by a comparator

`sortBy compare l` is the stable sort of a language whose sort takes a comparator returning a
negative, zero or positive number: an element moves in front of another exactly when the comparator
says it strictly precedes it.

When the comparator is the strict order of some key (`Compares`), the result is the list sorted by
that key, and a list whose elements have distinct keys sorts to the same list however it was
permuted (`sortBy_eq_of_perm`).
-/

namespace ComparatorSort

variable {α κ : Type}

/-- The order a stable sort leaves two elements in: `a` stays in front of `b` unless `b` strictly
precedes it. -/
def Precedes (compare : α → α → ℤ) (a b : α) : Prop := ¬ compare b a < 0

instance (compare : α → α → ℤ) : DecidableRel (Precedes compare) :=
  fun a b => inferInstanceAs (Decidable (¬ compare b a < 0))

/-- The stable sort by a comparator. -/
def sortBy (compare : α → α → ℤ) (l : List α) : List α := l.insertionSort (Precedes compare)

theorem sortBy_perm (compare : α → α → ℤ) (l : List α) : (sortBy compare l).Perm l :=
  List.perm_insertionSort _ l

variable {l : List α}

theorem mem_sortBy {compare : α → α → ℤ} {a : α} : a ∈ sortBy compare l ↔ a ∈ l :=
  (sortBy_perm compare l).mem_iff

/-- The comparator is negative exactly when the first key is strictly smaller. -/
def Compares [LinearOrder κ] (compare : α → α → ℤ) (key : α → κ) : Prop :=
  ∀ a b, compare a b < 0 ↔ key a < key b

variable [LinearOrder κ] {compare : α → α → ℤ} {key : α → κ}

theorem Compares.precedes_iff (h : Compares compare key) (a b : α) :
    Precedes compare a b ↔ key a ≤ key b := by
  rw [Precedes, h b a, not_lt]

theorem Compares.pairwise_sortBy (h : Compares compare key) (l : List α) :
    (sortBy compare l).Pairwise fun a b => key a ≤ key b := by
  have : Std.Total (Precedes compare) :=
    ⟨fun a b => by rw [h.precedes_iff, h.precedes_iff]; exact le_total _ _⟩
  have : IsTrans α (Precedes compare) :=
    ⟨fun a b c => by simp only [h.precedes_iff]; exact le_trans⟩
  exact (List.pairwise_insertionSort (Precedes compare) l).imp fun {a b} => (h.precedes_iff a b).mp

variable {l₁ l₂ : List α}

/-- A list in order is what a permutation of it sorts to, where its keys are distinct. -/
theorem eq_sortBy_of_perm (h : Compares compare key) (hp : l₁.Perm l₂)
    (hsorted : l₁.Pairwise fun a b => key a ≤ key b) (hkeys : (l₁.map key).Nodup) :
    l₁ = sortBy compare l₂ := by
  refine List.Perm.eq_of_pairwise ?_ hsorted (h.pairwise_sortBy l₂)
    (hp.trans (sortBy_perm _ l₂).symm)
  intro a b ha hb hab hba
  have hb₁ : b ∈ l₁ := hp.mem_iff.mpr (mem_sortBy.mp hb)
  exact List.inj_on_of_nodup_map hkeys ha hb₁ (le_antisymm hab hba)

/-- **Sorting forgets the input order**: permuted lists with distinct keys sort alike. -/
theorem sortBy_eq_of_perm (h : Compares compare key) (hp : l₁.Perm l₂)
    (hkeys : (l₁.map key).Nodup) : sortBy compare l₁ = sortBy compare l₂ :=
  eq_sortBy_of_perm h ((sortBy_perm _ l₁).trans hp) (h.pairwise_sortBy l₁)
    (((sortBy_perm _ l₁).map key).nodup_iff.mpr hkeys)

/-- What the sorted elements are read as does not depend on the input order, nor on the elements
beyond their keys and that reading. -/
theorem map_sortBy_eq_of_perm {β : Type} (h : Compares compare key) {f : α → β}
    (hp : (l₁.map fun a => (key a, f a)).Perm (l₂.map fun a => (key a, f a)))
    (hkeys : (l₁.map key).Nodup) : (sortBy compare l₁).map f = (sortBy compare l₂).map f := by
  have hpairs : ((sortBy compare l₁).map fun a => (key a, f a)).Perm
      ((sortBy compare l₂).map fun a => (key a, f a)) :=
    (((sortBy_perm _ l₁).map _).trans hp).trans ((sortBy_perm _ l₂).map _).symm
  have hfirst : (((sortBy compare l₁).map fun a => (key a, f a)).map Prod.fst).Nodup := by
    rw [List.map_map]
    exact ((sortBy_perm compare l₁).map key).nodup_iff.mpr hkeys
  have h₁ : ((sortBy compare l₁).map fun a => (key a, f a)).Pairwise fun p q => p.1 ≤ q.1 :=
    List.pairwise_map.mpr (h.pairwise_sortBy l₁)
  have h₂ : ((sortBy compare l₂).map fun a => (key a, f a)).Pairwise fun p q => p.1 ≤ q.1 :=
    List.pairwise_map.mpr (h.pairwise_sortBy l₂)
  have hsame := hpairs.eq_of_pairwise (fun p q hp hq hpq hqp => List.inj_on_of_nodup_map hfirst hp
    (hpairs.mem_iff.mpr hq) (le_antisymm hpq hqp)) h₁ h₂
  have hsecond := congrArg (List.map Prod.snd) hsame
  rw [List.map_map, List.map_map] at hsecond
  exact hsecond

/-- What of the sorted elements passes a test does not depend on the input order, where no two of
these elements tie. -/
theorem filter_sortBy_eq_of_perm (h : Compares compare key) (hp : l₁.Perm l₂) (p : α → Bool)
    (huntied : ∀ a ∈ l₁, ∀ b ∈ l₁, p a = true → p b = true → key a = key b → a = b) :
    (sortBy compare l₁).filter p = (sortBy compare l₂).filter p := by
  have hperm : ((sortBy compare l₁).filter p).Perm ((sortBy compare l₂).filter p) :=
    (((sortBy_perm _ l₁).trans hp).trans (sortBy_perm _ l₂).symm).filter p
  refine hperm.eq_of_pairwise ?_ ((h.pairwise_sortBy l₁).filter p) ((h.pairwise_sortBy l₂).filter p)
  intro a b ha hb hab hba
  have hb := hperm.mem_iff.mpr hb
  rw [List.mem_filter, mem_sortBy] at ha hb
  exact huntied a ha.1 b hb.1 ha.2 hb.2 (le_antisymm hab hba)

/-- Permuted lists in order have the same keys, position by position, ties or not. -/
theorem map_key_eq_of_perm (hp : l₁.Perm l₂)
    (h₁ : l₁.Pairwise fun a b => key a ≤ key b) (h₂ : l₂.Pairwise fun a b => key a ≤ key b) :
    l₁.map key = l₂.map key := by
  have h₁ : (l₁.map key).Pairwise (· ≤ ·) := List.pairwise_map.mpr h₁
  have h₂ : (l₂.map key).Pairwise (· ≤ ·) := List.pairwise_map.mpr h₂
  exact (hp.map key).eq_of_pairwise (fun a b _ _ hab hba => le_antisymm hab hba) h₁ h₂

/-- A list in order is cut at a key: what lies below it, then the rest. -/
theorem filter_append_of_sorted (k : κ) (hsorted : l.Pairwise fun a b => key a ≤ key b) :
    l.filter (key · < k) ++ l.filter (¬ key · < k) = l := by
  induction l with
  | nil => rfl
  | cons a l ih =>
    have ha : ∀ b ∈ l, key a ≤ key b := (List.pairwise_cons.mp hsorted).1
    have ih := ih (List.pairwise_cons.mp hsorted).2
    by_cases hak : key a < k
    · simpa [hak] using ih
    · -- nothing after `a` lies below the key either
      have hrest : ∀ b ∈ l, ¬ key b < k := fun b hb hbk => hak ((ha b hb).trans_lt hbk)
      have hnil : l.filter (key · < k) = [] := by simpa using hrest
      have hall : (a :: l).filter (¬ key · < k) = a :: l := by
        rw [List.filter_eq_self]
        intro b hb
        rcases List.mem_cons.mp hb with rfl | hb
        · simpa using hak
        · simpa using hrest b hb
      rw [List.filter_cons_of_neg (by simpa using hak), hnil, List.nil_append, hall]

/-- **Stability**: elements of one key keep the order they were given in. -/
theorem filter_sortBy (h : Compares compare key) (l : List α) (k : κ) :
    (sortBy compare l).filter (key · = k) = l.filter (key · = k) := by
  have hinsert : ∀ (a : α) (l : List α),
      (l.orderedInsert (Precedes compare) a).filter (key · = k) = (a :: l).filter (key · = k) := by
    intro a l
    induction l with
    | nil => rfl
    | cons b l ih =>
      rw [List.orderedInsert_cons]
      split
      · rfl
      · next hab =>
        -- `b` strictly precedes `a`: it only changes places with an element of another key
        rw [h.precedes_iff, not_le] at hab
        rw [List.filter_cons, ih]
        by_cases ha : key a = k
        · have hb : key b ≠ k := ha ▸ hab.ne
          simp [ha, hb]
        · simp [ha, List.filter_cons]
  unfold sortBy
  induction l with
  | nil => rfl
  | cons a l ih => rw [List.insertionSort_cons, hinsert, List.filter_cons, ih, List.filter_cons]

/-- The head is the first given of the elements with the least key. -/
theorem head?_sortBy (h : Compares compare key) {a : α} (ha : a ∈ l)
    (hleast : ∀ b ∈ l, key a ≤ key b) :
    (sortBy compare l).head? = l.find? (key · = key a) := by
  rw [← List.head?_filter, ← filter_sortBy h, List.head?_filter]
  have hsorted := h.pairwise_sortBy l
  have hmem : ∀ b, b ∈ sortBy compare l ↔ b ∈ l := fun b => mem_sortBy
  generalize sortBy compare l = sorted at hsorted hmem
  cases sorted with
  | nil => exact nomatch (hmem a).mpr ha
  | cons first rest =>
    have hle : key first ≤ key a := by
      rcases List.mem_cons.mp ((hmem a).mpr ha) with rfl | hrest
      · exact le_rfl
      · exact (List.pairwise_cons.mp hsorted).1 a hrest
    have hkey : key first = key a :=
      le_antisymm hle (hleast first ((hmem first).mp List.mem_cons_self))
    simp [hkey]

/-! ### The first of the least -/

/-- The first given of the elements with the least key. -/
def FirstLeast (key : α → κ) (l : List α) (a : α) : Prop :=
  ∃ before after, l = before ++ a :: after ∧ (∀ b ∈ before, key a < key b)
    ∧ ∀ b ∈ after, key a ≤ key b

theorem FirstLeast.mem {a : α} (h : FirstLeast key l a) : a ∈ l := by
  obtain ⟨before, after, rfl, -, -⟩ := h
  simp

theorem FirstLeast.le {a b : α} (h : FirstLeast key l a) (hb : b ∈ l) :
    key a ≤ key b := by
  obtain ⟨before, after, rfl, hbefore, hafter⟩ := h
  rcases List.mem_append.mp hb with hb | hb
  · exact (hbefore b hb).le
  · rcases List.mem_cons.mp hb with rfl | hb
    · exact le_rfl
    · exact hafter b hb

/-- What the first of the least is found by. -/
theorem FirstLeast.find? {a : α} (h : FirstLeast key l a) :
    l.find? (key · = key a) = some a := by
  obtain ⟨before, after, rfl, hbefore, -⟩ := h
  refine List.find?_eq_some_iff_append.mpr ⟨by simp, before, after, rfl, fun b hb => ?_⟩
  simpa using (hbefore b hb).ne'

theorem FirstLeast.unique {a b : α} (ha : FirstLeast key l a)
    (hb : FirstLeast key l b) : a = b := by
  have hkey : key a = key b := le_antisymm (ha.le hb.mem) (hb.le ha.mem)
  have hfind := ha.find?
  rw [hkey, hb.find?] at hfind
  exact (Option.some.inj hfind).symm

/-- The first of the sorted elements that pass a test is the first given of the least that do. -/
theorem firstLeast_of_sortBy (h : Compares compare key) {l before after : List α} {p : α → Bool}
    {a : α} (hsorted : sortBy compare l = before ++ a :: after) (ha : p a)
    (hbefore : ∀ b ∈ before, ¬ p b) : FirstLeast key (l.filter p) a := by
  have hpairwise := h.pairwise_sortBy l
  rw [hsorted] at hpairwise
  have hleast : ∀ b ∈ l.filter p, key a ≤ key b := by
    intro b hb
    obtain ⟨hb, hpb⟩ := List.mem_filter.mp hb
    have hmem : b ∈ before ++ a :: after := hsorted ▸ mem_sortBy.mpr hb
    rcases List.mem_append.mp hmem with hmem | hmem
    · exact absurd hpb (hbefore b hmem)
    · rcases List.mem_cons.mp hmem with rfl | hmem
      · exact le_rfl
      · exact (List.pairwise_cons.mp (List.pairwise_append.mp hpairwise).2.1).1 b hmem
  -- the elements of its key that pass, in the order given
  have htie : (l.filter p).filter (key · = key a) = a :: (after.filter (key · = key a)).filter p := by
    have hstable := filter_sortBy h l (key a)
    have hnone : (before.filter (key · = key a)).filter p = [] := by
      rw [List.filter_eq_nil_iff]
      intro b hb
      exact hbefore b (List.mem_filter.mp hb).1
    rw [List.filter_filter, List.filter_congr (q := fun b => p b && decide (key b = key a))
      (fun b _ => Bool.and_comm _ _), ← List.filter_filter, ← hstable, hsorted, List.filter_append,
      List.filter_append, hnone, List.nil_append, List.filter_cons_of_pos (by simp),
      List.filter_cons_of_pos ha]
  obtain ⟨front, back, hcut, hfront, -, -⟩ := List.filter_eq_cons_iff.mp htie
  refine ⟨front, back, hcut, fun b hb => ?_, fun b hb => hleast b (hcut ▸ by simp [hb])⟩
  refine lt_of_le_of_ne (hleast b (hcut ▸ by simp [hb])) fun heq => hfront b hb ?_
  simpa using heq.symm

end ComparatorSort
