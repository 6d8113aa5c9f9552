import Mathlib.Data.List.Nodup
import Mathlib.Data.List.Perm.Basic
import Mathlib.Data.List.Sort
import Mathlib.Data.List.TakeWhile
import Mathlib.Order.Defs.LinearOrder
import Mathlib.Order.Basic
import Mathlib.Order.Lattice

/-!
# Strictly ascending lists and the cursors over them

A strictly ascending list of keys is determined by its members (`eq_of_mem_iff`) and is cut by any
key into what lies up to it and what lies after it (`filter_le_append_filter_lt`).

A cursor that only moves forward, over the keys up to one key after another, always stands on
`lastIndexUpTo`: whether it starts at the head (`advance_from_start`) or where an earlier key left it
(`advance_from_earlier`). The index of a key in the list is where the cursor stands at that key
(`lastIndexUpTo_of_getElem?`).
-/

namespace AscendingList

/-! ### Initial segments -/

section

variable {β : Type}

theorem drop_length_takeWhile (q : β → Bool) (l : List β) :
    l.drop (l.takeWhile q).length = l.dropWhile q :=
  calc l.drop (l.takeWhile q).length
      = (l.takeWhile q ++ l.dropWhile q).drop (l.takeWhile q).length := by
        rw [List.takeWhile_append_dropWhile]
    _ = l.dropWhile q := List.drop_left

/-- The items that pass the weaker of two tests first pass the stronger one. -/
theorem takeWhile_split {p q : β → Bool} (h : ∀ a, p a = true → q a = true) (l : List β) :
    l.takeWhile q = l.takeWhile p ++ (l.drop (l.takeWhile p).length).takeWhile q := by
  induction l with
  | nil => rfl
  | cons a l ih =>
    by_cases ha : p a = true
    · rw [List.takeWhile_cons_of_pos (h a ha), List.takeWhile_cons_of_pos ha, List.cons_append,
        List.length_cons, List.drop_succ_cons, ← ih]
    · rw [List.takeWhile_cons_of_neg ha, List.length_nil, List.drop_zero, List.nil_append]

/-- A test that earlier items pass whenever later ones do cuts off an initial segment. -/
theorem filter_eq_takeWhile {p : β → Bool} {l : List β}
    (h : l.Pairwise fun a b => p b = true → p a = true) : l.filter p = l.takeWhile p := by
  induction l with
  | nil => rfl
  | cons a l ih =>
    obtain ⟨hfirst, hrest⟩ := List.pairwise_cons.mp h
    by_cases ha : p a = true
    · rw [List.filter_cons_of_pos ha, List.takeWhile_cons_of_pos ha, ih hrest]
    · rw [List.filter_cons_of_neg ha, List.takeWhile_cons_of_neg ha]
      exact List.filter_eq_nil_iff.mpr fun b hb hpb => ha (hfirst b hb hpb)

theorem filter_not_eq_dropWhile {p : β → Bool} {l : List β}
    (h : l.Pairwise fun a b => p b = true → p a = true) :
    (l.filter fun a => !p a) = l.dropWhile p := by
  induction l with
  | nil => rfl
  | cons a l ih =>
    obtain ⟨hfirst, hrest⟩ := List.pairwise_cons.mp h
    by_cases ha : p a = true
    · rw [List.filter_cons_of_neg (by simp [ha]), List.dropWhile_cons_of_pos ha, ih hrest]
    · rw [List.filter_cons_of_pos (by simp [ha]), List.dropWhile_cons_of_neg ha]
      congr 1
      refine List.filter_eq_self.mpr fun b hb => ?_
      rw [Bool.not_eq_true', Bool.eq_false_iff]
      exact fun hpb => ha (hfirst b hb hpb)

end

/-! ### Ascending keys -/

variable {α : Type} [LinearOrder α]

/-- Two strictly ascending lists with the same members are equal. -/
theorem eq_of_mem_iff {l₁ l₂ : List α} (h₁ : l₁.Pairwise (· < ·))
    (h₂ : l₂.Pairwise (· < ·)) (h : ∀ d, d ∈ l₁ ↔ d ∈ l₂) : l₁ = l₂ := by
  have hperm : l₁.Perm l₂ := (List.perm_ext_iff_of_nodup h₁.nodup h₂.nodup).mpr h
  exact hperm.eq_of_pairwise (fun a b _ _ hab hba => (lt_asymm hab hba).elim) h₁ h₂

variable {l : List α}

theorem le_of_head? (h : l.Pairwise (· < ·)) {first a : α}
    (hfirst : l.head? = some first) (hmem : a ∈ l) : first ≤ a := by
  obtain ⟨rest, rfl⟩ := List.head?_eq_some_iff.mp hfirst
  rcases List.mem_cons.mp hmem with rfl | hrest
  · exact le_rfl
  · exact ((List.pairwise_cons.mp h).1 a hrest).le

theorem le_of_getLast? (h : l.Pairwise (· < ·)) {last a : α}
    (hlast : l.getLast? = some last) (hmem : a ∈ l) : a ≤ last := by
  obtain ⟨earlier, rfl⟩ := List.getLast?_eq_some_iff.mp hlast
  rcases List.mem_append.mp hmem with hearlier | hmem
  · exact ((List.pairwise_append.mp h).2.2 a hearlier last (List.mem_singleton_self last)).le
  · rw [List.mem_singleton.mp hmem]

theorem head?_of_least (h : l.Pairwise (· < ·)) {a : α} (hmem : a ∈ l)
    (hleast : ∀ b ∈ l, a ≤ b) : l.head? = some a := by
  have hne := List.ne_nil_of_mem hmem
  obtain ⟨first, hfirst⟩ := Option.isSome_iff_exists.mp (List.isSome_head?.mpr hne)
  have hle := hleast first (List.mem_of_mem_head? hfirst)
  rw [hfirst, (le_of_head? h hfirst hmem).antisymm hle]

theorem getLast?_of_greatest (h : l.Pairwise (· < ·)) {a : α} (hmem : a ∈ l)
    (hgreatest : ∀ b ∈ l, b ≤ a) : l.getLast? = some a := by
  have hne := List.ne_nil_of_mem hmem
  obtain ⟨last, hlast⟩ := Option.isSome_iff_exists.mp (List.getLast?_isSome.mpr hne)
  have hle := hgreatest last (List.mem_of_getLast? hlast)
  rw [hlast, hle.antisymm (le_of_getLast? h hlast hmem)]

/-- Distinct keys, sorted, ascend strictly. -/
theorem sorted_ascending (h : l.Nodup) :
    (l.insertionSort (· ≤ ·)).Pairwise (· < ·) := by
  have hsorted := List.pairwise_insertionSort (· ≤ ·) l
  have hnodup := (List.perm_insertionSort (· ≤ ·) l).nodup_iff.mpr h
  exact (hsorted.and hnodup).imp fun hboth => lt_of_le_of_ne hboth.1 hboth.2

/-- From the first key at or after another one, every key is. -/
theorem drop_findIdx_eq_filter (h : l.Pairwise (· < ·)) (a : α) :
    l.drop (l.findIdx (a ≤ ·)) = l.filter (a ≤ ·) := by
  have htest : (fun x => decide (a ≤ x)) = fun x => !decide (x < a) := by
    simp only [← decide_not, not_lt]
  rw [htest, ← List.dropWhile_eq_drop_findIdx_not, filter_not_eq_dropWhile]
  exact h.imp fun hlt hlater => decide_eq_true (hlt.trans (of_decide_eq_true hlater))

/-- A strictly ascending list splits into its keys up to one key and the later ones. -/
theorem filter_le_append_filter_lt (h : l.Pairwise (· < ·)) (d : α) :
    l.filter (· ≤ d) ++ l.filter (d < ·) = l := by
  refine eq_of_mem_iff (List.pairwise_append.mpr
    ⟨h.filter _, h.filter _, fun a ha b hb => ?_⟩) h fun k => ?_
  · exact lt_of_le_of_lt (by simpa using (List.mem_filter.mp ha).2)
      (by simpa using (List.mem_filter.mp hb).2)
  · rw [List.mem_append, List.mem_filter, List.mem_filter]
    constructor
    · rintro (hm | hm)
      · exact hm.1
      · exact hm.1
    · intro hm
      rcases le_or_gt k d with hd | hd
      · exact .inl ⟨hm, by simpa using hd⟩
      · exact .inr ⟨hm, by simpa using hd⟩

/-- Dropping keys up to a key leaves the others up to it. -/
theorem filter_le_drop (h : l.Pairwise (· < ·)) (d : α) {n : ℕ}
    (hn : n ≤ (l.filter (· ≤ d)).length) :
    (l.drop n).filter (· ≤ d) = (l.filter (· ≤ d)).drop n := by
  have hkept : ∀ a ∈ (l.filter (· ≤ d)).drop n, decide (a ≤ d) = true := fun a ha =>
    (List.mem_filter.mp (List.mem_of_mem_drop ha)).2
  have hlost : ∀ a ∈ l.filter (d < ·), ¬ decide (a ≤ d) = true := fun a ha hle =>
    absurd (of_decide_eq_true hle) (not_le.mpr (of_decide_eq_true (List.mem_filter.mp ha).2))
  calc (l.drop n).filter (· ≤ d)
      = ((l.filter (· ≤ d) ++ l.filter (d < ·)).drop n).filter (· ≤ d) := by
        rw [filter_le_append_filter_lt h]
    _ = ((l.filter (· ≤ d)).drop n).filter (· ≤ d) ++ (l.filter (d < ·)).filter (· ≤ d) := by
        rw [List.drop_append_of_le_length hn, List.filter_append]
    _ = (l.filter (· ≤ d)).drop n := by
        rw [List.filter_eq_self.mpr hkept, List.filter_eq_nil_iff.mpr hlost, List.append_nil]

/-- The last index at or before `d`, `0` when there is none. -/
def lastIndexUpTo (keys : List α) (d : α) : ℕ :=
  (keys.takeWhile (· ≤ d)).length - 1

variable {keys : List α}

/-- The keys from the last one up to an earlier key keep the last one up to a key. -/
theorem getLast?_drop_lastIndexUpTo (h : keys.Pairwise (· < ·)) {p d : α} (hpd : p ≤ d) :
    ((keys.drop (lastIndexUpTo keys p)).filter (· ≤ d)).getLast?
      = (keys.filter (· ≤ d)).getLast? := by
  -- what lies up to the earlier key lies up to the later one
  have hreached : (keys.takeWhile (· ≤ p)).length ≤ (keys.filter (· ≤ d)).length := by
    have hkept : (keys.takeWhile (· ≤ p)).filter (· ≤ d) = keys.takeWhile (· ≤ p) := by
      refine List.filter_eq_self.mpr fun a ha => ?_
      have hap : a ≤ p := by simpa using List.mem_takeWhile_imp ha
      exact decide_eq_true (hap.trans hpd)
    rw [← hkept]
    exact ((List.takeWhile_sublist _).filter _).length_le
  by_cases hzero : lastIndexUpTo keys p = 0
  · rw [hzero, List.drop_zero]
  · have hwithin : lastIndexUpTo keys p < (keys.filter (· ≤ d)).length := by
      unfold lastIndexUpTo at hzero ⊢
      omega
    rw [filter_le_drop h d hwithin.le, List.getLast?_drop, if_neg (not_le.mpr hwithin)]

theorem takeWhile_le_split {p d : α} (hpd : p ≤ d) (keys : List α) :
    keys.takeWhile (· ≤ d) = keys.takeWhile (· ≤ p)
      ++ (keys.drop (keys.takeWhile (· ≤ p)).length).takeWhile (· ≤ d) :=
  takeWhile_split (fun _ ha => decide_eq_true ((of_decide_eq_true ha).trans hpd)) keys

/-- An ascending list whose head lies after a key has no key up to it. -/
theorem takeWhile_le_eq_nil {a d : α}
    (h : (a :: keys).Pairwise (· < ·)) (ha : ¬ a ≤ d) : keys.takeWhile (· ≤ d) = [] := by
  cases keys with
  | nil => rfl
  | cons b rest =>
    have hab : a < b := List.rel_of_pairwise_cons h List.mem_cons_self
    have hb : ¬ b ≤ d := fun hb => ha (hab.le.trans hb)
    simp [hb]

/-- From the start of the list the cursor reaches the last index up to the key. -/
theorem advance_from_start (h : keys.Pairwise (· < ·)) (d : α) :
    ((keys.drop 1).takeWhile (· ≤ d)).length = lastIndexUpTo keys d := by
  cases keys with
  | nil => rfl
  | cons a rest =>
    by_cases ha : a ≤ d
    · simp [lastIndexUpTo, ha]
    · simp [lastIndexUpTo, ha, takeWhile_le_eq_nil h ha]

/-- From the last index up to an earlier key it reaches the last index up to the later one. -/
theorem advance_from_earlier (h : keys.Pairwise (· < ·)) {p d : α} (hpd : p ≤ d) :
    lastIndexUpTo keys p
        + ((keys.drop (lastIndexUpTo keys p + 1)).takeWhile (· ≤ d)).length
      = lastIndexUpTo keys d := by
  rcases Nat.eq_zero_or_pos (keys.takeWhile (· ≤ p)).length with hzero | hpos
  · have hp : lastIndexUpTo keys p = 0 := by rw [lastIndexUpTo, hzero]
    rw [hp, Nat.zero_add, Nat.zero_add, advance_from_start h]
  · have hnext : lastIndexUpTo keys p + 1 = (keys.takeWhile (· ≤ p)).length := by
      unfold lastIndexUpTo
      omega
    rw [hnext]
    unfold lastIndexUpTo
    rw [takeWhile_le_split hpd keys, List.length_append]
    omega

/-- The index of a key in a strictly ascending list. -/
theorem idxOf?_eq_some_iff (h : keys.Pairwise (· < ·)) {i : ℕ}
    {d : α} : keys.idxOf? d = some i ↔ keys[i]? = some d := by
  have hnd : keys.Nodup := h.imp ne_of_lt
  constructor
  · intro hidx
    obtain ⟨hlt, hget, -⟩ := List.idxOf?_eq_some_iff.mp hidx
    rw [List.getElem?_eq_getElem hlt, hget]
  · intro hget
    obtain ⟨hlt, rfl⟩ := List.getElem?_eq_some_iff.mp hget
    refine List.idxOf?_eq_some_iff.mpr ⟨hlt, rfl, fun j hj heq => ?_⟩
    exact Nat.ne_of_lt hj ((List.Nodup.getElem_inj_iff hnd).mp heq)

/-- Keys are ordered as their indices are. -/
theorem le_iff_index_le (h : keys.Pairwise (· < ·)) {i j : ℕ} {a b : α}
    (hi : keys[i]? = some a) (hj : keys[j]? = some b) : a ≤ b ↔ i ≤ j := by
  obtain ⟨hilt, rfl⟩ := List.getElem?_eq_some_iff.mp hi
  obtain ⟨hjlt, rfl⟩ := List.getElem?_eq_some_iff.mp hj
  rw [← not_iff_not, not_le, Nat.not_le]
  constructor
  · intro hlt
    rcases Nat.lt_trichotomy i j with hij | rfl | hji
    · exact absurd (List.pairwise_iff_getElem.mp h i j hilt hjlt hij) (lt_asymm hlt)
    · exact absurd hlt (lt_irrefl _)
    · exact hji
  · exact List.pairwise_iff_getElem.mp h j i hjlt hilt

/-- The keys up to `d` are counted by any index that separates them from the later ones. -/
theorem length_takeWhile_le {d : α} {n : ℕ} (hn : n ≤ keys.length)
    (h : ∀ i a, keys[i]? = some a → (i < n ↔ a ≤ d)) :
    (keys.takeWhile (· ≤ d)).length = n := by
  induction keys generalizing n with
  | nil => exact (Nat.le_zero.mp hn).symm
  | cons a rest ih =>
    have hhead := h 0 a rfl
    cases n with
    | zero =>
      have ha : ¬ a ≤ d := fun ha => Nat.lt_irrefl 0 (hhead.mpr ha)
      simp [ha]
    | succ n =>
      have ha : a ≤ d := hhead.mp (Nat.succ_pos n)
      have hrest := ih (n := n) (by simpa using hn) fun i b hb => by
        rw [← h (i + 1) b (by simpa using hb), Nat.succ_lt_succ_iff]
      simp [ha, hrest]

/-- Up to one of its own keys, the list ends with that key. -/
theorem lastIndexUpTo_of_getElem? (h : keys.Pairwise (· < ·)) {i : ℕ}
    {d : α} (hi : keys[i]? = some d) : lastIndexUpTo keys d = i := by
  obtain ⟨hlt, -⟩ := List.getElem?_eq_some_iff.mp hi
  unfold lastIndexUpTo
  rw [length_takeWhile_le (Nat.succ_le_of_lt hlt) fun j a hj => ?_, Nat.succ_sub_one]
  rw [le_iff_index_le h hj hi, Nat.lt_succ_iff]

/-- A test that only an initial part of the list passes cuts it at its count. -/
theorem lt_countP_iff (h : keys.Pairwise (· < ·)) {p : α → Bool}
    (hp : ∀ a b, a < b → p b = true → p a = true) {i : ℕ} {a : α} (hi : keys[i]? = some a) :
    i < keys.countP p ↔ p a = true := by
  induction keys generalizing i with
  | nil => simp at hi
  | cons b rest ih =>
    have hrest := List.Pairwise.of_cons h
    by_cases hb : p b = true
    · rw [List.countP_cons_of_pos hb]
      cases i with
      | zero =>
        obtain rfl : b = a := by simpa using hi
        simp [hb]
      | succ i =>
        rw [Nat.succ_lt_succ_iff]
        exact ih hrest (by simpa using hi)
    · -- the head fails, so every later key does
      have hnone : ∀ c ∈ rest, ¬ p c = true := fun c hc hpc =>
        hb (hp b c (List.rel_of_pairwise_cons h hc) hpc)
      rw [List.countP_cons_of_neg hb, List.countP_eq_zero.mpr hnone]
      refine iff_of_false (Nat.not_lt_zero i) fun ha => ?_
      rcases List.mem_cons.mp (List.mem_of_getElem? hi) with rfl | hmem
      · exact hb ha
      · exact hnone a hmem ha

end AscendingList
