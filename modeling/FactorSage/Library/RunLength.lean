import Mathlib.Algebra.Order.BigOperators.Group.List
import Mathlib.Algebra.Order.Ring.Nat
import Mathlib.Order.Nat
import Mathlib.Tactic.Common

/-!
# Runs

A list cut into maximal runs of equal elements (`runs`), and the list a sequence of runs stands for
(`expand`). `expand_runs` says that cutting and expanding gives the list back, and
`exists_run` that runs of positive length put each position into exactly one of them.
-/

namespace RunLength

variable {α : Type}

section Runs

variable [DecidableEq α]

/-- The runs of a list that goes on with `count` of one value. -/
def runsFrom (value : α) (count : ℕ) : List α → List (α × ℕ)
  | [] => [(value, count)]
  | a :: rest =>
    if a = value then runsFrom value (count + 1) rest else (value, count) :: runsFrom a 1 rest

/-- The maximal runs of a list, each with its length. -/
def runs : List α → List (α × ℕ)
  | [] => []
  | a :: rest => runsFrom a 1 rest

end Runs

/-- The list that runs stand for. -/
def expand (rs : List (α × ℕ)) : List α := rs.flatMap fun r => List.replicate r.2 r.1

@[simp] theorem expand_nil : expand ([] : List (α × ℕ)) = [] := rfl

@[simp] theorem expand_cons (r : α × ℕ) (rs : List (α × ℕ)) :
    expand (r :: rs) = List.replicate r.2 r.1 ++ expand rs := rfl

theorem length_expand (rs : List (α × ℕ)) : (expand rs).length = (rs.map Prod.snd).sum := by
  induction rs with
  | nil => rfl
  | cons r rs ih => rw [expand_cons, List.length_append, List.length_replicate, ih, List.map_cons,
      List.sum_cons]

section Runs

variable [DecidableEq α]

theorem expand_runsFrom (value : α) (count : ℕ) (l : List α) :
    expand (runsFrom value count l) = List.replicate count value ++ l := by
  induction l generalizing value count with
  | nil => rw [runsFrom, expand_cons, expand_nil]
  | cons a rest ih =>
    rw [runsFrom]
    split
    · next heq => rw [ih, heq, List.replicate_succ', List.append_assoc, List.singleton_append]
    · rw [expand_cons, ih, List.replicate_one, List.singleton_append]

/-- **Expanding the runs of a list gives the list.** -/
theorem expand_runs (l : List α) : expand (runs l) = l := by
  cases l with
  | nil => rfl
  | cons a rest => rw [runs, expand_runsFrom, List.replicate_one, List.singleton_append]

theorem pos_of_mem_runsFrom {value : α} {count : ℕ} (h : 0 < count) {l : List α} :
    ∀ r ∈ runsFrom value count l, 0 < r.2 := by
  induction l generalizing value count with
  | nil =>
    intro r hr
    rw [List.mem_singleton.mp hr]
    exact h
  | cons a rest ih =>
    intro r hr
    rw [runsFrom] at hr
    split at hr
    · exact ih (Nat.succ_pos count) r hr
    · rcases List.mem_cons.mp hr with rfl | hr
      · exact h
      · exact ih Nat.one_pos r hr

theorem pos_of_mem_runs {l : List α} : ∀ r ∈ runs l, 0 < r.2 := by
  cases l with
  | nil => exact fun r hr => nomatch hr
  | cons a rest => exact pos_of_mem_runsFrom Nat.one_pos

theorem fst_mem_of_mem_runs {l : List α} {r : α × ℕ} (hr : r ∈ runs l) : r.1 ∈ l := by
  rw [← expand_runs l]
  refine List.mem_flatMap.mpr ⟨r, hr, List.mem_replicate.mpr ⟨?_, rfl⟩⟩
  exact (pos_of_mem_runs r hr).ne'

theorem snd_le_of_mem_runs {l : List α} {r : α × ℕ} (hr : r ∈ runs l) : r.2 ≤ l.length := by
  calc r.2 ≤ ((runs l).map Prod.snd).sum :=
        List.le_sum_of_mem (List.mem_map_of_mem hr)
    _ = l.length := by rw [← length_expand, expand_runs]

end Runs

/-! ### Positions -/

/-- Where a run starts. -/
def startOf (rs : List (α × ℕ)) (k : ℕ) : ℕ := ((rs.take k).map Prod.snd).sum

/-- The `k`-th run covers a position. -/
def Covers (rs : List (α × ℕ)) (k position : ℕ) : Prop :=
  ∃ r, rs[k]? = some r ∧ startOf rs k ≤ position ∧ position < startOf rs k + r.2

theorem startOf_cons_succ (r : α × ℕ) (rs : List (α × ℕ)) (k : ℕ) :
    startOf (r :: rs) (k + 1) = r.2 + startOf rs k := by
  unfold startOf
  rw [List.take_succ_cons, List.map_cons, List.sum_cons]

theorem covers_cons_zero {r : α × ℕ} {rs : List (α × ℕ)} {position : ℕ} :
    Covers (r :: rs) 0 position ↔ position < r.2 := by
  constructor
  · rintro ⟨r', hr', -, hlt⟩
    obtain rfl := Option.some.inj hr'
    rwa [startOf, List.take_zero, List.map_nil, List.sum_nil, Nat.zero_add] at hlt
  · intro hlt
    refine ⟨r, rfl, Nat.zero_le _, ?_⟩
    rwa [startOf, List.take_zero, List.map_nil, List.sum_nil, Nat.zero_add]

theorem covers_cons_succ {r : α × ℕ} {rs : List (α × ℕ)} {k position : ℕ} :
    Covers (r :: rs) (k + 1) position ↔ r.2 ≤ position ∧ Covers rs k (position - r.2) := by
  unfold Covers
  rw [startOf_cons_succ, List.getElem?_cons_succ]
  constructor
  · rintro ⟨r', hr', hle, hlt⟩
    exact ⟨by omega, r', hr', by omega, by omega⟩
  · rintro ⟨hle, r', hr', hle', hlt⟩
    exact ⟨r', hr', by omega, by omega⟩

/-- **Each position lies in exactly one run**, and holds its value. -/
theorem exists_run {rs : List (α × ℕ)} {position : ℕ} {a : α}
    (h : (expand rs)[position]? = some a) :
    ∃ k, Covers rs k position ∧ (rs[k]?).map Prod.fst = some a
      ∧ ∀ k', Covers rs k' position → k' = k := by
  induction rs generalizing position with
  | nil => cases h
  | cons r rs ih =>
    rw [expand_cons] at h
    by_cases hfirst : position < r.2
    · rw [List.getElem?_append_left (by rwa [List.length_replicate]), List.getElem?_replicate,
        if_pos hfirst] at h
      refine ⟨0, covers_cons_zero.mpr hfirst, h, fun k hk => ?_⟩
      cases k with
      | zero => rfl
      | succ k => exact absurd (covers_cons_succ.mp hk).1 (not_le.mpr hfirst)
    · have hle : r.2 ≤ position := not_lt.mp hfirst
      rw [List.getElem?_append_right (by rwa [List.length_replicate]), List.length_replicate] at h
      obtain ⟨k, hcovers, hvalue, hunique⟩ := ih h
      refine ⟨k + 1, covers_cons_succ.mpr ⟨hle, hcovers⟩, hvalue, fun k' hk' => ?_⟩
      cases k' with
      | zero => exact absurd (covers_cons_zero.mp hk') hfirst
      | succ k' => rw [hunique k' (covers_cons_succ.mp hk').2]

end RunLength
