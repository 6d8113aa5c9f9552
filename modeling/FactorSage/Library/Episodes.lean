import Mathlib.Data.List.Induction

/-!
# Splitting a log into episodes

`episodes closes log` cuts a log after every entry that closes an episode. The entries after the
last cut are the episode still open, `current`.

* `episodes_append_singleton` — one more entry joins the open episode, and may close it.
* `not_closes_of_mem_current` — no entry of the open episode closes it.
* `forall_mem_all_push`, `pairwise_all_push` — what one more entry keeps of every episode, and of
  every two.
-/

/-- The episodes of a log: those closed, oldest first, and the entries since. -/
structure Episodes (α : Type) where
  closed : List (List α)
  current : List α

namespace Episodes

variable {α : Type}

def empty : Episodes α := ⟨[], []⟩

/-- One more entry: it joins the open episode, and ends it when it closes. -/
def push (closes : α → Bool) (e : Episodes α) (a : α) : Episodes α :=
  if closes a then ⟨e.closed ++ [e.current ++ [a]], []⟩ else ⟨e.closed, e.current ++ [a]⟩

/-- Every episode, the open one last when it has entries. -/
def all (e : Episodes α) : List (List α) :=
  e.closed ++ if e.current = [] then [] else [e.current]

end Episodes

open Episodes

variable {α : Type}

def episodes (closes : α → Bool) (log : List α) : Episodes α :=
  log.foldl (Episodes.push closes) .empty

variable {closes : α → Bool}

@[simp] theorem episodes_append_singleton (log : List α) (a : α) :
    episodes closes (log ++ [a]) = (episodes closes log).push closes a := by
  rw [episodes, List.foldl_append]
  rfl

namespace Episodes

variable {e : Episodes α}

theorem push_of_closes {a : α} (h : closes a = true) :
    e.push closes a = ⟨e.closed ++ [e.current ++ [a]], []⟩ := if_pos h

theorem push_of_not_closes {a : α} (h : closes a = false) :
    e.push closes a = ⟨e.closed, e.current ++ [a]⟩ := if_neg (by rw [h]; decide)

/-- Whether it closes or not, the entry ends the last episode. -/
theorem all_push (e : Episodes α) (a : α) :
    (e.push closes a).all = e.closed ++ [e.current ++ [a]] := by
  cases h : closes a with
  | true => simp [push_of_closes h, all]
  | false => simp [push_of_not_closes h, all]

/-- Every episode keeps a property when the one that grew does. -/
theorem forall_mem_all_push {P : List α → Prop} {a : α}
    (h : ∀ life ∈ e.all, P life) (hgrown : P (e.current ++ [a])) :
    ∀ life ∈ (e.push closes a).all, P life := by
  intro life hlife
  rw [all_push] at hlife
  rcases List.mem_append.mp hlife with hlife | hlife
  · exact h life (List.mem_append.mpr (.inl hlife))
  · obtain rfl := List.mem_singleton.mp hlife
    exact hgrown

/-- Every two episodes stay related when the one that grew is related to those before it. -/
theorem pairwise_all_push {R : List α → List α → Prop} {a : α}
    (h : e.all.Pairwise R) (hgrown : ∀ life ∈ e.closed, R life (e.current ++ [a])) :
    (e.push closes a).all.Pairwise R := by
  rw [all_push, List.pairwise_append]
  refine ⟨(List.pairwise_append.mp h).1, List.pairwise_singleton _ _, fun life hlife grown hmem => ?_⟩
  obtain rfl := List.mem_singleton.mp hmem
  exact hgrown life hlife

theorem closed_subset_all {life : List α} (h : life ∈ e.closed) : life ∈ e.all :=
  List.mem_append.mpr (.inl h)

theorem current_mem_all (h : e.current ≠ []) : e.current ∈ e.all := by
  rw [all, if_neg h]
  exact List.mem_append.mpr (.inr List.mem_cons_self)

end Episodes

/-- No entry of the open episode closes it. -/
theorem not_closes_of_mem_current {log : List α} {a : α}
    (h : a ∈ (episodes closes log).current) : closes a = false := by
  induction log using List.reverseRecOn with
  | nil => cases h
  | append_singleton log last ih =>
    rw [episodes_append_singleton] at h
    cases hlast : closes last with
    | true =>
      rw [push_of_closes hlast] at h
      cases h
    | false =>
      rw [push_of_not_closes hlast] at h
      rcases List.mem_append.mp h with h | h
      · exact ih h
      · obtain rfl := List.mem_singleton.mp h
        exact hlast

/-- The episodes are the log, in order. -/
theorem flatten_episodes (log : List α) :
    (episodes closes log).closed.flatten ++ (episodes closes log).current = log := by
  induction log using List.reverseRecOn with
  | nil => rfl
  | append_singleton log last ih =>
    rw [episodes_append_singleton]
    cases hlast : closes last with
    | true =>
      rw [push_of_closes hlast, List.flatten_append, List.flatten_singleton, List.append_nil,
        ← List.append_assoc, ih]
    | false => rw [push_of_not_closes hlast, ← List.append_assoc, ih]

theorem mem_of_mem_all_episodes {log : List α} {life : List α} {a : α}
    (hlife : life ∈ (episodes closes log).all) (ha : a ∈ life) : a ∈ log := by
  rw [← @flatten_episodes _ closes log, List.mem_append, List.mem_flatten]
  rcases List.mem_append.mp hlife with h | h
  · exact .inl ⟨life, h, ha⟩
  · split at h
    · cases h
    · obtain rfl := List.mem_singleton.mp h
      exact .inr ha
