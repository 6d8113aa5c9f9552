import FactorSage.Library.OrderedMap

/-!
# Greedy selection

A pass over candidates in the order of their rank, keeping each that clashes with none kept before
it. A clash carries the evidence for it. What is kept is free of clashes; everything else was
refused, once, for the sake of a candidate that is kept and ranks before it (`select_spec`).

The candidates come from a list grouped by a key; a group holds the list's elements of its key, in
their order (`get?_groupBy`).
-/

namespace GreedySelection

variable {α β : Type}

/-- A refused candidate, with the one it yields to. -/
structure Refusal (α β : Type) where
  winner : α
  refused : α
  evidence : β

structure Selection (α β : Type) where
  kept : List α
  refusals : List (Refusal α β)

section Select

variable (clash : α → α → Option β)

/-- The first of the kept that clashes with a candidate. -/
def firstClash (kept : List α) (candidate : α) : Option (Refusal α β) :=
  kept.findSome? fun winner =>
    (clash winner candidate).map fun evidence => ⟨winner, candidate, evidence⟩

def Selection.consider (selection : Selection α β) (candidate : α) : Selection α β :=
  match firstClash clash selection.kept candidate with
  | some refusal => { selection with refusals := selection.refusals ++ [refusal] }
  | none => { selection with kept := selection.kept ++ [candidate] }

def select (candidates : List α) : Selection α β :=
  candidates.foldl (Selection.consider clash) ⟨[], []⟩

end Select

section Spec

variable {clash : α → α → Option β}

/-- What a selection says of the candidates that were considered. -/
structure Decided (clash : α → α → Option β) (considered : List α) (selection : Selection α β) :
    Prop where
  sublist : selection.kept.Sublist considered
  apart : selection.kept.Pairwise fun winner other => clash winner other = none
  perm : (selection.kept ++ selection.refusals.map Refusal.refused).Perm considered
  /-- The winner of a refusal was kept, and came before. -/
  wins : ∀ refusal ∈ selection.refusals, refusal.winner ∈ selection.kept
    ∧ clash refusal.winner refusal.refused = some refusal.evidence
    ∧ [refusal.winner, refusal.refused].Sublist considered

theorem firstClash_some {kept : List α} {candidate : α} {refusal : Refusal α β}
    (h : firstClash clash kept candidate = some refusal) : refusal.winner ∈ kept
      ∧ refusal.refused = candidate ∧ clash refusal.winner candidate = some refusal.evidence := by
  obtain ⟨winner, hwinner, hclash⟩ := List.exists_of_findSome?_eq_some h
  obtain ⟨evidence, hevidence, rfl⟩ := Option.map_eq_some_iff.mp hclash
  exact ⟨hwinner, rfl, hevidence⟩

theorem firstClash_none {kept : List α} {candidate : α}
    (h : firstClash clash kept candidate = none) :
    ∀ winner ∈ kept, clash winner candidate = none := by
  intro winner hwinner
  have hnone := List.findSome?_eq_none_iff.mp h winner hwinner
  exact Option.map_eq_none_iff.mp hnone

/-- **One candidate.** -/
theorem Decided.consider {considered : List α} {selection : Selection α β}
    (h : Decided clash considered selection) (candidate : α) :
    Decided clash (considered ++ [candidate]) (selection.consider clash candidate) := by
  unfold Selection.consider
  split
  · next refusal hclash =>
    obtain ⟨hwinner, hrefused, hevidence⟩ := firstClash_some hclash
    refine ⟨h.sublist.trans (List.sublist_append_left _ _), h.apart, ?_, fun other hother => ?_⟩
    · rw [List.map_append, ← List.append_assoc, List.map_singleton, hrefused]
      exact h.perm.append_right _
    · rcases List.mem_append.mp hother with hother | hother
      · obtain ⟨hkept, hother', hbefore⟩ := h.wins other hother
        exact ⟨hkept, hother', hbefore.trans (List.sublist_append_left _ _)⟩
      · rw [List.mem_singleton.mp hother, hrefused]
        refine ⟨hwinner, hevidence, ?_⟩
        have hbefore : [refusal.winner].Sublist considered :=
          List.singleton_sublist.mpr (h.sublist.subset hwinner)
        exact hbefore.append (List.Sublist.refl [candidate])
  · next hclash =>
    refine ⟨h.sublist.append (List.Sublist.refl _), ?_, ?_, fun other hother => ?_⟩
    · refine List.pairwise_append.mpr ⟨h.apart, List.pairwise_singleton _ _, ?_⟩
      intro winner hwinner other hother
      rw [List.mem_singleton.mp hother]
      exact firstClash_none hclash winner hwinner
    · change ((selection.kept ++ [candidate]) ++ _).Perm _
      rw [List.append_assoc]
      refine (List.Perm.append_left _ List.perm_append_comm).trans ?_
      rw [← List.append_assoc]
      exact h.perm.append_right _
    · obtain ⟨hkept, hother', hbefore⟩ := h.wins other hother
      exact ⟨List.mem_append_left _ hkept, hother',
        hbefore.trans (List.sublist_append_left _ _)⟩

/-- **The whole pass.** -/
theorem select_spec (clash : α → α → Option β) (candidates : List α) :
    Decided clash candidates (select clash candidates) := by
  have hfold : ∀ (rest considered : List α) (selection : Selection α β),
      Decided clash considered selection →
      Decided clash (considered ++ rest) (rest.foldl (Selection.consider clash) selection) := by
    intro rest
    induction rest with
    | nil =>
      intro considered selection h
      rw [List.append_nil]
      exact h
    | cons candidate rest ih =>
      intro considered selection h
      have hrest := ih (considered ++ [candidate]) _ (h.consider candidate)
      rw [List.append_assoc] at hrest
      exact hrest
  refine hfold candidates [] ⟨[], []⟩ ⟨List.Sublist.refl _, .nil, .nil, ?_⟩
  exact fun _ h => nomatch h

end Spec

/-! ### Groups -/

section Groups

variable {κ : Type} [DecidableEq κ] (key : α → κ)

/-- The elements of a list by key, each group in the order of the list. -/
def groupBy (l : List α) : OrderedMap κ (List α) :=
  l.foldl (fun groups a => groups.set (key a) ((groups.get? (key a)).getD [] ++ [a])) .empty

theorem groupBy_append_singleton (l : List α) (a : α) :
    groupBy key (l ++ [a])
      = (groupBy key l).set (key a) (((groupBy key l).get? (key a)).getD [] ++ [a]) := by
  rw [groupBy, List.foldl_append]
  rfl

/-- A group is the elements of its key. -/
theorem get?_groupBy (l : List α) (k : κ) : (groupBy key l).get? k
    = if l.filter (key · = k) = [] then none else some (l.filter (key · = k)) := by
  induction l using List.reverseRecOn with
  | nil => rfl
  | append_singleton l a ih =>
    rw [groupBy_append_singleton, OrderedMap.get?_set, List.filter_append]
    by_cases hk : k = key a
    · subst hk
      have hone : [a].filter (key · = key a) = [a] := by simp
      rw [if_pos rfl, hone, if_neg (by simp)]
      congr 1
      rw [ih]
      split
      · next hnone => rw [hnone]; rfl
      · rfl
    · have hone : [a].filter (key · = k) = [] := by simp [Ne.symm hk]
      rw [if_neg hk, hone, List.append_nil]
      exact ih

theorem mem_entries_groupBy {l group : List α} {k : κ} :
    (k, group) ∈ (groupBy key l).entries ↔ group = l.filter (key · = k) ∧ group ≠ [] := by
  rw [OrderedMap.mem_entries_iff, get?_groupBy]
  split
  · next hnone =>
    refine iff_of_false (fun h => nomatch h) fun h => ?_
    exact h.2 (h.1.trans hnone)
  · next hsome =>
    constructor
    · intro h
      obtain rfl := Option.some.inj h
      exact ⟨rfl, hsome⟩
    · rintro ⟨rfl, -⟩
      rfl

end Groups

end GreedySelection
