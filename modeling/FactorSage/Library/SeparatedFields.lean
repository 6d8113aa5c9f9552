import Mathlib.Data.List.Basic

/-!
# Fields between separators

A text whose fields are joined with one separating unit (`List.intercalate`) and read apart again
(`List.splitOn`). Splitting a joined text splits every field (`splitOn_intercalate_flatMap`), so
fields without the separator come back as they are, and one field that holds it is still read between
the fields around it.
-/

namespace SeparatedFields

variable {α : Type} [DecidableEq α] {separator : α}

/-- **Splitting a joined text splits its fields.** -/
theorem splitOn_intercalate_flatMap {fields : List (List α)} (h : fields ≠ []) :
    ([separator].intercalate fields).splitOn separator
      = fields.flatMap fun field => field.splitOn separator := by
  induction fields with
  | nil => exact absurd rfl h
  | cons field rest ih =>
    cases rest with
    | nil => simp [List.intercalate]
    | cons next rest =>
      rw [List.intercalate_cons_cons, List.append_assoc, List.singleton_append,
        List.splitOn_append_cons_self, ih (List.cons_ne_nil _ _)]
      rfl

/-- No field of a split text holds the separator. -/
theorem separator_notMem_of_mem_splitOn {t field : List α} (h : field ∈ t.splitOn separator) :
    separator ∉ field := by
  induction t generalizing field with
  | nil =>
    rw [List.splitOn_nil, List.mem_singleton] at h
    rw [h]
    exact List.not_mem_nil
  | cons u t ih =>
    rw [List.splitOn_cons_eq_if_modifyHead] at h
    split at h
    · rcases List.mem_cons.mp h with rfl | h
      · exact List.not_mem_nil
      · exact ih h
    · next hu =>
      have hu : separator ≠ u := fun heq => hu (by simp [heq])
      obtain ⟨head, tail, hsplit⟩ := List.exists_cons_of_ne_nil (List.splitOn_ne_nil separator t)
      rw [hsplit, List.modifyHead_cons] at h
      rcases List.mem_cons.mp h with rfl | h
      · have hhead : separator ∉ head := ih (hsplit ▸ List.mem_cons_self)
        exact fun hmem => (List.mem_cons.mp hmem).elim hu hhead
      · exact ih (hsplit ▸ List.mem_cons_of_mem _ h)

omit [DecidableEq α] in
/-- What a joined text holds is the separator or part of a field. -/
theorem mem_intercalate {fields : List (List α)} {u : α} (h : u ∈ [separator].intercalate fields) :
    u = separator ∨ ∃ field ∈ fields, u ∈ field := by
  induction fields with
  | nil => exact nomatch h
  | cons field rest ih =>
    cases rest with
    | nil =>
      have h : u ∈ field := by simpa [List.intercalate] using h
      exact .inr ⟨field, List.mem_cons_self, h⟩
    | cons next rest =>
      rw [List.intercalate_cons_cons, List.append_assoc, List.singleton_append] at h
      rcases List.mem_append.mp h with h | h
      · exact .inr ⟨field, List.mem_cons_self, h⟩
      rcases List.mem_cons.mp h with h | h
      · exact .inl h
      · exact (ih h).imp_right fun ⟨f, hf, hu⟩ => ⟨f, List.mem_cons_of_mem _ hf, hu⟩

/-- Joined texts of fields without the separator are equal only if the fields are. -/
theorem intercalate_inj {fields more : List (List α)} (hfields : ∀ f ∈ fields, separator ∉ f)
    (hmore : ∀ f ∈ more, separator ∉ f) (h₁ : fields ≠ []) (h₂ : more ≠ []) :
    [separator].intercalate fields = [separator].intercalate more ↔ fields = more := by
  refine ⟨fun h => ?_, congrArg _⟩
  rw [← List.splitOn_intercalate separator hfields h₁, h, List.splitOn_intercalate separator hmore h₂]

theorem splitOn_injective : Function.Injective (List.splitOn separator : List α → List (List α)) := by
  intro left right h
  have hleft : [separator].intercalate (left.splitOn separator) = left :=
    List.intercalate_splitOn separator
  rw [← hleft, h, List.intercalate_splitOn]

end SeparatedFields
