import Mathlib.Data.List.Basic

/-!
# Transition logs

A log of state changes, and of the occurrences that begin and end on them.

* `Linked` — the changes are links of one chain between two states, each to a different state.
* `occursFrom` — reads the beginnings and ends of occurrences in order, and refuses a beginning
  while one is current or an end while none is.
* `linked_append`, `occursFrom_append` — both compose over concatenation.
-/

namespace TransitionLog

variable {σ τ : Type}

/-- The changes lead from one state to another, link by link. -/
def Linked (source target : τ → σ) : σ → List τ → σ → Prop
  | start, [], finish => start = finish
  | start, change :: rest, finish =>
    source change = start ∧ source change ≠ target change
      ∧ Linked source target (target change) rest finish

section Linked

variable {source target : τ → σ} {start finish : σ}

@[simp] theorem linked_nil : Linked source target start [] finish ↔ start = finish := Iff.rfl

@[simp] theorem linked_cons {change : τ} {rest : List τ} :
    Linked source target start (change :: rest) finish
      ↔ source change = start ∧ source change ≠ target change
        ∧ Linked source target (target change) rest finish := Iff.rfl

theorem linked_append {changes later : List τ} :
    Linked source target start (changes ++ later) finish
      ↔ ∃ middle, Linked source target start changes middle
        ∧ Linked source target middle later finish := by
  induction changes generalizing start with
  | nil => simp
  | cons change rest ih =>
    simp only [List.cons_append, linked_cons, ih]
    constructor
    · rintro ⟨hsource, hne, middle, hrest, hlater⟩
      exact ⟨middle, ⟨hsource, hne, hrest⟩, hlater⟩
    · rintro ⟨middle, ⟨hsource, hne, hrest⟩, hlater⟩
      exact ⟨hsource, hne, middle, hrest, hlater⟩

theorem linked_map {ρ : Type} (f : ρ → τ) {changes : List ρ} :
    Linked source target start (changes.map f) finish
      ↔ Linked (source ∘ f) (target ∘ f) start changes finish := by
  induction changes generalizing start with
  | nil => exact Iff.rfl
  | cons change rest ih => simp only [List.map_cons, linked_cons, Function.comp_apply, ih]

end Linked

/-- What a log says of occurrences. -/
inductive OccurrenceEvent where
  | closed | opened
  deriving DecidableEq

/-- Whether an occurrence is current after some events, from whether one was before them. -/
def occursFrom : Bool → List OccurrenceEvent → Option Bool
  | current, [] => some current
  | false, .opened :: rest => occursFrom true rest
  | true, .closed :: rest => occursFrom false rest
  | _, _ :: _ => none

theorem occursFrom_append (current : Bool) (events later : List OccurrenceEvent) :
    occursFrom current (events ++ later)
      = (occursFrom current events).bind fun middle => occursFrom middle later := by
  induction events generalizing current with
  | nil => rfl
  | cons event rest ih =>
    cases event <;> cases current <;> simp [occursFrom, ih]

end TransitionLog
