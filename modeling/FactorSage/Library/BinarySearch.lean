import Mathlib.Data.List.Basic
import Mathlib.Order.Nat
import Mathlib.Tactic.Common

/-!
# Binary search for the first failure

`search holds fuel low high` halves `[low, high)` until nothing is left of it, moving past a middle
position that `holds` and back to one that does not. Where `holds` is true up to a position and false
from it on, the search ends there (`search_spec`); over a list whose first part passes a test that
the rest fails, it ends where the rest begins (`search_append`). `searchLast` keeps the last element
it found to pass, which is the last of the first part (`searchLast_append`).

The interval shrinks at every step, so its length is enough fuel.
-/

namespace BinarySearch

/-- The loop of the search over `[low, high)`. -/
def search (holds : ℕ → Bool) : ℕ → ℕ → ℕ → ℕ
  | 0, low, _ => low
  | fuel + 1, low, high =>
    if low < high then
      if holds ((low + high) / 2) then search holds fuel ((low + high) / 2 + 1) high
      else search holds fuel low ((low + high) / 2)
    else low

/-- Below the answer the predicate holds, from it on it does not. -/
structure Splits (holds : ℕ → Bool) (low high answer : ℕ) : Prop where
  low_le : low ≤ answer
  le_high : answer ≤ high
  below : ∀ i, low ≤ i → i < answer → holds i
  above : ∀ i, answer ≤ i → i < high → ¬ holds i

/-- A predicate that fails nowhere before it holds is split by the search. -/
theorem search_spec {holds : ℕ → Bool} {fuel low high : ℕ} (hfuel : high - low ≤ fuel)
    (hle : low ≤ high)
    (hmono : ∀ i j, low ≤ i → i ≤ j → j < high → holds j → holds i) :
    Splits holds low high (search holds fuel low high) := by
  induction fuel generalizing low high with
  | zero =>
    obtain rfl : low = high := by omega
    exact ⟨le_rfl, le_rfl, fun i h h' => absurd h' (not_lt.mpr h),
      fun i h h' => absurd h' (not_lt.mpr h)⟩
  | succ fuel ih =>
    unfold search
    split
    · split
      · next hlt hmiddle =>
        -- everything up to the middle holds, so the answer lies above it
        obtain ⟨hlow, hhigh, hbelow, habove⟩ := @ih ((low + high) / 2 + 1) high (by omega)
          (by omega) fun i j hi hij hj => hmono i j (by omega) hij hj
        refine ⟨by omega, hhigh, fun i hi hlt => ?_, habove⟩
        by_cases him : i ≤ (low + high) / 2
        · exact hmono i _ hi him (by omega) hmiddle
        · exact hbelow i (by omega) hlt
      · next hlt hmiddle =>
        obtain ⟨hlow, hhigh, hbelow, habove⟩ := @ih low ((low + high) / 2) (by omega) (by omega)
          fun i j hi hij hj => hmono i j hi hij (by omega)
        refine ⟨hlow, by omega, hbelow, fun i hi hlt hholds => ?_⟩
        by_cases him : i < (low + high) / 2
        · exact habove i hi him hholds
        · exact hmiddle (hmono _ i (by omega) (by omega) hlt hholds)
    · next hlt =>
      exact ⟨le_rfl, hle, fun i h h' => by omega, fun i h h' => by omega⟩

/-- One position splits a predicate. -/
theorem Splits.unique {holds : ℕ → Bool} {low high a b : ℕ} (ha : Splits holds low high a)
    (hb : Splits holds low high b) : a = b := by
  have hle : ∀ {a b}, Splits holds low high a → Splits holds low high b → a ≤ b := by
    intro a b ha hb
    by_contra hlt
    exact hb.above b le_rfl (by have := ha.le_high; omega)
      (ha.below b hb.low_le (not_le.mp hlt))
  exact le_antisymm (hle ha hb) (hle hb ha)

variable {α : Type} {p : α → Bool}

/-- Over a list whose first part passes a test and whose rest fails it, the search finds where the
rest begins. -/
theorem search_append {front back : List α} (hfront : ∀ a ∈ front, p a)
    (hback : ∀ a ∈ back, ¬ p a) :
    search (fun i => (front ++ back)[i]?.any p) (front ++ back).length 0 (front ++ back).length
      = front.length := by
  have hbelow : ∀ i, i < front.length → (front ++ back)[i]?.any p := by
    intro i hi
    rw [List.getElem?_append_left hi, List.getElem?_eq_getElem hi, Option.any_some]
    exact hfront _ (List.getElem_mem hi)
  have habove : ∀ i, front.length ≤ i → ¬ (front ++ back)[i]?.any p := by
    intro i hi hholds
    rw [List.getElem?_append_right hi] at hholds
    obtain ⟨b, hb, hpb⟩ := Option.any_eq_true .. |>.mp hholds
    exact hback b (List.mem_of_getElem? hb) hpb
  refine Splits.unique (search_spec (by omega) (Nat.zero_le _) ?_) ⟨Nat.zero_le _, ?_, ?_, ?_⟩
  · intro i j _ hij _ hj
    refine hbelow i (lt_of_le_of_lt hij ?_)
    by_contra hle
    exact habove j (not_lt.mp hle) hj
  · simp
  · exact fun i _ hi => hbelow i hi
  · exact fun i hi _ => habove i hi

/-! ### The last element that passes -/

/-- The loop of the search over `[low, high)`, with the last element found to pass. -/
def searchLast (p : α → Bool) (l : List α) : ℕ → ℕ → ℕ → Option α → Option α
  | 0, _, _, found => found
  | fuel + 1, low, high, found =>
    if low < high then
      match l[(low + high - 1) / 2]? with
      | some a =>
        if p a then searchLast p l fuel ((low + high - 1) / 2 + 1) high (some a)
        else searchLast p l fuel low ((low + high - 1) / 2) found
      | none => found
    else found

theorem searchLast_spec {front back : List α} (hfront : ∀ a ∈ front, p a)
    (hback : ∀ a ∈ back, ¬ p a) {fuel low high : ℕ} {found : Option α}
    (hfuel : high - low ≤ fuel) (hlow : low ≤ front.length) (hhigh : front.length ≤ high)
    (hbound : high ≤ (front ++ back).length) (hfound : found = (front.take low).getLast?) :
    searchLast p (front ++ back) fuel low high found = front.getLast? := by
  have hdone : low = front.length → found = front.getLast? := by
    intro heq
    rw [hfound, heq, List.take_length]
  induction fuel generalizing low high found with
  | zero =>
    exact hdone (by omega)
  | succ fuel ih =>
    unfold searchLast
    by_cases hlt : low < high
    · rw [if_pos hlt]
      have hmiddle : (low + high - 1) / 2 < (front ++ back).length := by omega
      rw [List.getElem?_eq_getElem hmiddle]
      dsimp only
      by_cases hside : (low + high - 1) / 2 < front.length
      · -- the middle is in the first part, and is the last found to pass
        have hget : (front ++ back)[(low + high - 1) / 2] = front[(low + high - 1) / 2] :=
          List.getElem_append_left hside
        rw [hget, if_pos (hfront _ (List.getElem_mem hside))]
        have hfound' : some front[(low + high - 1) / 2]
            = (front.take ((low + high - 1) / 2 + 1)).getLast? := by
          rw [List.take_add_one, List.getElem?_eq_getElem hside, Option.toList_some,
            List.getLast?_concat]
        refine ih (by omega) (by omega) hhigh hbound hfound' fun heq => ?_
        rw [hfound', heq, List.take_length]
      · have hget : (front ++ back)[(low + high - 1) / 2] ∈ back := by
          rw [List.getElem_append_right (not_lt.mp hside)]
          exact List.getElem_mem _
        rw [if_neg (hback _ hget)]
        exact ih (by omega) hlow (not_lt.mp hside) (by omega) hfound hdone
    · rw [if_neg hlt]
      exact hdone (by omega)

/-- Over a list whose first part passes a test and whose rest fails it, the search keeps the last of
the first part. -/
theorem searchLast_append {front back : List α} (hfront : ∀ a ∈ front, p a)
    (hback : ∀ a ∈ back, ¬ p a) :
    searchLast p (front ++ back) (front ++ back).length 0 (front ++ back).length none
      = front.getLast? :=
  searchLast_spec hfront hback (by omega) (Nat.zero_le _) (by simp) le_rfl rfl

end BinarySearch
