import FactorSage.Library.AscendingList

/-!
# A window that slides over a list

Two cursors move forward over a list: what the first passes enters an accumulator, what the second
passes leaves it. An accumulator that holds the items between the cursors holds them again after any
move of either (`Holds.enterWhile`, `Holds.leaveWhile`), so a sweep never has to look at an item more
than twice.
-/

namespace SlidingWindow

open AscendingList

variable {α S : Type}

/-- The accumulator and the two cursors. -/
structure Cursor (S : Type) where
  state : S
  nextToEnter : ℕ
  nextToLeave : ℕ

variable (enter leave : S → α → S)

/-- Moves the first cursor while the items it comes to pass a test. -/
def enterWhile (items : List α) (test : α → Bool) (cursor : Cursor S) : Cursor S :=
  let entering := (items.drop cursor.nextToEnter).takeWhile test
  { cursor with
    state := entering.foldl enter cursor.state
    nextToEnter := cursor.nextToEnter + entering.length }

/-- Moves the second cursor while the items it comes to pass a test, up to the first. -/
def leaveWhile (items : List α) (test : α → Bool) (cursor : Cursor S) : Cursor S :=
  let leaving := ((items.take cursor.nextToEnter).drop cursor.nextToLeave).takeWhile test
  { cursor with
    state := leaving.foldl leave cursor.state
    nextToLeave := cursor.nextToLeave + leaving.length }

/-! ### Initial segments -/

theorem takeWhile_takeWhile_of_imp {p q : α → Bool} (h : ∀ a, p a = true → q a = true)
    (l : List α) : (l.takeWhile q).takeWhile p = l.takeWhile p := by
  rw [List.takeWhile_takeWhile]
  congr 1
  funext a
  cases ha : p a with
  | false => simp
  | true => simp [h a ha]

/-- Between two cursors lie the items that pass the one test and not the other. -/
theorem drop_takeWhile_eq_filter {q r : α → Bool} {l : List α}
    (hq : l.Pairwise fun a b => q b = true → q a = true)
    (hr : l.Pairwise fun a b => r b = true → r a = true) (hqr : ∀ a, q a = true → r a = true) :
    (l.takeWhile r).drop (l.takeWhile q).length = l.filter fun a => r a && !q a := by
  rw [← takeWhile_takeWhile_of_imp hqr, drop_length_takeWhile,
    ← filter_eq_takeWhile hr, ← filter_not_eq_dropWhile (hq.filter _), List.filter_filter]
  exact List.filter_congr fun a _ => Bool.and_comm _ _

/-! ### What the accumulator holds -/

variable {enter leave} {R : S → List α → Prop} {items : List α} {cursor : Cursor S}

/-- The accumulator holds the items between the cursors. -/
structure Holds (R : S → List α → Prop) (items : List α) (cursor : Cursor S)
    (left right : List α) : Prop where
  leave_eq : cursor.nextToLeave = left.length
  enter_eq : cursor.nextToEnter = right.length
  state : R cursor.state (right.drop left.length)

variable (henter : ∀ s l a, R s l → R (enter s a) (l ++ [a]))
  (hleave : ∀ s l a, R s (a :: l) → R (leave s a) l)

include henter in
theorem foldl_enter {s : S} {l : List α} (h : R s l) (entering : List α) :
    R (entering.foldl enter s) (l ++ entering) := by
  induction entering generalizing s l with
  | nil => rwa [List.append_nil]
  | cons a entering ih =>
    rw [← List.singleton_append, ← List.append_assoc]
    exact ih (henter s l a h)

include hleave in
theorem foldl_leave {s : S} {leaving l : List α} (h : R s (leaving ++ l)) :
    R (leaving.foldl leave s) l := by
  induction leaving generalizing s with
  | nil => exact h
  | cons a leaving ih => exact ih (hleave s _ a h)

include henter in
/-- **The first cursor moves**, and what it passes enters. -/
theorem Holds.enterWhile {p q : α → Bool} {left : List α}
    (h : Holds R items cursor left (items.takeWhile p))
    (hle : left.length ≤ (items.takeWhile p).length) (hpq : ∀ a, p a = true → q a = true) :
    Holds R items (enterWhile enter items q cursor) left (items.takeWhile q) := by
  have hsplit := takeWhile_split hpq items
  have hentering : (items.drop cursor.nextToEnter).takeWhile q
      = (items.drop (items.takeWhile p).length).takeWhile q := by rw [h.enter_eq]
  refine ⟨h.leave_eq, ?_, ?_⟩
  · change cursor.nextToEnter + ((items.drop cursor.nextToEnter).takeWhile q).length = _
    rw [hentering, h.enter_eq, hsplit, List.length_append]
  · change R (((items.drop cursor.nextToEnter).takeWhile q).foldl enter cursor.state) _
    rw [hentering, hsplit, List.drop_append_of_le_length hle]
    exact foldl_enter henter h.state _

include hleave in
/-- **The second cursor moves**, and what it passes leaves. -/
theorem Holds.leaveWhile {p q r : α → Bool}
    (h : Holds R items cursor (items.takeWhile p) (items.takeWhile r))
    (hpq : ∀ a, p a = true → q a = true) (hqr : ∀ a, q a = true → r a = true) :
    Holds R items (leaveWhile leave items q cursor) (items.takeWhile q) (items.takeWhile r) := by
  have hsplit := takeWhile_split hpq (items.takeWhile r)
  rw [takeWhile_takeWhile_of_imp hqr, takeWhile_takeWhile_of_imp fun a ha => hqr a (hpq a ha)]
    at hsplit
  have hleaving : ((items.take cursor.nextToEnter).drop cursor.nextToLeave).takeWhile q
      = ((items.takeWhile r).drop (items.takeWhile p).length).takeWhile q := by
    rw [h.enter_eq, h.leave_eq, ← List.prefix_iff_eq_take.mp (List.takeWhile_prefix r)]
  refine ⟨?_, h.enter_eq, ?_⟩
  · change cursor.nextToLeave
      + (((items.take cursor.nextToEnter).drop cursor.nextToLeave).takeWhile q).length = _
    rw [hleaving, h.leave_eq, hsplit, List.length_append]
  · change R ((((items.take cursor.nextToEnter).drop cursor.nextToLeave).takeWhile q).foldl leave
      cursor.state) _
    rw [hleaving]
    refine foldl_leave hleave ?_
    have hrest : ((items.takeWhile r).drop (items.takeWhile p).length).takeWhile q
        ++ (items.takeWhile r).drop (items.takeWhile q).length
        = (items.takeWhile r).drop (items.takeWhile p).length := by
      rw [hsplit, List.length_append, ← List.drop_drop]
      generalize (items.takeWhile r).drop (items.takeWhile p).length = rest
      rw [drop_length_takeWhile, List.takeWhile_append_dropWhile]
    rw [hrest]
    exact h.state

end SlidingWindow
