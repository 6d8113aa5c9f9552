import Mathlib.Order.Interval.Basic

/-!
# Unions of closed intervals

A list of closed intervals over a linear order stands for the union of its members. Where a point
lies strictly between every two of them the list is the only one of its kind: what it covers decides
it (`Separated.eq_of_covers`).

`sweep` merges intervals that come in order of their starts, joining each to the one before it when
the two touch. It covers what they cover (`covers_sweep`), and what it makes is separated exactly
when every two neighbours it kept apart have a point between them (`separated_sweep_iff`).
-/

namespace IntervalUnion

variable {α : Type} [LinearOrder α]

/-- A point strictly between two. -/
def Gap (a b : α) : Prop := ∃ x, a < x ∧ x < b

theorem Gap.mono {a b c : α} (h : Gap a b) (hle : b ≤ c) : Gap a c := by
  obtain ⟨x, hax, hxb⟩ := h
  exact ⟨x, hax, hxb.trans_le hle⟩

theorem Gap.lt {a b : α} (h : Gap a b) : a < b := by
  obtain ⟨x, hax, hxb⟩ := h
  exact hax.trans hxb

/-- A point of one of the intervals. -/
def Covers (l : List (NonemptyInterval α)) (x : α) : Prop := ∃ i ∈ l, x ∈ i

/-- Apart, in order, and not adjacent. -/
def Separated (l : List (NonemptyInterval α)) : Prop :=
  l.Pairwise fun i j => Gap i.snd j.fst

section Covers

variable {i j : NonemptyInterval α} {l l' : List (NonemptyInterval α)} {x : α}

theorem covers_cons : Covers (i :: l) x ↔ x ∈ i ∨ Covers l x := by
  unfold Covers
  simp

theorem Separated.lt_of_covers (h : Separated (i :: l)) (hx : Covers l x) : i.snd < x := by
  obtain ⟨j, hj, hmem⟩ := hx
  exact ((List.pairwise_cons.mp h).1 j hj).lt.trans_le hmem.1

theorem Separated.fst_le_of_covers (h : Separated (i :: l)) (hx : Covers (i :: l) x) :
    i.fst ≤ x := by
  rcases covers_cons.mp hx with hmem | hrest
  · exact hmem.1
  · exact i.fst_le_snd.trans (h.lt_of_covers hrest).le

/-- Just after its first interval a separated list covers nothing. -/
theorem Separated.exists_uncovered (h : Separated (i :: l)) {b : α} (hb : i.snd < b) :
    ∃ y, i.snd < y ∧ y ≤ b ∧ ¬ Covers (i :: l) y := by
  cases l with
  | nil =>
    refine ⟨b, hb, le_rfl, fun hcovers => ?_⟩
    obtain ⟨k, hk, hmem⟩ := hcovers
    rw [List.mem_singleton.mp hk] at hmem
    exact absurd hmem.2 (not_le.mpr hb)
  | cons j rest =>
    obtain ⟨hfirst, hrest⟩ := List.pairwise_cons.mp h
    obtain ⟨x, hix, hxj⟩ := hfirst j List.mem_cons_self
    refine ⟨min x b, lt_min hix hb, min_le_right x b, fun hcovers => ?_⟩
    rcases covers_cons.mp hcovers with hmem | hlater
    · exact absurd hmem.2 (not_le.mpr (lt_min hix hb))
    · have hle := Separated.fst_le_of_covers hrest hlater
      exact absurd hle (not_le.mpr ((min_le_left x b).trans_lt hxj))

/-- Two separated lists that cover the same points start with the same point. -/
theorem Separated.fst_le (h' : Separated (j :: l')) (hcovers : Covers (i :: l) i.fst ↔
    Covers (j :: l') i.fst) : j.fst ≤ i.fst := by
  have hfirst : Covers (i :: l) i.fst := ⟨i, List.mem_cons_self, ⟨le_rfl, i.fst_le_snd⟩⟩
  exact h'.fst_le_of_covers (hcovers.mp hfirst)

/-- Two separated lists that cover the same points and start with the same one end their first
interval with the same one. -/
theorem Separated.snd_le (h : Separated (i :: l)) (hfst : i.fst = j.fst)
    (hcovers : ∀ x, Covers (j :: l') x → Covers (i :: l) x) : j.snd ≤ i.snd := by
  by_contra hlt
  obtain ⟨y, hiy, hyj, huncovered⟩ := h.exists_uncovered (not_le.mp hlt)
  refine huncovered (hcovers y ⟨j, List.mem_cons_self, ⟨?_, hyj⟩⟩)
  rw [← hfst]
  exact i.fst_le_snd.trans hiy.le

/-- **What a separated list covers decides it.** -/
theorem Separated.eq_of_covers (h : Separated l) (h' : Separated l')
    (hcovers : ∀ x, Covers l x ↔ Covers l' x) : l = l' := by
  induction l generalizing l' with
  | nil =>
    cases l' with
    | nil => rfl
    | cons j rest =>
      obtain ⟨k, hk, -⟩ := (hcovers j.fst).mpr ⟨j, List.mem_cons_self, ⟨le_rfl, j.fst_le_snd⟩⟩
      cases hk
  | cons i l ih =>
    cases l' with
    | nil =>
      obtain ⟨k, hk, -⟩ := (hcovers i.fst).mp ⟨i, List.mem_cons_self, ⟨le_rfl, i.fst_le_snd⟩⟩
      cases hk
    | cons j l' =>
      have hfst : i.fst = j.fst :=
        le_antisymm (h.fst_le (hcovers j.fst).symm) (h'.fst_le (hcovers i.fst))
      have hsnd : i.snd = j.snd :=
        le_antisymm (h'.snd_le hfst.symm fun x => (hcovers x).mp)
          (h.snd_le hfst fun x => (hcovers x).mpr)
      obtain rfl : i = j := NonemptyInterval.ext (Prod.ext hfst hsnd)
      congr 1
      refine ih (List.pairwise_cons.mp h).2 (List.pairwise_cons.mp h').2 fun x => ?_
      constructor
      · intro hx
        rcases covers_cons.mp ((hcovers x).mp (covers_cons.mpr (.inr hx))) with hmem | hrest
        · exact absurd hmem.2 (not_le.mpr (h.lt_of_covers hx))
        · exact hrest
      · intro hx
        rcases covers_cons.mp ((hcovers x).mpr (covers_cons.mpr (.inr hx))) with hmem | hrest
        · exact absurd hmem.2 (not_le.mpr (h'.lt_of_covers hx))
        · exact hrest

end Covers

/-! ### Merging in one pass -/

section Sweep

variable (touches : α → α → Prop) [DecidableRel touches]

/-- Merges intervals in order of their starts, each into the one before it when the two touch. -/
def sweep (previous : NonemptyInterval α) :
    List (NonemptyInterval α) → List (NonemptyInterval α)
  | [] => [previous]
  | i :: rest =>
    if touches previous.snd i.fst then sweep (previous ⊔ i) rest else previous :: sweep i rest

/-- Every two neighbours the sweep keeps apart have a point between them. -/
def KeepsGaps (previous : NonemptyInterval α) : List (NonemptyInterval α) → Prop
  | [] => True
  | i :: rest =>
    if touches previous.snd i.fst then KeepsGaps (previous ⊔ i) rest
    else Gap previous.snd i.fst ∧ KeepsGaps i rest

/-- In order of their starts. -/
def Ascends (l : List (NonemptyInterval α)) : Prop := l.Pairwise fun i j => i.fst ≤ j.fst

variable {touches} {previous i : NonemptyInterval α} {rest : List (NonemptyInterval α)} {x : α}

theorem fst_sup_of_le (h : previous.fst ≤ i.fst) : (previous ⊔ i).fst = previous.fst := by
  rw [NonemptyInterval.fst_sup, inf_eq_left.mpr h]

theorem Ascends.sup (h : Ascends (previous :: i :: rest)) : Ascends ((previous ⊔ i) :: rest) := by
  obtain ⟨hprevious, hrest⟩ := List.pairwise_cons.mp h
  refine List.pairwise_cons.mpr ⟨fun j hj => ?_, (List.pairwise_cons.mp hrest).2⟩
  rw [fst_sup_of_le (hprevious i List.mem_cons_self)]
  exact hprevious j (List.mem_cons_of_mem _ hj)

/-- Two intervals that touch cover what their hull does. -/
theorem mem_sup_iff (hle : previous.fst ≤ i.fst) (htouches : ¬ Gap previous.snd i.fst) :
    x ∈ previous ⊔ i ↔ x ∈ previous ∨ x ∈ i := by
  rw [NonemptyInterval.mem_def, fst_sup_of_le hle, NonemptyInterval.snd_sup]
  constructor
  · rintro ⟨hfst, hsnd⟩
    rcases le_or_gt x previous.snd with hbefore | hafter
    · exact .inl ⟨hfst, hbefore⟩
    · refine .inr ⟨not_lt.mp fun hlt => htouches ⟨x, hafter, hlt⟩, ?_⟩
      rcases le_sup_iff.mp hsnd with hno | hsnd
      · exact absurd hno (not_le.mpr hafter)
      · exact hsnd
  · rintro (⟨hfst, hsnd⟩ | ⟨hfst, hsnd⟩)
    · exact ⟨hfst, hsnd.trans le_sup_left⟩
    · exact ⟨hle.trans hfst, hsnd.trans le_sup_right⟩

/-- **The sweep covers what it was given.** -/
theorem covers_sweep (htouches : ∀ a b, touches a b → ¬ Gap a b)
    (h : Ascends (previous :: rest)) :
    Covers (sweep touches previous rest) x ↔ Covers (previous :: rest) x := by
  induction rest generalizing previous with
  | nil => exact Iff.rfl
  | cons i rest ih =>
    obtain ⟨hprevious, hrest⟩ := List.pairwise_cons.mp h
    rw [sweep]
    split
    · next htouch =>
      rw [ih h.sup, covers_cons, covers_cons, covers_cons,
        mem_sup_iff (hprevious i List.mem_cons_self) (htouches _ _ htouch), or_assoc]
    · rw [covers_cons, ih hrest, ← covers_cons]

/-- The sweep starts where it was started. -/
theorem fst_le_of_mem_sweep (h : Ascends (previous :: rest)) {j : NonemptyInterval α}
    (hj : j ∈ sweep touches previous rest) : previous.fst ≤ j.fst := by
  induction rest generalizing previous with
  | nil =>
    rw [List.mem_singleton.mp hj]
  | cons i rest ih =>
    obtain ⟨hprevious, hrest⟩ := List.pairwise_cons.mp h
    rw [sweep] at hj
    split at hj
    · rw [← fst_sup_of_le (hprevious i List.mem_cons_self)]
      exact ih h.sup hj
    · rcases List.mem_cons.mp hj with rfl | hj
      · exact le_rfl
      · exact (hprevious i List.mem_cons_self).trans (ih hrest hj)

variable (touches) in
theorem exists_mem_sweep (h : Ascends (previous :: rest)) :
    ∃ j ∈ sweep touches previous rest, j.fst = previous.fst := by
  induction rest generalizing previous with
  | nil => exact ⟨previous, List.mem_cons_self, rfl⟩
  | cons i rest ih =>
    rw [sweep]
    split
    · obtain ⟨j, hj, hfst⟩ := ih h.sup
      exact ⟨j, hj, hfst.trans (fst_sup_of_le ((List.pairwise_cons.mp h).1 i List.mem_cons_self))⟩
    · exact ⟨previous, List.mem_cons_self, rfl⟩

/-- **What the sweep makes is separated exactly when it keeps gaps.** -/
theorem separated_sweep_iff (h : Ascends (previous :: rest)) :
    Separated (sweep touches previous rest) ↔ KeepsGaps touches previous rest := by
  induction rest generalizing previous with
  | nil => exact iff_of_true (List.pairwise_singleton _ _) trivial
  | cons i rest ih =>
    have hrest := (List.pairwise_cons.mp h).2
    rw [sweep, KeepsGaps]
    split
    · exact ih h.sup
    · rw [Separated, List.pairwise_cons]
      refine and_congr ?_ (ih hrest)
      constructor
      · intro hgaps
        obtain ⟨j, hj, hfst⟩ := exists_mem_sweep touches hrest
        rw [← hfst]
        exact hgaps j hj
      · intro hgap j hj
        exact hgap.mono (fst_le_of_mem_sweep hrest hj)

end Sweep

end IntervalUnion
