import FactorSage.Library.OrderedMap
import Mathlib.Data.Finset.Max
import Mathlib.Data.List.Sort
import Mathlib.Tactic.Ring

/-!
# Sweeping over events

A map from points of a linear order to changes stands for a step function: its value at a point is
the sum of the changes up to it (`level`). The function moves only at the map's points, so a pass
over these, in order, with a running sum finds its greatest value and the first point that reaches
it (`sweep_spec`).
-/

namespace EventSweep

variable {α : Type} [LinearOrder α]

/-- One more change at a point. -/
def add (deltas : OrderedMap α ℤ) (point : α) (delta : ℤ) : OrderedMap α ℤ :=
  deltas.set point ((deltas.get? point).getD 0 + delta)

def delta (deltas : OrderedMap α ℤ) (point : α) : ℤ := (deltas.get? point).getD 0

/-- The changes up to a point, together. -/
def level (deltas : OrderedMap α ℤ) (point : α) : ℤ :=
  ((deltas.keys.filter (· ≤ point)).map (delta deltas)).sum

/-! ### Levels -/

section Levels

variable {deltas : OrderedMap α ℤ} {point x : α} {change : ℤ}

@[simp] theorem level_empty (x : α) : level (.empty : OrderedMap α ℤ) x = 0 := rfl

theorem delta_add (deltas : OrderedMap α ℤ) (point key : α) (change : ℤ) :
    delta (add deltas point change) key = delta deltas key + if key = point then change else 0 := by
  rw [delta, add, OrderedMap.get?_set]
  by_cases h : key = point
  · subst h
    simp [delta]
  · simp [h, delta]

/-- A change at one of the points of a sum. -/
theorem sum_map_add_ite {l : List α} (hnd : l.Nodup) (f : α → ℤ) (point : α) (change : ℤ) :
    (l.map fun key => f key + if key = point then change else 0).sum
      = (l.map f).sum + if point ∈ l then change else 0 := by
  induction l with
  | nil => rfl
  | cons key l ih =>
    obtain ⟨hnew, hnd⟩ := List.nodup_cons.mp hnd
    rw [List.map_cons, List.sum_cons, ih hnd, List.map_cons, List.sum_cons]
    by_cases h : key = point
    · subst h
      rw [if_pos rfl, if_neg hnew, if_pos List.mem_cons_self]
      ring
    · rw [if_neg h]
      simp only [List.mem_cons, Ne.symm h, false_or]
      ring

theorem keys_add (deltas : OrderedMap α ℤ) (point : α) (change : ℤ) :
    (add deltas point change).keys
      = if point ∈ deltas.keys then deltas.keys else deltas.keys ++ [point] :=
  OrderedMap.map_fst_setEntries deltas point _

theorem mem_keys_add {key : α} :
    key ∈ (add deltas point change).keys ↔ key ∈ deltas.keys ∨ key = point := by
  rw [keys_add]
  split
  · next h => exact ⟨.inl, fun hkey => hkey.elim id fun heq => heq ▸ h⟩
  · simp

/-- A change at a point raises every level from there on. -/
theorem level_add (deltas : OrderedMap α ℤ) (point : α) (change : ℤ) (x : α) :
    level (add deltas point change) x = level deltas x + if point ≤ x then change else 0 := by
  have hnd : (deltas.keys.filter (· ≤ x)).Nodup := deltas.nodup.filter _
  have hsum := sum_map_add_ite hnd (delta deltas) point change
  have hfun : delta (add deltas point change)
      = fun key => delta deltas key + if key = point then change else 0 :=
    funext fun key => delta_add deltas point key change
  rw [level, level, hfun, keys_add]
  split
  · next hkey =>
    rw [hsum]
    congr 1
    simp [List.mem_filter, hkey]
  · next hkey =>
    have hzero : delta deltas point = 0 := by
      rw [delta, OrderedMap.get?_eq_none_iff.mpr hkey]
      rfl
    have hnot : point ∉ deltas.keys.filter (· ≤ x) := fun h => hkey (List.mem_filter.mp h).1
    rw [List.filter_append, List.map_append, List.sum_append, hsum, if_neg hnot, add_zero]
    by_cases hle : point ≤ x
    · simp [hle, hzero]
    · simp [hle]

/-- Between two points of the map the level stays what it was at the first, and before all of them
it is zero. -/
theorem level_eq_zero_or (deltas : OrderedMap α ℤ) (x : α) :
    level deltas x = 0 ∨ ∃ key ∈ deltas.keys, key ≤ x ∧ level deltas x = level deltas key := by
  by_cases hnone : deltas.keys.filter (· ≤ x) = []
  · refine .inl ?_
    rw [level, hnone]
    rfl
  · have hnonempty : (deltas.keys.filter (· ≤ x)).toFinset.Nonempty :=
      List.toFinset_nonempty_iff _ |>.mpr hnone
    obtain ⟨key, hkey, hmax⟩ := Finset.exists_max_image _ id hnonempty
    obtain ⟨hmem, hle⟩ := List.mem_filter.mp (List.mem_toFinset.mp hkey)
    have hle : key ≤ x := by simpa using hle
    refine .inr ⟨key, hmem, hle, ?_⟩
    have hsame : deltas.keys.filter (· ≤ x) = deltas.keys.filter (· ≤ key) := by
      refine List.filter_congr fun other hother => ?_
      rw [decide_eq_decide]
      refine ⟨fun h => ?_, fun h => h.trans hle⟩
      exact hmax other (List.mem_toFinset.mpr (List.mem_filter.mpr ⟨hother, by simpa using h⟩))
    rw [level, level, hsame]

end Levels

/-! ### The pass -/

/-- The running sum, the greatest so far, and where it was first reached. -/
structure Sweep (α : Type) where
  current : ℤ
  peak : ℤ
  point : Option α

/-- One point. -/
def Sweep.visit (sweep : Sweep α) (deltas : OrderedMap α ℤ) (point : α) : Sweep α :=
  if sweep.peak < sweep.current + delta deltas point then
    ⟨sweep.current + delta deltas point, sweep.current + delta deltas point, some point⟩
  else { sweep with current := sweep.current + delta deltas point }

/-- The points in order, up to the last one that counts. -/
def Sweep.visitAll (deltas : OrderedMap α ℤ) (stop : α) (sweep : Sweep α) : List α → Sweep α
  | [] => sweep
  | point :: rest =>
    if stop < point then sweep else (sweep.visit deltas point).visitAll deltas stop rest

/-- What has been found once some points are behind the pass: either nothing above the base, or the
first point that reaches the peak. -/
structure Found (base : ℤ) (start : Option α) (deltas : OrderedMap α ℤ) (seen : α → Prop)
    (sweep : Sweep α) : Prop where
  base_le : base ≤ sweep.peak
  le_peak : ∀ point, seen point → base + level deltas point ≤ sweep.peak
  first : sweep.peak = base ∧ sweep.point = start ∨ ∃ point, sweep.point = some point ∧ seen point
    ∧ base < sweep.peak ∧ base + level deltas point = sweep.peak
    ∧ ∀ earlier, seen earlier → earlier < point → base + level deltas earlier < sweep.peak

section Pass

variable {base : ℤ} {start : Option α} {deltas : OrderedMap α ℤ} {stop : α}

/-- **One point of the pass.** Its level is the running sum. -/
theorem Found.visit {seen : α → Prop} {sweep : Sweep α} {point : α}
    (h : Found base start deltas seen sweep) (hnew : ∀ other, seen other → other < point)
    (hcurrent : sweep.current + delta deltas point = base + level deltas point) :
    Found base start deltas (fun other => seen other ∨ other = point)
      (sweep.visit deltas point) := by
  unfold Sweep.visit
  split
  · next hpeak =>
    rw [hcurrent] at hpeak ⊢
    refine ⟨h.base_le.trans hpeak.le, ?_, .inr ⟨point, rfl, .inr rfl, h.base_le.trans_lt hpeak, rfl,
      ?_⟩⟩
    · rintro other (hother | rfl)
      · exact (h.le_peak other hother).trans hpeak.le
      · exact le_rfl
    · rintro other (hother | rfl) hlt
      · exact (h.le_peak other hother).trans_lt hpeak
      · exact absurd hlt (lt_irrefl _)
  · next hpeak =>
    rw [hcurrent] at hpeak
    refine ⟨h.base_le, ?_, ?_⟩
    · rintro other (hother | rfl)
      · exact h.le_peak other hother
      · exact not_lt.mp hpeak
    · rcases h.first with hnone | ⟨found, hfound, hseen, hbase, hreach, hearlier⟩
      · exact .inl hnone
      · refine .inr ⟨found, hfound, .inl hseen, hbase, hreach, ?_⟩
        rintro other (hother | rfl) hlt
        · exact hearlier other hother hlt
        · exact absurd (hnew found hseen) (not_lt.mpr hlt.le)

/-- The sum of the first of the sorted points is the level there. -/
theorem sum_take_eq_level {before rest : List α} {point : α}
    (hperm : (before ++ point :: rest).Perm deltas.keys)
    (hsorted : (before ++ point :: rest).Pairwise (· < ·)) :
    (before.map (delta deltas)).sum + delta deltas point = level deltas point := by
  have hfilter : (before ++ point :: rest).filter (· ≤ point) = before ++ [point] := by
    obtain ⟨-, hrest, hbefore⟩ := List.pairwise_append.mp hsorted
    have hkeep : before.filter (· ≤ point) = before := List.filter_eq_self.mpr fun b hb => by
      simpa using (hbefore b hb point List.mem_cons_self).le
    have hdrop : rest.filter (· ≤ point) = [] := List.filter_eq_nil_iff.mpr fun b hb => by
      simpa using (List.pairwise_cons.mp hrest).1 b hb
    rw [List.filter_append, List.filter_cons_of_pos (by simp), hkeep, hdrop]
  have hsum := ((hperm.filter (· ≤ point)).map (delta deltas)).sum_eq
  rw [hfilter] at hsum
  rw [level, ← hsum]
  simp

theorem Found.visitAll : ∀ (rest before : List α) (sweep : Sweep α),
    (before ++ rest).Perm deltas.keys → (before ++ rest).Pairwise (· < ·) →
    (∀ point ∈ before, point ≤ stop) →
    sweep.current = base + (before.map (delta deltas)).sum →
    Found base start deltas (· ∈ before) sweep →
    Found base start deltas (fun point => point ∈ deltas.keys ∧ point ≤ stop)
      (sweep.visitAll deltas stop rest) := by
  intro rest
  induction rest with
  | nil =>
    intro before sweep hperm _ hstop _ h
    have hseen : (fun point => point ∈ deltas.keys ∧ point ≤ stop) = (· ∈ before) := by
      funext point
      rw [List.append_nil] at hperm
      rw [← hperm.mem_iff]
      exact propext (and_iff_left_of_imp (hstop point))
    rw [hseen]
    exact h
  | cons point rest ih =>
    intro before sweep hperm hsorted hstop hcurrent h
    have hcross : ∀ b ∈ before, b < point := fun b hb =>
      (List.pairwise_append.mp hsorted).2.2 b hb point List.mem_cons_self
    unfold Sweep.visitAll
    split
    · next hpast =>
      -- this point and those behind it lie beyond the last that counts
      have hseen : (fun other => other ∈ deltas.keys ∧ other ≤ stop) = (· ∈ before) := by
        funext other
        rw [← hperm.mem_iff]
        refine propext ⟨fun ⟨hmem, hle⟩ => ?_, fun hmem => ⟨by simp [hmem], hstop other hmem⟩⟩
        rcases List.mem_append.mp hmem with hmem | hmem
        · exact hmem
        · have hge : point ≤ other := by
            rcases List.mem_cons.mp hmem with rfl | hmem
            · exact le_rfl
            · exact ((List.pairwise_cons.mp (List.pairwise_append.mp hsorted).2.1).1 other hmem).le
          exact absurd (hpast.trans_le hge) (not_lt.mpr hle)
      rw [hseen]
      exact h
    · next hpast =>
      have hlevel := sum_take_eq_level hperm hsorted
      have hsum : sweep.current + delta deltas point = base + level deltas point := by
        rw [hcurrent, add_assoc, hlevel]
      have hlists : before ++ point :: rest = (before ++ [point]) ++ rest := by simp
      rw [hlists] at hperm hsorted
      refine ih (before ++ [point]) (sweep.visit deltas point) hperm hsorted ?_ ?_ ?_
      · intro b hb
        rcases List.mem_append.mp hb with hb | hb
        · exact hstop b hb
        · rw [List.mem_singleton.mp hb]
          exact not_lt.mp hpast
      · have hvisit : (sweep.visit deltas point).current = sweep.current + delta deltas point := by
          unfold Sweep.visit
          split <;> rfl
        rw [hvisit, hcurrent, List.map_append, List.sum_append]
        simp [add_assoc]
      · have hseen : (· ∈ before ++ [point]) = fun other => other ∈ before ∨ other = point := by
          funext other
          simp
        rw [hseen]
        exact h.visit hcross hsum

/-- **The pass finds the peak.** Over all the map's points up to the last that counts. -/
theorem sweep_spec (base : ℤ) (start : Option α) (deltas : OrderedMap α ℤ) (stop : α) :
    Found base start deltas (fun point => point ∈ deltas.keys ∧ point ≤ stop)
      (Sweep.visitAll deltas stop ⟨base, base, start⟩
        (deltas.keys.insertionSort (· ≤ ·))) := by
  have hperm : (deltas.keys.insertionSort (· ≤ ·)).Perm deltas.keys := List.perm_insertionSort _ _
  have hsorted : (deltas.keys.insertionSort (· ≤ ·)).Pairwise (· < ·) := by
    have hle := List.pairwise_insertionSort (· ≤ ·) deltas.keys
    have hne : (deltas.keys.insertionSort (· ≤ ·)).Nodup := hperm.nodup_iff.mpr deltas.nodup
    exact hle.imp₂ (fun {a b} hle hne => lt_of_le_of_ne hle hne) hne
  refine Found.visitAll _ [] _ hperm hsorted (fun _ h => nomatch h) (by simp) ?_
  exact ⟨le_rfl, fun _ h => (nomatch h), .inl ⟨rfl, rfl⟩⟩

end Pass

end EventSweep
