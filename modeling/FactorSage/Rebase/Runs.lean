import FactorSage.Rebase.Comparison

/-!
# The runs of a segmented history

A segment is a stretch of sessions of one kind that admit a common ratio. Where neighbouring
segments have no ratio in common, the runs the comparison grows are the segments
(`growRuns_flatten`). The resolving loop leaves nothing unresolved: each of its passes leaves fewer
runs.
-/

namespace FactorSage.Rebase

/-! ### The loop ends resolved -/

section Passes

variable {runs resolved : List Run}

theorem findIndex_lt {condition : Run → ℕ → Bool} {index : ℕ}
    (h : findIndex runs condition = some index) : ∃ run, runs[index]? = some run
      ∧ condition run index = true := by
  have hfound := List.find?_some h
  rw [Option.any_eq_true] at hfound
  exact hfound

theorem joinAt_length {left right : ℕ} (hright : right < runs.length) (h : left < right) :
    (joinAt runs left right).length < runs.length := by
  unfold joinAt
  rw [List.getElem?_eq_getElem hright, List.getElem?_eq_getElem (h.trans hright)]
  dsimp only
  rw [List.length_append, List.length_cons, List.length_take, List.length_drop]
  omega

theorem absorbAt_length {index : ℕ} {run : Run} (hpos : 0 < index)
    (hrun : runs[index]? = some run)
    (hneighbour : ((0 < index && establishedAt runs (index - 1) run)
      || establishedAt runs (index + 1) run) = true) :
    (absorbAt runs index).length < runs.length := by
  have hindex : index < runs.length := (List.getElem?_eq_some_iff.mp hrun).1
  unfold absorbAt
  rw [hrun]
  dsimp only
  split
  · next =>
    rw [List.length_append, List.length_cons, List.length_take, List.length_drop]
    omega
  · next change hnone hchange =>
    have hnext : index + 1 < runs.length := (List.getElem?_eq_some_iff.mp hchange).1
    rw [List.length_append, List.length_cons, List.length_take, List.length_drop]
    omega
  · next hnone hlast =>
    exfalso
    unfold establishedAt at hneighbour
    rw [hlast] at hneighbour
    simp only [Option.any_none, Bool.or_false, Bool.and_eq_true, decide_eq_true_eq,
      Option.any_eq_true] at hneighbour
    obtain ⟨-, change, hchange, hestablished⟩ := hneighbour
    rw [hchange, Option.filter_some, if_pos hestablished] at hnone
    cases hnone

theorem absorbNewest_length (h : absorbNewest runs = some resolved) :
    resolved.length < runs.length := by
  unfold absorbNewest at h
  split at h
  · split at h
    · obtain rfl := Option.some.inj h
      exact Nat.lt_succ_self _
    · cases h
  · cases h

theorem absorbOldest_length (h : absorbOldest runs = some resolved) :
    resolved.length < runs.length := by
  unfold absorbOldest at h
  split at h
  · next oldest next newer hreverse =>
    split at h
    · obtain rfl := Option.some.inj h
      have hlength := congrArg List.length hreverse
      rw [List.length_reverse] at hlength ⊢
      rw [hlength]
      exact Nat.lt_succ_self _
    · cases h
  · cases h

/-- A pass leaves fewer runs. -/
theorem resolveStep_length {droppedSessions dropped : ℕ}
    (h : resolveStep runs droppedSessions = some (resolved, dropped)) :
    resolved.length < runs.length := by
  -- each pass joins two runs or drops one
  unfold resolveStep at h
  split at h
  · next merge hmerge =>
    obtain ⟨run, hrun, hcondition⟩ := findIndex_lt hmerge
    have hlt := (List.getElem?_eq_some_iff.mp hrun).1
    rw [Bool.and_eq_true, decide_eq_true_iff] at hcondition
    obtain ⟨rfl, -⟩ := Prod.mk.inj (Option.some.inj h)
    exact joinAt_length hlt (by omega)
  · split at h
    · next correction hcorrection =>
      obtain ⟨run, hrun, hcondition⟩ := findIndex_lt hcorrection
      simp only [Bool.and_eq_true, decide_eq_true_eq] at hcondition
      obtain ⟨rfl, -⟩ := Prod.mk.inj (Option.some.inj h)
      exact joinAt_length hcondition.1.1.2 (by omega)
    · split at h
      · next ambiguous hambiguous =>
        obtain ⟨run, hrun, hcondition⟩ := findIndex_lt hambiguous
        rw [Bool.and_eq_true, Bool.and_eq_true] at hcondition
        have hpos : 0 < ambiguous := by
          refine Nat.pos_of_ne_zero fun hzero => ?_
          rw [hzero] at hcondition
          exact absurd hcondition.1.2 (by simp [afterLatestEvent])
        obtain ⟨rfl, -⟩ := Prod.mk.inj (Option.some.inj h)
        exact absorbAt_length hpos hrun hcondition.2
      · split at h
        · next hnewest =>
          obtain ⟨rfl, -⟩ := Prod.mk.inj (Option.some.inj h)
          exact absorbNewest_length hnewest
        · split at h
          · next holdest =>
            obtain ⟨rfl, -⟩ := Prod.mk.inj (Option.some.inj h)
            exact absorbOldest_length holdest
          · obtain ⟨stray, hstray, heq⟩ := Option.map_eq_some_iff.mp h
            obtain ⟨run, hrun, -⟩ := findIndex_lt hstray
            have hlt := (List.getElem?_eq_some_iff.mp hrun).1
            obtain ⟨rfl, -⟩ := Prod.mk.inj heq
            rw [List.length_eraseIdx, if_pos hlt]
            omega

/-- As many passes as there are runs resolve everything. -/
theorem resolve_resolved (passes : ℕ) : ∀ {runs : List Run} {droppedSessions : ℕ},
    runs.length ≤ passes →
    resolveStep (resolve passes runs droppedSessions).1 (resolve passes runs droppedSessions).2
      = none := by
  induction passes with
  | zero =>
    intro runs droppedSessions hlength
    obtain rfl := List.length_eq_zero_iff.mp (Nat.le_zero.mp hlength)
    rfl
  | succ passes ih =>
    intro runs droppedSessions hlength
    unfold resolve
    split
    · next hnone => exact hnone
    · next resolved dropped hstep =>
      have hshorter := resolveStep_length hstep
      exact ih (by omega)

theorem segmentRuns_resolved (rows : List ComparedRow) :
    resolveStep (segmentRuns rows).1 (segmentRuns rows).2 = none :=
  resolve_resolved _ le_rfl

end Passes

/-! ### Growing the runs -/

/-- Sessions of one kind that admit a common ratio. -/
structure IsSegment (rows : List ComparedRow) (unchanged : Bool) : Prop where
  nonempty : rows ≠ []
  kind : ∀ row ∈ rows, row.unchanged = unchanged
  common : ∃ ratio, ∀ row ∈ rows, ratio ∈ row.toBand

/-- No session of the one and session of the other are explained by one ratio. -/
def Apart (older newer : List ComparedRow) : Prop :=
  ∀ old ∈ older, ∀ new ∈ newer, ¬ (new.unchanged = old.unchanged ∧ new.toBand.Meets old.toBand)

/-- The run of a segment that begins at an index. -/
structure Covers (start : ℕ) (rows : List ComparedRow) (run : Run) : Prop where
  oldest : run.oldest = start
  newest : run.newest + 1 = start + rows.length
  kind : ∀ row ∈ rows, row.unchanged = run.unchanged
  mem : ∀ ratio, ratio ∈ run.toBand ↔ ∀ row ∈ rows, ratio ∈ row.toBand
  low : ∃ row ∈ rows, row.low = run.low
  high : ∃ row ∈ rows, row.high = run.high
  count : run.ratios.length = rows.length
  ratios : ∀ ratio ∈ run.ratios, ∃ row ∈ rows, row.ratio = ratio

/-- The runs of consecutive segments, both oldest first. -/
def Described : ℕ → List (List ComparedRow) → List Run → Prop
  | _, [], [] => True
  | start, segment :: segments, run :: runs =>
    Covers start segment run ∧ Described (start + segment.length) segments runs
  | _, _, _ => False

theorem Described.eq_nil {start : ℕ} {runs : List Run} (h : Described start [] runs) : runs = [] := by
  cases runs with
  | nil => rfl
  | cons => exact absurd h id

theorem Described.cons {start : ℕ} {segment : List ComparedRow}
    {segments : List (List ComparedRow)} {runs : List Run}
    (h : Described start (segment :: segments) runs) :
    ∃ run rest, runs = run :: rest ∧ Covers start segment run
      ∧ Described (start + segment.length) segments rest := by
  cases runs with
  | nil => exact absurd h id
  | cons run rest => exact ⟨run, rest, rfl, h⟩

theorem Described.singleton {start : ℕ} {segment : List ComparedRow} {runs : List Run}
    (h : Described start [segment] runs) : ∃ run, runs = [run] ∧ Covers start segment run := by
  obtain ⟨run, rest, rfl, hrun, hrest⟩ := h.cons
  exact ⟨run, congrArg _ hrest.eq_nil, hrun⟩

theorem Described.append (segments : List (List ComparedRow)) :
    ∀ {start : ℕ} {others : List (List ComparedRow)} {runs : List Run},
      Described start (segments ++ others) runs →
      ∃ first rest, runs = first ++ rest ∧ Described start segments first
        ∧ Described (start + segments.flatten.length) others rest := by
  induction segments with
  | nil => exact fun h => ⟨[], _, rfl, trivial, h⟩
  | cons segment segments ih =>
    intro start others runs h
    obtain ⟨run, rest, rfl, hrun, hrest⟩ := Described.cons h
    obtain ⟨first, rest, rfl, hfirst, hrest⟩ := ih hrest
    refine ⟨run :: first, rest, rfl, ⟨hrun, hfirst⟩, ?_⟩
    rw [List.flatten_cons, List.length_append, ← Nat.add_assoc]
    exact hrest

/-- A stack of runs whose current one takes no session of some rows. -/
def Refuses (rows : List ComparedRow) (stack : List Run) : Prop :=
  ∀ current ∈ stack.head?, ∀ row ∈ rows,
    ¬ (current.unchanged = row.unchanged ∧ current.toBand.Meets row.toBand)

/-- The rows, from the newest back, added to a stack of runs. -/
def grow (start : ℕ) (rows : List ComparedRow) (stack : List Run) : List Run :=
  (rows.zipIdx start).foldr (fun session => addSession (session.2, session.1)) stack

theorem grow_append (start : ℕ) (front back : List ComparedRow) (stack : List Run) :
    grow start (front ++ back) stack
      = grow start front (grow (start + front.length) back stack) := by
  unfold grow
  rw [List.zipIdx_append, List.foldr_append]

/-- A segment that the current run refuses is one run. -/
theorem grow_segment {unchanged : Bool} (rows : List ComparedRow) :
    ∀ {start : ℕ} {stack : List Run}, IsSegment rows unchanged → Refuses rows stack →
      ∃ run, grow start rows stack = run :: stack ∧ Covers start rows run := by
  -- the oldest row is taken up last, by the run of those after it
  induction rows with
  | nil => exact fun hsegment _ => absurd rfl hsegment.nonempty
  | cons row rows ih =>
    intro start stack hsegment hrefuses
    by_cases hrows : rows = []
    · subst hrows
      have hnew : addSession (start, row) stack = runOf (start, row) :: stack := by
        unfold addSession
        cases stack with
        | nil => rfl
        | cons current newer => exact if_neg (hrefuses current rfl row List.mem_cons_self)
      refine ⟨runOf (start, row), hnew, rfl, rfl, fun other hother => ?_, fun ratio => ?_,
        ⟨row, List.mem_cons_self, rfl⟩, ⟨row, List.mem_cons_self, rfl⟩, rfl,
        fun ratio hratio => ⟨row, List.mem_cons_self, (List.mem_singleton.mp hratio).symm⟩⟩
      · obtain rfl := List.mem_singleton.mp hother
        rfl
      · rw [List.forall_mem_singleton]
        rfl
    · obtain ⟨ratio, hratio⟩ := hsegment.common
      have hrest : IsSegment rows unchanged := ⟨hrows,
        fun other hother => hsegment.kind other (List.mem_cons_of_mem _ hother),
        ratio, fun other hother => hratio other (List.mem_cons_of_mem _ hother)⟩
      obtain ⟨run, hgrow, hcovers⟩ := @ih (start + 1) stack hrest
        fun current hcurrent other hother =>
          hrefuses current hcurrent other (List.mem_cons_of_mem _ hother)
      obtain ⟨other, hother⟩ := List.exists_mem_of_ne_nil rows hrows
      have hkind : run.unchanged = row.unchanged := by
        rw [← hcovers.kind other hother, hrest.kind other hother,
          hsegment.kind row List.mem_cons_self]
      have hmem : ratio ∈ run.toBand := (hcovers.mem ratio).mpr fun other hother =>
        hratio other (List.mem_cons_of_mem _ hother)
      have hmeets : run.toBand.Meets row.toBand := .of_mem hmem (hratio row List.mem_cons_self)
      have hjoin : grow start (row :: rows) stack = addSession (start, row) (run :: stack) := by
        rw [← hgrow]
        unfold grow
        rw [List.zipIdx_cons, List.foldr_cons]
      rw [hjoin]
      refine ⟨_, if_pos ⟨hkind, hmeets⟩, rfl, ?_, fun other hother => ?_, fun value => ?_, ?_, ?_, ?_,
        fun value hvalue => ?_⟩
      · have hnewest := hcovers.newest
        rw [List.length_cons]
        change run.newest + 1 = _
        omega
      · rcases List.mem_cons.mp hother with rfl | hother
        · exact hkind.symm
        · exact hcovers.kind other hother
      · rw [Band.mem_inter, hcovers.mem, List.forall_mem_cons, and_comm]
      · -- each end of the intersection is an end of one of the two
        rcases max_choice run.low row.low with hlow | hlow
        · obtain ⟨other, hother, hsame⟩ := hcovers.low
          exact ⟨other, List.mem_cons_of_mem _ hother, hsame.trans hlow.symm⟩
        · exact ⟨row, List.mem_cons_self, hlow.symm⟩
      · rcases min_choice run.high row.high with hhigh | hhigh
        · obtain ⟨other, hother, hsame⟩ := hcovers.high
          exact ⟨other, List.mem_cons_of_mem _ hother, hsame.trans hhigh.symm⟩
        · exact ⟨row, List.mem_cons_self, hhigh.symm⟩
      · change (run.ratios ++ [row.ratio]).length = _
        rw [List.length_append, hcovers.count]
        rfl
      · rcases List.mem_append.mp hvalue with hvalue | hvalue
        · obtain ⟨other, hother, hsame⟩ := hcovers.ratios value hvalue
          exact ⟨other, List.mem_cons_of_mem _ hother, hsame⟩
        · exact ⟨row, List.mem_cons_self, (List.mem_singleton.mp hvalue).symm⟩

/-- Segments that have no ratio in common with the next are one run each. -/
theorem grow_segments (segments : List (List ComparedRow)) :
    ∀ {start : ℕ}, (∀ segment ∈ segments, ∃ unchanged, IsSegment segment unchanged) →
      segments.IsChain Apart →
      ∃ runs, grow start segments.flatten [] = runs ∧ Described start segments runs := by
  induction segments with
  | nil => exact fun _ _ => ⟨[], rfl, trivial⟩
  | cons segment segments ih =>
    intro start hsegments hchain
    obtain ⟨runs, hgrow, hruns⟩ := @ih (start + segment.length)
      (fun other hother => hsegments other (List.mem_cons_of_mem _ hother)) hchain.of_cons
    obtain ⟨unchanged, hsegment⟩ := hsegments segment List.mem_cons_self
    have hrefuses : Refuses segment runs := by
      intro current hcurrent row hrow
      rintro ⟨hkind, hmeets⟩
      cases segments with
      | nil =>
        obtain rfl : runs = [] := hgrow.symm
        cases hcurrent
      | cons newer segments =>
        cases runs with
        | nil => exact hruns
        | cons run runs =>
          obtain rfl := Option.some.inj hcurrent
          obtain ⟨hcovers, -⟩ := hruns
          obtain ⟨newUnchanged, hnewer⟩ :=
            hsegments newer (List.mem_cons_of_mem _ List.mem_cons_self)
          obtain ⟨new, hnew⟩ := List.exists_mem_of_ne_nil newer hnewer.nonempty
          obtain ⟨ratio, hmem, hrow'⟩ := Band.meets_iff.mp hmeets
          refine (List.isChain_cons_cons.mp hchain).1 row hrow new hnew ⟨?_, ?_⟩
          · rw [hcovers.kind new hnew, hkind]
          · exact .of_mem ((hcovers.mem ratio).mp hmem new hnew) hrow'
    obtain ⟨run, hrun, hcovers⟩ := @grow_segment unchanged segment start runs hsegment hrefuses
    exact ⟨run :: runs, by rw [List.flatten_cons, grow_append, hgrow, hrun], hcovers, hruns⟩

/-- The runs of a segmented history, newest first. -/
theorem growRuns_flatten {segments : List (List ComparedRow)}
    (hsegments : ∀ segment ∈ segments, ∃ unchanged, IsSegment segment unchanged)
    (hchain : segments.IsChain Apart) :
    ∃ runs, growRuns segments.flatten = runs.reverse ∧ Described 0 segments runs := by
  obtain ⟨runs, hgrow, hruns⟩ := @grow_segments segments 0 hsegments hchain
  exact ⟨runs, congrArg List.reverse hgrow, hruns⟩

end FactorSage.Rebase
