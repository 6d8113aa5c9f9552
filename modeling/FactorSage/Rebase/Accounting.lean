import FactorSage.Rebase.Runs
import Mathlib.Order.Interval.Finset.Nat

/-!
# Where every session goes

A run spans the sessions from its oldest to its newest. The runs are laid out in order, newest
first, and every pass of the resolving loop either replaces neighbouring runs by one that spans
what lies from the first to the last of them, or drops a stray run (`Pass`). Every session is in a
surviving run or in one that was dropped.

Both can be true of one session: what a pass drops leaves a gap, and a later pass may join the runs
on either side of it. Such sessions, and no others, are counted twice
(`segmentRuns_accounts`). None is dropped twice: the run beside the gap on its newer side is the
newest of all or defined by at least three sessions, and stays so (`Guarded`), and no such run is
ever stray.
-/

namespace FactorSage.Rebase

/-- A session between a run's oldest and newest one. -/
def Run.Spans (run : Run) (index : ℕ) : Prop := run.oldest ≤ index ∧ index ≤ run.newest

instance (run : Run) (index : ℕ) : Decidable (run.Spans index) :=
  inferInstanceAs (Decidable (_ ∧ _))

/-- The run a pass drops: the stray one, once nothing else is left to do. -/
def strayRun (runs : List Run) : Option Run :=
  if mergeIndex runs = none ∧ correctionIndex runs = none ∧ ambiguousIndex runs = none
      ∧ absorbNewest runs = none ∧ absorbOldest runs = none then
    (strayIndex runs).bind fun stray => runs[stray]?
  else none

/-- The runs the loop drops, in the order it drops them. -/
def strays : ℕ → List Run → ℕ → List Run
  | 0, _, _ => []
  | passes + 1, runs, droppedSessions =>
    match resolveStep runs droppedSessions with
    | none => []
    | some (resolved, dropped) => (strayRun runs).toList ++ strays passes resolved dropped

/-- The runs that were dropped from the runs of some sessions. -/
def droppedRuns (rows : List ComparedRow) : List Run :=
  strays (growRuns rows).length (growRuns rows) 0

/-! ### What a pass does -/

/-- Runs laid out over so many sessions, newest first. -/
structure Laid (count : ℕ) (runs : List Run) : Prop where
  spans : ∀ run ∈ runs, run.oldest ≤ run.newest ∧ run.newest < count
  apart : runs.Pairwise fun newer older => older.newest < newer.oldest

/-- Neighbouring runs, at least two, replaced by one over all they span. Where it is not the newest
run, it is short only if all of them are. -/
structure JoinPass (runs resolved : List Run) (front : List Run) (first : Run) (middle : List Run)
    (last : Run) (back : List Run) (whole : Run) : Prop where
  runs_eq : runs = front ++ first :: (middle ++ last :: back)
  resolved_eq : resolved = front ++ whole :: back
  newest_eq : whole.newest = first.newest
  oldest_eq : whole.oldest = last.oldest
  long : front = [] ∨ ∀ run ∈ first :: (middle ++ [last]), run.short = false → whole.short = false

/-- A short run dropped. The run before it is the newest, or not short. -/
structure DropPass (runs resolved : List Run) (front : List Run) (beside : Run) (stray : Run)
    (back : List Run) : Prop where
  runs_eq : runs = front ++ beside :: stray :: back
  resolved_eq : resolved = front ++ beside :: back
  short : stray.short = true
  beside_long : front = [] ∨ beside.short = false

/-- One pass of the loop. -/
inductive Pass (runs resolved : List Run) (droppedSessions dropped : ℕ) : Option Run → Prop
  | join {front first middle last back whole}
      (h : JoinPass runs resolved front first middle last back whole)
      (hdropped : dropped = droppedSessions) : Pass runs resolved droppedSessions dropped none
  | drop {front beside stray back} (h : DropPass runs resolved front beside stray back)
      (hdropped : dropped = droppedSessions + stray.length) :
      Pass runs resolved droppedSessions dropped (some stray)

section Steps

variable {count droppedSessions dropped : ℕ} {runs resolved : List Run}

theorem drop_eq_cons {index : ℕ} {run : Run} (h : runs[index]? = some run) :
    runs.drop index = run :: runs.drop (index + 1) := by
  obtain ⟨hlt, heq⟩ := List.getElem?_eq_some_iff.mp h
  rw [List.drop_eq_getElem_cons hlt, heq]

/-- Two neighbours. -/
theorem eq_two {index : ℕ} {first last : Run} (hfirst : runs[index]? = some first)
    (hlast : runs[index + 1]? = some last) :
    runs = runs.take index ++ first :: ([] ++ last :: runs.drop (index + 2)) := by
  rw [List.nil_append, ← drop_eq_cons hlast, ← drop_eq_cons hfirst, List.take_append_drop]

/-- A run and both its neighbours. -/
theorem eq_three {index : ℕ} {first middle last : Run} (hfirst : runs[index]? = some first)
    (hmiddle : runs[index + 1]? = some middle) (hlast : runs[index + 2]? = some last) :
    runs = runs.take index ++ first :: ([middle] ++ last :: runs.drop (index + 3)) := by
  rw [List.singleton_append, ← drop_eq_cons hlast, ← drop_eq_cons hmiddle, ← drop_eq_cons hfirst,
    List.take_append_drop]

/-- Neighbours in order. -/
theorem Laid.oldest_lt {front back : List Run} {first last : Run} (h : Laid count runs)
    (hruns : runs = front ++ first :: ([] ++ last :: back)) :
    last.newest < first.oldest ∧ first.oldest ≤ first.newest ∧ last.oldest ≤ last.newest := by
  have hspans := h.spans
  have hapart := h.apart
  rw [hruns] at hspans hapart
  have hpair := (List.pairwise_cons.mp (List.pairwise_append.mp hapart).2.1).1 last (by simp)
  exact ⟨hpair, (hspans first (by simp)).1, (hspans last (by simp)).1⟩

theorem joined_short {newer older : Run} (h : newer.short = false ∨ older.short = false) :
    (joined newer older).short = false := by
  simp only [Run.short, decide_eq_false_iff_not, not_lt] at h ⊢
  change MINIMUM_STEP_SESSIONS ≤ (newer.ratios ++ older.ratios).length
  rw [List.length_append]
  omega

theorem sharesAt_some {left right : ℕ} (h : sharesAt runs left right = true) :
    ∃ newer older, runs[left]? = some newer ∧ runs[right]? = some older := by
  unfold sharesAt at h
  rw [Option.any_eq_true] at h
  obtain ⟨newer, hnewer, holder⟩ := h
  rw [Option.any_eq_true] at holder
  obtain ⟨older, holder, -⟩ := holder
  exact ⟨newer, older, hnewer, holder⟩

/-- Two neighbours that share a ratio. -/
theorem pass_merge {merge : ℕ} (h : mergeIndex runs = some merge) :
    Pass runs (joinAt runs (merge - 1) merge) droppedSessions droppedSessions none := by
  obtain ⟨run, hrun, hcondition⟩ := findIndex_lt h
  rw [Bool.and_eq_true, decide_eq_true_eq] at hcondition
  obtain ⟨hpos, hshares⟩ := hcondition
  obtain ⟨newer, older, hnewer, holder⟩ := sharesAt_some hshares
  obtain ⟨index, rfl⟩ : ∃ index, merge = index + 1 := ⟨merge - 1, by omega⟩
  rw [Nat.add_sub_cancel] at hnewer ⊢
  refine @Pass.join _ _ _ _ _ _ _ _ _ (joined newer older)
    ⟨eq_two hnewer holder, ?_, rfl, rfl, .inr fun member hmember hlong => ?_⟩ rfl
  · rw [joinAt, hnewer, holder]
  · simp only [List.nil_append, List.mem_cons, List.not_mem_nil, or_false] at hmember
    rcases hmember with rfl | rfl
    · exact joined_short (.inl hlong)
    · exact joined_short (.inr hlong)

/-- A short run between two that share a ratio. -/
theorem pass_correction {correction : ℕ} (h : correctionIndex runs = some correction) :
    Pass runs (joinAt runs (correction - 1) (correction + 1)) droppedSessions droppedSessions
      none := by
  obtain ⟨run, hrun, hcondition⟩ := findIndex_lt h
  simp only [Bool.and_eq_true, decide_eq_true_eq] at hcondition
  obtain ⟨⟨⟨hpos, -⟩, hshort⟩, hshares⟩ := hcondition
  obtain ⟨newer, older, hnewer, holder⟩ := sharesAt_some hshares
  obtain ⟨index, rfl⟩ : ∃ index, correction = index + 1 := ⟨correction - 1, by omega⟩
  rw [Nat.add_sub_cancel] at hnewer ⊢
  refine @Pass.join _ _ _ _ _ _ _ _ _ (joined newer older)
    ⟨eq_three hnewer hrun holder, ?_, rfl, rfl, .inr fun member hmember hlong => ?_⟩ rfl
  · rw [joinAt, hnewer, holder]
  · simp only [List.singleton_append, List.mem_cons, List.not_mem_nil, or_false] at hmember
    rcases hmember with rfl | rfl | rfl
    · exact joined_short (.inl hlong)
    · rw [hshort] at hlong
      exact nomatch hlong
    · exact joined_short (.inr hlong)

theorem absorbed_short {change run : Run} (h : establishedChange change run = true) :
    (absorbed change run).short = false := by
  simp only [establishedChange, decide_eq_true_eq] at h
  exact h.2.1

/-- An unchanged run that admits the ratio of the re-base beside it. -/
theorem pass_ambiguous (hlaid : Laid count runs) {ambiguous : ℕ}
    (h : ambiguousIndex runs = some ambiguous) :
    Pass runs (absorbAt runs ambiguous) droppedSessions droppedSessions none := by
  obtain ⟨run, hrun, hcondition⟩ := findIndex_lt h
  rw [Bool.and_eq_true, Bool.and_eq_true] at hcondition
  obtain ⟨⟨-, hlater⟩, hneighbour⟩ := hcondition
  -- the newest run is never ambiguous, so it has a neighbour on that side
  have hpos : 0 < ambiguous := by
    refine Nat.pos_of_ne_zero fun hzero => ?_
    rw [hzero] at hlater
    exact absurd hlater (by simp [afterLatestEvent])
  obtain ⟨index, rfl⟩ : ∃ index, ambiguous = index + 1 := ⟨ambiguous - 1, by omega⟩
  rw [absorbAt, hrun]
  dsimp only
  rw [Nat.add_sub_cancel] at hneighbour ⊢
  -- without an established change before it, there is one behind it
  have hbehind : (runs[index]?).filter (fun change => establishedChange change run) = none →
      establishedAt runs (index + 1 + 1) run = true := by
    intro hnone
    rw [Bool.or_eq_true, Bool.and_eq_true, establishedAt] at hneighbour
    rcases hneighbour with ⟨-, hbefore⟩ | hafter
    · rw [Option.any_eq_true] at hbefore
      obtain ⟨other, hother, hestablished⟩ := hbefore
      rw [hother, Option.filter_some, if_pos hestablished] at hnone
      cases hnone
    · exact hafter
  split
  · next change hchange =>
    obtain ⟨hget, hestablished⟩ := Option.filter_eq_some_iff.mp hchange
    have hruns := eq_two hget hrun
    obtain ⟨hlt, hfirst, hlast⟩ := hlaid.oldest_lt hruns
    refine .join ⟨hruns, rfl, ?_, ?_, .inr fun _ _ _ => absorbed_short hestablished⟩ rfl
    · change max change.newest run.newest = change.newest
      omega
    · change min change.oldest run.oldest = run.oldest
      omega
  · next change hnone hchange =>
    have hestablished : establishedChange change run = true := by
      have hafter := hbehind hnone
      rwa [establishedAt, hchange] at hafter
    have hruns := eq_two hrun hchange
    obtain ⟨hlt, hfirst, hlast⟩ := hlaid.oldest_lt hruns
    refine .join ⟨hruns, rfl, ?_, ?_, .inr fun _ _ _ => absorbed_short hestablished⟩ rfl
    · change max change.newest run.newest = run.newest
      omega
    · change min change.oldest run.oldest = change.oldest
      omega
  · next hnone hlast =>
    have hafter := hbehind hnone
    rw [establishedAt, hlast] at hafter
    cases hafter

theorem pass_newest (h : absorbNewest runs = some resolved) :
    Pass runs resolved droppedSessions droppedSessions none := by
  unfold absorbNewest at h
  split at h
  · next newest next older =>
    split at h
    · obtain rfl := Option.some.inj h
      exact @Pass.join _ _ _ _ [] newest [] next older { next with newest := newest.newest }
        ⟨rfl, rfl, rfl, rfl, .inl rfl⟩ rfl
    · exact nomatch h
  · exact nomatch h

theorem pass_oldest (h : absorbOldest runs = some resolved) :
    Pass runs resolved droppedSessions droppedSessions none := by
  unfold absorbOldest at h
  split at h
  · next oldest next newer hreverse =>
    split at h
    · next hcondition =>
      simp only [Bool.and_eq_true, Bool.not_eq_true'] at hcondition
      obtain rfl := Option.some.inj h
      have hruns : runs = newer.reverse ++ next :: ([] ++ oldest :: []) := by
        rw [← runs.reverse_reverse, hreverse]
        simp
      exact @Pass.join _ _ _ _ newer.reverse next [] oldest [] { next with oldest := oldest.oldest }
        ⟨hruns, by simp, rfl, rfl, .inr fun _ _ _ => hcondition.2⟩ rfl
    · exact nomatch h
  · exact nomatch h

/-- No index before the one found satisfies the condition. -/
theorem findIndex_first {condition : Run → ℕ → Bool} {index : ℕ}
    (h : findIndex runs condition = some index) {earlier : ℕ} (hlt : earlier < index) {run : Run}
    (hrun : runs[earlier]? = some run) : condition run earlier = false := by
  unfold findIndex at h
  have hfirst := (List.find?_range_eq_some.mp h).2.2 earlier hlt
  rw [hrun, Option.any_some, Bool.not_eq_true'] at hfirst
  exact hfirst

/-- A stray run, once the newest sessions are settled: the run on its newer side is the newest of
all or not short. Otherwise it would be stray itself, unless it is the sessions after the latest
event; and those have at most one run before them, which `absorbNewest` takes away. -/
theorem pass_stray (hnewest : absorbNewest runs = none) {stray : ℕ} {run : Run}
    (h : strayIndex runs = some stray) (hrun : runs[stray]? = some run) :
    Pass runs (runs.eraseIdx stray) droppedSessions (droppedSessions + run.length) (some run) := by
  obtain ⟨run', hrun', hcondition⟩ := findIndex_lt h
  rw [hrun] at hrun'
  obtain rfl := Option.some.inj hrun'
  simp only [Bool.and_eq_true, decide_eq_true_eq] at hcondition
  obtain ⟨⟨⟨hpos, hlast⟩, hshort⟩, -⟩ := hcondition
  obtain ⟨index, rfl⟩ : ∃ index, stray = index + 1 := ⟨stray - 1, by omega⟩
  have hindex : index < runs.length := by omega
  have hbeside : runs[index]? = some runs[index] := List.getElem?_eq_getElem hindex
  refine .drop ⟨eq_two hbeside hrun, ?_, hshort, ?_⟩ rfl
  · have htake : runs.take (index + 1) = runs.take index ++ [runs[index]] :=
      List.take_succ_eq_append_getElem hindex
    rw [List.eraseIdx_eq_take_drop_succ, htake, List.append_assoc]
    rfl
  · rcases Nat.eq_zero_or_pos index with rfl | hinside
    · exact .inl List.take_zero
    · refine .inr ?_
      by_contra hbesideShort
      rw [Bool.not_eq_false] at hbesideShort
      have hkept := findIndex_first h (Nat.lt_succ_self index) hbeside
      simp only [hinside, hbesideShort, Bool.and_eq_false_iff, Bool.not_eq_false',
        Bool.and_eq_true, decide_true, Bool.true_eq_false, false_or] at hkept
      obtain ⟨hunchanged, hlater⟩ := hkept.resolve_left (by simp; omega)
      -- everything newer is short and changed
      rw [afterLatestEvent, List.all_eq_true] at hlater
      have hnewer : ∀ position (hposition : position < index) (hin : position < runs.length),
          runs[position].unchanged = false ∧ runs[position].short = true := by
        intro position hposition hin
        have hmem : runs[position] ∈ runs.take index :=
          List.mem_take_iff_getElem.mpr ⟨position, by omega, rfl⟩
        simpa using hlater _ hmem
      rcases Nat.lt_or_ge 1 index with hsecond | hsecond
      · obtain ⟨hchanged, hshort₁⟩ := hnewer 1 hsecond (by omega)
        have hkept₁ := findIndex_first h (Nat.lt_succ_of_lt hsecond)
          (List.getElem?_eq_getElem (show 1 < runs.length by omega))
        simp only [hchanged, hshort₁, Bool.false_and, Bool.not_false, Bool.and_true,
          Nat.lt_one_iff, decide_true, Bool.true_and, decide_eq_false_iff_not] at hkept₁
        omega
      · obtain rfl : index = 1 := by omega
        obtain ⟨hchanged, hshort₀⟩ := hnewer 0 Nat.one_pos (by omega)
        rcases runs with _ | ⟨newest, _ | ⟨next, older⟩⟩
        · exact absurd hindex (Nat.not_lt_zero _)
        · exact absurd hindex (lt_irrefl _)
        · simp only [List.getElem_cons_zero] at hchanged hshort₀
          simp only [List.getElem_cons_succ, List.getElem_cons_zero] at hunchanged
          simp [absorbNewest, hchanged, hshort₀, hunchanged] at hnewest

/-- **What a pass does.** -/
theorem resolveStep_pass (hlaid : Laid count runs)
    (h : resolveStep runs droppedSessions = some (resolved, dropped)) :
    Pass runs resolved droppedSessions dropped (strayRun runs) := by
  -- the passes in the order they are tried
  unfold resolveStep at h
  unfold strayRun
  split at h
  · next merge hmerge =>
    obtain ⟨rfl, rfl⟩ := Prod.mk.inj (Option.some.inj h)
    rw [if_neg (by simp [hmerge])]
    exact pass_merge hmerge
  · next hmerge =>
    split at h
    · next correction hcorrection =>
      obtain ⟨rfl, rfl⟩ := Prod.mk.inj (Option.some.inj h)
      rw [if_neg (by simp [hcorrection])]
      exact pass_correction hcorrection
    · next hcorrection =>
      split at h
      · next ambiguous hambiguous =>
        obtain ⟨rfl, rfl⟩ := Prod.mk.inj (Option.some.inj h)
        rw [if_neg (by simp [hambiguous])]
        exact pass_ambiguous hlaid hambiguous
      · next hambiguous =>
        split at h
        · next hnewest =>
          obtain ⟨rfl, rfl⟩ := Prod.mk.inj (Option.some.inj h)
          rw [if_neg (by simp [hnewest])]
          exact pass_newest hnewest
        · next hnewest =>
          split at h
          · next holdest =>
            obtain ⟨rfl, rfl⟩ := Prod.mk.inj (Option.some.inj h)
            rw [if_neg (by simp [holdest])]
            exact pass_oldest holdest
          · next holdest =>
            obtain ⟨stray, hstray, heq⟩ := Option.map_eq_some_iff.mp h
            obtain ⟨rfl, rfl⟩ := Prod.mk.inj heq
            obtain ⟨run, hrun, -⟩ := findIndex_lt hstray
            rw [if_pos ⟨hmerge, hcorrection, hambiguous, hnewest, holdest⟩, hstray,
              Option.bind_some, hrun]
            exact pass_stray hnewest hstray hrun

end Steps

/-! ### What every pass keeps -/

/-- The nearest run that reaches a session from its newer side is not short, or is the newest. -/
def Guarded (runs : List Run) (index : ℕ) : Prop :=
  ∃ run ∈ runs, index ≤ run.newest
    ∧ (∀ other ∈ runs, index ≤ other.newest → run.newest ≤ other.newest)
    ∧ (run.short = false ∨ ∀ other ∈ runs, other.newest ≤ run.newest)

/-- Every session is in a run or was dropped, once; what was dropped is guarded. -/
structure Accounted (count : ℕ) (dropped runs : List Run) : Prop extends Laid count runs where
  covered : ∀ index < count,
    (∃ run ∈ runs, run.Spans index) ∨ ∃ stray ∈ dropped, stray.Spans index
  within : ∀ stray ∈ dropped, stray.oldest ≤ stray.newest ∧ stray.newest < count
  once : dropped.Pairwise fun a b => ∀ index, a.Spans index → ¬ b.Spans index
  guarded : ∀ stray ∈ dropped, ∀ index, stray.Spans index → Guarded runs index

section Kept

variable {count index : ℕ} {dropped runs resolved front middle back : List Run}
  {first last whole beside stray : Run}

section

variable (h : JoinPass runs resolved front first middle last back whole)

include h

/-- What is joined lies between its ends, and the rest on either side of it. -/
theorem JoinPass.order (hlaid : Laid count runs) :
    (∀ member ∈ first :: (middle ++ [last]), whole.oldest ≤ member.oldest
      ∧ member.oldest ≤ member.newest ∧ member.newest ≤ whole.newest)
    ∧ (∀ newer ∈ front, whole.newest < newer.oldest)
    ∧ ∀ older ∈ back, older.newest < whole.oldest := by
  have hspans := hlaid.spans
  have hapart := hlaid.apart
  rw [h.runs_eq] at hspans hapart
  obtain ⟨-, hgroup, hfront⟩ := List.pairwise_append.mp hapart
  obtain ⟨hfirst, hrest⟩ := List.pairwise_cons.mp hgroup
  obtain ⟨-, hlast, hmiddle⟩ := List.pairwise_append.mp hrest
  rw [h.newest_eq, h.oldest_eq]
  refine ⟨fun member hmember => ?_, fun newer hnewer => hfront newer hnewer first (by simp),
    fun older holder => (List.pairwise_cons.mp hlast).1 older holder⟩
  have hin : member ∈ front ++ first :: (middle ++ last :: back) := by
    rcases List.mem_cons.mp hmember with rfl | hmember
    · simp
    · rcases List.mem_append.mp hmember with hmember | hmember
      · simp [hmember]
      · simp [List.mem_singleton.mp hmember]
  have hmemberSpan := (hspans member hin).1
  have hlastSpan := (hspans last (by simp)).1
  have hfirstLast := hfirst last (by simp)
  rcases List.mem_cons.mp hmember with rfl | hmember
  · exact ⟨by omega, hmemberSpan, le_rfl⟩
  · rcases List.mem_append.mp hmember with hmember | hmember
    · have hafter := hfirst member (by simp [hmember])
      have hbefore := hmiddle member hmember last (by simp)
      have := (hspans first (by simp)).1
      exact ⟨by omega, hmemberSpan, by omega⟩
    · obtain rfl := List.mem_singleton.mp hmember
      have := (hspans first (by simp)).1
      exact ⟨le_rfl, hmemberSpan, by omega⟩

/-- The members of a list of runs before and after a join. -/
theorem JoinPass.mem_cases {run : Run} (hrun : run ∈ runs) :
    run ∈ front ∨ run ∈ first :: (middle ++ [last]) ∨ run ∈ back := by
  rw [h.runs_eq] at hrun
  simp only [List.mem_append, List.mem_cons, List.not_mem_nil, or_false] at hrun ⊢
  tauto

theorem JoinPass.laid (hlaid : Laid count runs) : Laid count resolved := by
  obtain ⟨hgroup, hfront, hback⟩ := h.order hlaid
  have hfirst := hgroup first (by simp)
  have hcount : whole.newest < count := by
    rw [h.newest_eq]
    exact (hlaid.spans first (by rw [h.runs_eq]; simp)).2
  have hapart := hlaid.apart
  rw [h.runs_eq] at hapart
  obtain ⟨hapartFront, hapartGroup, hcross⟩ := List.pairwise_append.mp hapart
  have hapartBack := (List.pairwise_append.mp (List.pairwise_cons.mp hapartGroup).2).2.1
  rw [h.resolved_eq]
  constructor
  · intro run hrun
    rcases List.mem_append.mp hrun with hrun | hrun
    · exact hlaid.spans run (by rw [h.runs_eq]; simp [hrun])
    · rcases List.mem_cons.mp hrun with rfl | hrun
      · exact ⟨by omega, hcount⟩
      · exact hlaid.spans run (by rw [h.runs_eq]; simp [hrun])
  · refine List.pairwise_append.mpr ⟨hapartFront, List.pairwise_cons.mpr
      ⟨hback, (List.pairwise_cons.mp hapartBack).2⟩, fun newer hnewer run hrun => ?_⟩
    rcases List.mem_cons.mp hrun with rfl | hrun
    · exact hfront newer hnewer
    · exact hcross newer hnewer run (by simp [hrun])

theorem JoinPass.guarded (hlaid : Laid count runs) (hguarded : Guarded runs index) : Guarded resolved index := by
  obtain ⟨hgroup, hfront, hback⟩ := h.order hlaid
  obtain ⟨run, hrun, hle, hleast, hlong⟩ := hguarded
  have hmemFront : ∀ r ∈ front, r ∈ runs := fun r hr => by rw [h.runs_eq]; simp [hr]
  have hmemBack : ∀ r ∈ back, r ∈ runs := fun r hr => by rw [h.runs_eq]; simp [hr]
  have hmemFirst : first ∈ runs := by rw [h.runs_eq]; simp
  have hresolved : ∀ r ∈ resolved, r ∈ front ∨ r = whole ∨ r ∈ back := fun r hr => by
    rw [h.resolved_eq] at hr
    simpa using hr
  have hkept : run ∈ front ∨ run ∈ back → Guarded resolved index := by
    -- a run beside the joined ones: the joined run's newer end was an end before
    intro hbeside
    refine ⟨run, by rw [h.resolved_eq]; rcases hbeside with hr | hr <;> simp [hr], hle,
      fun other hother hreach => ?_, hlong.imp id fun hmax other hother => ?_⟩
    · rcases hresolved other hother with hother | rfl | hother
      · exact hleast other (hmemFront other hother) hreach
      · rw [h.newest_eq] at hreach ⊢
        exact hleast first hmemFirst hreach
      · exact hleast other (hmemBack other hother) hreach
    · rcases hresolved other hother with hother | rfl | hother
      · exact hmax other (hmemFront other hother)
      · rw [h.newest_eq]
        exact hmax first hmemFirst
      · exact hmax other (hmemBack other hother)
  rcases h.mem_cases hrun with hin | hin | hin
  · exact hkept (.inl hin)
  · obtain ⟨holdest, hspan, hnewest⟩ := hgroup run hin
    have hwhole : whole.oldest ≤ whole.newest := by omega
    refine ⟨whole, by rw [h.resolved_eq]; simp, hle.trans hnewest,
      fun other hother hreach => ?_, ?_⟩
    · rcases hresolved other hother with hother | rfl | hother
      · have := hfront other hother
        have := (hlaid.spans other (hmemFront other hother)).1
        omega
      · exact le_rfl
      · have := hback other hother
        have := hleast other (hmemBack other hother) hreach
        omega
    · rcases hlong with hlong | hmax
      · rcases h.long with hnone | hlongs
        · refine .inr fun other hother => ?_
          rcases hresolved other hother with hother | rfl | hother
          · rw [hnone] at hother
            exact nomatch hother
          · exact le_rfl
          · have := hback other hother
            omega
        · exact .inl (hlongs run hin hlong)
      · refine .inr fun other hother => ?_
        rcases hresolved other hother with hother | rfl | hother
        · exact (hmax other (hmemFront other hother)).trans hnewest
        · exact le_rfl
        · have := hback other hother
          omega
  · exact hkept (.inr hin)

end

/-- **Joining keeps the account.** -/
theorem Accounted.join (h : Accounted count dropped runs)
    (hpass : JoinPass runs resolved front first middle last back whole) :
    Accounted count dropped resolved where
  toLaid := hpass.laid h.toLaid
  covered := by
    intro index hindex
    refine (h.covered index hindex).imp_left ?_
    rintro ⟨run, hrun, hspans⟩
    rcases hpass.mem_cases hrun with hin | hin | hin
    · exact ⟨run, by rw [hpass.resolved_eq]; simp [hin], hspans⟩
    · obtain ⟨holdest, -, hnewest⟩ := (hpass.order h.toLaid).1 run hin
      exact ⟨whole, by rw [hpass.resolved_eq]; simp,
        holdest.trans hspans.1, hspans.2.trans hnewest⟩
    · exact ⟨run, by rw [hpass.resolved_eq]; simp [hin], hspans⟩
  within := h.within
  once := h.once
  guarded := fun stray hstray index hspans =>
    hpass.guarded h.toLaid (h.guarded stray hstray index hspans)

/-- Where the run that is dropped lies. -/
theorem DropPass.order (h : DropPass runs resolved front beside stray back)
    (hlaid : Laid count runs) : stray.newest < beside.oldest ∧ beside.oldest ≤ beside.newest
      ∧ stray.oldest ≤ stray.newest ∧ stray.newest < count
      ∧ (∀ newer ∈ front, beside.newest < newer.newest)
      ∧ ∀ older ∈ back, older.newest < stray.oldest := by
  have hspans := hlaid.spans
  have hapart := hlaid.apart
  rw [h.runs_eq] at hspans hapart
  obtain ⟨-, hrest, hfront⟩ := List.pairwise_append.mp hapart
  obtain ⟨hbeside, hstray⟩ := List.pairwise_cons.mp hrest
  obtain ⟨hspan, hcount⟩ := hspans stray (by simp)
  refine ⟨hbeside stray (by simp), (hspans beside (by simp)).1, hspan, hcount,
    fun newer hnewer => ?_, (List.pairwise_cons.mp hstray).1⟩
  exact (hfront newer hnewer beside (by simp)).trans_le (hspans newer (by simp [hnewer])).1

/-- A short run between others guards nothing. -/
theorem DropPass.not_guarded (h : DropPass runs resolved front beside stray back)
    (hlaid : Laid count runs) (hspans : stray.Spans index) : ¬ Guarded runs index := by
  rintro ⟨run, hrun, hle, hleast, hlong⟩
  obtain ⟨hbeside, hbesideSpan, -, -, hfront, hback⟩ := h.order hlaid
  have hmemStray : stray ∈ runs := by rw [h.runs_eq]; simp
  have hmemBeside : beside ∈ runs := by rw [h.runs_eq]; simp
  have hnearest := hleast stray hmemStray hspans.2
  have hself : run = stray := by
    rw [h.runs_eq] at hrun
    simp only [List.mem_append, List.mem_cons] at hrun
    rcases hrun with hrun | rfl | rfl | hrun
    · have := hfront run hrun
      omega
    · omega
    · rfl
    · have := hback run hrun
      have := hspans.1
      omega
  rw [hself] at hlong
  rcases hlong with hlong | hmax
  · rw [h.short] at hlong
    exact nomatch hlong
  · have := hmax beside hmemBeside
    omega

/-- **Dropping keeps the account.** What is dropped was not dropped before: a session in a gap is
guarded, and the stray run guards nothing. -/
theorem Accounted.drop (h : Accounted count dropped runs)
    (hpass : DropPass runs resolved front beside stray back) :
    Accounted count (dropped ++ [stray]) resolved := by
  obtain ⟨hbeside, hbesideSpan, hspan, hcount, hfront, hback⟩ := hpass.order h.toLaid
  -- the pass leaves every run but the stray one
  have hresolved : ∀ run ∈ resolved, run ∈ runs := fun run hrun => by
    rw [hpass.resolved_eq] at hrun
    rw [hpass.runs_eq]
    simp only [List.mem_append, List.mem_cons] at hrun ⊢
    tauto
  have hkept : ∀ run ∈ runs, run = stray ∨ run ∈ resolved := fun run hrun => by
    rw [hpass.runs_eq] at hrun
    rw [hpass.resolved_eq]
    simp only [List.mem_append, List.mem_cons] at hrun ⊢
    tauto
  exact {
    spans := fun run hrun => h.spans run (hresolved run hrun)
    apart := by
      have hapart := h.apart
      rw [hpass.runs_eq] at hapart
      rw [hpass.resolved_eq]
      refine hapart.sublist (List.Sublist.append_left ?_ front)
      exact (List.sublist_cons_self stray back).cons_cons beside
    covered := by
      intro index hindex
      rcases h.covered index hindex with ⟨run, hrun, hspans⟩ | ⟨old, hold, hspans⟩
      · rcases hkept run hrun with rfl | hrun
        · exact .inr ⟨run, by simp, hspans⟩
        · exact .inl ⟨run, hrun, hspans⟩
      · exact .inr ⟨old, by simp [hold], hspans⟩
    within := by
      intro old hold
      rcases List.mem_append.mp hold with hold | hold
      · exact h.within old hold
      · rw [List.mem_singleton.mp hold]
        exact ⟨hspan, hcount⟩
    once := by
      refine List.pairwise_append.mpr ⟨h.once, List.pairwise_singleton _ _, ?_⟩
      intro old hold new hnew index hspans hnewSpans
      rw [List.mem_singleton.mp hnew] at hnewSpans
      exact hpass.not_guarded h.toLaid hnewSpans (h.guarded old hold index hspans)
    guarded := by
      intro old hold index hspans
      rcases List.mem_append.mp hold with hold | hold
      · obtain ⟨run, hrun, hle, hleast, hlong⟩ := h.guarded old hold index hspans
        rcases hkept run hrun with rfl | hin
        · -- the stray run is short and not the newest
          rcases hlong with hlong | hmax
          · rw [hpass.short] at hlong
            exact nomatch hlong
          · have := hmax beside (by rw [hpass.runs_eq]; simp)
            omega
        · exact ⟨run, hin, hle, fun other hother => hleast other (hresolved other hother),
            hlong.imp id fun hmax other hother => hmax other (hresolved other hother)⟩
      · rw [List.mem_singleton.mp hold] at hspans
        have hcases : ∀ other ∈ resolved,
            other ∈ front ∨ other = beside ∨ other ∈ back := fun other hother => by
          rw [hpass.resolved_eq] at hother
          simpa using hother
        have := hspans.1
        have := hspans.2
        refine ⟨beside, by rw [hpass.resolved_eq]; simp, by omega, fun other hother hreach => ?_,
          hpass.beside_long.symm.imp id fun hnone other hother => ?_⟩
        · rcases hcases other hother with hother | rfl | hother
          · exact (hfront other hother).le
          · exact le_rfl
          · have := hback other hother
            omega
        · rcases hcases other hother with hother | rfl | hother
          · rw [hnone] at hother
            exact nomatch hother
          · exact le_rfl
          · have := hback other hother
            omega }

end Kept

/-! ### The whole run -/

/-- **Every pass keeps the account**, and with it the whole loop. -/
theorem Accounted.resolve {count : ℕ} (passes : ℕ) :
    ∀ (runs dropped : List Run) (droppedSessions : ℕ), Accounted count dropped runs →
      (dropped.map Run.length).sum = droppedSessions →
      Accounted count (dropped ++ strays passes runs droppedSessions)
        (resolve passes runs droppedSessions).1
      ∧ ((dropped ++ strays passes runs droppedSessions).map Run.length).sum
        = (resolve passes runs droppedSessions).2 := by
  induction passes with
  | zero =>
    intro runs dropped droppedSessions h hsum
    rw [strays, List.append_nil]
    exact ⟨h, hsum⟩
  | succ passes ih =>
    intro runs dropped droppedSessions h hsum
    rw [strays, Rebase.resolve]
    cases hstep : resolveStep runs droppedSessions with
    | none =>
      rw [List.append_nil]
      exact ⟨h, hsum⟩
    | some next =>
      obtain ⟨resolved, droppedNext⟩ := next
      have hpass := resolveStep_pass h.toLaid hstep
      dsimp only
      cases hstray : strayRun runs with
      | none =>
        rw [hstray] at hpass
        cases hpass with
        | join hjoin hdropped =>
          rw [Option.toList_none, List.nil_append]
          exact ih resolved dropped droppedNext (h.join hjoin) (hsum.trans hdropped.symm)
      | some stray =>
        rw [hstray] at hpass
        cases hpass with
        | drop hdrop hdropped =>
          rw [Option.toList_some, ← List.append_assoc]
          refine ih resolved (dropped ++ [stray]) droppedNext (h.drop hdrop) ?_
          rw [List.map_append, List.sum_append, hsum, hdropped]
          simp

/-- The runs that rows from an index on grow into: oldest first, each beginning right behind the
one before it. -/
def Tiles : ℕ → ℕ → List Run → Prop
  | start, stop, [] => start = stop
  | start, stop, run :: newer =>
    run.oldest = start ∧ run.oldest ≤ run.newest ∧ Tiles (run.newest + 1) stop newer

theorem tiles_grow (rows : List ComparedRow) :
    ∀ start, Tiles start (start + rows.length) (grow start rows []) := by
  induction rows with
  | nil => exact fun start => rfl
  | cons row rows ih =>
    intro start
    have hrest := ih (start + 1)
    have hgrow :
        grow start (row :: rows) [] = addSession (start, row) (grow (start + 1) rows []) := by
      unfold grow
      rw [List.zipIdx_cons, List.foldr_cons]
    have hstop : start + (row :: rows).length = start + 1 + rows.length := by
      rw [List.length_cons]
      omega
    rw [hgrow, hstop]
    cases hstack : grow (start + 1) rows [] with
    | nil =>
      rw [hstack] at hrest
      exact ⟨rfl, le_rfl, hrest⟩
    | cons current newer =>
      rw [hstack] at hrest
      obtain ⟨holdest, hspan, hnewer⟩ := hrest
      rw [addSession]
      split
      · exact ⟨rfl, by change start ≤ current.newest; omega, hnewer⟩
      · exact ⟨rfl, le_rfl, holdest, hspan, hnewer⟩

theorem Tiles.laid {stop : ℕ} (runs : List Run) : ∀ {start : ℕ}, Tiles start stop runs →
    start ≤ stop ∧ (∀ run ∈ runs, start ≤ run.oldest ∧ run.oldest ≤ run.newest ∧ run.newest < stop)
    ∧ (runs.Pairwise fun older newer => older.newest < newer.oldest)
    ∧ ∀ index, start ≤ index → index < stop → ∃ run ∈ runs, run.Spans index := by
  induction runs with
  | nil =>
    intro start h
    obtain rfl : start = stop := h
    exact ⟨le_rfl, fun _ h => (nomatch h), .nil, fun index hge hlt => absurd hge (not_le.mpr hlt)⟩
  | cons run newer ih =>
    rintro start ⟨holdest, hspan, hnewer⟩
    obtain ⟨hle, hspans, hapart, hcovered⟩ := ih hnewer
    refine ⟨by omega, fun other hother => ?_, List.pairwise_cons.mpr
      ⟨fun other hother => ?_, hapart⟩, fun index hge hlt => ?_⟩
    · rcases List.mem_cons.mp hother with rfl | hother
      · exact ⟨holdest.ge, hspan, by omega⟩
      · obtain ⟨h₁, h₂, h₃⟩ := hspans other hother
        exact ⟨by omega, h₂, h₃⟩
    · have := (hspans other hother).1
      omega
    · rcases Nat.lt_or_ge run.newest index with hbehind | hwithin
      · obtain ⟨other, hother, hin⟩ := hcovered index hbehind hlt
        exact ⟨other, List.mem_cons_of_mem _ hother, hin⟩
      · exact ⟨run, List.mem_cons_self, by rw [holdest]; exact hge, hwithin⟩

/-- Before the first pass nothing is dropped, and the runs hold every session. -/
theorem accounted_growRuns (rows : List ComparedRow) :
    Accounted rows.length [] (growRuns rows) := by
  have htiles := tiles_grow rows 0
  rw [Nat.zero_add] at htiles
  obtain ⟨-, hspans, hapart, hcovered⟩ := htiles.laid _
  have hgrown : growRuns rows = (grow 0 rows []).reverse := rfl
  rw [hgrown]
  exact {
    spans := fun run hrun => (hspans run (List.mem_reverse.mp hrun)).2
    apart := List.pairwise_reverse.mpr hapart
    covered := fun index hindex => by
      obtain ⟨run, hrun, hin⟩ := hcovered index (Nat.zero_le _) hindex
      exact .inl ⟨run, List.mem_reverse.mpr hrun, hin⟩
    within := fun _ h => nomatch h
    once := .nil
    guarded := fun _ h => nomatch h }

/-! ### Counting -/

/-- The sessions some runs span. -/
def spanned (count : ℕ) (runs : List Run) : Finset ℕ :=
  (Finset.range count).filter fun index => ∃ run ∈ runs, run.Spans index

/-- Runs that have no session in common span as many as they are long together. -/
theorem card_spanned {count : ℕ} (runs : List Run)
    (hwithin : ∀ run ∈ runs, run.oldest ≤ run.newest ∧ run.newest < count)
    (honce : runs.Pairwise fun a b => ∀ index, a.Spans index → ¬ b.Spans index) :
    (spanned count runs).card = (runs.map Run.length).sum := by
  induction runs with
  | nil => simp [spanned]
  | cons run rest ih =>
    obtain ⟨hapart, hrest⟩ := List.pairwise_cons.mp honce
    obtain ⟨hspan, hcount⟩ := hwithin run List.mem_cons_self
    have hsplit : spanned count (run :: rest)
        = Finset.Icc run.oldest run.newest ∪ spanned count rest := by
      ext index
      simp only [spanned, Finset.mem_filter, Finset.mem_range, Finset.mem_union, Finset.mem_Icc,
        List.mem_cons, exists_eq_or_imp]
      constructor
      · rintro ⟨hlt, hin | hin⟩
        · exact .inl hin
        · exact .inr ⟨hlt, hin⟩
      · rintro (hin | ⟨hlt, hin⟩)
        · exact ⟨hin.2.trans_lt hcount, .inl hin⟩
        · exact ⟨hlt, .inr hin⟩
    have hdisjoint : Disjoint (Finset.Icc run.oldest run.newest) (spanned count rest) := by
      rw [Finset.disjoint_left]
      intro index hin hother
      obtain ⟨-, other, hmem, hspans⟩ := Finset.mem_filter.mp hother
      exact hapart other hmem index (Finset.mem_Icc.mp hin) hspans
    rw [hsplit, Finset.card_union_of_disjoint hdisjoint,
      ih (fun r hr => hwithin r (List.mem_cons_of_mem _ hr)) hrest, Nat.card_Icc, List.map_cons,
      List.sum_cons, Run.length]
    omega

/-- The account of some sessions: the surviving runs in order and apart, every session in one of
them or dropped, none dropped twice; and what is counted twice. -/
structure SessionAccount (count : ℕ) (runs dropped : List Run) (droppedSessions : ℕ) : Prop where
  laid : Laid count runs
  covered : ∀ index < count,
    (∃ run ∈ runs, run.Spans index) ∨ ∃ stray ∈ dropped, stray.Spans index
  dropped_once : dropped.Pairwise fun a b => ∀ index, a.Spans index → ¬ b.Spans index
  dropped_sum : (dropped.map Run.length).sum = droppedSessions
  total : (runs.map Run.length).sum + droppedSessions
    = count + (spanned count runs ∩ spanned count dropped).card

/-- **Every session is accounted for.** The loop ends with nothing left to resolve. Every session is
in one surviving run or was dropped, and what the counts exceed the sessions by is the dropped
sessions that a surviving run was joined across. -/
theorem segmentRuns_accounts (rows : List ComparedRow) :
    resolveStep (segmentRuns rows).1 (segmentRuns rows).2 = none
    ∧ SessionAccount rows.length (segmentRuns rows).1 (droppedRuns rows) (segmentRuns rows).2 := by
  obtain ⟨haccount, hsum⟩ := Accounted.resolve (growRuns rows).length (growRuns rows) [] 0
    (accounted_growRuns rows) rfl
  rw [List.nil_append] at haccount hsum
  change ((droppedRuns rows).map Run.length).sum = (segmentRuns rows).2 at hsum
  refine ⟨segmentRuns_resolved rows, haccount.toLaid, haccount.covered, haccount.once, hsum, ?_⟩
  have honce : (segmentRuns rows).1.Pairwise fun a b => ∀ index, a.Spans index → ¬ b.Spans index :=
    haccount.apart.imp fun {a b} hlt index ha hb => by
      have := ha.1
      have := hb.2
      omega
  have hruns := card_spanned (segmentRuns rows).1 haccount.spans honce
  have hdropped := card_spanned (droppedRuns rows) haccount.within haccount.once
  have hall : spanned rows.length (segmentRuns rows).1 ∪ spanned rows.length (droppedRuns rows)
      = Finset.range rows.length := by
    ext index
    simp only [spanned, Finset.mem_union, Finset.mem_filter, Finset.mem_range, ← and_or_left]
    exact and_iff_left_of_imp (haccount.covered index)
  have hcount := Finset.card_union_add_card_inter (spanned rows.length (segmentRuns rows).1)
    (spanned rows.length (droppedRuns rows))
  rw [hall, Finset.card_range, hruns, hdropped, hsum] at hcount
  exact hcount.symm

/-- Eight sessions, all valid: three of one ratio, two that fit nothing, and three of the first
ratio again. -/
def twoStrays : List ComparedRow :=
  validRows ((([20, 20, 20, 50, 70, 20, 20, 20] : List ℚ).zipIdx 1).map fun close =>
    ⟨close.2, close.1, 10⟩)

/-- The newer of the two is dropped, and then the runs on either side are joined across both: nine
sessions are counted. -/
theorem segmentRuns_twoStrays :
    ¬ (((segmentRuns twoStrays).1.map Run.length).sum + (segmentRuns twoStrays).2
      = twoStrays.length) := by
  decide +kernel

end FactorSage.Rebase
