import FactorSage.Rebase.BasisFactor
import FactorSage.Rebase.Corrections

/-!
# A re-based history is measured exactly and restored

A re-based history is cut into segments, newest first: the newest agrees, each older one is the
stored price over a ratio of its own, and no session of one segment shares an admitted ratio with a
session of another. Its runs are its segments, there is nothing to resolve, and each step between
two of them is a dated event. The ratios of the steps multiply to the ratio of the oldest run, up to
the rounding of their quotients; every session of that run admits it.
-/

namespace FactorSage.Rebase

open BinaryRounding ComparatorSort

/-! ### Runs, newest first -/

/-- The runs of consecutive segments, both newest first. -/
def Behind : List (List ComparedRow) → List Run → Prop
  | [], [] => True
  | segment :: segments, run :: runs =>
    Covers segments.flatten.length segment run ∧ Behind segments runs
  | _, _ => False

/-- Runs described from the oldest on, put before runs already behind them. -/
theorem Described.behind (segments : List (List ComparedRow)) :
    ∀ {start : ℕ} {runs : List Run} {olderSegments : List (List ComparedRow)}
      {olderRuns : List Run}, Described start segments runs → Behind olderSegments olderRuns →
      olderSegments.flatten.length = start →
      Behind (segments.reverse ++ olderSegments) (runs.reverse ++ olderRuns) := by
  induction segments with
  | nil =>
    intro start runs olderSegments olderRuns hruns holder _
    cases runs with
    | nil => exact holder
    | cons run runs => exact absurd hruns id
  | cons segment segments ih =>
    intro start runs olderSegments olderRuns hruns holder hstart
    cases runs with
    | nil => exact absurd hruns id
    | cons run runs =>
      obtain ⟨hcovers, hruns⟩ := hruns
      rw [List.reverse_cons, List.reverse_cons, List.append_assoc, List.append_assoc]
      refine ih hruns ⟨hstart ▸ hcovers, holder⟩ ?_
      rw [List.singleton_append, List.flatten_cons, List.length_append, hstart, Nat.add_comm]

variable {segments : List (List ComparedRow)}

theorem Behind.covers :
    ∀ {runs : List Run}, Behind segments runs → ∀ run ∈ runs,
      ∃ segment ∈ segments, ∃ start, Covers start segment run := by
  induction segments with
  | nil =>
    intro runs h run hrun
    cases runs with
    | nil => cases hrun
    | cons => exact absurd h id
  | cons segment segments ih =>
    intro runs h run hrun
    cases runs with
    | nil => cases hrun
    | cons newest runs =>
      rcases List.mem_cons.mp hrun with rfl | hrun
      · exact ⟨segment, List.mem_cons_self, _, h.1⟩
      · obtain ⟨other, hother, start, hcovers⟩ := ih h.2 run hrun
        exact ⟨other, List.mem_cons_of_mem _ hother, start, hcovers⟩

theorem Behind.length_runs {segment : List ComparedRow} :
    ∀ {newer : Run} {runs : List Run}, Behind (segment :: segments) (newer :: runs) →
      runs.length = segments.length := by
  induction segments generalizing segment with
  | nil =>
    intro newer runs h
    cases runs with
    | nil => rfl
    | cons => exact absurd h.2 id
  | cons next segments ih =>
    intro newer runs h
    cases runs with
    | nil => exact absurd h.2 id
    | cons older runs => exact congrArg Nat.succ (ih h.2)

/-- Runs of segments without a ratio in common have none in common. -/
theorem Behind.pairwise :
    ∀ {runs : List Run}, Behind segments runs → (∀ segment ∈ segments, segment ≠ []) →
      (segments.Pairwise fun newer segment => ∀ row ∈ newer, ∀ other ∈ segment,
        ¬ row.toBand.Meets other.toBand) →
      runs.Pairwise fun newer run => ¬ newer.toBand.Meets run.toBand := by
  induction segments with
  | nil =>
    intro runs h _ _
    cases runs with
    | nil => exact List.Pairwise.nil
    | cons => exact absurd h id
  | cons segment segments ih =>
    intro runs h hne hapart
    cases runs with
    | nil => exact List.Pairwise.nil
    | cons newer runs =>
      obtain ⟨hfirst, hrest⟩ := List.pairwise_cons.mp hapart
      refine List.pairwise_cons.mpr ⟨fun run hrun hmeets => ?_,
        ih h.2 (fun other hother => hne other (List.mem_cons_of_mem _ hother)) hrest⟩
      obtain ⟨other, hother, start, hcovers⟩ := h.2.covers run hrun
      obtain ⟨ratio, hnewer, hrun'⟩ := Band.meets_iff.mp hmeets
      obtain ⟨row, hrow⟩ := List.exists_mem_of_ne_nil _ (hne segment List.mem_cons_self)
      obtain ⟨old, hold⟩ := List.exists_mem_of_ne_nil _ (hne other (List.mem_cons_of_mem _ hother))
      exact hfirst other hother row hrow old hold (.of_mem ((h.1.mem ratio).mp hnewer row hrow)
        ((hcovers.mem ratio).mp hrun' old hold))

theorem Behind.getLast :
    ∀ {runs : List Run}, Behind segments runs → ∀ (hsegments : segments ≠ []) (hruns : runs ≠ []),
      ∃ start, Covers start (segments.getLast hsegments) (runs.getLast hruns) := by
  induction segments with
  | nil => exact fun _ hsegments => absurd rfl hsegments
  | cons segment segments ih =>
    intro runs h _ hruns
    match runs, h with
    | [run], h =>
      cases segments with
      | nil => exact ⟨_, h.1⟩
      | cons => exact absurd h.2 id
    | run :: next :: runs, h =>
      cases segments with
      | nil => exact absurd h.2 id
      | cons other segments =>
        rw [List.getLast_cons_cons, List.getLast_cons_cons]
        exact ih h.2 (List.cons_ne_nil _ _) (List.cons_ne_nil _ _)

/-! ### Nothing to resolve -/

theorem findIndex_eq_none {runs : List Run} {condition : Run → ℕ → Bool}
    (h : ∀ index run, runs[index]? = some run → condition run index = false) :
    findIndex runs condition = none := by
  refine List.find?_eq_none.mpr fun index _ => ?_
  cases hrun : runs[index]? with
  | none => exact Bool.false_ne_true
  | some run =>
    rw [Option.any_some, h index run hrun]
    exact Bool.false_ne_true

/-- Long runs, only the newest unchanged, neighbours without a common ratio. -/
structure Settled (newest : Run) (older : List Run) : Prop where
  long : ∀ run ∈ newest :: older, run.short = false
  kept : newest.unchanged = true
  changed : ∀ run ∈ older, run.unchanged = false
  apart : (newest :: older).Pairwise fun newer run => ¬ newer.toBand.Meets run.toBand

/-- No pass applies to settled runs. -/
theorem Settled.resolveStep {newest : Run} {older : List Run} (h : Settled newest older)
    (droppedSessions : ℕ) : resolveStep (newest :: older) droppedSessions = none := by
  -- every run is long and changed, but for the newest, and neighbours do not meet: no pass applies
  have hlong : ∀ (index : ℕ) (run : Run), (newest :: older)[index]? = some run →
      run.short = false :=
    fun index run hrun => h.long run (List.mem_of_getElem? hrun)
  have hmerge : mergeIndex (newest :: older) = none := by
    refine findIndex_eq_none fun index run hrun => ?_
    rw [Bool.and_eq_false_imp, decide_eq_true_iff]
    intro hpos
    unfold sharesAt
    rw [Bool.eq_false_iff]
    intro hshares
    rw [hrun, Option.any_eq_true] at hshares
    obtain ⟨newer, hnewer, hshare⟩ := hshares
    rw [Option.any_some] at hshare
    obtain ⟨hlt, rfl⟩ := List.getElem?_eq_some_iff.mp hnewer
    obtain ⟨hlt', rfl⟩ := List.getElem?_eq_some_iff.mp hrun
    exact List.pairwise_iff_getElem.mp h.apart (index - 1) index hlt hlt' (by omega)
      (of_decide_eq_true hshare).2
  have hcorrection : correctionIndex (newest :: older) = none := by
    refine findIndex_eq_none fun index run hrun => ?_
    rw [hlong index run hrun, Bool.and_false, Bool.false_and]
  have hambiguous : ambiguousIndex (newest :: older) = none := by
    refine findIndex_eq_none fun index run hrun => ?_
    cases index with
    | zero => simp [afterLatestEvent]
    | succ index =>
      rw [List.getElem?_cons_succ] at hrun
      rw [h.changed run (List.mem_of_getElem? hrun), Bool.false_and, Bool.false_and]
  have hnewest : absorbNewest (newest :: older) = none := by
    unfold absorbNewest
    split
    · next heq =>
      obtain ⟨rfl, -⟩ := List.cons.inj heq
      rw [h.kept]
      simp
    · rfl
  have holdest : absorbOldest (newest :: older) = none := by
    unfold absorbOldest
    split
    · next oldest next newer heq =>
      have hmem : oldest ∈ newest :: older := by
        rw [← List.mem_reverse, heq]
        exact List.mem_cons_self
      rw [h.long oldest hmem]
      rfl
    · rfl
  have hstray : strayIndex (newest :: older) = none := by
    refine findIndex_eq_none fun index run hrun => ?_
    rw [hlong index run hrun, Bool.and_false, Bool.false_and]
  unfold Rebase.resolveStep
  rw [hmerge, hcorrection, hambiguous, hnewest, holdest, hstray]
  rfl

/-! ### A run's ratio -/

theorem median_pos {sorted : List ℚ} (hne : sorted ≠ []) (hpos : ∀ ratio ∈ sorted, 0 < ratio) :
    0 < median sorted := by
  have hlength := List.length_pos_iff.mpr hne
  have hget : ∀ index < sorted.length, 0 < sorted.getD index 0 := by
    intro index hindex
    rw [List.getD_eq_getElem?_getD, List.getElem?_eq_getElem hindex]
    exact hpos _ (List.getElem_mem hindex)
  unfold median
  dsimp only
  split
  · exact hget _ (by omega)
  · have hlow := hget (sorted.length / 2 - 1) (by omega)
    have hhigh := hget (sorted.length / 2) (by omega)
    exact toDouble_pos (div_pos (toDouble_pos (add_pos hlow hhigh)) (by norm_num))

/-- The median of doubles is one. -/
theorem toDouble_median {sorted : List ℚ} (hne : sorted ≠ [])
    (hdoubles : ∀ ratio ∈ sorted, toDouble ratio = ratio) :
    toDouble (median sorted) = median sorted := by
  have hlength := List.length_pos_iff.mpr hne
  unfold median
  dsimp only
  split
  · have hmiddle : sorted.length / 2 < sorted.length := by omega
    rw [List.getD_eq_getElem?_getD, List.getElem?_eq_getElem hmiddle]
    exact hdoubles _ (List.getElem_mem hmiddle)
  · exact toDouble_toDouble _

section Ratio

variable {run : Run} {ratio : ℚ}

/-- A run's ratio is one every session of it admits. -/
theorem runRatio_mem (hmem : ratio ∈ run.toBand) (hkept : run.unchanged = true → 1 ∈ run.toBand) :
    runRatio run ∈ run.toBand := by
  unfold runRatio
  split
  · next hunchanged => exact hkept hunchanged
  · exact Band.clamp_mem hmem _

theorem runRatio_pos (hmem : ratio ∈ run.toBand) (hpos : 0 < ratio) (hne : run.ratios ≠ [])
    (hratios : ∀ ratio ∈ run.ratios, 0 < ratio) : 0 < runRatio run := by
  unfold runRatio
  split
  · exact one_pos
  · have hmedian : 0 < median (run.ratios.insertionSort (· ≤ ·)) := by
      have hperm := List.perm_insertionSort (· ≤ ·) run.ratios
      refine median_pos (fun hnil => hne ?_) fun ratio hratio => hratios ratio (hperm.subset hratio)
      rw [hnil] at hperm
      exact hperm.nil_eq.symm
    exact Band.lt_clamp hmem hpos hmedian

/-- A row of doubles, as `comparedRow` makes them. -/
structure OfDoubles (row : ComparedRow) : Prop where
  low : toDouble row.low = row.low
  high : ∀ high : ℚ, row.high = high → toDouble high = high
  ratio : toDouble row.ratio = row.ratio

theorem ofDoubles_comparedRow (session : CommonSession) : OfDoubles (comparedRow session) := by
  refine ⟨toDouble_toDouble _, fun high hhigh => ?_, toDouble_toDouble _⟩
  change (if _ then _ else _ : WithTop ℚ) = high at hhigh
  split at hhigh
  · rw [← WithTop.coe_injective hhigh, toDouble_toDouble]
  · cases hhigh

/-- The ratio of a run over such rows is a double: 1, their median, or an end of one of them. -/
theorem toDouble_runRatio {start : ℕ} {rows : List ComparedRow} (h : Covers start rows run)
    (hrows : ∀ row ∈ rows, OfDoubles row) : toDouble (runRatio run) = runRatio run := by
  obtain ⟨lowest, hlowest, hlow⟩ := h.low
  obtain ⟨highest, hhighest, hhigh⟩ := h.high
  have hmedian : toDouble (median (run.ratios.insertionSort (· ≤ ·)))
      = median (run.ratios.insertionSort (· ≤ ·)) := by
    have hperm := List.perm_insertionSort (· ≤ ·) run.ratios
    refine toDouble_median (fun hnil => ?_) fun ratio hratio => ?_
    · have hcount := hperm.length_eq.trans h.count
      rw [hnil, List.length_nil] at hcount
      exact List.ne_nil_of_mem hlowest (List.length_eq_zero_iff.mp hcount.symm)
    · obtain ⟨row, hrow, rfl⟩ := h.ratios ratio (hperm.subset hratio)
      exact (hrows row hrow).ratio
  have hraised : toDouble (max (median (run.ratios.insertionSort (· ≤ ·))) run.low)
      = max (median (run.ratios.insertionSort (· ≤ ·))) run.low := by
    rw [toDouble_mono.map_max, hmedian, ← hlow, (hrows lowest hlowest).low]
  unfold runRatio
  split
  · exact toDouble_one
  · unfold Band.clamp
    split
    · exact hraised
    · next high heq =>
      rw [toDouble_mono.map_min, hraised, (hrows highest hhighest).high high (hhigh.trans heq)]

end Ratio

/-! ### The steps between the runs -/

section Steps

variable (context : EventContext)

/-- The dated event between two neighbouring runs. -/
def measuredStep (segment : List ComparedRow) (newer older : Run) : PriceBasisEvent :=
  context.event .MEASURED (segment.head?.map ComparedRow.date) none none
    (some (toDouble (runRatio older / runRatio newer)))

def measuredSteps : List (List ComparedRow) → List Run → List PriceBasisEvent
  | segment :: segments, newer :: older :: runs =>
    measuredStep context segment newer older :: measuredSteps segments (older :: runs)
  | _, _ => []

variable {context}

/-- The first session of a segment stands where its run begins. -/
theorem getElem?_segment {front : List (List ComparedRow)} {segment : List ComparedRow}
    {segments : List (List ComparedRow)}
    (hvalid : context.valid = (front ++ segment :: segments).reverse.flatten) (index : ℕ)
    (hindex : index < segment.length) :
    context.valid[segments.flatten.length + index]? = segment[index]? := by
  have hlength : segments.reverse.flatten.length = segments.flatten.length :=
    (List.reverse_perm segments).flatten.length_eq
  have hsplit : (front ++ segment :: segments).reverse.flatten
      = segments.reverse.flatten ++ (segment ++ front.reverse.flatten) := by
    rw [List.reverse_append, List.reverse_cons, List.flatten_append, List.flatten_append,
      List.flatten_singleton, List.append_assoc]
  rw [hvalid, hsplit, List.getElem?_append_right (by omega), hlength, Nat.add_sub_cancel_left,
    List.getElem?_append_left hindex]

theorem step_eq {front : List (List ComparedRow)} {segment next : List ComparedRow}
    {segments : List (List ComparedRow)} {newer older : Run}
    (hvalid : context.valid = (front ++ segment :: next :: segments).reverse.flatten)
    (hne : segment ≠ []) (hnewer : Covers (next :: segments).flatten.length segment newer)
    (holder : Covers segments.flatten.length next older) :
    older.newest + 1 = newer.oldest
      ∧ context.step newer older = measuredStep context segment newer older := by
  have hadjacent : older.newest + 1 = newer.oldest := by
    rw [holder.newest, hnewer.oldest, List.flatten_cons, List.length_append, Nat.add_comm]
  refine ⟨hadjacent, ?_⟩
  have hdate : segment.head?.map ComparedRow.date = some (dateAt context.valid newer.oldest) := by
    have hfirst := getElem?_segment hvalid 0 (List.length_pos_iff.mpr hne)
    rw [Nat.add_zero, ← hnewer.oldest] at hfirst
    unfold dateAt
    rw [hfirst, List.head?_eq_getElem?, List.getElem?_eq_getElem (List.length_pos_iff.mpr hne)]
    rfl
  unfold EventContext.step measuredStep
  rw [if_pos hadjacent, hdate]

/-- Behind a changed run every step is dated. -/
theorem stepsBehind_eq (segments : List (List ComparedRow)) :
    ∀ {front : List (List ComparedRow)} {segment : List ComparedRow} {newer : Run}
      {runs : List Run}, Behind (segment :: segments) (newer :: runs) →
      context.valid = (front ++ segment :: segments).reverse.flatten →
      (∀ segment' ∈ segment :: segments, segment' ≠ []) → (∀ run ∈ runs, run.unchanged = false) →
      context.stepsBehind false true newer runs
        = measuredSteps context (segment :: segments) (newer :: runs) := by
  induction segments with
  | nil =>
    intro front segment newer runs hbehind _ _ _
    cases runs with
    | nil => rfl
    | cons older runs => exact absurd hbehind.2 id
  | cons next segments ih =>
    intro front segment newer runs hbehind hvalid hne hchanged
    cases runs with
    | nil => rfl
    | cons older runs =>
      obtain ⟨hnewer, holder⟩ := hbehind
      have hstep := (step_eq hvalid (hne segment List.mem_cons_self) hnewer holder.1).2
      have hrest := @ih (front ++ [segment]) next older runs holder
        (by rw [hvalid, List.append_assoc]; rfl)
        (fun other hother => hne other (List.mem_cons_of_mem _ hother))
        fun run hrun => hchanged run (List.mem_cons_of_mem _ hrun)
      unfold EventContext.stepsBehind measuredSteps
      rw [hchanged older List.mem_cons_self, hrest, ← hstep]
      rfl

/-- No session after the latest event admits its ratio, so the step is dated too. -/
theorem latestStep_eq {segment next : List ComparedRow} {segments : List (List ComparedRow)}
    {newer older : Run}
    (hvalid : context.valid = (segment :: next :: segments).reverse.flatten)
    (hne : segment ≠ []) (hnewer : Covers (next :: segments).flatten.length segment newer)
    (holder : Covers segments.flatten.length next older)
    (hexcluded : ∀ row ∈ segment, runRatio older ∉ row.toBand) :
    context.latestStep newer older = measuredStep context segment newer older := by
  obtain ⟨hadjacent, hstep⟩ := @step_eq context [] _ _ _ _ _ hvalid hne hnewer holder
  have hpos := List.length_pos_iff.mpr hne
  have hfirst : firstExcluding context.valid newer (runRatio older) = some newer.oldest := by
    unfold firstExcluding
    have hcount : newer.newest + 1 - newer.oldest = segment.length - 1 + 1 := by
      have hnewest := hnewer.newest
      have holdest := hnewer.oldest
      omega
    have hrow := @getElem?_segment context [] _ _ hvalid 0 hpos
    rw [Nat.add_zero, ← hnewer.oldest] at hrow
    rw [hcount, List.range'_succ, List.find?_cons_of_pos]
    rw [hrow, List.getElem?_eq_getElem hpos, Option.any_some]
    exact decide_eq_true (hexcluded _ (List.getElem_mem hpos))
  unfold EventContext.latestStep
  dsimp only
  rw [hfirst, if_neg (not_or.mpr ⟨fun h => h rfl, not_not.mpr hadjacent⟩), hstep]

/-- What each step says but its ratio. -/
theorem dates_measuredSteps (segments : List (List ComparedRow)) :
    ∀ {runs : List Run}, Behind segments runs →
      (measuredSteps context segments runs).map (fun event =>
        (event.kind, event.effectiveDate, event.effectiveFrom, event.effectiveTo))
      = segments.dropLast.map fun segment =>
        (.MEASURED, segment.head?.map ComparedRow.date, none, none) := by
  induction segments with
  | nil =>
    intro runs _
    cases runs <;> rfl
  | cons segment segments ih =>
    intro runs hbehind
    match runs, hbehind with
    | [newer], hbehind =>
      cases segments with
      | nil => rfl
      | cons => exact absurd hbehind.2 id
    | newer :: older :: runs, hbehind =>
      cases segments with
      | nil => exact absurd hbehind.2 id
      | cons next segments =>
        unfold measuredSteps
        rw [List.map_cons, ih hbehind.2, List.dropLast_cons_cons, List.map_cons]
        rfl

/-- The ratios of the steps multiply to the ratio of the oldest run over that of the newest, each of
them rounded once. -/
theorem prod_measuredSteps (segments : List (List ComparedRow)) :
    ∀ {newer : Run} {runs : List Run}, Behind segments (newer :: runs) →
      (∀ run ∈ newer :: runs, 0 < runRatio run) →
      WithinRoundings runs.length
        (runRatio ((newer :: runs).getLast (List.cons_ne_nil _ _)) / runRatio newer)
        ((measuredSteps context segments (newer :: runs)).filterMap
          PriceBasisEvent.priceRatio).prod := by
  induction segments with
  | nil => exact fun hbehind => absurd hbehind id
  | cons segment segments ih =>
    intro newer runs hbehind hratios
    have hnewer := hratios newer List.mem_cons_self
    cases runs with
    | nil => exact WithinRoundings.zero_iff.mpr (div_self hnewer.ne')
    | cons older runs =>
      have holders := fun run hrun => hratios run (List.mem_cons_of_mem _ hrun)
      have holder := holders older List.mem_cons_self
      have hlast := holders _ (List.getLast_mem (List.cons_ne_nil older runs))
      have hround := (WithinRoundings.toDouble (div_pos holder hnewer).le).mul_left
        (div_pos hlast holder).le
      have hrest := (ih hbehind.2 holders).mul_left
        (toDouble_pos (div_pos holder hnewer)).le
      have hstep : (measuredStep context segment newer older).priceRatio
          = some (toDouble (runRatio older / runRatio newer)) := rfl
      unfold measuredSteps
      rw [List.filterMap_cons, hstep]
      dsimp only
      rw [List.prod_cons, List.getLast_cons_cons, List.length_cons, Nat.add_comm]
      rw [div_mul_div_cancel₀ holder.ne', mul_comm (_ / _) (toDouble _)] at hround
      exact hround.trans hrest

/-- From an unchanged run on, the first step is exact. -/
theorem prod_measuredSteps_unchanged {segments : List (List ComparedRow)} {newer : Run}
    {runs : List Run} (hbehind : Behind segments (newer :: runs))
    (hratios : ∀ run ∈ newer :: runs, 0 < runRatio run) (hone : runRatio newer = 1)
    (hdoubles : ∀ run ∈ runs, toDouble (runRatio run) = runRatio run) :
    WithinRoundings (runs.length - 1) (runRatio ((newer :: runs).getLast (List.cons_ne_nil _ _)))
      ((measuredSteps context segments (newer :: runs)).filterMap
        PriceBasisEvent.priceRatio).prod := by
  cases runs with
  | nil =>
    have hsingle := @prod_measuredSteps context _ _ _ hbehind hratios
    rwa [hone, div_one] at hsingle
  | cons older runs =>
    cases segments with
    | nil => exact absurd hbehind id
    | cons segment segments =>
      have holders := fun run hrun => hratios run (List.mem_cons_of_mem _ hrun)
      have holder := holders older List.mem_cons_self
      have hstep : (measuredStep context segment newer older).priceRatio
          = some (runRatio older) := by
        change some (toDouble (runRatio older / runRatio newer)) = _
        rw [hone, div_one, hdoubles older List.mem_cons_self]
      have hrest := (@prod_measuredSteps context segments _ _ hbehind.2 holders).mul_left holder.le
      unfold measuredSteps
      rw [List.filterMap_cons, hstep]
      dsimp only
      rw [List.prod_cons, List.getLast_cons_cons]
      rwa [mul_div_cancel₀ _ holder.ne'] at hrest

theorem mem_measuredSteps (segments : List (List ComparedRow)) :
    ∀ {runs : List Run} {event : PriceBasisEvent}, event ∈ measuredSteps context segments runs →
      event.detectedAt = context.input.detectedAt ∧ ∃ newer ∈ runs, ∃ older ∈ runs,
        event.priceRatio = some (toDouble (runRatio older / runRatio newer)) := by
  induction segments with
  | nil =>
    intro runs event hmem
    cases runs <;> cases hmem
  | cons segment segments ih =>
    intro runs event hmem
    match runs, hmem with
    | newer :: older :: runs, hmem =>
      rcases List.mem_cons.mp hmem with rfl | hmem
      · exact ⟨rfl, newer, List.mem_cons_self, older,
          List.mem_cons_of_mem _ List.mem_cons_self, rfl⟩
      · obtain ⟨hdetected, first, hfirst, second, hsecond, hratio⟩ := ih hmem
        exact ⟨hdetected, first, List.mem_cons_of_mem _ hfirst, second,
          List.mem_cons_of_mem _ hsecond, hratio⟩

end Steps

end FactorSage.Rebase
