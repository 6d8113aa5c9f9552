import FactorSage.Rebase.Runs

/-!
# A short block of corrected sessions

Every session agrees but those of a block of at most two. The sessions around the block are kept
runs, the block is one corrected run, or two that have no ratio in common: then the newer of them
fits no run and is dropped. Whatever surrounds the block, one kept run is left
(`segmentRuns_corrected`), so the comparison reports nothing, unless too many sessions fit no run.
-/

namespace FactorSage.Rebase

open BinaryRounding

/-- A run of sessions that agree. -/
structure Kept (run : Run) : Prop where
  kind : run.unchanged = true
  mem : 1 ∈ run.toBand

/-- A changed run too short for a step. -/
structure Corrected (run : Run) : Prop where
  kind : run.unchanged = false
  short : run.short = true

/-! ### Resolving kept and corrected runs -/

section Resolving

variable {newer older change change' : Run} {droppedSessions : ℕ}

theorem shareRatio_kept (hnewer : Kept newer) (holder : Kept older) :
    shareRatio newer older = true := by
  unfold shareRatio
  rw [hnewer.kind, holder.kind]
  exact decide_eq_true ⟨rfl, .of_mem hnewer.mem holder.mem⟩

theorem shareRatio_kept_corrected (hkept : Kept newer) (hchange : Corrected change) :
    shareRatio newer change = false ∧ shareRatio change newer = false := by
  unfold shareRatio
  rw [hkept.kind, hchange.kind]
  exact ⟨decide_eq_false fun h => absurd h.1 (by decide),
    decide_eq_false fun h => absurd h.1 (by decide)⟩

theorem shareRatio_corrected (hchange' : Corrected change') (hchange : Corrected change)
    (hapart : ¬ change'.toBand.Meets change.toBand) : shareRatio change' change = false := by
  unfold shareRatio
  rw [hchange'.kind, hchange.kind]
  exact decide_eq_false fun h => hapart h.2

theorem not_establishedChange (hchange : Corrected change) (run : Run) :
    establishedChange change run = false := by
  unfold establishedChange
  rw [hchange.short]
  exact decide_eq_false fun h => absurd h.2.1 (by decide)

theorem resolveStep_single (run : Run) (droppedSessions : ℕ) :
    resolveStep [run] droppedSessions = none := by
  simp [resolveStep, mergeIndex, correctionIndex, ambiguousIndex, strayIndex, absorbNewest,
    absorbOldest, findIndex, sharesAt, establishedAt, List.range_succ]

/-- A corrected run between two kept ones is absorbed. -/
theorem resolveStep_between (hnewer : Kept newer) (hchange : Corrected change)
    (holder : Kept older) :
    resolveStep [newer, change, older] droppedSessions
      = some ([joined newer older], droppedSessions) := by
  simp [resolveStep, mergeIndex, correctionIndex, findIndex, sharesAt, joinAt, List.range_succ,
    hchange.short, shareRatio_kept hnewer holder, shareRatio_kept_corrected hnewer hchange,
    shareRatio_kept_corrected holder hchange]

/-- The newer of two corrected runs between kept ones fits no run. -/
theorem resolveStep_between_two (hnewer : Kept newer) (hchange' : Corrected change')
    (hchange : Corrected change) (holder : Kept older)
    (hapart : ¬ change'.toBand.Meets change.toBand) :
    resolveStep [newer, change', change, older] droppedSessions
      = some ([newer, change, older], droppedSessions + change'.length) := by
  simp [resolveStep, mergeIndex, correctionIndex, ambiguousIndex, strayIndex, absorbNewest,
    absorbOldest, findIndex, sharesAt, establishedAt, afterLatestEvent, List.range_succ,
    hchange.short, hchange'.short, hnewer.kind, hchange.kind, hchange'.kind, holder.kind,
    shareRatio_corrected hchange' hchange hapart, shareRatio_kept_corrected hnewer hchange,
    shareRatio_kept_corrected hnewer hchange', shareRatio_kept_corrected holder hchange,
    shareRatio_kept_corrected holder hchange', not_establishedChange hchange]

/-- A corrected oldest run goes into the established one beside it. -/
theorem resolveStep_oldest (hnewer : Kept newer) (hlong : newer.short = false)
    (hchange : Corrected change) :
    resolveStep [newer, change] droppedSessions
      = some ([{ newer with oldest := change.oldest }], droppedSessions) := by
  simp [resolveStep, mergeIndex, correctionIndex, ambiguousIndex, absorbNewest, absorbOldest,
    findIndex, sharesAt, establishedAt, afterLatestEvent, List.range_succ, hchange.short,
    hnewer.kind, hchange.kind, hlong, shareRatio_kept_corrected hnewer hchange]

theorem resolveStep_oldest_two (hnewer : Kept newer) (hchange' : Corrected change')
    (hchange : Corrected change) (hapart : ¬ change'.toBand.Meets change.toBand) :
    resolveStep [newer, change', change] droppedSessions
      = some ([newer, change], droppedSessions + change'.length) := by
  simp [resolveStep, mergeIndex, correctionIndex, ambiguousIndex, strayIndex, absorbNewest,
    absorbOldest, findIndex, sharesAt, establishedAt, afterLatestEvent, List.range_succ,
    hchange.short, hchange'.short, hnewer.kind, hchange.kind, hchange'.kind,
    shareRatio_corrected hchange' hchange hapart, shareRatio_kept_corrected hnewer hchange,
    shareRatio_kept_corrected hnewer hchange']

/-- A corrected newest run goes into the kept one beside it. -/
theorem resolveStep_newest (hchange : Corrected change) (holder : Kept older) :
    resolveStep [change, older] droppedSessions
      = some ([{ older with newest := change.newest }], droppedSessions) := by
  simp [resolveStep, mergeIndex, correctionIndex, ambiguousIndex, absorbNewest, findIndex,
    sharesAt, establishedAt, afterLatestEvent, List.range_succ, hchange.short, holder.kind,
    hchange.kind, shareRatio_kept_corrected holder hchange]

theorem resolveStep_newest_two (hchange' : Corrected change') (hchange : Corrected change)
    (holder : Kept older) (hapart : ¬ change'.toBand.Meets change.toBand) :
    resolveStep [change', change, older] droppedSessions
      = some ([change', older], droppedSessions + change.length) := by
  simp [resolveStep, mergeIndex, correctionIndex, ambiguousIndex, strayIndex, absorbNewest,
    absorbOldest, findIndex, sharesAt, establishedAt, afterLatestEvent, List.range_succ,
    hchange.short, hchange'.short, holder.kind, hchange.kind, hchange'.kind,
    shareRatio_corrected hchange' hchange hapart, shareRatio_kept_corrected holder hchange,
    shareRatio_kept_corrected holder hchange']

end Resolving

/-! ### The runs of a block between kept sessions -/

/-- A session that agrees. -/
structure Agrees (row : ComparedRow) : Prop where
  kind : row.unchanged = true
  mem : 1 ∈ row.toBand

/-- A session with a ratio of its own. -/
structure Differs (row : ComparedRow) : Prop where
  kind : row.unchanged = false
  mem : ∃ ratio, ratio ∈ row.toBand

section Block

variable {kept front back block : List ComparedRow}

theorem isSegment_kept (hkept : ∀ row ∈ kept, Agrees row) (hne : kept ≠ []) :
    IsSegment kept true :=
  ⟨hne, fun row hrow => (hkept row hrow).kind, 1, fun row hrow => (hkept row hrow).mem⟩

theorem Covers.isKept {start : ℕ} {run : Run} (h : Covers start kept run)
    (hkept : ∀ row ∈ kept, Agrees row) (hne : kept ≠ []) : Kept run := by
  obtain ⟨row, hrow⟩ := List.exists_mem_of_ne_nil kept hne
  refine ⟨?_, (h.mem 1).mpr fun row hrow => (hkept row hrow).mem⟩
  rw [← h.kind row hrow, (hkept row hrow).kind]

theorem Covers.isCorrected {start : ℕ} {run : Run} (h : Covers start block run)
    (hblock : ∀ row ∈ block, Differs row) (hne : block ≠ []) (hshort : block.length ≤ 2) :
    Corrected run := by
  obtain ⟨row, hrow⟩ := List.exists_mem_of_ne_nil block hne
  constructor
  · rw [← h.kind row hrow, (hblock row hrow).kind]
  · unfold Run.short
    rw [h.count]
    exact decide_eq_true (Nat.lt_succ_of_le hshort)

theorem apart_kept_changed (hkept : ∀ row ∈ kept, Agrees row)
    (hblock : ∀ row ∈ block, Differs row) : Apart kept block ∧ Apart block kept := by
  constructor
  · intro old hold new hnew hsame
    rw [(hkept old hold).kind, (hblock new hnew).kind] at hsame
    exact absurd hsame.1 (by decide)
  · intro old hold new hnew hsame
    rw [(hblock old hold).kind, (hkept new hnew).kind] at hsame
    exact absurd hsame.1 (by decide)

/-- The sessions on one side of the block, as segments. -/
def side (kept : List ComparedRow) : List (List ComparedRow) := if kept = [] then [] else [kept]

/-- The runs of a side: none, or a kept one. -/
def KeptSide (kept : List ComparedRow) (runs : List Run) : Prop :=
  kept = [] ∧ runs = [] ∨ ∃ run, runs = [run] ∧ Kept run ∧ run.ratios.length = kept.length

theorem flatten_side (kept : List ComparedRow) : (side kept).flatten = kept := by
  unfold side
  split
  · next h => exact h.symm
  · exact List.flatten_singleton

theorem mem_side {segment : List ComparedRow} (h : segment ∈ side kept) :
    segment = kept ∧ kept ≠ [] := by
  unfold side at h
  split at h
  · cases h
  · next hne => exact ⟨List.mem_singleton.mp h, hne⟩

theorem isChain_side (kept : List ComparedRow) : (side kept).IsChain Apart := by
  unfold side
  split
  · exact List.IsChain.nil
  · exact List.IsChain.singleton _

/-- A side is one kept run, or nothing. -/
theorem keptSide_of_described {start : ℕ} {runs : List Run} (hkept : ∀ row ∈ kept, Agrees row)
    (h : Described start (side kept) runs) : KeptSide kept runs := by
  unfold side at h
  split at h
  · next hnil => exact .inl ⟨hnil, h.eq_nil⟩
  · next hne =>
    obtain ⟨run, rfl, hrun⟩ := h.singleton
    exact .inr ⟨run, rfl, hrun.isKept hkept hne, hrun.count⟩

/-- The runs of a block between kept sessions, before anything is resolved. -/
theorem segmentRuns_between {segments : List (List ComparedRow)}
    (hfront : ∀ row ∈ front, Agrees row) (hback : ∀ row ∈ back, Agrees row)
    (hne : segments ≠ []) (hsegments : ∀ segment ∈ segments, IsSegment segment false)
    (hblock : ∀ segment ∈ segments, ∀ row ∈ segment, Differs row)
    (hchain : segments.IsChain Apart) :
    ∃ newer changes older start, KeptSide back newer ∧ KeptSide front older
      ∧ Described start segments changes
      ∧ segmentRuns (front ++ segments.flatten ++ back)
        = resolve (newer ++ (changes.reverse ++ older)).length (newer ++ (changes.reverse ++ older))
          0 := by
  have hkept : ∀ {kept : List ComparedRow}, (∀ row ∈ kept, Agrees row) →
      ∀ segment ∈ side kept, ∃ unchanged, IsSegment segment unchanged := by
    intro kept hkept segment hsegment
    obtain ⟨rfl, hne⟩ := mem_side hsegment
    exact ⟨true, isSegment_kept hkept hne⟩
  have hall : ∀ segment ∈ side front ++ (segments ++ side back),
      ∃ unchanged, IsSegment segment unchanged :=
    List.forall_mem_append.mpr ⟨hkept hfront, List.forall_mem_append.mpr
      ⟨fun segment hsegment => ⟨false, hsegments segment hsegment⟩, hkept hback⟩⟩
  -- neighbouring segments never share a run: kept and changed rows do not meet
  have hapart : (side front ++ (segments ++ side back)).IsChain Apart := by
    refine List.isChain_append.mpr ⟨isChain_side front, List.isChain_append.mpr
      ⟨hchain, isChain_side back, fun segment hsegment kept hmem => ?_⟩,
      fun kept hmem segment hsegment => ?_⟩
    · obtain ⟨rfl, -⟩ := mem_side (List.mem_of_mem_head? hmem)
      exact (apart_kept_changed hback (hblock segment (List.mem_of_mem_getLast? hsegment))).2
    · obtain ⟨rfl, -⟩ := mem_side (List.mem_of_mem_getLast? hmem)
      rw [List.head?_append_of_ne_nil _ hne] at hsegment
      exact (apart_kept_changed hfront (hblock segment (List.mem_of_mem_head? hsegment))).1
  obtain ⟨runs, hgrow, hruns⟩ := growRuns_flatten hall hapart
  obtain ⟨older, rest, rfl, holder, hrest⟩ := Described.append (side front) hruns
  obtain ⟨changes, newer, rfl, hchanges, hnewer⟩ := Described.append segments hrest
  refine ⟨newer.reverse, changes, older.reverse, _, ?_, ?_, hchanges, ?_⟩
  · rcases keptSide_of_described hback hnewer with ⟨hnil, rfl⟩ | ⟨run, rfl, hrun⟩
    · exact .inl ⟨hnil, rfl⟩
    · exact .inr ⟨run, rfl, hrun⟩
  · rcases keptSide_of_described hfront holder with ⟨hnil, rfl⟩ | ⟨run, rfl, hrun⟩
    · exact .inl ⟨hnil, rfl⟩
    · exact .inr ⟨run, rfl, hrun⟩
  · rw [List.flatten_append, List.flatten_append, flatten_side, flatten_side,
      ← List.append_assoc] at hgrow
    unfold segmentRuns
    rw [hgrow, List.reverse_append, List.reverse_append, List.append_assoc]

section Resolved

variable {newer older : List Run} {change change' : Run} {droppedSessions : ℕ}

theorem resolve_single (passes : ℕ) (run : Run) (droppedSessions : ℕ) :
    resolve passes [run] droppedSessions = ([run], droppedSessions) := by
  cases passes with
  | zero => rfl
  | succ passes =>
    unfold resolve
    rw [resolveStep_single]

/-- One corrected run goes into the kept ones around it. -/
theorem resolve_one (hnewer : KeptSide back newer) (holder : KeptSide front older)
    (hchange : Corrected change) (hlong : front ≠ [] ∨ 3 ≤ back.length) (passes : ℕ) :
    ∃ run, resolve (passes + 1) (newer ++ change :: older) droppedSessions
      = ([run], droppedSessions) ∧ run.unchanged = true := by
  unfold resolve
  rcases hnewer with ⟨rfl, rfl⟩ | ⟨newer, rfl, hnewer, hcount⟩
  · rcases holder with ⟨rfl, -⟩ | ⟨older, rfl, holder, -⟩
    · rcases hlong with hlong | hlong
      · exact absurd rfl hlong
      · exact absurd hlong (by decide)
    · rw [List.nil_append, resolveStep_newest hchange holder]
      exact ⟨_, resolve_single _ _ _, holder.kind⟩
  · rcases holder with ⟨rfl, rfl⟩ | ⟨older, rfl, holder, -⟩
    · have hstays : newer.short = false := by
        unfold Run.short
        rw [hcount]
        exact decide_eq_false (not_lt.mpr (hlong.resolve_left fun h => h rfl))
      rw [List.singleton_append, resolveStep_oldest hnewer hstays hchange]
      exact ⟨_, resolve_single _ _ _, hnewer.kind⟩
    · rw [List.singleton_append, resolveStep_between hnewer hchange holder]
      exact ⟨_, resolve_single _ _ _, hnewer.kind⟩

/-- Of two corrected runs of one session one fits no run, and the other goes into the kept ones. -/
theorem resolve_two (hnewer : KeptSide back newer) (holder : KeptSide front older)
    (hchange' : Corrected change') (hchange : Corrected change)
    (hapart : ¬ change'.toBand.Meets change.toBand) (hlength' : change'.length = 1)
    (hlength : change.length = 1) (hlong : front ≠ [] ∨ 3 ≤ back.length) (passes : ℕ) :
    ∃ run, resolve (passes + 2) (newer ++ change' :: change :: older) droppedSessions
      = ([run], droppedSessions + 1) ∧ run.unchanged = true := by
  unfold resolve
  rcases hnewer with ⟨rfl, rfl⟩ | ⟨newer, rfl, hnewer, hcount⟩
  · rcases holder with ⟨rfl, -⟩ | ⟨older, rfl, holder, hsame⟩
    · rcases hlong with hlong | hlong
      · exact absurd rfl hlong
      · exact absurd hlong (by decide)
    · rw [List.nil_append, resolveStep_newest_two hchange' hchange holder hapart, hlength]
      exact resolve_one (.inl ⟨rfl, rfl⟩) (.inr ⟨older, rfl, holder, hsame⟩) hchange' hlong passes
  · have hside : KeptSide back [newer] := .inr ⟨newer, rfl, hnewer, hcount⟩
    rcases holder with ⟨rfl, rfl⟩ | ⟨older, rfl, holder, hsame⟩
    · rw [List.singleton_append, resolveStep_oldest_two hnewer hchange' hchange hapart, hlength']
      exact resolve_one hside (.inl ⟨rfl, rfl⟩) hchange hlong passes
    · rw [List.singleton_append, resolveStep_between_two hnewer hchange' hchange holder hapart,
        hlength']
      exact resolve_one hside (.inr ⟨older, rfl, holder, hsame⟩) hchange hlong passes

end Resolved

/-- A block of one corrected segment. -/
theorem segmentRuns_one (hfront : ∀ row ∈ front, Agrees row) (hback : ∀ row ∈ back, Agrees row)
    (hblock : ∀ row ∈ block, Differs row) (hsegment : IsSegment block false)
    (hshort : block.length ≤ 2) (hlong : front ≠ [] ∨ 3 ≤ back.length) :
    ∃ run, segmentRuns (front ++ block ++ back) = ([run], 0) ∧ run.unchanged = true := by
  obtain ⟨newer, changes, older, start, hnewer, holder, hchanges, hruns⟩ :=
    segmentRuns_between hfront hback (List.cons_ne_nil block [])
      (List.forall_mem_singleton.mpr hsegment) (List.forall_mem_singleton.mpr hblock)
      (List.IsChain.singleton block)
  obtain ⟨change, rfl, hchange⟩ := hchanges.singleton
  have hpasses : (newer ++ ([change].reverse ++ older)).length
      = newer.length + older.length + 1 := by
    rw [List.length_append, List.length_append]
    simp only [List.length_reverse, List.length_singleton]
    omega
  rw [List.flatten_singleton, hpasses] at hruns
  rw [hruns]
  exact resolve_one hnewer holder (hchange.isCorrected hblock hsegment.nonempty hshort) hlong _

/-- Sessions that agree are one run. -/
theorem segmentRuns_kept (hkept : ∀ row ∈ kept, Agrees row) (hne : kept ≠ []) :
    ∃ run, segmentRuns kept = ([run], 0) ∧ run.unchanged = true := by
  obtain ⟨runs, hgrow, hruns⟩ := @growRuns_flatten [kept]
    (List.forall_mem_singleton.mpr ⟨true, isSegment_kept hkept hne⟩) (List.IsChain.singleton _)
  obtain ⟨run, rfl, hrun⟩ := hruns.singleton
  rw [List.flatten_singleton] at hgrow
  unfold segmentRuns
  rw [hgrow]
  exact ⟨run, resolve_single _ _ _, (hrun.isKept hkept hne).kind⟩

/-- The run of one session is one session long. -/
theorem Covers.length_one {start : ℕ} {row : ComparedRow} {run : Run}
    (h : Covers start [row] run) : run.length = 1 := by
  have hnewest := h.newest
  have holdest := h.oldest
  rw [List.length_singleton] at hnewest
  unfold Run.length
  omega

/-- A block of two corrected sessions that have no ratio in common: one of them is dropped. -/
theorem segmentRuns_two {old new : ComparedRow} (hfront : ∀ row ∈ front, Agrees row)
    (hback : ∀ row ∈ back, Agrees row) (hold : Differs old) (hnew : Differs new)
    (hapart : ¬ new.toBand.Meets old.toBand) (hlong : front ≠ [] ∨ 3 ≤ back.length) :
    ∃ run, segmentRuns (front ++ [old, new] ++ back) = ([run], 1) ∧ run.unchanged = true := by
  have hsegment : ∀ {row : ComparedRow}, Differs row → IsSegment [row] false := by
    intro row hrow
    obtain ⟨ratio, hratio⟩ := hrow.mem
    exact ⟨List.cons_ne_nil _ _, List.forall_mem_singleton.mpr hrow.kind, ratio,
      List.forall_mem_singleton.mpr hratio⟩
  have holds : ∀ row ∈ [old], Differs row := List.forall_mem_singleton.mpr hold
  have hnews : ∀ row ∈ [new], Differs row := List.forall_mem_singleton.mpr hnew
  have hpair : Apart [old] [new] := by
    intro first hfirst second hsecond hsame
    obtain rfl := List.mem_singleton.mp hfirst
    obtain rfl := List.mem_singleton.mp hsecond
    exact hapart hsame.2
  obtain ⟨newer, changes, older, start, hnewer, holder, hchanges, hruns⟩ :=
    @segmentRuns_between _ _ [[old], [new]] hfront hback (List.cons_ne_nil _ _)
      (List.forall_mem_cons.mpr ⟨hsegment hold, List.forall_mem_singleton.mpr (hsegment hnew)⟩)
      (List.forall_mem_cons.mpr ⟨holds, List.forall_mem_singleton.mpr hnews⟩)
      (List.isChain_cons_cons.mpr ⟨hpair, List.IsChain.singleton _⟩)
  obtain ⟨first, rest, rfl, hfirst, hrest⟩ := hchanges.cons
  obtain ⟨second, rfl, hsecond⟩ := hrest.singleton
  have hno : ¬ second.toBand.Meets first.toBand := by
    intro hmeets
    obtain ⟨ratio, hratio', hratio⟩ := Band.meets_iff.mp hmeets
    exact hapart (.of_mem ((hsecond.mem ratio).mp hratio' new List.mem_cons_self)
      ((hfirst.mem ratio).mp hratio old List.mem_cons_self))
  have hpasses : (newer ++ ([first, second].reverse ++ older)).length
      = newer.length + older.length + 2 := by
    rw [List.length_append, List.length_append]
    simp only [List.length_reverse, List.length_cons, List.length_nil]
    omega
  rw [hpasses] at hruns
  exact hruns ▸ resolve_two hnewer holder
    (hsecond.isCorrected hnews (List.cons_ne_nil _ _) (Nat.le_succ 1))
    (hfirst.isCorrected holds (List.cons_ne_nil _ _) (Nat.le_succ 1)) hno hsecond.length_one
    hfirst.length_one hlong _

/-- Two sessions of a block that differ and have no ratio in common. -/
def clash : List ComparedRow → Bool
  | [old, new] => old.unchanged = false ∧ new.unchanged = false ∧ ¬ new.toBand.Meets old.toBand
  | _ => false

/-- **A short block between sessions that agree leaves one kept run.** -/
theorem segmentRuns_corrected (hfront : ∀ row ∈ front, Agrees row)
    (hback : ∀ row ∈ back, Agrees row) (hblock : ∀ row ∈ block, Agrees row ∨ Differs row)
    (hshort : block.length ≤ 2) (hlong : front ≠ [] ∨ 3 ≤ back.length) :
    ∃ run, segmentRuns (front ++ block ++ back) = ([run], if clash block then 1 else 0)
      ∧ run.unchanged = true := by
  have hsingle : ∀ {row : ComparedRow}, Differs row → (∀ other ∈ [row], Differs other)
      ∧ IsSegment [row] false := by
    intro row hrow
    obtain ⟨ratio, hratio⟩ := hrow.mem
    exact ⟨List.forall_mem_singleton.mpr hrow, List.cons_ne_nil _ _,
      List.forall_mem_singleton.mpr hrow.kind, ratio, List.forall_mem_singleton.mpr hratio⟩
  have hfront' : ∀ {row : ComparedRow}, Agrees row → ∀ other ∈ front ++ [row], Agrees other :=
    fun hrow => List.forall_mem_append.mpr ⟨hfront, List.forall_mem_singleton.mpr hrow⟩
  have hback' : ∀ {row : ComparedRow}, Agrees row → ∀ other ∈ row :: back, Agrees other :=
    fun hrow => List.forall_mem_cons.mpr ⟨hrow, hback⟩
  have hnone : ∀ {first second : ComparedRow}, Agrees first ∨ Agrees second →
      clash [first, second] = false := by
    rintro first second hagrees
    refine decide_eq_false fun h => ?_
    rcases hagrees with hagrees | hagrees
    · rw [hagrees.kind] at h
      exact absurd h.1 (by decide)
    · rw [hagrees.kind] at h
      exact absurd h.2.1 (by decide)
  -- two sessions that differ clash when no ratio is in both bands, else they form one run
  match block, hblock, hshort with
  | [], _, _ =>
    rw [List.append_nil]
    exact segmentRuns_kept (List.forall_mem_append.mpr ⟨hfront, hback⟩) (by
      rcases hlong with hlong | hlong
      · exact fun h => hlong (List.append_eq_nil_iff.mp h).1
      · rintro h
        rw [(List.append_eq_nil_iff.mp h).2] at hlong
        exact absurd hlong (by decide))
  | [row], hblock, _ =>
    rcases hblock row List.mem_cons_self with hrow | hrow
    · exact segmentRuns_kept (List.forall_mem_append.mpr ⟨hfront' hrow, hback⟩)
        (List.append_ne_nil_of_left_ne_nil (List.append_ne_nil_of_right_ne_nil _
          (List.cons_ne_nil _ _)) _)
    · exact segmentRuns_one hfront hback (hsingle hrow).1 (hsingle hrow).2 (Nat.le_succ 1) hlong
  | [old, new], hblock, _ =>
    rcases hblock old List.mem_cons_self with hold | hold
    · have hsplit : front ++ [old, new] ++ back = (front ++ [old]) ++ [new] ++ back := by
        rw [List.append_assoc front [old] [new]]
        rfl
      have hne : front ++ [old] ≠ [] :=
        List.append_ne_nil_of_right_ne_nil _ (List.cons_ne_nil _ _)
      rw [hsplit, hnone (.inl hold)]
      rcases hblock new (List.mem_cons_of_mem _ List.mem_cons_self) with hnew | hnew
      · rw [List.append_assoc _ [new]]
        exact segmentRuns_kept (List.forall_mem_append.mpr ⟨hfront' hold, hback' hnew⟩)
          (List.append_ne_nil_of_left_ne_nil hne _)
      · exact segmentRuns_one (hfront' hold) hback (hsingle hnew).1 (hsingle hnew).2
          (Nat.le_succ 1) (.inl hne)
    · rcases hblock new (List.mem_cons_of_mem _ List.mem_cons_self) with hnew | hnew
      · have hsplit : front ++ [old, new] ++ back = front ++ [old] ++ (new :: back) := by
          rw [List.append_assoc, List.append_assoc]
          rfl
        rw [hsplit, hnone (.inr hnew)]
        refine segmentRuns_one hfront (hback' hnew) (hsingle hold).1 (hsingle hold).2
          (Nat.le_succ 1) (hlong.imp_right fun hlong => ?_)
        rw [List.length_cons]
        exact hlong.trans (Nat.le_succ _)
      · by_cases hmeets : new.toBand.Meets old.toBand
        · have hclash : clash [old, new] = false := decide_eq_false fun h => h.2.2 hmeets
          obtain ⟨ratio, hratio', hratio⟩ := Band.meets_iff.mp hmeets
          rw [hclash]
          refine segmentRuns_one hfront hback ?_ ⟨List.cons_ne_nil _ _, ?_, ratio, ?_⟩ le_rfl hlong
          · exact List.forall_mem_cons.mpr ⟨hold, List.forall_mem_singleton.mpr hnew⟩
          · exact List.forall_mem_cons.mpr ⟨hold.kind, List.forall_mem_singleton.mpr hnew.kind⟩
          · exact List.forall_mem_cons.mpr ⟨hratio, List.forall_mem_singleton.mpr hratio'⟩
        · have hclash : clash [old, new] = true :=
            decide_eq_true ⟨hold.kind, hnew.kind, hmeets⟩
          rw [hclash]
          exact segmentRuns_two hfront hback hold hnew hmeets hlong

end Block

/-! ### The ratios a session admits -/

namespace CommonSession

variable {session : CommonSession}

/-- Where no more is subtracted than the allowances make up for, 1 is admitted. -/
theorem one_mem_admitted (hratio : session.hasRatio = true)
    (hlow : session.stored - priceRoundingAllowance session.stored
      ≤ session.fresh + priceRoundingAllowance session.fresh)
    (hhigh : session.fresh - priceRoundingAllowance session.fresh
      ≤ session.stored + priceRoundingAllowance session.stored) : 1 ∈ session.admitted := by
  obtain ⟨-, hfresh⟩ := of_decide_eq_true hratio
  have hallowance := priceRoundingAllowance_pos session.fresh
  constructor
  · refine (toDouble_mono ?_).trans_eq toDouble_one
    rw [div_le_one (toDouble_pos (by linarith))]
    exact toDouble_mono hlow
  · unfold admitted
    dsimp only
    split
    · next hpos =>
      refine WithTop.coe_le_coe.mpr (toDouble_one.symm.trans_le (toDouble_mono ?_))
      rw [one_le_div hpos]
      exact toDouble_mono hhigh
    · exact le_top

/-- Every session admits some ratio. -/
theorem low_mem_admitted (hratio : session.hasRatio = true) :
    session.admitted.low ∈ session.admitted := by
  obtain ⟨hstored, hfresh⟩ := of_decide_eq_true hratio
  have hallowance := priceRoundingAllowance_pos session.fresh
  have hallowance' := priceRoundingAllowance_pos session.stored
  refine ⟨le_rfl, ?_⟩
  unfold admitted
  dsimp only
  split
  · next hpos =>
    refine WithTop.coe_le_coe.mpr (toDouble_mono (div_le_div₀ ?_ ?_ hpos ?_))
    · exact toDouble_nonneg (by linarith)
    · exact toDouble_mono (by linarith)
    · exact toDouble_mono (by linarith)
  · exact le_top

/-- Closes that agree within rounding admit the ratio 1. The rounding of the doubles can take that
from closes below two hundredths of a cent whose difference is the whole allowance, and from no
others (`admitsUnchanged_of_eq`, `admitsUnchanged_of_le`). -/
def AdmitsUnchanged (session : CommonSession) : Prop :=
  session.changed = false → session.hasRatio = true → 1 ∈ session.admitted

instance (session : CommonSession) : Decidable session.AdmitsUnchanged :=
  inferInstanceAs (Decidable (_ → _ → _))

theorem admitsUnchanged_of_eq (h : session.stored = session.fresh) : session.AdmitsUnchanged := by
  intro _ hratio
  have hallowance := priceRoundingAllowance_pos session.fresh
  refine one_mem_admitted hratio ?_ ?_ <;> rw [h] <;> linarith

/-- Closes further apart than a factor of two differ. -/
theorem le_two_mul {close other : ℚ} (hother : 1 / 5000 ≤ other)
    (h : toDouble (close - other)
      ≤ toDouble (priceRoundingAllowance close + priceRoundingAllowance other)) :
    close ≤ 2 * other := by
  by_contra hfar
  rw [not_le] at hfar
  have hmove := (toDouble_bounds (by linarith : 0 ≤ close - other)).1.trans h
  have hlarge : toDouble (toDouble (5 / 1000) + toDouble (5 / 1000)) ≤ 2 / 100 := by
    decide +kernel
  have hmixed : toDouble (toDouble (5 / 1000) + toDouble (5 / 100000)) ≤ 2 / 100 := by
    decide +kernel
  have hsmall : toDouble (toDouble (5 / 100000) + toDouble (5 / 100000)) ≤ 11 / 100000 := by
    decide +kernel
  unfold priceRoundingAllowance at hmove
  rw [abs_of_pos (by linarith : 0 < close), abs_of_pos (by linarith : 0 < other)] at hmove
  split at hmove
  · split at hmove <;> linarith
  · rw [if_neg (by linarith)] at hmove
    linarith

/-- The sum of two allowances is not rounded up. -/
theorem toDouble_allowances_le (close other : ℚ) :
    toDouble (priceRoundingAllowance close + priceRoundingAllowance other)
      ≤ priceRoundingAllowance close + priceRoundingAllowance other := by
  unfold priceRoundingAllowance
  split <;> split <;> decide +kernel

theorem admitsUnchanged_of_le (hstored : Representable 53 session.stored)
    (hfresh : Representable 53 session.fresh) (hfar : 1 / 5000 ≤ session.stored)
    (hfar' : 1 / 5000 ≤ session.fresh) : session.AdmitsUnchanged := by
  intro hsame hratio
  unfold changed closesDiffer at hsame
  rw [decide_eq_false_iff_not, not_lt, abs_le] at hsame
  have hlow : session.stored ≤ 2 * session.fresh := by
    refine le_two_mul hfar' ?_
    rw [← neg_sub, toDouble_neg]
    linarith [hsame.1]
  have hhigh : session.fresh ≤ 2 * session.stored := by
    refine le_two_mul hfar ?_
    rw [add_comm]
    exact hsame.2
  rw [toDouble_of_representable (hfresh.sub hstored hlow hhigh)] at hsame
  have hallowances := toDouble_allowances_le session.stored session.fresh
  exact one_mem_admitted hratio (by linarith [hsame.1]) (by linarith [hsame.2])

theorem comparedRow_agrees (hratio : session.hasRatio = true) (h : session.changed = false)
    (hadmits : session.AdmitsUnchanged) : Agrees (comparedRow session) := by
  refine ⟨?_, hadmits h hratio⟩
  unfold comparedRow
  rw [h]
  rfl

theorem comparedRow_differs (hratio : session.hasRatio = true) (h : session.changed = true) :
    Differs (comparedRow session) := by
  refine ⟨?_, _, low_mem_admitted hratio⟩
  unfold comparedRow
  rw [h]
  rfl

end CommonSession

/-! ### The comparison -/

/-- The sessions that fit no run where only a block of at most two differs: those without a ratio,
and one of two that differ and have no ratio in common. -/
def unfittedSessions (common block : List CommonSession) : ℕ :=
  (common.filter fun session => !session.hasRatio).length
    + if clash (validRows block) then 1 else 0

theorem length_validRows (sessions : List CommonSession) :
    (validRows sessions).length + (sessions.filter fun session => !session.hasRatio).length
      = sessions.length := by
  unfold validRows
  rw [List.length_map, ← List.length_append]
  exact (List.filter_append_perm CommonSession.hasRatio sessions).length_eq

section Comparison

variable {input : ComparisonInput} {before block after : List CommonSession}

theorem agrees_validRows {sessions : List CommonSession}
    (hadmits : ∀ session ∈ sessions, session.AdmitsUnchanged)
    (h : ∀ session ∈ sessions, session.changed = false) :
    ∀ row ∈ validRows sessions, Agrees row := by
  intro row hrow
  obtain ⟨session, hsession, rfl⟩ := List.mem_map.mp hrow
  obtain ⟨hmem, hratio⟩ := List.mem_filter.mp hsession
  exact CommonSession.comparedRow_agrees hratio (h session hmem) (hadmits session hmem)

theorem validRows_append (front back : List CommonSession) :
    validRows (front ++ back) = validRows front ++ validRows back := by
  unfold validRows
  rw [List.filter_append, List.map_append]

/-- Runs that all agree are no events. -/
theorem eventsOf_kept (context : EventContext) {run : Run} (h : run.unchanged = true) :
    eventsOf context [run] = [] := by
  change (if run.unchanged then [] else [context.newestEvent run]) ++ [] = []
  rw [h]
  rfl

theorem exceedsShare_zero (compared : ℕ) : exceedsShare 0 compared = false := by
  have hshare : 0 ≤ UNEXPLAINED_SESSION_SHARE := toDouble_nonneg (by norm_num)
  refine decide_eq_false (not_lt.mpr ?_)
  rw [Nat.cast_zero]
  exact toDouble_nonneg (mul_nonneg compared.cast_nonneg hshare)

/-- A share of one in twenty-five exceeds one in a hundred, however it is rounded. -/
theorem exceedsShare_of_lt {sessions compared : ℕ} (h : compared < 25 * sessions) :
    exceedsShare sessions compared = true := by
  have hshare : 0 ≤ UNEXPLAINED_SESSION_SHARE := toDouble_nonneg (by norm_num)
  have hsmall : UNEXPLAINED_SESSION_SHARE ≤ 1 / 50 := by decide +kernel
  have hnonneg : (0 : ℚ) ≤ compared := compared.cast_nonneg
  have hcast : (compared : ℚ) < 25 * sessions := by exact_mod_cast h
  have hproduct := mul_le_mul_of_nonneg_left hsmall hnonneg
  refine decide_eq_true ?_
  linarith [(toDouble_bounds (mul_nonneg hnonneg hshare)).2]

/-- In an array of the language, one in a hundred is exactly that. -/
theorem exceedsShare_iff {sessions compared : ℕ} (h : compared < 2 ^ 32) :
    exceedsShare sessions compared = true ↔ compared < 100 * sessions := by
  have hlow : 1 / 100 ≤ UNEXPLAINED_SESSION_SHARE := by decide +kernel
  have hhigh : UNEXPLAINED_SESSION_SHARE ≤ 1 / 100 + 1 / 2 ^ 60 := by decide +kernel
  have hnonneg : (0 : ℚ) ≤ compared := compared.cast_nonneg
  have hbound : (compared : ℚ) < 2 ^ 32 := by exact_mod_cast h
  constructor
  · intro hexceeds
    by_contra hfew
    have hcast : (100 * sessions : ℚ) ≤ compared := by exact_mod_cast not_lt.mp hfew
    have hle : (sessions : ℚ) ≤ compared * UNEXPLAINED_SESSION_SHARE := by
      linarith [mul_le_mul_of_nonneg_left hlow hnonneg]
    have hsessions : sessions < 2 ^ 53 := by omega
    have hrounded := toDouble_mono hle
    rw [toDouble_natCast hsessions] at hrounded
    exact absurd (of_decide_eq_true hexceeds) (not_lt.mpr hrounded)
  · intro hmany
    have hcast : (compared + 1 : ℚ) ≤ 100 * sessions := by exact_mod_cast hmany
    have hproduct := mul_le_mul_of_nonneg_left hhigh hnonneg
    have hshare := mul_nonneg hnonneg ((by norm_num : (0 : ℚ) ≤ 1 / 100).trans hlow)
    refine decide_eq_true ?_
    linarith [(toDouble_bounds hshare).2]

/-- **A short block of corrected sessions is no event, exactly where few enough sessions fit no
run.** -/
theorem noEvents_iff (hcommon : input.common = before ++ block ++ after)
    (hadmits : ∀ session ∈ input.common, session.AdmitsUnchanged)
    (hbefore : ∀ session ∈ before, session.changed = false)
    (hafter : ∀ session ∈ after, session.changed = false) (hblock : block.length ≤ 2)
    (hbeforeLong : 3 ≤ before.length) (hafterLong : 3 ≤ after.length) :
    (comparePriceHistories input).events = []
      ↔ (∀ session ∈ block, session.changed = false)
        ∨ exceedsShare (unfittedSessions input.common block) input.common.length = false := by
  change input.events = [] ↔ _
  rw [hcommon, List.forall_mem_append, List.forall_mem_append] at hadmits
  obtain ⟨⟨hadmitsBefore, hadmitsBlock⟩, hadmitsAfter⟩ := hadmits
  have hchanged : input.changed = [] ↔ ∀ session ∈ block, session.changed = false := by
    unfold PriceHistories.changed
    rw [hcommon, List.filter_eq_nil_iff]
    constructor
    · intro h session hmem
      exact Bool.eq_false_iff.mpr (h session
        (List.mem_append_left _ (List.mem_append_right _ hmem)))
    · intro h session hmem
      rw [Bool.not_eq_true]
      rcases List.mem_append.mp hmem with hmem | hmem
      · rcases List.mem_append.mp hmem with hmem | hmem
        · exact hbefore session hmem
        · exact h session hmem
      · exact hafter session hmem
  have hvalid : input.valid.length
      + (input.common.filter fun session => !session.hasRatio).length = input.common.length :=
    length_validRows input.common
  have hrows : input.valid = validRows before ++ validRows block ++ validRows after := by
    unfold ComparisonInput.valid
    rw [hcommon, validRows_append, validRows_append]
  have hshort : (validRows block).length ≤ 2 := by
    have hsplit := length_validRows block
    omega
  unfold ComparisonInput.events
  by_cases hsame : ∀ session ∈ block, session.changed = false
  · rw [if_pos (hchanged.mpr hsame)]
    exact ⟨fun _ => .inl hsame, fun _ => rfl⟩
  rw [if_neg (mt hchanged.mp hsame), or_iff_right hsame]
  by_cases hlong : validRows before ≠ [] ∨ 3 ≤ (validRows after).length
  · -- one run takes up both sides, and the block with them but for its clash
    have hkinds : ∀ row ∈ validRows block, Agrees row ∨ Differs row := by
      intro row hrow
      obtain ⟨session, hsession, rfl⟩ := List.mem_map.mp hrow
      obtain ⟨hmem, hratio⟩ := List.mem_filter.mp hsession
      cases h : session.changed with
      | false => exact .inl (CommonSession.comparedRow_agrees hratio h (hadmitsBlock session hmem))
      | true => exact .inr (CommonSession.comparedRow_differs hratio h)
    obtain ⟨run, hruns, hkept⟩ := segmentRuns_corrected (agrees_validRows hadmitsBefore hbefore)
      (agrees_validRows hadmitsAfter hafter) hkinds hshort hlong
    have hsegmented : input.segmented = ([run], if clash (validRows block) then 1 else 0) := by
      unfold ComparisonInput.segmented
      rw [hrows, hruns]
    have hunfitted : input.unfitted = unfittedSessions input.common block := by
      unfold ComparisonInput.unfitted unfittedSessions
      rw [hsegmented]
      dsimp only
      omega
    rw [hunfitted, hsegmented, ← Bool.not_eq_true]
    by_cases hmany : exceedsShare (unfittedSessions input.common block) input.common.length = true
    · rw [if_pos (.inr hmany)]
      exact ⟨fun h => absurd h (List.cons_ne_nil _ _), fun h => absurd hmany h⟩
    · rw [if_neg (not_or.mpr ⟨List.cons_ne_nil _ _, hmany⟩)]
      exact ⟨fun _ => hmany, fun _ => eventsOf_kept _ hkept⟩
  · -- hardly a session has a ratio
    push Not at hlong
    have hlength := congrArg List.length hrows
    rw [List.length_append, List.length_append, hlong.1, List.length_nil] at hlength
    have htotal := congrArg List.length hcommon
    rw [List.length_append, List.length_append] at htotal
    have hmany : exceedsShare (unfittedSessions input.common block) input.common.length = true := by
      refine exceedsShare_of_lt ?_
      unfold unfittedSessions
      omega
    have hunfitted : exceedsShare input.unfitted input.common.length = true := by
      refine exceedsShare_of_lt ?_
      unfold ComparisonInput.unfitted
      omega
    rw [if_pos (.inr hunfitted), hmany]
    exact ⟨fun h => absurd h (List.cons_ne_nil _ _), fun h => absurd h (by decide)⟩

end Comparison

/-- A re-read history of consecutive sessions, as their closes were stored and are read. -/
def rereadHistory (sessions : List CommonSession) : ComparisonInput where
  securityId := "security-1"
  generation := 2
  detectedAt := 20 * 86400000
  stored := sessions.map CommonSession.storedRow
  fresh := sessions.map CommonSession.freshRow

/-- Sessions whose closes are the doubles nearest to some numbers. -/
def segmentOf (first : ℤ) (closes : List (ℚ × ℚ)) : List CommonSession :=
  closes.zipIdx.map fun ((stored, fresh), index) =>
    ⟨first + index, toDouble stored, toDouble fresh⟩

/-- Three sessions that read as they were stored. -/
def keptSessions (first : ℤ) (close : ℚ) : List CommonSession :=
  segmentOf first [(close, close), (close, close), (close, close)]

/-- Eight sessions, of which two read as other closes. -/
def correctedHistory (close : ℚ) (block : List (ℚ × ℚ)) : ComparisonInput :=
  rereadHistory (keptSessions 1 close ++ segmentOf 4 block ++ keptSessions 6 close)

theorem noEvents_corrected_alike :
    (comparePriceHistories (correctedHistory 100 [(100, 102), (100, 102)])).events = [] :=
  (@noEvents_iff (correctedHistory 100 [(100, 102), (100, 102)]) (keptSessions 1 100)
    (segmentOf 4 [(100, 102), (100, 102)]) (keptSessions 6 100) (by decide +kernel)
    (by decide +kernel) (by decide +kernel) (by decide +kernel) (by decide) (by decide)
    (by decide)).mpr (.inr (by decide +kernel))

/-- Two sessions corrected each by a ratio of its own: one of the eight fits no run, which is more
than one in a hundred. And what the proviso on agreeing sessions is for: a close under two
hundredths of a cent that agrees within rounding beside closes so large that they admit no ratio
but 1. -/
theorem corrected_apart_reported :
    (comparePriceHistories (correctedHistory 100 [(100, 102), (100, 97)])).events.map
        PriceBasisEvent.kind = [.UNEXPLAINED]
      ∧ (segmentOf 4 [(11112 / 10 ^ 8, 1112 / 10 ^ 8)]).map CommonSession.changed = [false]
      ∧ (comparePriceHistories (correctedHistory (10 ^ 14)
        [(11112 / 10 ^ 8, 1112 / 10 ^ 8), (100, 102)])).events.map PriceBasisEvent.kind
        = [.UNEXPLAINED] := by
  refine ⟨?_, ?_, ?_⟩ <;> decide +kernel

end FactorSage.Rebase
