import FactorSage.IndexMembership.Conservation

/-!
# The account of a reconstruction

`reconstruction_accounted`: whatever the order of its inputs, each applied change has exactly one
outcome in the result, each current member one open-ended period, and no period is produced twice.
-/

namespace FactorSage.IndexMembership

open ComparatorSort

/-- The periods of a result. -/
def ReconstructionResult.periods (result : ReconstructionResult) : List ReconstructedPeriod :=
  result.constituents.flatMap ReconstructedConstituent.periods

/-- What became of every change; `lost` are the removals no session was left before, each with the
addition it is reported with. -/
structure Accounted (input : ReconstructionInput) (lost : List (String × String))
    (result : ReconstructionResult) : Prop where
  additions : ∀ hash, (startHashes result.periods).count hash
    + (orphanHashes result.anomalies).count hash + (unconfirmedHashes result.anomalies).count hash
    = if hash ∈ addedHashes (appliedChanges input) then 1 else 0
  orphans : ∀ hash, (unknownHashes result.periods).count hash
    = (orphanHashes result.anomalies).count hash
  removals : ∀ hash, (endHashes result.periods).count hash + (lost.map Prod.fst).count hash
    = if hash ∈ removedHashes (appliedChanges input) then 1 else 0
  reports : ∀ hash, (lost.map Prod.snd).count hash = (unconfirmedHashes result.anomalies).count hash
  apart : ∀ pair ∈ lost, ∃ removal ∈ appliedChanges input, ∃ addition ∈ appliedChanges input,
    removal.contentHash = pair.1 ∧ addition.contentHash = pair.2
      ∧ removal.effectiveDate - 1 < additionStart addition
  current : ∀ member ∈ input.current, ∃ constituent ∈ result.constituents,
    constituent.constituentKey = "CURRENT:" ++ member.symbol ∧ ∃ period,
      constituent.periods = [period] ∧ period.endDate = none ∧ period.quality ≠ .END_UNKNOWN
  keys : (result.constituents.map ReconstructedConstituent.constituentKey).Nodup
  once : ∀ constituent ∈ result.constituents, constituent.periods.length = 1
  ordered : ∀ period ∈ result.periods, ∀ start, period.startDate = some start →
    ∀ last, period.endDate = some last → start ≤ last

/-! ### The applied changes -/

section Applied

variable (input : ReconstructionInput)

theorem nodup_appliedChanges :
    ((appliedChanges input).map fun change => change.contentHash).Nodup := by
  unfold appliedChanges
  refine (List.filter_sublist.map _).nodup ?_
  rw [List.map_map]
  have hhashes : ((dedupeChanges input.changes).map IndexChange.contentHash).Nodup :=
    ((sortBy_perm _ _).map _).nodup_iff.mpr (nodup_firstByHash input.changes)
  exact hhashes

theorem addedHashes_sublist (changes : List EffectiveChange) :
    (addedHashes changes).Sublist (changes.map fun change => change.contentHash) := by
  unfold addedHashes
  induction changes with
  | nil => exact List.Sublist.refl _
  | cons change changes ih =>
    rw [List.filterMap_cons, List.map_cons]
    cases present change.addedTicker with
    | none => exact ih.cons _
    | some ticker => exact ih.cons_cons _

theorem removedHashes_sublist (changes : List EffectiveChange) :
    (removedHashes changes).Sublist (changes.map fun change => change.contentHash) := by
  unfold removedHashes
  induction changes with
  | nil => exact List.Sublist.refl _
  | cons change changes ih =>
    rw [List.filterMap_cons, List.map_cons]
    cases present change.removedTicker with
    | none => exact ih.cons _
    | some ticker => exact ih.cons_cons _

/-- The walked dates are distinct and cover the changes. -/
theorem perm_walkedChanges :
    ((walkedDates (appliedChanges input) (appliedRenames input)).flatMap
      (changesOn (appliedChanges input))).Perm (appliedChanges input) := by
  have hdates := List.perm_insertionSort (· ≥ ·) (((appliedChanges input).map fun change =>
    change.effectiveDate) ++ (appliedRenames input).map SymbolChange.date).dedup
  refine perm_flatMap_changesOn (hdates.nodup_iff.mpr (List.nodup_dedup _)) fun change hchange => ?_
  refine hdates.mem_iff.mpr (List.mem_dedup.mpr (List.mem_append_left _ ?_))
  exact List.mem_map_of_mem hchange

end Applied

/-! ### The walk -/

theorem orphanHashes_openingAnomalies (input : ReconstructionInput) :
    orphanHashes (openingAnomalies input) = []
      ∧ unconfirmedHashes (openingAnomalies input) = [] := by
  have hall : ∀ anomaly ∈ openingAnomalies input, (∃ date candidates confirmed,
      anomaly = .EFFECTIVE_DATE_CONFLICT date candidates confirmed)
      ∨ ∃ date hash, anomaly = .FUTURE_CHANGE date hash := by
    intro anomaly hmem
    rcases List.mem_append.mp hmem with hmem | hmem
    · obtain ⟨date, -, rfl⟩ := List.mem_map.mp hmem
      exact .inl ⟨_, _, _, rfl⟩
    · obtain ⟨change, -, rfl⟩ := List.mem_map.mp hmem
      exact .inr ⟨_, _, rfl⟩
  constructor
  · refine List.filterMap_eq_nil_iff.mpr fun anomaly hmem => ?_
    rcases hall anomaly hmem with ⟨_, _, _, rfl⟩ | ⟨_, _, rfl⟩ <;> rfl
  · refine List.filterMap_eq_nil_iff.mpr fun anomaly hmem => ?_
    rcases hall anomaly hmem with ⟨_, _, _, rfl⟩ | ⟨_, _, rfl⟩ <;> rfl

theorem conserves_openingWalk (input : ReconstructionInput) :
    Conserves input.current (appliedChanges input) [] [] [] (openingWalk input) := by
  obtain ⟨hnoOrphan, hnoReport⟩ := orphanHashes_openingAnomalies input
  have hwalkers : ∀ walker ∈ (openingWalk input).active,
      ∃ member ∈ input.current, walker = currentWalker member := by
    intro walker hwalker
    obtain ⟨member, hmember, rfl⟩ := List.mem_map.mp hwalker
    exact ⟨member, mem_sortBy.mp hmember, rfl⟩
  refine ⟨fun hash => ?_, fun hash => ?_, fun hash => ?_, fun hash => ?_, fun key => ?_,
    fun walker hwalker => ?_, fun walker hwalker => (nomatch hwalker),
    fun pair hpair => (nomatch hpair)⟩
  · change _ = _ + (orphanHashes (openingAnomalies input)).count hash
      + (unconfirmedHashes (openingAnomalies input)).count hash
    rw [hnoOrphan, hnoReport]
    rfl
  · change _ = (orphanHashes (openingAnomalies input)).count hash
    rw [hnoOrphan]
    rfl
  · have hends : (openingWalk input).active.filterMap Walker.openEndHash = [] := by
      refine List.filterMap_eq_nil_iff.mpr fun walker hwalker => ?_
      obtain ⟨member, -, rfl⟩ := hwalkers walker hwalker
      rfl
    rw [hends]
    rfl
  · change _ = (unconfirmedHashes (openingAnomalies input)).count hash
    rw [hnoReport]
    rfl
  · change _ = (currentKeys input.current
      ++ (orphanHashes (openingAnomalies input)).map ("ADDITION:" ++ ·) ++ _).count key
    have hkeys : ((openingWalk input).active.map Walker.key).Perm (currentKeys input.current) := by
      change ((List.map currentWalker _).map Walker.key).Perm _
      rw [List.map_map]
      exact (sortBy_perm _ input.current).map _
    rw [hnoOrphan, List.map_nil, List.append_nil]
    change ((openingWalk input).active.map Walker.key).count key = (currentKeys input.current
      ++ []).count key
    rw [List.append_nil, hkeys.count_eq]
  · obtain ⟨member, -, rfl⟩ := hwalkers walker hwalker
    exact ⟨rfl, rfl, fun hash heq => (nomatch heq), fun _ => rfl, fun _ _ => rfl⟩

theorem conserves_walkBack {input : ReconstructionInput}
    (hcurrent : (input.current.map CurrentConstituent.symbol).Nodup) :
    ∃ walked lost, walked.Perm (appliedChanges input)
      ∧ Conserves input.current (appliedChanges input) walked walked lost (walkBack input) := by
  have hperm := perm_walkedChanges input
  have hhashes := (hperm.map fun change => change.contentHash).nodup_iff.mpr
    (nodup_appliedChanges input)
  obtain ⟨lost, h⟩ := Conserves.foldl_crossDate hcurrent (appliedRenames input)
    (walkedDates (appliedChanges input) (appliedRenames input)) (conserves_openingWalk input)
    ((addedHashes_sublist _).nodup hhashes) ((removedHashes_sublist _).nodup hhashes)
  exact ⟨_, lost, hperm, h⟩

/-! ### The result -/

/-- Every walker at the end of the walk. -/
def endWalkers (walk : Walk) : List Walker := walk.left ++ walk.active.map beforeLog

theorem periods_toConstituent {walker : Walker} (h : walker.periods.length ≤ 1) :
    (toConstituent walker).periods = walker.periods := by
  unfold toConstituent
  match hperiods : walker.periods with
  | [] => rfl
  | [period] => rfl
  | _ :: _ :: _ =>
    rw [hperiods] at h
    exact absurd h (by simp)

section Result

variable {walk : Walk} (hsingle : ∀ walker ∈ endWalkers walk, walker.periods.length ≤ 1)

include hsingle

theorem periods_constituentsOf :
    ((constituentsOf walk).flatMap ReconstructedConstituent.periods).Perm
      (walkedPeriods (endWalkers walk)) := by
  refine (List.Perm.flatMap_right ReconstructedConstituent.periods (sortBy_perm _ _)).trans
    (List.Perm.of_eq ?_)
  rw [List.flatMap_map]
  change ((endWalkers walk).filter fun walker => 0 < walker.periods.length).flatMap _ = _
  unfold walkedPeriods
  revert hsingle
  induction endWalkers walk with
  | nil => exact fun _ => rfl
  | cons walker walkers ih =>
    intro hsingle
    have hrest := ih fun other hother => hsingle other (List.mem_cons_of_mem _ hother)
    rw [List.flatMap_cons]
    by_cases hperiods : 0 < walker.periods.length
    · rw [List.filter_cons, if_pos (decide_eq_true hperiods), List.flatMap_cons, hrest,
        periods_toConstituent (hsingle walker List.mem_cons_self)]
    · have hempty : walker.periods = [] :=
        List.length_eq_zero_iff.mp (Nat.eq_zero_of_not_pos hperiods)
      rw [List.filter_cons, if_neg (by simpa using hempty), hempty, hrest]
      rfl

omit hsingle in
theorem mem_constituentsOf {constituent : ReconstructedConstituent} :
    constituent ∈ constituentsOf walk ↔ ∃ walker ∈ endWalkers walk,
      0 < walker.periods.length ∧ constituent = toConstituent walker := by
  unfold constituentsOf
  rw [mem_sortBy, List.mem_map]
  constructor
  · rintro ⟨walker, hwalker, rfl⟩
    obtain ⟨hmem, hperiods⟩ := List.mem_filter.mp hwalker
    exact ⟨walker, hmem, of_decide_eq_true hperiods, rfl⟩
  · rintro ⟨walker, hmem, hperiods, rfl⟩
    exact ⟨walker, List.mem_filter.mpr ⟨hmem, decide_eq_true hperiods⟩, rfl⟩

end Result

/-- The anomalies added after the walk are mismatches. -/
theorem hashes_reconstruct (input : ReconstructionInput) :
    (orphanHashes (reconstructIndexMembership input).anomalies).Perm
        (orphanHashes (walkBack input).anomalies)
      ∧ (unconfirmedHashes (reconstructIndexMembership input).anomalies).Perm
        (unconfirmedHashes (walkBack input).anomalies) := by
  have hmismatch : ∀ {constituents logStart} {anomaly : ReconstructionAnomaly},
      anomaly ∈ input.current.filterMap (mismatchOf constituents logStart) →
      ∃ ticker added start, anomaly = .FIRST_ADDED_MISMATCH ticker added start := by
    intro constituents logStart anomaly hmem
    obtain ⟨member, -, h⟩ := List.mem_filterMap.mp hmem
    obtain ⟨added, -, h⟩ := Option.bind_eq_some_iff.mp h
    dsimp only at h
    split at h
    · exact ⟨_, added, _, (Option.some.inj h).symm⟩
    · cases h
  -- neither reads a mismatch, so what is left is the walk's own anomalies
  have hreads : ∀ f : ReconstructionAnomaly → Option String,
      (∀ ticker added start, f (.FIRST_ADDED_MISMATCH ticker added start) = none) →
      ((reconstructIndexMembership input).anomalies.filterMap f).Perm
        ((walkBack input).anomalies.filterMap f) := by
    intro f hf
    refine ((sortBy_perm _ _).filterMap _).trans (List.Perm.of_eq ?_)
    rw [List.filterMap_append]
    refine (congrArg _ (List.filterMap_eq_nil_iff.mpr fun anomaly hmem => ?_)).trans
      (List.append_nil _)
    obtain ⟨ticker, added, start, rfl⟩ := hmismatch hmem
    exact hf ticker added start
  exact ⟨hreads _ fun _ _ _ => rfl, hreads _ fun _ _ _ => rfl⟩

/-- The members at the start of the log end what they were to end, and start nothing. -/
theorem hashes_beforeLog {changes : List EffectiveChange} {active : List Walker}
    (h : ∀ walker ∈ active, Open changes walker) :
    startHashes (walkedPeriods (active.map beforeLog)) = []
      ∧ unknownHashes (walkedPeriods (active.map beforeLog)) = []
      ∧ endHashes (walkedPeriods (active.map beforeLog))
          = active.filterMap Walker.openEndHash := by
  induction active with
  | nil => exact ⟨rfl, rfl, rfl⟩
  | cons walker active ih =>
    obtain ⟨hstarts, hunknown, hends⟩ := ih fun other hother =>
      h other (List.mem_cons_of_mem _ hother)
    have hempty := (h walker List.mem_cons_self).periods
    have hsplit : walkedPeriods ((walker :: active).map beforeLog)
        = (beforeLog walker).periods ++ walkedPeriods (active.map beforeLog) := rfl
    rw [hsplit, startHashes_append, unknownHashes_append, endHashes_append, hstarts, hunknown,
      hends, List.filterMap_cons]
    unfold beforeLog
    rw [hempty]
    refine ⟨rfl, rfl, ?_⟩
    change endHashes [ReconstructedPeriod.mk none none walker.openEnd walker.openEndLogDate
      .START_BEFORE_LOG none walker.openEndHash none] ++ _ = _
    unfold endHashes
    rw [List.filterMap_cons]
    dsimp only
    cases walker.openEndHash <;> rfl

theorem Finished.of_beforeLog {changes : List EffectiveChange} {walker : Walker}
    (h : Open changes walker) : Finished (beforeLog walker) := by
  have hperiods : (beforeLog walker).periods = [⟨none, none, walker.openEnd, walker.openEndLogDate,
      .START_BEFORE_LOG, none, walker.openEndHash, none⟩] := by
    unfold beforeLog
    rw [h.periods]
    rfl
  refine ⟨?_, fun period hperiod start hstart => ?_, fun symbol hkey => ⟨_, hperiods, ?_, ?_⟩⟩
  · rw [hperiods]
    exact le_rfl
  · rw [hperiods] at hperiod
    obtain rfl := List.mem_singleton.mp hperiod
    cases hstart
  · exact h.listed (h.current symbol hkey)
  · exact fun heq => (nomatch heq)

/-- **The account.** -/
theorem accounted {input : ReconstructionInput}
    (hcurrent : (input.current.map CurrentConstituent.symbol).Nodup) :
    ∃ lost, Accounted input lost (reconstructIndexMembership input) := by
  obtain ⟨walked, lost, hwalked, h⟩ := conserves_walkBack hcurrent
  have hhashes := (hwalked.map fun change => change.contentHash).nodup_iff.mpr
    (nodup_appliedChanges input)
  have hadded := (addedHashes_sublist _).nodup hhashes
  have hremoved := (removedHashes_sublist _).nodup hhashes
  obtain ⟨hstarts, hunknown, hends⟩ := hashes_beforeLog h.active
  obtain ⟨horphans, hreports⟩ := hashes_reconstruct input
  have hfinished : ∀ walker ∈ endWalkers (walkBack input), Finished walker := by
    intro walker hwalker
    rcases List.mem_append.mp hwalker with hwalker | hwalker
    · exact h.left walker hwalker
    · obtain ⟨member, hmember, rfl⟩ := List.mem_map.mp hwalker
      exact Finished.of_beforeLog (h.active member hmember)
  -- a walker ends with one period at most, so the periods read off are those walked
  have hsingle := fun walker hwalker => (hfinished walker hwalker).single
  have hperiods : (reconstructIndexMembership input).periods.Perm
      (walkedPeriods (walkBack input).left
        ++ walkedPeriods ((walkBack input).active.map beforeLog)) := by
    rw [← walkedPeriods_append]
    exact periods_constituentsOf hsingle
  have hkeys : ((endWalkers (walkBack input)).map Walker.key).Nodup := by
    have hsame : (endWalkers (walkBack input)).map Walker.key
        = ((walkBack input).left ++ (walkBack input).active).map Walker.key := by
      unfold endWalkers
      rw [List.map_append, List.map_append, List.map_map]
      rfl
    rw [hsame]
    exact h.nodup_keys hcurrent hadded hremoved
  refine ⟨lost, fun hash => ?_, fun hash => ?_, fun hash => ?_, fun hash => ?_, h.apart,
    fun member hmember => ?_, ?_, fun constituent hconstituent => ?_,
    fun period hperiod => ?_⟩
  · -- the log applies an addition once: it starts a period, is an orphan or is unconfirmed
    have hcount := h.additions hash
    have hsame := (hwalked.filterMap fun change : EffectiveChange =>
      (present change.addedTicker).map fun _ => change.contentHash).count_eq hash
    change (addedHashes walked).count hash
      = (addedHashes (appliedChanges input)).count hash at hsame
    have happlied := ((addedHashes_sublist (appliedChanges input)).nodup
      (nodup_appliedChanges input)).count (a := hash)
    have hsplit := (hperiods.filterMap fun period : ReconstructedPeriod =>
      if period.quality = .END_UNKNOWN then none else period.startChangeHash).count_eq hash
    change (startHashes _).count hash = (startHashes (_ ++ _)).count hash at hsplit
    rw [startHashes_append, hstarts, List.append_nil] at hsplit
    rw [hsplit, horphans.count_eq, hreports.count_eq, ← happlied]
    omega
  · have hsplit := (hperiods.filterMap fun period : ReconstructedPeriod =>
      if period.quality = .END_UNKNOWN then period.startChangeHash else none).count_eq hash
    change (unknownHashes _).count hash = (unknownHashes (_ ++ _)).count hash at hsplit
    rw [unknownHashes_append, hunknown, List.append_nil] at hsplit
    rw [hsplit, horphans.count_eq]
    exact h.orphans hash
  · -- and a removal once: it ends a period or is lost
    have hcount := h.removals hash
    have hsame := (hwalked.filterMap fun change : EffectiveChange =>
      (present change.removedTicker).map fun _ => change.contentHash).count_eq hash
    change (removedHashes walked).count hash
      = (removedHashes (appliedChanges input)).count hash at hsame
    have happlied := ((removedHashes_sublist (appliedChanges input)).nodup
      (nodup_appliedChanges input)).count (a := hash)
    have hsplit := (hperiods.filterMap ReconstructedPeriod.endChangeHash).count_eq hash
    change (endHashes _).count hash = (endHashes (_ ++ _)).count hash at hsplit
    rw [endHashes_append, hends, List.count_append] at hsplit
    rw [← happlied]
    omega
  · rw [hreports.count_eq]
    exact h.reports hash
  · -- the member's walker is there, wherever the walk left it
    have hkey : "CURRENT:" ++ member.symbol ∈ (endWalkers (walkBack input)).map Walker.key := by
      have hcount := h.keys ("CURRENT:" ++ member.symbol)
      have hlisted : "CURRENT:" ++ member.symbol ∈ currentKeys input.current :=
        List.mem_map_of_mem (f := fun member : CurrentConstituent => "CURRENT:" ++ member.symbol)
          hmember
      have hpos := List.count_pos_iff.mpr (List.mem_append_left
        ((removedHashes walked).map ("REMOVAL:" ++ ·)) (List.mem_append_left
          ((orphanHashes (walkBack input).anomalies).map ("ADDITION:" ++ ·)) hlisted))
      rw [← hcount, List.count_pos_iff] at hpos
      unfold endWalkers
      rw [List.map_append, List.map_map]
      rw [List.map_append] at hpos
      exact hpos
    obtain ⟨walker, hwalker, hname⟩ := List.mem_map.mp hkey
    obtain ⟨period, hone, hend, hquality⟩ := (hfinished walker hwalker).current member.symbol hname
    have hsame := periods_toConstituent (hsingle walker hwalker)
    refine ⟨toConstituent walker, mem_constituentsOf.mpr ⟨walker, hwalker, ?_, rfl⟩, hname, period,
      hsame.trans hone, hend, hquality⟩
    rw [hone]
    exact Nat.one_pos
  · have hperm : ((reconstructIndexMembership input).constituents.map
        ReconstructedConstituent.constituentKey).Perm
        (((endWalkers (walkBack input)).filter fun walker => 0 < walker.periods.length).map
          Walker.key) := by
      refine ((sortBy_perm _ _).map _).trans (List.Perm.of_eq ?_)
      rw [List.map_map]
      rfl
    exact hperm.nodup_iff.mpr ((List.filter_sublist.map _).nodup hkeys)
  · obtain ⟨walker, hwalker, hpos, rfl⟩ := mem_constituentsOf.mp hconstituent
    rw [periods_toConstituent (hsingle walker hwalker)]
    exact le_antisymm (hsingle walker hwalker) hpos
  · have hmem := hperiods.mem_iff.mp hperiod
    rw [← walkedPeriods_append] at hmem
    obtain ⟨walker, hwalker, hmem⟩ := List.mem_flatMap.mp hmem
    exact (hfinished walker hwalker).ordered period hmem

/-- **Index membership is reconstructed independently of order, conservatively and completely.** -/
theorem reconstruction_accounted {input : ReconstructionInput}
    (hsymbols : (input.current.map CurrentConstituent.symbol).Nodup)
    (hcontent : HashesContent input.changes) :
    (∀ current changes, input.current.Perm current → input.changes.Perm changes →
      reconstructIndexMembership { input with current, changes } = reconstructIndexMembership input)
    ∧ ∃ lost, Accounted input lost (reconstructIndexMembership input) :=
  ⟨fun _ _ hcurrent hchanges => (reconstruct_eq_of_perm hcurrent hchanges hsymbols hcontent).symm,
    accounted hsymbols⟩

/-- One replacement, an orphan, and an issuer that left the day after it was added. -/
def replacementInput : ReconstructionInput where
  current := [⟨"NEW", "New Issuer", none, none⟩]
  changes := [⟨"replaced", 100, some "NEW", none, some "OLD", none⟩,
    ⟨"joined", 50, some "OLD", none, none, none⟩,
    ⟨"orphan", 60, some "GONE", some "Gone Issuer", none, none⟩,
    ⟨"removed", 21, none, none, some "BRIEF", none⟩,
    ⟨"brief", 20, some "BRIEF", none, none, none⟩]
  symbolChanges := []
  asOf := 200

theorem reconstruction_accounted_replacement :
    ∃ lost, Accounted replacementInput lost (reconstructIndexMembership replacementInput) :=
  (reconstruction_accounted (by decide) (by unfold HashesContent; decide)).2

end FactorSage.IndexMembership
