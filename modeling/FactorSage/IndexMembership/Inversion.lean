import FactorSage.IndexMembership.CleanHistory

/-!
# The backward walk inverts every clean history

`Retraces` holds between two dates of the walk: the walker of every member carries the end its stint
will have, the walkers that left and the reports are those of the stints already undone, and what is
left to find are the stints that ended before. A date keeps it, and the start of the log leaves
nothing to find.
-/

namespace FactorSage.IndexMembership

open ComparatorSort

/-- The walk, back at a history with the dates before it still to come. -/
structure Retraces (log : List IndexChange) (total : List Stint) (dates : List ℤ)
    (history : History) (done : List Stint) (pairs : List Pair) (walk : Walk) : Prop where
  members : history.members.Perm (pairs.map fun pair => pair.1.opened)
  active : (pairs.map Prod.snd).Perm walk.active
  tied : ∀ pair ∈ pairs, Tied pair.1 pair.2
  keys : (walk.active.map Walker.key).Nodup
  fresh : ∀ walker ∈ walk.active, ∀ change ∈ log, change.effectiveDate ∈ dates →
    walker.key ≠ "REMOVAL:" ++ change.contentHash
  stints : (done ++ (pairs.map Prod.fst ++ history.ended)).Perm total
  left : walk.left.filterMap Walker.entry = done.filterMap Stint.entry
  anomalies : walk.anomalies = done.filterMap Stint.report

section Walk

variable {log sorted : List IndexChange} {total : List Stint} {front : List ℤ} {date : ℤ}
  {history : History}

theorem crossDate_plain (walk : Walk) :
    crossDate (sorted.map plain) [] walk date
      = ((logOn sorted date).map plain).foldl (applyRemoval date)
          (((logOn sorted date).map plain).foldl (applyAddition date) walk) := by
  have hday : (sorted.map plain).filter (fun change => change.effectiveDate = date)
      = (logOn sorted date).map plain := by
    rw [List.filter_map]
    rfl
  unfold crossDate
  dsimp only
  rw [hday]
  rfl

/-- **One date undone.** -/
theorem Retraces.crossDate {done : List Stint} {pairs : List Pair} {walk : Walk}
    (h : Retraces log total (front ++ [date]) (history.cross log date) done pairs walk)
    (hsorted : sorted.Perm log) (hhashes : (log.map IndexChange.contentHash).Nodup)
    (hclean : CleanDay log history date) (htickers : history.tickers.Nodup)
    (hopened : ∀ member ∈ history.members, member.opened = member) (hdate : date ∉ front) :
    ∃ done' pairs', Retraces log total front history done' pairs'
      (crossDate (sorted.map plain) [] walk date) := by
  set day := logOn sorted date with hday
  have hperm : day.Perm (logOn log date) := hsorted.filter _
  have hdates : ∀ change ∈ day, change.effectiveDate = date := fun change hchange =>
    of_decide_eq_true (List.mem_filter.mp hchange).2
  have hmemLog : ∀ change ∈ day, change ∈ log := fun change hchange =>
    hsorted.subset (List.mem_filter.mp hchange).1
  have hremovedPerm : (removedTickers day).Perm (removedTickers (logOn log date)) :=
    hperm.filterMap _
  have hremoved : (removedTickers day).Nodup := hremovedPerm.nodup_iff.mpr hclean.removed
  have hheld : ∀ ticker ∈ removedTickers day, ticker ∈ history.members.map Stint.ticker :=
    fun ticker hticker => hclean.held ticker (hremovedPerm.subset hticker)
  -- the pairs of the members that stay, and of those that joined
  have hmembers : ((history.members.filter fun member =>
      member.ticker ∉ removedTickers (logOn log date)) ++ day.filterMap joinedBy).Perm
      (pairs.map fun pair => pair.1.opened) :=
    ((hperm.filterMap joinedBy).append_left _).trans h.members
  obtain ⟨split, hsplit, hmap⟩ := exists_perm_of_map_perm hmembers
  obtain ⟨rest, taken, rfl, hrest, htaken⟩ := List.map_eq_append_iff.mp hmap
  have hswap : (taken ++ rest).Perm pairs := List.perm_append_comm.trans hsplit
  have htied : ∀ pair ∈ taken ++ rest, Tied pair.1 pair.2 := fun pair hpair =>
    h.tied pair (hswap.subset hpair)
  have hdistinct : ((taken ++ rest).map fun pair => pair.1.ticker).Nodup := by
    have hall : (pairs.map fun pair => pair.1.ticker).Perm (history.cross log date).tickers := by
      refine ((h.members.map Stint.ticker).trans (List.Perm.of_eq ?_)).symm
      rw [List.map_map]
      rfl
    exact ((hswap.map _).trans hall).nodup_iff.mpr hclean.distinct
  obtain ⟨hactive, hleft, hanomalies⟩ := foldl_applyAddition_clean day hdates
    (fun pair hpair => htied pair (List.mem_append_left _ hpair))
    (fun pair hpair => htied pair (List.mem_append_right _ hpair)) htaken
    ((hswap.map Prod.snd).trans h.active) h.keys hdistinct
  set added := (day.map plain).foldl (applyAddition date) walk with hadded
  have hwalker : ∀ walker ∈ added.active, ∃ pair ∈ rest, pair.2 = walker := fun walker hwalker =>
    List.mem_map.mp (hactive.symm.subset hwalker)
  have hkept : ∀ walker ∈ added.active, walker ∈ walk.active := by
    intro walker hmem
    obtain ⟨pair, hpair, rfl⟩ := hwalker walker hmem
    exact ((hswap.map Prod.snd).trans h.active).subset
      (List.mem_map_of_mem (List.mem_append_right _ hpair))
  have hfree : ∀ walker ∈ added.active, walker.ticker ∉ removedTickers day := by
    intro walker hmem
    obtain ⟨pair, hpair, rfl⟩ := hwalker walker hmem
    have hstint : pair.1.opened ∈ history.members.filter fun member =>
        member.ticker ∉ removedTickers (logOn log date) :=
      hrest ▸ List.mem_map_of_mem hpair
    have hfree := of_decide_eq_true (List.mem_filter.mp hstint).2
    rw [(htied pair (List.mem_append_right _ hpair)).ticker]
    exact fun hticker => hfree (hremovedPerm.subset hticker)
  have hcross : IndexMembership.crossDate (sorted.map plain) [] walk date
      = { added with active := added.active ++ removedOn date day } := by
    rw [crossDate_plain]
    exact foldl_applyRemoval_clean day hremoved hfree
  rw [hcross]
  refine ⟨done ++ taken.map Prod.fst, rest ++ removedPairs history.members date day, ?_, ?_,
    fun pair hpair => ?_, ?_, ?_, ?_, ?_, ?_⟩
  · have hout : ((removedPairs history.members date day).map fun pair => pair.1.opened).Perm
        (history.members.filter fun member =>
          ¬ member.ticker ∉ removedTickers (logOn log date)) := by
      have hfst : ((removedPairs history.members date day).map fun pair => pair.1.opened)
          = (day.filterMap (endedBy history.members)).map Stint.opened := by
        rw [← @map_fst_removedPairs _ date, List.map_map]
        rfl
      rw [hfst]
      refine (perm_endedBy htickers hremoved hheld hopened).trans (List.Perm.of_eq ?_)
      refine List.filter_congr fun member _ => ?_
      rw [decide_eq_decide, not_not]
      exact hremovedPerm.mem_iff
    rw [List.map_append, hrest]
    refine (List.filter_append_perm (fun member : Stint =>
      decide (member.ticker ∉ removedTickers (logOn log date))) history.members).symm.trans ?_
    refine List.Perm.append_left _ (List.Perm.trans (List.Perm.of_eq ?_) hout.symm)
    refine List.filter_congr fun member _ => ?_
    simp only [decide_not]
  · rw [List.map_append, map_snd_removedPairs hheld]
    exact hactive.append_right _
  · rcases List.mem_append.mp hpair with hpair | hpair
    · exact htied pair (List.mem_append_right _ hpair)
    · exact tied_removedPairs hdates pair hpair
  · change ((added.active ++ removedOn date day).map Walker.key).Nodup
    rw [List.map_append, List.nodup_append]
    refine ⟨?_, nodup_key_removedOn ?_, ?_⟩
    · have hall : ((taken ++ rest).map Prod.snd).Perm walk.active :=
        (hswap.map Prod.snd).trans h.active
      have hnodup := (hall.map Walker.key).nodup_iff.mpr h.keys
      rw [List.map_append, List.map_append] at hnodup
      exact (hactive.map Walker.key).nodup_iff.mp (List.nodup_append.mp hnodup).2.1
    · exact (List.filter_sublist.map _).nodup
        ((hsorted.map IndexChange.contentHash).nodup_iff.mpr hhashes)
    · intro key hkey other hother heq
      obtain ⟨walker, hmem, rfl⟩ := List.mem_map.mp hkey
      obtain ⟨removed, hnew, rfl⟩ := List.mem_map.mp hother
      obtain ⟨change, hchange, hname⟩ := key_removedOn hnew
      refine h.fresh walker (hkept walker hmem) change (hmemLog change hchange) ?_
        (heq.trans hname)
      rw [hdates change hchange]
      exact List.mem_append_right _ List.mem_cons_self
  · intro walker hmem change hchange hfront
    rcases List.mem_append.mp hmem with hmem | hmem
    · exact h.fresh walker (hkept walker hmem) change hchange (List.mem_append_left _ hfront)
    · intro heq
      obtain ⟨begun, hbegun, hname⟩ := key_removedOn hmem
      have hsame : begun = change := List.inj_on_of_nodup_map hhashes (hmemLog begun hbegun) hchange
        (append_left_injective "REMOVAL:" (hname.symm.trans heq))
      rw [← hsame, hdates begun hbegun] at hfront
      exact hdate hfront
  · refine List.Perm.trans ?_ h.stints
    have hended : (history.ended ++ day.filterMap (endedBy history.members)).Perm
        (history.cross log date).ended :=
      (hperm.filterMap _).append_left _
    have hfst : ((taken ++ rest).map Prod.fst).Perm (pairs.map Prod.fst) := hswap.map _
    rw [List.map_append, map_fst_removedPairs, List.append_assoc]
    refine List.Perm.append_left _ (List.Perm.trans ?_ (hfst.append hended))
    rw [List.map_append, List.append_assoc, List.append_assoc]
    refine List.Perm.append_left _ (List.Perm.append_left _ List.perm_append_comm)
  · change added.left.filterMap Walker.entry = _
    rw [hleft, h.left, List.filterMap_append, List.filterMap_map]
    rfl
  · change added.anomalies = _
    rw [hanomalies, h.anomalies, List.filterMap_append, List.filterMap_map]
    rfl

/-- Every date undone, from a date of the log to its start. -/
theorem Retraces.foldl_crossDate {initial : List String} (hclean : CleanHistory log initial)
    (hsorted : sorted.Perm log) (hhashes : (log.map IndexChange.contentHash).Nodup)
    (front : List ℤ) :
    ∀ {back : List ℤ} {done : List Stint} {pairs : List Pair} {walk : Walk},
      logDates log = front ++ back →
      Retraces log total front (historyAfter log initial front) done pairs walk →
      ∃ done' pairs', Retraces log total [] (History.start initial) done' pairs'
        (front.reverse.foldl (IndexMembership.crossDate (sorted.map plain) []) walk) := by
  induction front using List.reverseRecOn with
  | nil =>
    intro back done pairs walk _ h
    exact ⟨done, pairs, h⟩
  | append_singleton front date ih =>
    intro back done pairs walk hdates h
    rw [List.append_assoc] at hdates
    rw [historyAfter_snoc] at h
    have hnew : date ∉ front := by
      have hnodup := nodup_logDates log
      rw [hdates] at hnodup
      exact fun hmem => (List.nodup_append.mp hnodup).2.2 date hmem date List.mem_cons_self rfl
    obtain ⟨done', pairs', h'⟩ := h.crossDate hsorted hhashes (hclean.days front date back hdates)
      (hclean.nodup_tickers hdates) (opened_historyAfter log initial front) hnew
    rw [List.reverse_append]
    exact ih hdates h'

end Walk

/-! ### The start of the walk -/

section Opening

variable {input : ReconstructionInput}

theorem firstByHash_of_nodup {log : List IndexChange}
    (h : (log.map IndexChange.contentHash).Nodup) : firstByHash log = log := by
  induction log with
  | nil => rfl
  | cons change log ih =>
    obtain ⟨hnew, hrest⟩ := List.nodup_cons.mp h
    unfold firstByHash
    rw [ih hrest, List.filter_eq_self.mpr]
    intro other hother
    exact decide_eq_true fun heq => hnew (heq ▸ List.mem_map_of_mem hother)

section

variable (hfirst : ∀ member ∈ input.current, member.dateFirstAdded = none)

include hfirst

/-- Nothing is known of any first-added date. -/
theorem evidence_eq_nil (changes : List IndexChange) : evidence input.current input.symbolChanges changes = [] := by
  have hempty : firstAdded input.current = OrderedMap.empty := by
    unfold firstAdded
    rw [List.filterMap_eq_nil_iff.mpr fun member hmember => by rw [hfirst member hmember]; rfl]
    rfl
  refine List.filterMap_eq_nil_iff.mpr fun change _ => ?_
  unfold firstAddedOf
  rw [hempty]
  cases change.addedTicker <;> rfl

theorem appliedChanges_clean (hhashes : (input.changes.map IndexChange.contentHash).Nodup)
    (hdates : ∀ change ∈ input.changes, change.effectiveDate ≤ input.asOf) :
    appliedChanges input = (sortBy compareChanges input.changes).map plain := by
  unfold appliedChanges dedupeChanges
  dsimp only
  rw [firstByHash_of_nodup hhashes, evidence_eq_nil hfirst]
  refine List.filter_eq_self.mpr fun change hchange => ?_
  obtain ⟨listed, hlisted, rfl⟩ := List.mem_map.mp hchange
  exact decide_eq_true (hdates listed (mem_sortBy.mp hlisted))

theorem openingAnomalies_clean (hdates : ∀ change ∈ input.changes, change.effectiveDate ≤ input.asOf) :
    openingAnomalies input = [] := by
  unfold openingAnomalies
  dsimp only
  rw [evidence_eq_nil hfirst]
  refine List.append_eq_nil_iff.mpr ⟨rfl, ?_⟩
  rw [List.map_eq_nil_iff, List.filter_eq_nil_iff]
  intro change hchange
  obtain ⟨listed, hlisted, rfl⟩ := List.mem_map.mp hchange
  rw [decide_eq_true_iff]
  exact not_lt.mpr (hdates listed (mem_of_mem_firstByHash (mem_sortBy.mp hlisted)))

omit hfirst in
/-- The walk crosses the dates of the log, newest first. -/
theorem walkedDates_plain {log sorted : List IndexChange} (hsorted : sorted.Perm log) :
    walkedDates (sorted.map plain) [] = (logDates log).reverse := by
  have hall : ((sorted.map plain).map fun change => change.effectiveDate)
      ++ ([] : List SymbolChange).map SymbolChange.date = sorted.map IndexChange.effectiveDate := by
    rw [List.map_map, List.map_nil, List.append_nil]
    rfl
  unfold walkedDates logDates
  rw [hall]
  refine @List.Perm.eq_of_pairwise ℤ (· ≥ ·) _ _ (fun a b _ _ hab hba => le_antisymm hba hab)
    (List.pairwise_insertionSort _ _) ?_ ?_
  · rw [List.pairwise_reverse]
    exact List.pairwise_insertionSort _ _
  · refine (List.perm_insertionSort _ _).trans (List.Perm.trans ?_ (List.reverse_perm _).symm)
    exact ((hsorted.map _).dedup).trans (List.perm_insertionSort _ _).symm

/-- At the end of the log every member is listed, and its walker is open. -/
theorem retraces_openingWalk {initial : List String}
    (hdates : ∀ change ∈ input.changes, change.effectiveDate ≤ input.asOf)
    (hclean : CleanHistory input.changes initial)
    (hcurrent : (input.current.map CurrentConstituent.symbol).Perm
      (finalHistory input.changes initial).tickers) :
    ∃ pairs, Retraces input.changes (finalHistory input.changes initial).stints
      (logDates input.changes) (finalHistory input.changes initial) [] pairs
      (openingWalk input) := by
  set final := finalHistory input.changes initial with hfinal
  have hopened := opened_historyAfter input.changes initial (logDates input.changes)
  -- the current constituents, in the order of the members they are
  obtain ⟨listed, hlisted, hsymbols⟩ := exists_perm_of_map_perm hcurrent.symm
  have hsame : List.Forall₂ (fun (member : Stint) (constituent : CurrentConstituent) =>
      constituent.symbol = member.ticker) final.members listed := by
    have heq : List.Forall₂ Eq (listed.map CurrentConstituent.symbol)
        (final.members.map Stint.ticker) := by
      rw [hsymbols]
      exact List.forall₂_same.mpr fun _ _ => rfl
    rw [List.forall₂_map_left_iff, List.forall₂_map_right_iff] at heq
    exact heq.flip
  obtain ⟨hlength, hzip⟩ := List.forall₂_iff_zip.mp hsame
  have hwalkers : ((listed.map currentWalker)).Perm (openingWalk input).active :=
    (hlisted.trans (sortBy_perm _ _).symm).map currentWalker
  have hfst : (final.members.zip (listed.map currentWalker)).map Prod.fst = final.members :=
    List.map_fst_zip (by rw [List.length_map, hlength])
  have hsnd : (final.members.zip (listed.map currentWalker)).map Prod.snd
      = listed.map currentWalker :=
    List.map_snd_zip (by rw [List.length_map, hlength])
  have hkey : ∀ walker ∈ (openingWalk input).active,
      ∃ symbol, walker.key = "CURRENT:" ++ symbol := by
    intro walker hwalker
    obtain ⟨member, -, rfl⟩ := List.mem_map.mp hwalker
    exact ⟨member.symbol, rfl⟩
  refine ⟨final.members.zip (listed.map currentWalker), ?_,
    (List.Perm.of_eq hsnd).trans hwalkers, fun pair hpair => ?_, ?_,
    fun walker hwalker change _ _ => ?_, ?_, rfl, openingAnomalies_clean hfirst hdates⟩
  · refine List.Perm.of_eq ?_
    have hmap : (final.members.zip (listed.map currentWalker)).map (fun pair => pair.1.opened)
        = final.members.map Stint.opened := by
      rw [← hfst, List.map_map, hfst]
      rfl
    rw [hmap]
    exact ((List.map_congr_left hopened).trans (List.map_id _)).symm
  · obtain ⟨member, walker⟩ := pair
    have hmember := (List.of_mem_zip hpair).1
    rw [List.zip_map_right] at hpair
    obtain ⟨⟨other, constituent⟩, hmem, heq⟩ := List.mem_map.mp hpair
    obtain ⟨rfl, rfl⟩ := Prod.mk.inj heq
    have hsymbol : constituent.symbol = other.ticker := hzip hmem
    have hleft : other.left = none := (congrArg Stint.left (hopened other hmember)).symm
    refine ⟨hsymbol, hsymbol, rfl, ?_, rfl, ?_, rfl⟩
    · change none = other.lastDay
      unfold Stint.lastDay
      rw [hleft]
      rfl
    · change none = other.left.map Prod.snd
      rw [hleft]
      rfl
  · have hkeys : ((openingWalk input).active.map Walker.key).Perm
        ((finalHistory input.changes initial).tickers.map ("CURRENT:" ++ ·)) := by
      refine (hwalkers.symm.map Walker.key).trans (List.Perm.of_eq ?_)
      rw [← hfinal, ← hsymbols, List.map_map, List.map_map]
      rfl
    have hend := (List.append_nil (logDates input.changes)).symm
    exact hkeys.nodup_iff.mpr ((hclean.nodup_tickers hend).map (append_left_injective "CURRENT:"))
  · obtain ⟨symbol, hsymbol⟩ := hkey walker hwalker
    rw [hsymbol]
    exact key_ne (by decide : 'C' ≠ 'R') rfl rfl
  · rw [hfst, List.nil_append]
    exact List.perm_append_comm

end

/-! ### The end of the walk -/

/-- The constituents of a walk are the entries of its walkers. -/
theorem perm_constituentsOf {walk : Walk}
    (hsingle : ∀ walker ∈ endWalkers walk, walker.periods.length ≤ 1) :
    ((constituentsOf walk).map fun constituent => (constituent.ticker, constituent.periods)).Perm
      ((endWalkers walk).filterMap Walker.entry) := by
  unfold constituentsOf
  refine ((sortBy_perm _ _).map _).trans (List.Perm.of_eq ?_)
  change (((endWalkers walk).filter _).map toConstituent).map _ = _
  rw [List.map_map]
  revert hsingle
  induction endWalkers walk with
  | nil => exact fun _ => rfl
  | cons walker walkers ih =>
    intro hsingle
    have hrest := ih fun other hother => hsingle other (List.mem_cons_of_mem _ hother)
    rw [List.filter_cons, List.filterMap_cons]
    unfold Walker.entry
    by_cases hperiods : walker.periods = []
    · rw [if_pos hperiods, if_neg (by simp [hperiods])]
      exact hrest
    · rw [if_neg hperiods, if_pos (decide_eq_true (List.length_pos_iff.mpr hperiods)),
        List.map_cons]
      congr 1
      exact Prod.ext rfl (periods_toConstituent (hsingle walker List.mem_cons_self))

/-- The members at the start of the log were there before it. -/
theorem entry_beforeLog {pair : Pair} (htied : Tied pair.1 pair.2)
    (hjoined : pair.1.joined = none) :
    Walker.entry (beforeLog pair.2) = pair.1.entry ∧ pair.1.report = none := by
  have hempty : pair.1.isEmpty = false := by
    unfold Stint.isEmpty
    rw [hjoined]
    simp
  have hperiods : (beforeLog pair.2).periods = [pair.1.period] := by
    unfold beforeLog Stint.period
    dsimp only
    rw [htied.periods, htied.openEnd, htied.openEndLogDate, htied.openEndHash, hjoined]
    rfl
  unfold Walker.entry Stint.entry Stint.report
  rw [hperiods, hempty]
  refine ⟨?_, rfl⟩
  rw [if_neg (List.cons_ne_nil _ _)]
  change some (pair.2.latestTicker, _) = _
  rw [htied.latestTicker]
  rfl

end Opening

section Result

variable {input : ReconstructionInput} {initial : List String}
  (hfirst : ∀ member ∈ input.current, member.dateFirstAdded = none)
  (hhashes : (input.changes.map IndexChange.contentHash).Nodup)
  (hrenames : input.symbolChanges = [])
  (hdates : ∀ change ∈ input.changes, change.effectiveDate ≤ input.asOf)
  (hclean : CleanHistory input.changes initial)
  (hcurrent : (input.current.map CurrentConstituent.symbol).Perm
    (finalHistory input.changes initial).tickers)

include hfirst hhashes hrenames hdates hclean hcurrent

/-- The walk ends at the start of the history. -/
theorem retraces_walkBack :
    ∃ done pairs, Retraces input.changes (finalHistory input.changes initial).stints []
      (History.start initial) done pairs (walkBack input) := by
  obtain ⟨pairs, hopening⟩ := retraces_openingWalk hfirst hdates hclean hcurrent
  have hsorted := sortBy_perm compareChanges input.changes
  have hnone : appliedRenames input = [] := by
    unfold appliedRenames
    rw [hrenames]
    rfl
  unfold walkBack
  rw [appliedChanges_clean hfirst hhashes hdates, hnone, walkedDates_plain hsorted]
  exact Retraces.foldl_crossDate hclean hsorted hhashes (logDates input.changes)
    (List.append_nil _).symm hopening

/-- **The backward walk inverts every clean history.** -/
theorem reconstruct_inverts :
    ((reconstructIndexMembership input).constituents.map fun constituent =>
        (constituent.ticker, constituent.periods)).Perm
      ((finalHistory input.changes initial).stints.filterMap Stint.entry)
    ∧ (reconstructIndexMembership input).anomalies.Perm
      ((finalHistory input.changes initial).stints.filterMap Stint.report) := by
  -- the walk ends with the stints it closed, and pairs of the members from before the log
  obtain ⟨done, pairs, h⟩ := retraces_walkBack hfirst hhashes hrenames hdates hclean hcurrent
  have hstints : (done ++ pairs.map Prod.fst).Perm (finalHistory input.changes initial).stints := by
    have hall := h.stints
    change (done ++ (pairs.map Prod.fst ++ [])).Perm _ at hall
    rwa [List.append_nil] at hall
  have hjoined : ∀ pair ∈ pairs, pair.1.joined = none := by
    intro pair hpair
    have hmem := h.members.symm.subset (List.mem_map_of_mem (f := fun pair => pair.1.opened) hpair)
    obtain ⟨ticker, -, heq⟩ := List.mem_map.mp hmem
    exact (congrArg Stint.joined heq).symm
  have hactive : ((walkBack input).active.map beforeLog).filterMap Walker.entry
      |>.Perm ((pairs.map Prod.fst).filterMap Stint.entry) := by
    refine ((h.active.symm.map beforeLog).filterMap Walker.entry).trans (List.Perm.of_eq ?_)
    rw [List.map_map, List.filterMap_map, List.filterMap_map]
    exact List.filterMap_congr fun pair hpair =>
      (entry_beforeLog (h.tied pair hpair) (hjoined pair hpair)).1
  have hentries : ((endWalkers (walkBack input)).filterMap Walker.entry).Perm
      ((finalHistory input.changes initial).stints.filterMap Stint.entry) := by
    unfold endWalkers
    rw [List.filterMap_append, h.left]
    refine (hactive.append_left _).trans ?_
    rw [← List.filterMap_append]
    exact hstints.filterMap Stint.entry
  constructor
  · refine (perm_constituentsOf fun walker hwalker => ?_).trans hentries
    by_cases hempty : walker.periods = []
    · rw [hempty]
      exact Nat.zero_le 1
    · have hentry : Walker.entry walker = some (walker.latestTicker, walker.periods) :=
        if_neg hempty
      have hmem := hentries.subset (List.mem_filterMap.mpr ⟨walker, hwalker, hentry⟩)
      obtain ⟨stint, -, hstint⟩ := List.mem_filterMap.mp hmem
      unfold Stint.entry at hstint
      split at hstint
      · cases hstint
      · obtain ⟨-, hperiods⟩ := Prod.mk.inj (Option.some.inj hstint)
        rw [← hperiods]
        exact le_rfl
  · have hmismatch : ∀ constituents logStart,
        input.current.filterMap (mismatchOf constituents logStart) = [] := by
      intro constituents logStart
      refine List.filterMap_eq_nil_iff.mpr fun member hmember => ?_
      unfold mismatchOf
      rw [hfirst member hmember]
      rfl
    have hreports : (pairs.map Prod.fst).filterMap Stint.report = [] := by
      rw [List.filterMap_map]
      refine List.filterMap_eq_nil_iff.mpr fun pair hpair => ?_
      exact (entry_beforeLog (h.tied pair hpair) (hjoined pair hpair)).2
    unfold reconstructIndexMembership
    dsimp only
    rw [hmismatch, List.append_nil, h.anomalies]
    refine (sortBy_perm _ _).trans (List.Perm.trans (List.Perm.of_eq ?_)
      (hstints.filterMap Stint.report))
    rw [List.filterMap_append, hreports, List.append_nil]

end Result

/-- A ticker two issuers held in turn, a stint without a day, and a stint still open. -/
def reusedInput : ReconstructionInput where
  current := [⟨"NEW", "New Issuer", none, none⟩, ⟨"KEPT", "Kept Issuer", none, none⟩]
  changes := [⟨"second", 50, some "TWICE", none, some "OLD", none⟩,
    ⟨"brief", 51, some "NEW", none, some "TWICE", none⟩,
    ⟨"first", 20, some "OLD", none, some "TWICE", none⟩]
  symbolChanges := []
  asOf := 100

theorem cleanHistory_reusedInput : CleanHistory reusedInput.changes ["TWICE", "KEPT"] := by
  refine ⟨by decide, fun front date back hdates => ?_⟩
  have hlist : logDates reusedInput.changes = [20, 50, 51] := by decide
  rw [hlist] at hdates
  rcases front with _ | ⟨first, _ | ⟨second, _ | ⟨third, _ | ⟨fourth, front⟩⟩⟩⟩
  · obtain ⟨rfl, rfl⟩ := List.cons.inj hdates
    exact ⟨by decide +kernel, by decide +kernel, by decide +kernel⟩
  · rw [List.cons_append, List.nil_append, List.cons.injEq, List.cons.injEq] at hdates
    obtain ⟨rfl, rfl, rfl⟩ := hdates
    exact ⟨by decide +kernel, by decide +kernel, by decide +kernel⟩
  · rw [List.cons_append, List.cons_append, List.nil_append, List.cons.injEq, List.cons.injEq,
      List.cons.injEq] at hdates
    obtain ⟨rfl, rfl, rfl, rfl⟩ := hdates
    exact ⟨by decide +kernel, by decide +kernel, by decide +kernel⟩
  · exact absurd (congrArg List.length hdates) (by simp)
  · exact absurd (congrArg List.length hdates) (by simp)

theorem reconstruct_inverts_reused :
    ((reconstructIndexMembership reusedInput).constituents.map fun constituent =>
        (constituent.ticker, constituent.periods)).Perm
      [("TWICE", [⟨none, none, some 19, none, .START_BEFORE_LOG, none, some "first", none⟩]),
        ("OLD", [⟨some 21, some 20, some 49, none, .CONFIRMED, some "first", some "second",
          some .EXACT_TICKER⟩]),
        ("KEPT", [⟨none, none, none, none, .START_BEFORE_LOG, none, none, none⟩]),
        ("NEW", [⟨some 52, some 51, none, none, .CONFIRMED, some "brief", none,
          some .EXACT_TICKER⟩])]
    ∧ (reconstructIndexMembership reusedInput).anomalies.Perm
      [.NO_CONFIRMED_SESSION 50 "TWICE" "second"] :=
  @reconstruct_inverts reusedInput ["TWICE", "KEPT"] (by decide) (by decide) rfl (by decide)
    cleanHistory_reusedInput (by decide +kernel)

end FactorSage.IndexMembership
