import FactorSage.IndexMembership.Account
import FactorSage.IndexMembership.ForwardHistory

/-!
# One date of a clean history, walked backward

The additions come first: each names exactly one member, whose walk it ends with the stint's one
period, or with a report where no day is left. The removals come last: each begins the walk of the
member it took out, and no other member holds the ticker.
-/

namespace FactorSage.IndexMembership

open ComparatorSort

/-- A permutation of an image is the image of a permutation. -/
theorem exists_perm_of_map_perm {α β : Type*} {f : α → β} {l : List α} {c : List β}
    (h : c.Perm (l.map f)) : ∃ l' : List α, l'.Perm l ∧ l'.map f = c := by
  have himage : List.Forall₂ (fun b a => b = f a) (l.map f) l := by
    rw [List.forall₂_map_left_iff]
    exact List.forall₂_same.mpr fun _ _ => rfl
  obtain ⟨l', hmap, hperm⟩ := List.perm_comp_forall₂ h himage
  refine ⟨l', hperm, ?_⟩
  clear himage hperm h
  induction hmap with
  | nil => rfl
  | cons hhead _ ih => rw [List.map_cons, ih, hhead]

/-- A change whose date nothing refines. -/
def plain (change : IndexChange) : EffectiveChange :=
  { change with logDate := change.effectiveDate, startConfirmed := false }

theorem additionStart_plain (change : IndexChange) :
    additionStart (plain change) = change.effectiveDate + 1 := rfl

theorem startLogDate_plain (change : IndexChange) :
    startLogDate (plain change) = some change.effectiveDate := by
  unfold startLogDate
  rw [additionStart_plain]
  exact if_neg (ne_of_lt (Int.lt_succ change.effectiveDate))

/-- What a finished walker leaves behind. -/
def Walker.entry (walker : Walker) : Option (String × List ReconstructedPeriod) :=
  if walker.periods = [] then none else some (walker.latestTicker, walker.periods)

/-- A member's walker, with the end its stint will have. -/
structure Tied (stint : Stint) (walker : Walker) : Prop where
  ticker : walker.ticker = stint.ticker
  latestTicker : walker.latestTicker = stint.ticker
  periods : walker.periods = []
  openEnd : walker.openEnd = stint.lastDay
  openEndLogDate : walker.openEndLogDate = none
  openEndHash : walker.openEndHash = stint.left.map Prod.snd
  openQuality : walker.openQuality = .CONFIRMED

abbrev Pair := Stint × Walker

/-! ### The additions of a date -/

section Additions

variable {change : IndexChange} {ticker : String}

/-- One member holds the ticker: it is the exact match, and no other is near. -/
theorem matchAddition_of_holder {active : List Walker} {walker : Walker}
    (h : active.filter (fun other => other.ticker = ticker) = [walker]) :
    matchAddition active (plain change) ticker = some ⟨walker, .EXACT_TICKER, none⟩ := by
  unfold matchAddition tiers
  rw [h, List.find?_cons]
  rfl

theorem noConfirmedSession_iff {pair : Pair} (htied : Tied pair.1 pair.2)
    (hjoined : pair.1.joined = some (change.effectiveDate, change.contentHash)) :
    noConfirmedSession pair.2 (plain change) = pair.1.isEmpty := by
  unfold noConfirmedSession Stint.isEmpty
  rw [htied.openEnd, hjoined, additionStart_plain]
  simp

/-- An addition ends the walk of the member it names. -/
theorem applyAddition_clean {date : ℤ} {walk : Walk} {pair : Pair} {others : List Walker}
    (hpresent : present change.addedTicker = some ticker)
    (hstint : pair.1.opened = ⟨ticker, some (change.effectiveDate, change.contentHash), none⟩)
    (hdate : change.effectiveDate = date) (htied : Tied pair.1 pair.2)
    (hactive : (pair.2 :: others).Perm walk.active)
    (hkeys : (walk.active.map Walker.key).Nodup)
    (hothers : ∀ other ∈ others, other.ticker ≠ ticker) :
    others.Perm (applyAddition date walk (plain change)).active
      ∧ (applyAddition date walk (plain change)).left.filterMap Walker.entry
        = walk.left.filterMap Walker.entry ++ pair.1.entry.toList
      ∧ (applyAddition date walk (plain change)).anomalies
        = walk.anomalies ++ pair.1.report.toList := by
  have hticker : pair.1.ticker = ticker := congrArg Stint.ticker hstint
  have hjoined : pair.1.joined = some (change.effectiveDate, change.contentHash) :=
    congrArg Stint.joined hstint
  -- the walker tied to the stint is the only one that holds the ticker
  have hholder : walk.active.filter (fun other => other.ticker = ticker) = [pair.2] := by
    have hperm := hactive.filter fun other => other.ticker = ticker
    have hnone : others.filter (fun other => other.ticker = ticker) = [] := by
      refine List.filter_eq_nil_iff.mpr fun other hother => ?_
      rw [decide_eq_true_iff]
      exact hothers other hother
    rw [List.filter_cons, if_pos (decide_eq_true (htied.ticker.trans hticker)), hnone] at hperm
    exact List.perm_singleton.mp hperm.symm
  have hmem : pair.2 ∈ walk.active := hactive.subset List.mem_cons_self
  have hrest : others.Perm (walk.active.filter fun other => other.key ≠ pair.2.key) :=
    (hactive.trans (perm_cons_filter_key hkeys hmem)).cons_inv
  have hsession := noConfirmedSession_iff htied hjoined
  unfold applyAddition
  change _ ∧ _ ∧ _
  rw [show present (plain change).addedTicker = some ticker from hpresent]
  dsimp only
  rw [matchAddition_of_holder hholder]
  dsimp only
  -- a stint without a session is reported, any other leaves its period
  cases hempty : pair.1.isEmpty with
  | true =>
    rw [hsession, hempty, if_pos rfl]
    refine ⟨hrest, ?_, ?_⟩
    · change (walk.left ++ [pair.2]).filterMap Walker.entry = _
      have hnone : Walker.entry pair.2 = none := if_pos htied.periods
      unfold Stint.entry
      rw [hempty, if_pos rfl, List.filterMap_append, List.filterMap_cons, hnone]
      rfl
    · change walk.anomalies ++ [] ++ [.NO_CONFIRMED_SESSION date ticker change.contentHash] = _
      unfold Stint.report
      rw [hempty, if_pos rfl, hjoined, hticker, List.append_nil, hdate]
      rfl
  | false =>
    rw [hsession, hempty, if_neg (by decide)]
    refine ⟨hrest, ?_, ?_⟩
    · change (walk.left ++ [{ pair.2 with
        periods := pair.2.periods
          ++ [startedPeriod pair.2 .EXACT_TICKER (plain change)] }]).filterMap Walker.entry = _
      have hperiod : startedPeriod pair.2 .EXACT_TICKER (plain change) = pair.1.period := by
        unfold startedPeriod Stint.period
        rw [startLogDate_plain, additionStart_plain, htied.openEnd, htied.openEndLogDate,
          htied.openEndHash, htied.openQuality, hjoined]
        rfl
      have hentry : Walker.entry { pair.2 with periods := [pair.1.period] }
          = some (pair.1.ticker, [pair.1.period]) := by
        unfold Walker.entry
        rw [if_neg (List.cons_ne_nil _ _)]
        change some (pair.2.latestTicker, _) = _
        rw [htied.latestTicker]
      unfold Stint.entry
      rw [hempty, List.filterMap_append, htied.periods, List.nil_append, hperiod,
        List.filterMap_cons, hentry]
      rfl
    · change walk.anomalies ++ [] = _
      unfold Stint.report
      rw [hempty]
      rfl

/-- The additions of a date end the walks of the members that joined on it. -/
theorem foldl_applyAddition_clean {date : ℤ} {rest : List Pair} (day : List IndexChange) :
    ∀ {taken : List Pair} {walk : Walk},
      (∀ change ∈ day, change.effectiveDate = date) →
      (∀ pair ∈ taken, Tied pair.1 pair.2) → (∀ pair ∈ rest, Tied pair.1 pair.2) →
      taken.map (fun pair => pair.1.opened) = day.filterMap joinedBy →
      ((taken ++ rest).map Prod.snd).Perm walk.active →
      (walk.active.map Walker.key).Nodup →
      ((taken ++ rest).map fun pair => pair.1.ticker).Nodup →
      (rest.map Prod.snd).Perm
          ((day.map plain).foldl (applyAddition date) walk).active
        ∧ ((day.map plain).foldl (applyAddition date) walk).left.filterMap Walker.entry
          = walk.left.filterMap Walker.entry ++ taken.filterMap (fun pair => pair.1.entry)
        ∧ ((day.map plain).foldl (applyAddition date) walk).anomalies
          = walk.anomalies ++ taken.filterMap fun pair => pair.1.report := by
  -- on the day's changes: each addition takes the next pair, what joins nothing is skipped
  induction day with
  | nil =>
    intro taken walk _ _ _ hjoined hactive _ _
    obtain rfl := List.map_eq_nil_iff.mp hjoined
    exact ⟨hactive, (List.append_nil _).symm, (List.append_nil _).symm⟩
  | cons change day ih =>
    intro taken walk hday htaken hrest hjoined hactive hkeys htickers
    have hlater := fun other hother => hday other (List.mem_cons_of_mem change hother)
    rw [List.filterMap_cons] at hjoined
    rw [List.map_cons, List.foldl_cons]
    cases hpresent : present change.addedTicker with
    | none =>
      have hnone : joinedBy change = none := by
        unfold joinedBy
        rw [hpresent]
        rfl
      have hsame : applyAddition date walk (plain change) = walk := by
        unfold applyAddition
        rw [show present (plain change).addedTicker = none from hpresent]
      rw [hnone] at hjoined
      rw [hsame]
      exact ih hlater htaken hrest hjoined hactive hkeys htickers
    | some ticker =>
      have hsome : joinedBy change
          = some ⟨ticker, some (change.effectiveDate, change.contentHash), none⟩ := by
        unfold joinedBy
        rw [hpresent]
        rfl
      rw [hsome] at hjoined
      obtain ⟨pair, taken, rfl, hstint, hjoined⟩ := List.map_eq_cons_iff.mp hjoined
      rw [List.cons_append, List.map_cons, List.nodup_cons] at htickers
      have hticker : pair.1.ticker = ticker := congrArg Stint.ticker hstint
      have hothers : ∀ other ∈ (taken ++ rest).map Prod.snd, other.ticker ≠ ticker := by
        intro other hother heq
        obtain ⟨second, hsecond, rfl⟩ := List.mem_map.mp hother
        have htied : Tied second.1 second.2 := by
          rcases List.mem_append.mp hsecond with h | h
          · exact htaken second (List.mem_cons_of_mem _ h)
          · exact hrest second h
        refine htickers.1 (List.mem_map.mpr ⟨second, hsecond, ?_⟩)
        exact (htied.ticker.symm.trans heq).trans hticker.symm
      obtain ⟨hperm, hleft, hanomalies⟩ := applyAddition_clean hpresent hstint
        (hday change List.mem_cons_self) (htaken pair List.mem_cons_self) hactive hkeys hothers
      have hkeys' : ((applyAddition date walk (plain change)).active.map Walker.key).Nodup := by
        refine (hperm.map Walker.key).nodup_iff.mp ?_
        have hall := (hactive.map Walker.key).nodup_iff.mpr hkeys
        rw [List.cons_append, List.map_cons, List.map_cons] at hall
        exact (List.nodup_cons.mp hall).2
      obtain ⟨hactive', hleft', hanomalies'⟩ := ih hlater
        (fun other hother => htaken other (List.mem_cons_of_mem _ hother)) hrest hjoined hperm
        hkeys' htickers.2
      refine ⟨hactive', ?_, ?_⟩
      · rw [hleft', hleft, List.append_assoc, List.filterMap_cons]
        cases pair.1.entry <;> rfl
      · rw [hanomalies', hanomalies, List.append_assoc, List.filterMap_cons]
        cases pair.1.report <;> rfl

end Additions

/-! ### The removals of a date -/

/-- The walkers the removals of a date begin. -/
def removedOn (date : ℤ) (day : List IndexChange) : List Walker :=
  day.filterMap fun change =>
    (present change.removedTicker).map (removedWalker date (plain change))

/-- No member holds a removed ticker: the removals begin their walks, and report nothing. -/
theorem foldl_applyRemoval_clean {date : ℤ} (day : List IndexChange) :
    ∀ {walk : Walk}, (removedTickers day).Nodup →
      (∀ walker ∈ walk.active, walker.ticker ∉ removedTickers day) →
      (day.map plain).foldl (applyRemoval date) walk
        = { walk with active := walk.active ++ removedOn date day } := by
  -- on the day's changes, each removal of a ticker that no active walker holds
  induction day with
  | nil =>
    intro walk _ _
    change walk = { walk with active := walk.active ++ [] }
    rw [List.append_nil]
  | cons change day ih =>
    intro walk hremoved hfree
    unfold removedTickers at hremoved hfree
    rw [List.filterMap_cons] at hremoved hfree
    rw [List.map_cons, List.foldl_cons]
    unfold removedOn
    rw [List.filterMap_cons]
    cases hpresent : present change.removedTicker with
    | none =>
      rw [hpresent] at hremoved hfree
      have hsame : applyRemoval date walk (plain change) = walk := by
        unfold applyRemoval
        rw [show present (plain change).removedTicker = none from hpresent]
      rw [hsame]
      exact ih hremoved hfree
    | some ticker =>
      rw [hpresent] at hremoved hfree
      obtain ⟨hnew, hremoved⟩ := List.nodup_cons.mp hremoved
      have hnone : collisionOf date walk.active (plain change) ticker = [] := by
        unfold collisionOf
        refine if_pos (List.filter_eq_nil_iff.mpr fun walker hwalker => ?_)
        rw [decide_eq_true_iff]
        exact fun heq => hfree walker hwalker (heq ▸ List.mem_cons_self)
      have hstep : applyRemoval date walk (plain change)
          = { walk with active := walk.active ++ [removedWalker date (plain change) ticker] } := by
        unfold applyRemoval
        rw [show present (plain change).removedTicker = some ticker from hpresent]
        dsimp only
        rw [hnone, List.append_nil]
      rw [hstep, ih hremoved]
      · dsimp only
        rw [List.append_assoc]
        rfl
      · intro walker hwalker
        rcases List.mem_append.mp hwalker with hwalker | hwalker
        · exact fun hmem => hfree walker hwalker (List.mem_cons_of_mem _ hmem)
        · obtain rfl := List.mem_singleton.mp hwalker
          exact hnew

/-- The members a date takes out, each with the walker its removal begins. -/
def removedPairs (members : List Stint) (date : ℤ) (day : List IndexChange) : List Pair :=
  day.filterMap fun change => (endedBy members change).map fun stint =>
    (stint, removedWalker date (plain change) stint.ticker)

section Removed

variable {members : List Stint} {date : ℤ} {day : List IndexChange}

theorem map_fst_removedPairs :
    (removedPairs members date day).map Prod.fst = day.filterMap (endedBy members) := by
  unfold removedPairs
  rw [List.map_filterMap]
  congr 1
  funext change
  cases endedBy members change <;> rfl

theorem map_snd_removedPairs
    (hheld : ∀ ticker ∈ removedTickers day, ticker ∈ members.map Stint.ticker) :
    (removedPairs members date day).map Prod.snd = removedOn date day := by
  unfold removedPairs removedOn
  rw [List.map_filterMap]
  refine List.filterMap_congr fun change hchange => ?_
  unfold endedBy
  cases hpresent : present change.removedTicker with
  | none => rfl
  | some ticker =>
    have hmem : ticker ∈ removedTickers day := List.mem_filterMap.mpr ⟨change, hchange, hpresent⟩
    obtain ⟨member, hmember, hticker⟩ := List.mem_map.mp (hheld ticker hmem)
    cases hfound : members.find? fun member => member.ticker = ticker with
    | none =>
      exact absurd (decide_eq_true hticker) (List.find?_eq_none.mp hfound member hmember)
    | some found =>
      have hsame : found.ticker = ticker := of_decide_eq_true (List.find?_some hfound :)
      rw [Option.bind_some, hfound]
      dsimp only [Option.map_some]
      rw [hsame]

theorem tied_removedPairs (hdate : ∀ change ∈ day, change.effectiveDate = date) :
    ∀ pair ∈ removedPairs members date day, Tied pair.1 pair.2 := by
  intro pair hpair
  obtain ⟨change, hchange, hpair⟩ := List.mem_filterMap.mp hpair
  obtain ⟨stint, hstint, rfl⟩ := Option.map_eq_some_iff.mp hpair
  obtain ⟨ticker, -, hstint⟩ := Option.bind_eq_some_iff.mp hstint
  obtain ⟨member, -, rfl⟩ := Option.map_eq_some_iff.mp hstint
  obtain rfl := hdate change hchange
  exact ⟨rfl, rfl, rfl, rfl, if_pos rfl, rfl, rfl⟩

theorem key_removedOn {walker : Walker} (h : walker ∈ removedOn date day) :
    ∃ change ∈ day, walker.key = "REMOVAL:" ++ change.contentHash := by
  obtain ⟨change, hchange, hwalker⟩ := List.mem_filterMap.mp h
  obtain ⟨ticker, -, rfl⟩ := Option.map_eq_some_iff.mp hwalker
  exact ⟨change, hchange, rfl⟩

theorem nodup_key_removedOn (hhashes : (day.map IndexChange.contentHash).Nodup) :
    ((removedOn date day).map Walker.key).Nodup := by
  have hsub : ((removedOn date day).map Walker.key).Sublist
      ((day.map IndexChange.contentHash).map ("REMOVAL:" ++ ·)) := by
    clear hhashes
    unfold removedOn
    induction day with
    | nil => exact List.Sublist.refl _
    | cons change day ih =>
      rw [List.filterMap_cons, List.map_cons, List.map_cons]
      cases present change.removedTicker with
      | none => exact ih.cons _
      | some ticker => exact ih.cons_cons _
  exact hsub.nodup (hhashes.map (append_left_injective _))

end Removed

end FactorSage.IndexMembership
