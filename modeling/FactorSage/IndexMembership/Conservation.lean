import FactorSage.IndexMembership.Rearranged
import FactorSage.IndexMembership.Renames

/-!
# Every change is accounted for

Through the walk each applied addition has started one period, or been reported as an orphan, or
reported as having no confirmed session; and each applied removal has ended one period, or waits as
a member's open end, or was lost to such a report. `Conserves` counts them, walker keys included,
and every step of a date keeps the counts.
-/

namespace FactorSage.IndexMembership

open ComparatorSort

/-! ### What is counted -/

/-- The changes that started a period with a known end. -/
def startHashes (periods : List ReconstructedPeriod) : List String :=
  periods.filterMap fun period =>
    if period.quality = .END_UNKNOWN then none else period.startChangeHash

/-- The changes that started a period with an unknown end. -/
def unknownHashes (periods : List ReconstructedPeriod) : List String :=
  periods.filterMap fun period =>
    if period.quality = .END_UNKNOWN then period.startChangeHash else none

/-- The changes that ended a period. -/
def endHashes (periods : List ReconstructedPeriod) : List String :=
  periods.filterMap ReconstructedPeriod.endChangeHash

def orphanHashes (anomalies : List ReconstructionAnomaly) : List String :=
  anomalies.filterMap fun
    | .ORPHAN_ADDITION _ _ _ changeHash => some changeHash
    | _ => none

def unconfirmedHashes (anomalies : List ReconstructionAnomaly) : List String :=
  anomalies.filterMap fun
    | .NO_CONFIRMED_SESSION _ _ changeHash => some changeHash
    | _ => none

/-- The changes that add an issuer. -/
def addedHashes (changes : List EffectiveChange) : List String :=
  changes.filterMap fun change => (present change.addedTicker).map fun _ => change.contentHash

/-- The changes that remove one. -/
def removedHashes (changes : List EffectiveChange) : List String :=
  changes.filterMap fun change => (present change.removedTicker).map fun _ => change.contentHash

def walkedPeriods (walkers : List Walker) : List ReconstructedPeriod :=
  walkers.flatMap Walker.periods

section Append

variable {walkers : List Walker} {walker : Walker}

@[simp] theorem walkedPeriods_append (walkers walkers' : List Walker) :
    walkedPeriods (walkers ++ walkers') = walkedPeriods walkers ++ walkedPeriods walkers' :=
  List.flatMap_append

@[simp] theorem walkedPeriods_singleton : walkedPeriods [walker] = walker.periods :=
  List.flatMap_singleton _ _

@[simp] theorem startHashes_append (periods periods' : List ReconstructedPeriod) :
    startHashes (periods ++ periods') = startHashes periods ++ startHashes periods' :=
  List.filterMap_append

@[simp] theorem unknownHashes_append (periods periods' : List ReconstructedPeriod) :
    unknownHashes (periods ++ periods') = unknownHashes periods ++ unknownHashes periods' :=
  List.filterMap_append

@[simp] theorem endHashes_append (periods periods' : List ReconstructedPeriod) :
    endHashes (periods ++ periods') = endHashes periods ++ endHashes periods' :=
  List.filterMap_append

@[simp] theorem orphanHashes_append (anomalies anomalies' : List ReconstructionAnomaly) :
    orphanHashes (anomalies ++ anomalies') = orphanHashes anomalies ++ orphanHashes anomalies' :=
  List.filterMap_append

@[simp] theorem unconfirmedHashes_append (anomalies anomalies' : List ReconstructionAnomaly) :
    unconfirmedHashes (anomalies ++ anomalies')
      = unconfirmedHashes anomalies ++ unconfirmedHashes anomalies' :=
  List.filterMap_append

@[simp] theorem addedHashes_append (changes changes' : List EffectiveChange) :
    addedHashes (changes ++ changes') = addedHashes changes ++ addedHashes changes' :=
  List.filterMap_append

@[simp] theorem removedHashes_append (changes changes' : List EffectiveChange) :
    removedHashes (changes ++ changes') = removedHashes changes ++ removedHashes changes' :=
  List.filterMap_append

end Append

/-! ### The invariant -/

def currentKeys (current : List CurrentConstituent) : List String :=
  current.map fun member => "CURRENT:" ++ member.symbol

/-- A member being walked: it has no period yet, and its open end is a removal's or the list's. -/
structure Open (changes : List EffectiveChange) (walker : Walker) : Prop where
  periods : walker.periods = []
  quality : walker.openQuality = .CONFIRMED
  removal : ∀ hash, walker.openEndHash = some hash → ∃ change ∈ changes, change.contentHash = hash
    ∧ walker.openEnd = some (change.effectiveDate - 1)
  listed : walker.openEndHash = none → walker.openEnd = none
  current : ∀ symbol, walker.key = "CURRENT:" ++ symbol → walker.openEndHash = none

/-- A walker that is no member any more. -/
structure Finished (walker : Walker) : Prop where
  single : walker.periods.length ≤ 1
  ordered : ∀ period ∈ walker.periods, ∀ start, period.startDate = some start →
    ∀ last, period.endDate = some last → start ≤ last
  current : ∀ symbol, walker.key = "CURRENT:" ++ symbol →
    ∃ period, walker.periods = [period] ∧ period.endDate = none ∧ period.quality ≠ .END_UNKNOWN

/-- The counts, with the removals lost to a report and the additions they were lost to. -/
structure Conserves (current : List CurrentConstituent)
    (changes added removed : List EffectiveChange) (lost : List (String × String)) (walk : Walk) :
    Prop where
  additions : ∀ hash, (addedHashes added).count hash
    = (startHashes (walkedPeriods walk.left)).count hash + (orphanHashes walk.anomalies).count hash
      + (unconfirmedHashes walk.anomalies).count hash
  orphans : ∀ hash, (unknownHashes (walkedPeriods walk.left)).count hash
    = (orphanHashes walk.anomalies).count hash
  removals : ∀ hash, (removedHashes removed).count hash
    = (endHashes (walkedPeriods walk.left)).count hash + (lost.map Prod.fst).count hash
      + (walk.active.filterMap Walker.openEndHash).count hash
  reports : ∀ hash, (lost.map Prod.snd).count hash = (unconfirmedHashes walk.anomalies).count hash
  keys : ∀ key, ((walk.left ++ walk.active).map Walker.key).count key
    = (currentKeys current ++ (orphanHashes walk.anomalies).map ("ADDITION:" ++ ·)
      ++ (removedHashes removed).map ("REMOVAL:" ++ ·)).count key
  active : ∀ walker ∈ walk.active, Open changes walker
  left : ∀ walker ∈ walk.left, Finished walker
  apart : ∀ pair ∈ lost, ∃ removal ∈ changes, ∃ addition ∈ changes, removal.contentHash = pair.1
    ∧ addition.contentHash = pair.2 ∧ removal.effectiveDate - 1 < additionStart addition

/-! ### Keys -/

theorem key_ne {first second : Char} (h : first ≠ second) {front back tail tail' : String}
    (hfront : front.toList.head? = some first) (hback : back.toList.head? = some second) :
    front ++ tail ≠ back ++ tail' := by
  intro heq
  have hheads := congrArg (fun text => text.toList.head?) heq
  simp only [String.toList_append, List.head?_append, hfront, hback, Option.some_or] at hheads
  exact h (Option.some.inj hheads)

theorem append_left_injective (front : String) : Function.Injective (front ++ ·) :=
  fun _ _ => (String.append_right_inj front).mp

section Step

variable {current : List CurrentConstituent} {changes added removed : List EffectiveChange}
  {lost : List (String × String)} {walk : Walk} {date : ℤ} {change : EffectiveChange}

/-- No two walkers share a key. -/
theorem Conserves.nodup_keys (h : Conserves current changes added removed lost walk)
    (hcurrent : (current.map CurrentConstituent.symbol).Nodup) (hadded : (addedHashes added).Nodup)
    (hremoved : (removedHashes removed).Nodup) :
    ((walk.left ++ walk.active).map Walker.key).Nodup := by
  rw [List.nodup_iff_count_le_one]
  intro key
  rw [h.keys key]
  refine List.nodup_iff_count_le_one.mp ?_ key
  have horphans : (orphanHashes walk.anomalies).Nodup := by
    rw [List.nodup_iff_count_le_one] at hadded ⊢
    intro hash
    have hle := hadded hash
    have hcount := h.additions hash
    omega
  have hcurrentKeys : (currentKeys current).Nodup := by
    have hkeys := hcurrent.map (append_left_injective "CURRENT:")
    rwa [List.map_map] at hkeys
  rw [List.nodup_append, List.nodup_append]
  refine ⟨⟨hcurrentKeys, horphans.map (append_left_injective _), ?_⟩,
    hremoved.map (append_left_injective _), ?_⟩
  · intro key hkey key' hkey' heq
    obtain ⟨member, -, rfl⟩ := List.mem_map.mp hkey
    obtain ⟨hash, -, rfl⟩ := List.mem_map.mp hkey'
    exact key_ne (by decide : 'C' ≠ 'A') rfl rfl heq
  · intro key hkey key' hkey' heq
    obtain ⟨hash', -, rfl⟩ := List.mem_map.mp hkey'
    rcases List.mem_append.mp hkey with hkey | hkey
    · obtain ⟨member, -, rfl⟩ := List.mem_map.mp hkey
      exact key_ne (by decide : 'C' ≠ 'R') rfl rfl heq
    · obtain ⟨hash, -, rfl⟩ := List.mem_map.mp hkey
      exact key_ne (by decide : 'A' ≠ 'R') rfl rfl heq

/-- Taking out one key takes out one walker. -/
theorem perm_cons_filter_key {walkers : List Walker} (hkeys : (walkers.map Walker.key).Nodup)
    {walker : Walker} (h : walker ∈ walkers) :
    walkers.Perm (walker :: walkers.filter fun other => other.key ≠ walker.key) := by
  obtain ⟨front, back, rfl⟩ := List.append_of_mem h
  rw [List.map_append, List.map_cons, List.nodup_append, List.nodup_cons] at hkeys
  obtain ⟨-, ⟨hback, -⟩, hfront⟩ := hkeys
  have hkeepFront : front.filter (fun other => other.key ≠ walker.key) = front :=
    List.filter_eq_self.mpr fun other hother => decide_eq_true
      (hfront _ (List.mem_map_of_mem hother) _ List.mem_cons_self)
  have hkeepBack : back.filter (fun other => other.key ≠ walker.key) = back :=
    List.filter_eq_self.mpr fun other hother => decide_eq_true fun heq =>
      hback (heq ▸ List.mem_map_of_mem hother)
  rw [List.filter_append, hkeepFront, List.filter_cons_of_neg (by simp), hkeepBack]
  exact List.perm_middle

/-! ### One addition -/

/-- A match is a member, and an ambiguity is only ever reported as one. -/
theorem matchAddition_spec {active : List Walker} {ticker : String} {matched : MatchedAddition}
    (h : matchAddition active change ticker = some matched) :
    matched.walker ∈ active ∧ orphanHashes matched.ambiguity.toList = []
      ∧ unconfirmedHashes matched.ambiguity.toList = [] := by
  obtain ⟨⟨tier, candidates⟩, htier, h⟩ := Option.bind_eq_some_iff.mp h
  obtain ⟨chosen, hchosen, rfl⟩ := Option.map_eq_some_iff.mp h
  have hcandidate : chosen ∈ candidates := mem_sortBy.mp (List.mem_of_head? hchosen)
  have htiers := List.mem_of_find?_eq_some htier
  refine ⟨?_, ?_, ?_⟩
  · -- every tier is a part of the members
    unfold tiers at htiers
    simp only [List.mem_cons, Prod.mk.injEq, List.not_mem_nil, or_false] at htiers
    rcases htiers with ⟨-, rfl⟩ | ⟨-, rfl⟩ | ⟨-, rfl⟩ <;> exact (List.mem_filter.mp hcandidate).1
  · dsimp only
    split <;> rfl
  · dsimp only
    split <;> rfl

theorem Finished.of_open {walker : Walker} (h : Open changes walker) {tier : AdditionMatch}
    (hsession : noConfirmedSession walker change = false) :
    Finished { walker with periods := walker.periods ++ [startedPeriod walker tier change] } := by
  have hperiods : walker.periods ++ [startedPeriod walker tier change]
      = [startedPeriod walker tier change] := by rw [h.periods, List.nil_append]
  refine ⟨?_, ?_, fun symbol hkey => ⟨startedPeriod walker tier change, hperiods, ?_, ?_⟩⟩
  · change (walker.periods ++ [startedPeriod walker tier change]).length ≤ 1
    rw [hperiods]
    exact le_rfl
  · intro period hperiod start hstart last hlast
    change period ∈ walker.periods ++ [startedPeriod walker tier change] at hperiod
    rw [hperiods] at hperiod
    obtain rfl := List.mem_singleton.mp hperiod
    obtain rfl := Option.some.inj hstart
    by_contra hlt
    unfold noConfirmedSession at hsession
    exact of_decide_eq_false hsession ⟨last, hlast, not_le.mp hlt⟩
  · exact h.listed (h.current symbol hkey)
  · change walker.openQuality ≠ _
    rw [h.quality]
    decide

theorem Finished.of_orphan {ticker : String} : Finished (orphanWalker change ticker) := by
  refine ⟨le_rfl, fun period hperiod start _ last hlast => ?_, fun symbol hkey => ?_⟩
  · obtain rfl := List.mem_singleton.mp hperiod
    cases hlast
  · exact absurd hkey (key_ne (by decide : 'A' ≠ 'C') rfl rfl)

/-- An orphan. -/
theorem Conserves.orphan (h : Conserves current changes added removed lost walk) {ticker : String}
    (hticker : addedHashes [change] = [change.contentHash]) :
    Conserves current changes (added ++ [change]) removed lost
      (walk.orphan date change ticker) := by
  have hunknown : unknownHashes (orphanWalker change ticker).periods = [change.contentHash] := rfl
  have hstarts : startHashes (orphanWalker change ticker).periods = [] := rfl
  have hends : endHashes (orphanWalker change ticker).periods = [] := rfl
  have hreport : orphanHashes [ReconstructionAnomaly.ORPHAN_ADDITION date ticker
    change.addedName change.contentHash] = [change.contentHash] := rfl
  have hother : unconfirmedHashes [ReconstructionAnomaly.ORPHAN_ADDITION date ticker
    change.addedName change.contentHash] = [] := rfl
  unfold Walk.orphan
  refine ⟨fun hash => ?_, fun hash => ?_, fun hash => ?_, fun hash => ?_, fun key => ?_,
    h.active, fun walker hwalker => ?_, h.apart⟩
  · have hcount := h.additions hash
    simp only [addedHashes_append, walkedPeriods_append, walkedPeriods_singleton,
      startHashes_append, orphanHashes_append, unconfirmedHashes_append, List.count_append,
      hticker, hstarts, hreport, hother, List.count_nil]
    omega
  · have hcount := h.orphans hash
    simp only [walkedPeriods_append, walkedPeriods_singleton, unknownHashes_append,
      orphanHashes_append, List.count_append, hunknown, hreport]
    omega
  · have hcount := h.removals hash
    simp only [walkedPeriods_append, walkedPeriods_singleton, endHashes_append,
      List.count_append, hends, List.count_nil]
    omega
  · simp only [unconfirmedHashes_append, hother, List.append_nil]
    exact h.reports hash
  · have hcount := h.keys key
    have hkey : (orphanWalker change ticker).key = "ADDITION:" ++ change.contentHash := rfl
    simp only [orphanHashes_append, hreport, List.map_append, List.count_append, List.map_cons,
      List.map_nil, hkey] at hcount ⊢
    omega
  · rcases List.mem_append.mp hwalker with hwalker | hwalker
    · exact h.left walker hwalker
    · obtain rfl := List.mem_singleton.mp hwalker
      exact Finished.of_orphan

section Matched

variable {matched : MatchedAddition}
  (hperm : walk.active.Perm
    (matched.walker :: walk.active.filter fun walker => walker.key ≠ matched.walker.key))

include hperm

theorem count_openEnds (hash : String) :
    (walk.active.filterMap Walker.openEndHash).count hash
      = matched.walker.openEndHash.toList.count hash
        + ((walk.active.filter fun walker => walker.key ≠ matched.walker.key).filterMap
            Walker.openEndHash).count hash := by
  rw [(hperm.filterMap _).count_eq, List.filterMap_cons]
  cases matched.walker.openEndHash with
  | none => exact (Nat.zero_add _).symm
  | some last =>
    rw [← List.count_append]
    rfl

theorem count_keys (key : String) : (walk.active.map Walker.key).count key
    = [matched.walker.key].count key
      + ((walk.active.filter fun walker => walker.key ≠ matched.walker.key).map
          Walker.key).count key := by
  rw [(hperm.map _).count_eq, List.map_cons, ← List.count_append]
  rfl

variable (h : Conserves current changes added removed lost walk)
  (hmem : matched.walker ∈ walk.active) (hnoOrphan : orphanHashes matched.ambiguity.toList = [])
  (hnoReport : unconfirmedHashes matched.ambiguity.toList = [])
  (hone : addedHashes [change] = [change.contentHash])

include h hmem hnoOrphan hnoReport hone

/-- A report loses the removal its member was to end at. -/
theorem Conserves.unconfirmed {ticker : String} (hchange : change ∈ changes)
    (hsession : noConfirmedSession matched.walker change = true) :
    ∃ lost', Conserves current changes (added ++ [change]) removed lost'
      (walk.unconfirmed date change ticker matched) := by
  have hopen := h.active _ hmem
  obtain ⟨last, hlast, hlt⟩ := of_decide_eq_true hsession
  -- a removal ended the stint: one still listed has no last day
  obtain ⟨ended, hended⟩ : ∃ ended, matched.walker.openEndHash = some ended := by
    cases hcase : matched.walker.openEndHash with
    | none =>
      rw [hopen.listed hcase] at hlast
      cases hlast
    | some ended => exact ⟨ended, rfl⟩
  obtain ⟨removal, hremoval, hname, hend⟩ := hopen.removal ended hended
  have hempty : matched.walker.periods = [] := hopen.periods
  have hreport : unconfirmedHashes [ReconstructionAnomaly.NO_CONFIRMED_SESSION date ticker
    change.contentHash] = [change.contentHash] := rfl
  have hother : orphanHashes [ReconstructionAnomaly.NO_CONFIRMED_SESSION date ticker
    change.contentHash] = [] := rfl
  -- that removal is lost with the addition: the walker leaves without a period
  unfold Walk.unconfirmed
  refine ⟨lost ++ [(ended, change.contentHash)], ⟨fun hash => ?_, fun hash => ?_,
    fun hash => ?_, fun hash => ?_, fun key => ?_,
    fun walker hwalker => h.active walker (List.mem_filter.mp hwalker).1, fun walker hwalker => ?_,
    fun pair hpair => ?_⟩⟩
  · have hcount := h.additions hash
    simp only [addedHashes_append, walkedPeriods_append, walkedPeriods_singleton, hempty,
      List.append_nil, orphanHashes_append, unconfirmedHashes_append, List.count_append, hone,
      hreport, hother, hnoOrphan, hnoReport]
    omega
  · simp only [walkedPeriods_append, walkedPeriods_singleton, orphanHashes_append, hempty, hother,
      hnoOrphan, List.append_nil]
    exact h.orphans hash
  · have hcount := h.removals hash
    rw [count_openEnds hperm hash, hended] at hcount
    simp only [walkedPeriods_append, walkedPeriods_singleton, hempty, List.append_nil,
      List.map_append, List.count_append, List.map_cons, List.map_nil, Option.toList_some]
      at hcount ⊢
    omega
  · have hcount := h.reports hash
    simp only [unconfirmedHashes_append, hreport, hnoReport, List.append_nil, List.map_append,
      List.count_append, List.map_cons, List.map_nil]
    omega
  · have hcount := h.keys key
    have hsplit := count_keys hperm key
    simp only [orphanHashes_append, hother, hnoOrphan, List.append_nil, List.map_append,
      List.count_append, List.map_cons, List.map_nil] at hcount ⊢
    omega
  · rcases List.mem_append.mp hwalker with hwalker | hwalker
    · exact h.left walker hwalker
    · obtain rfl := List.mem_singleton.mp hwalker
      refine ⟨?_, fun period hperiod => ?_, fun symbol hkey => ?_⟩
      · rw [hempty]
        exact Nat.zero_le _
      · rw [hempty] at hperiod
        cases hperiod
      · rw [hopen.current symbol hkey] at hended
        cases hended
  · rcases List.mem_append.mp hpair with hpair | hpair
    · exact h.apart pair hpair
    · obtain rfl := List.mem_singleton.mp hpair
      refine ⟨removal, hremoval, change, hchange, hname, rfl, ?_⟩
      rw [hend] at hlast
      obtain rfl := Option.some.inj hlast
      exact hlt

/-- A period has the member's open end. -/
theorem Conserves.started (hsession : noConfirmedSession matched.walker change = false) :
    Conserves current changes (added ++ [change]) removed lost (walk.started change matched) := by
  have hopen := h.active _ hmem
  have hempty : matched.walker.periods = [] := hopen.periods
  have hquality : (startedPeriod matched.walker matched.tier change).quality = .CONFIRMED :=
    hopen.quality
  have hstarts : startHashes [startedPeriod matched.walker matched.tier change]
      = [change.contentHash] := by
    unfold startHashes
    rw [List.filterMap_cons, hquality]
    rfl
  have hunknown : unknownHashes [startedPeriod matched.walker matched.tier change] = [] := by
    unfold unknownHashes
    rw [List.filterMap_cons, hquality]
    rfl
  have hends : endHashes [startedPeriod matched.walker matched.tier change]
      = matched.walker.openEndHash.toList := by
    have hend : (startedPeriod matched.walker matched.tier change).endChangeHash
        = matched.walker.openEndHash := rfl
    unfold endHashes
    rw [List.filterMap_cons, hend]
    cases matched.walker.openEndHash <;> rfl
  -- the period carries both hashes: the addition's, and the removal's it was opened by
  unfold Walk.started
  refine ⟨fun hash => ?_, fun hash => ?_, fun hash => ?_, fun hash => ?_, fun key => ?_,
    fun walker hwalker => h.active walker (List.mem_filter.mp hwalker).1, fun walker hwalker => ?_,
    h.apart⟩
  · have hcount := h.additions hash
    simp only [addedHashes_append, walkedPeriods_append, walkedPeriods_singleton, hempty,
      List.nil_append, startHashes_append, orphanHashes_append, unconfirmedHashes_append,
      List.count_append, hone, hstarts, hnoOrphan, hnoReport, List.count_nil]
    omega
  · simp only [walkedPeriods_append, walkedPeriods_singleton, hempty, List.nil_append,
      unknownHashes_append, orphanHashes_append, hunknown, hnoOrphan, List.append_nil]
    exact h.orphans hash
  · have hcount := h.removals hash
    rw [count_openEnds hperm hash] at hcount
    simp only [walkedPeriods_append, walkedPeriods_singleton, hempty, List.nil_append,
      endHashes_append, hends, List.count_append]
    omega
  · simp only [unconfirmedHashes_append, hnoReport, List.append_nil]
    exact h.reports hash
  · have hcount := h.keys key
    have hsplit := count_keys hperm key
    simp only [orphanHashes_append, hnoOrphan, List.append_nil, List.map_append,
      List.count_append, List.map_cons, List.map_nil] at hcount ⊢
    omega
  · rcases List.mem_append.mp hwalker with hwalker | hwalker
    · exact h.left walker hwalker
    · obtain rfl := List.mem_singleton.mp hwalker
      exact Finished.of_open hopen hsession

end Matched

/-- **One addition is counted once.** -/
theorem Conserves.applyAddition (h : Conserves current changes added removed lost walk)
    (hcurrent : (current.map CurrentConstituent.symbol).Nodup) (hadded : (addedHashes added).Nodup)
    (hremoved : (removedHashes removed).Nodup) (hchange : change ∈ changes) (date : ℤ) :
    ∃ lost', Conserves current changes (added ++ [change]) removed lost'
      (applyAddition date walk change) := by
  unfold IndexMembership.applyAddition
  cases hticker : present change.addedTicker with
  | none =>
    have hskip : addedHashes [change] = [] := by
      unfold addedHashes
      rw [List.filterMap_cons, hticker]
      rfl
    refine ⟨lost, { h with additions := fun hash => ?_ }⟩
    rw [addedHashes_append, hskip, List.append_nil]
    exact h.additions hash
  | some ticker =>
    have hone : addedHashes [change] = [change.contentHash] := by
      unfold addedHashes
      rw [List.filterMap_cons, hticker]
      rfl
    dsimp only
    cases hmatch : matchAddition walk.active change ticker with
    | none => exact ⟨lost, h.orphan hone⟩
    | some matched =>
      obtain ⟨hmem, hnoOrphan, hnoReport⟩ := matchAddition_spec hmatch
      have hkeys : (walk.active.map Walker.key).Nodup := by
        have hall := h.nodup_keys hcurrent hadded hremoved
        rw [List.map_append] at hall
        exact (List.nodup_append.mp hall).2.1
      have hperm := perm_cons_filter_key hkeys hmem
      dsimp only
      cases hsession : noConfirmedSession matched.walker change with
      | true => exact h.unconfirmed hperm hmem hnoOrphan hnoReport hone hchange hsession
      | false => exact ⟨lost, h.started hperm hmem hnoOrphan hnoReport hone hsession⟩

/-! ### One date -/

/-- A rename changes what a member is called, and nothing else of it. -/
structure Renamed (before after : Walker) : Prop where
  key : after.key = before.key
  periods : after.periods = before.periods
  openEnd : after.openEnd = before.openEnd
  openEndHash : after.openEndHash = before.openEndHash
  openQuality : after.openQuality = before.openQuality

theorem renamed_cross (date : ℤ) (renames : List SymbolChange) :
    ∀ walker : Walker, Renamed walker (walker.cross date renames) := by
  induction renames with
  | nil => exact fun _ => ⟨rfl, rfl, rfl, rfl, rfl⟩
  | cons rename renames ih =>
    intro walker
    have hrest := ih (walker.rename date rename)
    have hstep : Renamed walker (walker.rename date rename) := by
      unfold Walker.rename
      split <;> exact ⟨rfl, rfl, rfl, rfl, rfl⟩
    exact ⟨hrest.key.trans hstep.key, hrest.periods.trans hstep.periods,
      hrest.openEnd.trans hstep.openEnd, hrest.openEndHash.trans hstep.openEndHash,
      hrest.openQuality.trans hstep.openQuality⟩

theorem Conserves.renamed (h : Conserves current changes added removed lost walk)
    (renames : List SymbolChange) : Conserves current changes added removed lost
      { walk with active := crossRenames date renames walk.active } := by
  rw [crossRenames_eq]
  have hkeys : (walk.active.map (Walker.cross date renames)).map Walker.key
      = walk.active.map Walker.key := by
    rw [List.map_map]
    exact List.map_congr_left fun walker _ => (renamed_cross date renames walker).key
  have hends : (walk.active.map (Walker.cross date renames)).filterMap Walker.openEndHash
      = walk.active.filterMap Walker.openEndHash := by
    rw [List.filterMap_map]
    exact List.filterMap_congr fun walker _ => (renamed_cross date renames walker).openEndHash
  refine { h with
    removals := fun hash => ?_, keys := fun key => ?_, active := fun walker hwalker => ?_ }
  · rw [hends]
    exact h.removals hash
  · rw [List.map_append, hkeys, ← List.map_append]
    exact h.keys key
  · obtain ⟨before, hbefore, rfl⟩ := List.mem_map.mp hwalker
    have hrenamed := renamed_cross date renames before
    obtain ⟨hperiods, hquality, hremoval, hlisted, hcurrent⟩ := h.active before hbefore
    refine ⟨hrenamed.periods.trans hperiods, hrenamed.openQuality.trans hquality,
      fun hash heq => ?_, fun heq => ?_, fun symbol hkey => ?_⟩
    · rw [hrenamed.openEnd]
      exact hremoval hash (hrenamed.openEndHash.symm.trans heq)
    · rw [hrenamed.openEnd]
      exact hlisted (hrenamed.openEndHash.symm.trans heq)
    · rw [hrenamed.openEndHash]
      exact hcurrent symbol (hrenamed.key.symm.trans hkey)

theorem collisionOf_spec {active : List Walker} {ticker : String} :
    orphanHashes (collisionOf date active change ticker) = []
      ∧ unconfirmedHashes (collisionOf date active change ticker) = [] := by
  unfold collisionOf
  dsimp only
  split <;> exact ⟨rfl, rfl⟩

/-- **One removal waits as an open end.** -/
theorem Conserves.applyRemoval (h : Conserves current changes added removed lost walk)
    (hchange : change ∈ changes) (hdate : change.effectiveDate = date) :
    Conserves current changes added (removed ++ [change]) lost
      (applyRemoval date walk change) := by
  unfold IndexMembership.applyRemoval
  cases hticker : present change.removedTicker with
  | none =>
    have hskip : removedHashes [change] = [] := by
      unfold removedHashes
      rw [List.filterMap_cons, hticker]
      rfl
    refine { h with removals := fun hash => ?_, keys := fun key => ?_ }
    · rw [removedHashes_append, hskip, List.append_nil]
      exact h.removals hash
    · rw [removedHashes_append, hskip, List.append_nil]
      exact h.keys key
  | some ticker =>
    have hone : removedHashes [change] = [change.contentHash] := by
      unfold removedHashes
      rw [List.filterMap_cons, hticker]
      rfl
    -- a collision is reported under neither count
    obtain ⟨hnoOrphan, hnoReport⟩ := @collisionOf_spec date change walk.active ticker
    dsimp only
    refine ⟨fun hash => ?_, fun hash => ?_, fun hash => ?_, fun hash => ?_, fun key => ?_,
      fun walker hwalker => ?_, h.left, h.apart⟩
    · simp only [orphanHashes_append, unconfirmedHashes_append, hnoOrphan, hnoReport,
        List.append_nil]
      exact h.additions hash
    · simp only [orphanHashes_append, hnoOrphan, List.append_nil]
      exact h.orphans hash
    · have hcount := h.removals hash
      have hend : [removedWalker date change ticker].filterMap Walker.openEndHash
          = [change.contentHash] := rfl
      simp only [removedHashes_append, hone, List.filterMap_append, hend, List.count_append]
      omega
    · simp only [unconfirmedHashes_append, hnoReport, List.append_nil]
      exact h.reports hash
    · have hcount := h.keys key
      have hkey : (removedWalker date change ticker).key = "REMOVAL:" ++ change.contentHash := rfl
      simp only [orphanHashes_append, hnoOrphan, List.append_nil, removedHashes_append, hone,
        List.map_append, List.count_append, List.map_cons, List.map_nil, hkey] at hcount ⊢
      omega
    · rcases List.mem_append.mp hwalker with hwalker | hwalker
      · exact h.active walker hwalker
      · obtain rfl := List.mem_singleton.mp hwalker
        refine ⟨rfl, rfl, fun hash heq => ⟨change, hchange, Option.some.inj heq, ?_⟩,
          fun heq => (nomatch heq), fun symbol hkey => ?_⟩
        · rw [hdate]
          rfl
        · exact absurd hkey (key_ne (by decide : 'R' ≠ 'C') rfl rfl)

/-- The additions of a date, one by one. -/
theorem Conserves.foldl_applyAddition (hcurrent : (current.map CurrentConstituent.symbol).Nodup)
    (hremoved : (removedHashes removed).Nodup) (date : ℤ) (day : List EffectiveChange) :
    ∀ {added : List EffectiveChange} {lost : List (String × String)} {walk : Walk},
      Conserves current changes added removed lost walk → (∀ change ∈ day, change ∈ changes) →
      (addedHashes (added ++ day)).Nodup →
      ∃ lost', Conserves current changes (added ++ day) removed lost'
        (day.foldl (IndexMembership.applyAddition date) walk) := by
  induction day with
  | nil =>
    intro added lost walk h _ _
    rw [List.append_nil]
    exact ⟨lost, h⟩
  | cons change day ih =>
    intro added lost walk h hday hnodup
    have hcons : added ++ change :: day = (added ++ [change]) ++ day := by
      rw [List.append_assoc]
      rfl
    rw [hcons] at hnodup ⊢
    have hbefore : (addedHashes added).Nodup := by
      rw [List.append_assoc, addedHashes_append] at hnodup
      exact (List.nodup_append.mp hnodup).1
    obtain ⟨lost', hstep⟩ := h.applyAddition hcurrent hbefore hremoved
      (hday change List.mem_cons_self) date
    exact ih hstep (fun other hother => hday other (List.mem_cons_of_mem _ hother)) hnodup

/-- The removals of a date, one by one. -/
theorem Conserves.foldl_applyRemoval (day : List EffectiveChange) :
    ∀ {removed : List EffectiveChange} {walk : Walk},
      Conserves current changes added removed lost walk →
      (∀ change ∈ day, change ∈ changes ∧ change.effectiveDate = date) →
      Conserves current changes added (removed ++ day) lost
        (day.foldl (IndexMembership.applyRemoval date) walk) := by
  induction day with
  | nil =>
    intro removed walk h _
    rw [List.append_nil]
    exact h
  | cons change day ih =>
    intro removed walk h hday
    have hcons : removed ++ change :: day = (removed ++ [change]) ++ day := by
      rw [List.append_assoc]
      rfl
    obtain ⟨hchange, hdate⟩ := hday change List.mem_cons_self
    rw [hcons]
    exact ih (h.applyRemoval hchange hdate) fun other hother =>
      hday other (List.mem_cons_of_mem _ hother)

end Step

/-! ### The walk -/

/-- The changes of a date. -/
def changesOn (changes : List EffectiveChange) (date : ℤ) : List EffectiveChange :=
  changes.filter fun change => change.effectiveDate = date

section Walk

variable {current : List CurrentConstituent} {changes : List EffectiveChange}

/-- **One date is accounted for.** -/
theorem Conserves.crossDate {walked : List EffectiveChange} {lost : List (String × String)}
    {walk : Walk} (h : Conserves current changes walked walked lost walk)
    (hcurrent : (current.map CurrentConstituent.symbol).Nodup) {date : ℤ}
    (hadded : (addedHashes (walked ++ changesOn changes date)).Nodup)
    (hremoved : (removedHashes walked).Nodup) (renames : List SymbolChange) :
    ∃ lost', Conserves current changes (walked ++ changesOn changes date)
      (walked ++ changesOn changes date) lost'
      (IndexMembership.crossDate changes renames walk date) := by
  have hday : ∀ change ∈ changesOn changes date, change ∈ changes ∧ change.effectiveDate = date :=
    fun change hchange => ⟨(List.mem_filter.mp hchange).1,
      of_decide_eq_true (List.mem_filter.mp hchange).2⟩
  obtain ⟨lost', hadditions⟩ := Conserves.foldl_applyAddition hcurrent hremoved date _ h
    (fun change hchange => (hday change hchange).1) hadded
  exact ⟨lost', Conserves.foldl_applyRemoval _ (hadditions.renamed _) hday⟩

/-- Dates one after another. -/
theorem Conserves.foldl_crossDate (hcurrent : (current.map CurrentConstituent.symbol).Nodup)
    (renames : List SymbolChange) (dates : List ℤ) :
    ∀ {walked : List EffectiveChange} {lost : List (String × String)}
      {walk : Walk}, Conserves current changes walked walked lost walk →
      (addedHashes (walked ++ dates.flatMap (changesOn changes))).Nodup →
      (removedHashes (walked ++ dates.flatMap (changesOn changes))).Nodup →
      ∃ lost', Conserves current changes (walked ++ dates.flatMap (changesOn changes))
        (walked ++ dates.flatMap (changesOn changes)) lost'
        (dates.foldl (IndexMembership.crossDate changes renames) walk) := by
  induction dates with
  | nil =>
    intro walked lost walk h _ _
    rw [List.flatMap_nil, List.append_nil]
    exact ⟨lost, h⟩
  | cons date dates ih =>
    intro walked lost walk h hadded hremoved
    rw [List.flatMap_cons, ← List.append_assoc] at hadded hremoved ⊢
    have haddedDay := hadded
    rw [addedHashes_append] at haddedDay
    have hremovedBefore := hremoved
    rw [List.append_assoc, removedHashes_append] at hremovedBefore
    obtain ⟨lost', hstep⟩ := h.crossDate hcurrent (List.nodup_append.mp haddedDay).1
      (List.nodup_append.mp hremovedBefore).1 renames
    exact ih hstep hadded hremoved

/-- What is filtered by each of distinct dates that cover it is all of it. -/
theorem perm_flatMap_changesOn {dates : List ℤ} (hnodup : dates.Nodup) :
    ∀ {changes : List EffectiveChange}, (∀ change ∈ changes, change.effectiveDate ∈ dates) →
      (dates.flatMap (changesOn changes)).Perm changes := by
  induction dates with
  | nil =>
    intro changes hcover
    cases changes with
    | nil => exact List.Perm.refl _
    | cons change changes => exact absurd (hcover change List.mem_cons_self) List.not_mem_nil
  | cons date dates ih =>
    intro changes hcover
    rw [List.nodup_cons] at hnodup
    have hcoverRest : ∀ change ∈ changes.filter
        (fun change => !decide (change.effectiveDate = date)), change.effectiveDate ∈ dates := by
      intro change hchange
      obtain ⟨hmem, hne⟩ := List.mem_filter.mp hchange
      rw [Bool.not_eq_true', decide_eq_false_iff_not] at hne
      exact (List.mem_cons.mp (hcover change hmem)).resolve_left hne
    have hsame : dates.flatMap
        (changesOn (changes.filter fun change => !decide (change.effectiveDate = date)))
        = dates.flatMap (changesOn changes) := by
      refine List.flatMap_congr fun other hother => ?_
      unfold changesOn
      rw [List.filter_filter]
      refine List.filter_congr fun change _ => ?_
      by_cases heq : change.effectiveDate = other
      · have hne : change.effectiveDate ≠ date := fun h => hnodup.1 (h ▸ heq ▸ hother)
        rw [decide_eq_true heq, decide_eq_false hne]
        rfl
      · rw [decide_eq_false heq, Bool.false_and]
    rw [List.flatMap_cons, ← hsame]
    exact ((ih hnodup.2 hcoverRest).append_left _).trans
      (List.filter_append_perm (fun change : EffectiveChange =>
        decide (change.effectiveDate = date)) changes)

end Walk

end FactorSage.IndexMembership
