import FactorSage.IndexMembership.Orders
import FactorSage.Library.JsonRoundTrip

/-!
# The order of the inputs

A reconstruction of the same current members and the same change records, in any order, is the same
(`reconstruct_eq_of_perm`): the changes are read once per content hash and sorted, the members are
sorted or looked up by symbol, and the anomalies a member adds at the end are sorted by texts that
tell two members apart.
-/

namespace FactorSage.IndexMembership

open ComparatorSort CodeUnits JsonText

/-! ### Changes -/

/-- A content hash identifies its content. -/
def HashesContent (changes : List IndexChange) : Prop :=
  ∀ change ∈ changes, ∀ other ∈ changes, change.contentHash = other.contentHash → change = other

variable {changes : List IndexChange}

theorem mem_of_mem_firstByHash {change : IndexChange}
    (h : change ∈ firstByHash changes) : change ∈ changes := by
  induction changes with
  | nil => exact h
  | cons first rest ih =>
    rcases List.mem_cons.mp h with rfl | h
    · exact List.mem_cons_self
    · exact List.mem_cons_of_mem _ (ih (List.mem_filter.mp h).1)

theorem mem_firstByHash (hcontent : HashesContent changes)
    {change : IndexChange} : change ∈ firstByHash changes ↔ change ∈ changes := by
  refine ⟨mem_of_mem_firstByHash, fun h => ?_⟩
  induction changes with
  | nil => exact h
  | cons first rest ih =>
    rcases List.mem_cons.mp h with rfl | hrest
    · exact List.mem_cons_self
    · by_cases hhash : change.contentHash = first.contentHash
      · rw [hcontent change h first List.mem_cons_self hhash]
        exact List.mem_cons_self
      · refine List.mem_cons_of_mem _ (List.mem_filter.mpr ⟨ih ?_ hrest, decide_eq_true hhash⟩)
        exact fun a ha b hb => hcontent a (List.mem_cons_of_mem _ ha) b (List.mem_cons_of_mem _ hb)

theorem nodup_firstByHash (changes : List IndexChange) :
    ((firstByHash changes).map IndexChange.contentHash).Nodup := by
  induction changes with
  | nil => exact List.nodup_nil
  | cons first rest ih =>
    change (first.contentHash :: ((firstByHash rest).filter _).map _).Nodup
    rw [List.nodup_cons]
    refine ⟨fun hmem => ?_, (List.filter_sublist.map _).nodup ih⟩
    obtain ⟨other, hother, hhash⟩ := List.mem_map.mp hmem
    exact of_decide_eq_true (List.mem_filter.mp hother).2 hhash

theorem dedupeChanges_eq_of_perm {changes changes' : List IndexChange} (hp : changes.Perm changes')
    (hcontent : HashesContent changes) : dedupeChanges changes = dedupeChanges changes' := by
  have hcontent' : HashesContent changes' := fun a ha b hb =>
    hcontent a (hp.mem_iff.mpr ha) b (hp.mem_iff.mpr hb)
  have hnodup := nodup_firstByHash changes
  refine sortBy_eq_of_perm compares_compareChanges ?_ ?_
  · refine (List.perm_ext_iff_of_nodup (List.Nodup.of_map _ hnodup)
      (List.Nodup.of_map _ (nodup_firstByHash changes'))).mpr fun change => ?_
    rw [mem_firstByHash hcontent, mem_firstByHash hcontent', hp.mem_iff]
  · refine List.Nodup.map_on (fun left hleft right hright hkey => ?_) (List.Nodup.of_map _ hnodup)
    have hhash : left.contentHash = right.contentHash :=
      codeUnits_injective (congrArg (fun key => (ofLex key).2) hkey)
    exact List.inj_on_of_nodup_map hnodup hleft hright hhash

/-! ### Current members -/

section Current

variable {current current' : List CurrentConstituent} (hp : current.Perm current')
  (hsymbols : (current.map CurrentConstituent.symbol).Nodup)

include hp hsymbols

theorem get?_firstAdded_of_perm (ticker : String) :
    (firstAdded current).get? ticker = (firstAdded current').get? ticker := by
  refine OrderedMap.Equiv.ofList_of_perm (hp.filterMap _) ?_ ticker
  have hkeys : (current.filterMap fun member =>
      member.dateFirstAdded.map fun added => (member.symbol, added)).map Prod.fst
      = (current.filter fun member => member.dateFirstAdded.isSome).map
          CurrentConstituent.symbol := by
    rw [List.map_filterMap, ← List.filterMap_eq_map, List.filterMap_filter]
    refine List.filterMap_congr fun member _ => ?_
    cases member.dateFirstAdded <;> rfl
  rw [hkeys]
  exact (List.filter_sublist.map _).nodup hsymbols

theorem evidence_eq_of_perm (symbolChanges : List SymbolChange) (changes : List IndexChange) :
    evidence current symbolChanges changes = evidence current' symbolChanges changes := by
  unfold evidence
  refine List.filterMap_congr fun change _ => ?_
  have hsame : firstAddedOf current symbolChanges change
      = firstAddedOf current' symbolChanges change := by
    unfold firstAddedOf
    cases change.addedTicker with
    | none => rfl
    | some ticker =>
      have hheld : ticker ∈ current.map CurrentConstituent.symbol
          ↔ ticker ∈ current'.map CurrentConstituent.symbol := (hp.map _).mem_iff
      rw [Option.bind_some, Option.bind_some, get?_firstAdded_of_perm hp hsymbols]
      simp only [hheld]
  rw [hsame]

theorem sortBySymbol_eq_of_perm :
    sortBy (fun left right : CurrentConstituent => compareText left.symbol right.symbol) current
      = sortBy (fun left right => compareText left.symbol right.symbol) current' := by
  have hcompares : Compares
      (fun left right : CurrentConstituent => compareText left.symbol right.symbol)
      fun member => codeUnits member.symbol := fun left right => compares_compareText _ _
  refine sortBy_eq_of_perm hcompares hp ?_
  have hunits := hsymbols.map codeUnits_injective
  rwa [List.map_map] at hunits

end Current

/-! ### Anomalies -/

/-- The text of a mismatch names its ticker. -/
theorem ticker_of_json_mismatch {ticker ticker' : String} {added added' : ℤ}
    {start start' : Option ℤ}
    (h : (ReconstructionAnomaly.FIRST_ADDED_MISMATCH ticker added start).json
      = (ReconstructionAnomaly.FIRST_ADDED_MISMATCH ticker' added' start').json) :
    ticker = ticker' := by
  -- the kinds before the ticker's text are the same, and the text ends with its quote
  have hquoted : ∃ rest rest' : Text, quoteUnits (lit ticker) ++ 34 :: rest
      = quoteUnits (lit ticker') ++ 34 :: rest' := by
    have hcut := List.append_cancel_right (List.cons.inj h).2
    unfold ReconstructionAnomaly.fields at hcut
    simp only [List.map_cons, List.map_nil, stringifyFields] at hcut
    have hkind := (List.append_cancel_left hcut : _)
    have hfield := List.append_cancel_left (List.cons.inj hkind).2
    have hticker := List.append_cancel_left (List.cons.inj hfield).2
    unfold ReconstructionAnomaly.textValue at hticker
    simp only [stringify, quote, List.cons_append, List.append_assoc] at hticker
    exact ⟨_, _, (List.cons.inj (List.cons.inj hticker).2).2⟩
  obtain ⟨rest, rest', hquoted⟩ := hquoted
  have hread := congrArg parseUnits hquoted
  rw [parseUnits_quoteUnits, parseUnits_quoteUnits] at hread
  exact codeUnits_injective (congrArg Prod.fst (Option.some.inj hread))

/-- What `compareAnomalies` compares. -/
def anomalyKey (anomaly : ReconstructionAnomaly) : List ℕ ×ₗ List ℕ ×ₗ List ℕ :=
  toLex (codeUnits anomaly.kind, toLex (codeUnits anomaly.dateText, anomaly.json))

theorem compares_compareAnomalies : Compares compareAnomalies anomalyKey := by
  intro left right
  rw [anomalyKey, anomalyKey, Prod.Lex.toLex_lt_toLex, Prod.Lex.toLex_lt_toLex]
  unfold compareAnomalies
  by_cases hkind : compareText left.kind right.kind = 0
  · have hsameKind := congrArg codeUnits (compareText_eq_zero_iff.mp hkind)
    rw [if_neg (not_not.mpr hkind)]
    by_cases hdate : compareText left.dateText right.dateText = 0
    · have hsameDate := congrArg codeUnits (compareText_eq_zero_iff.mp hdate)
      rw [if_neg (not_not.mpr hdate)]
      constructor
      · intro hneg
        split at hneg
        · next hlt => exact .inr ⟨hsameKind, .inr ⟨hsameDate, hlt⟩⟩
        · split at hneg <;> exact absurd hneg (by decide)
      · rintro (hlt | ⟨-, hlt | ⟨-, hlt⟩⟩)
        · exact absurd hlt hsameKind.not_lt
        · exact absurd hlt hsameDate.not_lt
        · rw [if_pos hlt]
          decide
    · rw [if_pos hdate, compares_compareText]
      constructor
      · exact fun hlt => .inr ⟨hsameKind, .inl hlt⟩
      · rintro (hlt | ⟨-, hlt | ⟨hsame, -⟩⟩)
        · exact absurd hlt hsameKind.not_lt
        · exact hlt
        · exact absurd (compareText_eq_zero_iff.mpr (codeUnits_injective hsame)) hdate
  · rw [if_pos hkind, compares_compareText]
    constructor
    · exact fun hlt => .inl hlt
    · rintro (hlt | ⟨hsame, -⟩)
      · exact hlt
      · exact absurd (compareText_eq_zero_iff.mpr (codeUnits_injective hsame)) hkind

/-- A stable sort takes in a front one by one. -/
theorem sortBy_append {α : Type} (compare : α → α → ℤ) (front back : List α) :
    sortBy compare (front ++ back)
      = front.foldr (List.orderedInsert (Precedes compare)) (sortBy compare back) := by
  unfold sortBy List.insertionSort
  rw [List.foldr_append]

theorem sortAnomalies_eq_of_perm {current current' : List CurrentConstituent}
    (hp : current.Perm current') (hsymbols : (current.map CurrentConstituent.symbol).Nodup)
    (anomalies : List ReconstructionAnomaly) (constituents : List ReconstructedConstituent)
    (logStart : Option ℤ) :
    sortBy compareAnomalies (anomalies ++ current.filterMap (mismatchOf constituents logStart))
      = sortBy compareAnomalies
          (anomalies ++ current'.filterMap (mismatchOf constituents logStart)) := by
  have hmismatch : ∀ {member anomaly}, mismatchOf constituents logStart member = some anomaly →
      ∃ added start, anomaly = .FIRST_ADDED_MISMATCH member.symbol added start := by
    intro member anomaly h
    obtain ⟨added, -, h⟩ := Option.bind_eq_some_iff.mp h
    dsimp only at h
    split at h
    · exact ⟨added, _, (Option.some.inj h).symm⟩
    · cases h
  rw [sortBy_append, sortBy_append]
  refine congrArg (fun sorted => anomalies.foldr _ sorted)
    (sortBy_eq_of_perm compares_compareAnomalies (hp.filterMap _) ?_)
  -- members of different symbols give anomalies of different texts
  have hpairwise : current.Pairwise fun left right => left.symbol ≠ right.symbol :=
    List.pairwise_map.mp hsymbols
  rw [List.Nodup, List.pairwise_map, List.pairwise_filterMap]
  refine hpairwise.imp fun {left right} hne anomaly hleft anomaly' hright hkey => ?_
  obtain ⟨added, start, rfl⟩ := hmismatch hleft
  obtain ⟨added', start', rfl⟩ := hmismatch hright
  exact hne (ticker_of_json_mismatch (congrArg (fun key => (ofLex (ofLex key).2).2) hkey))

/-! ### The reconstruction -/

/-- **The order of the inputs is forgotten.** -/
theorem reconstruct_eq_of_perm {input : ReconstructionInput} {current : List CurrentConstituent}
    (hcurrent : input.current.Perm current) (hchanges : input.changes.Perm changes)
    (hsymbols : (input.current.map CurrentConstituent.symbol).Nodup)
    (hcontent : HashesContent input.changes) :
    reconstructIndexMembership input
      = reconstructIndexMembership { input with current, changes } := by
  have hdedupe := dedupeChanges_eq_of_perm hchanges hcontent
  have happlied : appliedChanges input = appliedChanges { input with current, changes } := by
    unfold appliedChanges
    dsimp only
    rw [hdedupe, evidence_eq_of_perm hcurrent hsymbols]
  have hopening : openingWalk input = openingWalk { input with current, changes } := by
    unfold openingWalk openingAnomalies
    dsimp only
    rw [hdedupe, evidence_eq_of_perm hcurrent hsymbols, sortBySymbol_eq_of_perm hcurrent hsymbols]
  have hwalk : walkBack input = walkBack { input with current, changes } := by
    unfold walkBack
    rw [happlied, hopening]
    rfl
  unfold reconstructIndexMembership
  dsimp only
  rw [hwalk, happlied, sortAnomalies_eq_of_perm hcurrent hsymbols]

end FactorSage.IndexMembership
