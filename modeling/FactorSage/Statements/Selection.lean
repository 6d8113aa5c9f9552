import FactorSage.Statements.FinancialStatements

/-!
# What a selection depends on

The selection of a date reads the statements available on it, and nothing else of the list
(`select_congr`); where no two statements tie, not their order either (`select_perm`). So it moves
only when a statement becomes available (`availableOn_between`).
-/

namespace FactorSage.Statements

variable {V H : Type}

/-- The statements available on a date. -/
def availableOn (statements : List (FinancialStatement V H)) (date : CalendarDay) :
    List (FinancialStatement V H) :=
  statements.filter fun statement => statement.availableFromDate ≤ date

/-- The statements of one security. -/
def ofSecurity (statements : List (FinancialStatement V H)) (securityId : String) :
    List (FinancialStatement V H) :=
  statements.filter fun statement => statement.securityId = securityId

theorem availableOn_ofSecurity (statements : List (FinancialStatement V H)) (securityId : String)
    (date : CalendarDay) :
    ofSecurity (availableOn statements date) securityId
      = availableOn (ofSecurity statements securityId) date :=
  List.filter_comm _ _ _

theorem availableOn_availableOn (statements : List (FinancialStatement V H)) (date : CalendarDay) :
    availableOn (availableOn statements date) date = availableOn statements date := by
  unfold availableOn
  rw [List.filter_filter]
  exact List.filter_congr fun _ _ => Bool.and_self _

/-- Between two dates, where nothing becomes available, the same statements are. -/
theorem availableOn_between {statements : List (FinancialStatement V H)} {a b : CalendarDay}
    (hle : a ≤ b)
    (hnone : ∀ statement ∈ statements,
      a < statement.availableFromDate → b < statement.availableFromDate) :
    availableOn statements b = availableOn statements a := by
  refine List.filter_congr fun statement hmem => ?_
  rw [decide_eq_decide]
  refine ⟨fun hb => ?_, fun ha => ha.trans hle⟩
  by_contra hlate
  exact absurd hb (not_le.mpr (hnone statement hmem (not_le.mp hlate)))

variable {statements statements' : List (FinancialStatement V H)}

/-- What is available on a date says what was on an earlier one. -/
theorem availableOn_earlier {date earlier : CalendarDay} (hle : earlier ≤ date)
    (h : availableOn statements' date = availableOn statements date) :
    availableOn statements' earlier = availableOn statements earlier := by
  have hnested : ∀ statements : List (FinancialStatement V H),
      availableOn (availableOn statements date) earlier = availableOn statements earlier := by
    intro statements
    unfold availableOn
    rw [List.filter_filter]
    refine List.filter_congr fun statement _ => ?_
    rw [← Bool.decide_and, decide_eq_decide]
    exact ⟨And.left, fun hbefore => ⟨hbefore, hbefore.trans hle⟩⟩
  rw [← hnested, h, hnested]

variable [LinearOrder H]

/-- A selection reads the statements that match its query. -/
theorem select_of_matching {query query' : FinancialStatementQuery}
    (h : (statements.filter fun statement => matchesQuery statement query)
      = statements'.filter fun statement => matchesQuery statement query') :
    selectFinancialStatements statements query = selectFinancialStatements statements' query' := by
  unfold selectFinancialStatements selectedRevisions
  rw [h]

/-- **A selection as of a date** reads the statements available on it. -/
theorem select_congr (cadence : Option FinancialStatementCadence)
    {date date' : CalendarDay} (h : availableOn statements date = availableOn statements' date') :
    selectFinancialStatements statements ⟨none, cadence, none, none, some date⟩
      = selectFinancialStatements statements' ⟨none, cadence, none, none, some date'⟩ := by
  have hmatches : ∀ (statements : List (FinancialStatement V H)) (date : CalendarDay),
      (statements.filter fun statement =>
          matchesQuery statement ⟨none, cadence, none, none, some date⟩)
        = (availableOn statements date).filter fun statement =>
            cadence.all fun cadence => cadenceForPeriod statement.period = cadence := by
    intro statements date
    unfold availableOn
    rw [List.filter_filter]
    refine List.filter_congr fun statement _ => ?_
    simp [matchesQuery]
  refine select_of_matching ?_
  rw [hmatches, hmatches, h]

/-- Each revision of a selection is there once. -/
theorem nodup_select (statements : List (FinancialStatement V H)) (query : FinancialStatementQuery) :
    (selectFinancialStatements statements query).Nodup := by
  unfold selectFinancialStatements
  rw [(List.perm_insertionSort _ _).nodup_iff]
  have hkeys : (selectedRevisions statements query).values.map (·.identityKey)
      = (selectedRevisions statements query).keys := by
    unfold OrderedMap.values OrderedMap.keys
    rw [List.map_map]
    refine List.map_congr_left fun entry hentry => ?_
    obtain ⟨s, -, hkey, rfl⟩ :=
      isBest_selectedRevisions.exists_mem _ _ (OrderedMap.mem_entries_iff.mp hentry)
    exact hkey
  refine List.Nodup.of_map (fun statement => statement.identityKey) ?_
  rw [hkeys]
  exact (selectedRevisions statements query).nodup

theorem pairwise_select (statements : List (FinancialStatement V H))
    (query : FinancialStatementQuery) :
    (selectFinancialStatements statements query).Pairwise
      fun s t => resultOrder s ≤ resultOrder t := by
  have htotal : Std.Total fun s t : FinancialStatement V H => resultOrder s ≤ resultOrder t :=
    ⟨fun _ _ => le_total _ _⟩
  have htrans : IsTrans (FinancialStatement V H) fun s t => resultOrder s ≤ resultOrder t :=
    ⟨fun _ _ _ => le_trans⟩
  exact List.pairwise_insertionSort _ _

/-- **A selection does not depend on the order** of the statements, where none tie. -/
theorem select_perm (hperm : statements.Perm statements')
    (huntied : ∀ s ∈ statements, ∀ t ∈ statements, revisionRank s = revisionRank t → s = t)
    (query : FinancialStatementQuery) :
    selectFinancialStatements statements query = selectFinancialStatements statements' query := by
  have hbest : ∀ (l : List (FinancialStatement V H)),
      (∀ s ∈ l, ∀ t ∈ l, revisionRank s = revisionRank t → s = t) →
      ∀ s, s ∈ selectFinancialStatements l query ↔ s ∈ l ∧ matchesQuery s query = true
        ∧ ∀ t ∈ l, matchesQuery t query = true → t.identityKey = s.identityKey →
          revisionRank t ≤ revisionRank s := by
    intro l huntied s
    refine ⟨of_mem_select, fun ⟨hmem, hmatches, hbest⟩ => ?_⟩
    obtain ⟨t, ht, hkey⟩ := exists_mem_select hmem hmatches
    obtain ⟨hmem', hmatches', hbest'⟩ := of_mem_select ht
    have hrank : revisionRank t = revisionRank s :=
      le_antisymm (hbest t hmem' hmatches' hkey) (hbest' s hmem hmatches hkey.symm)
    rw [← huntied t hmem' s hmem hrank]
    exact ht
  have huntied' : ∀ s ∈ statements', ∀ t ∈ statements', revisionRank s = revisionRank t → s = t :=
    fun s hs t ht => huntied s (hperm.mem_iff.mpr hs) t (hperm.mem_iff.mpr ht)
  have hsame : (selectFinancialStatements statements query).Perm
      (selectFinancialStatements statements' query) := by
    refine (List.perm_ext_iff_of_nodup (nodup_select _ _) (nodup_select _ _)).mpr fun s => ?_
    rw [hbest _ huntied, hbest _ huntied', hperm.mem_iff]
    simp only [hperm.mem_iff]
  refine hsame.eq_of_pairwise (fun s t hs ht hle hge => ?_) (pairwise_select _ _)
    (pairwise_select _ _)
  -- revisions that come together tie
  have hmem := (of_mem_select hs).1
  have hmem' := (of_mem_select (hsame.mem_iff.mpr ht)).1
  have horder := toLex.injective (le_antisymm hle hge)
  have hrest := toLex.injective (Prod.mk.inj horder).2
  have hlast := toLex.injective (Prod.mk.inj hrest).2
  exact huntied s hmem t hmem' (Prod.mk.inj hlast).2

end FactorSage.Statements
