import FactorSage.Statements.StatementStore
import Mathlib.Data.List.Lex
import Mathlib.Order.Lex

/-!
# Which report of a statement is read

A history is a sequence of syncs at non-decreasing times, each with one row of an identity at most.
What it stores is the first report of each content (`Recorded`), dated by the rules of
`availableFrom`.

Read as of a date on or after the last sync's, and after every row of the identity is public:

* a content that an earlier sync stored is not stored again, and the last sync changes nothing for
  its identity (`select_of_isStored`);
* a new content is read exactly when no earlier revision of the identity is available after it
  (`readsContent_iff`).

A sync changes nothing that is read as of a date before its own, in a fiscal period already stored,
but through a real and newer filing (`select_before_sync`).
-/

namespace FactorSage.Statements

variable {V H : Type} [LinearOrder H] {contentHash : StatementContent V → H}

/-- The stored rows after a sequence of syncs. -/
inductive Synced (contentHash : StatementContent V → H) :
    List (SaveInput V) → List (FinancialStatement V H) → Prop
  | start : Synced contentHash [] []
  | sync {calls : List (SaveInput V)} {rows rows' : List (FinancialStatement V H)}
      {input : SaveInput V} {outcome : SaveOutcome} (h : Synced contentHash calls rows)
      (htime : ∀ call ∈ calls, call.syncedAt ≤ input.syncedAt)
      (hnodup : (input.statements.map fun draft => draft.identityKey).Nodup)
      (hsave : saveFinancialStatements contentHash rows input = .ok (rows', outcome)) :
      Synced contentHash (calls ++ [input]) rows'

/-- A row is the revision that one of the syncs made of one of its drafts. -/
def IsReportOf (contentHash : StatementContent V → H) (row : FinancialStatement V H)
    (call : SaveInput V) (draft : FinancialStatementDraft V) : Prop :=
  draft ∈ call.statements ∧ row.toFinancialStatementDraft = draft
    ∧ row.observedAt = call.syncedAt ∧ row.contentHash = contentHash draft.toStatementContent
    ∧ row.availableFromDate ≤ max draft.publicAvailabilityDate call.observedOn
    ∧ draft.publicAvailabilityDate ≤ row.availableFromDate

/-- What the stored rows are, after any history. -/
structure Recorded (contentHash : StatementContent V → H) (calls : List (SaveInput V))
    (rows : List (FinancialStatement V H)) : Prop where
  isReportOf : ∀ row ∈ rows, ∃ call ∈ calls, ∃ draft, IsReportOf contentHash row call draft
  stored : ∀ call ∈ calls, ∀ draft ∈ call.statements, IsStored contentHash rows draft
  unique : ∀ row ∈ rows, ∀ row' ∈ rows, row.identityKey = row'.identityKey →
    row.contentHash = row'.contentHash → row = row'

variable {rows : List (FinancialStatement V H)}

omit [LinearOrder H] in
theorem isReportOf_revisionOf {input : SaveInput V}
    {draft : FinancialStatementDraft V} (hdraft : draft ∈ input.statements) :
    IsReportOf contentHash (revisionOf contentHash rows input draft) input draft := by
  have hdate : (revisionOf contentHash rows input draft).availableFromDate
      = availableFrom rows input.observedOn draft := rfl
  refine ⟨hdraft, rfl, rfl, rfl, ?_, ?_⟩
  · rw [hdate, availableFrom]
    split
    · exact le_max_left _ _
    · exact le_rfl
  · rw [hdate, availableFrom]
    split
    · exact le_rfl
    · exact le_max_left _ _

/-- Two drafts of one sync with one identity are one draft. -/
theorem eq_of_identityKey {input : SaveInput V}
    (hnodup : (input.statements.map fun draft => draft.identityKey).Nodup)
    {draft draft' : FinancialStatementDraft V} (h : draft ∈ input.statements)
    (h' : draft' ∈ input.statements) (hkey : draft.identityKey = draft'.identityKey) :
    draft = draft' :=
  List.inj_on_of_nodup_map hnodup h h' hkey

omit [LinearOrder H] in
theorem IsStored.mono {rows rows' : List (FinancialStatement V H)}
    {draft : FinancialStatementDraft V} (h : IsStored contentHash rows draft)
    (hsub : ∀ row ∈ rows, row ∈ rows') : IsStored contentHash rows' draft := by
  obtain ⟨row, hrow, hkey, hhash⟩ := h
  exact ⟨row, hsub row hrow, hkey, hhash⟩

variable {calls : List (SaveInput V)}

/-- **What a history stores.** -/
theorem Synced.recorded (h : Synced contentHash calls rows) : Recorded contentHash calls rows := by
  induction h with
  | start =>
    exact
      { isReportOf := fun _ h => by cases h
        stored := fun _ h => by cases h
        unique := fun _ h => by cases h }
  | @sync calls rows rows' input outcome _ _ hnodup hsave ih =>
    have hspec := saveFinancialStatements_spec hnodup hsave
    have hsub : ∀ row ∈ rows, row ∈ rows' := fun row hrow => (hspec row).mpr (.inl hrow)
    refine ⟨fun row hrow => ?_, fun call hcall draft hdraft => ?_,
      fun row hrow row' hrow' hkey hhash => ?_⟩
    · obtain hold | ⟨draft, hdraft, -, rfl⟩ := (hspec row).mp hrow
      · obtain ⟨call, hcall, hreport⟩ := ih.isReportOf row hold
        exact ⟨call, List.mem_append_left _ hcall, hreport⟩
      · exact ⟨input, by simp, draft, isReportOf_revisionOf hdraft⟩
    · obtain hcall | hcall := List.mem_append.mp hcall
      · exact (ih.stored call hcall draft hdraft).mono hsub
      · rw [List.mem_singleton.mp hcall] at hdraft
        by_cases hst : IsStored contentHash rows draft
        · exact hst.mono hsub
        · exact ⟨_, (hspec _).mpr (.inr ⟨draft, hdraft, hst, rfl⟩), rfl, rfl⟩
    · obtain hold | ⟨draft, hdraft, hnew, rfl⟩ := (hspec row).mp hrow
      · obtain hold' | ⟨draft', hdraft', hnew', rfl⟩ := (hspec row').mp hrow'
        · exact ih.unique row hold row' hold' hkey hhash
        · exact absurd ⟨row, hold, hkey, hhash⟩ hnew'
      · obtain hold' | ⟨draft', hdraft', -, rfl⟩ := (hspec row').mp hrow'
        · exact absurd ⟨row', hold', hkey.symm, hhash.symm⟩ hnew
        · rw [eq_of_identityKey hnodup hdraft hdraft' hkey]

/-! ### What is read -/

/-- No two stored rows share an identity and a hash, so the selection is by rank alone. -/
theorem mem_select_iff_best
    (hunique : ∀ row ∈ rows, ∀ row' ∈ rows, row.identityKey = row'.identityKey →
      row.contentHash = row'.contentHash → row = row')
    {query : FinancialStatementQuery} {s : FinancialStatement V H} :
    s ∈ selectFinancialStatements rows query ↔ s ∈ rows ∧ matchesQuery s query = true
      ∧ ∀ s' ∈ rows, matchesQuery s' query = true → s'.identityKey = s.identityKey →
        revisionRank s' ≤ revisionRank s := by
  constructor
  · exact of_mem_select
  · rintro ⟨hmem, hmatches, hbest⟩
    obtain ⟨s', hs', hkey⟩ := exists_mem_select hmem hmatches
    obtain ⟨hmem', hmatches', hbest'⟩ := of_mem_select hs'
    have hrank : revisionRank s' = revisionRank s :=
      le_antisymm (hbest s' hmem' hmatches' hkey) (hbest' s hmem hmatches hkey.symm)
    have hhash : s'.contentHash = s.contentHash := by
      have hpair := (Prod.mk.inj (toLex.injective hrank)).2
      exact (Prod.mk.inj (toLex.injective hpair)).2
    rw [← hunique s' hmem' s hmem hkey hhash]
    exact hs'

/-- What is read of an identity depends only on its own eligible rows. -/
theorem mem_select_congr {rows rows' : List (FinancialStatement V H)}
    (hunique : ∀ row ∈ rows, ∀ row' ∈ rows, row.identityKey = row'.identityKey →
      row.contentHash = row'.contentHash → row = row')
    (hunique' : ∀ row ∈ rows', ∀ row' ∈ rows', row.identityKey = row'.identityKey →
      row.contentHash = row'.contentHash → row = row')
    {query : FinancialStatementQuery} {s : FinancialStatement V H}
    (hsame : ∀ row, row.identityKey = s.identityKey → matchesQuery row query = true →
      (row ∈ rows' ↔ row ∈ rows)) :
    s ∈ selectFinancialStatements rows' query ↔ s ∈ selectFinancialStatements rows query := by
  rw [mem_select_iff_best hunique', mem_select_iff_best hunique]
  constructor
  · rintro ⟨hmem, hmatches, hbest⟩
    refine ⟨(hsame s rfl hmatches).mp hmem, hmatches, fun s' hs' hmatches' hkey => ?_⟩
    exact hbest s' ((hsame s' hkey hmatches').mpr hs') hmatches' hkey
  · rintro ⟨hmem, hmatches, hbest⟩
    refine ⟨(hsame s rfl hmatches).mpr hmem, hmatches, fun s' hs' hmatches' hkey => ?_⟩
    exact hbest s' ((hsame s' hkey hmatches').mp hs') hmatches' hkey

/-- As of a date, the content of a draft is what is read of its identity. -/
def ReadsContent (rows : List (FinancialStatement V H)) (date : CalendarDay)
    (draft : FinancialStatementDraft V) : Prop :=
  ∃ s ∈ selectFinancialStatements rows (.on date), s.identityKey = draft.identityKey
    ∧ s.toStatementContent = draft.toStatementContent

/-- Every row ever saved for an identity is public by a date. -/
def PublicBy (calls : List (SaveInput V)) (identity : StatementIdentity) (date : CalendarDay) :
    Prop :=
  ∀ call ∈ calls, ∀ draft ∈ call.statements, draft.identityKey = identity →
    draft.publicAvailabilityDate ≤ date

theorem calendarDate_mono {t t' : Instant} (h : t ≤ t') : calendarDate t ≤ calendarDate t' :=
  Int.ediv_le_ediv (by decide) h

/-- One more sync of a history. -/
structure IsNextSync (contentHash : StatementContent V → H) (calls : List (SaveInput V))
    (rows : List (FinancialStatement V H)) (input : SaveInput V)
    (rows' : List (FinancialStatement V H)) : Prop where
  synced : Synced contentHash calls rows
  time : ∀ call ∈ calls, call.syncedAt ≤ input.syncedAt
  nodup : (input.statements.map fun draft => draft.identityKey).Nodup
  save : ∃ outcome, saveFinancialStatements contentHash rows input = .ok (rows', outcome)

namespace IsNextSync

variable {calls : List (SaveInput V)} {rows rows' : List (FinancialStatement V H)}
  {input : SaveInput V} {draft : FinancialStatementDraft V} {date : CalendarDay}

theorem synced' (h : IsNextSync contentHash calls rows input rows') :
    Synced contentHash (calls ++ [input]) rows' := by
  obtain ⟨outcome, hsave⟩ := h.save
  exact .sync h.synced h.time h.nodup hsave

theorem mem_iff (h : IsNextSync contentHash calls rows input rows')
    (row : FinancialStatement V H) : row ∈ rows' ↔ row ∈ rows ∨ ∃ draft ∈ input.statements,
      ¬ IsStored contentHash rows draft ∧ row = revisionOf contentHash rows input draft := by
  obtain ⟨outcome, hsave⟩ := h.save
  exact saveFinancialStatements_spec h.nodup hsave row

/-- A stored content was reported by an earlier sync, and the other way round. -/
theorem isStored_iff (h : IsNextSync contentHash calls rows input rows')
    (hinj : Function.Injective contentHash) :
    IsStored contentHash rows draft ↔ ∃ call ∈ calls, ∃ draft' ∈ call.statements,
      draft'.identityKey = draft.identityKey
        ∧ draft'.toStatementContent = draft.toStatementContent := by
  have hrecorded := h.synced.recorded
  constructor
  · rintro ⟨row, hrow, hkey, hhash⟩
    obtain ⟨call, hcall, draft', hmem, rfl, -, hhash', -, -⟩ := hrecorded.isReportOf row hrow
    exact ⟨call, hcall, _, hmem, hkey, hinj (hhash'.symm.trans hhash)⟩
  · rintro ⟨call, hcall, draft', hmem, hkey, hcontent⟩
    obtain ⟨row, hrow, hkey', hhash⟩ := hrecorded.stored call hcall draft' hmem
    exact ⟨row, hrow, hkey'.trans hkey, hhash.trans (by rw [hcontent])⟩

/-- On a date that every row is public by, no stored row of the identity is still to come. -/
theorem available (h : IsNextSync contentHash calls rows input rows')
    (hdate : input.observedOn ≤ date) (hpublic : PublicBy (calls ++ [input]) draft.identityKey date)
    {row : FinancialStatement V H} (hrow : row ∈ rows') (hkey : row.identityKey = draft.identityKey) :
    matchesQuery row (.on date) = true := by
  obtain ⟨call, hcall, draft', hmem, rfl, -, -, hle, -⟩ := h.synced'.recorded.isReportOf row hrow
  rw [matchesQuery_on]
  have hobserved : call.observedOn ≤ input.observedOn := by
    obtain hcall | hcall := List.mem_append.mp hcall
    · exact calendarDate_mono (h.time call hcall)
    · rw [List.mem_singleton.mp hcall]
  exact hle.trans (max_le (hpublic call hcall _ hmem hkey) (hobserved.trans hdate))

/-- **A new content is read exactly when its revision outranks the earlier ones.** -/
theorem readsContent_iff (h : IsNextSync contentHash calls rows input rows')
    (hdraft : draft ∈ input.statements) (hnew : ¬ IsStored contentHash rows draft)
    (hdate : input.observedOn ≤ date)
    (hpublic : PublicBy (calls ++ [input]) draft.identityKey date) :
    ReadsContent rows' date draft ↔ ∀ row ∈ rows, row.identityKey = draft.identityKey →
      revisionRank row ≤ revisionRank (revisionOf contentHash rows input draft) := by
  have hrecorded := h.synced'.recorded
  have hmine : revisionOf contentHash rows input draft ∈ rows' :=
    (h.mem_iff _).mpr (.inr ⟨draft, hdraft, hnew, rfl⟩)
  constructor
  · rintro ⟨s, hs, hkey, hcontent⟩ row hrow hrowKey
    obtain ⟨hmem, -, hbest⟩ := of_mem_select hs
    obtain ⟨call, -, draft', -, rfl, -, hhash, -, -⟩ := hrecorded.isReportOf s hmem
    have heq : s = revisionOf contentHash rows input draft := by
      refine hrecorded.unique s hmem _ hmine hkey (hhash.trans ?_)
      rw [hcontent]
      rfl
    subst heq
    have hrow' : row ∈ rows' := (h.mem_iff row).mpr (.inl hrow)
    exact hbest row hrow' (h.available hdate hpublic hrow' hrowKey) hrowKey
  · intro hrank
    refine ⟨revisionOf contentHash rows input draft, ?_, rfl, rfl⟩
    rw [mem_select_iff_best hrecorded.unique]
    refine ⟨hmine, h.available hdate hpublic hmine rfl, fun s hs _ hkey => ?_⟩
    obtain hold | ⟨draft', hdraft', -, rfl⟩ := (h.mem_iff s).mp hs
    · exact hrank s hold hkey
    · rw [eq_of_identityKey h.nodup hdraft' hdraft hkey]

/-- A later sync outranks what is available no later than its revision. -/
theorem revisionRank_le (h : IsNextSync contentHash calls rows input rows')
    (hlater : ∀ call ∈ calls, ∀ draft' ∈ call.statements,
      draft'.identityKey = draft.identityKey → call.syncedAt < input.syncedAt)
    {row : FinancialStatement V H} (hrow : row ∈ rows) (hkey : row.identityKey = draft.identityKey)
    (havailable : row.availableFromDate ≤ availableFrom rows input.observedOn draft) :
    revisionRank row ≤ revisionRank (revisionOf contentHash rows input draft) := by
  obtain ⟨call, hcall, draft', hmem, rfl, hobserved, -, -, -⟩ :=
    h.synced.recorded.isReportOf row hrow
  refine Prod.Lex.toLex_le_toLex.mpr ?_
  obtain hlt | heq := lt_or_eq_of_le havailable
  · exact .inl hlt
  · refine .inr ⟨heq, (Prod.Lex.toLex_lt_toLex.mpr (.inl ?_)).le⟩
    rw [hobserved]
    exact hlater call hcall _ hmem hkey

/-- A content that an earlier sync stored changes nothing that is read of its identity. -/
theorem select_of_isStored (h : IsNextSync contentHash calls rows input rows')
    (hdraft : draft ∈ input.statements) (hstored : IsStored contentHash rows draft)
    (query : FinancialStatementQuery) {s : FinancialStatement V H}
    (hkey : s.identityKey = draft.identityKey) :
    s ∈ selectFinancialStatements rows' query ↔ s ∈ selectFinancialStatements rows query := by
  refine mem_select_congr h.synced.recorded.unique h.synced'.recorded.unique fun row hrow _ => ?_
  rw [h.mem_iff row]
  refine or_iff_left ?_
  rintro ⟨draft', hdraft', hnew, rfl⟩
  rw [eq_of_identityKey h.nodup hdraft' hdraft (hrow.trans hkey)] at hnew
  exact hnew hstored

/-- **No sync rewrites the past**, but through a real filing newer than all that is stored. -/
theorem select_before_sync (h : IsNextSync contentHash calls rows input rows')
    (hdate : date < input.observedOn) {s : FinancialStatement V H}
    (hperiod : ∃ row ∈ rows, row.periodKey = s.periodKey)
    (hchanged : ¬ (s ∈ selectFinancialStatements rows' (.on date)
      ↔ s ∈ selectFinancialStatements rows (.on date))) :
    ∃ draft ∈ input.statements, draft.identityKey = s.identityKey
      ∧ draft.hasProviderFilingDate = true ∧ IsNewestFiling rows draft := by
  by_contra hnone
  refine hchanged (mem_select_congr h.synced.recorded.unique h.synced'.recorded.unique
    fun row hrow hmatches => ?_)
  rw [h.mem_iff row]
  refine or_iff_left ?_
  rintro ⟨draft, hdraft, -, rfl⟩
  -- a revision that is not the newest filing is available from the sync's own date at the earliest
  have hnot : ¬ IsNewestFiling rows draft := by
    intro hnewest
    obtain ⟨stored, hstored, hkey⟩ := hperiod
    have hfiled := (hnewest.2 stored hstored
      (hkey.trans (periodKey_eq_of_identityKey hrow).symm)).1
    exact hnone ⟨draft, hdraft, hrow, hfiled, hnewest⟩
  rw [matchesQuery_on] at hmatches
  change availableFrom rows input.observedOn draft ≤ date at hmatches
  rw [availableFrom, if_neg hnot] at hmatches
  exact absurd ((le_max_right _ _).trans hmatches) (not_le.mpr hdate)

end IsNextSync

/-- What one more sync does to what is read. `rows` are stored before it, `rows'` after it. -/
structure LatestReport (contentHash : StatementContent V → H) (calls : List (SaveInput V))
    (rows : List (FinancialStatement V H)) (input : SaveInput V)
    (rows' : List (FinancialStatement V H)) : Prop where
  /-- A new content is read exactly when no earlier revision of its identity outranks it. -/
  newContent : ∀ draft ∈ input.statements,
    (∀ call ∈ calls, ∀ draft' ∈ call.statements, draft'.identityKey = draft.identityKey →
      draft'.toStatementContent ≠ draft.toStatementContent) →
    ∀ date, input.observedOn ≤ date → PublicBy (calls ++ [input]) draft.identityKey date →
      (ReadsContent rows' date draft ↔ ∀ row ∈ rows, row.identityKey = draft.identityKey →
        revisionRank row ≤ revisionRank (revisionOf contentHash rows input draft))
  /-- In particular when the sync is later than those that reported the identity, and no earlier
  revision of it is available later. -/
  laterContent : ∀ draft ∈ input.statements,
    (∀ call ∈ calls, ∀ draft' ∈ call.statements, draft'.identityKey = draft.identityKey →
      draft'.toStatementContent ≠ draft.toStatementContent ∧ call.syncedAt < input.syncedAt) →
    (∀ row ∈ rows, row.identityKey = draft.identityKey →
      row.availableFromDate ≤ availableFrom rows input.observedOn draft) →
    ∀ date, input.observedOn ≤ date → PublicBy (calls ++ [input]) draft.identityKey date →
      ReadsContent rows' date draft
  /-- In particular when every earlier row of the identity is public by the sync's date, unless the
  new row is dated by its own newer filing. -/
  observedContent : ∀ draft ∈ input.statements,
    (∀ call ∈ calls, ∀ draft' ∈ call.statements, draft'.identityKey = draft.identityKey →
      draft'.toStatementContent ≠ draft.toStatementContent ∧ call.syncedAt < input.syncedAt
        ∧ draft'.publicAvailabilityDate ≤ input.observedOn) →
    ¬ IsNewestFiling rows draft →
    ∀ date, input.observedOn ≤ date → PublicBy (calls ++ [input]) draft.identityKey date →
      ReadsContent rows' date draft
  /-- A content that an earlier sync reported changes nothing that is read of its identity. -/
  knownContent : ∀ draft ∈ input.statements,
    (∃ call ∈ calls, ∃ draft' ∈ call.statements, draft'.identityKey = draft.identityKey
      ∧ draft'.toStatementContent = draft.toStatementContent) →
    ∀ query, ∀ s : FinancialStatement V H, s.identityKey = draft.identityKey →
      (s ∈ selectFinancialStatements rows' query ↔ s ∈ selectFinancialStatements rows query)
  /-- Nothing is changed as of a date before the sync's own, in a fiscal period already stored, but
  by a real filing newer than those of its identity and public after all those of its period. -/
  past : ∀ date, date < input.observedOn → ∀ s : FinancialStatement V H,
    (∃ row ∈ rows, row.periodKey = s.periodKey) →
    ¬ (s ∈ selectFinancialStatements rows' (.on date)
      ↔ s ∈ selectFinancialStatements rows (.on date)) →
    ∃ draft ∈ input.statements, draft.identityKey = s.identityKey
      ∧ draft.hasProviderFilingDate = true
      ∧ (∀ row ∈ rows, row.identityKey = draft.identityKey → row.filingDate < draft.filingDate)
      ∧ ∀ row ∈ rows, row.periodKey = draft.periodKey →
        row.publicAvailabilityDate < draft.publicAvailabilityDate

/-- **The latest report of a statement is read** where the dating of revisions lets it be, and no
report rewrites what was read before it. -/
theorem latestReport_of_nextSync (hinj : Function.Injective contentHash)
    {calls : List (SaveInput V)} {rows rows' : List (FinancialStatement V H)} {input : SaveInput V}
    (h : IsNextSync contentHash calls rows input rows') :
    LatestReport contentHash calls rows input rows' := by
  have hnotStored : ∀ draft : FinancialStatementDraft V,
      (∀ call ∈ calls, ∀ draft' ∈ call.statements, draft'.identityKey = draft.identityKey →
        draft'.toStatementContent ≠ draft.toStatementContent) →
      ¬ IsStored contentHash rows draft := by
    intro draft hnew hstored
    obtain ⟨call, hcall, draft', hmem, hkey, hcontent⟩ := (h.isStored_iff hinj).mp hstored
    exact hnew call hcall draft' hmem hkey hcontent
  -- no row of the identity outranks a report synced later that is available no earlier
  have hlater : ∀ draft ∈ input.statements,
      (∀ call ∈ calls, ∀ draft' ∈ call.statements, draft'.identityKey = draft.identityKey →
        draft'.toStatementContent ≠ draft.toStatementContent ∧ call.syncedAt < input.syncedAt) →
      (∀ row ∈ rows, row.identityKey = draft.identityKey →
        row.availableFromDate ≤ availableFrom rows input.observedOn draft) →
      ∀ date, input.observedOn ≤ date → PublicBy (calls ++ [input]) draft.identityKey date →
        ReadsContent rows' date draft := by
    intro draft hdraft hnew havailable date hdate hpublic
    refine (h.readsContent_iff hdraft (hnotStored draft fun call hcall draft' hmem hkey =>
      (hnew call hcall draft' hmem hkey).1) hdate hpublic).mpr fun row hrow hkey => ?_
    exact h.revisionRank_le (fun call hcall draft' hmem hkey' =>
      (hnew call hcall draft' hmem hkey').2) hrow hkey (havailable row hrow hkey)
  constructor
  · intro draft hdraft hnew date hdate hpublic
    exact h.readsContent_iff hdraft (hnotStored draft hnew) hdate hpublic
  · exact hlater
  · intro draft hdraft hnew hnotNewest date hdate hpublic
    refine hlater draft hdraft (fun call hcall draft' hmem hkey =>
      ⟨(hnew call hcall draft' hmem hkey).1, (hnew call hcall draft' hmem hkey).2.1⟩)
      (fun row hrow hkey => ?_) date hdate hpublic
    obtain ⟨call, hcall, draft', hmem, rfl, -, -, hle, -⟩ := h.synced.recorded.isReportOf row hrow
    rw [availableFrom, if_neg hnotNewest]
    refine hle.trans ((max_le ?_ ?_).trans (le_max_right _ _))
    · exact (hnew call hcall _ hmem hkey).2.2
    · exact calendarDate_mono (h.time call hcall)
  · intro draft hdraft hknown query s hkey
    exact h.select_of_isStored hdraft ((h.isStored_iff hinj).mpr hknown) query hkey
  · intro date hdate s hperiod hchanged
    obtain ⟨draft, hdraft, hkey, hfiled, hnewest⟩ := h.select_before_sync hdate hperiod hchanged
    exact ⟨draft, hdraft, hkey, hfiled, hnewest.1, fun row hrow hrowKey =>
      (hnewest.2 row hrow hrowKey).2⟩

/-! ### Reports that are not read -/

/-- Every content of the last sync is read, as of every date it should be. -/
def LatestReportWins (calls : List (SaveInput V)) (input : SaveInput V)
    (rows' : List (FinancialStatement V H)) : Prop :=
  ∀ draft ∈ input.statements, ∀ date, input.observedOn ≤ date →
    PublicBy (calls ++ [input]) draft.identityKey date → ReadsContent rows' date draft

/-- A hash without collisions, over values that are one number. -/
def sampleHash (content : StatementContent ℕ) : List ℕ :=
  [statementTypeRank content.statementType, content.fiscalDate.toNat, (-content.fiscalDate).toNat,
    content.fiscalYear, periodRank content.period, content.filingDate.toNat,
    (-content.filingDate).toNat, content.values] ++ content.reportedCurrency.toList.map Char.toNat

theorem eq_of_toNat_eq {a b : ℤ} (h : a.toNat = b.toNat) (h' : (-a).toNat = (-b).toNat) : a = b := by
  omega

theorem sampleHash_injective : Function.Injective sampleHash := by
  rintro ⟨t, d, y, p, c, f, v⟩ ⟨t', d', y', p', c', f', v'⟩ h
  simp only [sampleHash, List.cons_append, List.nil_append, List.cons.injEq] at h
  obtain ⟨ht, hd, hd', rfl, hp, hf, hf', rfl, hc⟩ := h
  obtain rfl : t = t' := by cases t <;> cases t' <;> simp_all [statementTypeRank]
  obtain rfl : p = p' := by cases p <;> cases p' <;> simp_all [periodRank]
  obtain rfl : d = d' := eq_of_toNat_eq hd hd'
  obtain rfl : f = f' := eq_of_toNat_eq hf hf'
  have hchars : c.toList = c'.toList :=
    List.map_injective_iff.mpr (fun a b hab => Char.toNat_inj.mp hab) hc
  obtain rfl : c = c' := String.toList_injective hchars
  rfl

def sampleDraft (filingDate : CalendarDay) (values : ℕ) : FinancialStatementDraft ℕ where
  statementType := .income
  fiscalDate := 89
  fiscalYear := 1970
  period := .q1
  reportedCurrency := "USD"
  filingDate := filingDate
  values := values
  securityId := "S"
  providerAcceptedDate := none

/-- A sync on a day, of one draft. -/
def sampleSync (day : ℤ) (filingDate : CalendarDay) (values : ℕ) : SaveInput ℕ :=
  ⟨"S", [sampleDraft filingDate values], day * 86400000⟩

/-- The rows that a sequence of syncs stores. -/
def saveAll (contentHash : StatementContent V → H) (calls : List (SaveInput V)) :
    List (FinancialStatement V H) :=
  calls.foldl (fun rows input => match saveFinancialStatements contentHash rows input with
    | .ok (rows', _) => rows'
    | .error _ => rows) []

/-- One more sync of stored calls, checked by running it. -/
theorem isNextSync_saveAll {input : SaveInput V}
    (outcome : SaveOutcome) (h : Synced contentHash calls (saveAll contentHash calls))
    (htime : ∀ call ∈ calls, call.syncedAt ≤ input.syncedAt)
    (hnodup : (input.statements.map fun draft => draft.identityKey).Nodup)
    (hsave : saveFinancialStatements contentHash (saveAll contentHash calls) input
      = .ok (saveAll contentHash (calls ++ [input]), outcome)) :
    IsNextSync contentHash calls (saveAll contentHash calls) input
      (saveAll contentHash (calls ++ [input])) :=
  ⟨h, htime, hnodup, outcome, hsave⟩

theorem synced_reported : Synced sampleHash [sampleSync 120 110 1]
    (saveAll sampleHash [sampleSync 120 110 1]) :=
  (isNextSync_saveAll ⟨1, 0⟩ .start (by simp) (by decide) (by rfl)).synced'

/-- A quarter reported, and corrected. -/
theorem nextSync_corrected : IsNextSync sampleHash [sampleSync 120 110 1]
    (saveAll sampleHash [sampleSync 120 110 1]) (sampleSync 130 110 2)
    (saveAll sampleHash ([sampleSync 120 110 1] ++ [sampleSync 130 110 2])) :=
  isNextSync_saveAll ⟨1, 0⟩ synced_reported (by decide) (by decide) (by rfl)

/-- The quarter reported again as it was at first. -/
theorem nextSync_reverted : IsNextSync sampleHash [sampleSync 120 110 1, sampleSync 130 110 2]
    (saveAll sampleHash [sampleSync 120 110 1, sampleSync 130 110 2]) (sampleSync 140 110 1)
    (saveAll sampleHash [sampleSync 120 110 1, sampleSync 130 110 2, sampleSync 140 110 1]) :=
  isNextSync_saveAll ⟨0, 1⟩ nextSync_corrected.synced' (by decide) (by decide) (by rfl)

/-- A quarter reported with its period end for a filing date, and then with its real filing, which
is public before the placeholder's deadline. -/
theorem nextSync_filed : IsNextSync sampleHash [sampleSync 100 89 1]
    (saveAll sampleHash [sampleSync 100 89 1]) (sampleSync 115 114 2)
    (saveAll sampleHash [sampleSync 100 89 1, sampleSync 115 114 2]) :=
  isNextSync_saveAll ⟨1, 0⟩
    (isNextSync_saveAll ⟨1, 0⟩ .start (by simp) (by decide) (by rfl)).synced'
    (by decide) (by decide) (by rfl)

theorem latestReport_sample : LatestReport sampleHash [sampleSync 120 110 1]
    (saveAll sampleHash [sampleSync 120 110 1]) (sampleSync 130 110 2)
    (saveAll sampleHash ([sampleSync 120 110 1] ++ [sampleSync 130 110 2])) :=
  latestReport_of_nextSync sampleHash_injective nextSync_corrected

theorem publicBy_of_forall {identity : StatementIdentity} {date : CalendarDay}
    (h : ∀ call ∈ calls, ∀ draft ∈ call.statements, draft.publicAvailabilityDate ≤ date) :
    PublicBy calls identity date := fun call hcall draft hdraft _ => h call hcall draft hdraft

/-- A report that returns to an earlier content is not read, and neither is a real filing that is
public before the deadline of the placeholder it replaces. -/
theorem not_latestReportWins :
    ¬ (∀ (calls : List (SaveInput ℕ)) (rows rows' : List (FinancialStatement ℕ (List ℕ)))
      (input : SaveInput ℕ), IsNextSync sampleHash calls rows input rows' →
        LatestReportWins calls input rows')
    ∧ IsNextSync sampleHash [sampleSync 100 89 1]
      (saveAll sampleHash [sampleSync 100 89 1]) (sampleSync 115 114 2)
      (saveAll sampleHash [sampleSync 100 89 1, sampleSync 115 114 2])
    ∧ ¬ LatestReportWins [sampleSync 100 89 1] (sampleSync 115 114 2)
      (saveAll sampleHash [sampleSync 100 89 1, sampleSync 115 114 2]) := by
  refine ⟨?_, nextSync_filed, ?_⟩
  · intro h
    obtain ⟨s, hs, -, hcontent⟩ := h _ _ _ _ nextSync_reverted (sampleDraft 110 1)
      (by simp [sampleSync]) 200 (by decide) (publicBy_of_forall (by decide))
    have hread : ∀ s ∈ selectFinancialStatements (saveAll sampleHash
        [sampleSync 120 110 1, sampleSync 130 110 2, sampleSync 140 110 1]) (.on 200),
        s.values = 2 := by decide
    have := congrArg StatementContent.values hcontent
    rw [hread s hs] at this
    cases this
  · intro h
    obtain ⟨s, hs, -, hcontent⟩ := h (sampleDraft 114 2) (by simp [sampleSync])
      200 (by decide) (publicBy_of_forall (by decide))
    have hread : ∀ s ∈ selectFinancialStatements (saveAll sampleHash
        [sampleSync 100 89 1, sampleSync 115 114 2]) (.on 200), s.values = 1 := by decide
    have := congrArg StatementContent.values hcontent
    rw [hread s hs] at this
    cases this

end FactorSage.Statements
