import FactorSage.Statements.FinancialStatements

/-!
# Saving financial statements

`saveFinancialStatements` adds the revisions of one sync to the stored rows. A row whose content is
already stored for its identity adds nothing; a new one is dated by its own filing when that is a
newer filing than all that is known, and otherwise from no earlier than the sync that observed it.

The content hash is a parameter of the module: the store compares hashes and never looks behind
them.
-/

namespace FactorSage.Statements

variable {V H : Type} [LinearOrder H]

/-- The calendar date of an instant, in UTC. -/
def calendarDate (instant : Instant) : CalendarDay := instant / 86400000

structure SaveInput (V : Type) where
  securityId : String
  statements : List (FinancialStatementDraft V)
  syncedAt : Instant

/-- The calendar date the sync observed its rows on. -/
def SaveInput.observedOn (input : SaveInput V) : CalendarDay := calendarDate input.syncedAt

/-- What dedupes a revision: `financialStatementRevisionKey`. -/
def revisionKey (contentHash : StatementContent V → H) (statement : FinancialStatementDraft V) :
    StatementIdentity × H :=
  (statement.identityKey, contentHash statement.toStatementContent)

/-- What earlier syncs stored of a security, as a sync reads it. -/
structure KnownStatements (H : Type) where
  existingByRevision : List (StatementIdentity × H)
  latestKnownFilingDateByIdentity : OrderedMap StatementIdentity CalendarDay
  storedPublicDateByPeriod : OrderedMap StatementPeriod CalendarDay

def readKnown (existingRows : List (FinancialStatement V H)) : KnownStatements H where
  existingByRevision := existingRows.map fun row => (row.identityKey, row.contentHash)
  latestKnownFilingDateByIdentity := OrderedMap.addBest id
    (fun row => row.identityKey) (fun row => row.filingDate) .empty existingRows
  storedPublicDateByPeriod := OrderedMap.addBest id
    (fun row => row.periodKey) (fun row => row.publicAvailabilityDate) .empty existingRows

/-- The filing is newer than everything known for the identity and, in a fiscal period that an
earlier sync stored, a real filing that became public after every stored one. -/
def canUseInitialAvailability (latestKnownFilingDate : Option CalendarDay)
    (storedPeriodPublicDate : Option CalendarDay) (statement : StatementContent V) : Bool :=
  (latestKnownFilingDate.all fun known => known < statement.filingDate)
    && storedPeriodPublicDate.all fun stored =>
      statement.hasProviderFilingDate && stored < statement.publicAvailabilityDate

/-- The rows planned so far by one sync, and what it knows. -/
structure SavePlan (V H : Type) where
  rowsToInsert : List (FinancialStatement V H)
  plannedRevisions : List (StatementIdentity × H)
  latestKnownFilingDateByIdentity : OrderedMap StatementIdentity CalendarDay
  unchangedCount : ℕ

section

variable (contentHash : StatementContent V → H) (known : KnownStatements H) (observedAt : Instant)

/-- The row a sync stores for a statement that is new to it. -/
def newRow (latestKnownFilingDate : Option CalendarDay) (statement : FinancialStatementDraft V) :
    FinancialStatement V H :=
  { statement with
    availableFromDate :=
      if canUseInitialAvailability latestKnownFilingDate
          (known.storedPublicDateByPeriod.get? statement.periodKey) statement.toStatementContent
      then statement.publicAvailabilityDate
      else max statement.publicAvailabilityDate (calendarDate observedAt)
    observedAt := observedAt
    contentHash := contentHash statement.toStatementContent }

def planStatement (plan : SavePlan V H) (statement : FinancialStatementDraft V) : SavePlan V H :=
  if revisionKey contentHash statement ∈ known.existingByRevision
      ∨ revisionKey contentHash statement ∈ plan.plannedRevisions then
    { plan with unchangedCount := plan.unchangedCount + 1 }
  else
    { rowsToInsert := plan.rowsToInsert ++ [newRow contentHash known observedAt
        (plan.latestKnownFilingDateByIdentity.get? statement.identityKey) statement]
      plannedRevisions := revisionKey contentHash statement :: plan.plannedRevisions
      latestKnownFilingDateByIdentity := plan.latestKnownFilingDateByIdentity.keepBest id
        statement.identityKey statement.filingDate
      unchangedCount := plan.unchangedCount }

end

structure SaveOutcome where
  insertedRevisionCount : ℕ
  unchangedCount : ℕ
  deriving DecidableEq, Repr

/-- Oldest filing first; rows that share a filing date keep the provider's order. -/
def byFilingDate (statements : List (FinancialStatementDraft V)) :
    List (FinancialStatementDraft V) :=
  ComparatorSort.sortBy (fun left right => left.filingDate - right.filingDate) statements

def planSync (contentHash : StatementContent V → H) (rows : List (FinancialStatement V H))
    (input : SaveInput V) : SavePlan V H :=
  let known := readKnown (rows.filter fun row => row.securityId = input.securityId)
  (byFilingDate input.statements).foldl (planStatement contentHash known input.syncedAt)
    ⟨[], [], known.latestKnownFilingDateByIdentity, 0⟩

/-- The stored rows after a sync. A row of another security throws, and nothing is stored. -/
def saveFinancialStatements (contentHash : StatementContent V → H)
    (rows : List (FinancialStatement V H)) (input : SaveInput V) :
    Except String (List (FinancialStatement V H) × SaveOutcome) :=
  if input.statements.any fun statement => statement.securityId ≠ input.securityId then
    .error "Financial statement securityId mismatch"
  else
    let plan := planSync contentHash rows input
    .ok (rows ++ plan.rowsToInsert, ⟨plan.rowsToInsert.length, plan.unchangedCount⟩)

/-! ### What a sync stores -/

/-- The filing dates a statement as its own availability: it is newer than every stored filing of
its identity and, in a stored fiscal period, a real filing public after every stored one. -/
def IsNewestFiling (rows : List (FinancialStatement V H)) (draft : FinancialStatementDraft V) :
    Prop :=
  (∀ row ∈ rows, row.identityKey = draft.identityKey → row.filingDate < draft.filingDate)
    ∧ ∀ row ∈ rows, row.periodKey = draft.periodKey →
      draft.hasProviderFilingDate = true
        ∧ row.publicAvailabilityDate < draft.publicAvailabilityDate

instance (rows : List (FinancialStatement V H)) (draft : FinancialStatementDraft V) :
    Decidable (IsNewestFiling rows draft) :=
  inferInstanceAs (Decidable (_ ∧ _))

/-- The date a sync dates a new revision from. -/
def availableFrom (rows : List (FinancialStatement V H)) (observedOn : CalendarDay)
    (draft : FinancialStatementDraft V) : CalendarDay :=
  if IsNewestFiling rows draft then draft.publicAvailabilityDate
  else max draft.publicAvailabilityDate observedOn

/-- The revision a sync stores of a draft that is new to the stored rows. -/
def revisionOf (contentHash : StatementContent V → H) (rows : List (FinancialStatement V H))
    (input : SaveInput V) (draft : FinancialStatementDraft V) : FinancialStatement V H :=
  { draft with
    availableFromDate := availableFrom rows input.observedOn draft
    observedAt := input.syncedAt
    contentHash := contentHash draft.toStatementContent }

/-- The content of a draft is stored for its identity. -/
def IsStored (contentHash : StatementContent V → H) (rows : List (FinancialStatement V H))
    (draft : FinancialStatementDraft V) : Prop :=
  ∃ row ∈ rows, row.identityKey = draft.identityKey
    ∧ row.contentHash = contentHash draft.toStatementContent

theorem periodKey_eq_of_identityKey {s s' : FinancialStatementDraft V}
    (h : s.identityKey = s'.identityKey) : s.periodKey = s'.periodKey :=
  congrArg StatementIdentity.periodKey h

theorem securityId_of_periodKey {s s' : FinancialStatementDraft V}
    (h : s.periodKey = s'.periodKey) : s.securityId = s'.securityId :=
  congrArg StatementPeriod.securityId h

/-! ### The sync stores exactly the new contents -/

section Plan

variable {rows : List (FinancialStatement V H)} {draft : FinancialStatementDraft V}

/-- The rows that a sync of a security reads. -/
def rowsOf (rows : List (FinancialStatement V H)) (securityId : String) :
    List (FinancialStatement V H) :=
  rows.filter fun row => row.securityId = securityId

section

omit [LinearOrder H]

theorem mem_rowsOf {securityId : String} {row : FinancialStatement V H} :
    row ∈ rowsOf rows securityId ↔ row ∈ rows ∧ row.securityId = securityId := by
  simp [rowsOf]

theorem isBest_latestKnownFilingDate (existing : List (FinancialStatement V H)) :
    OrderedMap.IsBest id (fun row => row.identityKey) (fun row => row.filingDate) existing
      (readKnown existing).latestKnownFilingDateByIdentity :=
  OrderedMap.isBest_addBest_empty existing

theorem isBest_storedPublicDate (existing : List (FinancialStatement V H)) :
    OrderedMap.IsBest id (fun row => row.periodKey) (fun row => row.publicAvailabilityDate) existing
      (readKnown existing).storedPublicDateByPeriod :=
  OrderedMap.isBest_addBest_empty existing

/-- The known dates decide as the stored rows do. -/
theorem canUseInitialAvailability_iff :
    canUseInitialAvailability
      ((readKnown (rowsOf rows draft.securityId)).latestKnownFilingDateByIdentity.get?
        draft.identityKey)
      ((readKnown (rowsOf rows draft.securityId)).storedPublicDateByPeriod.get? draft.periodKey)
      draft.toStatementContent = true ↔ IsNewestFiling rows draft := by
  unfold canUseInitialAvailability IsNewestFiling
  rw [Bool.and_eq_true, (isBest_latestKnownFilingDate _).all_iff, (isBest_storedPublicDate _).all_iff]
  · simp only [mem_rowsOf, decide_eq_true_eq, Bool.and_eq_true]
    constructor
    · rintro ⟨hfiling, hpublic⟩
      refine ⟨fun row hrow hkey => ?_, fun row hrow hkey => ?_⟩
      · have hsecurity := securityId_of_periodKey (periodKey_eq_of_identityKey hkey)
        exact hfiling row ⟨hrow, hsecurity⟩ hkey
      · exact hpublic row ⟨hrow, securityId_of_periodKey hkey⟩ hkey
    · rintro ⟨hfiling, hpublic⟩
      exact ⟨fun row hrow hkey => hfiling row hrow.1 hkey,
        fun row hrow hkey => hpublic row hrow.1 hkey⟩
  · intro v w hle hw
    simp only [Bool.and_eq_true, decide_eq_true_eq] at hw ⊢
    exact ⟨hw.1, lt_of_le_of_lt hle hw.2⟩
  · intro v w hle hw
    rw [decide_eq_true_eq] at hw ⊢
    exact lt_of_le_of_lt hle hw

theorem newRow_eq_revisionOf (contentHash : StatementContent V → H) (input : SaveInput V) :
    newRow contentHash (readKnown (rowsOf rows draft.securityId)) input.syncedAt
      ((readKnown (rowsOf rows draft.securityId)).latestKnownFilingDateByIdentity.get?
        draft.identityKey) draft
      = revisionOf contentHash rows input draft := by
  unfold newRow revisionOf availableFrom
  by_cases h : IsNewestFiling rows draft
  · simp only [canUseInitialAvailability_iff.mpr h, h, if_true]
  · simp only [mt canUseInitialAvailability_iff.mp h, h, if_false]
    rfl

theorem mem_existingByRevision_iff {contentHash : StatementContent V → H} :
    revisionKey contentHash draft
        ∈ (readKnown (rowsOf rows draft.securityId)).existingByRevision
      ↔ IsStored contentHash rows draft := by
  unfold readKnown revisionKey IsStored
  simp only [List.mem_map, mem_rowsOf, Prod.mk.injEq]
  constructor
  · rintro ⟨row, ⟨hrow, -⟩, hkey, hhash⟩
    exact ⟨row, hrow, hkey, hhash⟩
  · rintro ⟨row, hrow, hkey, hhash⟩
    have hsecurity := securityId_of_periodKey (periodKey_eq_of_identityKey hkey)
    exact ⟨row, ⟨hrow, hsecurity⟩, hkey, hhash⟩

end

/-- What a sync has planned after some of its drafts, each of another identity: the rows new to the
store, and nothing known yet of the identities still to come. -/
structure Planned (contentHash : StatementContent V → H) (rows : List (FinancialStatement V H))
    (input : SaveInput V) (done : List (FinancialStatementDraft V)) (plan : SavePlan V H) :
    Prop where
  mem_rows : ∀ row, row ∈ plan.rowsToInsert ↔
    ∃ draft ∈ done, ¬ IsStored contentHash rows draft ∧ row = revisionOf contentHash rows input draft
  planned : ∀ key ∈ plan.plannedRevisions, ∃ draft ∈ done, key.1 = draft.identityKey
  latest : ∀ identity, (∀ draft ∈ done, draft.identityKey ≠ identity) →
    plan.latestKnownFilingDateByIdentity.get? identity
      = (readKnown (rowsOf rows input.securityId)).latestKnownFilingDateByIdentity.get? identity

variable {contentHash : StatementContent V → H}

theorem Planned.snoc {input : SaveInput V}
    {done : List (FinancialStatementDraft V)} {plan : SavePlan V H}
    (h : Planned contentHash rows input done plan) (hsecurity : draft.securityId = input.securityId)
    (hnew : ∀ draft' ∈ done, draft'.identityKey ≠ draft.identityKey) :
    Planned contentHash rows input (done ++ [draft])
      (planStatement contentHash (readKnown (rowsOf rows input.securityId)) input.syncedAt plan
        draft) := by
  have hplanned : revisionKey contentHash draft ∉ plan.plannedRevisions := by
    intro hmem
    obtain ⟨draft', hdraft', hkey⟩ := h.planned _ hmem
    exact hnew draft' hdraft' hkey.symm
  have hstored : revisionKey contentHash draft
      ∈ (readKnown (rowsOf rows input.securityId)).existingByRevision
        ↔ IsStored contentHash rows draft := by
    rw [← hsecurity]
    exact mem_existingByRevision_iff
  unfold planStatement
  -- a revision already stored adds no row, and the identities of a call are distinct
  by_cases hst : IsStored contentHash rows draft
  · rw [if_pos (.inl (hstored.mpr hst))]
    refine ⟨fun row => ?_, fun key hkey => ?_, fun identity hidentity => ?_⟩
    · rw [h.mem_rows row]
      constructor
      · rintro ⟨draft', hdraft', hrest⟩
        exact ⟨draft', List.mem_append_left _ hdraft', hrest⟩
      · rintro ⟨draft', hdraft', hnot, hrow⟩
        obtain hdraft' | hdraft' := List.mem_append.mp hdraft'
        · exact ⟨draft', hdraft', hnot, hrow⟩
        · rw [List.mem_singleton.mp hdraft'] at hnot
          exact absurd hst hnot
    · obtain ⟨draft', hdraft', heq⟩ := h.planned key hkey
      exact ⟨draft', List.mem_append_left _ hdraft', heq⟩
    · exact h.latest identity fun draft' hdraft' => hidentity draft' (List.mem_append_left _ hdraft')
  · rw [if_neg (not_or.mpr ⟨mt hstored.mp hst, hplanned⟩)]
    have hrow : newRow contentHash (readKnown (rowsOf rows input.securityId)) input.syncedAt
        (plan.latestKnownFilingDateByIdentity.get? draft.identityKey) draft
          = revisionOf contentHash rows input draft := by
      rw [h.latest draft.identityKey hnew, ← hsecurity]
      exact newRow_eq_revisionOf contentHash input
    refine ⟨fun row => ?_, fun key hkey => ?_, fun identity hidentity => ?_⟩
    · simp only [hrow, List.mem_append, List.mem_singleton, h.mem_rows row]
      constructor
      · rintro (⟨draft', hdraft', hrest⟩ | rfl)
        · exact ⟨draft', .inl hdraft', hrest⟩
        · exact ⟨draft, .inr rfl, hst, rfl⟩
      · rintro ⟨draft', hdraft' | rfl, hnot, rfl⟩
        · exact .inl ⟨draft', hdraft', hnot, rfl⟩
        · exact .inr rfl
    · obtain rfl | hkey := List.mem_cons.mp hkey
      · exact ⟨draft, by simp, rfl⟩
      · obtain ⟨draft', hdraft', heq⟩ := h.planned key hkey
        exact ⟨draft', List.mem_append_left _ hdraft', heq⟩
    · have hne : identity ≠ draft.identityKey := (hidentity draft (by simp)).symm
      rw [OrderedMap.get?_keepBest_of_ne _ _ hne]
      exact h.latest identity fun draft' hdraft' => hidentity draft' (List.mem_append_left _ hdraft')

theorem Planned.foldl {input : SaveInput V}
    {done drafts : List (FinancialStatementDraft V)} {plan : SavePlan V H}
    (h : Planned contentHash rows input done plan)
    (hsecurity : ∀ draft ∈ drafts, draft.securityId = input.securityId)
    (hnodup : ((done ++ drafts).map fun draft => draft.identityKey).Nodup) :
    Planned contentHash rows input (done ++ drafts)
      (drafts.foldl (planStatement contentHash (readKnown (rowsOf rows input.securityId))
        input.syncedAt) plan) := by
  induction drafts generalizing done plan with
  | nil =>
    rw [List.append_nil]
    exact h
  | cons draft drafts ih =>
    rw [List.append_cons] at hnodup ⊢
    have hnew : ∀ draft' ∈ done, draft'.identityKey ≠ draft.identityKey := by
      intro draft' hdraft' heq
      rw [List.append_assoc, List.map_append, List.nodup_append] at hnodup
      exact hnodup.2.2 _ (List.mem_map_of_mem hdraft') _ (by simp) heq
    exact ih (h.snoc (hsecurity draft List.mem_cons_self) hnew)
      (fun draft' hdraft' => hsecurity draft' (List.mem_cons_of_mem _ hdraft')) hnodup

/-- **What a sync stores.** With one row of each identity, it adds the revisions of exactly the
drafts whose content is new to the store. -/
theorem saveFinancialStatements_spec {input : SaveInput V}
    {rows' : List (FinancialStatement V H)} {outcome : SaveOutcome}
    (hnodup : (input.statements.map fun draft => draft.identityKey).Nodup)
    (hsave : saveFinancialStatements contentHash rows input = .ok (rows', outcome)) :
    ∀ row, row ∈ rows' ↔ row ∈ rows ∨ ∃ draft ∈ input.statements,
      ¬ IsStored contentHash rows draft ∧ row = revisionOf contentHash rows input draft := by
  unfold saveFinancialStatements at hsave
  split at hsave
  · cases hsave
  · next hsecurity =>
    obtain ⟨rfl, -⟩ := Prod.mk.inj (Except.ok.inj hsave)
    have hperm : (byFilingDate input.statements).Perm input.statements :=
      ComparatorSort.sortBy_perm _ _
    have hsecurity' : ∀ draft ∈ byFilingDate input.statements,
        draft.securityId = input.securityId := by
      intro draft hdraft
      by_contra hne
      exact hsecurity (List.any_eq_true.mpr ⟨draft, hperm.mem_iff.mp hdraft, decide_eq_true hne⟩)
    have hstart : Planned contentHash rows input []
        ⟨[], [], (readKnown (rowsOf rows input.securityId)).latestKnownFilingDateByIdentity, 0⟩ :=
      { mem_rows := by simp
        planned := by simp
        latest := fun _ _ => rfl }
    have hplanned := hstart.foldl hsecurity' ((hperm.map _).nodup_iff.mpr hnodup)
    intro row
    rw [List.mem_append]
    refine or_congr_right ((hplanned.mem_rows row).trans ?_)
    simp only [List.nil_append, hperm.mem_iff]

end Plan

end FactorSage.Statements
