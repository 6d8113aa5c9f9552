import FactorSage.Statements.EvaluationDates
import FactorSage.Statements.Selection
import FactorSage.Valuation.ObservedOrder

/-!
# Statement-derived state of every trading day

A materializer evaluates on the planned events only and carries what it read over the days between.
It is fresh (`MaterializesFresh`) when every trading day nevertheless has what an evaluation of that
day alone gives, from the statements available on it; the list order plays no part and a statement
that becomes available later none either.

An evaluation that moves only with the statements available is materialized freshly
(`carryForward_planned`, `materializesFresh_of_rows`).
-/

namespace FactorSage.Statements

open CarryForward FactorSage.Valuation

variable {V H S : Type}

/-- The statements as the store reads them back: without the provider's acceptance date, and with a
content hash that tells contents apart. -/
structure AsRead (statements : List (FinancialStatement V H)) : Prop where
  unaccepted : ∀ statement ∈ statements, statement.providerAcceptedDate = none
  hashed : HashedContents statements

/-- The rows of the days up to a date. -/
def rowsUpTo (date : CalendarDay) (rows : List (CalendarDay × S)) : List (CalendarDay × S) :=
  rows.filter fun row => row.1 ≤ date

/-- A materializer that gives every trading day what `fresh` gives of the security, the day and the
statements available on it. -/
structure MaterializesFresh
    (materialize : StatementEvaluationRequest V H →
      Except DuplicateTradingDate (List (CalendarDay × S)))
    (fresh : String → CalendarDay → List (FinancialStatement V H) → S)
    (request : StatementEvaluationRequest V H) : Prop where
  everyDay : materialize request
    = .ok ((request.tradingDates.insertionSort (· ≤ ·)).map fun date =>
      (date, fresh request.securityId date (availableOn request.statements date)))
  anyOrder : AsRead request.statements →
    ∀ statements', request.statements.Perm statements' →
      materialize { request with statements := statements' } = materialize request
  noLookAhead : ∀ date statements',
    availableOn statements' date = availableOn request.statements date →
      (materialize { request with statements := statements' }).map (rowsUpTo date)
        = (materialize request).map (rowsUpTo date)

/-! ### Statements as read -/

variable {l l' : List (FinancialStatement V H)}

theorem AsRead.subset (h : AsRead l) (hsub : l' ⊆ l) :
    AsRead l' where
  unaccepted statement hmem := h.unaccepted statement (hsub hmem)
  hashed := h.hashed.subset hsub

theorem AsRead.perm (h : AsRead l) (hperm : l.Perm l') :
    AsRead l' :=
  h.subset hperm.symm.subset

/-- No two different statements of one security tie. -/
theorem AsRead.eq_of_revisionRank_eq {statements : List (FinancialStatement V H)}
    (h : AsRead statements) {securityId : String} {s t : FinancialStatement V H}
    (hs : s ∈ ofSecurity statements securityId) (ht : t ∈ ofSecurity statements securityId)
    (hrank : revisionRank s = revisionRank t) : s = t := by
  obtain ⟨hs, hsecurity⟩ := List.mem_filter.mp hs
  obtain ⟨ht, hsecurity'⟩ := List.mem_filter.mp ht
  simp only [revisionRank, toLex_inj, Prod.mk.injEq] at hrank
  obtain ⟨havailable, hobserved, hhash⟩ := hrank
  have hcontent := h.hashed s hs t ht hhash
  have haccepted := (h.unaccepted s hs).trans (h.unaccepted t ht).symm
  have hsame := (of_decide_eq_true hsecurity).trans (of_decide_eq_true hsecurity').symm
  obtain ⟨⟨content, security, accepted⟩, available, observed, hash⟩ := s
  obtain ⟨⟨content', security', accepted'⟩, available', observed', hash'⟩ := t
  simp only at hcontent haccepted hsame havailable hobserved hhash
  rw [hcontent, haccepted, hsame, havailable, hobserved, hhash]

/-- A selection of one security's statements does not depend on their order. -/
theorem AsRead.select_perm [LinearOrder H] (h : AsRead l)
    (hperm : l.Perm l') (securityId : String) (query : FinancialStatementQuery) :
    selectFinancialStatements (ofSecurity l securityId) query
      = selectFinancialStatements (ofSecurity l' securityId) query :=
  Statements.select_perm (hperm.filter _)
    (fun _ hs _ ht hrank => h.eq_of_revisionRank_eq hs ht hrank) query

/-! ### Rows -/

theorem normalizeTradingDates_sorted {tradingDates : List CalendarDay} (h : tradingDates.Nodup)
    (purpose : String) :
    normalizeTradingDates (tradingDates.insertionSort (· ≤ ·)) purpose
      = .ok (tradingDates.insertionSort (· ≤ ·)) := by
  have hnodup := (List.perm_insertionSort (· ≤ ·) tradingDates).nodup_iff.mpr h
  rw [normalizeTradingDates_eq_ok hnodup,
    (List.pairwise_insertionSort (· ≤ ·) tradingDates).insertionSort_eq]

/-- **Carrying from one planned event to the next reads every day**, when the value moves only as a
statement of the security becomes available. -/
theorem carryForward_planned (request : StatementEvaluationRequest V H) {purpose : String}
    {sortedDates : List CalendarDay} (hascending : sortedDates.Pairwise (· < ·))
    (hnormal : normalizeTradingDates request.tradingDates purpose = .ok sortedDates)
    (hsome : sortedDates ≠ []) {value : CalendarDay → S}
    (hconstant : ConstantBetween ((ofSecurity request.statements request.securityId).map
      fun statement => statement.availableFromDate) value) :
    ∃ planned, planStatementEvaluationDates request purpose = .ok planned
      ∧ ∀ initial, carryForward (fun date => date ∈ planned) value initial sortedDates
        = sortedDates.map fun date => (date, value date) := by
  have hfirst := List.head?_eq_some_head hsome
  have hlast := List.getLast?_eq_some_getLast hsome
  refine ⟨(eventDates request.securityId sortedDates (sortedDates.head hsome)
    (sortedDates.getLast hsome) request.statements).insertionSort (· ≤ ·), ?_, fun initial =>
      carryForward_eq_map hconstant ?_ initial⟩
  · unfold planStatementEvaluationDates
    rw [hnormal]
    simp only [bind, Except.bind, hfirst, hlast]
    rfl
  · simp only [List.mem_insertionSort]
    exact covers_eventDates request.securityId hascending hfirst hlast request.statements

/-- A materializer that gives every day its fresh value is fresh. -/
theorem materializesFresh_of_rows
    {materialize : StatementEvaluationRequest V H →
      Except DuplicateTradingDate (List (CalendarDay × S))}
    {fresh : String → CalendarDay → List (FinancialStatement V H) → S}
    (hrows : ∀ request : StatementEvaluationRequest V H, request.tradingDates.Nodup →
      materialize request
        = .ok ((request.tradingDates.insertionSort (· ≤ ·)).map fun date =>
          (date, fresh request.securityId date (availableOn request.statements date))))
    (hperm : ∀ (securityId : String) (date : CalendarDay) (l l' : List (FinancialStatement V H)),
      AsRead l → l.Perm l' → fresh securityId date l = fresh securityId date l')
    {request : StatementEvaluationRequest V H} (hnodup : request.tradingDates.Nodup) :
    MaterializesFresh materialize fresh request where
  everyDay := hrows request hnodup
  anyOrder hread statements' h := by
    have hread' := hread.perm h
    rw [hrows request hnodup, hrows { request with statements := statements' } hnodup]
    refine congrArg Except.ok (List.map_congr_left fun date _ => ?_)
    have hsubset : availableOn statements' date ⊆ statements' := List.filter_subset_self _
    exact congrArg (Prod.mk date)
      (hperm _ date _ _ (hread'.subset hsubset) (h.symm.filter _))
  noLookAhead date statements' h := by
    rw [hrows request hnodup, hrows { request with statements := statements' } hnodup]
    unfold rowsUpTo
    simp only [Except.map, List.filter_map]
    -- only the days up to the date are left, and nothing else was available on them
    refine congrArg Except.ok (List.map_congr_left fun earlier hmem => ?_)
    have hle : earlier ≤ date := of_decide_eq_true (List.mem_filter.mp hmem).2
    rw [availableOn_earlier hle h]

end FactorSage.Statements
