import FactorSage.Valuation.Timeline

/-!
# The timeline against per-session computation

The timeline builds one state for each date on which a statement becomes available. On every session
what it reads is nevertheless what is computed for that session alone from the statements available
on it, and a bound on the sessions it is read on changes nothing from the bound on
(`timeline_agreesPerSession`).
-/

namespace FactorSage.Valuation

open AscendingList BinarySearch Rebase Statements

variable {F H : Type} [JsNumber F] [LinearOrder H]

/-! ### What a state reads -/

omit [JsNumber F] in
/-- A verdict as of a date reads the statements available on it. -/
theorem restatementVerdict_congr {V : Type} (measured : List PriceBasisEvent)
    (shareChanges : List ShareChange) (weightedAverageShsOutDil : V → Option ℚ)
    {statements statements' : List (FinancialStatement V H)} {date date' : CalendarDay}
    (h : availableOn statements date = availableOn statements' date')
    (latest : FinancialStatement V H) :
    restatementVerdict measured shareChanges weightedAverageShsOutDil statements latest date
      = restatementVerdict measured shareChanges weightedAverageShsOutDil statements' latest
        date' := by
  have hearlier : ∀ (statements : List (FinancialStatement V H)) (date : CalendarDay),
      earlierRevisions statements latest date
        = ComparatorSort.sortBy compareObserved ((availableOn statements date).filter
            fun statement => sameQuarter statement latest && observedBefore statement latest) := by
    intro statements date
    unfold earlierRevisions availableOn
    rw [List.filter_filter]
    refine congrArg _ (List.filter_congr fun statement _ => ?_)
    ac_rfl
  unfold restatementVerdict
  rw [hearlier, hearlier, h]

/-- **A state reads the statements available on its date**, and the rules' other inputs. -/
theorem stateOn_congr {rules : StateRules F H} {statements : List (Revision F H)}
    {date date' : CalendarDay}
    (h : availableOn rules.statements date = availableOn statements date') :
    (stateOn rules date).toStatementReading
      = (stateOn { rules with statements } date').toStatementReading := by
  have hselect := select_congr (some .quarterly) h
  have hverdict := fun latest => restatementVerdict_congr rules.measured rules.shareChanges
    weightedAverageShsOutDil h latest
  unfold stateOn readingOf usableShares
  simp only [hselect, hverdict]

omit [JsNumber F] in
theorem latestFiscalQuarterStatement_nil (statementType : FinancialStatementType) :
    latestFiscalQuarterStatement (indexFiscalQuarters ([] : List (Revision F H)) statementType)
      = none := rfl

/-- Where nothing is available there is nothing to read. -/
theorem stateOn_of_nothing_available {rules : StateRules F H} {date : CalendarDay}
    (h : availableOn rules.statements date = []) :
    (stateOn rules date).toStatementReading = .nothing := by
  have hselect : selectFinancialStatements rules.statements
      ⟨none, some .quarterly, none, none, some date⟩ = [] := by
    rw [select_congr (some .quarterly) (show availableOn rules.statements date
      = availableOn [] date from h)]
    rfl
  unfold stateOn readingOf
  simp only [hselect, latestFiscalQuarterStatement_nil]

omit [JsNumber F] [LinearOrder H] in
/-- The statements a timeline reads on a date are those of the statements available on it. -/
theorem availableOn_stateRules (inputs : ValuationInputs F H) (date : CalendarDay) :
    availableOn (stateRules inputs).statements date
      = availableOn
          (stateRules { inputs with statements := availableOn inputs.statements date }).statements
          date := by
  unfold stateRules availableOn
  simp only [List.filter_filter]
  refine List.filter_congr fun statement _ => ?_
  cases decide (statement.availableFromDate ≤ date) <;> simp

/-! ### The state in force -/

omit [JsNumber F] [LinearOrder H] in
theorem allEventDates_ascending (statements : List (Revision F H)) :
    (allEventDates statements).Pairwise (· < ·) := by
  unfold allEventDates
  exact sorted_ascending (List.nodup_dedup _)

omit [JsNumber F] [LinearOrder H] in
theorem mem_allEventDates {statements : List (Revision F H)} {date : CalendarDay} :
    date ∈ allEventDates statements
      ↔ ∃ statement ∈ statements, statement.availableFromDate = date := by
  unfold allEventDates
  rw [List.mem_insertionSort, List.mem_dedup, List.mem_map]

/-- Of states for ascending dates, the one in force is that of the last date reached. -/
theorem stateAt_map (rules : StateRules F H) {dates : List CalendarDay}
    (hascending : dates.Pairwise (· < ·)) (date : CalendarDay) :
    stateAt (dates.map (stateOn rules)) date
      = ((dates.filter (· ≤ date)).getLast?).map (stateOn rules) := by
  have hsplit : dates.map (stateOn rules)
      = (dates.filter (· ≤ date)).map (stateOn rules)
        ++ (dates.filter (date < ·)).map (stateOn rules) := by
    rw [← List.map_append, filter_le_append_filter_lt hascending]
  unfold stateAt
  rw [hsplit, searchLast_append, List.getLast?_map]
  · intro state hstate
    obtain ⟨start, hstart, rfl⟩ := List.mem_map.mp hstate
    exact decide_eq_true (of_decide_eq_true (List.mem_filter.mp hstart).2)
  · intro state hstate hle
    obtain ⟨start, hstart, rfl⟩ := List.mem_map.mp hstate
    have hlate : date < start := of_decide_eq_true (List.mem_filter.mp hstart).2
    exact absurd (of_decide_eq_true hle) (not_le.mpr hlate)

/-- **The state in force reads what a state of the date itself does.** -/
theorem reading_stateAt (rules : StateRules F H) (date : CalendarDay) :
    (stateAt ((allEventDates rules.statements).map (stateOn rules)) date).elim .nothing
        (·.toStatementReading)
      = (stateOn rules date).toStatementReading := by
  rw [stateAt_map rules (allEventDates_ascending _)]
  cases hlast : ((allEventDates rules.statements).filter (· ≤ date)).getLast? with
  | none =>
    -- no statement is available yet
    have hempty := List.getLast?_eq_none_iff.mp hlast
    refine (stateOn_of_nothing_available (List.filter_eq_nil_iff.mpr ?_)).symm
    intro statement hstatement havailable
    have hevent := mem_allEventDates.mpr ⟨statement, hstatement, rfl⟩
    exact List.filter_eq_nil_iff.mp hempty _ hevent havailable
  | some event =>
    have hevent := List.mem_of_getLast? hlast
    have hle : event ≤ date := of_decide_eq_true (List.mem_filter.mp hevent).2
    have hascending := (allEventDates_ascending rules.statements).filter (· ≤ date)
    have hbetween : availableOn rules.statements date = availableOn rules.statements event := by
      refine availableOn_between hle fun statement hstatement hafter => ?_
      -- what becomes available after the event does so after the date
      by_contra hnot
      have hmem : statement.availableFromDate
          ∈ (allEventDates rules.statements).filter (· ≤ date) :=
        List.mem_filter.mpr
          ⟨mem_allEventDates.mpr ⟨statement, hstatement, rfl⟩, decide_eq_true (not_lt.mp hnot)⟩
      exact absurd (le_of_getLast? hascending hlast hmem) (not_le.mpr hafter)
    exact (stateOn_congr hbetween).symm

/-- **A bound changes no state from the bound on.** -/
theorem stateAt_readableEventDates (rules : StateRules F H) {dates : List CalendarDay}
    (hascending : dates.Pairwise (· < ·)) {bound date : CalendarDay} (hle : bound ≤ date) :
    stateAt ((readableEventDates dates (some bound)).map (stateOn rules)) date
      = stateAt (dates.map (stateOn rules)) date := by
  have hreadable : (readableEventDates dates (some bound)).Pairwise (· < ·) :=
    hascending.sublist (List.drop_sublist _ _)
  rw [stateAt_map rules hreadable, stateAt_map rules hascending]
  refine congrArg _ ?_
  unfold readableEventDates
  exact getLast?_drop_lastIndexUpTo hascending hle

/-! ### Columns -/

/-- What a date reads, computed for it alone from the statements available on it. -/
def readingDirectly (inputs : ValuationInputs F H) (date : CalendarDay) : StatementReading F :=
  (stateOn (stateRules { inputs with statements := availableOn inputs.statements date })
    date).toStatementReading

/-- The ratios of some sessions, each computed for itself from the statements available on the date
whose statements it reads. -/
def ratioColumnsDirectly (inputs : ValuationInputs F H) (request : RatioColumnsRequest F) :
    OrderedMap ValuationRatioId (List F) :=
  columnsBy request fun session statementDate close ratio =>
    if !inputs.verifiedAt.isSome then none
    else ratioOn (buildValuationTimeline
        { inputs with statements := availableOn inputs.statements statementDate } none)
      (readingDirectly inputs statementDate) session close ratio

/-- The timeline of some inputs reads on every session what is computed for it alone, and a bound
changes nothing from the bound on. -/
structure AgreesPerSession (inputs : ValuationInputs F H) : Prop where
  state : ∀ date,
    (stateAt (buildValuationTimeline inputs none).states date).elim .nothing (·.toStatementReading)
      = readingDirectly inputs date
  columns : ∀ request,
    valuationRatioColumns (buildValuationTimeline inputs none) request
      = ratioColumnsDirectly inputs request
  boundedState : ∀ bound date, bound ≤ date →
    stateAt (buildValuationTimeline inputs (some bound)).states date
      = stateAt (buildValuationTimeline inputs none).states date
  boundedColumns : ∀ bound request,
    (∀ row ∈ request.dates.zipIdx, bound ≤ request.statementDate row.1 row.2) →
      valuationRatioColumns (buildValuationTimeline inputs (some bound)) request
        = valuationRatioColumns (buildValuationTimeline inputs none) request

theorem stateAt_eq_readingDirectly (inputs : ValuationInputs F H) (date : CalendarDay) :
    (stateAt (buildValuationTimeline inputs none).states date).elim .nothing (·.toStatementReading)
      = readingDirectly inputs date :=
  (reading_stateAt (stateRules inputs) date).trans (stateOn_congr (availableOn_stateRules inputs date))

theorem stateAt_bounded (inputs : ValuationInputs F H) {bound date : CalendarDay}
    (hle : bound ≤ date) :
    stateAt (buildValuationTimeline inputs (some bound)).states date
      = stateAt (buildValuationTimeline inputs none).states date :=
  stateAt_readableEventDates (stateRules inputs) (allEventDates_ascending _) hle

omit [LinearOrder H] in
/-- Columns whose rows read alike are equal. -/
theorem columnsBy_congr {request : RatioColumnsRequest F}
    {valueAt valueAt' : (session statementDate : CalendarDay) → F → ValuationRatioId → Option F}
    (h : ∀ row ∈ request.dates.zipIdx, ∀ close ratio,
      valueAt row.1 (request.statementDate row.1 row.2) close ratio
        = valueAt' row.1 (request.statementDate row.1 row.2) close ratio) :
    columnsBy request valueAt = columnsBy request valueAt' := by
  unfold columnsBy
  refine congrArg OrderedMap.ofList (List.map_congr_left fun ratio _ => ?_)
  refine congrArg (Prod.mk ratio) (List.map_congr_left fun row hrow => ?_)
  refine congrArg (fun value : Option F => value.getD JsNumber.nan) (Option.bind_congr fun close _ => ?_)
  exact h row hrow close ratio

omit [LinearOrder H] in
/-- Nothing is read of a session whose statements support nothing. -/
theorem ratioOn_nothing (timeline : ValuationTimeline F) (session : CalendarDay) (close : F)
    (ratio : ValuationRatioId) : ratioOn timeline .nothing session close ratio = none := by
  unfold ratioOn
  split
  · rfl
  · rfl

section Session

variable (inputs : ValuationInputs F H) (bound : Option CalendarDay)

theorem events_build : (buildValuationTimeline inputs bound).events = inputs.events := rfl

theorem distributionDates_build :
    (buildValuationTimeline inputs bound).distributionDates = distributionDates inputs := rfl

theorem forwardWindows_build :
    (buildValuationTimeline inputs bound).forwardWindows = forwardWindows inputs := rfl

/-- A ratio reads the session-level part of a timeline, which no statement and no bound enters. -/
theorem ratioOn_build (statements : List (Revision F H)) (bound' : Option CalendarDay)
    (reading : StatementReading F) (session : CalendarDay) (close : F) (ratio : ValuationRatioId) :
    ratioOn (buildValuationTimeline inputs bound) reading session close ratio
      = ratioOn (buildValuationTimeline { inputs with statements } bound') reading session close
        ratio := by
  unfold ratioOn
  rw [events_build, events_build, distributionDates_build, distributionDates_build,
    forwardWindows_build, forwardWindows_build]
  rfl

end Session

/-- **The valuation timeline agrees with per-session computation.** -/
theorem timeline_agreesPerSession (inputs : ValuationInputs F H) : AgreesPerSession inputs where
  state := stateAt_eq_readingDirectly inputs
  columns request := by
    refine columnsBy_congr fun row _ close ratio => ?_
    rw [← stateAt_eq_readingDirectly inputs (request.statementDate row.1 row.2)]
    refine if_congr Iff.rfl rfl ?_
    cases stateAt (buildValuationTimeline inputs none).states
        (request.statementDate row.1 row.2) with
    | none => exact (ratioOn_nothing _ row.1 close ratio).symm
    | some state => exact ratioOn_build inputs none _ none state.toStatementReading row.1 close ratio
  boundedState _ _ hle := stateAt_bounded inputs hle
  boundedColumns bound request hbound := by
    refine columnsBy_congr fun row hrow close ratio => ?_
    rw [stateAt_bounded inputs (hbound row hrow)]
    refine if_congr Iff.rfl rfl ?_
    cases stateAt (buildValuationTimeline inputs none).states
        (request.statementDate row.1 row.2) with
    | none => rfl
    | some state =>
      exact ratioOn_build inputs (some bound) inputs.statements none state.toStatementReading row.1
        close ratio

end FactorSage.Valuation
