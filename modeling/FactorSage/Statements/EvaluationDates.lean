import FactorSage.Library.AscendingList
import FactorSage.Library.BinarySearch
import FactorSage.Library.CarryForward
import FactorSage.Statements.FinancialStatements

/-!
# When statement-derived state is evaluated

On the trading days of a security, statement-derived state is evaluated on the first and on the first
trading day on or after each later availability date. These are events enough for anything that
changes only when a statement becomes available (`covers_planStatementEvaluationDates`).
-/

namespace FactorSage.Statements

open AscendingList BinarySearch CarryForward

variable {V H : Type}

structure StatementEvaluationRequest (V H : Type) where
  securityId : String
  /-- The actual trading days of the security. -/
  tradingDates : List CalendarDay
  statements : List (FinancialStatement V H)

/-- A trading date supplied twice, and what for. -/
structure DuplicateTradingDate where
  date : CalendarDay
  purpose : String
  deriving DecidableEq

/-- The first element that repeats the one before it. -/
def firstRepeated : List CalendarDay → Option CalendarDay
  | a :: b :: rest => if b = a then some b else firstRepeated (b :: rest)
  | _ => none

/-- Ascending trading dates. A duplicate is refused; an order is not asked for. -/
def normalizeTradingDates (tradingDates : List CalendarDay) (purpose : String) :
    Except DuplicateTradingDate (List CalendarDay) :=
  let sorted := tradingDates.insertionSort (· ≤ ·)
  match firstRepeated sorted with
  | some date => .error { date, purpose }
  | none => .ok sorted

/-- The first of some ascending dates on or after a date. -/
def firstTradingDateOnOrAfter (sortedDates : List CalendarDay) (date : CalendarDay) :
    Option CalendarDay :=
  sortedDates[search (fun index => sortedDates[index]?.any (· < date)) sortedDates.length 0
    sortedDates.length]?

/-- The date on which a statement takes effect; none when the first date reads it already, or when no
date does. -/
def effectiveDate (sortedDates : List CalendarDay) (first last : CalendarDay)
    (statement : FinancialStatement V H) : Option CalendarDay :=
  if statement.availableFromDate ≤ first || last < statement.availableFromDate then none
  else firstTradingDateOnOrAfter sortedDates statement.availableFromDate

/-- The days of the statements' events, the first trading day among them. -/
def eventDates (securityId : String) (sortedDates : List CalendarDay) (first last : CalendarDay)
    (statements : List (FinancialStatement V H)) : List CalendarDay :=
  statements.foldl (fun events statement =>
    if statement.securityId ≠ securityId then events
    else
      match effectiveDate sortedDates first last statement with
      | some effective => if effective ∈ events then events else events ++ [effective]
      | none => events) [first]

/-- The trading days on which statement-derived state is evaluated, ascending. -/
def planStatementEvaluationDates (request : StatementEvaluationRequest V H) (purpose : String) :
    Except DuplicateTradingDate (List CalendarDay) := do
  let sortedDates ← normalizeTradingDates request.tradingDates purpose
  match sortedDates.head?, sortedDates.getLast? with
  | some first, some last =>
    return (eventDates request.securityId sortedDates first last request.statements).insertionSort
      (· ≤ ·)
  | _, _ => return []

/-! ### Ascending dates -/

theorem firstRepeated_eq_none {dates : List CalendarDay} (h : dates.Pairwise (· < ·)) :
    firstRepeated dates = none := by
  induction dates with
  | nil => rfl
  | cons a rest ih =>
    cases rest with
    | nil => rfl
    | cons b later =>
      obtain ⟨hafter, hrest⟩ := List.pairwise_cons.mp h
      unfold firstRepeated
      rw [if_neg (hafter b List.mem_cons_self).ne']
      exact ih hrest

/-- Distinct trading dates are normalized. -/
theorem normalizeTradingDates_eq_ok {tradingDates : List CalendarDay} (h : tradingDates.Nodup)
    (purpose : String) :
    normalizeTradingDates tradingDates purpose = .ok (tradingDates.insertionSort (· ≤ ·)) := by
  unfold normalizeTradingDates
  dsimp only
  rw [firstRepeated_eq_none (sorted_ascending h)]

/-! ### Events -/

/-- The search finds the date that passes a threshold the date before it had not. -/
theorem firstTradingDateOnOrAfter_eq {before after : List CalendarDay} {a b date : CalendarDay}
    (h : (before ++ a :: b :: after).Pairwise (· < ·)) (ha : a < date) (hb : date ≤ b) :
    firstTradingDateOnOrAfter (before ++ a :: b :: after) date = some b := by
  obtain ⟨-, hrest, hbefore⟩ := List.pairwise_append.mp h
  obtain ⟨-, hafter⟩ := List.pairwise_cons.mp hrest
  have hsplit : before ++ a :: b :: after = (before ++ [a]) ++ b :: after := by
    rw [List.append_assoc, List.singleton_append]
  -- what lies up to `a` is earlier than the date, and what lies from `b` on is not
  have hfront : ∀ d ∈ before ++ [a], decide (d < date) = true := by
    intro d hd
    rcases List.mem_append.mp hd with hd | hd
    · exact decide_eq_true ((hbefore d hd a List.mem_cons_self).trans ha)
    · rw [List.mem_singleton.mp hd]
      exact decide_eq_true ha
  have hback : ∀ d ∈ b :: after, ¬ decide (d < date) = true := by
    intro d hd hlt
    have hlt := of_decide_eq_true hlt
    rcases List.mem_cons.mp hd with rfl | hd
    · exact absurd hlt (not_lt.mpr hb)
    · exact absurd (((List.pairwise_cons.mp hafter).1 d hd).trans hlt) (not_lt.mpr hb)
  unfold firstTradingDateOnOrAfter
  rw [hsplit, search_append hfront hback, List.getElem?_append_right le_rfl, Nat.sub_self]
  rfl

theorem mem_eventDates {securityId : String} {sortedDates : List CalendarDay}
    {first last date : CalendarDay} {statements : List (FinancialStatement V H)} :
    date ∈ eventDates securityId sortedDates first last statements
      ↔ date = first ∨ ∃ statement ∈ statements, statement.securityId = securityId
        ∧ effectiveDate sortedDates first last statement = some date := by
  -- the fold keeps the events it has and adds what each statement takes effect on
  have hfold : ∀ (statements : List (FinancialStatement V H)) (events : List CalendarDay),
      date ∈ statements.foldl (fun events statement =>
          if statement.securityId ≠ securityId then events
          else
            match effectiveDate sortedDates first last statement with
            | some effective => if effective ∈ events then events else events ++ [effective]
            | none => events) events
        ↔ date ∈ events ∨ ∃ statement ∈ statements, statement.securityId = securityId
          ∧ effectiveDate sortedDates first last statement = some date := by
    intro statements
    induction statements with
    | nil => simp
    | cons statement rest ih =>
      intro events
      rw [List.foldl_cons, ih]
      by_cases hsecurity : statement.securityId = securityId
      · cases heffective : effectiveDate sortedDates first last statement with
        | none => simp [hsecurity, heffective]
        | some effective =>
          by_cases hmem : effective ∈ events
          · simp only [hsecurity, heffective, hmem, ne_eq, not_true_eq_false, if_false, if_true,
              List.mem_cons, exists_eq_or_imp, true_and, Option.some.injEq]
            constructor
            · exact Or.imp_right .inr
            · rintro (h | rfl | h)
              · exact .inl h
              · exact .inl hmem
              · exact .inr h
          · simp [hsecurity, heffective, hmem, or_assoc, eq_comm]
      · simp [hsecurity]
  unfold eventDates
  rw [hfold, List.mem_singleton]

/-- **The planned events are enough** for what changes only when a statement of the security becomes
available. -/
theorem covers_eventDates (securityId : String) {sortedDates : List CalendarDay}
    {first last : CalendarDay} (hascending : sortedDates.Pairwise (· < ·))
    (hfirst : sortedDates.head? = some first) (hlast : sortedDates.getLast? = some last)
    (statements : List (FinancialStatement V H)) :
    Covers ((statements.filter fun statement => statement.securityId = securityId).map
        fun statement => statement.availableFromDate) sortedDates
      fun date => date ∈ eventDates securityId sortedDates first last statements where
  head := by
    intro head hhead
    obtain rfl := Option.some.inj (hfirst.symm.trans hhead)
    exact decide_eq_true (mem_eventDates.mpr (.inl rfl))
  passed := by
    rw [List.isChain_iff_forall_rel_of_append_cons_cons]
    rintro a b before after rfl
    obtain ⟨-, hrest, -⟩ := List.pairwise_append.mp hascending
    refine ⟨(List.pairwise_cons.mp hrest).1 b List.mem_cons_self, fun t ht hafter hle => ?_⟩
    obtain ⟨statement, hstatement, rfl⟩ := List.mem_map.mp ht
    obtain ⟨hmem, hsecurity⟩ := List.mem_filter.mp hstatement
    refine decide_eq_true (mem_eventDates.mpr (.inr ⟨statement, hmem, of_decide_eq_true hsecurity, ?_⟩))
    have hfirst_le : first ≤ a := by
      have hmem : a ∈ before ++ a :: b :: after := List.mem_append_right _ List.mem_cons_self
      exact le_of_head? hascending hfirst hmem
    have hle_last : b ≤ last := by
      have hmem : b ∈ before ++ a :: b :: after :=
        List.mem_append_right _ (List.mem_cons_of_mem _ List.mem_cons_self)
      exact le_of_getLast? hascending hlast hmem
    have hlate : ¬ statement.availableFromDate ≤ first := not_le.mpr (hfirst_le.trans_lt hafter)
    have hwithin : ¬ last < statement.availableFromDate := not_lt.mpr (hle.trans hle_last)
    unfold effectiveDate
    rw [if_neg (by simp [hlate, hwithin])]
    exact firstTradingDateOnOrAfter_eq hascending hafter hle

end FactorSage.Statements
