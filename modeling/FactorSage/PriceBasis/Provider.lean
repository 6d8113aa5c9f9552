import FactorSage.PriceBasis.Prices

/-!
# The provider's history

The provider holds one history of a security. It changes by appending sessions and by re-bases,
each of which rescales every session before its ex-date by one ratio. An event that the history does
not admit leaves it as it is, so that any list of events is a run of the provider.

A row that was read stays comparable: `Against rows history` says that, of each row, the history
holds the session, and either reads beyond the tolerance of it or still holds that row and every
later one. Events keep it as long as each `Lasts` for those rows (`Against.apply`), and a session
that moved away from one of them never comes back (`Moved.apply`).
-/

namespace FactorSage.PriceBasis

open FactorSage.Rebase (closesDiffer closesDiffer_self)

/-- The rows the provider holds, one for each session. -/
structure History where
  rows : List DailyPrice
  distinct : (rows.map DailyPrice.date).Nodup

/-- A rescaling of every session before an ex-date. Per-share values other than the close, and the
volume, are rescaled in whatever way the provider does it. -/
structure Rebase where
  exDate : ℤ
  ratio : ℚ
  rescaled : DailyPrice → DailyPrice
  date_rescaled : ∀ row, (rescaled row).date = row.date
  close_rescaled : ∀ row, (rescaled row).close = ratio * row.close

inductive ProviderEvent
  | append (rows : List DailyPrice)
  | rebase (rebase : Rebase)

def Rebase.of (rebase : Rebase) (row : DailyPrice) : DailyPrice :=
  if row.date < rebase.exDate then rebase.rescaled row else row

@[simp] theorem Rebase.date_of (rebase : Rebase) (row : DailyPrice) :
    (rebase.of row).date = row.date := by
  unfold Rebase.of
  split
  · exact rebase.date_rescaled row
  · rfl

namespace History

/-- The provider's answer to a request. -/
def getDailyPrices (history : History) (range : DateRange) : List DailyPrice :=
  history.rows.filter fun row => range.Holds row.date

theorem mem_getDailyPrices {history : History} {range : DateRange} {row : DailyPrice} :
    row ∈ history.getDailyPrices range ↔ row ∈ history.rows ∧ range.Holds row.date := by
  unfold getDailyPrices
  rw [List.mem_filter, decide_eq_true_iff]

theorem eq_of_date {history : History} {a b : DailyPrice} (ha : a ∈ history.rows)
    (hb : b ∈ history.rows) (h : a.date = b.date) : a = b :=
  List.inj_on_of_nodup_map history.distinct ha hb h

/-- Sessions are appended after every session there is, and a re-base changes the close of every
session it reaches beyond the comparison tolerance. -/
def Admits (history : History) : ProviderEvent → Prop
  | .append rows => (rows.map DailyPrice.date).Nodup
      ∧ ∀ row ∈ rows, ∀ old ∈ history.rows, old.date < row.date
  | .rebase rebase => ∀ row ∈ history.rows, row.date < rebase.exDate →
      closesDiffer row.close (rebase.ratio * row.close) = true

instance (history : History) : DecidablePred history.Admits
  | .append _ => inferInstanceAs (Decidable (_ ∧ _))
  | .rebase rebase => inferInstanceAs (Decidable (∀ row ∈ history.rows, row.date < rebase.exDate →
      closesDiffer row.close (rebase.ratio * row.close) = true))

def appended (history : History) (rows : List DailyPrice) (h : history.Admits (.append rows)) :
    History where
  rows := history.rows ++ rows
  distinct := by
    rw [List.map_append]
    refine List.Nodup.append history.distinct h.1 fun date hold hnew => ?_
    obtain ⟨old, hmem, rfl⟩ := List.mem_map.mp hold
    obtain ⟨row, hrow, hdate⟩ := List.mem_map.mp hnew
    have hlt := h.2 row hrow old hmem
    omega

def rebased (history : History) (rebase : Rebase) : History where
  rows := history.rows.map rebase.of
  distinct := by
    have hdates : (history.rows.map rebase.of).map DailyPrice.date
        = history.rows.map DailyPrice.date := by
      rw [List.map_map]
      exact List.map_congr_left fun row _ => rebase.date_of row
    exact hdates ▸ history.distinct

/-- The history after an event. -/
def apply (history : History) (event : ProviderEvent) : History :=
  if h : history.Admits event then
    match event, h with
    | .append rows, h => history.appended rows h
    | .rebase rebase, _ => history.rebased rebase
  else history

/-- The history after some events. -/
def after (history : History) (events : List ProviderEvent) : History :=
  events.foldl apply history

/-! ### What one event does -/

variable {history : History} {event : ProviderEvent}

/-- An event appends, and every row stays, or it is a re-base that reaches the rows before its
ex-date and leaves the others. -/
theorem apply_cases (history : History) (event : ProviderEvent) :
    (∀ row ∈ history.rows, row ∈ (history.apply event).rows)
      ∨ ∃ rebase : Rebase, (history.apply event).rows = history.rows.map rebase.of
        ∧ ∀ row ∈ history.rows, row.date < rebase.exDate →
            closesDiffer row.close (rebase.of row).close = true := by
  by_cases hadm : history.Admits event
  · cases event with
    | append rows =>
      left
      intro row hrow
      unfold apply
      rw [dif_pos hadm]
      exact List.mem_append_left rows hrow
    | rebase rebase =>
      right
      refine ⟨rebase, ?_, fun row hrow hdate => ?_⟩
      · unfold apply
        rw [dif_pos hadm]
        rfl
      · unfold Rebase.of
        rw [if_pos hdate, rebase.close_rescaled row]
        exact hadm row hrow hdate
  · left
    intro row hrow
    unfold apply
    rw [dif_neg hadm]
    exact hrow

/-- No session is ever dropped. -/
theorem exists_apply {row : DailyPrice} (event : ProviderEvent) (h : row ∈ history.rows) :
    ∃ now ∈ (history.apply event).rows, now.date = row.date := by
  rcases apply_cases history event with hkeeps | ⟨rebase, hrows, -⟩
  · exact ⟨row, hkeeps row h, rfl⟩
  · refine ⟨rebase.of row, ?_, rebase.date_of row⟩
    rw [hrows]
    exact List.mem_map_of_mem h

/-- A session that reads on as it did was not reached, and then no later one was. -/
theorem mem_apply_of_later {row later : DailyPrice} (hrow : row ∈ history.rows)
    (hsame : row ∈ (history.apply event).rows) (hlater : later ∈ history.rows)
    (hle : row.date ≤ later.date) : later ∈ (history.apply event).rows := by
  rcases apply_cases history event with hkeeps | ⟨rebase, hrows, hreach⟩
  · exact hkeeps later hlater
  · have hnot : ¬ row.date < rebase.exDate := by
      intro hdate
      have hof : rebase.of row ∈ (history.apply event).rows := by
        rw [hrows]
        exact List.mem_map_of_mem hrow
      have heq : rebase.of row = row := eq_of_date hof hsame (rebase.date_of row)
      have hdiffer := hreach row hrow hdate
      rw [heq, closesDiffer_self] at hdiffer
      cases hdiffer
    have hof : rebase.of later = later := by
      unfold Rebase.of
      rw [if_neg (by omega)]
    rw [hrows]
    exact List.mem_map.mpr ⟨later, hlater, hof⟩

end History

/-! ### Rows that were read -/

/-- The close reads beyond the tolerance of both of the loader's comparisons. -/
def BeyondTolerance (row now : DailyPrice) : Prop :=
  closesDiffer row.close now.close = true ∧ sameStoredValue row.close now.close = false

instance (row now : DailyPrice) : Decidable (BeyondTolerance row now) :=
  inferInstanceAs (Decidable (_ ∧ _))

theorem BeyondTolerance.ne {row now : DailyPrice} (h : BeyondTolerance row now) : row ≠ now := by
  rintro rfl
  have hdiffer := h.1
  rw [closesDiffer_self] at hdiffer
  cases hdiffer

/-- Every session that the event changes reads beyond the tolerance of these rows after it. -/
def Lasts (rows : List DailyPrice) (history : History) (event : ProviderEvent) : Prop :=
  ∀ old ∈ history.rows, ∀ now ∈ (history.apply event).rows, now.date = old.date → now ≠ old →
    ∀ row ∈ rows, row.date = now.date → BeyondTolerance row now

instance (rows : List DailyPrice) (history : History) (event : ProviderEvent) :
    Decidable (Lasts rows history event) := by
  unfold Lasts
  infer_instance

variable {history : History}

theorem Lasts.mono {rows rows' : List DailyPrice} {event : ProviderEvent}
    (h : Lasts rows history event) (hsub : rows' ⊆ rows) : Lasts rows' history event :=
  fun old hold now hnow hdate hne row hrow => h old hold now hnow hdate hne row (hsub hrow)

/-- The history has moved away from a row. -/
def Moved (row : DailyPrice) (history : History) : Prop :=
  ∃ now ∈ history.rows, now.date = row.date ∧ BeyondTolerance row now

theorem Moved.not_mem {row : DailyPrice} (h : Moved row history) :
    row ∉ history.rows := by
  obtain ⟨now, hnow, hdate, hbeyond⟩ := h
  intro hmem
  exact hbeyond.ne (History.eq_of_date hmem hnow hdate.symm)

variable {rows : List DailyPrice}

theorem Moved.apply {row : DailyPrice}
    {event : ProviderEvent} (h : Moved row history) (hrow : row ∈ rows)
    (hlasts : Lasts rows history event) : Moved row (history.apply event) := by
  obtain ⟨old, hold, hdate, hbeyond⟩ := h
  obtain ⟨now, hnow, hnowdate⟩ := History.exists_apply event hold
  by_cases heq : now = old
  · subst heq
    exact ⟨now, hnow, hdate, hbeyond⟩
  · exact ⟨now, hnow, hnowdate.trans hdate,
      hlasts old hold now hnow hnowdate heq row hrow (hdate.symm.trans hnowdate.symm)⟩

/-- Of each row, the history reads beyond the tolerance, or holds it and every later one. -/
def Against (rows : List DailyPrice) (history : History) : Prop :=
  ∀ row ∈ rows, Moved row history ∨ ∀ later ∈ rows, row.date ≤ later.date → later ∈ history.rows

theorem Against.of_subset (h : rows ⊆ history.rows) :
    Against rows history :=
  fun _ _ => .inr fun _ hlater _ => h hlater

theorem Against.mono {rows rows' : List DailyPrice} (h : Against rows history)
    (hsub : rows' ⊆ rows) : Against rows' history := by
  intro row hrow
  rcases h row (hsub hrow) with hmoved | hheld
  · exact .inl hmoved
  · exact .inr fun later hlater => hheld later (hsub hlater)

theorem Against.apply {event : ProviderEvent}
    (h : Against rows history) (hlasts : Lasts rows history event) :
    Against rows (history.apply event) := by
  intro row hrow
  rcases h row hrow with hmoved | hheld
  · exact .inl (hmoved.apply hrow hlasts)
  · have hmem := hheld row hrow le_rfl
    obtain ⟨now, hnow, hdate⟩ := History.exists_apply event hmem
    by_cases heq : now = row
    · subst heq
      exact .inr fun later hlater hle =>
        History.mem_apply_of_later hmem hnow (hheld later hlater hle) hle
    · exact .inl ⟨now, hnow, hdate, hlasts row hmem now hnow hdate heq row hrow hdate.symm⟩

/-- A history that reads the earliest row as it was holds them all. -/
theorem Against.subset {earliest : DailyPrice}
    (h : Against rows history) (hearliest : earliest ∈ rows)
    (hleast : ∀ row ∈ rows, earliest.date ≤ row.date) (hnot : ¬ Moved earliest history) :
    rows ⊆ history.rows := by
  rcases h earliest hearliest with hmoved | hheld
  · exact absurd hmoved hnot
  · exact fun row hrow => hheld row hrow (hleast row hrow)

/-- Of a row that was read, the history holds the session. -/
theorem Against.exists_date {row : DailyPrice} (h : Against rows history) (hrow : row ∈ rows) :
    ∃ now ∈ history.rows, now.date = row.date ∧ (BeyondTolerance row now ∨ now = row) := by
  rcases h row hrow with ⟨now, hnow, hdate, hbeyond⟩ | hheld
  · exact ⟨now, hnow, hdate, .inl hbeyond⟩
  · exact ⟨row, hheld row hrow le_rfl, rfl, .inr rfl⟩

/-! ### Events in a row -/

/-- Each of the events meets a condition on the history it comes to. -/
def EventsMeet (ok : History → ProviderEvent → Prop) : History → List ProviderEvent → Prop
  | _, [] => True
  | history, event :: rest => ok history event ∧ EventsMeet ok (history.apply event) rest

/-- What every event that meets the condition keeps, all of them keep. -/
theorem EventsMeet.keeps {ok : History → ProviderEvent → Prop} {I : History → Prop}
    (hstep : ∀ history event, ok history event → I history → I (history.apply event))
    {events : List ProviderEvent} (hmeet : EventsMeet ok history events)
    (hI : I history) : I (history.after events) := by
  induction events generalizing history with
  | nil => exact hI
  | cons event rest ih => exact ih hmeet.2 (hstep history event hmeet.1 hI)

end FactorSage.PriceBasis
