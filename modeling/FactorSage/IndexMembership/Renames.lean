import FactorSage.IndexMembership.Orders

/-!
# The renames of one day

Renames dated the same day mean one thing together: who holds a new symbol afterwards held its old
one before (`simultaneous`). The walk undoes them one after another, in the order of their new
symbols, so a member an earlier one has moved may be moved again by a later one.

`actsSimultaneously_iff` says exactly when the day comes out right.
-/

namespace FactorSage.IndexMembership

open ComparatorSort CodeUnits

/-! ### The day as it is meant -/

/-- Every symbol moves at once. -/
def simultaneous (renames : List SymbolChange) (ticker : String) : String :=
  ((renames.find? fun rename => rename.newSymbol = ticker).map SymbolChange.oldSymbol).getD ticker

/-- Spans as the walk collects them: each but the oldest begins on its rename's date, those dates
descend, and all are after the date the walk has come to. -/
def SpansAfter (date : ℤ) (spans : List SpanStart) : Prop :=
  ∃ dates : List ℤ, spans.map SpanStart.fromDate = dates.map some ++ [none]
    ∧ dates.Pairwise (· > ·) ∧ ∀ began ∈ dates, date < began

/-- Ticker spans that do not overlap and are not empty, newest first. -/
structure SpansDisjoint (spans : List TickerSpan) : Prop where
  within : ∀ span ∈ spans, ∀ first, span.fromDate = some first → ∀ last, span.toDate = some last →
    first ≤ last
  apart : spans.Pairwise fun newer older =>
    ∃ first last, newer.fromDate = some first ∧ older.toDate = some last ∧ last < first

/-- What undoing the renames of a date does to one member. -/
structure MovesOnce (date : ℤ) (renames : List SymbolChange) (before after : Walker) : Prop where
  key : after.key = before.key
  ticker : after.ticker = simultaneous renames before.ticker
  /-- It comes to know no other symbol. -/
  history : ∀ ticker ∈ after.knownTickers,
    ticker ∈ before.knownTickers ∨ ticker = simultaneous renames before.ticker
  spans : SpansAfter date before.spans → SpansDisjoint (tickerSpans none after.spans)

/-- The members before and after a date's renames are undone, all at once. -/
structure ActsSimultaneously (date : ℤ) (renames : List SymbolChange)
    (before after : List Walker) : Prop where
  moves : List.Forall₂ (MovesOnce date renames) before after
  distinct : (after.map Walker.ticker).Nodup

/-- The rename a member meets does not lead on to one that is undone later. -/
def NoLaterLink (renames : List SymbolChange) (active : List Walker) : Prop :=
  ∀ walker ∈ active, ∀ rename ∈ renames, rename.newSymbol = walker.ticker →
    ∀ next ∈ renames, next.newSymbol = rename.oldSymbol →
      codeUnits next.newSymbol ≤ codeUnits rename.newSymbol

/-- No member stays on the old symbol of a rename another member meets. -/
def NoHolder (renames : List SymbolChange) (active : List Walker) : Prop :=
  ∀ walker ∈ active, ∀ rename ∈ renames, rename.newSymbol = walker.ticker →
    ∀ holder ∈ active, holder.ticker = rename.oldSymbol →
      ∃ next ∈ renames, next.newSymbol = holder.ticker

/-! ### One member -/

/-- One member across the renames of a date. -/
def Walker.cross (date : ℤ) (renames : List SymbolChange) (walker : Walker) : Walker :=
  renames.foldl (fun walker rename => walker.rename date rename) walker

theorem crossRenames_eq (date : ℤ) (renames : List SymbolChange) (active : List Walker) :
    crossRenames date renames active = active.map (Walker.cross date renames) := by
  unfold crossRenames
  induction renames generalizing active with
  | nil => exact (List.map_id active).symm
  | cons rename renames ih =>
    rw [List.foldl_cons, ih, applyRename, List.map_map]
    rfl

section Member

variable {date : ℤ} {renames : List SymbolChange} {walker : Walker}

theorem ticker_rename {rename : SymbolChange} :
    (walker.rename date rename).ticker
      = if walker.ticker = rename.newSymbol then rename.oldSymbol else walker.ticker := by
  unfold Walker.rename
  split <;> rfl

/-- A member no rename leads to stays as it is. -/
theorem cross_of_not_mem (h : ∀ rename ∈ renames, rename.newSymbol ≠ walker.ticker) :
    walker.cross date renames = walker := by
  unfold Walker.cross
  induction renames with
  | nil => rfl
  | cons rename renames ih =>
    have hhead : walker.rename date rename = walker :=
      if_neg (h rename List.mem_cons_self).symm
    rw [List.foldl_cons, hhead]
    exact ih fun other hother => h other (List.mem_cons_of_mem _ hother)

/-- A member one rename leads to, when no later one leads on. -/
theorem cross_of_mem {front back : List SymbolChange} {rename : SymbolChange}
    (hfront : ∀ other ∈ front, other.newSymbol ≠ walker.ticker)
    (hrename : rename.newSymbol = walker.ticker)
    (hback : ∀ other ∈ back, other.newSymbol ≠ rename.oldSymbol) :
    walker.cross date (front ++ rename :: back) = walker.rename date rename := by
  have hhead := @cross_of_not_mem date front walker hfront
  have hticker : (walker.rename date rename).ticker = rename.oldSymbol := by
    rw [ticker_rename, if_pos hrename.symm]
  have htail : (walker.rename date rename).cross date back = walker.rename date rename :=
    cross_of_not_mem fun other hother => hticker ▸ hback other hother
  unfold Walker.cross at hhead htail ⊢
  rw [List.foldl_append, List.foldl_cons, hhead]
  exact htail

/-- Where a member ends: on its own ticker, or on the old symbol of some rename. -/
theorem ticker_cross (renames : List SymbolChange) :
    ∀ walker : Walker, (walker.cross date renames).ticker = walker.ticker
      ∨ ∃ rename ∈ renames, (walker.cross date renames).ticker = rename.oldSymbol := by
  induction renames with
  | nil => exact fun walker => .inl rfl
  | cons rename renames ih =>
    intro walker
    have hstep : walker.cross date (rename :: renames)
        = (walker.rename date rename).cross date renames := rfl
    rw [hstep]
    rcases ih (walker.rename date rename) with hsame | ⟨last, hlast, hticker⟩
    · rw [hsame, ticker_rename]
      split
      · exact .inr ⟨rename, List.mem_cons_self, rfl⟩
      · exact .inl rfl
    · exact .inr ⟨last, List.mem_cons_of_mem _ hlast, hticker⟩

/-- A later link takes a member off the symbol it came to. -/
theorem ticker_cross_ne (renames : List SymbolChange) {symbol : String}
    (holds : ∀ rename ∈ renames, rename.oldSymbol ≠ symbol)
    {next : SymbolChange} (hnext : next ∈ renames) (hleads : next.newSymbol = symbol) :
    ∀ walker : Walker, (walker.cross date renames).ticker ≠ symbol := by
  induction renames with
  | nil => cases hnext
  | cons rename renames ih =>
    intro walker
    have hstep : walker.cross date (rename :: renames)
        = (walker.rename date rename).cross date renames := rfl
    rw [hstep]
    have hrest : ∀ other ∈ renames, other.oldSymbol ≠ symbol :=
      fun other hother => holds other (List.mem_cons_of_mem _ hother)
    rcases List.mem_cons.mp hnext with rfl | hnext
    · -- from here on the member is not on the symbol, and no rename leads back to it
      have hoff : (walker.rename date next).ticker ≠ symbol := by
        rw [ticker_rename]
        split
        · exact holds next List.mem_cons_self
        · next hne => exact fun heq => hne (heq.trans hleads.symm)
      rcases @ticker_cross date renames (walker.rename date next) with
        hsame | ⟨last, hlast, hticker⟩
      · rw [hsame]
        exact hoff
      · rw [hticker]
        exact hrest last hlast
    · exact ih hrest hnext _

end Member

/-! ### Spans -/

theorem beginSpan_append {date : ℤ} {span : SpanStart} :
    ∀ spans : List SpanStart, beginSpan date (spans ++ [span])
      = spans ++ [{ span with fromDate := some date }]
  | [] => rfl
  | [_] => rfl
  | first :: second :: spans => congrArg (first :: ·) (beginSpan_append (second :: spans))

/-- A rename's date becomes the beginning of the span that was open. -/
theorem fromDates_rename {date : ℤ} {rename : SymbolChange} {walker : Walker} {dates : List ℤ}
    (h : walker.spans.map SpanStart.fromDate = dates.map some ++ [none])
    (hrename : walker.ticker = rename.newSymbol) :
    (walker.rename date rename).spans.map SpanStart.fromDate
      = (dates ++ [date]).map some ++ [none] := by
  have hne : walker.spans ≠ [] := by
    intro hnil
    rw [hnil] at h
    exact absurd h.symm (by simp)
  obtain ⟨front, last, hspans⟩ := List.eq_nil_or_concat walker.spans |>.resolve_left hne
  rw [List.concat_eq_append] at hspans
  rw [hspans, List.map_append] at h
  obtain ⟨hfront, -⟩ := List.append_inj' h rfl
  have hrenamed : (walker.rename date rename).spans
      = front ++ [{ last with fromDate := some date }] ++ [⟨rename.oldSymbol, none⟩] := by
    unfold Walker.rename
    rw [if_pos hrename]
    change beginSpan date walker.spans ++ _ = _
    rw [hspans, beginSpan_append]
  rw [hrenamed, List.map_append, List.map_append, hfront, List.map_append]
  rfl

/-- The ends follow the newer beginnings. -/
theorem disjoint_tickerSpans :
    ∀ (spans : List SpanStart) (newer : Option SpanStart) (dates : List ℤ),
      spans.map SpanStart.fromDate = dates.map some ++ [none] → dates.Pairwise (· > ·) →
      (∀ began, newer.bind SpanStart.fromDate = some began → ∀ date ∈ dates, date < began) →
      SpansDisjoint (tickerSpans newer spans)
        ∧ ∀ span ∈ tickerSpans newer spans, ∀ began, newer.bind SpanStart.fromDate = some began →
            ∃ last, span.toDate = some last ∧ last < began := by
  intro spans
  induction spans with
  | nil =>
    exact fun _ _ _ _ _ =>
      ⟨⟨fun _ h => (nomatch h), List.Pairwise.nil⟩, fun _ h => (nomatch h)⟩
  | cons span spans ih =>
    intro newer dates hspans hdates hnewer
    cases dates with
    | nil =>
      -- the oldest span
      obtain ⟨hopen, hrest⟩ := List.cons.inj hspans
      obtain rfl := List.map_eq_nil_iff.mp hrest
      refine ⟨⟨fun other hother first hfirst => ?_, List.pairwise_singleton _ _⟩,
        fun other hother began hbegan => ?_⟩
      · obtain rfl := List.mem_singleton.mp hother
        rw [hopen] at hfirst
        cases hfirst
      · obtain rfl := List.mem_singleton.mp hother
        refine ⟨began - 1, ?_, sub_one_lt began⟩
        change (newer.bind SpanStart.fromDate).map (· - 1) = _
        rw [hbegan]
        rfl
    | cons date dates =>
      obtain ⟨hbegins, hrest⟩ := List.cons.inj hspans
      rw [List.pairwise_cons] at hdates
      have hlater : ∀ began, (some span).bind SpanStart.fromDate = some began →
          ∀ other ∈ dates, other < began := by
        intro began hbegan other hother
        obtain rfl := Option.some.inj (hbegins.symm.trans hbegan)
        exact hdates.1 other hother
      obtain ⟨⟨hwithin, hapart⟩, hends⟩ := ih (some span) dates hrest hdates.2 hlater
      refine ⟨⟨?_, ?_⟩, ?_⟩
      · intro other hother first hfirst last hlast
        rcases List.mem_cons.mp hother with rfl | hother
        · obtain rfl := Option.some.inj (hbegins.symm.trans hfirst)
          obtain ⟨began, hbegan, rfl⟩ := Option.map_eq_some_iff.mp hlast
          exact Int.le_sub_one_of_lt (hnewer began hbegan date List.mem_cons_self)
        · exact hwithin other hother first hfirst last hlast
      · refine List.pairwise_cons.mpr ⟨fun other hother => ?_, hapart⟩
        obtain ⟨last, hlast, hlt⟩ := hends other hother date hbegins
        exact ⟨date, last, hbegins, hlast, hlt⟩
      · intro other hother began hbegan
        rcases List.mem_cons.mp hother with rfl | hother
        · refine ⟨began - 1, ?_, sub_one_lt began⟩
          change (newer.bind SpanStart.fromDate).map (· - 1) = _
          rw [hbegan]
          rfl
        · obtain ⟨last, hlast, hlt⟩ := hends other hother date hbegins
          exact ⟨last, hlast, hlt.trans (hnewer began hbegan date List.mem_cons_self)⟩

theorem SpansAfter.disjoint {date : ℤ} {spans : List SpanStart} (h : SpansAfter date spans) :
    SpansDisjoint (tickerSpans none spans) := by
  obtain ⟨dates, hspans, hdates, -⟩ := h
  exact (disjoint_tickerSpans spans none dates hspans hdates fun _ h => (nomatch h)).1

/-! ### The day -/

section Day

variable {date : ℤ} {renames : List SymbolChange} {active : List Walker}

theorem find?_eq_of_nodup (hnew : (renames.map SymbolChange.newSymbol).Nodup)
    {rename : SymbolChange} (hmem : rename ∈ renames) :
    renames.find? (fun other => other.newSymbol = rename.newSymbol) = some rename := by
  obtain ⟨found, hfound⟩ : ∃ found,
      renames.find? (fun other => other.newSymbol = rename.newSymbol) = some found :=
    Option.isSome_iff_exists.mp (List.find?_isSome.mpr ⟨rename, hmem, decide_eq_true rfl⟩)
  have hsymbol := List.find?_some hfound
  rw [decide_eq_true_eq] at hsymbol
  rw [hfound, List.inj_on_of_nodup_map hnew (List.mem_of_find?_eq_some hfound) hmem hsymbol]

theorem simultaneous_of_mem (hnew : (renames.map SymbolChange.newSymbol).Nodup)
    {rename : SymbolChange} (hmem : rename ∈ renames) :
    simultaneous renames rename.newSymbol = rename.oldSymbol := by
  unfold simultaneous
  rw [find?_eq_of_nodup hnew hmem]
  rfl

theorem simultaneous_of_not_mem {ticker : String}
    (h : ∀ rename ∈ renames, rename.newSymbol ≠ ticker) : simultaneous renames ticker = ticker := by
  unfold simultaneous
  rw [List.find?_eq_none.mpr fun rename hmem => by simpa using h rename hmem]
  rfl

/-- In the order of the day, what comes after a rename has a later new symbol. -/
theorem newSymbol_lt (hdate : ∀ rename ∈ renames, rename.date = date)
    (hnew : (renames.map SymbolChange.newSymbol).Nodup) {front back : List SymbolChange}
    {rename : SymbolChange} (hsorted : sortBy compareRenames renames = front ++ rename :: back) :
    ∀ next ∈ back, codeUnits rename.newSymbol < codeUnits next.newSymbol := by
  intro next hnext
  have hpairwise := compares_compareRenames.pairwise_sortBy renames
  have hnodup : ((sortBy compareRenames renames).map SymbolChange.newSymbol).Nodup :=
    ((sortBy_perm compareRenames renames).map _).nodup_iff.mpr hnew
  have hmemOf : ∀ other ∈ front ++ rename :: back, other ∈ renames :=
    fun other hother => mem_sortBy.mp (hsorted ▸ hother)
  rw [hsorted] at hpairwise hnodup
  have hle := (List.pairwise_cons.mp (List.pairwise_append.mp hpairwise).2.1).1 next hnext
  have hne : rename.newSymbol ≠ next.newSymbol := by
    rw [List.map_append, List.map_cons] at hnodup
    have htail := (List.nodup_append.mp hnodup).2.1
    exact fun heq => (List.nodup_cons.mp htail).1 (heq ▸ List.mem_map_of_mem hnext)
  have hsame : rename.date = next.date :=
    (hdate rename (hmemOf _ (by simp))).trans (hdate next (hmemOf _ (by simp [hnext]))).symm
  rw [renameKey, renameKey, hsame, Prod.Lex.toLex_le_toLex, Prod.Lex.toLex_le_toLex] at hle
  rcases hle with hlt | ⟨-, hlt | ⟨hunits, -⟩⟩
  · exact absurd hlt (lt_irrefl _)
  · exact hlt
  · exact absurd (codeUnits_injective hunits) hne

/-- **A member that meets no later link moves once.** -/
theorem movesOnce_cross (hdate : ∀ rename ∈ renames, rename.date = date)
    (hnew : (renames.map SymbolChange.newSymbol).Nodup) (hlink : NoLaterLink renames active)
    {walker : Walker} (hwalker : walker ∈ active) :
    MovesOnce date renames walker (walker.cross date (sortBy compareRenames renames)) := by
  by_cases hmet : ∃ rename ∈ renames, rename.newSymbol = walker.ticker
  · obtain ⟨rename, hrename, hticker⟩ := hmet
    obtain ⟨front, back, hsorted⟩ := List.append_of_mem (mem_sortBy.mpr hrename)
    -- the renames of a day are tried in the order of their new symbols
    have hlater := newSymbol_lt hdate hnew hsorted
    have hmemOf : ∀ other ∈ front ++ rename :: back, other ∈ renames :=
      fun other hother => mem_sortBy.mp (hsorted ▸ hother)
    have hnodup : ((front ++ rename :: back).map SymbolChange.newSymbol).Nodup :=
      hsorted ▸ ((sortBy_perm compareRenames renames).map _).nodup_iff.mpr hnew
    have hcross : walker.cross date (sortBy compareRenames renames)
        = walker.rename date rename := by
      rw [hsorted]
      -- those tried later have a larger new symbol, so none takes the ticker this one leaves
      refine cross_of_mem (fun other hother heq => ?_) hticker fun other hother heq => ?_
      · rw [List.map_append, List.nodup_append] at hnodup
        exact hnodup.2.2 _ (List.mem_map_of_mem hother) _ (List.mem_map_of_mem List.mem_cons_self)
          (heq.trans hticker.symm)
      · have hle := hlink walker hwalker rename hrename hticker other
          (hmemOf other (by simp [hother])) heq
        exact absurd (hlater other hother) (not_lt.mpr hle)
    have hsimultaneous : simultaneous renames walker.ticker = rename.oldSymbol :=
      hticker ▸ simultaneous_of_mem hnew hrename
    rw [hcross]
    refine ⟨?_, ?_, fun ticker hknown => ?_, fun ⟨dates, hspans, hdates, hafter⟩ => ?_⟩
    · unfold Walker.rename
      split <;> rfl
    · rw [ticker_rename, if_pos hticker.symm, hsimultaneous]
    · rw [hsimultaneous]
      unfold Walker.rename at hknown
      rw [if_pos hticker.symm] at hknown
      change ticker ∈ (if rename.oldSymbol ∈ walker.knownTickers then walker.knownTickers
        else walker.knownTickers ++ [rename.oldSymbol]) at hknown
      split at hknown
      · exact .inl hknown
      · rcases List.mem_append.mp hknown with hknown | hknown
        · exact .inl hknown
        · exact .inr (List.mem_singleton.mp hknown)
    · refine @SpansAfter.disjoint (date - 1) _ ⟨dates ++ [date],
        fromDates_rename hspans hticker.symm, ?_, ?_⟩
      · rw [List.pairwise_append]
        refine ⟨hdates, List.pairwise_singleton _ _, fun began hbegan other hother => ?_⟩
        rw [List.mem_singleton.mp hother]
        exact hafter began hbegan
      · intro began hbegan
        rcases List.mem_append.mp hbegan with hbegan | hbegan
        · exact (sub_one_lt date).trans (hafter began hbegan)
        · rw [List.mem_singleton.mp hbegan]
          exact sub_one_lt date
  · have hnone : ∀ rename ∈ renames, rename.newSymbol ≠ walker.ticker :=
      fun rename hrename heq => hmet ⟨rename, hrename, heq⟩
    have hcross : walker.cross date (sortBy compareRenames renames) = walker :=
      cross_of_not_mem fun rename hrename => hnone rename (mem_sortBy.mp hrename)
    rw [hcross]
    exact ⟨rfl, (simultaneous_of_not_mem hnone).symm, fun _ hknown => .inl hknown,
      SpansAfter.disjoint⟩

/-- A member that meets a later link does not end where it was. -/
theorem noLaterLink_of_moves (hdate : ∀ rename ∈ renames, rename.date = date)
    (hold : (renames.map SymbolChange.oldSymbol).Nodup)
    (hnew : (renames.map SymbolChange.newSymbol).Nodup)
    (hmoves : ∀ walker ∈ active, (walker.cross date (sortBy compareRenames renames)).ticker
      = simultaneous renames walker.ticker) : NoLaterLink renames active := by
  intro walker hwalker rename hrename hticker next hnext hleads
  by_contra hlater
  obtain ⟨front, back, hsorted⟩ := List.append_of_mem (mem_sortBy.mpr hrename)
  have hmemOf : ∀ other ∈ front ++ rename :: back, other ∈ renames :=
    fun other hother => mem_sortBy.mp (hsorted ▸ hother)
  have hnodup : ((front ++ rename :: back).map SymbolChange.oldSymbol).Nodup :=
    hsorted ▸ ((sortBy_perm compareRenames renames).map _).nodup_iff.mpr hold
  -- the link is undone after the rename
  have hback : next ∈ back := by
    have hin : next ∈ front ++ rename :: back := hsorted ▸ mem_sortBy.mpr hnext
    rcases List.mem_append.mp hin with hin | hin
    · obtain ⟨front', back', rfl⟩ := List.append_of_mem hin
      have hlt : codeUnits next.newSymbol < codeUnits rename.newSymbol := by
        have hfront : sortBy compareRenames renames
            = front' ++ next :: (back' ++ rename :: back) := by
          rw [hsorted, List.append_assoc]
          rfl
        exact newSymbol_lt hdate hnew hfront rename (by simp)
      exact absurd hlt.le hlater
    · rcases List.mem_cons.mp hin with rfl | hin
      · exact absurd le_rfl hlater
      · exact hin
  have hsplit : walker.cross date (sortBy compareRenames renames)
      = (walker.cross date (front ++ [rename])).cross date back := by
    rw [hsorted]
    unfold Walker.cross
    rw [← List.foldl_append, List.append_assoc]
    rfl
  have hrest : ∀ other ∈ back, other.oldSymbol ≠ rename.oldSymbol := by
    intro other hother heq
    rw [List.map_append, List.map_cons] at hnodup
    exact (List.nodup_cons.mp (List.nodup_append.mp hnodup).2.1).1
      (heq ▸ List.mem_map_of_mem hother)
  have hends := hmoves walker hwalker
  rw [hsplit, ← hticker, simultaneous_of_mem hnew hrename] at hends
  exact ticker_cross_ne back hrest hback hleads _ hends

/-- **When the renames of a day act simultaneously**, in the order the day is undone. -/
theorem actsSimultaneously_sorted_iff (hdate : ∀ rename ∈ renames, rename.date = date)
    (hold : (renames.map SymbolChange.oldSymbol).Nodup)
    (hnew : (renames.map SymbolChange.newSymbol).Nodup)
    (hactive : (active.map Walker.ticker).Nodup) :
    ActsSimultaneously date renames active
        (crossRenames date (sortBy compareRenames renames) active)
      ↔ NoLaterLink renames active ∧ NoHolder renames active := by
  rw [crossRenames_eq]
  constructor
  · rintro ⟨hmoves, hdistinct⟩
    rw [List.forall₂_map_right_iff, List.forall₂_same] at hmoves
    have hlink := noLaterLink_of_moves hdate hold hnew fun walker hwalker =>
      (hmoves walker hwalker).ticker
    refine ⟨hlink, fun walker hwalker rename hrename hticker holder hholder hold' => ?_⟩
    by_contra hfree
    have hstays : simultaneous renames holder.ticker = holder.ticker :=
      simultaneous_of_not_mem fun next hnext heq => hfree ⟨next, hnext, heq⟩
    -- both end on the old symbol
    rw [List.map_map] at hdistinct
    have hsame : walker = holder := by
      refine List.inj_on_of_nodup_map hdistinct hwalker hholder ?_
      change (walker.cross date _).ticker = (holder.cross date _).ticker
      rw [(hmoves walker hwalker).ticker, (hmoves holder hholder).ticker, hstays, ← hticker,
        simultaneous_of_mem hnew hrename, hold']
    exact hfree ⟨rename, hrename, by rw [hticker, hsame]⟩
  · rintro ⟨hlink, hholder⟩
    have hmoves : ∀ walker ∈ active, MovesOnce date renames walker
        (walker.cross date (sortBy compareRenames renames)) :=
      fun walker hwalker => movesOnce_cross hdate hnew hlink hwalker
    refine ⟨?_, ?_⟩
    · rw [List.forall₂_map_right_iff, List.forall₂_same]
      exact hmoves
    · rw [List.map_map]
      refine List.Nodup.map_on (fun left hleft right hright heq => ?_) (List.Nodup.of_map _ hactive)
      change (left.cross date _).ticker = (right.cross date _).ticker at heq
      rw [(hmoves left hleft).ticker, (hmoves right hright).ticker] at heq
      refine List.inj_on_of_nodup_map hactive hleft hright ?_
      by_cases hl : ∃ rename ∈ renames, rename.newSymbol = left.ticker
      · obtain ⟨rename, hrename, hticker⟩ := hl
        rw [← hticker, simultaneous_of_mem hnew hrename] at heq
        by_cases hr : ∃ rename ∈ renames, rename.newSymbol = right.ticker
        · obtain ⟨other, hother, hticker'⟩ := hr
          rw [← hticker', simultaneous_of_mem hnew hother] at heq
          rw [← hticker, ← hticker', List.inj_on_of_nodup_map hold hrename hother heq]
        · have hstays : simultaneous renames right.ticker = right.ticker :=
            simultaneous_of_not_mem fun next hnext heq => hr ⟨next, hnext, heq⟩
          rw [hstays] at heq
          exact absurd (hholder left hleft rename hrename hticker right hright heq.symm) hr
      · have hstaysLeft : simultaneous renames left.ticker = left.ticker :=
          simultaneous_of_not_mem fun next hnext heq => hl ⟨next, hnext, heq⟩
        rw [hstaysLeft] at heq
        by_cases hr : ∃ rename ∈ renames, rename.newSymbol = right.ticker
        · obtain ⟨other, hother, hticker'⟩ := hr
          rw [← hticker', simultaneous_of_mem hnew hother] at heq
          exact absurd (hholder right hright other hother hticker' left hleft heq) hl
        · rwa [simultaneous_of_not_mem fun next hnext heq => hr ⟨next, hnext, heq⟩] at heq

end Day

/-- The renames dated a day. -/
def renamesOn (input : ReconstructionInput) (date : ℤ) : List SymbolChange :=
  input.symbolChanges.filter fun rename => rename.date = date

/-- The walk undoes a day's renames in their own order. -/
theorem filter_appliedRenames {input : ReconstructionInput} {date : ℤ} (hasOf : date ≤ input.asOf)
    (hnew : ((renamesOn input date).map SymbolChange.newSymbol).Nodup) :
    ((appliedRenames input).filter fun rename => rename.date = date)
      = sortBy compareRenames (renamesOn input date) := by
  have hperm : ((appliedRenames input).filter fun rename => rename.date = date).Perm
      (renamesOn input date) := by
    unfold appliedRenames renamesOn
    refine ((sortBy_perm _ _).filter _).trans ?_
    rw [List.filter_filter]
    refine List.Perm.of_eq (List.filter_congr fun rename _ => ?_)
    rw [← Bool.decide_and]
    refine decide_eq_decide.mpr ⟨fun h => h.1, fun h => ⟨h, h ▸ hasOf⟩⟩
  refine eq_sortBy_of_perm compares_compareRenames hperm
    ((compares_compareRenames.pairwise_sortBy _).filter _) ?_
  refine List.Nodup.map_on (fun left hleft right hright hkey => ?_)
    (hperm.nodup_iff.mpr (List.Nodup.of_map _ hnew))
  have hsymbol : left.newSymbol = right.newSymbol :=
    codeUnits_injective (congrArg (fun key => (ofLex (ofLex key).2).1) hkey)
  exact List.inj_on_of_nodup_map hnew (hperm.mem_iff.mp hleft) (hperm.mem_iff.mp hright) hsymbol

/-- **When renames dated the same day act simultaneously.** Crossing the day maps every member to
its old symbol, keeps the members' symbols distinct and their spans apart exactly when no member
meets a rename that leads on to one undone later, and none stays on the old symbol of another's. -/
theorem actsSimultaneously_iff {input : ReconstructionInput} {date : ℤ} {active : List Walker}
    (hasOf : date ≤ input.asOf)
    (hold : ((renamesOn input date).map SymbolChange.oldSymbol).Nodup)
    (hnew : ((renamesOn input date).map SymbolChange.newSymbol).Nodup)
    (hactive : (active.map Walker.ticker).Nodup) :
    ActsSimultaneously date (renamesOn input date) active
        (crossRenames date ((appliedRenames input).filter fun rename => rename.date = date) active)
      ↔ NoLaterLink (renamesOn input date) active ∧ NoHolder (renamesOn input date) active := by
  rw [filter_appliedRenames hasOf hnew]
  exact actsSimultaneously_sorted_iff (fun rename hrename =>
    of_decide_eq_true (List.mem_filter.mp hrename).2) hold hnew hactive

/-! ### Chains -/

/-- On one day the first symbol became the second and the second the third. -/
def chainInput (first second third : String) : ReconstructionInput where
  current := []
  changes := []
  symbolChanges := [⟨100, first, second⟩, ⟨100, second, third⟩]
  asOf := 200

def memberOf (ticker : String) : Walker :=
  newWalker ("CURRENT:" ++ ticker) .CURRENT ticker ticker none none none none

/-- Crossing the day of a chain. -/
def crossChain (first second third : String) : List Walker :=
  crossRenames 100
    ((appliedRenames (chainInput first second third)).filter fun rename => rename.date = 100)
    [memberOf second, memberOf third]

/-- The chain from A to C is undone in its own order. -/
theorem chain_moves_once :
    ActsSimultaneously 100 (renamesOn (chainInput "A" "B" "C") 100) [memberOf "B", memberOf "C"]
      (crossChain "A" "B" "C") := by
  refine (actsSimultaneously_iff (by decide) (by decide) (by decide) (by decide)).mpr ⟨?_, ?_⟩
  · unfold NoLaterLink
    decide +kernel
  · unfold NoHolder
    decide +kernel

/-- In the chain from C to A the member A should become B, and becomes C, as the member B does. -/
theorem chain_moves_twice :
    ¬ ActsSimultaneously 100 (renamesOn (chainInput "C" "B" "A") 100) [memberOf "B", memberOf "A"]
      (crossChain "C" "B" "A") := by
  intro h
  have hdistinct := h.distinct
  revert hdistinct
  decide +kernel

end FactorSage.IndexMembership
