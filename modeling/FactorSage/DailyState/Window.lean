import FactorSage.DailyState.Chunk
import Mathlib.Data.List.GetD

/-!
# Reading a range

`decode_range`: reading a range succeeds exactly when reading the whole chunk does, for the same
reason where neither does, and gives the whole chunk's rows inside the range.

A window of a list is `windowed`. Expanding a column over a window is the window of the column's whole
expansion (`expandColumn_window`), since the cells are walked over the whole axis in either case;
the rows of a window are those of the whole chunk (`materializeRows_window`), since the template of
a row depends on its own session only (`materializeRows_eq`); and the window a range asks for holds
the dates inside it (`windowOf_spec`), since the axis ascends.
-/

namespace FactorSage.DailyState

open JsonText

variable {N : Type}

/-! ### Windows -/

/-- What a list of sessions holds in the window `[first, last)`. -/
def windowed (first last : ℕ) (whole : List (Option (Cell N))) : List (Option (Cell N)) :=
  (List.range (last - first)).map fun offset => (whole[first + offset]?).join

theorem length_windowed (first last : ℕ) (whole : List (Option (Cell N))) :
    (windowed first last whole).length = last - first := by
  rw [windowed, List.length_map, List.length_range]

theorem getElem?_windowed {first last offset : ℕ} (h : offset < last - first)
    (whole : List (Option (Cell N))) :
    (windowed first last whole)[offset]? = some (whole[first + offset]?).join := by
  rw [windowed, List.getElem?_map, List.getElem?_range h, Option.map_some]

theorem windowed_whole (whole : List (Option (Cell N))) :
    windowed 0 whole.length whole = whole := by
  refine List.ext_getElem? fun i => ?_
  by_cases h : i < whole.length
  · rw [getElem?_windowed (by omega), Nat.zero_add, List.getElem?_eq_getElem h]
    rfl
  · rw [List.getElem?_eq_none (by rw [length_windowed]; omega),
      List.getElem?_eq_none (by omega)]

theorem windowed_nil (first last : ℕ) :
    windowed first last ([] : List (Option (Cell N))) = List.replicate (last - first) none := by
  have hnone : ∀ offset ∈ List.range (last - first),
      (([] : List (Option (Cell N)))[first + offset]?).join = none := fun _ _ => rfl
  rw [windowed, List.map_congr_left hnone, List.map_const', List.length_range]

/-! ### One column -/

theorem getElem?_writeRun (cell : Cell N) (count : ℕ) :
    ∀ (expanded : List (Option (Cell N))) (position i : ℕ), i < expanded.length →
      (writeRun cell expanded position count)[i]?
        = if position ≤ i ∧ i < position + count then some (some cell) else expanded[i]? := by
  induction count with
  | zero =>
    intro expanded position i _
    rw [writeRun, if_neg (by omega)]
  | succ count ih =>
    intro expanded position i hi
    rw [writeRun, ih _ _ _ (by rwa [List.length_set])]
    by_cases hhead : position = i
    · subst hhead
      rw [if_neg (by omega), if_pos (by omega), List.getElem?_set_self hi]
    · rw [List.getElem?_set_ne hhead]
      by_cases hin : position + 1 ≤ i ∧ i < position + 1 + count
      · rw [if_pos hin, if_pos (by omega)]
      · rw [if_neg hin, if_neg (by omega)]

theorem length_writeRun (cell : Cell N) (count : ℕ) :
    ∀ (expanded : List (Option (Cell N))) (position : ℕ),
      (writeRun cell expanded position count).length = expanded.length := by
  induction count with
  | zero => exact fun _ _ => rfl
  | succ count ih =>
    intro expanded position
    rw [writeRun, ih, List.length_set]

/-- Writing the part of a run that lies in the window extends the whole by the run. -/
theorem writeRun_windowed (cell : Cell N) (whole : List (Option (Cell N))) (first last count : ℕ) :
    writeRun cell (windowed first last whole) (max whole.length first - first)
        (min (whole.length + count) last - max whole.length first)
      = windowed first last (whole ++ List.replicate count (some cell)) := by
  refine List.ext_getElem? fun i => ?_
  by_cases hi : i < last - first
  · rw [getElem?_writeRun _ _ _ _ _ (by rwa [length_windowed]), getElem?_windowed hi,
      getElem?_windowed hi]
    by_cases hold : first + i < whole.length
    · rw [if_neg (by omega), List.getElem?_append_left hold]
    · rw [List.getElem?_append_right (by omega), List.getElem?_replicate]
      by_cases hnew : first + i - whole.length < count
      · rw [if_pos (by omega), if_pos hnew]
        rfl
      · rw [if_neg (by omega), if_neg hnew, List.getElem?_eq_none (by omega)]
  · rw [List.getElem?_eq_none (by rw [length_writeRun, length_windowed]; omega),
      List.getElem?_eq_none (by rw [length_windowed]; omega)]

/-- A stretch without values changes nothing. -/
theorem windowed_append_none (whole : List (Option (Cell N))) (first last count : ℕ) :
    windowed first last (whole ++ List.replicate count none) = windowed first last whole := by
  refine List.map_congr_left fun i _ => ?_
  by_cases hold : first + i < whole.length
  · rw [List.getElem?_append_left hold]
  · rw [List.getElem?_append_right (by omega), List.getElem?_replicate,
      List.getElem?_eq_none (not_lt.mp hold)]
    split <;> rfl

/-- Writing a run into the window extends the whole by the run. -/
theorem writeCell_windowed (value : Option (Cell N)) (whole : List (Option (Cell N)))
    (first last count : ℕ) :
    writeCell first last whole.length count (windowed first last whole) value
      = windowed first last (whole ++ List.replicate count value) := by
  cases value with
  | none => exact (windowed_append_none whole first last count).symm
  | some cell => exact writeRun_windowed cell whole first last count

section Columns

variable [JsonNumber N]

/-- The runs the cells of a column stand for, while they fit the axis. -/
def readRuns (kind : ColumnKind) (sessions : ℕ) :
    List (Value N) → ℕ → Except Text (List (Option (Cell N) × ℕ))
  | [], _ => .ok []
  | cell :: rest, index => do
    let run ← readCell kind cell
    if index + run.2 > sessions then
      throw (lit "more cells than the " ++ JsonNumber.text (ofInt sessions : N) ++ lit " dates")
    let runs ← readRuns kind sessions rest (index + run.2)
    return run :: runs

/-- **The walk over a window** reads the runs of the whole column and keeps their window. -/
theorem expandCells_window (kind : ColumnKind) (sessions first last : ℕ) (cells : List (Value N)) :
    ∀ whole : List (Option (Cell N)),
      expandCells kind sessions first last cells whole.length (windowed first last whole)
        = (readRuns kind sessions cells whole.length).map fun runs =>
            (whole.length + (RunLength.expand runs).length,
              windowed first last (whole ++ RunLength.expand runs)) := by
  induction cells with
  | nil =>
    intro whole
    change Except.ok _ = Except.ok (whole.length + 0, windowed first last (whole ++ []))
    rw [List.append_nil, Nat.add_zero]
  | cons cell rest ih =>
    intro whole
    rw [expandCells, readRuns]
    cases readCell kind cell with
    | error failure => rfl
    | ok run =>
      obtain ⟨value, count⟩ := run
      by_cases hfits : whole.length + count > sessions
      · change ite _ _ _ = Except.map _ (ite _ _ _)
        rw [if_pos hfits, if_pos hfits]
        rfl
      · have hlength : (whole ++ List.replicate count value).length = whole.length + count := by
          rw [List.length_append, List.length_replicate]
        change ite _ _ _ = Except.map _ (ite _ _ _)
        rw [if_neg hfits, if_neg hfits]
        change expandCells kind sessions first last rest (whole.length + count) _ = Except.map _
          ((readRuns kind sessions rest (whole.length + count)).bind _)
        rw [writeCell_windowed, ← hlength, ih]
        cases readRuns kind sessions rest (whole ++ List.replicate count value).length with
        | error failure => rfl
        | ok runs =>
          change Except.ok _ = Except.ok _
          dsimp only
          rw [RunLength.expand_cons, List.length_append, List.length_append, List.length_replicate,
            List.append_assoc, Nat.add_assoc]

/-- A column over the whole axis. -/
def readColumn (kind : ColumnKind) (cells : Option (Value N)) (sessions : ℕ) :
    Except Text (List (Option (Cell N))) :=
  expandColumn kind cells sessions 0 sessions

/-- What a column holds, by the runs it stands for. -/
theorem expandColumn_eq (kind : ColumnKind) (cells : List (Value N)) (sessions first last : ℕ) :
    expandColumn kind (some (.arr cells)) sessions first last
      = (readRuns kind sessions cells 0).bind fun runs =>
          if (RunLength.expand runs).length = sessions then
            .ok (windowed first last (RunLength.expand runs))
          else .error (JsonNumber.text (ofInt (RunLength.expand runs).length : N)
            ++ lit " cells for " ++ JsonNumber.text (ofInt sessions : N) ++ lit " dates") := by
  have hwalk := expandCells_window kind sessions first last cells []
  rw [windowed_nil] at hwalk
  change (expandCells kind sessions first last cells 0 _).bind _ = _
  change expandCells kind sessions first last cells 0 _ = _ at hwalk
  rw [hwalk]
  cases readRuns kind sessions cells 0 with
  | error failure => rfl
  | ok runs =>
    have hlength : ([] : List (Option (Cell N))).length + (RunLength.expand runs).length
        = (RunLength.expand runs).length := Nat.zero_add _
    change ite _ _ _ = ite _ _ _
    rw [hlength]
    rfl

theorem length_readColumn {kind : ColumnKind} {cells : Option (Value N)} {sessions : ℕ}
    {whole : List (Option (Cell N))} (h : readColumn kind cells sessions = .ok whole) :
    whole.length = sessions := by
  unfold readColumn at h
  rcases cells with _ | value
  · cases h
  cases value with
  | arr cells =>
    rw [expandColumn_eq] at h
    cases hruns : readRuns kind sessions cells 0 with
    | error failure =>
      rw [hruns] at h
      cases h
    | ok runs =>
      rw [hruns] at h
      change ite _ _ _ = _ at h
      split at h
      · obtain rfl := Except.ok.inj h
        rw [length_windowed, Nat.sub_zero]
      · cases h
  | _ => cases h

/-- **A column over a window** is the window of the column over the whole axis. -/
theorem expandColumn_window (kind : ColumnKind) (cells : Option (Value N))
    (sessions first last : ℕ) :
    expandColumn kind cells sessions first last
      = (readColumn kind cells sessions).map (windowed first last) := by
  unfold readColumn
  rcases cells with _ | value
  · rfl
  cases value with
  | arr cells =>
    rw [expandColumn_eq, expandColumn_eq]
    cases readRuns kind sessions cells 0 with
    | error failure => rfl
    | ok runs =>
      change ite _ _ _ = Except.map _ (ite _ _ _)
      split
      · next hlength =>
        change Except.ok _ = Except.ok _
        rw [← hlength, windowed_whole]
      · rfl
  | _ => rfl

omit [JsonNumber N] in
theorem mapM_map {α β γ : Type} (f : α → Except Text β) (g : β → γ) (l : List α) :
    (l.mapM fun a => (f a).map g) = (l.mapM f).map (List.map g) := by
  induction l with
  | nil => rfl
  | cons a l ih =>
    rw [List.mapM_cons, List.mapM_cons, ih]
    cases f a with
    | error failure => rfl
    | ok b =>
      cases l.mapM f with
      | error failure => rfl
      | ok bs => rfl

theorem expandColumns_window (cells : List (Value N)) (sessions first last : ℕ) :
    expandColumns cells sessions first last
      = (expandColumns cells sessions 0 sessions).map (List.map (windowed first last)) := by
  unfold expandColumns
  rw [← mapM_map]
  congr 1
  funext entry
  dsimp only
  rw [expandColumn_window, readColumn]
  cases expandColumn entry.1.kind (some entry.2) sessions 0 sessions with
  | error failure => rfl
  | ok whole => rfl

omit [JsonNumber N] in
theorem forall₂_of_mapM {α β : Type} {f : α → Except Text β} {l : List α} {bs : List β}
    (h : l.mapM f = .ok bs) : List.Forall₂ (fun a b => f a = .ok b) l bs := by
  induction l generalizing bs with
  | nil =>
    obtain rfl := Except.ok.inj h
    exact List.Forall₂.nil
  | cons a l ih =>
    rw [List.mapM_cons] at h
    cases hf : f a with
    | error failure =>
      rw [hf] at h
      cases h
    | ok b =>
      rw [hf] at h
      cases hrest : l.mapM f with
      | error failure =>
        rw [hrest] at h
        cases h
      | ok bs' =>
        rw [hrest] at h
        obtain rfl := Except.ok.inj h
        exact List.Forall₂.cons hf (ih hrest)

end Columns

/-! ### Rows -/

/-- The row of a session by itself. -/
def rowAt (securityId date : Text) (cells : List (Option (Cell N))) : DailyDerivedState N where
  securityId
  date
  fields := writeFields (columns.zip cells) (rowTemplate (shapeOf cells)) none

theorem shapeOf_of_not_shapeChanged {values : List (List (Option (Cell N)))} {offset : ℕ}
    (h : shapeChanged values offset = false) :
    shapeOf (cellsAt values offset) = shapeOf (cellsAt values (offset - 1)) := by
  unfold shapeOf cellsAt
  rw [List.map_map, List.map_map]
  refine List.map_congr_left fun column hcolumn => ?_
  have hsame := List.any_eq_false.mp h column hcolumn
  rw [decide_eq_true_eq, not_not] at hsame
  change (column[offset]?).join.isSome = (column[offset - 1]?).join.isSome
  rw [← Option.not_isNone, ← Option.not_isNone, hsame]

/-- After the first `offset` sessions: the last template is that of the last session, those kept are
those of their shapes, and each row is the row of its session. -/
structure Materialized (securityId : Text) (axis : List Text) (first : ℕ)
    (values : List (List (Option (Cell N)))) (offset : ℕ) (state : Materializing N) : Prop where
  template : ∀ template, state.template = some template →
    template = rowTemplate (shapeOf (cellsAt values (offset - 1)))
  templates : ∀ shape template, state.templates.get? shape = some template →
    template = rowTemplate shape
  rows : state.rows = (List.range offset).map fun i =>
    rowAt securityId (axis.getD (first + i) []) (cellsAt values i)

theorem Materializing.templateAt_spec {state : Materializing N} {securityId : Text}
    {axis : List Text} {first offset : ℕ} {values : List (List (Option (Cell N)))}
    (h : Materialized securityId axis first values offset state) :
    (state.templateAt values offset).1 = rowTemplate (shapeOf (cellsAt values offset))
      ∧ ∀ shape template, (state.templateAt values offset).2.get? shape = some template →
        template = rowTemplate shape := by
  have hset : ∀ shape template, (state.templates.set (shapeOf (cellsAt values offset))
      (rowTemplate (shapeOf (cellsAt values offset)))).get? shape = some template →
        template = rowTemplate shape := by
    intro shape template hget
    rw [OrderedMap.get?_set] at hget
    split at hget
    · next heq => rw [heq, Option.some.inj hget]
    · exact h.templates shape template hget
  unfold Materializing.templateAt
  dsimp only
  cases hknown : state.templates.get? (shapeOf (cellsAt values offset)) with
  | none =>
    cases htemplate : state.template with
    | none => exact ⟨rfl, hset⟩
    | some template =>
      cases hchanged : shapeChanged values offset with
      | true => exact ⟨rfl, hset⟩
      | false =>
        refine ⟨?_, h.templates⟩
        rw [shapeOf_of_not_shapeChanged hchanged]
        exact h.template template htemplate
  | some known =>
    have hlookup := h.templates _ _ hknown
    cases htemplate : state.template with
    | none => exact ⟨hlookup, h.templates⟩
    | some template =>
      cases hchanged : shapeChanged values offset with
      | true => exact ⟨hlookup, h.templates⟩
      | false =>
        refine ⟨?_, h.templates⟩
        rw [shapeOf_of_not_shapeChanged hchanged]
        exact h.template template htemplate

theorem materialized (securityId : Text) (axis : List Text) (first : ℕ)
    (values : List (List (Option (Cell N)))) (count : ℕ) :
    Materialized securityId axis first values count
      ((List.range count).foldl (materializeRow securityId axis first values)
        ⟨none, .empty, []⟩) := by
  induction count with
  | zero => exact ⟨fun _ h => (nomatch h), fun _ _ h => (nomatch h), rfl⟩
  | succ count ih =>
    obtain ⟨htemplate, htemplates⟩ := Materializing.templateAt_spec ih
    rw [List.range_succ, List.foldl_append, List.foldl_cons, List.foldl_nil]
    refine ⟨fun template h => ?_, htemplates, ?_⟩
    · exact (Option.some.inj h).symm.trans htemplate
    · rw [List.range_succ, List.map_append, ← ih.rows, List.map_singleton, rowAt, ← htemplate]
      rfl

/-- **Each row is the row of its session**, whatever template the loop took it from. -/
theorem materializeRows_eq (securityId : Text) (axis : List Text) (first last : ℕ)
    (values : List (List (Option (Cell N)))) :
    materializeRows securityId axis first last values = (List.range (last - first)).map fun i =>
      rowAt securityId (axis.getD (first + i) []) (cellsAt values i) :=
  (materialized securityId axis first values (last - first)).rows

theorem materializeRows_whole (securityId : Text) (axis : List Text)
    (values : List (List (Option (Cell N)))) :
    materializeRows securityId axis 0 axis.length values
      = (List.range axis.length).map fun i =>
        rowAt securityId (axis.getD i []) (cellsAt values i) := by
  rw [materializeRows_eq, Nat.sub_zero]
  refine List.map_congr_left fun i _ => ?_
  rw [Nat.zero_add]

theorem cellsAt_windowed (values : List (List (Option (Cell N)))) {first last offset : ℕ}
    (h : offset < last - first) :
    cellsAt (values.map (windowed first last)) offset = cellsAt values (first + offset) := by
  unfold cellsAt
  rw [List.map_map]
  refine List.map_congr_left fun column _ => ?_
  change ((windowed first last column)[offset]?).join = _
  rw [getElem?_windowed h]
  rfl

/-- The rows of a window are those of the whole chunk. -/
theorem materializeRows_window (securityId : Text) (axis : List Text)
    (values : List (List (Option (Cell N)))) (first last : ℕ) :
    materializeRows securityId axis first last (values.map (windowed first last))
      = (List.range' first (last - first)).map fun i =>
        rowAt securityId (axis.getD i []) (cellsAt values i) := by
  rw [materializeRows_eq, List.range'_eq_map_range, List.map_map]
  refine List.map_congr_left fun i hi => ?_
  rw [cellsAt_windowed values (List.mem_range.mp hi)]
  rfl

/-! ### The window of a range -/

variable {dates : List Text}

/-- The search finds where a downward closed property of the dates ends. -/
theorem searchDates_spec {isBefore : Text → Bool}
    (hdown : ∀ i j, i ≤ j → j < dates.length → isBefore (dates.getD j []) = true →
      isBefore (dates.getD i []) = true) (fuel : ℕ) :
    ∀ low high, high ≤ dates.length → high - low ≤ fuel →
      (∀ i, i < low → i < dates.length → isBefore (dates.getD i []) = true) →
      (∀ i, high ≤ i → i < dates.length → isBefore (dates.getD i []) = false) →
      ∀ i, i < dates.length →
        (isBefore (dates.getD i []) = true ↔ i < searchDates isBefore dates fuel low high) := by
  have hdone : ∀ low high, high ≤ low →
      (∀ i, i < low → i < dates.length → isBefore (dates.getD i []) = true) →
      (∀ i, high ≤ i → i < dates.length → isBefore (dates.getD i []) = false) →
      ∀ i, i < dates.length → (isBefore (dates.getD i []) = true ↔ i < low) := by
    intro low high hle hlow hhigh i hi
    constructor
    · intro hbefore
      by_contra hge
      have := hhigh i (by omega) hi
      rw [hbefore] at this
      cases this
    · exact fun hlt => hlow i hlt hi
  induction fuel with
  | zero =>
    intro low high _ hfuel hlow hhigh
    rw [searchDates]
    exact hdone low high (by omega) hlow hhigh
  | succ fuel ih =>
    intro low high hlen hfuel hlow hhigh
    rw [searchDates]
    split
    · next hlt =>
      dsimp only
      split
      · next hmiddle =>
        refine ih _ _ hlen (by omega) (fun i hi hi' => ?_) hhigh
        exact hdown i _ (Nat.lt_succ_iff.mp hi) (by omega) hmiddle
      · next hmiddle =>
        refine ih _ _ (by omega) (by omega) hlow fun i hi hi' => ?_
        -- a date at or after the middle is not before either
        rw [← Bool.not_eq_true]
        exact fun hbefore => hmiddle (hdown _ i hi hi' hbefore)
    · exact hdone low high (by omega) hlow hhigh

theorem searchDates_le (isBefore : Text → Bool) (dates : List Text) (fuel : ℕ) :
    ∀ low high, low ≤ high → searchDates isBefore dates fuel low high ≤ high := by
  induction fuel with
  | zero => exact fun _ _ hle => hle
  | succ fuel ih =>
    intro low high hle
    rw [searchDates]
    split
    · dsimp only
      split
      · exact ih _ _ (by omega)
      · exact (ih low _ (by omega)).trans (by omega)
    · exact hle

theorem getD_le_getD (hascending : dates.Pairwise (· < ·)) {i j : ℕ}
    (hle : i ≤ j) (hj : j < dates.length) : dates.getD i [] ≤ dates.getD j [] := by
  rw [List.getD_eq_getElem _ _ hj, List.getD_eq_getElem _ _ (hle.trans_lt hj)]
  rcases hle.eq_or_lt with rfl | hlt
  · exact le_refl _
  · exact (List.pairwise_iff_getElem.mp hascending i j _ hj hlt).le

/-- Before the end the search finds, the property holds. -/
theorem lt_searchDates_iff (hascending : dates.Pairwise (· < ·)) {before : Text → Prop}
    [DecidablePred before] (hdown : ∀ a b, a ≤ b → before b → before a) {i : ℕ}
    (hi : i < dates.length) :
    i < searchDates (fun d => before d) dates dates.length 0 dates.length
      ↔ before (dates.getD i []) := by
  refine (searchDates_spec (fun i j hij hj hbefore => ?_) dates.length 0 dates.length (le_refl _)
    (Nat.sub_le _ _) (fun _ h => absurd h (Nat.not_lt_zero _))
    (fun _ h h' => absurd h (not_le.mpr h')) i hi).symm.trans decide_eq_true_iff
  rw [decide_eq_true_eq] at hbefore ⊢
  exact hdown _ _ (getD_le_getD hascending hij hj) hbefore

theorem lt_lowerBound_iff (hascending : dates.Pairwise (· < ·)) (date : Text)
    {i : ℕ} (hi : i < dates.length) : i < lowerBound dates date ↔ dates.getD i [] < date :=
  lt_searchDates_iff hascending (fun _ _ => lt_of_le_of_lt) hi

theorem lt_upperBound_iff (hascending : dates.Pairwise (· < ·)) (date : Text)
    {i : ℕ} (hi : i < dates.length) : i < upperBound dates date ↔ dates.getD i [] ≤ date :=
  lt_searchDates_iff hascending (fun _ _ => le_trans) hi

/-- A date lies inside a range. -/
def DateRange.contains (range : DateRange) (date : Text) : Bool :=
  range.fromDate ≤ date ∧ date ≤ range.toDate

/-- **The window a range asks for** holds the dates inside it. -/
theorem windowOf_spec {axis : List Text} (hascending : axis.Pairwise (· < ·)) (range : DateRange) :
    (List.range axis.length).filter (fun i => range.contains (axis.getD i []))
      = List.range' (windowOf axis (some range)).1
          ((windowOf axis (some range)).2 - (windowOf axis (some range)).1) := by
  refine @List.Perm.eq_of_pairwise ℕ (· < ·) _ _ ?_ ?_ ?_ ?_
  · exact fun a b _ _ hab hba => absurd hab hba.not_gt
  · exact List.pairwise_lt_range.filter _
  · exact List.pairwise_lt_range'
  · refine (List.perm_ext_iff_of_nodup (List.nodup_range.filter _) List.nodup_range').mpr
      fun i => ?_
    have hlast : upperBound axis range.toDate ≤ axis.length := searchDates_le _ _ _ _ _ (Nat.zero_le _)
    rw [List.mem_filter, List.mem_range, List.mem_range'_1, DateRange.contains, decide_eq_true_eq]
    change _ ↔ lowerBound axis range.fromDate ≤ i ∧ i < lowerBound axis range.fromDate
      + (max (lowerBound axis range.fromDate) (upperBound axis range.toDate)
        - lowerBound axis range.fromDate)
    constructor
    · rintro ⟨hi, hfrom, hto⟩
      have hlower := mt (lt_lowerBound_iff hascending range.fromDate hi).mp (not_lt.mpr hfrom)
      have hupper := (lt_upperBound_iff hascending range.toDate hi).mpr hto
      omega
    · rintro ⟨hlower, hupper⟩
      have hi : i < axis.length := by omega
      refine ⟨hi, ?_, ?_⟩
      · exact not_lt.mp (mt (lt_lowerBound_iff hascending range.fromDate hi).mpr (by omega))
      · exact (lt_upperBound_iff hascending range.toDate hi).mp (by omega)

/-! ### Decoding -/

/-- The rows of a chunk that lie inside a range. -/
def rowsInside (range : DateRange) (rows : List (DailyDerivedState N)) :
    List (DailyDerivedState N) :=
  rows.filter fun row => range.contains row.date

section Decoding

variable [JsonNumber N]

theorem readDates_ascending {year : N} {previous : Text} {dates : List (Value N)}
    {axis : List Text} (h : readDates year previous dates = .ok axis) :
    (previous :: axis).Pairwise (· < ·) := by
  induction dates generalizing previous axis with
  | nil =>
    obtain rfl := Except.ok.inj h
    exact List.pairwise_singleton _ _
  | cons value rest ih =>
    cases value with
    | str date =>
      rw [readDates] at h
      split at h
      · cases h
      split at h
      · cases h
      split at h
      · cases h
      · next hafter =>
        cases hrest : readDates year date rest with
        | error failure =>
          rw [hrest] at h
          cases h
        | ok axis' =>
          rw [hrest] at h
          obtain rfl := Except.ok.inj h
          have hascending := ih hrest
          refine List.pairwise_cons.mpr ⟨fun d hd => ?_, hascending⟩
          rcases List.mem_cons.mp hd with rfl | hd
          · exact not_le.mp hafter
          · exact (not_le.mp hafter).trans ((List.pairwise_cons.mp hascending).1 d hd)
    | _ => cases h

theorem dateAxis_ascending {year : N} {dates : Option (Value N)} {axis : List Text}
    (h : dateAxis year dates = .ok axis) : axis.Pairwise (· < ·) := by
  rcases dates with _ | value
  · cases h
  cases value with
  | arr dates => exact (List.pairwise_cons.mp (readDates_ascending h)).2
  | _ => cases h

/-- **What is left of a sound chunk**, over a range and as a whole. -/
theorem decodeColumns_range (securityId : Text) {axis : List Text}
    (hascending : axis.Pairwise (· < ·)) (range : DateRange) (held : Option (Value N)) :
    decodeColumns securityId axis (some range) held
      = (decodeColumns securityId axis none held).map (rowsInside range) := by
  rcases held with _ | value
  · rfl
  cases value with
  | arr cells =>
    unfold decodeColumns
    dsimp only
    split
    · rfl
    · change (expandColumns cells axis.length _ _).bind _
        = Except.map _ ((expandColumns cells axis.length 0 axis.length).bind _)
      rw [expandColumns_window]
      cases hcolumns : expandColumns cells axis.length 0 axis.length with
      | error failure => rfl
      | ok values =>
        change Except.ok _ = Except.ok _
        congr 1
        change _ = rowsInside range (materializeRows securityId axis 0 axis.length values)
        rw [materializeRows_whole, rowsInside, materializeRows_window, List.filter_map,
          ← windowOf_spec hascending range]
        rfl
  | _ => rfl

variable [DecidableEq N]

/-- **Reading a range** succeeds exactly when reading the whole chunk does, fails for the same
reason, and gives the whole chunk's rows inside the range. -/
theorem decode_range (payload securityId : Text) (year : N) (range : DateRange) :
    decodeDailyStateChunk payload securityId year (some range)
      = (decodeDailyStateChunk payload securityId year none).map (rowsInside range) := by
  unfold decodeDailyStateChunk
  cases (parse payload : Option (Value N)) with
  | none => rfl
  | some value =>
    cases value with
    | obj chunk =>
      dsimp only
      cases headerFailure chunk securityId year with
      | some failure => rfl
      | none =>
        dsimp only
        cases haxis : dateAxis year (property? chunk (lit "dates")) with
        | error failure => rfl
        | ok axis => exact decodeColumns_range securityId (dateAxis_ascending haxis) range _
    | _ => rfl

end Decoding

end FactorSage.DailyState
