import FactorSage.Valuation.ObservedOrder

/-!
# Chains of accepted anchors

What the walk of `restatementVerdict` decides. A revision with a usable count is accepted when it
links to its anchor (`Links`), and the anchors it passed form a chain in which each is the next
revision to link to the one before (`Chain`). A revision that does not link anchors nothing, so a
count it was rejected with stays rejected through its repetitions until a re-base detected since
explains it (`ExplainedSince`).
-/

namespace FactorSage.Valuation

open ComparatorSort Rebase Statements

variable {V H : Type}

/-! ### Links -/

/-- Within 2 % of a reference count. -/
def WithinTolerance (shares reference : ℚ) : Prop :=
  |shares - reference| ≤ SHARE_RESTATEMENT_TOLERANCE * reference

/-- A separating event is a measured re-base of this ratio, dated less than a month before the
anchor was observed. -/
inductive RecentRebase (anchor : FinancialStatement V H) : ShareChange → ℚ → Prop
  | mk {lastDay : ℤ} {detectedAt : Instant} {event : PriceBasisEvent} {ratio : ℚ} :
    isRecent event (instantDate anchor.observedAt) → event.priceRatio = some ratio →
    RecentRebase anchor (.MEASURED lastDay detectedAt event) ratio

section Events

variable (measured : List PriceBasisEvent) (shareChanges : List ShareChange)

/-- A count agrees with its anchor's across no separating event or is explained by one re-base, or
is explained, and not merely agreed with, by the product of exactly the re-bases that separate
them. -/
inductive Links (revision : FinancialStatement V H) (shares : ℚ) (anchor : Anchor V H) : Prop
  | agrees : separating shareChanges revision anchor.statement = [] →
    WithinTolerance shares anchor.shares → Links revision shares anchor
  | explained (event : PriceBasisEvent) :
    separating shareChanges revision anchor.statement = [] → event ∈ measured →
    explains event revision shares anchor → Links revision shares anchor
  | restated (ratios : List ℚ) :
    separating shareChanges revision anchor.statement ≠ [] →
    List.Forall₂ (RecentRebase anchor.statement)
      (separating shareChanges revision anchor.statement) ratios →
    ¬ WithinTolerance shares anchor.shares →
    WithinTolerance shares (ratios.prod * anchor.shares) → Links revision shares anchor

/-- A re-base detected after an instant explains the count against its anchor, alone or as one of
the re-bases that separate the two. -/
def ExplainedSince (since : Instant) (revision : FinancialStatement V H) (shares : ℚ)
    (anchor : Anchor V H) : Prop :=
  (∃ event ∈ measured, since < event.detectedAt
      ∧ separating shareChanges revision anchor.statement = []
      ∧ explains event revision shares anchor)
    ∨ ∃ lastDay detectedAt event,
      .MEASURED lastDay detectedAt event ∈ separating shareChanges revision anchor.statement
      ∧ since < detectedAt
      ∧ explainedAcross (separating shareChanges revision anchor.statement) shares anchor

end Events

theorem withinTolerance_iff {shares reference : ℚ} :
    exactlyWithinFraction shares [reference] SHARE_RESTATEMENT_TOLERANCE
      ↔ WithinTolerance shares reference := by
  simp [exactlyWithinFraction, WithinTolerance]

theorem withinTolerance_prod_iff {shares reference : ℚ} {ratios : List ℚ} :
    exactlyWithinFraction shares (ratios ++ [reference]) SHARE_RESTATEMENT_TOLERANCE
      ↔ WithinTolerance shares (ratios.prod * reference) := by
  simp [exactlyWithinFraction, WithinTolerance]

theorem separatingRatio_eq_some {anchor : FinancialStatement V H} {change : ShareChange}
    {ratio : ℚ} : separatingRatio anchor change = some ratio ↔ RecentRebase anchor change ratio := by
  constructor
  · intro h
    cases change with
    | ENTRY date => exact nomatch h
    | MEASURED lastDay detectedAt event =>
      unfold separatingRatio at h
      by_cases hrecent : isRecent event (instantDate anchor.observedAt) = true
      · exact .mk hrecent (by simpa [hrecent] using h)
      · simp [hrecent] at h
  · rintro ⟨hrecent, hratio⟩
    simp [separatingRatio, hrecent, hratio]

theorem mapM_separatingRatio {anchor : FinancialStatement V H} {changes : List ShareChange}
    {ratios : List ℚ} :
    changes.mapM (separatingRatio anchor) = some ratios
      ↔ List.Forall₂ (RecentRebase anchor) changes ratios := by
  induction changes generalizing ratios with
  | nil => simp [eq_comm]
  | cons change changes ih =>
    simp only [List.mapM_cons, Option.pure_def, Option.bind_eq_bind, Option.bind_eq_some_iff,
      Option.some.injEq, List.forall₂_cons_left_iff, separatingRatio_eq_some]
    constructor
    · rintro ⟨ratio, hratio, rest, hrest, rfl⟩
      exact ⟨ratio, rest, hratio, ih.mp hrest, rfl⟩
    · rintro ⟨ratio, rest, hratio, hrest, rfl⟩
      exact ⟨ratio, hratio, rest, ih.mpr hrest, rfl⟩

variable {anchor : Anchor V H}

theorem explainedAcross_iff {changes : List ShareChange} {shares : ℚ} :
    explainedAcross changes shares anchor
      ↔ ¬ WithinTolerance shares anchor.shares
        ∧ ∃ ratios, List.Forall₂ (RecentRebase anchor.statement) changes ratios
          ∧ WithinTolerance shares (ratios.prod * anchor.shares) := by
  unfold explainedAcross
  rw [← withinTolerance_iff]
  simp only [← mapM_separatingRatio, ← withinTolerance_prod_iff]
  by_cases hclose : exactlyWithinFraction shares [anchor.shares] SHARE_RESTATEMENT_TOLERANCE = true
  · simp [hclose]
  · rw [if_neg hclose]
    cases changes.mapM (separatingRatio anchor.statement) with
    | none => simp
    | some ratios => simp [hclose]

variable {measured : List PriceBasisEvent} {shareChanges : List ShareChange}
  {weightedAverageShsOutDil : V → Option ℚ}

variable {revision : FinancialStatement V H}

/-- Against an anchor, a count is accepted exactly when it links to it. -/
theorem acceptedAgainst_some_iff {shares : ℚ} :
    acceptedAgainst measured shareChanges revision shares (some anchor) ≠ none
      ↔ Links measured shareChanges revision shares anchor := by
  simp only [acceptedAgainst]
  by_cases hseparating : separating shareChanges revision anchor.statement = []
  · rw [if_neg (by simp [hseparating])]
    by_cases hclose :
        exactlyWithinFraction shares [anchor.shares] SHARE_RESTATEMENT_TOLERANCE = true
    · simpa [hclose] using Links.agrees hseparating (withinTolerance_iff.mp hclose)
    · rw [if_neg hclose]
      constructor
      · intro h
        have hany : measured.any (fun event => explains event revision shares anchor) := by
          by_contra hnone
          simp [hnone] at h
        obtain ⟨event, hevent, hexplains⟩ := List.any_eq_true.mp hany
        exact .explained event hseparating hevent hexplains
      · rintro (⟨-, h⟩ | ⟨event, -, hevent, hexplains⟩ | ⟨ratios, h, -⟩)
        · exact absurd (withinTolerance_iff.mpr h) hclose
        · have hany : measured.any (fun event => explains event revision shares anchor) :=
            List.any_eq_true.mpr ⟨event, hevent, hexplains⟩
          simp [hany]
        · exact absurd hseparating h
  · rw [if_pos hseparating]
    constructor
    · intro h
      have hacross : explainedAcross (separating shareChanges revision anchor.statement) shares
          anchor := by
        by_contra hnot
        simp [hnot] at h
      obtain ⟨hclose, ratios, hratios, hprod⟩ := explainedAcross_iff.mp hacross
      exact .restated ratios hseparating hratios hclose hprod
    · rintro (⟨h, -⟩ | ⟨event, h, -⟩ | ⟨ratios, -, hratios, hclose, hprod⟩)
      · exact absurd h hseparating
      · exact absurd h hseparating
      · have hacross : explainedAcross (separating shareChanges revision anchor.statement) shares
            anchor := explainedAcross_iff.mpr ⟨hclose, ratios, hratios, hprod⟩
        simp [hacross]

/-! ### Chains -/

section Chains

variable (measured shareChanges weightedAverageShsOutDil)

/-- No revision with a usable count links to the anchor. -/
def NoneLinks (anchor : Anchor V H) (revisions : List (FinancialStatement V H)) : Prop :=
  ∀ r ∈ revisions, ∀ shares, usableCount weightedAverageShsOutDil r = some shares →
    ¬ Links measured shareChanges r shares anchor

/-- The anchors from one to the last among the later revisions: each is the first revision to link
to the one before. When its count was first observed plays no part. -/
inductive Chain : Anchor V H → List (FinancialStatement V H) → Anchor V H → Prop
  | last {anchor : Anchor V H} {later : List (FinancialStatement V H)} :
    NoneLinks measured shareChanges weightedAverageShsOutDil anchor later →
    Chain anchor later anchor
  | next {anchor final : Anchor V H} {skipped later : List (FinancialStatement V H)}
    {revision : FinancialStatement V H} {shares : ℚ} (firstObservedAt : Instant) :
    NoneLinks measured shareChanges weightedAverageShsOutDil anchor skipped →
    usableCount weightedAverageShsOutDil revision = some shares →
    Links measured shareChanges revision shares anchor →
    Chain ⟨revision, shares, firstObservedAt⟩ later final →
    Chain anchor (skipped ++ revision :: later) final

/-- The anchor the walk leaves for a revision. -/
def anchorFor [LinearOrder H] (statements : List (FinancialStatement V H))
    (latest : FinancialStatement V H) (date : ℤ) : Option (Anchor V H) :=
  (earlierRevisions statements latest date).foldl
    (nextAnchor measured shareChanges weightedAverageShsOutDil) none

end Chains

/-- Two anchors name one revision and count. -/
structure Anchor.Same (a b : Anchor V H) : Prop where
  statement : a.statement = b.statement
  shares : a.shares = b.shares

theorem Links.congr {a b : Anchor V H} (hab : a.Same b)
    {shares : ℚ} (h : Links measured shareChanges revision shares a) :
    Links measured shareChanges revision shares b := by
  rcases h with ⟨hnone, hclose⟩ | ⟨event, hnone, hevent, hexplains⟩
    | ⟨ratios, hsome, hratios, hclose, hprod⟩
  · exact .agrees (hab.statement ▸ hnone) (hab.shares ▸ hclose)
  · refine .explained event (hab.statement ▸ hnone) hevent ?_
    simpa only [explains, hab.statement, hab.shares] using hexplains
  · exact .restated ratios (hab.statement ▸ hsome) (hab.statement ▸ hratios) (hab.shares ▸ hclose)
      (hab.shares ▸ hprod)

theorem Anchor.Same.symm {a b : Anchor V H} (h : a.Same b) : b.Same a :=
  ⟨h.statement.symm, h.shares.symm⟩

theorem nextAnchor_of_links {shares : ℚ}
    (hcount : usableCount weightedAverageShsOutDil revision = some shares)
    (h : Links measured shareChanges revision shares anchor) :
    ∃ firstObservedAt, nextAnchor measured shareChanges weightedAverageShsOutDil (some anchor)
      revision = some ⟨revision, shares, firstObservedAt⟩ := by
  obtain ⟨firstObservedAt, haccepted⟩ :=
    Option.ne_none_iff_exists'.mp (acceptedAgainst_some_iff.mpr h)
  exact ⟨firstObservedAt, by simp only [nextAnchor, hcount, haccepted]⟩

/-- A revision that does not link leaves the anchor where it is. -/
theorem nextAnchor_of_not_links
    (h : ∀ shares, usableCount weightedAverageShsOutDil revision = some shares →
      ¬ Links measured shareChanges revision shares anchor) :
    nextAnchor measured shareChanges weightedAverageShsOutDil (some anchor) revision
      = some anchor := by
  unfold nextAnchor
  cases hcount : usableCount weightedAverageShsOutDil revision with
  | none => rfl
  | some shares =>
    have hrejected : acceptedAgainst measured shareChanges revision shares (some anchor) = none := by
      by_contra hne
      exact h shares hcount (acceptedAgainst_some_iff.mp hne)
    simp only [hrejected]

variable {revisions : List (FinancialStatement V H)}

theorem foldl_nextAnchor_of_noneLinks
    (h : NoneLinks measured shareChanges weightedAverageShsOutDil anchor revisions) :
    revisions.foldl (nextAnchor measured shareChanges weightedAverageShsOutDil) (some anchor)
      = some anchor := by
  induction revisions with
  | nil => rfl
  | cons r revisions ih =>
    rw [List.foldl_cons, nextAnchor_of_not_links (h r List.mem_cons_self)]
    exact ih fun s hs => h s (List.mem_cons_of_mem _ hs)

/-- A revision passed over before the rest of the chain. -/
theorem Chain.skip {later : List (FinancialStatement V H)} {anchor last : Anchor V H}
    (hskip : ∀ shares, usableCount weightedAverageShsOutDil revision = some shares →
      ¬ Links measured shareChanges revision shares anchor)
    (h : Chain measured shareChanges weightedAverageShsOutDil anchor later last) :
    Chain measured shareChanges weightedAverageShsOutDil anchor (revision :: later) last := by
  cases h with
  | last hnone => exact .last (List.forall_mem_cons.mpr ⟨hskip, hnone⟩)
  | next firstObservedAt hnone hcount hlinks h =>
    rw [← List.cons_append]
    exact .next firstObservedAt (List.forall_mem_cons.mpr ⟨hskip, hnone⟩) hcount hlinks h

variable (measured shareChanges weightedAverageShsOutDil) in
/-- From an anchor the walk follows a chain to its end. -/
theorem exists_chain (revisions : List (FinancialStatement V H)) (anchor : Anchor V H) :
    ∃ last, revisions.foldl (nextAnchor measured shareChanges weightedAverageShsOutDil)
        (some anchor) = some last
      ∧ Chain measured shareChanges weightedAverageShsOutDil anchor revisions last := by
  induction revisions generalizing anchor with
  | nil => exact ⟨anchor, rfl, .last fun r hr => nomatch hr⟩
  | cons r revisions ih =>
    by_cases hlinks : ∃ shares, usableCount weightedAverageShsOutDil r = some shares
        ∧ Links measured shareChanges r shares anchor
    · obtain ⟨shares, hcount, hlinks⟩ := hlinks
      obtain ⟨firstObservedAt, hnext⟩ := nextAnchor_of_links hcount hlinks
      obtain ⟨last, hfold, hchain⟩ := ih ⟨r, shares, firstObservedAt⟩
      refine ⟨last, ?_, ?_⟩
      · rw [List.foldl_cons, hnext, hfold]
      · rw [← List.nil_append (r :: revisions)]
        exact .next firstObservedAt (fun s hs => nomatch hs) hcount hlinks hchain
    · have hskip : ∀ shares, usableCount weightedAverageShsOutDil r = some shares →
          ¬ Links measured shareChanges r shares anchor :=
        fun shares hcount h => hlinks ⟨shares, hcount, h⟩
      obtain ⟨last, hfold, hchain⟩ := ih anchor
      refine ⟨last, ?_, hchain.skip hskip⟩
      rw [List.foldl_cons, nextAnchor_of_not_links hskip, hfold]

/-- The end of a chain is where the walk ends. -/
theorem Chain.foldl_same {anchor last : Anchor V H}
    (h : Chain measured shareChanges weightedAverageShsOutDil anchor revisions last)
    {start : Anchor V H} (hstart : anchor.Same start) :
    ∃ final, revisions.foldl (nextAnchor measured shareChanges weightedAverageShsOutDil)
        (some start) = some final ∧ last.Same final := by
  induction h generalizing start with
  | last hnone =>
    refine ⟨start, foldl_nextAnchor_of_noneLinks ?_, hstart⟩
    exact fun r hr shares hcount hlinks => hnone r hr shares hcount (hlinks.congr hstart.symm)
  | next _ hnone hcount hlinks _ ih =>
    obtain ⟨firstObservedAt, hnext⟩ := nextAnchor_of_links hcount (hlinks.congr hstart)
    obtain ⟨final, hfold, hsame⟩ := @ih ⟨_, _, firstObservedAt⟩ ⟨rfl, rfl⟩
    refine ⟨final, ?_, hsame⟩
    rw [List.foldl_append, foldl_nextAnchor_of_noneLinks, List.foldl_cons, hnext, hfold]
    exact fun r hr shares hcount hlinks => hnone r hr shares hcount (hlinks.congr hstart.symm)

/-- Nothing anchors the walk until the first usable count. -/
theorem foldl_nextAnchor_of_none
    (h : ∀ r ∈ revisions, usableCount weightedAverageShsOutDil r = none)
    (anchor : Option (Anchor V H)) :
    revisions.foldl (nextAnchor measured shareChanges weightedAverageShsOutDil) anchor = anchor := by
  induction revisions with
  | nil => rfl
  | cons r revisions ih =>
    rw [List.foldl_cons]
    have hr : nextAnchor measured shareChanges weightedAverageShsOutDil anchor r = anchor := by
      simp only [nextAnchor, h r List.mem_cons_self]
    rw [hr]
    exact ih fun s hs => h s (List.mem_cons_of_mem _ hs)

variable (weightedAverageShsOutDil) in
/-- A list of revisions has no usable count, or a first one. -/
theorem exists_first_count (revisions : List (FinancialStatement V H)) :
    (∀ r ∈ revisions, usableCount weightedAverageShsOutDil r = none)
      ∨ ∃ uncounted first later shares, revisions = uncounted ++ first :: later
        ∧ (∀ r ∈ uncounted, usableCount weightedAverageShsOutDil r = none)
        ∧ usableCount weightedAverageShsOutDil first = some shares := by
  induction revisions with
  | nil => exact .inl fun r hr => nomatch hr
  | cons r revisions ih =>
    cases hcount : usableCount weightedAverageShsOutDil r with
    | some shares => exact .inr ⟨[], r, revisions, shares, rfl, (fun s hs => nomatch hs), hcount⟩
    | none =>
      rcases ih with hnone | ⟨uncounted, first, later, shares, rfl, hnone, hfirst⟩
      · exact .inl (List.forall_mem_cons.mpr ⟨hcount, hnone⟩)
      · exact .inr ⟨r :: uncounted, first, later, shares, rfl,
          List.forall_mem_cons.mpr ⟨hcount, hnone⟩, hfirst⟩

end FactorSage.Valuation
