import FactorSage.Valuation.Anchors

/-!
# A rejected share count stays rejected

The three facts about `restatementVerdict`: the listing order does not matter, a count is accepted
exactly when a chain of accepted anchors reaches it (`Reached`), and a rejected one that is only
repeated is not accepted before a re-base detected since explains it (`accepted_explainedSince`).

The last one turns on two observations. What separates a revision from an anchor still separates
every later revision of the period end from it; and a revision that is not accepted leaves the
anchor alone, so all repetitions are judged against the anchor the first rejection was.
-/

namespace FactorSage.Valuation

open ComparatorSort Rebase Statements

variable {V H : Type}

section Reached

variable (measured : List PriceBasisEvent) (shareChanges : List ShareChange)
  (weightedAverageShsOutDil : V → Option ℚ)

/-- A count reached from the revisions observed before it: there is no usable count among them, or
the chain from the first one ends with an anchor it links to. -/
inductive Reached (earlier : List (FinancialStatement V H)) (latest : FinancialStatement V H)
    (shares : ℚ) : Prop
  | first : (∀ r ∈ earlier, usableCount weightedAverageShsOutDil r = none) →
    Reached earlier latest shares
  | linked {uncounted later : List (FinancialStatement V H)} {first : FinancialStatement V H}
    {count : ℚ} {last : Anchor V H} : earlier = uncounted ++ first :: later →
    (∀ r ∈ uncounted, usableCount weightedAverageShsOutDil r = none) →
    usableCount weightedAverageShsOutDil first = some count →
    Chain measured shareChanges weightedAverageShsOutDil ⟨first, count, first.observedAt⟩ later
      last →
    Links measured shareChanges latest shares last → Reached earlier latest shares

end Reached

variable {measured : List PriceBasisEvent} {shareChanges : List ShareChange}
  {weightedAverageShsOutDil : V → Option ℚ}

theorem usableCount_eq_some {statement : FinancialStatement V H} {shares : ℚ}
    (h : usableCount weightedAverageShsOutDil statement = some shares) :
    (weightedAverageShsOutDil statement.values).getD 0 = shares := by
  simp [(Option.filter_eq_some_iff.mp h).1]

/-- The first usable count has no anchor and passes. -/
theorem foldl_nextAnchor_first {uncounted later : List (FinancialStatement V H)}
    {first : FinancialStatement V H} {count : ℚ}
    (hnone : ∀ r ∈ uncounted, usableCount weightedAverageShsOutDil r = none)
    (hfirst : usableCount weightedAverageShsOutDil first = some count) :
    (uncounted ++ first :: later).foldl
        (nextAnchor measured shareChanges weightedAverageShsOutDil) none
      = later.foldl (nextAnchor measured shareChanges weightedAverageShsOutDil)
          (some ⟨first, count, first.observedAt⟩) := by
  have hstep : nextAnchor measured shareChanges weightedAverageShsOutDil none first
      = some ⟨first, count, first.observedAt⟩ := by
    simp only [nextAnchor, hfirst, acceptedAgainst]
  rw [List.foldl_append, foldl_nextAnchor_of_none hnone, List.foldl_cons, hstep]

theorem Reached.accepted {earlier : List (FinancialStatement V H)}
    {latest : FinancialStatement V H} {shares : ℚ}
    (h : Reached measured shareChanges weightedAverageShsOutDil earlier latest shares) :
    acceptedAgainst measured shareChanges latest shares
      (earlier.foldl (nextAnchor measured shareChanges weightedAverageShsOutDil) none) ≠ none := by
  cases h with
  | first hnone =>
    rw [foldl_nextAnchor_of_none hnone]
    exact Option.some_ne_none _
  | linked hcut hnone hfirst hchain hlinks =>
    obtain ⟨final, hfold, hsame⟩ := hchain.foldl_same ⟨rfl, rfl⟩
    rw [hcut, foldl_nextAnchor_first hnone hfirst, hfold, acceptedAgainst_some_iff]
    exact hlinks.congr hsame

theorem reached_of_accepted {earlier : List (FinancialStatement V H)}
    {latest : FinancialStatement V H} {shares : ℚ}
    (h : acceptedAgainst measured shareChanges latest shares
      (earlier.foldl (nextAnchor measured shareChanges weightedAverageShsOutDil) none) ≠ none) :
    Reached measured shareChanges weightedAverageShsOutDil earlier latest shares := by
  rcases exists_first_count weightedAverageShsOutDil earlier with
    hnone | ⟨uncounted, first, later, count, rfl, hnone, hfirst⟩
  · exact .first hnone
  · obtain ⟨last, hfold, hchain⟩ := exists_chain measured shareChanges weightedAverageShsOutDil
      later ⟨first, count, first.observedAt⟩
    rw [foldl_nextAnchor_first hnone hfirst, hfold, acceptedAgainst_some_iff] at h
    exact .linked rfl hnone hfirst hchain h

section Walk

variable [LinearOrder H]

/-- The verdict is the last step of the walk. -/
theorem accepted_iff {statements : List (FinancialStatement V H)}
    {latest : FinancialStatement V H} {date : ℤ} {shares : ℚ}
    (hcount : usableCount weightedAverageShsOutDil latest = some shares) :
    (restatementVerdict measured shareChanges weightedAverageShsOutDil statements latest
        date).accepted
      ↔ acceptedAgainst measured shareChanges latest shares
          (anchorFor measured shareChanges weightedAverageShsOutDil statements latest date)
        ≠ none := by
  unfold restatementVerdict
  rw [usableCount_eq_some hcount]
  dsimp only
  rw [← anchorFor]
  cases acceptedAgainst measured shareChanges latest shares
    (anchorFor measured shareChanges weightedAverageShsOutDil statements latest date) with
  | none => simp
  | some firstObservedAt => simp

/-- **Listing order**: a permuted history gives the same verdict. -/
theorem restatementVerdict_perm {statements statements' : List (FinancialStatement V H)}
    (hhash : HashedContents statements) (hperm : statements.Perm statements')
    (latest : FinancialStatement V H) (date : ℤ) :
    restatementVerdict measured shareChanges weightedAverageShsOutDil statements latest date
      = restatementVerdict measured shareChanges weightedAverageShsOutDil statements' latest
        date := by
  have hanchor : Option.Rel Anchor.Alike
      (anchorFor measured shareChanges weightedAverageShsOutDil statements latest date)
      (anchorFor measured shareChanges weightedAverageShsOutDil statements' latest date) :=
    foldl_nextAnchor_alike (earlierRevisions_alike hhash hperm latest date) .none
  unfold anchorFor at hanchor
  simp only [restatementVerdict, (Alike.refl latest).acceptedAgainst_eq hanchor]

/-- **Chains**: a count is accepted exactly when a chain of accepted anchors reaches it. -/
theorem accepted_iff_reached {statements : List (FinancialStatement V H)}
    {latest : FinancialStatement V H} {date : ℤ} {shares : ℚ}
    (hcount : usableCount weightedAverageShsOutDil latest = some shares) :
    (restatementVerdict measured shareChanges weightedAverageShsOutDil statements latest
        date).accepted
      ↔ Reached measured shareChanges weightedAverageShsOutDil
          (earlierRevisions statements latest date) latest shares := by
  rw [accepted_iff hcount]
  exact ⟨reached_of_accepted, Reached.accepted⟩

end Walk

/-! ### Repetitions -/

theorem instantDate_mono {a b : Instant} (h : a ≤ b) : instantDate a ≤ instantDate b :=
  Int.ediv_le_ediv (by decide) h

/-- What separates a revision from an anchor separates every later one of its period end. -/
theorem separates_mono {change : ShareChange} {revision later anchor : FinancialStatement V H}
    (hfiscal : later.fiscalDate = revision.fiscalDate)
    (hobserved : revision.observedAt ≤ later.observedAt)
    (h : separates change revision anchor) : separates change later anchor := by
  cases change with
  | MEASURED lastDay detectedAt event =>
    simp only [separates, Bool.and_eq_true, decide_eq_true_eq] at h ⊢
    exact ⟨⟨hfiscal ▸ h.1.1, h.1.2⟩, h.2.trans hobserved⟩
  | ENTRY date =>
    simp only [separates, Bool.and_eq_true, decide_eq_true_eq] at h ⊢
    exact ⟨⟨hfiscal ▸ h.1.1, h.1.2⟩, h.2.trans (instantDate_mono hobserved)⟩

theorem exists_measured_of_recent {anchor : FinancialStatement V H} {changes : List ShareChange}
    {ratios : List ℚ} (h : List.Forall₂ (RecentRebase anchor) changes ratios)
    {change : ShareChange} (hmem : change ∈ changes) :
    ∃ lastDay detectedAt event, change = .MEASURED lastDay detectedAt event := by
  induction h with
  | nil => exact nomatch hmem
  | cons hratio _ ih =>
    rcases List.mem_cons.mp hmem with rfl | hmem
    · obtain ⟨-, -⟩ := hratio
      exact ⟨_, _, _, rfl⟩
    · exact ih hmem

/-- Where no separating re-base was detected since the first revision, the same events separate
both. -/
theorem separating_eq_of_measured {revision later anchor : FinancialStatement V H}
    (hfiscal : later.fiscalDate = revision.fiscalDate)
    (hobserved : revision.observedAt ≤ later.observedAt)
    (hmeasured : ∀ change ∈ separating shareChanges later anchor, ∃ lastDay detectedAt event,
      change = .MEASURED lastDay detectedAt event ∧ detectedAt ≤ revision.observedAt) :
    separating shareChanges revision anchor = separating shareChanges later anchor := by
  unfold separating
  refine List.filter_congr fun change hchange => ?_
  rw [Bool.eq_iff_iff]
  refine ⟨separates_mono hfiscal hobserved, fun h => ?_⟩
  obtain ⟨lastDay, detectedAt, event, rfl, hdetected⟩ :=
    hmeasured change (List.mem_filter.mpr ⟨hchange, h⟩)
  simp only [separates, Bool.and_eq_true, decide_eq_true_eq] at h ⊢
  exact ⟨⟨hfiscal ▸ h.1.1, h.1.2⟩, hdetected⟩

/-- **One repetition**: the same count, rejected once and accepted later against one anchor, is
explained by a re-base detected in between. -/
theorem explainedSince_of_links {revision later : FinancialStatement V H} {shares : ℚ}
    {anchor : Anchor V H} (hfiscal : later.fiscalDate = revision.fiscalDate)
    (hobserved : revision.observedAt ≤ later.observedAt)
    (hrejected : ¬ Links measured shareChanges revision shares anchor)
    (haccepted : Links measured shareChanges later shares anchor) :
    ExplainedSince measured shareChanges revision.observedAt later shares anchor := by
  have hmono : separating shareChanges later anchor.statement = [] →
      separating shareChanges revision anchor.statement = [] := by
    intro hnone
    by_contra hsome
    obtain ⟨change, hchange⟩ := List.exists_mem_of_ne_nil _ hsome
    obtain ⟨hmem, hseparates⟩ := List.mem_filter.mp hchange
    have : change ∈ separating shareChanges later anchor.statement :=
      List.mem_filter.mpr ⟨hmem, separates_mono hfiscal hobserved hseparates⟩
    exact absurd hnone (List.ne_nil_of_mem this)
  rcases haccepted with ⟨hnone, hclose⟩ | ⟨event, hnone, hevent, hexplains⟩
    | ⟨ratios, hsome, hratios, hclose, hprod⟩
  · exact absurd (.agrees (hmono hnone) hclose) hrejected
  · refine .inl ⟨event, hevent, ?_, hnone, hexplains⟩
    by_contra hbefore
    -- known already when the count was rejected, the event would have explained it then
    refine hrejected (.explained event (hmono hnone) hevent ?_)
    simp only [explains, decide_eq_true_eq] at hexplains ⊢
    obtain ⟨date, hdate, ratio, hratio, -, hnew, hrecent, hwithin⟩ := hexplains
    exact ⟨date, hdate, ratio, hratio, not_lt.mp hbefore, hnew, hrecent, hwithin⟩
  · by_contra hnever
    have hmeasured : ∀ change ∈ separating shareChanges later anchor.statement,
        ∃ lastDay detectedAt event,
          change = .MEASURED lastDay detectedAt event ∧ detectedAt ≤ revision.observedAt := by
      intro change hchange
      obtain ⟨lastDay, detectedAt, event, rfl⟩ := exists_measured_of_recent hratios hchange
      refine ⟨lastDay, detectedAt, event, rfl, not_lt.mp fun hsince => hnever ?_⟩
      exact .inr ⟨lastDay, detectedAt, event, hchange, hsince,
        explainedAcross_iff.mpr ⟨hclose, ratios, hratios, hprod⟩⟩
    have hsame := separating_eq_of_measured hfiscal hobserved hmeasured
    exact hrejected (.restated ratios (hsame ▸ hsome) (hsame ▸ hratios) hclose hprod)

theorem sameQuarter_congr {s a b : FinancialStatement V H} (h : sameQuarter a b) :
    sameQuarter s a = sameQuarter s b := by
  simp only [sameQuarter, Bool.and_eq_true, decide_eq_true_eq] at h
  simp only [sameQuarter, h]

section Repetition

variable [LinearOrder H]

variable (weightedAverageShsOutDil) in
/-- Between a rejected revision, judged on one date, and a later one, judged on another, the quarter
says nothing new: what was observed before the first is visible on both dates or on neither, and
every visible revision from the first up to the last repeats its period end and count or has no
count. -/
structure OnlyRepeated (statements : List (FinancialStatement V H))
    (rejected later : FinancialStatement V H) (date date' : ℤ) (shares : ℚ) : Prop where
  quarter : sameQuarter rejected later
  after : observedBefore rejected later
  fiscalDate : later.fiscalDate = rejected.fiscalDate
  count : usableCount weightedAverageShsOutDil rejected = some shares
  again : usableCount weightedAverageShsOutDil later = some shares
  before : ∀ s ∈ statements, sameQuarter s rejected → observedBefore s rejected →
    (s.availableFromDate ≤ date' ↔ s.availableFromDate ≤ date)
  between : ∀ s ∈ statements, sameQuarter s rejected → s.availableFromDate ≤ date' →
    ¬ observedBefore s rejected → observedBefore s later →
      usableCount weightedAverageShsOutDil s = none
        ∨ usableCount weightedAverageShsOutDil s = some shares
          ∧ s.fiscalDate = rejected.fiscalDate

/-- The walk for the later revision first makes the walk for the rejected one. -/
theorem earlierRevisions_cut {statements : List (FinancialStatement V H)}
    (hhash : HashedContents statements) {rejected later : FinancialStatement V H}
    {date date' : ℤ} {shares : ℚ}
    (h : OnlyRepeated weightedAverageShsOutDil statements rejected later date date' shares) :
    ∃ first rest, earlierRevisions statements later date' = first ++ rest
      ∧ List.Forall₂ Alike first (earlierRevisions statements rejected date)
      ∧ ∀ s ∈ rest, s ∈ statements ∧ sameQuarter s rejected ∧ s.availableFromDate ≤ date'
        ∧ ¬ observedBefore s rejected ∧ observedBefore s later := by
  have hsorted := earlierRevisions_sorted statements later date'
  have hquarter : ∀ s, sameQuarter s rejected = sameQuarter s later :=
    fun s => sameQuarter_congr h.quarter
  refine ⟨_, _, (filter_append_of_sorted (observedRank rejected) hsorted).symm, ?_, ?_⟩
  · refine forall₂_alike_of_perm ?_ ?_ (hsorted.filter _) (earlierRevisions_sorted ..)
    · exact hhash.subset fun s hs => (mem_earlierRevisions.mp (List.mem_filter.mp hs).1).1
    · refine ((sortBy_perm _ _).filter _).trans ?_
      rw [List.filter_filter]
      refine List.Perm.trans ?_ (sortBy_perm _ _).symm
      refine List.Perm.of_eq (List.filter_congr fun s hs => ?_)
      rw [Bool.eq_iff_iff]
      simp only [Bool.and_eq_true, decide_eq_true_eq, ← observedBefore_iff]
      constructor
      · rintro ⟨hbefore, ⟨hsame, hvisible⟩, -⟩
        have hsame : sameQuarter s rejected := (hquarter s).trans hsame
        exact ⟨⟨hsame, (h.before s hs hsame hbefore).mp hvisible⟩, hbefore⟩
      · rintro ⟨⟨hsame, hvisible⟩, hbefore⟩
        exact ⟨hbefore, ⟨(hquarter s).symm.trans hsame, (h.before s hs hsame hbefore).mpr hvisible⟩,
          observedBefore_trans hbefore h.after⟩
  · intro s hs
    obtain ⟨hmem, hnot⟩ := List.mem_filter.mp hs
    obtain ⟨hmem, hsame, hvisible, hbefore⟩ := mem_earlierRevisions.mp hmem
    refine ⟨hmem, (hquarter s).trans hsame, hvisible, ?_, hbefore⟩
    rw [observedBefore_iff]
    simpa using hnot

/-- **Repetitions**: a rejected count that is accepted again was explained, at the repetition that
was accepted first, by a re-base detected since it was rejected. -/
theorem accepted_explainedSince {statements : List (FinancialStatement V H)}
    (hhash : HashedContents statements) {rejected later : FinancialStatement V H}
    {date date' : ℤ} {shares : ℚ}
    (h : OnlyRepeated weightedAverageShsOutDil statements rejected later date date' shares)
    (hrejected : ¬ (restatementVerdict measured shareChanges weightedAverageShsOutDil statements
      rejected date).accepted)
    (haccepted : (restatementVerdict measured shareChanges weightedAverageShsOutDil statements
      later date').accepted) :
    ∃ anchor repetition,
      anchorFor measured shareChanges weightedAverageShsOutDil statements rejected date
        = some anchor
      ∧ (repetition = later
        ∨ repetition ∈ statements ∧ sameQuarter repetition rejected
          ∧ repetition.availableFromDate ≤ date' ∧ ¬ observedBefore repetition rejected
          ∧ observedBefore repetition later)
      ∧ usableCount weightedAverageShsOutDil repetition = some shares
      ∧ ExplainedSince measured shareChanges rejected.observedAt repetition shares anchor := by
  rw [accepted_iff h.count, not_not] at hrejected
  rw [accepted_iff h.again] at haccepted
  cases hanchor : anchorFor measured shareChanges weightedAverageShsOutDil statements rejected
      date with
  | none => simp [hanchor, acceptedAgainst] at hrejected
  | some anchor =>
    refine ⟨anchor, ?_⟩
    rw [hanchor] at hrejected
    have hrejected : ¬ Links measured shareChanges rejected shares anchor :=
      fun hlinks => acceptedAgainst_some_iff.mpr hlinks hrejected
    -- the later walk reaches an anchor alike, then judges the repetitions against it
    obtain ⟨first, rest, hcut, halike, hrest⟩ := earlierRevisions_cut hhash h
    have hreached : Option.Rel Anchor.Alike
        (first.foldl (nextAnchor measured shareChanges weightedAverageShsOutDil) none)
        (some anchor) := by
      rw [← hanchor]
      exact foldl_nextAnchor_alike halike .none
    cases hfirst : first.foldl (nextAnchor measured shareChanges weightedAverageShsOutDil) none with
    | none =>
      rw [hfirst] at hreached
      cases hreached
    | some reached =>
      rw [hfirst] at hreached
      have hlinks : ∀ s : FinancialStatement V H, Links measured shareChanges s shares reached →
          Links measured shareChanges s shares anchor := by
        intro s hs
        rw [← acceptedAgainst_some_iff] at hs ⊢
        rwa [← (Alike.refl s).acceptedAgainst_eq hreached]
      by_cases hsome : NoneLinks measured shareChanges weightedAverageShsOutDil reached rest
      · -- no repetition in between was accepted, so the last one was
        rw [anchorFor, hcut, List.foldl_append, hfirst, foldl_nextAnchor_of_noneLinks hsome,
          acceptedAgainst_some_iff] at haccepted
        refine ⟨later, rfl, .inl rfl, h.again, ?_⟩
        exact explainedSince_of_links h.fiscalDate
          (observedAt_le_of_not_observedBefore fun hback =>
            absurd (observedBefore_trans h.after hback) (by simp [observedBefore_iff]))
          hrejected (hlinks _ haccepted)
      · simp only [NoneLinks, not_forall, not_not] at hsome
        obtain ⟨s, hs, count, hcount, haccepts⟩ := hsome
        obtain ⟨hmem, hsame, hvisible, hafter, hbefore⟩ := hrest s hs
        rcases h.between s hmem hsame hvisible hafter hbefore with hnone | ⟨hagain, hfiscal⟩
        · simp [hnone] at hcount
        · obtain rfl : count = shares := Option.some.inj (hcount.symm.trans hagain)
          refine ⟨s, rfl, .inr ⟨hmem, hsame, hvisible, hafter, hbefore⟩, hagain, ?_⟩
          exact explainedSince_of_links hfiscal (observedAt_le_of_not_observedBefore hafter)
            hrejected (hlinks _ haccepts)

end Repetition

/-! ### The rule -/

/-- **Restated counts**: the verdict does not depend on the listing order; a count is accepted
exactly when a chain of accepted anchors reaches it; and a rejected count that is only repeated is
accepted again only once a re-base detected since its rejection explains it. -/
theorem restatementVerdict_chained {V H : Type} [LinearOrder H] (measured : List PriceBasisEvent)
    (shareChanges : List ShareChange) (weightedAverageShsOutDil : V → Option ℚ)
    (statements : List (FinancialStatement V H)) (hhash : HashedContents statements) :
    (∀ statements', statements.Perm statements' → ∀ latest date,
      restatementVerdict measured shareChanges weightedAverageShsOutDil statements latest date
        = restatementVerdict measured shareChanges weightedAverageShsOutDil statements' latest
          date)
    ∧ (∀ latest date shares, usableCount weightedAverageShsOutDil latest = some shares →
      ((restatementVerdict measured shareChanges weightedAverageShsOutDil statements latest
          date).accepted
        ↔ Reached measured shareChanges weightedAverageShsOutDil
            (earlierRevisions statements latest date) latest shares))
    ∧ ∀ rejected later date date' shares,
      OnlyRepeated weightedAverageShsOutDil statements rejected later date date' shares →
      ¬ (restatementVerdict measured shareChanges weightedAverageShsOutDil statements rejected
          date).accepted →
      (restatementVerdict measured shareChanges weightedAverageShsOutDil statements later
          date').accepted →
      ∃ anchor repetition,
        anchorFor measured shareChanges weightedAverageShsOutDil statements rejected date
          = some anchor
        ∧ (repetition = later
          ∨ repetition ∈ statements ∧ sameQuarter repetition rejected
            ∧ repetition.availableFromDate ≤ date' ∧ ¬ observedBefore repetition rejected
            ∧ observedBefore repetition later)
        ∧ usableCount weightedAverageShsOutDil repetition = some shares
        ∧ ExplainedSince measured shareChanges rejected.observedAt repetition shares anchor := by
  refine ⟨?_, ?_, ?_⟩
  · intro statements' hperm latest date
    exact restatementVerdict_perm hhash hperm latest date
  · intro latest date shares hcount
    exact accepted_iff_reached hcount
  · intro rejected later date date' shares h hrejected haccepted
    exact accepted_explainedSince hhash h hrejected haccepted

/-- One quarter's revision, observed at noon of a day. -/
def quarterRevision (shares : ℚ) (day : ℤ) : FinancialStatement ℚ ℤ where
  securityId := "ACME"
  statementType := .income
  fiscalDate := 0
  fiscalYear := 1970
  period := .q1
  reportedCurrency := "USD"
  filingDate := 40
  providerAcceptedDate := none
  values := shares
  availableFromDate := 41
  observedAt := day * EodFinality.dayMs + EodFinality.dayMs / 2
  contentHash := day

/-- A re-base measured on the day it took effect. -/
def rebaseOn (priceRatio : ℚ) (day : ℤ) : PriceBasisEvent where
  securityId := "ACME"
  generation := 1
  kind := .MEASURED
  effectiveDate := some day
  effectiveFrom := none
  effectiveTo := none
  priceRatio := some priceRatio
  detectedAt := day * EodFinality.dayMs
  evidence := ⟨[], 10, 10, 0⟩

/-- A count repeated after a split is accepted, the split detected since explaining it. -/
theorem restatementVerdict_chained_split :
    (restatementVerdict [rebaseOn 2 53] (shareChangesOf [rebaseOn 2 53] []) some
        [quarterRevision 200 55, quarterRevision 100 45, quarterRevision 200 50]
        (quarterRevision 200 55) 60
      = restatementVerdict [rebaseOn 2 53] (shareChangesOf [rebaseOn 2 53] []) some
        [quarterRevision 100 45, quarterRevision 200 50, quarterRevision 200 55]
        (quarterRevision 200 55) 60)
    ∧ Reached [rebaseOn 2 53] (shareChangesOf [rebaseOn 2 53] []) some
        (earlierRevisions
          [quarterRevision 200 55, quarterRevision 100 45, quarterRevision 200 50]
          (quarterRevision 200 55) 60) (quarterRevision 200 55) 200
    ∧ ∃ anchor repetition,
        anchorFor [rebaseOn 2 53] (shareChangesOf [rebaseOn 2 53] []) some
          [quarterRevision 200 55, quarterRevision 100 45, quarterRevision 200 50]
          (quarterRevision 200 50) 60 = some anchor
        ∧ usableCount some repetition = some 200
        ∧ ExplainedSince [rebaseOn 2 53] (shareChangesOf [rebaseOn 2 53] [])
          (quarterRevision 200 50).observedAt repetition 200 anchor := by
  have h := restatementVerdict_chained [rebaseOn 2 53] (shareChangesOf [rebaseOn 2 53] []) some
    [quarterRevision 200 55, quarterRevision 100 45, quarterRevision 200 50]
    (by unfold HashedContents; decide +kernel)
  refine ⟨?_, ?_, ?_⟩
  · exact h.1 _ (by decide +kernel) _ _
  · exact (h.2.1 _ 60 200 (by decide +kernel)).mp (by decide +kernel)
  · obtain ⟨anchor, repetition, hanchor, -, hcount, hsince⟩ :=
      h.2.2 (quarterRevision 200 50) (quarterRevision 200 55) 60 60 200
        ⟨by decide +kernel, by decide +kernel, rfl, by decide +kernel, by decide +kernel,
          by decide +kernel, by decide +kernel⟩
        (by decide +kernel) (by decide +kernel)
    exact ⟨anchor, repetition, hanchor, hcount, hsince⟩

/-- Two re-bases that cancel separate a count from the only one before it, and their product
explains it; it is rejected. Across no separating event, a count 4.6 % off is accepted where a
distribution of that ratio explains it. -/
theorem cancelling_rebases_rejected :
    (separating (shareChangesOf [rebaseOn 2 50, rebaseOn (1 / 2) 52] [])
        (quarterRevision 100 55) (quarterRevision 100 45)
      = [.MEASURED 50 (50 * EodFinality.dayMs) (rebaseOn 2 50),
        .MEASURED 52 (52 * EodFinality.dayMs) (rebaseOn (1 / 2) 52)]
      ∧ WithinTolerance 100 (2 * (1 / 2) * 100)
      ∧ ¬ (restatementVerdict [rebaseOn 2 50, rebaseOn (1 / 2) 52]
        (shareChangesOf [rebaseOn 2 50, rebaseOn (1 / 2) 52] []) some
        [quarterRevision 100 45, quarterRevision 100 55] (quarterRevision 100 55) 60).accepted)
    ∧ separating (shareChangesOf [rebaseOn (1046 / 1000) 50] [])
        (quarterRevision (1046 / 10) 55) (quarterRevision 100 45) = []
      ∧ ¬ WithinTolerance (1046 / 10) 100
      ∧ (restatementVerdict [rebaseOn (1046 / 1000) 50]
        (shareChangesOf [rebaseOn (1046 / 1000) 50] []) some
        [quarterRevision 100 45, quarterRevision (1046 / 10) 55] (quarterRevision (1046 / 10) 55)
        60).accepted := by
  refine ⟨⟨by decide +kernel, ?_, by decide +kernel⟩, by decide +kernel, ?_, by decide +kernel⟩
  · rw [← withinTolerance_iff]
    decide +kernel
  · rw [← withinTolerance_iff]
    decide +kernel

end FactorSage.Valuation
