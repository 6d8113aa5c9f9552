import FactorSage.Valuation.Restatement

/-!
# The order revisions are observed in

`compareObserved` is the order of a key, so the revisions a verdict is judged against come in one
order up to ties of that key. A tie takes equal content hashes: where the hash tells contents apart,
tied revisions are alike in all the walk reads (`Alike`), and the anchor the walk ends with is the
same but for which of two alike revisions it names (`foldl_nextAnchor_alike`).
-/

namespace FactorSage.Valuation

open ComparatorSort Rebase Statements

variable {V H : Type}

section Order

variable [LinearOrder H]

/-- The key `observedBefore` compares. -/
def observedRank (statement : FinancialStatement V H) : Instant ×ₗ ℤ ×ₗ ℤ ×ₗ H :=
  toLex (statement.observedAt,
    toLex (statement.availableFromDate, toLex (statement.fiscalDate, statement.contentHash)))

theorem observedBefore_iff (earlier later : FinancialStatement V H) :
    observedBefore earlier later ↔ observedRank earlier < observedRank later := by
  simp only [observedBefore, representsFiscalPeriodOver, fiscalPeriodRank, observedRank,
    Prod.Lex.toLex_lt_toLex, Bool.or_eq_true, Bool.and_eq_true, decide_eq_true_eq]
  constructor
  · rintro (h | ⟨h, h' | ⟨h', h'' | ⟨-, h''⟩⟩⟩)
    · exact .inl h
    · exact .inr ⟨h, .inl h'⟩
    · exact absurd h h''.ne
    · exact .inr ⟨h, .inr ⟨h', h''⟩⟩
  · rintro (h | ⟨h, h' | ⟨h', h''⟩⟩)
    · exact .inl h
    · exact .inr ⟨h, .inl h'⟩
    · exact .inr ⟨h, .inr ⟨h', .inr ⟨h, h''⟩⟩⟩

theorem observedBefore_trans {a b c : FinancialStatement V H} (hab : observedBefore a b)
    (hbc : observedBefore b c) : observedBefore a c := by
  rw [observedBefore_iff] at *
  exact hab.trans hbc

/-- A revision not observed before another was observed no earlier. -/
theorem observedAt_le_of_not_observedBefore {a b : FinancialStatement V H}
    (h : ¬ observedBefore b a) : a.observedAt ≤ b.observedAt := by
  by_contra hlt
  exact h (by simp [observedBefore, not_le.mp hlt])

theorem compareObserved_compares :
    Compares (compareObserved (V := V) (H := H)) observedRank := by
  intro left right
  unfold compareObserved
  rw [← observedBefore_iff]
  by_cases h : observedBefore left right = true
  · simp [h]
  · rw [if_neg h]
    split <;> simp [h]

end Order

/-! ### Ties -/

/-- The content hash tells contents apart. -/
def HashedContents (statements : List (FinancialStatement V H)) : Prop :=
  ∀ s ∈ statements, ∀ t ∈ statements, s.contentHash = t.contentHash →
    s.toStatementContent = t.toStatementContent

variable {l l' : List (FinancialStatement V H)}

theorem HashedContents.subset (h : HashedContents l) (hsub : l' ⊆ l) : HashedContents l' :=
  fun s hs t ht => h s (hsub hs) t (hsub ht)

/-- Two revisions agree on all that judging them reads. -/
structure Alike (s t : FinancialStatement V H) : Prop where
  fiscalDate : s.fiscalDate = t.fiscalDate
  observedAt : s.observedAt = t.observedAt
  values : s.values = t.values

theorem Alike.refl (s : FinancialStatement V H) : Alike s s := ⟨rfl, rfl, rfl⟩

variable {s t : FinancialStatement V H}

theorem alike_of_observedRank_eq [LinearOrder H] {statements : List (FinancialStatement V H)}
    (hhash : HashedContents statements) (hs : s ∈ statements)
    (ht : t ∈ statements) (h : observedRank s = observedRank t) : Alike s t := by
  simp only [observedRank, toLex_inj, Prod.mk.injEq] at h
  obtain ⟨hobserved, -, -, hsame⟩ := h
  have hcontent := hhash s hs t ht hsame
  exact ⟨congrArg (·.fiscalDate) hcontent, hobserved, congrArg (·.values) hcontent⟩

/-- Permuted lists of revisions in the order they were observed are alike, position by position. -/
theorem forall₂_alike_of_perm [LinearOrder H] (hhash : HashedContents l)
    (hperm : l.Perm l') (hl : l.Pairwise fun a b => observedRank a ≤ observedRank b)
    (hl' : l'.Pairwise fun a b => observedRank a ≤ observedRank b) : List.Forall₂ Alike l l' := by
  have hkeys : List.Forall₂ (fun a b => observedRank a = observedRank b) l l' := by
    rw [← List.forall₂_map_right_iff, ← List.forall₂_map_left_iff, List.forall₂_eq_eq_eq]
    exact map_key_eq_of_perm hperm hl hl'
  rw [List.forall₂_iff_get] at hkeys ⊢
  refine ⟨hkeys.1, fun i h₁ h₂ => ?_⟩
  exact alike_of_observedRank_eq hhash (List.get_mem ..) (hperm.mem_iff.mpr (List.get_mem ..))
    (hkeys.2 i h₁ h₂)

/-! ### The walk reads alike revisions alike -/

/-- Anchors that name alike revisions. -/
structure Anchor.Alike (a b : Anchor V H) : Prop where
  statement : Valuation.Alike a.statement b.statement
  shares : a.shares = b.shares
  firstObservedAt : a.firstObservedAt = b.firstObservedAt

variable {measured : List PriceBasisEvent} {shareChanges : List ShareChange}
  {weightedAverageShsOutDil : V → Option ℚ}

theorem Alike.separating_eq {s t a b : FinancialStatement V H} (h : Alike s t) (hab : Alike a b) :
    separating shareChanges s a = separating shareChanges t b := by
  unfold separating
  congr 1
  funext change
  cases change <;> simp only [separates, h.fiscalDate, h.observedAt, hab.observedAt]

theorem Alike.explainedAcross_eq {a b : Anchor V H} (hab : a.Alike b)
    (separating : List ShareChange) (shares : ℚ) :
    explainedAcross separating shares a = explainedAcross separating shares b := by
  have hratio : separatingRatio a.statement = separatingRatio b.statement := by
    funext change
    cases change <;> simp only [separatingRatio, hab.statement.observedAt]
  simp only [explainedAcross, hab.shares, hratio]

theorem Alike.explains_eq {a b : Anchor V H} (h : Alike s t)
    (hab : a.Alike b) (event : PriceBasisEvent) (shares : ℚ) :
    explains event s shares a = explains event t shares b := by
  simp only [explains, h.observedAt, hab.statement.observedAt, hab.shares]

variable {a b : Option (Anchor V H)}

theorem Alike.acceptedAgainst_eq (h : Alike s t) (hab : Option.Rel Anchor.Alike a b) (shares : ℚ) :
    acceptedAgainst measured shareChanges s shares a
      = acceptedAgainst measured shareChanges t shares b := by
  cases hab with
  | none => simp only [acceptedAgainst, h.observedAt]
  | some hab =>
    simp only [acceptedAgainst, h.separating_eq hab.statement, Alike.explainedAcross_eq hab,
      h.explains_eq hab, hab.shares, hab.firstObservedAt, h.observedAt]

theorem nextAnchor_alike (h : Alike s t) (hab : Option.Rel Anchor.Alike a b) :
    Option.Rel Anchor.Alike
      (nextAnchor measured shareChanges weightedAverageShsOutDil a s)
      (nextAnchor measured shareChanges weightedAverageShsOutDil b t) := by
  unfold nextAnchor usableCount
  rw [h.values]
  split
  · exact hab
  · rw [h.acceptedAgainst_eq hab]
    split
    · exact hab
    · exact .some ⟨h, rfl, rfl⟩

/-- **Ties do not matter**: the walk over alike revisions ends with alike anchors. -/
theorem foldl_nextAnchor_alike (h : List.Forall₂ Alike l l') (hab : Option.Rel Anchor.Alike a b) :
    Option.Rel Anchor.Alike
      (l.foldl (nextAnchor measured shareChanges weightedAverageShsOutDil) a)
      (l'.foldl (nextAnchor measured shareChanges weightedAverageShsOutDil) b) := by
  induction h generalizing a b with
  | nil => exact hab
  | cons hst _ ih => exact ih (nextAnchor_alike hst hab)

/-! ### The revisions a verdict is judged against -/

variable [LinearOrder H]

theorem mem_earlierRevisions {statements : List (FinancialStatement V H)}
    {s latest : FinancialStatement V H} {date : ℤ} :
    s ∈ earlierRevisions statements latest date ↔
      s ∈ statements ∧ sameQuarter s latest ∧ s.availableFromDate ≤ date
        ∧ observedBefore s latest := by
  simp [earlierRevisions, mem_sortBy, and_assoc]

theorem earlierRevisions_sorted (statements : List (FinancialStatement V H))
    (latest : FinancialStatement V H) (date : ℤ) :
    (earlierRevisions statements latest date).Pairwise fun a b =>
      observedRank a ≤ observedRank b :=
  compareObserved_compares.pairwise_sortBy _

/-- The listing order changes at most which of two alike revisions stands where. -/
theorem earlierRevisions_alike {statements statements' : List (FinancialStatement V H)}
    (hhash : HashedContents statements) (hperm : statements.Perm statements')
    (latest : FinancialStatement V H) (date : ℤ) :
    List.Forall₂ Alike (earlierRevisions statements latest date)
      (earlierRevisions statements' latest date) := by
  refine forall₂_alike_of_perm ?_ ?_ (earlierRevisions_sorted ..) (earlierRevisions_sorted ..)
  · exact hhash.subset fun s hs => (mem_earlierRevisions.mp hs).1
  · exact (sortBy_perm _ _).trans ((hperm.filter _).trans (sortBy_perm _ _).symm)

end FactorSage.Valuation
