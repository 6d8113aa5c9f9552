import FactorSage.PriceBasis.Session

/-!
# What the reads of a cycle establish

The rules of the earliest-row check, of a whole-history read and of the first verification, for a
session that is `Running`.

* `Running.earliestStoredRowUnchanged`: the check sees that the provider has moved away from the
  earliest stored row, and nothing else.
* `Running.replacePriceHistoryWithinLease`: a history found unchanged or replaced is the provider's
  as it is then.
* `Running.verifyPriceBasisWithinLease`: so is one verified now.
-/

namespace FactorSage.PriceBasis

open FactorSage.Rebase (closesDiffer_self)

open EStateM

variable {stored : List DailyPrice} {ok : List History → History → ProviderEvent → Prop}
  {target : DateRange} {session : Session}

/-! ### The earliest-row check -/

variable {store : PriceStore}

theorem getEarliestDailyPriceDate_eq {earliest : DailyPrice}
    (h : store.prices.rows.head? = some earliest) :
    store.getEarliestDailyPriceDate = some earliest.date := by
  unfold PriceStore.getEarliestDailyPriceDate
  rw [h]
  rfl

theorem rows_eq_nil_of_earliest
    (h : store.getEarliestDailyPriceDate = none) : store.prices.rows = [] := by
  unfold PriceStore.getEarliestDailyPriceDate at h
  exact List.head?_eq_none_iff.mp (Option.map_eq_none_iff.mp h)

/-- Of a stored session inside a range, an answer for that range holds the row. -/
theorem exists_rowOn {rows : List DailyPrice} {history : History} {range : DateRange}
    {row : DailyPrice} (h : Against rows history) (hrow : row ∈ rows) (hin : range.Holds row.date) :
    ∃ read, rowOn (history.getDailyPrices range) row.date = some read
      ∧ (BeyondTolerance row read ∨ read = row) := by
  obtain ⟨now, hnow, hdate, hread⟩ := h.exists_date hrow
  have hanswer : now ∈ history.getDailyPrices range :=
    History.mem_getDailyPrices.mpr ⟨hnow, hdate ▸ hin⟩
  obtain ⟨read, hfound⟩ := rowOn_isSome hanswer
  obtain ⟨hmem, hreaddate⟩ := rowOn_some hfound
  have heq : read = now :=
    History.eq_of_date (History.mem_getDailyPrices.mp hmem).1 hnow hreaddate
  subst heq
  exact ⟨read, hdate ▸ hfound, hread⟩

/-- The check compares the earliest stored row, whose session the provider still has. -/
theorem earliestUnchanged_iff {history : History} {earliest : DailyPrice}
    {days : ℤ} (hdays : 0 ≤ days) (hearliest : store.prices.rows.head? = some earliest)
    (h : Against store.prices.rows history) :
    earliestUnchanged (store.getDailyPrices ⟨earliest.date, earliest.date + days⟩)
        (history.getDailyPrices ⟨earliest.date, earliest.date + days⟩) = true
      ↔ ¬ Moved earliest history := by
  obtain ⟨rest, hrows⟩ := List.head?_eq_some_iff.mp hearliest
  have hmem : earliest ∈ store.prices.rows := hrows ▸ List.mem_cons_self
  have hin : (⟨earliest.date, earliest.date + days⟩ : DateRange).Holds earliest.date :=
    ⟨le_rfl, by show earliest.date ≤ earliest.date + days; omega⟩
  obtain ⟨read, hfound, hread⟩ := exists_rowOn h hmem hin
  have hfirst : (store.getDailyPrices ⟨earliest.date, earliest.date + days⟩).find?
      (fun row => (rowOn (history.getDailyPrices ⟨earliest.date, earliest.date + days⟩)
        row.date).isSome) = some earliest := by
    unfold PriceStore.getDailyPrices
    rw [hrows, List.filter_cons, if_pos (decide_eq_true hin), List.find?_cons_of_pos]
    rw [hfound]
    rfl
  unfold earliestUnchanged
  rw [hfirst]
  simp only [hfound]
  rw [Bool.not_eq_true']
  rcases hread with hbeyond | rfl
  · obtain ⟨hreadmem, hreaddate⟩ := rowOn_some hfound
    have hmoved : Moved earliest history :=
      ⟨read, (History.mem_getDailyPrices.mp hreadmem).1, hreaddate, hbeyond⟩
    rw [hbeyond.1]
    exact ⟨fun h => (by cases h), fun hnot => absurd hmoved hnot⟩
  · obtain ⟨hreadmem, -⟩ := rowOn_some hfound
    rw [closesDiffer_self]
    exact ⟨fun _ hmoved => hmoved.not_mem (History.mem_getDailyPrices.mp hreadmem).1, fun _ => rfl⟩

/-- The provider has not moved away from the earliest row of a store. -/
def ReadsAsStored (store : PriceStore) (history : History) : Prop :=
  ∀ earliest, store.prices.rows.head? = some earliest → ¬ Moved earliest history

theorem exists_moved_of_not_readsAsStored {history : History} (h : ¬ ReadsAsStored store history) :
    ∃ earliest, store.prices.rows.head? = some earliest ∧ Moved earliest history := by
  unfold ReadsAsStored at h
  push Not at h
  exact h

namespace Running

/-- A provider that has not moved away from the earliest stored row holds them all. -/
theorem stored_subset_of_readsAsStored (h : Running stored ok target session)
    (hreads : ReadsAsStored session.world.store session.world.provider) :
    session.world.store.prices.rows ⊆ session.world.provider.rows := by
  cases hearliest : session.world.store.prices.rows.head? with
  | none =>
    rw [List.head?_eq_none_iff.mp hearliest]
    exact List.nil_subset _
  | some earliest => exact h.stored_subset hearliest (hreads earliest hearliest)

/-- What reads as stored later on in a cycle did so before. -/
theorem readsAsStored_of_follows {after : Session} (h : Running stored ok target session)
    (hfollows : Follows stored session after)
    (hreads : ReadsAsStored session.world.store after.world.provider) :
    ReadsAsStored session.world.store session.world.provider := by
  intro earliest hearliest hmoved
  refine hreads earliest hearliest (hfollows.moved earliest ?_ hmoved)
  exact h.known (List.mem_of_mem_head? hearliest)

theorem earliestStoredRowUnchanged (h : Running stored ok target session) :
    (PriceBasis.earliestStoredRowUnchanged).Ends
      (fun unchanged s => Running stored ok target s ∧ Follows stored session s
        ∧ (unchanged = true ↔ ReadsAsStored session.world.store s.world.provider))
      (fun s => OneBasis s.world) session := by
  unfold PriceBasis.earliestStoredRowUnchanged
  refine ends_bind.mpr (getStore ?_)
  cases hdate : session.world.store.getEarliestDailyPriceDate with
  | none =>
    refine ⟨h, Follows.refl session, fun _ earliest hearliest => ?_, fun _ => rfl⟩
    rw [rows_eq_nil_of_earliest hdate] at hearliest
    cases hearliest
  | some date =>
    refine ends_bind.mpr (h.request ?_)
    refine ⟨h.arrive, h.follows_arrive, ?_⟩
    obtain ⟨earliest, hearliest, rfl⟩ := Option.map_eq_some_iff.mp hdate
    have hagainst := h.arrive.sound.against
    rw [store_arrive] at hagainst
    refine (earliestUnchanged_iff (by decide) hearliest hagainst).trans ⟨fun hnot => ?_, fun h => ?_⟩
    · intro earliest' hearliest'
      obtain rfl := Option.some.inj (hearliest.symm.trans hearliest')
      exact hnot
    · exact h earliest hearliest

end Running

/-! ### Whole-history reads -/

/-- How a whole-history read leaves a session. -/
def Replacement.EndsIn (stored : List DailyPrice) (before after : Session) : Replacement → Prop
  | .unchanged _ => Follows stored before after
      ∧ after.world.store.prices.rows ⊆ after.world.provider.rows
  | .refused => Follows stored before after
  | .replaced _ _ => after.world.store.prices.rows ⊆ after.world.provider.rows

/-- A whole-history read starts at or before the earliest stored row, and no earlier than its
target does or the earliest stored row. -/
theorem wholeReadRange_holds {cutoff : ℤ} (hwithin : ∀ row ∈ store.prices.rows,
      (⟨earliestPersistedPriceDate, cutoff⟩ : DateRange).Holds row.date)
    (hfrom : earliestPersistedPriceDate ≤ target.fromDate) :
    earliestPersistedPriceDate ≤ (wholeReadRange store target).fromDate
      ∧ ∀ earliest, store.prices.rows.head? = some earliest →
          (wholeReadRange store target).fromDate ≤ earliest.date := by
  unfold wholeReadRange
  cases hearliest : store.prices.rows.head? with
  | none =>
    unfold PriceStore.getEarliestDailyPriceDate
    rw [hearliest]
    refine ⟨hfrom, fun earliest h => ?_⟩
    cases h
  | some first =>
    rw [getEarliestDailyPriceDate_eq hearliest]
    have hmem : first ∈ store.prices.rows := List.mem_of_mem_head? hearliest
    refine ⟨le_min (hwithin first hmem).1 hfrom, fun earliest h => ?_⟩
    obtain rfl := Option.some.inj h
    exact min_le_left _ _

namespace Running

/-- A history that compares as unchanged is the provider's. -/
theorem stored_subset_of_unchanged (h : Running stored ok target session) {range : DateRange}
    (hrange : ∀ earliest, session.world.store.prices.rows.head? = some earliest →
      range.Holds earliest.date)
    (hsame : (histories (session.world.store.getDailyPrices range)
      (byDate (withinRequestedRange (session.world.provider.getDailyPrices range) range))).changed
        = []) :
    session.world.store.prices.rows ⊆ session.world.provider.rows := by
  refine h.stored_subset_of_readsAsStored fun earliest hearliest hmoved => ?_
  obtain ⟨now, hnow, hdate, hbeyond⟩ := hmoved
  have hin := hrange earliest hearliest
  have hfresh : now ∈ byDate (withinRequestedRange
      (session.world.provider.getDailyPrices range) range) :=
    mem_byDate.mpr (mem_withinRequestedRange.mpr
      ⟨History.mem_getDailyPrices.mpr ⟨hnow, hdate ▸ hin⟩, hdate ▸ hin⟩)
  obtain ⟨read, hfound⟩ := rowOn_isSome hfresh
  obtain ⟨hread, hreaddate⟩ := rowOn_some hfound
  have hreadmem := (History.mem_getDailyPrices.mp
    (mem_withinRequestedRange.mp (mem_byDate.mp hread)).1).1
  obtain rfl : read = now := History.eq_of_date hreadmem hnow hreaddate
  have hstored : earliest ∈ session.world.store.getDailyPrices range :=
    PriceStore.mem_getDailyPrices.mpr ⟨List.mem_of_mem_head? hearliest, hin⟩
  have hclose := not_closesDiffer_of_unchanged hsame hstored (hdate ▸ hfound)
  rw [hbeyond.1] at hclose
  cases hclose

/-- A replacement leaves the rows of its read. -/
theorem replaced (h : Running stored ok target session) {range : DateRange} {basis : Option ℕ}
    {hold : Hold} {store : PriceStore} (hreads : session.world.provider ∈ session.reads)
    (hfrom : earliestPersistedPriceDate ≤ range.fromDate) (hto : range.toDate = target.toDate)
    (hhold : hold.rows ⊆ session.world.provider.getDailyPrices range)
    (hwrite : session.world.store.replaceDailyPriceHistory (replaceInput basis range hold)
      = .ok store) (owned : List Bool) :
    Running stored ok target
        { session with owned := owned, world := session.world.commit store }
      ∧ store.prices.rows ⊆ session.world.provider.rows := by
  have hrows : ∀ row ∈ store.prices.rows,
      row ∈ session.world.provider.rows ∧ range.Holds row.date := by
    intro row hrow
    exact History.mem_getDailyPrices.mp
      (hhold ((PriceStore.mem_replaceDailyPriceHistory hwrite row).mp hrow))
  have hsub : store.prices.rows ⊆ session.world.provider.rows := fun row hrow => (hrows row hrow).1
  refine ⟨⟨?_, h.cutoff, ?_, h.reads, h.meets, h.keeps⟩, hsub⟩
  · refine h.sound.commit hsub ⟨_, h.sound.current, List.Subset.refl _⟩
      (Against.of_subset (List.Subset.refl _)) fun row hrow => ?_
    obtain ⟨-, hlow, hhigh⟩ := hrows row hrow
    have hcutoff := h.cutoff
    exact ⟨hfrom.trans hlow, by show row.date ≤ session.world.cutoff; omega⟩
  · exact List.Subset.trans hsub (rows_subset_readRows hreads)

theorem replacePriceHistoryWithinLease (h : Running stored ok target session)
    (hfrom : earliestPersistedPriceDate ≤ target.fromDate) (basis : Option ℕ) :
    (PriceBasis.replacePriceHistoryWithinLease target basis).Ends
      (fun outcome s => Running stored ok target s ∧ s.reads ≠ []
        ∧ outcome.EndsIn stored session s)
      (fun s => OneBasis s.world) session := by
  unfold PriceBasis.replacePriceHistoryWithinLease
  refine ends_bind.mpr (getStore ?_)
  refine ends_bind.mpr (h.request ?_)
  have harrive := h.arrive
  have hreads : session.arrive.world.provider ∈ session.arrive.reads := List.mem_cons_self
  have hne : session.arrive.reads ≠ [] := List.ne_nil_of_mem hreads
  obtain ⟨hlow, hearliest⟩ := wholeReadRange_holds h.sound.within hfrom
  have hstore := store_arrive session
  -- empty, replaced in a transaction, or found unchanged
  unfold replaceWith
  split
  · exact ⟨harrive, hne, h.follows_arrive⟩
  · split
    · refine ends_bind.mpr (harrive.assertOwned fun owned => ?_)
      refine ends_bind.mpr ((harrive.owned owned).transaction fun store owned' hwrite => ?_)
      have hhold : (replacementHold (session.world.store.getDailyPrices
            (wholeReadRange session.world.store target))
          (byDate (withinRequestedRange (session.arrive.world.provider.getDailyPrices
            (wholeReadRange session.world.store target))
              (wholeReadRange session.world.store target)))).rows
          ⊆ session.arrive.world.provider.getDailyPrices
              (wholeReadRange session.world.store target) := by
        intro row hrow
        have hfresh := mem_byDate.mp (replacementHold_subset _ _ hrow)
        exact (mem_withinRequestedRange.mp hfresh).1
      obtain ⟨hrunning, hsub⟩ := harrive.replaced hreads hlow rfl hhold hwrite owned'
      exact ⟨hrunning, hne, hsub⟩
    · next hsame =>
      refine ⟨harrive, hne, h.follows_arrive, ?_⟩
      have hrange : ∀ earliest, session.arrive.world.store.prices.rows.head? = some earliest →
          (wholeReadRange session.world.store target).Holds earliest.date := by
        intro earliest hhead
        rw [hstore] at hhead
        refine ⟨hearliest earliest hhead, ?_⟩
        have hin := h.sound.within earliest (List.mem_of_mem_head? hhead)
        have hcutoff := h.cutoff
        have hhigh : earliest.date ≤ session.world.cutoff := hin.2
        show earliest.date ≤ target.toDate
        omega
      refine harrive.stored_subset_of_unchanged hrange ?_
      rw [hstore]
      simpa using hsame

end Running

/-! ### The first verification -/

/-- How the first verification leaves a session. -/
def VerificationState.EndsIn (before after : Session) : VerificationState → Prop
  | .verifiedEarlier => after = before ∧ before.world.store.generation.isSome
  | .refusedNow => before.world.store.generation = none
  | .verifiedNow => before.world.store.generation = none
      ∧ after.world.store.prices.rows ⊆ after.world.provider.rows
      ∧ (after.reads = [] → after.world.store.prices.rows = [])

namespace Running

/-- Recording the basis writes no price. -/
theorem createPriceBasis (h : Running stored ok target session) :
    Running stored ok target { session with
      world := { session.world with store := session.world.store.createPriceBasis } } where
  sound := ⟨h.sound.commits, h.sound.stored, h.sound.current, h.sound.against, h.sound.within⟩
  cutoff := h.cutoff
  known := h.known
  reads := h.reads
  meets := h.meets
  keeps := h.keeps

theorem verifyPriceBasisWithinLease (h : Running stored ok target session)
    (hfrom : earliestPersistedPriceDate ≤ target.fromDate) :
    (PriceBasis.verifyPriceBasisWithinLease target).Ends
      (fun verification s => Running stored ok target s ∧ verification.state.EndsIn session s)
      (fun s => OneBasis s.world) session := by
  unfold PriceBasis.verifyPriceBasisWithinLease
  refine ends_bind.mpr (getStore ?_)
  cases hgeneration : session.world.store.generation with
  | some generation =>
    refine ⟨h, rfl, ?_⟩
    rw [hgeneration]
    rfl
  | none =>
    show Ends (if _ then _ else _) _ _ _
    split
    · next hearliest =>
      refine ends_bind.mpr (h.assertOwned fun owned => ?_)
      have hnil := rows_eq_nil_of_earliest hearliest
      refine ⟨(h.owned owned).createPriceBasis, hgeneration, ?_, fun _ => hnil⟩
      show session.world.store.prices.rows ⊆ _
      rw [hnil]
      exact List.nil_subset _
    · refine Ends.seq (h.replacePriceHistoryWithinLease hfrom none) ?_
      rintro replacement s ⟨hrunning, hreads, hends⟩
      cases replacement with
      | unchanged sessions =>
        refine ends_bind.mpr (hrunning.assertOwned fun owned => ?_)
        exact ⟨(hrunning.owned owned).createPriceBasis, hgeneration, hends.2,
          fun hnil => absurd hnil hreads⟩
      | refused => exact ⟨hrunning, hgeneration⟩
      | replaced generation prices =>
        exact ⟨hrunning, hgeneration, hends, fun hnil => absurd hnil hreads⟩

end Running

end FactorSage.PriceBasis
