import FactorSage.PriceBasis.Reads

/-!
# One basis

Whether the stored history stays on one basis while the provider re-bases its own, at any instant
and between any two requests of a cycle.

A refresh always does (`Running.refreshWithinLease`): before it saves, the earliest stored row
confirms that its tail read was made on the basis of the stored rows. So does a hydration that makes
this check (`Running.hydrateWithinLease`), except for a re-base between two of its gap reads that
leaves the earliest stored row alone. A hydration that verified the history itself skips the check:
a re-base after its whole-history read goes unseen, and what it saves then lies on another basis
(`not_onOneBasis`).

`onOneBasis_of_undisturbed` is the result for whole runs.
-/

namespace FactorSage.PriceBasis

open EStateM

/-- The event leaves every session as it is. -/
def Quiet (history : History) (event : ProviderEvent) : Prop :=
  history.rows ⊆ (history.apply event).rows

instance (history : History) (event : ProviderEvent) : Decidable (Quiet history event) :=
  inferInstanceAs (Decidable (∀ row ∈ history.rows, row ∈ (history.apply event).rows))

instance (row : DailyPrice) (history : History) : Decidable (Moved row history) :=
  inferInstanceAs (Decidable (∃ now ∈ history.rows, _ ∧ _))

namespace World

/-- The row that the earliest-row check of a hydration compares: none is compared when nothing is
stored, or when the hydration verifies the stored history itself. -/
def checkedRow (world : World) : Option DailyPrice :=
  if world.store.generation.isSome then world.store.prices.rows.head? else none

/-- No event but one that the earliest-row check sees. -/
def SeenBy (checked : Option DailyPrice) (gaps : ℕ) (reads : List History) (history : History)
    (event : ProviderEvent) : Prop :=
  match checked with
  | none => Quiet history event
  | some earliest => reads.length < gaps → Quiet history event ∨ Moved earliest (history.apply event)

/-- What may happen at the provider during a hydration that reads some gaps: the events last, and
between its first and its last read of rows that it may save, none goes unseen. -/
def HydrationMeets (world : World) (gaps : ℕ) (reads : List History) (history : History)
    (event : ProviderEvent) : Prop :=
  Lasts (readRows world.store.prices.rows reads) history event
    ∧ (reads ≠ [] → SeenBy world.checkedRow gaps reads history event)

/-- What may happen at the provider during a refresh: the events last. -/
def RefreshMeets (world : World) (reads : List History) (history : History)
    (event : ProviderEvent) : Prop :=
  Lasts (readRows world.store.prices.rows reads) history event

end World

/-! ### Saves -/

section Saves

variable {stored : List DailyPrice} {ok : List History → History → ProviderEvent → Prop}
  {target : DateRange} {session : Session}

namespace Running

/-- Rows of one read are saved beside stored rows that the provider held at that read. -/
theorem saveRead {input : PriceStore.SaveInput} {history : History}
    (h : Running stored ok target session) (hhistory : history ∈ session.reads)
    (hstored : session.world.store.prices.rows ⊆ history.rows)
    (hprices : input.prices ⊆ history.rows)
    (hwithin : ∀ row ∈ input.prices,
      (⟨earliestPersistedPriceDate, session.world.cutoff⟩ : DateRange).Holds row.date) :
    (PriceBasis.saveDailyPriceSync input).Ends (fun _ s => OneBasis s.world)
      (fun s => OneBasis s.world) session := by
  obtain ⟨hinstant, hagainst⟩ := h.reads history hhistory
  exact h.saveDailyPriceSync hstored hprices ⟨history, hinstant, List.Subset.refl _⟩ hagainst hwithin

/-- Rows that are stored already are saved again. -/
theorem saveStored {input : PriceStore.SaveInput} (h : Running stored ok target session)
    (hprices : input.prices ⊆ session.world.store.prices.rows) :
    (PriceBasis.saveDailyPriceSync input).Ends (fun _ s => OneBasis s.world)
      (fun s => OneBasis s.world) session :=
  h.saveDailyPriceSync (List.Subset.refl _) hprices h.sound.stored h.sound.against
    fun row hrow => h.sound.within row (hprices hrow)

/-- A row that was just read is a stored one, or reads beyond the tolerance of it. -/
theorem compared (h : Running stored ok target session) {row existing : DailyPrice}
    (hrow : row ∈ session.world.provider.rows)
    (hexisting : existing ∈ session.world.store.prices.rows) (hdate : existing.date = row.date) :
    BeyondTolerance existing row ∨ existing = row := by
  obtain ⟨now, hnow, hnowdate, hread⟩ := h.sound.against.exists_date hexisting
  obtain rfl : now = row := History.eq_of_date hnow hrow (hnowdate.trans hdate)
  rcases hread with hbeyond | heq
  · exact .inl hbeyond
  · exact .inr heq.symm

end Running

/-- A read that changes nothing holds stored rows only. -/
theorem subset_of_not_changesStoredRows {store : PriceStore} {range : DateRange}
    {loaded : List DailyPrice}
    (hcompared : ∀ row ∈ loaded, ∀ existing ∈ store.prices.rows, existing.date = row.date →
      BeyondTolerance existing row ∨ existing = row)
    (h : changesStoredRows (store.getDailyPrices range) loaded = false) :
    loaded ⊆ store.prices.rows := by
  intro row hrow
  obtain ⟨existing, hexisting, hdate, hsame⟩ := stored_of_not_changesStoredRows h hrow
  have hmem := (PriceStore.mem_getDailyPrices.mp hexisting).1
  rcases hcompared row hrow existing hmem hdate with hbeyond | rfl
  · have hclose := sameStoredValue_of_sameStoredRow hsame
    rw [hbeyond.2] at hclose
    cases hclose
  · exact hmem

end Saves

/-! ### Gap reads -/

section Gaps

variable {start : World} {gaps : ℕ} {target : DateRange} {session : Session}

/-- The earliest-row check of the cycle would see what has happened at the provider. -/
def SeenAt (checked : Option DailyPrice) (history : History) : Prop :=
  ∃ row ∈ checked, Moved row history

theorem checkedRow_mem {row : DailyPrice} (h : row ∈ start.checkedRow) :
    row ∈ start.store.prices.rows := by
  unfold World.checkedRow at h
  split at h
  · exact List.mem_of_mem_head? h
  · cases h

theorem keepsComparable_hydration :
    KeepsComparable start.store.prices.rows (start.HydrationMeets gaps) :=
  fun _ _ _ h => h.1

theorem SeenAt.follows {session' : Session}
    (h : Follows start.store.prices.rows session session')
    (hseen : SeenAt start.checkedRow session.world.provider) :
    SeenAt start.checkedRow session'.world.provider := by
  obtain ⟨row, hrow, hmoved⟩ := hseen
  refine ⟨row, hrow, h.moved row ?_ hmoved⟩
  exact List.mem_append_left _ (checkedRow_mem hrow)

/-- Between two reads of rows that may be saved, what is read stays as it was or is seen. -/
theorem Running.keepsRead
    (h : Running start.store.prices.rows (start.HydrationMeets gaps) target session)
    (hreads : session.reads ≠ []) (hgaps : start.checkedRow = none ∨ session.reads.length < gaps) :
    session.world.provider.rows ⊆ session.arrive.world.provider.rows
      ∨ SeenAt start.checkedRow session.arrive.world.provider := by
  rw [Running.provider_arrive]
  refine EventsMeet.keeps (I := fun history => session.world.provider.rows ⊆ history.rows
      ∨ SeenAt start.checkedRow history)
    (fun history event hok hI => ?_) h.nextMeets (.inl (List.Subset.refl _))
  obtain ⟨hlasts, hseen⟩ := hok
  have hevent : Quiet history event ∨ SeenAt start.checkedRow (history.apply event) := by
    have hby := hseen hreads
    unfold World.SeenBy at hby
    cases hchecked : start.checkedRow with
    | none =>
      rw [hchecked] at hby
      exact .inl hby
    | some earliest =>
      rw [hchecked] at hby hgaps
      have hlt : session.reads.length < gaps := hgaps.resolve_left (by simp)
      rcases hby hlt with hquiet | hmoved
      · exact .inl hquiet
      · exact .inr ⟨earliest, rfl, hmoved⟩
  rcases hI with hkept | ⟨row, hrow, hmoved⟩
  · rcases hevent with hquiet | hnow
    · exact .inl (List.Subset.trans hkept hquiet)
    · exact .inr hnow
  · exact .inr ⟨row, hrow, hmoved.apply (List.mem_append_left _ (checkedRow_mem hrow)) hlasts⟩

/-- How some gap reads leave a session. -/
structure GapsRead (start : World) (gaps : ℕ) (target : DateRange) (todo : List DateRange)
    (before : Session) (loaded : List DailyPrice) (after : Session) : Prop where
  running : Running start.store.prices.rows (start.HydrationMeets gaps) target after
  follows : Follows start.store.prices.rows before after
  kept : before.reads ≠ [] → before.world.provider.rows ⊆ after.world.provider.rows
    ∨ SeenAt start.checkedRow after.world.provider
  last : before.world.provider ∈ before.reads ∨ todo ≠ [] → after.world.provider ∈ after.reads
  read : loaded ⊆ after.world.provider.rows ∨ SeenAt start.checkedRow after.world.provider
  compared : ∀ row ∈ loaded, ∀ existing ∈ before.world.store.prices.rows,
    existing.date = row.date → BeyondTolerance existing row ∨ existing = row
  within : ∀ row ∈ loaded, ∃ gap ∈ todo, gap.Holds row.date

theorem GapsRead.nil
    (h : Running start.store.prices.rows (start.HydrationMeets gaps) target session) :
    GapsRead start gaps target [] session [] session where
  running := h
  follows := Follows.refl session
  kept := fun _ => .inl (List.Subset.refl _)
  last := fun hlast => hlast.resolve_right fun hne => hne rfl
  read := .inl (List.nil_subset _)
  compared := fun _ hrow => absurd hrow List.not_mem_nil
  within := fun _ hrow => absurd hrow List.not_mem_nil

variable {after : Session}

theorem GapsRead.cons {delta : DateRange} {rest : List DateRange} {others : List DailyPrice}
    (h : Running start.store.prices.rows (start.HydrationMeets gaps) target session)
    (hgaps : start.checkedRow = none ∨ session.reads.length + (rest.length + 1) ≤ gaps)
    (hrest : GapsRead start gaps target rest session.arrive others after) :
    GapsRead start gaps target (delta :: rest) session
      (withinRequestedRange (session.arrive.world.provider.getDailyPrices delta) delta ++ others)
      after := by
  have hread : session.arrive.world.provider ∈ session.arrive.reads := List.mem_cons_self
  have hanswer : ∀ row ∈ withinRequestedRange
      (session.arrive.world.provider.getDailyPrices delta) delta,
      row ∈ session.arrive.world.provider.rows ∧ delta.Holds row.date := by
    intro row hrow
    exact History.mem_getDailyPrices.mp (mem_withinRequestedRange.mp hrow).1
  -- the rows of this gap are kept by the later reads, or a re-base has been seen
  have hafter := hrest.kept (List.ne_nil_of_mem hread)
  refine
    { running := hrest.running
      follows := h.follows_arrive.trans hrest.follows
      kept := fun hreads => ?_
      last := fun _ => hrest.last (.inl hread)
      read := ?_
      compared := fun row hrow existing hexisting hdate => ?_
      within := fun row hrow => ?_ }
  · have hlt : start.checkedRow = none ∨ session.reads.length < gaps := by
      rcases hgaps with hnone | hle
      · exact .inl hnone
      · exact .inr (by omega)
    rcases h.keepsRead hreads hlt with hkept | hseen
    · rcases hafter with hkept' | hseen
      · exact .inl (List.Subset.trans hkept hkept')
      · exact .inr hseen
    · exact .inr (hseen.follows hrest.follows)
  · rcases hafter with hkept | hseen
    · rcases hrest.read with hothers | hseen
      · refine .inl fun row hrow => ?_
        rcases List.mem_append.mp hrow with hmine | htheirs
        · exact hkept (hanswer row hmine).1
        · exact hothers htheirs
      · exact .inr hseen
    · exact .inr hseen
  · have hstore : session.arrive.world.store = session.world.store := Running.store_arrive session
    rcases List.mem_append.mp hrow with hmine | htheirs
    · refine h.arrive.compared (hanswer row hmine).1 ?_ hdate
      rw [hstore]
      exact hexisting
    · refine hrest.compared row htheirs existing ?_ hdate
      rw [hstore]
      exact hexisting
  · rcases List.mem_append.mp hrow with hmine | htheirs
    · exact ⟨delta, List.mem_cons_self, (hanswer row hmine).2⟩
    · obtain ⟨gap, hgap, hin⟩ := hrest.within row htheirs
      exact ⟨gap, List.mem_cons_of_mem _ hgap, hin⟩

/-- **The gap reads**, one after another. -/
theorem Running.readGaps (todo : List DateRange)
    (h : Running start.store.prices.rows (start.HydrationMeets gaps) target session)
    (hgaps : start.checkedRow = none ∨ session.reads.length + todo.length ≤ gaps) :
    (PriceBasis.readGaps todo).Ends (fun loaded s => GapsRead start gaps target todo session loaded s)
      (fun s => OneBasis s.world) session := by
  induction todo generalizing session with
  | nil => exact GapsRead.nil h
  | cons delta rest ih =>
    have hgaps' : start.checkedRow = none
        ∨ session.arrive.reads.length + rest.length ≤ gaps := by
      rcases hgaps with hnone | hle
      · exact .inl hnone
      · right
        show (session.reads.length + 1) + rest.length ≤ gaps
        rw [List.length_cons] at hle
        omega
    refine ends_bind.mpr (h.request ?_)
    refine Ends.seq (ih h.arrive hgaps') ?_
    intro others after hrest
    exact GapsRead.cons h hgaps hrest

/-! ### What a hydration saves -/

/-- What is known of the stored rows when the gaps have been read: after a verification in this
cycle no row is checked, and a history verified now is the provider's. -/
structure Settled (start : World) (state : VerificationState) (session : Session) : Prop where
  checked : state = .verifiedEarlier →
    start.checkedRow = session.world.store.prices.rows.head?
  unchecked : state ≠ .verifiedEarlier → start.checkedRow = none
  verified : state = .verifiedNow →
    session.world.store.prices.rows ⊆ session.world.provider.rows

theorem stored_eq_nil_of_newest {store : PriceStore} {cutoff : ℤ}
    (hwithin : ∀ row ∈ store.prices.rows,
      (⟨earliestPersistedPriceDate, cutoff⟩ : DateRange).Holds row.date)
    (h : store.newestStoredPrice cutoff = none) : store.prices.rows = [] := by
  unfold PriceStore.newestStoredPrice at h
  rw [List.getLast?_eq_none_iff] at h
  refine List.eq_nil_iff_forall_not_mem.mpr fun row hrow => ?_
  have hmem := PriceStore.mem_getDailyPrices.mpr ⟨hrow, hwithin row hrow⟩
  rw [h] at hmem
  cases hmem

variable {todo : List DateRange} {before : Session} {loaded : List DailyPrice}
  {state : VerificationState}

/-- With nothing stored, or with a history that does not read as moved, the rows that were read are
the provider's. -/
theorem GapsRead.loaded_subset (g : GapsRead start gaps target todo before loaded session)
    (hsettled : Settled start state session)
    (hnot : ReadsAsStored session.world.store session.world.provider) :
    loaded ⊆ session.world.provider.rows := by
  rcases g.read with hloaded | ⟨row, hrow, hmoved⟩
  · exact hloaded
  · by_cases hstate : state = .verifiedEarlier
    · rw [hsettled.checked hstate] at hrow
      exact absurd hmoved (hnot row hrow)
    · rw [hsettled.unchecked hstate] at hrow
      cases hrow

/-- What may be saved: rows that are stored already, or rows that the provider held beside the
stored ones. -/
def Savable (loaded : List DailyPrice) (session : Session) : Prop :=
  loaded ⊆ session.world.store.prices.rows
    ∨ session.world.store.prices.rows ⊆ session.world.provider.rows
      ∧ loaded ⊆ session.world.provider.rows

theorem GapsRead.savable_of_readsAsStored (g : GapsRead start gaps target todo before loaded session)
    (hsettled : Settled start state session)
    (hnot : ReadsAsStored session.world.store session.world.provider) :
    Savable loaded session := by
  exact .inr ⟨g.running.stored_subset_of_readsAsStored hnot, g.loaded_subset hsettled hnot⟩

/-- What the check of a hydration decides: it sees the provider re-based, or the rows are savable. -/
def CheckDecides (loaded : List DailyPrice) (state : VerificationState) (before after : Session) :
    Bool → Prop
  | true => state ≠ .verifiedNow ∧ ∃ earliest,
      before.world.store.prices.rows.head? = some earliest ∧ Moved earliest after.world.provider
  | false => Savable loaded before

theorem GapsRead.rebasedSinceStored (g : GapsRead start gaps target todo before loaded session)
    (hsettled : Settled start state session) :
    (PriceBasis.rebasedSinceStored state
        (session.world.store.newestStoredPrice target.toDate) loaded).Ends
      (fun rebased s =>
        Running start.store.prices.rows (start.HydrationMeets gaps) target s
          ∧ Follows start.store.prices.rows session s
          ∧ CheckDecides loaded state session s rebased)
      (fun s => OneBasis s.world) session := by
  have hrunning := g.running
  have hstay : Follows start.store.prices.rows session session := Follows.refl session
  unfold PriceBasis.rebasedSinceStored
  refine ends_bind.mpr (Running.getStore ?_)
  split
  · next hcheck =>
    refine Ends.seq hrunning.earliestStoredRowUnchanged ?_
    rintro unchanged s ⟨hs, hfollows, hdecides⟩
    refine ⟨hs, hfollows, ?_⟩
    simp only [Bool.and_eq_true, decide_eq_true_iff] at hcheck
    cases unchanged with
    | true =>
      -- The check passed, so that the provider had not moved away at the last gap read either.
      exact g.savable_of_readsAsStored hsettled
        (hrunning.readsAsStored_of_follows hfollows (hdecides.mp rfl))
    | false =>
      refine ⟨hcheck.1.1.2, exists_moved_of_not_readsAsStored fun hreads => ?_⟩
      cases hdecides.mpr hreads
  · next hskip =>
    refine ⟨hrunning, hstay, ?_⟩
    show Savable loaded session
    have hcutoff := hrunning.cutoff
    by_cases hverified : state = .verifiedNow
    · have hsub := hsettled.verified hverified
      exact g.savable_of_readsAsStored hsettled fun earliest hearliest hmoved =>
        hmoved.not_mem (hsub (List.mem_of_mem_head? hearliest))
    · cases hnewest : session.world.store.newestStoredPrice target.toDate with
      | none =>
        rw [hcutoff] at hnewest
        have hnil := stored_eq_nil_of_newest hrunning.sound.within hnewest
        refine g.savable_of_readsAsStored hsettled fun earliest hearliest => ?_
        rw [hnil] at hearliest
        cases hearliest
      | some newest =>
        have hsame : loaded = [] ∨ changesStoredRows
            (session.world.store.getDailyPrices (loadedSpan loaded)) loaded = false := by
          by_cases hloaded : loaded = []
          · exact .inl hloaded
          · right
            rw [hnewest] at hskip
            simpa [hverified, hloaded] using hskip
        rcases hsame with rfl | hsame
        · exact .inl (List.nil_subset _)
        · refine .inl (subset_of_not_changesStoredRows (fun row hrow existing hexisting hdate => ?_)
            hsame)
          rw [g.follows.store] at hexisting
          exact g.compared row hrow existing hexisting hdate

/-- A history that reads as moved away from is replaced, or nothing is saved beside it. -/
theorem replacement_not_unchanged {ok : List History → History → ProviderEvent → Prop}
    {stored : List DailyPrice} {earliest : DailyPrice} {sessions : ℕ}
    (h : Running stored ok target session)
    (hearliest : session.world.store.prices.rows.head? = some earliest)
    (hmoved : Moved earliest session.world.provider)
    (hends : Replacement.EndsIn stored session after (.unchanged sessions)) : False := by
  obtain ⟨hfollows, hsub⟩ := hends
  have hmem := List.mem_of_mem_head? hearliest
  refine (hfollows.moved earliest (h.known hmem) hmoved).not_mem (hsub ?_)
  rw [hfollows.store]
  exact hmem

theorem GapsRead.blockedByRebase {verification : Verification} {rebased : Bool}
    (hafter : Running start.store.prices.rows (start.HydrationMeets gaps) target after)
    (hfollows : Follows start.store.prices.rows session after)
    (hfrom : earliestPersistedPriceDate ≤ target.fromDate)
    (hdecides : CheckDecides loaded verification.state session after rebased) :
    (PriceBasis.blockedByRebase target verification rebased).Ends
      (fun blocked s => OneBasis s.world
        ∧ (blocked = false → s = after ∧ Savable loaded session))
      (fun s => OneBasis s.world) after := by
  unfold PriceBasis.blockedByRebase
  cases rebased with
  | false => exact ⟨hafter.sound, fun _ => ⟨rfl, hdecides⟩⟩
  | true =>
    obtain ⟨hstate, earliest, hearliest, hmoved⟩ := hdecides
    rw [← hfollows.store] at hearliest
    cases hverification : verification.state with
    | verifiedNow => exact absurd hverification hstate
    | refusedNow => exact ⟨hafter.sound, fun h => (by cases h)⟩
    | verifiedEarlier =>
      refine Ends.seq (hafter.replacePriceHistoryWithinLease hfrom verification.basis) ?_
      rintro replacement s ⟨hs, -, hends⟩
      cases replacement with
      | unchanged sessions => exact (replacement_not_unchanged hafter hearliest hmoved hends).elim
      | refused => exact ⟨hs.sound, fun h => (by cases h)⟩
      | replaced generation prices => exact ⟨hs.sound, fun h => (by cases h)⟩

/-- What may be saved of a read, is saved on one basis. -/
theorem saveSavable {ok : List History → History → ProviderEvent → Prop}
    {stored : List DailyPrice} {input : PriceStore.SaveInput}
    (h : Running stored ok target after) (hfollows : Follows stored session after)
    (hlast : session.world.provider ∈ session.reads) (hsavable : Savable loaded session)
    (hprices : input.prices ⊆ loaded)
    (hwithin : ∀ row ∈ loaded,
      (⟨earliestPersistedPriceDate, target.toDate⟩ : DateRange).Holds row.date) :
    (PriceBasis.saveDailyPriceSync input).Ends (fun _ s => OneBasis s.world)
      (fun s => OneBasis s.world) after := by
  rcases hsavable with hheld | ⟨hstored, hloaded⟩
  · refine h.saveStored (List.Subset.trans hprices ?_)
    rw [hfollows.store]
    exact hheld
  · refine h.saveRead (hfollows.reads hlast) ?_ (List.Subset.trans hprices hloaded) fun row hrow => ?_
    · rw [hfollows.store]
      exact hstored
    · have hin := hwithin row (hprices hrow)
      rwa [h.cutoff] at hin

theorem GapsRead.saveGaps {verification : Verification}
    (g : GapsRead start gaps target todo before loaded session)
    (hsettled : Settled start verification.state session) (htodo : todo ≠ [])
    (hfrom : earliestPersistedPriceDate ≤ target.fromDate)
    (hinside : ∀ gap ∈ todo, target.fromDate ≤ gap.fromDate ∧ gap.toDate ≤ target.toDate) :
    (PriceBasis.saveGaps target verification todo loaded).Ends (fun _ s => OneBasis s.world)
      (fun s => OneBasis s.world) session := by
  have hwithin : ∀ row ∈ loaded,
      (⟨earliestPersistedPriceDate, target.toDate⟩ : DateRange).Holds row.date := by
    intro row hrow
    obtain ⟨gap, hgap, hlow, hhigh⟩ := g.within row hrow
    obtain ⟨hgapfrom, hgapto⟩ := hinside gap hgap
    exact ⟨hfrom.trans (hgapfrom.trans hlow), hhigh.trans hgapto⟩
  unfold PriceBasis.saveGaps
  refine ends_bind.mpr (Running.getStore ?_)
  refine Ends.seq (g.rebasedSinceStored hsettled) ?_
  rintro rebased s ⟨hs, hfollows, hdecides⟩
  refine Ends.seq (GapsRead.blockedByRebase hs hfollows hfrom hdecides) ?_
  rintro blocked s' ⟨hsound, hsave⟩
  cases blocked with
  | true => exact hsound
  | false =>
    obtain ⟨rfl, hsavable⟩ := hsave rfl
    refine saveSavable hs hfollows (g.last (.inr htodo)) hsavable ?_ hwithin
    exact applyExDateHold_subset _ loaded

end Gaps

/-! ### The cycles -/

section Cycles

variable {target : DateRange} {recentTail : ℕ}

theorem target_le_unsettledTailStart {store : PriceStore} {unsettled : ℤ}
    (h : unsettledTailStart recentTail store target = some unsettled) :
    target.fromDate ≤ unsettled := by
  unfold unsettledTailStart at h
  split at h
  · cases h
  · split at h
    · cases h
    · obtain rfl := Option.some.inj h
      exact le_max_right _ _

theorem mem_gapsToRead {store : PriceStore} {gap : DateRange}
    (h : gap ∈ gapsToRead recentTail store target) :
    target.fromDate ≤ gap.fromDate ∧ gap.toDate ≤ target.toDate := by
  obtain ⟨missing, hmissing, rfl⟩ := List.mem_map.mp h
  obtain ⟨hlow, hhigh⟩ := mem_missingCoverageRanges hmissing
  unfold widenGap
  cases hunsettled : unsettledTailStart recentTail store target with
  | none => exact ⟨hlow, hhigh⟩
  | some unsettled =>
    show target.fromDate ≤ (if _ then _ else _ : DateRange).fromDate ∧ _
    split
    · exact ⟨le_min hlow (target_le_unsettledTailStart hunsettled), hhigh⟩
    · exact ⟨hlow, hhigh⟩

theorem target_le_refreshRange (store : PriceStore) :
    target.fromDate ≤ (refreshRange recentTail store target).fromDate := by
  unfold refreshRange
  cases hunsettled : unsettledTailStart recentTail store target with
  | none => exact le_max_right _ _
  | some unsettled => exact le_min (le_max_right _ _) (target_le_unsettledTailStart hunsettled)

/-- What the verification established still holds once the gaps have been read. -/
theorem GapsRead.settled {start : World} {gaps : ℕ} {todo : List DateRange}
    {loaded : List DailyPrice} {first before after : Session} {state : VerificationState}
    (hfirst : first.world = start) (hstate : state.EndsIn first before)
    (g : GapsRead start gaps target todo before loaded after) : Settled start state after where
  checked := by
    rintro rfl
    obtain ⟨rfl, hgeneration⟩ := hstate
    unfold World.checkedRow
    rw [← hfirst, if_pos hgeneration, g.follows.store]
  unchecked := by
    intro hne
    have hgeneration : start.store.generation = none := by
      rw [← hfirst]
      cases state with
      | verifiedEarlier => exact absurd rfl hne
      | refusedNow => exact hstate
      | verifiedNow => exact hstate.1
    unfold World.checkedRow
    rw [hgeneration]
    rfl
  verified := by
    rintro rfl
    obtain ⟨hgeneration, hsub, hnil⟩ := hstate
    rw [g.follows.store]
    by_cases hreads : before.reads = []
    · rw [hnil hreads]
      exact List.nil_subset _
    · rcases g.kept hreads with hkept | ⟨row, hrow, -⟩
      · exact List.Subset.trans hsub hkept
      · unfold World.checkedRow at hrow
        rw [← hfirst, hgeneration] at hrow
        cases hrow

/-- **A hydration** during which no re-base between its reads goes unseen. -/
theorem Running.hydrateWithinLease {start : World} {session : Session}
    (hsession : session.world = start) (hreads : session.reads = [])
    (h : Running start.store.prices.rows
      (start.HydrationMeets (gapsToRead recentTail start.store target).length) target session)
    (hfrom : earliestPersistedPriceDate ≤ target.fromDate) :
    (PriceBasis.hydrateWithinLease recentTail target).Ends (fun _ s => OneBasis s.world)
      (fun s => OneBasis s.world) session := by
  unfold PriceBasis.hydrateWithinLease
  refine Ends.seq (h.verifyPriceBasisWithinLease hfrom) ?_
  rintro verification before ⟨hbefore, hstate⟩
  refine ends_bind.mpr (Running.getStore ?_)
  -- the gaps are those counted before the verification, or there was no earliest row to check
  have hgaps : start.checkedRow = none ∨ before.reads.length
        + (gapsToRead recentTail before.world.store target).length
      ≤ (gapsToRead recentTail start.store target).length := by
    cases hverification : verification.state with
    | verifiedEarlier =>
      rw [hverification] at hstate
      obtain ⟨rfl, -⟩ := hstate
      right
      rw [hreads, hsession, List.length_nil, Nat.zero_add]
    | refusedNow =>
      rw [hverification] at hstate
      left
      unfold World.checkedRow
      rw [← hsession, show session.world.store.generation = none from hstate]
      rfl
    | verifiedNow =>
      rw [hverification] at hstate
      left
      unfold World.checkedRow
      rw [← hsession, hstate.1]
      rfl
  refine Ends.seq (hbefore.readGaps _ hgaps) ?_
  intro loaded after g
  refine ends_bind.mpr (g.running.assertOwned fun owned => ?_)
  split
  · exact g.running.sound
  · next htodo =>
    have g' : GapsRead start _ target _ before loaded { after with owned := owned } :=
      ⟨g.running.owned owned, ⟨g.follows.store, g.follows.reads, g.follows.moved⟩, g.kept, g.last,
        g.read, g.compared, g.within⟩
    exact g'.saveGaps (g'.settled hsession hstate) htodo hfrom fun gap hgap => mem_gapsToRead hgap

section Refresh

variable {stored : List DailyPrice} {ok : List History → History → ProviderEvent → Prop}
  {session after : Session} {range : DateRange} {loaded : List DailyPrice}

theorem Running.saveTail (h : Running stored ok target after)
    (hfollows : Follows stored session after)
    (hlast : session.world.provider ∈ session.reads) (hsavable : Savable loaded session)
    (hwithin : ∀ row ∈ loaded,
      (⟨earliestPersistedPriceDate, target.toDate⟩ : DateRange).Holds row.date) :
    (PriceBasis.saveTail range loaded).Ends (fun _ s => OneBasis s.world)
      (fun s => OneBasis s.world) after := by
  unfold PriceBasis.saveTail
  refine ends_bind.mpr (Running.getStore ?_)
  refine ends_bind.mpr (h.assertOwned fun owned => ?_)
  refine saveSavable (h.owned owned) ⟨hfollows.store, hfollows.reads, hfollows.moved⟩ hlast
    hsavable ?_ hwithin
  exact applyExDateHold_subset _ loaded

theorem Running.replaceOrSaveTail (h : Running stored ok target after)
    (hfrom : earliestPersistedPriceDate ≤ target.fromDate) (wholeReadRefused : Bool)
    {earliest : DailyPrice} (hearliest : after.world.store.prices.rows.head? = some earliest)
    (hmoved : Moved earliest after.world.provider) :
    (PriceBasis.replaceOrSaveTail target range wholeReadRefused loaded).Ends
      (fun _ s => OneBasis s.world) (fun s => OneBasis s.world) after := by
  unfold PriceBasis.replaceOrSaveTail
  split
  · exact h.sound
  · refine ends_bind.mpr (Running.getStore ?_)
    refine Ends.seq (h.replacePriceHistoryWithinLease hfrom _) ?_
    rintro replacement s ⟨hs, -, hends⟩
    cases replacement with
    | unchanged sessions => exact (replacement_not_unchanged h hearliest hmoved hends).elim
    | refused => exact hs.sound
    | replaced generation prices => exact hs.sound

/-- A tail that was just read is settled. -/
theorem Running.settleTail (h : Running stored ok target session)
    (hlast : session.world.provider ∈ session.reads)
    (hloaded : loaded ⊆ session.world.provider.rows)
    (hfrom : earliestPersistedPriceDate ≤ target.fromDate)
    (hwithin : ∀ row ∈ loaded,
      (⟨earliestPersistedPriceDate, target.toDate⟩ : DateRange).Holds row.date)
    (wholeReadRefused : Bool) :
    (PriceBasis.settleTail target range wholeReadRefused loaded).Ends
      (fun _ s => OneBasis s.world) (fun s => OneBasis s.world) session := by
  unfold PriceBasis.settleTail
  refine ends_bind.mpr (Running.getStore ?_)
  split
  · refine Ends.seq h.earliestStoredRowUnchanged ?_
    rintro unchanged s ⟨hs, hfollows, hdecides⟩
    cases unchanged with
    | true =>
      have hreads := h.readsAsStored_of_follows hfollows (hdecides.mp rfl)
      exact hs.saveTail hfollows hlast
        (.inr ⟨h.stored_subset_of_readsAsStored hreads, hloaded⟩) hwithin
    | false =>
      have hnot : ¬ ReadsAsStored session.world.store s.world.provider := by
        intro hreads
        cases hdecides.mpr hreads
      rw [← hfollows.store] at hnot
      obtain ⟨earliest, hearliest, hmoved⟩ := exists_moved_of_not_readsAsStored hnot
      exact hs.replaceOrSaveTail hfrom wholeReadRefused hearliest hmoved
  · next hsame =>
    refine h.saveTail (Follows.refl session) hlast (.inl ?_) hwithin
    refine subset_of_not_changesStoredRows (fun row hrow existing hexisting hdate => ?_)
      (by simpa using hsame)
    exact h.compared (hloaded hrow) hexisting hdate

/-- **A refresh**, with any events that last. -/
theorem Running.refreshWithinLease (h : Running stored ok target session)
    (hfrom : earliestPersistedPriceDate ≤ target.fromDate) (refreshPrices : Bool) :
    (PriceBasis.refreshWithinLease recentTail target refreshPrices).Ends
      (fun _ s => OneBasis s.world) (fun s => OneBasis s.world) session := by
  unfold PriceBasis.refreshWithinLease
  refine Ends.seq (h.verifyPriceBasisWithinLease hfrom) ?_
  rintro verification s ⟨hs, -⟩
  split
  · exact hs.sound
  · split
    · unfold PriceBasis.refreshPriceWithinLease
      refine ends_bind.mpr (Running.getStore ?_)
      refine ends_bind.mpr (hs.request ?_)
      have hanswer : ∀ row ∈ withinRequestedRange (s.arrive.world.provider.getDailyPrices
          (refreshRange recentTail s.world.store target))
          (refreshRange recentTail s.world.store target),
          row ∈ s.arrive.world.provider.rows
            ∧ (refreshRange recentTail s.world.store target).Holds row.date := by
        intro row hrow
        exact History.mem_getDailyPrices.mp (mem_withinRequestedRange.mp hrow).1
      refine hs.arrive.settleTail List.mem_cons_self (fun row hrow => (hanswer row hrow).1) hfrom
        (fun row hrow => ?_) _
      obtain ⟨-, hlow, hhigh⟩ := hanswer row hrow
      exact ⟨hfrom.trans ((target_le_refreshRange s.world.store).trans hlow), hhigh⟩
    · exact hs.sound

end Refresh

end Cycles

/-! ### Runs -/

/-- What may happen at the provider before each request of a cycle, and between the cycles: every
event leaves the sessions it changes beyond the tolerance of their stored closes, and of every close
the running cycle has read; and no re-base between two reads of rows that a hydration may save goes
unseen. -/
def Undisturbed (recentTail : ℕ) (world : World) : Action → Prop
  | .provider event => Lasts world.store.prices.rows world.provider event
  | .pass _ => True
  | .hydrate fromDate script =>
    RequestsMeet
      (world.HydrationMeets
        (gapsToRead recentTail world.store (world.target fromDate)).length)
      [] world.provider script.coming
  | .refresh _ _ script => RequestsMeet world.RefreshMeets [] world.provider script.coming

/-- A cycle begins. -/
theorem OneBasis.running {world : World} {ok : List History → History → ProviderEvent → Prop}
    {fromDate : ℤ} {script : Script} (h : OneBasis world)
    (hmeets : RequestsMeet ok [] world.provider script.coming)
    (hkeeps : KeepsComparable world.store.prices.rows ok) :
    Running world.store.prices.rows ok (world.target fromDate)
      ⟨world, script.coming, script.owned, []⟩ where
  sound := h
  cutoff := rfl
  known := List.subset_append_left _ _
  reads := fun _ hhistory => absurd hhistory List.not_mem_nil
  meets := hmeets
  keeps := hkeeps

theorem OneBasis.run {recentTail : ℕ} {world : World} {action : Action} (h : OneBasis world)
    (hallows : world.Allows action) (hundisturbed : Undisturbed recentTail world action) :
    OneBasis (world.run recentTail action) := by
  cases action with
  | provider event => exact h.observe hundisturbed
  | pass days =>
    refine ⟨h.commits, h.stored, h.current, h.against, fun row hrow => ?_⟩
    obtain ⟨hlow, hhigh⟩ := h.within row hrow
    exact ⟨hlow, le_trans hhigh (by show world.cutoff ≤ world.cutoff + (days : ℤ); omega)⟩
  | hydrate fromDate script =>
    have hrunning : Running _ _ (world.target fromDate) ⟨world, script.coming, script.owned, []⟩ :=
      h.running hundisturbed keepsComparable_hydration
    have hends : (PriceBasis.hydrateWithinLease recentTail (world.target fromDate)).Ends
        (fun _ s => OneBasis s.world) (fun s => OneBasis s.world)
        ⟨world, script.coming, script.owned, []⟩ :=
      hrunning.hydrateWithinLease rfl rfl hallows.1
    exact hends.stateAfter
  | refresh fromDate refreshPrices script =>
    have hrunning : Running _ _ (world.target fromDate) ⟨world, script.coming, script.owned, []⟩ :=
      h.running hundisturbed fun _ _ _ hlasts => hlasts
    have hends : (PriceBasis.refreshWithinLease recentTail (world.target fromDate)
        refreshPrices).Ends (fun _ s => OneBasis s.world) (fun s => OneBasis s.world)
        ⟨world, script.coming, script.owned, []⟩ :=
      hrunning.refreshWithinLease hallows.1 refreshPrices
    exact hends.stateAfter

/-- **One basis.** In every run whose steps are undisturbed, every committed state of the stored
rows is the provider's rows on their dates at one single instant. -/
theorem onOneBasis_of_undisturbed {recentTail : ℕ} {world : World}
    (h : ((loading recentTail).restrict (Undisturbed recentTail)).Reachable world) :
    ∀ commit ∈ world.commits, commit.OnOneBasis := by
  have hinvariant : StepSystem.Inductive ((loading recentTail).restrict (Undisturbed recentTail))
      OneBasis := by
    refine ⟨fun world hinit => OneBasis.of_initial hinit, fun world action world' hI hstep => ?_⟩
    obtain ⟨hundisturbed, hallows, rfl⟩ := hstep
    exact hI.run hallows hundisturbed
  exact (hinvariant.reachable h).commits

/-! ### A split between two reads of one hydration -/

/-- A session that closed at 100. -/
def sampleRow (date : ℤ) : DailyPrice := ⟨date, 100, 100, 100, 100, 1000, none⟩

/-- A four-for-one split with its ex-date on day 13. -/
def sampleSplit : Rebase where
  exDate := 13
  ratio := 1 / 4
  rescaled row := ⟨row.date, 1 / 4 * row.openPrice, 1 / 4 * row.high, 1 / 4 * row.low,
    1 / 4 * row.close, 4 * row.volume, row.vwap.map (1 / 4 * ·)⟩
  date_rescaled _ := rfl
  close_rescaled _ := rfl

def sampleHistory : History := ⟨[sampleRow 10, sampleRow 11, sampleRow 12], by decide⟩

/-- A history of two sessions that was stored before histories were verified. -/
def sampleWorld : World where
  store := ⟨⟨[sampleRow 11, sampleRow 12], by decide⟩, [⟨11, 12⟩], none, none⟩
  cutoff := 12
  provider := sampleHistory
  instants := [sampleHistory]
  commits := []

theorem sampleWorld_initial : sampleWorld.Initial where
  prices := by decide +kernel
  within := by decide +kernel
  instants := rfl
  commits := rfl

/-- A hydration from day 10 on: the whole-history read, and then the read of the gap. -/
def sampleHydration (between : List ProviderEvent) : Action :=
  .hydrate 10 ⟨[⟨[], true⟩, ⟨between, true⟩], []⟩

/-- A refresh: the tail read, the earliest-row check and the whole-history read. -/
def sampleRefresh : Action := .refresh 10 true ⟨[⟨[], true⟩, ⟨[], true⟩, ⟨[], true⟩], []⟩

theorem sampleWorld_allows (between : List ProviderEvent) :
    sampleWorld.Allows (sampleHydration between) := by
  show earliestPersistedPriceDate ≤ 10 ∧ (10 : ℤ) ≤ 12
  decide

/-- The sample after a hydration, and after a split that comes to no cycle. -/
def sampleHydrated : World := sampleWorld.run 10 (sampleHydration [])

def sampleSplitLater : World := sampleHydrated.run 10 (.provider (.rebase sampleSplit))

instance (commit : Commit) : Decidable commit.OnOneBasis :=
  inferInstanceAs (Decidable (∃ history ∈ commit.instants,
    ∀ row ∈ commit.prices, row ∈ history.rows))

/-- The split falls between two cycles, and the next refresh replaces the history. -/
theorem onOneBasis_sample :
    (sampleSplitLater.run 10 sampleRefresh).commits.length = 2
      ∧ ∀ commit ∈ (sampleSplitLater.run 10 sampleRefresh).commits, commit.OnOneBasis := by
  have hsplit : Undisturbed 10 sampleHydrated (.provider (.rebase sampleSplit)) := by
    show Lasts sampleHydrated.store.prices.rows sampleHydrated.provider (.rebase sampleSplit)
    decide +kernel
  have hrefresh : sampleSplitLater.Allows sampleRefresh := by
    show earliestPersistedPriceDate ≤ 10 ∧ (10 : ℤ) ≤ sampleSplitLater.cutoff
    decide +kernel
  refine ⟨by decide +kernel, onOneBasis_of_undisturbed (.step (a := sampleRefresh)
    (.step (a := .provider (.rebase sampleSplit))
      (.step (a := sampleHydration []) (.start sampleWorld_initial)
        ⟨⟨trivial, trivial, trivial⟩, sampleWorld_allows [], rfl⟩)
      ⟨hsplit, trivial, rfl⟩)
    ⟨⟨trivial, trivial, trivial, trivial⟩, hrefresh, rfl⟩)⟩

/-- The split falls between the whole-history read of a hydration and its gap read. -/
theorem not_onOneBasis :
    ¬ ∀ (recentTail : ℕ) (world : World), (loading recentTail).Reachable world →
      ∀ commit ∈ world.commits, commit.OnOneBasis := by
  intro h
  have hreach : (loading 10).Reachable
      (sampleWorld.run 10 (sampleHydration [.rebase sampleSplit])) :=
    .step (a := sampleHydration [.rebase sampleSplit]) (.start sampleWorld_initial)
      ⟨sampleWorld_allows _, rfl⟩
  have hcommits := h 10 _ hreach
  revert hcommits
  decide +kernel

end FactorSage.PriceBasis
