import FactorSage.PriceBasis.Cycle

/-!
# What a running cycle keeps

`OneBasis` is the invariant of a world: every committed state of the stored rows is the provider's
rows on their dates at one instant, and the rows stored now still compare with the provider's history
(`Against`). `Running` is what a session keeps of it while a cycle runs and the provider changes
before each of its requests, as long as each event meets a condition `ok`. Each command of a cycle
has one rule here (`Running.request`, `Running.assertOwned`, `Running.transaction`), and its failure
leaves `OneBasis`.
-/

namespace FactorSage.PriceBasis

open EStateM

/-- The committed rows are the provider's rows on their dates at one single instant. -/
def Commit.OnOneBasis (commit : Commit) : Prop :=
  ∃ history ∈ commit.instants, commit.prices ⊆ history.rows

/-- The invariant of a world. -/
structure OneBasis (world : World) : Prop where
  commits : ∀ commit ∈ world.commits, commit.OnOneBasis
  stored : ∃ history ∈ world.instants, world.store.prices.rows ⊆ history.rows
  current : world.provider ∈ world.instants
  against : Against world.store.prices.rows world.provider
  within : ∀ row ∈ world.store.prices.rows,
    (⟨earliestPersistedPriceDate, world.cutoff⟩ : DateRange).Holds row.date

namespace OneBasis

variable {world : World}

theorem observe {event : ProviderEvent} (h : OneBasis world)
    (hlasts : Lasts world.store.prices.rows world.provider event) :
    OneBasis (world.observe event) where
  commits := h.commits
  stored := by
    obtain ⟨history, hmem, hsub⟩ := h.stored
    exact ⟨history, List.mem_cons_of_mem _ hmem, hsub⟩
  current := List.mem_cons_self
  against := h.against.apply hlasts
  within := h.within

/-- A write is on one basis when all it leaves stored is among rows that the provider had at one
instant. -/
theorem commit {store : PriceStore} {rows : List DailyPrice} (h : OneBasis world)
    (hsub : store.prices.rows ⊆ rows) (hinstant : ∃ history ∈ world.instants, rows ⊆ history.rows)
    (hagainst : Against rows world.provider)
    (hwithin : ∀ row ∈ store.prices.rows,
      (⟨earliestPersistedPriceDate, world.cutoff⟩ : DateRange).Holds row.date) :
    OneBasis (world.commit store) where
  commits := by
    obtain ⟨history, hmem, hrows⟩ := hinstant
    intro commit hcommit
    rcases List.mem_cons.mp hcommit with rfl | hold
    · exact ⟨history, hmem, List.Subset.trans hsub hrows⟩
    · exact h.commits commit hold
  stored := by
    obtain ⟨history, hmem, hrows⟩ := hinstant
    exact ⟨history, hmem, List.Subset.trans hsub hrows⟩
  current := h.current
  against := hagainst.mono hsub
  within := hwithin

theorem of_initial (h : world.Initial) : OneBasis world where
  commits := by
    rw [h.commits]
    exact fun commit hcommit => absurd hcommit List.not_mem_nil
  stored := ⟨world.provider, by rw [h.instants]; exact List.mem_cons_self, h.prices⟩
  current := by
    rw [h.instants]
    exact List.mem_cons_self
  against := Against.of_subset h.prices
  within := h.within

end OneBasis

/-! ### Conditions on what happens between the requests -/

/-- Each provider event before each request meets a condition, which may look at the provider's
history at each request so far. -/
def RequestsMeet (ok : List History → History → ProviderEvent → Prop) :
    List History → History → List Request → Prop
  | _, _, [] => True
  | reads, history, request :: rest =>
    EventsMeet (ok reads) history request.before
      ∧ RequestsMeet ok (history.after request.before :: reads) (history.after request.before) rest

/-- What is stored, and what the cycle has read. -/
def readRows (stored : List DailyPrice) (reads : List History) : List DailyPrice :=
  stored ++ reads.flatMap History.rows

theorem readRows_mono {stored : List DailyPrice} {reads reads' : List History}
    (h : reads ⊆ reads') : readRows stored reads ⊆ readRows stored reads' := by
  intro row hrow
  unfold readRows at hrow ⊢
  rcases List.mem_append.mp hrow with hstored | hread
  · exact List.mem_append_left _ hstored
  · obtain ⟨history, hmem, hin⟩ := List.mem_flatMap.mp hread
    exact List.mem_append_right _ (List.mem_flatMap.mpr ⟨history, h hmem, hin⟩)

theorem rows_subset_readRows {stored : List DailyPrice} {reads : List History} {history : History}
    (h : history ∈ reads) : history.rows ⊆ readRows stored reads := by
  intro row hrow
  exact List.mem_append_right _ (List.mem_flatMap.mpr ⟨history, h, hrow⟩)

/-- The condition makes every event last for what is stored and what the cycle has read. -/
def KeepsComparable (stored : List DailyPrice)
    (ok : List History → History → ProviderEvent → Prop) : Prop :=
  ∀ reads history event, ok reads history event → Lasts (readRows stored reads) history event

namespace World

@[simp] theorem provider_observeAll (world : World) (events : List ProviderEvent) :
    (world.observeAll events).provider = world.provider.after events := by
  induction events generalizing world with
  | nil => rfl
  | cons event rest ih => exact ih (world.observe event)

@[simp] theorem store_observeAll (world : World) (events : List ProviderEvent) :
    (world.observeAll events).store = world.store := by
  induction events generalizing world with
  | nil => rfl
  | cons event rest ih => exact ih (world.observe event)

@[simp] theorem cutoff_observeAll (world : World) (events : List ProviderEvent) :
    (world.observeAll events).cutoff = world.cutoff := by
  induction events generalizing world with
  | nil => rfl
  | cons event rest ih => exact ih (world.observe event)

theorem instants_observeAll (world : World) (events : List ProviderEvent) :
    world.instants ⊆ (world.observeAll events).instants := by
  induction events generalizing world with
  | nil => exact List.Subset.refl _
  | cons event rest ih =>
    exact List.Subset.trans (List.subset_cons_self _ _) (ih (world.observe event))

end World

theorem OneBasis.observeAll {world : World} {events : List ProviderEvent} (h : OneBasis world)
    (hmeet : EventsMeet (Lasts world.store.prices.rows) world.provider events) :
    OneBasis (world.observeAll events) := by
  induction events generalizing world with
  | nil => exact h
  | cons event rest ih => exact ih (h.observe hmeet.1) hmeet.2

theorem EventsMeet.imp {ok ok' : History → ProviderEvent → Prop} {history : History}
    {events : List ProviderEvent} (h : EventsMeet ok history events)
    (himp : ∀ history event, ok history event → ok' history event) :
    EventsMeet ok' history events := by
  induction events generalizing history with
  | nil => trivial
  | cons event rest ih => exact ⟨himp _ _ h.1, ih h.2⟩

/-! ### A session -/

variable {stored : List DailyPrice} {ok : List History → History → ProviderEvent → Prop}
  {target : DateRange}

/-- What a session keeps while a cycle runs: `stored` are the rows stored when it began. -/
structure Running (stored : List DailyPrice) (ok : List History → History → ProviderEvent → Prop)
    (target : DateRange) (session : Session) : Prop where
  sound : OneBasis session.world
  cutoff : target.toDate = session.world.cutoff
  known : session.world.store.prices.rows ⊆ readRows stored session.reads
  reads : ∀ history ∈ session.reads,
    history ∈ session.world.instants ∧ Against history.rows session.world.provider
  meets : RequestsMeet ok session.reads session.world.provider session.coming
  keeps : KeepsComparable stored ok

/-- A later session of the same cycle that has stored nothing since. -/
structure Follows (stored : List DailyPrice) (session session' : Session) : Prop where
  store : session'.world.store = session.world.store
  reads : session.reads ⊆ session'.reads
  moved : ∀ row ∈ readRows stored session.reads,
    Moved row session.world.provider → Moved row session'.world.provider

namespace Follows

theorem refl (session : Session) : Follows stored session session where
  store := rfl
  reads := List.Subset.refl _
  moved := fun _ _ h => h

theorem trans {s s' s'' : Session} (h : Follows stored s s') (h' : Follows stored s' s'') :
    Follows stored s s'' where
  store := h'.store.trans h.store
  reads := List.Subset.trans h.reads h'.reads
  moved := fun row hrow hmoved => h'.moved row (readRows_mono h.reads hrow) (h.moved row hrow hmoved)

end Follows

namespace Running

variable {session : Session}

/-- The events that come before the next request. -/
theorem nextMeets (h : Running stored ok target session) :
    EventsMeet (ok session.reads) session.world.provider session.next.before := by
  have hmeets := h.meets
  unfold Session.next
  cases hcoming : session.coming with
  | nil => trivial
  | cons request rest =>
    rw [hcoming] at hmeets
    exact hmeets.1

theorem arriveMeets (h : Running stored ok target session) :
    RequestsMeet ok session.arrive.reads session.arrive.world.provider session.arrive.coming := by
  have hmeets := h.meets
  unfold Session.arrive
  rw [World.provider_observeAll]
  unfold Session.next
  cases hcoming : session.coming with
  | nil => trivial
  | cons request rest =>
    rw [hcoming] at hmeets
    exact hmeets.2

@[simp] theorem store_arrive (session : Session) :
    session.arrive.world.store = session.world.store :=
  World.store_observeAll session.world session.next.before

theorem provider_arrive (session : Session) :
    session.arrive.world.provider = session.world.provider.after session.next.before :=
  World.provider_observeAll session.world session.next.before

section

variable (h : Running stored ok target session)

include h

/-- A row that is stored or was read stays comparable until the next request is answered. -/
theorem againstArrive {rows : List DailyPrice}
    (hrows : rows ⊆ readRows stored session.reads) (hagainst : Against rows session.world.provider) :
    Against rows session.arrive.world.provider := by
  rw [provider_arrive]
  refine h.nextMeets.keeps (fun history event hok hI => ?_) hagainst
  exact hI.apply ((h.keeps _ _ _ hok).mono hrows)

/-- The provider comes to the next request. -/
theorem arrive :
    Running stored ok target session.arrive where
  sound := by
    refine h.sound.observeAll (h.nextMeets.imp fun history event hok => ?_)
    exact (h.keeps _ _ _ hok).mono h.known
  cutoff := by
    show target.toDate = (session.world.observeAll session.next.before).cutoff
    rw [World.cutoff_observeAll]
    exact h.cutoff
  known := by
    rw [store_arrive]
    exact List.Subset.trans h.known (readRows_mono (List.subset_cons_self _ _))
  reads := by
    have hsound : OneBasis session.arrive.world := by
      refine h.sound.observeAll (h.nextMeets.imp fun history event hok => ?_)
      exact (h.keeps _ _ _ hok).mono h.known
    intro history hhistory
    rcases List.mem_cons.mp hhistory with rfl | hold
    · exact ⟨hsound.current, Against.of_subset (List.Subset.refl _)⟩
    · obtain ⟨hinstant, hagainst⟩ := h.reads history hold
      exact ⟨World.instants_observeAll _ _ hinstant,
        h.againstArrive (rows_subset_readRows hold) hagainst⟩
  meets := h.arriveMeets
  keeps := h.keeps

theorem follows_arrive :
    Follows stored session session.arrive where
  store := store_arrive session
  reads := List.subset_cons_self _ _
  moved := by
    intro row hrow hmoved
    rw [provider_arrive]
    exact h.nextMeets.keeps (fun history event hok hI => hI.apply hrow (h.keeps _ _ _ hok)) hmoved

/-- Of the rows stored now, the provider has moved away from the earliest or holds them all. -/
theorem stored_subset {earliest : DailyPrice}
    (hearliest : session.world.store.prices.rows.head? = some earliest)
    (hnot : ¬ Moved earliest session.world.provider) :
    session.world.store.prices.rows ⊆ session.world.provider.rows := by
  obtain ⟨rest, hrows⟩ := List.head?_eq_some_iff.mp hearliest
  have hmem : earliest ∈ session.world.store.prices.rows := List.mem_of_mem_head? hearliest
  exact h.sound.against.subset hmem (fun row hrow => PriceTable.head_le hrows hrow) hnot

theorem owned (owned : List Bool) :
    Running stored ok target { session with owned := owned } :=
  ⟨h.sound, h.cutoff, h.known, h.reads, h.meets, h.keeps⟩

/-! ### The rule of each command -/

/-- A request ends in the session it arrives in, answered or not. -/
theorem request {range : DateRange} {Q : List DailyPrice → Session → Prop}
    (hQ : Q (session.arrive.world.provider.getDailyPrices range) session.arrive) :
    (PriceBasis.request range).Ends Q (fun s => OneBasis s.world) session := by
  unfold PriceBasis.request
  simp only [ends_bind, ends_get, ends_set]
  by_cases hanswered : session.next.answered
  · rw [if_pos hanswered]
    exact hQ
  · rw [if_neg hanswered]
    exact h.arrive.sound

theorem assertOwned {Q : Unit → Session → Prop}
    (hQ : ∀ owned, Q () { session with owned := owned }) :
    (PriceBasis.assertOwned).Ends Q (fun s => OneBasis s.world) session := by
  unfold PriceBasis.assertOwned
  simp only [ends_bind, ends_get, ends_set]
  by_cases howned : session.owned.headD true
  · rw [if_pos howned]
    exact hQ _
  · rw [if_neg howned]
    exact h.sound

omit h in
theorem getStore {Q : PriceStore → Session → Prop} (hQ : Q session.world.store session) :
    (PriceBasis.getStore).Ends Q (fun s => OneBasis s.world) session := hQ

theorem transaction {write : PriceStore → Except Failure PriceStore} {Q : Unit → Session → Prop}
    (hQ : ∀ store owned, write session.world.store = .ok store →
      Q () { session with owned := owned, world := session.world.commit store }) :
    (PriceBasis.transaction write).Ends Q (fun s => OneBasis s.world) session := by
  unfold PriceBasis.transaction
  simp only [ends_bind, ends_get]
  cases hwrite : write session.world.store with
  | error failure => exact h.sound
  | ok store =>
    refine ends_bind.mpr (h.assertOwned fun owned => ?_)
    exact hQ store owned hwrite

/-- A save beside the stored rows ends on one basis when all that is stored after it is among rows
that the provider had at one instant. -/
theorem saveDailyPriceSync {input : PriceStore.SaveInput} {rows : List DailyPrice} (hstored : session.world.store.prices.rows ⊆ rows)
    (hprices : input.prices ⊆ rows)
    (hinstant : ∃ history ∈ session.world.instants, rows ⊆ history.rows)
    (hagainst : Against rows session.world.provider)
    (hwithin : ∀ row ∈ input.prices,
      (⟨earliestPersistedPriceDate, session.world.cutoff⟩ : DateRange).Holds row.date) :
    (PriceBasis.saveDailyPriceSync input).Ends (fun _ s => OneBasis s.world)
      (fun s => OneBasis s.world) session := by
  unfold PriceBasis.saveDailyPriceSync
  split
  · exact h.sound
  · refine h.transaction fun store owned hwrite => ?_
    have hmem := PriceStore.mem_saveDailyPriceSync hwrite
    have hsub : store.prices.rows ⊆ rows := by
      intro row hrow
      rcases (hmem row).mp hrow with ⟨hold, -⟩ | hnew
      · exact hstored hold
      · exact hprices hnew
    refine h.sound.commit hsub hinstant hagainst fun row hrow => ?_
    · rcases (hmem row).mp hrow with ⟨hold, -⟩ | hnew
      · exact h.sound.within row hold
      · exact hwithin row hnew

end

end Running

end FactorSage.PriceBasis
