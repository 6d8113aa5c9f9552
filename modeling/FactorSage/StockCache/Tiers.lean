import FactorSage.StockCache.Recency

/-!
# The two tiers over a run

A `Run` is a store with what its scripts recorded: each security's acts, and the touches of the
LRU. `exists_represents_runOf` is the induction over runs: what every move keeps of a residence and
its acts holds of every security after any events. `tiersSound_runOf` reads the tiers' promises off
it.
-/

namespace FactorSage.StockCache

variable {Security Symbol Payload : Type} [LinearOrder Security] [DecidableEq Symbol]

/-! ### Runs -/

/-- A store, the acts of each security and the touches, oldest first. -/
structure Run (Security Symbol Payload : Type) [LinearOrder Security] where
  store : Store Security Symbol Payload
  acts : Security → List (Act Security Payload)
  touches : List Security

variable (symbolOf : Security → Symbol) (capacity : ℕ)

def Run.start : Run Security Symbol Payload := ⟨.empty, fun _ => [], []⟩

def Run.after (run : Run Security Symbol Payload) :
    Event Security Payload → Run Security Symbol Payload
  | .command c =>
    let out := execute symbolOf capacity run.store c
    ⟨out.1, fun s => run.acts s ++ (actOn s c out.2).toList, run.touches ++ touchedBy run.store c⟩
  | .elapse ms => { run with store := run.store.elapse ms }

/-- The run of these events from the empty store. -/
def runOf (events : List (Event Security Payload)) : Run Security Symbol Payload :=
  events.foldl (Run.after symbolOf capacity) .start

variable {symbolOf capacity} {st : Store Security Symbol Payload} {s : Security}
  {r r' : Residence Security Payload}

theorem runOf_append_singleton (events : List (Event Security Payload))
    (e : Event Security Payload) :
    runOf symbolOf capacity (events ++ [e]) =
      (runOf symbolOf capacity events).after symbolOf capacity e := by
  rw [runOf, List.foldl_append]
  rfl

omit [DecidableEq Symbol] in
theorem represents_empty (symbolOf : Security → Symbol) (s : Security) :
    Represents symbolOf (.empty : Store Security Symbol Payload) s ⟨.empty, false, false⟩ where
  holds := by
    refine ⟨⟨rfl, fun _ => rfl, fun key => ?_⟩, ⟨by simp [Store.empty], by simp [Store.empty],
      by simp [Store.empty]⟩⟩
    cases key <;> simp [Store.registeredKeys, ExpiringMap.value?, Store.empty, Names, Holding.empty]
  resident := by simp [Store.empty]
  designated := by simp [Store.empty]

/-- What every move keeps of a residence and of the acts recorded of it. -/
structure Inductive (P : Residence Security Payload → List (Act Security Payload) → Prop) :
    Prop where
  start : P ⟨.empty, false, false⟩ []
  acts : ∀ {a r r' acts}, r.Sound → Acts a r r' → P r acts → P r' (acts ++ [a])
  quiet : ∀ {demotes : Prop} {r r' acts}, r.Sound → Quiet demotes r r' → P r acts → P r' acts

namespace Inductive

variable {P : Residence Security Payload → List (Act Security Payload) → Prop}
  {acts : List (Act Security Payload)}

omit [LinearOrder Security] in
theorem of_reflTransGen {demotes : Prop} (hP : Inductive P) (hr : r.Sound)
    (h : Relation.ReflTransGen (Quiet demotes) r r')
    (hp : P r acts) : r'.Sound ∧ P r' acts := by
  induction h with
  | refl => exact ⟨hr, hp⟩
  | tail _ hmove ih => exact ⟨ih.1.of_quiet hmove, hP.quiet ih.1 hmove ih.2⟩

omit [LinearOrder Security] in
theorem of_evolves (hP : Inductive P) (hr : r.Sound) {a : Option (Act Security Payload)}
    {demotes : Prop} (h : Evolves demotes a r r') (hp : P r acts) : r'.Sound ∧ P r' (acts ++ a.toList) := by
  cases h with
  | quiet h => exact (List.append_nil acts).symm ▸ hP.of_reflTransGen hr h hp
  | acted ha h => exact hP.of_reflTransGen (hr.of_acts ha) h (hP.acts hr ha hp)

/-- **The induction over runs.** -/
theorem runOf (hP : Inductive P) (hsymbol : symbolOf.Injective)
    (events : List (Event Security Payload)) (s : Security) :
    ∃ r, Represents symbolOf (runOf symbolOf capacity events).store s r ∧ r.Sound ∧
      P r ((StockCache.runOf symbolOf capacity events).acts s) := by
  induction events using List.reverseRecOn generalizing s with
  | nil =>
    exact ⟨_, represents_empty symbolOf s, .empty, hP.start⟩
  | append_singleton events e ih =>
    rw [runOf_append_singleton]
    obtain ⟨r, hr, hsound, hp⟩ := ih s
    cases e with
    | command c =>
      have hhoused : Housed symbolOf (StockCache.runOf symbolOf capacity events).store := fun t =>
        (ih t).imp fun _ h => h.1
      obtain ⟨r', hr', hevolves⟩ := evolves_execute hsymbol hhoused hr
      obtain ⟨hsound', hp'⟩ := hP.of_evolves hsound hevolves hp
      exact ⟨r', hr', hsound', hp'⟩
    | elapse ms =>
      have hmove := @Quiet.elapsed _ _ False r
        ((StockCache.runOf symbolOf capacity events).store.now + ms)
      exact ⟨_, hr.elapse ms, hsound.of_quiet hmove, hP.quiet hsound hmove hp⟩

end Inductive

theorem exists_represents_runOf (hsymbol : symbolOf.Injective)
    (events : List (Event Security Payload)) (s : Security) :
    ∃ r, Represents symbolOf (runOf symbolOf capacity events).store s r ∧ r.Sound := by
  have hP : Inductive fun (_ : Residence Security Payload) (_ : List (Act Security Payload)) =>
      True := ⟨trivial, fun _ _ _ => trivial, fun _ _ _ => trivial⟩
  obtain ⟨r, hr, hsound, -⟩ := @Inductive.runOf _ _ _ _ _ symbolOf capacity _ hP hsymbol events s
  exact ⟨r, hr, hsound⟩

theorem housed_runOf (hsymbol : symbolOf.Injective) (events : List (Event Security Payload)) :
    Housed symbolOf (runOf symbolOf capacity events).store := fun s =>
  (exists_represents_runOf hsymbol events s).imp fun _ h => h.1

/-- After any events the LRU is within its capacity and in the order of the touches so far. -/
theorem lru_runOf (events : List (Event Security Payload)) :
    (runOf symbolOf capacity events : Run Security Symbol Payload).store.residentStocks.card ≤
        capacity ∧
      InTouchOrder (runOf symbolOf capacity events : Run Security Symbol Payload).store
        (runOf symbolOf capacity events : Run Security Symbol Payload).touches := by
  induction events using List.reverseRecOn with
  | nil => exact ⟨Nat.zero_le _, List.nil_sublist _⟩
  | append_singleton events e ih =>
    rw [runOf_append_singleton]
    cases e with
    | command c =>
      have hlru : KeepsLru capacity _ _ (runOf symbolOf capacity events).touches
          (execute symbolOf capacity (runOf symbolOf capacity events).store c) :=
        keepsLru_execute c
      exact ⟨hlru.card_le ih.1, (List.sublist_append_right ..).trans (hlru.order ih.2)⟩
    | elapse ms => exact ih

/-! ### Evictions -/

/-- Every key of `s` is gone. -/
structure Bare (symbolOf : Security → Symbol) (st : Store Security Symbol Payload) (s : Security) :
    Prop where
  manifest : st.manifests s = none
  rows : ∀ k, st.payloads (payloadKey symbolOf s k) = none
  registry : st.registries s = none

omit [DecidableEq Symbol] in
theorem Bare.of_untouched {st st' : Store Security Symbol Payload} (h : Bare symbolOf st s)
    (hu : Untouched symbolOf st st' s) : Bare symbolOf st' s :=
  ⟨hu.manifest.trans h.manifest, fun k => (hu.rows k).trans (h.rows k),
    hu.registry.trans h.registry⟩

/-- Nothing is left of an evicted security. -/
theorem Represents.bare_deleteRegistered (hr : Represents symbolOf st s r) :
    Bare symbolOf (st.deleteRegistered s) s where
  manifest := by
    rw [Store.deleteRegistered_manifests]
    split
    case isTrue => rfl
    case isFalse hkey => exact hr.holds.contents.manifest_eq_none hkey
  rows k := by
    rw [Store.deleteRegistered_payloads]
    split
    case isTrue => rfl
    case isFalse hkey => exact hr.holds.contents.row_eq_none hkey
  registry := if_pos rfl

/-- What is gone stays gone while the LRU gives up its excess. -/
theorem bare_evictBeyond (hsymbol : symbolOf.Injective) (fuel : ℕ) :
    ∀ {st : Store Security Symbol Payload}, Housed symbolOf st → Bare symbolOf st s →
      Bare symbolOf (evictBeyond capacity fuel st).1 s := by
  induction fuel with
  | zero => exact fun _ h => h
  | succ fuel ih =>
    intro st hst h
    rw [evictBeyond]
    split
    · exact h
    split
    · exact h
    next victim _ =>
    split
    case isTrue hprotected =>
      have hleave : Settles symbolOf (fun _ => False) st (st.leaveLru victim) :=
        settles_leaveLru_of_designated hprotected
      exact ih (hleave.housed hst) ⟨h.manifest, h.rows, h.registry⟩
    case isFalse =>
      have hevict : Settles symbolOf (fun _ => False) st _ := settles_evict hsymbol hst victim
      refine ih (hevict.housed hst) ?_
      obtain ⟨r, hr⟩ := hst victim
      have hr' := hr.leaveLru
      by_cases hvictim : s = victim
      · exact hvictim ▸ hr'.bare_deleteRegistered
      · have hleave : Bare symbolOf (st.leaveLru victim) s := ⟨h.manifest, h.rows, h.registry⟩
        exact hleave.of_untouched (.delete hsymbol hr'.holds.contents hvictim)

theorem bare_of_mem_victims (hsymbol : symbolOf.Injective) (fuel : ℕ) :
    ∀ {st : Store Security Symbol Payload}, Housed symbolOf st →
      ∀ victim ∈ (evictBeyond capacity fuel st).2,
        Bare symbolOf (evictBeyond capacity fuel st).1 victim := by
  induction fuel with
  | zero => exact fun _ victim h => absurd h List.not_mem_nil
  | succ fuel ih =>
    intro st hst victim
    rw [evictBeyond]
    split
    · exact fun h => absurd h List.not_mem_nil
    split
    · exact fun h => absurd h List.not_mem_nil
    next first _ =>
    split
    case isTrue hprotected =>
      have hleave : Settles symbolOf (fun _ => False) st (st.leaveLru first) :=
        settles_leaveLru_of_designated hprotected
      exact ih (hleave.housed hst) victim
    case isFalse =>
      have hevict : Settles symbolOf (fun _ => False) st _ := settles_evict hsymbol hst first
      have hhoused := hevict.housed hst
      intro hvictim
      rcases List.mem_cons.mp hvictim with rfl | hvictim
      · obtain ⟨r, hr⟩ := hst victim
        exact bare_evictBeyond hsymbol fuel hhoused hr.leaveLru.bare_deleteRegistered
      · exact ih hhoused victim hvictim

/-- A script that evicts ends in `enforceCapacity`. -/
def EndsInEnforce (symbolOf : Security → Symbol) (capacity : ℕ)
    (out : Outcome Security Symbol Payload) : Prop :=
  out.2.victims = [] ∨ ∃ st, Housed symbolOf st ∧ out.1 = (enforceCapacity capacity st).1 ∧
    out.2.victims = (enforceCapacity capacity st).2

theorem endsInEnforce_admitRouted {st : Store Security Symbol Payload} (hst : Housed symbolOf st)
    (s : Security) : EndsInEnforce symbolOf capacity (admitRouted capacity s st) := by
  rw [admitRouted]
  split
  · exact .inl rfl
  · exact .inr ⟨_, housed_recordAccess hst s, rfl, rfl⟩

theorem endsInEnforce_execute (hsymbol : symbolOf.Injective) (hst : Housed symbolOf st)
    (c : Command Security Payload) :
    EndsInEnforce symbolOf capacity (execute symbolOf capacity st c) := by
  -- most commands evict nothing; those that admit or unprotect end by enforcing the capacity
  have hquiet : ∀ {out : Outcome Security Symbol Payload} {a : Act Security Payload} {t : Security},
      out = (st, .refused) ∨ out.2 = .done ∧ ActsOn symbolOf a t st out.1 →
        EndsInEnforce symbolOf capacity out := by
    rintro out a t (rfl | ⟨h, -⟩)
    · exact .inl rfl
    · exact .inl (by rw [h]; rfl)
  cases c with
  | beginHydration s observed hydrating ttl tier =>
    exact hquiet (beginHydration_spec hsymbol hst observed hydrating ttl tier)
  | beginRefresh s observed hydrating ttl tier =>
    exact hquiet (beginRefresh_spec hsymbol hst observed hydrating ttl tier)
  | setRegistered s k v fence ttl =>
    exact hquiet (setRegistered_spec hsymbol hst k v fence ttl)
  | renewHydration s hydrating ttl =>
    rw [execute, renewHydration]
    split
    · exact .inl rfl
    split
    · exact .inl rfl
    split <;> exact .inl rfl
  | touchReady s =>
    rw [execute, touchReady]
    split
    · exact .inl rfl
    split
    · exact .inl rfl
    split
    · exact .inl rfl
    split
    · exact .inl rfl
    · exact .inr ⟨_, housed_recordAccess hst s, rfl, rfl⟩
  | admitResident s tier =>
    rw [execute, admitResident]
    split
    · exact .inl rfl
    split
    · exact .inl rfl
    · exact endsInEnforce_admitRouted (housed_route hst s tier) s
  | publishReady s ready fence tier =>
    rw [execute, publishReady]
    split
    · exact .inl rfl
    · exact endsInEnforce_admitRouted
        (housed_route (housed_publication hsymbol hst s ready) s tier) s
  | invalidateManifest s observed =>
    rw [execute, invalidateManifest]
    split
    · exact .inl rfl
    split
    · exact .inl rfl
    split <;> exact .inl rfl
  | evictResidentStock s =>
    rw [execute, evictResidentStock]
    split <;> exact .inl rfl
  | protectStocks ids => exact .inl rfl
  | unprotectStocks ids ttl =>
    have hfold : Settles symbolOf (fun _ => True) st _ :=
      settles_unprotectFold hsymbol ids (fun _ _ => trivial) ttl hst
    exact .inr ⟨_, hfold.housed hst, rfl, rfl⟩

/-- Every victim of a script holds nothing after it. -/
theorem bare_of_mem_victims_execute (hsymbol : symbolOf.Injective) (hst : Housed symbolOf st)
    (c : Command Security Payload) :
    ∀ victim ∈ (execute symbolOf capacity st c).2.victims,
      Bare symbolOf (execute symbolOf capacity st c).1 victim := by
  intro victim hv
  have hends : EndsInEnforce symbolOf capacity (execute symbolOf capacity st c) :=
    endsInEnforce_execute hsymbol hst c
  rcases hends with hnil | ⟨st₁, hst₁, hout, hvictims⟩
  · rw [hnil] at hv
    cases hv
  · rw [hout]
    exact bare_of_mem_victims hsymbol _ hst₁ victim (hvictims ▸ hv)

/-! ### The promises of the tiers -/

/-- The keys a generation registered: what was written since it began. -/
def registeredSince (written : List OwnKey) : Act Security Payload → List OwnKey
  | .wrote k _ _ => k :: written
  | .began _ => []
  | .refreshed _ => []
  | .published _ _ => []

/-- The keys the last generation begun has registered. -/
def generationKeys (acts : List (Act Security Payload)) : List OwnKey :=
  acts.foldl registeredSince []

omit [LinearOrder Security] in
theorem generationKeys_append_singleton (acts : List (Act Security Payload))
    (a : Act Security Payload) :
    generationKeys (acts ++ [a]) = registeredSince (generationKeys acts) a := by
  rw [generationKeys, List.foldl_append]
  rfl

/-- A generation in flight holds every row it registered. -/
def HoldsOwnKeys (r : Residence Security Payload) (acts : List (Act Security Payload)) : Prop :=
  r.holding.IsInFlight → ∀ k ∈ generationKeys acts, (r.holding.rows k).isSome

omit [LinearOrder Security] in
theorem inductive_holdsOwnKeys :
    Inductive (HoldsOwnKeys : Residence Security Payload → _ → Prop) where
  start h := absurd h Holding.not_isInFlight_empty
  acts {a r r' acts} hr ha hp := by
    rw [HoldsOwnKeys, generationKeys_append_singleton]
    cases ha with
    | began => exact fun _ k hk => absurd hk List.not_mem_nil
    | refreshed => exact fun _ k hk => absurd hk List.not_mem_nil
    | published => exact fun _ k hk => absurd hk List.not_mem_nil
    | @wrote _ k v fence h' hfence hh' =>
      intro hf l hl
      change (h'.rows l).isSome
      rw [hh'.rows]
      rcases List.mem_cons.mp hl with rfl | hl
      · simp [Holding.setRow]
      · have hrow := hp ((hh'.isInFlight_iff).mp hf) l hl
        change (Function.update r.holding.rows k (some v) l).isSome
        by_cases hlk : l = k
        · simp [hlk]
        · rwa [Function.update_of_ne hlk]
  -- without an act rows only go with the whole holding
  quiet {_ r r' acts} hr hq hp := by
    intro hf k hk
    cases hq with
    | retimed hh' =>
      rw [hh'.rows]
      exact hp ((hh'.isInFlight_iff).mp hf) k hk
    | accessed => exact hp hf k hk
    | designated => exact hp hf k hk
    | @undesignated h' _ _ _ hmanifest hrows =>
      have hf' : r.holding.IsInFlight := by
        rw [Holding.IsInFlight, ← hmanifest]
        exact hf
      change (h'.rows k).isSome
      rw [hrows]
      exact hp hf' k hk
    | dropped => exact absurd hf Holding.not_isInFlight_empty
    | elapsed now =>
      revert hf
      change (r.holding.at now).IsInFlight → ((r.holding.at now).rows k).isSome
      rw [Holding.at]
      split
      · exact fun hf => hp hf k hk
      · exact fun hf => absurd hf Holding.not_isInFlight_empty

/-- The keys of the store. -/
def Store.has (st : Store Security Symbol Payload) : Key Security Symbol → Bool
  | .manifest s => (st.manifests s).isSome
  | .payload k => (st.payloads k).isSome

/-- The two tiers are sound: disjoint, the LRU all ready, every ready security in one of them, and
the LRU within its capacity. -/
structure TiersSound (capacity : ℕ) (st : Store Security Symbol Payload) : Prop where
  disjoint : ∀ s ∈ st.residentStocks.members, s ∉ st.protectedStocks
  resident_ready : ∀ s ∈ st.residentStocks.members,
    ∃ m, st.manifest? s = some m ∧ m.status = .ready
  ready_counted : ∀ s m, st.manifest? s = some m → m.status = .ready →
    s ∈ st.residentStocks.members ∨ s ∈ st.protectedStocks
  within_capacity : st.residentStocks.card ≤ capacity

/-- The last touch of `a` was before a touch of `b`. -/
def LastTouchedBefore (touches : List Security) (a b : Security) : Prop :=
  ∃ earlier later, touches = earlier ++ later ∧ a ∈ earlier ∧ a ∉ later ∧ b ∈ later

/-- The victims of a script are the least recently touched members, and every key registered for
them is gone. -/
structure EvictsOldest (symbolOf : Security → Symbol) (capacity : ℕ)
    (run : Run Security Symbol Payload) (c : Command Security Payload) : Prop where
  member : ∀ victim ∈ (execute symbolOf capacity run.store c).2.victims,
    victim ∈ run.store.residentStocks.members ∨ victim ∈ touchedBy run.store c
  oldest : ∀ victim ∈ (execute symbolOf capacity run.store c).2.victims,
    ∀ s ∈ (execute symbolOf capacity run.store c).1.residentStocks.members,
      LastTouchedBefore (run.touches ++ touchedBy run.store c) victim s
  gone : ∀ victim ∈ (execute symbolOf capacity run.store c).2.victims,
    ∀ key ∈ run.store.registeredKeys victim,
      (execute symbolOf capacity run.store c).1.has key = false

/-- A publication that succeeds finds every key its generation registered. -/
def PublishesWhole (symbolOf : Security → Symbol) (capacity : ℕ)
    (run : Run Security Symbol Payload) : Prop :=
  ∀ s ready fence tier victims,
    (execute symbolOf capacity run.store (.publishReady s ready (some fence) tier)).2 =
        .admitted victims →
      ∀ k ∈ generationKeys (run.acts s),
        run.store.has (.payload (payloadKey symbolOf s k)) = true

theorem tiersSound_runOf (hsymbol : symbolOf.Injective) (events : List (Event Security Payload)) :
    TiersSound capacity (runOf symbolOf capacity events).store where
  disjoint s hs hprotected := by
    obtain ⟨r, hr, hsound⟩ := exists_represents_runOf hsymbol events s
    have hdes := hsound.disjoint (hr.resident.mp hs)
    rw [hr.designated.mp hprotected] at hdes
    cases hdes
  resident_ready s hs := by
    obtain ⟨r, hr, hsound⟩ := exists_represents_runOf hsymbol events s
    obtain ⟨m, hm, hready⟩ := hsound.resident_ready (hr.resident.mp hs)
    exact ⟨m, hr.manifest?_eq.trans hm, hready⟩
  ready_counted s m hm hready := by
    obtain ⟨r, hr, hsound⟩ := exists_represents_runOf hsymbol events s
    rcases hsound.ready_counted ⟨m, hr.manifest?_eq.symm.trans hm, hready⟩ with h | h
    · exact .inl (hr.resident.mpr h)
    · exact .inr (hr.designated.mpr h)
  within_capacity := (lru_runOf events).1

theorem evictsOldest_runOf (hsymbol : symbolOf.Injective) (events : List (Event Security Payload))
    (c : Command Security Payload) :
    EvictsOldest symbolOf capacity (runOf symbolOf capacity events) c := by
  have hlru : KeepsLru capacity _ _ (runOf symbolOf capacity events).touches
      (execute symbolOf capacity (runOf symbolOf capacity events).store c) :=
    keepsLru_execute c
  have horder := hlru.order (lru_runOf events).2
  refine ⟨fun victim hv => ?_, fun victim hv s hs => ?_, fun victim hv key hkey => ?_⟩
  · -- the same order, with the members themselves for a log
    have hself : InTouchOrder (runOf symbolOf capacity events).store
        (runOf symbolOf capacity events).store.residentStocks.members := by
      rw [InTouchOrder, (ScoredSet.members_nodup _).dedup]
    have hmem := ((keepsLru_execute c : KeepsLru capacity _ _ _
      (execute symbolOf capacity (runOf symbolOf capacity events).store c)).order hself).subset
        (List.mem_append_left _ hv)
    exact List.mem_append.mp (List.mem_dedup.mp hmem)
  · have hpair : [victim, s].Sublist ((execute symbolOf capacity
        (runOf symbolOf capacity events).store c).2.victims ++ (execute symbolOf capacity
        (runOf symbolOf capacity events).store c).1.residentStocks.members) :=
      (List.singleton_sublist.mpr hv).append (List.singleton_sublist.mpr hs)
    exact exists_split_of_sublist_dedup (hpair.trans horder)
  · have hhoused : Housed symbolOf (runOf symbolOf capacity events).store :=
      housed_runOf hsymbol events
    have hbare := bare_of_mem_victims_execute hsymbol hhoused c victim hv
    obtain ⟨r, hr⟩ := hhoused victim
    have hnames := (hr.holds.contents.registered key).mp hkey
    cases key with
    | manifest t => rw [hnames.1, Store.has, hbare.manifest]; rfl
    | payload k =>
      obtain ⟨l, rfl, -⟩ := hnames
      rw [Store.has, hbare.rows]; rfl

theorem publishesWhole_runOf (hsymbol : symbolOf.Injective)
    (events : List (Event Security Payload)) :
    PublishesWhole symbolOf capacity (runOf symbolOf capacity events) := by
  intro s ready fence tier victims hreply k hk
  obtain ⟨r, hr, -, hown⟩ : ∃ r, Represents symbolOf (runOf symbolOf capacity events).store s r ∧ _ ∧
      _ := inductive_holdsOwnKeys.runOf hsymbol events s
  have hm : (runOf symbolOf capacity events).store.manifest? s = some fence.1 := by
    by_contra hne
    rw [execute, publishReady, Option.map_some, if_pos hne] at hreply
    cases hreply
  have hf : r.holding.IsInFlight := ⟨_, hr.manifest?_eq.symm.trans hm, fence.2⟩
  have hrow := hown hf k hk
  rw [← hr.holds.contents.rows, ExpiringMap.value?, Option.isSome_map] at hrow
  exact hrow

/-- **The cache keeps its two tiers sound.** After any scripts and any expirations: one tier at most
counts a security, the LRU holds only ready securities and at most its capacity, and every ready
security is counted. Whatever script comes next evicts the least recently touched members, with
every key registered for them, and publishes a generation only with every key it registered. -/
theorem residency_runOf (hsymbol : symbolOf.Injective) (events : List (Event Security Payload)) :
    TiersSound capacity (runOf symbolOf capacity events).store ∧
      (∀ c, EvictsOldest symbolOf capacity (runOf symbolOf capacity events) c) ∧
      PublishesWhole symbolOf capacity (runOf symbolOf capacity events) :=
  ⟨tiersSound_runOf hsymbol events, evictsOldest_runOf hsymbol events,
    publishesWhole_runOf hsymbol events⟩

/-! ### A sample -/

/-- A manifest of security `s`, told apart by its hydration id. -/
def sampleManifest (s : ℕ) (status : ManifestStatus) (id : String) : StockManifest ℕ where
  securityId := s
  status := status
  productHistoryYears := 30
  priceRetentionYears := 31
  coverageStart := none
  coverageEnd := none
  canonicalHistoryStart := none
  canonicalHistoryEnd := none
  hydratedAt := none
  lastPriceRefreshAt := none
  lastFundamentalsRefreshAt := none
  hydrationId := some id
  hydratingAt := none
  priceDatasetVersion := 1
  financialStatementVersion := 2
  derivedStateRevision := 1
  dailyStateEncodingVersion := 2

def sampleHydrating (s : ℕ) (id : String) : HydratingManifest ℕ :=
  ⟨sampleManifest s .hydrating id, rfl⟩

def sampleReady (s : ℕ) (id : String) : ReadyManifest ℕ := ⟨sampleManifest s .ready id, rfl⟩

/-- One security hydrated with one price chunk and published into the LRU. -/
def sampleHydration (s : ℕ) : List (Event ℕ ℕ) :=
  [.command (.beginHydration s none (sampleHydrating s "a") 900 .L),
    .command (.setRegistered s (.prices 2020) 7 (some (sampleHydrating s "a")) 900),
    .command (.publishReady s (sampleReady s "a") (some (sampleHydrating s "a")) .L)]

/-- With one place in the LRU, the second publication evicts the first security. -/
theorem residency_sample :
    TiersSound 1 (runOf id 1 (sampleHydration 1 ++ sampleHydration 2)).store ∧
      (runOf id 1 (sampleHydration 1 ++ sampleHydration 2)).store.residentStocks.members = [2] :=
  ⟨(residency_runOf Function.injective_id (sampleHydration 1 ++ sampleHydration 2)).1, by decide⟩

end FactorSage.StockCache
