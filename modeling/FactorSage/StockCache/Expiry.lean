import FactorSage.StockCache.Tiers

/-!
# Which keys expire

`Untimed` and `Timed` say that every key of a security, its registry included, is persistent, or
that every one carries a TTL. A security with no generation in flight is untimed in either tier, one
in flight outside the protected tier is timed, and a generation begun under a designation is untimed
until the designation is removed (`expiry_runOf`).

A designation does not persist the keys of a generation already in flight, and a published
generation of the LRU carries no TTL, so the tier alone does not decide (`not_ttlFollowsTier`).
-/

namespace FactorSage.StockCache

variable {Security Symbol Payload : Type} [LinearOrder Security] [DecidableEq Symbol]

/-- The deadline of a key, when the key is there. -/
def Store.expiry (st : Store Security Symbol Payload) : Key Security Symbol → Option (Option ℕ)
  | .manifest s => (st.manifests s).map (·.expiresAt)
  | .payload k => (st.payloads k).map (·.expiresAt)

/-- No key of `s` carries a TTL: not its manifest, not its registry, not a registered key. -/
structure Untimed (st : Store Security Symbol Payload) (s : Security) : Prop where
  manifest : ∀ d ∈ st.expiry (.manifest s), d = none
  registry : ∀ r ∈ st.registries s, r.expiresAt = none
  registered : ∀ key ∈ st.registeredKeys s, ∀ d ∈ st.expiry key, d = none

/-- Every key of `s` carries a TTL, and every registered one is there. -/
structure Timed (st : Store Security Symbol Payload) (s : Security) : Prop where
  manifest : ∃ d, st.expiry (.manifest s) = some (some d)
  registry : ∃ r ∈ st.registries s, r.expiresAt ≠ none
  registered : ∀ key ∈ st.registeredKeys s, ∃ d, st.expiry key = some (some d)

variable {symbolOf : Security → Symbol} {capacity : ℕ} {st : Store Security Symbol Payload}
  {s : Security} {r r' : Residence Security Payload}

section

variable (hr : Represents symbolOf st s r)

include hr

section

omit [DecidableEq Symbol]

/-- The deadline of a key of the security is that of its holding. -/
theorem Represents.expiry_eq {key : Key Security Symbol}
    {d : Option ℕ} (hkey : key ∈ st.registeredKeys s) (hd : d ∈ st.expiry key) :
    d = r.holding.expiresAt := by
  have hnames := (hr.holds.contents.registered key).mp hkey
  cases key with
  | manifest t =>
    obtain ⟨rfl, -⟩ := hnames
    obtain ⟨e, he, rfl⟩ := Option.map_eq_some_iff.mp hd
    exact hr.holds.deadlines.manifest e he
  | payload k =>
    obtain ⟨l, rfl, -⟩ := hnames
    obtain ⟨e, he, rfl⟩ := Option.map_eq_some_iff.mp hd
    exact hr.holds.deadlines.rows l e he

/-- A registered key is there. -/
theorem Represents.expiry_ne_none {key : Key Security Symbol}
    (hkey : key ∈ st.registeredKeys s) : st.expiry key ≠ none := by
  have hnames := (hr.holds.contents.registered key).mp hkey
  cases key with
  | manifest t =>
    obtain ⟨rfl, hm⟩ := hnames
    rw [← hr.manifest?_eq, Store.manifest?, ExpiringMap.value?, Option.isSome_map] at hm
    rw [Store.expiry, Ne, Option.map_eq_none_iff]
    exact Option.isSome_iff_ne_none.mp hm
  | payload k =>
    obtain ⟨l, rfl, hrow⟩ := hnames
    rw [← hr.holds.contents.rows, ExpiringMap.value?, Option.isSome_map] at hrow
    rw [Store.expiry, Ne, Option.map_eq_none_iff]
    exact Option.isSome_iff_ne_none.mp hrow

theorem Represents.untimed (hd : r.holding.expiresAt = none) :
    Untimed st s where
  manifest d h := by
    obtain ⟨e, he, rfl⟩ := Option.map_eq_some_iff.mp h
    rw [hr.holds.deadlines.manifest e he, hd]
  registry e he := by rw [hr.holds.deadlines.registry e he, hd]
  registered key hkey d h := by rw [hr.expiry_eq hkey h, hd]

/-- A generation none of whose keys carries a TTL is persistent. -/
theorem Represents.expiresAt_eq_none (h : Untimed st s)
    (hm : r.holding.manifest ≠ none) : r.holding.expiresAt = none := by
  obtain ⟨m, hm⟩ := Option.ne_none_iff_exists'.mp hm
  refine h.manifest r.holding.expiresAt ?_
  rw [Store.expiry, hr.manifests_eq, hm]
  rfl

theorem Represents.timed (hf : r.holding.IsInFlight)
    (hd : r.holding.expiresAt ≠ none) : Timed st s := by
  obtain ⟨m, hm, -⟩ := hf
  obtain ⟨d, hd⟩ := Option.ne_none_iff_exists'.mp hd
  refine ⟨⟨d, ?_⟩, ?_, fun key hkey => ?_⟩
  · rw [Store.expiry, hr.manifests_eq, Option.mem_def.mp hm, Option.map_some, Option.map_some, hd]
  · obtain ⟨reg, hreg⟩ := Option.ne_none_iff_exists'.mp
      (hr.registry_ne_none (by simp [Option.mem_def.mp hm]))
    refine ⟨reg, hreg, ?_⟩
    rw [hr.holds.deadlines.registry reg hreg, hd]
    exact Option.some_ne_none d
  · obtain ⟨d', hd'⟩ := Option.ne_none_iff_exists'.mp (hr.expiry_ne_none hkey)
    refine ⟨d, ?_⟩
    rw [hd', hr.expiry_eq hkey hd', hd]

theorem Represents.expiresAt_eq_none_iff :
    r.holding.expiresAt = none ↔ Untimed st s := by
  refine ⟨hr.untimed, fun h => ?_⟩
  by_cases hm : r.holding.manifest = none
  · exact r.holding.persistent (by simp [hm])
  · exact hr.expiresAt_eq_none h hm

end

end

/-! ### What a designation keeps -/

/-- Designated, and nothing expires. -/
def Residence.Permanent (r : Residence Security Payload) : Prop :=
  r.designated = true ∧ r.holding.expiresAt = none

section

omit [LinearOrder Security]

theorem Residence.Permanent.of_acts {a : Act Security Payload} (hp : r.Permanent)
    (h : Acts a r r') : r'.Permanent := by
  cases h with
  | began hd hdes => exact ⟨hdes hp.1, hd.mpr (hdes hp.1)⟩
  | refreshed _ hd hdes => exact ⟨hdes hp.1, hd.mpr (hdes hp.1)⟩
  | wrote _ hh' => exact ⟨hp.1, hh'.persistent.mpr hp.2⟩
  | published _ _ hdes => exact ⟨hdes hp.1, rfl⟩

theorem Residence.Permanent.of_quiet {demotes : Prop} (hnot : ¬ demotes) (hp : r.Permanent)
    (h : Quiet demotes r r') : r'.Permanent := by
  cases h with
  | retimed hh' => exact ⟨hp.1, hh'.persistent.mpr hp.2⟩
  | accessed _ hdes =>
    have hboth := hp.1.symm.trans hdes
    cases hboth
  | designated => exact ⟨rfl, hp.2⟩
  | undesignated hdemotes => exact absurd hdemotes hnot
  | dropped => exact ⟨hp.1, rfl⟩
  | elapsed now =>
    refine ⟨hp.1, ?_⟩
    change (r.holding.at now).expiresAt = none
    rw [Holding.at, hp.2]
    exact hp.2

theorem Residence.Permanent.of_evolves {demotes : Prop} {a : Option (Act Security Payload)}
    (hnot : ¬ demotes) (hp : r.Permanent) (h : Evolves demotes a r r') : r'.Permanent := by
  have hquiet : ∀ {r r' : Residence Security Payload},
      Relation.ReflTransGen (Quiet demotes) r r' → r.Permanent → r'.Permanent := by
    intro r r' h hp
    induction h with
    | refl => exact hp
    | tail _ hmove ih => exact ih.of_quiet hnot hmove
  cases h with
  | quiet h => exact hquiet h hp
  | acted ha h => exact hquiet h (hp.of_acts ha)

end

/-- No event of the list removes the designation of `s`. -/
def KeepsDesignation (s : Security) (events : List (Event Security Payload)) : Prop :=
  ∀ c, .command c ∈ events → ¬ Demotes c s

/-- A permanent security stays so until its designation is removed. -/
theorem permanent_runOf (hsymbol : symbolOf.Injective) {events : List (Event Security Payload)}
    (hprotected : s ∈ (runOf symbolOf capacity events : Run _ _ _).store.protectedStocks)
    (huntimed : Untimed (runOf symbolOf capacity events : Run _ _ _).store s)
    (later : List (Event Security Payload)) (hlater : KeepsDesignation s later) :
    s ∈ (runOf symbolOf capacity (events ++ later) : Run _ _ _).store.protectedStocks ∧
      Untimed (runOf symbolOf capacity (events ++ later) : Run _ _ _).store s := by
  induction later using List.reverseRecOn with
  | nil => rw [List.append_nil]; exact ⟨hprotected, huntimed⟩
  | append_singleton later e ih =>
    obtain ⟨hprotected', huntimed'⟩ :=
      ih fun c hc => hlater c (List.mem_append_left _ hc)
    obtain ⟨r, hr⟩ := housed_runOf hsymbol (events ++ later) s
    have hp : r.Permanent :=
      ⟨hr.designated.mp hprotected', hr.expiresAt_eq_none_iff.mpr huntimed'⟩
    rw [← List.append_assoc, runOf_append_singleton]
    cases e with
    | command c =>
      have hnot : ¬ Demotes c s := hlater c (List.mem_append_right _ List.mem_cons_self)
      obtain ⟨r', hr', hevolves⟩ := evolves_execute hsymbol (housed_runOf hsymbol _) hr
      have hp' := hp.of_evolves hnot hevolves
      exact ⟨hr'.designated.mpr hp'.1, hr'.expiresAt_eq_none_iff.mp hp'.2⟩
    | elapse ms =>
      have hmove := @Quiet.elapsed _ _ False r
        ((runOf symbolOf capacity (events ++ later)).store.now + ms)
      have hr' := hr.elapse ms
      have hp' := hp.of_quiet not_false hmove
      exact ⟨hr'.designated.mpr hp'.1, hr'.expiresAt_eq_none_iff.mp hp'.2⟩

/-- A script that begins or refreshes a generation of `s`. -/
def Begins (s : Security) : Command Security Payload → Prop
  | .beginHydration t _ _ _ _ => t = s
  | .beginRefresh t _ _ _ _ => t = s
  | _ => False

/-- A generation begun under a designation carries no TTL. -/
theorem untimed_of_begins (hsymbol : symbolOf.Injective) (hst : Housed symbolOf st)
    {c : Command Security Payload} (hc : Begins s c)
    (hdone : (execute symbolOf capacity st c).2 = .done)
    (hprotected : s ∈ (execute symbolOf capacity st c).1.protectedStocks) :
    Untimed (execute symbolOf capacity st c).1 s := by
  obtain ⟨r, hr⟩ := hst s
  cases c with
  | beginHydration t observed hydrating ttl tier =>
    obtain rfl : t = s := hc
    rcases beginHydration_spec hsymbol hst observed hydrating ttl tier with hrefused | ⟨-, hacts⟩
    · rw [execute, hrefused] at hdone
      cases hdone
    · obtain ⟨r', hr', ha⟩ := hacts.acted r hr
      cases ha with
      | began hd => exact hr'.untimed (hd.mpr (hr'.designated.mp hprotected))
  | beginRefresh t observed hydrating ttl tier =>
    obtain rfl : t = s := hc
    rcases beginRefresh_spec hsymbol hst observed hydrating ttl tier with hrefused | ⟨-, hacts⟩
    · rw [execute, hrefused] at hdone
      cases hdone
    · obtain ⟨r', hr', ha⟩ := hacts.acted r hr
      cases ha with
      | refreshed _ hd => exact hr'.untimed (hd.mpr (hr'.designated.mp hprotected))
  | _ => exact absurd hc id

/-! ### The guarantee -/

/-- What the tiers promise about TTLs after these events: nothing of a security with no generation
in flight expires, everything of one in flight outside the protected tier does, a generation begun
under a designation does not, and a protected security whose keys do not expire keeps them so while
it keeps its designation. -/
structure ExpiryPromise (symbolOf : Security → Symbol) (capacity : ℕ)
    (events : List (Event Security Payload)) : Prop where
  settled : ∀ s, (∀ m, (runOf symbolOf capacity events).store.manifest? s = some m →
      m.status = .ready) → Untimed (runOf symbolOf capacity events).store s
  inFlight : ∀ s m, s ∉ (runOf symbolOf capacity events).store.protectedStocks →
    (runOf symbolOf capacity events).store.manifest? s = some m → m.status = .hydrating →
      Timed (runOf symbolOf capacity events).store s
  begun : ∀ s c, Begins s c →
    (execute symbolOf capacity (runOf symbolOf capacity events).store c).2 = .done →
      s ∈ (execute symbolOf capacity (runOf symbolOf capacity events).store c).1.protectedStocks →
        Untimed (execute symbolOf capacity (runOf symbolOf capacity events).store c).1 s
  kept : ∀ s, s ∈ (runOf symbolOf capacity events).store.protectedStocks →
    Untimed (runOf symbolOf capacity events).store s →
      ∀ later, KeepsDesignation s later →
        s ∈ (runOf symbolOf capacity (events ++ later)).store.protectedStocks ∧
          Untimed (runOf symbolOf capacity (events ++ later)).store s

theorem expiry_runOf (hsymbol : symbolOf.Injective) (events : List (Event Security Payload)) :
    ExpiryPromise symbolOf capacity events where
  settled s h := by
    obtain ⟨r, hr, -⟩ := exists_represents_runOf hsymbol events s
    exact hr.untimed (r.holding.persistent fun m hm => h m (hr.manifest?_eq.trans hm))
  inFlight s m hprotected hm hstatus := by
    obtain ⟨r, hr, hsound⟩ := exists_represents_runOf hsymbol events s
    have hf : r.holding.IsInFlight := ⟨m, hr.manifest?_eq.symm.trans hm, hstatus⟩
    have hdes : r.designated = false :=
      Bool.eq_false_iff.mpr fun hd => hprotected (hr.designated.mpr hd)
    exact hr.timed hf (hsound.inFlight_expires hf hdes)
  begun s c hc hdone hprotected :=
    untimed_of_begins hsymbol (housed_runOf hsymbol events) hc hdone hprotected
  kept s hprotected huntimed later hlater :=
    permanent_runOf hsymbol hprotected huntimed later hlater

/-- The tier alone decides: nothing of a protected security expires, every registered key of another
does. -/
def TtlFollowsTier (st : Store Security Symbol Payload) : Prop :=
  (∀ s ∈ st.protectedStocks, Untimed st s) ∧
    ∀ s, s ∉ st.protectedStocks → ∀ key ∈ st.registeredKeys s, ∃ d, st.expiry key = some (some d)

/-- A security designated while an LRU hydration of it was in flight keeps the TTL of its manifest,
and a published security of the LRU has none. -/
theorem not_ttlFollowsTier :
    ¬ TtlFollowsTier (runOf id 1 [.command (.beginHydration 1 none (sampleHydrating 1 "a") 900 .L),
        .command (.protectStocks [1])] : Run ℕ ℕ ℕ).store ∧
      ¬ TtlFollowsTier (runOf id 1 (sampleHydration 1)).store := by
  constructor
  · rintro ⟨hprotected, -⟩
    have hmanifest := (hprotected 1 (by decide)).manifest (some 900) (by decide)
    cases hmanifest
  · rintro ⟨-, hlru⟩
    obtain ⟨d, hd⟩ := hlru 1 (by decide) (.manifest 1) (by decide)
    have hnone : (runOf id 1 (sampleHydration 1)).store.expiry (.manifest 1) = some none := by
      decide
    rw [hnone] at hd
    cases hd

/-- A security designated before its hydration began holds no TTL through it. -/
theorem expiry_sample : ExpiryPromise id 1
    ([.command (.protectStocks [1]),
      .command (.beginHydration 1 none (sampleHydrating 1 "a") 900 .L)] : List (Event ℕ ℕ)) :=
  expiry_runOf Function.injective_id _

end FactorSage.StockCache
