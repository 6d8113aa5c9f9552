import FactorSage.StockCache.Residence

/-!
# The scripts move residences

`Represents` connects the two layers: the store's keys and tiers of a security are those of its
residence. Every event moves every security by `Acts` or `Quiet` moves (`evolves_after`): a script
that acts on one security leaves the others where they were, except for those the LRU evicts, and a
refused script moves nothing.
-/

namespace FactorSage.StockCache

variable {Security Symbol Payload : Type} [LinearOrder Security] [DecidableEq Symbol]

/-- The store's keys and tiers of `s` are those of the residence. -/
structure Represents (symbolOf : Security → Symbol) (st : Store Security Symbol Payload)
    (s : Security) (r : Residence Security Payload) : Prop where
  holds : Holds symbolOf st s r.holding
  resident : s ∈ st.residentStocks.members ↔ r.resident = true
  designated : s ∈ st.protectedStocks ↔ r.designated = true

variable {symbolOf : Security → Symbol} {st st' st'' : Store Security Symbol Payload}
  {s t : Security} {r : Residence Security Payload} {capacity : ℕ}

section

omit [DecidableEq Symbol]

theorem Represents.of_untouched (hr : Represents symbolOf st s r)
    (hu : Untouched symbolOf st st' s) : Represents symbolOf st' s r where
  holds := ⟨hr.holds.contents.of_sameKeys hu.sameKeys, hr.holds.deadlines.of_sameKeys hu.sameKeys⟩
  resident := hu.resident.trans hr.resident
  designated := hu.designated.trans hr.designated

theorem Represents.manifest?_eq (hr : Represents symbolOf st s r) :
    st.manifest? s = r.holding.manifest :=
  hr.holds.contents.manifest

/-- The deadline of a manifest is that of the holding. -/
theorem Represents.manifests_eq (hr : Represents symbolOf st s r) :
    st.manifests s = r.holding.manifest.map (⟨·, r.holding.expiresAt⟩) := by
  rw [← hr.manifest?_eq, Store.manifest?, ExpiringMap.value?]
  cases hm : st.manifests s with
  | none => rfl
  | some e => simp [← hr.holds.deadlines.manifest e hm]

/-- Out of the LRU, under the same keys. -/
theorem Represents.leaveLru (hr : Represents symbolOf st s r) :
    Represents symbolOf (st.leaveLru s) s ⟨r.holding, false, r.designated⟩ where
  holds := ⟨hr.holds.contents.of_sameKeys ⟨rfl, fun _ => rfl, rfl⟩,
    hr.holds.deadlines.of_sameKeys ⟨rfl, fun _ => rfl, rfl⟩⟩
  resident := by simp [Store.leaveLru]
  designated := hr.designated

/-- A registry exists where a manifest does. -/
theorem Represents.registry_ne_none (hr : Represents symbolOf st s r)
    (hm : r.holding.manifest ≠ none) : st.registries s ≠ none := by
  intro hnone
  have hkey : .manifest s ∈ st.registeredKeys s :=
    (hr.holds.contents.registered _).mpr ⟨rfl, Option.ne_none_iff_isSome.mp hm⟩
  simp [Store.registeredKeys, ExpiringMap.value?, hnone] at hkey

end

variable {D : Security → Prop}

/-- Every security has a residence. -/
def Housed (symbolOf : Security → Symbol) (st : Store Security Symbol Payload) : Prop :=
  ∀ s, ∃ r, Represents symbolOf st s r

/-- Quiet moves only, of any security; `D` are those that may lose their designation. -/
def Settles (symbolOf : Security → Symbol) (D : Security → Prop)
    (st st' : Store Security Symbol Payload) : Prop :=
  ∀ s r, Represents symbolOf st s r →
    ∃ r', Represents symbolOf st' s r' ∧ Relation.ReflTransGen (Quiet (D s)) r r'

namespace Settles

omit [DecidableEq Symbol]

theorem refl (st : Store Security Symbol Payload) : Settles symbolOf D st st :=
  fun _ r hr => ⟨r, hr, .refl⟩

theorem trans (h : Settles symbolOf D st st') (h' : Settles symbolOf D st' st'') :
    Settles symbolOf D st st'' := by
  intro s r hr
  obtain ⟨r', hr', hmoves⟩ := h s r hr
  obtain ⟨r'', hr'', hmoves'⟩ := h' s r' hr'
  exact ⟨r'', hr'', hmoves.trans hmoves'⟩

/-- One security moves, the others are untouched. -/
theorem of_quiet (hs : ∀ r, Represents symbolOf st s r →
      ∃ r', Represents symbolOf st' s r' ∧ Quiet (D s) r r')
    (hothers : ∀ t, t ≠ s → Untouched symbolOf st st' t) : Settles symbolOf D st st' := by
  intro t r hr
  by_cases hts : t = s
  · subst hts
    obtain ⟨r', hr', hmove⟩ := hs r hr
    exact ⟨r', hr', .single hmove⟩
  · exact ⟨r, hr.of_untouched (hothers t hts), .refl⟩

theorem housed (h : Settles symbolOf D st st') (hst : Housed symbolOf st) : Housed symbolOf st' := by
  intro s
  obtain ⟨r, hr⟩ := hst s
  obtain ⟨r', hr', -⟩ := h s r hr
  exact ⟨r', hr'⟩

end Settles

/-! ### Quiet scripts -/

theorem settles_evict (hsymbol : symbolOf.Injective) (hst : Housed symbolOf st) (s : Security) :
    Settles symbolOf D st ((st.leaveLru s).deleteRegistered s) := by
  obtain ⟨r₀, hr₀⟩ := hst s
  have hc : Contains symbolOf (st.leaveLru s) s r₀.holding.manifest r₀.holding.rows :=
    hr₀.holds.contents.of_sameKeys ⟨rfl, fun _ => rfl, rfl⟩
  refine .of_quiet (s := s) (fun r hr => ⟨_, ⟨⟨hc.delete, .delete hc _⟩, ?_, ?_⟩, .dropped⟩) ?_
  · simp [Store.deleteRegistered, Store.leaveLru]
  · exact hr.designated
  · exact fun t hne => (Untouched.leaveLru hne).trans (.delete hsymbol hc hne)

omit [DecidableEq Symbol] in
theorem settles_leaveLru_of_designated (h : s ∈ st.protectedStocks) :
    Settles symbolOf D st (st.leaveLru s) := by
  refine .of_quiet (s := s) (fun r hr => ⟨_, ⟨⟨?_, ?_⟩, ?_, ?_⟩, .designated⟩) ?_
  · exact hr.holds.contents.of_sameKeys ⟨rfl, fun _ => rfl, rfl⟩
  · exact hr.holds.deadlines.of_sameKeys ⟨rfl, fun _ => rfl, rfl⟩
  · simp [Store.leaveLru]
  · simpa [Store.leaveLru] using h
  · exact fun t hne => .leaveLru hne

theorem settles_evictBeyond (hsymbol : symbolOf.Injective) (fuel : ℕ) :
    ∀ {st : Store Security Symbol Payload}, Housed symbolOf st →
      Settles symbolOf D st (evictBeyond capacity fuel st).1 := by
  induction fuel with
  | zero => exact fun _ => .refl _
  | succ fuel ih =>
    intro st hst
    rw [evictBeyond]
    split
    · exact .refl st
    split
    · exact .refl st
    next victim _ =>
      split
      case isTrue hprotected =>
        have hleave : Settles symbolOf D st (st.leaveLru victim) :=
          settles_leaveLru_of_designated hprotected
        exact hleave.trans (ih (hleave.housed hst))
      case isFalse =>
        have hevict : Settles symbolOf D st _ := settles_evict hsymbol hst victim
        exact hevict.trans (ih (hevict.housed hst))

theorem settles_enforceCapacity (hsymbol : symbolOf.Injective) (hst : Housed symbolOf st) :
    Settles symbolOf D st (enforceCapacity capacity st).1 :=
  settles_evictBeyond hsymbol _ hst

section

omit [DecidableEq Symbol]

theorem settles_protectStock (s : Security) : Settles symbolOf D st (protectStock s st) := by
  refine .of_quiet (s := s) (fun r hr => ⟨_, ⟨⟨?_, ?_⟩, ?_, ?_⟩, .designated⟩) ?_
  · exact hr.holds.contents.of_sameKeys ⟨rfl, fun _ => rfl, rfl⟩
  · exact hr.holds.deadlines.of_sameKeys ⟨rfl, fun _ => rfl, rfl⟩
  · simp [protectStock, Store.leaveLru]
  · simp [protectStock, Store.leaveLru, Store.designate]
  · exact fun t hne => (Untouched.designate hne).trans (.leaveLru hne)

theorem settles_protectStocks (ids : List Security) :
    ∀ st : Store Security Symbol Payload, Settles symbolOf D st (protectStocks st ids).1 := by
  induction ids with
  | nil => exact fun st => .refl st
  | cons id ids ih => exact fun st => (settles_protectStock id).trans (ih _)

/-- A security that lost its designation keeps its holding until it is demoted. -/
theorem represents_undesignate (hr : Represents symbolOf st s r) :
    Represents symbolOf (st.undesignate s) s ⟨r.holding, r.resident, false⟩ where
  holds := ⟨hr.holds.contents.of_sameKeys ⟨rfl, fun _ => rfl, rfl⟩,
    hr.holds.deadlines.of_sameKeys ⟨rfl, fun _ => rfl, rfl⟩⟩
  resident := hr.resident
  designated := by simp [Store.undesignate]

end

/-- A ready security joins the LRU; one in flight under no lifetime is given one, and one that had a
lifetime keeps it. -/
theorem represents_demote (hr : Represents symbolOf st s r) (hdes : r.designated = false)
    (ttl : ℕ) :
    ∃ h' resident, Represents symbolOf (demote s st ttl) s ⟨h', resident, false⟩ ∧
      h'.manifest = r.holding.manifest ∧ h'.rows = r.holding.rows ∧
      (h'.IsInFlight → h'.expiresAt ≠ none) ∧
      (resident = true ↔ r.holding.IsReady ∨ r.resident = true) := by
  have hm := hr.manifests_eq
  have hdesignated : s ∈ st.protectedStocks ↔ (false : Bool) = true := hdes ▸ hr.designated
  rw [demote]
  -- ready: counted without a deadline; in flight: given one unless it has it; absent: as it was
  cases hmanifest : r.holding.manifest with
  | none =>
    rw [hm, hmanifest]
    have hnot : ¬ r.holding.IsReady := by rintro ⟨m, h, -⟩; rw [hmanifest] at h; cases h
    refine ⟨r.holding, r.resident, ⟨hr.holds, hr.resident, hdesignated⟩, hmanifest, rfl, ?_, ?_⟩
    · rintro ⟨m, h, -⟩
      rw [hmanifest] at h
      cases h
    · simp [hnot]
  | some m =>
    rw [hm, hmanifest]
    change ∃ h' resident, Represents symbolOf (if m.status = .ready then _ else _) s _ ∧ _
    split
    case isTrue hready =>
      have hisReady : r.holding.IsReady := ⟨m, hmanifest, hready⟩
      refine ⟨r.holding, true, ⟨?_, ?_, hdesignated⟩, hmanifest, rfl, ?_, by simp [hisReady]⟩
      · exact ⟨hr.holds.contents.of_sameKeys ⟨rfl, fun _ => rfl, rfl⟩,
          hr.holds.deadlines.of_sameKeys ⟨rfl, fun _ => rfl, rfl⟩⟩
      · simp [Store.recordAccess]
      · exact fun hf => absurd hisReady (Holding.not_isReady_of_isInFlight hf)
    case isFalse hnot =>
      have hf : r.holding.IsInFlight := Holding.isInFlight_of_mem hmanifest hnot
      have hnotReady := Holding.not_isReady_of_isInFlight hf
      split
      case isTrue =>
        refine ⟨r.holding.retime hf (some (st.now + ttl)), r.resident,
          ⟨⟨?_, ?_⟩, hr.resident, hdesignated⟩, hmanifest, rfl, ?_, by simp [hnotReady]⟩
        · exact (hr.holds.contents.retime s _).expireManifest _
        · exact (Uniform.retime hr.holds.contents _).expireManifest
        · exact fun _ h => Option.some_ne_none _ h
      case isFalse hd =>
        exact ⟨r.holding, r.resident, ⟨hr.holds, hr.resident, hdesignated⟩, hmanifest, rfl,
          fun _ => hd, by simp [hnotReady]⟩

theorem untouched_demote (hsymbol : symbolOf.Injective) (hr : Represents symbolOf st s r)
    (ttl : ℕ) (hne : t ≠ s) : Untouched symbolOf st (demote s st ttl) t := by
  rw [demote]
  split
  · exact .refl st t
  split
  · exact .recordAccess hne
  split
  · exact (Untouched.retime hsymbol hr.holds.contents _ hne).trans (.expireManifest _ hne)
  · exact .refl st t

theorem settles_unprotectStock (hsymbol : symbolOf.Injective) (hst : Housed symbolOf st)
    (s : Security) (hs : D s) (ttl : ℕ) : Settles symbolOf D st (unprotectStock s st ttl) := by
  rw [unprotectStock]
  split
  case isTrue hprotected =>
    refine .of_quiet (s := s) (fun r hr => ?_) fun t hne => ?_
    · obtain ⟨h', resident, hr', hmanifest, hrows, hexpires, hready⟩ :=
        represents_demote (represents_undesignate hr) rfl ttl
      exact ⟨_, hr', .undesignated hs (hr.designated.mp hprotected) hmanifest hrows hexpires hready⟩
    · obtain ⟨r, hr⟩ := hst s
      exact (Untouched.undesignate hne).trans
        (untouched_demote hsymbol (represents_undesignate hr) ttl hne)
  case isFalse => exact .refl st

theorem settles_unprotectFold (hsymbol : symbolOf.Injective) (ids : List Security)
    (hids : ∀ id ∈ ids, D id) (ttl : ℕ) :
    ∀ {st : Store Security Symbol Payload}, Housed symbolOf st →
      Settles symbolOf D st (ids.foldl (fun st id => unprotectStock id st ttl) st) := by
  induction ids with
  | nil => exact fun {st} _ => .refl st
  | cons id ids ih =>
    intro st hst
    have hhead : Settles symbolOf D st (unprotectStock id st ttl) :=
      settles_unprotectStock hsymbol hst id (hids id List.mem_cons_self) ttl
    exact hhead.trans (ih (fun id h => hids id (List.mem_cons_of_mem _ h)) (hhead.housed hst))

theorem settles_unprotectStocks (hsymbol : symbolOf.Injective) (hst : Housed symbolOf st)
    (ids : List Security) (hids : ∀ id ∈ ids, D id) (ttl : ℕ) :
    Settles symbolOf D st (unprotectStocks capacity st ids ttl).1 := by
  have hfold : Settles symbolOf D st _ := settles_unprotectFold hsymbol ids hids ttl hst
  exact hfold.trans (settles_enforceCapacity hsymbol (hfold.housed hst))

theorem settles_invalidateManifest (hsymbol : symbolOf.Injective) (hst : Housed symbolOf st)
    (s : Security) (observed : StockManifest Security) :
    Settles symbolOf D st (invalidateManifest s st observed).1 := by
  rw [invalidateManifest]
  split
  · exact .refl st
  split
  · exact .refl st
  split
  · exact .refl st
  -- the manifest is registered, so deleting it again finds nothing
  refine .of_quiet (s := s)
    (fun r hr => ⟨⟨.empty, false, r.designated⟩, ⟨⟨?_, ?_⟩, ?_, hr.designated⟩, .dropped⟩) ?_
  · have hdelete := hr.holds.contents.delete
    exact ⟨by simp [Store.manifest?, ExpiringMap.value?, Store.leaveLru,
      Store.deleteManifest, ExpiringMap.deleteAll, Holding.empty], hdelete.rows, hdelete.registered⟩
  · have hdelete : Uniform symbolOf (st.deleteRegistered s) s none := .delete hr.holds.contents none
    exact ⟨by simp [Store.leaveLru, Store.deleteManifest, ExpiringMap.deleteAll], hdelete.rows, hdelete.registry⟩
  · simp [Store.leaveLru, Store.deleteManifest]
  · intro t hne
    obtain ⟨r, hr⟩ := hst s
    have hdelete := Untouched.delete hsymbol hr.holds.contents hne
    exact ⟨by simpa [Store.leaveLru, Store.deleteManifest, ExpiringMap.deleteAll, hne] using hdelete.manifest,
      hdelete.rows, hdelete.registry,
      by simp [Store.leaveLru, Store.deleteManifest, Store.deleteRegistered, hne], Iff.rfl⟩

theorem settles_evictResidentStock (hsymbol : symbolOf.Injective) (hst : Housed symbolOf st)
    (s : Security) : Settles symbolOf D st (evictResidentStock s st).1 := by
  rw [evictResidentStock]
  split
  · exact .refl st
  · exact settles_evict hsymbol hst s

theorem settles_renewHydration (hsymbol : symbolOf.Injective) (hst : Housed symbolOf st)
    (s : Security) (hydrating : HydratingManifest Security) (full : ℕ) :
    Settles symbolOf D st (renewHydration s st hydrating full).1 := by
  rw [renewHydration]
  split
  · exact .refl st
  next hm =>
    split
    · exact .refl st
    next hremaining =>
      split
      · exact .refl st
      refine .of_quiet (s := s) (fun r hr => ?_) fun t hne => ?_
      · have hmanifest : r.holding.manifest = some hydrating.1 :=
          hr.manifest?_eq.symm.trans (not_not.mp hm)
        have hf : r.holding.IsInFlight := ⟨_, hmanifest, hydrating.2⟩
        have hd : r.holding.expiresAt ≠ none := by
          intro hnone
          rw [remainingLifetime, hr.manifests_eq, hmanifest, hnone] at hremaining
          cases hremaining
        refine ⟨⟨r.holding.retime hf (some (st.now + full)), r.resident, r.designated⟩,
          ⟨⟨hr.holds.contents.retime s _, .retime hr.holds.contents _⟩, hr.resident,
            hr.designated⟩, .retimed ⟨rfl, rfl, ?_⟩⟩
        exact iff_of_false (Option.some_ne_none _) hd
      · obtain ⟨r, hr⟩ := hst s
        exact .retime hsymbol hr.holds.contents _ hne

omit [DecidableEq Symbol] in
theorem Represents.elapse (hr : Represents symbolOf st s r) (ms : ℕ) :
    Represents symbolOf (st.elapse ms) s
      ⟨r.holding.at (st.now + ms), r.resident, r.designated⟩ :=
  ⟨hr.holds.elapse ms, hr.resident, hr.designated⟩

/-! ### Recorded scripts -/

/-- `s` makes the recorded move, the others stay, and quiet moves may follow. -/
def Performs (symbolOf : Security → Symbol) (D : Security → Prop) (a : Act Security Payload) (s : Security)
    (st st' : Store Security Symbol Payload) : Prop :=
  ∃ mid, (∀ r, Represents symbolOf st s r →
      ∃ r', Represents symbolOf mid s r' ∧ Acts a r r') ∧
    (∀ t, t ≠ s → Untouched symbolOf st mid t) ∧ Settles symbolOf D mid st'

/-- `s` makes the recorded move and nothing else moves. -/
structure ActsOn (symbolOf : Security → Symbol) (a : Act Security Payload) (s : Security)
    (st st' : Store Security Symbol Payload) : Prop where
  acted : ∀ r, Represents symbolOf st s r → ∃ r', Represents symbolOf st' s r' ∧ Acts a r r'
  others : ∀ t, t ≠ s → Untouched symbolOf st st' t

section

omit [DecidableEq Symbol]

theorem ActsOn.performs {a : Act Security Payload} (h : ActsOn symbolOf a s st st') :
    Performs symbolOf D a s st st' :=
  ⟨st', h.acted, h.others, .refl st'⟩

theorem mem_protectedStocks_route (tier : Tier) (h : s ∈ st.protectedStocks) :
    s ∈ (st.route s tier).protectedStocks := by
  cases tier with
  | P => exact Finset.mem_insert_self s _
  | L => exact h

theorem route_sameKeys (tier : Tier) (t : Security) : SameKeys symbolOf st (st.route s tier) t :=
  match tier with
  | .P => ⟨rfl, fun _ => rfl, rfl⟩
  | .L => ⟨rfl, fun _ => rfl, rfl⟩

end

/-- A generation started where `s` holds nothing is one of its own. -/
theorem startGeneration_spec (hc : Contains symbolOf st s none fun _ => none)
    (hgone : ∀ d, Uniform symbolOf st s d) (hresident : s ∉ st.residentStocks.members)
    (hydrating : HydratingManifest Security) (ttl : ℕ) :
    ∃ d designated, (d = none ↔ designated = true) ∧
      (s ∈ st.protectedStocks → designated = true) ∧
      Represents symbolOf (startGeneration s st hydrating ttl) s
        ⟨.inFlight hydrating (fun _ => none) d, false, designated⟩ := by
  rw [startGeneration]
  split
  case isTrue hprotected =>
    refine ⟨none, true, by simp, fun _ => rfl, ⟨hc.putManifest hydrating.1 none, ?_⟩, ?_, ?_⟩
    · exact ((hgone none).setManifest hydrating.1).register (.inr rfl) _
    · exact iff_of_false hresident Bool.false_ne_true
    · exact iff_of_true hprotected rfl
  case isFalse hprotected =>
    refine ⟨some (st.now + ttl), false, by simp, fun h => absurd h hprotected,
      ⟨(hc.putManifest hydrating.1 _).expireRegistry _, ?_⟩, ?_, ?_⟩
    · have hu := (hgone (some (st.now + ttl))).setManifest hydrating.1
      exact Uniform.expireRegistry hu.manifest hu.rows
    · exact iff_of_false hresident Bool.false_ne_true
    · exact iff_of_false hprotected Bool.false_ne_true

theorem untouched_startGeneration (hydrating : StockManifest Security) (ttl : ℕ) (hne : t ≠ s) :
    Untouched symbolOf st (startGeneration s st hydrating ttl) t := by
  rw [startGeneration]
  split
  · exact (Untouched.setManifest _ _ hne).trans (.register _ hne)
  · exact ((Untouched.setManifest _ _ hne).trans (.register _ hne)).trans (.expireRegistry _ hne)

theorem beginHydration_spec (hsymbol : symbolOf.Injective) (hst : Housed symbolOf st)
    (observed : Option (StockManifest Security)) (hydrating : HydratingManifest Security) (ttl : ℕ)
    (tier : Tier) :
    beginHydration s st observed hydrating ttl tier = (st, .refused) ∨
      (beginHydration s st observed hydrating ttl tier).2 = .done ∧
        ActsOn symbolOf (.began hydrating) s st
          (beginHydration s st observed hydrating ttl tier).1 := by
  rw [beginHydration]
  split
  · exact .inl rfl
  refine .inr ⟨rfl, ActsOn.mk (fun r hr => ?_) fun t hne => ?_⟩
  · have hsame : SameKeys symbolOf (st.deleteRegistered s)
        (((st.deleteRegistered s).leaveLru s).route s tier) s := by
      cases tier <;> exact ⟨rfl, fun _ => rfl, rfl⟩
    have hresident : s ∉ (((st.deleteRegistered s).leaveLru s).route s
        tier).residentStocks.members := by
      cases tier <;> simp [Store.route, Store.designate, Store.leaveLru]
    obtain ⟨d, designated, hd, hdes, hr'⟩ := startGeneration_spec
      (hr.holds.contents.delete.of_sameKeys hsame)
      (fun d => (Uniform.delete hr.holds.contents d).of_sameKeys hsame) hresident hydrating ttl
    exact ⟨_, hr', .began hd fun h => hdes (mem_protectedStocks_route tier (hr.designated.mpr h))⟩
  · obtain ⟨r, hr⟩ := hst s
    exact (((Untouched.delete hsymbol hr.holds.contents hne).trans (.leaveLru hne)).trans
      (.route tier hne)).trans (untouched_startGeneration _ _ hne)

omit [DecidableEq Symbol] in
theorem route_eq_self (tier : Tier) (h : s ∉ (st.route s tier).protectedStocks) :
    st.route s tier = st := by
  cases tier with
  | P => exact absurd (Finset.mem_insert_self s _) h
  | L => rfl

theorem beginRefresh_spec (hsymbol : symbolOf.Injective) (hst : Housed symbolOf st)
    (observed : ReadyManifest Security) (hydrating : HydratingManifest Security) (ttl : ℕ)
    (tier : Tier) :
    beginRefresh s st observed hydrating ttl tier = (st, .refused) ∨
      (beginRefresh s st observed hydrating ttl tier).2 = .done ∧
        ActsOn symbolOf (.refreshed hydrating) s st
          (beginRefresh s st observed hydrating ttl tier).1 := by
  rw [beginRefresh]
  split
  · exact .inl rfl
  next hm =>
  -- only a ready generation is refreshed, and what is ready does not expire
  have hready : ∀ r, Represents symbolOf st s r → r.holding.IsReady := fun r hr =>
    ⟨observed.1, hr.manifest?_eq.symm.trans (not_not.mp hm), observed.2⟩
  have hsame : SameKeys symbolOf st (st.route s tier) s := route_sameKeys tier s
  have hothers : ∀ t, t ≠ s → Untouched symbolOf st (st.route s tier) t :=
    fun t hne => .route tier hne
  rw [refreshRouted]
  split
  -- under a designation the rows keep no deadline; otherwise all are retimed
  case isTrue hprotected =>
    refine .inr ⟨rfl, ActsOn.mk (fun r hr => ?_) fun t hne => ?_⟩
    · have hc := hr.holds.contents.of_sameKeys hsame
      have hnone := Holding.expiresAt_eq_none_of_isReady (hready r hr)
      have hu : Uniform symbolOf (st.route s tier) s none :=
        hnone ▸ hr.holds.deadlines.of_sameKeys hsame
      have hr' : Represents symbolOf
          (((st.route s tier).setManifest s hydrating.1 none).register s (.manifest s)) s
          ⟨.inFlight hydrating r.holding.rows none, decide (s ∈ (st.route s
            tier).residentStocks.members), true⟩ :=
        ⟨⟨hc.putManifest hydrating.1 none,
            (hu.setManifest hydrating.1).register (.inr rfl) _⟩,
          decide_eq_true_iff.symm, iff_of_true hprotected rfl⟩
      exact ⟨_, hr'.leaveLru, .refreshed (hready r hr) (by simp) fun _ => rfl⟩
    · exact (((hothers t hne).trans (.setManifest _ _ hne)).trans (.register _ hne)).trans
        (.leaveLru hne)
  case isFalse hprotected =>
    have hself := route_eq_self tier hprotected
    rw [hself] at hprotected ⊢
    split
    · exact .inl rfl
    refine .inr ⟨rfl, ActsOn.mk (fun r hr => ?_) fun t hne => ?_⟩
    · have hc := hr.holds.contents.putManifest hydrating.1 (some (st.now + ttl))
      have hr' : Represents symbolOf (((st.setManifest s hydrating.1 (some (st.now + ttl))).register
          s (.manifest s)).retimeRegistered s (some (st.now + ttl))) s
          ⟨.inFlight hydrating r.holding.rows (some (st.now + ttl)), r.resident, false⟩ :=
        ⟨⟨hc.retime s _, .retime hc _⟩, hr.resident, iff_of_false hprotected Bool.false_ne_true⟩
      exact ⟨_, hr'.leaveLru, .refreshed (hready r hr) (by simp)
        fun hd => absurd (hr.designated.mpr hd) hprotected⟩
    · obtain ⟨r, hr⟩ := hst s
      have hc := hr.holds.contents.putManifest hydrating.1 (some (st.now + ttl))
      exact (((Untouched.setManifest _ _ hne).trans (.register _ hne)).trans
        (.retime hsymbol hc _ hne)).trans (.leaveLru hne)

omit [DecidableEq Symbol] in
theorem Represents.remainingLifetime_eq (hr : Represents symbolOf st s r)
    (hm : r.holding.manifest ≠ none) :
    remainingLifetime s st = r.holding.expiresAt.map (· - st.now) := by
  obtain ⟨m, hm⟩ := Option.ne_none_iff_exists'.mp hm
  rw [remainingLifetime, hr.manifests_eq, hm]
  rfl

omit [LinearOrder Security] in
theorem Retimed.refl (h : Holding Security Payload) : Retimed h h := ⟨rfl, rfl, Iff.rfl⟩

/-- A write that is not refused is one of the generation in place, whose lifetime it may extend; the
row it writes takes the lifetime of the rest. -/
structure WriteGranted (symbolOf : Security → Symbol) (s : Security)
    (st st' : Store Security Symbol Payload) (fence : Option (HydratingManifest Security))
    (lifetime : Option ℕ) : Prop where
  others : ∀ t, t ≠ s → Untouched symbolOf st st' t
  fenced : ∀ r, Represents symbolOf st s r →
    ∀ hydrating ∈ fence, r.holding.manifest = some hydrating.1
  written : ∀ r, Represents symbolOf st s r → ∃ h', Retimed r.holding h' ∧
    Represents symbolOf st' s ⟨h', r.resident, r.designated⟩ ∧
      h'.expiresAt = lifetime.map (st'.now + ·)

namespace WriteGranted

variable {fence : Option (HydratingManifest Security)} {full : ℕ} {lifetime : Option ℕ}

omit [DecidableEq Symbol] in
/-- The write keeps the generation's lifetime as it stands. -/
theorem keep (hfence : ∀ r, Represents symbolOf st s r →
      ∀ hydrating ∈ fence, r.holding.manifest = some hydrating.1)
    (hkept : ∀ r, Represents symbolOf st s r → r.holding.expiresAt = lifetime.map (st.now + ·)) :
    WriteGranted symbolOf s st st fence lifetime where
  others t _ := .refl st t
  fenced := hfence
  written r hr := ⟨r.holding, .refl _, hr, hkept r hr⟩

/-- What is left of a lifetime, added to the clock, is the lifetime. -/
theorem lifetime_eq {d : Option ℕ} {now remaining : ℕ}
    (hremaining : d.map (· - now) = some remaining) (hpos : ¬ remaining ≤ 0) :
    d = (some remaining).map (now + ·) := by
  obtain ⟨d, rfl, rfl⟩ := Option.map_eq_some_iff.mp hremaining
  rw [Option.map_some]
  congr 1
  omega

theorem of_unfenced (h : writeLifetime s st none full = some (lifetime, st')) :
    WriteGranted symbolOf s st st' none lifetime := by
  simp only [writeLifetime] at h
  cases hm : st.manifest? s with
  | none =>
    rw [hm] at h
    obtain ⟨rfl, rfl⟩ := Prod.mk.inj (Option.some.inj h)
    refine keep (by simp) fun r hr => r.holding.persistent ?_
    simp [hr.manifest?_eq.symm.trans hm]
  | some m =>
    rw [hm] at h
    simp only at h
    have hmanifest : ∀ r, Represents symbolOf st s r → r.holding.manifest = some m :=
      fun r hr => hr.manifest?_eq.symm.trans hm
    -- what is left of the manifest's lifetime is what is left of the holding's
    have hlifetime : ∀ r, Represents symbolOf st s r →
        remainingLifetime s st = r.holding.expiresAt.map (· - st.now) :=
      fun r hr => hr.remainingLifetime_eq (by simp [hmanifest r hr])
    split at h
    case isTrue =>
      cases hremaining : remainingLifetime s st with
      | none =>
        rw [hremaining] at h
        obtain ⟨rfl, rfl⟩ := Prod.mk.inj (Option.some.inj h)
        refine keep (by simp) fun r hr => ?_
        simpa using (hlifetime r hr).symm.trans hremaining
      | some remaining =>
        rw [hremaining] at h
        simp only at h
        split at h
        · cases h
        next hpos =>
          obtain ⟨rfl, rfl⟩ := Prod.mk.inj (Option.some.inj h)
          exact keep (by simp) fun r hr => lifetime_eq ((hlifetime r hr).symm.trans hremaining) hpos
    case isFalse hready =>
      obtain ⟨rfl, rfl⟩ := Prod.mk.inj (Option.some.inj h)
      refine keep (by simp) fun r hr => r.holding.persistent fun m' hm' => ?_
      obtain rfl := Option.some.inj ((hmanifest r hr).symm.trans hm')
      cases hstatus : m.status with
      | ready => rfl
      | hydrating => exact absurd hstatus hready

theorem of_fenced (hsymbol : symbolOf.Injective) (hst : Housed symbolOf st)
    {hydrating : HydratingManifest Security}
    (h : writeLifetime s st (some hydrating.1) full = some (lifetime, st')) :
    WriteGranted symbolOf s st st' (some hydrating) lifetime := by
  simp only [writeLifetime] at h
  split at h
  · cases h
  next hm =>
  have hmanifest : ∀ r, Represents symbolOf st s r → r.holding.manifest = some hydrating.1 :=
    fun r hr => hr.manifest?_eq.symm.trans (not_not.mp hm)
  have hfence : ∀ r, Represents symbolOf st s r →
      ∀ h ∈ some hydrating, r.holding.manifest = some h.1 := by
    intro r hr h hh
    rw [← Option.mem_some_iff.mp hh]
    exact hmanifest r hr
  have hlifetime : ∀ r, Represents symbolOf st s r →
      remainingLifetime s st = r.holding.expiresAt.map (· - st.now) :=
    fun r hr => hr.remainingLifetime_eq (by simp [hmanifest r hr])
  cases hremaining : remainingLifetime s st with
  | none =>
    rw [hremaining] at h
    obtain ⟨rfl, rfl⟩ := Prod.mk.inj (Option.some.inj h)
    refine keep hfence fun r hr => ?_
    simpa using (hlifetime r hr).symm.trans hremaining
  | some remaining =>
    rw [hremaining] at h
    simp only at h
    split at h
    · cases h
    next hpos =>
    split at h
    case isTrue =>
      -- the whole generation is given its full lifetime, and the row with it
      obtain ⟨rfl, rfl⟩ := Prod.mk.inj (Option.some.inj h)
      refine ⟨fun t hne => ?_, hfence, fun r hr => ?_⟩
      · obtain ⟨r, hr⟩ := hst s
        exact .retime hsymbol hr.holds.contents _ hne
      · have hf : r.holding.IsInFlight := ⟨_, hmanifest r hr, hydrating.2⟩
        have hd : r.holding.expiresAt ≠ none := by
          intro hnone
          have := (hlifetime r hr).symm.trans hremaining
          rw [hnone] at this
          cases this
        exact ⟨r.holding.retime hf (some (st.now + full)),
          ⟨rfl, rfl, iff_of_false (Option.some_ne_none _) hd⟩,
          ⟨⟨hr.holds.contents.retime s _, .retime hr.holds.contents _⟩, hr.resident,
            hr.designated⟩, rfl⟩
    case isFalse =>
      obtain ⟨rfl, rfl⟩ := Prod.mk.inj (Option.some.inj h)
      exact keep hfence fun r hr => lifetime_eq ((hlifetime r hr).symm.trans hremaining) hpos

theorem of_writeLifetime (hsymbol : symbolOf.Injective) (hst : Housed symbolOf st)
    (h : writeLifetime s st (fence.map Subtype.val) full = some (lifetime, st')) :
    WriteGranted symbolOf s st st' fence lifetime := by
  cases fence with
  | none => exact of_unfenced h
  | some hydrating => exact of_fenced hsymbol hst h

end WriteGranted

theorem setRegistered_spec (hsymbol : symbolOf.Injective) (hst : Housed symbolOf st) (k : OwnKey)
    (v : Payload) (fence : Option (HydratingManifest Security)) (full : ℕ) :
    setRegistered s st symbolOf k v (fence.map Subtype.val) full = (st, .refused) ∨
      (setRegistered s st symbolOf k v (fence.map Subtype.val) full).2 = .done ∧
        ActsOn symbolOf (.wrote k v fence) s st
          (setRegistered s st symbolOf k v (fence.map Subtype.val) full).1 := by
  rw [setRegistered]
  cases hw : writeLifetime s st (fence.map Subtype.val) full with
  | none => exact .inl rfl
  | some w =>
    obtain ⟨lifetime, st₁⟩ := w
    have hgranted := WriteGranted.of_writeLifetime hsymbol hst hw
    refine .inr ⟨rfl, ActsOn.mk (fun r hr => ?_) fun t hne => ?_⟩
    · obtain ⟨h', hh', hr', hd⟩ := hgranted.written r hr
      have hregistry : st₁.registries s ≠ none ∨ lifetime.map (st₁.now + ·) = none := by
        rw [← hd]
        by_cases hnone : h'.expiresAt = none
        · exact .inr hnone
        · obtain ⟨m, hm, -⟩ := Holding.isInFlight_of_expiresAt hnone
          exact .inl (hr'.registry_ne_none (by simp [Option.mem_def.mp hm]))
      refine ⟨⟨h'.setRow k v, r.resident, r.designated⟩, ⟨⟨?_, ?_⟩, hr'.resident, hr'.designated⟩,
        .wrote (hgranted.fenced r hr) ⟨hh'.manifest, ?_, hh'.persistent⟩⟩
      · exact hr'.holds.contents.putRow hsymbol k v _
      · rw [show (h'.setRow k v).expiresAt = lifetime.map (st₁.now + ·) from hd]
        exact (Uniform.setPayload hsymbol (hd ▸ hr'.holds.deadlines) k v).register hregistry _
      · rw [Holding.setRow, Holding.setRow, hh'.rows]
    · exact ((hgranted.others t hne).trans (.setPayload hsymbol k v _ hne)).trans
        (.register _ hne)

/-! ### Admissions -/

omit [DecidableEq Symbol] in
/-- An access recorded: the newest member of the LRU, under the same keys. -/
theorem Represents.recordAccess (hr : Represents symbolOf st s r) :
    Represents symbolOf (st.recordAccess s) s ⟨r.holding, true, r.designated⟩ where
  holds := ⟨hr.holds.contents.of_sameKeys ⟨rfl, fun _ => rfl, rfl⟩,
    hr.holds.deadlines.of_sameKeys ⟨rfl, fun _ => rfl, rfl⟩⟩
  resident := by simp [Store.recordAccess]
  designated := hr.designated

theorem settles_admitNewest (hsymbol : symbolOf.Injective) (hst : Housed symbolOf st)
    (hready : ∀ r, Represents symbolOf st s r → r.holding.IsReady)
    (hprotected : s ∉ st.protectedStocks) :
    Settles symbolOf D st (admitNewest capacity s st).1 := by
  have haccess : Settles symbolOf D st (st.recordAccess s) := by
    refine .of_quiet (s := s) (fun r hr => ?_) fun t hne => .recordAccess hne
    have hdes : r.designated = false :=
      Bool.eq_false_iff.mpr fun hd => hprotected (hr.designated.mpr hd)
    exact ⟨_, hdes ▸ hr.recordAccess, .accessed (hready r hr) hdes⟩
  exact haccess.trans (settles_enforceCapacity hsymbol (haccess.housed hst))

theorem settles_touchReady (hsymbol : symbolOf.Injective) (hst : Housed symbolOf st)
    (s : Security) : Settles symbolOf D st (touchReady capacity s st).1 := by
  rw [touchReady]
  split
  · exact .refl st
  next m hm =>
  split
  · exact .refl st
  next hstatus =>
  split
  · exact .refl st
  next hprotected =>
  split
  · exact .refl st
  · exact settles_admitNewest hsymbol hst
      (fun r hr => ⟨m, hr.manifest?_eq.symm.trans hm, not_not.mp hstatus⟩) hprotected

theorem settles_admitResident (hsymbol : symbolOf.Injective) (hst : Housed symbolOf st)
    (s : Security) (tier : Tier) : Settles symbolOf D st (admitResident capacity s st tier).1 := by
  rw [admitResident]
  split
  · exact .refl st
  next m hm =>
  split
  · exact .refl st
  next hstatus =>
  rw [admitRouted]
  split
  case isTrue hprotected =>
    refine .of_quiet (s := s) (fun r hr => ⟨⟨r.holding, false, true⟩, ⟨⟨?_, ?_⟩, ?_, ?_⟩,
      .designated⟩) fun t hne => (Untouched.route tier hne).trans (.leaveLru hne)
    · exact (hr.holds.contents.of_sameKeys (route_sameKeys tier s)).of_sameKeys
        ⟨rfl, fun _ => rfl, rfl⟩
    · exact (hr.holds.deadlines.of_sameKeys (route_sameKeys tier s)).of_sameKeys
        ⟨rfl, fun _ => rfl, rfl⟩
    · simp [Store.leaveLru]
    · exact iff_of_true hprotected rfl
  case isFalse hprotected =>
    have hself := route_eq_self tier hprotected
    rw [hself] at hprotected ⊢
    exact settles_admitNewest hsymbol hst
      (fun r hr => ⟨m, hr.manifest?_eq.symm.trans hm, not_not.mp hstatus⟩) hprotected

omit [DecidableEq Symbol] in
theorem housed_route (hst : Housed symbolOf st) (s : Security) (tier : Tier) :
    Housed symbolOf (st.route s tier) := by
  intro t
  obtain ⟨r, hr⟩ := hst t
  refine ⟨⟨r.holding, r.resident, decide (t ∈ (st.route s tier).protectedStocks)⟩, ⟨?_, ?_⟩, ?_,
    decide_eq_true_iff.symm⟩
  · exact hr.holds.contents.of_sameKeys (route_sameKeys tier t)
  · exact hr.holds.deadlines.of_sameKeys (route_sameKeys tier t)
  · rw [← hr.resident]
    cases tier <;> exact Iff.rfl

/-- A publication makes every key persistent under the new manifest. -/
theorem represents_publication (hr : Represents symbolOf st s r) (ready : ReadyManifest Security) :
    Represents symbolOf
      (((st.retimeRegistered s none).setManifest s ready.1 none).register s (.manifest s)) s
      ⟨.published ready r.holding.rows, r.resident, r.designated⟩ where
  holds := ⟨(hr.holds.contents.retime s none).putManifest ready.1 none,
    ((Uniform.retime hr.holds.contents none).setManifest ready.1).register (.inr rfl) _⟩
  resident := hr.resident
  designated := hr.designated

theorem untouched_publication (hsymbol : symbolOf.Injective) (hr : Represents symbolOf st s r)
    (ready : ReadyManifest Security) (hne : t ≠ s) : Untouched symbolOf st
      (((st.retimeRegistered s none).setManifest s ready.1 none).register s (.manifest s)) t :=
  ((Untouched.retime hsymbol hr.holds.contents none hne).trans (.setManifest _ _ hne)).trans
    (.register _ hne)

theorem housed_publication (hsymbol : symbolOf.Injective) (hst : Housed symbolOf st) (s : Security)
    (ready : ReadyManifest Security) : Housed symbolOf
      (((st.retimeRegistered s none).setManifest s ready.1 none).register s (.manifest s)) := by
  intro t
  obtain ⟨r, hr⟩ := hst t
  by_cases hts : t = s
  · subst hts
    exact ⟨_, represents_publication hr ready⟩
  · obtain ⟨r₀, hr₀⟩ := hst s
    exact ⟨r, hr.of_untouched (untouched_publication hsymbol hr₀ ready hts)⟩

omit [DecidableEq Symbol] in
theorem housed_recordAccess (hst : Housed symbolOf st) (s : Security) :
    Housed symbolOf (st.recordAccess s) := by
  intro t
  obtain ⟨r, hr⟩ := hst t
  by_cases hts : t = s
  · subst hts
    exact ⟨_, hr.recordAccess⟩
  · exact ⟨r, hr.of_untouched (.recordAccess hts)⟩

theorem publishReady_spec (hsymbol : symbolOf.Injective) (hst : Housed symbolOf st)
    (ready : ReadyManifest Security) (fence : Option (HydratingManifest Security)) (tier : Tier) :
    publishReady capacity s st ready (fence.map Subtype.val) tier = (st, .refused) ∨
      ∃ victims, (publishReady capacity s st ready (fence.map Subtype.val) tier).2 =
          .admitted victims ∧
        Performs symbolOf D (.published ready fence) s st
          (publishReady capacity s st ready (fence.map Subtype.val) tier).1 := by
  rw [publishReady]
  split
  · exact .inl rfl
  next hm =>
  have hfence : ∀ r, Represents symbolOf st s r → r.holding.manifest = fence.map Subtype.val :=
    fun r hr => hr.manifest?_eq.symm.trans (not_not.mp hm)
  set st₁ := ((st.retimeRegistered s none).setManifest s ready.1 none).register s (.manifest s)
    with hst₁
  have hrouted : ∀ r, Represents symbolOf st s r → Represents symbolOf (st₁.route s tier) s
      ⟨.published ready r.holding.rows, r.resident,
        decide (s ∈ (st₁.route s tier).protectedStocks)⟩ := by
    intro r hr
    have hr₁ : Represents symbolOf st₁ s _ := represents_publication hr ready
    refine ⟨⟨hr₁.holds.contents.of_sameKeys (route_sameKeys tier s),
      hr₁.holds.deadlines.of_sameKeys (route_sameKeys tier s)⟩, ?_, decide_eq_true_iff.symm⟩
    rw [← hr.resident]
    cases tier <;> exact Iff.rfl
  have hothers : ∀ t, t ≠ s → Untouched symbolOf st (st₁.route s tier) t := fun t hne => by
    obtain ⟨r, hr⟩ := hst s
    exact (untouched_publication hsymbol hr ready hne).trans (.route tier hne)
  -- a designated security is protected at the end, so it is not counted in the LRU
  have hdesignated : ∀ r, Represents symbolOf st s r → r.designated = true →
      s ∈ (st₁.route s tier).protectedStocks := fun r hr hd =>
    mem_protectedStocks_route tier (hr.designated.mpr hd)
  rw [admitRouted]
  split
  case isTrue hprotected =>
    refine .inr ⟨[], rfl, ActsOn.performs ⟨fun r hr => ?_, fun t hne => (hothers t hne).trans
      (.leaveLru hne)⟩⟩
    refine ⟨_, (hrouted r hr).leaveLru, .published (hfence r hr) ?_ fun _ => ?_⟩
    · simp [hprotected]
    · simp [hprotected]
  case isFalse hprotected =>
    refine .inr ⟨_, rfl, (st₁.route s tier).recordAccess s, fun r hr => ?_,
      fun t hne => (hothers t hne).trans (.recordAccess hne), ?_⟩
    · refine ⟨_, (hrouted r hr).recordAccess, .published (hfence r hr) ?_ fun hd => ?_⟩
      · simp [hprotected]
      · exact absurd (hdesignated r hr hd) hprotected
    · exact settles_enforceCapacity hsymbol
        (housed_recordAccess (housed_route (housed_publication hsymbol hst s ready) s tier) s)

/-! ### Every event -/

/-- What an answered script records of `s`. -/
def actOn (s : Security) : Command Security Payload → Reply Security → Option (Act Security Payload)
  | .beginHydration t _ hydrating _ _, .done => if t = s then some (.began hydrating) else none
  | .beginRefresh t _ hydrating _ _, .done => if t = s then some (.refreshed hydrating) else none
  | .setRegistered t k v fence _, .done => if t = s then some (.wrote k v fence) else none
  | .publishReady t ready fence _, .admitted _ =>
    if t = s then some (.published ready fence) else none
  | _, _ => none

/-- The recorded move, if any, and quiet ones after it. -/
inductive Evolves (demotes : Prop) : Option (Act Security Payload) →
    Residence Security Payload → Residence Security Payload → Prop
  | quiet {r r' : Residence Security Payload} (h : Relation.ReflTransGen (Quiet demotes) r r') :
      Evolves demotes none r r'
  | acted {a : Act Security Payload} {r mid r' : Residence Security Payload} (ha : Acts a r mid)
      (h : Relation.ReflTransGen (Quiet demotes) mid r') : Evolves demotes (some a) r r'

/-- The script removes the designation of `s`. -/
def Demotes (c : Command Security Payload) (s : Security) : Prop :=
  ∃ ids ttl, c = .unprotectStocks ids ttl ∧ s ∈ ids

variable {c : Command Security Payload}

section

omit [DecidableEq Symbol]

theorem Settles.evolves (h : Settles symbolOf D st st') (hr : Represents symbolOf st s r) :
    ∃ r', Represents symbolOf st' s r' ∧ Evolves (D s) none r r' := by
  obtain ⟨r', hr', hmoves⟩ := h s r hr
  exact ⟨r', hr', .quiet hmoves⟩

/-- What a script performs on `t` is recorded of `t`, and moves no other security but by eviction. -/
theorem Performs.evolves {a : Act Security Payload} (h : Performs symbolOf D a t st st')
    (hr : Represents symbolOf st s r) :
    ∃ r', Represents symbolOf st' s r' ∧ Evolves (D s) (if t = s then some a else none) r r' := by
  obtain ⟨mid, hs, hothers, hsettles⟩ := h
  split
  case isTrue hts =>
    subst hts
    obtain ⟨r₁, hr₁, ha⟩ := hs r hr
    obtain ⟨r', hr', hmoves⟩ := hsettles t r₁ hr₁
    exact ⟨r', hr', .acted ha hmoves⟩
  case isFalse hts =>
    exact hsettles.evolves (hr.of_untouched (hothers s (Ne.symm hts)))

/-- A refused script moves nothing, and a performed one is recorded as `actOn` says. -/
theorem evolves_of_spec {a : Act Security Payload} {out : Outcome Security Symbol Payload}
    (hout : out = (st, .refused) ∨ out.2 = .done ∧ ActsOn symbolOf a t st out.1)
    (hrefused : actOn s c .refused = none)
    (hdone : actOn s c .done = if t = s then some a else none)
    (hr : Represents symbolOf st s r) :
    ∃ r', Represents symbolOf out.1 s r' ∧ Evolves (D s) (actOn s c out.2) r r' := by
  rcases hout with rfl | ⟨hreply, hperforms⟩
  · exact ⟨r, hr, by rw [hrefused]; exact .quiet .refl⟩
  · rw [hreply, hdone]
    exact hperforms.performs.evolves hr

end

/-- **Every script moves every security by recorded and quiet moves.** -/
theorem evolves_execute (hsymbol : symbolOf.Injective) (hst : Housed symbolOf st)
    (hr : Represents symbolOf st s r) :
    ∃ r', Represents symbolOf (execute symbolOf capacity st c).1 s r' ∧
      Evolves (Demotes c s) (actOn s c (execute symbolOf capacity st c).2) r r' := by
  cases c with
  | beginHydration t observed hydrating ttl tier =>
    exact evolves_of_spec (beginHydration_spec hsymbol hst observed hydrating ttl tier) rfl rfl hr
  | beginRefresh t observed hydrating ttl tier =>
    exact evolves_of_spec (beginRefresh_spec hsymbol hst observed hydrating ttl tier) rfl rfl hr
  | setRegistered t k v fence ttl =>
    exact evolves_of_spec (setRegistered_spec hsymbol hst k v fence ttl) rfl rfl hr
  | publishReady t ready fence tier =>
    have hspec := @publishReady_spec _ _ _ _ _ symbolOf st t capacity
      (Demotes (.publishReady t ready fence tier : Command Security Payload)) hsymbol hst ready
      fence tier
    rcases hspec with hout | ⟨victims, hreply, hperforms⟩
    · exact ⟨r, by rw [execute, hout]; exact hr, by rw [execute, hout]; exact .quiet .refl⟩
    · rw [execute, hreply]
      exact hperforms.evolves hr
  | renewHydration t hydrating ttl =>
    exact (settles_renewHydration hsymbol hst t hydrating ttl).evolves hr
  | touchReady t => exact (settles_touchReady hsymbol hst t).evolves hr
  | admitResident t tier => exact (settles_admitResident hsymbol hst t tier).evolves hr
  | invalidateManifest t observed =>
    exact (settles_invalidateManifest hsymbol hst t observed).evolves hr
  | evictResidentStock t => exact (settles_evictResidentStock hsymbol hst t).evolves hr
  | protectStocks ids => exact (settles_protectStocks ids st).evolves hr
  | unprotectStocks ids ttl =>
    exact (settles_unprotectStocks hsymbol hst ids (fun id h => ⟨ids, ttl, rfl, h⟩) ttl).evolves hr

end FactorSage.StockCache
