import FactorSage.StockCache.Scripts

/-!
# What one security holds

A security's keys live and die together. A `Holding` is what that means: its manifest, its rows and
one deadline for all of them; rows with no manifest, and a ready generation, have no deadline.
`Holds` says that the store's keys of a security are exactly those of its holding, its registry
naming every one of them (`Contains`), all with its deadline (`Uniform`).

* `Contains.delete`, `Contains.putManifest`, `Contains.putRow`, `Contains.elapse` — what each
  primitive of the scripts makes of the contents, and `Uniform.…` of the deadlines.
* `Untouched` — a step that leaves the keys and tiers of a security alone. Every primitive on one
  security leaves the others untouched, since no two securities register the same key.
-/

namespace FactorSage.StockCache

variable {Security Symbol Payload : Type} [LinearOrder Security] [DecidableEq Symbol]

/-! ### Keys -/

omit [LinearOrder Security] [DecidableEq Symbol] in
theorem payloadKey_eq_iff {symbolOf : Security → Symbol} (hsymbol : symbolOf.Injective)
    {s t : Security} {k l : OwnKey} :
    payloadKey symbolOf s k = payloadKey symbolOf t l ↔ s = t ∧ k = l := by
  constructor
  · intro h
    cases k <;> cases l <;> simp only [payloadKey, reduceCtorEq, PayloadKey.prices.injEq,
      PayloadKey.dailyState.injEq, PayloadKey.security.injEq] at h
    · exact ⟨h.1, congrArg _ h.2⟩
    · exact ⟨h.1, congrArg _ h.2⟩
    · exact ⟨hsymbol h, rfl⟩
  · rintro ⟨rfl, rfl⟩
    rfl

/-! ### Holdings -/

/-- A security's manifest, rows and common deadline. -/
structure Holding (Security Payload : Type) where
  manifest : Option (StockManifest Security)
  rows : OwnKey → Option Payload
  expiresAt : Option ℕ
  /-- Rows with no manifest, and published ones, do not expire. -/
  persistent : (∀ m ∈ manifest, m.status = .ready) → expiresAt = none

namespace Holding

/-- Nothing at all. -/
def empty : Holding Security Payload := ⟨none, fun _ => none, none, fun _ => rfl⟩

/-- A generation in flight. -/
def inFlight (hydrating : HydratingManifest Security) (rows : OwnKey → Option Payload)
    (expiresAt : Option ℕ) : Holding Security Payload where
  manifest := some hydrating.1
  rows := rows
  expiresAt := expiresAt
  persistent := by
    intro h
    have hready := h _ rfl
    rw [hydrating.2] at hready
    cases hready

/-- A published generation. -/
def published (ready : ReadyManifest Security) (rows : OwnKey → Option Payload) :
    Holding Security Payload := ⟨some ready.1, rows, none, fun _ => rfl⟩

/-- The holding with another row. -/
def setRow (h : Holding Security Payload) (k : OwnKey) (v : Payload) :
    Holding Security Payload :=
  { h with rows := Function.update h.rows k (some v) }

end Holding

/-- The registry of a security with this manifest and these rows names `key`. -/
def Names (symbolOf : Security → Symbol) (s : Security) (current : Option (StockManifest Security))
    (held : OwnKey → Option Payload) : Key Security Symbol → Prop
  | .manifest t => t = s ∧ current.isSome
  | .payload key => ∃ k, key = payloadKey symbolOf s k ∧ (held k).isSome

/-- The keys of `s` are a manifest and rows, and its registry names exactly those. -/
structure Contains (symbolOf : Security → Symbol) (st : Store Security Symbol Payload)
    (s : Security) (current : Option (StockManifest Security)) (held : OwnKey → Option Payload) :
    Prop where
  manifest : st.manifest? s = current
  rows : ∀ k, st.payloads.value? (payloadKey symbolOf s k) = held k
  registered : ∀ key, key ∈ st.registeredKeys s ↔ Names symbolOf s current held key

/-- Every key of `s`, its registry included, has the deadline `d`. -/
structure Uniform (symbolOf : Security → Symbol) (st : Store Security Symbol Payload)
    (s : Security) (d : Option ℕ) : Prop where
  manifest : ∀ e ∈ st.manifests s, e.expiresAt = d
  rows : ∀ k, ∀ e ∈ st.payloads (payloadKey symbolOf s k), e.expiresAt = d
  registry : ∀ r ∈ st.registries s, r.expiresAt = d

/-- The store's keys of `s` are those of the holding. -/
structure Holds (symbolOf : Security → Symbol) (st : Store Security Symbol Payload)
    (s : Security) (h : Holding Security Payload) : Prop where
  contents : Contains symbolOf st s h.manifest h.rows
  deadlines : Uniform symbolOf st s h.expiresAt

/-- A step that leaves the keys and the tiers of `s` alone. -/
structure Untouched (symbolOf : Security → Symbol) (st st' : Store Security Symbol Payload)
    (s : Security) : Prop where
  manifest : st'.manifests s = st.manifests s
  rows : ∀ k, st'.payloads (payloadKey symbolOf s k) = st.payloads (payloadKey symbolOf s k)
  registry : st'.registries s = st.registries s
  resident : s ∈ st'.residentStocks.members ↔ s ∈ st.residentStocks.members
  designated : s ∈ st'.protectedStocks ↔ s ∈ st.protectedStocks

variable {symbolOf : Security → Symbol} {st st' st'' : Store Security Symbol Payload}
  {s t : Security} {h : Holding Security Payload} {current : Option (StockManifest Security)}
  {held : OwnKey → Option Payload} {d : Option ℕ}

/-- `s` holds the same keys in both stores. -/
structure SameKeys (symbolOf : Security → Symbol) (st st' : Store Security Symbol Payload)
    (s : Security) : Prop where
  manifest : st'.manifests s = st.manifests s
  rows : ∀ k, st'.payloads (payloadKey symbolOf s k) = st.payloads (payloadKey symbolOf s k)
  registry : st'.registries s = st.registries s

namespace Untouched

omit [DecidableEq Symbol]

theorem refl (st : Store Security Symbol Payload) (s : Security) : Untouched symbolOf st st s :=
  ⟨rfl, fun _ => rfl, rfl, Iff.rfl, Iff.rfl⟩

theorem trans (h : Untouched symbolOf st st' s) (h' : Untouched symbolOf st' st'' s) :
    Untouched symbolOf st st'' s where
  manifest := h'.manifest.trans h.manifest
  rows k := (h'.rows k).trans (h.rows k)
  registry := h'.registry.trans h.registry
  resident := h'.resident.trans h.resident
  designated := h'.designated.trans h.designated

theorem sameKeys (h : Untouched symbolOf st st' s) : SameKeys symbolOf st st' s :=
  ⟨h.manifest, h.rows, h.registry⟩

end Untouched

/-! ### Contents -/

namespace Contains

section

variable (hc : Contains symbolOf st s current held)

include hc

section

omit [DecidableEq Symbol]

theorem of_sameKeys (hsame : SameKeys symbolOf st st' s) : Contains symbolOf st' s current held where
  manifest := by
    rw [← hc.manifest, Store.manifest?, Store.manifest?, ExpiringMap.value?, ExpiringMap.value?,
      hsame.manifest]
  rows k := by rw [← hc.rows, ExpiringMap.value?, ExpiringMap.value?, hsame.rows]
  registered key := by
    rw [← hc.registered, Store.registeredKeys, Store.registeredKeys, ExpiringMap.value?,
      ExpiringMap.value?, hsame.registry]

/-- No registry names a key of another security. -/
theorem eq_of_manifest_mem (hkey : .manifest t ∈ st.registeredKeys s) : t = s :=
  ((hc.registered _).mp hkey).1

theorem eq_of_payload_mem (hsymbol : symbolOf.Injective)
    {k : OwnKey} (hkey : .payload (payloadKey symbolOf t k) ∈ st.registeredKeys s) : t = s := by
  obtain ⟨l, hl, -⟩ := (hc.registered _).mp hkey
  exact ((payloadKey_eq_iff hsymbol).mp hl).1

/-- A key the registry does not name is absent. -/
theorem manifest_eq_none (hkey : .manifest s ∉ st.registeredKeys s) : st.manifests s = none := by
  by_contra hne
  refine hkey ((hc.registered _).mpr ⟨rfl, ?_⟩)
  rw [← hc.manifest, Store.manifest?, ExpiringMap.value?, Option.isSome_map]
  exact Option.ne_none_iff_isSome.mp hne

theorem row_eq_none {k : OwnKey}
    (hkey : .payload (payloadKey symbolOf s k) ∉ st.registeredKeys s) :
    st.payloads (payloadKey symbolOf s k) = none := by
  by_contra hne
  refine hkey ((hc.registered _).mpr ⟨k, rfl, ?_⟩)
  rw [← hc.rows, ExpiringMap.value?, Option.isSome_map]
  exact Option.ne_none_iff_isSome.mp hne

end

theorem delete :
    Contains symbolOf (st.deleteRegistered s) s none fun _ => none where
  manifest := by
    rw [Store.manifest?, ExpiringMap.value?, Store.deleteRegistered_manifests]
    split
    case isTrue => rfl
    case isFalse hkey => rw [hc.manifest_eq_none hkey]; rfl
  rows k := by
    rw [ExpiringMap.value?, Store.deleteRegistered_payloads]
    split
    case isTrue => rfl
    case isFalse hkey => rw [hc.row_eq_none hkey]; rfl
  registered key := by
    have : (st.deleteRegistered s).registeredKeys s = ∅ := by
      simp [Store.registeredKeys, ExpiringMap.value?, Store.deleteRegistered_registries]
    rw [this]
    cases key <;> simp [Names]

/-- New deadlines leave the contents as they were. -/
theorem retime (t : Security) (d : Option ℕ) :
    Contains symbolOf (st.retimeRegistered t d) s current held where
  manifest := by
    rw [← hc.manifest, Store.manifest?, ExpiringMap.value?, Store.retimeRegistered_manifests]
    split
    · simp [Store.manifest?, ExpiringMap.value?, Option.map_map, Function.comp_def]
    · rfl
  rows k := by
    rw [← hc.rows, ExpiringMap.value?, Store.retimeRegistered_payloads]
    split
    · simp [ExpiringMap.value?, Option.map_map, Function.comp_def]
    · rfl
  registered key := by
    have : (st.retimeRegistered t d).registeredKeys s = st.registeredKeys s := by
      rw [Store.registeredKeys, ExpiringMap.value?, Store.retimeRegistered_registries]
      split
      · simp [Store.registeredKeys, ExpiringMap.value?, Option.map_map, Function.comp_def]
      · rfl
    rw [this, hc.registered]

end

omit [DecidableEq Symbol] in
theorem expireManifest (hc : Contains symbolOf st s current held) (d : Option ℕ) :
    Contains symbolOf (st.expireManifest s d) s current held where
  manifest := by
    change ((st.manifests.retime (· = s) d) s).map Expiring.value = current
    rw [ExpiringMap.retime_of _ (p := (· = s)) d rfl, ← hc.manifest, Store.manifest?,
      ExpiringMap.value?, Option.map_map]
    rfl
  rows := hc.rows
  registered := hc.registered

omit [DecidableEq Symbol] in
theorem expireRegistry (hc : Contains symbolOf st s current held) (d : Option ℕ) :
    Contains symbolOf (st.expireRegistry s d) s current held where
  manifest := hc.manifest
  rows := hc.rows
  registered key := by
    have : (st.expireRegistry s d).registeredKeys s = st.registeredKeys s := by
      change (((st.registries.retime (· = s) d) s).map Expiring.value).getD ∅ = _
      rw [ExpiringMap.retime_of _ (p := (· = s)) d rfl, Option.map_map]
      rfl
    rw [this, hc.registered]

/-- A manifest written and registered is the manifest. -/
theorem putManifest (hc : Contains symbolOf st s current held) (m : StockManifest Security)
    (d : Option ℕ) :
    Contains symbolOf ((st.setManifest s m d).register s (.manifest s)) s (some m) held where
  manifest := by simp [Store.manifest?, ExpiringMap.value?, Store.register, Store.setManifest]
  rows k := hc.rows k
  registered key := by
    rw [Store.registeredKeys_register_self, Finset.mem_insert]
    change key = _ ∨ key ∈ st.registeredKeys s ↔ _
    rw [hc.registered]
    cases key with
    | manifest t => simp +contextual [Names]
    | payload key => simp [Names]

/-- A row written and registered joins the rows. -/
theorem putRow (hsymbol : symbolOf.Injective) (hc : Contains symbolOf st s current held)
    (k : OwnKey) (v : Payload) (d : Option ℕ) :
    Contains symbolOf
      ((st.setPayload (payloadKey symbolOf s k) v d).register s (.payload (payloadKey symbolOf s k)))
      s current (Function.update held k (some v)) where
  manifest := hc.manifest
  rows l := by
    change (st.payloads.put (payloadKey symbolOf s k) v d).value? _ = _
    by_cases hl : l = k
    · subst hl
      simp [ExpiringMap.value?]
    · have hne : payloadKey symbolOf s l ≠ payloadKey symbolOf s k := fun h =>
        hl ((payloadKey_eq_iff hsymbol).mp h).2
      rw [ExpiringMap.value?, ExpiringMap.put_of_ne _ _ _ hne, Function.update_of_ne hl, ← hc.rows l,
        ExpiringMap.value?]
  registered key := by
    rw [Store.registeredKeys_register_self, Finset.mem_insert]
    change key = _ ∨ key ∈ st.registeredKeys s ↔ _
    rw [hc.registered]
    cases key with
    | manifest t => simp [Names]
    | payload key =>
      simp only [Names, Key.payload.injEq]
      constructor
      · rintro (rfl | ⟨l, rfl, hl⟩)
        · exact ⟨k, rfl, by simp⟩
        · refine ⟨l, rfl, ?_⟩
          by_cases hlk : l = k
          · simp [hlk]
          · rwa [Function.update_of_ne hlk]
      · rintro ⟨l, rfl, hl⟩
        by_cases hlk : l = k
        · exact .inl (by rw [hlk])
        · exact .inr ⟨l, rfl, by rwa [Function.update_of_ne hlk] at hl⟩

end Contains

/-! ### Deadlines -/

namespace Uniform

omit [DecidableEq Symbol] in
theorem of_sameKeys (hu : Uniform symbolOf st s d) (hsame : SameKeys symbolOf st st' s) :
    Uniform symbolOf st' s d where
  manifest e he := hu.manifest e (hsame.manifest ▸ he)
  rows k e he := hu.rows k e (hsame.rows k ▸ he)
  registry r hr := hu.registry r (hsame.registry ▸ hr)

/-- Keys that are gone have any deadline. -/
theorem delete (hc : Contains symbolOf st s current held) (d : Option ℕ) :
    Uniform symbolOf (st.deleteRegistered s) s d where
  manifest e he := by
    rw [Store.deleteRegistered_manifests] at he
    split at he
    · cases he
    · next hkey => rw [hc.manifest_eq_none hkey] at he; cases he
  rows k e he := by
    rw [Store.deleteRegistered_payloads] at he
    split at he
    · cases he
    · next hkey => rw [hc.row_eq_none hkey] at he; cases he
  registry r hr := by
    rw [Store.deleteRegistered_registries, if_pos rfl] at hr
    cases hr

/-- A new deadline for every registered key and the registry is a new deadline for all. -/
theorem retime (hc : Contains symbolOf st s current held) (d : Option ℕ) :
    Uniform symbolOf (st.retimeRegistered s d) s d where
  manifest e he := by
    rw [Store.retimeRegistered_manifests] at he
    split at he
    · obtain ⟨e', -, rfl⟩ := Option.map_eq_some_iff.mp he
      rfl
    · next hkey => rw [hc.manifest_eq_none hkey] at he; cases he
  rows k e he := by
    rw [Store.retimeRegistered_payloads] at he
    split at he
    · obtain ⟨e', -, rfl⟩ := Option.map_eq_some_iff.mp he
      rfl
    · next hkey => rw [hc.row_eq_none hkey] at he; cases he
  registry r hr := by
    rw [Store.retimeRegistered_registries, if_pos rfl] at hr
    obtain ⟨r', -, rfl⟩ := Option.map_eq_some_iff.mp hr
    rfl

/-- A registry that `SADD` creates has no deadline, and one that exists keeps its own. -/
theorem register (hu : Uniform symbolOf st s d) (hreg : st.registries s ≠ none ∨ d = none)
    (k : Key Security Symbol) : Uniform symbolOf (st.register s k) s d where
  manifest := hu.manifest
  rows := hu.rows
  registry r hr := by
    simp only [Store.register, ExpiringMap.put_self, Option.mem_def, Option.some.injEq] at hr
    subst hr
    cases hr' : st.registries s with
    | none => exact (hreg.resolve_left (· hr')).symm
    | some r' => exact hu.registry r' hr'

omit [DecidableEq Symbol] in
theorem setManifest (hu : Uniform symbolOf st s d) (m : StockManifest Security) :
    Uniform symbolOf (st.setManifest s m d) s d where
  manifest e he := by
    simp only [Store.setManifest, ExpiringMap.put_self, Option.mem_def, Option.some.injEq] at he
    exact he ▸ rfl
  rows := hu.rows
  registry := hu.registry

theorem setPayload (hsymbol : symbolOf.Injective) (hu : Uniform symbolOf st s d) (k : OwnKey)
    (v : Payload) : Uniform symbolOf (st.setPayload (payloadKey symbolOf s k) v d) s d where
  manifest := hu.manifest
  rows l e he := by
    change e ∈ st.payloads.put (payloadKey symbolOf s k) v d _ at he
    by_cases hl : l = k
    · subst hl
      simp only [ExpiringMap.put_self, Option.mem_def, Option.some.injEq] at he
      exact he ▸ rfl
    · rw [ExpiringMap.put_of_ne _ _ _ fun h => hl ((payloadKey_eq_iff hsymbol).mp h).2] at he
      exact hu.rows l e he
  registry := hu.registry

omit [DecidableEq Symbol] in
theorem expireManifest (hu : Uniform symbolOf st s d) :
    Uniform symbolOf (st.expireManifest s d) s d where
  manifest e he := by
    change e ∈ st.manifests.retime (· = s) d s at he
    rw [ExpiringMap.retime_of _ (p := (· = s)) d rfl] at he
    obtain ⟨e', -, rfl⟩ := Option.map_eq_some_iff.mp he
    rfl
  rows := hu.rows
  registry := hu.registry

omit [DecidableEq Symbol] in
/-- A registry alone may be given the deadline of the rest. -/
theorem expireRegistry (hmanifest : ∀ e ∈ st.manifests s, e.expiresAt = d)
    (hrows : ∀ k, ∀ e ∈ st.payloads (payloadKey symbolOf s k), e.expiresAt = d) :
    Uniform symbolOf (st.expireRegistry s d) s d where
  manifest := hmanifest
  rows := hrows
  registry r hr := by
    change r ∈ st.registries.retime (· = s) d s at hr
    rw [ExpiringMap.retime_of _ (p := (· = s)) d rfl] at hr
    obtain ⟨r', -, rfl⟩ := Option.map_eq_some_iff.mp hr
    rfl

end Uniform

/-! ### Other securities -/

namespace Untouched

theorem delete (hsymbol : symbolOf.Injective) (hc : Contains symbolOf st s current held)
    (hne : t ≠ s) : Untouched symbolOf st (st.deleteRegistered s) t where
  manifest := by
    rw [Store.deleteRegistered_manifests, if_neg fun hkey => hne (hc.eq_of_manifest_mem hkey)]
  rows k := by
    rw [Store.deleteRegistered_payloads, if_neg fun hkey => hne (hc.eq_of_payload_mem hsymbol hkey)]
  registry := by rw [Store.deleteRegistered_registries, if_neg hne]
  resident := Iff.rfl
  designated := Iff.rfl

theorem retime (hsymbol : symbolOf.Injective) (hc : Contains symbolOf st s current held)
    (d : Option ℕ) (hne : t ≠ s) : Untouched symbolOf st (st.retimeRegistered s d) t where
  manifest := by
    rw [Store.retimeRegistered_manifests, if_neg fun hkey => hne (hc.eq_of_manifest_mem hkey)]
  rows k := by
    rw [Store.retimeRegistered_payloads, if_neg fun hkey => hne (hc.eq_of_payload_mem hsymbol hkey)]
  registry := by rw [Store.retimeRegistered_registries, if_neg hne]
  resident := Iff.rfl
  designated := Iff.rfl

theorem register (k : Key Security Symbol) (hne : t ≠ s) :
    Untouched symbolOf st (st.register s k) t where
  manifest := rfl
  rows _ := rfl
  registry := ExpiringMap.put_of_ne _ _ _ hne
  resident := Iff.rfl
  designated := Iff.rfl

omit [DecidableEq Symbol] in
theorem setManifest (m : StockManifest Security) (d : Option ℕ) (hne : t ≠ s) :
    Untouched symbolOf st (st.setManifest s m d) t where
  manifest := ExpiringMap.put_of_ne _ _ _ hne
  rows _ := rfl
  registry := rfl
  resident := Iff.rfl
  designated := Iff.rfl

theorem setPayload (hsymbol : symbolOf.Injective) (k : OwnKey) (v : Payload) (d : Option ℕ)
    (hne : t ≠ s) : Untouched symbolOf st (st.setPayload (payloadKey symbolOf s k) v d) t where
  manifest := rfl
  rows _ := ExpiringMap.put_of_ne _ _ _ fun h => hne ((payloadKey_eq_iff hsymbol).mp h).1
  registry := rfl
  resident := Iff.rfl
  designated := Iff.rfl

section

omit [DecidableEq Symbol]

theorem leaveLru (hne : t ≠ s) : Untouched symbolOf st (st.leaveLru s) t where
  manifest := rfl
  rows _ := rfl
  registry := rfl
  resident := by simp [Store.leaveLru, hne]
  designated := Iff.rfl

theorem designate (hne : t ≠ s) : Untouched symbolOf st (st.designate s) t where
  manifest := rfl
  rows _ := rfl
  registry := rfl
  resident := Iff.rfl
  designated := by simp [Store.designate, hne]

theorem undesignate (hne : t ≠ s) : Untouched symbolOf st (st.undesignate s) t where
  manifest := rfl
  rows _ := rfl
  registry := rfl
  resident := Iff.rfl
  designated := by simp [Store.undesignate, hne]

theorem expireManifest (d : Option ℕ) (hne : t ≠ s) :
    Untouched symbolOf st (st.expireManifest s d) t where
  manifest := ExpiringMap.retime_of_not _ (p := (· = s)) d hne
  rows _ := rfl
  registry := rfl
  resident := Iff.rfl
  designated := Iff.rfl

theorem expireRegistry (d : Option ℕ) (hne : t ≠ s) :
    Untouched symbolOf st (st.expireRegistry s d) t where
  manifest := rfl
  rows _ := rfl
  registry := ExpiringMap.retime_of_not _ (p := (· = s)) d hne
  resident := Iff.rfl
  designated := Iff.rfl

theorem route (tier : Tier) (hne : t ≠ s) : Untouched symbolOf st (st.route s tier) t :=
  match tier with
  | .P => designate hne
  | .L => refl st t

theorem recordAccess (hne : t ≠ s) : Untouched symbolOf st (st.recordAccess s) t where
  manifest := rfl
  rows _ := rfl
  registry := rfl
  resident := by simp [Store.recordAccess, hne]
  designated := Iff.rfl

end

end Untouched

/-! ### Time -/

/-- What is left of a holding at `now`. -/
def Holding.at (h : Holding Security Payload) (now : ℕ) : Holding Security Payload :=
  if h.expiresAt.all (now ≤ ·) then h else .empty

omit [DecidableEq Symbol] in
/-- The keys of a security expire together. -/
theorem Holds.elapse (hold : Holds symbolOf st s h) (ms : ℕ) :
    Holds symbolOf (st.elapse ms) s (h.at (st.now + ms)) := by
  have hdeadline := hold.deadlines
  cases hlive : h.expiresAt.all (st.now + ms ≤ ·) with
  | true =>
    rw [Holding.at, if_pos hlive]
    have hsame : SameKeys symbolOf st (st.elapse ms) s :=
      ⟨ExpiringMap.purge_of_le _ hdeadline.manifest hlive,
        fun k => ExpiringMap.purge_of_le _ (hdeadline.rows k) hlive,
        ExpiringMap.purge_of_le _ hdeadline.registry hlive⟩
    exact ⟨hold.contents.of_sameKeys hsame, hold.deadlines.of_sameKeys hsame⟩
  | false =>
    have hmanifest : (st.elapse ms).manifests s = none :=
      ExpiringMap.purge_of_lt _ hdeadline.manifest hlive
    have hrows : ∀ k, (st.elapse ms).payloads (payloadKey symbolOf s k) = none :=
      fun k => ExpiringMap.purge_of_lt _ (hdeadline.rows k) hlive
    have hregistry : (st.elapse ms).registries s = none :=
      ExpiringMap.purge_of_lt _ hdeadline.registry hlive
    rw [Holding.at, if_neg (by rw [hlive]; exact Bool.false_ne_true)]
    refine ⟨⟨?_, fun k => ?_, fun key => ?_⟩, ⟨?_, fun k => ?_, ?_⟩⟩
    · rw [Store.manifest?, ExpiringMap.value?, hmanifest]
      rfl
    · rw [ExpiringMap.value?, hrows]
      rfl
    · rw [Store.registeredKeys, ExpiringMap.value?, hregistry]
      cases key <;> simp [Names, Holding.empty]
    · simp [hmanifest]
    · simp [hrows]
    · simp [hregistry]

end FactorSage.StockCache
