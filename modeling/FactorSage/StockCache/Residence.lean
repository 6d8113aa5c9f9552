import FactorSage.StockCache.Holding
import Mathlib.Logic.Relation

/-!
# One security's residence, and how it moves

What the cache is for one security: a holding, and the tier that counts it. `Quiet` and `Acts` are
every way a script can move a residence; `Acts` are the moves a history records — a generation
begun or refreshed in place, a row written, a generation published — and `Quiet` the others.

`Residence.Sound` is what the two tiers promise of one security. Every move keeps it
(`Sound.of_acts`, `Sound.of_quiet`).
-/

namespace FactorSage.StockCache

variable {Security Payload : Type}

/-- A holding, and whether the LRU and the protected set count it. -/
structure Residence (Security Payload : Type) where
  holding : Holding Security Payload
  resident : Bool
  designated : Bool

/-- A move a security's history records. -/
inductive Act (Security Payload : Type)
  | began (hydrating : HydratingManifest Security)
  | refreshed (hydrating : HydratingManifest Security)
  | wrote (k : OwnKey) (v : Payload) (fence : Option (HydratingManifest Security))
  | published (ready : ReadyManifest Security) (fence : Option (HydratingManifest Security))

namespace Holding

variable (h : Holding Security Payload)

def IsReady : Prop := ∃ m ∈ h.manifest, m.status = .ready

def IsInFlight : Prop := ∃ m ∈ h.manifest, m.status = .hydrating

variable {h : Holding Security Payload}

theorem not_isReady_of_isInFlight (hf : h.IsInFlight) :
    ¬ h.IsReady := by
  obtain ⟨m, hm, hstatus⟩ := hf
  rintro ⟨m', hm', hready⟩
  obtain rfl := Option.mem_unique hm hm'
  rw [hready] at hstatus
  cases hstatus

theorem expiresAt_eq_none_of_isReady (hr : h.IsReady) :
    h.expiresAt = none := by
  obtain ⟨m, hm, hready⟩ := hr
  exact h.persistent fun m' hm' => Option.mem_unique hm hm' ▸ hready

theorem isInFlight_of_mem {m : StockManifest Security}
    (hm : h.manifest = some m) (hne : m.status ≠ .ready) : h.IsInFlight := by
  refine ⟨m, hm, ?_⟩
  cases hstatus : m.status with
  | hydrating => rfl
  | ready => exact absurd hstatus hne

/-- A generation in flight under another deadline. -/
def retime (h : Holding Security Payload) (hf : h.IsInFlight) (d : Option ℕ) :
    Holding Security Payload where
  manifest := h.manifest
  rows := h.rows
  expiresAt := d
  persistent := by
    intro hready
    obtain ⟨m, hm, hstatus⟩ := hf
    rw [hready m hm] at hstatus
    cases hstatus

theorem isInFlight_of_expiresAt (hd : h.expiresAt ≠ none) :
    h.IsInFlight := by
  by_contra hne
  refine hd (h.persistent fun m hm => ?_)
  cases hm' : m.status with
  | ready => rfl
  | hydrating => exact absurd ⟨m, hm, hm'⟩ hne

@[simp] theorem not_isReady_inFlight (hydrating : HydratingManifest Security)
    (rows : OwnKey → Option Payload) (d : Option ℕ) : ¬ (inFlight hydrating rows d).IsReady :=
  not_isReady_of_isInFlight ⟨hydrating.1, rfl, hydrating.2⟩

@[simp] theorem isReady_published (ready : ReadyManifest Security)
    (rows : OwnKey → Option Payload) : (published ready rows).IsReady :=
  ⟨ready.1, rfl, ready.2⟩

@[simp] theorem not_isReady_empty : ¬ (empty : Holding Security Payload).IsReady := by
  rintro ⟨m, hm, -⟩
  cases hm

@[simp] theorem not_isInFlight_empty : ¬ (empty : Holding Security Payload).IsInFlight := by
  rintro ⟨m, hm, -⟩
  cases hm

end Holding

/-- `h'` is `h` under another deadline, persistent or not as `h` is. -/
structure Retimed (h h' : Holding Security Payload) : Prop where
  manifest : h'.manifest = h.manifest
  rows : h'.rows = h.rows
  persistent : h'.expiresAt = none ↔ h.expiresAt = none

/-- The recorded moves. -/
inductive Acts : Act Security Payload → Residence Security Payload → Residence Security Payload → Prop
  /-- A hydration replaces every key; it is persistent exactly in the protected tier. -/
  | began {r : Residence Security Payload} {hydrating : HydratingManifest Security} {d : Option ℕ}
      {designated : Bool} (hd : d = none ↔ designated = true)
      (hdesignated : r.designated = true → designated = true) :
      Acts (.began hydrating) r ⟨.inFlight hydrating (fun _ => none) d, false, designated⟩
  /-- A refresh keeps the rows of the ready generation it observed. -/
  | refreshed {r : Residence Security Payload} {hydrating : HydratingManifest Security}
      {d : Option ℕ} {designated : Bool} (hready : r.holding.IsReady)
      (hd : d = none ↔ designated = true)
      (hdesignated : r.designated = true → designated = true) :
      Acts (.refreshed hydrating) r ⟨.inFlight hydrating r.holding.rows d, false, designated⟩
  /-- A write joins the rows; a fenced one only those of its own generation. -/
  | wrote {r : Residence Security Payload} {k : OwnKey} {v : Payload}
      {fence : Option (HydratingManifest Security)} {h' : Holding Security Payload}
      (hfence : ∀ hydrating ∈ fence, r.holding.manifest = some hydrating.1)
      (hh' : Retimed (r.holding.setRow k v) h') :
      Acts (.wrote k v fence) r ⟨h', r.resident, r.designated⟩
  /-- A publication over exactly its own generation, counted by exactly one tier. -/
  | published {r : Residence Security Payload} {ready : ReadyManifest Security}
      {fence : Option (HydratingManifest Security)} {resident designated : Bool}
      (hfence : r.holding.manifest = fence.map Subtype.val)
      (htier : resident = !designated)
      (hdesignated : r.designated = true → designated = true) :
      Acts (.published ready fence) r ⟨.published ready r.holding.rows, resident, designated⟩

/-- The other moves. Only a script that removes the designation of the security (`demotes`) can
undesignate it. -/
inductive Quiet (demotes : Prop) :
    Residence Security Payload → Residence Security Payload → Prop
  /-- A renewal or an extension of a lifetime. -/
  | retimed {r : Residence Security Payload} {h' : Holding Security Payload}
      (hh' : Retimed r.holding h') : Quiet demotes r ⟨h', r.resident, r.designated⟩
  /-- An access of a ready security outside the protected tier. -/
  | accessed {r : Residence Security Payload} (hready : r.holding.IsReady)
      (hdesignated : r.designated = false) : Quiet demotes r ⟨r.holding, true, false⟩
  /-- A designation. -/
  | designated {r : Residence Security Payload} : Quiet demotes r ⟨r.holding, false, true⟩
  /-- A designation removed: a ready security joins the LRU, one in flight expires from now on. -/
  | undesignated {r : Residence Security Payload} {h' : Holding Security Payload} {resident : Bool}
      (hdemotes : demotes) (hdesignated : r.designated = true)
      (hmanifest : h'.manifest = r.holding.manifest)
      (hrows : h'.rows = r.holding.rows) (hinFlight : h'.IsInFlight → h'.expiresAt ≠ none)
      (hready : resident = true ↔ r.holding.IsReady ∨ r.resident = true) :
      Quiet demotes r ⟨h', resident, false⟩
  /-- An eviction or an invalidation. -/
  | dropped {r : Residence Security Payload} : Quiet demotes r ⟨.empty, false, r.designated⟩
  /-- The passing of time. -/
  | elapsed {r : Residence Security Payload} (now : ℕ) :
      Quiet demotes r ⟨r.holding.at now, r.resident, r.designated⟩

/-! ### What the tiers promise -/

/-- One tier at most counts a security, only a ready one is in the LRU, every ready one is counted,
and one in flight outside the protected tier expires. -/
structure Residence.Sound (r : Residence Security Payload) : Prop where
  disjoint : r.resident = true → r.designated = false
  resident_ready : r.resident = true → r.holding.IsReady
  ready_counted : r.holding.IsReady → r.resident = true ∨ r.designated = true
  inFlight_expires : r.holding.IsInFlight → r.designated = false → r.holding.expiresAt ≠ none

theorem Retimed.isReady_iff {h h' : Holding Security Payload} (hh' : Retimed h h') :
    h'.IsReady ↔ h.IsReady := by
  rw [Holding.IsReady, hh'.manifest, Holding.IsReady]

theorem Retimed.isInFlight_iff {h h' : Holding Security Payload} (hh' : Retimed h h') :
    h'.IsInFlight ↔ h.IsInFlight := by
  rw [Holding.IsInFlight, hh'.manifest, Holding.IsInFlight]

namespace Residence.Sound

variable {r r' : Residence Security Payload}

theorem empty : Sound (⟨.empty, false, false⟩ : Residence Security Payload) where
  disjoint h := Bool.noConfusion h
  resident_ready h := Bool.noConfusion h
  ready_counted h := absurd h Holding.not_isReady_empty
  inFlight_expires h := absurd h Holding.not_isInFlight_empty

theorem retimed (hr : r.Sound) {h h' : Holding Security Payload} (hh' : Retimed h h')
    (hmanifest : h.manifest = r.holding.manifest) (hd : h.expiresAt = r.holding.expiresAt) :
    Sound ⟨h', r.resident, r.designated⟩ where
  disjoint := hr.disjoint
  resident_ready hres := by
    rw [hh'.isReady_iff, Holding.IsReady, hmanifest]
    exact hr.resident_ready hres
  ready_counted hready := by
    rw [hh'.isReady_iff, Holding.IsReady, hmanifest] at hready
    exact hr.ready_counted hready
  inFlight_expires hf hdes hnone := by
    rw [hh'.isInFlight_iff, Holding.IsInFlight, hmanifest] at hf
    have hbefore := hh'.persistent.mp hnone
    rw [hd] at hbefore
    exact hr.inFlight_expires hf hdes hbefore

theorem inFlight {hydrating : HydratingManifest Security} {rows : OwnKey → Option Payload}
    {d : Option ℕ} {designated : Bool} (hd : d = none ↔ designated = true) :
    Sound ⟨.inFlight hydrating rows d, false, designated⟩ where
  disjoint := nofun
  resident_ready := nofun
  ready_counted h := absurd h (Holding.not_isReady_inFlight hydrating rows d)
  inFlight_expires _ hdes hnone := Bool.false_ne_true (hdes.symm.trans (hd.mp hnone))

theorem of_acts {a : Act Security Payload} (hr : r.Sound) (h : Acts a r r') : r'.Sound := by
  cases h with
  | began hd => exact .inFlight hd
  | refreshed _ hd => exact .inFlight hd
  | wrote hfence hh' => exact hr.retimed hh' rfl rfl
  | @published r ready _ resident designated hfence htier _ =>
    have hready := Holding.isReady_published ready r.holding.rows
    refine ⟨fun hres => ?_, fun _ => hready, fun _ => ?_, fun hf => ?_⟩
    · exact (Bool.not_eq_eq_eq_not.mp (htier.symm.trans hres))
    · subst htier
      cases designated
      · exact .inl rfl
      · exact .inr rfl
    · exact absurd hready (Holding.not_isReady_of_isInFlight hf)

theorem of_quiet (hr : r.Sound) (h : Quiet demotes r r') : r'.Sound := by
  cases h with
  | retimed hh' => exact hr.retimed hh' rfl rfl
  | accessed hready hdes =>
    exact ⟨fun _ => rfl, fun _ => hready, fun _ => .inl rfl,
      fun hf => absurd hready (Holding.not_isReady_of_isInFlight hf)⟩
  | designated =>
    exact ⟨nofun, nofun, fun _ => .inr rfl, fun _ (hdes : true = false) => Bool.noConfusion hdes⟩
  | @undesignated h' resident _ hdes hmanifest hrows hinFlight hready =>
    have hsame : h'.IsReady ↔ r.holding.IsReady := by
      rw [Holding.IsReady, hmanifest, Holding.IsReady]
    refine ⟨fun _ => rfl, fun hres => hsame.mpr ?_, fun h => .inl (hready.mpr (.inl (hsame.mp h))),
      fun hf _ => hinFlight hf⟩
    rcases hready.mp hres with h | h
    · exact h
    · exact hr.resident_ready h
  | dropped =>
    exact ⟨nofun, nofun, fun h => absurd h Holding.not_isReady_empty,
      fun h => absurd h Holding.not_isInFlight_empty⟩
  | elapsed now =>
    unfold Holding.at
    split
    · exact hr
    case isFalse hlive =>
      -- what expired was in flight, so the LRU did not count it
      have hf : r.holding.IsInFlight := by
        refine Holding.isInFlight_of_expiresAt fun hnone => hlive ?_
        rw [hnone]
        rfl
      refine ⟨hr.disjoint, fun hres => ?_, fun h => absurd h Holding.not_isReady_empty,
        fun h => absurd h Holding.not_isInFlight_empty⟩
      exact absurd (hr.resident_ready hres) (Holding.not_isReady_of_isInFlight hf)

end Residence.Sound

end FactorSage.StockCache
