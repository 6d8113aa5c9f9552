import FactorSage.StockCache.Tiers

/-!
# A reader and the generations

A read is three commands with anything between them: the manifest, one `MGET` of the year chunks,
the manifest again. `readDailyPrices` and `readDailyDerivedState` are what the caller gets, as a
function of the three stores the commands found.

A refresh keeps the chunks it does not rewrite, so a published manifest stands for a line of
generations, `lineage`: the hydration that replaced every key and the refreshes since. The chunks of
a read that is served are those the lineage of the manifest it observed had written when that
manifest was published (`readsOneLineage_runOf`), and a generation that is no longer in place never
writes or publishes again.
-/

namespace FactorSage.StockCache

variable {Security Symbol Payload : Type} [LinearOrder Security] [DecidableEq Symbol]

/-! ### Reads -/

section Read

variable {Date Row : Type} [LinearOrder Date]

/-- An inclusive range of dates. -/
structure DateRange (Date : Type) where
  first : Date
  last : Date

/-- `yearsInRange`: the years from that of the first date to that of the last. -/
def yearsInRange (yearOf : Date → ℕ) (range : DateRange Date) : List ℕ :=
  List.range' (yearOf range.first) (yearOf range.last + 1 - yearOf range.first)

/-- The rows of every year, or nothing when a year is missing or cannot be decoded. -/
def decodeYears (payloadOf : ℕ → Option Payload) (decode : ℕ → Payload → Option (List Row)) :
    List ℕ → Option (List Row)
  | [] => some []
  | year :: years =>
    match (payloadOf year).bind (decode year) with
    | none => none
    | some rows => (decodeYears payloadOf decode years).map (rows ++ ·)

/-- `readDailyPrices`, from the store each of its commands found: the first manifest, the `MGET`,
and the manifest again. -/
def readDailyPrices (yearOf : Date → ℕ) (dateOf : Row → Date)
    (decode : Payload → Option (List Row)) (s : Security) (range : DateRange Date)
    (first chunks second : Store Security Symbol Payload) : Option (List Row) :=
  match first.manifest? s with
  | none => none
  | some manifest =>
    if manifest.status ≠ .ready then none
    else
      let result := decodeYears (fun year => chunks.payloads.value? (.prices s year))
        (fun _ => decode) (yearsInRange yearOf range)
      if second.manifest? s ≠ some manifest then none
      else result.map fun rows =>
        (rows.filter fun row => range.first ≤ dateOf row ∧ dateOf row ≤ range.last).mergeSort
          fun a b => dateOf a ≤ dateOf b

/-- `readDailyDerivedState`: only under a manifest that declares the current encoding, each chunk
decoded against its own year and the range. -/
def readDailyDerivedState (encodingVersion : ℕ) (yearOf : Date → ℕ)
    (decode : DateRange Date → ℕ → Payload → Option (List Row)) (s : Security)
    (range : DateRange Date) (first chunks second : Store Security Symbol Payload) :
    Option (List Row) :=
  match first.manifest? s with
  | none => none
  | some manifest =>
    if manifest.status ≠ .ready ∨ manifest.dailyStateEncodingVersion ≠ encodingVersion then none
    else if second.manifest? s ≠ some manifest then none
    else
      decodeYears (fun year => chunks.payloads.value? (.dailyState s year)) (decode range)
        (yearsInRange yearOf range)

/-- A decoded range has every year of it. -/
theorem payload_of_decodeYears {payloadOf : ℕ → Option Payload}
    {decode : ℕ → Payload → Option (List Row)} {years : List ℕ} {rows : List Row}
    (h : decodeYears payloadOf decode years = some rows) :
    ∀ year ∈ years, ∃ payload, payloadOf year = some payload := by
  induction years generalizing rows with
  | nil => exact fun year hyear => absurd hyear List.not_mem_nil
  | cons first years ih =>
    rw [decodeYears] at h
    split at h
    · cases h
    next hfirst =>
      obtain ⟨rest, hrest, -⟩ := Option.map_eq_some_iff.mp h
      obtain ⟨payload, hpayload, -⟩ := Option.bind_eq_some_iff.mp hfirst
      intro year hyear
      rcases List.mem_cons.mp hyear with rfl | hyear
      · exact ⟨payload, hpayload⟩
      · exact ih hrest year hyear

end Read

/-! ### Lineages -/

/-- The generations whose chunks the one in place keeps, itself first. -/
def extendLineage (lineage : List (HydratingManifest Security)) :
    Act Security Payload → List (HydratingManifest Security)
  | .began hydrating => [hydrating]
  | .refreshed hydrating => hydrating :: lineage
  | .wrote _ _ _ => lineage
  | .published _ _ => lineage

def lineage (acts : List (Act Security Payload)) : List (HydratingManifest Security) :=
  acts.foldl extendLineage []

/-- Each key's last write since every key was replaced: its payload and its fence. -/
def recordWrite (written : OwnKey → Option (Payload × Option (HydratingManifest Security))) :
    Act Security Payload → OwnKey → Option (Payload × Option (HydratingManifest Security))
  | .began _ => fun _ => none
  | .refreshed _ => written
  | .wrote k v fence => Function.update written k (some (v, fence))
  | .published _ _ => written

def lastWrite (acts : List (Act Security Payload)) :
    OwnKey → Option (Payload × Option (HydratingManifest Security)) :=
  acts.foldl recordWrite fun _ => none

omit [LinearOrder Security] in
theorem lineage_append_singleton (acts : List (Act Security Payload)) (a : Act Security Payload) :
    lineage (acts ++ [a]) = extendLineage (lineage acts) a := by
  rw [lineage, List.foldl_append]
  rfl

omit [LinearOrder Security] in
theorem lastWrite_append_singleton (acts : List (Act Security Payload))
    (a : Act Security Payload) : lastWrite (acts ++ [a]) = recordWrite (lastWrite acts) a := by
  rw [lastWrite, List.foldl_append]
  rfl

/-- Every chunk is written under the fence of a generation in flight. -/
def FencedChunks (acts : List (Act Security Payload)) : Prop :=
  ∀ k v, .wrote k v none ∈ acts → k = .identity

/-- The manifests generations were begun under. -/
def begunManifests (acts : List (Act Security Payload)) : List (HydratingManifest Security) :=
  acts.filterMap fun
    | .began hydrating => some hydrating
    | .refreshed hydrating => some hydrating
    | _ => none

/-- The manifests generations were published under. -/
def publishedManifests (acts : List (Act Security Payload)) : List (ReadyManifest Security) :=
  acts.filterMap fun
    | .published ready _ => some ready
    | _ => none

/-- Distinct generations have distinct payloads, in flight and published. -/
structure DistinctGenerations (acts : List (Act Security Payload)) : Prop where
  begun : (begunManifests acts).Nodup
  published : (publishedManifests acts).Nodup

/-- The last publication was of `ready`, by the newest generation of its lineage, and nothing was
written under a fence since. -/
structure PublishedAs (ready : ReadyManifest Security) (acts before : List (Act Security Payload))
    (fence : Option (HydratingManifest Security)) : Prop where
  since : ∃ after, acts = before ++ .published ready fence :: after ∧
    ∀ a ∈ after, ∃ k v, a = .wrote k v none
  newest : ∀ hydrating ∈ fence, (lineage before).head? = some hydrating

/-- The generation in flight is the newest of the lineage, every chunk held is the last one its
lineage wrote, and a published manifest is that of the last publication. -/
structure OfLineage (r : Residence Security Payload) (acts : List (Act Security Payload)) :
    Prop where
  newest : ∀ hydrating : HydratingManifest Security, r.holding.manifest = some hydrating.1 →
    (lineage acts).head? = some hydrating
  chunk : ∀ k v, k ≠ .identity → r.holding.rows k = some v →
    ∃ hydrating ∈ lineage acts, lastWrite acts k = some (v, some hydrating)
  published : ∀ ready : ReadyManifest Security, r.holding.manifest = some ready.1 →
    ∃ before fence, PublishedAs ready acts before fence

variable {r r' : Residence Security Payload} {acts : List (Act Security Payload)}

section

omit [LinearOrder Security]

theorem hydrating_ne_ready (hydrating : HydratingManifest Security)
    (ready : ReadyManifest Security) : hydrating.1 ≠ ready.1 := by
  intro h
  have hstatus := hydrating.2
  rw [h, ready.2] at hstatus
  cases hstatus

/-- A residence with no more than the manifest and the rows of another is of the same lineage. -/
theorem OfLineage.of_le (h : OfLineage r acts)
    (hmanifest : ∀ m ∈ r'.holding.manifest, r.holding.manifest = some m)
    (hrows : ∀ k v, r'.holding.rows k = some v → r.holding.rows k = some v) :
    OfLineage r' acts where
  newest hydrating hm := h.newest hydrating (hmanifest _ hm)
  chunk k v hk hv := h.chunk k v hk (hrows k v hv)
  published ready hm := h.published ready (hmanifest _ hm)

/-- What a quiet move leaves is no more than there was. -/
theorem Quiet.manifest_le {demotes : Prop} (h : Quiet demotes r r') :
    (∀ m ∈ r'.holding.manifest, r.holding.manifest = some m) ∧
      ∀ k v, r'.holding.rows k = some v → r.holding.rows k = some v := by
  cases h with
  | retimed hh' => exact ⟨fun m hm => hh'.manifest ▸ hm, fun k v hv => hh'.rows ▸ hv⟩
  | accessed => exact ⟨fun m hm => hm, fun k v hv => hv⟩
  | designated => exact ⟨fun m hm => hm, fun k v hv => hv⟩
  | undesignated _ _ hmanifest hrows =>
    exact ⟨fun m hm => hmanifest ▸ hm, fun k v hv => hrows ▸ hv⟩
  | dropped => exact ⟨fun m hm => (by cases hm), fun k v hv => (by cases hv)⟩
  | elapsed now =>
    change (∀ m ∈ (r.holding.at now).manifest, _) ∧ ∀ k v, (r.holding.at now).rows k = some v → _
    rw [Holding.at]
    split
    · exact ⟨fun m hm => hm, fun k v hv => hv⟩
    · exact ⟨fun m hm => (by cases hm), fun k v hv => (by cases hv)⟩

theorem FencedChunks.of_append {acts : List (Act Security Payload)} {a : Act Security Payload}
    (h : FencedChunks (acts ++ [a])) : FencedChunks acts :=
  fun k v hk => h k v (List.mem_append_left _ hk)

theorem OfLineage.of_acts {a : Act Security Payload} (h : OfLineage r acts) (ha : Acts a r r')
    (hfenced : FencedChunks (acts ++ [a])) : OfLineage r' (acts ++ [a]) := by
  -- a begun generation starts a lineage without chunks, a refreshed one keeps those it found
  cases ha with
  | @began _ hydrating d designated =>
    refine ⟨fun hydrating' hm => ?_, fun k v _ hv => (by cases hv), fun ready hm => ?_⟩
    · rw [lineage_append_singleton, extendLineage, List.head?_cons,
        Subtype.ext (Option.some.inj hm)]
    · exact absurd (Option.some.inj hm) (hydrating_ne_ready hydrating ready)
  | @refreshed _ hydrating d designated =>
    refine ⟨fun hydrating' hm => ?_, fun k v hk hv => ?_, fun ready hm => ?_⟩
    · rw [lineage_append_singleton, extendLineage, List.head?_cons,
        Subtype.ext (Option.some.inj hm)]
    · obtain ⟨writer, hwriter, hlast⟩ := h.chunk k v hk hv
      rw [lineage_append_singleton, lastWrite_append_singleton]
      exact ⟨writer, List.mem_cons_of_mem _ hwriter, hlast⟩
    · exact absurd (Option.some.inj hm) (hydrating_ne_ready hydrating ready)
  | @wrote _ k v fence h' hfence hh' =>
    have hmanifest : h'.manifest = r.holding.manifest := hh'.manifest
    refine ⟨fun hydrating hm => ?_, fun l w hl hw => ?_, fun ready hm => ?_⟩
    · rw [lineage_append_singleton]
      exact h.newest hydrating (hmanifest ▸ hm)
    · rw [lineage_append_singleton, lastWrite_append_singleton]
      change ∃ hydrating ∈ lineage acts, Function.update (lastWrite acts) k (some (v, fence)) l = _
      change h'.rows l = some w at hw
      rw [hh'.rows] at hw
      change Function.update r.holding.rows k (some v) l = some w at hw
      by_cases hlk : l = k
      · subst hlk
        rw [Function.update_self] at hw ⊢
        obtain rfl := Option.some.inj hw
        cases fence with
        | none => exact absurd (hfenced l v (List.mem_append_right _ List.mem_cons_self)) hl
        | some hydrating =>
          have hnewest := h.newest hydrating (hfence hydrating rfl)
          exact ⟨hydrating, List.mem_of_mem_head? hnewest, rfl⟩
      · rw [Function.update_of_ne hlk] at hw ⊢
        exact h.chunk l w hl hw
    · obtain ⟨before, fence', ⟨after, rfl, hafter⟩, hnewest⟩ :=
        h.published ready (hmanifest ▸ hm)
      -- the generation in place is ready, so what is written has no fence and is no chunk
      have hnone : fence = none := by
        cases hfence' : fence with
        | none => rfl
        | some hydrating =>
          have hin := hfence hydrating hfence'
          rw [← hmanifest] at hin
          exact absurd (Option.some.inj (hin.symm.trans hm)) (hydrating_ne_ready hydrating ready)
      refine ⟨before, fence', ⟨after ++ [.wrote k v fence], by simp, fun a ha => ?_⟩, hnewest⟩
      rcases List.mem_append.mp ha with ha | ha
      · exact hafter a ha
      · exact ⟨k, v, by rw [List.mem_singleton.mp ha, hnone]⟩
  | @published _ ready fence resident designated hfence =>
    refine ⟨fun hydrating hm => ?_, fun k v hk hv => ?_, fun ready' hm => ?_⟩
    · exact absurd (Option.some.inj hm).symm (hydrating_ne_ready hydrating ready)
    · rw [lineage_append_singleton, lastWrite_append_singleton]
      exact h.chunk k v hk hv
    · obtain rfl := Subtype.ext (Option.some.inj hm)
      refine ⟨acts, fence, ⟨[], rfl, fun a ha => absurd ha List.not_mem_nil⟩, fun hydrating hh => ?_⟩
      refine h.newest hydrating ?_
      rw [hfence, Option.mem_def.mp hh, Option.map_some]

theorem inductive_ofLineage :
    Inductive fun (r : Residence Security Payload) acts => FencedChunks acts → OfLineage r acts where
  start _ := ⟨fun _ h => (by cases h), fun _ _ _ h => (by cases h), fun _ h => (by cases h)⟩
  acts _ ha hp hfenced := (hp hfenced.of_append).of_acts ha hfenced
  quiet _ hq hp hfenced := (hp hfenced).of_le hq.manifest_le.1 hq.manifest_le.2

end

/-! ### A manifest that comes back -/

/-- The manifest an act puts in place. -/
def Act.manifest? : Act Security Payload → Option (StockManifest Security)
  | .began hydrating => some hydrating.1
  | .refreshed hydrating => some hydrating.1
  | .published ready _ => some ready.1
  | .wrote _ _ _ => none

section

omit [LinearOrder Security]

variable {m : StockManifest Security}

/-- A manifest in place was there before, or the act put it there. -/
theorem Acts.manifest_eq {a : Act Security Payload} (h : Acts a r r')
    (hm : r'.holding.manifest = some m) :
    r.holding.manifest = some m ∨ a.manifest? = some m := by
  cases h with
  | began => exact .inr hm
  | refreshed => exact .inr hm
  | wrote _ hh' => exact .inl (hh'.manifest ▸ hm)
  | published => exact .inr hm

theorem manifest_eq_of_reflTransGen {demotes : Prop}
    (h : Relation.ReflTransGen (Quiet demotes) r r')
    (hm : r'.holding.manifest = some m) : r.holding.manifest = some m := by
  induction h with
  | refl => exact hm
  | tail _ hmove ih => exact ih (hmove.manifest_le.1 m hm)

theorem Evolves.manifest_eq {demotes : Prop} {a : Option (Act Security Payload)}
    (h : Evolves demotes a r r') (hm : r'.holding.manifest = some m) :
    r.holding.manifest = some m ∨ ∃ act ∈ a, act.manifest? = some m := by
  cases h with
  | quiet h => exact .inl (manifest_eq_of_reflTransGen h hm)
  | acted ha h =>
    rcases ha.manifest_eq (manifest_eq_of_reflTransGen h hm) with h | h
    · exact .inl h
    · exact .inr ⟨_, rfl, h⟩

end

variable {symbolOf : Security → Symbol} {capacity : ℕ} {s : Security}

/-- What later events add to the acts of `s`, and whether they put a manifest in place. -/
theorem exists_acts_runOf_append (hsymbol : symbolOf.Injective)
    (events later : List (Event Security Payload)) (s : Security) :
    ∃ acts, (runOf symbolOf capacity (events ++ later)).acts s =
        (runOf symbolOf capacity events).acts s ++ acts ∧
      ∀ m, (runOf symbolOf capacity (events ++ later)).store.manifest? s = some m →
        (runOf symbolOf capacity events).store.manifest? s = some m ∨
          ∃ act ∈ acts, act.manifest? = some m := by
  induction later using List.reverseRecOn with
  | nil => exact ⟨[], by simp, fun m hm => .inl (by rwa [List.append_nil] at hm)⟩
  | append_singleton later e ih =>
    obtain ⟨acts, hacts, hmanifest⟩ := ih
    obtain ⟨r, hr⟩ := housed_runOf hsymbol (events ++ later) s
    rw [← List.append_assoc, runOf_append_singleton]
    cases e with
    | command c =>
      obtain ⟨r', hr', hevolves⟩ := evolves_execute hsymbol (housed_runOf hsymbol _) hr
      refine ⟨acts ++ _, by rw [← List.append_assoc, ← hacts]; rfl, fun m hm => ?_⟩
      rcases hevolves.manifest_eq (hr'.manifest?_eq.symm.trans hm) with h | ⟨act, hact, h⟩
      · rcases hmanifest m (hr.manifest?_eq.trans h) with h | ⟨act, hact, h⟩
        · exact .inl h
        · exact .inr ⟨act, List.mem_append_left _ hact, h⟩
      · exact .inr ⟨act, List.mem_append_right _ (Option.mem_toList.mpr hact), h⟩
    | elapse ms =>
      refine ⟨acts, hacts, fun m hm => hmanifest m ?_⟩
      have hle := (@Quiet.elapsed _ _ False r
        ((runOf symbolOf capacity (events ++ later)).store.now + ms)).manifest_le.1
      exact hr.manifest?_eq.trans (hle m ((hr.elapse ms).manifest?_eq.symm.trans hm))

section

omit [LinearOrder Security]

theorem mem_begunManifests {hydrating : HydratingManifest Security} {a : Act Security Payload}
    (ha : a ∈ acts) (hm : a.manifest? = some hydrating.1) : hydrating ∈ begunManifests acts := by
  refine List.mem_filterMap.mpr ⟨a, ha, ?_⟩
  cases a with
  | began h => exact congrArg some (Subtype.ext (Option.some.inj hm))
  | refreshed h => exact congrArg some (Subtype.ext (Option.some.inj hm))
  | wrote => cases hm
  | published ready => exact absurd (Option.some.inj hm).symm (hydrating_ne_ready hydrating ready)

theorem mem_publishedManifests {ready : ReadyManifest Security} {a : Act Security Payload}
    (ha : a ∈ acts) (hm : a.manifest? = some ready.1) : ready ∈ publishedManifests acts := by
  refine List.mem_filterMap.mpr ⟨a, ha, ?_⟩
  cases a with
  | began hydrating => exact absurd (Option.some.inj hm) (hydrating_ne_ready hydrating ready)
  | refreshed hydrating => exact absurd (Option.some.inj hm) (hydrating_ne_ready hydrating ready)
  | wrote => cases hm
  | published => exact congrArg some (Subtype.ext (Option.some.inj hm))

theorem DistinctGenerations.of_append {acts' : List (Act Security Payload)}
    (h : DistinctGenerations (acts ++ acts')) : DistinctGenerations acts where
  begun := by
    have := h.begun
    rw [begunManifests, List.filterMap_append] at this
    exact this.of_append_left
  published := by
    have := h.published
    rw [publishedManifests, List.filterMap_append] at this
    exact this.of_append_left

theorem FencedChunks.of_append_left {acts' : List (Act Security Payload)}
    (h : FencedChunks (acts ++ acts')) : FencedChunks acts :=
  fun k v hk => h k v (List.mem_append_left _ hk)

end

theorem ofLineage_runOf (hsymbol : symbolOf.Injective) (events : List (Event Security Payload))
    (hfenced : FencedChunks ((runOf symbolOf capacity events).acts s)) :
    ∃ r, Represents symbolOf (runOf symbolOf capacity events).store s r ∧
      OfLineage r ((runOf symbolOf capacity events).acts s) := by
  obtain ⟨r, hr, -, hp⟩ := inductive_ofLineage.runOf hsymbol events s
  exact ⟨r, hr, hp hfenced⟩

omit [LinearOrder Security] in
/-- What was written under no fence since a publication is no chunk. -/
theorem chunk_of_publishedAs {ready : ReadyManifest Security}
    {before : List (Act Security Payload)} {fence : Option (HydratingManifest Security)}
    (h : PublishedAs ready acts before fence) (hfenced : FencedChunks acts) :
    lineage acts = lineage before ∧ ∀ k, k ≠ .identity → lastWrite acts k = lastWrite before k := by
  obtain ⟨after, rfl, hafter⟩ := h.since
  have hsuffix : ∀ after : List (Act Security Payload),
      (∀ a ∈ after, ∃ v, a = .wrote .identity v none) →
        lineage (before ++ .published ready fence :: after) = lineage before ∧
          ∀ k, k ≠ .identity →
            lastWrite (before ++ .published ready fence :: after) k = lastWrite before k := by
    intro after
    induction after using List.reverseRecOn with
    | nil =>
      intro _
      rw [lineage_append_singleton, lastWrite_append_singleton]
      exact ⟨rfl, fun _ _ => rfl⟩
    | append_singleton after a ih =>
      intro hafter
      obtain ⟨hlineage, hlast⟩ := ih fun a ha => hafter a (List.mem_append_left _ ha)
      obtain ⟨v, rfl⟩ := hafter a (List.mem_append_right _ List.mem_cons_self)
      rw [← List.cons_append, ← List.append_assoc, lineage_append_singleton,
        lastWrite_append_singleton]
      refine ⟨hlineage, fun k hk => ?_⟩
      rw [← hlast k hk]
      exact Function.update_of_ne hk _ _
  refine hsuffix after fun a ha => ?_
  obtain ⟨k, v, rfl⟩ := hafter a ha
  have hk := hfenced k v (List.mem_append_right _ (List.mem_cons_of_mem _ ha))
  exact ⟨v, by rw [hk]⟩

/-- Every chunk of these years was there when `ready` was published, and its last writer was of the
lineage that published it. -/
def ServedByLineage (symbolOf : Security → Symbol) (run : Run Security Symbol Payload)
    (s : Security) (ready : ReadyManifest Security) (chunkOf : ℕ → OwnKey) (years : List ℕ) :
    Prop :=
  ∃ before fence, PublishedAs ready (run.acts s) before fence ∧
    ∀ year ∈ years, ∃ payload, ∃ writer ∈ lineage before,
      run.store.payloads.value? (payloadKey symbolOf s (chunkOf year)) = some payload ∧
        lastWrite before (chunkOf year) = some (payload, some writer)

section Between

variable (hsymbol : symbolOf.Injective) {before during after : List (Event Security Payload)}
  (hdistinct : DistinctGenerations
    ((runOf symbolOf capacity (before ++ during ++ after)).acts s))
  (hfenced : FencedChunks ((runOf symbolOf capacity (before ++ during ++ after)).acts s))
  {ready : ReadyManifest Security}
  (hfirst : (runOf symbolOf capacity before).store.manifest? s = some ready.1)
  (hsecond : (runOf symbolOf capacity (before ++ during ++ after)).store.manifest? s =
    some ready.1)

include hsymbol hdistinct hfenced hfirst hsecond

/-- A manifest that a reader finds at both ends of its read was there all along. -/
theorem manifest_between :
    (runOf symbolOf capacity (before ++ during)).store.manifest? s = some ready.1 := by
  obtain ⟨acts₁, hacts₁, -⟩ := exists_acts_runOf_append hsymbol before during s
  obtain ⟨acts₂, hacts₂, hmanifest⟩ := exists_acts_runOf_append hsymbol (before ++ during) after s
  refine (hmanifest ready.1 hsecond).resolve_right ?_
  rintro ⟨a, ha, hm⟩
  -- published once before the read and once after its chunks were read
  rw [hacts₂, hacts₁] at hdistinct hfenced
  obtain ⟨r, hr, hlineage⟩ := ofLineage_runOf hsymbol before hfenced.of_append_left.of_append_left
  obtain ⟨published, fence, ⟨since, hsince, -⟩, -⟩ :=
    hlineage.published ready (hr.manifest?_eq.symm.trans hfirst)
  have hbefore : ready ∈ publishedManifests ((runOf symbolOf capacity before).acts s) :=
    mem_publishedManifests (a := .published ready fence) (by rw [hsince]; simp) rfl
  have hnodup := hdistinct.published
  rw [publishedManifests, List.filterMap_append, List.filterMap_append] at hnodup
  exact List.disjoint_of_nodup_append hnodup
    (List.mem_append_left _ hbefore) (mem_publishedManifests ha hm)

theorem servedByLineage {chunkOf : ℕ → OwnKey} (hchunk : ∀ year, chunkOf year ≠ .identity)
    {years : List ℕ} (hpresent : ∀ year ∈ years, ∃ payload,
      (runOf symbolOf capacity (before ++ during)).store.payloads.value?
        (payloadKey symbolOf s (chunkOf year)) = some payload) :
    ServedByLineage symbolOf (runOf symbolOf capacity (before ++ during)) s ready chunkOf years := by
  have hbetween := manifest_between hsymbol hdistinct hfenced hfirst hsecond
  obtain ⟨acts, hacts, -⟩ := exists_acts_runOf_append hsymbol (before ++ during) after s
  rw [hacts] at hfenced
  have hfenced' := hfenced.of_append_left
  obtain ⟨r, hr, hlineage⟩ := ofLineage_runOf hsymbol (before ++ during) hfenced'
  obtain ⟨published, fence, hpublished⟩ :=
    hlineage.published ready (hr.manifest?_eq.symm.trans hbetween)
  obtain ⟨hline, hlast⟩ := chunk_of_publishedAs hpublished hfenced'
  refine ⟨published, fence, hpublished, fun year hyear => ?_⟩
  obtain ⟨payload, hpayload⟩ := hpresent year hyear
  obtain ⟨writer, hwriter, hwrite⟩ := hlineage.chunk (chunkOf year) payload (hchunk year)
    ((hr.holds.contents.rows _).symm.trans hpayload)
  exact ⟨payload, writer, hline ▸ hwriter, hpayload, (hlast _ (hchunk year)).symm.trans hwrite⟩

end Between

/-- A generation that is no longer in place never comes back. -/
theorem manifest_ne_of_begun (hsymbol : symbolOf.Injective)
    {events later : List (Event Security Payload)}
    (hdistinct : DistinctGenerations ((runOf symbolOf capacity (events ++ later)).acts s))
    {hydrating : HydratingManifest Security}
    (hbegun : hydrating ∈ begunManifests ((runOf symbolOf capacity events).acts s))
    (hgone : (runOf symbolOf capacity events).store.manifest? s ≠ some hydrating.1) :
    (runOf symbolOf capacity (events ++ later)).store.manifest? s ≠ some hydrating.1 := by
  intro hm
  obtain ⟨acts, hacts, hmanifest⟩ := exists_acts_runOf_append hsymbol events later s
  rcases hmanifest _ hm with h | ⟨a, ha, h⟩
  · exact hgone h
  · have hnodup := hdistinct.begun
    rw [hacts, begunManifests, List.filterMap_append] at hnodup
    exact List.disjoint_of_nodup_append hnodup hbegun (mem_begunManifests ha h)

/-- The generation can neither write nor publish: its scripts are refused and change nothing. -/
def Fenced (symbolOf : Security → Symbol) (capacity : ℕ) (st : Store Security Symbol Payload)
    (s : Security) (hydrating : HydratingManifest Security) : Prop :=
  (∀ k v ttl, execute symbolOf capacity st (.setRegistered s k v (some hydrating) ttl) =
      (st, .refused)) ∧
    ∀ ready tier, execute symbolOf capacity st (.publishReady s ready (some hydrating) tier) =
      (st, .refused)

theorem fenced_of_ne {st : Store Security Symbol Payload} {hydrating : HydratingManifest Security}
    (h : st.manifest? s ≠ some hydrating.1) : Fenced symbolOf capacity st s hydrating := by
  refine ⟨fun k v ttl => ?_, fun ready tier => ?_⟩
  · simp [execute, setRegistered, writeLifetime, h]
  · rw [execute, publishReady, Option.map_some, if_pos h]

/-- **A reader never mixes generations.** Distinct generations having distinct payloads and every
chunk being written under a fence, whatever happens between the commands of a read that is served:
no chunk of its range is missing, and each is the one the lineage of the manifest it observed had
written when that manifest was published. And a generation begun before and no longer in place never
writes or publishes again. -/
theorem readsOneLineage_runOf (hsymbol : symbolOf.Injective)
    (before during after : List (Event Security Payload))
    (hdistinct : DistinctGenerations
      ((runOf symbolOf capacity (before ++ during ++ after)).acts s))
    (hfenced : FencedChunks ((runOf symbolOf capacity (before ++ during ++ after)).acts s)) :
    (∀ {Date Row : Type} [LinearOrder Date] (yearOf : Date → ℕ) (dateOf : Row → Date)
        (decode : Payload → Option (List Row)) (range : DateRange Date) (rows : List Row),
      readDailyPrices yearOf dateOf decode s range (runOf symbolOf capacity before).store
          (runOf symbolOf capacity (before ++ during)).store
          (runOf symbolOf capacity (before ++ during ++ after)).store = some rows →
        ∃ ready, (runOf symbolOf capacity before).store.manifest? s = some ready.1 ∧
          ServedByLineage symbolOf (runOf symbolOf capacity (before ++ during)) s ready .prices
            (yearsInRange yearOf range)) ∧
      (∀ {Date Row : Type} [LinearOrder Date] (encodingVersion : ℕ) (yearOf : Date → ℕ)
        (decode : DateRange Date → ℕ → Payload → Option (List Row)) (range : DateRange Date)
        (rows : List Row),
      readDailyDerivedState encodingVersion yearOf decode s range
          (runOf symbolOf capacity before).store (runOf symbolOf capacity (before ++ during)).store
          (runOf symbolOf capacity (before ++ during ++ after)).store = some rows →
        ∃ ready, (runOf symbolOf capacity before).store.manifest? s = some ready.1 ∧
          ServedByLineage symbolOf (runOf symbolOf capacity (before ++ during)) s ready .dailyState
            (yearsInRange yearOf range)) ∧
      ∀ hydrating ∈ begunManifests ((runOf symbolOf capacity before).acts s),
        (runOf symbolOf capacity before).store.manifest? s ≠ some hydrating.1 →
          Fenced symbolOf capacity (runOf symbolOf capacity (before ++ during)).store s
            hydrating := by
  refine ⟨fun yearOf dateOf decode range rows hread => ?_,
    fun encodingVersion yearOf decode range rows hread => ?_, fun hydrating hbegun hgone => ?_⟩
  · -- served: the manifest read again at the end is the ready one read first
    rw [readDailyPrices] at hread
    split at hread
    · cases hread
    next manifest hfirst =>
    split at hread
    · cases hread
    next hready =>
    simp only at hread
    split at hread
    · cases hread
    next hsecond =>
    obtain ⟨decoded, hdecoded, -⟩ := Option.map_eq_some_iff.mp hread
    exact ⟨⟨manifest, not_not.mp hready⟩, hfirst,
      servedByLineage hsymbol hdistinct hfenced hfirst (not_not.mp hsecond)
        (fun _ => OwnKey.noConfusion) (payload_of_decodeYears hdecoded)⟩
  · rw [readDailyDerivedState] at hread
    split at hread
    · cases hread
    next manifest hfirst =>
    split at hread
    · cases hread
    next hready =>
    split at hread
    · cases hread
    next hsecond =>
    exact ⟨⟨manifest, not_not.mp fun h => hready (.inl h)⟩, hfirst,
      servedByLineage hsymbol hdistinct hfenced hfirst (not_not.mp hsecond)
        (fun _ => OwnKey.noConfusion) (payload_of_decodeYears hread)⟩
  · obtain ⟨acts, hacts, -⟩ := exists_acts_runOf_append hsymbol (before ++ during) after s
    rw [hacts] at hdistinct
    exact fenced_of_ne (manifest_ne_of_begun hsymbol hdistinct.of_append hbegun hgone)

/-! ### A refresh in place -/

local instance neZeroLifetime : NeZero (900 : ℕ) := ⟨by decide⟩

/-- A hydration of two years, published, then a refresh that rewrites the second and is published. -/
def sampleRefresh : List (Event ℕ ℕ) :=
  [.command (.beginHydration 1 none (sampleHydrating 1 "a") 900 .L),
    .command (.setRegistered 1 (.prices 2020) 2020 (some (sampleHydrating 1 "a")) 900),
    .command (.setRegistered 1 (.prices 2021) 2021 (some (sampleHydrating 1 "a")) 900),
    .command (.publishReady 1 (sampleReady 1 "a") (some (sampleHydrating 1 "a")) .L),
    .command (.beginRefresh 1 (sampleReady 1 "a") (sampleHydrating 1 "b") 900 .L),
    .command (.setRegistered 1 (.prices 2021) 2021 (some (sampleHydrating 1 "b")) 900),
    .command (.publishReady 1 (sampleReady 1 "b") (some (sampleHydrating 1 "b")) .L)]

/-- What those scripts record before the last publication. -/
def sampleRefreshActs : List (Act ℕ ℕ) :=
  [.began (sampleHydrating 1 "a"),
    .wrote (.prices 2020) 2020 (some (sampleHydrating 1 "a")),
    .wrote (.prices 2021) 2021 (some (sampleHydrating 1 "a")),
    .published (sampleReady 1 "a") (some (sampleHydrating 1 "a")),
    .refreshed (sampleHydrating 1 "b"),
    .wrote (.prices 2021) 2021 (some (sampleHydrating 1 "b"))]

theorem acts_sampleRefresh : (runOf id 2 sampleRefresh).acts 1 =
    sampleRefreshActs ++ [.published (sampleReady 1 "b") (some (sampleHydrating 1 "b"))] := rfl

theorem sampleHydrating_ne : sampleHydrating 1 "a" ≠ sampleHydrating 1 "b" := by decide

theorem distinct_sampleRefresh : DistinctGenerations ((runOf id 2 sampleRefresh).acts 1) where
  begun := by
    rw [acts_sampleRefresh]
    decide
  published := by
    rw [acts_sampleRefresh]
    decide

theorem fenced_sampleRefresh : FencedChunks ((runOf id 2 sampleRefresh).acts 1) := by
  intro k v h
  rw [acts_sampleRefresh] at h
  simp [sampleRefreshActs] at h

theorem read_sampleRefresh :
    readDailyPrices id id (fun payload => some [payload]) 1 ⟨2020, 2021⟩
        (runOf id 2 sampleRefresh).store (runOf id 2 sampleRefresh).store
        (runOf id 2 sampleRefresh).store = some [2020, 2021] := by
  change some (([2020, 2021] : List ℕ).mergeSort fun a b => decide (a ≤ b)) = _
  rw [List.mergeSort_of_pairwise (by decide)]

/-- The chunk a refresh does not rewrite is served under its manifest, written by the generation
before it. -/
theorem refresh_keeps_chunk :
    readDailyPrices id id (fun payload => some [payload]) 1 ⟨2020, 2021⟩
        (runOf id 2 sampleRefresh).store (runOf id 2 sampleRefresh).store
        (runOf id 2 sampleRefresh).store = some [2020, 2021] ∧
      (runOf id 2 sampleRefresh).store.manifest? 1 = some (sampleReady 1 "b").1 ∧
      (runOf id 2 sampleRefresh).acts 1 =
        sampleRefreshActs ++ [.published (sampleReady 1 "b") (some (sampleHydrating 1 "b"))] ∧
      lastWrite ((runOf id 2 sampleRefresh).acts 1) (.prices 2020) =
        some (2020, some (sampleHydrating 1 "a")) ∧
      sampleHydrating 1 "a" ≠ sampleHydrating 1 "b" :=
  ⟨read_sampleRefresh, rfl, rfl, rfl, sampleHydrating_ne⟩

/-- The read of that range after the refresh is served by the lineage of both generations. -/
theorem readsOneLineage_sample :
    ∃ ready, (runOf id 2 sampleRefresh).store.manifest? 1 = some ready.1 ∧
      ServedByLineage id (runOf id 2 sampleRefresh) 1 ready .prices [2020, 2021] := by
  have hreads := readsOneLineage_runOf Function.injective_id sampleRefresh [] []
    distinct_sampleRefresh fenced_sampleRefresh
  exact hreads.1 id id (fun payload => some [payload]) ⟨2020, 2021⟩ [2020, 2021]
    read_sampleRefresh

end FactorSage.StockCache
