import FactorSage.StockCache.Moves

/-!
# The LRU is in order of last touch

`touchedBy` is what a script touches: the member a read moves, the security an admission or a
publication puts into the LRU, the ready securities that lose their designation. The LRU's members,
oldest first, are always in the order of their last occurrence in the log of touches, so what
`enforceCapacity` evicts from its front was touched before everything it leaves
(`evicted_sublist_dedup`).
-/

namespace FactorSage.StockCache

variable {Security Symbol Payload : Type} [LinearOrder Security] [DecidableEq Symbol]

/-- The manifest of `s` is a ready one. -/
def Store.isReady (st : Store Security Symbol Payload) (s : Security) : Bool :=
  (st.manifest? s).any (·.status = .ready)

/-- The ready securities of `ids` that lose a designation, in the order they lose it. -/
def rejoining (st : Store Security Symbol Payload) : Finset Security → List Security → List Security
  | _, [] => []
  | designated, id :: ids =>
    if id ∈ designated then
      (if st.isReady id then [id] else []) ++ rejoining st (designated.erase id) ids
    else rejoining st designated ids

local instance lawfulSecurity : LawfulBEq Security := inferInstance

/-- The securities a script touches, in order. -/
def touchedBy (st : Store Security Symbol Payload) : Command Security Payload → List Security
  | .touchReady s =>
    if st.isReady s then
      if s ∉ st.protectedStocks ∧ s ∈ st.residentStocks.members then [s] else []
    else []
  | .admitResident s tier =>
    if st.isReady s then
      if s ∉ (st.route s tier).protectedStocks then [s] else []
    else []
  | .publishReady s _ fence tier =>
    if st.manifest? s = fence.map Subtype.val then
      if s ∉ (st.route s tier).protectedStocks then [s] else []
    else []
  | .unprotectStocks ids _ => rejoining st st.protectedStocks ids
  | _ => []

variable {st : Store Security Symbol Payload} {s : Security} {capacity : ℕ}
  {log : List Security} {symbolOf : Security → Symbol}

omit [DecidableEq Symbol] in
/-- The LRU's clock is past every score. -/
theorem lt_nextSequence {b : Security × ℕ} (hb : b ∈ st.residentStocks.entries) :
    b.2 < st.nextSequence := by
  obtain ⟨newest, hnewest, hle⟩ := ScoredSet.le_newestScore hb
  rw [Store.nextSequence, hnewest]
  change b.2 < if st.accessSequence + 1 ≤ newest then newest + 1 else st.accessSequence + 1
  split <;> omega

/-- The members in the order of their last touch. -/
def InTouchOrder (st : Store Security Symbol Payload) (log : List Security) : Prop :=
  st.residentStocks.members.Sublist log.dedup

omit [DecidableEq Symbol] in
theorem InTouchOrder.recordAccess (h : InTouchOrder st log) (s : Security) :
    InTouchOrder (st.recordAccess s) (log ++ [s]) := by
  rw [InTouchOrder, Store.recordAccess, ScoredSet.members_add fun _ hb => lt_nextSequence hb]
  exact sublist_dedup_append s h

/-! ### Evictions -/

/-- What is evicted and what is left were the members, in order. -/
theorem evictBeyond_sublist (fuel : ℕ) : ∀ st : Store Security Symbol Payload,
    ((evictBeyond capacity fuel st).2 ++
      (evictBeyond capacity fuel st).1.residentStocks.members).Sublist
        st.residentStocks.members := by
  induction fuel with
  | zero => exact fun st => .refl _
  | succ fuel ih =>
    intro st
    rw [evictBeyond]
    split
    · exact .refl _
    split
    · exact .refl _
    next victim hvictim =>
      obtain ⟨rest, hmembers⟩ : ∃ rest, st.residentStocks.members = victim :: rest := by
        rw [ScoredSet.oldest?, List.head?_eq_some_iff] at hvictim
        exact hvictim
      have hleft := ScoredSet.members_remove_oldest hmembers
      split
      · have := ih (st.leaveLru victim)
        rw [hmembers]
        exact (hleft ▸ this).cons victim
      · have := ih ((st.leaveLru victim).deleteRegistered victim)
        rw [hmembers]
        exact (hleft ▸ this).cons_cons victim

/-- Turns enough leave no excess. -/
theorem evictBeyond_card_le (fuel : ℕ) : ∀ st : Store Security Symbol Payload,
    st.residentStocks.card ≤ capacity + fuel →
      (evictBeyond capacity fuel st).1.residentStocks.card ≤ capacity := by
  induction fuel with
  | zero => exact fun st h => h
  | succ fuel ih =>
    intro st h
    rw [evictBeyond]
    split
    · assumption
    split
    case h_1 hnone =>
      have : st.residentStocks.card = 0 := by
        have hnil : st.residentStocks.members = [] := by simpa [ScoredSet.oldest?] using hnone
        rw [← ScoredSet.length_members, hnil, List.length_nil]
      change st.residentStocks.card ≤ capacity
      omega
    case h_2 victim hvictim =>
      obtain ⟨rest, hmembers⟩ : ∃ rest, st.residentStocks.members = victim :: rest := by
        rw [ScoredSet.oldest?, List.head?_eq_some_iff] at hvictim
        exact hvictim
      have hcard : (st.leaveLru victim).residentStocks.card ≤ capacity + fuel := by
        have hleft := ScoredSet.members_remove_oldest hmembers
        have hlength := congrArg List.length hmembers
        rw [Store.leaveLru, ← ScoredSet.length_members, hleft]
        rw [ScoredSet.length_members, List.length_cons] at hlength
        omega
      split
      · exact ih _ hcard
      · exact ih _ hcard

theorem enforceCapacity_card_le (st : Store Security Symbol Payload) :
    (enforceCapacity capacity st).1.residentStocks.card ≤ capacity :=
  evictBeyond_card_le _ st (Nat.le_add_left ..)

theorem enforceCapacity_sublist (st : Store Security Symbol Payload) :
    ((enforceCapacity capacity st).2 ++ (enforceCapacity capacity st).1.residentStocks.members).Sublist
      st.residentStocks.members :=
  evictBeyond_sublist _ st

/-! ### Scripts -/

/-- What a script makes of the LRU: its victims, and then the members it leaves, are in touch order,
and the capacity is kept. -/
structure KeepsLru (capacity : ℕ) (st : Store Security Symbol Payload) (touched log : List Security)
    (out : Outcome Security Symbol Payload) : Prop where
  order : InTouchOrder st log →
    (out.2.victims ++ out.1.residentStocks.members).Sublist (log ++ touched).dedup
  card_le : st.residentStocks.card ≤ capacity → out.1.residentStocks.card ≤ capacity

namespace KeepsLru

omit [DecidableEq Symbol] in
/-- A script that puts nothing into the LRU. -/
theorem of_sublist {out : Outcome Security Symbol Payload} (hvictims : out.2.victims = [])
    (hmembers : out.1.residentStocks.members.Sublist st.residentStocks.members) :
    KeepsLru capacity st [] log out where
  order h := by
    rw [hvictims, List.nil_append, List.append_nil]
    exact hmembers.trans h
  card_le h := by
    have hlength := hmembers.length_le
    rw [ScoredSet.length_members, ScoredSet.length_members] at hlength
    exact hlength.trans h

omit [DecidableEq Symbol] in
theorem unchanged (st : Store Security Symbol Payload) (reply : Reply Security)
    (hvictims : reply.victims = []) : KeepsLru capacity st [] log (st, reply) :=
  of_sublist hvictims (.refl _)

theorem admitNewest (s : Security) : KeepsLru capacity st [s] log (admitNewest capacity s st) where
  order h := (enforceCapacity_sublist _).trans (h.recordAccess s)
  card_le _ := enforceCapacity_card_le _

end KeepsLru

omit [DecidableEq Symbol] in
theorem members_leaveLru_sublist (s : Security) (st : Store Security Symbol Payload) :
    (st.leaveLru s).residentStocks.members.Sublist st.residentStocks.members := by
  rw [Store.leaveLru, ScoredSet.members_remove]
  exact List.filter_sublist

omit [DecidableEq Symbol] in
@[simp] theorem members_route (st : Store Security Symbol Payload) (s : Security) (tier : Tier) :
    (st.route s tier).residentStocks = st.residentStocks := by
  cases tier <;> rfl

theorem KeepsLru.admitRouted {st₁ : Store Security Symbol Payload}
    (hmembers : st₁.residentStocks = st.residentStocks) (s : Security) :
    KeepsLru capacity st (if s ∉ st₁.protectedStocks then [s] else []) log
      (admitRouted capacity s st₁) := by
  rw [StockCache.admitRouted]
  by_cases hprotected : s ∈ st₁.protectedStocks
  · rw [if_pos hprotected, if_neg (not_not.mpr hprotected)]
    exact .of_sublist rfl (hmembers ▸ members_leaveLru_sublist s st₁)
  · rw [if_neg hprotected, if_pos hprotected]
    have hadmit : KeepsLru capacity st₁ [s] log (StockCache.admitNewest capacity s st₁) :=
      .admitNewest s
    refine ⟨fun h => hadmit.order ?_, fun h => hadmit.card_le (hmembers ▸ h)⟩
    rw [InTouchOrder, hmembers]
    exact h

omit [DecidableEq Symbol] in
theorem inTouchOrder_protectFold (ids : List Security) : ∀ st : Store Security Symbol Payload,
    (ids.foldl (fun st id => protectStock id st) st).residentStocks.members.Sublist
      st.residentStocks.members := by
  induction ids with
  | nil => exact fun st => .refl _
  | cons id ids ih =>
    exact fun st => (ih (protectStock id st)).trans (members_leaveLru_sublist id (st.designate id))

theorem manifest?_demote (s : Security) (ttl : ℕ) (st : Store Security Symbol Payload)
    (t : Security) : (demote s st ttl).manifest? t = st.manifest? t := by
  rw [demote]
  split
  · rfl
  split
  · rfl
  split
  · exact (ExpiringMap.value?_retime ..).trans (ExpiringMap.value?_retime ..)
  · rfl

theorem protectedStocks_demote (s : Security) (ttl : ℕ) (st : Store Security Symbol Payload) :
    (demote s st ttl).protectedStocks = st.protectedStocks := by
  rw [demote]
  split
  · rfl
  split
  · rfl
  split <;> rfl

theorem isReady_unprotectStock (id : Security) (ttl : ℕ) (st : Store Security Symbol Payload)
    (t : Security) : (unprotectStock id st ttl).isReady t = st.isReady t := by
  rw [unprotectStock]
  split
  · rw [Store.isReady, manifest?_demote]
    rfl
  · rfl

theorem protectedStocks_unprotectStock (id : Security) (ttl : ℕ)
    (st : Store Security Symbol Payload) :
    (unprotectStock id st ttl).protectedStocks =
      if id ∈ st.protectedStocks then st.protectedStocks.erase id else st.protectedStocks := by
  rw [unprotectStock]
  split
  · exact protectedStocks_demote ..
  · rfl

theorem InTouchOrder.demote (h : InTouchOrder st log) (s : Security) (ttl : ℕ) :
    InTouchOrder (demote s st ttl) (log ++ if st.isReady s then [s] else []) := by
  rw [StockCache.demote, Store.isReady, Store.manifest?, ExpiringMap.value?]
  cases hm : st.manifests s with
  | none => simpa using h
  | some e =>
    simp only [Option.map_some, Option.any_some, decide_eq_true_eq]
    split
    case isTrue => exact h.recordAccess s
    case isFalse =>
      rw [List.append_nil]
      split <;> exact h

theorem InTouchOrder.unprotectStock (h : InTouchOrder st log) (id : Security) (ttl : ℕ) :
    InTouchOrder (unprotectStock id st ttl)
      (log ++ if id ∈ st.protectedStocks then (if st.isReady id then [id] else []) else []) := by
  rw [StockCache.unprotectStock]
  split
  · have hundesignated : InTouchOrder (st.undesignate id) log := h
    exact hundesignated.demote id ttl
  · rwa [List.append_nil]

omit [DecidableEq Symbol] in
theorem rejoining_congr {st st' : Store Security Symbol Payload}
    (h : ∀ t, st'.isReady t = st.isReady t) (ids : List Security) :
    ∀ designated, rejoining st' designated ids = rejoining st designated ids := by
  induction ids with
  | nil => exact fun _ => rfl
  | cons id ids ih =>
    intro designated
    rw [rejoining, rejoining, h, ih, ih]

theorem inTouchOrder_unprotectFold (ids : List Security) (ttl : ℕ) :
    ∀ (st : Store Security Symbol Payload) (log : List Security), InTouchOrder st log →
      InTouchOrder (ids.foldl (fun st id => unprotectStock id st ttl) st)
        (log ++ rejoining st st.protectedStocks ids) := by
  induction ids with
  | nil => exact fun st log h => by rwa [rejoining, List.append_nil]
  | cons id ids ih =>
    intro st log h
    have hrest := ih _ _ (h.unprotectStock id ttl)
    rw [rejoining_congr (isReady_unprotectStock id ttl st), protectedStocks_unprotectStock,
      List.append_assoc] at hrest
    rw [rejoining]
    split
    case isTrue hid => rwa [if_pos hid, if_pos hid] at hrest
    case isFalse hid => rwa [if_neg hid, if_neg hid, List.nil_append] at hrest

@[simp] theorem residentStocks_startGeneration (s : Security) (st : Store Security Symbol Payload)
    (hydrating : StockManifest Security) (ttl : ℕ) :
    (startGeneration s st hydrating ttl).residentStocks = st.residentStocks := by
  rw [startGeneration]
  split <;> rfl

theorem writeLifetime_residentStocks {st' : Store Security Symbol Payload}
    {fence : Option (StockManifest Security)} {full : ℕ} {lifetime : Option ℕ}
    (h : writeLifetime s st fence full = some (lifetime, st')) :
    st'.residentStocks = st.residentStocks := by
  unfold writeLifetime at h
  split at h
  · split at h
    · cases h
    split at h
    · rw [← (Prod.mk.inj (Option.some.inj h)).2]
    split at h
    · cases h
    split at h <;> rw [← (Prod.mk.inj (Option.some.inj h)).2]
    rfl
  · split at h
    · rw [← (Prod.mk.inj (Option.some.inj h)).2]
    split at h
    · split at h
      · rw [← (Prod.mk.inj (Option.some.inj h)).2]
      split at h
      · cases h
      · rw [← (Prod.mk.inj (Option.some.inj h)).2]
    · rw [← (Prod.mk.inj (Option.some.inj h)).2]

/-- **Every script keeps the LRU in order of last touch and within its capacity.** -/
theorem keepsLru_execute (c : Command Security Payload) :
    KeepsLru capacity st (touchedBy st c) log (execute symbolOf capacity st c) := by
  -- a command that neither touches nor admits keeps the members, or drops some
  have hunchanged : ∀ reply : Reply Security, reply.victims = [] →
      KeepsLru capacity st [] log (st, reply) := fun reply => .unchanged st reply
  cases c with
  | beginHydration s observed hydrating ttl tier =>
    refine .of_sublist ?_ ?_
    · rw [execute, beginHydration]
      split <;> rfl
    · rw [execute, beginHydration]
      split
      · exact .refl _
      · change (startGeneration ..).residentStocks.members.Sublist _
        rw [residentStocks_startGeneration, members_route]
        exact members_leaveLru_sublist s (st.deleteRegistered s)
  | beginRefresh s observed hydrating ttl tier =>
    refine .of_sublist ?_ ?_
    · rw [execute, beginRefresh]
      split
      · rfl
      rw [refreshRouted]
      split
      · rfl
      split <;> rfl
    · rw [execute, beginRefresh]
      split
      · exact .refl _
      rw [refreshRouted]
      have hrefresh : ∀ st₁ : Store Security Symbol Payload,
          st₁.residentStocks = st.residentStocks →
          (st₁.leaveLru s).residentStocks.members.Sublist st.residentStocks.members :=
        fun st₁ h => h ▸ members_leaveLru_sublist s st₁
      split
      · exact hrefresh _ (members_route st s tier)
      split
      · rw [members_route]
      · exact hrefresh _ (members_route st s tier)
  | setRegistered s k v fence ttl =>
    refine .of_sublist ?_ ?_
    · rw [execute, setRegistered]
      split <;> rfl
    · rw [execute, setRegistered]
      split
      · exact .refl _
      next hw => exact (congrArg ScoredSet.members (writeLifetime_residentStocks hw)) ▸ .refl _
  | renewHydration s hydrating ttl =>
    rw [execute, renewHydration]
    split
    · exact .of_sublist rfl (.refl _)
    split
    · exact .of_sublist rfl (.refl _)
    split
    · exact .of_sublist rfl (.refl _)
    · exact .of_sublist rfl (.refl _)
  | touchReady s =>
    rw [execute, touchedBy, touchReady, Store.isReady]
    cases hm : st.manifest? s with
    | none => exact .of_sublist rfl (.refl _)
    | some m =>
      simp only [Option.any_some, decide_eq_true_eq]
      by_cases hready : m.status = .ready
      case neg => simpa [hready] using hunchanged .refused rfl
      by_cases hprotected : s ∈ st.protectedStocks
      case pos => simpa [hready, hprotected] using hunchanged (.admitted []) rfl
      by_cases hmember : s ∈ st.residentStocks.members
      case neg =>
        simpa [hready, hprotected, hmember] using hunchanged .uncounted rfl
      have hadmit : KeepsLru capacity st [s] log (admitNewest capacity s st) := .admitNewest s
      simpa [hready, hprotected, hmember] using hadmit
  | admitResident s tier =>
    rw [execute, touchedBy, admitResident, Store.isReady]
    cases hm : st.manifest? s with
    | none => exact .of_sublist rfl (.refl _)
    | some m =>
      simp only [Option.any_some, decide_eq_true_eq]
      by_cases hready : m.status = .ready
      case neg => simpa [hready] using hunchanged .refused rfl
      have hadmit : KeepsLru capacity st _ log (admitRouted capacity s (st.route s tier)) :=
        .admitRouted (members_route st s tier) s
      simpa [hready] using hadmit
  | publishReady s ready fence tier =>
    rw [execute, touchedBy, publishReady]
    by_cases hm : st.manifest? s = fence.map Subtype.val
    case neg =>
      rw [if_pos hm, if_neg hm]
      exact .unchanged st .refused rfl
    -- publishing moves no score: what is admitted is admitted to the members before it
    have hmembers : ((((st.retimeRegistered s none).setManifest s ready.1 none).register s
        (.manifest s)).route s tier).residentStocks = st.residentStocks := by
      cases tier <;> rfl
    have hprotected : ((((st.retimeRegistered s none).setManifest s ready.1 none).register s
        (.manifest s)).route s tier).protectedStocks = (st.route s tier).protectedStocks := by
      cases tier <;> rfl
    rw [if_neg (not_not.mpr hm), if_pos hm, ← hprotected]
    exact .admitRouted hmembers s
  | invalidateManifest s observed =>
    rw [execute, invalidateManifest]
    split
    · exact .of_sublist rfl (.refl _)
    split
    · exact .of_sublist rfl (.refl _)
    split
    · exact .of_sublist rfl (.refl _)
    · exact .of_sublist rfl (members_leaveLru_sublist s st)
  | evictResidentStock s =>
    rw [execute, evictResidentStock]
    split
    · exact .of_sublist rfl (.refl _)
    · exact .of_sublist rfl (members_leaveLru_sublist s (st.deleteRegistered s))
  | protectStocks ids =>
    exact .of_sublist rfl (inTouchOrder_protectFold ids st)
  | unprotectStocks ids ttl =>
    exact ⟨fun h => (enforceCapacity_sublist _).trans (inTouchOrder_unprotectFold ids ttl st log h),
      fun _ => enforceCapacity_card_le _⟩

end FactorSage.StockCache
