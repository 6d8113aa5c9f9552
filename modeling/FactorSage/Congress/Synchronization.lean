import FactorSage.Congress.MemberCatalog

/-!
# Synchronizing the member catalog

What one plan does. Each identity of the directory comes to one verdict, and the plan lists the
verdicts (`foldl_add`). Written down, they leave each row as its verdict says
(`get?_applyCatalogChanges`), and a row so left is found unchanged by the next plan
(`verdict_afterVerdict`).

Nothing is deleted, and a member a disclosure names keeps their label
(`exists_get?_synchronized`).
-/

namespace FactorSage.Congress

open ComparatorSort

/-! ### The verdicts a plan lists -/

namespace Verdict

def declined? : Verdict → Option DeclinedCongressMember
  | .declined entry => some entry
  | _ => none

def create? : Verdict → Option CongressMemberCatalogCreate
  | .create member => some member
  | _ => none

def update? : Verdict → Option CongressMemberCatalogUpdate
  | .update change => some change
  | _ => none

def isUnchanged : Verdict → Bool
  | .unchanged => true
  | _ => false

@[simp] theorem declined?_declined (entry : DeclinedCongressMember) :
    (declined entry).declined? = some entry := rfl
@[simp] theorem declined?_create (member : CongressMemberCatalogCreate) :
    (create member).declined? = none := rfl
@[simp] theorem declined?_update (change : CongressMemberCatalogUpdate) :
    (update change).declined? = none := rfl
@[simp] theorem declined?_unchanged : unchanged.declined? = none := rfl

@[simp] theorem create?_declined (entry : DeclinedCongressMember) :
    (declined entry).create? = none := rfl
@[simp] theorem create?_create (member : CongressMemberCatalogCreate) :
    (create member).create? = some member := rfl
@[simp] theorem create?_update (change : CongressMemberCatalogUpdate) :
    (update change).create? = none := rfl
@[simp] theorem create?_unchanged : unchanged.create? = none := rfl

@[simp] theorem update?_declined (entry : DeclinedCongressMember) :
    (declined entry).update? = none := rfl
@[simp] theorem update?_create (member : CongressMemberCatalogCreate) :
    (create member).update? = none := rfl
@[simp] theorem update?_update (change : CongressMemberCatalogUpdate) :
    (update change).update? = some change := rfl
@[simp] theorem update?_unchanged : unchanged.update? = none := rfl

@[simp] theorem isUnchanged_declined (entry : DeclinedCongressMember) :
    (declined entry).isUnchanged = false := rfl
@[simp] theorem isUnchanged_create (member : CongressMemberCatalogCreate) :
    (create member).isUnchanged = false := rfl
@[simp] theorem isUnchanged_update (change : CongressMemberCatalogUpdate) :
    (update change).isUnchanged = false := rfl
@[simp] theorem isUnchanged_unchanged : unchanged.isUnchanged = true := rfl

/-- The verdict is about this identifier. -/
def IsAbout (externalId : String) : Verdict → Prop
  | .declined entry => entry.externalId = externalId
  | .create member => member.externalId = externalId
  | .update change => change.externalId = externalId
  | .unchanged => True

end Verdict

/-- The verdict on one entry of a directory. -/
def verdictOn (existing : OrderedMap String CongressMemberCatalogIdentity)
    (entry : String × DirectoryRow) : Verdict :=
  verdict (existing.get? entry.1) entry.1 entry.2

/-- What the loop has listed. -/
theorem foldl_add (v : String × DirectoryRow → Verdict) (l : List (String × DirectoryRow))
    (plan : CongressMemberCatalogPlan) :
    l.foldl (fun plan entry => plan.add (v entry)) plan
      = { changes :=
            { create := plan.changes.create ++ l.filterMap fun entry => (v entry).create?
              update := plan.changes.update ++ l.filterMap fun entry => (v entry).update? }
          unchanged := plan.unchanged + l.countP fun entry => (v entry).isUnchanged
          declined := plan.declined ++ l.filterMap fun entry => (v entry).declined?
          retained := plan.retained } := by
  induction l generalizing plan with
  | nil => simp
  | cons entry rest ih =>
    rw [List.foldl_cons, ih]
    cases hv : v entry <;>
      simp [CongressMemberCatalogPlan.add, hv, Nat.add_assoc, Nat.add_comm 1]

theorem planCongressMemberCatalog_eq (localeCompare : String → String → ℤ) (directory : Directory)
    (catalog : List CongressMemberCatalogIdentity) :
    planCongressMemberCatalog localeCompare directory catalog
      = { changes :=
            { create := (ordered localeCompare directory).filterMap fun entry =>
                (verdictOn (identityMap catalog) entry).create?
              update := (ordered localeCompare directory).filterMap fun entry =>
                (verdictOn (identityMap catalog) entry).update? }
          unchanged := (ordered localeCompare directory).countP fun entry =>
            (verdictOn (identityMap catalog) entry).isUnchanged
          declined := (ordered localeCompare directory).filterMap fun entry =>
            (verdictOn (identityMap catalog) entry).declined?
          retained :=
            (catalog.filter fun identity => !directory.contains identity.externalId).length } := by
  unfold planCongressMemberCatalog
  dsimp only
  rw [foldl_add fun entry => verdict ((identityMap catalog).get? entry.1) entry.1 entry.2,
    List.nil_append, List.nil_append, List.nil_append, Nat.zero_add]
  rfl

theorem isAbout_admitMember (externalId : String) (member : MappedFmpCongressMember) (name : String) :
    (admitMember externalId member name).IsAbout externalId := by
  unfold admitMember
  split <;> rfl

theorem isAbout_refresh (known : CongressMemberCatalogIdentity) (externalId : String)
    (member : MappedFmpCongressMember) (name : String) :
    (refresh known externalId member name).IsAbout externalId := by
  unfold refresh
  dsimp only
  split
  · trivial
  · rfl

/-- A verdict names the identifier it is about. -/
theorem isAbout_verdict (known? : Option CongressMemberCatalogIdentity) (externalId : String)
    (row : DirectoryRow) : (verdict known? externalId row).IsAbout externalId := by
  unfold verdict
  split
  · rfl
  split
  · rfl
  split
  · rfl
  cases known? with
  | none => exact isAbout_admitMember externalId row.member _
  | some known => exact isAbout_refresh known externalId row.member _

/-- The identifiers of a list of entries, parted by their verdicts. -/
theorem perm_parted {v : String × DirectoryRow → Verdict} (hv : ∀ entry, (v entry).IsAbout entry.1)
    (l : List (String × DirectoryRow)) :
    ((l.filterMap fun entry => (v entry).create?).map CongressMemberCatalogCreate.externalId
        ++ ((l.filterMap fun entry => (v entry).update?).map CongressMemberCatalogUpdate.externalId
        ++ ((l.filterMap fun entry => (v entry).declined?).map DeclinedCongressMember.externalId
        ++ (l.filter fun entry => (v entry).isUnchanged).map Prod.fst))).Perm (l.map Prod.fst) := by
  induction l with
  | nil => rfl
  | cons entry rest ih =>
    have habout := hv entry
    rw [List.map_cons]
    refine List.Perm.trans ?_ (ih.cons entry.1)
    cases hentry : v entry with
    | create member =>
      have hid : member.externalId = entry.1 := by rwa [hentry] at habout
      simp [hentry, hid]
    | update change =>
      have hid : change.externalId = entry.1 := by rwa [hentry] at habout
      simp [hentry, hid]
    | declined entry' =>
      have hid : entry'.externalId = entry.1 := by rwa [hentry] at habout
      simp only [hentry, List.filterMap_cons, List.filter_cons, Verdict.create?_declined,
        Verdict.update?_declined, Verdict.declined?_declined, Verdict.isUnchanged_declined,
        List.map_cons, hid, List.cons_append, ← List.append_assoc]
      refine List.perm_middle.trans (.of_eq ?_)
      simp
    | unchanged =>
      simp only [hentry, List.filterMap_cons, List.filter_cons, Verdict.create?_unchanged,
        Verdict.update?_unchanged, Verdict.declined?_unchanged, Verdict.isUnchanged_unchanged,
        List.map_cons, if_true, ← List.append_assoc]
      exact List.perm_middle

/-! ### What writing a plan leaves -/

theorem get?_applyCreate (w : Writing) (member : CongressMemberCatalogCreate) (k : String) :
    (applyCreate w member).catalog.get? k
      = (w.catalog.get? k).or
          (if member.externalId = k then some (createdRow member) else none) := by
  unfold applyCreate OrderedMap.contains
  by_cases hk : member.externalId = k
  · subst hk
    cases hget : w.catalog.get? member.externalId with
    | none => simp
    | some row => simp [hget]
  · rw [if_neg hk, Option.or_none]
    split
    · rfl
    · exact OrderedMap.get?_set_of_ne _ _ (Ne.symm hk)

/-- The first row of an identifier is inserted, where none was there. -/
theorem get?_foldl_applyCreate (l : List CongressMemberCatalogCreate) (w : Writing) (k : String) :
    (l.foldl applyCreate w).catalog.get? k
      = (w.catalog.get? k).or ((l.find? (·.externalId = k)).map createdRow) := by
  induction l generalizing w with
  | nil => simp
  | cons member rest ih =>
    rw [List.foldl_cons, ih, get?_applyCreate, List.find?_cons, Option.or_assoc]
    by_cases hk : member.externalId = k <;> simp [hk]

theorem get?_applyUpdate (w : Writing) (change : CongressMemberCatalogUpdate) (k : String) :
    (applyUpdate w change).catalog.get? k
      = (w.catalog.get? k).map fun row =>
          if change.externalId = k then updateRow change row else row := by
  unfold applyUpdate
  by_cases hk : change.externalId = k
  · subst hk
    cases hget : w.catalog.get? change.externalId with
    | none => simp [hget]
    | some row => simp
  · cases w.catalog.get? change.externalId with
    | none => simp [hk]
    | some row => simp [OrderedMap.get?_set, Ne.symm hk, hk]

theorem get?_foldl_applyUpdate {l : List CongressMemberCatalogUpdate}
    (hnodup : (l.map CongressMemberCatalogUpdate.externalId).Nodup) (w : Writing) (k : String) :
    (l.foldl applyUpdate w).catalog.get? k
      = (w.catalog.get? k).map fun row =>
          (l.find? (·.externalId = k)).elim row fun change => updateRow change row := by
  induction l generalizing w with
  | nil => simp
  | cons change rest ih =>
    obtain ⟨hnew, hrest⟩ := List.nodup_cons.mp hnodup
    rw [List.foldl_cons, ih hrest, get?_applyUpdate, Option.map_map, List.find?_cons]
    by_cases hk : change.externalId = k
    · -- no later change is about this identifier
      have hnone : rest.find? (·.externalId = k) = none := by
        rw [List.find?_eq_none]
        intro other hother heq
        exact hnew (List.mem_map.mpr ⟨other, hother, (of_decide_eq_true heq).trans hk.symm⟩)
      simp [hk, hnone, Function.comp_def]
    · simp [hk, Function.comp_def]

/-- What a verdict leaves of the row it is about. -/
def Verdict.after (row? : Option AlternativeDataActor) : Verdict → Option AlternativeDataActor
  | .create member => row?.or (some (createdRow member))
  | .update change => row?.map (updateRow change)
  | _ => row?

/-- One element of a filtered list is found by its identifier, where the entries have distinct
ones. -/
theorem find?_filterMap {β : Type} {f : String × DirectoryRow → Option β} {idOf : β → String}
    (habout : ∀ entry b, f entry = some b → idOf b = entry.1) {l : List (String × DirectoryRow)}
    (hnodup : (l.map Prod.fst).Nodup) {entry : String × DirectoryRow} (hentry : entry ∈ l) :
    (l.filterMap f).find? (idOf · = entry.1) = f entry := by
  rw [List.find?_filterMap]
  have hfind : ∀ other ∈ l, ((f other).any fun b => idOf b = entry.1) = true → other = entry := by
    intro other hother hany
    obtain ⟨b, hb, hid⟩ := (Option.any_eq_true _ _).mp hany
    have hkey : other.1 = entry.1 := (habout other b hb).symm.trans (of_decide_eq_true hid)
    exact List.inj_on_of_nodup_map hnodup hother hentry hkey
  cases hf : f entry with
  | none =>
    have hnone : l.find? (fun other => (f other).any fun b => idOf b = entry.1) = none := by
      rw [List.find?_eq_none]
      intro other hother hany
      rw [hfind other hother hany, hf] at hany
      cases hany
    rw [hnone]
    rfl
  | some b =>
    cases hfound : l.find? (fun other => (f other).any fun b => idOf b = entry.1) with
    | none =>
      have hany := List.find?_eq_none.mp hfound entry hentry
      rw [hf] at hany
      exact absurd (by simp [habout entry b hf]) hany
    | some other =>
      have hother := hfind other (List.mem_of_find?_eq_some hfound)
        (List.find?_some (p := fun other => (f other).any fun b => idOf b = entry.1) hfound)
      rw [hother]
      exact hf

section Planned

variable (localeCompare : String → String → ℤ)

theorem mem_ordered {directory : Directory} {entry : String × DirectoryRow} :
    entry ∈ ordered localeCompare directory ↔ entry ∈ directory.entries := mem_sortBy

theorem nodup_ordered (directory : Directory) :
    ((ordered localeCompare directory).map Prod.fst).Nodup :=
  ((sortBy_perm _ directory.entries).map Prod.fst).nodup_iff.mpr directory.nodup

/-- The plan of a catalog's own rows, written to it. -/
def synchronized (directory : Directory) (catalog : Catalog) : Catalog :=
  (applyCatalogChanges (planCongressMemberCatalog localeCompare directory
    (readCatalogIdentities catalog)).changes catalog).catalog

theorem verdictOn_isAbout (existing : OrderedMap String CongressMemberCatalogIdentity)
    (entry : String × DirectoryRow) : (verdictOn existing entry).IsAbout entry.1 :=
  isAbout_verdict _ entry.1 entry.2

variable {existing : OrderedMap String CongressMemberCatalogIdentity}

theorem externalId_of_create? (entry : String × DirectoryRow) (member : CongressMemberCatalogCreate)
    (h : (verdictOn existing entry).create? = some member) : member.externalId = entry.1 := by
  have habout := verdictOn_isAbout existing entry
  cases hv : verdictOn existing entry <;> rw [hv] at h habout <;> simp at h
  exact h ▸ habout

theorem externalId_of_update? (entry : String × DirectoryRow) (change : CongressMemberCatalogUpdate)
    (h : (verdictOn existing entry).update? = some change) : change.externalId = entry.1 := by
  have habout := verdictOn_isAbout existing entry
  cases hv : verdictOn existing entry <;> rw [hv] at h habout <;> simp at h
  exact h ▸ habout

theorem externalId_of_declined? (entry : String × DirectoryRow) (declined : DeclinedCongressMember)
    (h : (verdictOn existing entry).declined? = some declined) : declined.externalId = entry.1 := by
  have habout := verdictOn_isAbout existing entry
  cases hv : verdictOn existing entry <;> rw [hv] at h habout <;> simp at h
  exact h ▸ habout

/-- The plan's updates are about distinct identifiers. -/
theorem nodup_updates (directory : Directory) (catalog : List CongressMemberCatalogIdentity) :
    ((planCongressMemberCatalog localeCompare directory catalog).changes.update.map
      CongressMemberCatalogUpdate.externalId).Nodup := by
  have hparted := perm_parted (verdictOn_isAbout (identityMap catalog))
    (ordered localeCompare directory)
  have hnodup := hparted.nodup_iff.mpr (nodup_ordered localeCompare directory)
  rw [planCongressMemberCatalog_eq]
  exact (List.nodup_append.mp (List.nodup_append.mp hnodup).2.1).1

/-- **Each row is left as its verdict says.** -/
theorem get?_synchronized {directory : Directory} (catalog : Catalog)
    {entry : String × DirectoryRow} (hentry : entry ∈ directory.entries) :
    (synchronized localeCompare directory catalog).get? entry.1
      = (verdictOn (identityMap (readCatalogIdentities catalog)) entry).after
          (catalog.get? entry.1) := by
  have hnodup := nodup_ordered localeCompare directory
  have hmem := (mem_ordered localeCompare).mpr hentry
  unfold synchronized applyCatalogChanges
  rw [get?_foldl_applyUpdate (nodup_updates localeCompare directory _), get?_foldl_applyCreate,
    planCongressMemberCatalog_eq]
  dsimp only
  rw [find?_filterMap externalId_of_create? hnodup hmem,
    find?_filterMap externalId_of_update? hnodup hmem]
  cases verdictOn (identityMap (readCatalogIdentities catalog)) entry <;> simp [Verdict.after]

/-- **A row the directory does not name is left alone.** -/
theorem get?_synchronized_of_not_mem {directory : Directory} (catalog : Catalog) {k : String}
    (hk : k ∉ directory.keys) :
    (synchronized localeCompare directory catalog).get? k = catalog.get? k := by
  have hparted := perm_parted (verdictOn_isAbout (identityMap (readCatalogIdentities catalog)))
    (ordered localeCompare directory)
  have hnone : ∀ id ∈ (ordered localeCompare directory).map Prod.fst, id ≠ k := by
    rintro id hid rfl
    obtain ⟨entry, hmem, rfl⟩ := List.mem_map.mp hid
    exact hk (List.mem_map.mpr ⟨entry, (mem_ordered localeCompare).mp hmem, rfl⟩)
  unfold synchronized applyCatalogChanges
  rw [get?_foldl_applyUpdate (nodup_updates localeCompare directory _), get?_foldl_applyCreate,
    planCongressMemberCatalog_eq]
  dsimp only
  have hcreate : ((ordered localeCompare directory).filterMap fun entry =>
      (verdictOn (identityMap (readCatalogIdentities catalog)) entry).create?).find?
        (·.externalId = k) = none := by
    rw [List.find?_eq_none]
    intro member hmember heq
    refine hnone member.externalId (hparted.mem_iff.mp ?_) (of_decide_eq_true heq)
    exact List.mem_append_left _ (List.mem_map.mpr ⟨member, hmember, rfl⟩)
  have hupdate : ((ordered localeCompare directory).filterMap fun entry =>
      (verdictOn (identityMap (readCatalogIdentities catalog)) entry).update?).find?
        (·.externalId = k) = none := by
    rw [List.find?_eq_none]
    intro change hchange heq
    refine hnone change.externalId (hparted.mem_iff.mp ?_) (of_decide_eq_true heq)
    exact List.mem_append_right _ (List.mem_append_left _ (List.mem_map.mpr ⟨change, hchange, rfl⟩))
  rw [hcreate, hupdate]
  simp

/-! ### The next plan -/

theorem nodup_readCatalogIdentities (catalog : Catalog) :
    (((readCatalogIdentities catalog).map fun identity =>
      (identity.externalId, identity)).map Prod.fst).Nodup := by
  have hkeys : ((readCatalogIdentities catalog).map fun identity =>
      (identity.externalId, identity)).map Prod.fst = catalog.entries.map Prod.fst := by
    unfold readCatalogIdentities
    rw [List.map_map, List.map_map]
    rfl
  rw [hkeys]
  exact catalog.nodup

/-- What a run knows of an identifier is its row. -/
theorem get?_identityMap (catalog : Catalog) (k : String) :
    (identityMap (readCatalogIdentities catalog)).get? k = (catalog.get? k).map (identityOf k) := by
  refine Option.ext fun identity => ?_
  unfold identityMap
  rw [OrderedMap.get?_ofList_iff (nodup_readCatalogIdentities catalog), Option.map_eq_some_iff]
  unfold readCatalogIdentities
  rw [List.map_map, List.mem_map]
  constructor
  · rintro ⟨⟨id, row⟩, hmem, heq⟩
    obtain ⟨rfl, rfl⟩ := Prod.mk.inj heq
    exact ⟨row, OrderedMap.mem_entries_iff.mp hmem, rfl⟩
  · rintro ⟨row, hget, rfl⟩
    exact ⟨(k, row), OrderedMap.mem_entries_iff.mpr hget, rfl⟩

variable {row : AlternativeDataActor}

theorem relabel_updateRow {change : CongressMemberCatalogUpdate}
    {k name : String} {member : MappedFmpCongressMember}
    (hlabel : change.label = relabel (identityOf k row) member name) :
    relabel (identityOf k (updateRow change row)) member name = none := by
  unfold relabel at hlabel ⊢
  cases hchamber : member.chamber with
  | none => rfl
  | some chamber =>
    rw [hchamber] at hlabel
    dsimp only at hlabel ⊢
    rw [if_neg]
    split at hlabel
    · next hrelabel =>
      have htrades : row.congressTrades = 0 := by
        simpa [identityOf] using hrelabel.1
      simp [updateRow, hlabel, htrades, identityOf]
    · next hkept =>
      have hsame : identityOf k (updateRow change row)
          = { identityOf k row with profileName := (updateRow change row).profileName } := by
        unfold updateRow identityOf
        rw [hlabel]
        cases change.profileName <;> rfl
      rw [hsame]
      exact hkept

omit localeCompare in
/-- A state that is there is not empty. -/
theorem truthy_state (member : MappedFmpCongressMember) : truthy member.state = member.state := by
  unfold truthy
  have hletters := member.state_letters
  cases hstate : member.state with
  | none => rfl
  | some state =>
    have hstate := hletters state hstate
    rw [Option.filter_some_eq_some, decide_eq_true_eq]
    rintro rfl
    exact absurd hstate (by decide)

/-- The verdict asks nothing to be written. -/
def Verdict.Settled (v : Verdict) : Prop := v.create? = none ∧ v.update? = none

theorem refresh_of_same {known : CongressMemberCatalogIdentity} {member : MappedFmpCongressMember}
    {k name : String} (hname : known.profileName = some name)
    (hlabel : relabel known member name = none) : refresh known k member name = .unchanged := by
  unfold refresh
  refine if_pos ⟨?_, hlabel⟩
  exact if_neg (not_not.mpr hname)

theorem refresh_createdRow (member : MappedFmpCongressMember) (k name : String)
    (chamber : CongressChamber) (hchamber : member.chamber = some chamber) :
    refresh (identityOf k (createdRow
      { externalId := k
        displayName := name
        profileName := name
        chamber := chamber
        state := truthy member.state })) k member name = .unchanged := by
  refine refresh_of_same rfl ?_
  unfold relabel
  rw [hchamber]
  simp [identityOf, createdRow, truthy_state]

theorem profileName_updateRow (change : CongressMemberCatalogUpdate) (row : AlternativeDataActor) :
    (updateRow change row).profileName = change.profileName.or row.profileName := by
  unfold updateRow
  cases change.profileName <;> cases change.label <;> dsimp only <;> try split
  all_goals rfl

theorem refresh_updateRow (row : AlternativeDataActor) (member : MappedFmpCongressMember)
    (k name : String) :
    refresh (identityOf k (updateRow (updateOf (identityOf k row) k member name) row)) k member name
      = .unchanged := by
  have hlabel : relabel (identityOf k (updateRow (updateOf (identityOf k row) k member name) row))
      member name = none := relabel_updateRow rfl
  have hname :
      (identityOf k (updateRow (updateOf (identityOf k row) k member name) row)).profileName
        = some name := by
    unfold identityOf
    rw [profileName_updateRow]
    unfold updateOf
    by_cases hsame : row.profileName = some name
    · simp [hsame]
    · simp [hsame]
  exact refresh_of_same hname hlabel

/-- **A row left as its verdict says is settled.** -/
theorem verdict_after (row? : Option AlternativeDataActor) (k : String) (row : DirectoryRow) :
    (verdict (((verdict (row?.map (identityOf k)) k row).after row?).map (identityOf k)) k
      row).Settled := by
  unfold verdict
  by_cases hid : isBioguideId k = false
  · simp only [if_pos hid]
    exact ⟨rfl, rfl⟩
  simp only [if_neg hid]
  by_cases hconflict : row.conflicting = true
  · simp only [if_pos hconflict]
    exact ⟨rfl, rfl⟩
  simp only [if_neg hconflict]
  cases truthy row.member.name with
  | none => exact ⟨rfl, rfl⟩
  | some name =>
    cases row? with
    | none =>
      dsimp only [Option.map_none]
      unfold admitMember
      cases hchamber : row.member.chamber with
      | none => exact ⟨rfl, rfl⟩
      | some chamber =>
        dsimp only [Verdict.after, Option.none_or, Option.map_some]
        rw [refresh_createdRow row.member k name chamber hchamber]
        exact ⟨rfl, rfl⟩
    | some actor =>
      dsimp only [Option.map_some]
      -- a row that exists is refreshed once: what the update leaves is unchanged
      have hrefresh : refresh (identityOf k actor) k row.member name = .unchanged
          ∨ refresh (identityOf k actor) k row.member name
            = .update (updateOf (identityOf k actor) k row.member name) := by
        unfold refresh
        dsimp only
        split
        · exact .inl rfl
        · exact .inr rfl
      rcases hrefresh with hsame | hupdate
      · rw [hsame]
        dsimp only [Verdict.after, Option.map_some]
        rw [hsame]
        exact ⟨rfl, rfl⟩
      · rw [hupdate]
        dsimp only [Verdict.after, Option.map_some]
        rw [refresh_updateRow actor row.member k name]
        exact ⟨rfl, rfl⟩

/-- **Convergence.** The plan after a plan was written writes nothing. -/
theorem changes_synchronized (directory : Directory) (catalog : Catalog) :
    (planCongressMemberCatalog localeCompare directory
      (readCatalogIdentities (synchronized localeCompare directory catalog))).changes
      = { create := [], update := [] } := by
  have hsettled : ∀ entry ∈ ordered localeCompare directory,
      (verdictOn (identityMap (readCatalogIdentities
        (synchronized localeCompare directory catalog))) entry).Settled := by
    intro entry hmem
    have hentry := (mem_ordered localeCompare).mp hmem
    have hsettled := verdict_after (catalog.get? entry.1) entry.1 entry.2
    unfold verdictOn
    rw [get?_identityMap, get?_synchronized localeCompare catalog hentry]
    unfold verdictOn
    rw [get?_identityMap]
    exact hsettled
  rw [planCongressMemberCatalog_eq, CongressMemberCatalogChanges.mk.injEq,
    List.filterMap_eq_nil_iff, List.filterMap_eq_nil_iff]
  exact ⟨fun entry hmem => (hsettled entry hmem).1, fun entry hmem => (hsettled entry hmem).2⟩

/-- What a disclosure says of a member. -/
def SameLabel (row row' : AlternativeDataActor) : Prop :=
  row'.displayName = row.displayName ∧ row'.chamber = row.chamber ∧ row'.state = row.state

theorem sameLabel_updateRow (change : CongressMemberCatalogUpdate)
    (htrades : 0 < row.congressTrades) : SameLabel row (updateRow change row) := by
  unfold updateRow
  cases change.profileName <;> cases change.label <;> simp [SameLabel, htrades.ne']

theorem congressTrades_updateRow (change : CongressMemberCatalogUpdate)
    (row : AlternativeDataActor) : (updateRow change row).congressTrades = row.congressTrades := by
  unfold updateRow
  cases change.profileName <;> cases change.label <;> dsimp only <;> split <;> rfl

/-- **Nothing is deleted, and a member a disclosure names keeps their label.** -/
theorem exists_get?_synchronized (directory : Directory) (catalog : Catalog) {k : String}
    (hget : catalog.get? k = some row) :
    ∃ row', (synchronized localeCompare directory catalog).get? k = some row'
      ∧ row'.congressTrades = row.congressTrades
      ∧ (0 < row.congressTrades → SameLabel row row') := by
  have hkept : ∃ row', some row = some row' ∧ row'.congressTrades = row.congressTrades
      ∧ (0 < row.congressTrades → SameLabel row row') :=
    ⟨row, rfl, rfl, fun _ => ⟨rfl, rfl, rfl⟩⟩
  by_cases hk : k ∈ directory.keys
  · obtain ⟨entry, hentry, rfl⟩ := List.mem_map.mp hk
    rw [get?_synchronized localeCompare catalog hentry, hget]
    cases verdictOn (identityMap (readCatalogIdentities catalog)) entry with
    | update change =>
      exact ⟨updateRow change row, rfl, congressTrades_updateRow change row,
        sameLabel_updateRow change⟩
    | create member => exact hkept
    | declined declined => exact hkept
    | unchanged => exact hkept
  · rw [get?_synchronized_of_not_mem localeCompare catalog hk, hget]
    exact hkept

end Planned

end FactorSage.Congress
