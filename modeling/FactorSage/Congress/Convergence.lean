import FactorSage.Congress.Synchronization
import FactorSage.Congress.WholeDirectory
import Mathlib.Data.List.Lex

/-!
# The member directory and the catalog

Synchronizing with a directory is additive, parts the directory and converges (`Synchronizes`).
Everything a plan writes is in the order of bioguide ids, which a collation separates. The declined
rows are in the order of whatever identifiers the directory sent, and a collation may hold two of
them equal: exactly then the plan follows the order in which the directory was read
(`synchronizes_iff`).
-/

namespace FactorSage.Congress

open ComparatorSort

section Order

variable {κ : Type} [LinearOrder κ] {localeCompare : String → String → ℤ} {key : String → κ}

/-- A row of the directory that is declined. -/
def Refused (catalog : Catalog) (entry : String × DirectoryRow) : Prop :=
  isBioguideId entry.1 = false ∨ entry.2.conflicting = true ∨ truthy entry.2.member.name = none
    ∨ catalog.get? entry.1 = none ∧ entry.2.member.chamber = none

/-- No two identifiers that are declined collate as equal. -/
def Separated (key : String → κ) (directory : Directory) (catalog : Catalog) : Prop :=
  ∀ entry ∈ directory.entries, ∀ other ∈ directory.entries,
    Refused catalog entry → Refused catalog other → key entry.1 = key other.1 → entry.1 = other.1

theorem declined?_refresh (known : CongressMemberCatalogIdentity) (k : String)
    (member : MappedFmpCongressMember) (name : String) :
    (refresh known k member name).declined? = none := by
  unfold refresh
  dsimp only
  split <;> rfl

theorem isSome_declined?_iff (catalog : Catalog) (entry : String × DirectoryRow) :
    (verdictOn (identityMap (readCatalogIdentities catalog)) entry).declined?.isSome = true
      ↔ Refused catalog entry := by
  unfold verdictOn Refused verdict
  rw [get?_identityMap]
  by_cases hid : isBioguideId entry.1 = false
  · simp [hid]
  rw [if_neg hid]
  by_cases hconflict : entry.2.conflicting = true
  · simp [hconflict]
  rw [if_neg hconflict]
  cases truthy entry.2.member.name with
  | none => simp
  | some name =>
    cases catalog.get? entry.1 with
    | none =>
      unfold admitMember
      cases entry.2.member.chamber <;> simp [hid, hconflict]
    | some row => simp [hid, hconflict, declined?_refresh]

/-- What is written is about a bioguide id. -/
theorem isBioguideId_of_written {known? : Option CongressMemberCatalogIdentity} {k : String}
    {row : DirectoryRow}
    (h : (verdict known? k row).create?.isSome = true
      ∨ (verdict known? k row).update?.isSome = true) :
    isBioguideId k = true := by
  by_contra hid
  rw [Bool.not_eq_true] at hid
  unfold verdict at h
  rw [if_pos hid] at h
  rcases h with h | h <;> cases h

theorem filterMap_eq_filter {α β : Type} (f : α → Option β) (l : List α) :
    l.filterMap f = (l.filter fun a => (f a).isSome).filterMap f := by
  rw [List.filterMap_filter]
  congr 1
  funext a
  cases f a <;> rfl

/-- A list of verdicts that the collation separates does not follow the order of the directory. -/
theorem filterMap_ordered_of_perm {β : Type} (hcollates : Compares localeCompare key)
    {directory directory' : Directory} (hperm : directory'.entries.Perm directory.entries)
    (f : String × DirectoryRow → Option β)
    (huntied : ∀ entry ∈ directory.entries, ∀ other ∈ directory.entries, (f entry).isSome = true →
      (f other).isSome = true → key entry.1 = key other.1 → entry.1 = other.1) :
    (ordered localeCompare directory').filterMap f
      = (ordered localeCompare directory).filterMap f := by
  have hcompares : Compares (fun left right : String × DirectoryRow => localeCompare left.1 right.1)
      fun entry => key entry.1 := fun a b => hcollates a.1 b.1
  rw [filterMap_eq_filter, filterMap_eq_filter f (ordered localeCompare directory)]
  congr 1
  refine (filter_sortBy_eq_of_perm hcompares hperm.symm _ ?_).symm
  intro entry hentry other hother hf hf' hkey
  exact List.inj_on_of_nodup_map directory.nodup hentry hother
    (huntied entry hentry other hother hf hf' hkey)

theorem identityMap_of_perm {identities identities' : List CongressMemberCatalogIdentity}
    (hperm : identities'.Perm identities)
    (hnodup : (identities.map CongressMemberCatalogIdentity.externalId).Nodup) (k : String) :
    (identityMap identities').get? k = (identityMap identities).get? k := by
  unfold identityMap
  refine (OrderedMap.Equiv.ofList_of_perm (hperm.symm.map _) ?_ k).symm
  rw [List.map_map]
  exact hnodup

/-- **A plan whose lists the collation separates depends on no order.** -/
theorem planCongressMemberCatalog_of_perm (hcollates : Compares localeCompare key)
    (hbioguide : ∀ left right, isBioguideId left = true → isBioguideId right = true →
      key left = key right → left = right)
    {directory directory' : Directory} (hdirectory : directory'.entries.Perm directory.entries)
    {catalog : Catalog} {identities : List CongressMemberCatalogIdentity}
    (hidentities : identities.Perm (readCatalogIdentities catalog))
    (hseparated : Separated key directory catalog) :
    planCongressMemberCatalog localeCompare directory' identities
      = planCongressMemberCatalog localeCompare directory (readCatalogIdentities catalog) := by
  have hnodup :
      ((readCatalogIdentities catalog).map CongressMemberCatalogIdentity.externalId).Nodup := by
    have hkeys := nodup_readCatalogIdentities catalog
    rw [List.map_map] at hkeys
    exact hkeys
  -- what is decided of a row does not depend on the order, only where it is listed does
  have hverdict : verdictOn (identityMap identities)
      = verdictOn (identityMap (readCatalogIdentities catalog)) := by
    funext entry
    unfold verdictOn
    rw [identityMap_of_perm hidentities hnodup]
  have hcontains : ∀ k, directory'.contains k = directory.contains k := by
    intro k
    unfold OrderedMap.contains
    have hget : directory'.get? k = directory.get? k := by
      refine Option.ext fun row => ?_
      rw [← OrderedMap.mem_entries_iff, ← OrderedMap.mem_entries_iff, hdirectory.mem_iff]
    rw [hget]
  have hordered : (ordered localeCompare directory').Perm (ordered localeCompare directory) :=
    ((sortBy_perm _ _).trans hdirectory).trans (sortBy_perm _ _).symm
  rw [planCongressMemberCatalog_eq, planCongressMemberCatalog_eq, hverdict]
  congr 1
  · congr 1
    · refine filterMap_ordered_of_perm hcollates hdirectory _ ?_
      intro entry _ other _ hcreate hcreate' hkey
      exact hbioguide _ _ (isBioguideId_of_written (.inl hcreate))
        (isBioguideId_of_written (.inl hcreate')) hkey
    · refine filterMap_ordered_of_perm hcollates hdirectory _ ?_
      intro entry _ other _ hupdate hupdate' hkey
      exact hbioguide _ _ (isBioguideId_of_written (.inr hupdate))
        (isBioguideId_of_written (.inr hupdate')) hkey
  · exact hordered.countP_eq _
  · refine filterMap_ordered_of_perm hcollates hdirectory _ ?_
    intro entry hentry other hother hdeclined hdeclined' hkey
    exact hseparated entry hentry other hother ((isSome_declined?_iff catalog entry).mp hdeclined)
      ((isSome_declined?_iff catalog other).mp hdeclined') hkey
  · simp only [hcontains]
    exact (hidentities.filter _).length_eq

/-! ### Where the collation holds two declined identifiers equal -/

/-- A list without duplicates that reads the same backwards has one element at most. -/
theorem eq_of_reverse {α : Type} {l : List α} (hnodup : l.Nodup) (h : l.reverse = l) {a b : α}
    (ha : a ∈ l) (hb : b ∈ l) : a = b := by
  cases l with
  | nil => cases ha
  | cons first rest =>
    cases hrest : rest.reverse with
    | nil =>
      rw [List.reverse_eq_nil_iff.mp hrest, List.mem_singleton] at ha hb
      rw [ha, hb]
    | cons last front =>
      -- the last element would be the first again
      rw [List.reverse_cons, hrest, List.cons_append] at h
      have hlast : last ∈ rest := List.mem_reverse.mp (hrest ▸ List.mem_cons_self)
      rw [(List.cons.inj h).1] at hlast
      exact absurd hlast (List.nodup_cons.mp hnodup).1

/-- The declined rows that collate as `k`, in the order the directory gives. -/
theorem declined_of_key (hcollates : Compares localeCompare key) (directory : Directory)
    (f : String × DirectoryRow → Option DeclinedCongressMember)
    (habout : ∀ entry declined, f entry = some declined → declined.externalId = entry.1) (k : κ) :
    ((ordered localeCompare directory).filterMap f).filter (key ·.externalId = k)
      = (directory.entries.filter (key ·.1 = k)).filterMap f := by
  have hcompares : Compares (fun left right : String × DirectoryRow => localeCompare left.1 right.1)
      fun entry => key entry.1 := fun a b => hcollates a.1 b.1
  rw [← filter_sortBy hcompares directory.entries k, List.filter_filterMap, List.filterMap_filter]
  congr 1
  funext entry
  cases hf : f entry with
  | none => simp
  | some declined => simp [Option.filter_some, habout entry declined hf]

/-- **A plan that follows no order separates what it declines.** The directory read backwards lists
the declined rows of one key backwards. -/
theorem separated_of_orderFree (hcollates : Compares localeCompare key) {directory : Directory}
    {catalog : Catalog}
    (horder : ∀ directory' : Directory, directory'.entries.Perm directory.entries →
      (planCongressMemberCatalog localeCompare directory' (readCatalogIdentities catalog)).declined
        = (planCongressMemberCatalog localeCompare directory
            (readCatalogIdentities catalog)).declined) :
    Separated key directory catalog := by
  intro entry hentry other hother hrefused hrefused' hkey
  let backwards : Directory :=
    { entries := directory.entries.reverse
      nodup := by
        rw [List.map_reverse]
        exact List.nodup_reverse.mpr directory.nodup }
  have hdeclined := horder backwards (List.reverse_perm _)
  rw [planCongressMemberCatalog_eq, planCongressMemberCatalog_eq] at hdeclined
  dsimp only at hdeclined
  have hlists := congrArg (List.filter (key ·.externalId = key entry.1)) hdeclined
  rw [declined_of_key hcollates backwards _ externalId_of_declined?,
    declined_of_key hcollates directory _ externalId_of_declined?] at hlists
  change (directory.entries.reverse.filter _).filterMap _ = _ at hlists
  rw [List.filter_reverse, List.filterMap_reverse] at hlists
  have hparted := perm_parted (verdictOn_isAbout (identityMap (readCatalogIdentities catalog)))
    (directory.entries.filter (key ·.1 = key entry.1))
  have hids := hparted.nodup_iff.mpr (directory.nodup.sublist (List.filter_sublist.map Prod.fst))
  have hnodup := (List.nodup_append.mp (List.nodup_append.mp
    (List.nodup_append.mp hids).2.1).2.1).1.of_map
  -- both are in that list
  have hlisted : ∀ e ∈ directory.entries, Refused catalog e → key entry.1 = key e.1 →
      ∃ declined ∈ (directory.entries.filter (key ·.1 = key entry.1)).filterMap fun entry =>
        (verdictOn (identityMap (readCatalogIdentities catalog)) entry).declined?,
        declined.externalId = e.1 := by
    intro e he hrefused hkey
    obtain ⟨declined, hdeclined⟩ :=
      Option.isSome_iff_exists.mp ((isSome_declined?_iff catalog e).mpr hrefused)
    refine ⟨declined, List.mem_filterMap.mpr ⟨e, ?_, hdeclined⟩,
      externalId_of_declined? e declined hdeclined⟩
    exact List.mem_filter.mpr ⟨he, decide_eq_true hkey.symm⟩
  obtain ⟨declined, hmem, hid⟩ := hlisted entry hentry hrefused rfl
  obtain ⟨declined', hmem', hid'⟩ := hlisted other hother hrefused' hkey
  rw [← hid, ← hid', eq_of_reverse hnodup hlists hmem hmem']

end Order

/-! ### Synchronization -/

/-- What synchronizing a catalog with a directory promises. -/
structure Synchronizes (localeCompare : String → String → ℤ) (directory : Directory)
    (catalog : Catalog) : Prop where
  /-- Each identity of the directory is in exactly one of the four. -/
  partitions : ∃ kept : List String,
    let plan := planCongressMemberCatalog localeCompare directory (readCatalogIdentities catalog)
    kept.length = plan.unchanged
      ∧ (plan.changes.create.map CongressMemberCatalogCreate.externalId
          ++ (plan.changes.update.map CongressMemberCatalogUpdate.externalId
          ++ (plan.declined.map DeclinedCongressMember.externalId ++ kept))).Perm directory.keys
  /-- An identity the directory does not hold is left alone. -/
  additive : ∀ k, k ∉ directory.keys →
    (synchronized localeCompare directory catalog).get? k = catalog.get? k
  /-- No identity is deleted, and the label of a member a disclosure names is kept. -/
  keepsLabels : ∀ k row, catalog.get? k = some row →
    ∃ row', (synchronized localeCompare directory catalog).get? k = some row'
      ∧ row'.congressTrades = row.congressTrades
      ∧ (0 < row.congressTrades → SameLabel row row')
  /-- The next plan creates and updates nothing. -/
  converges : (planCongressMemberCatalog localeCompare directory
      (readCatalogIdentities (synchronized localeCompare directory catalog))).changes
    = { create := [], update := [] }
  /-- The plan does not depend on the order of either input. -/
  orderFree : ∀ (directory' : Directory) (identities : List CongressMemberCatalogIdentity),
    directory'.entries.Perm directory.entries →
    identities.Perm (readCatalogIdentities catalog) →
    planCongressMemberCatalog localeCompare directory' identities
      = planCongressMemberCatalog localeCompare directory (readCatalogIdentities catalog)

/-- A run given a directory that is not whole writes nothing. -/
def RefusesPartial (localeCompare : String → String → ℤ) : Prop :=
  ∀ run : Run, ¬(HalfWhole run.provider true ∧ HalfWhole run.provider false) →
    ∀ call ∈ (sync localeCompare run).2, ¬call.Writes

theorem partitions_plan (localeCompare : String → String → ℤ) (directory : Directory)
    (identities : List CongressMemberCatalogIdentity) : ∃ kept : List String,
      let plan := planCongressMemberCatalog localeCompare directory identities
      kept.length = plan.unchanged
        ∧ (plan.changes.create.map CongressMemberCatalogCreate.externalId
            ++ (plan.changes.update.map CongressMemberCatalogUpdate.externalId
            ++ (plan.declined.map DeclinedCongressMember.externalId ++ kept))).Perm
          directory.keys := by
  refine ⟨((ordered localeCompare directory).filter fun entry =>
    (verdictOn (identityMap identities) entry).isUnchanged).map Prod.fst, ?_⟩
  rw [planCongressMemberCatalog_eq]
  dsimp only
  refine ⟨by rw [List.length_map, List.countP_eq_length_filter], ?_⟩
  exact (perm_parted (verdictOn_isAbout _) _).trans ((sortBy_perm _ _).map Prod.fst)

/-- **When synchronization keeps its promises.** For a collation that separates bioguide ids, a
directory and a catalog: exactly when it separates the identifiers that are declined. -/
theorem synchronizes_iff {κ : Type} [LinearOrder κ] {localeCompare : String → String → ℤ}
    {key : String → κ} (hcollates : Compares localeCompare key)
    (hbioguide : ∀ left right, isBioguideId left = true → isBioguideId right = true →
      key left = key right → left = right)
    (directory : Directory) (catalog : Catalog) :
    Synchronizes localeCompare directory catalog ∧ RefusesPartial localeCompare
      ↔ Separated key directory catalog := by
  constructor
  · rintro ⟨hsynchronizes, -⟩
    refine separated_of_orderFree hcollates ?_
    intro directory' hperm
    rw [hsynchronizes.orderFree directory' _ hperm (.refl _)]
  · intro hseparated
    refine ⟨?_, ?_⟩
    · exact
        { partitions := partitions_plan localeCompare directory _
          additive := fun k hk => get?_synchronized_of_not_mem localeCompare catalog hk
          keepsLabels := fun k row hget =>
            exists_get?_synchronized localeCompare directory catalog hget
          converges := changes_synchronized localeCompare directory catalog
          orderFree := fun directory' identities hdirectory hidentities =>
            planCongressMemberCatalog_of_perm hcollates hbioguide hdirectory hidentities
              hseparated }
    · intro run hpartial call hcall hwrites
      exact hpartial (whole_of_writes localeCompare run hcall hwrites)

/-! ### Two spellings of one character

A collation holds strings that are canonically equivalent equal: `É` in one character and `E` with a
combining accent are. -/

/-- The characters of a string, `É` as a letter and its accent. -/
def decomposed (s : String) : List ℕ :=
  s.toList.flatMap fun c => if c = 'É' then [69, 769] else [c.toNat]

/-- A collation by decomposed characters. -/
def canonicalCompare (left right : String) : ℤ :=
  if decomposed left < decomposed right then -1
  else if decomposed right < decomposed left then 1
  else 0

theorem compares_canonicalCompare : Compares canonicalCompare decomposed := by
  intro left right
  unfold canonicalCompare
  split_ifs <;> simp_all

theorem ascii_of_isBioguideId {s : String} (h : isBioguideId s = true) :
    ∀ c ∈ s.toList, c ≠ 'É' := by
  unfold isBioguideId at h
  cases hs : s.toList with
  | nil => simp
  | cons letter digits =>
    rw [hs] at h
    simp only [Bool.and_eq_true, List.all_eq_true] at h
    intro c hc
    rcases List.mem_cons.mp hc with rfl | hmem
    · rintro rfl
      exact absurd h.1.1 (by decide)
    · rintro rfl
      exact absurd (h.2 _ hmem) (by decide)

theorem decomposed_of_isBioguideId {s : String} (h : isBioguideId s = true) :
    decomposed s = s.toList.map Char.toNat := by
  unfold decomposed
  rw [List.map_eq_flatMap]
  exact List.flatMap_congr fun c hc => if_neg (ascii_of_isBioguideId h c hc)

theorem eq_of_decomposed (left right : String) (hleft : isBioguideId left = true)
    (hright : isBioguideId right = true) (h : decomposed left = decomposed right) :
    left = right := by
  rw [decomposed_of_isBioguideId hleft, decomposed_of_isBioguideId hright] at h
  exact String.toList_injective (List.map_injective_iff.mpr (fun _ _ => Char.toNat_inj.mp) h)

/-- A member in office, as the directory describes them. -/
def memberOf (externalId name : String) : MappedFmpCongressMember where
  externalId := externalId
  name := some name
  chamber := some .HOUSE
  positionRaw := some "Representative"
  state := none
  inOffice := some true
  state_letters := nofun

def directoryOf (ids : List String) : Directory :=
  OrderedMap.ofList (ids.map fun id =>
    (id, { member := memberOf id "A Member", conflicting := false }))

/-- Two rows whose malformed identifiers are one string to the collation: the plan declines them in
the order they were read. -/
theorem not_synchronizes_accented :
    ¬Synchronizes canonicalCompare (directoryOf ["É00001", "E\u030100001"]) OrderedMap.empty := by
  intro h
  have horder := h.orderFree (directoryOf ["E\u030100001", "É00001"]) []
    (by decide +kernel) (.refl _)
  have hdeclined := congrArg
    (fun plan => plan.declined.map DeclinedCongressMember.externalId) horder
  exact absurd hdeclined (by decide +kernel)

/-- A directory of two bioguide ids and a malformed one. -/
theorem synchronizes_iff_sample :
    Synchronizes canonicalCompare (directoryOf ["T000278", "x", "P000197"]) OrderedMap.empty
      ∧ RefusesPartial canonicalCompare :=
  (synchronizes_iff compares_canonicalCompare eq_of_decomposed
    (directoryOf ["T000278", "x", "P000197"]) OrderedMap.empty).mpr (by
      have hkeys : ∀ entry ∈ (directoryOf ["T000278", "x", "P000197"]).entries,
          ∀ other ∈ (directoryOf ["T000278", "x", "P000197"]).entries,
            decomposed entry.1 = decomposed other.1 → entry.1 = other.1 := by decide +kernel
      intro entry hentry other hother _ _ hkey
      exact hkeys entry hentry other hother hkey)

end FactorSage.Congress
