import FactorSage.Congress.MemberCatalog
import FactorSage.Library.Command

/-!
# The whole directory or nothing

A walk of the directory ends well only when each half was whole (`HalfWhole`): every page up to the
first empty one was answered with rows of that half, and every page with rows brought a new
identifier. A run writes to the catalog only after such a walk (`whole_of_applyCatalogChanges`).
-/

namespace FactorSage.Congress

open EStateM

/-- The identifiers on a page. -/
def pageIds (provider : Provider) (inOffice : Bool) (page : ℕ) : List String :=
  match provider inOffice page with
  | .ok result => result.rows.map MappedFmpCongressMember.externalId
  | .error _ => []

/-- A page that a walk goes past. -/
structure GoodPage (provider : Provider) (inOffice : Bool) (page : ℕ)
    (result : FmpCongressMemberPage) : Prop where
  answered : provider inOffice page = .ok result
  /-- It is not the end of the half. -/
  continues : result.providerRowCount ≠ 0
  /-- The filter was honoured. -/
  filtered : ∀ member ∈ result.rows, member.inOffice = some inOffice
  /-- The paging advanced. -/
  advances : result.rows ≠ [] →
    ∃ member ∈ result.rows, ∀ q < page, member.externalId ∉ pageIds provider inOffice q

/-- The page a half ends at. -/
def IsEnd (provider : Provider) (inOffice : Bool) (page : ℕ) : Prop :=
  ∃ result, provider inOffice page = .ok result ∧ result.providerRowCount = 0

/-- A half of the directory that is answered whole and is not empty. -/
def HalfWhole (provider : Provider) (inOffice : Bool) : Prop :=
  ∃ last < CONGRESS_MEMBER_DIRECTORY_MAX_PAGES,
    (∀ page < last, ∃ result, GoodPage provider inOffice page result)
      ∧ IsEnd provider inOffice last
      ∧ ∃ page < last, pageIds provider inOffice page ≠ []

/-- What reading a page's rows says of them. -/
structure RowsRead (inOffice : Bool) (rows : List MappedFmpCongressMember)
    (before after : Progress) : Prop where
  filtered : ∀ member ∈ rows, member.inOffice = some inOffice
  seen : ∀ id, id ∈ after.seenInHalf
    ↔ id ∈ before.seenInHalf ∨ id ∈ rows.map MappedFmpCongressMember.externalId
  advanced : after.advanced = true →
    before.advanced = true ∨ ∃ member ∈ rows, member.externalId ∉ before.seenInHalf

theorem mem_see (progress : Progress) (externalId id : String) :
    id ∈ (progress.see externalId).seenInHalf ↔ id ∈ progress.seenInHalf ∨ id = externalId := by
  unfold Progress.see
  split
  · next hseen =>
    constructor
    · exact .inl
    · rintro (h | rfl)
      · exact h
      · exact hseen
  · rw [List.mem_cons, or_comm]

theorem advanced_see {progress : Progress} {externalId : String}
    (h : (progress.see externalId).advanced = true) :
    progress.advanced = true ∨ externalId ∉ progress.seenInHalf := by
  unfold Progress.see at h
  split at h
  · exact .inl h
  · next hnew => exact .inr hnew

theorem rowsRead_nil (inOffice : Bool) (progress : Progress) :
    RowsRead inOffice [] progress progress :=
  ⟨by simp, by simp, .inl⟩

variable {inOffice : Bool}

/-- The step: one row, and then the rest of the page. -/
theorem RowsRead.cons {member : MappedFmpCongressMember}
    {rows : List MappedFmpCongressMember} {before after : Progress}
    (hmember : member.inOffice = some inOffice)
    (h : RowsRead inOffice rows (before.see member.externalId) after) :
    RowsRead inOffice (member :: rows) before after where
  filtered := by
    intro other hother
    rcases List.mem_cons.mp hother with rfl | hmem
    · exact hmember
    · exact h.filtered other hmem
  seen := by
    intro id
    rw [h.seen, mem_see, List.map_cons, List.mem_cons, or_assoc]
  advanced := by
    intro hadvanced
    rcases h.advanced hadvanced with hsee | ⟨other, hother, hnew⟩
    · rcases advanced_see hsee with hbefore | hnew
      · exact .inl hbefore
      · exact .inr ⟨member, List.mem_cons_self, hnew⟩
    · rw [mem_see, not_or] at hnew
      exact .inr ⟨other, List.mem_cons_of_mem _ hother, hnew.1⟩

theorem ends_readRows (inOffice : Bool) (page : ℕ) (rows : List MappedFmpCongressMember)
    (progress : Progress) (read : DirectoryRead) :
    (rows.foldlM (readRow inOffice page) progress).Ends
      (fun after _ => RowsRead inOffice rows progress after) (fun _ => True) read := by
  induction rows generalizing progress read with
  | nil => exact rowsRead_nil inOffice progress
  | cons member rest ih =>
    rw [List.foldlM_cons, ends_bind]
    unfold readRow
    by_cases hmember : member.inOffice = some inOffice
    · rw [if_neg (not_not.mpr hmember), ends_bind, ends_modify, ends_pure]
      refine (ih (progress.see member.externalId) _).imp ?_ fun _ _ => trivial
      intro after _ h
      exact h.cons hmember
    · rw [if_pos hmember]
      exact trivial

/-- The identifiers seen are those of the pages before. -/
def SeenBefore (provider : Provider) (inOffice : Bool) (page : ℕ) (seen : List String) : Prop :=
  ∀ id, id ∈ seen ↔ ∃ q < page, id ∈ pageIds provider inOffice q

variable {result : FmpCongressMemberPage}

theorem SeenBefore.succ {provider : Provider} {page : ℕ} {before after : Progress}
    (hbefore : SeenBefore provider inOffice page before.seenInHalf)
    (hpage : provider inOffice page = .ok result)
    (hrows : RowsRead inOffice result.rows before after) :
    SeenBefore provider inOffice (page + 1) after.seenInHalf := by
  have hids : pageIds provider inOffice page
      = result.rows.map MappedFmpCongressMember.externalId := by
    unfold pageIds
    rw [hpage]
  intro id
  rw [hrows.seen, hbefore id, ← hids]
  constructor
  · rintro (⟨q, hq, hid⟩ | hid)
    · exact ⟨q, Nat.lt_succ_of_lt hq, hid⟩
    · exact ⟨page, Nat.lt_succ_self page, hid⟩
  · rintro ⟨q, hq, hid⟩
    rcases Nat.lt_succ_iff_lt_or_eq.mp hq with hlt | rfl
    · exact .inl ⟨q, hlt, hid⟩
    · exact .inr hid

/-- The rest of a half, from a page on. -/
def RestWhole (provider : Provider) (inOffice : Bool) (page bound : ℕ) : Prop :=
  ∃ last, page ≤ last ∧ last < bound
    ∧ (∀ q, page ≤ q → q < last → ∃ result, GoodPage provider inOffice q result)
    ∧ IsEnd provider inOffice last
    ∧ ∃ q < last, pageIds provider inOffice q ≠ []

theorem RestWhole.prepend {provider : Provider} {page bound : ℕ}
    (hgood : GoodPage provider inOffice page result)
    (h : RestWhole provider inOffice (page + 1) bound) :
    RestWhole provider inOffice page bound := by
  obtain ⟨last, hle, hlt, hpages, hend⟩ := h
  refine ⟨last, by omega, hlt, ?_, hend⟩
  intro q hq hlast
  rcases Nat.eq_or_lt_of_le hq with rfl | hafter
  · exact ⟨result, hgood⟩
  · exact hpages q hafter hlast

/-- A page read to its end with a new identifier, or with no row at all. -/
theorem goodPage_of_rowsRead {provider : Provider} {page : ℕ} {seen : List String}
    {after : Progress} (hseen : SeenBefore provider inOffice page seen)
    (hpage : provider inOffice page = .ok result) (hcount : result.providerRowCount ≠ 0)
    (hrows : RowsRead inOffice result.rows { seenInHalf := seen, advanced := false } after)
    (hadvanced : ¬(after.advanced = false ∧ 0 < result.rows.length)) :
    GoodPage provider inOffice page result where
  answered := hpage
  continues := hcount
  filtered := hrows.filtered
  advances := by
    intro hne
    have hafter : after.advanced = true := by
      by_contra hnot
      exact hadvanced ⟨Bool.eq_false_iff.mpr hnot, List.length_pos_iff.mpr hne⟩
    rcases hrows.advanced hafter with hfalse | ⟨member, hmember, hnew⟩
    · cases hfalse
    · exact ⟨member, hmember, fun q hq hid => hnew ((hseen _).mpr ⟨q, hq, hid⟩)⟩

/-- **A walk of a half that ends well found the half whole.** -/
theorem ends_readPages (provider : Provider) (inOffice : Bool) (left page : ℕ) (seen : List String)
    (hseen : SeenBefore provider inOffice page seen) (read : DirectoryRead) :
    (readPages provider inOffice left page seen).Ends
      (fun _ _ => RestWhole provider inOffice page (page + left)) (fun _ => True) read := by
  induction left generalizing page seen read with
  | zero => exact trivial
  | succ left ih =>
    unfold readPages
    rw [ends_bind]
    unfold request
    rw [ends_bind, ends_modify]
    cases hpage : provider inOffice page with
    | error error => exact trivial
    | ok result =>
      rw [ends_pure]
      by_cases hcount : result.providerRowCount = 0
      · rw [if_pos hcount]
        by_cases hempty : seen = []
        · rw [if_pos hempty]
          exact trivial
        · rw [if_neg hempty]
          obtain ⟨id, hid⟩ := List.exists_mem_of_ne_nil seen hempty
          obtain ⟨q, hq, hmem⟩ := (hseen id).mp hid
          exact ⟨page, le_refl _, by omega, fun q hq hlt => absurd hq (by omega),
            ⟨result, hpage, hcount⟩, q, hq, List.ne_nil_of_mem hmem⟩
      · rw [if_neg hcount]
        refine (ends_readRows inOffice page result.rows _ _).seq ?_
        intro after read' hrows
        by_cases hadvanced : after.advanced = false ∧ 0 < result.rows.length
        · rw [if_pos hadvanced]
          exact trivial
        · rw [if_neg hadvanced]
          refine (ih (page + 1) after.seenInHalf (hseen.succ hpage hrows) read').imp ?_
            fun _ _ => trivial
          intro _ _ hrest
          have hbound : page + 1 + left = page + (left + 1) := by omega
          rw [hbound] at hrest
          exact hrest.prepend (goodPage_of_rowsRead hseen hpage hcount hrows hadvanced)

theorem ends_readHalf (provider : Provider) (inOffice : Bool) (read : DirectoryRead) :
    (readPages provider inOffice CONGRESS_MEMBER_DIRECTORY_MAX_PAGES 0 []).Ends
      (fun _ _ => HalfWhole provider inOffice) (fun _ => True) read := by
  have hseen : SeenBefore provider inOffice 0 [] := by
    intro id
    simp
  refine (ends_readPages provider inOffice _ 0 [] hseen read).imp ?_ fun _ _ => trivial
  rintro _ _ ⟨last, -, hlt, hpages, hend, hrows⟩
  exact ⟨last, by omega, fun page hpage => hpages page (Nat.zero_le _) hpage, hend, hrows⟩

/-- **A directory is read only when both halves are whole.** -/
theorem ends_readDirectory (provider : Provider) (read : DirectoryRead) :
    (readDirectory provider).Ends
      (fun _ _ => HalfWhole provider true ∧ HalfWhole provider false) (fun _ => True) read := by
  unfold readDirectory
  refine (ends_readHalf provider true read).seq ?_
  intro _ read' htrue
  refine (ends_readHalf provider false read').imp ?_ fun _ _ => trivial
  intro _ _ hfalse
  exact ⟨htrue, hfalse⟩

/-! ### A run -/

/-- The call writes to the catalog. -/
def StoreCall.Writes : StoreCall → Prop
  | .applyCatalogChanges _ => True
  | _ => False

theorem not_writes_failed {run : Run} {calls : List StoreCall} {now : ℤ} {runSequence : ℕ}
    {code : CongressMemberCatalogFailureCode} {message : String} {requests : ℕ}
    {cause : Option Cause} (hcalls : ∀ call ∈ calls, ¬call.Writes) :
    ∀ call ∈ (failed run calls now runSequence code message requests cause).2, ¬call.Writes := by
  intro call hcall
  rcases List.mem_append.mp hcall with h | h
  · exact hcalls call h
  · rw [List.mem_singleton.mp h]
    exact not_false

/-- **A run writes only a whole directory.** Whatever the store answers, a call that writes to the
catalog comes after both halves were read whole. -/
theorem whole_of_writes (localeCompare : String → String → ℤ) (run : Run) {call : StoreCall}
    (hcall : call ∈ (sync localeCompare run).2) (hwrites : call.Writes) :
    HalfWhole run.provider true ∧ HalfWhole run.provider false := by
  have hasked : ∀ call ∈ (if run.unlessCompletedWithinMs.isSome then
      [StoreCall.getCatalogSyncState (run.now 0)] else []), ¬call.Writes := by
    intro call hcall
    split at hcall
    · rw [List.mem_singleton.mp hcall]
      exact not_false
    · cases hcall
  unfold sync at hcall
  dsimp only at hcall
  cases hdate : upToDate run with
  | some lastCompletedAt =>
    rw [hdate] at hcall
    exact absurd hwrites (hasked call hcall)
  | none =>
    rw [hdate] at hcall
    dsimp only at hcall
    have hclaimed : ∀ call ∈ (if run.unlessCompletedWithinMs.isSome then
        [StoreCall.getCatalogSyncState (run.now 0)] else [])
          ++ [.claimCatalogSync run.owner (run.now 2) run.leaseMs], ¬call.Writes := by
      intro call hcall
      rcases List.mem_append.mp hcall with h | h
      · exact hasked call h
      · rw [List.mem_singleton.mp h]
        exact not_false
    cases hclaim : run.claim with
    | none =>
      rw [hclaim] at hcall
      exact absurd hwrites (hclaimed call hcall)
    | some runSequence =>
      rw [hclaim] at hcall
      dsimp only at hcall
      unfold synchronize at hcall
      -- only a walk that ends well is followed by writes, and such a walk read both halves
      have hread := ends_readDirectory run.provider ⟨OrderedMap.empty, 0, 0⟩
      unfold Ends at hread
      cases hwalk : readDirectory run.provider ⟨OrderedMap.empty, 0, 0⟩ with
      | ok _ read =>
        rw [hwalk] at hread
        exact hread
      | error error read =>
        rw [hwalk] at hcall
        exact absurd hwrites (not_writes_failed hclaimed call hcall)

end FactorSage.Congress
