import FactorSage.Contracts.MetricSignature

/-!
# What a signature reads back as

Both directions of the disclosure signature. An admitted metric is read back in its canonical form
exactly when its legacy id has no `|` (`parse_signature_iff`). An accepted text is the signature of
what it is read as exactly when its lookback is plain decimal text and its filter is in vocabulary
order (`signature_of_parse_iff`): neither is asked of it, while the ids of a selection are.
-/

namespace FactorSage.MetricSignature

open JsonText JsonInteger SeparatedFields

/-! ### Vocabularies -/

/-- Values with their names: each value once, each name of one value, none holding a separator. -/
structure Vocabulary {α : Type} (allowed : List α) (text : α → Text) : Prop where
  complete : ∀ a, a ∈ allowed
  nodup : allowed.Nodup
  injective : ∀ a ∈ allowed, ∀ b ∈ allowed, text a = text b → a = b
  plain : ∀ a ∈ allowed, actorIdSeparator ∉ text a ∧ fieldSeparator ∉ text a
  notAbsent : ∀ a ∈ allowed, text a ≠ lit "-"

theorem vocabulary_roles : Vocabulary INSIDER_ROLES roleText where
  complete a := by cases a <;> decide
  nodup := by decide
  injective := by decide
  plain := by decide
  notAbsent := by decide

theorem vocabulary_owners : Vocabulary CONGRESS_OWNERS ownerText where
  complete a := by cases a <;> decide
  nodup := by decide
  injective := by decide
  plain := by decide
  notAbsent := by decide

theorem vocabulary_chambers : Vocabulary CONGRESS_CHAMBER_FILTERS chamberText where
  complete a := by cases a <;> decide
  nodup := by decide
  injective := by decide
  plain := by decide
  notAbsent := by decide

section Vocabulary

variable {α : Type} {allowed : List α} {text : α → Text} (hv : Vocabulary allowed text)

include hv

theorem Vocabulary.text_inj {a b : α} : text a = text b ↔ a = b :=
  ⟨hv.injective a (hv.complete a) b (hv.complete b), congrArg text⟩

theorem Vocabulary.valueOf_text (a : α) : valueOf allowed text (text a) = some a := by
  unfold valueOf
  cases hfind : allowed.find? (text · = text a) with
  | none => exact absurd (List.find?_eq_none.mp hfind a (hv.complete a)) (by simp)
  | some b =>
    have hb : text b = text a := by simpa using List.find?_some hfind
    rw [hv.text_inj.mp hb]

omit hv in
theorem text_of_valueOf {t : Text} {a : α} (h : valueOf allowed text t = some a) : text a = t := by
  simpa using List.find?_some h

theorem Vocabulary.mapM_valueOf (values : List α) :
    (values.map text).mapM (valueOf allowed text) = some values := by
  induction values with
  | nil => rfl
  | cons a rest ih =>
    rw [List.map_cons, List.mapM_cons, hv.valueOf_text, ih]
    rfl

variable {values : List α}

omit hv in
theorem map_text_of_mapM {names : List Text}
    (h : names.mapM (valueOf allowed text) = some values) : values.map text = names := by
  induction names generalizing values with
  | nil =>
    rw [List.mapM_nil] at h
    rw [← Option.some.inj h]
    rfl
  | cons t rest ih =>
    rw [List.mapM_cons] at h
    obtain ⟨a, ha, h⟩ := Option.bind_eq_some_iff.mp h
    obtain ⟨more, hmore, h⟩ := Option.bind_eq_some_iff.mp h
    rw [← Option.some.inj h, List.map_cons, text_of_valueOf ha, ih hmore]

/-- A joined filter is split into its names. -/
theorem Vocabulary.splitOn_join (hne : values ≠ []) :
    (joinWith actorIdSeparator (values.map text)).splitOn actorIdSeparator = values.map text := by
  refine List.splitOn_intercalate _ (fun name hname => ?_) (by simpa using hne)
  obtain ⟨a, -, rfl⟩ := List.mem_map.mp hname
  exact (hv.plain a (hv.complete a)).1

theorem Vocabulary.join_inj {values more : List α} (h₁ : values ≠ []) (h₂ : more ≠ []) :
    joinWith actorIdSeparator (values.map text) = joinWith actorIdSeparator (more.map text)
      ↔ values = more := by
  refine ⟨fun h => ?_, fun h => by rw [h]⟩
  have hnames := congrArg (List.splitOn actorIdSeparator) h
  rw [hv.splitOn_join h₁, hv.splitOn_join h₂] at hnames
  exact List.map_injective_iff.mpr (fun a b => hv.text_inj.mp) hnames

/-- A joined filter is not the mark of an absent one. -/
theorem Vocabulary.join_ne_absent (hne : values ≠ []) :
    joinWith actorIdSeparator (values.map text) ≠ lit "-" := by
  intro h
  have hsplit := hv.splitOn_join hne
  rw [h, show (lit "-").splitOn actorIdSeparator = [lit "-"] by decide] at hsplit
  obtain ⟨a, rest, rfl⟩ := List.exists_cons_of_ne_nil hne
  exact hv.notAbsent a (hv.complete a) (List.cons.inj hsplit).1.symm

variable [DecidableEq α]

omit hv in
/-- The comparator of a filter compares positions in the vocabulary. -/
theorem compares_idxOf :
    ComparatorSort.Compares (fun left right : α => (allowed.idxOf left : ℤ) - allowed.idxOf right)
      allowed.idxOf := by
  intro a b
  change (allowed.idxOf a : ℤ) - allowed.idxOf b < 0 ↔ allowed.idxOf a < allowed.idxOf b
  omega

/-- The values of a filter in vocabulary order. -/
abbrev inOrder (allowed : List α) (values : List α) : List α :=
  ComparatorSort.sortBy (fun left right => (allowed.idxOf left : ℤ) - allowed.idxOf right) values

theorem Vocabulary.idxOf_inj {a b : α} : allowed.idxOf a = allowed.idxOf b ↔ a = b :=
  List.idxOf_inj (hv.complete a)

omit hv in
/-- Sorting leaves a filter alone exactly when it is in order. -/
theorem inOrder_eq_self_iff :
    inOrder allowed values = values ↔ (values.map allowed.idxOf).Pairwise (· ≤ ·) := by
  rw [List.pairwise_map]
  refine ⟨fun h => ?_, fun h => ?_⟩
  · rw [← h]
    exact compares_idxOf.pairwise_sortBy values
  · refine List.Pairwise.insertionSort_eq (h.imp fun {a b} hab => ?_)
    exact (compares_idxOf.precedes_iff a b).mpr hab

/-- The vocabulary cut down to some of its values. -/
theorem Vocabulary.pairwise_filter (p : α → Bool) :
    (allowed.filter p).Pairwise fun a b => allowed.idxOf a < allowed.idxOf b := by
  refine List.Pairwise.filter p (List.pairwise_iff_getElem.mpr fun i j hi hj hij => ?_)
  rw [hv.nodup.idxOf_getElem, hv.nodup.idxOf_getElem]
  exact hij

/-- The canonical filter is the vocabulary cut down to the values of the filter, in their order. -/
theorem Vocabulary.inOrder_eq_filter (hnodup : values.Nodup) :
    inOrder allowed values = allowed.filter (· ∈ values) := by
  have hperm : (allowed.filter (· ∈ values)).Perm values := by
    refine (List.perm_ext_iff_of_nodup (hv.nodup.filter _) hnodup).mpr fun a => ?_
    simp [hv.complete a]
  refine (ComparatorSort.eq_sortBy_of_perm compares_idxOf hperm
    ((hv.pairwise_filter _).imp fun h => h.le) ?_).symm
  exact (hv.nodup.filter _).map fun a b => hv.idxOf_inj.mp

/-- The cut-down vocabulary is the filter itself exactly when this is strictly in order. -/
theorem Vocabulary.filter_eq_self_iff :
    allowed.filter (· ∈ values) = values ↔ (values.map allowed.idxOf).Pairwise (· < ·) := by
  rw [List.pairwise_map]
  refine ⟨fun h => h ▸ hv.pairwise_filter _, fun h => ?_⟩
  have hnodup : values.Nodup := h.imp fun hab heq => absurd (heq ▸ hab) (lt_irrefl _)
  rw [← hv.inOrder_eq_filter hnodup, inOrder_eq_self_iff, List.pairwise_map]
  exact h.imp fun hab => hab.le

/-! ### Filters -/

/-- A canonical filter reads back from the text of any spelling of it. -/
theorem Vocabulary.filterList_filterText {values : Option (List α)}
    (hne : ∀ vs ∈ values, vs ≠ []) (hnodup : ∀ vs ∈ values, vs.Nodup) :
    filterList allowed text (filterText allowed text values)
      = some (values.map fun vs => allowed.filter (· ∈ vs)) := by
  unfold filterList
  cases values with
  | none => rfl
  | some vs =>
    have hsorted : inOrder allowed vs ≠ [] := fun h =>
      hne vs rfl (List.Perm.nil_eq (h ▸ ComparatorSort.sortBy_perm _ vs)).symm
    change (if joinWith actorIdSeparator ((inOrder allowed vs).map text) = lit "-" then _ else _) = _
    rw [if_neg (hv.join_ne_absent hsorted)]
    change Option.map some (List.mapM _ ((joinWith actorIdSeparator
      ((inOrder allowed vs).map text)).splitOn actorIdSeparator)) = _
    rw [hv.splitOn_join hsorted, hv.mapM_valueOf, hv.inOrder_eq_filter (hnodup vs rfl)]
    rfl

/-- Where the vocabulary lists the names of a filter's text. -/
def filterRanks (allowed : List α) (text : α → Text) (raw : Text) : List ℕ :=
  (raw.splitOn actorIdSeparator).map fun name => allowed.findIdx (text · = name)

theorem Vocabulary.findIdx_text (a : α) : allowed.findIdx (text · = text a) = allowed.idxOf a := by
  unfold List.idxOf
  congr 1
  funext b
  rw [decide_eq_decide.mpr hv.text_inj]
  rfl

/-- What an accepted filter text says of its values. -/
theorem Vocabulary.filterList_spec {raw : Text} {values : Option (List α)}
    (h : filterList allowed text raw = some values) :
    raw = lit "-" ∧ values = none
      ∨ ∃ vs, values = some vs ∧ vs ≠ [] ∧ raw = joinWith actorIdSeparator (vs.map text)
        ∧ filterRanks allowed text raw = vs.map allowed.idxOf := by
  unfold filterList at h
  split at h
  · next habsent => exact .inl ⟨habsent, (Option.some.inj h).symm⟩
  · obtain ⟨vs, hvs, h⟩ := Option.map_eq_some_iff.mp h
    have hnames := map_text_of_mapM hvs
    refine .inr ⟨vs, h.symm, ?_, ?_, ?_⟩
    · rintro rfl
      exact List.splitOn_ne_nil _ _ hnames.symm
    · rw [hnames]
      exact (List.intercalate_splitOn _).symm
    · unfold filterRanks
      rw [← hnames, List.map_map]
      exact List.map_congr_left fun a _ => hv.findIdx_text a

/-- **A filter text is written as it was read exactly when it is in order**, and is the canonical
filter's when no value is repeated either. -/
theorem Vocabulary.filterText_of_filterList {raw : Text} {values : Option (List α)}
    (h : filterList allowed text raw = some values) :
    (filterText allowed text values = raw ↔ (filterRanks allowed text raw).Pairwise (· ≤ ·))
      ∧ (filterText allowed text (values.map fun vs => allowed.filter (· ∈ vs)) = raw
        ↔ (filterRanks allowed text raw).Pairwise (· < ·)) := by
  rcases hv.filterList_spec h with ⟨rfl, rfl⟩ | ⟨vs, rfl, hne, hraw, hranks⟩
  · have hone : (lit "-").splitOn actorIdSeparator = [lit "-"] := by decide
    unfold filterRanks
    rw [hone]
    exact ⟨iff_of_true rfl (List.pairwise_singleton _ _),
      iff_of_true rfl (List.pairwise_singleton _ _)⟩
  · have hsorted : inOrder allowed vs ≠ [] := fun hnil =>
      hne (List.Perm.nil_eq (hnil ▸ ComparatorSort.sortBy_perm _ vs)).symm
    obtain ⟨a, ha⟩ := List.exists_mem_of_ne_nil vs hne
    have hcut : allowed.filter (· ∈ vs) ≠ [] :=
      List.ne_nil_of_mem (List.mem_filter.mpr ⟨hv.complete a, by simpa using ha⟩)
    have hstable : inOrder allowed (allowed.filter (· ∈ vs)) = allowed.filter (· ∈ vs) := by
      rw [inOrder_eq_self_iff, List.pairwise_map]
      exact (hv.pairwise_filter _).imp fun hlt => hlt.le
    rw [hranks]
    constructor
    · change joinWith actorIdSeparator ((inOrder allowed vs).map text) = raw ↔ _
      rw [hraw, hv.join_inj hsorted hne, inOrder_eq_self_iff]
    · change joinWith actorIdSeparator ((inOrder allowed (allowed.filter (· ∈ vs))).map text) = raw ↔ _
      rw [hstable, hraw, hv.join_inj hcut hne, hv.filter_eq_self_iff]

/-- The text of a filter has no field separator. -/
theorem Vocabulary.fieldSeparator_notMem (values : Option (List α)) :
    fieldSeparator ∉ filterText allowed text values := by
  cases values with
  | none =>
    change fieldSeparator ∉ lit "-"
    decide
  | some vs =>
    intro hmem
    rcases mem_intercalate hmem with hseparator | ⟨name, hname, hmem⟩
    · exact absurd hseparator (by decide)
    · obtain ⟨a, -, rfl⟩ := List.mem_map.mp hname
      exact (hv.plain a (hv.complete a)).2 hmem

end Vocabulary

/-! ### Scopes -/

theorem compares_units : ComparatorSort.Compares compareUnits (id : Text → Text) := by
  intro a b
  unfold compareUnits
  constructor
  · intro h
    split at h
    · next hlt => exact hlt
    · split at h <;> exact absurd h (by decide)
  · intro h
    rw [if_pos (show a < b from h)]
    decide

theorem canonicalActorIds_perm (actorIds : List Text) :
    (canonicalActorIds actorIds).Perm actorIds.dedup := ComparatorSort.sortBy_perm _ _

theorem mem_canonicalActorIds {actorIds : List Text} {actorId : Text} :
    actorId ∈ canonicalActorIds actorIds ↔ actorId ∈ actorIds := by
  rw [(canonicalActorIds_perm actorIds).mem_iff, List.mem_dedup]

theorem nodup_canonicalActorIds (actorIds : List Text) : (canonicalActorIds actorIds).Nodup :=
  (canonicalActorIds_perm actorIds).nodup_iff.mpr (List.nodup_dedup _)

/-- A canonical selection is its own canonical form. -/
theorem canonicalActorIds_idem (actorIds : List Text) :
    canonicalActorIds (canonicalActorIds actorIds) = canonicalActorIds actorIds := by
  have hdedup : (canonicalActorIds actorIds).dedup = canonicalActorIds actorIds :=
    List.dedup_eq_self.mpr (nodup_canonicalActorIds actorIds)
  have hsorted : (canonicalActorIds actorIds).Pairwise (ComparatorSort.Precedes compareUnits) :=
    (compares_units.pairwise_sortBy actorIds.dedup).imp fun {a b} h =>
      (compares_units.precedes_iff a b).mpr h
  rw [canonicalActorIds, hdedup]
  exact hsorted.insertionSort_eq

theorem canonicalActorIds_singleton (actorId : Text) : canonicalActorIds [actorId] = [actorId] := by
  unfold canonicalActorIds
  rw [List.dedup_eq_self.mpr (List.nodup_singleton _)]
  rfl

theorem canonicalActorIds_ne_nil {actorIds : List Text} (h : actorIds ≠ []) :
    canonicalActorIds actorIds ≠ [] := by
  obtain ⟨actorId, hmem⟩ := List.exists_mem_of_ne_nil actorIds h
  exact List.ne_nil_of_mem (mem_canonicalActorIds.mpr hmem)

theorem separators_notMem_of_isActorScopeId {actorId : Text} (h : isActorScopeId actorId = true) :
    actorIdSeparator ∉ actorId ∧ fieldSeparator ∉ actorId := by
  unfold isActorScopeId at h
  rw [decide_eq_true_eq] at h
  have hall := List.all_eq_true.mp h.2
  constructor <;>
  · intro hmem
    have hunit := hall _ hmem
    simp at hunit

theorem after_append (pre t : Text) : after pre (pre ++ t) = some t := by
  unfold after
  rw [if_pos (List.isPrefixOf_iff_prefix.mpr (List.prefix_append pre t)), List.drop_left]

theorem eq_append_of_after {pre t rest : Text} (h : after pre t = some rest) : t = pre ++ rest := by
  unfold after at h
  split at h
  · next hpre =>
    obtain ⟨more, rfl⟩ := List.isPrefixOf_iff_prefix.mp hpre
    rw [List.drop_left] at h
    rw [Option.some.inj h]
  · exact nomatch h

theorem actorPrefix_eq : ACTOR_SIGNATURE_PREFIX = [97, 99, 116, 111, 114, 58] := by decide

theorem actorsPrefix_eq : ACTORS_SIGNATURE_PREFIX = [97, 99, 116, 111, 114, 115, 58] := by
  decide

theorem groupPrefix_eq : GROUP_SIGNATURE_PREFIX = [103, 114, 111, 117, 112, 58] := by decide

theorem any_eq : lit "any" = [97, 110, 121] := by decide

theorem readScope_actor {actorId : Text} (h : actorId ≠ []) :
    readScope (ACTOR_SIGNATURE_PREFIX ++ actorId) = some (.actors [actorId]) := by
  have hany : ACTOR_SIGNATURE_PREFIX ++ actorId ≠ lit "any" := by
    rw [actorPrefix_eq, any_eq]
    simp
  unfold readScope
  rw [if_neg hany, after_append]
  dsimp only
  rw [if_neg h]

theorem readScope_actors (t : Text) : readScope (ACTORS_SIGNATURE_PREFIX ++ t) = readActorIds t := by
  have hany : ACTORS_SIGNATURE_PREFIX ++ t ≠ lit "any" := by
    rw [actorsPrefix_eq, any_eq]
    simp
  have hactor : after ACTOR_SIGNATURE_PREFIX (ACTORS_SIGNATURE_PREFIX ++ t) = none := by
    rw [actorPrefix_eq, actorsPrefix_eq]
    rfl
  unfold readScope
  rw [if_neg hany, hactor, after_append]

theorem readScope_group {groupId : Text} (h : groupId ≠ []) :
    readScope (GROUP_SIGNATURE_PREFIX ++ groupId) = some (.group groupId) := by
  have hany : GROUP_SIGNATURE_PREFIX ++ groupId ≠ lit "any" := by
    rw [groupPrefix_eq, any_eq]
    simp
  have hactor : after ACTOR_SIGNATURE_PREFIX (GROUP_SIGNATURE_PREFIX ++ groupId) = none := by
    rw [actorPrefix_eq, groupPrefix_eq]
    rfl
  have hactors : after ACTORS_SIGNATURE_PREFIX (GROUP_SIGNATURE_PREFIX ++ groupId) = none := by
    rw [actorsPrefix_eq, groupPrefix_eq]
    rfl
  unfold readScope
  rw [if_neg hany, hactor, hactors, after_append]
  dsimp only
  rw [if_neg h]

/-- What the validator asks of a scope. -/
def AdmittedScope : ActorScope → Prop
  | .any => True
  | .actors actorIds =>
    actorIds ≠ [] ∧ canonicalActorIds actorIds = actorIds ∧ (∀ id ∈ actorIds, isActorScopeId id = true)
      ∧ actorIds.length ≤ ACTOR_SCOPE_MAX_ACTORS
  | .actor actorId => actorId ≠ []
  | .group groupId => groupId ≠ []

/-- Joined ids are split into them. -/
theorem splitOn_joinIds {actorIds : List Text} (hne : actorIds ≠ [])
    (hids : ∀ id ∈ actorIds, isActorScopeId id = true) :
    (joinWith actorIdSeparator actorIds).splitOn actorIdSeparator = actorIds :=
  List.splitOn_intercalate _ (fun id hid => (separators_notMem_of_isActorScopeId (hids id hid)).1) hne

variable {scope : ActorScope}

/-- **A scope reads back in its canonical shape.** -/
theorem readScope_scopeSignature (h : AdmittedScope scope) :
    ∃ t, scopeSignature scope = .ok t ∧ readScope t = some (buildScope scope) := by
  cases scope with
  | any =>
    refine ⟨lit "any", rfl, ?_⟩
    unfold readScope
    rw [if_pos rfl]
    rfl
  | group groupId => exact ⟨_, rfl, readScope_group h⟩
  | actor actorId => exact ⟨_, rfl, readScope_actor h⟩
  | actors actorIds =>
    obtain ⟨hne, hcanonical, hids, hbound⟩ := h
    have hbuild : buildScope (.actors actorIds) = .actors actorIds := by
      change ActorScope.actors (canonicalActorIds actorIds) = _
      rw [hcanonical]
    unfold scopeSignature actorScopeActorIds
    dsimp only
    rw [Option.getD_some, hcanonical, hbuild]
    match actorIds, hne with
    | [actorId], _ =>
      refine ⟨_, rfl, readScope_actor ?_⟩
      rintro rfl
      exact absurd (hids [] List.mem_cons_self) (by decide)
    | first :: second :: rest, hne =>
      refine ⟨_, rfl, ?_⟩
      rw [readScope_actors]
      unfold readActorIds
      dsimp only
      rw [splitOn_joinIds hne hids, hcanonical, if_neg]
      rintro (hshort | hlong | hinvalid | hchanged)
      · simp at hshort
      · exact absurd hbound (not_le.mpr hlong)
      · exact hinvalid (List.all_eq_true.mpr hids)
      · exact hchanged rfl

variable {t : Text}

/-- An accepted list of ids is canonical, and longer than one. -/
theorem readActorIds_spec (h : readActorIds t = some scope) :
    ∃ first second rest, scope = .actors (first :: second :: rest)
      ∧ t = joinWith actorIdSeparator (first :: second :: rest)
      ∧ canonicalActorIds (first :: second :: rest) = first :: second :: rest := by
  unfold readActorIds at h
  dsimp only at h
  split at h
  · exact nomatch h
  next haccepted =>
  simp only [not_or, not_lt, not_not] at haccepted
  obtain ⟨hlength, -, hids, hcanonical⟩ := haccepted
  have hids : ∀ id ∈ t.splitOn actorIdSeparator, isActorScopeId id = true := List.all_eq_true.mp hids
  have hne : t.splitOn actorIdSeparator ≠ [] := List.splitOn_ne_nil _ _
  have hsame : canonicalActorIds (t.splitOn actorIdSeparator) = t.splitOn actorIdSeparator := by
    refine (intercalate_inj (fun id hid => ?_) (fun id hid => ?_) (canonicalActorIds_ne_nil hne)
      hne).mp hcanonical
    · exact (separators_notMem_of_isActorScopeId (hids id (mem_canonicalActorIds.mp hid))).1
    · exact (separators_notMem_of_isActorScopeId (hids id hid)).1
  have hjoin : t = joinWith actorIdSeparator (t.splitOn actorIdSeparator) :=
    (List.intercalate_splitOn _).symm
  match hsplit : t.splitOn actorIdSeparator, hlength with
  | first :: second :: rest, _ =>
    rw [hsplit] at hsame hjoin h
    exact ⟨first, second, rest, (Option.some.inj h).symm, hjoin, hsame⟩

/-- **An accepted scope is written as it was read**, and is in its canonical shape. -/
theorem scopeSignature_of_readScope {raw : Text} (h : readScope raw = some scope) :
    scopeSignature scope = .ok raw ∧ buildScope scope = scope := by
  unfold readScope at h
  split at h
  · next hany =>
    rw [← Option.some.inj h, hany]
    exact ⟨rfl, rfl⟩
  split at h
  · next actorId hactor =>
    split at h
    · exact nomatch h
    rw [← Option.some.inj h, eq_append_of_after hactor]
    unfold scopeSignature buildScope actorScopeActorIds
    dsimp only
    rw [canonicalActorIds_singleton]
    exact ⟨rfl, rfl⟩
  split at h
  · next actorIds _ hactors =>
    obtain ⟨first, second, rest, rfl, hjoin, hcanonical⟩ := readActorIds_spec h
    rw [eq_append_of_after hactors, hjoin]
    unfold scopeSignature buildScope actorScopeActorIds
    dsimp only
    rw [hcanonical]
    exact ⟨rfl, rfl⟩
  split at h
  · next groupId _ _ hgroup =>
    split at h
    · exact nomatch h
    rw [← Option.some.inj h, eq_append_of_after hgroup]
    exact ⟨rfl, rfl⟩
  · exact nomatch h

/-! ### Fields -/

theorem kindOf_text (kind : AlternativeDataMetricKind) : kindOf kind.text = some kind := by
  cases kind <;> decide

variable {kind : AlternativeDataMetricKind}

theorem text_of_kindOf (h : kindOf t = some kind) :
    kind.text = t := by
  simpa using List.find?_some h

theorem fieldSeparator_notMem_kind (kind : AlternativeDataMetricKind) :
    fieldSeparator ∉ kind.text := by
  cases kind <;> decide

theorem fieldSeparator_notMem_measure {measure : Text}
    (h : findAlternativeDataMeasure kind measure = true) : fieldSeparator ∉ measure := by
  have hregistry : ∀ m ∈ alternativeDataMeasures kind, fieldSeparator ∉ m := by
    cases kind <;> decide
  have hinherited : ∀ m ∈ objectPrototypeNames.map lit, fieldSeparator ∉ m := by decide
  unfold findAlternativeDataMeasure at h
  rw [decide_eq_true_eq] at h
  exact h.elim (hregistry measure) (hinherited measure)

theorem fieldSeparator_notMem_naturalText (n : ℕ) : fieldSeparator ∉ naturalText n := fun h =>
  absurd ((NumberText.isDigits_naturalText n).digits _ h) (by decide)

variable {lookback : ℕ}

theorem lookbackOf_naturalText (h : lookback ∈ ALTERNATIVE_DATA_LOOKBACKS) :
    lookbackOf (naturalText lookback) = some lookback := by
  have hsmall : ∀ l ∈ ALTERNATIVE_DATA_LOOKBACKS, l < 2 ^ 53 := by decide
  unfold lookbackOf
  rw [NumericLiteral.numberOf_naturalText (hsmall lookback h)]
  cases hfind : ALTERNATIVE_DATA_LOOKBACKS.find? fun (l : ℕ) => some (lookback : ℚ) = some (l : ℚ) with
  | none => exact absurd (List.find?_eq_none.mp hfind lookback h) (by simp)
  | some l =>
    have hl := List.find?_some hfind
    rw [decide_eq_true_eq, Option.some.injEq, Nat.cast_inj] at hl
    rw [hl]

theorem mem_of_lookbackOf (h : lookbackOf t = some lookback) :
    lookback ∈ ALTERNATIVE_DATA_LOOKBACKS := List.mem_of_find?_eq_some h

/-- An accepted lookback is written as it was read exactly when it is a preset's decimal text. -/
theorem naturalText_of_lookbackOf (h : lookbackOf t = some lookback) :
    naturalText lookback = t ↔ t ∈ ALTERNATIVE_DATA_LOOKBACKS.map naturalText := by
  constructor
  · rintro rfl
    exact List.mem_map_of_mem (mem_of_lookbackOf h)
  · intro hmem
    obtain ⟨preset, hpreset, rfl⟩ := List.mem_map.mp hmem
    rw [lookbackOf_naturalText hpreset] at h
    rw [Option.some.inj h]

/-! ### From a metric to its text and back -/

/-- What the validator asks of a filter. -/
def AdmittedFilter {α : Type} (values : Option (List α)) : Prop := ∀ vs ∈ values, vs ≠ [] ∧ vs.Nodup

/-- What the validator asks of a metric. -/
def AdmittedMetric : AlternativeDataMetric → Prop
  | .insiderActivity measure lookback roles =>
    findAlternativeDataMeasure .insiderActivity measure = true ∧ lookback ∈ ALTERNATIVE_DATA_LOOKBACKS
      ∧ AdmittedFilter roles
  | .congressActivity measure lookback scope _ owners =>
    findAlternativeDataMeasure .congressActivity measure = true ∧ lookback ∈ ALTERNATIVE_DATA_LOOKBACKS
      ∧ AdmittedScope scope ∧ AdmittedFilter owners

/-- The id of a legacy scope. -/
def legacyIds : AlternativeDataMetric → List Text
  | .congressActivity _ _ (.actor actorId) _ _ => [actorId]
  | .congressActivity _ _ (.group groupId) _ _ => [groupId]
  | _ => []

/-- Only a legacy id brings a field separator into a scope's text. -/
theorem fieldSeparator_mem_scopeSignature (h : AdmittedScope scope)
    (ht : scopeSignature scope = .ok t) (measure : Text) (lookback : ℕ)
    (chamber : CongressChamberFilter) (owners : Option (List CongressOwner)) :
    fieldSeparator ∉ t
      ↔ ∀ id ∈ legacyIds (.congressActivity measure lookback scope chamber owners),
        fieldSeparator ∉ id := by
  have hpre : ∀ pre : Text, fieldSeparator ∉ pre → ∀ id : Text,
      fieldSeparator ∉ pre ++ id ↔ fieldSeparator ∉ id := by
    intro pre hfree id
    rw [List.mem_append, not_or]
    exact and_iff_right hfree
  cases scope with
  | any =>
    rw [← Except.ok.inj ht]
    exact iff_of_true (by decide) nofun
  | group groupId =>
    rw [← Except.ok.inj ht, hpre _ (by decide)]
    exact (List.forall_mem_singleton (p := fun id => fieldSeparator ∉ id)).symm
  | actor actorId =>
    rw [← Except.ok.inj ht, hpre _ (by decide)]
    exact (List.forall_mem_singleton (p := fun id => fieldSeparator ∉ id)).symm
  | actors actorIds =>
    refine iff_of_true ?_ nofun
    obtain ⟨hne, hcanonical, hids, -⟩ := h
    have hfree : ∀ id ∈ actorIds, fieldSeparator ∉ id := fun id hid =>
      (separators_notMem_of_isActorScopeId (hids id hid)).2
    unfold scopeSignature actorScopeActorIds at ht
    dsimp only at ht
    rw [Option.getD_some, hcanonical] at ht
    match actorIds, hne with
    | [actorId], _ =>
      rw [← Except.ok.inj ht, hpre _ (by decide)]
      exact hfree actorId List.mem_cons_self
    | first :: second :: rest, _ =>
      rw [← Except.ok.inj ht, hpre _ (by decide)]
      intro hmem
      rcases mem_intercalate hmem with hseparator | ⟨id, hid, hmem⟩
      · exact absurd hseparator (by decide)
      · exact hfree id hid hmem

/-- The fields of one kind. -/
theorem readFields_kind {measure raw : Text}
    (hmeasure : findAlternativeDataMeasure kind measure = true)
    (hlookback : lookbackOf raw = some lookback) (rest : List Text) :
    readFields (kind.text :: measure :: raw :: rest)
      = match kind with
        | .insiderActivity => readInsider measure lookback rest
        | .congressActivity => readCongress measure lookback rest := by
  rw [readFields, kindOf_text, hlookback]
  cases kind <;> simp [hmeasure]

/-- Too many fields are no Congress metric. -/
theorem readCongress_of_split {measure : Text} (h : fieldSeparator ∈ t) (chamber owners : Text) :
    readCongress measure lookback (t.splitOn fieldSeparator ++ [chamber, owners]) = none := by
  match hsplit : t.splitOn fieldSeparator with
  | [] => exact absurd hsplit (List.splitOn_ne_nil _ _)
  | [one] =>
    have hone : t = one := by
      have hjoined : [fieldSeparator].intercalate (t.splitOn fieldSeparator) = t :=
        List.intercalate_splitOn fieldSeparator
      rw [hsplit] at hjoined
      rw [← hjoined]
      simp [List.intercalate]
    have hfree : fieldSeparator ∉ one := separator_notMem_of_mem_splitOn (hsplit ▸ List.mem_cons_self)
    exact absurd (hone ▸ h) hfree
  | first :: second :: [] => rfl
  | first :: second :: third :: rest => cases rest <;> rfl

/-- The text of an insider metric is split into its fields. -/
theorem splitOn_insider {measure : Text}
    (hmeasure : findAlternativeDataMeasure .insiderActivity measure = true) (lookback : ℕ)
    (roles : Option (List InsiderRole)) :
    (joinWith fieldSeparator [lit "INSIDER_ACTIVITY", measure, naturalText lookback, lit "-",
        filterText INSIDER_ROLES roleText roles]).splitOn fieldSeparator
      = [AlternativeDataMetricKind.insiderActivity.text, measure, naturalText lookback, lit "-",
        filterText INSIDER_ROLES roleText roles] := by
  refine List.splitOn_intercalate _ ?_ (List.cons_ne_nil _ _)
  simp only [List.forall_mem_cons]
  exact ⟨fieldSeparator_notMem_kind .insiderActivity, fieldSeparator_notMem_measure hmeasure,
    fieldSeparator_notMem_naturalText _, by decide,
    vocabulary_roles.fieldSeparator_notMem _, nofun⟩

/-- The text of a Congress metric is split into its fields, and into the parts of its scope. -/
theorem splitOn_congress {measure : Text}
    (hmeasure : findAlternativeDataMeasure .congressActivity measure = true) (lookback : ℕ) (t : Text)
    (chamber : CongressChamberFilter) (owners : Option (List CongressOwner)) :
    (joinWith fieldSeparator [lit "CONGRESS_ACTIVITY", measure, naturalText lookback, t,
        chamberText chamber, filterText CONGRESS_OWNERS ownerText owners]).splitOn fieldSeparator
      = AlternativeDataMetricKind.congressActivity.text :: measure :: naturalText lookback
        :: (t.splitOn fieldSeparator
          ++ [chamberText chamber, filterText CONGRESS_OWNERS ownerText owners]) := by
  have hplain : ∀ field : Text, fieldSeparator ∉ field → field.splitOn fieldSeparator = [field] :=
    fun field hfield => List.splitOn_eq_singleton hfield
  unfold joinWith
  rw [splitOn_intercalate_flatMap (List.cons_ne_nil _ _)]
  simp only [List.flatMap_cons, List.flatMap_nil]
  rw [hplain (lit "CONGRESS_ACTIVITY") (fieldSeparator_notMem_kind .congressActivity),
    hplain _ (fieldSeparator_notMem_measure hmeasure), hplain _ (fieldSeparator_notMem_naturalText _),
    hplain _ (vocabulary_chambers.plain chamber (vocabulary_chambers.complete chamber)).2,
    hplain _ (vocabulary_owners.fieldSeparator_notMem _)]
  rfl

/-- The signature of a Congress metric, around its scope's text. -/
theorem signature_congress (ht : scopeSignature scope = .ok t)
    (measure : Text) (lookback : ℕ) (chamber : CongressChamberFilter)
    (owners : Option (List CongressOwner)) :
    alternativeDataMetricSignature (.congressActivity measure lookback scope chamber owners)
      = .ok (joinWith fieldSeparator [lit "CONGRESS_ACTIVITY", measure, naturalText lookback, t,
        chamberText chamber, filterText CONGRESS_OWNERS ownerText owners]) := by
  unfold alternativeDataMetricSignature metricSignature
  dsimp only
  rw [ht]
  rfl

/-- An admitted filter reads back in its canonical form. -/
theorem AdmittedFilter.read {α : Type} [DecidableEq α] {allowed : List α} {text : α → Text}
    (hv : Vocabulary allowed text) {values : Option (List α)} (h : AdmittedFilter values) :
    filterList allowed text (filterText allowed text values)
      = some (values.map fun vs => allowed.filter (· ∈ vs)) :=
  hv.filterList_filterText (fun vs hvs => (h vs hvs).1) fun vs hvs => (h vs hvs).2

variable {metric : AlternativeDataMetric}

/-- **An admitted metric reads back in its canonical form exactly when its legacy id has no field
separator.** -/
theorem parse_signature_iff (h : AdmittedMetric metric) :
    (∃ s, alternativeDataMetricSignature metric = .ok s
        ∧ parseAlternativeDataMetricSignature s = some (buildAlternativeDataMetric metric))
      ↔ ∀ id ∈ legacyIds metric, fieldSeparator ∉ id := by
  cases metric with
  | insiderActivity measure lookback roles =>
    obtain ⟨hmeasure, hlookback, hroles⟩ := h
    refine iff_of_true ⟨_, rfl, ?_⟩ nofun
    unfold parseAlternativeDataMetricSignature
    rw [splitOn_insider hmeasure, readFields_kind hmeasure (lookbackOf_naturalText hlookback)]
    unfold readInsider
    dsimp only
    rw [if_pos rfl, hroles.read vocabulary_roles]
    rfl
  | congressActivity measure lookback scope chamber owners =>
    obtain ⟨hmeasure, hlookback, hscope, howners⟩ := h
    obtain ⟨t, ht, hread⟩ := readScope_scopeSignature hscope
    have hsignature := signature_congress ht measure lookback chamber owners
    -- a scope without a separator is one field of the six, any other is split
    have hparse : parseAlternativeDataMetricSignature (joinWith fieldSeparator
        [lit "CONGRESS_ACTIVITY", measure, naturalText lookback, t, chamberText chamber,
          filterText CONGRESS_OWNERS ownerText owners])
        = readCongress measure lookback (t.splitOn fieldSeparator
          ++ [chamberText chamber, filterText CONGRESS_OWNERS ownerText owners]) := by
      unfold parseAlternativeDataMetricSignature
      rw [splitOn_congress hmeasure, readFields_kind hmeasure (lookbackOf_naturalText hlookback)]
    rw [← fieldSeparator_mem_scopeSignature hscope ht measure lookback chamber owners]
    constructor
    · rintro ⟨s, hs, hsome⟩ hmem
      rw [hsignature] at hs
      rw [← Except.ok.inj hs, hparse, readCongress_of_split hmem] at hsome
      exact nomatch hsome
    · intro hfree
      refine ⟨_, hsignature, ?_⟩
      rw [hparse, List.splitOn_eq_singleton hfree]
      unfold readCongress
      change Option.bind (readScope t) _ = _
      rw [hread]
      change Option.bind (valueOf CONGRESS_CHAMBER_FILTERS chamberText (chamberText chamber)) _ = _
      rw [vocabulary_chambers.valueOf_text]
      change Option.bind (filterList _ _ _) _ = _
      rw [howners.read vocabulary_owners]
      rfl

/-! ### Canonical metrics -/

/-- An admitted scope and its canonical shape have one text. -/
theorem scopeSignature_buildScope (h : AdmittedScope scope) :
    scopeSignature (buildScope scope) = scopeSignature scope := by
  cases scope with
  | any => rfl
  | group groupId => rfl
  | actor actorId =>
    change scopeSignature (.actors [actorId]) = _
    unfold scopeSignature actorScopeActorIds
    dsimp only
    rw [canonicalActorIds_singleton]
  | actors actorIds =>
    change scopeSignature (.actors (canonicalActorIds actorIds)) = _
    rw [h.2.1]

/-- An admitted filter and its canonical form have one text. -/
theorem Vocabulary.filterText_canonical {α : Type} [DecidableEq α] {allowed : List α} {text : α → Text}
    (hv : Vocabulary allowed text) {values : Option (List α)} (h : AdmittedFilter values) :
    filterText allowed text (values.map fun vs => allowed.filter (· ∈ vs))
      = filterText allowed text values := by
  cases values with
  | none => rfl
  | some vs =>
    have hstable : inOrder allowed (allowed.filter (· ∈ vs)) = allowed.filter (· ∈ vs) := by
      rw [inOrder_eq_self_iff, List.pairwise_map]
      exact (hv.pairwise_filter _).imp fun hlt => hlt.le
    change joinWith actorIdSeparator ((inOrder allowed (allowed.filter (· ∈ vs))).map text)
      = joinWith actorIdSeparator ((inOrder allowed vs).map text)
    rw [hstable, hv.inOrder_eq_filter (h vs rfl).2]

/-- **Normalization does not change a signature.** -/
theorem signature_build (h : AdmittedMetric metric) :
    alternativeDataMetricSignature (buildAlternativeDataMetric metric)
      = alternativeDataMetricSignature metric := by
  cases metric with
  | insiderActivity measure lookback roles =>
    obtain ⟨-, -, hroles⟩ := h
    unfold alternativeDataMetricSignature buildAlternativeDataMetric metricSignature
    dsimp only
    rw [vocabulary_roles.filterText_canonical hroles]
  | congressActivity measure lookback scope chamber owners =>
    obtain ⟨-, -, hscope, howners⟩ := h
    unfold alternativeDataMetricSignature buildAlternativeDataMetric metricSignature
    dsimp only
    rw [scopeSignature_buildScope hscope, vocabulary_owners.filterText_canonical howners]

theorem naturalText_injective : Function.Injective naturalText := by
  intro m n h
  rw [← naturalOf_naturalText m, h, naturalOf_naturalText]

/-- **Admitted metrics with one signature have one canonical form**, whatever their ids hold. -/
theorem build_eq_of_signature_eq {metric other : AlternativeDataMetric} (h : AdmittedMetric metric)
    (hother : AdmittedMetric other)
    (hsame : alternativeDataMetricSignature metric = alternativeDataMetricSignature other) :
    buildAlternativeDataMetric metric = buildAlternativeDataMetric other := by
  have hkinds : AlternativeDataMetricKind.insiderActivity.text
      ≠ AlternativeDataMetricKind.congressActivity.text := by decide
  cases metric with
  | insiderActivity measure lookback roles =>
    obtain ⟨hmeasure, -, hroles⟩ := h
    cases other with
    | insiderActivity measure' lookback' roles' =>
      obtain ⟨hmeasure', -, hroles'⟩ := hother
      have hfields := congrArg (List.splitOn fieldSeparator) (Except.ok.inj hsame)
      rw [splitOn_insider hmeasure, splitOn_insider hmeasure'] at hfields
      simp only [List.cons.injEq, true_and, and_true] at hfields
      obtain ⟨rfl, hlookback, htext⟩ := hfields
      have hread := hroles.read vocabulary_roles
      rw [htext, hroles'.read vocabulary_roles] at hread
      unfold buildAlternativeDataMetric
      dsimp only
      rw [naturalText_injective hlookback, Option.some.inj hread]
    | congressActivity measure' lookback' scope' chamber' owners' =>
      obtain ⟨hmeasure', -, hscope', -⟩ := hother
      obtain ⟨t', ht', -⟩ := readScope_scopeSignature hscope'
      rw [signature_congress ht'] at hsame
      have hfields := congrArg (List.splitOn fieldSeparator) (Except.ok.inj hsame)
      rw [splitOn_insider hmeasure, splitOn_congress hmeasure'] at hfields
      exact absurd (List.cons.inj hfields).1 hkinds
  | congressActivity measure lookback scope chamber owners =>
    obtain ⟨hmeasure, -, hscope, howners⟩ := h
    obtain ⟨t, ht, hread⟩ := readScope_scopeSignature hscope
    rw [signature_congress ht] at hsame
    cases other with
    | insiderActivity measure' lookback' roles' =>
      obtain ⟨hmeasure', -, -⟩ := hother
      have hfields := congrArg (List.splitOn fieldSeparator) (Except.ok.inj hsame)
      rw [splitOn_congress hmeasure, splitOn_insider hmeasure'] at hfields
      exact absurd (List.cons.inj hfields).1.symm hkinds
    | congressActivity measure' lookback' scope' chamber' owners' =>
      obtain ⟨hmeasure', -, hscope', howners'⟩ := hother
      obtain ⟨t', ht', hread'⟩ := readScope_scopeSignature hscope'
      rw [signature_congress ht'] at hsame
      have hfields := congrArg (List.splitOn fieldSeparator) (Except.ok.inj hsame)
      rw [splitOn_congress hmeasure, splitOn_congress hmeasure'] at hfields
      simp only [List.cons.injEq, true_and] at hfields
      obtain ⟨rfl, hlookback, hrest⟩ := hfields
      -- the parts of the scope end where the last two fields begin
      obtain ⟨hparts, hlast⟩ := List.append_inj' hrest rfl
      simp only [List.cons.injEq, and_true] at hlast
      obtain ⟨hchamber, htext⟩ := hlast
      rw [splitOn_injective hparts, hread'] at hread
      have howner := howners.read vocabulary_owners
      rw [htext, howners'.read vocabulary_owners] at howner
      unfold buildAlternativeDataMetric
      dsimp only
      rw [naturalText_injective hlookback, Option.some.inj hread,
        vocabulary_chambers.text_inj.mp hchamber, Option.some.inj howner]

/-! ### From a text to its metric and back -/

/-- The lookback field of a signature. -/
def lookbackField (s : Text) : Text := (s.splitOn fieldSeparator).getD 2 []

/-- Where the vocabulary of a signature's kind lists the names of its last field. -/
def ranks (s : Text) : List ℕ :=
  let fields := s.splitOn fieldSeparator
  if fields.headD [] = lit "INSIDER_ACTIVITY" then
    filterRanks INSIDER_ROLES roleText (fields.getLastD [])
  else filterRanks CONGRESS_OWNERS ownerText (fields.getLastD [])

/-- The lookback is the decimal text of a preset. -/
def PlainLookback (s : Text) : Prop := lookbackField s ∈ ALTERNATIVE_DATA_LOOKBACKS.map naturalText

/-- An accepted list of fields, by its kind. -/
theorem readFields_spec {fields : List Text} (h : readFields fields = some metric) :
    (∃ measure rawLookback rawRoles lookback roles,
        fields = [lit "INSIDER_ACTIVITY", measure, rawLookback, lit "-", rawRoles]
          ∧ metric = .insiderActivity measure lookback roles ∧ lookbackOf rawLookback = some lookback
          ∧ filterList INSIDER_ROLES roleText rawRoles = some roles)
      ∨ ∃ measure rawLookback rawScope rawChamber rawOwners lookback scope chamber owners,
        fields = [lit "CONGRESS_ACTIVITY", measure, rawLookback, rawScope, rawChamber, rawOwners]
          ∧ metric = .congressActivity measure lookback scope chamber owners
          ∧ lookbackOf rawLookback = some lookback ∧ readScope rawScope = some scope
          ∧ chamberText chamber = rawChamber
          ∧ filterList CONGRESS_OWNERS ownerText rawOwners = some owners := by
  unfold readFields at h
  split at h
  · next rawKind measure rawLookback rest =>
    obtain ⟨kind, hkind, h⟩ := Option.bind_eq_some_iff.mp h
    obtain ⟨-, -, h⟩ := Option.bind_eq_some_iff.mp h
    obtain ⟨lookback, hlookback, h⟩ := Option.bind_eq_some_iff.mp h
    -- the kind read says how many fields follow
    rw [← text_of_kindOf hkind]
    cases kind with
    | insiderActivity =>
      left
      dsimp only at h
      match rest, h with
      | [rawScope, rawRoles], h =>
        rw [readInsider] at h
        split at h
        · next hscope =>
          obtain ⟨roles, hroles, h⟩ := Option.map_eq_some_iff.mp h
          exact ⟨measure, rawLookback, rawRoles, lookback, roles, by rw [hscope]; rfl, h.symm,
            hlookback, hroles⟩
        · exact nomatch h
    | congressActivity =>
      right
      dsimp only at h
      match rest, h with
      | [rawScope, rawChamber, rawOwners], h =>
        obtain ⟨scope, hscope, h⟩ := Option.bind_eq_some_iff.mp h
        obtain ⟨chamber, hchamber, h⟩ := Option.bind_eq_some_iff.mp h
        obtain ⟨owners, howners, h⟩ := Option.bind_eq_some_iff.mp h
        exact ⟨measure, rawLookback, rawScope, rawChamber, rawOwners, lookback, scope, chamber, owners,
          rfl, (Option.some.inj h).symm, hlookback, hscope, text_of_valueOf hchamber, howners⟩
  · exact nomatch h

/-- **An accepted text is the signature of what it is read as exactly when its lookback is plain and
its filter in order**, and of the canonical metric when the filter repeats no value either. -/
theorem signature_of_parse_iff {s : Text}
    (h : parseAlternativeDataMetricSignature s = some metric) :
    (alternativeDataMetricSignature metric = .ok s
        ↔ PlainLookback s ∧ (ranks s).Pairwise (· ≤ ·))
      ∧ (alternativeDataMetricSignature (buildAlternativeDataMetric metric) = .ok s
        ↔ PlainLookback s ∧ (ranks s).Pairwise (· < ·)) := by
  -- the text is its own fields joined, so one written back is compared field by field
  have hjoin : s = joinWith fieldSeparator (s.splitOn fieldSeparator) :=
    (List.intercalate_splitOn _).symm
  have hfree : ∀ field ∈ s.splitOn fieldSeparator, fieldSeparator ∉ field :=
    fun _ => separator_notMem_of_mem_splitOn
  have hne := List.splitOn_ne_nil fieldSeparator s
  unfold PlainLookback lookbackField ranks
  rcases readFields_spec h with
      ⟨measure, rawLookback, rawRoles, lookback, roles, hfields, rfl, hlookback, hroles⟩
    | ⟨measure, rawLookback, rawScope, rawChamber, rawOwners, lookback, scope, chamber, owners, hfields,
        rfl, hlookback, hscope, hchamber, howners⟩
  · obtain ⟨hordered, hstrict⟩ := vocabulary_roles.filterText_of_filterList hroles
    rw [hfields] at hjoin hfree hne ⊢
    have hwritten : ∀ values : Option (List InsiderRole),
        (.ok (joinWith fieldSeparator [lit "INSIDER_ACTIVITY", measure, naturalText lookback, lit "-",
            filterText INSIDER_ROLES roleText values]) : Except Text Text) = .ok s
          ↔ naturalText lookback = rawLookback
            ∧ filterText INSIDER_ROLES roleText values = rawRoles := by
      intro values
      rw [Except.ok.injEq, hjoin]
      unfold joinWith
      rw [intercalate_inj ?_ hfree (List.cons_ne_nil _ _) hne]
      · simp
      simp only [List.forall_mem_cons] at hfree ⊢
      exact ⟨hfree.1, hfree.2.1, fieldSeparator_notMem_naturalText _, hfree.2.2.2.1,
        vocabulary_roles.fieldSeparator_notMem _, nofun⟩
    have hlast : ([lit "INSIDER_ACTIVITY", measure, rawLookback, lit "-", rawRoles] : List Text).getLastD
        [] = rawRoles := rfl
    dsimp only
    rw [if_pos (show ([lit "INSIDER_ACTIVITY", measure, rawLookback, lit "-", rawRoles] : List Text).headD
      [] = lit "INSIDER_ACTIVITY" from rfl), hlast]
    change (_ ↔ rawLookback ∈ _ ∧ _) ∧ (_ ↔ rawLookback ∈ _ ∧ _)
    rw [← naturalText_of_lookbackOf hlookback, ← hordered, ← hstrict]
    exact ⟨hwritten roles, hwritten _⟩
  · obtain ⟨hordered, hstrict⟩ := vocabulary_owners.filterText_of_filterList howners
    obtain ⟨hserialized, hbuilt⟩ := scopeSignature_of_readScope hscope
    rw [hfields] at hjoin hfree hne ⊢
    have hwritten : ∀ values : Option (List CongressOwner),
        alternativeDataMetricSignature (.congressActivity measure lookback scope chamber values) = .ok s
          ↔ naturalText lookback = rawLookback
            ∧ filterText CONGRESS_OWNERS ownerText values = rawOwners := by
      intro values
      unfold alternativeDataMetricSignature metricSignature
      dsimp only
      rw [hserialized, Except.map, Except.ok.injEq, hjoin]
      unfold joinWith
      rw [intercalate_inj ?_ hfree (List.cons_ne_nil _ _) hne]
      · simp [hchamber]
      simp only [List.forall_mem_cons] at hfree ⊢
      exact ⟨hfree.1, hfree.2.1, fieldSeparator_notMem_naturalText _, hfree.2.2.2.1,
        hchamber ▸ hfree.2.2.2.2.1, vocabulary_owners.fieldSeparator_notMem _, nofun⟩
    -- the two kinds of metric differ in the word in front
    have hkinds : lit "CONGRESS_ACTIVITY" ≠ lit "INSIDER_ACTIVITY" := by decide
    have hlast : ([lit "CONGRESS_ACTIVITY", measure, rawLookback, rawScope, rawChamber, rawOwners] :
        List Text).getLastD [] = rawOwners := rfl
    dsimp only
    rw [if_neg (show ([lit "CONGRESS_ACTIVITY", measure, rawLookback, rawScope, rawChamber, rawOwners] :
      List Text).headD [] ≠ lit "INSIDER_ACTIVITY" from hkinds), hlast]
    change (_ ↔ rawLookback ∈ _ ∧ _) ∧ (_ ↔ rawLookback ∈ _ ∧ _)
    rw [← naturalText_of_lookbackOf hlookback, ← hordered, ← hstrict]
    refine ⟨hwritten owners, ?_⟩
    change alternativeDataMetricSignature (.congressActivity measure lookback (buildScope scope) chamber _)
      = _ ↔ _
    rw [hbuilt]
    exact hwritten _

/-! ### What the validator admits -/

section Validation

variable {N P : Type} {string : Option (Value N) → Text} {path : P}

theorem andThen_eq_some {α β : Type} {first : Validation P α} {next : α → Validation P β} {b : β}
    (h : (andThen first next).2 = some b) : ∃ a, first.2 = some a ∧ (next a).2 = some b := by
  unfold andThen at h
  split at h
  · next a ha => exact ⟨a, ha, h⟩
  · exact nomatch h

/-- The entries of a filter are collected once each. -/
theorem enumEntries_spec {α : Type} [DecidableEq α] {allowed : List α} {text : α → Text} {noun : Text}
    {entries : List (Value N)} {values found : List α}
    (h : (enumEntries string path allowed text noun entries values).2 = some found)
    (hnodup : values.Nodup) : found.Nodup ∧ (entries ≠ [] ∨ values ≠ [] → found ≠ []) := by
  induction entries generalizing values with
  | nil =>
    rw [← Option.some.inj h]
    exact ⟨hnodup, fun hne => hne.resolve_left (fun hnil => hnil rfl)⟩
  | cons entry rest ih =>
    unfold enumEntries at h
    dsimp only at h
    split at h
    · exact nomatch h
    · next value _ =>
      by_cases hmem : value ∈ values
      · rw [if_pos hmem] at h
        have hrest := ih h hnodup
        exact ⟨hrest.1, fun _ => hrest.2 (.inr (List.ne_nil_of_mem hmem))⟩
      · rw [if_neg hmem] at h
        have hrest := ih h (List.nodup_append.mpr ⟨hnodup, List.nodup_singleton _, by
          rintro a ha b hb rfl
          exact hmem (List.mem_singleton.mp hb ▸ ha)⟩)
        exact ⟨hrest.1, fun _ => hrest.2 (.inr (by simp))⟩

theorem admittedFilter_of_parseEnumFilter {α : Type} [DecidableEq α] {allowed : List α}
    {text : α → Text} {noun : Text} {raw : Option (Value N)} {values : Option (List α)}
    (h : (parseEnumFilter string path allowed text noun raw).2 = some values) : AdmittedFilter values := by
  intro vs hvs
  unfold parseEnumFilter at h
  split at h
  · rw [← Option.some.inj h] at hvs
    exact nomatch hvs
  · next entry rest =>
    obtain ⟨found, hfound, h⟩ := Option.map_eq_some_iff.mp h
    obtain ⟨hnodup, hne⟩ := enumEntries_spec hfound List.nodup_nil
    rw [← h] at hvs
    rw [← Option.some.inj hvs]
    exact ⟨hne (.inl (List.cons_ne_nil _ _)), hnodup⟩
  · exact nomatch h

theorem isActorScopeId_of_idsOf {entries : List (Value N)} {ids : List Text}
    (h : idsOf entries = some ids) : (∀ id ∈ ids, isActorScopeId id = true)
      ∧ ids.length = entries.length := by
  unfold idsOf at h
  induction entries generalizing ids with
  | nil =>
    rw [List.mapM_nil] at h
    rw [← Option.some.inj h]
    exact ⟨nofun, rfl⟩
  | cons entry rest ih =>
    rw [List.mapM_cons] at h
    obtain ⟨id, hid, h⟩ := Option.bind_eq_some_iff.mp h
    obtain ⟨more, hmore, h⟩ := Option.bind_eq_some_iff.mp h
    obtain ⟨hrest, hlength⟩ := ih hmore
    have hvalid : isActorScopeId id = true := by
      split at hid
      · split at hid
        · next hvalid => exact Option.some.inj hid ▸ hvalid
        · exact nomatch hid
      · exact nomatch hid
    rw [← Option.some.inj h]
    exact ⟨List.forall_mem_cons.mpr ⟨hvalid, hrest⟩, by simp [hlength]⟩

theorem admittedScope_of_parseActorSelection {raw : Option (Value N)} {scope : ActorScope}
    (h : (parseActorSelection path raw).2 = some scope) : AdmittedScope scope := by
  unfold parseActorSelection at h
  split at h
  · next entry rest =>
    split at h
    · exact nomatch h
    · next ids hids =>
      obtain ⟨hvalid, hlength⟩ := isActorScopeId_of_idsOf hids
      have hne : ids ≠ [] := List.ne_nil_of_length_pos (by rw [hlength]; simp)
      split at h
      · exact nomatch h
      · next hbound =>
        rw [← Option.some.inj h]
        exact ⟨canonicalActorIds_ne_nil hne, canonicalActorIds_idem ids,
          fun id hid => hvalid id (mem_canonicalActorIds.mp hid), not_lt.mp hbound⟩
  · exact nomatch h

theorem ne_nil_of_isNotBlank {t : Text} (h : isNotBlank t = true) : t ≠ [] := by
  rintro rfl
  exact absurd h (by decide)

/-- A legacy scope names an id that is not blank. -/
theorem parseLegacyId_spec {field message : Text} {make : Text → ActorScope}
    {fields : List (Text × Value N)} {scope : ActorScope}
    (h : (parseLegacyId path field message make fields).2 = some scope) :
    ∃ id, id ≠ [] ∧ scope = make id := by
  unfold parseLegacyId at h
  split at h
  · next id _ =>
    split at h
    · next hid => exact ⟨id, ne_nil_of_isNotBlank hid, (Option.some.inj h).symm⟩
    · exact nomatch h
  · exact nomatch h

theorem admittedScope_of_parseActorScope {raw : Option (Value N)} {scope : ActorScope}
    (h : (parseActorScope string path raw).2 = some scope) : AdmittedScope scope := by
  unfold parseActorScope at h
  split at h
  · split at h
    · split at h
      · rw [← Option.some.inj h]
        exact trivial
      split at h
      · exact admittedScope_of_parseActorSelection h
      split at h
      · obtain ⟨id, hid, hscope⟩ := parseLegacyId_spec h
        rw [hscope]
        exact hid
      split at h
      · obtain ⟨id, hid, hscope⟩ := parseLegacyId_spec h
        rw [hscope]
        exact hid
      · exact nomatch h
    · exact nomatch h
  · exact nomatch h

/-- **What the validator admits.** -/
theorem admittedMetric_of_parse [JsonNumber N] {kind : AlternativeDataMetricKind} {fields : List (Text × Value N)}
    {metric : AlternativeDataMetric}
    (h : (parseAlternativeDataMetric string path kind fields).2 = some metric) :
    AdmittedMetric metric := by
  obtain ⟨measure, hmeasure, h⟩ := andThen_eq_some h
  obtain ⟨lookback, hlookback, h⟩ := andThen_eq_some h
  have hfound : findAlternativeDataMeasure kind measure = true := by
    unfold parseMeasure at hmeasure
    split at hmeasure
    · split at hmeasure
      · next hfound => exact Option.some.inj hmeasure ▸ hfound
      · exact nomatch hmeasure
    · exact nomatch hmeasure
  have hpreset : lookback ∈ ALTERNATIVE_DATA_LOOKBACKS := by
    unfold parseLookback at hlookback
    split at hlookback
    · split at hlookback
      · next hfind => exact Option.some.inj hlookback ▸ List.mem_of_find?_eq_some hfind
      · exact nomatch hlookback
    · exact nomatch hlookback
  cases kind with
  | insiderActivity =>
    obtain ⟨roles, hroles, h⟩ := andThen_eq_some h
    rw [← Option.some.inj h]
    exact ⟨hfound, hpreset, admittedFilter_of_parseEnumFilter hroles⟩
  | congressActivity =>
    obtain ⟨scope, hscope, h⟩ := andThen_eq_some h
    obtain ⟨chamber, -, h⟩ := andThen_eq_some h
    obtain ⟨owners, howners, h⟩ := andThen_eq_some h
    rw [← Option.some.inj h]
    exact ⟨hfound, hpreset, admittedScope_of_parseActorScope hscope,
      admittedFilter_of_parseEnumFilter howners⟩

end Validation

/-! ### Both directions -/

/-- **When the signature is a bijection.** An admitted metric reads back in its canonical form exactly
when its legacy id has no `|`. A text that reads as a metric is that metric's signature exactly when
its lookback is plain decimal text and its filter in order, and is the one canonical text of the
operand when the filter repeats nothing either. -/
theorem signature_bijective_iff {N P : Type} [JsonNumber N] :
    (∀ (string : Option (Value N) → Text) (path : P) (kind : AlternativeDataMetricKind)
        (fields : List (Text × Value N)) (metric : AlternativeDataMetric),
      parseAlternativeDataMetric string path kind fields = ([], some metric) →
        ((∃ s, alternativeDataMetricSignature metric = .ok s
            ∧ parseAlternativeDataMetricSignature s = some (buildAlternativeDataMetric metric))
          ↔ ∀ id ∈ legacyIds metric, fieldSeparator ∉ id))
      ∧ ∀ (s : Text) (metric : AlternativeDataMetric),
        parseAlternativeDataMetricSignature s = some metric →
          (alternativeDataMetricSignature metric = .ok s
              ↔ PlainLookback s ∧ (ranks s).Pairwise (· ≤ ·))
            ∧ (alternativeDataMetricSignature (buildAlternativeDataMetric metric) = .ok s
              ↔ PlainLookback s ∧ (ranks s).Pairwise (· < ·)) := by
  refine ⟨fun string path kind fields metric h => ?_, fun s metric h => signature_of_parse_iff h⟩
  exact parse_signature_iff (admittedMetric_of_parse (congrArg Prod.snd h))

/-- The roles `CFO+CEO`, and a group whose id has a `|`, at a lookback of twenty sessions. -/
theorem signature_bijective_iff_samples :
    ¬ (∃ s, alternativeDataMetricSignature
          (.congressActivity (lit "SALES") 20 (.group (lit "a|b")) .any none) = .ok s
        ∧ parseAlternativeDataMetricSignature s = some (buildAlternativeDataMetric
          (.congressActivity (lit "SALES") 20 (.group (lit "a|b")) .any none)))
      ∧ alternativeDataMetricSignature (.insiderActivity (lit "BUYERS") 20 (some [.cfo, .ceo]))
        ≠ .ok (lit "INSIDER_ACTIVITY|BUYERS|20|-|CFO+CEO") := by
  have h := signature_bijective_iff (N := ℤ) (P := Unit)
  constructor
  · refine fun hsome => absurd ((h.1 (fun _ => []) () .congressActivity
      [(lit "kind", .str (lit "CONGRESS_ACTIVITY")), (lit "measure", .str (lit "SALES")),
        (lit "lookback", .num 20), (lit "chamber", .str (lit "ANY")),
        (lit "scope", .obj [(lit "kind", .str (lit "GROUP")), (lit "groupId", .str (lit "a|b"))])]
      _ (by decide)).mp hsome) (by decide +kernel)
  · refine fun hsame => absurd ((h.2 (lit "INSIDER_ACTIVITY|BUYERS|20|-|CFO+CEO") _
      (by decide +kernel)).1.mp hsame).2 (by decide +kernel)

/-- A text that is read is not always the signature of what it is read as. -/
theorem not_signature_of_parse :
    ¬ ∀ (s : Text) (metric : AlternativeDataMetric), parseAlternativeDataMetricSignature s = some metric →
      alternativeDataMetricSignature metric = .ok s := by
  intro h
  have hsame := h (lit "INSIDER_ACTIVITY|BUYERS|20|-|CFO+CEO")
    (.insiderActivity (lit "BUYERS") 20 (some [.cfo, .ceo])) (by decide +kernel)
  exact absurd hsame (by decide)

end FactorSage.MetricSignature
