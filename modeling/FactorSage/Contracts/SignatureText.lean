import FactorSage.Contracts.SignatureRoundTrip

/-!
# Signatures of the Strategy document

The metrics of the Strategy document hold their ids as strings, and a frame column is keyed by a
string. `signature_units` says that the code units of that key are the signature of the metric's own
code units, so what is proved of signatures over code units holds of the document's.
-/

namespace FactorSage

open JsonText JsonInteger

/-! ### Code units of strings -/

theorem lit_append (s t : String) : lit (s ++ t) = lit s ++ lit t := by
  unfold lit CodeUnits.codeUnits
  rw [String.toList_append, List.flatMap_append]

theorem lit_injective : Function.Injective lit := CodeUnits.codeUnits_injective

theorem lit_intercalate (separator : String) (fields : List String) :
    lit (separator.intercalate fields) = (lit separator).intercalate (fields.map lit) := by
  have hflat : ∀ parts : List (List Char), (separator.toList.intercalate parts).flatMap
      CodeUnits.charUnits = (lit separator).intercalate (parts.map (List.flatMap CodeUnits.charUnits)) := by
    intro parts
    induction parts with
    | nil => rfl
    | cons part rest ih =>
      cases rest with
      | nil => simp [List.intercalate]
      | cons next rest =>
        have hjoin : ∀ {α : Type} (pre x y : List α) (l : List (List α)),
            pre.intercalate (x :: y :: l) = x ++ (pre ++ pre.intercalate (y :: l)) := by
          intro α pre x y l
          simp [List.intercalate, List.intersperse]
        rw [hjoin, List.flatMap_append, List.flatMap_append, ih]
        simp only [List.map_cons]
        rw [hjoin]
        rfl
  unfold lit at hflat ⊢
  unfold CodeUnits.codeUnits at hflat ⊢
  rw [String.toList_intercalate, hflat, List.map_map]
  rfl

/-- The digits of a number, the last one apart. -/
theorem naturalText_of_le {n : ℕ} (h : 10 ≤ n) :
    naturalText n = naturalText (n / 10) ++ [48 + n % 10] := by
  have hdigits : Nat.digits 10 n = n % 10 :: Nat.digits 10 (n / 10) :=
    Nat.digits_def' (by decide) (by omega)
  unfold naturalText
  rw [if_neg (by omega), if_neg (by omega), hdigits, List.map_cons, List.reverse_cons]

theorem lit_toString (n : ℕ) : lit (toString n) = naturalText n := by
  have hdigit : ∀ d < 10, CodeUnits.charUnits d.digitChar = [48 + d] := by decide
  unfold lit CodeUnits.codeUnits
  rw [Nat.toString_eq_repr, Nat.toList_repr]
  induction n using Nat.strongRecOn with
  | _ n ih =>
    by_cases hsmall : n < 10
    · rw [Nat.toDigits_of_lt_base hsmall, List.flatMap_singleton, hdigit n hsmall]
      unfold naturalText
      by_cases hzero : n = 0
      · rw [if_pos hzero, hzero]
      · rw [if_neg hzero, Nat.digits_of_lt 10 n hzero hsmall]
        rfl
    · have hle : 10 ≤ n := not_lt.mp hsmall
      rw [Nat.toDigits_of_base_le (by decide) hle, List.flatMap_append, ih (n / 10) (by omega),
        List.flatMap_singleton, hdigit _ (Nat.mod_lt _ (by decide)), naturalText_of_le hle]

/-! ### Metrics by their code units -/

open MetricSignature (filterText joinWith)

/-- A scope, its ids by their code units. -/
def ActorScope.units : ActorScope → MetricSignature.ActorScope
  | .any => .any
  | .actors actorIds _ => .actors (actorIds.map lit)
  | .actor actorId => .actor (lit actorId)
  | .group groupId => .group (lit groupId)

/-- An insider metric by its code units. -/
def InsiderActivityMetric.units (metric : InsiderActivityMetric) :
    MetricSignature.AlternativeDataMetric :=
  .insiderActivity (lit metric.measure.name) metric.lookback metric.roles

/-- A Congress metric by its code units. -/
def CongressActivityMetric.units (metric : CongressActivityMetric) :
    MetricSignature.AlternativeDataMetric :=
  .congressActivity (lit metric.measure.name) metric.lookback metric.scope.units metric.chamber
    metric.owners

theorem ActorScope.units_injective : Function.Injective ActorScope.units := by
  intro left right h
  cases left <;> cases right <;> simp only [ActorScope.units, reduceCtorEq,
    MetricSignature.ActorScope.actors.injEq, MetricSignature.ActorScope.actor.injEq,
    MetricSignature.ActorScope.group.injEq] at h
  · rfl
  · next ids _ ids' _ =>
    have hids : ids = ids' := List.map_injective_iff.mpr lit_injective h
    subst hids
    rfl
  · rw [lit_injective h]
  · rw [lit_injective h]

theorem InsiderActivityMetric.units_injective : Function.Injective InsiderActivityMetric.units := by
  have hnames : ∀ a b : InsiderMeasure, lit a.name = lit b.name → a = b := by
    intro a b
    cases a <;> cases b <;> decide
  intro left right h
  obtain ⟨hmeasure, hlookback, hroles⟩ := MetricSignature.AlternativeDataMetric.insiderActivity.inj h
  cases left
  cases right
  simp only [InsiderActivityMetric.mk.injEq]
  exact ⟨hnames _ _ hmeasure, hlookback, hroles⟩

theorem CongressActivityMetric.units_injective : Function.Injective CongressActivityMetric.units := by
  have hnames : ∀ a b : CongressMeasure, lit a.name = lit b.name → a = b := by
    intro a b
    cases a <;> cases b <;> decide
  intro left right h
  obtain ⟨hmeasure, hlookback, hscope, hchamber, howners⟩ :=
    MetricSignature.AlternativeDataMetric.congressActivity.inj h
  cases left
  cases right
  simp only [CongressActivityMetric.mk.injEq]
  exact ⟨hnames _ _ hmeasure, hlookback, ActorScope.units_injective hscope, hchamber, howners⟩

/-! ### Signatures -/

/-- A filter's part, by its code units. -/
theorem lit_filterSignature {α : Type} [DecidableEq α] {allowed : List α} {rank : α → ℕ}
    {name : α → String} (hrank : ∀ a, rank a = allowed.idxOf a) (values : Option (List α)) :
    lit (filterSignature rank name values) = filterText allowed (fun a => lit (name a)) values := by
  have hcompare : (fun left right : α => (rank left : ℤ) - rank right)
      = fun left right => (allowed.idxOf left : ℤ) - allowed.idxOf right := by
    funext left right
    rw [hrank, hrank]
  cases values with
  | none => rfl
  | some values =>
    unfold filterSignature filterText joinWith
    dsimp only
    rw [lit_intercalate, List.map_map, hcompare]
    rfl

/-- The canonical ids, by their code units. -/
theorem map_lit_canonicalActorIds (actorIds : List String) :
    (canonicalActorIds actorIds).map lit = MetricSignature.canonicalActorIds (actorIds.map lit) := by
  have hcompares : ComparatorSort.Compares
      (fun left right : String => if CodeUnits.codeUnitLt left right then -1 else 1) lit := by
    intro a b
    unfold CodeUnits.codeUnitLt
    dsimp only
    by_cases hlt : CodeUnits.codeUnits a < CodeUnits.codeUnits b
    · rw [if_pos (decide_eq_true hlt)]
      exact iff_of_true (by decide) hlt
    · rw [if_neg (by simpa using hlt)]
      exact iff_of_false (by decide) hlt
  have hperm : ((canonicalActorIds actorIds).map lit).Perm (actorIds.map lit).dedup := by
    rw [List.dedup_map_of_injective lit_injective]
    exact (ComparatorSort.sortBy_perm _ _).map lit
  refine ComparatorSort.eq_sortBy_of_perm MetricSignature.compares_units hperm ?_ ?_
  · exact List.pairwise_map.mpr (hcompares.pairwise_sortBy actorIds.dedup)
  · rw [List.map_id]
    exact hperm.nodup_iff.mpr (List.nodup_dedup _)

/-- A scope's part, by its code units. -/
theorem scopeSignature_units (scope : ActorScope) :
    MetricSignature.scopeSignature scope.units = .ok (lit (scopeSignature scope)) := by
  cases scope with
  | any => rfl
  | group groupId =>
    change _ = Except.ok (lit ("group:" ++ groupId))
    rw [lit_append]
    rfl
  | actor actorId =>
    change _ = Except.ok (lit ("actor:" ++ actorId))
    rw [lit_append]
    rfl
  | actors actorIds selects =>
    have hids := map_lit_canonicalActorIds actorIds
    change MetricSignature.scopeSignature (.actors (actorIds.map lit)) = _
    unfold MetricSignature.scopeSignature MetricSignature.actorScopeActorIds scopeSignature
      actorScopeActorIds
    dsimp only
    rw [Option.getD_some, Option.getD_some, ← hids]
    have hne : canonicalActorIds actorIds ≠ [] := by
      obtain ⟨id, hid⟩ := List.exists_mem_of_ne_nil _ selects
      exact List.ne_nil_of_mem (ComparatorSort.mem_sortBy.mpr (List.mem_dedup.mpr hid))
    match canonicalActorIds actorIds, hne with
    | [actorId], _ =>
      change Except.ok (lit "actor:" ++ lit actorId) = Except.ok (lit ("actor:" ++ actorId))
      rw [lit_append]
    | first :: second :: rest, _ =>
      change Except.ok (lit "actors:" ++ joinWith 43 ((first :: second :: rest).map lit))
        = Except.ok (lit ("actors:" ++ "+".intercalate (first :: second :: rest)))
      rw [lit_append, lit_intercalate]
      rfl

/-- **The signature of an insider metric is the signature of its code units.** -/
theorem InsiderActivityMetric.signature_units (metric : InsiderActivityMetric) :
    MetricSignature.alternativeDataMetricSignature metric.units = .ok (lit metric.signature) := by
  have hrank : ∀ role : InsiderRole, role.rank = MetricSignature.INSIDER_ROLES.idxOf role := by
    intro role
    cases role <;> rfl
  unfold InsiderActivityMetric.signature
  rw [lit_intercalate]
  simp only [List.map_cons, List.map_nil]
  rw [lit_toString, lit_filterSignature hrank]
  rfl

/-- **The signature of a Congress metric is the signature of its code units.** -/
theorem CongressActivityMetric.signature_units (metric : CongressActivityMetric) :
    MetricSignature.alternativeDataMetricSignature metric.units = .ok (lit metric.signature) := by
  have hrank : ∀ owner : CongressOwner, owner.rank = MetricSignature.CONGRESS_OWNERS.idxOf owner := by
    intro owner
    cases owner <;> rfl
  unfold CongressActivityMetric.units
  rw [MetricSignature.signature_congress (scopeSignature_units metric.scope)]
  unfold CongressActivityMetric.signature
  rw [lit_intercalate]
  simp only [List.map_cons, List.map_nil]
  rw [lit_toString, lit_filterSignature hrank]
  rfl

end FactorSage
