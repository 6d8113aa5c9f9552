import FactorSage.IndexMembership.Reconstruction
import FactorSage.Library.GreedySelection
import Mathlib.Data.Prod.Lex

/-!
# One security, one constituent at a time

Constituents that claim one symbol are ranked, and each in turn keeps the symbol unless it was a
member on the same day as one that keeps it already: a greedy selection by symbol
(`GreedySelection.select`).

The symbols are gone through in the order of the text each group is written as, the symbol followed
by `[object Object]` for each of its claims. Only that order can depend on the order of the claims,
and only where two symbols have the same text (`overlappingClaims_perm`).
-/

namespace FactorSage.IndexMembership

open ComparatorSort CodeUnits GreedySelection

/-! ### Membership windows -/

structure MembershipWindow where
  start : ℤ
  stop : ℤ
  deriving DecidableEq

/-- A day of a window. -/
def MembershipWindow.Holds (window : MembershipWindow) (day : ℤ) : Prop :=
  window.start ≤ day ∧ day ≤ window.stop

/-! ### Claims -/

/-- A resolved constituent, as the overlap check needs it. -/
structure ResolvedConstituentClaim where
  constituentKey : String
  current : Bool
  symbol : String
  windows : List MembershipWindow
  ownTicker : Bool
  nameSimilarity : ℚ
  coverage : ℚ
  deriving DecidableEq

structure OverlapConflict where
  symbol : String
  kept : String
  refused : String
  overlap : MembershipWindow
  deriving DecidableEq

/-- What two windows have in common. -/
def overlapOf (a b : MembershipWindow) : Option MembershipWindow :=
  let start := if b.start < a.start then a.start else b.start
  let stop := if a.stop < b.stop then a.stop else b.stop
  if start ≤ stop then some ⟨start, stop⟩ else none

def firstOverlap (left right : List MembershipWindow) : Option MembershipWindow :=
  left.findSome? fun a => right.findSome? fun b => overlapOf a b

/-- `left || right`, of two numbers. -/
def orElseNumber (left right : ℤ) : ℤ := if left = 0 then right else left

/-- The sign of `right - left`, all a sort reads of it. -/
def difference (right left : ℚ) : ℤ := if right < left then -1 else if left < right then 1 else 0

/-- Better claims first. -/
def compareClaims (left right : ResolvedConstituentClaim) : ℤ :=
  orElseNumber ((right.current.toNat : ℤ) - left.current.toNat)
    (orElseNumber ((right.ownTicker.toNat : ℤ) - left.ownTicker.toNat)
      (orElseNumber (difference right.nameSimilarity left.nameSimilarity)
        (orElseNumber (difference right.coverage left.coverage)
          (if codeUnitLt left.constituentKey right.constituentKey then -1 else 1))))

/-- The claims by symbol. -/
def bySymbol (claims : List ResolvedConstituentClaim) :
    OrderedMap String (List ResolvedConstituentClaim) :=
  groupBy ResolvedConstituentClaim.symbol claims

/-- The text an entry of the map is sorted as. -/
def entryText (entry : String × List ResolvedConstituentClaim) : String :=
  entry.1 ++ "," ++ String.intercalate "," (entry.2.map fun _ => "[object Object]")

def compareEntries (left right : String × List ResolvedConstituentClaim) : ℤ :=
  if codeUnitLt (entryText left) (entryText right) then -1
  else if codeUnitLt (entryText right) (entryText left) then 1
  else 0

/-- The claims of one symbol, ranked and selected. -/
def selection (group : List ResolvedConstituentClaim) :
    Selection ResolvedConstituentClaim MembershipWindow :=
  select (fun winner claim => firstOverlap winner.windows claim.windows)
    (sortBy compareClaims group)

/-- The conflicts of one symbol. -/
def symbolConflicts (entry : String × List ResolvedConstituentClaim) : List OverlapConflict :=
  if entry.2.length < 2 then []
  else
    (selection entry.2).refusals.map fun refusal =>
      ⟨entry.1, refusal.winner.constituentKey, refusal.refused.constituentKey, refusal.evidence⟩

def overlappingClaims (claims : List ResolvedConstituentClaim) : List OverlapConflict :=
  (sortBy compareEntries (bySymbol claims).entries).flatMap symbolConflicts

/-! ### Overlaps and ranks -/

section Ranks

variable {left right : ResolvedConstituentClaim}

/-- A day both were members. -/
def SharesDay (left right : ResolvedConstituentClaim) : Prop :=
  ∃ day, (∃ window ∈ left.windows, window.Holds day) ∧ ∃ window ∈ right.windows, window.Holds day

theorem overlapOf_eq (a b : MembershipWindow) : overlapOf a b
    = if max a.start b.start ≤ min a.stop b.stop then
        some ⟨max a.start b.start, min a.stop b.stop⟩ else none := by
  have hstart : (if b.start < a.start then a.start else b.start) = max a.start b.start := by
    split <;> omega
  have hstop : (if a.stop < b.stop then a.stop else b.stop) = min a.stop b.stop := by
    split <;> omega
  rw [overlapOf, hstart, hstop]

theorem overlapOf_some {a b overlap : MembershipWindow} (h : overlapOf a b = some overlap) :
    overlap.start ≤ overlap.stop
      ∧ ∀ day, overlap.Holds day ↔ a.Holds day ∧ b.Holds day := by
  rw [overlapOf_eq] at h
  split at h
  · next hle =>
    obtain rfl := Option.some.inj h
    refine ⟨hle, fun day => ?_⟩
    unfold MembershipWindow.Holds
    dsimp only
    omega
  · exact nomatch h

theorem overlapOf_none {a b : MembershipWindow} (h : overlapOf a b = none) (day : ℤ) :
    ¬ (a.Holds day ∧ b.Holds day) := by
  rw [overlapOf_eq] at h
  split at h
  · exact nomatch h
  · next hgt =>
    unfold MembershipWindow.Holds
    omega

/-- A conflict's overlap is days both were members, one at least. -/
theorem firstOverlap_some {overlap : MembershipWindow}
    (h : firstOverlap left.windows right.windows = some overlap) :
    overlap.start ≤ overlap.stop ∧ ∀ day, overlap.Holds day →
      (∃ window ∈ left.windows, window.Holds day) ∧ ∃ window ∈ right.windows, window.Holds day := by
  obtain ⟨a, ha, hright⟩ := List.exists_of_findSome?_eq_some h
  obtain ⟨b, hb, hoverlap⟩ := List.exists_of_findSome?_eq_some hright
  obtain ⟨hle, hdays⟩ := overlapOf_some hoverlap
  refine ⟨hle, fun day hday => ?_⟩
  obtain ⟨haDay, hbDay⟩ := (hdays day).mp hday
  exact ⟨⟨a, ha, haDay⟩, ⟨b, hb, hbDay⟩⟩

theorem firstOverlap_none (h : firstOverlap left.windows right.windows = none) :
    ¬ SharesDay left right := by
  rintro ⟨day, ⟨a, ha, haDay⟩, ⟨b, hb, hbDay⟩⟩
  have hright := List.findSome?_eq_none_iff.mp h a ha
  exact overlapOf_none (List.findSome?_eq_none_iff.mp hright b hb) day ⟨haDay, hbDay⟩

/-- The five levels of a claim's rank, best first. -/
def claimRank (claim : ResolvedConstituentClaim) : ℕᵒᵈ ×ₗ ℕᵒᵈ ×ₗ ℚᵒᵈ ×ₗ ℚᵒᵈ ×ₗ List ℕ :=
  toLex (OrderDual.toDual claim.current.toNat, toLex (OrderDual.toDual claim.ownTicker.toNat,
    toLex (OrderDual.toDual claim.nameSimilarity, toLex (OrderDual.toDual claim.coverage,
      codeUnits claim.constituentKey))))

theorem orElseNumber_neg_iff {first second : ℤ} :
    orElseNumber first second < 0 ↔ first < 0 ∨ first = 0 ∧ second < 0 := by
  unfold orElseNumber
  split <;> omega

theorem difference_neg_iff {right left : ℚ} : difference right left < 0 ↔ right < left := by
  unfold difference
  split
  · next h => simp [h]
  · next h =>
    split
    · simp [h]
    · simp [h]

theorem difference_eq_zero_iff {right left : ℚ} : difference right left = 0 ↔ left = right := by
  unfold difference
  split
  · next h => exact iff_of_false (by decide) h.ne'
  · next h =>
    split
    · next h' => exact iff_of_false (by decide) h'.ne
    · next h' => exact iff_of_true rfl (le_antisymm (not_lt.mp h) (not_lt.mp h'))

/-- The comparator orders claims by their rank. -/
theorem compares_compareClaims : Compares compareClaims claimRank := by
  intro a b
  have hkey : (if codeUnitLt a.constituentKey b.constituentKey then (-1 : ℤ) else 1) < 0
      ↔ codeUnits a.constituentKey < codeUnits b.constituentKey := by
    unfold codeUnitLt
    split
    · next h => simpa using h
    · next h => simpa using h
  rw [compareClaims, orElseNumber_neg_iff, orElseNumber_neg_iff, orElseNumber_neg_iff,
    orElseNumber_neg_iff, difference_neg_iff, difference_neg_iff, difference_eq_zero_iff,
    difference_eq_zero_iff, hkey]
  simp only [claimRank, Prod.Lex.toLex_lt_toLex, OrderDual.toDual_lt_toDual,
    EmbeddingLike.apply_eq_iff_eq]
  have hcurrent : ((b.current.toNat : ℤ) - a.current.toNat < 0 ↔ b.current.toNat < a.current.toNat)
      ∧ ((b.current.toNat : ℤ) - a.current.toNat = 0 ↔ a.current.toNat = b.current.toNat) := by
    omega
  have howner : ((b.ownTicker.toNat : ℤ) - a.ownTicker.toNat < 0
        ↔ b.ownTicker.toNat < a.ownTicker.toNat)
      ∧ ((b.ownTicker.toNat : ℤ) - a.ownTicker.toNat = 0
        ↔ a.ownTicker.toNat = b.ownTicker.toNat) := by
    omega
  rw [hcurrent.1, hcurrent.2, howner.1, howner.2]

theorem claimRank_inj (h : claimRank left = claimRank right) :
    left.constituentKey = right.constituentKey :=
  codeUnits_injective (congrArg (fun rank => (ofLex (ofLex (ofLex (ofLex rank).2).2).2).2) h)

end Ranks

/-! ### One symbol -/

section Group

variable {group : List ResolvedConstituentClaim}
  {entry : String × List ResolvedConstituentClaim}

/-- What the pass over one symbol's claims decides. -/
theorem decided_selection (group : List ResolvedConstituentClaim) :
    Decided (fun winner claim => firstOverlap winner.windows claim.windows)
      (sortBy compareClaims group) (selection group) :=
  select_spec _ _

/-- Every claim of the symbol is kept or refused, once. -/
theorem perm_selection (group : List ResolvedConstituentClaim) :
    ((selection group).kept ++ (selection group).refusals.map Refusal.refused).Perm group :=
  (decided_selection group).perm.trans (sortBy_perm _ _)

/-- A single claim has no conflict, so that the test of the length changes nothing. -/
theorem symbolConflicts_eq (entry : String × List ResolvedConstituentClaim) :
    symbolConflicts entry = (selection entry.2).refusals.map fun refusal =>
      ⟨entry.1, refusal.winner.constituentKey, refusal.refused.constituentKey,
        refusal.evidence⟩ := by
  unfold symbolConflicts
  split
  · next hshort =>
    have hnone : (selection entry.2).refusals = [] := by
      refine List.eq_nil_iff_forall_not_mem.mpr fun refusal hrefusal => ?_
      have hpair := ((decided_selection entry.2).wins refusal hrefusal).2.2.length_le
      rw [(sortBy_perm compareClaims entry.2).length_eq] at hpair
      have htwo : [refusal.winner, refusal.refused].length = 2 := rfl
      omega
    rw [hnone]
    rfl
  · rfl

theorem mem_symbolConflicts {conflict : OverlapConflict} : conflict ∈ symbolConflicts entry
    ↔ ∃ refusal ∈ (selection entry.2).refusals, conflict = ⟨entry.1,
      refusal.winner.constituentKey, refusal.refused.constituentKey, refusal.evidence⟩ := by
  rw [symbolConflicts_eq, List.mem_map]
  exact exists_congr fun refusal => and_congr_right fun _ => eq_comm

/-- Of one symbol's claims, those that are kept share no day. -/
theorem kept_apart {left right : ResolvedConstituentClaim} (hleft : left ∈ (selection group).kept)
    (hright : right ∈ (selection group).kept) (hne : left ≠ right) : ¬ SharesDay left right := by
  have hsymm : Std.Symm fun a b : ResolvedConstituentClaim => ¬ SharesDay a b := by
    refine ⟨fun a b h => ?_⟩
    rintro ⟨day, hb, ha⟩
    exact h ⟨day, ha, hb⟩
  have hapart : (selection group).kept.Pairwise fun a b => ¬ SharesDay a b :=
    (decided_selection group).apart.imp fun {a b} hnone => firstOverlap_none hnone
  exact hapart.forall hleft hright hne

/-- A refused claim and its winner: both of the symbol, in the order of their ranks, with a day in
common, and the winner is kept. -/
theorem refusal_spec (hkeys : (group.map ResolvedConstituentClaim.constituentKey).Nodup)
    {refusal : Refusal ResolvedConstituentClaim MembershipWindow}
    (h : refusal ∈ (selection group).refusals) :
    refusal.winner ∈ (selection group).kept ∧ refusal.winner ∈ group ∧ refusal.refused ∈ group
      ∧ claimRank refusal.winner < claimRank refusal.refused
      ∧ firstOverlap refusal.winner.windows refusal.refused.windows = some refusal.evidence := by
  obtain ⟨hkept, hclash, hbefore⟩ := (decided_selection group).wins refusal h
  have hwinner : refusal.winner ∈ group := mem_sortBy.mp (hbefore.subset (by simp))
  have hrefused : refusal.refused ∈ group := mem_sortBy.mp (hbefore.subset (by simp))
  refine ⟨hkept, hwinner, hrefused, ?_, hclash⟩
  have hranked := (compares_compareClaims.pairwise_sortBy group).sublist hbefore
  have hle : claimRank refusal.winner ≤ claimRank refusal.refused := by simpa using hranked
  have hnodup : (sortBy compareClaims group).Nodup :=
    (sortBy_perm _ _).nodup_iff.mpr (List.Nodup.of_map _ hkeys)
  have hne : refusal.winner ≠ refusal.refused := by simpa using hnodup.sublist hbefore
  refine lt_of_le_of_ne hle fun heq => hne ?_
  exact List.inj_on_of_nodup_map hkeys hwinner hrefused (claimRank_inj heq)

/-- The refused claims of one symbol, by their keys. -/
theorem nodup_refused_symbolConflicts
    (hkeys : (entry.2.map ResolvedConstituentClaim.constituentKey).Nodup) :
    ((symbolConflicts entry).map OverlapConflict.refused).Nodup := by
  have hall := ((perm_selection entry.2).map ResolvedConstituentClaim.constituentKey).nodup_iff.mpr
    hkeys
  rw [List.map_append] at hall
  rw [symbolConflicts_eq, List.map_map]
  have hrefused := (List.nodup_append.mp hall).2.1
  rw [List.map_map] at hrefused
  exact hrefused

/-- A claim that is kept is not refused. -/
theorem not_refused_of_kept
    (hkeys : (group.map ResolvedConstituentClaim.constituentKey).Nodup)
    {claim : ResolvedConstituentClaim} (hkept : claim ∈ (selection group).kept)
    {refusal : Refusal ResolvedConstituentClaim MembershipWindow}
    (hrefusal : refusal ∈ (selection group).refusals) :
    refusal.refused.constituentKey ≠ claim.constituentKey := by
  have hall := ((perm_selection group).map ResolvedConstituentClaim.constituentKey).nodup_iff.mpr
    hkeys
  rw [List.map_append] at hall
  intro heq
  exact (List.nodup_append.mp hall).2.2 _ (List.mem_map_of_mem hkept) _
    (List.mem_map_of_mem (List.mem_map_of_mem hrefusal)) heq.symm

end Group

/-! ### All symbols -/

/-- What the conflicts of some claims say. -/
structure OverlapsResolved (claims : List ResolvedConstituentClaim)
    (conflicts : List OverlapConflict) : Prop where
  /-- No two claims left on one symbol share a day. -/
  apart : ∀ left ∈ claims, ∀ right ∈ claims, left.constituentKey ≠ right.constituentKey →
    left.symbol = right.symbol → left.constituentKey ∉ conflicts.map OverlapConflict.refused →
    right.constituentKey ∉ conflicts.map OverlapConflict.refused → ¬ SharesDay left right
  /-- No claim is refused twice. -/
  once : (conflicts.map OverlapConflict.refused).Nodup
  /-- A refused claim yields to one that is kept, ranks before it and shares the overlap. -/
  justified : ∀ conflict ∈ conflicts, ∃ winner ∈ claims, ∃ refused ∈ claims,
    conflict.kept = winner.constituentKey ∧ conflict.refused = refused.constituentKey
      ∧ winner.symbol = conflict.symbol ∧ refused.symbol = conflict.symbol
      ∧ claimRank winner < claimRank refused
      ∧ conflict.kept ∉ conflicts.map OverlapConflict.refused
      ∧ conflict.overlap.start ≤ conflict.overlap.stop
      ∧ ∀ day, conflict.overlap.Holds day →
        (∃ window ∈ winner.windows, window.Holds day)
          ∧ ∃ window ∈ refused.windows, window.Holds day

section Whole

variable {claims others : List ResolvedConstituentClaim}

theorem mem_overlappingClaims {conflict : OverlapConflict} :
    conflict ∈ overlappingClaims claims
      ↔ ∃ symbol, ∃ refusal ∈ (selection (claims.filter (·.symbol = symbol))).refusals,
        conflict = ⟨symbol, refusal.winner.constituentKey, refusal.refused.constituentKey,
          refusal.evidence⟩ := by
  unfold overlappingClaims bySymbol
  rw [List.mem_flatMap]
  constructor
  · rintro ⟨⟨symbol, group⟩, hentry, hconflict⟩
    obtain ⟨rfl, -⟩ := mem_entries_groupBy _ |>.mp (mem_sortBy.mp hentry)
    obtain ⟨refusal, hrefusal, heq⟩ := mem_symbolConflicts.mp hconflict
    exact ⟨symbol, refusal, hrefusal, heq⟩
  · rintro ⟨symbol, refusal, hrefusal, heq⟩
    refine ⟨(symbol, claims.filter (·.symbol = symbol)), mem_sortBy.mpr
      ((mem_entries_groupBy _).mpr ⟨rfl, fun hnone => ?_⟩),
      mem_symbolConflicts.mpr ⟨refusal, hrefusal, heq⟩⟩
    rw [hnone] at hrefusal
    exact nomatch hrefusal

section

variable (hkeys : (claims.map ResolvedConstituentClaim.constituentKey).Nodup)

include hkeys

theorem nodup_keys_filter (symbol : String) : ((claims.filter (·.symbol = symbol)).map
      ResolvedConstituentClaim.constituentKey).Nodup :=
  hkeys.sublist (List.filter_sublist.map _)

/-- A key is refused where its claim's own symbol refuses it. -/
theorem mem_refused_iff {claim : ResolvedConstituentClaim} (hclaim : claim ∈ claims) :
    claim.constituentKey ∈ (overlappingClaims claims).map OverlapConflict.refused
      ↔ ∃ refusal ∈ (selection (claims.filter (·.symbol = claim.symbol))).refusals,
        refusal.refused = claim := by
  rw [List.mem_map]
  constructor
  · rintro ⟨conflict, hconflict, hrefused⟩
    obtain ⟨symbol, refusal, hrefusal, rfl⟩ := mem_overlappingClaims.mp hconflict
    obtain ⟨-, -, hmem, -, -⟩ := refusal_spec (nodup_keys_filter hkeys symbol) hrefusal
    obtain ⟨hin, hsymbol⟩ := List.mem_filter.mp hmem
    have hsame : refusal.refused = claim := List.inj_on_of_nodup_map hkeys hin hclaim hrefused
    rw [hsame, decide_eq_true_eq] at hsymbol
    rw [hsymbol]
    exact ⟨refusal, hrefusal, hsame⟩
  · rintro ⟨refusal, hrefusal, rfl⟩
    exact ⟨_, mem_overlappingClaims.mpr ⟨_, refusal, hrefusal, rfl⟩, rfl⟩

/-- A claim that is not refused is kept by its symbol. -/
theorem kept_of_not_refused {claim : ResolvedConstituentClaim} (hclaim : claim ∈ claims)
    (h : claim.constituentKey ∉ (overlappingClaims claims).map OverlapConflict.refused) :
    claim ∈ (selection (claims.filter (·.symbol = claim.symbol))).kept := by
  have hgroup : claim ∈ claims.filter (·.symbol = claim.symbol) :=
    List.mem_filter.mpr ⟨hclaim, by simp⟩
  rcases List.mem_append.mp ((perm_selection _).mem_iff.mpr hgroup) with hkept | hrefused
  · exact hkept
  · obtain ⟨refusal, hrefusal, heq⟩ := List.mem_map.mp hrefused
    exact absurd ((mem_refused_iff hkeys hclaim).mpr ⟨refusal, hrefusal, heq⟩) h

theorem nodup_refused :
    ((overlappingClaims claims).map OverlapConflict.refused).Nodup := by
  rw [overlappingClaims, List.map_flatMap, List.nodup_flatMap]
  constructor
  · rintro ⟨symbol, group⟩ hentry
    obtain ⟨rfl, -⟩ := mem_entries_groupBy _ |>.mp (mem_sortBy.mp hentry)
    exact nodup_refused_symbolConflicts (nodup_keys_filter hkeys symbol)
  · have hsymbols : ((sortBy compareEntries (bySymbol claims).entries).map Prod.fst).Nodup :=
      ((sortBy_perm _ _).map Prod.fst).nodup_iff.mpr (bySymbol claims).nodup
    have hpairs := List.pairwise_map.mp hsymbols
    refine hpairs.imp_of_mem ?_
    rintro ⟨symbol, group⟩ ⟨symbol', group'⟩ hentry hentry' hne key hkey hkey'
    -- a key refused by two symbols would be a claim's of both
    obtain ⟨rfl, -⟩ := mem_entries_groupBy _ |>.mp (mem_sortBy.mp hentry)
    obtain ⟨rfl, -⟩ := mem_entries_groupBy _ |>.mp (mem_sortBy.mp hentry')
    obtain ⟨conflict, hconflict, rfl⟩ := List.mem_map.mp hkey
    obtain ⟨conflict', hconflict', hsame⟩ := List.mem_map.mp hkey'
    obtain ⟨refusal, hrefusal, rfl⟩ := mem_symbolConflicts.mp hconflict
    obtain ⟨refusal', hrefusal', rfl⟩ := mem_symbolConflicts.mp hconflict'
    obtain ⟨-, -, hmem, -, -⟩ := refusal_spec (nodup_keys_filter hkeys symbol) hrefusal
    obtain ⟨-, -, hmem', -, -⟩ := refusal_spec (nodup_keys_filter hkeys symbol') hrefusal'
    obtain ⟨hin, hsymbol⟩ := List.mem_filter.mp hmem
    obtain ⟨hin', hsymbol'⟩ := List.mem_filter.mp hmem'
    have heq : refusal'.refused = refusal.refused :=
      List.inj_on_of_nodup_map hkeys hin' hin hsame
    rw [decide_eq_true_eq] at hsymbol hsymbol'
    exact hne (by rw [← hsymbol, ← hsymbol', heq])

/-- **The conflicts resolve the overlaps.** -/
theorem overlapsResolved :
    OverlapsResolved claims (overlappingClaims claims) where
  apart := by
    intro left hleft right hright hne hsymbol hkeptLeft hkeptRight
    have hin := kept_of_not_refused hkeys hleft hkeptLeft
    have hin' := kept_of_not_refused hkeys hright hkeptRight
    rw [← hsymbol] at hin'
    exact kept_apart hin hin' fun heq => hne (by rw [heq])
  once := nodup_refused hkeys
  justified := by
    intro conflict hconflict
    obtain ⟨symbol, refusal, hrefusal, rfl⟩ := mem_overlappingClaims.mp hconflict
    have hgroup := nodup_keys_filter hkeys symbol
    obtain ⟨hkept, hwinner, hrefused, hrank, hoverlap⟩ := refusal_spec hgroup hrefusal
    obtain ⟨hin, hsymbol⟩ := List.mem_filter.mp hwinner
    obtain ⟨hin', hsymbol'⟩ := List.mem_filter.mp hrefused
    rw [decide_eq_true_eq] at hsymbol hsymbol'
    obtain ⟨hle, hdays⟩ := firstOverlap_some hoverlap
    refine ⟨refusal.winner, hin, refusal.refused, hin', rfl, rfl, hsymbol, hsymbol', hrank,
      fun hagain => ?_, hle, hdays⟩
    obtain ⟨other, hother, heq⟩ := (mem_refused_iff hkeys hin).mp hagain
    rw [hsymbol] at hother
    exact not_refused_of_kept hgroup hkept hother (by rw [heq])

/-! ### Another order -/

omit hkeys in
theorem compares_compareEntries :
    Compares compareEntries fun entry => codeUnits (entryText entry) := by
  intro a b
  unfold compareEntries codeUnitLt
  simp only [decide_eq_true_eq]
  split
  · next h => simp [h]
  · next h =>
    split
    · simp [h]
    · simp [h]

/-- One symbol's claims are ranked alike in any order. -/
theorem selection_filter_of_perm (h : claims.Perm others) (symbol : String) :
    selection (others.filter (·.symbol = symbol))
      = selection (claims.filter (·.symbol = symbol)) := by
  have hgroup := nodup_keys_filter hkeys symbol
  have hranks : ((claims.filter (·.symbol = symbol)).map claimRank).Nodup := by
    refine List.Nodup.map_on (fun a ha b hb heq => ?_) (List.Nodup.of_map _ hgroup)
    exact List.inj_on_of_nodup_map hgroup ha hb (claimRank_inj heq)
  rw [selection, selection,
    sortBy_eq_of_perm compares_compareClaims (h.filter (·.symbol = symbol)) hranks]

/-- A symbol's text and conflicts. -/
def symbolReading (entry : String × List ResolvedConstituentClaim) :
    List ℕ × List OverlapConflict :=
  (codeUnits (entryText entry), symbolConflicts entry)

theorem symbolReading_of_perm (h : claims.Perm others) (symbol : String) :
    symbolReading (symbol, others.filter (·.symbol = symbol))
      = symbolReading (symbol, claims.filter (·.symbol = symbol)) := by
  have hlength := (h.filter (·.symbol = symbol)).length_eq
  rw [symbolReading, symbolReading, symbolConflicts_eq, symbolConflicts_eq,
    selection_filter_of_perm hkeys h, entryText, entryText, List.map_const', List.map_const',
    hlength]

/-- The texts and conflicts of the symbols are the same, in some order. -/
theorem perm_symbolReading (h : claims.Perm others) :
    ((bySymbol others).entries.map symbolReading).Perm
      ((bySymbol claims).entries.map symbolReading) := by
  have hread : ∀ list : List ResolvedConstituentClaim, (bySymbol list).entries.map symbolReading
      = (bySymbol list).keys.map fun symbol =>
        symbolReading (symbol, list.filter (·.symbol = symbol)) := by
    intro list
    rw [OrderedMap.keys, List.map_map]
    refine List.map_congr_left fun entry hentry => ?_
    obtain ⟨symbol, group⟩ := entry
    obtain ⟨rfl, -⟩ := mem_entries_groupBy _ |>.mp hentry
    rfl
  have hmem : ∀ (list : List ResolvedConstituentClaim) (symbol : String),
      symbol ∈ (bySymbol list).keys ↔ ∃ claim ∈ list, claim.symbol = symbol := by
    intro list symbol
    rw [OrderedMap.mem_keys_iff]
    unfold bySymbol
    simp only [get?_groupBy, Option.ite_none_left_eq_some, Option.some.injEq, exists_and_left,
      exists_eq', and_true, List.filter_eq_nil_iff, decide_eq_true_eq]
    push Not
    rfl
  have hkeysPerm : (bySymbol others).keys.Perm (bySymbol claims).keys := by
    refine (List.perm_ext_iff_of_nodup (bySymbol others).nodup (bySymbol claims).nodup).mpr ?_
    intro symbol
    refine (hmem others symbol).trans (Iff.trans ?_ (hmem claims symbol).symm)
    simp only [h.mem_iff]
  rw [hread, hread]
  refine (hkeysPerm.map _).trans (List.Perm.of_eq (List.map_congr_left fun symbol _ => ?_))
  exact symbolReading_of_perm hkeys h symbol

/-- **In any order of the claims the conflicts are the same**, and in the same order where no two
symbols have one text. -/
theorem overlappingClaims_perm (h : claims.Perm others) :
    (overlappingClaims others).Perm (overlappingClaims claims)
    ∧ (((bySymbol claims).entries.map entryText).Nodup →
      overlappingClaims others = overlappingClaims claims) := by
  have hreading := perm_symbolReading hkeys h
  constructor
  · have hconflicts := hreading.map Prod.snd
    rw [List.map_map, List.map_map] at hconflicts
    have hsorted : ∀ list : List ResolvedConstituentClaim,
        (overlappingClaims list).Perm ((bySymbol list).entries.map symbolConflicts).flatten := by
      intro list
      rw [← List.flatMap_def]
      exact (sortBy_perm _ _).flatMap_right _
    exact ((hsorted others).trans hconflicts.flatten).trans (hsorted claims).symm
  · intro htexts
    have hcodes :
        ((bySymbol claims).entries.map fun entry => codeUnits (entryText entry)).Nodup := by
      have hmap := htexts.map codeUnits_injective
      rwa [List.map_map] at hmap
    have hsame := map_sortBy_eq_of_perm compares_compareEntries hreading.symm hcodes
    rw [overlappingClaims, overlappingClaims, List.flatMap_def, List.flatMap_def, hsame]

end

end Whole

/-- **One security, one constituent at a time**, whatever the order of the claims. -/
theorem overlappingClaims_resolved (claims : List ResolvedConstituentClaim)
    (hkeys : (claims.map ResolvedConstituentClaim.constituentKey).Nodup) :
    OverlapsResolved claims (overlappingClaims claims)
    ∧ ∀ others, claims.Perm others →
      (overlappingClaims others).Perm (overlappingClaims claims)
      ∧ (((bySymbol claims).entries.map entryText).Nodup →
        overlappingClaims others = overlappingClaims claims) :=
  ⟨overlapsResolved hkeys, fun _ h => overlappingClaims_perm hkeys h⟩

/-- A current member, the one it absorbed and one that had left before: the second is refused. -/
theorem overlappingClaims_resolved_absorbed :
    OverlapsResolved
      [⟨"REMOVAL:corp", false, "T", [⟨9497, 13104⟩], true, 1, 1⟩,
        ⟨"CURRENT:T", true, "T", [⟨9500, 20742⟩], true, 1, 9 / 10⟩,
        ⟨"REMOVAL:old", false, "T", [⟨9000, 9400⟩], true, 1, 1⟩]
      (overlappingClaims
        [⟨"REMOVAL:corp", false, "T", [⟨9497, 13104⟩], true, 1, 1⟩,
          ⟨"CURRENT:T", true, "T", [⟨9500, 20742⟩], true, 1, 9 / 10⟩,
          ⟨"REMOVAL:old", false, "T", [⟨9000, 9400⟩], true, 1, 1⟩]) :=
  (overlappingClaims_resolved _ (by decide)).1

/-- Three claims of one symbol, and two of another that is the first followed by the text of one
claim. -/
def sameText : List ResolvedConstituentClaim × List ResolvedConstituentClaim :=
  ((["1", "2", "3"].map fun key => ⟨key, false, "A", [⟨0, 1⟩], true, 1, 1⟩),
    (["4", "5"].map fun key => ⟨key, false, "A,[object Object]", [⟨0, 1⟩], true, 1, 1⟩))

/-- Both groups are written `A,[object Object],[object Object],[object Object]`, so that the one
whose claim comes first stays in front. -/
theorem overlappingClaims_sameText :
    ¬ ∀ claims others : List ResolvedConstituentClaim,
      (claims.map ResolvedConstituentClaim.constituentKey).Nodup → claims.Perm others →
      overlappingClaims others = overlappingClaims claims := by
  intro h
  have hsame := h (sameText.1 ++ sameText.2) (sameText.2 ++ sameText.1) (by decide)
    List.perm_append_comm
  revert hsame
  decide +kernel

end FactorSage.IndexMembership
