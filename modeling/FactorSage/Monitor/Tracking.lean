import FactorSage.Monitor.Reconstruction
import FactorSage.Monitor.SessionDecision

/-!
# Lifecycles that track the canonical one

A Monitor's stored lifecycle need not be the one a replay of all history leaves: it is reconstructed
and settled, its rest is renamed, it is stepped on from there. It tracks the canonical lifecycle
(`Tracks`): the two stand alike, and every later observation has the same outcome on both and keeps
them so (`Tracks.next`). A reconstruction from complete history tracks it from the start
(`tracks_reconstruct`).
-/

namespace FactorSage

variable {D : Type}

theorem unresolved_rules (lifecycle : MonitorLevelLifecycle D) :
    (unresolved lifecycle).rules = lifecycle.rules
      ∧ (unresolved lifecycle).since = lifecycle.since := by
  unfold unresolved
  split <;> exact ⟨rfl, rfl⟩

theorem current_unresolved (lifecycle : MonitorLevelLifecycle D) :
    (unresolved lifecycle).state.current = lifecycle.state.current := by
  unfold unresolved
  split
  · next h =>
    rw [h]
    rfl
  · rfl

/-- Nothing is left resolved. -/
theorem state_unresolved (lifecycle : MonitorLevelLifecycle D)
    (h : (unresolved lifecycle).state.atRest = true) : (unresolved lifecycle).state = .inactive := by
  unfold unresolved at h ⊢
  split
  · rfl
  · next hne =>
    rw [if_neg hne] at h
    exact (atRest_iff.mp h).resolve_right hne

variable [LinearOrder D]

/-- A lifecycle that has stood with the canonical one since the observation of `last`. -/
structure Tracks (keys : List String) (anchor last : D) (left right : MonitorLevelLifecycle D) :
    Prop where
  stands : StandsLike keys anchor left right
  le : anchor ≤ last
  dated : ∀ later, last < later → LevelDated later left
  dated' : ∀ later, last < later → LevelDated later right
  coherent : Coherent keys left

section Step

variable {keys : List String} {anchor last : D} {left right : MonitorLevelLifecycle D}
  {step : MonitorLevelStep D} (hkeys : keys.Nodup)

theorem Tracks.sameOutcome (h : Tracks keys anchor last left right) (hstep : HasKeys keys step)
    (hlater : last < step.date) :
    SameOutcome (stepMonitorLevel left step) (stepMonitorLevel right step) :=
  h.stands.sameOutcome (fun _ hmem => hstep.subset (List.mem_map_of_mem hmem))
    (h.dated _ hlater) (h.dated' _ hlater) (h.le.trans_lt hlater)

include hkeys

theorem Tracks.next (h : Tracks keys anchor last left right) (hstep : HasKeys keys step)
    (hlater : last < step.date) :
    Tracks keys anchor step.date (stepMonitorLevel left step).next
      (stepMonitorLevel right step).next where
  stands := h.stands.next (fun _ hmem => hstep.subset (List.mem_map_of_mem hmem))
    (h.dated _ hlater) (h.dated' _ hlater) (h.le.trans_lt hlater) hkeys hstep
  le := (h.le.trans_lt hlater).le
  dated _ hlt := (h.dated _ hlater).next hlt
  dated' _ hlt := (h.dated' _ hlater).next hlt
  coherent := h.coherent.next hstep hkeys

end Step

/-- Over a run a level that is current has been so since some observation. -/
theorem isSome_since_replay (steps : List (MonitorLevelStep D)) {level : MonitorLevelLifecycle D}
    (h : level.state.atRest = false → level.since.isSome) :
    (replayMonitorLevel steps level).state.atRest = false →
      (replayMonitorLevel steps level).since.isSome := by
  induction steps generalizing level with
  | nil => exact h
  | cons step rest ih =>
    rw [replayMonitorLevel_cons]
    refine ih fun hcurrent => ?_
    by_cases hsilent : (stepMonitorLevel level step).transitions = []
    · obtain ⟨hstate, hsince⟩ := state_stepMonitorLevel_of_silent hsilent
      rw [hstate] at hcurrent
      rw [hsince]
      exact h hcurrent
    · rw [(state_stepMonitorLevel_of_recorded hsilent).2]
      rfl

/-- A followed lifecycle tracks itself. -/
theorem tracks_self {keys : List String} {last : D} {level : MonitorLevelLifecycle D}
    (hdated : ∀ later, last < later → LevelDated later level) (hcoherent : Coherent keys level) :
    Tracks keys last last level level :=
  ⟨⟨fun _ _ => rfl, rfl, fun _ => rfl⟩, le_rfl, hdated, hdated, hcoherent⟩

/-- Renaming a rest is never noticed, once every rule is stored. -/
theorem Tracks.unresolved {keys : List String} {anchor last : D}
    {left right : MonitorLevelLifecycle D} (h : Tracks keys anchor last left right)
    (hstored : ∀ key ∈ keys, key ∈ left.rules.keys) :
    Tracks keys anchor last (unresolved left) right := by
  obtain ⟨hrules, hsince⟩ := unresolved_rules left
  have hruleOf : ∀ key ∈ keys, ruleOf (FactorSage.unresolved left) key = ruleOf left key := by
    intro key hkey
    obtain ⟨rule, hget⟩ := OrderedMap.mem_keys_iff.mp (hstored key hkey)
    rw [ruleOf_eq, ruleOf_eq, hrules, hget]
    rfl
  refine ⟨⟨fun key hkey => ?_, ?_, fun hcurrent => ?_⟩, h.le, fun later hlt => ?_, h.dated', ?_⟩
  · rw [hruleOf key hkey]
    exact h.stands.rules key hkey
  · rw [current_unresolved]
    exact h.stands.current
  · rw [hsince]
    refine h.stands.since ?_
    unfold FactorSage.unresolved at hcurrent
    split at hcurrent
    · cases hcurrent
    · exact hcurrent
  · have hdated := h.dated later hlt
    exact ⟨by rw [hsince]; exact hdated.since, by rw [hrules]; exact hdated.rules⟩
  · unfold Coherent
    rw [current_unresolved, ← h.coherent]
    exact congrArg levelOf (List.map_congr_left hruleOf)

/-! ### Reconstruction from complete history -/

section Reconstruct

variable {shapes : List RuleShape} {history : List (MonitorLevelStep D)} {live : MonitorLevelStep D}

/-- The anchor of a reconstruction is one of its own observations. -/
theorem anchor_le_of_reconstruct (hascends : AscendsBefore history live.date) (complete : Bool) :
    ∀ anchor ∈ (reconstructMonitorLevel history live complete).anchor, anchor ≤ live.date := by
  obtain ⟨anchor, heq, hanchor⟩ := reconstructMonitorLevel_eq history live complete
  rw [heq]
  intro date hdate
  obtain rfl : anchor = some date := hdate
  rcases hanchor with ⟨start, hstart, hdate⟩ | ⟨-, ⟨-, hdate⟩ | hnone⟩
  · obtain ⟨-, before, hbefore⟩ := restingStart_eq_some hstart
    have hmem : start.1.date ∈ history.map MonitorLevelStep.date := by
      rw [hbefore]
      exact List.mem_map_of_mem (List.mem_append_right _ List.mem_cons_self)
    rw [Option.some.inj hdate]
    exact ((List.pairwise_append.mp hascends).2.2 _ hmem _ (List.mem_singleton_self _)).le
  · exact (Option.some.inj hdate).le
  · cases hnone

variable (hkeys : (shapes.map RuleShape.key).Nodup)
  (hshapes : ∀ step ∈ history ++ [live], HasShapes shapes step)
  (hascends : AscendsBefore history live.date)

include hkeys hshapes hascends

/-- The canonical lifecycle, followed from the start. -/
theorem followed_fullReplay :
    (∀ later, live.date < later → LevelDated later (fullReplay history live).next)
      ∧ Coherent (shapes.map RuleShape.key) (fullReplay history live).next
      ∧ ∀ key ∈ shapes.map RuleShape.key, key ∈ (fullReplay history live).next.rules.keys := by
  have hlive := hshapes live (List.mem_append_right _ (List.mem_singleton_self live))
  have hfollowed : Followed shapes live.date
      (replayMonitorLevel history initialMonitorLevelLifecycle) :=
    Followed.replay hkeys (fun date _ => followed_initial shapes date)
      (fun other hother => hshapes other (List.mem_append_left _ hother)) hascends
  exact ⟨fun later hlt => hfollowed.dated.next hlt, hfollowed.coherent.next hlive.hasKeys hkeys,
    fun key hkey => (keys_rules_stepMonitorLevel _ hlive.hasKeys hkeys).mem_iff.mpr hkey⟩

/-- **A reconstruction from complete history tracks the canonical lifecycle.** -/
theorem tracks_reconstruct :
    (reconstructMonitorLevel history live true).exact = true
      ∧ ∃ anchor, Tracks (shapes.map RuleShape.key) anchor live.date
        (unresolved (reconstructMonitorLevel history live true).lifecycle)
        (fullReplay history live).next := by
  have hexact : (reconstructMonitorLevel history live true).exact = true := by
    unfold reconstructMonitorLevel
    simp
  have hequals := reconstructMonitorLevel_exact hkeys hshapes hascends (List.suffix_refl history)
    (iff_of_true rfl rfl) hexact
  have hle := anchor_le_of_reconstruct hascends true
  obtain ⟨hdated, hcoherent, hstored⟩ := followed_fullReplay hkeys hshapes hascends
  refine ⟨hexact, ?_⟩
  rw [hequals.lifecycle]
  cases hanchor : (reconstructMonitorLevel history live true).anchor with
  | none => exact ⟨live.date, (tracks_self hdated hcoherent).unresolved hstored⟩
  | some anchor =>
    have hanchor_le := hle anchor hanchor
    refine ⟨anchor, Tracks.unresolved ⟨?_, hanchor_le, fun later hlt => ?_, hdated, ?_⟩ ?_⟩
    · exact (settlesAlike_settle anchor _).standsLike _
    · exact (hdated later hlt).settle (hanchor_le.trans_lt hlt)
    · exact hcoherent.settle anchor
    · intro key hkey
      rw [Option.elim_some, rules_settle, OrderedMap.keys_mapValues]
      exact hstored key hkey

end Reconstruct

end FactorSage
