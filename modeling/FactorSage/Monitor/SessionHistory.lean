import FactorSage.Library.AscendingList
import FactorSage.Monitor.Tracking
import Mathlib.Data.List.FinRange

/-!
# The history a decision reads

A decision walks back from a session to the latest resting one. What it reconstructs from there is
what it would reconstruct from every session of the period before it (`reconstructAt_eq`), and with
complete history that tracks the canonical lifecycle of the session: the replay of every session of
the period up to it (`tracks_reconstructAt`).
-/

namespace FactorSage

/-! ### Walking back -/

section Walk

variable {D : Type}

theorem restingStart_append_singleton (steps : List (MonitorLevelStep D)) (step : MonitorLevelStep D) :
    restingStart (steps ++ [step])
      = if isRestingMonitorStep step then some (step, [])
        else (restingStart steps).map fun start => (start.1, start.2 ++ [step]) := by
  induction steps with
  | nil => cases hrests : isRestingMonitorStep step <;> simp [restingStart, hrests]
  | cons first rest ih =>
    rw [List.cons_append, restingStart, ih]
    cases isRestingMonitorStep step with
    | true => rfl
    | false =>
      rw [if_neg Bool.false_ne_true, if_neg Bool.false_ne_true, restingStart]
      cases restingStart rest with
      | some start => rfl
      | none => cases isRestingMonitorStep first <;> rfl

/-- Nothing rests after the latest resting observation. -/
theorem restingStart_rest {steps : List (MonitorLevelStep D)}
    {start : MonitorLevelStep D × List (MonitorLevelStep D)} (h : restingStart steps = some start) :
    restingStart start.2 = none := by
  induction steps with
  | nil => cases h
  | cons step rest ih =>
    unfold restingStart at h
    cases hrest : restingStart rest with
    | some found =>
      rw [hrest] at h
      obtain rfl := Option.some.inj h
      exact ih hrest
    | none =>
      rw [hrest] at h
      dsimp only at h
      split at h
      · obtain rfl := Option.some.inj h
        exact hrest
      · cases h

/-- Where a walk back through some steps ends: at the latest resting one, or where they begin. -/
def sinceResting (steps : List (MonitorLevelStep D)) : List (MonitorLevelStep D) :=
  (restingStart steps).elim steps fun start => start.1 :: start.2

theorem restingStart_sinceResting (steps : List (MonitorLevelStep D)) :
    restingStart (sinceResting steps) = restingStart steps := by
  unfold sinceResting
  cases hstart : restingStart steps with
  | none => rw [Option.elim_none, hstart]
  | some start =>
    obtain ⟨hrests, -⟩ := restingStart_eq_some hstart
    rw [Option.elim_some, restingStart, restingStart_rest hstart]
    dsimp only
    rw [if_pos hrests]

theorem sinceResting_sinceResting (steps : List (MonitorLevelStep D)) :
    sinceResting (sinceResting steps) = sinceResting steps := by
  have hstart := restingStart_sinceResting steps
  unfold sinceResting at hstart ⊢
  rw [hstart]
  cases restingStart steps <;> rfl

/-- Nothing before the latest resting observation is read. -/
theorem reconstructMonitorLevel_sinceResting [LinearOrder D] (steps : List (MonitorLevelStep D))
    (live : MonitorLevelStep D) (complete : Bool) :
    reconstructMonitorLevel (sinceResting steps) live complete
      = reconstructMonitorLevel steps live complete := by
  have hstart := restingStart_sinceResting steps
  have hfolded := sinceResting_sinceResting steps
  unfold reconstructMonitorLevel
  dsimp only
  change (restingStart (sinceResting steps)).elim (sinceResting steps)
    (fun start => start.1 :: start.2) = _ at hfolded
  rw [hfolded, hstart]
  rfl

end Walk

theorem reverse_untilResting_reverse (steps : List MonitorLevelStep) :
    (untilResting steps.reverse).reverse = sinceResting steps := by
  induction steps using List.reverseRecOn with
  | nil => rfl
  | append_singleton earlier step ih =>
    unfold sinceResting at ih ⊢
    rw [List.reverse_append, List.reverse_singleton, List.singleton_append, untilResting,
      restingStart_append_singleton]
    cases isRestingMonitorStep step with
    | true => rfl
    | false =>
      rw [if_neg Bool.false_ne_true, if_neg Bool.false_ne_true, List.reverse_cons, ih]
      cases restingStart earlier <;> rfl

/-! ### The sessions of a frame -/

variable {F : Type}

section Sessions

variable {frame : EvaluationFrame F}

theorem dateOf_lt_iff {a b : frame.Session} : frame.dateOf a < frame.dateOf b ↔ a < b := by
  have hmono : ∀ {a b : frame.Session}, a < b → frame.dateOf a < frame.dateOf b :=
    fun h => List.pairwise_iff_get.mp frame.ascending _ _ h
  refine ⟨fun h => ?_, hmono⟩
  rcases lt_trichotomy a b with hlt | rfl | hgt
  · exact hlt
  · exact absurd h (lt_irrefl _)
  · exact absurd (hmono hgt) (lt_asymm h)

theorem pairwise_dateOf {sessions : List frame.Session} (h : sessions.Pairwise (· < ·)) :
    (sessions.map frame.dateOf).Pairwise (· < ·) :=
  List.pairwise_map.mpr (h.imp fun hlt => dateOf_lt_iff.mpr hlt)

theorem period_ascending (frame : EvaluationFrame F) : frame.period.Pairwise (· < ·) :=
  (List.pairwise_lt_finRange _).filter _

theorem mem_period_of_le {a b : frame.Session} (h : a ∈ frame.period) (hle : a ≤ b) :
    b ∈ frame.period := by
  unfold EvaluationFrame.period at h ⊢
  rw [List.mem_filter] at h ⊢
  exact ⟨List.mem_finRange b, by
    have hstart := of_decide_eq_true h.2
    exact decide_eq_true (hstart.trans hle)⟩

/-- The sessions of the period before one of its sessions. -/
def sessionsBefore (session : frame.Session) : List frame.Session :=
  frame.period.filter fun other => other < session

/-- The sessions of the period up to one. -/
def sessionsThrough (session : frame.Session) : List frame.Session :=
  frame.period.filter fun other => other ≤ session

/-- The sessions of the period after one, up to another. -/
def sessionsBetween (after through : frame.Session) : List frame.Session :=
  frame.period.filter fun other => after < other ∧ other ≤ through

theorem sessionsThrough_eq {session : frame.Session} (h : session ∈ frame.period) :
    sessionsThrough session = sessionsBefore session ++ [session] := by
  have hascending := period_ascending frame
  refine AscendingList.eq_of_mem_iff (hascending.filter _) (List.pairwise_append.mpr
    ⟨hascending.filter _, List.pairwise_singleton _ _, fun a ha b hb => ?_⟩) fun other => ?_
  · rw [List.mem_singleton.mp hb]
    exact of_decide_eq_true (List.mem_filter.mp ha).2
  · unfold sessionsThrough sessionsBefore
    rw [List.mem_append, List.mem_filter, List.mem_filter, List.mem_singleton, decide_eq_true_iff,
      decide_eq_true_iff]
    constructor
    · rintro ⟨hmem, hle⟩
      rcases hle.lt_or_eq with hlt | rfl
      · exact .inl ⟨hmem, hlt⟩
      · exact .inr rfl
    · rintro (⟨hmem, hlt⟩ | rfl)
      · exact ⟨hmem, hlt.le⟩
      · exact ⟨h, le_rfl⟩

theorem sessionsThrough_append {earlier session : frame.Session} (hle : earlier ≤ session) :
    sessionsThrough session = sessionsThrough earlier ++ sessionsBetween earlier session := by
  have hascending := period_ascending frame
  refine AscendingList.eq_of_mem_iff (hascending.filter _) (List.pairwise_append.mpr
    ⟨hascending.filter _, hascending.filter _, fun a ha b hb => ?_⟩) fun other => ?_
  · have hearlier := of_decide_eq_true (List.mem_filter.mp ha).2
    have hafter := of_decide_eq_true (List.mem_filter.mp hb).2
    exact hearlier.trans_lt hafter.1
  · unfold sessionsThrough sessionsBetween
    rw [List.mem_append, List.mem_filter, List.mem_filter, List.mem_filter, decide_eq_true_iff,
      decide_eq_true_iff, decide_eq_true_iff]
    constructor
    · rintro ⟨hmem, hother⟩
      rcases le_or_gt other earlier with h | h
      · exact .inl ⟨hmem, h⟩
      · exact .inr ⟨hmem, h, hother⟩
    · rintro (⟨hmem, h⟩ | ⟨hmem, -, h⟩)
      · exact ⟨hmem, h.trans hle⟩
      · exact ⟨hmem, h⟩

/-- The last session after one, up to another, is the other. -/
theorem getLastD_sessionsBetween {earlier session : frame.Session} (hearlier : earlier ∈ frame.period)
    (hsession : session ∈ frame.period) (hle : earlier ≤ session) :
    (sessionsBetween earlier session).getLastD earlier = session := by
  have hlast := congrArg List.getLast? (sessionsThrough_append hle)
  rw [sessionsThrough_eq hsession, sessionsThrough_eq hearlier, List.getLast?_append,
    List.getLast?_append, List.getLast?_append] at hlast
  rw [List.getLastD_eq_getLast?]
  cases hbetween : (sessionsBetween earlier session).getLast? with
  | none =>
    rw [hbetween] at hlast
    exact (Option.some.inj hlast).symm
  | some last =>
    rw [hbetween] at hlast
    exact (Option.some.inj hlast).symm

theorem closedSessions_eq (session : frame.Session) :
    (closedSessions frame (frame.dateOf session)).reverse = sessionsBefore session := by
  have hsplit : frame.period = sessionsBefore session
      ++ frame.period.filter fun other => session ≤ other := by
    refine AscendingList.eq_of_mem_iff (period_ascending frame) (List.pairwise_append.mpr
      ⟨(period_ascending frame).filter _, (period_ascending frame).filter _,
        fun a ha b hb => ?_⟩) fun other => ?_
    · exact (of_decide_eq_true (List.mem_filter.mp ha).2).trans_le
        (of_decide_eq_true (List.mem_filter.mp hb).2)
    · unfold sessionsBefore
      rw [List.mem_append, List.mem_filter, List.mem_filter, decide_eq_true_iff,
        decide_eq_true_iff, ← and_or_left, and_iff_left (lt_or_ge other session)]
  have hbefore : ∀ a b : frame.Session,
      decide (frame.dateOf b ≤ frame.dateOf a) = decide (b ≤ a) := by
    intro a b
    rw [decide_eq_decide, ← not_lt, ← not_lt, dateOf_lt_iff]
  unfold closedSessions
  rw [hsplit, List.reverse_append, List.dropWhile_append_of_pos]
  · cases hlast : (sessionsBefore session).reverse with
    | nil =>
      rw [List.reverse_eq_nil_iff.mp hlast]
      rfl
    | cons last earlier =>
      have hmem : last ∈ sessionsBefore session :=
        List.mem_reverse.mp (by rw [hlast]; exact List.mem_cons_self)
      have hlt := of_decide_eq_true (List.mem_filter.mp hmem).2
      rw [List.dropWhile_cons_of_neg (by rw [hbefore]; simpa using hlt), ← hlast,
        List.reverse_reverse]
  · intro other hother
    rw [hbefore]
    exact (List.mem_filter.mp (List.mem_reverse.mp hother)).2

end Sessions

/-! ### What a decision reconstructs -/

/-- The parts of a level's rules. -/
def MonitorStrategyLevel.shapes (level : MonitorStrategyLevel F) : List RuleShape :=
  (level.ruleIds.zip level.rules).map fun rule =>
    ⟨rule.1, !rule.2.conditions.isEmpty, rule.2.trigger.isSome⟩

theorem MonitorStrategyLevel.map_key_shapes (level : MonitorStrategyLevel F) :
    level.shapes.map RuleShape.key = level.ruleIds := by
  unfold shapes
  rw [List.map_map]
  exact List.map_fst_zip level.ruleIds_length.le

theorem MonitorStrategyLevel.nodup_keys_shapes (level : MonitorStrategyLevel F) :
    (level.shapes.map RuleShape.key).Nodup := by
  rw [level.map_key_shapes]
  exact level.ruleIds_nodup

variable [JsNumber F]

theorem hasShapes_historyStep (level : MonitorStrategyLevel F) (frame : EvaluationFrame F)
    (eligibility : LocalDate → Bool) (session : frame.Session) :
    HasShapes level.shapes (historyStep level frame eligibility session) := by
  have hshapes : (observeMonitorLevel level frame session).map ruleShape = level.shapes := by
    unfold observeMonitorLevel MonitorStrategyLevel.shapes
    rw [List.map_map]
    refine List.map_congr_left fun rule _ => ?_
    obtain ⟨hconditions, htrigger⟩ := observeSignal_isSome rule.2 frame session
    unfold ruleShape
    simp only [Function.comp_apply, hconditions, htrigger]
  exact List.Perm.of_eq hshapes

theorem hasKeys_historyStep (level : MonitorStrategyLevel F) (frame : EvaluationFrame F)
    (eligibility : LocalDate → Bool) (session : frame.Session) :
    HasKeys level.ruleIds (historyStep level frame eligibility session) :=
  List.Perm.of_eq (map_key_observeMonitorLevel level frame session)

namespace SessionDecisionInput

variable (input : SessionDecisionInput F)

/-- The steps of some sessions. -/
def steps (sessions : List input.frame.Session) : List MonitorLevelStep :=
  sessions.map (historyStep input.level input.frame input.monitoredOn)

theorem steps_append (sessions later : List input.frame.Session) :
    input.steps (sessions ++ later) = input.steps sessions ++ input.steps later :=
  List.map_append

/-- The canonical lifecycle of a session: the replay of every session of the period up to it. -/
def canonical (session : input.frame.Session) : MonitorLevelLifecycle :=
  replayMonitorLevel (input.steps (sessionsThrough session)) initialMonitorLevelLifecycle

theorem historyBefore_eq (session : input.frame.Session) :
    input.historyBefore (input.frame.dateOf session)
      = sinceResting (input.steps (sessionsBefore session)) := by
  unfold historyBefore historySteps
  rw [← closedSessions_eq, ← reverse_untilResting_reverse, steps, ← List.map_reverse,
    List.reverse_reverse]

/-- **A decision reconstructs what all of the period before it would.** -/
theorem reconstructAt_eq (session : input.frame.Session) :
    input.reconstructAt (input.read session)
      = reconstructMonitorLevel (input.steps (sessionsBefore session)) (input.read session).step
          input.historyComplete := by
  unfold reconstructAt
  change reconstructMonitorLevel (input.historyBefore (input.frame.dateOf session)) _ _ = _
  rw [historyBefore_eq, reconstructMonitorLevel_sinceResting]

variable {session : input.frame.Session}

theorem canonical_eq (h : session ∈ input.frame.period) :
    input.canonical session
      = (fullReplay (input.steps (sessionsBefore session)) (input.read session).step).next := by
  unfold canonical
  rw [sessionsThrough_eq h, steps, List.map_append, replayMonitorLevel_append]
  rfl

theorem canonical_append {earlier session : input.frame.Session} (hle : earlier ≤ session) :
    input.canonical session
      = replayMonitorLevel (input.steps (sessionsBetween earlier session))
          (input.canonical earlier) := by
  unfold canonical
  rw [sessionsThrough_append hle, steps, List.map_append, replayMonitorLevel_append]
  rfl

/-- Steps of ascending sessions ascend. -/
theorem pairwise_dates {sessions : List input.frame.Session}
    (h : sessions.Pairwise (· < ·)) :
    ((input.steps sessions).map MonitorLevelStep.date).Pairwise (· < ·) := by
  unfold steps
  rw [List.map_map]
  exact pairwise_dateOf h

theorem hasShapes_steps (session : input.frame.Session) :
    ∀ step ∈ input.steps (sessionsBefore session) ++ [(input.read session).step],
      HasShapes input.level.shapes step := by
  intro step hstep
  rcases List.mem_append.mp hstep with hstep | hstep
  · obtain ⟨other, -, rfl⟩ := List.mem_map.mp hstep
    exact hasShapes_historyStep _ _ _ _
  · rw [List.mem_singleton.mp hstep]
    exact hasShapes_historyStep _ _ _ _

/-- The history of a session ascends to it. -/
theorem ascendsBefore_steps (session : input.frame.Session) :
    AscendsBefore (input.steps (sessionsBefore session)) (input.read session).step.date := by
  have hsessions : (sessionsBefore session ++ [session]).Pairwise (· < ·) :=
    List.pairwise_append.mpr ⟨(period_ascending input.frame).filter _,
      List.pairwise_singleton _ _, fun other hother last hlast => by
        rw [List.mem_singleton.mp hlast]
        exact of_decide_eq_true (List.mem_filter.mp hother).2⟩
  have hdates := input.pairwise_dates hsessions
  unfold steps at hdates
  rw [List.map_append, List.map_append] at hdates
  exact hdates

/-- Over ascending sessions, what tracks another lifecycle goes on tracking it. -/
theorem tracks_steps {anchor : LocalDate} {left right : MonitorLevelLifecycle}
    (h : Tracks input.level.ruleIds anchor (input.frame.dateOf session) left right)
    {sessions : List input.frame.Session} (hascends : (session :: sessions).Pairwise (· < ·)) :
    Tracks input.level.ruleIds anchor (input.frame.dateOf (sessions.getLastD session))
      (replayMonitorLevel (input.steps sessions) left)
      (replayMonitorLevel (input.steps sessions) right) := by
  induction sessions generalizing session left right with
  | nil => exact h
  | cons next rest ih =>
    obtain ⟨hafter, hrest⟩ := List.pairwise_cons.mp hascends
    rw [List.getLastD_cons]
    exact ih (h.next input.level.ruleIds_nodup (hasKeys_historyStep _ _ _ _)
      (dateOf_lt_iff.mpr (hafter next List.mem_cons_self))) hrest

/-- **With complete history a reconstruction tracks the canonical lifecycle.** -/
theorem tracks_reconstructAt (hcomplete : input.historyComplete = true)
    (h : session ∈ input.frame.period) :
    (input.reconstructAt (input.read session)).exact = true
      ∧ ∃ anchor, Tracks input.level.ruleIds anchor (input.frame.dateOf session)
        (unresolved (input.reconstructAt (input.read session)).lifecycle)
        (input.canonical session) := by
  have htracks := tracks_reconstruct input.level.nodup_keys_shapes (input.hasShapes_steps session)
    (input.ascendsBefore_steps session)
  rw [MonitorStrategyLevel.map_key_shapes] at htracks
  rw [reconstructAt_eq, hcomplete, canonical_eq input h]
  exact htracks

end SessionDecisionInput

end FactorSage
