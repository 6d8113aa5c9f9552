import FactorSage.Monitor.RuleObjects
import FactorSage.Monitor.ThreeWays

/-!
# Three ways to establish a level, over plain objects

An evaluation keeps the rules of a level in a plain object, stores it and reads it back. While no rule
has a name that every object inherits, every part of `decideLevelSessions` does over such an object
what it does over the map (`decideLevelSessions_onObject`), so a run of evaluations records the same
changes and leaves the same lifecycle (`run_onObject`), and the three ways to establish a level agree
(`threeWays_of_clearIds`). A rule keyed `__proto__` is lost on the way to the store, and they do not
(`not_threeWays_proto`).
-/

namespace FactorSage

variable {F : Type}

def PersistedSignalState.onObject (state : PersistedSignalState) : PersistedSignalState RuleObject :=
  { state with lifecycle := state.lifecycle.onObject }

def LevelSessionsWrite.onObject (write : LevelSessionsWrite F) : LevelSessionsWrite F RuleObject :=
  { write with
    previous := write.previous.map PersistedSignalState.onObject
    lifecycle := write.lifecycle.map MonitorLevelLifecycle.onObject }

def SessionDecision.onObject (decision : SessionDecision F) : SessionDecision F RuleObject :=
  { decision with write := decision.write.map LevelSessionsWrite.onObject }

/-- A decision that leaves no rule under a name every object inherits. -/
def SessionDecision.Clear (decision : SessionDecision F) : Prop :=
  ∀ write ∈ decision.write, ∀ lifecycle ∈ write.lifecycle, lifecycle.Clear

theorem clear_unresolved {lifecycle : MonitorLevelLifecycle} (h : lifecycle.Clear) :
    (unresolved lifecycle).Clear := by
  unfold unresolved
  split
  · exact h
  · exact h

theorem unresolved_onObject (lifecycle : MonitorLevelLifecycle) :
    unresolved lifecycle.onObject = (unresolved lifecycle).onObject := by
  unfold unresolved
  change (if lifecycle.state = .resolved then _ else _) = _
  split <;> rfl

namespace SessionDecisionInput

/-- The same decision over a plain object. -/
def onObject (input : SessionDecisionInput F) : SessionDecisionInput F RuleObject :=
  { input with previous := input.previous.map PersistedSignalState.onObject }

def Stepped.onObject (stepped : Stepped F) : Stepped F RuleObject :=
  { stepped with lifecycle := stepped.lifecycle.onObject }

variable (input : SessionDecisionInput F)

/-! ### Nothing decidable -/

theorem stale_onObject : input.onObject.stale = input.stale := by
  unfold stale onObject
  cases input.previous <;> rfl

theorem reset_onObject : input.onObject.reset = input.reset := by
  unfold reset
  rw [stale_onObject]
  unfold onObject
  cases input.previous <;> rfl

theorem resetOnly_onObject : input.onObject.resetOnly = input.resetOnly.onObject := by
  unfold resetOnly
  rw [reset_onObject, stale_onObject]
  cases input.stale <;> rfl

theorem clear_resetOnly : input.resetOnly.Clear := by
  intro write hwrite lifecycle hlifecycle
  unfold resetOnly at hwrite
  split at hwrite
  · obtain rfl := Option.some.inj hwrite
    cases hlifecycle
  · cases hwrite

theorem needsDeeper_onObject : input.onObject.needsDeeper = input.needsDeeper.onObject := by
  unfold needsDeeper
  rw [resetOnly_onObject]
  rfl

variable [JsNumber F] (hids : ∀ id ∈ input.level.ruleIds, id ∉ objectPrototypeNames)

include hids in
/-- A level's sessions are observed under the ids of its rules. -/
theorem avoids_historyStep (eligibility : LocalDate → Bool) (session : input.frame.Session) :
    (historyStep input.level input.frame eligibility session).Avoids objectPrototypeNames :=
  fun _ hobservation => hids _
    ((hasKeys_historyStep _ _ _ _).subset (List.mem_map_of_mem hobservation))

/-! ### The pieces of a decision -/

/-- A session's step is the same on both. -/
theorem stepReading_onObject {stepped : Stepped F} (hclear : stepped.lifecycle.Clear)
    {reading : SessionReading input.frame} (hreading : reading.step.Avoids objectPrototypeNames) :
    input.onObject.stepReading stepped.onObject reading
      = (input.stepReading stepped reading).onObject :=
  congrArg (fun result : MonitorLevelStepResult LocalDate RuleObject =>
    (⟨stepped.changes ++ result.transitions.map (input.onObject.changeOf reading result),
      result.next, if result.transitions.isEmpty then stepped.enteredAt
        else some ⟨some reading.step.date, some reading.price⟩⟩ : Stepped F RuleObject))
    (stepMonitorLevel_onObject hclear hreading)

include hids in
theorem stepThrough_onObject {start : MonitorLevelLifecycle} (hstart : start.Clear)
    (sessions : List input.frame.Session) :
    input.onObject.stepThrough start.onObject (sessions.map input.read)
        = (input.stepThrough start (sessions.map input.read)).onObject
      ∧ (input.stepThrough start (sessions.map input.read)).lifecycle.Clear := by
  -- the fold carries what was stepped before
  have hfold : ∀ (sessions : List input.frame.Session) (stepped : Stepped F),
      stepped.lifecycle.Clear →
        (sessions.map input.read).foldl input.onObject.stepReading stepped.onObject
            = ((sessions.map input.read).foldl input.stepReading stepped).onObject
          ∧ ((sessions.map input.read).foldl input.stepReading stepped).lifecycle.Clear := by
    intro sessions
    induction sessions with
    | nil => exact fun stepped hclear => ⟨rfl, hclear⟩
    | cons session rest ih =>
      intro stepped hclear
      have havoids := input.avoids_historyStep hids input.monitoredOn session
      have hreading : input.onObject.stepReading stepped.onObject (input.read session)
          = (input.stepReading stepped (input.read session)).onObject :=
        input.stepReading_onObject hclear havoids
      obtain ⟨hrest, hafter⟩ :=
        ih (input.stepReading stepped (input.read session)) (clear_stepMonitorLevel havoids)
      exact ⟨(congrArg (fun stepped => (rest.map input.read).foldl input.onObject.stepReading stepped)
        hreading).trans hrest, hafter⟩
  exact hfold sessions ⟨[], start, none⟩ hstart

include hids in
theorem reconstructAt_onObject (session : input.frame.Session) :
    input.onObject.reconstructAt (input.read session)
        = (input.reconstructAt (input.read session)).onObject
      ∧ (input.reconstructAt (input.read session)).lifecycle.Clear := by
  refine reconstructMonitorLevel_onObject input.historyComplete fun step hstep => ?_
  rcases List.mem_append.mp hstep with hhistory | hlive
  · have hsteps : step ∈ sinceResting (input.steps (sessionsBefore session)) :=
      input.historyBefore_eq session ▸ hhistory
    obtain ⟨earlier, -, rfl⟩ := List.mem_map.mp ((sinceResting_suffix _).subset hsteps)
    exact input.avoids_historyStep hids input.monitoredOn earlier
  · obtain rfl := List.mem_singleton.mp hlive
    exact input.avoids_historyStep hids input.monitoredOn session

/-! ### The decision -/

include hids in
/-- A catch-up is the same on both. -/
theorem catchUp_onObject {previous : PersistedSignalState} (hprevious : previous.lifecycle.Clear)
    (newest : input.frame.Session) :
    input.onObject.catchUp previous.onObject newest = (input.catchUp previous newest).onObject
      ∧ (input.catchUp previous newest).Clear := by
  obtain ⟨hstepped, hclear⟩ := input.stepThrough_onObject hids hprevious input.sessions
  refine ⟨?_, ?_⟩
  · exact congrArg (fun stepped : Stepped F RuleObject => (⟨some (input.onObject.write stepped.changes
      (some stepped.lifecycle) (input.read newest).outcome (input.decidedOf (input.read newest))
      stepped.enteredAt), false, false⟩ : SessionDecision F RuleObject)) hstepped
  · rintro write hwrite lifecycle hlifecycle
    obtain rfl := Option.some.inj hwrite
    obtain rfl := Option.some.inj hlifecycle
    exact hclear

include hids in
/-- A reconstruction is the same on both. -/
theorem reconstructNewest_onObject (newest : input.frame.Session) :
    input.onObject.reconstructNewest newest = (input.reconstructNewest newest).onObject
      ∧ (input.reconstructNewest newest).Clear := by
  obtain ⟨hreconstruct, hclear⟩ := input.reconstructAt_onObject hids newest
  change input.onObject.reconstructAt (input.onObject.read newest) = _ at hreconstruct
  have hunresolved : unresolved (input.reconstructAt (input.read newest)).onObject.lifecycle
      = (unresolved (input.reconstructAt (input.read newest)).lifecycle).onObject :=
    unresolved_onObject _
  unfold reconstructNewest
  dsimp only
  rw [hreconstruct, hunresolved, input.resetOnly_onObject, input.needsDeeper_onObject,
    input.reset_onObject]
  change (if (input.read newest).outcome = .notEvaluable then _ else
    if !(input.reconstructAt (input.read newest)).exact then _ else _) = _ ∧ _
  split
  · exact ⟨rfl, input.clear_resetOnly⟩
  · split
    · exact ⟨rfl, input.clear_resetOnly⟩
    · refine ⟨rfl, ?_⟩
      rintro write hwrite lifecycle hlifecycle
      obtain rfl := Option.some.inj hwrite
      obtain rfl := Option.some.inj hlifecycle
      exact clear_unresolved hclear

include hids in
/-- A replay is the same on both. -/
theorem replayFrom_onObject {start : MonitorLevelLifecycle} (hstart : start.Clear)
    (prefixReading : Option (SessionReading input.frame)) (newest : input.frame.Session) :
    input.onObject.replayFrom start.onObject prefixReading newest
        = (input.replayFrom start prefixReading newest).onObject
      ∧ (input.replayFrom start prefixReading newest).Clear := by
  obtain ⟨hstepped, hclear⟩ := input.stepThrough_onObject hids hstart input.sessions
  change input.onObject.stepThrough start.onObject
    (input.onObject.sessions.map input.onObject.read) = _ at hstepped
  unfold replayFrom
  dsimp only
  rw [hstepped, input.resetOnly_onObject, input.reset_onObject]
  by_cases hempty : ((input.sessions.map input.read ++ prefixReading.toList).filter fun reading =>
      decide (reading.outcome ≠ .notEvaluable)).isEmpty = true
  · rw [if_pos hempty]
    exact ⟨if_pos hempty, input.clear_resetOnly⟩
  · rw [if_neg hempty]
    refine ⟨if_neg hempty, ?_⟩
    rintro write hwrite lifecycle hlifecycle
    obtain rfl := Option.some.inj hwrite
    obtain rfl := Option.some.inj hlifecycle
    exact hclear

include hids in
theorem replayLevel_onObject (first newest : input.frame.Session) :
    input.onObject.replayLevel first newest = (input.replayLevel first newest).onObject
      ∧ (input.replayLevel first newest).Clear := by
  have hbefore : input.onObject.beforeWindow first = input.beforeWindow first := rfl
  unfold replayLevel
  rw [hbefore, input.needsDeeper_onObject]
  cases input.beforeWindow first with
  | some session =>
    obtain ⟨hreconstruct, hclear⟩ := input.reconstructAt_onObject hids session
    change input.onObject.reconstructAt (input.onObject.read session) = _ at hreconstruct
    dsimp only
    rw [hreconstruct]
    change (if !(input.reconstructAt (input.read session)).exact then _ else
      input.onObject.replayFrom (unresolved (input.reconstructAt (input.read session)).lifecycle.onObject)
        (some (input.read session)) newest) = _ ∧ _
    rw [unresolved_onObject]
    split
    · exact ⟨rfl, input.clear_resetOnly⟩
    · exact input.replayFrom_onObject hids (clear_unresolved hclear) _ _
  | none =>
    change (if !input.historyComplete then _ else
      input.onObject.replayFrom initialMonitorLevelLifecycle.onObject none newest) = _ ∧ _
    dsimp only
    split
    · exact ⟨rfl, input.clear_resetOnly⟩
    · exact input.replayFrom_onObject hids clear_initial _ _

end SessionDecisionInput

/-- **A decision over a plain object** is the one over the map, for rules under clear names. -/
theorem decideLevelSessions_onObject [JsNumber F] (input : SessionDecisionInput F)
    (hids : ∀ id ∈ input.level.ruleIds, id ∉ objectPrototypeNames)
    (hprevious : ∀ previous ∈ input.previous, previous.lifecycle.Clear) :
    decideLevelSessions input.onObject = (decideLevelSessions input).onObject
      ∧ (decideLevelSessions input).Clear := by
  unfold decideLevelSessions
  rw [input.stale_onObject, input.resetOnly_onObject]
  cases hlast : input.sessions.getLast? with
  | none =>
    have hnone : input.onObject.sessions.getLast? = none := hlast
    rw [hnone]
    exact ⟨rfl, input.clear_resetOnly⟩
  | some newest =>
    have hnewest : input.onObject.sessions.getLast? = some newest := hlast
    rw [hnewest]
    cases hhead : input.sessions.head? with
    | none =>
      have hnone : input.onObject.sessions.head? = none := hhead
      rw [hnone]
      exact ⟨rfl, input.clear_resetOnly⟩
    | some first =>
      have hfirst : input.onObject.sessions.head? = some first := hhead
      rw [hfirst]
      -- a level without state under its logic is replayed or reconstructed
      have hunstored : (if input.replay then input.onObject.replayLevel first newest
            else input.onObject.reconstructNewest newest)
          = (if input.replay then input.replayLevel first newest
            else input.reconstructNewest newest).onObject
          ∧ (if input.replay then input.replayLevel first newest
            else input.reconstructNewest newest).Clear := by
        split
        · exact input.replayLevel_onObject hids first newest
        · exact input.reconstructNewest_onObject hids newest
      cases hstored : input.previous with
      | none =>
        have hnone : input.onObject.previous = none := congrArg (Option.map _) hstored
        rw [hnone]
        exact hunstored
      | some previous =>
        have hsome : input.onObject.previous = some previous.onObject :=
          congrArg (Option.map _) hstored
        rw [hsome]
        cases input.stale with
        | true => exact hunstored
        | false => exact input.catchUp_onObject hids (hprevious previous hstored) newest

namespace SessionDecisionInput

variable [JsNumber F] (input : SessionDecisionInput F RuleObject)
  (hids : ∀ id ∈ input.level.ruleIds, id ∉ objectPrototypeNames)

/-- The same level over a map, with nothing stored. -/
def onMap (input : SessionDecisionInput F RuleObject) : SessionDecisionInput F :=
  { input with previous := none }

variable {stored : Option MonitorLevelLifecycle}

omit [JsNumber F] in
theorem evaluating_onObject
    (hstored : ∀ lifecycle ∈ stored, lifecycle.Clear) (evaluation : LevelEvaluation input.frame) :
    input.evaluating (stored.map MonitorLevelLifecycle.onObject) evaluation
      = (input.onMap.evaluating stored evaluation).onObject := by
  cases stored with
  | none => rfl
  | some lifecycle =>
    exact congrArg (fun rules : RuleObject => ({ input with
      previous := some { evaluation.columns with
        signalFingerprint := input.level.fingerprint
        lifecycle := ⟨lifecycle.state, lifecycle.since, rules⟩ }
      sessions := evaluation.sessions
      replay := evaluation.replay } : SessionDecisionInput F RuleObject))
      (RuleObject.reread_ofMap (hstored lifecycle rfl))

include hids in
/-- One evaluation records the same changes, and leaves the same lifecycle stored. -/
theorem evaluation_onObject
    (hstored : ∀ lifecycle ∈ stored, lifecycle.Clear) (evaluation : LevelEvaluation input.frame) :
    (decideLevelSessions (input.evaluating (stored.map MonitorLevelLifecycle.onObject)
        evaluation)).write.elim [] (·.changes)
        = (decideLevelSessions (input.onMap.evaluating stored evaluation)).write.elim [] (·.changes)
      ∧ input.storedAfter (stored.map MonitorLevelLifecycle.onObject) evaluation
        = (input.onMap.storedAfter stored evaluation).map MonitorLevelLifecycle.onObject
      ∧ ∀ lifecycle ∈ input.onMap.storedAfter stored evaluation, lifecycle.Clear := by
  have hprevious : ∀ previous ∈ (input.onMap.evaluating stored evaluation).previous,
      previous.lifecycle.Clear := by
    intro previous hprevious
    obtain ⟨lifecycle, hlifecycle, rfl⟩ := Option.map_eq_some_iff.mp hprevious
    exact hstored lifecycle hlifecycle
  obtain ⟨hdecide, hclear⟩ :=
    decideLevelSessions_onObject (input.onMap.evaluating stored evaluation) hids hprevious
  unfold storedAfter
  rw [evaluating_onObject input hstored, hdecide]
  unfold SessionDecision.Clear at hclear
  generalize decideLevelSessions (input.onMap.evaluating stored evaluation) = decision at hclear ⊢
  cases hwrite : decision.write with
  | none =>
    unfold SessionDecision.onObject
    rw [hwrite]
    exact ⟨rfl, rfl, hstored⟩
  | some write =>
    unfold SessionDecision.onObject
    rw [hwrite]
    exact ⟨rfl, rfl, hclear write hwrite⟩

include hids in
/-- **A run of evaluations over a plain object** records what it does over the map. -/
theorem run_onObject (hstored : ∀ lifecycle ∈ stored, lifecycle.Clear)
    (evaluations : List (LevelEvaluation input.frame)) :
    (input.run (stored.map MonitorLevelLifecycle.onObject) evaluations).recorded
        = (input.onMap.run stored evaluations).recorded
      ∧ (input.run (stored.map MonitorLevelLifecycle.onObject) evaluations).lifecycle
        = (input.onMap.run stored evaluations).lifecycle.map MonitorLevelLifecycle.onObject
      ∧ ∀ lifecycle ∈ (input.onMap.run stored evaluations).lifecycle, lifecycle.Clear := by
  induction evaluations generalizing stored with
  | nil => exact ⟨rfl, rfl, hstored⟩
  | cons evaluation rest ih =>
    obtain ⟨hchanges, hafter, hclear⟩ := input.evaluation_onObject hids hstored evaluation
    obtain ⟨hrecorded, hlifecycle, hleft⟩ := ih hclear
    rw [run_cons, hchanges, hafter]
    exact ⟨congrArg _ hrecorded, hlifecycle, hleft⟩

/-! ### The three ways -/

omit [JsNumber F] in
theorem storedState_onObject (stored : Option MonitorLevelLifecycle) :
    storedState (stored.map MonitorLevelLifecycle.onObject) = storedState stored := by
  cases stored <;> rfl

include hids in
theorem establishes_onObject {evaluations : List (LevelEvaluation input.frame)}
    {lifecycle : MonitorLevelLifecycle} (h : input.onMap.Establishes evaluations lifecycle) :
    input.Establishes evaluations lifecycle.onObject ∧ lifecycle.Clear := by
  have hnone : ∀ lifecycle ∈ (none : Option MonitorLevelLifecycle), lifecycle.Clear := nofun
  obtain ⟨-, hlifecycle, hclear⟩ := input.run_onObject hids hnone evaluations
  refine ⟨⟨?_, fun before after hsplit => ?_⟩, hclear lifecycle h.stored⟩
  · exact hlifecycle.trans (congrArg _ h.stored)
  · obtain ⟨-, hbefore, hstored⟩ := input.run_onObject hids hnone before
    obtain ⟨hrecorded, -, -⟩ := input.run_onObject hids hstored after
    have hrecords := h.records before after hsplit
    change Records (storedState (input.run (none.map MonitorLevelLifecycle.onObject) before).lifecycle)
      (input.run (input.run (none.map MonitorLevelLifecycle.onObject) before).lifecycle
        after).recorded.flatten lifecycle.state
    rw [hbefore, hrecorded, storedState_onObject]
    exact hrecords

include hids in
theorem agreeAfter_onObject {session : input.frame.Session} {left right : MonitorLevelLifecycle}
    (hleft : left.Clear) (hright : right.Clear) (h : input.onMap.AgreeAfter session left right) :
    input.AgreeAfter session left.onObject right.onObject := by
  refine ⟨h.current, h.since, fun later hascends => ?_⟩
  have hclear (level : MonitorLevelLifecycle) (hlevel : level.Clear) :
      ∀ lifecycle ∈ some level, lifecycle.Clear := by
    rintro lifecycle hlifecycle
    obtain rfl := Option.some.inj hlifecycle
    exact hlevel
  obtain ⟨hrecorded, -, -⟩ := input.run_onObject hids (hclear left hleft) later
  obtain ⟨hrecorded', -, -⟩ := input.run_onObject hids (hclear right hright) later
  exact (congrArg _ hrecorded).trans ((h.occurrences later hascends).trans (congrArg _ hrecorded').symm)

/-- **The three ways agree over plain objects**, while no rule of the level has a name that every
object inherits. -/
theorem threeWays_of_clearIds (input : SessionDecisionInput F RuleObject)
    (hids : ∀ id ∈ input.level.ruleIds, id ∉ objectPrototypeNames)
    (hcomplete : input.historyComplete = true) {newest first earlier : input.frame.Session}
    (hfirst : first ∈ input.frame.period) (hfirst_le : first ≤ newest)
    (hearlier : earlier ∈ input.frame.period) (hearlier_le : earlier ≤ newest)
    (hnewest_decidable : (input.read newest).outcome ≠ .notEvaluable)
    (hearlier_decidable : (input.read earlier).outcome ≠ .notEvaluable)
    {single window initial : LevelEvaluation input.frame}
    {batches : List (LevelEvaluation input.frame)}
    (hsingle : single.replay = false ∧ single.sessions.getLast? = some newest)
    (hwindow : window.replay = true ∧ window.sessions = windowOf first newest)
    (hinitial : initial.replay = false ∧ initial.sessions.getLast? = some earlier)
    (hbatches : batches.flatMap (·.sessions) = sessionsBetween earlier newest) :
    ∃ reconstructed replayed caughtUp,
      input.Establishes [single] reconstructed
        ∧ input.Establishes [window] replayed
        ∧ input.Establishes (initial :: batches) caughtUp
        ∧ input.AgreeAfter newest reconstructed replayed
        ∧ input.AgreeAfter newest reconstructed caughtUp := by
  obtain ⟨reconstructed, replayed, caughtUp, hreconstructed, hreplayed, hcaughtUp, hagree, hagree'⟩ :=
    decideLevelSessions_threeWays input.onMap hcomplete hfirst hfirst_le hearlier hearlier_le
      hnewest_decidable hearlier_decidable hsingle hwindow hinitial hbatches
  obtain ⟨hleft, hclear⟩ := input.establishes_onObject hids hreconstructed
  obtain ⟨hmiddle, hclear'⟩ := input.establishes_onObject hids hreplayed
  obtain ⟨hright, hclear''⟩ := input.establishes_onObject hids hcaughtUp
  exact ⟨_, _, _, hleft, hmiddle, hright, input.agreeAfter_onObject hids hclear hclear' hagree,
    input.agreeAfter_onObject hids hclear hclear'' hagree'⟩

/-- Up to the third session: reconstructed there, replayed from the second, and established on the
first and caught up a session at a time. -/
theorem threeWays_of_clearIds_rising :
    ∃ reconstructed replayed caughtUp,
      risingInput.onObject.Establishes [risingEvaluation [2] false] reconstructed
        ∧ risingInput.onObject.Establishes [risingEvaluation [1, 2] true] replayed
        ∧ risingInput.onObject.Establishes
          [risingEvaluation [0] false, risingEvaluation [1] false, risingEvaluation [2] false] caughtUp
        ∧ risingInput.onObject.AgreeAfter (risingSession 2) reconstructed replayed
        ∧ risingInput.onObject.AgreeAfter (risingSession 2) reconstructed caughtUp := by
  have hperiod : ∀ index : Fin 4, risingSession index ∈ risingInput.frame.period := by decide
  have hdecidable : ∀ index : Fin 4,
      (risingInput.onObject.read (risingSession index)).outcome ≠ .notEvaluable := by
    decide +kernel
  exact threeWays_of_clearIds risingInput.onObject (by decide) rfl (hperiod 1) (by decide)
    (hperiod 0) (by decide) (hdecidable 2) (hdecidable 0) ⟨rfl, rfl⟩ ⟨rfl, by decide⟩ ⟨rfl, rfl⟩
    (by decide)

/-- The sample level under the id `__proto__`. -/
def protoInput : SessionDecisionInput ExactNumber RuleObject :=
  { risingInput with
    previous := none
    level := { aboveTen with
      id := "__proto__"
      ruleIds := ["__proto__"]
      ruleIds_length := rfl
      ruleIds_nodup := List.nodup_singleton _ } }

/-- Through the four sessions of the sample, at rest on the first and the last: reconstructed on the
last the level is at rest; caught up since the first it never leaves the occurrence it began. -/
theorem not_threeWays_proto :
    (∀ index : Fin 4, (protoInput.read (risingSession index)).outcome ≠ .notEvaluable)
      ∧ ¬ ∃ reconstructed caughtUp,
        protoInput.Establishes [risingEvaluation [3] false] reconstructed
          ∧ protoInput.Establishes [risingEvaluation [0] false, risingEvaluation [1] false,
            risingEvaluation [2] false, risingEvaluation [3] false] caughtUp
          ∧ protoInput.AgreeAfter (risingSession 3) reconstructed caughtUp := by
  refine ⟨by decide +kernel, ?_⟩
  rintro ⟨reconstructed, caughtUp, hreconstructed, hcaughtUp, hagree⟩
  have hrest : storedState (protoInput.run none [risingEvaluation [3] false]).lifecycle
      = .inactive := by
    decide +kernel
  have hactive : storedState (protoInput.run none [risingEvaluation [0] false,
      risingEvaluation [1] false, risingEvaluation [2] false, risingEvaluation [3] false]).lifecycle
      = .active := by
    decide +kernel
  rw [hreconstructed.stored] at hrest
  rw [hcaughtUp.stored] at hactive
  have hcurrent := hagree.current
  change reconstructed.state = .inactive at hrest
  change caughtUp.state = .active at hactive
  rw [hrest, hactive] at hcurrent
  cases hcurrent

end SessionDecisionInput

end FactorSage
