import FactorSage.Jobs.Queue

/-!
# A job and its run never disagree

In every reachable state of the queue, and along every path, a job and its run say the same thing.

* `invariant_reachable`: every execution agrees, and every claim handed out names its own run.
* `kept_of_later`: what an execution never loses, from any state to any later one.
* `jobsAndRunsAgree_of_reachable`: the agreement of all jobs with their runs, in the state, across
  its next step, and in every later state.
-/

namespace FactorSage.Jobs

variable {F : Type}

namespace Queue

/-- What the induction over the path carries. -/
structure Invariant (q : Queue F) : Prop where
  agree : q.AllAgree
  claimsName : q.ClaimsName

end Queue

theorem newExecution_agrees (submission : Submission) (now : Instant) :
    (Database.newExecution (F := F) (submission.job now) submission.run
      Submission.progress).Agrees where
  status := rfl
  cancelRequestedAt := fun _ => rfl
  attempts := Nat.zero_le _
  result := by simp [Database.newExecution, Submission.run]
  progress := rfl
  milestones := Numbered.nil
  claimedBy := fun h => by cases h

namespace Evolves

variable {a : Action F} {id : JobId} {o o' : Option (Execution F)}

theorem agrees (h : Evolves a id o o') (ho : ∀ e ∈ o, e.Agrees) : ∀ e ∈ o', e.Agrees := by
  intro e' he'
  cases h with
  | absent => cases he'
  | submitted submission now =>
    obtain rfl := Option.some.inj he'
    exact newExecution_agrees submission now
  | same e =>
    obtain rfl := Option.some.inj he'
    exact ho _ rfl
  | moved hmove =>
    obtain rfl := Option.some.inj he'
    exact hmove.agrees (ho _ rfl)

/-- No execution is ever lost. -/
theorem kept (h : Evolves a id o o') {e : Execution F} (he : o = some e) :
    ∃ e', o' = some e' ∧ e.Kept e' := by
  cases h with
  | absent => cases he
  | submitted => cases he
  | same e₀ =>
    obtain rfl := Option.some.inj he
    exact ⟨_, rfl, .refl _⟩
  | moved hmove =>
    obtain rfl := Option.some.inj he
    exact ⟨_, rfl, hmove.kept⟩

end Evolves

/-- The claim handed out is of the job just taken. -/
theorem handsOut_names {q : Queue F} {now : Instant} {a : Action F} {write : JobWrite}
    (hwrite : write ∈ a.handsOut now q.db) :
    ∃ e, q.db.execution write.jobId = some e ∧ e.job.runId = write.runId := by
  cases a with
  | claimNextJob deployment locks workerId leaseMs =>
    obtain ⟨claimed, hclaimed, rfl⟩ := Option.map_eq_some_iff.mp hwrite
    obtain heq | ⟨candidate, hadmissible, -, -, hids⟩ :=
      Database.claimNextJob_spec q.db deployment locks workerId now leaseMs
    · rw [heq] at hclaimed
      cases hclaimed
    · obtain ⟨job, hjob, hrun, -, -⟩ := hadmissible.job
      obtain ⟨hid, hrunId⟩ := hids claimed hclaimed
      obtain ⟨e, he, rfl⟩ := q.db.exists_execution hjob
      exact ⟨e, hid ▸ he, hrun.trans hrunId.symm⟩
  | _ => cases hwrite

open Queue in
theorem invariant_inductive : (system F).Inductive Invariant where
  start := by
    rintro q rfl
    refine ⟨fun id e he => ?_, fun write hwrite => ?_⟩
    · cases he
    · cases hwrite
  step := by
    rintro q ⟨now, a⟩ q' hq ⟨henabled, rfl⟩
    have hevolves := fun id => transact_evolves hq.claimsName hq.agree henabled id
    refine ⟨fun id e' he' => ?_, fun write hwrite => ?_⟩
    · exact (hevolves id).agrees (hq.agree id) e' he'
    · have hnamed : ∃ e, q.db.execution write.jobId = some e ∧ e.job.runId = write.runId := by
        obtain hold | hnew := List.mem_append.mp hwrite
        · exact hq.claimsName write hold
        · exact handsOut_names (Option.mem_toList.mp hnew)
      obtain ⟨e, he, hrun⟩ := hnamed
      obtain ⟨e', he', hkept⟩ := (hevolves write.jobId).kept he
      exact ⟨e', he', hkept.runId.trans hrun⟩

theorem invariant_reachable {q : Queue F} (h : (Queue.system F).Reachable q) : q.Invariant :=
  invariant_inductive.reachable h

theorem evolves_of_step {q q' : Queue F} {act : Instant × Action F}
    (hq : (Queue.system F).Reachable q) (h : (Queue.system F).step q act q') (id : JobId) :
    Evolves act.2 id (q.db.execution id) (q'.db.execution id) := by
  obtain ⟨henabled, rfl⟩ := h
  have hinv := invariant_reachable hq
  exact transact_evolves hinv.claimsName hinv.agree henabled id

/-- No execution is ever lost, nor what it keeps. -/
theorem kept_of_later {q q' : Queue F} (hq : (Queue.system F).Reachable q)
    (h : (Queue.system F).Later q q') :
    ∀ id e, q.db.execution id = some e → ∃ e', q'.db.execution id = some e' ∧ e.Kept e' := by
  refine StepSystem.Later.of_step
    (R := fun q q' => ∀ id e, q.db.execution id = some e →
      ∃ e', q'.db.execution id = some e' ∧ e.Kept e') ?_ ?_ ?_ hq h
  · exact fun _ _ e he => ⟨e, he, .refl e⟩
  · intro q₁ q₂ q₃ h₁₂ h₂₃ id e he
    obtain ⟨e', he', hkept⟩ := h₁₂ id e he
    obtain ⟨e'', he'', hkept'⟩ := h₂₃ id e' he'
    exact ⟨e'', he'', hkept.trans hkept'⟩
  · exact fun q₁ act q₂ hq₁ hstep id e he => (evolves_of_step hq₁ hstep id).kept he

/-! ### The agreement -/

/-- A job and its run, as they stand together in one state. -/
structure AgreeNow (e : Execution F) : Prop where
  queued : e.job.status = .queued ↔ e.run.status = .queued
  claimed : e.job.status = .claimed → e.run.status.IsExecuting
  completed : e.job.status = .completed ↔ e.run.status = .completed
  failed : e.job.status = .failed ↔ e.run.status = .failed
  cancelled : e.job.status = .cancelled ↔ e.run.status = .cancelled
  cancelRequestedAt : e.job.status = .queued → e.job.cancelRequestedAt = none
  result : e.run.status = .completed → e.result.isSome
  attempts : e.job.attempts ≤ e.job.maxAttempts
  milestones : e.milestones.map BacktestRunMilestone.sequence
    = List.range' 1 e.milestones.length

/-- One step of the system, as one job and its run see it. -/
structure AgreeAcross (a : Action F) (e e' : Execution F) : Prop where
  /-- An execution that has ended never changes again. -/
  terminal : e.job.status.IsTerminal ∨ e.run.status.IsTerminal → e' = e
  /-- The step that completes a run is the one that stores its result. -/
  completed : e.run.status ≠ .completed → e'.run.status = .completed →
    ∃ write, a = .persistResult write ∧ e.result = none
      ∧ e'.result = some ⟨write.result, write.etfConditions⟩
  /-- A worker's write without the current claim changes nothing. -/
  notHeld : ∀ write ∈ a.write?, ¬ e.job.isHeldBy write.workerId → e' = e
  progress : ∀ p ∈ e.progress, ∃ p' ∈ e'.progress, p' = p ∨ p.sequence < p'.sequence

/-- What any later state still says of a job and its run. -/
structure AgreeLater (e e' : Execution F) : Prop where
  terminal : e.job.status.IsTerminal ∨ e.run.status.IsTerminal → e' = e
  progress : ∀ p ∈ e.progress, ∃ p' ∈ e'.progress, p' = p ∨ p.sequence < p'.sequence

/-- The queue keeps every job and its run in agreement: now, across any next step, and ever
after. -/
structure JobsAndRunsAgree (q : Queue F) : Prop where
  now : ∀ id job, q.db.jobs.get? id = some job →
    ∃ e, q.db.execution id = some e ∧ e.job = job ∧ AgreeNow e
  across : ∀ act q', (Queue.system F).step q act q' → ∀ id e, q.db.execution id = some e →
    ∃ e', q'.db.execution id = some e' ∧ AgreeAcross act.2 e e'
  later : ∀ q', (Queue.system F).Later q q' → ∀ id e, q.db.execution id = some e →
    ∃ e', q'.db.execution id = some e' ∧ AgreeLater e e'

theorem Execution.Agrees.agreeNow {e : Execution F} (h : e.Agrees) : AgreeNow e where
  queued := h.status.queued_iff
  claimed := h.status.isExecuting
  completed := h.status.completed_iff
  failed := h.status.failed_iff
  cancelled := h.status.cancelled_iff
  cancelRequestedAt := h.cancelRequestedAt
  result := h.result.mpr
  attempts := h.attempts
  milestones := h.milestones.1

theorem Advances.exists_row {p p' : Option BacktestRunProgress} (h : Advances p p') :
    ∀ row ∈ p, ∃ row' ∈ p', row' = row ∨ row.sequence < row'.sequence := by
  intro row hrow
  obtain rfl | h := h
  · exact ⟨row, hrow, .inl rfl⟩
  · obtain ⟨row', hrow', hlt⟩ := h row hrow
    exact ⟨row', hrow', .inr hlt⟩

theorem Execution.Kept.agreeLater {e e' : Execution F} (h : e.Kept e') (he : e.Agrees) :
    AgreeLater e e' where
  terminal := by
    rintro (hjob | hrun)
    · exact h.terminal hjob
    · exact h.terminal (he.status.isTerminal_iff.mpr hrun)
  progress := h.progress.exists_row

theorem Action.eq_persistResult {a : Action F} {write : BacktestResultWrite F}
    (h : a.actor = .finisher write) : a = .persistResult write := by
  cases a with
  | persistResult write' => rw [Actor.finisher.inj h]
  | _ => cases h

theorem AgreeAcross.refl (a : Action F) (e : Execution F) : AgreeAcross a e e where
  terminal := fun _ => rfl
  completed := fun hne heq => absurd heq hne
  notHeld := fun _ _ _ => rfl
  progress := fun p hp => ⟨p, hp, .inl rfl⟩

theorem Move.agreeAcross {a : Action F} {e e' : Execution F} (h : Move a.actor e e')
    (he : e.Agrees) : AgreeAcross a e e' where
  terminal := (h.kept.agreeLater he).terminal
  completed := by
    intro _ hcompleted
    obtain ⟨write, hactor, hnone, hresult⟩ := h.completed he hcompleted
    exact ⟨write, Action.eq_persistResult hactor, hnone, hresult⟩
  notHeld := by
    intro write hwrite hnot
    refine absurd (h.isHeldBy ?_) hnot
    rw [Action.holder?_actor, hwrite]
    rfl
  progress := h.kept.progress.exists_row

/-- **A backtest job and its run never disagree**, whatever the order of the transactions of any
number of workers and callers. -/
theorem jobsAndRunsAgree_of_reachable {q : Queue F} (hq : (Queue.system F).Reachable q) :
    JobsAndRunsAgree q where
  now := by
    intro id job hjob
    obtain ⟨e, he, rfl⟩ := q.db.exists_execution hjob
    exact ⟨e, he, rfl, ((invariant_reachable hq).agree id e he).agreeNow⟩
  across := by
    intro act q' hstep id e he
    have hagrees := (invariant_reachable hq).agree id e he
    have hevolves := evolves_of_step hq hstep id
    rw [he] at hevolves
    generalize q'.db.execution id = o' at hevolves
    cases hevolves with
    | same => exact ⟨e, rfl, .refl act.2 e⟩
    | moved hmove => exact ⟨_, rfl, hmove.agreeAcross hagrees⟩
  later := by
    intro q' hlater id e he
    obtain ⟨e', he', hkept⟩ := kept_of_later hq hlater id e he
    exact ⟨e', he', hkept.agreeLater ((invariant_reachable hq).agree id e he)⟩

/-- One slot, and a free plan for every user. -/
def sampleDeployment : Deployment where
  globalMaxRunning := some 1
  queueMaxQueued := 100
  owner := fun _ => some ⟨some .free, .user⟩

def sampleLocks : ClaimLocks := ⟨fun _ => true, fun _ => true⟩

def sampleSubmission (n : ℕ) : Submission := ⟨n, n, n, "snapshot", 3⟩

def sampleProgress : BacktestProgressWrite where
  jobId := 0
  runId := 0
  workerId := 10
  leaseMs := 50
  status := some ⟨.running, .inr (.inl rfl)⟩
  percent := 40
  message := "Simulating"
  simulatedThrough := none
  snapshot := none
  milestone := none

/-- A run is claimed, reports, is asked to stop, and its worker acknowledges. -/
def samplePath : List (Instant × Action ℚ) :=
  [(0, .submitRun sampleDeployment (sampleSubmission 0)),
   (2, .claimNextJob sampleDeployment sampleLocks 10 5),
   (4, .updateProgress sampleProgress),
   (6, .cancelRun 0 0),
   (8, .releaseJob ⟨0, 0, 10⟩ true)]

theorem jobsAndRunsAgree_sample : JobsAndRunsAgree (Queue.init.after samplePath) :=
  jobsAndRunsAgree_of_reachable (Queue.reachable_after (.start rfl)
    ⟨⟨by decide, rfl⟩, ⟨by decide, rfl⟩, ⟨by decide, rfl⟩, ⟨by decide, rfl⟩, ⟨by decide, rfl⟩,
      trivial⟩)

example : ((Queue.init.after samplePath).db.execution 0).map (fun e => (e.job.status, e.run.status))
    = some (.cancelled, .cancelled) := by decide

end FactorSage.Jobs
