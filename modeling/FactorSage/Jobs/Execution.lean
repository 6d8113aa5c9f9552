import FactorSage.Jobs.Repository

/-!
# One job with its run

The queue seen from a single job: `Move` lists everything that any transaction can do to one
execution, with the guard it does it under, and names whose move it is. `Execution.Agrees` is what
the job and its run owe each other; every move keeps it (`Move.agrees`), and `Moved` collects what
an execution never loses.

The abstract machine knows no tables: that each transaction of the repository is one of these moves
on every execution at once is `Transactions`.
-/

namespace FactorSage.Jobs

variable {F : Type}

/-- What changes an execution: a claim, the worker's writes under it (renewing the lease, closing
the job, storing the result), the recovery, or the run's owner. -/
inductive Actor (F : Type)
  | claimer (workerId : WorkerId)
  | renewer (workerId : WorkerId)
  | closer (workerId : WorkerId)
  | finisher (write : BacktestResultWrite F)
  | recovery
  | owner

/-- The worker whose claim the change is made under. -/
def Actor.holder? : Actor F → Option WorkerId
  | .renewer workerId => some workerId
  | .closer workerId => some workerId
  | .finisher write => some write.workerId
  | _ => none

namespace Execution

/-- A progress write of the worker that holds the claim. -/
def report (e : Execution F) (write : BacktestProgressWrite) (now : Instant) : Execution F :=
  { e with
    job := e.job.renew now write.leaseMs
    run := match write.status with
      | none => e.run
      | some status => { e.run with status := status.val }
    progress := some ((e.progress.map fun p => p.checkpoint write).getD write.firstProgress)
    milestones := match write.milestone with
      | none => e.milestones
      | some milestone => Database.withMilestone e.milestones
          { milestone with runId := write.runId, sequence := e.milestones.length + 1 } }

def complete (e : Execution F) (write : BacktestResultWrite F) (now : Instant) : Execution F :=
  { e with
    job := e.job.complete now
    run := e.run.complete now
    progress := some ((e.progress.map fun p =>
        p.complete write.result.summary.lastSimulatedDate).getD
      (completeProgress write.result.summary.lastSimulatedDate))
    result := some ⟨write.result, write.etfConditions⟩ }

/-- The execution goes back to the queue, without what the attempt left. -/
def requeue (e : Execution F) (availableAt : Instant) (reason : String) : Execution F :=
  { e with
    job := e.job.requeue availableAt reason
    run := e.run.requeue
    progress := e.progress.map BacktestRunProgress.requeue
    milestones := [] }

/-- The execution is cancelled while a worker holds it, or after that worker died. -/
def cancel (e : Execution F) (now : Instant) : Execution F :=
  { e with
    job := e.job.cancel
    run := e.run.cancel now
    progress := e.progress.map BacktestRunProgress.cancel }

end Execution

/-- Everything a transaction does to one execution. -/
inductive Move : Actor F → Execution F → Execution F → Prop
  | take {e : Execution F} (hqueued : e.job.status = .queued)
      (hattempts : e.job.attempts < e.job.maxAttempts) (hcancel : e.job.cancelRequestedAt = none)
      (workerId : WorkerId) (now : Instant) (leaseMs : ℕ) :
      Move (.claimer workerId) e
        { e with job := e.job.take workerId now leaseMs, run := e.run.start now }
  | renew {e : Execution F} {w : WorkerId} (hheld : e.job.isHeldBy w) (now : Instant)
      (leaseMs : ℕ) : Move (.renewer w) e { e with job := e.job.renew now leaseMs }
  | report {e : Execution F} {w : WorkerId} (hheld : e.job.isHeldBy w)
      (write : BacktestProgressWrite) (now : Instant) : Move (.renewer w) e (e.report write now)
  | complete {e : Execution F} (write : BacktestResultWrite F)
      (hheld : e.job.isHeldBy write.workerId) (now : Instant) :
      Move (.finisher write) e (e.complete write now)
  | fail {e : Execution F} {w : WorkerId} (hheld : e.job.isHeldBy w)
      (write : BacktestFailureWrite) (now : Instant) :
      Move (.closer w) e { e with job := e.job.fail write.message, run := e.run.fail write now }
  | release {e : Execution F} {w : WorkerId} (hheld : e.job.isHeldBy w)
      (hcancel : e.job.cancelRequestedAt = none) (availableAt : Instant) (reason : String) :
      Move (.closer w) e (e.requeue availableAt reason)
  | cancel {e : Execution F} {w : WorkerId} (hheld : e.job.isHeldBy w) (now : Instant) :
      Move (.closer w) e (e.cancel now)
  | cancelStale {e : Execution F} (hclaimed : e.job.status = .claimed) (now : Instant) :
      Move .recovery e (e.cancel now)
  | requeueStale {e : Execution F} (hclaimed : e.job.status = .claimed)
      (hcancel : e.job.cancelRequestedAt = none) (availableAt : Instant) (reason : String) :
      Move .recovery e (e.requeue availableAt reason)
  | abandon {e : Execution F} (hstatus : e.job.status = .claimed ∨ e.job.status = .queued)
      (now : Instant) :
      Move .recovery e { e with job := e.job.abandon, run := e.run.abandon now }
  | cancelQueued {e : Execution F} (hqueued : e.job.status = .queued) (now : Instant) :
      Move .owner e
        { e with
          job := e.job.cancelQueued now
          run := e.run.cancel now
          progress := e.progress.map BacktestRunProgress.cancel }
  | requestCancel {e : Execution F} (hclaimed : e.job.status = .claimed) (now : Instant) :
      Move .owner e { e with job := e.job.requestCancel now }

/-! ### What a job and its run owe each other -/

/-- The run statuses that go with a job status. -/
def BacktestJobStatus.Matches : BacktestJobStatus → BacktestRunStatus → Prop
  | .queued, run => run = .queued
  | .claimed, run => run.IsExecuting
  | .completed, run => run = .completed
  | .failed, run => run = .failed
  | .cancelled, run => run = .cancelled

namespace BacktestJobStatus.Matches

variable {job : BacktestJobStatus} {run : BacktestRunStatus}

theorem queued_iff (h : job.Matches run) : job = .queued ↔ run = .queued := by
  cases job <;> cases run <;> simp_all [Matches, BacktestRunStatus.IsExecuting]

theorem completed_iff (h : job.Matches run) : job = .completed ↔ run = .completed := by
  cases job <;> cases run <;> simp_all [Matches, BacktestRunStatus.IsExecuting]

theorem failed_iff (h : job.Matches run) : job = .failed ↔ run = .failed := by
  cases job <;> cases run <;> simp_all [Matches, BacktestRunStatus.IsExecuting]

theorem cancelled_iff (h : job.Matches run) : job = .cancelled ↔ run = .cancelled := by
  cases job <;> cases run <;> simp_all [Matches, BacktestRunStatus.IsExecuting]

theorem isTerminal_iff (h : job.Matches run) : job.IsTerminal ↔ run.IsTerminal := by
  unfold BacktestJobStatus.IsTerminal BacktestRunStatus.IsTerminal
  rw [h.completed_iff, h.failed_iff, h.cancelled_iff]

theorem not_isTerminal (h : job.Matches run) (hopen : job = .claimed ∨ job = .queued) :
    ¬ run.IsTerminal := by
  rw [← h.isTerminal_iff]
  obtain rfl | rfl := hopen <;> decide

theorem isExecuting (h : job.Matches run) (hclaimed : job = .claimed) : run.IsExecuting := by
  subst hclaimed
  exact h

end BacktestJobStatus.Matches

/-- The milestones of a run are numbered from one, and no year is completed twice. -/
def Numbered (milestones : List BacktestRunMilestone) : Prop :=
  milestones.map BacktestRunMilestone.sequence = List.range' 1 milestones.length
    ∧ (milestones.map fun m => m.year).Nodup

theorem Numbered.nil : Numbered [] := ⟨rfl, List.nodup_nil⟩

/-- The next number is never taken, so only a repeated year skips a milestone. -/
theorem Numbered.withMilestone {milestones : List BacktestRunMilestone} (h : Numbered milestones)
    {row : BacktestRunMilestone} (hrow : row.sequence = milestones.length + 1) :
    Numbered (Database.withMilestone milestones row) := by
  unfold Database.withMilestone
  split
  · next hnew =>
    refine ⟨?_, ?_⟩
    · rw [List.map_append, h.1, List.length_append, List.length_singleton, List.range'_concat]
      simp [hrow, Nat.add_comm]
    · rw [List.map_append]
      refine List.nodup_append.mpr ⟨h.2, List.nodup_singleton _, ?_⟩
      rintro year hyear year' hyear' rfl
      obtain ⟨m, hm, rfl⟩ := List.mem_map.mp hyear
      exact (hnew m hm).2 (List.mem_singleton.mp hyear')
  · exact h

/-- What a job and its run owe each other in every state. -/
structure Execution.Agrees (e : Execution F) : Prop where
  status : e.job.status.Matches e.run.status
  cancelRequestedAt : e.job.status = .queued → e.job.cancelRequestedAt = none
  attempts : e.job.attempts ≤ e.job.maxAttempts
  result : e.result.isSome ↔ e.run.status = .completed
  progress : e.progress.isSome
  milestones : Numbered e.milestones
  claimedBy : e.job.status = .claimed → e.job.claimedBy.isSome ∧ e.job.leaseExpiresAt.isSome

theorem BacktestJob.isHeldBy_iff {job : BacktestJob} {w : WorkerId} :
    job.isHeldBy w ↔ job.claimedBy = some w ∧ job.status = .claimed := by
  simp [BacktestJob.isHeldBy]

variable {e e' : Execution F} {actor : Actor F}

/-- A job that moves has not ended. -/
theorem Move.open (h : Move actor e e') :
    e.job.status = .claimed ∨ e.job.status = .queued := by
  cases h with
  | take hqueued => exact .inr hqueued
  | renew hheld => exact .inl (BacktestJob.isHeldBy_iff.mp hheld).2
  | report hheld => exact .inl (BacktestJob.isHeldBy_iff.mp hheld).2
  | complete write hheld => exact .inl (BacktestJob.isHeldBy_iff.mp hheld).2
  | fail hheld => exact .inl (BacktestJob.isHeldBy_iff.mp hheld).2
  | release hheld => exact .inl (BacktestJob.isHeldBy_iff.mp hheld).2
  | cancel hheld => exact .inl (BacktestJob.isHeldBy_iff.mp hheld).2
  | cancelStale hclaimed => exact .inl hclaimed
  | requeueStale hclaimed => exact .inl hclaimed
  | abandon hstatus => exact hstatus
  | cancelQueued hqueued => exact .inr hqueued
  | requestCancel hclaimed => exact .inl hclaimed

/-- A worker moves only what it holds. -/
theorem Move.isHeldBy (h : Move actor e e') {w : WorkerId}
    (hw : actor.holder? = some w) : e.job.isHeldBy w := by
  cases h with
  | renew hheld => exact Option.some.inj hw ▸ hheld
  | report hheld => exact Option.some.inj hw ▸ hheld
  | complete write hheld => exact Option.some.inj hw ▸ hheld
  | fail hheld => exact Option.some.inj hw ▸ hheld
  | release hheld => exact Option.some.inj hw ▸ hheld
  | cancel hheld => exact Option.some.inj hw ▸ hheld
  | _ => cases hw

/-- An execution that has not ended has no result. -/
theorem Execution.Agrees.result_none {e : Execution F} (h : e.Agrees)
    (hopen : e.job.status = .claimed ∨ e.job.status = .queued) : e.result = none := by
  cases hresult : e.result with
  | none => rfl
  | some result =>
    have hcompleted : e.run.status = .completed := h.result.mp (by rw [hresult]; rfl)
    exact absurd (.inl hcompleted) (h.status.not_isTerminal hopen)

/-- An execution back in the queue owes nothing to the attempt it left. -/
theorem Execution.Agrees.requeue {e : Execution F} (h : e.Agrees)
    (hopen : e.job.status = .claimed ∨ e.job.status = .queued)
    (hcancel : e.job.cancelRequestedAt = none) (availableAt : Instant) (reason : String) :
    (e.requeue availableAt reason).Agrees where
  status := rfl
  cancelRequestedAt := fun _ => hcancel
  attempts := h.attempts
  result := by simp [Execution.requeue, BacktestRun.requeue, h.result_none hopen]
  progress := by simpa [Execution.requeue] using h.progress
  milestones := Numbered.nil
  claimedBy := fun hclaimed => by cases hclaimed

theorem Execution.Agrees.cancel {e : Execution F} (h : e.Agrees)
    (hopen : e.job.status = .claimed ∨ e.job.status = .queued) (now : Instant) :
    (e.cancel now).Agrees where
  status := rfl
  cancelRequestedAt := fun hqueued => by cases hqueued
  attempts := h.attempts
  result := by simp [Execution.cancel, BacktestRun.cancel, h.result_none hopen]
  progress := by simpa [Execution.cancel] using h.progress
  milestones := h.milestones
  claimedBy := fun hclaimed => by cases hclaimed

/-- **Every move keeps the agreement.** -/
theorem Move.agrees (h : Move actor e e') (he : e.Agrees) :
    e'.Agrees := by
  have hopen := h.open
  have hresult := he.result_none hopen
  cases h with
  | take hqueued hattempts hcancel workerId now leaseMs =>
    exact
      { status := .inl rfl
        cancelRequestedAt := fun _ => hcancel
        attempts := hattempts
        result := by simp [hresult, BacktestRun.start]
        progress := he.progress
        milestones := he.milestones
        claimedBy := fun _ => ⟨rfl, rfl⟩ }
  | renew hheld now leaseMs =>
    have hclaimed := (BacktestJob.isHeldBy_iff.mp hheld).2
    exact
      { status := he.status
        cancelRequestedAt := he.cancelRequestedAt
        attempts := he.attempts
        result := he.result
        progress := he.progress
        milestones := he.milestones
        claimedBy := fun _ => ⟨(he.claimedBy hclaimed).1, rfl⟩ }
  | report hheld write now =>
    have hclaimed := (BacktestJob.isHeldBy_iff.mp hheld).2
    -- the phase it reports is an executing one, as the claimed job asks
    have hexecuting : (e.report write now).run.status.IsExecuting := by
      unfold Execution.report
      cases write.status with
      | none => exact he.status.isExecuting hclaimed
      | some status => exact status.property
    have hmilestones : Numbered (e.report write now).milestones := by
      unfold Execution.report
      cases write.milestone with
      | none => exact he.milestones
      | some milestone => exact he.milestones.withMilestone rfl
    have hmatches : e.job.status.Matches (e.report write now).run.status := by
      rw [hclaimed]
      exact hexecuting
    exact
      { status := hmatches
        cancelRequestedAt := he.cancelRequestedAt
        attempts := he.attempts
        result := by
          change e.result.isSome ↔ _
          rw [hresult, ← hmatches.completed_iff, hclaimed]
          simp
        progress := rfl
        milestones := hmilestones
        claimedBy := fun _ => ⟨(he.claimedBy hclaimed).1, rfl⟩ }
  | complete write hheld now =>
    exact
      { status := rfl
        cancelRequestedAt := fun hqueued => by cases hqueued
        attempts := he.attempts
        result := ⟨fun _ => rfl, fun _ => rfl⟩
        progress := rfl
        milestones := he.milestones
        claimedBy := fun hclaimed => by cases hclaimed }
  | fail hheld write now =>
    exact
      { status := rfl
        cancelRequestedAt := fun hqueued => by cases hqueued
        attempts := he.attempts
        result := by simp [hresult, BacktestRun.fail]
        progress := he.progress
        milestones := he.milestones
        claimedBy := fun hclaimed => by cases hclaimed }
  | release hheld hcancel availableAt reason => exact he.requeue hopen hcancel availableAt reason
  | cancel hheld now => exact he.cancel hopen now
  | cancelStale hclaimed now => exact he.cancel hopen now
  | requeueStale hclaimed hcancel availableAt reason =>
    exact he.requeue hopen hcancel availableAt reason
  | abandon hstatus now =>
    exact
      { status := rfl
        cancelRequestedAt := fun hqueued => by cases hqueued
        attempts := he.attempts
        result := by simp [hresult, BacktestRun.abandon]
        progress := he.progress
        milestones := he.milestones
        claimedBy := fun hclaimed => by cases hclaimed }
  | cancelQueued hqueued now =>
    exact
      { status := rfl
        cancelRequestedAt := fun hqueued => by cases hqueued
        attempts := he.attempts
        result := by simp [hresult, BacktestRun.cancel]
        progress := by simpa using he.progress
        milestones := he.milestones
        claimedBy := fun hclaimed => by cases hclaimed }
  | requestCancel hclaimed now =>
    have hstatus : e.job.status ≠ .queued := by
      rw [hclaimed]
      decide
    exact
      { status := he.status
        cancelRequestedAt := fun hqueued => absurd hqueued hstatus
        attempts := he.attempts
        result := he.result
        progress := he.progress
        milestones := he.milestones
        claimedBy := he.claimedBy }

/-! ### What an execution never loses -/

/-- A progress row never goes back: it stays as it is, or its sequence grows. -/
def Advances (p p' : Option BacktestRunProgress) : Prop :=
  p' = p ∨ ∀ row ∈ p, ∃ row' ∈ p', row.sequence < row'.sequence

theorem Advances.map {p : Option BacktestRunProgress} {f : BacktestRunProgress → BacktestRunProgress}
    (h : ∀ row, row.sequence < (f row).sequence) : Advances p (p.map f) := by
  right
  rintro row rfl
  exact ⟨f row, rfl, h row⟩

theorem Advances.upsert {p : Option BacktestRunProgress} {create : BacktestRunProgress}
    {f : BacktestRunProgress → BacktestRunProgress} (h : ∀ row, row.sequence < (f row).sequence) :
    Advances p (some ((p.map f).getD create)) := by
  right
  rintro row rfl
  exact ⟨f row, rfl, h row⟩

theorem Advances.trans {p p' p'' : Option BacktestRunProgress} (h : Advances p p')
    (h' : Advances p' p'') : Advances p p'' := by
  obtain rfl | h := h
  · exact h'
  · obtain rfl | h' := h'
    · exact .inr h
    · right
      intro row hrow
      obtain ⟨row', hrow', hlt⟩ := h row hrow
      obtain ⟨row'', hrow'', hlt'⟩ := h' row' hrow'
      exact ⟨row'', hrow'', hlt.trans hlt'⟩

/-- What is true of an earlier and a later state of one execution. -/
structure Execution.Kept (e e' : Execution F) : Prop where
  runId : e'.job.runId = e.job.runId
  userId : e'.run.userId = e.run.userId
  attempts : e.job.attempts ≤ e'.job.attempts
  terminal : e.job.status.IsTerminal → e' = e
  progress : Advances e.progress e'.progress

namespace Execution.Kept

theorem refl (e : Execution F) : Kept e e := ⟨rfl, rfl, le_rfl, fun _ => rfl, .inl rfl⟩

theorem trans {e e' e'' : Execution F} (h : Kept e e') (h' : Kept e' e'') : Kept e e'' where
  runId := h'.runId.trans h.runId
  userId := h'.userId.trans h.userId
  attempts := h.attempts.trans h'.attempts
  terminal := by
    intro hterminal
    have heq := h.terminal hterminal
    exact (h'.terminal (heq ▸ hterminal)).trans heq
  progress := h.progress.trans h'.progress

end Execution.Kept

theorem Move.kept (h : Move actor e e') : e.Kept e' := by
  have hterminal : ¬ e.job.status.IsTerminal := by
    obtain hs | hs := h.open <;> rw [hs] <;> decide
  have hrow (row : BacktestRunProgress) : row.sequence < row.sequence + 1 := Nat.lt_succ_self _
  constructor
  · cases h <;> rfl
  · cases h with
    | report hheld write now => unfold Execution.report; cases write.status <;> rfl
    | _ => rfl
  · cases h with
    | take => exact Nat.le_succ _
    | _ => exact le_rfl
  · exact fun h => absurd h hterminal
  · cases h with
    | take => exact .inl rfl
    | renew => exact .inl rfl
    | report hheld write now => exact Advances.upsert hrow
    | complete write hheld now => exact Advances.upsert hrow
    | fail => exact .inl rfl
    | release => exact Advances.map hrow
    | cancel => exact Advances.map hrow
    | cancelStale => exact Advances.map hrow
    | requeueStale => exact Advances.map hrow
    | abandon => exact .inl rfl
    | cancelQueued => exact Advances.map hrow
    | requestCancel => exact .inl rfl

/-- A run is completed only by the write that stores its result. -/
theorem Move.completed (h : Move actor e e')
    (he : e.Agrees) (hcompleted : e'.run.status = .completed) :
    ∃ write, actor = .finisher write ∧ e.result = none
      ∧ e'.result = some ⟨write.result, write.etfConditions⟩ := by
  have hjob : e'.job.status = .completed := (h.agrees he).status.completed_iff.mpr hcompleted
  have hresult := he.result_none h.open
  cases h with
  | complete write hheld now => exact ⟨write, rfl, hresult, rfl⟩
  | renew hheld => simp [BacktestJob.renew, (BacktestJob.isHeldBy_iff.mp hheld).2] at hjob
  | report hheld =>
    simp [Execution.report, BacktestJob.renew, (BacktestJob.isHeldBy_iff.mp hheld).2] at hjob
  | requestCancel hclaimed => simp [BacktestJob.requestCancel, hclaimed] at hjob
  | _ => cases hjob

end FactorSage.Jobs
