import FactorSage.Jobs.Execution

/-!
# Transactions as moves

Every transaction of the repository, read through `Database.execution`, is a `Move` on the
executions it touches and nothing on the others. A worker's write acts on the execution of its own
job while the claim is held (`ActsOnHeld`); a claim acts on the candidate it takes; the recovery
statements and the API's writes act wherever their condition holds.
-/

namespace FactorSage.Jobs

variable {F : Type}

namespace Database

/-- The write names a job together with its own run. -/
def Names (db : Database F) (write : JobWrite) : Prop :=
  ∀ job, db.jobs.get? write.jobId = some job → job.runId = write.runId

variable {db : Database F} {write : JobWrite}

theorem claimHeld_iff :
    db.claimHeld write ↔ ∃ job, db.jobs.get? write.jobId = some job
      ∧ job.isHeldBy write.workerId = true := by
  unfold claimHeld
  rw [Option.any_eq_true_iff_get]
  constructor
  · rintro ⟨hsome, hheld⟩
    exact ⟨_, (Option.some_get hsome).symm, hheld⟩
  · rintro ⟨job, hjob, hheld⟩
    refine ⟨by rw [hjob]; rfl, ?_⟩
    simpa [hjob] using hheld

/-- Under a held claim an execution is the one written, or it has another job and another run. -/
theorem held_or_other (hnames : db.Names write)
    {job : BacktestJob} (hjob : db.jobs.get? write.jobId = some job) {id : JobId} {e : Execution F}
    (he : db.execution id = some e) :
    id = write.jobId ∧ e.job = job ∧ e.job.runId = write.runId
      ∨ id ≠ write.jobId ∧ e.job.runId ≠ write.runId := by
  by_cases hid : id = write.jobId
  · left
    subst hid
    have heq : e.job = job := Option.some.inj ((jobs_of_execution he).symm.trans hjob)
    exact ⟨rfl, heq, heq ▸ hnames job hjob⟩
  · right
    refine ⟨hid, fun hrun => hid ?_⟩
    exact id_eq_of_runId_eq he hjob (hrun.trans (hnames job hjob).symm)

/-- `db'` is `db` with `f` done to the execution that the write holds. -/
def ActsOnHeld (db db' : Database F) (write : JobWrite) (f : Execution F → Execution F) : Prop :=
  ∀ id, db'.execution id = (db.execution id).map fun e =>
    if id = write.jobId ∧ e.job.isHeldBy write.workerId then f e else e

theorem ActsOnHeld.of_not_held
    (h : ¬ db.claimHeld write) (f : Execution F → Execution F) : ActsOnHeld db db write f := by
  intro id
  cases he : db.execution id with
  | none => rfl
  | some e =>
    rw [Option.map_some, if_neg]
    rintro ⟨rfl, hheld⟩
    exact h (claimHeld_iff.mpr ⟨e.job, jobs_of_execution he, hheld⟩)

/-- The shape of every held write: what it does where the job is held and the run is its own, and
that it leaves the other jobs and runs alone. -/
theorem ActsOnHeld.of_held {db db' : Database F} (hnames : db.Names write)
    (hheld : db.claimHeld write) {f : Execution F → Execution F}
    (hnone : ∀ id, db.execution id = none → db'.execution id = none)
    (hown : ∀ e, db.execution write.jobId = some e → e.job.isHeldBy write.workerId = true →
      e.job.runId = write.runId → db'.execution write.jobId = some (f e))
    (hother : ∀ id e, db.execution id = some e → id ≠ write.jobId → e.job.runId ≠ write.runId →
      db'.execution id = some e) : ActsOnHeld db db' write f := by
  obtain ⟨job, hjob, hheldJob⟩ := claimHeld_iff.mp hheld
  intro id
  cases he : db.execution id with
  | none => exact hnone id he
  | some e =>
    obtain ⟨rfl, rfl, hrun⟩ | ⟨hid, hrun⟩ := held_or_other hnames hjob he
    · rw [Option.map_some, if_pos ⟨rfl, hheldJob⟩]
      exact hown e he hheldJob hrun
    · rw [Option.map_some, if_neg fun h => hid h.1]
      exact hother id e he hid hrun

/-! ### The writes of a worker -/

section Held

variable {db : Database F}

theorem heartbeat_actsOnHeld (write : JobWrite) (now : Instant) (leaseMs : ℕ) :
    ActsOnHeld db (db.heartbeat write now leaseMs).1 write fun e =>
      { e with job := e.job.renew now leaseMs } := by
  intro id
  simp only [heartbeat, updateHeld, execution_updateJobs]
  refine Option.map_congr fun e _ => ?_
  by_cases hid : id = write.jobId ∧ e.job.isHeldBy write.workerId = true
  · simp [hid.1, hid.2]
  · rw [if_neg hid, if_neg]
    simpa using hid

theorem cancelJob_actsOnHeld {write : JobWrite} (hnames : db.Names write) (now : Instant)
    (hagrees : ∀ id e, db.execution id = some e → e.Agrees) :
    ActsOnHeld db (db.cancelJob write now).1 write fun e => e.cancel now := by
  unfold cancelJob
  by_cases hheld : db.claimHeld write = true
  · rw [if_neg (by simp [hheld])]
    apply ActsOnHeld.of_held hnames hheld
    · intro id he
      simp [updateHeld, he]
    · intro e he hheldJob hrun
      -- a held job's run has not ended, so the guard on its status lets the write through
      have hunended := (hagrees _ e he).status.not_isTerminal
        (.inl (BacktestJob.isHeldBy_iff.mp hheldJob).2)
      simp [updateHeld, he, hheldJob, hrun, hunended, Execution.cancel]
    · intro id e he hid hrun
      simp [updateHeld, he, hid, hrun]
  · rw [if_pos (by simp [hheld])]
    exact .of_not_held hheld _

@[simp] theorem execution_addMilestone (db : Database F) (runId : RunId)
    (milestone : BacktestMilestoneWrite) (id : JobId) :
    (db.addMilestone runId milestone).execution id = (db.execution id).map fun e =>
      { e with
        milestones := if e.job.runId = runId then withMilestone e.milestones
            { milestone with runId := runId, sequence := e.milestones.length + 1 }
          else e.milestones } := by
  unfold addMilestone
  rw [execution_createMilestone]
  refine Option.map_congr fun e he => ?_
  by_cases hrun : e.job.runId = runId
  · have hrows := (execution_eq_some_iff.mp he).2.2.2.1
    simp only [hrun] at hrows
    simp only [hrun, if_true, hrows]
  · simp only [hrun, if_false]

theorem updateProgress_actsOnHeld {write : BacktestProgressWrite}
    (hnames : db.Names write.toJobWrite) (now : Instant) :
    ActsOnHeld db (db.updateProgress write now).1 write.toJobWrite fun e =>
      e.report write now := by
  unfold updateProgress
  by_cases hheld : db.claimHeld write.toJobWrite = true
  · rw [if_neg (by simp [hheld])]
    apply ActsOnHeld.of_held hnames hheld
    · intro id he
      cases write.milestone <;> cases write.status <;> simp [updateHeld, he]
    · intro e he hheldJob hrun
      cases hmilestone : write.milestone <;> cases hstatus : write.status <;>
        simp [updateHeld, he, hheldJob, hrun, Execution.report, hmilestone, hstatus]
    · intro id e he hid hrun
      cases write.milestone <;> cases write.status <;> simp [updateHeld, he, hid, hrun]
  · rw [if_pos (by simp [hheld])]
    exact .of_not_held hheld _

theorem persistResult_actsOnHeld {write : BacktestResultWrite F}
    (hnames : db.Names write.toJobWrite) (now : Instant) :
    ActsOnHeld db (db.persistResult write now).1 write.toJobWrite fun e =>
      e.complete write now := by
  unfold persistResult
  by_cases hheld : db.claimHeld write.toJobWrite = true
  · rw [if_neg (by simp [hheld])]
    apply ActsOnHeld.of_held hnames hheld
    · intro id he
      simp [updateHeld, he]
    · intro e he hheldJob hrun
      simp [updateHeld, he, hheldJob, hrun, Execution.complete]
    · intro id e he hid hrun
      simp [updateHeld, he, hid, hrun]
  · rw [if_pos (by simp [hheld])]
    exact .of_not_held hheld _

theorem failJob_actsOnHeld {write : BacktestFailureWrite}
    (hnames : db.Names write.toJobWrite) (now : Instant) :
    ActsOnHeld db (db.failJob write now).1 write.toJobWrite fun e =>
      { e with job := e.job.fail write.message, run := e.run.fail write now } := by
  unfold failJob
  by_cases hheld : db.claimHeld write.toJobWrite = true
  · rw [if_neg (by simp [hheld])]
    apply ActsOnHeld.of_held hnames hheld
    · intro id he
      simp [updateHeld, he]
    · intro e he hheldJob hrun
      simp [updateHeld, he, hheldJob, hrun]
    · intro id e he hid hrun
      simp [updateHeld, he, hid, hrun]
  · rw [if_pos (by simp [hheld])]
    exact .of_not_held hheld _

theorem releaseClaim_actsOnHeld {write : JobWrite} (hnames : db.Names write) (now : Instant)
    (hagrees : ∀ id e, db.execution id = some e → e.Agrees) :
    ActsOnHeld db (db.releaseClaim write now).1 write fun e =>
      if e.job.cancelRequestedAt = none then e.requeue now "Released by a worker shutting down"
      else e := by
  have hguard : ((db.jobs.get? write.jobId).any fun job =>
      job.isHeldBy write.workerId && job.cancelRequestedAt.isNone) = true ↔
      ∃ job, db.jobs.get? write.jobId = some job ∧ job.isHeldBy write.workerId = true
        ∧ job.cancelRequestedAt = none := by
    cases db.jobs.get? write.jobId <;> simp
  unfold releaseClaim
  by_cases hheld : ∃ job, db.jobs.get? write.jobId = some job
      ∧ job.isHeldBy write.workerId = true ∧ job.cancelRequestedAt = none
  · obtain ⟨job, hjob, hheldJob, hcancel⟩ := hheld
    rw [if_neg (by simp [hguard.mpr ⟨job, hjob, hheldJob, hcancel⟩])]
    apply ActsOnHeld.of_held hnames (claimHeld_iff.mpr ⟨job, hjob, hheldJob⟩)
    · intro id he
      simp [he]
    · intro e he _ hrun
      have heq : e.job = job := Option.some.inj ((jobs_of_execution he).symm.trans hjob)
      have hexecuting := (hagrees _ e he).status.isExecuting
        (heq ▸ (BacktestJob.isHeldBy_iff.mp hheldJob).2)
      simp [he, heq ▸ hheldJob, heq ▸ hcancel, hrun, hexecuting, Execution.requeue]
    · intro id e he hid hrun
      simp [he, hid, hrun]
  · rw [if_pos (by rw [Bool.not_eq_true', Bool.eq_false_iff]; exact fun h => hheld (hguard.mp h))]
    intro id
    cases he : db.execution id with
    | none => rfl
    | some e =>
      rw [Option.map_some]
      split
      · next h =>
        refine (congrArg some (if_neg fun hcancel => hheld ⟨e.job, ?_, h.2, hcancel⟩)).symm
        rw [← h.1]
        exact jobs_of_execution he
      · rfl

end Held

/-! ### The recovery -/

section Recovery

variable {db : Database F} (skip : JobId → Bool) (now : Instant)

/-- A run is among those of the jobs that meet a condition when its own job does. -/
theorem mem_runIdsWhere {p : JobId → BacktestJob → Bool} {id : JobId} {e : Execution F}
    (he : db.execution id = some e) : e.job.runId ∈ db.runIdsWhere p ↔ p id e.job = true := by
  unfold runIdsWhere
  constructor
  · intro h
    obtain ⟨⟨id', job⟩, hmem, hrun⟩ := List.mem_map.mp h
    obtain ⟨hentry, hp⟩ := List.mem_filter.mp hmem
    have hjob := OrderedMap.mem_entries_iff.mp hentry
    obtain rfl : id = id' := id_eq_of_runId_eq he hjob hrun.symm
    obtain rfl : e.job = job := Option.some.inj ((jobs_of_execution he).symm.trans hjob)
    exact hp
  · intro hp
    have hentry := OrderedMap.mem_entries_iff.mpr (jobs_of_execution he)
    exact List.mem_map.mpr ⟨(id, e.job), List.mem_filter.mpr ⟨hentry, hp⟩, rfl⟩

theorem execution_cancelStaleJobs (id : JobId) :
    (db.cancelStaleJobs skip now).execution id = (db.execution id).map fun e =>
      if db.isStaleCancelled skip now id e.job then e.cancel now else e := by
  simp only [cancelStaleJobs, execution_updateRuns, execution_updateProgressRows,
    execution_updateJobs, Option.map_map]
  refine Option.map_congr fun e he => ?_
  have hmem := mem_runIdsWhere (p := db.isStaleCancelled skip now) he
  by_cases hp : db.isStaleCancelled skip now id e.job = true
  · simp [hp, hmem.mpr hp, Execution.cancel]
  · simp [hp, mt hmem.mp hp]

theorem execution_requeueStaleJobs (retryBackoffMs : ℕ) (id : JobId) :
    (db.requeueStaleJobs skip now retryBackoffMs).execution id = (db.execution id).map fun e =>
      if db.isStale skip now id e.job then e.requeue (now + retryBackoffMs)
        "Lease expired before the worker reported progress" else e := by
  simp only [requeueStaleJobs, execution_updateRuns, execution_updateProgressRows,
    execution_deleteMilestones, execution_updateJobs, Option.map_map]
  refine Option.map_congr fun e he => ?_
  have hmem := mem_runIdsWhere (p := db.isStale skip now) he
  by_cases hp : db.isStale skip now id e.job = true
  · simp [hp, hmem.mpr hp, Execution.requeue]
  · simp [hp, mt hmem.mp hp]

theorem execution_abandonStaleJobs (id : JobId) :
    (db.abandonStaleJobs skip now).execution id = (db.execution id).map fun e =>
      if db.isExhausted skip now id e.job then
        { e with job := e.job.abandon, run := e.run.abandon now }
      else e := by
  simp only [abandonStaleJobs, execution_updateRuns, execution_updateJobs, Option.map_map]
  refine Option.map_congr fun e he => ?_
  have hmem := mem_runIdsWhere (p := db.isExhausted skip now) he
  by_cases hp : db.isExhausted skip now id e.job = true
  · simp [hp, hmem.mpr hp]
  · simp [hp, mt hmem.mp hp]

end Recovery

/-! ### Claiming -/

section Claim

variable {db : Database F} {deployment : Deployment} {locks : ClaimLocks} {now : Instant}

/-- What a claim knows of the candidate it settles on. -/
structure Admissible (db : Database F) (deployment : Deployment) (now : Instant)
    (candidate : ClaimCandidate) : Prop where
  job : ∃ job, db.jobs.get? candidate.id = some job ∧ job.runId = candidate.runId
    ∧ job.isClaimable now = true ∧ db.ownerOf job = some candidate.userId
  ownerRunning : candidate.ownerRunning = db.executingOf now candidate.userId
  limit : ∃ limit, (deployment.owner candidate.userId).bind Owner.maxConcurrentRuns = some limit
    ∧ withinLimit limit (candidate.ownerRunning + 1) = true

variable {candidate : ClaimCandidate}

theorem mem_claimCandidates (h : candidate ∈ db.claimCandidates now) :
    (∃ job, db.jobs.get? candidate.id = some job ∧ job.runId = candidate.runId
      ∧ job.isClaimable now = true ∧ db.ownerOf job = some candidate.userId)
    ∧ candidate.ownerRunning = db.executingOf now candidate.userId := by
  unfold claimCandidates at h
  have hmem := (List.perm_insertionSort _ _).mem_iff.mp (List.mem_of_mem_take h)
  obtain ⟨⟨id, job⟩, hentry, heq⟩ := List.mem_filterMap.mp hmem
  split at heq
  · next hclaimable =>
    obtain ⟨userId, howner, rfl⟩ := Option.map_eq_some_iff.mp heq
    exact ⟨⟨job, OrderedMap.mem_entries_iff.mp hentry, rfl, hclaimable, howner⟩, rfl⟩
  · cases heq

theorem chooseCandidate_spec {candidates : List ClaimCandidate} {passedOver : List UserId}
    (h : db.chooseCandidate deployment locks now candidates passedOver = some candidate) :
    candidate ∈ candidates ∧ ∃ limit,
      (deployment.owner candidate.userId).bind Owner.maxConcurrentRuns = some limit
      ∧ withinLimit limit (candidate.ownerRunning + 1) = true := by
  induction candidates generalizing passedOver with
  | nil => cases h
  | cons c candidates ih =>
    have hlater : ∀ passedOver', db.chooseCandidate deployment locks now candidates passedOver'
        = some candidate → candidate ∈ c :: candidates ∧ ∃ limit,
          (deployment.owner candidate.userId).bind Owner.maxConcurrentRuns = some limit
          ∧ withinLimit limit (candidate.ownerRunning + 1) = true := fun _ h' =>
      ⟨List.mem_cons_of_mem _ (ih h').1, (ih h').2⟩
    unfold chooseCandidate at h
    split at h
    · exact hlater _ h
    · split at h
      · exact hlater _ h
      · split at h
        · exact hlater _ h
        · next limit hlimit =>
          split at h
          · exact hlater _ h
          · next hwithin =>
            split at h
            · exact hlater _ h
            · obtain rfl := Option.some.inj h
              exact ⟨List.mem_cons_self, limit, hlimit, by simpa using hwithin⟩

/-- **What a claim does.** It claims nothing, or it takes an admissible candidate while the
deployment has room. -/
theorem claimNextJob_spec (db : Database F) (deployment : Deployment) (locks : ClaimLocks)
    (workerId : WorkerId) (now : Instant) (leaseMs : ℕ) :
    db.claimNextJob deployment locks workerId now leaseMs = (db, none)
    ∨ ∃ candidate, db.Admissible deployment now candidate
      ∧ (∀ max ∈ deployment.globalMaxRunning, db.executing now < max)
      ∧ (db.claimNextJob deployment locks workerId now leaseMs).1
        = db.takeCandidate candidate workerId now leaseMs
      ∧ ∀ claimed ∈ (db.claimNextJob deployment locks workerId now leaseMs).2,
        claimed.jobId = candidate.id ∧ claimed.runId = candidate.runId := by
  unfold claimNextJob
  split
  · exact .inl rfl
  · next hroom =>
    split
    · exact .inl rfl
    · next candidate hchoose =>
      right
      obtain ⟨hmem, hlimit⟩ := chooseCandidate_spec hchoose
      obtain ⟨hjob, hrunning⟩ := mem_claimCandidates hmem
      refine ⟨candidate, ⟨hjob, hrunning, hlimit⟩, ?_, rfl, ?_⟩
      · rintro max hmax
        by_contra hle
        refine hroom ?_
        rw [hmax, Option.any_some]
        exact decide_eq_true (Nat.le_of_not_lt hle)
      · intro claimed hclaimed
        obtain ⟨run, -, rfl⟩ := Option.map_eq_some_iff.mp hclaimed
        exact ⟨rfl, rfl⟩

theorem execution_takeCandidate {job : BacktestJob}
    (hjob : db.jobs.get? candidate.id = some job) (hrun : job.runId = candidate.runId)
    (workerId : WorkerId) (leaseMs : ℕ) (id : JobId) :
    (db.takeCandidate candidate workerId now leaseMs).execution id
      = (db.execution id).map fun e =>
        if id = candidate.id then
          { e with job := e.job.take workerId now leaseMs, run := e.run.start now }
        else e := by
  simp only [takeCandidate, execution_updateRuns, execution_updateJobs, Option.map_map]
  refine Option.map_congr fun e he => ?_
  by_cases hid : id = candidate.id
  · subst hid
    have heq : e.job = job := Option.some.inj ((jobs_of_execution he).symm.trans hjob)
    simp [heq, hrun]
  · have hother : e.job.runId ≠ candidate.runId := fun h =>
      hid (id_eq_of_runId_eq he hjob (h.trans hrun.symm))
    simp [hid, hother]

end Claim

/-! ### The API -/

theorem findRun_spec {userId : UserId} {runId : RunId} {id : JobId}
    {job : BacktestJob} {run : BacktestRun} (h : db.findRun userId runId = some (id, job, run)) :
    db.jobs.get? id = some job ∧ db.runs.get? runId = some run ∧ job.runId = runId := by
  unfold findRun at h
  obtain ⟨⟨id', job'⟩, hfind, hrest⟩ := Option.bind_eq_some_iff.mp h
  obtain ⟨run', hrun, heq⟩ := Option.map_eq_some_iff.mp hrest
  obtain ⟨rfl, hjobRun⟩ := Prod.mk.inj heq
  obtain ⟨rfl, rfl⟩ := Prod.mk.inj hjobRun
  refine ⟨OrderedMap.mem_entries_iff.mp (List.mem_of_find?_eq_some hfind), ?_, ?_⟩
  · exact (Option.filter_eq_some_iff.mp hrun).1
  · simpa using List.find?_some hfind

theorem execution_cancelQueuedRun {jobId : JobId} {job : BacktestJob}
    (hjob : db.jobs.get? jobId = some job) (now : Instant) (id : JobId) :
    (db.cancelQueuedRun jobId job.runId now).execution id = (db.execution id).map fun e =>
      if id = jobId then
        { e with
          job := e.job.cancelQueued now
          run := e.run.cancel now
          progress := e.progress.map BacktestRunProgress.cancel }
      else e := by
  simp only [cancelQueuedRun, execution_updateRuns, execution_updateProgressRows,
    execution_updateJobs, Option.map_map]
  refine Option.map_congr fun e he => ?_
  by_cases hid : id = jobId
  · subst hid
    have heq : e.job = job := Option.some.inj ((jobs_of_execution he).symm.trans hjob)
    simp [heq]
  · have hother : e.job.runId ≠ job.runId := fun h => hid (id_eq_of_runId_eq he hjob h)
    simp [hid, hother]

end Database
end FactorSage.Jobs
