import FactorSage.Contracts.Entitlements
import FactorSage.Jobs.Rows
import Mathlib.Data.Prod.Lex

/-!
# The job repository

The transactions of the durable queue: those of the worker's repository, and the API's `submitRun`
and `cancelRun`. Each takes the tables to the tables and its answer. `now` is the caller's clock.

What a transaction reads besides the tables is a parameter of it: the users' plans
(`Deployment.owner`), which owner locks a claim gets at once (`ClaimLocks.tryLock`) and which rows
other transactions hold (`ClaimLocks.rowFree`, and `skip` in the recovery).
-/

namespace FactorSage.Jobs

def CANCELLED_MESSAGE : String := "Cancelled by its owner"

def ABANDONED_FAILURE_MESSAGE : String :=
  "The backtest stopped unexpectedly and could not be recovered. Run it again to retry."

def CLAIM_CANDIDATE_BATCH : ℕ := 20

/-! ### The columns each transaction writes -/

namespace BacktestJob

def take (job : BacktestJob) (workerId : WorkerId) (now : Instant) (leaseMs : ℕ) : BacktestJob :=
  { job with
    status := .claimed
    claimedBy := some workerId
    claimedAt := some now
    heartbeatAt := some now
    leaseExpiresAt := some (now + leaseMs)
    attempts := job.attempts + 1 }

def renew (job : BacktestJob) (now : Instant) (leaseMs : ℕ) : BacktestJob :=
  { job with heartbeatAt := some now, leaseExpiresAt := some (now + leaseMs) }

def requeue (job : BacktestJob) (availableAt : Instant) (reason : String) : BacktestJob :=
  { job with
    status := .queued
    availableAt := availableAt
    claimedBy := none
    claimedAt := none
    leaseExpiresAt := none
    heartbeatAt := none
    lastError := some reason }

def cancel (job : BacktestJob) : BacktestJob :=
  { job with
    status := .cancelled
    claimedBy := none
    leaseExpiresAt := none
    heartbeatAt := none
    lastError := some CANCELLED_MESSAGE }

def abandon (job : BacktestJob) : BacktestJob :=
  { job with
    status := .failed
    claimedBy := none
    leaseExpiresAt := none
    lastError := some ABANDONED_FAILURE_MESSAGE }

def complete (job : BacktestJob) (now : Instant) : BacktestJob :=
  { job with status := .completed, heartbeatAt := some now, leaseExpiresAt := none }

def fail (job : BacktestJob) (message : String) : BacktestJob :=
  { job with status := .failed, leaseExpiresAt := none, lastError := some message }

/-- The owner cancels a run that no worker has taken. -/
def cancelQueued (job : BacktestJob) (now : Instant) : BacktestJob :=
  { job with
    status := .cancelled
    cancelRequestedAt := some now
    lastError := some CANCELLED_MESSAGE }

/-- The owner asks the worker to stop; the first request stands. -/
def requestCancel (job : BacktestJob) (now : Instant) : BacktestJob :=
  { job with cancelRequestedAt := some (job.cancelRequestedAt.getD now) }

section

variable (job : BacktestJob)

@[simp] theorem runId_take (workerId : WorkerId) (now : Instant) (leaseMs : ℕ) :
    (job.take workerId now leaseMs).runId = job.runId := rfl

@[simp] theorem runId_renew (now : Instant) (leaseMs : ℕ) :
    (job.renew now leaseMs).runId = job.runId := rfl

@[simp] theorem runId_requeue (availableAt : Instant) (reason : String) :
    (job.requeue availableAt reason).runId = job.runId := rfl

@[simp] theorem runId_cancel : job.cancel.runId = job.runId := rfl

@[simp] theorem runId_abandon : job.abandon.runId = job.runId := rfl

@[simp] theorem runId_complete (now : Instant) : (job.complete now).runId = job.runId := rfl

@[simp] theorem runId_fail (message : String) : (job.fail message).runId = job.runId := rfl

@[simp] theorem runId_cancelQueued (now : Instant) :
    (job.cancelQueued now).runId = job.runId := rfl

@[simp] theorem runId_requestCancel (now : Instant) :
    (job.requestCancel now).runId = job.runId := rfl

end

end BacktestJob

namespace BacktestRun

def start (run : BacktestRun) (now : Instant) : BacktestRun :=
  { run with status := .preparingData, startedAt := some (run.startedAt.getD now) }

def requeue (run : BacktestRun) : BacktestRun := { run with status := .queued }

def cancel (run : BacktestRun) (now : Instant) : BacktestRun :=
  { run with status := .cancelled, completedAt := some now }

def abandon (run : BacktestRun) (now : Instant) : BacktestRun :=
  { run with
    status := .failed
    failureCode := some "ABANDONED"
    failureMessage := some ABANDONED_FAILURE_MESSAGE
    completedAt := some now }

def complete (run : BacktestRun) (now : Instant) : BacktestRun :=
  { run with
    status := .completed
    completedAt := some now
    failureCode := none
    failureMessage := none }

end BacktestRun

namespace BacktestRunProgress

def requeue (progress : BacktestRunProgress) : BacktestRunProgress where
  percent := 0
  message := "Queued"
  simulatedThrough := none
  snapshot := none
  sequence := progress.sequence + 1

def cancel (progress : BacktestRunProgress) : BacktestRunProgress :=
  { progress with
    message := CANCELLED_MESSAGE
    snapshot := none
    sequence := progress.sequence + 1 }

end BacktestRunProgress

/-! ### Claiming -/

/-- What the deployment is configured with, and its users. -/
structure Deployment where
  globalMaxRunning : Option ℕ
  queueMaxQueued : ℕ
  owner : UserId → Option Owner

/-- The locks a claim finds free: advisory owner locks, and job rows. -/
structure ClaimLocks where
  tryLock : UserId → Bool
  rowFree : JobId → Bool

/-- A claimed job whose lease has not expired. -/
def BacktestJob.isLive (now : Instant) (job : BacktestJob) : Bool :=
  job.status = .claimed && job.leaseExpiresAt.all fun expiresAt => now < expiresAt

def BacktestJob.isClaimable (now : Instant) (job : BacktestJob) : Bool :=
  job.status = .queued && job.availableAt ≤ now && job.attempts < job.maxAttempts
    && job.cancelRequestedAt.isNone

structure ClaimCandidate where
  id : JobId
  runId : RunId
  attempts : ℕ
  userId : UserId
  ownerRunning : ℕ
  availableAt : Instant
  createdAt : Instant

/-- `ORDER BY` the owner's executing runs, then first in, first out. -/
def ClaimCandidate.orderKey (c : ClaimCandidate) : ℕ ×ₗ ℕ ×ₗ ℕ ×ₗ ℕ :=
  toLex (c.ownerRunning, toLex (c.availableAt, toLex (c.createdAt, c.id)))

/-- What `claimNextJob` hands its worker. -/
structure ClaimedBacktestJob where
  jobId : JobId
  runId : RunId
  attempt : ℕ
  actorUserId : UserId
  snapshot : String

variable {F : Type}

namespace Database

def ownerOf (db : Database F) (job : BacktestJob) : Option UserId :=
  (db.runs.get? job.runId).map BacktestRun.userId

/-- The jobs executing now, deployment-wide. -/
def executing (db : Database F) (now : Instant) : ℕ := db.jobs.countWhere (BacktestJob.isLive now)

/-- The jobs executing now of one owner. -/
def executingOf (db : Database F) (now : Instant) (userId : UserId) : ℕ :=
  db.jobs.countWhere fun job => job.isLive now && db.ownerOf job = some userId

def claimCandidates (db : Database F) (now : Instant) : List ClaimCandidate :=
  let queued := db.jobs.entries.filterMap fun e =>
    if e.2.isClaimable now then (db.ownerOf e.2).map fun userId =>
      { id := e.1
        runId := e.2.runId
        attempts := e.2.attempts
        userId := userId
        ownerRunning := db.executingOf now userId
        availableAt := e.2.availableAt
        createdAt := e.2.createdAt }
    else none
  (queued.insertionSort fun a b => a.orderKey ≤ b.orderKey).take CLAIM_CANDIDATE_BATCH

/-- The first candidate whose owner has room and whose row is free. An owner is passed over as a
whole: at capacity, locked elsewhere, unknown. -/
def chooseCandidate (db : Database F) (deployment : Deployment) (locks : ClaimLocks)
    (now : Instant) : List ClaimCandidate → List UserId → Option ClaimCandidate
  | [], _ => none
  | candidate :: candidates, passedOver =>
    if candidate.userId ∈ passedOver then
      chooseCandidate db deployment locks now candidates passedOver
    else if !locks.tryLock candidate.userId then
      chooseCandidate db deployment locks now candidates (candidate.userId :: passedOver)
    else match (deployment.owner candidate.userId).bind Owner.maxConcurrentRuns with
      | none => chooseCandidate db deployment locks now candidates (candidate.userId :: passedOver)
      | some maxConcurrentRuns =>
        if !withinLimit maxConcurrentRuns (candidate.ownerRunning + 1) then
          chooseCandidate db deployment locks now candidates (candidate.userId :: passedOver)
        else if !(locks.rowFree candidate.id
            && (db.jobs.get? candidate.id).any (BacktestJob.isClaimable now)) then
          chooseCandidate db deployment locks now candidates passedOver
        else some candidate

def takeCandidate (db : Database F) (candidate : ClaimCandidate) (workerId : WorkerId)
    (now : Instant) (leaseMs : ℕ) : Database F :=
  (db.updateJobs (fun id _ => id = candidate.id) (fun job => job.take workerId now leaseMs)
    fun job => job.runId_take workerId now leaseMs).updateRuns (fun id _ => id = candidate.runId) fun run => run.start now

def claimNextJob (db : Database F) (deployment : Deployment) (locks : ClaimLocks)
    (workerId : WorkerId) (now : Instant) (leaseMs : ℕ) :
    Database F × Option ClaimedBacktestJob :=
  if deployment.globalMaxRunning.any fun max => max ≤ db.executing now then (db, none)
  else match db.chooseCandidate deployment locks now (db.claimCandidates now) [] with
    | none => (db, none)
    | some candidate =>
      let taken := db.takeCandidate candidate workerId now leaseMs
      (taken, (taken.runs.get? candidate.runId).map fun run =>
        { jobId := candidate.id
          runId := candidate.runId
          attempt := candidate.attempts + 1
          actorUserId := run.userId
          snapshot := run.snapshot })

end Database

/-! ### The writes of a worker that claimed -/

/-- Whose write it is, and of which job and run. -/
structure JobWrite where
  jobId : JobId
  runId : RunId
  workerId : WorkerId
  deriving DecidableEq

/-- The guard of every write after the claim. -/
def BacktestJob.isHeldBy (job : BacktestJob) (workerId : WorkerId) : Bool :=
  job.claimedBy = some workerId && job.status = .claimed

inductive LeaseRenewal
  | held
  | lost
  | cancelRequested
  deriving DecidableEq, Repr

structure BacktestProgressWrite extends JobWrite where
  leaseMs : ℕ
  /-- Set only when the phase changes. -/
  status : Option {status : BacktestRunStatus // status.IsExecuting}
  percent : ℕ
  message : String
  simulatedThrough : Option LocalDate
  snapshot : Option String
  milestone : Option BacktestMilestoneWrite

structure BacktestResultWrite (F : Type) extends JobWrite where
  result : BacktestResult F
  etfConditions : Option (List String)

structure BacktestFailureWrite extends JobWrite where
  code : String
  message : String
  phase : Option String
  detail : String

def BacktestRun.fail (run : BacktestRun) (write : BacktestFailureWrite) (now : Instant) :
    BacktestRun :=
  { run with
    status := .failed
    completedAt := some now
    failureCode := some write.code
    failureMessage := some write.message
    failurePhase := write.phase
    failureDetail := some write.detail }

/-- A checkpoint; what it does not carry stays. -/
def BacktestRunProgress.checkpoint (progress : BacktestRunProgress)
    (write : BacktestProgressWrite) : BacktestRunProgress where
  percent := write.percent
  message := write.message
  simulatedThrough := write.simulatedThrough <|> progress.simulatedThrough
  snapshot := write.snapshot <|> progress.snapshot
  sequence := progress.sequence + 1

def BacktestProgressWrite.firstProgress (write : BacktestProgressWrite) : BacktestRunProgress where
  percent := write.percent
  message := write.message
  simulatedThrough := write.simulatedThrough
  snapshot := write.snapshot
  sequence := 1

def BacktestRunProgress.complete (progress : BacktestRunProgress)
    (lastSimulatedDate : LocalDate) : BacktestRunProgress :=
  { progress with
    percent := 100
    message := "Backtest complete"
    simulatedThrough := some lastSimulatedDate
    sequence := progress.sequence + 1 }

def completeProgress (lastSimulatedDate : LocalDate) : BacktestRunProgress where
  percent := 100
  message := "Backtest complete"
  simulatedThrough := some lastSimulatedDate
  snapshot := none
  sequence := 1

namespace Database

/-- Whether the guarded update of the job row matches it. -/
def claimHeld (db : Database F) (write : JobWrite) : Bool :=
  (db.jobs.get? write.jobId).any fun job => job.isHeldBy write.workerId

/-- The guarded update of the job row. -/
def updateHeld (db : Database F) (write : JobWrite) (f : BacktestJob → BacktestJob)
    (hf : ∀ job, (f job).runId = job.runId) : Database F :=
  db.updateJobs (fun id job => id = write.jobId && job.isHeldBy write.workerId) f hf

def heartbeat (db : Database F) (write : JobWrite) (now : Instant) (leaseMs : ℕ) :
    Database F × LeaseRenewal :=
  (db.updateHeld write (fun job => job.renew now leaseMs)
    fun job => job.runId_renew now leaseMs,
    match db.jobs.get? write.jobId with
    | none => .lost
    | some job =>
      if job.isHeldBy write.workerId then
        if job.cancelRequestedAt.isNone then .held else .cancelRequested
      else .lost)

def cancelJob (db : Database F) (write : JobWrite) (now : Instant) : Database F × Bool :=
  if !db.claimHeld write then (db, false)
  else
    (((db.updateHeld write (fun job => job.cancel) BacktestJob.runId_cancel).updateRuns
        (fun id run => id = write.runId && !run.status.IsTerminal) fun run => run.cancel now)
      |>.updateProgressRows (fun id => id = write.runId) fun progress => progress.cancel, true)

/-- The run's next milestone is numbered after those it has. -/
def addMilestone (db : Database F) (runId : RunId) (milestone : BacktestMilestoneWrite) :
    Database F :=
  db.createMilestone
    { milestone with
      runId := runId
      sequence := (db.milestones.filter fun m => m.runId = runId).length + 1 }

def updateProgress (db : Database F) (write : BacktestProgressWrite) (now : Instant) :
    Database F × Bool :=
  if !db.claimHeld write.toJobWrite then (db, false)
  else
    let renewed := db.updateHeld write.toJobWrite (fun job => job.renew now write.leaseMs)
      fun job => job.runId_renew now write.leaseMs
    let reported := renewed.upsertProgress write.runId write.firstProgress
      fun progress => progress.checkpoint write
    let counted := match write.milestone with
      | none => reported
      | some milestone => reported.addMilestone write.runId milestone
    (match write.status with
      | none => counted
      | some status => counted.updateRuns (fun id _ => id = write.runId)
          fun run => { run with status := status.val }, true)

def persistResult (db : Database F) (write : BacktestResultWrite F) (now : Instant) :
    Database F × Bool :=
  if !db.claimHeld write.toJobWrite then (db, false)
  else
    let completed := db.updateHeld write.toJobWrite (fun job => job.complete now)
      fun job => job.runId_complete now
    let stored := completed.replaceResult write.runId ⟨write.result, write.etfConditions⟩
    let reported := stored.upsertProgress write.runId
      (completeProgress write.result.summary.lastSimulatedDate)
      fun progress => progress.complete write.result.summary.lastSimulatedDate
    (reported.updateRuns (fun id _ => id = write.runId) fun run => run.complete now, true)

def failJob (db : Database F) (write : BacktestFailureWrite) (now : Instant) :
    Database F × Bool :=
  if !db.claimHeld write.toJobWrite then (db, false)
  else
    ((db.updateHeld write.toJobWrite (fun job => job.fail write.message) fun job =>
        job.runId_fail write.message).updateRuns
      (fun id _ => id = write.runId) fun run => run.fail write now, true)

/-- The release proper: a claim whose cancellation was requested meanwhile is not released. -/
def releaseClaim (db : Database F) (write : JobWrite) (now : Instant) : Database F × Bool :=
  if !((db.jobs.get? write.jobId).any fun job =>
      job.isHeldBy write.workerId && job.cancelRequestedAt.isNone) then (db, false)
  else
    let released := db.updateJobs
      (fun id job => id = write.jobId && (job.isHeldBy write.workerId
        && job.cancelRequestedAt.isNone))
      (fun job => job.requeue now "Released by a worker shutting down") fun job => job.runId_requeue _ _
    let requeued := released.updateRuns
      (fun id run => id = write.runId && run.status.IsExecuting) fun run => run.requeue
    ((requeued.deleteMilestones fun id => id = write.runId).updateProgressRows
      (fun id => id = write.runId) fun progress => progress.requeue, true)

/-- `cancelRequested` is what a read before the transaction answered. -/
def releaseJob (db : Database F) (write : JobWrite) (cancelRequested : Bool) (now : Instant) :
    Database F × Bool :=
  if cancelRequested then db.cancelJob write now else db.releaseClaim write now

/-! ### Recovery -/

/-- The run a job names has not ended. -/
def runUnended (db : Database F) (job : BacktestJob) : Bool :=
  (db.runs.get? job.runId).any fun run => !run.status.IsTerminal

/-- The runs of the jobs that meet a condition: what an `UPDATE … RETURNING "runId"` returns. -/
def runIdsWhere (db : Database F) (p : JobId → BacktestJob → Bool) : List RunId :=
  (db.jobs.entries.filter fun e => p e.1 e.2).map fun e => e.2.runId

end Database

structure StaleJobRecovery where
  requeued : ℕ
  abandoned : ℕ
  cancelled : ℕ

def BacktestJob.leaseExpired (now : Instant) (job : BacktestJob) : Bool :=
  job.leaseExpiresAt.any fun expiresAt => expiresAt < now

namespace Database

def isStaleCancelled (db : Database F) (skip : JobId → Bool) (now : Instant) (id : JobId)
    (job : BacktestJob) : Bool :=
  job.status = .claimed && job.leaseExpired now && job.cancelRequestedAt.isSome
    && db.runUnended job && !skip id

/-- A worker died after its owner asked to stop the run: it is cancelled. -/
def cancelStaleJobs (db : Database F) (skip : JobId → Bool) (now : Instant) : Database F :=
  let closed := db.runIdsWhere (db.isStaleCancelled skip now)
  ((db.updateJobs (db.isStaleCancelled skip now) (fun job => job.cancel) BacktestJob.runId_cancel)
    |>.updateProgressRows (fun id => id ∈ closed) fun progress => progress.cancel)
    |>.updateRuns (fun id _ => id ∈ closed) fun run => run.cancel now

def isStale (db : Database F) (skip : JobId → Bool) (now : Instant) (id : JobId)
    (job : BacktestJob) : Bool :=
  job.status = .claimed && job.leaseExpired now && job.attempts < job.maxAttempts
    && job.cancelRequestedAt.isNone && db.runUnended job && !skip id

/-- A worker died: its run returns to the queue, without the dead attempt's milestones. -/
def requeueStaleJobs (db : Database F) (skip : JobId → Bool) (now : Instant)
    (retryBackoffMs : ℕ) : Database F :=
  let released := db.runIdsWhere (db.isStale skip now)
  (((db.updateJobs (db.isStale skip now) (fun job => job.requeue (now + retryBackoffMs)
      "Lease expired before the worker reported progress") fun job => job.runId_requeue _ _)
    |>.deleteMilestones fun id => id ∈ released)
    |>.updateProgressRows (fun id => id ∈ released) fun progress => progress.requeue)
    |>.updateRuns (fun id _ => id ∈ released) fun run => run.requeue

def isExhausted (db : Database F) (skip : JobId → Bool) (now : Instant) (id : JobId)
    (job : BacktestJob) : Bool :=
  job.maxAttempts ≤ job.attempts && job.cancelRequestedAt.isNone && db.runUnended job
    && (job.status = .claimed && job.leaseExpired now || job.status = .queued) && !skip id

/-- A run with no attempt left is failed. -/
def abandonStaleJobs (db : Database F) (skip : JobId → Bool) (now : Instant) : Database F :=
  let closed := db.runIdsWhere (db.isExhausted skip now)
  (db.updateJobs (db.isExhausted skip now) (fun job => job.abandon) BacktestJob.runId_abandon).updateRuns
    (fun id _ => id ∈ closed) fun run => run.abandon now

/-- Three statements, each committed on its own. -/
def recoverStaleJobs (db : Database F) (skip : JobId → Bool) (now : Instant)
    (retryBackoffMs : ℕ) : Database F × StaleJobRecovery :=
  let cancelled := db.cancelStaleJobs skip now
  let requeued := cancelled.requeueStaleJobs skip now retryBackoffMs
  (requeued.abandonStaleJobs skip now,
    { cancelled := (db.runIdsWhere (db.isStaleCancelled skip now)).length
      requeued := (cancelled.runIdsWhere (cancelled.isStale skip now)).length
      abandoned := (requeued.runIdsWhere (requeued.isExhausted skip now)).length })

/-! ### The API -/

end Database

inductive SubmitError
  /-- The user's entitlements could not be resolved. -/
  | unresolved
  | concurrencyLimit (limit current : ℕ)
  | queueFull (queued : ℕ)

/-- A validated submission, and the ids the store draws for it. -/
structure Submission where
  jobId : JobId
  runId : RunId
  userId : UserId
  snapshot : String
  maxAttempts : ℕ

def Submission.job (s : Submission) (now : Instant) : BacktestJob where
  runId := s.runId
  status := .queued
  availableAt := now
  attempts := 0
  maxAttempts := s.maxAttempts
  claimedBy := none
  claimedAt := none
  leaseExpiresAt := none
  heartbeatAt := none
  lastError := none
  cancelRequestedAt := none
  createdAt := now

def Submission.run (s : Submission) : BacktestRun where
  userId := s.userId
  status := .queued
  snapshot := s.snapshot
  startedAt := none
  completedAt := none
  failureCode := none
  failureMessage := none
  failurePhase := none
  failureDetail := none

def Submission.progress : BacktestRunProgress where
  percent := 0
  message := "Queued"
  simulatedThrough := none
  snapshot := none
  sequence := 0

inductive CancelOutcome
  | alreadyCancelled
  | cancelled
  | requested
  deriving DecidableEq, Repr

inductive CancelError
  | runNotFound
  | notCancellable (status : BacktestRunStatus)
  deriving DecidableEq, Repr

namespace Database

/-- The caller's runs that have not reached a terminal status. -/
def inFlight (db : Database F) (userId : UserId) : ℕ :=
  db.runs.countWhere fun run =>
    run.userId = userId && (run.status = .queued || run.status.IsExecuting)

def submitRun (db : Database F) (deployment : Deployment) (s : Submission) (now : Instant) :
    Except SubmitError (Database F) :=
  match (deployment.owner s.userId).bind Owner.maxConcurrentRuns with
  | none => .error .unresolved
  | some limit =>
    if !withinLimit limit (db.inFlight s.userId + 1) then
      .error (.concurrencyLimit (limit.getD 0) (db.inFlight s.userId))
    else if deployment.queueMaxQueued ≤ db.jobs.countWhere fun job => job.status = .queued then
      .error (.queueFull (db.jobs.countWhere fun job => job.status = .queued))
    else .ok (db.insertRun s.jobId (s.job now) s.run Submission.progress)

/-- The job and the run of a caller's run id. -/
def findRun (db : Database F) (userId : UserId) (runId : RunId) :
    Option (JobId × BacktestJob × BacktestRun) :=
  (db.jobs.entries.find? fun e => e.2.runId = runId).bind fun e =>
    ((db.runs.get? runId).filter fun run => run.userId = userId).map fun run => (e.1, e.2, run)

def cancelQueuedRun (db : Database F) (jobId : JobId) (runId : RunId) (now : Instant) :
    Database F :=
  ((db.updateJobs (fun id _ => id = jobId) (fun job => job.cancelQueued now)
      fun job => job.runId_cancelQueued now)
    |>.updateRuns (fun id _ => id = runId) fun run => run.cancel now)
    |>.updateProgressRows (fun id => id = runId) fun progress => progress.cancel

def cancelRun (db : Database F) (userId : UserId) (runId : RunId) (now : Instant) :
    Except CancelError (Database F × CancelOutcome) :=
  match db.findRun userId runId with
  | none => .error .runNotFound
  | some (jobId, job, run) =>
    if run.status = .cancelled then .ok (db, .alreadyCancelled)
    else if run.status = .completed ∨ run.status = .failed then
      .error (.notCancellable run.status)
    else if job.status = .queued then .ok (db.cancelQueuedRun jobId runId now, .cancelled)
    else .ok (db.updateJobs (fun id _ => id = jobId) (fun job => job.requestCancel now)
      fun job => job.runId_requestCancel now, .requested)

end Database
end FactorSage.Jobs
