import FactorSage.Backtest.Types
import FactorSage.Library.Table

/-!
# The rows of a backtest run

The tables that the durable queue reads and writes: one `BacktestJob` a run, the run itself, its
progress row, its yearly milestones and its stored result. Instants are milliseconds.

`Database` carries the unique key of `BacktestJob.runId`, so two jobs never share a run.
`Database.execution` reads one job together with everything stored about its run; each table write
below has a simp lemma that says what it does to every execution.
-/

namespace FactorSage.Jobs

abbrev JobId := ℕ
abbrev RunId := ℕ
abbrev UserId := ℕ
abbrev WorkerId := ℕ
abbrev Instant := ℕ

inductive BacktestJobStatus
  | queued
  | claimed
  | completed
  | failed
  | cancelled
  deriving DecidableEq, Repr

def BacktestJobStatus.IsTerminal (status : BacktestJobStatus) : Prop :=
  status = .completed ∨ status = .failed ∨ status = .cancelled

instance : DecidablePred BacktestJobStatus.IsTerminal := fun status =>
  inferInstanceAs (Decidable (status = .completed ∨ status = .failed ∨ status = .cancelled))

inductive BacktestRunStatus
  | queued
  | preparingData
  | running
  | finalizing
  | completed
  | failed
  | cancelled
  deriving DecidableEq, Repr

/-- A worker is executing the run. -/
def BacktestRunStatus.IsExecuting (status : BacktestRunStatus) : Prop :=
  status = .preparingData ∨ status = .running ∨ status = .finalizing

instance : DecidablePred BacktestRunStatus.IsExecuting := fun status =>
  inferInstanceAs (Decidable (status = .preparingData ∨ status = .running ∨ status = .finalizing))

def BacktestRunStatus.IsTerminal (status : BacktestRunStatus) : Prop :=
  status = .completed ∨ status = .failed ∨ status = .cancelled

instance : DecidablePred BacktestRunStatus.IsTerminal := fun status =>
  inferInstanceAs (Decidable (status = .completed ∨ status = .failed ∨ status = .cancelled))

/-- The durable queue row of one run. -/
structure BacktestJob where
  runId : RunId
  status : BacktestJobStatus
  availableAt : Instant
  attempts : ℕ
  maxAttempts : ℕ
  claimedBy : Option WorkerId
  claimedAt : Option Instant
  leaseExpiresAt : Option Instant
  heartbeatAt : Option Instant
  lastError : Option String
  cancelRequestedAt : Option Instant
  createdAt : Instant

structure BacktestRun where
  userId : UserId
  status : BacktestRunStatus
  /-- The immutable submission document. -/
  snapshot : String
  startedAt : Option Instant
  completedAt : Option Instant
  failureCode : Option String
  failureMessage : Option String
  failurePhase : Option String
  failureDetail : Option String

structure BacktestRunProgress where
  percent : ℕ
  message : String
  simulatedThrough : Option LocalDate
  snapshot : Option String
  sequence : ℕ

/-- What a completed calendar year leaves behind, besides its place in the order. -/
structure BacktestMilestoneWrite where
  year : ℕ
  simulatedThrough : LocalDate
  percent : ℕ
  completedDays : ℕ
  totalDays : ℕ
  cash : ℚ
  totalValue : ℚ
  investedCapital : ℚ
  portfolioReturnPercent : ℚ
  benchmarkReturnPercent : Option ℚ
  alphaPercent : Option ℚ
  maxDrawdownPercent : ℚ
  tradeCount : ℕ
  openPositions : ℕ

structure BacktestRunMilestone extends BacktestMilestoneWrite where
  runId : RunId
  sequence : ℕ

/-- The summary, equity, trade and position rows of a completed run. -/
structure StoredResult (F : Type) where
  result : BacktestResult F
  etfConditions : Option (List String)

variable {F : Type}

/-- The tables, with the schema's unique key and foreign keys. -/
structure Database (F : Type) where
  jobs : OrderedMap JobId BacktestJob
  runs : OrderedMap RunId BacktestRun
  progress : OrderedMap RunId BacktestRunProgress
  milestones : List BacktestRunMilestone
  results : OrderedMap RunId (StoredResult F)
  runId_unique : ∀ id id' job job', jobs.get? id = some job → jobs.get? id' = some job' →
    job.runId = job'.runId → id = id'
  job_run : ∀ id job, jobs.get? id = some job → (runs.get? job.runId).isSome
  milestone_run : ∀ m ∈ milestones, (runs.get? m.runId).isSome
  result_run : ∀ runId, (results.get? runId).isSome → (runs.get? runId).isSome

/-- One job, and what is stored of its run. -/
structure Execution (F : Type) where
  job : BacktestJob
  run : BacktestRun
  progress : Option BacktestRunProgress
  milestones : List BacktestRunMilestone
  result : Option (StoredResult F)

namespace Database

def empty : Database F where
  jobs := .empty
  runs := .empty
  progress := .empty
  milestones := []
  results := .empty
  runId_unique := fun _ _ _ _ h => by cases h
  job_run := fun _ _ h => by cases h
  milestone_run := fun _ h => by cases h
  result_run := fun _ h => by cases h

/-- What is stored of the run that a job row names. -/
def executionOf (db : Database F) (job : BacktestJob) : Option (Execution F) :=
  (db.runs.get? job.runId).map fun run =>
    { job := job
      run := run
      progress := db.progress.get? job.runId
      milestones := db.milestones.filter fun m => m.runId = job.runId
      result := db.results.get? job.runId }

/-- The job of an id, joined with its run. -/
def execution (db : Database F) (id : JobId) : Option (Execution F) :=
  (db.jobs.get? id).bind db.executionOf

variable {db : Database F} {e : Execution F}

theorem execution_eq_some_iff {id : JobId} :
    db.execution id = some e ↔ db.jobs.get? id = some e.job
      ∧ db.runs.get? e.job.runId = some e.run
      ∧ db.progress.get? e.job.runId = e.progress
      ∧ db.milestones.filter (fun m => m.runId = e.job.runId) = e.milestones
      ∧ db.results.get? e.job.runId = e.result := by
  unfold execution executionOf
  rw [Option.bind_eq_some_iff]
  constructor
  · rintro ⟨job, hjob, h⟩
    obtain ⟨run, hrun, rfl⟩ := Option.map_eq_some_iff.mp h
    exact ⟨hjob, hrun, rfl, rfl, rfl⟩
  · rintro ⟨hjob, hrun, hprogress, hmilestones, hresult⟩
    refine ⟨e.job, hjob, ?_⟩
    rw [hrun, hprogress, hmilestones, hresult]
    rfl

theorem jobs_of_execution {id : JobId}
    (h : db.execution id = some e) : db.jobs.get? id = some e.job :=
  (execution_eq_some_iff.mp h).1

theorem runs_of_execution {id : JobId}
    (h : db.execution id = some e) : db.runs.get? e.job.runId = some e.run :=
  (execution_eq_some_iff.mp h).2.1

/-- A job's run is stored, so every job has its execution. -/
theorem exists_execution (db : Database F) {id : JobId} {job : BacktestJob}
    (h : db.jobs.get? id = some job) : ∃ e, db.execution id = some e ∧ e.job = job := by
  obtain ⟨run, hrun⟩ := Option.isSome_iff_exists.mp (db.job_run id job h)
  refine ⟨{ job := job, run := run, progress := db.progress.get? job.runId
            milestones := db.milestones.filter fun m => m.runId = job.runId
            result := db.results.get? job.runId }, ?_, rfl⟩
  exact execution_eq_some_iff.mpr ⟨h, hrun, rfl, rfl, rfl⟩

/-- Two jobs joined with one run are one job. -/
theorem id_eq_of_runId_eq {id id' : JobId} {job : BacktestJob}
    (he : db.execution id = some e) (hjob : db.jobs.get? id' = some job)
    (h : e.job.runId = job.runId) : id = id' :=
  db.runId_unique _ _ _ _ (jobs_of_execution he) hjob h

/-! ### Table writes -/

theorem isSome_updateWhere {K V : Type} [DecidableEq K] (t : OrderedMap K V) (p : K → V → Bool)
    (f : V → V) (k : K) : ((t.updateWhere p f).get? k).isSome = (t.get? k).isSome := by
  rw [OrderedMap.get?_updateWhere, Option.isSome_map]

/-- `UPDATE "BacktestJob"`, of columns other than its run. -/
def updateJobs (db : Database F) (p : JobId → BacktestJob → Bool) (f : BacktestJob → BacktestJob)
    (hf : ∀ job, (f job).runId = job.runId) : Database F :=
  have hread : ∀ id job', (db.jobs.updateWhere p f).get? id = some job' →
      ∃ job, db.jobs.get? id = some job ∧ job'.runId = job.runId := by
    intro id job' h
    rw [OrderedMap.get?_updateWhere] at h
    obtain ⟨job, hjob, rfl⟩ := Option.map_eq_some_iff.mp h
    refine ⟨job, hjob, ?_⟩
    split
    · exact hf job
    · rfl
  { db with
    jobs := db.jobs.updateWhere p f
    runId_unique := by
      intro id id' job₁ job₂ h₁ h₂ heq
      obtain ⟨job, hjob, hrun⟩ := hread id job₁ h₁
      obtain ⟨job', hjob', hrun'⟩ := hread id' job₂ h₂
      exact db.runId_unique id id' job job' hjob hjob' (hrun.symm.trans (heq.trans hrun'))
    job_run := by
      intro id job' h
      obtain ⟨job, hjob, hrun⟩ := hread id job' h
      rw [hrun]
      exact db.job_run id job hjob }

/-- `UPDATE "BacktestRun"`. -/
def updateRuns (db : Database F) (p : RunId → BacktestRun → Bool) (f : BacktestRun → BacktestRun) :
    Database F :=
  { db with
    runs := db.runs.updateWhere p f
    job_run := by
      intro id job h
      rw [isSome_updateWhere]
      exact db.job_run id job h
    milestone_run := by
      intro m hm
      rw [isSome_updateWhere]
      exact db.milestone_run m hm
    result_run := by
      intro runId h
      rw [isSome_updateWhere]
      exact db.result_run runId h }

/-- `UPDATE "BacktestRunProgress"`. -/
def updateProgressRows (db : Database F) (p : RunId → Bool)
    (f : BacktestRunProgress → BacktestRunProgress) : Database F :=
  { db with progress := db.progress.updateWhere (fun id _ => p id) f }

def upsertProgress (db : Database F) (runId : RunId) (create : BacktestRunProgress)
    (update : BacktestRunProgress → BacktestRunProgress) : Database F :=
  { db with progress := db.progress.upsert runId create update }

/-- `DELETE FROM "BacktestRunMilestone"`. -/
def deleteMilestones (db : Database F) (p : RunId → Bool) : Database F :=
  { db with
    milestones := db.milestones.filter fun m => !p m.runId
    milestone_run := fun m hm => db.milestone_run m (List.mem_filter.mp hm).1 }

/-- Inserts a milestone, skipped when its number or its year is taken within the run. -/
def createMilestone (db : Database F) (row : BacktestRunMilestone) : Database F :=
  if h : (db.runs.get? row.runId).isSome ∧ ∀ m ∈ db.milestones,
      m.runId = row.runId → m.sequence ≠ row.sequence ∧ m.year ≠ row.year then
    { db with
      milestones := db.milestones ++ [row]
      milestone_run := by
        intro m hm
        obtain hm | hm := List.mem_append.mp hm
        · exact db.milestone_run m hm
        · rw [List.mem_singleton.mp hm]
          exact h.1 }
  else db

/-- The result rows of a run, written over any it had. -/
def replaceResult (db : Database F) (runId : RunId) (result : StoredResult F) : Database F :=
  if h : (db.runs.get? runId).isSome then
    { db with
      results := db.results.set runId result
      result_run := by
        intro runId' h'
        rw [OrderedMap.get?_set] at h'
        split at h'
        · next heq => exact heq ▸ h
        · exact db.result_run runId' h' }
  else db

/-- Inserts a run with its job and its progress row; an id that is taken aborts it. -/
def insertRun (db : Database F) (id : JobId) (job : BacktestJob) (run : BacktestRun)
    (progress : BacktestRunProgress) : Database F :=
  if h : db.jobs.get? id = none ∧ db.runs.get? job.runId = none then
    have hnew : ∀ id' job', (db.jobs.set id job).get? id' = some job' →
        id' = id ∧ job' = job ∨ db.jobs.get? id' = some job' ∧ job'.runId ≠ job.runId := by
      intro id' job' h'
      rw [OrderedMap.get?_set] at h'
      split at h'
      · next heq => exact .inl ⟨heq, (Option.some.inj h').symm⟩
      · refine .inr ⟨h', fun heq => ?_⟩
        have := db.job_run id' job' h'
        rw [heq, h.2] at this
        cases this
    have hkeep : ∀ runId, (db.runs.get? runId).isSome →
        ((db.runs.set job.runId run).get? runId).isSome := by
      intro runId hrun
      rw [OrderedMap.get?_set]
      split
      · rfl
      · exact hrun
    { db with
      jobs := db.jobs.set id job
      runs := db.runs.set job.runId run
      progress := db.progress.set job.runId progress
      runId_unique := by
        intro id₁ id₂ job₁ job₂ h₁ h₂ heq
        obtain ⟨rfl, rfl⟩ | ⟨h₁, hne₁⟩ := hnew id₁ job₁ h₁
        · obtain ⟨rfl, rfl⟩ | ⟨_, hne₂⟩ := hnew id₂ job₂ h₂
          · rfl
          · exact absurd heq.symm hne₂
        · obtain ⟨rfl, rfl⟩ | ⟨h₂, _⟩ := hnew id₂ job₂ h₂
          · exact absurd heq hne₁
          · exact db.runId_unique id₁ id₂ job₁ job₂ h₁ h₂ heq
      job_run := by
        intro id' job' h'
        obtain ⟨-, rfl⟩ | ⟨h', -⟩ := hnew id' job' h'
        · rw [OrderedMap.get?_set, if_pos rfl]
          rfl
        · exact hkeep _ (db.job_run id' job' h')
      milestone_run := fun m hm => hkeep _ (db.milestone_run m hm)
      result_run := fun runId h' => hkeep _ (db.result_run runId h') }
  else db

/-! ### What a write does to every execution -/

@[simp] theorem execution_updateJobs (db : Database F) (p : JobId → BacktestJob → Bool)
    (f : BacktestJob → BacktestJob) (hf : ∀ job, (f job).runId = job.runId) (id : JobId) :
    (db.updateJobs p f hf).execution id = (db.execution id).map fun e =>
      { e with job := if p id e.job then f e.job else e.job } := by
  unfold execution
  change ((db.jobs.updateWhere p f).get? id).bind (db.updateJobs p f hf).executionOf = _
  rw [OrderedMap.get?_updateWhere]
  cases db.jobs.get? id with
  | none => rfl
  | some job =>
    have hrun : (if p id job then f job else job).runId = job.runId := by
      split
      · exact hf job
      · rfl
    simp only [Option.map_some, Option.bind_some, executionOf, updateJobs, hrun, Option.map_map]
    rfl

@[simp] theorem execution_updateRuns (db : Database F) (p : RunId → BacktestRun → Bool)
    (f : BacktestRun → BacktestRun) (id : JobId) :
    (db.updateRuns p f).execution id = (db.execution id).map fun e =>
      { e with run := if p e.job.runId e.run then f e.run else e.run } := by
  unfold execution
  cases h : db.jobs.get? id with
  | none => simp [updateRuns, h]
  | some job =>
    simp only [updateRuns, h, Option.bind_some, executionOf, OrderedMap.get?_updateWhere,
      Option.map_map]
    rfl

/-- A write that leaves the jobs and the runs alone rewrites what hangs off each run. -/
theorem execution_of_jobs_eq {db db' : Database F} (hjobs : db'.jobs = db.jobs)
    (hruns : db'.runs = db.runs) (f : Execution F → Execution F) {id : JobId}
    (hf : ∀ e, db.execution id = some e → f e =
      { e with
        progress := db'.progress.get? e.job.runId
        milestones := db'.milestones.filter fun m => m.runId = e.job.runId
        result := db'.results.get? e.job.runId }) :
    db'.execution id = (db.execution id).map f := by
  have hdb : db'.execution id = (db.execution id).map fun e =>
      { e with
        progress := db'.progress.get? e.job.runId
        milestones := db'.milestones.filter fun m => m.runId = e.job.runId
        result := db'.results.get? e.job.runId } := by
    unfold execution
    rw [hjobs]
    cases db.jobs.get? id with
    | none => rfl
    | some job =>
      simp only [Option.bind_some, executionOf, hruns, Option.map_map]
      rfl
  rw [hdb]
  cases he : db.execution id with
  | none => rfl
  | some e => exact congrArg some (hf e he).symm

@[simp] theorem execution_updateProgressRows (db : Database F) (p : RunId → Bool)
    (f : BacktestRunProgress → BacktestRunProgress) (id : JobId) :
    (db.updateProgressRows p f).execution id = (db.execution id).map fun e =>
      { e with progress := if p e.job.runId then e.progress.map f else e.progress } := by
  refine execution_of_jobs_eq (by rfl) (by rfl) _ fun e he => ?_
  obtain ⟨-, -, hprogress, hmilestones, hresult⟩ := execution_eq_some_iff.mp he
  have hrow : (db.updateProgressRows p f).progress.get? e.job.runId
      = if p e.job.runId then e.progress.map f else e.progress := by
    change (db.progress.updateWhere (fun id _ => p id) f).get? e.job.runId = _
    rw [OrderedMap.get?_updateWhere, hprogress]
    cases p e.job.runId
    · simp
    · rfl
  rw [hrow, ← hmilestones, ← hresult]
  rfl

@[simp] theorem execution_upsertProgress (db : Database F) (runId : RunId) (create : BacktestRunProgress)
    (update : BacktestRunProgress → BacktestRunProgress) (id : JobId) :
    (db.upsertProgress runId create update).execution id = (db.execution id).map fun e =>
      { e with
        progress := if e.job.runId = runId then some ((e.progress.map update).getD create)
          else e.progress } := by
  refine execution_of_jobs_eq (by rfl) (by rfl) _ fun e he => ?_
  obtain ⟨-, -, hprogress, hmilestones, hresult⟩ := execution_eq_some_iff.mp he
  have hrow : (db.upsertProgress runId create update).progress.get? e.job.runId
      = if e.job.runId = runId then some ((e.progress.map update).getD create)
        else e.progress := by
    change (db.progress.upsert runId create update).get? e.job.runId = _
    rw [OrderedMap.get?_upsert]
    split
    · next h => rw [← h, hprogress]
    · exact hprogress
  rw [hrow, ← hmilestones, ← hresult]
  rfl

@[simp] theorem execution_deleteMilestones (db : Database F) (p : RunId → Bool) (id : JobId) :
    (db.deleteMilestones p).execution id = (db.execution id).map fun e =>
      { e with milestones := if p e.job.runId then [] else e.milestones } := by
  refine execution_of_jobs_eq (by rfl) (by rfl) _ fun e he => ?_
  obtain ⟨-, -, hprogress, hmilestones, hresult⟩ := execution_eq_some_iff.mp he
  have hrows : (db.deleteMilestones p).milestones.filter (fun m => m.runId = e.job.runId)
      = if p e.job.runId then [] else e.milestones := by
    change (db.milestones.filter fun m => !p m.runId).filter _ = _
    rw [List.filter_filter]
    split
    · next hp =>
      refine List.filter_eq_nil_iff.mpr fun m _ => ?_
      simp only [Bool.and_eq_true, decide_eq_true_eq, Bool.not_eq_true', not_and]
      intro hm
      simp [hm, hp]
    · next hp =>
      rw [← hmilestones]
      refine List.filter_congr fun m _ => ?_
      by_cases hm : m.runId = e.job.runId <;> simp [hm, hp]
  rw [hrows, ← hprogress, ← hresult]
  rfl

/-- The milestones of a run, after one that is skipped when its number or year is taken. -/
def withMilestone (milestones : List BacktestRunMilestone) (row : BacktestRunMilestone) :
    List BacktestRunMilestone :=
  if ∀ m ∈ milestones, m.sequence ≠ row.sequence ∧ m.year ≠ row.year then milestones ++ [row]
  else milestones

@[simp] theorem execution_createMilestone (db : Database F) (row : BacktestRunMilestone) (id : JobId) :
    (db.createMilestone row).execution id = (db.execution id).map fun e =>
      { e with
        milestones := if e.job.runId = row.runId then withMilestone e.milestones row
          else e.milestones } := by
  have hjobs : (db.createMilestone row).jobs = db.jobs := by unfold createMilestone; split <;> rfl
  have hruns : (db.createMilestone row).runs = db.runs := by unfold createMilestone; split <;> rfl
  have hsame : (db.createMilestone row).progress = db.progress
      ∧ (db.createMilestone row).results = db.results := by
    unfold createMilestone; split <;> exact ⟨rfl, rfl⟩
  apply execution_of_jobs_eq hjobs hruns
  intro e he
  obtain ⟨-, hrun, hprogress, hmilestones, hresult⟩ := execution_eq_some_iff.mp he
  have hrows : (db.createMilestone row).milestones.filter (fun m => m.runId = e.job.runId)
      = if e.job.runId = row.runId then withMilestone e.milestones row else e.milestones := by
    unfold createMilestone withMilestone
    split
    · next h =>
      rw [List.filter_append, hmilestones]
      split
      · next heq =>
        rw [if_pos]
        · simp [heq]
        · intro m hm
          rw [← hmilestones] at hm
          obtain ⟨hm, hid⟩ := List.mem_filter.mp hm
          exact h.2 m hm ((of_decide_eq_true hid).trans heq)
      · next hne => simp [Ne.symm hne]
    · next h =>
      rw [hmilestones]
      split
      · next heq =>
        rw [if_neg]
        intro hall
        refine h ⟨?_, fun m hm hid => ?_⟩
        · rw [← heq, hrun]
          rfl
        · refine hall m ?_
          rw [← hmilestones]
          exact List.mem_filter.mpr ⟨hm, decide_eq_true (hid.trans heq.symm)⟩
      · rfl
  rw [hrows, hsame.1, hsame.2, hprogress, hresult]

@[simp] theorem execution_replaceResult (db : Database F) (runId : RunId) (result : StoredResult F)
    (id : JobId) :
    (db.replaceResult runId result).execution id = (db.execution id).map fun e =>
      { e with result := if e.job.runId = runId then some result else e.result } := by
  have hjobs : (db.replaceResult runId result).jobs = db.jobs := by
    unfold replaceResult; split <;> rfl
  have hruns : (db.replaceResult runId result).runs = db.runs := by
    unfold replaceResult; split <;> rfl
  have hsame : (db.replaceResult runId result).progress = db.progress
      ∧ (db.replaceResult runId result).milestones = db.milestones := by
    unfold replaceResult; split <;> exact ⟨rfl, rfl⟩
  apply execution_of_jobs_eq hjobs hruns
  intro e he
  obtain ⟨-, hrun, hprogress, hmilestones, hresult⟩ := execution_eq_some_iff.mp he
  have hrow : (db.replaceResult runId result).results.get? e.job.runId
      = if e.job.runId = runId then some result else e.result := by
    unfold replaceResult
    split
    · rw [OrderedMap.get?_set, hresult]
    · next h =>
      rw [if_neg, hresult]
      intro heq
      refine h ?_
      rw [← heq, hrun]
      rfl
  rw [hrow, hsame.1, hsame.2, hprogress, hmilestones]

/-- The execution that `insertRun` creates. -/
def newExecution (job : BacktestJob) (run : BacktestRun) (progress : BacktestRunProgress) :
    Execution F where
  job := job
  run := run
  progress := some progress
  milestones := []
  result := none

theorem execution_insertRun (db : Database F) (id : JobId) (job : BacktestJob) (run : BacktestRun)
    (progress : BacktestRunProgress) (id' : JobId) :
    (db.insertRun id job run progress).execution id' = db.execution id'
      ∨ id' = id ∧ db.execution id' = none
        ∧ (db.insertRun id job run progress).execution id'
          = some (newExecution job run progress) := by
  unfold insertRun
  split
  · next h =>
    by_cases hid : id' = id
    · subst hid
      right
      refine ⟨rfl, ?_, ?_⟩
      · unfold execution
        rw [h.1]
        rfl
      · rw [execution_eq_some_iff]
        -- no row of the run is there before it
        have hmilestones : db.milestones.filter (fun m => m.runId = job.runId) = [] := by
          refine List.filter_eq_nil_iff.mpr fun m hm heq => ?_
          have := db.milestone_run m hm
          rw [of_decide_eq_true heq, h.2] at this
          cases this
        have hresult : db.results.get? job.runId = none := by
          by_contra hne
          have := db.result_run job.runId (Option.isSome_iff_ne_none.mpr hne)
          rw [h.2] at this
          cases this
        refine ⟨?_, ?_, ?_, hmilestones, hresult⟩
        · exact (OrderedMap.get?_set _ _ _ _).trans (if_pos rfl)
        · exact (OrderedMap.get?_set _ _ _ _).trans (if_pos rfl)
        · exact (OrderedMap.get?_set _ _ _ _).trans (if_pos rfl)
    · left
      unfold execution
      change ((db.jobs.set id job).get? id').bind _ = _
      rw [OrderedMap.get?_set_of_ne _ _ hid]
      cases hjob : db.jobs.get? id' with
      | none => rfl
      | some job' =>
        have hne : job'.runId ≠ job.runId := by
          intro heq
          have := db.job_run id' job' hjob
          rw [heq, h.2] at this
          cases this
        simp only [Option.bind_some, executionOf, OrderedMap.get?_set_of_ne _ _ hne]
  · left; rfl

end Database
end FactorSage.Jobs
