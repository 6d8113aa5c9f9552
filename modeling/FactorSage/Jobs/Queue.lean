import FactorSage.Jobs.Transactions
import FactorSage.Library.StepSystem

/-!
# The durable queue

The system of any number of workers and callers over one database. An `Action` is one committed
transaction; a step takes any action at any instant no earlier than the last. A worker writes only
under a claim that it was handed at some time (`Queue.claims`), however long ago: a write may come
from a worker whose claim is gone.

`transact_evolves` reads each action as one `Move` of the executions it touches.
-/

namespace FactorSage.Jobs

variable {F : Type}

/-- One committed transaction. `recoverStaleJobs` commits its three statements one by one. -/
inductive Action (F : Type)
  | submitRun (deployment : Deployment) (submission : Submission)
  | cancelRun (userId : UserId) (runId : RunId)
  | claimNextJob (deployment : Deployment) (locks : ClaimLocks) (workerId : WorkerId)
      (leaseMs : ℕ)
  | heartbeat (write : JobWrite) (leaseMs : ℕ)
  | cancelJob (write : JobWrite)
  | updateProgress (write : BacktestProgressWrite)
  | persistResult (write : BacktestResultWrite F)
  | failJob (write : BacktestFailureWrite)
  | releaseJob (write : JobWrite) (cancelRequested : Bool)
  | cancelStaleJobs (skip : JobId → Bool)
  | requeueStaleJobs (skip : JobId → Bool) (retryBackoffMs : ℕ)
  | abandonStaleJobs (skip : JobId → Bool)

namespace Action

/-- The claim that an action writes under. -/
def write? : Action F → Option JobWrite
  | .heartbeat write _ => some write
  | .cancelJob write => some write
  | .updateProgress write => some write.toJobWrite
  | .persistResult write => some write.toJobWrite
  | .failJob write => some write.toJobWrite
  | .releaseJob write _ => some write
  | _ => none

def actor : Action F → Actor F
  | .submitRun .. => .owner
  | .cancelRun .. => .owner
  | .claimNextJob _ _ workerId _ => .claimer workerId
  | .heartbeat write _ => .renewer write.workerId
  | .updateProgress write => .renewer write.workerId
  | .cancelJob write => .closer write.workerId
  | .failJob write => .closer write.workerId
  | .releaseJob write _ => .closer write.workerId
  | .persistResult write => .finisher write
  | .cancelStaleJobs _ => .recovery
  | .requeueStaleJobs .. => .recovery
  | .abandonStaleJobs _ => .recovery

theorem holder?_actor (a : Action F) : a.actor.holder? = a.write?.map JobWrite.workerId := by
  cases a <;> rfl

/-- The tables after an action. A refused request changes nothing. -/
def transact (a : Action F) (now : Instant) (db : Database F) : Database F :=
  match a with
  | .submitRun deployment submission =>
    match db.submitRun deployment submission now with
    | .error _ => db
    | .ok db' => db'
  | .cancelRun userId runId =>
    match db.cancelRun userId runId now with
    | .error _ => db
    | .ok (db', _) => db'
  | .claimNextJob deployment locks workerId leaseMs =>
    (db.claimNextJob deployment locks workerId now leaseMs).1
  | .heartbeat write leaseMs => (db.heartbeat write now leaseMs).1
  | .cancelJob write => (db.cancelJob write now).1
  | .updateProgress write => (db.updateProgress write now).1
  | .persistResult write => (db.persistResult write now).1
  | .failJob write => (db.failJob write now).1
  | .releaseJob write cancelRequested => (db.releaseJob write cancelRequested now).1
  | .cancelStaleJobs skip => db.cancelStaleJobs skip now
  | .requeueStaleJobs skip retryBackoffMs => db.requeueStaleJobs skip now retryBackoffMs
  | .abandonStaleJobs skip => db.abandonStaleJobs skip now

/-- The claim that an action hands its worker. -/
def handsOut (a : Action F) (now : Instant) (db : Database F) : Option JobWrite :=
  match a with
  | .claimNextJob deployment locks workerId leaseMs =>
    (db.claimNextJob deployment locks workerId now leaseMs).2.map fun claimed =>
      ⟨claimed.jobId, claimed.runId, workerId⟩
  | _ => none

end Action

/-- The database, the last instant, and the claims handed out so far. -/
structure Queue (F : Type) where
  db : Database F
  clock : Instant
  claims : List JobWrite

namespace Queue

def init : Queue F := ⟨.empty, 0, []⟩

def apply (q : Queue F) (now : Instant) (a : Action F) : Queue F where
  db := a.transact now q.db
  clock := now
  claims := q.claims ++ (a.handsOut now q.db).toList

/-- The clock never goes back, and a worker writes under a claim it was handed. -/
def Enabled (q : Queue F) (now : Instant) (a : Action F) : Prop :=
  q.clock ≤ now ∧ ∀ write ∈ a.write?, write ∈ q.claims

instance (q : Queue F) (now : Instant) (a : Action F) : Decidable (q.Enabled now a) :=
  inferInstanceAs (Decidable (_ ∧ ∀ write ∈ a.write?, write ∈ q.claims))

/-- Any action of any party, at any instant. -/
def system (F : Type) : StepSystem (Queue F) (Instant × Action F) where
  start q := q = init
  step q act q' := q.Enabled act.1 act.2 ∧ q' = q.apply act.1 act.2

/-- The state after a sequence of actions. -/
def after (q : Queue F) (path : List (Instant × Action F)) : Queue F :=
  path.foldl (fun q act => q.apply act.1 act.2) q

/-- `recoverStaleJobs` is a path of three steps, with or without others between them. -/
theorem later_recoverStaleJobs {q : Queue F} {now : Instant} (hnow : q.clock ≤ now)
    (skip : JobId → Bool) (retryBackoffMs : ℕ) :
    (system F).Later q
      { db := (q.db.recoverStaleJobs skip now retryBackoffMs).1, clock := now, claims := q.claims } := by
  have hcancel := StepSystem.Later.refl (S := system F) q
    |>.snoc (a := (now, .cancelStaleJobs skip)) ⟨⟨hnow, fun _ h => by cases h⟩, rfl⟩
  have hrequeue := hcancel.snoc (a := (now, .requeueStaleJobs skip retryBackoffMs))
    ⟨⟨le_rfl, fun _ h => by cases h⟩, rfl⟩
  have habandon := hrequeue.snoc (a := (now, .abandonStaleJobs skip))
    ⟨⟨le_rfl, fun _ h => by cases h⟩, rfl⟩
  simpa [apply, Action.transact, Action.handsOut, Database.recoverStaleJobs] using habandon

/-- Every action of a sequence is a step of the system when its turn comes. -/
def StepsAlong (S : StepSystem (Queue F) (Instant × Action F)) (q : Queue F) :
    List (Instant × Action F) → Prop
  | [] => True
  | act :: path => S.step q act (q.apply act.1 act.2) ∧ StepsAlong S (q.apply act.1 act.2) path

theorem reachable_after {S : StepSystem (Queue F) (Instant × Action F)} {q : Queue F}
    (hq : S.Reachable q) {path : List (Instant × Action F)} (h : StepsAlong S q path) :
    S.Reachable (q.after path) := by
  induction path generalizing q with
  | nil => exact hq
  | cons act path ih => exact ih (hq.step h.1) h.2

end Queue

/-! ### Every action moves executions -/

/-- What an action does to the execution of one job. -/
inductive Evolves (a : Action F) (id : JobId) : Option (Execution F) → Option (Execution F) → Prop
  | absent : Evolves a id none none
  | submitted (submission : Submission) (now : Instant) :
      Evolves a id none (some (Database.newExecution (submission.job now) submission.run
        Submission.progress))
  | same (e : Execution F) : Evolves a id (some e) (some e)
  | moved {e e' : Execution F} (hmove : Move a.actor e e')
      (hid : ∀ write ∈ a.write?, id = write.jobId) : Evolves a id (some e) (some e')

namespace Evolves

variable {a : Action F} {id : JobId}

theorem refl (e : Option (Execution F)) : Evolves a id e e := by
  cases e with
  | none => exact .absent
  | some e => exact .same e

/-- A pointwise write evolves every execution when it moves those it changes. -/
theorem of_map {o : Option (Execution F)} {f : Execution F → Execution F}
    (h : ∀ e ∈ o, f e = e ∨ Move a.actor e (f e) ∧ ∀ write ∈ a.write?, id = write.jobId) :
    Evolves a id o (o.map f) := by
  cases o with
  | none => exact .absent
  | some e =>
    obtain heq | ⟨hmove, hid⟩ := h e rfl
    · rw [Option.map_some, heq]
      exact .same e
    · exact .moved hmove hid

theorem of_actsOnHeld {db db' : Database F} {write : JobWrite} {f : Execution F → Execution F}
    (hacts : Database.ActsOnHeld db db' write f) (hwrite : a.write? = some write)
    (hmove : ∀ e, db.execution id = some e → e.job.isHeldBy write.workerId →
      f e = e ∨ Move a.actor e (f e)) :
    Evolves a id (db.execution id) (db'.execution id) := by
  rw [hacts id]
  refine of_map fun e he => ?_
  by_cases h : id = write.jobId ∧ e.job.isHeldBy write.workerId = true
  · rw [if_pos h]
    obtain heq | hm := hmove e he h.2
    · exact .inl heq
    · refine .inr ⟨hm, fun write' hwrite' => ?_⟩
      rw [hwrite] at hwrite'
      exact Option.some.inj hwrite' ▸ h.1
  · exact .inl (if_neg h)

end Evolves

/-- Every claim handed out names a stored job with its own run. -/
def Queue.ClaimsName (q : Queue F) : Prop :=
  ∀ write ∈ q.claims, ∃ e, q.db.execution write.jobId = some e ∧ e.job.runId = write.runId

theorem Queue.ClaimsName.names {q : Queue F} (h : q.ClaimsName) {write : JobWrite}
    (hwrite : write ∈ q.claims) : q.db.Names write := by
  obtain ⟨e, he, hrun⟩ := h write hwrite
  intro job hjob
  obtain rfl : e.job = job := Option.some.inj ((Database.jobs_of_execution he).symm.trans hjob)
  exact hrun

/-- Every execution agrees. -/
def Queue.AllAgree (q : Queue F) : Prop := ∀ id e, q.db.execution id = some e → e.Agrees

theorem submitRun_evolves (db : Database F) (deployment : Deployment) (submission : Submission)
    (now : Instant) (id : JobId) :
    Evolves (.submitRun deployment submission) id (db.execution id)
      (((Action.submitRun deployment submission).transact now db).execution id) := by
  simp only [Action.transact, Database.submitRun]
  split
  · exact .refl _
  · next db' hdb' =>
    split at hdb'
    · cases hdb'
    · split at hdb'
      · cases hdb'
      · split at hdb'
        · cases hdb'
        · obtain rfl := Except.ok.inj hdb'
          obtain heq | ⟨-, hnone, hnew⟩ := Database.execution_insertRun db submission.jobId
            (submission.job now) submission.run Submission.progress id
          · rw [heq]
            exact .refl _
          · rw [hnone, hnew]
            exact .submitted submission now

theorem cancelRun_evolves {q : Queue F} (hagree : q.AllAgree) (userId : UserId) (runId : RunId)
    (now : Instant) (id : JobId) :
    Evolves (.cancelRun userId runId) id (q.db.execution id)
      (((Action.cancelRun userId runId).transact now q.db).execution id) := by
  simp only [Action.transact, Database.cancelRun]
  cases hfind : q.db.findRun userId runId with
  | none => exact .refl _
  | some found =>
    obtain ⟨jobId, job, run⟩ := found
    obtain ⟨hjob, hrun, rfl⟩ := Database.findRun_spec hfind
    by_cases hcancelled : run.status = .cancelled
    · simp only [hcancelled, if_true]
      exact .refl _
    · by_cases hended : run.status = .completed ∨ run.status = .failed
      · simp only [hcancelled, hended, if_true, if_false]
        exact .refl _
      · simp only [hcancelled, hended, if_false]
        by_cases hqueued : job.status = .queued
        · simp only [hqueued, if_true]
          rw [Database.execution_cancelQueuedRun hjob now id]
          refine .of_map fun e he => ?_
          split
          · next hid =>
            subst hid
            have heq : e.job = job :=
              Option.some.inj ((Database.jobs_of_execution he).symm.trans hjob)
            exact .inr ⟨.cancelQueued (heq ▸ hqueued) now, fun _ h => by cases h⟩
          · exact .inl rfl
        · simp only [hqueued, if_false]
          rw [Database.execution_updateJobs]
          refine .of_map fun e he => ?_
          by_cases hid : id = jobId
          · subst hid
            obtain ⟨hjob', hrun', -⟩ := Database.execution_eq_some_iff.mp he
            obtain rfl : e.job = job := Option.some.inj (hjob'.symm.trans hjob)
            obtain rfl : e.run = run := Option.some.inj (hrun'.symm.trans hrun)
            -- a job that is neither queued nor ended is claimed
            have hclaimed : e.job.status = .claimed := by
              have hstatus := (hagree id e he).status
              cases hs : e.job.status with
              | claimed => rfl
              | queued => exact absurd hs hqueued
              | completed => exact absurd (.inl (hstatus.completed_iff.mp hs)) hended
              | failed => exact absurd (.inr (hstatus.failed_iff.mp hs)) hended
              | cancelled => exact absurd (hstatus.cancelled_iff.mp hs) hcancelled
            simp only [decide_true, if_true]
            exact .inr ⟨.requestCancel hclaimed now, fun _ h => by cases h⟩
          · simp only [hid, decide_false, Bool.false_eq_true, if_false]
            exact .inl trivial

theorem claimNextJob_evolves (db : Database F) (deployment : Deployment) (locks : ClaimLocks)
    (workerId : WorkerId) (now : Instant) (leaseMs : ℕ) (id : JobId) :
    Evolves (.claimNextJob deployment locks workerId leaseMs) id (db.execution id)
      ((db.claimNextJob deployment locks workerId now leaseMs).1.execution id) := by
  obtain heq | ⟨candidate, hadmissible, -, hdb, -⟩ :=
    Database.claimNextJob_spec db deployment locks workerId now leaseMs
  · rw [heq]
    exact .refl _
  · obtain ⟨job, hjob, hrun, hclaimable, -⟩ := hadmissible.job
    rw [hdb, Database.execution_takeCandidate hjob hrun]
    refine .of_map fun e he => ?_
    split
    · next hid =>
      subst hid
      obtain rfl : e.job = job :=
        Option.some.inj ((Database.jobs_of_execution he).symm.trans hjob)
      simp only [BacktestJob.isClaimable, Bool.and_eq_true, decide_eq_true_eq,
        Option.isNone_iff_eq_none] at hclaimable
      obtain ⟨⟨⟨hqueued, -⟩, hattempts⟩, hcancel⟩ := hclaimable
      exact .inr ⟨.take hqueued hattempts hcancel workerId now leaseMs, fun _ h => by cases h⟩
    · exact .inl rfl

/-- **Every action is a move** of the executions it touches, and leaves the others alone. -/
theorem transact_evolves {q : Queue F} (hnames : q.ClaimsName) (hagree : q.AllAgree)
    {now : Instant} {a : Action F} (henabled : q.Enabled now a) (id : JobId) :
    Evolves a id (q.db.execution id) ((a.transact now q.db).execution id) := by
  have hwrites := henabled.2
  -- one case a transaction: those fenced by the lease act on the job held, the sweeps on what is
  -- stale
  cases a with
  | submitRun deployment submission => exact submitRun_evolves q.db deployment submission now id
  | cancelRun userId runId => exact cancelRun_evolves hagree userId runId now id
  | claimNextJob deployment locks workerId leaseMs =>
    exact claimNextJob_evolves q.db deployment locks workerId now leaseMs id
  | heartbeat write leaseMs =>
    refine .of_actsOnHeld (Database.heartbeat_actsOnHeld write now leaseMs) rfl ?_
    exact fun e _ hheld => .inr (.renew hheld now leaseMs)
  | cancelJob write =>
    have hname := hnames.names (hwrites write rfl)
    refine .of_actsOnHeld (Database.cancelJob_actsOnHeld hname now hagree) rfl ?_
    exact fun e _ hheld => .inr (.cancel hheld now)
  | updateProgress write =>
    have hname := hnames.names (hwrites _ rfl)
    refine .of_actsOnHeld (Database.updateProgress_actsOnHeld hname now) rfl ?_
    exact fun e _ hheld => .inr (.report hheld write now)
  | persistResult write =>
    have hname := hnames.names (hwrites _ rfl)
    refine .of_actsOnHeld (Database.persistResult_actsOnHeld hname now) rfl ?_
    exact fun e _ hheld => .inr (.complete write hheld now)
  | failJob write =>
    have hname := hnames.names (hwrites _ rfl)
    refine .of_actsOnHeld (Database.failJob_actsOnHeld hname now) rfl ?_
    exact fun e _ hheld => .inr (.fail hheld write now)
  | releaseJob write cancelRequested =>
    have hname := hnames.names (hwrites write rfl)
    change Evolves _ id _ ((q.db.releaseJob write cancelRequested now).1.execution id)
    unfold Database.releaseJob
    split
    · refine .of_actsOnHeld (Database.cancelJob_actsOnHeld hname now hagree) rfl ?_
      exact fun e _ hheld => .inr (.cancel hheld now)
    · refine .of_actsOnHeld (Database.releaseClaim_actsOnHeld hname now hagree) rfl ?_
      intro e _ hheld
      split
      · next hcancel => exact .inr (.release hheld hcancel now _)
      · exact .inl rfl
  | cancelStaleJobs skip =>
    change Evolves _ id _ ((q.db.cancelStaleJobs skip now).execution id)
    rw [Database.execution_cancelStaleJobs]
    refine .of_map fun e _ => ?_
    split
    · next hstale =>
      refine .inr ⟨.cancelStale ?_ now, fun _ h => by cases h⟩
      simp only [Database.isStaleCancelled, Bool.and_eq_true, decide_eq_true_eq] at hstale
      exact hstale.1.1.1.1
    · exact .inl rfl
  | requeueStaleJobs skip retryBackoffMs =>
    change Evolves _ id _ ((q.db.requeueStaleJobs skip now retryBackoffMs).execution id)
    rw [Database.execution_requeueStaleJobs]
    refine .of_map fun e _ => ?_
    split
    · next hstale =>
      simp only [Database.isStale, Bool.and_eq_true, decide_eq_true_eq, Option.isNone_iff_eq_none]
        at hstale
      obtain ⟨⟨⟨⟨⟨hclaimed, -⟩, -⟩, hcancel⟩, -⟩, -⟩ := hstale
      exact .inr ⟨.requeueStale hclaimed hcancel _ _, fun _ h => by cases h⟩
    · exact .inl rfl
  | abandonStaleJobs skip =>
    change Evolves _ id _ ((q.db.abandonStaleJobs skip now).execution id)
    rw [Database.execution_abandonStaleJobs]
    refine .of_map fun e _ => ?_
    split
    · next hexhausted =>
      simp only [Database.isExhausted, Bool.and_eq_true, Bool.or_eq_true, decide_eq_true_eq]
        at hexhausted
      obtain ⟨⟨-, hstatus⟩, -⟩ := hexhausted
      exact .inr ⟨.abandon (hstatus.imp_left And.left) now, fun _ h => by cases h⟩
    · exact .inl rfl

end FactorSage.Jobs
