import FactorSage.Jobs.Agreement

/-!
# Execution capacity

How many jobs execute at once, counted as a claim counts them: `CLAIMED` with a live lease. A
`Scope` is what a limit is about, the whole deployment or one owner, so that the two limits are one
argument.

Only a claim and the renewal of a lapsed lease add to the count (`Evolves.isLive`). A claim asks
for room first. A renewal does not: a lease that lapsed comes back when its worker writes again,
though its slot was given away meanwhile (`not_withinCapacity`). While every renewal of a lapsed
lease finds its slot still free, the limits hold (`withinCapacity_of_renewsWithRoom`).
-/

namespace FactorSage.Jobs

variable {F : Type}

/-- What a limit is about. -/
inductive Scope
  | everyone
  | owner (userId : UserId)
  deriving DecidableEq

namespace Scope

def limit (deployment : Deployment) : Scope → Option ℕ
  | .everyone => deployment.globalMaxRunning
  | .owner userId => ((deployment.owner userId).bind Owner.maxConcurrentRuns).join

def Covers (scope : Scope) (e : Execution F) : Prop :=
  match scope with
  | .everyone => True
  | .owner userId => e.run.userId = userId

end Scope

namespace Database

/-- The jobs executing now within a scope. -/
def executingIn (db : Database F) (scope : Scope) (now : Instant) : ℕ :=
  match scope with
  | .everyone => db.executing now
  | .owner userId => db.executingOf now userId

theorem ownerOf_of_execution {db : Database F} {id : JobId} {e : Execution F}
    (he : db.execution id = some e) : db.ownerOf e.job = some e.run.userId := by
  unfold ownerOf
  rw [runs_of_execution he]
  rfl

/-- The condition that a scope counts a job by. -/
def counts (db : Database F) (scope : Scope) (now : Instant) (job : BacktestJob) : Bool :=
  match scope with
  | .everyone => job.isLive now
  | .owner userId => job.isLive now && db.ownerOf job = some userId

theorem executingIn_eq (db : Database F) (scope : Scope) (now : Instant) :
    db.executingIn scope now = db.jobs.countWhere (db.counts scope now) := by
  cases scope <;> rfl

theorem counts_iff {db : Database F} {scope : Scope} {now : Instant} {id : JobId}
    {e : Execution F} (he : db.execution id = some e) :
    db.counts scope now e.job = true ↔ e.job.isLive now = true ∧ scope.Covers e := by
  cases scope with
  | everyone => simp [counts, Scope.Covers]
  | owner userId => simp [counts, Scope.Covers, ownerOf_of_execution he]

/-- Nothing new executes: the count does not grow. -/
theorem executingIn_le {db db' : Database F} {scope : Scope} {now now' : Instant}
    (h : ∀ id e', db'.execution id = some e' → e'.job.isLive now' = true → scope.Covers e' →
      ∃ e, db.execution id = some e ∧ e.job.isLive now = true ∧ scope.Covers e) :
    db'.executingIn scope now' ≤ db.executingIn scope now := by
  rw [executingIn_eq, executingIn_eq]
  refine OrderedMap.countWhere_le fun id job' hjob' hcounts => ?_
  obtain ⟨e', he', rfl⟩ := db'.exists_execution hjob'
  obtain ⟨hlive, hcovers⟩ := (counts_iff he').mp hcounts
  obtain ⟨e, he, hlive', hcovers'⟩ := h id e' he' hlive hcovers
  exact ⟨e.job, jobs_of_execution he, (counts_iff he).mpr ⟨hlive', hcovers'⟩⟩

/-- One more job executes at most. -/
theorem executingIn_le_succ {db db' : Database F} {scope : Scope} {now now' : Instant}
    (id₀ : JobId)
    (h : ∀ id e', id ≠ id₀ → db'.execution id = some e' → e'.job.isLive now' = true →
      scope.Covers e' →
      ∃ e, db.execution id = some e ∧ e.job.isLive now = true ∧ scope.Covers e) :
    db'.executingIn scope now' ≤ db.executingIn scope now + 1 := by
  rw [executingIn_eq, executingIn_eq]
  refine OrderedMap.countWhere_le_succ id₀ fun id job' hid hjob' hcounts => ?_
  obtain ⟨e', he', rfl⟩ := db'.exists_execution hjob'
  obtain ⟨hlive, hcovers⟩ := (counts_iff he').mp hcounts
  obtain ⟨e, he, hlive', hcovers'⟩ := h id e' hid he' hlive hcovers
  exact ⟨e.job, jobs_of_execution he, (counts_iff he).mpr ⟨hlive', hcovers'⟩⟩

end Database

/-- A lease that is live was live at every earlier instant. -/
theorem BacktestJob.isLive_of_le {job : BacktestJob} {now now' : Instant} (hle : now ≤ now')
    (h : job.isLive now' = true) : job.isLive now = true := by
  unfold isLive at h ⊢
  cases hlease : job.leaseExpiresAt with
  | none => simpa [hlease] using h
  | some expiresAt =>
    simp only [hlease, Option.all_some, Bool.and_eq_true, decide_eq_true_eq] at h ⊢
    exact ⟨h.1, hle.trans_lt h.2⟩

theorem executingIn_of_le (db : Database F) (scope : Scope) {now now' : Instant}
    (hle : now ≤ now') : db.executingIn scope now' ≤ db.executingIn scope now :=
  Database.executingIn_le fun _ e he hlive hcovers =>
    ⟨e, he, BacktestJob.isLive_of_le hle hlive, hcovers⟩

theorem BacktestJob.not_isLive {job : BacktestJob} (h : job.status ≠ .claimed) (now : Instant) :
    job.isLive now = false := by
  simp [isLive, h]

/-- **What makes a job execute**: it did before, a claim takes it, or a renewal finds it held. -/
theorem Move.isLive {actor : Actor F} {e e' : Execution F} (h : Move actor e e') {now : Instant}
    (hlive : e'.job.isLive now = true) :
    e.job.isLive now = true ∨ (∃ w, actor = .claimer w)
      ∨ ∃ w, actor = .renewer w ∧ e.job.isHeldBy w := by
  have hstatus : e'.job.status = .claimed := by
    by_contra hne
    rw [BacktestJob.not_isLive hne] at hlive
    cases hlive
  cases h with
  | take => exact .inr (.inl ⟨_, rfl⟩)
  | renew hheld => exact .inr (.inr ⟨_, rfl, hheld⟩)
  | report hheld => exact .inr (.inr ⟨_, rfl, hheld⟩)
  | requestCancel => exact .inl hlive
  | _ => cases hstatus

/-! ### What adds to the count -/

namespace Action

/-- The claim whose lease an action renews. -/
def renewal? : Action F → Option JobWrite
  | .heartbeat write _ => some write
  | .updateProgress write => some write.toJobWrite
  | _ => none

theorem renewal?_of_actor {a : Action F} {w : WorkerId} (h : a.actor = .renewer w) :
    ∃ write, a.renewal? = some write ∧ a.write? = some write ∧ write.workerId = w := by
  cases a with
  | heartbeat write leaseMs => exact ⟨write, rfl, rfl, Actor.renewer.inj h⟩
  | updateProgress write => exact ⟨write.toJobWrite, rfl, rfl, Actor.renewer.inj h⟩
  | _ => cases h

def IsClaim : Action F → Prop
  | .claimNextJob .. => True
  | _ => False

theorem isClaim_of_actor {a : Action F} {w : WorkerId} (h : a.actor = .claimer w) : a.IsClaim := by
  cases a with
  | claimNextJob => trivial
  | _ => cases h

end Action

theorem Scope.covers_congr {scope : Scope} {e e' : Execution F}
    (h : e'.run.userId = e.run.userId) (hcovers : scope.Covers e') : scope.Covers e := by
  cases scope with
  | everyone => trivial
  | owner userId => exact h.symm.trans hcovers

/-- Short of a claim, a job that executes did so before, or its lease was renewed. -/
theorem Evolves.isLive {a : Action F} {id : JobId} {o o' : Option (Execution F)}
    (h : Evolves a id o o') (hclaim : ¬ a.IsClaim) {e' : Execution F} (he' : o' = some e')
    {now : Instant} (hlive : e'.job.isLive now = true) :
    ∃ e, o = some e ∧ e'.run.userId = e.run.userId ∧ (e.job.isLive now = true
      ∨ ∃ write, a.renewal? = some write ∧ id = write.jobId
        ∧ e.job.isHeldBy write.workerId = true) := by
  cases h with
  | absent => cases he'
  | submitted submission submittedAt =>
    obtain rfl := Option.some.inj he'
    cases hlive
  | same e =>
    obtain rfl := Option.some.inj he'
    exact ⟨e, rfl, rfl, .inl hlive⟩
  | @moved e _ hmove hid =>
    obtain rfl := Option.some.inj he'
    refine ⟨e, rfl, hmove.kept.userId, ?_⟩
    obtain hbefore | ⟨w, hw⟩ | ⟨w, hw, hheld⟩ := hmove.isLive hlive
    · exact .inl hbefore
    · exact absurd (Action.isClaim_of_actor hw) hclaim
    · obtain ⟨write, hrenewal, hwrite, rfl⟩ := Action.renewal?_of_actor hw
      exact .inr ⟨write, hrenewal, hid write hwrite, hheld⟩

/-- The renewal of a lapsed lease finds its slot still free, in every scope that counts it. -/
def RenewsWithRoom (deployment : Deployment) (q : Queue F) (act : Instant × Action F) : Prop :=
  ∀ write ∈ act.2.renewal?, ∀ e, q.db.execution write.jobId = some e →
    e.job.isHeldBy write.workerId = true → e.job.isLive act.1 = false →
    ∀ scope limit, Scope.limit deployment scope = some limit → scope.Covers e →
      q.db.executingIn scope act.1 < limit

/-- Claims are made under one deployment: its limits, and its users' plans, do not change. -/
def ClaimsUnder (deployment : Deployment) (_ : Queue F) (act : Instant × Action F) : Prop :=
  ∀ deployment' locks workerId leaseMs,
    act.2 = .claimNextJob deployment' locks workerId leaseMs → deployment' = deployment

/-- Every scope is within its limit. -/
def Queue.WithinLimits (deployment : Deployment) (q : Queue F) : Prop :=
  ∀ scope limit, Scope.limit deployment scope = some limit →
    q.db.executingIn scope q.clock ≤ limit

section Step

variable {deployment : Deployment} {q : Queue F} {now : Instant}

theorem withinLimits_of_not_claim (hq : (Queue.system F).Reachable q)
    (hlimits : q.WithinLimits deployment) {a : Action F} (henabled : q.Enabled now a)
    (hclaim : ¬ a.IsClaim) (hroom : RenewsWithRoom deployment q (now, a)) :
    (q.apply now a).WithinLimits deployment := by
  intro scope limit hlimit
  have hbefore : q.db.executingIn scope now ≤ limit :=
    (executingIn_of_le q.db scope henabled.1).trans (hlimits scope limit hlimit)
  have hstep : (Queue.system F).step q (now, a) (q.apply now a) := ⟨henabled, rfl⟩
  have hevolves := evolves_of_step hq hstep
  change (q.apply now a).db.executingIn scope now ≤ limit
  by_cases hlapsed : ∃ write ∈ a.renewal?, ∃ e, q.db.execution write.jobId = some e
      ∧ e.job.isHeldBy write.workerId = true ∧ e.job.isLive now = false ∧ scope.Covers e
  · -- one lapsed lease comes back, into a slot that is free
    obtain ⟨write, hwrite, e₀, he₀, hheld, hdead, hcovers⟩ := hlapsed
    have hfree := hroom write hwrite e₀ he₀ hheld hdead scope limit hlimit hcovers
    have hsucc : (q.apply now a).db.executingIn scope now ≤ q.db.executingIn scope now + 1 := by
      refine Database.executingIn_le_succ write.jobId fun id e' hne he' hlive hcovers' => ?_
      obtain ⟨e, he, huser, hcases⟩ := (hevolves id).isLive hclaim he' hlive
      refine ⟨e, he, ?_, Scope.covers_congr huser hcovers'⟩
      obtain hlive' | ⟨write', hrenewal, hid, -⟩ := hcases
      · exact hlive'
      · obtain rfl := Option.some.inj (hrenewal.symm.trans hwrite)
        exact absurd hid hne
    exact hsucc.trans hfree
  · refine (Database.executingIn_le fun id e' he' hlive hcovers' => ?_).trans hbefore
    obtain ⟨e, he, huser, hcases⟩ := (hevolves id).isLive hclaim he' hlive
    have hcovers := Scope.covers_congr huser hcovers'
    refine ⟨e, he, ?_, hcovers⟩
    obtain hlive' | ⟨write, hrenewal, rfl, hheld⟩ := hcases
    · exact hlive'
    · by_contra hdead
      exact hlapsed ⟨write, hrenewal, e, he, hheld, Bool.eq_false_iff.mpr hdead, hcovers⟩

theorem withinLimits_of_claim (hlimits : q.WithinLimits deployment) (hclock : q.clock ≤ now)
    (locks : ClaimLocks) (workerId : WorkerId) (leaseMs : ℕ) :
    (q.apply now (.claimNextJob deployment locks workerId leaseMs)).WithinLimits deployment := by
  intro scope limit hlimit
  have hbefore : q.db.executingIn scope now ≤ limit :=
    (executingIn_of_le q.db scope hclock).trans (hlimits scope limit hlimit)
  change (q.db.claimNextJob deployment locks workerId now leaseMs).1.executingIn scope now ≤ limit
  obtain heq | ⟨candidate, hadmissible, hmax, hdb, -⟩ :=
    Database.claimNextJob_spec q.db deployment locks workerId now leaseMs
  · rw [heq]
    exact hbefore
  · obtain ⟨job, hjob, hrun, -, howner⟩ := hadmissible.job
    rw [hdb]
    have hread := fun id =>
      (Database.execution_takeCandidate hjob hrun workerId leaseMs id :
        (q.db.takeCandidate candidate workerId now leaseMs).execution id = _)
    have hothers : ∀ id e', id ≠ candidate.id →
        (q.db.takeCandidate candidate workerId now leaseMs).execution id = some e' →
        q.db.execution id = some e' := by
      intro id e' hne he'
      rw [hread id] at he'
      obtain ⟨e, he, rfl⟩ := Option.map_eq_some_iff.mp he'
      rw [if_neg hne]
      exact he
    have hsucc : (q.db.takeCandidate candidate workerId now leaseMs).executingIn scope now
        ≤ q.db.executingIn scope now + 1 :=
      Database.executingIn_le_succ candidate.id fun id e' hne he' hlive hcovers =>
        ⟨e', hothers id e' hne he', hlive, hcovers⟩
    cases scope with
    | everyone => exact hsucc.trans (hmax limit hlimit)
    | owner userId =>
      by_cases huser : userId = candidate.userId
      · -- the candidate's own owner: the claim checked for room
        subst huser
        obtain ⟨limit', hlimit', hwithin⟩ := hadmissible.limit
        have hsome : limit' = some limit := by
          rw [Scope.limit, hlimit'] at hlimit
          exact hlimit
        rw [hsome, hadmissible.ownerRunning] at hwithin
        exact hsucc.trans (of_decide_eq_true hwithin)
      · -- another owner: the job taken is not theirs
        refine (Database.executingIn_le fun id e' he' hlive hcovers => ?_).trans hbefore
        by_cases hid : id = candidate.id
        · subst hid
          rw [hread candidate.id] at he'
          obtain ⟨e, he, rfl⟩ := Option.map_eq_some_iff.mp he'
          rw [if_pos rfl] at hcovers
          obtain rfl : e.job = job :=
            Option.some.inj ((Database.jobs_of_execution he).symm.trans hjob)
          rw [Database.ownerOf_of_execution he] at howner
          exact absurd (hcovers.symm.trans (Option.some.inj howner)) huser
        · exact ⟨e', hothers id e' hid he', hlive, hcovers⟩

end Step

/-! ### The bound -/

/-- No more than `globalMaxRunning` jobs execute, and of no owner more than the plan allows. -/
structure WithinCapacity (deployment : Deployment) (q : Queue F) : Prop where
  everyone : ∀ max ∈ deployment.globalMaxRunning, q.db.executing q.clock ≤ max
  owner : ∀ userId limit,
    (deployment.owner userId).bind Owner.maxConcurrentRuns = some (some limit) →
      q.db.executingOf q.clock userId ≤ limit

/-- The queue under one deployment. -/
def Queue.under (F : Type) (deployment : Deployment) : StepSystem (Queue F) (Instant × Action F) :=
  (Queue.system F).restrict (ClaimsUnder deployment)

theorem withinLimits_of_reachable {deployment : Deployment} {q : Queue F}
    (hq : ((Queue.under F deployment).restrict (RenewsWithRoom deployment)).Reachable q) :
    q.WithinLimits deployment := by
  refine StepSystem.Inductive.of_reachable (I := Queue.WithinLimits deployment) ?_ ?_ hq
  · rintro q rfl scope limit -
    cases scope <;> exact Nat.zero_le _
  · rintro q ⟨now, a⟩ q' hreach hlimits ⟨hroom, hunder, henabled, rfl⟩
    have hreach' : (Queue.system F).Reachable q := hreach.of_restrict.of_restrict
    by_cases hclaim : a.IsClaim
    · cases a with
      | claimNextJob deployment' locks workerId leaseMs =>
        obtain rfl := hunder _ _ _ _ rfl
        exact withinLimits_of_claim hlimits henabled.1 locks workerId leaseMs
      | _ => cases hclaim
    · exact withinLimits_of_not_claim hreach' hlimits henabled hclaim hroom

/-- **Execution capacity is bounded** in every run whose renewals of lapsed leases find room. -/
theorem withinCapacity_of_renewsWithRoom {deployment : Deployment} {q : Queue F}
    (hq : ((Queue.under F deployment).restrict (RenewsWithRoom deployment)).Reachable q) :
    WithinCapacity deployment q where
  everyone := fun max hmax => withinLimits_of_reachable hq .everyone max hmax
  owner := by
    intro userId limit hlimit
    refine withinLimits_of_reachable hq (.owner userId) limit ?_
    rw [Scope.limit, hlimit]
    rfl

/-- Worker 10 renews in time, and then stops; worker 11 takes the slot after its lease. -/
def handoverPath : List (Instant × Action ℚ) :=
  [(0, .submitRun sampleDeployment (sampleSubmission 0)),
   (1, .submitRun sampleDeployment (sampleSubmission 1)),
   (2, .claimNextJob sampleDeployment sampleLocks 10 5),
   (6, .heartbeat ⟨0, 0, 10⟩ 5),
   (20, .claimNextJob sampleDeployment sampleLocks 11 50)]

theorem claimsUnder_of_eq {a : Action F} {deployment : Deployment} {q : Queue F} {now : Instant}
    (h : match a with
      | .claimNextJob deployment' _ _ _ => deployment' = deployment
      | _ => True) : ClaimsUnder deployment q (now, a) := by
  rintro deployment' locks workerId leaseMs heq
  obtain rfl : a = .claimNextJob deployment' locks workerId leaseMs := heq
  exact h

theorem renewsWithRoom_of_live {deployment : Deployment} {q : Queue F} {now : Instant}
    {a : Action F} (h : ∀ write ∈ a.renewal?, ∀ job ∈ q.db.jobs.get? write.jobId,
      job.isLive now = true) : RenewsWithRoom deployment q (now, a) := by
  intro write hwrite e he _ hdead
  rw [h write hwrite e.job (Database.jobs_of_execution he)] at hdead
  cases hdead

theorem withinCapacity_sample : WithinCapacity sampleDeployment (Queue.init.after handoverPath) :=
  withinCapacity_of_renewsWithRoom (Queue.reachable_after (.start rfl)
    ⟨⟨renewsWithRoom_of_live (by decide), claimsUnder_of_eq trivial, by decide, rfl⟩,
      ⟨renewsWithRoom_of_live (by decide), claimsUnder_of_eq trivial, by decide, rfl⟩,
      ⟨renewsWithRoom_of_live (by decide), claimsUnder_of_eq rfl, by decide, rfl⟩,
      ⟨renewsWithRoom_of_live (by decide), claimsUnder_of_eq trivial, by decide, rfl⟩,
      ⟨renewsWithRoom_of_live (by decide), claimsUnder_of_eq rfl, by decide, rfl⟩, trivial⟩)

/-! ### A lapsed lease comes back -/

/-- Worker 10 stalls past its lease, worker 11 is given the slot, and worker 10 renews. -/
def stalledPath : List (Instant × Action ℚ) :=
  [(0, .submitRun sampleDeployment (sampleSubmission 0)),
   (1, .submitRun sampleDeployment (sampleSubmission 1)),
   (2, .claimNextJob sampleDeployment sampleLocks 10 5),
   (20, .claimNextJob sampleDeployment sampleLocks 11 50),
   (21, .heartbeat ⟨0, 0, 10⟩ 5)]

/-- Two jobs execute in the one slot. -/
theorem not_withinCapacity :
    ¬ ∀ (deployment : Deployment) (q : Queue ℚ), (Queue.under ℚ deployment).Reachable q →
      WithinCapacity deployment q := by
  intro h
  have hreach : (Queue.under ℚ sampleDeployment).Reachable (Queue.init.after stalledPath) :=
    Queue.reachable_after (.start rfl)
      ⟨⟨claimsUnder_of_eq trivial, by decide, rfl⟩, ⟨claimsUnder_of_eq trivial, by decide, rfl⟩,
        ⟨claimsUnder_of_eq rfl, by decide, rfl⟩, ⟨claimsUnder_of_eq rfl, by decide, rfl⟩,
        ⟨claimsUnder_of_eq trivial, by decide, rfl⟩, trivial⟩
  have hbound := (h _ _ hreach).everyone 1 rfl
  have hcount : (Queue.init.after stalledPath).db.executing 21 = 2 := by decide
  have htwo : (2 : ℕ) ≤ 1 := hcount ▸ hbound
  omega

end FactorSage.Jobs
