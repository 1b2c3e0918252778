import VeloxRag.Db.Rows

/-!
# Leases and fenced writes

A worker claims a job and holds a lease on it, named by its owner and by an epoch that every
claim raises.  Each write of the worker is an update that applies only while the job is
running under that lease and the lease has not expired; otherwise the write raises
`LostLeaseError` and changes nothing.

A transaction is one step here, at the instant of its last fence: the row locks it holds
keep every other transaction off the rows it has read.

## Main definitions

* `JobLease`, `fence`, `stageFence` — the lease and its fences.
* `claimNext`, `heartbeat`, `releaseClaim` — leasing.
* `checkpoint`, `advanceStage`, `commitStageFacts`, `commitStageCheckpoint`,
  `prepareActivation`, `finalizeDomain`, `markSucceeded`, `markCancelled`, `recordFailure` —
  the fenced writes.
-/

namespace VeloxRag.Jobs

open Lib

/-- What a transaction raises; it changes nothing then. -/
inductive TxError
  /-- `LostLeaseError`. -/
  | lostLease
  /-- `ValueError` with its text. -/
  | value (message : String)
  /-- `BusinessError` with its status and code. -/
  | business (status : ℕ) (code : String)
  /-- `DocumentActivationConflictError`. -/
  | activationConflict
  /-- `_RepairTargetChanged`. -/
  | repairTargetChanged
  /-- An `IntegrityError` of a unique index. -/
  | integrity
deriving DecidableEq, Repr

/-- A transaction: the database after it, and what it returns. -/
abbrev Tx (α : Type) := Db → Except TxError (α × Db)

/-! ## The lease -/

structure JobLease where
  id : ℕ
  operation : Operation
  targetType : TargetType
  targetId : ℕ
  targetRevision : Option ℕ
  indexGenerationId : Option ℕ
  stage : Option Stage
  resumeStage : Option Stage
  progressCurrent : ℕ
  progressTotal : Option ℕ
  attemptCount : ℕ
  maxAttempts : ℕ
  leaseOwner : Str
  leaseEpoch : ℕ
  leaseExpiresAt : ℕ
  cancelRequestedAt : Option ℕ
  mutationId : Option ℕ
deriving DecidableEq, Repr

/-- `lease_from_job`. -/
def leaseFromJob (job : Job) : Option JobLease :=
  if job.status ≠ .running then none
  else do
    let leaseOwner ← job.leaseOwner
    let leaseExpiresAt ← job.leaseExpiresAt
    pure ⟨job.id, job.operation, job.targetType, job.targetId, job.targetRevision,
      job.indexGenerationId, job.stage, job.resumeStage, job.progressCurrent, job.progressTotal,
      job.attemptCount, job.maxAttempts, leaseOwner, job.leaseEpoch, leaseExpiresAt,
      job.cancelRequestedAt, job.mutationId⟩

/-- `_fence`. -/
def fence (now : ℕ) (lease : JobLease) (job : Job) : Bool :=
  decide (job.id = lease.id) && decide (job.status = .running)
    && decide (job.leaseOwner = some lease.leaseOwner) && decide (job.leaseEpoch = lease.leaseEpoch)
    && decide (job.mutationId = lease.mutationId)
    && job.leaseExpiresAt.any fun expiresAt => decide (now < expiresAt)

/-- `_stage_fence`. -/
def stageFence (now : ℕ) (lease : JobLease) (job : Job) : Bool :=
  fence now lease job && decide (job.stage = lease.stage)

/-- `UPDATE jobs … WHERE … RETURNING`: the changed row, or `LostLeaseError` if there is none. -/
def fencedUpdate (p : Job → Bool) (values : Job → Job) : Tx Job := fun db =>
  match db.jobs.find? p with
  | none => .error .lostLease
  | some job => .ok (values job, { db with jobs := modifyWhere p values db.jobs })

/-- A fenced update that returns the lease of the changed row. -/
def fencedLease (p : Job → Bool) (values : Job → Job) : Tx JobLease := fun db => do
  let (job, db) ← fencedUpdate p values db
  match leaseFromJob job with
  | none => throw (.value "Job does not hold a lease")
  | some lease => pure (lease, db)

/-! ## Claiming -/

/-- The jobs that may be claimed: queued, waiting for a retry that is due, or running under a lease
that has expired. -/
def eligible (now : ℕ) (job : Job) : Bool :=
  decide (job.status = .queued)
    || (decide (job.status = .retryWait) && job.nextRetryAt.any fun t => decide (t ≤ now))
    || (decide (job.status = .running) && job.leaseExpiresAt.any fun t => decide (t ≤ now))

/-- The columns a claim writes. -/
def claimValues (leaseOwner : Str) (leaseDuration now : ℕ) (job : Job) : Job :=
  { job with
    status := .running
    attemptCount := job.attemptCount + 1
    leaseEpoch := job.leaseEpoch + 1
    leaseOwner := some leaseOwner
    leaseExpiresAt := some (now + leaseDuration)
    workerHeartbeatAt := some now
    startedAt := some (job.startedAt.getD now)
    finishedAt := none
    nextRetryAt := none
    errorCode := none
    errorMessage := none }

/-- What a claim returns. -/
inductive Claimed
  | lease (lease : JobLease)
  /-- A snapshot of a job whose attempts are used up. -/
  | exhausted (job : Job)
deriving DecidableEq, Repr

/-- `claim_next` on the job it selects.  Which of the eligible jobs comes first depends on the rows
that other transactions have locked, so the job is a parameter. -/
def claimNext (leaseOwner : Str) (leaseDuration jobId : ℕ) : Tx (Option Claimed) := fun db => do
  if leaseOwner = [] ∨ 255 < leaseOwner.length then throw (.value "lease owner is invalid")
  if leaseDuration = 0 then throw (.value "lease duration must be positive")
  let candidate (job : Job) : Bool := decide (job.id = jobId) && eligible db.now job
  match db.jobs.find? candidate with
  | none => pure (none, db)
  | some job =>
      if job.maxAttempts ≤ job.attemptCount then
        if job.attemptCount ≠ job.maxAttempts then throw (.value "Job attempts are not exhausted")
        else pure (some (.exhausted job), db)
      else do
        let (lease, db) ← fencedLease candidate (claimValues leaseOwner leaseDuration db.now) db
        pure (some (.lease lease), db)

/-- `heartbeat`. -/
def heartbeat (lease : JobLease) (leaseDuration : ℕ) : Tx JobLease := fun db => do
  if leaseDuration = 0 then throw (.value "lease duration must be positive")
  fencedLease (fence db.now lease) (fun job =>
    { job with workerHeartbeatAt := some db.now, leaseExpiresAt := some (db.now + leaseDuration) }) db

/-- `release_claim`. -/
def releaseClaim (lease : JobLease) : Tx Unit := fun db => do
  let (_, db) ← fencedUpdate (fence db.now lease) (fun job =>
    { job with
      status := .queued
      attemptCount := job.attemptCount - 1
      retryable := true
      nextRetryAt := none
      errorCode := none
      errorMessage := none
      leaseOwner := none
      leaseExpiresAt := none
      workerHeartbeatAt := none
      finishedAt := none }) db
  pure ((), db)

/-! ## Exhausted attempts -/

def attemptsExhaustedCode : Str := "JOB_ATTEMPTS_EXHAUSTED".toList
def attemptsExhaustedMessage : Str := "Job attempts exhausted".toList

/-- `exhausted_fence`: the job is as it was when its attempts were found used up, and may still be
claimed. -/
def exhaustedFence (now : ℕ) (candidate job : Job) : Bool :=
  decide (job.id = candidate.id) && decide (job.knowledgeBaseId = candidate.knowledgeBaseId)
    && decide (job.operation = candidate.operation) && decide (job.targetType = candidate.targetType)
    && decide (job.targetId = candidate.targetId)
    && decide (job.targetRevision = candidate.targetRevision)
    && decide (job.indexGenerationId = candidate.indexGenerationId)
    && decide (job.mutationId = candidate.mutationId) && decide (job.stage = candidate.stage)
    && decide (job.attemptCount = candidate.attemptCount)
    && decide (job.maxAttempts = candidate.maxAttempts)
    && decide (job.attemptCount = job.maxAttempts)
    && decide (job.nextRetryAt = candidate.nextRetryAt)
    && decide (job.leaseOwner = candidate.leaseOwner)
    && decide (job.leaseEpoch = candidate.leaseEpoch)
    && decide (job.leaseExpiresAt = candidate.leaseExpiresAt)
    && decide (job.cancelRequestedAt = candidate.cancelRequestedAt)
    && decide (job.status = candidate.status) && eligible now job

/-- The columns of a job that ends in failure. -/
def failedValues (retryable : Bool) (errorCode errorMessage : Str) (now : ℕ) (job : Job) : Job :=
  { job with
    status := .failed
    retryable := retryable
    nextRetryAt := none
    errorCode := some errorCode
    errorMessage := some errorMessage
    leaseOwner := none
    leaseExpiresAt := none
    workerHeartbeatAt := none
    finishedAt := some now }

/-- `finalize_exhausted` without a domain action. -/
def finalizeExhausted (candidate : Job) : Tx Unit := fun db => do
  let (_, db) ← fencedUpdate (exhaustedFence db.now candidate)
    (failedValues false attemptsExhaustedCode attemptsExhaustedMessage db.now) db
  pure ((), db)

/-- `finalize_exhausted` with the action that ends the domain rows and the job. -/
def finalizeExhaustedWith (candidate : Job) (action : Tx Unit) : Tx Unit := fun db => do
  let (_, db) ← action db
  if db.jobs.any (fun job => decide (job.id = candidate.id)
      && decide (job.leaseEpoch = candidate.leaseEpoch) && decide (job.status = .failed)
      && decide (job.errorCode = some attemptsExhaustedCode) && decide (job.leaseOwner = none)
      && decide (job.leaseExpiresAt = none)) then pure ((), db)
  else throw .lostLease

/-! ## Fenced writes -/

/-- `_validate_progress`. -/
def validProgress (progressCurrent : ℕ) (progressTotal : Option ℕ) : Bool :=
  progressTotal.all fun total => decide (progressCurrent ≤ total)

/-- The columns of a checkpoint. -/
def checkpointValues (stage resumeStage : Option Stage) (progressCurrent : ℕ)
    (progressTotal : Option ℕ) (job : Job) : Job :=
  { job with stage := stage, resumeStage := resumeStage, progressCurrent := progressCurrent,
             progressTotal := progressTotal }

/-- `checkpoint`. -/
def checkpoint (lease : JobLease) (stage resumeStage : Option Stage) (progressCurrent : ℕ)
    (progressTotal : Option ℕ) : Tx Unit := fun db => do
  if validProgress progressCurrent progressTotal = false then throw (.value "job progress is invalid")
  let (_, db) ← fencedUpdate (fence db.now lease)
    (checkpointValues stage resumeStage progressCurrent progressTotal) db
  pure ((), db)

/-- What a refresh of the rebuild target returns. -/
structure RebuildTargetRefresh where
  targetRevision : ℕ
  progressTotal : ℕ
deriving DecidableEq, Repr

/-- `reset_rebuild_target`. -/
def resetRebuildTarget (lease : JobLease) (action : Tx RebuildTargetRefresh) : Tx JobLease :=
  fun db => do
    if lease.operation ≠ .rebuildGeneration ∨ lease.targetType ≠ .indexGeneration ∨
        (lease.stage ≠ some .indexing ∧ lease.stage ≠ some .validating ∧
          lease.stage ≠ some .complete) then throw (.value "rebuild target reset is invalid")
    let (refresh, db) ← action db
    fencedLease (stageFence db.now lease) (fun job =>
      { checkpointValues (some .indexing) (some .indexing) 0 (some refresh.progressTotal) job with
        targetRevision := some refresh.targetRevision }) db

/-- The shape of the stage commits: fence, domain action, fenced update. -/
def stageCommit {α : Type} (lease : JobLease) (action : Tx α) (values : Job → Job) : Tx Job :=
  fun db => do
    if db.jobs.any (stageFence db.now lease) = false then throw .lostLease
    let (_, db) ← action db
    fencedUpdate (stageFence db.now lease) values db

/-- `advance_stage`. -/
def advanceStage {α : Type} (lease : JobLease) (action : Tx α) (stage resumeStage : Stage)
    (progressCurrent : ℕ) (progressTotal : Option ℕ) : Tx Job := fun db => do
  if validProgress progressCurrent progressTotal = false then throw (.value "job progress is invalid")
  stageCommit lease action
    (checkpointValues (some stage) (some resumeStage) progressCurrent progressTotal) db

/-- `commit_stage_facts`. -/
def commitStageFacts {α : Type} (lease : JobLease) (action : Tx α) : Tx Job :=
  stageCommit lease action id

/-- `commit_stage_checkpoint`. -/
def commitStageCheckpoint {α : Type} (lease : JobLease) (action : Tx α) (progressCurrent : ℕ)
    (progressTotal : Option ℕ) : Tx Job := fun db => do
  if validProgress progressCurrent progressTotal = false then throw (.value "job progress is invalid")
  stageCommit lease action (fun job =>
    { job with progressCurrent := progressCurrent, progressTotal := progressTotal }) db

/-- `prepare_activation`: a fence before and after the domain action. -/
def prepareActivation {α : Type} (lease : JobLease) (action : Tx α) : Tx α := fun db => do
  let (_, db) ← fencedUpdate (fence db.now lease) id db
  let (result, db) ← action db
  let (_, db) ← fencedUpdate (fence db.now lease) id db
  pure (result, db)

/-- `finalize_domain`: the action ends the job itself. -/
def finalizeDomain {α : Type} (lease : JobLease) (action : Tx α) : Tx α := fun db => do
  let (result, db) ← action db
  if db.jobs.any (fun job => decide (job.id = lease.id)
      && decide (job.leaseEpoch = lease.leaseEpoch)
      && decide (job.status = .succeeded ∨ job.status = .failed ∨ job.status = .cancelled)
      && decide (job.leaseOwner = none) && decide (job.leaseExpiresAt = none)) then pure (result, db)
  else throw .lostLease

/-- The columns of a job that a domain action ends in success. -/
def finishedValues (now : ℕ) (job : Job) : Job :=
  { job with
    status := .succeeded
    retryable := false
    nextRetryAt := none
    errorCode := none
    errorMessage := none
    leaseOwner := none
    leaseExpiresAt := none
    workerHeartbeatAt := none
    finishedAt := some now }

/-- The columns of a job that succeeds, or is cancelled if that was asked for. -/
def succeededValues (now : ℕ) (job : Job) : Job :=
  { job with
    status := if job.cancelRequestedAt.isSome then .cancelled else .succeeded
    retryable := false
    nextRetryAt := none
    errorCode := none
    errorMessage := none
    leaseOwner := none
    leaseExpiresAt := none
    workerHeartbeatAt := none
    finishedAt := some now }

/-- `mark_succeeded`. -/
def markSucceeded (lease : JobLease) : Tx Job := fun db =>
  fencedUpdate (fence db.now lease) (succeededValues db.now) db

/-- The columns of a job that is cancelled. -/
def cancelledValues (now : ℕ) (job : Job) : Job :=
  { job with
    status := .cancelled
    retryable := false
    nextRetryAt := none
    leaseOwner := none
    leaseExpiresAt := none
    workerHeartbeatAt := none
    finishedAt := some now }

/-- `mark_cancelled`. -/
def markCancelled (lease : JobLease) : Tx Job := fun db =>
  fencedUpdate (fence db.now lease) (cancelledValues db.now) db

/-- The columns of `record_failure`: cancelled if that was asked for, else a retry while attempts
are left and the failure is retryable, else failed. -/
def failureValues (retryable : Bool) (errorCode errorMessage : Str) (retryDelay now : ℕ) (job : Job) :
    Job :=
  let cancelled := job.cancelRequestedAt.isSome
  let retries := retryable && decide (job.attemptCount < job.maxAttempts)
  { job with
    status := if cancelled then .cancelled else if retries then .retryWait else .failed
    retryable := if cancelled then false else retryable
    nextRetryAt := if cancelled then none else if retries then some (now + retryDelay) else none
    errorCode := if cancelled then none else some errorCode
    errorMessage := if cancelled then none else some errorMessage
    leaseOwner := none
    leaseExpiresAt := none
    workerHeartbeatAt := none
    finishedAt := if cancelled then some now else if retries then none else some now }

/-- `record_failure`. -/
def recordFailure (lease : JobLease) (retryable : Bool) (errorCode errorMessage : Str)
    (retryDelay : ℕ) : Tx Job := fun db => do
  if errorCode = [] ∨ 64 < errorCode.length ∨ errorMessage = [] ∨ 500 < errorMessage.length then
    throw (.value "job failure is invalid")
  fencedUpdate (fence db.now lease) (failureValues retryable errorCode errorMessage retryDelay db.now)
    db

end VeloxRag.Jobs
