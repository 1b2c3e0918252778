import VeloxRag.Jobs.Runner

/-!
# What the fenced writes do

Each write of `Jobs.Repository` that commits has found one row under its fence and has replaced
it.  The lemmas here say so for every write, in terms of that row, and are all that later
modules use of the writes.

## Main definitions

* `Db.setJob` — the database with one job replaced.
* `fence_iff`, `stageFence_iff` — what a fence has checked.
* `fencedUpdate_eq_ok` and one lemma for each write — the row found and the database after.
-/

namespace VeloxRag

open Lib

/-- The database with the job of one identity replaced. -/
abbrev Db.setJob (db : Db) (job : Job) : Db := { db with jobs := setRow (·.id) job db.jobs }

namespace Jobs

/-! ## Sequencing -/

theorem bind_eq_ok {ε α β : Type} {x : Except ε α} {f : α → Except ε β} {b : β} :
    (x >>= f) = .ok b ↔ ∃ a, x = .ok a ∧ f a = .ok b := by
  cases x with
  | error e => simp [bind, Except.bind]
  | ok a => simp [bind, Except.bind]

/-- A guard that raises. -/
theorem guard_eq_ok {ε β : Type} {c : Prop} [Decidable c] {e : ε} {rest : Unit → Except ε β} {b : β} :
    (if c then (throw e >>= rest) else rest ()) = .ok b ↔ ¬c ∧ rest () = .ok b := by
  by_cases h : c
  · simp [h, throw, throwThe, MonadExceptOf.throw, bind, Except.bind]
  · simp [h]

theorem pure_ok_iff {ε α : Type} {a b : α} : (pure a : Except ε α) = .ok b ↔ a = b :=
  ⟨Except.ok.inj, fun h => h ▸ rfl⟩

/-- A check that returns or raises. -/
theorem check_eq_ok {ε α : Type} {c : Prop} [Decidable c] {e : ε} {x : Except ε α} {a : α}
    (h : (if c then x else .error e) = .ok a) : c ∧ x = .ok a := by
  by_cases hc : c
  · rw [if_pos hc] at h
    exact ⟨hc, h⟩
  · rw [if_neg hc] at h
    cases h

/-! ## Fences -/

theorem fence_iff {now : ℕ} {lease : JobLease} {job : Job} :
    fence now lease job = true ↔ job.id = lease.id ∧ job.status = .running ∧
      job.leaseOwner = some lease.leaseOwner ∧ job.leaseEpoch = lease.leaseEpoch ∧
      job.mutationId = lease.mutationId ∧ ∃ t, job.leaseExpiresAt = some t ∧ now < t := by
  simp only [fence, Bool.and_eq_true, decide_eq_true_eq, Option.any_eq_true]
  tauto

theorem stageFence_iff {now : ℕ} {lease : JobLease} {job : Job} :
    stageFence now lease job = true ↔ fence now lease job = true ∧ job.stage = lease.stage := by
  simp only [stageFence, Bool.and_eq_true, decide_eq_true_eq]

theorem exhaustedFence_iff {now : ℕ} {candidate job : Job} (h : exhaustedFence now candidate job = true) :
    job.id = candidate.id ∧ job.operation = candidate.operation ∧
      job.targetType = candidate.targetType ∧ job.targetId = candidate.targetId ∧
      job.indexGenerationId = candidate.indexGenerationId ∧
      job.knowledgeBaseId = candidate.knowledgeBaseId ∧ job.stage = candidate.stage ∧
      job.attemptCount = job.maxAttempts ∧ job.leaseEpoch = candidate.leaseEpoch ∧
      eligible now job = true := by
  simp only [exhaustedFence, Bool.and_eq_true, decide_eq_true_eq] at h
  tauto

/-- A job that may be claimed is active. -/
theorem eligible_active {now : ℕ} {job : Job} (h : eligible now job = true) : job.status.isActive = true := by
  simp only [eligible, Bool.or_eq_true, Bool.and_eq_true, decide_eq_true_eq] at h
  rcases h with (h | h) | h
  · rw [h]
    rfl
  · rw [h.1]
    rfl
  · rw [h.1]
    rfl

theorem leaseFromJob_eq_some {job : Job} {lease : JobLease} (h : leaseFromJob job = some lease) :
    job.status = .running ∧ job.leaseOwner = some lease.leaseOwner ∧
      job.leaseExpiresAt = some lease.leaseExpiresAt ∧
      lease = ⟨job.id, job.operation, job.targetType, job.targetId, job.targetRevision,
        job.indexGenerationId, job.stage, job.resumeStage, job.progressCurrent, job.progressTotal,
        job.attemptCount, job.maxAttempts, lease.leaseOwner, job.leaseEpoch, lease.leaseExpiresAt,
        job.cancelRequestedAt, job.mutationId⟩ := by
  unfold leaseFromJob at h
  split at h
  · simp at h
  · rename_i hstatus
    simp only [Option.bind_eq_bind, Option.bind_eq_some_iff] at h
    obtain ⟨owner, howner, t, ht, h⟩ := h
    obtain rfl := Option.some.inj h
    exact ⟨by simpa using hstatus, howner, ht, rfl⟩

/-! ## The fenced update -/

variable {db db' : Db} {job : Job} {lease lease' : JobLease}

/-- **A fenced update that commits** has replaced the one row that passed its fence. -/
theorem fencedUpdate_eq_ok {p : Job → Bool} {values : Job → Job} {id : ℕ}
    (hkeys : (db.jobs.map (·.id)).Nodup) (h : fencedUpdate p values db = .ok (job, db'))
    (hp : ∀ j, p j = true → j.id = id) (hvalues : ∀ j, (values j).id = j.id) :
    ∃ J ∈ db.jobs, p J = true ∧ job = values J ∧ db' = db.setJob (values J) := by
  unfold fencedUpdate at h
  split at h
  · simp at h
  · rename_i J hfind
    simp only [Except.ok.injEq, Prod.mk.injEq] at h
    refine ⟨J, List.mem_of_find?_eq_some hfind, List.find?_some hfind, h.1.symm, ?_⟩
    rw [← h.2, modifyWhere_eq_setRow hkeys hp hfind (hvalues J)]

theorem fencedLease_eq_ok {p : Job → Bool} {values : Job → Job} {id : ℕ}
    (hkeys : (db.jobs.map (·.id)).Nodup) (h : fencedLease p values db = .ok (lease', db'))
    (hp : ∀ j, p j = true → j.id = id) (hvalues : ∀ j, (values j).id = j.id) :
    ∃ J ∈ db.jobs, p J = true ∧ leaseFromJob (values J) = some lease' ∧
      db' = db.setJob (values J) := by
  unfold fencedLease at h
  obtain ⟨⟨job, db₁⟩, hupdate, h⟩ := bind_eq_ok.mp h
  obtain ⟨J, hJ, hpJ, rfl, rfl⟩ := fencedUpdate_eq_ok hkeys hupdate hp hvalues
  dsimp only at h
  split at h
  · cases h
  · rename_i lease hlease
    simp only [pure_ok_iff, Prod.mk.injEq] at h
    exact ⟨J, hJ, hpJ, by rw [hlease, h.1], h.2.symm⟩

theorem fence_id {now : ℕ} (j : Job) (h : fence now lease j = true) : j.id = lease.id := (fence_iff.mp h).1

theorem stageFence_id {now : ℕ} (j : Job) (h : stageFence now lease j = true) : j.id = lease.id :=
  fence_id j (stageFence_iff.mp h).1

/-! ## The writes -/

theorem claimNext_eq_ok {owner : Str} {duration jobId : ℕ} {claimed : Option Claimed}
    (hkeys : (db.jobs.map (·.id)).Nodup) (h : claimNext owner duration jobId db = .ok (claimed, db')) :
    (∃ J ∈ db.jobs, J.id = jobId ∧ eligible db.now J = true ∧ J.attemptCount < J.maxAttempts ∧
      0 < duration ∧ ∃ lease, leaseFromJob (claimValues owner duration db.now J) = some lease ∧
        claimed = some (.lease lease) ∧ db' = db.setJob (claimValues owner duration db.now J)) ∨
    ((∀ lease, claimed ≠ some (.lease lease)) ∧ db' = db) := by
  unfold claimNext at h
  obtain ⟨-, h⟩ := guard_eq_ok.mp h
  obtain ⟨hduration, h⟩ := guard_eq_ok.mp h
  dsimp only at h
  split at h
  · simp only [pure_ok_iff, Prod.mk.injEq] at h
    rw [← h.1, ← h.2]
    exact .inr ⟨by simp, rfl⟩
  · rename_i J hfind
    have hJ : J ∈ db.jobs := List.mem_of_find?_eq_some hfind
    have hcand := List.find?_some hfind
    simp only [Bool.and_eq_true, decide_eq_true_eq] at hcand
    split at h
    · split at h
      · cases h
      · simp only [pure_ok_iff, Prod.mk.injEq] at h
        rw [← h.1, ← h.2]
        exact .inr ⟨by simp, rfl⟩
    · rename_i hleft
      obtain ⟨⟨lease, db₁⟩, hlease, h⟩ := bind_eq_ok.mp h
      have hid (j : Job) (hj : (decide (j.id = jobId) && eligible db.now j) = true) : j.id = jobId := by
        simp only [Bool.and_eq_true, decide_eq_true_eq] at hj
        exact hj.1
      obtain ⟨J', hJ', hp, hfrom, rfl⟩ := fencedLease_eq_ok hkeys hlease hid (fun _ => rfl)
      simp only [Bool.and_eq_true, decide_eq_true_eq] at hp
      obtain rfl : J' = J := row_unique hkeys hJ' hJ (hp.1.trans hcand.1.symm)
      simp only [pure_ok_iff, Prod.mk.injEq] at h
      refine .inl ⟨J', hJ, hp.1, hp.2, by omega, by omega, lease, hfrom, h.1.symm, h.2.symm⟩

/-- The columns a heartbeat writes. -/
def heartbeatValues (leaseDuration now : ℕ) (job : Job) : Job :=
  { job with workerHeartbeatAt := some now, leaseExpiresAt := some (now + leaseDuration) }

theorem heartbeat_eq_ok {duration : ℕ} (hkeys : (db.jobs.map (·.id)).Nodup)
    (h : heartbeat lease duration db = .ok (lease', db')) :
    0 < duration ∧ ∃ J ∈ db.jobs, fence db.now lease J = true ∧
      leaseFromJob (heartbeatValues duration db.now J) = some lease' ∧
      db' = db.setJob (heartbeatValues duration db.now J) := by
  unfold heartbeat at h
  obtain ⟨hduration, h⟩ := guard_eq_ok.mp h
  have hbeat : fencedLease (fence db.now lease) (heartbeatValues duration db.now) db = .ok (lease', db') := h
  exact ⟨by omega, fencedLease_eq_ok hkeys hbeat fence_id (fun _ => rfl)⟩

/-- The columns a release writes. -/
def releaseValues (job : Job) : Job :=
  { job with
    status := .queued
    attemptCount := job.attemptCount - 1
    retryable := true
    nextRetryAt := none
    errorCode := none
    errorMessage := none
    leaseOwner := none
    leaseExpiresAt := none
    workerHeartbeatAt := none
    finishedAt := none }

theorem releaseClaim_eq_ok {a : Unit} (hkeys : (db.jobs.map (·.id)).Nodup)
    (h : releaseClaim lease db = .ok (a, db')) :
    ∃ J ∈ db.jobs, fence db.now lease J = true ∧ db' = db.setJob (releaseValues J) := by
  unfold releaseClaim at h
  obtain ⟨⟨job, db₁⟩, hupdate, h⟩ := bind_eq_ok.mp h
  have hrelease : fencedUpdate (fence db.now lease) releaseValues db = .ok (job, db₁) := hupdate
  obtain ⟨J, hJ, hp, -, rfl⟩ := fencedUpdate_eq_ok hkeys hrelease fence_id (fun _ => rfl)
  simp only [pure_ok_iff, Prod.mk.injEq] at h
  exact ⟨J, hJ, hp, h.2.symm⟩

theorem finalizeExhausted_eq_ok {candidate : Job} {a : Unit} (hkeys : (db.jobs.map (·.id)).Nodup)
    (h : finalizeExhausted candidate db = .ok (a, db')) :
    ∃ J ∈ db.jobs, exhaustedFence db.now candidate J = true ∧
      db' = db.setJob (failedValues false attemptsExhaustedCode attemptsExhaustedMessage db.now J) := by
  unfold finalizeExhausted at h
  obtain ⟨⟨job, db₁⟩, hupdate, h⟩ := bind_eq_ok.mp h
  obtain ⟨J, hJ, hp, -, rfl⟩ := fencedUpdate_eq_ok hkeys hupdate (fun j hj => (exhaustedFence_iff hj).1)
    (fun _ => rfl)
  simp only [pure_ok_iff, Prod.mk.injEq] at h
  exact ⟨J, hJ, hp, h.2.symm⟩

theorem finalizeExhaustedWith_eq_ok {candidate : Job} {action : Tx Unit} {a : Unit}
    (h : finalizeExhaustedWith candidate action db = .ok (a, db')) : action db = .ok ((), db') := by
  unfold finalizeExhaustedWith at h
  obtain ⟨⟨r, db₁⟩, haction, h⟩ := bind_eq_ok.mp h
  dsimp only at h
  split at h
  · simp only [pure_ok_iff, Prod.mk.injEq] at h
    rw [haction, h.2]
  · cases h

/-- **A stage commit**: the job passes the fence before and after the action, which leaves the jobs
and the clock alone. -/
theorem stageCommit_eq_ok {α : Type} {action : Tx α} {values : Job → Job}
    (hkeys : (db.jobs.map (·.id)).Nodup) (h : stageCommit lease action values db = .ok (job, db'))
    (hvalues : ∀ j, (values j).id = j.id)
    (haction : ∀ r db₁, action db = .ok (r, db₁) → db₁.jobs = db.jobs ∧ db₁.now = db.now) :
    ∃ J ∈ db.jobs, stageFence db.now lease J = true ∧ job = values J ∧
      ∃ r db₁, action db = .ok (r, db₁) ∧ db' = db₁.setJob (values J) := by
  unfold stageCommit at h
  obtain ⟨-, h⟩ := guard_eq_ok.mp h
  obtain ⟨⟨r, db₁⟩, hact, h⟩ := bind_eq_ok.mp h
  obtain ⟨hjobs, hnow⟩ := haction r db₁ hact
  dsimp only at h
  obtain ⟨J, hJ, hp, rfl, rfl⟩ := fencedUpdate_eq_ok (hjobs ▸ hkeys) h stageFence_id hvalues
  rw [hjobs] at hJ
  rw [hnow] at hp
  exact ⟨J, hJ, hp, rfl, r, db₁, hact, rfl⟩

theorem stageCommit_of_advanceStage {α : Type} {action : Tx α} {stage resumeStage : Stage} {current : ℕ}
    {total : Option ℕ} {r : Job × Db}
    (h : advanceStage lease action stage resumeStage current total db = .ok r) :
    stageCommit lease action (checkpointValues (some stage) (some resumeStage) current total) db = .ok r := by
  unfold advanceStage at h
  exact (guard_eq_ok.mp h).2

theorem advanceStage_eq_ok {α : Type} {action : Tx α} {stage resumeStage : Stage} {current : ℕ}
    {total : Option ℕ} (hkeys : (db.jobs.map (·.id)).Nodup)
    (haction : ∀ r db₁, action db = .ok (r, db₁) → db₁.jobs = db.jobs ∧ db₁.now = db.now)
    (h : advanceStage lease action stage resumeStage current total db = .ok (job, db')) :
    ∃ J ∈ db.jobs, stageFence db.now lease J = true ∧
      job = checkpointValues (some stage) (some resumeStage) current total J ∧
      ∃ r db₁, action db = .ok (r, db₁) ∧
        db' = db₁.setJob (checkpointValues (some stage) (some resumeStage) current total J) := by
  exact stageCommit_eq_ok hkeys (stageCommit_of_advanceStage h) (fun _ => rfl) haction

/-- The columns of a checkpoint inside a stage. -/
def progressValues (progressCurrent : ℕ) (progressTotal : Option ℕ) (job : Job) : Job :=
  { job with progressCurrent := progressCurrent, progressTotal := progressTotal }

theorem stageCommit_of_commitStageCheckpoint {α : Type} {action : Tx α} {current : ℕ}
    {total : Option ℕ} {r : Job × Db} (h : commitStageCheckpoint lease action current total db = .ok r) :
    stageCommit lease action (progressValues current total) db = .ok r := by
  unfold commitStageCheckpoint at h
  exact (guard_eq_ok.mp h).2

theorem commitStageCheckpoint_eq_ok {α : Type} {action : Tx α} {current : ℕ} {total : Option ℕ}
    (hkeys : (db.jobs.map (·.id)).Nodup)
    (haction : ∀ r db₁, action db = .ok (r, db₁) → db₁.jobs = db.jobs ∧ db₁.now = db.now)
    (h : commitStageCheckpoint lease action current total db = .ok (job, db')) :
    ∃ J ∈ db.jobs, stageFence db.now lease J = true ∧ job = progressValues current total J ∧
      ∃ r db₁, action db = .ok (r, db₁) ∧ db' = db₁.setJob (progressValues current total J) := by
  exact stageCommit_eq_ok hkeys (stageCommit_of_commitStageCheckpoint h) (fun _ => rfl) haction

/-- The columns of a rebuild that starts over at a revision. -/
def resetValues (refresh : RebuildTargetRefresh) (job : Job) : Job :=
  { checkpointValues (some .indexing) (some .indexing) 0 (some refresh.progressTotal) job with
    targetRevision := some refresh.targetRevision }

theorem resetRebuildTarget_eq_ok {action : Tx RebuildTargetRefresh}
    (hkeys : (db.jobs.map (·.id)).Nodup)
    (haction : ∀ r db₁, action db = .ok (r, db₁) → db₁ = db)
    (h : resetRebuildTarget lease action db = .ok (lease', db')) :
    lease.operation = .rebuildGeneration ∧ ∃ J ∈ db.jobs, stageFence db.now lease J = true ∧
      ∃ refresh, action db = .ok (refresh, db) ∧ leaseFromJob (resetValues refresh J) = some lease' ∧
        db' = db.setJob (resetValues refresh J) := by
  unfold resetRebuildTarget at h
  obtain ⟨hlease, h⟩ := guard_eq_ok.mp h
  obtain ⟨⟨refresh, db₁⟩, hact, hreset⟩ := bind_eq_ok.mp h
  obtain rfl := haction refresh db₁ hact
  have hlease' : fencedLease (stageFence db₁.now lease) (resetValues refresh) db₁ = .ok (lease', db') := hreset
  obtain ⟨J, hJ, hp, hfrom, rfl⟩ := fencedLease_eq_ok hkeys hlease' stageFence_id (fun _ => rfl)
  refine ⟨?_, J, hJ, hp, refresh, hact, hfrom, rfl⟩
  by_contra hop
  exact hlease (.inl hop)

theorem finalizeDomain_eq_ok {α : Type} {action : Tx α} {result : α}
    (h : finalizeDomain lease action db = .ok (result, db')) : action db = .ok (result, db') := by
  unfold finalizeDomain at h
  obtain ⟨⟨r, db₁⟩, hact, h⟩ := bind_eq_ok.mp h
  dsimp only at h
  split at h
  · simp only [pure_ok_iff] at h
    rw [hact, h]
  · cases h

theorem markSucceeded_eq_ok (hkeys : (db.jobs.map (·.id)).Nodup)
    (h : markSucceeded lease db = .ok (job, db')) :
    ∃ J ∈ db.jobs, fence db.now lease J = true ∧ db' = db.setJob (succeededValues db.now J) := by
  unfold markSucceeded at h
  obtain ⟨J, hJ, hp, -, rfl⟩ := fencedUpdate_eq_ok hkeys h fence_id (fun _ => rfl)
  exact ⟨J, hJ, hp, rfl⟩

theorem recordFailure_eq_ok {retryable : Bool} {code message : Str} {delay : ℕ}
    (hkeys : (db.jobs.map (·.id)).Nodup)
    (h : recordFailure lease retryable code message delay db = .ok (job, db')) :
    ∃ J ∈ db.jobs, fence db.now lease J = true ∧
      db' = db.setJob (failureValues retryable code message delay db.now J) := by
  unfold recordFailure at h
  obtain ⟨-, h⟩ := guard_eq_ok.mp h
  obtain ⟨J, hJ, hp, -, rfl⟩ := fencedUpdate_eq_ok hkeys h fence_id (fun _ => rfl)
  exact ⟨J, hJ, hp, rfl⟩

/-- The columns the runner writes after a typed error. -/
def errorValues (error : JobExecutionError) (delay now : ℕ) (job : Job) : Job :=
  failureValues error.retryable error.code error.message (if error.retryable then delay else 0) now job

theorem recordError_eq_ok {error : JobExecutionError} {delay : ℕ} {a : Unit}
    (hkeys : (db.jobs.map (·.id)).Nodup) (h : recordError lease error delay db = .ok (a, db')) :
    ∃ J ∈ db.jobs, fence db.now lease J = true ∧ db' = db.setJob (errorValues error delay db.now J) := by
  unfold recordError at h
  obtain ⟨⟨job, db₁⟩, hrecord, h⟩ := bind_eq_ok.mp h
  obtain ⟨J, hJ, hp, rfl⟩ := recordFailure_eq_ok hkeys hrecord
  simp only [pure_ok_iff, Prod.mk.injEq] at h
  exact ⟨J, hJ, hp, h.2.symm⟩

/-- The error that the runner records. -/
def recordedError : Raised → Option JobExecutionError
  | .jobError error => some error
  | .lostLease => none
  | .other => some handlerFailed

theorem afterRaised_eq_ok {raised : Raised} {delay : ℕ} {a : Unit}
    (hkeys : (db.jobs.map (·.id)).Nodup) (h : afterRaised lease raised delay db = .ok (a, db')) :
    ∃ error, recordedError raised = some error ∧ ∃ J ∈ db.jobs, fence db.now lease J = true ∧
      db' = db.setJob (errorValues error delay db.now J) := by
  cases raised with
  | jobError error => exact ⟨error, rfl, recordError_eq_ok hkeys h⟩
  | lostLease => cases h
  | other => exact ⟨handlerFailed, rfl, recordError_eq_ok hkeys h⟩

end Jobs

end VeloxRag
