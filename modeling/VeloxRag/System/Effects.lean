import VeloxRag.Indexing.GenerationWrites
import VeloxRag.Indexing.RepairWrites
import VeloxRag.Ingestion.StageWrites
import VeloxRag.Ingestion.UploadWrites
import VeloxRag.System.Step

/-!
# What a step does

A step of the system is one of some twenty changes of the rows, each with what the transaction
had checked before.  `Effect` lists them, and `effect_of_apply` shows that every operation that
commits has one of them; every invariant is then a case analysis of `Effect`.

## Main definitions

* `JobWrite` — the changes of a single job.
* `Effect` — the changes.
* `effect_of_apply` — an operation that commits has such an effect.
-/

namespace VeloxRag

open Lib Jobs Ingestion Indexing Metadata

/-- The error that the runner records after an exception of a stage. -/
def stageError (lease : JobLease) (exception : StageException) : Option JobExecutionError :=
  match jobErrorOf exception with
  | some error =>
      if error.retryable = false ∨ lease.maxAttempts ≤ lease.attemptCount then none else some error
  | none => if exception = .lostLease then none else some handlerFailed

/-- A lease is in force: its job is running under its owner and its epoch, and it has not expired. -/
structure Jobs.JobLease.InForce (now : ℕ) (lease : JobLease) (job : Job) : Prop where
  id : job.id = lease.id
  running : job.status = .running
  owner : job.leaseOwner = some lease.leaseOwner
  epoch : job.leaseEpoch = lease.leaseEpoch
  unexpired : ∃ t, job.leaseExpiresAt = some t ∧ now < t

/-- **The changes of one job and nothing else**, with the leases they issue. -/
inductive JobWrite (settings : Settings) (s : Sys) (job : Job) : Op → Job → List JobLease → Prop
  | claimed (owner : Str) (duration : ℕ) (lease : JobLease) (eligible : eligible s.db.now job = true)
      (left : job.attemptCount < job.maxAttempts) (positive : 0 < duration)
      (issued : leaseFromJob (claimValues owner duration s.db.now job) = some lease) :
      JobWrite settings s job (.claimed owner duration job.id)
        (claimValues owner duration s.db.now job) [lease]
  | heartbeat (lease lease' : JobLease) (duration : ℕ) (held : lease ∈ s.leases)
      (fence : fence s.db.now lease job = true)
      (issued : leaseFromJob (heartbeatValues duration s.db.now job) = some lease') :
      JobWrite settings s job (.heartbeatSent lease duration)
        (heartbeatValues duration s.db.now job) [lease']
  | released (lease : JobLease) (held : lease ∈ s.leases) (fence : fence s.db.now lease job = true) :
      JobWrite settings s job (.released lease) (releaseValues job) []
  | exhausted (candidate : Job) (operation : job.operation ≠ .ingestDocument)
      (fence : exhaustedFence s.db.now candidate job = true) :
      JobWrite settings s job (.exhausted candidate)
        (failedValues false attemptsExhaustedCode attemptsExhaustedMessage s.db.now job) []
  | stageRaised (lease : JobLease) (exception : StageException) (delay : ℕ) (error : JobExecutionError)
      (held : lease ∈ s.leases) (operation : lease.operation = .ingestDocument)
      (fence : fence s.db.now lease job = true) (raised : stageError lease exception = some error) :
      JobWrite settings s job (.stageRaised lease exception delay)
        (errorValues error delay s.db.now job) []
  | repairRaised (lease : JobLease) (raised : Raised) (delay : ℕ) (error : JobExecutionError)
      (held : lease ∈ s.leases) (operation : lease.operation = .rebuildGeneration)
      (fence : fence s.db.now lease job = true) :
      JobWrite settings s job (.repairRaised lease raised delay)
        (errorValues error delay s.db.now job) []
  | purgeRaised (lease : JobLease) (delay : ℕ) (held : lease ∈ s.leases)
      (purge : purgeLease lease = true) (fence : fence s.db.now lease job = true) :
      JobWrite settings s job (.purgeRaised lease delay)
        (errorValues handlerFailed delay s.db.now job) []
  | purgeSucceeded (lease : JobLease) (held : lease ∈ s.leases) (purge : purgeLease lease = true)
      (returned : (lease.id, lease.leaseEpoch) ∈ s.purged) (fence : fence s.db.now lease job = true) :
      JobWrite settings s job (.purgeSucceeded lease) (succeededValues s.db.now job) []
  | rebuilt (op : Op) (lease : JobLease) (after : Job) (leases : List JobLease) (held : lease ∈ s.leases)
      (fence : stageFence s.db.now lease job = true)
      (write : RebuildWrite settings.digest s.db lease job after)
      (issued : leases = [] ∨ leases = (leaseFromJob after).toList) (used : op.lease? = some lease) :
      JobWrite settings s job op after leases

/-- What an operation that ends an ingestion in failure has checked of its job. -/
inductive EndFence (s : Sys) (job : Job) : Op → Prop
  | leased (op : Op) (lease : JobLease) (used : op.lease? = some lease) (held : lease ∈ s.leases)
      (inForce : lease.InForce s.db.now job) : EndFence s job op
  | exhausted (candidate : Job) (fence : exhaustedFence s.db.now candidate job = true) :
      EndFence s job (.exhausted candidate)

/-- **The effects of the operations.** -/
inductive Effect (settings : Settings) (s : Sys) : Op → Sys → Prop
  | idle (op : Op) (free : op.lease? = none) : Effect settings s op s
  | tick (elapsed : ℕ) :
      Effect settings s (.tick elapsed) { s with db := { s.db with now := s.db.now + elapsed } }
  | job (op : Op) (job after : Job) (leases : List JobLease) (mem : job ∈ s.db.jobs)
      (write : JobWrite settings s job op after leases) :
      Effect settings s op { s with db := s.db.setJob after, leases := s.leases ++ leases }
  | stage (op : Op) (lease : JobLease) (graph : StageGraph) (job after : Job) (version : Version)
      (state : IndexState) (leases : List JobLease) (held : lease ∈ s.leases)
      (commit : StageCommit settings.digest settings.chunkDefaults s.db lease graph job version state after)
      (issued : leases = [] ∨ leases = (leaseFromJob after).toList) (used : op.lease? = some lease) :
      Effect settings s op
        { s with db := writeStage version state after s.db, leases := s.leases ++ leases }
  | failed (op : Op) (graph : StageGraph) (job : Job) (retryable : Bool) (code message : Str)
      (failure : TerminalFailure s.db graph job) (operation : job.operation = .ingestDocument)
      (fence : EndFence s job op) :
      Effect settings s op { s with
        db := applyTerminalFailure graph job retryable code message s.db }
  | activated (lease : JobLease) (expected : ActivationStageInput) (graph : StageGraph) (job : Job)
      (mutationId : ℕ) (held : lease ∈ s.leases) (fresh : s.Fresh mutationId)
      (activation : Activation s.db lease graph job) :
      Effect settings s (.activated lease expected mutationId) { s with
        db := applyActivation graph job mutationId s.db }
  | uploaded (request : UploadRequest) (documentId versionId jobId mutationId : ℕ)
      (checks : Except TxError Unit) (knowledgeBase : KnowledgeBase) (generation : Generation)
      (fresh : s.Fresh documentId ∧ s.Fresh versionId ∧ s.Fresh jobId ∧ s.Fresh mutationId)
      (creates : UploadCreates s.db (uploadReservation request documentId versionId jobId) knowledgeBase
        generation) :
      Effect settings s (.upload request documentId versionId jobId mutationId checks) { s with
        db := applyUpload (uploadReservation request documentId versionId jobId) knowledgeBase
          generation mutationId s.db }
  | retried (op : Op) (jobId : ℕ) (db : Db) (fresh : s.Fresh jobId)
      (write : RetryWrite settings.digest.configHash s.db jobId db) (free : op.lease? = none) :
      Effect settings s op { s with db := db }
  | repaired (op : Op) (configured : Bool) (knowledgeBase : KnowledgeBase) (generation : Generation)
      (snapshot : RepairSnapshot) (jobId : ℕ) (fresh : s.Fresh jobId)
      (knowledgeBase_mem : knowledgeBase ∈ s.db.knowledgeBases)
      (generation_mem : generation ∈ s.db.generations)
      (knowledgeBaseId : knowledgeBase.id = snapshot.knowledgeBaseId)
      (generationId : generation.id = snapshot.generationId)
      (noRepair : activeRepairExists s.db generation.id = false)
      (noIngestion : activeIngestionExists s.db knowledgeBase.id generation.id = false)
      (rows : snapshotFromRows settings.digest configured s.db knowledgeBase generation = .ok snapshot)
      (free : op.lease? = none) :
      Effect settings s op { s with
        db := { s.db with jobs := s.db.jobs ++ [repairJob jobId snapshot] } }
  | saga (op : Op) (delayed : Bool) (db : Db) (reservations : List Reservation)
      (of_delayed : delayed = true → ∃ reservation jobId, op = .generationActivated reservation jobId ∧
        delayedActivation s.db reservation = true)
      (write : db = s.db ∨ SagaWrite settings.identities s.reservations s.Fresh s.db delayed db)
      (backed : ∀ reservation ∈ reservations, reservation.Backed db) (free : op.lease? = none) :
      Effect settings s op { s with db := db, reservations := s.reservations ++ reservations }
  | claims (op : Op) (claims : List CleanupClaim) (write : ClaimWrite s.db claims)
      (free : op.lease? = none) :
      Effect settings s op { s with db := { s.db with cleanupClaims := claims } }
  | created (knowledgeBaseId : ℕ) (fresh : s.Fresh knowledgeBaseId) :
      Effect settings s (.created knowledgeBaseId) { s with
        db := { s.db with knowledgeBases := s.db.knowledgeBases ++ [newKnowledgeBase knowledgeBaseId] } }
  | updated (op : Op) (knowledgeBase : KnowledgeBase) (status : PatchStatus)
      (mem : knowledgeBase ∈ s.db.knowledgeBases) (kept : knowledgeBase.status ≠ .deleting)
      (free : op.lease? = none) :
      Effect settings s op { s with
        db := { s.db with
          knowledgeBases := setRow (·.id) { knowledgeBase with status := status.status }
            s.db.knowledgeBases } }
  | schemaReplaced (op : Op) (knowledgeBase : KnowledgeBase) (canonical : Str) (mutationId : ℕ)
      (mem : knowledgeBase ∈ s.db.knowledgeBases) (fresh : s.Fresh mutationId)
      (thawed : filterSchemaFrozen s.db knowledgeBase.id = false) (free : op.lease? = none) :
      Effect settings s op { s with
        db := { s.db with
          knowledgeBases := setRow (·.id) { knowledgeBase with
            filterSchema := canonical
            mutationRevision := knowledgeBase.mutationRevision + 1
            filterSchemaRevision := knowledgeBase.filterSchemaRevision + 1 } s.db.knowledgeBases
          mutations := s.db.mutations ++ [⟨mutationId, knowledgeBase.id,
            knowledgeBase.mutationRevision + 1, .filterSchemaChanged⟩] } }
  | deleted (op : Op) (knowledgeBase : KnowledgeBase) (actorId jobId : ℕ)
      (mem : knowledgeBase ∈ s.db.knowledgeBases) (fresh : s.Fresh jobId)
      (kept : knowledgeBase.status ≠ .deleting) (free : op.lease? = none) :
      Effect settings s op { s with
        db := { s.db with
          knowledgeBases := setRow (·.id) { knowledgeBase with status := .deleting } s.db.knowledgeBases
          jobs := s.db.jobs ++ [purgeJob jobId actorId knowledgeBase.id] } }
  | purged (op : Op) (lease : JobLease) (db : Db) (held : lease ∈ s.leases)
      (purge : purgeLease lease = true) (knowledgeBase : KnowledgeBase)
      (mem : knowledgeBase ∈ s.db.knowledgeBases) (target : knowledgeBase.id = lease.targetId)
      (deleting : knowledgeBase.status = .deleting)
      (rows : deleteRows lease.targetId s.db = .ok ((), db)) (purges : op = .purged lease) :
      Effect settings s op { s with db := db, purged := s.purged ++ [(lease.id, lease.leaseEpoch)] }
  | purgeReturned (op : Op) (lease : JobLease) (held : lease ∈ s.leases)
      (purge : purgeLease lease = true) (gone : purgeCollections s.db lease.targetId = none)
      (purges : op = .purged lease) :
      Effect settings s op { s with purged := s.purged ++ [(lease.id, lease.leaseEpoch)] }

theorem inForce_of_fence {now : ℕ} {lease : JobLease} {job : Job} (h : fence now lease job = true) :
    lease.InForce now job := by
  obtain ⟨hid, hrunning, howner, hepoch, -, hexpires⟩ := fence_iff.mp h
  exact ⟨hid, hrunning, howner, hepoch, hexpires⟩

theorem inForce_of_stageFence {now : ℕ} {lease : JobLease} {job : Job}
    (h : stageFence now lease job = true) : lease.InForce now job := inForce_of_fence (stageFence_iff.mp h).1

theorem terminalFence_inForce {now : ℕ} {lease : JobLease} {knowledgeBaseId : ℕ} {job : Job}
    (h : terminalFence now lease knowledgeBaseId job = true) : lease.InForce now job := by
  simp only [terminalFence, Bool.and_eq_true, decide_eq_true_eq, Option.any_eq_true] at h
  exact ⟨by tauto, by tauto, by tauto, by tauto, by tauto⟩

/-! ## Transactions on the state -/

namespace Sys

variable {s s' : Sys}

theorem commit_eq_some {α : Type} {tx : Tx α} (h : s.commit tx = some s') :
    ∃ a db, tx s.db = .ok (a, db) ∧ s' = { s with db := db } := by
  unfold commit at h
  split at h
  · rename_i a db htx
    exact ⟨a, db, htx, (Option.some.inj h).symm⟩
  · cases h

theorem issue_eq_some {tx : Tx JobLease} (h : s.issue tx = some s') :
    ∃ lease db, tx s.db = .ok (lease, db) ∧ s' = { s with db := db, leases := s.leases ++ [lease] } := by
  unfold issue at h
  split at h
  · rename_i lease db htx
    exact ⟨lease, db, htx, (Option.some.inj h).symm⟩
  · cases h

theorem renew_eq_some {tx : Tx Job} (h : s.renew tx = some s') :
    ∃ job db, tx s.db = .ok (job, db) ∧
      s' = { s with db := db, leases := s.leases ++ (leaseFromJob job).toList } := by
  unfold renew at h
  split at h
  · rename_i job db htx
    exact ⟨job, db, htx, (Option.some.inj h).symm⟩
  · cases h

end Sys

/-- A guarded step. -/
theorem ite_eq_some {α : Type} {c : Prop} [Decidable c] {x : Option α} {a : α}
    (h : (if c then x else none) = some a) : c ∧ x = some a := by
  by_cases hc : c
  · rw [if_pos hc] at h
    exact ⟨hc, h⟩
  · rw [if_neg hc] at h
    cases h

/-! ## Every operation has an effect -/

section Operations

variable {settings : Settings} {s s' : Sys}

theorem Effect.of_job {op : Op} {job after : Job} (mem : job ∈ s.db.jobs)
    (write : JobWrite settings s job op after []) :
    Effect settings s op { s with db := s.db.setJob after } := by
  have h := Effect.job op job after [] mem write
  rwa [List.append_nil] at h

theorem Effect.of_stage {op : Op} {lease : JobLease} {graph : StageGraph} {job after : Job}
    {version : Version} {state : IndexState} (held : lease ∈ s.leases)
    (commit : StageCommit settings.digest settings.chunkDefaults s.db lease graph job version state after)
    (used : op.lease? = some lease) :
    Effect settings s op { s with db := writeStage version state after s.db } := by
  have h := Effect.stage op lease graph job after version state [] held commit (.inl rfl) used
  rwa [List.append_nil] at h

theorem Effect.of_saga {op : Op} {db : Db}
    (write : db = s.db ∨ SagaWrite settings.identities s.reservations s.Fresh s.db false db)
    (free : op.lease? = none) : Effect settings s op { s with db := db } := by
  have h := Effect.saga op false db [] (by simp) write (by simp) free
  rwa [List.append_nil] at h

theorem effect_claimed {owner : Str} {duration jobId : ℕ} (hkeys : s.db.WellKeyed)
    (h : claimLease owner duration jobId s = some s') :
    Effect settings s (.claimed owner duration jobId) s' := by
  unfold claimLease at h
  split at h
  · rename_i lease db htx
    obtain rfl := Option.some.inj h
    rcases claimNext_eq_ok hkeys.jobs htx with ⟨J, hJ, rfl, heligible, hleft, hpos, L, hL, hclaimed, rfl⟩ | ⟨hno, -⟩
    · obtain rfl : lease = L := by simpa using hclaimed
      exact .job _ J _ _ hJ (.claimed owner duration lease heligible hleft hpos hL)
    · exact absurd rfl (hno lease)
  · rename_i claimed db hno htx
    obtain rfl := Option.some.inj h
    rcases claimNext_eq_ok hkeys.jobs htx with ⟨_, _, _, _, _, _, L, _, hclaimed, _⟩ | ⟨_, rfl⟩
    · exact absurd hclaimed (hno L)
    · exact .idle _ rfl
  · cases h

theorem effect_exhausted {candidate : Job} (hkeys : s.db.WellKeyed)
    (h : s.commit (finalizeCandidate candidate) = some s') :
    Effect settings s (.exhausted candidate) s' := by
  obtain ⟨a, db, htx, rfl⟩ := Sys.commit_eq_some h
  unfold finalizeCandidate at htx
  split at htx
  · obtain ⟨graph, J, hfailure, hfence, hop, rfl⟩ :=
      commitExhaustedFailure_eq_ok (finalizeExhaustedWith_eq_ok htx)
    exact .failed _ graph J _ _ _ hfailure ((exhaustedFence_iff hfence).2.1.trans hop)
      (.exhausted candidate hfence)
  · rename_i hop
    obtain ⟨J, hJ, hfence, rfl⟩ := finalizeExhausted_eq_ok hkeys.jobs htx
    refine .of_job hJ (.exhausted candidate ?_ hfence)
    rw [(exhaustedFence_iff hfence).2.1]
    exact hop

theorem effect_stageRaised {lease : JobLease} {exception : StageException} {delay : ℕ}
    (hkeys : s.db.WellKeyed) (held : lease ∈ s.leases) (hop : lease.operation = .ingestDocument)
    (h : s.commit (afterStageRaised lease exception delay) = some s') :
    Effect settings s (.stageRaised lease exception delay) s' := by
  obtain ⟨a, db, htx, rfl⟩ := Sys.commit_eq_some h
  cases herror : jobErrorOf exception with
  | some error =>
      simp only [afterStageRaised, herror] at htx
      split at htx
      · obtain ⟨graph, J, hfailure, hfence, rfl⟩ := commitTerminalFailure_eq_ok (finalizeDomain_eq_ok htx)
        exact .failed _ graph J _ _ _ hfailure ((terminalFence_iff hfence).2.2.1.trans hop)
          (.leased _ lease rfl held (terminalFence_inForce hfence))
      · rename_i hretry
        obtain ⟨error', herror', J, hJ, hfence, rfl⟩ := afterRaised_eq_ok hkeys.jobs htx
        obtain rfl : error = error' := by simpa [recordedError] using herror'
        refine .of_job hJ (.stageRaised lease exception delay error held hop hfence ?_)
        simp only [stageError, herror, if_neg hretry]
  | none =>
      simp only [afterStageRaised, herror] at htx
      obtain ⟨error', herror', J, hJ, hfence, rfl⟩ := afterRaised_eq_ok hkeys.jobs htx
      refine .of_job hJ (.stageRaised lease exception delay error' held hop hfence ?_)
      by_cases hlost : exception = .lostLease
      · rw [if_pos hlost] at herror'
        cases herror'
      · rw [if_neg hlost] at herror'
        simp only [stageError, herror, if_neg hlost]
        exact herror'

theorem effect_upload {request : UploadRequest} {documentId versionId jobId mutationId : ℕ}
    {checks : Except TxError Unit}
    (fresh : s.Fresh documentId ∧ s.Fresh versionId ∧ s.Fresh jobId ∧ s.Fresh mutationId)
    (h : s.commit (reserve (uploadReservation request documentId versionId jobId) checks mutationId)
      = some s') :
    Effect settings s (.upload request documentId versionId jobId mutationId checks) s' := by
  obtain ⟨a, db, htx, rfl⟩ := Sys.commit_eq_some h
  rcases reserve_eq_ok htx with ⟨rfl, -⟩ | ⟨knowledgeBase, generation, hcreates, -, rfl⟩
  · exact .idle _ rfl
  · exact .uploaded request documentId versionId jobId mutationId checks knowledgeBase generation fresh
      hcreates

theorem effect_repair {configured : Bool} {initial : RepairSnapshot} {probe : Except TxError Unit}
    {jobId : ℕ} (fresh : s.Fresh jobId)
    (h : s.commit (reserveRepair settings.digest configured initial probe jobId) = some s') :
    Effect settings s (.repair configured initial probe jobId) s' := by
  obtain ⟨a, db, htx, rfl⟩ := Sys.commit_eq_some h
  unfold reserveRepair at htx
  split at htx
  · rename_i knowledgeBase generation hk hg
    obtain ⟨hkmem, hkid⟩ := mem_of_find? hk
    obtain ⟨hgmem, hgid⟩ := mem_of_find? hg
    split at htx
    · cases htx
    · rename_i hrepair
      split at htx
      · cases htx
      · rename_i hingestion
        obtain ⟨current, hcurrent, hprobe⟩ := bind_eq_ok.mp htx
        split at hprobe
        · cases hprobe
        · rename_i hsame
          simp only [ne_eq, not_not] at hsame
          obtain ⟨_, -, hinsert⟩ := bind_eq_ok.mp hprobe
          obtain ⟨-, rfl⟩ := insertJob_eq_ok hinsert
          rw [← hgid, Bool.not_eq_true] at hrepair
          rw [← hkid, ← hgid, Bool.not_eq_true] at hingestion
          exact .repaired _ configured knowledgeBase generation current jobId fresh hkmem hgmem
            (by rw [hkid, hsame]) (by rw [hgid, hsame]) hrepair hingestion hcurrent rfl
  · cases htx

theorem effect_generationReserved {command : GenerationCommand} {current : Except (ℕ × String) Unit}
    {source : Except TxError (EmbeddingConfiguration × Str)}
    (h : reserveSaga settings command current source s = some s') :
    Effect settings s (.generationReserved command current source) s' := by
  unfold reserveSaga at h
  split at h
  · rename_i reservation db htx
    obtain rfl := Option.some.inj h
    obtain ⟨hwrite, hbacked⟩ := reserveGeneration_eq_ok htx
    refine .saga _ false db [reservation] (by simp) hwrite ?_ rfl
    intro R hR
    rw [List.mem_singleton.mp hR]
    exact hbacked reservation rfl
  · rename_i reserved db hno htx
    obtain rfl := Option.some.inj h
    exact .of_saga (reserveGeneration_eq_ok htx).1 rfl
  · cases h

theorem effect_generationActivated {reservation : Reservation} {jobId : ℕ}
    (hR : reservation ∈ s.reservations) (fresh : s.Fresh jobId)
    (h : s.commit (activate settings.identities reservation jobId) = some s') :
    Effect settings s (.generationActivated reservation jobId) s' := by
  obtain ⟨a, db, htx, rfl⟩ := Sys.commit_eq_some h
  have heffect : Effect settings s (.generationActivated reservation jobId)
      { s with db := db, reservations := s.reservations ++ [] } :=
    .saga _ (delayedActivation s.db reservation) db [] (fun hd => ⟨reservation, jobId, rfl, hd⟩)
      (activate_eq_ok hR fresh htx) (by simp) rfl
  rwa [List.append_nil] at heffect

theorem effect_updated {knowledgeBaseId : ℕ} {status : PatchStatus}
    (h : s.commit (updateStatus knowledgeBaseId status) = some s') :
    Effect settings s (.updated knowledgeBaseId status) s' := by
  obtain ⟨a, db, htx, rfl⟩ := Sys.commit_eq_some h
  unfold updateStatus at htx
  split at htx
  · cases htx
  · rename_i row hrow
    split at htx
    · cases htx
    · rename_i hstatus
      simp only [Except.ok.injEq, Prod.mk.injEq] at htx
      rw [← htx.2]
      exact .updated _ row status (mem_of_find? hrow).1 hstatus rfl

theorem effect_schemaReplaced {knowledgeBaseId : ℕ} {canonical : Str} {mutationId : ℕ}
    (fresh : s.Fresh mutationId)
    (h : s.commit (replaceFilterSchema knowledgeBaseId canonical mutationId) = some s') :
    Effect settings s (.schemaReplaced knowledgeBaseId canonical mutationId) s' := by
  obtain ⟨a, db, htx, rfl⟩ := Sys.commit_eq_some h
  unfold replaceFilterSchema at htx
  split at htx
  · cases htx
  · rename_i row hrow
    split at htx
    · cases htx
    · split at htx
      · split at htx
        · simp only [Except.ok.injEq, Prod.mk.injEq] at htx
          rw [← htx.2]
          exact .idle _ rfl
        · cases htx
      · rename_i hthawed
        simp only [Except.ok.injEq, Prod.mk.injEq] at htx
        rw [← htx.2]
        exact .schemaReplaced _ row canonical mutationId (mem_of_find? hrow).1 fresh
          (by simpa using hthawed) rfl

theorem effect_deleted {knowledgeBaseId actorId jobId : ℕ} (fresh : s.Fresh jobId)
    (h : s.commit (deleteKnowledgeBase knowledgeBaseId actorId jobId) = some s') :
    Effect settings s (.deleted knowledgeBaseId actorId jobId) s' := by
  obtain ⟨a, db, htx, rfl⟩ := Sys.commit_eq_some h
  unfold deleteKnowledgeBase at htx
  split at htx
  · cases htx
  · rename_i row hrow
    split at htx
    · simp only [Except.ok.injEq, Prod.mk.injEq] at htx
      rw [← htx.2]
      exact .idle _ rfl
    · rename_i hstatus
      obtain ⟨-, rfl⟩ := insertJob_eq_ok htx
      exact .deleted _ row actorId jobId (mem_of_find? hrow).1 fresh hstatus rfl

theorem effect_purged {lease : JobLease} (held : lease ∈ s.leases) (hpurge : purgeLease lease = true)
    (h : purgeRows lease s = some s') : Effect settings s (.purged lease) s' := by
  unfold purgeRows at h
  cases hcollections : purgeCollections s.db lease.targetId with
  | none =>
      simp only [hcollections, Option.map_some, Option.some.injEq] at h
      rw [← h]
      exact .purgeReturned _ lease held hpurge hcollections rfl
  | some collections =>
      simp only [hcollections, Option.map_eq_some_iff] at h
      obtain ⟨t, ht, rfl⟩ := h
      obtain ⟨a, db, htx, rfl⟩ := Sys.commit_eq_some ht
      unfold purgeCollections at hcollections
      split at hcollections
      · cases hcollections
      · rename_i row hrow
        split at hcollections
        · cases hcollections
        · rename_i hstatus
          obtain ⟨hmem, hid⟩ := mem_of_find? hrow
          exact .purged _ lease db held hpurge row hmem hid (by simpa using hstatus) htx rfl

/-- The jobs that a lease was issued for have the mutation of the lease. -/
def LeasedMutations (s : Sys) : Prop :=
  ∀ lease ∈ s.leases, ∀ J ∈ s.db.jobs, J.id = lease.id → J.mutationId = lease.mutationId

/-- **Every operation that commits has an effect.** -/
theorem effect_of_apply {op : Op} (hkeys : s.db.WellKeyed) (hmutations : LeasedMutations s)
    (h : op.apply settings s = some s') : Effect settings s op s' := by
  cases op with
  | tick elapsed =>
      obtain rfl := Option.some.inj h
      exact .tick elapsed
  | claimed owner duration jobId => exact effect_claimed hkeys h
  | heartbeatSent lease duration =>
      obtain ⟨held, h⟩ := ite_eq_some h
      obtain ⟨lease', db, htx, rfl⟩ := Sys.issue_eq_some h
      obtain ⟨-, J, hJ, hfence, hissued, rfl⟩ := heartbeat_eq_ok hkeys.jobs htx
      exact .job _ J _ _ hJ (.heartbeat lease lease' duration held hfence hissued)
  | released lease =>
      obtain ⟨held, h⟩ := ite_eq_some h
      obtain ⟨a, db, htx, rfl⟩ := Sys.commit_eq_some h
      obtain ⟨J, hJ, hfence, rfl⟩ := releaseClaim_eq_ok hkeys.jobs htx
      exact .of_job hJ (.released lease held hfence)
  | exhausted candidate => exact effect_exhausted hkeys h
  | started lease expected =>
      obtain ⟨held, h⟩ := ite_eq_some h
      obtain ⟨a, db, htx, rfl⟩ := Sys.commit_eq_some h
      obtain ⟨J, graph, version, state, hcommit, rfl⟩ := commitStarted_eq_ok hkeys htx
      exact .of_stage held hcommit rfl
  | parsed lease expected checksum =>
      obtain ⟨held, h⟩ := ite_eq_some h
      obtain ⟨job, db, htx, rfl⟩ := Sys.renew_eq_some h
      obtain ⟨J, graph, version, state, hcommit, rfl⟩ := commitParsed_eq_ok hkeys htx
      exact .stage _ lease graph J job version state _ held hcommit (.inr rfl) rfl
  | chunked lease expected checksum count =>
      obtain ⟨held, h⟩ := ite_eq_some h
      obtain ⟨job, db, htx, rfl⟩ := Sys.renew_eq_some h
      obtain ⟨J, graph, version, state, hcommit, rfl⟩ := commitChunked_eq_ok hkeys htx
      exact .stage _ lease graph J job version state _ held hcommit (.inr rfl) rfl
  | embedded lease expected next =>
      obtain ⟨held, h⟩ := ite_eq_some h
      obtain ⟨job, db, htx, rfl⟩ := Sys.renew_eq_some h
      obtain ⟨J, graph, version, state, hcommit, rfl⟩ := commitEmbedProgress_eq_ok hkeys htx
      exact .stage _ lease graph J job version state _ held hcommit (.inr rfl) rfl
  | counted lease expected actual =>
      obtain ⟨held, h⟩ := ite_eq_some h
      obtain ⟨a, db, htx, rfl⟩ := Sys.commit_eq_some h
      obtain ⟨J, graph, version, state, hcommit, rfl⟩ := commitCount_eq_ok hkeys htx
      exact .of_stage held hcommit rfl
  | validated lease expected actual =>
      obtain ⟨held, h⟩ := ite_eq_some h
      obtain ⟨job, db, htx, rfl⟩ := Sys.renew_eq_some h
      obtain ⟨J, graph, version, state, hcommit, rfl⟩ := commitValidated_eq_ok hkeys htx
      exact .stage _ lease graph J job version state _ held hcommit (.inr rfl) rfl
  | activated lease expected mutationId =>
      obtain ⟨⟨held, fresh⟩, h⟩ := ite_eq_some h
      obtain ⟨a, db, htx, rfl⟩ := Sys.commit_eq_some h
      obtain ⟨graph, J, hactivation, rfl⟩ := commitActivated_eq_ok (hmutations lease held) htx
      exact .activated lease expected graph J mutationId held fresh hactivation
  | stageRaised lease exception delay =>
      obtain ⟨⟨held, hop⟩, h⟩ := ite_eq_some h
      exact effect_stageRaised hkeys held hop h
  | upload request documentId versionId jobId mutationId checks =>
      obtain ⟨fresh, h⟩ := ite_eq_some h
      exact effect_upload fresh h
  | retry snapshot actorId key jobId =>
      obtain ⟨fresh, h⟩ := ite_eq_some h
      obtain ⟨a, db, htx, rfl⟩ := Sys.commit_eq_some h
      rcases reserveManualRetry_eq_ok htx with rfl | hwrite
      · exact .idle _ rfl
      · exact .retried _ jobId db fresh hwrite rfl
  | repair configured initial probe jobId =>
      obtain ⟨fresh, h⟩ := ite_eq_some h
      exact effect_repair fresh h
  | repairAdvanced configured lease expected =>
      obtain ⟨held, h⟩ := ite_eq_some h
      obtain ⟨job, db, htx, rfl⟩ := Sys.renew_eq_some h
      obtain ⟨J, hJ, hfence, hwrite, rfl⟩ := advanceRepair_eq_ok hkeys (.inl ⟨rfl, rfl⟩) htx
      exact .job _ J job _ hJ (.rebuilt _ lease job _ held hfence hwrite (.inr rfl) rfl)
  | repairValidated configured lease expected =>
      obtain ⟨held, h⟩ := ite_eq_some h
      obtain ⟨job, db, htx, rfl⟩ := Sys.renew_eq_some h
      obtain ⟨J, hJ, hfence, hwrite, rfl⟩ := advanceRepair_eq_ok hkeys (.inr ⟨rfl, rfl⟩) htx
      exact .job _ J job _ hJ (.rebuilt _ lease job _ held hfence hwrite (.inr rfl) rfl)
  | repairCheckpointed configured lease expected next =>
      obtain ⟨held, h⟩ := ite_eq_some h
      obtain ⟨job, db, htx, rfl⟩ := Sys.renew_eq_some h
      obtain ⟨J, hJ, hfence, hwrite, rfl⟩ := checkpointRepair_eq_ok hkeys htx
      exact .job _ J job _ hJ (.rebuilt _ lease job _ held hfence hwrite (.inr rfl) rfl)
  | repairRefreshed configured lease knowledgeBaseId =>
      obtain ⟨held, h⟩ := ite_eq_some h
      obtain ⟨lease', db, htx, rfl⟩ := Sys.issue_eq_some h
      obtain ⟨J, hJ, hfence, after, hwrite, hlease, rfl⟩ := refreshTarget_eq_ok hkeys htx
      refine .job _ J after _ hJ (.rebuilt _ lease after _ held hfence hwrite (.inr ?_) rfl)
      rw [hlease]
      rfl
  | repairFinished configured lease expected =>
      obtain ⟨held, h⟩ := ite_eq_some h
      obtain ⟨a, db, htx, rfl⟩ := Sys.commit_eq_some h
      obtain ⟨J, hJ, hfence, hwrite, rfl⟩ := finalizeRepair_eq_ok htx
      exact .of_job hJ (.rebuilt _ lease _ _ held hfence hwrite (.inl rfl) rfl)
  | repairRaised lease raised delay =>
      obtain ⟨⟨held, hop⟩, h⟩ := ite_eq_some h
      obtain ⟨a, db, htx, rfl⟩ := Sys.commit_eq_some h
      obtain ⟨error, -, J, hJ, hfence, rfl⟩ := afterRaised_eq_ok hkeys.jobs htx
      exact .of_job hJ (.repairRaised lease raised delay error held hop hfence)
  | generationReserved command current source => exact effect_generationReserved h
  | generationFailed reservation status code actual =>
      obtain ⟨hR, h⟩ := ite_eq_some h
      obtain ⟨a, db, htx, rfl⟩ := Sys.commit_eq_some h
      exact .of_saga (markFailed_eq_ok hR htx) rfl
  | generationActivated reservation jobId =>
      obtain ⟨⟨hR, fresh⟩, h⟩ := ite_eq_some h
      exact effect_generationActivated hR fresh h
  | generationAbandoned knowledgeBaseId generationId =>
      obtain ⟨a, db, htx, rfl⟩ := Sys.commit_eq_some h
      exact .of_saga (.inr (abandonGeneration_eq_ok htx)) rfl
  | cleanupClaimed knowledgeBaseId generationId owner duration =>
      obtain ⟨a, db, htx, rfl⟩ := Sys.commit_eq_some h
      obtain ⟨claims, hwrite, rfl⟩ := claimOrphanCleanup_eq_ok htx
      exact .claims _ claims hwrite rfl
  | cleanupAuthorized claim =>
      obtain ⟨a, db, htx, rfl⟩ := Sys.commit_eq_some h
      obtain ⟨claims, hwrite, rfl⟩ := authorizeOrphanCleanup_eq_ok htx
      exact .claims _ claims hwrite rfl
  | cleanupCompleted claim =>
      have hcommit : s.commit (completeOrphanCleanup claim) = some s' := h
      obtain ⟨a, db, htx, rfl⟩ := Sys.commit_eq_some hcommit
      obtain ⟨claims, hwrite, rfl⟩ := completeOrphanCleanup_eq_ok htx
      exact .claims _ claims hwrite rfl
  | cleanupExpired claim =>
      have hcommit : s.commit (expireOrphanCleanup claim) = some s' := h
      obtain ⟨a, db, htx, rfl⟩ := Sys.commit_eq_some hcommit
      obtain ⟨claims, hwrite, rfl⟩ := expireOrphanCleanup_eq_ok htx
      exact .claims _ claims hwrite rfl
  | created knowledgeBaseId =>
      obtain ⟨fresh, h⟩ := ite_eq_some h
      obtain ⟨a, db, htx, rfl⟩ := Sys.commit_eq_some h
      simp only [createKnowledgeBase, Except.ok.injEq, Prod.mk.injEq] at htx
      rw [← htx.2]
      exact .created knowledgeBaseId fresh
  | updated knowledgeBaseId status => exact effect_updated h
  | schemaReplaced knowledgeBaseId canonical mutationId =>
      obtain ⟨fresh, h⟩ := ite_eq_some h
      exact effect_schemaReplaced fresh h
  | deleted knowledgeBaseId actorId jobId =>
      obtain ⟨fresh, h⟩ := ite_eq_some h
      exact effect_deleted fresh h
  | purged lease =>
      obtain ⟨⟨held, hpurge⟩, h⟩ := ite_eq_some h
      exact effect_purged held hpurge h
  | purgeSucceeded lease =>
      obtain ⟨⟨held, hpurge, hreturned⟩, h⟩ := ite_eq_some h
      obtain ⟨a, db, htx, rfl⟩ := Sys.commit_eq_some h
      obtain ⟨J, hJ, hfence, rfl⟩ := markSucceeded_eq_ok hkeys.jobs htx
      exact .of_job hJ (.purgeSucceeded lease held hpurge hreturned hfence)
  | purgeRaised lease delay =>
      obtain ⟨⟨held, hpurge⟩, h⟩ := ite_eq_some h
      obtain ⟨a, db, htx, rfl⟩ := Sys.commit_eq_some h
      obtain ⟨error, herror, J, hJ, hfence, rfl⟩ := afterRaised_eq_ok hkeys.jobs htx
      obtain rfl : handlerFailed = error := by simpa [recordedError] using herror
      exact .of_job hJ (.purgeRaised lease delay held hpurge hfence)

end Operations

end VeloxRag
