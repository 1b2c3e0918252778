import VeloxRag.System.Effects

/-!
# Keys and leases

Two facts that every other invariant rests on.  No table has a key twice, and a lease that was
ever issued still agrees with its job: the columns that no write changes are the same, and the
epoch of the lease is at most the epoch of the job.

## Main definitions

* `Sys.Fresh` lemmas — a new identity is not that of a row.
* `Job.Keeps` — what every write to a job keeps.
* `Leased`, `LeaseInv` — a lease and its job.
* `Base`, `base_of_reachable` — the invariant.
* `Reachable.induction_on`, `ReachableWhere.induction_on` — induction over runs for invariants on top of it.
-/

namespace VeloxRag

open Lib Jobs Ingestion Indexing Metadata

/-! ## New identities -/

namespace Sys.Fresh

variable {s : Sys} {id : ℕ}

theorem ne_of_mem (h : s.Fresh id) {x : ℕ} (hx : x ∈ s.ids) : x ≠ id := fun heq => h (heq ▸ hx)

/-- Where an identity of the state occurs. -/
theorem mem_ids (s : Sys) (x : ℕ) : x ∈ s.ids ↔
    (∃ k ∈ s.db.knowledgeBases, k.id = x) ∨
    (∃ g ∈ s.db.generations, x ∈ [g.id, g.knowledgeBaseId]) ∨
    (∃ d ∈ s.db.documents,
      x ∈ [d.id, d.knowledgeBaseId] ++ d.currentVersionId.toList ++ d.pendingVersionId.toList) ∨
    (∃ v ∈ s.db.versions, x ∈ [v.id, v.documentId]) ∨
    (∃ st ∈ s.db.indexStates, x ∈ [st.versionId, st.generationId]) ∨
    (∃ m ∈ s.db.mutations, x ∈ [m.id, m.knowledgeBaseId]) ∨
    (∃ J ∈ s.db.jobs, x ∈ [J.id, J.targetId] ++ J.knowledgeBaseId.toList
      ++ J.indexGenerationId.toList ++ J.mutationId.toList ++ J.parentJobId.toList
      ++ J.rootJobId.toList) ∨
    (∃ u ∈ s.db.uploads, x ∈ [u.knowledgeBaseId, u.documentId, u.versionId, u.jobId]) ∨
    (∃ r ∈ s.db.creationRequests, x ∈ [r.id, r.knowledgeBaseId, r.generationId]) ∨
    (∃ c ∈ s.db.cleanupClaims, x ∈ [c.knowledgeBaseId, c.generationId]) ∨
    (∃ L ∈ s.leases, x ∈ [L.id, L.targetId]) ∨
    (∃ R ∈ s.reservations, x ∈ [R.requestId, R.generationId, R.knowledgeBaseId]) ∨
    ∃ p ∈ s.purged, p.1 = x := by
  simp only [ids, dbIds, List.mem_append, List.mem_map, List.mem_flatMap, or_assoc]

theorem knowledgeBase (h : s.Fresh id) {k : KnowledgeBase} (hk : k ∈ s.db.knowledgeBases) : k.id ≠ id := by
  apply h.ne_of_mem
  exact (mem_ids s _).mpr (.inl ⟨_, hk, rfl⟩)

theorem generation (h : s.Fresh id) {g : Generation} (hg : g ∈ s.db.generations) :
    g.id ≠ id ∧ g.knowledgeBaseId ≠ id := by
  have hmem : ∀ x ∈ [g.id, g.knowledgeBaseId], x ≠ id := by
    intro x hx
    apply h.ne_of_mem
    exact (mem_ids s _).mpr <| .inr <| .inl ⟨_, hg, hx⟩
  simp only [List.mem_cons] at hmem
  grind

theorem document (h : s.Fresh id) {d : Document} (hd : d ∈ s.db.documents) :
    d.id ≠ id ∧ d.knowledgeBaseId ≠ id ∧ d.currentVersionId ≠ some id ∧ d.pendingVersionId ≠ some id := by
  have hmem : ∀ x ∈ [d.id, d.knowledgeBaseId] ++ d.currentVersionId.toList ++ d.pendingVersionId.toList,
      x ≠ id := by
    intro x hx
    apply h.ne_of_mem
    exact (mem_ids s _).mpr <| .inr <| .inr <| .inl ⟨_, hd, hx⟩
  simp only [List.mem_append, List.mem_cons, Option.mem_toList] at hmem
  grind

theorem version (h : s.Fresh id) {v : Version} (hv : v ∈ s.db.versions) :
    v.id ≠ id ∧ v.documentId ≠ id := by
  have hmem : ∀ x ∈ [v.id, v.documentId], x ≠ id := by
    intro x hx
    apply h.ne_of_mem
    exact (mem_ids s _).mpr <| .inr <| .inr <| .inr <| .inl ⟨_, hv, hx⟩
  simp only [List.mem_cons] at hmem
  grind

theorem indexState (h : s.Fresh id) {st : IndexState} (hst : st ∈ s.db.indexStates) :
    st.versionId ≠ id := by
  apply h.ne_of_mem
  exact (mem_ids s _).mpr <| .inr <| .inr <| .inr <| .inr <| .inl ⟨_, hst, by simp⟩

theorem mutation (h : s.Fresh id) {m : Mutation} (hm : m ∈ s.db.mutations) :
    m.id ≠ id ∧ m.knowledgeBaseId ≠ id := by
  have hmem : ∀ x ∈ [m.id, m.knowledgeBaseId], x ≠ id := by
    intro x hx
    apply h.ne_of_mem
    exact (mem_ids s _).mpr <| .inr <| .inr <| .inr <| .inr <| .inr <| .inl ⟨_, hm, hx⟩
  simp only [List.mem_cons] at hmem
  grind

theorem job (h : s.Fresh id) {J : Job} (hJ : J ∈ s.db.jobs) :
    J.id ≠ id ∧ J.targetId ≠ id ∧ J.knowledgeBaseId ≠ some id ∧ J.parentJobId ≠ some id := by
  have hmem : ∀ x ∈ [J.id, J.targetId] ++ J.knowledgeBaseId.toList ++ J.indexGenerationId.toList
      ++ J.mutationId.toList ++ J.parentJobId.toList ++ J.rootJobId.toList, x ≠ id := by
    intro x hx
    apply h.ne_of_mem
    exact (mem_ids s _).mpr <| .inr <| .inr <| .inr <| .inr <| .inr <| .inr <| .inl ⟨_, hJ, hx⟩
  simp only [List.mem_append, List.mem_cons, Option.mem_toList] at hmem
  grind

theorem upload (h : s.Fresh id) {u : UploadIdempotency} (hu : u ∈ s.db.uploads) :
    u.knowledgeBaseId ≠ id := by
  apply h.ne_of_mem
  exact (mem_ids s _).mpr <| .inr <| .inr <| .inr <| .inr <| .inr <| .inr <| .inr <| .inl ⟨_, hu, by simp⟩

theorem request (h : s.Fresh id) {r : CreationRequest} (hr : r ∈ s.db.creationRequests) :
    r.knowledgeBaseId ≠ id := by
  apply h.ne_of_mem
  exact (mem_ids s _).mpr <| .inr <| .inr <| .inr <| .inr <| .inr <| .inr <| .inr <| .inr <| .inl ⟨_, hr, by simp⟩

theorem purged (h : s.Fresh id) {x : ℕ × ℕ} (hx : x ∈ s.purged) : x.1 ≠ id := by
  apply h.ne_of_mem
  exact (mem_ids s _).mpr <| .inr <| .inr <| .inr <| .inr <| .inr <| .inr <| .inr <| .inr <| .inr <| .inr <| .inr <| .inr <| ⟨_, hx, rfl⟩

theorem lease (h : s.Fresh id) {L : JobLease} (hL : L ∈ s.leases) : L.id ≠ id ∧ L.targetId ≠ id := by
  have hmem : ∀ x ∈ [L.id, L.targetId], x ≠ id := by
    intro x hx
    apply h.ne_of_mem
    exact (mem_ids s _).mpr <| .inr <| .inr <| .inr <| .inr <| .inr <| .inr <| .inr <| .inr <| .inr <| .inr <| .inl ⟨_, hL, hx⟩
  simp only [List.mem_cons] at hmem
  grind

theorem reservation (h : s.Fresh id) {R : Reservation} (hR : R ∈ s.reservations) :
    R.knowledgeBaseId ≠ id := by
  apply h.ne_of_mem
  exact (mem_ids s _).mpr <| .inr <| .inr <| .inr <| .inr <| .inr <| .inr <| .inr <| .inr <| .inr <| .inr <| .inr <| .inl ⟨_, hR, by simp⟩

end Sys.Fresh

/-! ## Writes to a job -/

/-- What every write to a job keeps: most columns, an epoch that only grows, and the count of the
attempts while the job runs under one epoch.  A job that has ended is not written. -/
structure Job.Keeps (J J' : Job) : Prop where
  id : J'.id = J.id
  knowledgeBaseId : J'.knowledgeBaseId = J.knowledgeBaseId
  operation : J'.operation = J.operation
  targetType : J'.targetType = J.targetType
  targetId : J'.targetId = J.targetId
  indexGenerationId : J'.indexGenerationId = J.indexGenerationId
  mutationId : J'.mutationId = J.mutationId
  parentJobId : J'.parentJobId = J.parentJobId
  maxAttempts : J'.maxAttempts = J.maxAttempts
  cancelRequestedAt : J'.cancelRequestedAt = J.cancelRequestedAt
  active : J.status.isActive = true
  epoch : J.leaseEpoch ≤ J'.leaseEpoch
  held : J'.leaseEpoch = J.leaseEpoch → J'.status = .running →
    J.status = .running ∧ J'.attemptCount = J.attemptCount

section Writes

variable {settings : Settings} {s s' : Sys} {op : Op} {job after : Job}

theorem running_active (h : job.status = .running) : job.status.isActive = true := by
  rw [h]
  rfl

theorem fence_active {now : ℕ} {lease : JobLease} (h : fence now lease job = true) :
    job.status.isActive = true :=
  running_active (fence_iff.mp h).2.1

theorem failedValues_keeps (h : job.status.isActive = true) {retryable : Bool} {code message : Str}
    {now : ℕ} : job.Keeps (failedValues retryable code message now job) :=
  ⟨rfl, rfl, rfl, rfl, rfl, rfl, rfl, rfl, rfl, rfl, h, le_rfl, fun _ hr => by cases hr⟩

theorem finishedValues_keeps (h : job.status.isActive = true) {now : ℕ} :
    job.Keeps (finishedValues now job) :=
  ⟨rfl, rfl, rfl, rfl, rfl, rfl, rfl, rfl, rfl, rfl, h, le_rfl, fun _ hr => by cases hr⟩

theorem errorValues_keeps (h : job.status.isActive = true) {error : JobExecutionError} {delay now : ℕ} :
    job.Keeps (errorValues error delay now job) := by
  refine ⟨rfl, rfl, rfl, rfl, rfl, rfl, rfl, rfl, rfl, rfl, h, le_rfl, fun _ hr => ?_⟩
  simp only [errorValues, failureValues] at hr
  grind

theorem checkpointValues_keeps (h : job.status = .running) {stage resume : Option Stage} {current : ℕ}
    {total : Option ℕ} : job.Keeps (checkpointValues stage resume current total job) :=
  ⟨rfl, rfl, rfl, rfl, rfl, rfl, rfl, rfl, rfl, rfl, running_active h, le_rfl, fun _ _ => ⟨h, rfl⟩⟩

theorem progressValues_keeps (h : job.status = .running) {current : ℕ} {total : Option ℕ} :
    job.Keeps (progressValues current total job) :=
  ⟨rfl, rfl, rfl, rfl, rfl, rfl, rfl, rfl, rfl, rfl, running_active h, le_rfl, fun _ _ => ⟨h, rfl⟩⟩

theorem keeps_self (h : job.status = .running) : job.Keeps job :=
  ⟨rfl, rfl, rfl, rfl, rfl, rfl, rfl, rfl, rfl, rfl, running_active h, le_rfl, fun _ _ => ⟨h, rfl⟩⟩

theorem Indexing.RebuildWrite.keeps {digest : ChunkerDigest} {db : Db} {lease : JobLease}
    (h : job.status = .running) (write : RebuildWrite digest db lease job after) : job.Keeps after := by
  cases write with
  | advanced => exact checkpointValues_keeps h
  | checkpointed => exact progressValues_keeps h
  | refreshed =>
      exact ⟨rfl, rfl, rfl, rfl, rfl, rfl, rfl, rfl, rfl, rfl, running_active h, le_rfl,
        fun _ _ => ⟨h, rfl⟩⟩
  | finished => exact finishedValues_keeps (running_active h)

/-- **Every write to a job** keeps what `Job.Keeps` lists. -/
theorem JobWrite.keeps {leases : List JobLease} (h : JobWrite settings s job op after leases) :
    job.Keeps after := by
  cases h with
  | claimed owner duration lease heligible =>
      refine ⟨rfl, rfl, rfl, rfl, rfl, rfl, rfl, rfl, rfl, rfl, eligible_active heligible, Nat.le_succ _, ?_⟩
      intro hepoch
      simp only [claimValues] at hepoch
      omega
  | heartbeat lease lease' duration held fence =>
      have hrunning := (fence_iff.mp fence).2.1
      exact ⟨rfl, rfl, rfl, rfl, rfl, rfl, rfl, rfl, rfl, rfl, running_active hrunning, le_rfl,
        fun _ _ => ⟨hrunning, rfl⟩⟩
  | released lease held fence =>
      exact ⟨rfl, rfl, rfl, rfl, rfl, rfl, rfl, rfl, rfl, rfl, fence_active fence, le_rfl,
        fun _ hr => by cases hr⟩
  | exhausted candidate operation fence =>
      exact failedValues_keeps (eligible_active (exhaustedFence_iff fence).2.2.2.2.2.2.2.2.2)
  | stageRaised lease exception delay error held operation fence => exact errorValues_keeps (fence_active fence)
  | repairRaised lease raised delay error held operation fence => exact errorValues_keeps (fence_active fence)
  | purgeRaised lease delay held purge fence => exact errorValues_keeps (fence_active fence)
  | purgeSucceeded lease held purge returned fence =>
      refine ⟨rfl, rfl, rfl, rfl, rfl, rfl, rfl, rfl, rfl, rfl, fence_active fence, le_rfl, fun _ hr => ?_⟩
      simp only [succeededValues] at hr
      split at hr
      · cases hr
      · cases hr
  | rebuilt _ lease _ _ held fence write issued =>
      exact write.keeps (fence_iff.mp (stageFence_iff.mp fence).1).2.1

theorem Ingestion.StageWrite.keeps {digest : ChunkerDigest} {defaults : ℤ × ℤ} {now : ℕ} {graph : StageGraph}
    {version : Version} {state : IndexState} (hrunning : job.status = .running)
    (h : StageWrite digest defaults now graph job version state after) : job.Keeps after := by
  cases h with
  | started => exact keeps_self hrunning
  | parsed => exact checkpointValues_keeps hrunning
  | chunked => exact checkpointValues_keeps hrunning
  | embedded =>
      split
      · exact checkpointValues_keeps hrunning
      · exact progressValues_keeps hrunning
  | counted => exact keeps_self hrunning
  | validated => exact checkpointValues_keeps hrunning

end Writes

/-! ## The jobs after a step -/

section Jobs

variable {settings : Settings} {s s' : Sys} {op : Op}

/-- **The jobs that a step adds**, with what the step had checked. -/
inductive NewJob (settings : Settings) (s s' : Sys) : Job → Prop
  | upload (reservation : UploadReservation) (mutationId : ℕ) (knowledgeBase : KnowledgeBase)
      (generation : Generation) (creates : UploadCreates s.db reservation knowledgeBase generation)
      (rows : s'.db = applyUpload reservation knowledgeBase generation mutationId s.db) :
      NewJob settings s s' (ingestJob reservation knowledgeBase generation.id mutationId)
  | retry (snapshot : ManualRetrySnapshot) (source : Job) (knowledgeBase : KnowledgeBase)
      (generation : Generation) (jobId actorId : ℕ) (key : Str)
      (hsource : RetrySource s.db snapshot source knowledgeBase generation)
      (operation : source.operation = .ingestDocument ∨ source.operation = .rebuildGeneration ∧
        RetriedRebuild settings.digest.configHash s.db snapshot knowledgeBase generation) :
      NewJob settings s s' (childJob source jobId actorId key)
  | repair (configured : Bool) (knowledgeBase : KnowledgeBase) (generation : Generation)
      (snapshot : RepairSnapshot) (jobId : ℕ)
      (knowledgeBase_mem : knowledgeBase ∈ s.db.knowledgeBases)
      (generation_mem : generation ∈ s.db.generations)
      (noIngestion : activeIngestionExists s.db knowledgeBase.id generation.id = false)
      (rows : snapshotFromRows settings.digest configured s.db knowledgeBase generation = .ok snapshot) :
      NewJob settings s s' (repairJob jobId snapshot)
  | promotion (delayed : Bool) (knowledgeBase : KnowledgeBase) (generation : Generation)
      (request : CreationRequest) (jobId : ℕ) (jobs : List Job)
      (rows : SagaRows s.db s.reservations knowledgeBase generation request)
      (status : generation.status = .building)
      (pending : knowledgeBase.pendingIndexGenerationId = some generation.id)
      (after : s'.db = promoted settings.identities knowledgeBase generation request jobs s.db) :
      NewJob settings s s' (promotionJob settings.identities knowledgeBase generation jobId s.db)
  | purge (knowledgeBase : KnowledgeBase) (actorId jobId : ℕ)
      (mem : knowledgeBase ∈ s.db.knowledgeBases)
      (rows : s'.db.knowledgeBases
        = setRow (·.id) { knowledgeBase with status := .deleting } s.db.knowledgeBases) :
      NewJob settings s s' (purgeJob jobId actorId knowledgeBase.id)

theorem NewJob.queued {J : Job} (h : NewJob settings s s' J) : J.status = .queued ∧ J.leaseEpoch = 0 := by
  cases h <;> exact ⟨rfl, rfl⟩

/-- Where a job after a step comes from. -/
inductive JobOrigin (settings : Settings) (s s' : Sys) (J' : Job) : Prop
  | kept (mem : J' ∈ s.db.jobs)
  | written (J : Job) (mem : J ∈ s.db.jobs) (keeps : J.Keeps J')
  | added (fresh : s.Fresh J'.id) (new : NewJob settings s s' J')

theorem JobOrigin.of_setRow {job after J' : Job} (hjob : job ∈ s.db.jobs) (keeps : job.Keeps after)
    (h : J' ∈ setRow (·.id) after s.db.jobs) : JobOrigin settings s s' J' := by
  rcases mem_setRow h with rfl | ⟨hmem, -⟩
  · exact .written job hjob keeps
  · exact .kept hmem

theorem JobOrigin.of_append {J' job : Job} (h : J' ∈ s.db.jobs ++ [job]) (fresh : s.Fresh job.id)
    (new : NewJob settings s s' job) : JobOrigin settings s s' J' := by
  rcases List.mem_append.mp h with hmem | hmem
  · exact .kept hmem
  · rw [List.mem_singleton.mp hmem]
    exact .added fresh new

/-- **The jobs after a step**: the same, written under a lease, or new. -/
theorem Effect.jobs (h : Effect settings s op s') {J' : Job} (hJ' : J' ∈ s'.db.jobs) :
    JobOrigin settings s s' J' := by
  cases h with
  | idle => exact .kept hJ'
  | tick => exact .kept hJ'
  | job _ job after leases mem write => exact .of_setRow mem write.keeps hJ'
  | stage _ lease graph job after version state leases held commit issued =>
      have hrunning := (fence_iff.mp (stageFence_iff.mp commit.fence).1).2.1
      exact .of_setRow commit.job_mem (commit.write.keeps hrunning) hJ'
  | failed _ graph job retryable code message failure operation =>
      exact .of_setRow failure.job_mem (failedValues_keeps failure.active) hJ'
  | activated lease expected graph job mutationId held fresh activation =>
      exact .of_setRow activation.job_mem (finishedValues_keeps (fence_active activation.fence)) hJ'
  | uploaded request documentId versionId jobId mutationId checks knowledgeBase generation fresh creates =>
      exact .of_append hJ' fresh.2.2.1 (.upload _ mutationId knowledgeBase generation creates rfl)
  | retried _ jobId db fresh write =>
      cases write with
      | ingestion snapshot source knowledgeBase generation document version state versionStatus
          stateStatus actorApiKeyId idempotencyKey operation hsource =>
          exact .of_append hJ' fresh (.retry snapshot source knowledgeBase generation jobId _ _ hsource
            (.inl operation))
      | rebuild snapshot source knowledgeBase generation actorApiKeyId idempotencyKey operation hsource rows =>
          exact .of_append hJ' fresh (.retry snapshot source knowledgeBase generation jobId _ _ hsource
            (.inr ⟨operation, rows⟩))
  | repaired _ configured knowledgeBase generation snapshot jobId fresh knowledgeBase_mem generation_mem
      knowledgeBaseId generationId noRepair noIngestion rows =>
      exact .of_append hJ' fresh (.repair configured knowledgeBase generation snapshot jobId
        knowledgeBase_mem generation_mem noIngestion rows)
  | saga _ delayed db reservations of_delayed write backed =>
      rcases write with rfl | write
      · exact .kept hJ'
      · cases write with
        | activated _ knowledgeBase generation request reservation jobId jobs rows reserved generationId claim
            state status active pending mutation queued =>
            rcases queued with rfl | ⟨fresh, rfl, -⟩
            · simp only [promoted, List.append_nil] at hJ'
              exact .kept hJ'
            · exact .of_append hJ' fresh (.promotion delayed knowledgeBase generation request jobId _ rows
                status pending rfl)
        | _ => exact .kept hJ'
  | claims => exact .kept hJ'
  | created => exact .kept hJ'
  | updated => exact .kept hJ'
  | schemaReplaced => exact .kept hJ'
  | deleted _ knowledgeBase actorId jobId mem fresh kept =>
      exact .of_append hJ' fresh (.purge knowledgeBase actorId jobId mem rfl)
  | purged _ lease db held purge knowledgeBase mem target deleting rows =>
      simp only [deleteRows, Except.ok.injEq, Prod.mk.injEq, true_and] at rows
      subst rows
      exact .kept (List.mem_of_mem_filter hJ')
  | purgeReturned => exact .kept hJ'

theorem Jobs.RetryWrite.jobs_append {configHash : ConfigHash} {db db' : Db} {jobId : ℕ}
    (h : RetryWrite configHash db jobId db') : ∃ added, db'.jobs = db.jobs ++ added := by
  cases h with
  | ingestion => exact ⟨_, rfl⟩
  | rebuild => exact ⟨_, rfl⟩

theorem Indexing.SagaWrite.jobs_append {identities : GenerationIdentities}
    {reservations : List Reservation} {fresh : ℕ → Prop} {db db' : Db} {delayed : Bool}
    (h : SagaWrite identities reservations fresh db delayed db') :
    ∃ added, db'.jobs = db.jobs ++ added := by
  cases h with
  | activated => exact ⟨_, rfl⟩
  | _ => exact ⟨[], (List.append_nil _).symm⟩

/-! ## Leases -/

/-- A lease agrees with its job. -/
structure Leased (L : JobLease) (J : Job) : Prop where
  operation : L.operation = J.operation
  targetType : L.targetType = J.targetType
  targetId : L.targetId = J.targetId
  indexGenerationId : L.indexGenerationId = J.indexGenerationId
  mutationId : L.mutationId = J.mutationId
  maxAttempts : L.maxAttempts = J.maxAttempts
  epoch : L.leaseEpoch ≤ J.leaseEpoch
  held : L.leaseEpoch = J.leaseEpoch → J.status = .running → L.attemptCount = J.attemptCount

/-- Every lease that was issued agrees with its job, as long as the job is there. -/
def LeaseInv (s : Sys) : Prop :=
  ∀ L ∈ s.leases, ∀ J ∈ s.db.jobs, J.id = L.id → Leased L J

theorem Leased.of_leaseFromJob {J : Job} {L : JobLease} (h : leaseFromJob J = some L) :
    L.id = J.id ∧ Leased L J := by
  obtain ⟨-, -, -, heq⟩ := leaseFromJob_eq_some h
  rw [heq]
  exact ⟨rfl, rfl, rfl, rfl, rfl, rfl, rfl, le_rfl, fun _ _ => rfl⟩

theorem Leased.keeps {L : JobLease} {J J' : Job} (h : Leased L J) (keeps : J.Keeps J') : Leased L J' := by
  refine ⟨by rw [h.operation, keeps.operation], by rw [h.targetType, keeps.targetType],
    by rw [h.targetId, keeps.targetId], by rw [h.indexGenerationId, keeps.indexGenerationId],
    by rw [h.mutationId, keeps.mutationId], by rw [h.maxAttempts, keeps.maxAttempts],
    h.epoch.trans keeps.epoch, ?_⟩
  intro hepoch hrunning
  have hJ := h.epoch
  have hJ' := keeps.epoch
  have heq : J'.leaseEpoch = J.leaseEpoch := by omega
  obtain ⟨hwas, hattempts⟩ := keeps.held heq hrunning
  rw [hattempts]
  exact h.held (by omega) hwas

/-- The leases that a step issues are those of jobs after it. -/
theorem Effect.issued (h : Effect settings s op s') : ∃ new, s'.leases = s.leases ++ new ∧
    ∀ L ∈ new, ∃ J' ∈ s'.db.jobs, leaseFromJob J' = some L := by
  have hnone {t : Sys} (ht : t.leases = s.leases) : ∃ new, t.leases = s.leases ++ new ∧
      ∀ L ∈ new, ∃ J' ∈ t.db.jobs, leaseFromJob J' = some L := ⟨[], by simp [ht], by simp⟩
  cases h with
  | job _ job after leases mem write =>
      have hmem : after ∈ setRow (·.id) after s.db.jobs := mem_setRow_self mem write.keeps.id.symm
      refine ⟨leases, rfl, ?_⟩
      intro L hL
      refine ⟨after, hmem, ?_⟩
      cases write with
      | claimed _ _ lease _ _ _ issued => rwa [List.mem_singleton.mp hL]
      | heartbeat _ lease' _ _ _ issued => rwa [List.mem_singleton.mp hL]
      | rebuilt _ lease _ _ held fence write issued =>
          rcases issued with rfl | rfl
          · cases hL
          · simpa using hL
      | _ => cases hL
  | stage _ lease graph job after version state leases held commit issued =>
      have hrunning := (fence_iff.mp (stageFence_iff.mp commit.fence).1).2.1
      have hmem : after ∈ setRow (·.id) after s.db.jobs :=
        mem_setRow_self commit.job_mem (commit.write.keeps hrunning).id.symm
      refine ⟨leases, rfl, ?_⟩
      intro L hL
      refine ⟨after, hmem, ?_⟩
      rcases issued with rfl | rfl
      · cases hL
      · simpa using hL
  | _ => exact hnone rfl

/-- A step keeps the leases in agreement. -/
theorem LeaseInv.step (hkeys : s'.db.WellKeyed) (hinv : LeaseInv s) (h : Effect settings s op s') :
    LeaseInv s' := by
  obtain ⟨new, hleases, hnew⟩ := h.issued
  intro L hL J' hJ' hid
  rw [hleases] at hL
  rcases List.mem_append.mp hL with hold | hissued
  · cases h.jobs hJ' with
    | kept mem => exact hinv L hold J' mem hid
    | written J mem keeps => exact (hinv L hold J mem (keeps.id.symm.trans hid)).keeps keeps
    | added fresh => exact absurd hid.symm (fresh.lease hold).1
  · obtain ⟨J, hJ, hlease⟩ := hnew L hissued
    obtain ⟨hLid, hleased⟩ := Leased.of_leaseFromJob hlease
    rwa [row_unique hkeys.jobs hJ' hJ (hid.trans hLid)]

end Jobs

/-! ## Keys -/

section Keys

variable {settings : Settings} {s s' : Sys} {op : Op}

theorem nodup_retire {superseded : Option Generation} {generations : List Generation}
    (h : (generations.map (·.id)).Nodup) : ((retire superseded generations).map (·.id)).Nodup := by
  cases superseded with
  | none => exact h
  | some generation => exact nodup_setRow h _

theorem nodup_enrolled {superseded : Option Generation} {db : Db} {knowledgeBaseId : ℕ}
    {generation : Generation} (h : (db.indexStates.map (·.key)).Nodup) :
    ((enrolled superseded db knowledgeBaseId generation).map (·.key)).Nodup := by
  unfold enrolled
  split
  · exact nodup_insertMissing _ h
  · exact h

/-- A step of a saga keeps the keys apart. -/
theorem Indexing.SagaWrite.wellKeyed {identities : GenerationIdentities} {delayed : Bool} {db : Db}
    (hkeys : s.db.WellKeyed) (h : SagaWrite identities s.reservations s.Fresh s.db delayed db) :
    db.WellKeyed := by
  cases h with
  | reserved command knowledgeBase embedding filterSnapshot requestId generationId mem id status pending
      building claim free =>
      simp only [reservationKeysFree, Bool.and_eq_true, List.all_eq_true, decide_eq_true_eq] at free
      exact { hkeys with
        knowledgeBases := nodup_setRow hkeys.knowledgeBases _
        generations := nodup_map_append hkeys.generations fun g hg => (free.2 g hg).1
        creationRequests := nodup_map_append hkeys.creationRequests free.1 }
  | refused _ knowledgeBase generation counted request status code rows columns guard =>
      exact { hkeys with
        knowledgeBases := nodup_setRow hkeys.knowledgeBases _
        generations := nodup_setRow hkeys.generations _
        creationRequests := nodup_setRow hkeys.creationRequests _ }
  | abandoned =>
      exact { hkeys with
        knowledgeBases := nodup_setRow hkeys.knowledgeBases _
        generations := nodup_setRow hkeys.generations _ }
  | activated _ knowledgeBase generation request reservation jobId jobs rows reserved generationId claim state
      status active pending mutation queued =>
      refine { hkeys with
        knowledgeBases := nodup_setRow hkeys.knowledgeBases _
        generations := nodup_setRow (nodup_retire hkeys.generations) _
        creationRequests := nodup_setRow hkeys.creationRequests _
        indexStates := nodup_enrolled hkeys.indexStates
        mutations := nodup_map_append hkeys.mutations mutation
        jobs := ?_ }
      rcases queued with rfl | ⟨hfresh, rfl, -⟩
      · simpa [promoted] using hkeys.jobs
      · exact nodup_map_append hkeys.jobs fun J hJ => (hfresh.job hJ).1

theorem Indexing.ClaimWrite.wellKeyed {db : Db} {claims : List CleanupClaim} (hkeys : db.WellKeyed)
    (h : ClaimWrite db claims) : (claims.map (·.collectionName)).Nodup := by
  cases h with
  | opened claim orphan unclaimed =>
      apply nodup_map_append hkeys.cleanupClaims
      intro c hc heq
      unfold cleanupClaim? at unclaimed
      rw [List.find?_eq_none] at unclaimed
      exact unclaimed c hc (by simpa using heq)
  | kept _ names => rw [names]; exact hkeys.cleanupClaims
  | released claim claimed used => exact nodup_filter hkeys.cleanupClaims _

/-- The rows after a purge. -/
theorem wellKeyed_deleteRows {knowledgeBaseId : ℕ} {db db' : Db} (hkeys : db.WellKeyed)
    (h : deleteRows knowledgeBaseId db = .ok ((), db')) : db'.WellKeyed := by
  simp only [deleteRows, Except.ok.injEq, Prod.mk.injEq, true_and] at h
  subst h
  exact ⟨nodup_filter hkeys.knowledgeBases _, nodup_filter hkeys.generations _,
    nodup_filter hkeys.documents _, nodup_filter hkeys.versions _, nodup_filter hkeys.indexStates _,
    nodup_filter hkeys.mutations _, nodup_filter hkeys.jobs _, nodup_filter hkeys.uploads _,
    nodup_filter hkeys.creationRequests _, hkeys.cleanupClaims⟩

theorem wellKeyed_applyUpload {reservation : UploadReservation} {knowledgeBase : KnowledgeBase}
    {generation : Generation} {mutationId : ℕ} (hkeys : s.db.WellKeyed)
    (fresh : s.Fresh reservation.documentId ∧ s.Fresh reservation.versionId ∧
      s.Fresh reservation.jobId ∧ s.Fresh mutationId)
    (creates : UploadCreates s.db reservation knowledgeBase generation) :
    (applyUpload reservation knowledgeBase generation mutationId s.db).WellKeyed := by
  obtain ⟨hd, hv, hj, hm⟩ := fresh
  refine { hkeys with
    knowledgeBases := nodup_setRow hkeys.knowledgeBases _
    documents := nodup_map_append hkeys.documents fun d hmem => (hd.document hmem).1
    versions := nodup_map_append hkeys.versions fun v hmem => (hv.version hmem).1
    indexStates := nodup_map_append hkeys.indexStates fun st hmem heq => hv.indexState hmem ?_
    mutations := nodup_map_append hkeys.mutations fun m hmem => (hm.mutation hmem).1
    jobs := nodup_map_append hkeys.jobs fun J hmem => (hj.job hmem).1
    uploads := ?_ }
  · exact (Prod.mk.inj heq).1
  · have hunused := creates.unused
    cases hkey : reservation.idempotencyKey with
    | none => simpa [applyUpload, idempotencyRow, hkey] using hkeys.uploads
    | some key =>
        simp only [applyUpload, idempotencyRow, hkey]
        apply nodup_map_append hkeys.uploads
        simp only [existingIdempotency, hkey, Option.bind_eq_bind, Option.bind_some] at hunused
        rw [List.find?_eq_none] at hunused
        intro u hu heq
        exact hunused u hu (by simpa [UploadIdempotency.key] using heq)

/-- **A step keeps the keys apart.** -/
theorem wellKeyed_step (hkeys : s.db.WellKeyed) (h : Effect settings s op s') : s'.db.WellKeyed := by
  cases h with
  | idle => exact hkeys
  | tick => exact { hkeys with }
  | job => exact { hkeys with jobs := nodup_setRow hkeys.jobs _ }
  | stage =>
      exact { hkeys with
        versions := nodup_setRow hkeys.versions _
        indexStates := nodup_setRow hkeys.indexStates _
        jobs := nodup_setRow hkeys.jobs _ }
  | failed =>
      exact { hkeys with
        documents := nodup_setRow hkeys.documents _
        versions := nodup_setRow hkeys.versions _
        indexStates := nodup_setRow hkeys.indexStates _
        jobs := nodup_setRow hkeys.jobs _ }
  | activated lease expected graph job mutationId held fresh activation =>
      exact { hkeys with
        knowledgeBases := nodup_setRow hkeys.knowledgeBases _
        documents := nodup_setRow hkeys.documents _
        versions := nodup_setRow hkeys.versions _
        mutations := nodup_map_append hkeys.mutations fun m hm => (fresh.mutation hm).1
        jobs := nodup_setRow hkeys.jobs _ }
  | uploaded request documentId versionId jobId mutationId checks knowledgeBase generation fresh creates =>
      exact wellKeyed_applyUpload hkeys fresh creates
  | retried _ jobId db fresh write =>
      have hjob {source : Job} {actorId : ℕ} {key : Str} :
          ((s.db.jobs ++ [childJob source jobId actorId key]).map (·.id)).Nodup :=
        nodup_map_append hkeys.jobs fun J hJ => (fresh.job hJ).1
      cases write with
      | ingestion =>
          exact { hkeys with
            documents := nodup_setRow hkeys.documents _
            versions := nodup_setRow hkeys.versions _
            indexStates := nodup_setRow hkeys.indexStates _
            jobs := hjob }
      | rebuild => exact { hkeys with jobs := hjob }
  | repaired _ configured knowledgeBase generation snapshot jobId fresh =>
      exact { hkeys with jobs := nodup_map_append hkeys.jobs fun J hJ => (fresh.job hJ).1 }
  | saga _ delayed db reservations of_delayed write backed =>
      rcases write with rfl | write
      · exact hkeys
      · exact write.wellKeyed hkeys
  | claims _ claims write => exact { hkeys with cleanupClaims := write.wellKeyed hkeys }
  | created knowledgeBaseId fresh =>
      exact { hkeys with
        knowledgeBases := nodup_map_append hkeys.knowledgeBases fun k hk => fresh.knowledgeBase hk }
  | updated => exact { hkeys with knowledgeBases := nodup_setRow hkeys.knowledgeBases _ }
  | schemaReplaced _ knowledgeBase canonical mutationId mem fresh thawed =>
      exact { hkeys with
        knowledgeBases := nodup_setRow hkeys.knowledgeBases _
        mutations := nodup_map_append hkeys.mutations fun m hm => (fresh.mutation hm).1 }
  | deleted _ knowledgeBase actorId jobId mem fresh kept =>
      exact { hkeys with
        knowledgeBases := nodup_setRow hkeys.knowledgeBases _
        jobs := nodup_map_append hkeys.jobs fun J hJ => (fresh.job hJ).1 }
  | purged _ lease db held purge knowledgeBase mem target deleting rows =>
      exact wellKeyed_deleteRows hkeys rows
  | purgeReturned => exact hkeys

end Keys

/-! ## The invariant -/

/-- The keys are apart and the leases agree with their jobs. -/
structure Base (s : Sys) : Prop where
  keys : s.db.WellKeyed
  leases : LeaseInv s

section Runs

variable {settings : Settings} {s s' : Sys} {op : Op}

/-- Under the invariant, an operation that commits has an effect. -/
theorem Base.effect (h : Base s) (hop : op.apply settings s = some s') : Effect settings s op s' :=
  effect_of_apply h.keys (fun L hL J hJ hid => (h.leases L hL J hJ hid).mutationId.symm) hop

theorem Base.step (h : Base s) (heffect : Effect settings s op s') : Base s' :=
  have hkeys := wellKeyed_step h.keys heffect
  ⟨hkeys, h.leases.step hkeys heffect⟩

theorem base_init : Base Sys.init := by
  refine ⟨?_, fun L hL => by cases hL⟩
  constructor <;> exact List.nodup_nil

/-- What every effect keeps holds along a run. -/
theorem Base.run (Inv : Sys → Prop)
    (step : ∀ {s s' : Sys} {op : Op}, Base s → Inv s → Effect settings s op s' → Inv s')
    (hbase : Base s) (hinv : Inv s) (h : Relation.ReflTransGen (Step settings) s s') : Base s' ∧ Inv s' := by
  induction h with
  | refl => exact ⟨hbase, hinv⟩
  | tail _ hstep ih =>
      obtain ⟨op, hop⟩ := hstep
      have heffect := ih.1.effect hop
      exact ⟨ih.1.step heffect, step ih.1 ih.2 heffect⟩

/-- **Induction over runs**: an invariant that holds at the start and that every effect keeps, from
states that satisfy it and the basic invariant. -/
theorem Reachable.induction_on (Inv : Sys → Prop) (init : Inv Sys.init)
    (step : ∀ {s s' : Sys} {op : Op}, Base s → Inv s → Effect settings s op s' → Inv s')
    (h : Reachable settings s) : Base s ∧ Inv s :=
  Base.run Inv step base_init init h

/-- The states that runs reach whose steps are all `allowed`. -/
def ReachableWhere (settings : Settings) (allowed : Sys → Op → Prop) : Sys → Prop :=
  Relation.ReflTransGen (fun s s' => ∃ op, allowed s op ∧ op.apply settings s = some s') Sys.init

theorem ReachableWhere.reachable {allowed : Sys → Op → Prop} (h : ReachableWhere settings allowed s) :
    Reachable settings s := by
  refine Relation.ReflTransGen.mono ?_ _ _ h
  rintro s s' ⟨op, -, hop⟩
  exact ⟨op, hop⟩

/-- A run whose steps are all `allowed`. -/
def RunWhere (settings : Settings) (allowed : Sys → Op → Prop) : Sys → Sys → Prop :=
  Relation.ReflTransGen fun s s' => ∃ op, allowed s op ∧ op.apply settings s = some s'

/-- What every effect of an allowed step keeps holds along a run of such steps. -/
theorem Base.runWhere {allowed : Sys → Op → Prop} (Inv : Sys → Prop)
    (step : ∀ {s s' : Sys} {op : Op}, Base s → Inv s → allowed s op → Effect settings s op s' → Inv s')
    (hbase : Base s) (hinv : Inv s) (h : RunWhere settings allowed s s') : Base s' ∧ Inv s' := by
  induction h with
  | refl => exact ⟨hbase, hinv⟩
  | tail _ hstep ih =>
      obtain ⟨op, hallowed, hop⟩ := hstep
      have heffect := ih.1.effect hop
      exact ⟨ih.1.step heffect, step ih.1 ih.2 hallowed heffect⟩

/-- Induction over the runs whose steps are all allowed. -/
theorem ReachableWhere.induction_on {allowed : Sys → Op → Prop} (Inv : Sys → Prop) (init : Inv Sys.init)
    (step : ∀ {s s' : Sys} {op : Op}, Base s → Inv s → allowed s op → Effect settings s op s' → Inv s')
    (h : ReachableWhere settings allowed s) : Base s ∧ Inv s :=
  Base.runWhere Inv step base_init init h

theorem base_of_reachable (h : Reachable settings s) : Base s :=
  (Reachable.induction_on (fun _ => True) trivial (fun _ _ _ => trivial) h).1

/-! ## Runs of given operations -/

/-- Every operation of a list is allowed in the state it is reached in. -/
def AllowedRun (settings : Settings) (allowed : Sys → Op → Prop) : Sys → List Op → Prop
  | _, [] => True
  | s, op :: ops => allowed s op ∧ AllowedRun settings allowed ((op.apply settings s).getD s) ops

theorem runWhere_exec {allowed : Sys → Op → Prop} {ops : List Op} (h : AllowedRun settings allowed s ops) :
    RunWhere settings allowed s (exec settings s ops) := by
  induction ops generalizing s with
  | nil => exact .refl
  | cons op ops ih =>
      have hrest := ih h.2
      cases hop : op.apply settings s with
      | none =>
          simp only [exec, List.foldl_cons, hop, Option.getD_none] at hrest ⊢
          exact hrest
      | some s' =>
          simp only [exec, List.foldl_cons, hop, Option.getD_some] at hrest ⊢
          exact .head ⟨op, h.1, hop⟩ hrest

/-- Running a list of operations that are all allowed, whatever the state. -/
theorem reachableWhere_exec {allowed : Sys → Op → Prop} {ops : List Op}
    (hallowed : ∀ op ∈ ops, ∀ s, allowed s op) :
    ReachableWhere settings allowed (exec settings Sys.init ops) := by
  have h (s : Sys) : AllowedRun settings allowed s ops := by
    induction ops generalizing s with
    | nil => trivial
    | cons op ops ih =>
        exact ⟨hallowed op List.mem_cons_self s,
          ih (fun op' hop' => hallowed op' (List.mem_cons_of_mem _ hop')) _⟩
  exact runWhere_exec (h Sys.init)

theorem exec_append (s : Sys) (ops ops' : List Op) :
    exec settings s (ops ++ ops') = exec settings (exec settings s ops) ops' :=
  List.foldl_append

theorem run_exec (s : Sys) (ops : List Op) : Relation.ReflTransGen (Step settings) s (exec settings s ops) := by
  have h : RunWhere settings (fun _ _ => True) s (exec settings s ops) := by
    apply runWhere_exec
    induction ops generalizing s with
    | nil => trivial
    | cons op ops ih => exact ⟨trivial, ih _⟩
  refine Relation.ReflTransGen.mono ?_ _ _ h
  rintro s s' ⟨op, -, hop⟩
  exact ⟨op, hop⟩

theorem reachable_exec (ops : List Op) : Reachable settings (exec settings Sys.init ops) := run_exec Sys.init ops

end Runs

/-- Settings for runs with given operations: identities are derived by pairing numbers. -/
def sampleSettings : Settings where
  digest := fun _ => "digest".toList
  chunkDefaults := (512, 64)
  identities :=
    { generationId := fun actorId knowledgeBaseId key => 1000 + 100 * actorId + 10 * knowledgeBaseId + key.length
      requestId := fun actorId knowledgeBaseId key => 2000 + 100 * actorId + 10 * knowledgeBaseId + key.length
      mutationId := fun generationId revision => 100 * generationId + revision
      emptyValidationHash := fun _ _ _ _ => "empty".toList }

end VeloxRag
