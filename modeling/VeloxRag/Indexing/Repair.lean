import VeloxRag.Indexing.Generations

/-!
# Repairing a generation

A rebuild writes the points of every live document into the collection of the active generation
again.  It enumerates its targets from the rows, pins the enumeration to the mutation revision
of the knowledge base, and starts over when the revision has moved on.

## Main definitions

* `repairTarget?`, `canonicalTargets` — the enumeration.
* `RepairSnapshot`, `snapshotFromRows` — what a rebuild works from.
* `reserveRepair` — a rebuild that an operator asks for.
* `advanceRepair`, `checkpointRepair`, `refreshTarget`, `finalizeRepair` — its commits.
-/

namespace VeloxRag.Indexing

open Lib Jobs

def manifestUnavailable : TxError := .business 409 "GENERATION_REPAIR_MANIFEST_UNAVAILABLE"
def repairNotActive : TxError := .business 409 "GENERATION_REPAIR_NOT_ACTIVE"
def repairConfigurationConflict : TxError := .business 409 "GENERATION_REPAIR_CONFIGURATION_CONFLICT"
def repairAlreadyInProgress : TxError := .business 409 "GENERATION_REPAIR_IN_PROGRESS"
def ingestionInProgress : TxError := .business 409 "GENERATION_REPAIR_INGESTION_IN_PROGRESS"
def repairStateChanged : TxError := .business 409 "GENERATION_REPAIR_STATE_CHANGED"

/-! ## Targets -/

structure RepairTarget where
  documentId : ℕ
  versionId : ℕ
  manifestObjectKey : Str
  manifestChecksum : Str
  sourceChecksum : Str
  parsedChecksum : Str
  parser : ParserInfo
  chunker : ChunkerInfo
  chunkConfigHash : Str
  chunkCount : ℕ
  documentMetadata : Str
deriving DecidableEq, Repr

/-- The checks of `_canonical_targets` on the rows of one document. -/
def repairable (digest : ChunkerDigest) (generation : Generation) (document : Document)
    (version : Version) (state : IndexState) : Bool :=
  decide (document.checksum = some version.source.checksum) && decide (version.status = .ready)
    && version.activatedAt.isSome && version.parser.name.isSome && version.parser.version.isSome
    && version.chunker.name.isSome && version.chunker.version.isSome
    && (version.chunkCount.any fun count => decide (1 ≤ count))
    && decide (state.status = .validated) && state.validatedAt.isSome
    && decide (state.expectedPointCount = version.chunkCount)
    && decide (state.actualPointCount = version.chunkCount)
    && decide (state.chunkManifestChecksum = version.chunkManifestChecksum)
    && decide (state.embeddingConfigHash = generation.embeddingConfigHash)
    && decide (some state.nextChunkIndex = version.chunkCount)
    && decide (version.chunkConfigHash = some (digest version.chunker))

/-- The target of one live document, or `None` if its rows are refused. -/
def repairTarget? (digest : ChunkerDigest) (db : Db) (generation : Generation) (document : Document) :
    Option RepairTarget := do
  let (version, state) ← currentRows db generation.id document
  if repairable digest generation document version state = false then none
  else
    pure ⟨document.id, version.id, ← version.chunkManifestObjectKey, ← version.chunkManifestChecksum,
      version.source.checksum, ← version.parsedObjectChecksum, version.parser, version.chunker,
      ← version.chunkConfigHash, ← version.chunkCount, document.metadata⟩

/-- `_canonical_targets`, in the order of the documents' identities, with the total of the points. -/
def canonicalTargets (digest : ChunkerDigest) (db : Db) (knowledgeBaseId : ℕ) (generation : Generation) :
    Except TxError (List RepairTarget × ℕ) :=
  let documents := (liveDocuments db knowledgeBaseId).mergeSort fun d d' => decide (d.id ≤ d'.id)
  match documents.mapM (repairTarget? digest db generation) with
  | none => .error manifestUnavailable
  | some targets => .ok (targets, (targets.map (·.chunkCount)).sum)

/-! ## Snapshots -/

structure RepairSnapshot where
  knowledgeBaseId : ℕ
  generationId : ℕ
  anchorMutationId : ℕ
  mutationRevision : ℕ
  collection : Str
  pointTotal : ℕ
  embeddingSnapshot : Str
  embeddingConfigHash : Str
  filterSnapshot : Str
  appliedFilterSchemaRevision : ℕ
  embeddingProfileId : ℕ
  targets : List RepairTarget
deriving DecidableEq, Repr

/-- The payload that the mutation of an activation must have. -/
def anchorPayload (generation : Generation) : IndexConfigPayload :=
  ⟨generation.id, generation.embeddingProfileId, generation.indexProfileHash,
    generation.embeddingConfigHash, generation.appliedFilterSchemaRevision,
    generation.validationManifestHash⟩

/-- `_configuration_anchor`. -/
def configurationAnchor (db : Db) (knowledgeBaseId : ℕ) (generation : Generation) : Option ℕ :=
  (db.mutations.find? fun m => decide (m.knowledgeBaseId = knowledgeBaseId)
    && decide (m.revision = generation.caughtUpRevision)
    && decide (m.kind = .indexConfigChanged (anchorPayload generation))).map (·.id)

/-- The columns of a generation that a snapshot copies, if they are all set. -/
def configurationColumns (knowledgeBase : KnowledgeBase) (generation : Generation) :
    Option (Str × Str × Str × ℕ × ℕ) := do
  let embeddingSnapshot ← generation.embeddingConfigSnapshot
  let hash ← generation.embeddingConfigHash
  let filterSnapshot ← generation.filterSchemaSnapshot
  let revision ← generation.appliedFilterSchemaRevision
  let profile ← generation.embeddingProfileId
  if generation.qdrantCollectionName = collectionName knowledgeBase.id generation.id then
    pure (embeddingSnapshot, hash, filterSnapshot, revision, profile)
  else none

/-- `_snapshot_from_rows`; `configured` is whether the provider tables still give the stored
configuration. -/
def snapshotFromRows (digest : ChunkerDigest) (configured : Bool) (db : Db)
    (knowledgeBase : KnowledgeBase) (generation : Generation) : Except TxError RepairSnapshot :=
  if generation.knowledgeBaseId ≠ knowledgeBase.id ∨ generation.status ≠ .active ∨
      knowledgeBase.activeIndexGenerationId ≠ some generation.id then .error repairNotActive
  else
    match configured, configurationColumns knowledgeBase generation,
      configurationAnchor db knowledgeBase.id generation with
    | true, some (embeddingSnapshot, hash, filterSnapshot, revision, profile), some anchor => do
        let (targets, pointTotal) ← canonicalTargets digest db knowledgeBase.id generation
        pure ⟨knowledgeBase.id, generation.id, anchor, knowledgeBase.mutationRevision,
          generation.qdrantCollectionName, pointTotal, embeddingSnapshot, hash, filterSnapshot,
          revision, profile, targets⟩
    | _, _, _ => .error repairConfigurationConflict

/-! ## Reservation -/

/-- `_active_repair_exists`. -/
def activeRepairExists (db : Db) (generationId : ℕ) : Bool :=
  db.jobs.any fun job => decide (job.operation = .rebuildGeneration)
    && decide (job.targetType = .indexGeneration) && decide (job.targetId = generationId)
    && decide (job.indexGenerationId = some generationId) && job.status.isActive

/-- `_active_ingestion_exists`. -/
def activeIngestionExists (db : Db) (knowledgeBaseId generationId : ℕ) : Bool :=
  db.jobs.any fun job => decide (job.knowledgeBaseId = some knowledgeBaseId)
    && decide (job.operation = .ingestDocument)
    && decide (job.indexGenerationId = some generationId) && job.status.isActive

/-- The job of a repair. -/
def repairJob (id : ℕ) (snapshot : RepairSnapshot) : Job :=
  { Job.queued id (some snapshot.knowledgeBaseId) none .rebuildGeneration .indexGeneration
      snapshot.generationId (some snapshot.mutationRevision) (some snapshot.generationId)
      (some snapshot.anchorMutationId) (some .indexing) (some .indexing) with
    progressTotal := some snapshot.pointTotal }

/-- The transaction of `reserve`: the rows still give the snapshot that was read before the
collection was probed.  `probe` is what the second probe answers. -/
def reserveRepair (digest : ChunkerDigest) (configured : Bool) (initial : RepairSnapshot)
    (probe : Except TxError Unit) (jobId : ℕ) : Tx Unit := fun db =>
  match db.knowledgeBase? initial.knowledgeBaseId, db.generation? initial.generationId with
  | some knowledgeBase, some generation =>
      if activeRepairExists db initial.generationId then .error repairAlreadyInProgress
      else if activeIngestionExists db initial.knowledgeBaseId initial.generationId then
        .error ingestionInProgress
      else do
        let current ← snapshotFromRows digest configured db knowledgeBase generation
        if current ≠ initial then throw repairStateChanged
        else do
          probe
          insertJob (repairJob jobId current) db
  | _, _ => .error resourceNotFound

/-! ## Commits -/

/-- `_validate_lease` and the checks of `_expected_snapshot`: the snapshot is the one of the lease. -/
def expectedByLease (lease : JobLease) (snapshot : RepairSnapshot) : Bool :=
  decide (lease.operation = .rebuildGeneration) && decide (lease.targetType = .indexGeneration)
    && decide (lease.indexGenerationId = some lease.targetId)
    && decide (snapshot.generationId = lease.targetId)
    && decide (lease.mutationId = some snapshot.anchorMutationId)
    && decide (lease.targetRevision = some snapshot.mutationRevision)
    && decide (lease.progressTotal = some snapshot.pointTotal)

/-- `_assert_control_plane_current`. -/
def assertControlPlaneCurrent (configured : Bool) (expected : RepairSnapshot) : Tx Unit := fun db =>
  match db.knowledgeBase? expected.knowledgeBaseId, db.generation? expected.generationId with
  | some knowledgeBase, some generation =>
      if configured ∧ generation.knowledgeBaseId = expected.knowledgeBaseId ∧
          generation.status = .active ∧
          knowledgeBase.activeIndexGenerationId = some expected.generationId ∧
          knowledgeBase.mutationRevision = expected.mutationRevision ∧
          generation.embeddingProfileId = some expected.embeddingProfileId ∧
          generation.qdrantCollectionName = expected.collection ∧
          generation.appliedFilterSchemaRevision = some expected.appliedFilterSchemaRevision ∧
          configurationAnchor db expected.knowledgeBaseId generation = some expected.anchorMutationId ∧
          generation.embeddingConfigSnapshot = some expected.embeddingSnapshot ∧
          generation.embeddingConfigHash = some expected.embeddingConfigHash ∧
          generation.filterSchemaSnapshot = some expected.filterSnapshot then .ok ((), db)
      else .error .repairTargetChanged
  | _, _ => .error .repairTargetChanged

/-- The advance from one stage of a rebuild to the next. -/
def advanceRepair (configured : Bool) (lease : JobLease) (expected : RepairSnapshot)
    (fromStage toStage : Stage) : Tx Job := fun db =>
  if expectedByLease lease expected ∧ lease.stage = some fromStage then
    advanceStage lease (assertControlPlaneCurrent configured expected) toStage toStage
      expected.pointTotal (some expected.pointTotal) db
  else .error (.business 409 "GENERATION_REPAIR_STAGE_CONFLICT")

/-- `_advance_to_validating`. -/
def advanceToValidating (configured : Bool) (lease : JobLease) (expected : RepairSnapshot) : Tx Job :=
  advanceRepair configured lease expected .indexing .validating

/-- The commit of `_validating_stage`. -/
def advanceToComplete (configured : Bool) (lease : JobLease) (expected : RepairSnapshot) : Tx Job :=
  advanceRepair configured lease expected .validating .complete

/-- The commit of `_indexing_stage` after a batch that is not the last one. -/
def checkpointRepair (configured : Bool) (lease : JobLease) (expected : RepairSnapshot)
    (nextProgress : ℕ) : Tx Job := fun db =>
  if expectedByLease lease expected ∧ lease.stage = some .indexing ∧
      nextProgress < expected.pointTotal then
    commitStageCheckpoint lease (assertControlPlaneCurrent configured expected) nextProgress
      (some expected.pointTotal) db
  else .error (.business 409 "GENERATION_REPAIR_STAGE_CONFLICT")

/-- `_locked_snapshot` without a job. -/
def lockedSnapshot (digest : ChunkerDigest) (configured : Bool) (knowledgeBaseId generationId : ℕ)
    (db : Db) : Except TxError RepairSnapshot :=
  match db.knowledgeBase? knowledgeBaseId, db.generation? generationId with
  | some knowledgeBase, some generation =>
      snapshotFromRows digest configured db knowledgeBase generation
  | _, _ => .error repairNotActive

/-- `_refresh_target`: the rebuild starts over at the current revision. -/
def refreshTarget (digest : ChunkerDigest) (configured : Bool) (lease : JobLease)
    (knowledgeBaseId : ℕ) : Tx JobLease :=
  resetRebuildTarget lease fun db => do
    let snapshot ← lockedSnapshot digest configured knowledgeBaseId lease.targetId db
    pure (⟨snapshot.mutationRevision, snapshot.pointTotal⟩, db)

/-- The fence of `_finalize_success`. -/
def repairFence (now : ℕ) (lease : JobLease) (job : Job) : Bool :=
  decide (job.id = lease.id) && decide (job.operation = lease.operation)
    && decide (job.targetType = lease.targetType) && decide (job.targetId = lease.targetId)
    && decide (job.targetRevision = lease.targetRevision)
    && decide (job.indexGenerationId = lease.indexGenerationId)
    && decide (job.mutationId = lease.mutationId) && decide (job.stage = lease.stage)
    && decide (job.status = .running) && decide (job.leaseOwner = some lease.leaseOwner)
    && decide (job.leaseEpoch = lease.leaseEpoch)
    && (job.leaseExpiresAt.any fun expiresAt => decide (now < expiresAt))
    && decide (job.cancelRequestedAt = none)

/-- The commit of `_finalize_success`. -/
def finalizeRepair (digest : ChunkerDigest) (configured : Bool) (lease : JobLease)
    (expected : RepairSnapshot) : Tx Unit := fun db =>
  if expectedByLease lease expected ∧ lease.stage = some .complete then
    finalizeDomain lease (fun db => do
      let current ← lockedSnapshot digest configured expected.knowledgeBaseId expected.generationId db
      match db.jobs.find? (repairFence db.now lease) with
      | none => throw .lostLease
      | some job =>
          if some current.mutationRevision ≠ lease.targetRevision ∨ current ≠ expected ∨
              some current.pointTotal ≠ lease.progressTotal then throw .repairTargetChanged
          else pure ((), { db with
            jobs := setRow (·.id) (finishedValues db.now job) db.jobs })) db
  else .error (.business 409 "GENERATION_REPAIR_STAGE_CONFLICT")

end VeloxRag.Indexing
