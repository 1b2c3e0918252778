import VeloxRag.Text
import VeloxRag.Lib.Table

/-!
# The rows of the database

The tables of the service and the columns its transactions read or write.  Identities are
numbers, a time is a number of microseconds, and a column of JSON that is only stored and
compared is its canonical text.

## Main definitions

* `KnowledgeBase`, `Generation`, `Document`, `Version`, `IndexState`, `Mutation`, `Job`,
  `UploadIdempotency`, `CreationRequest`, `CleanupClaim` — the rows.
* `Db` — the tables and the clock.
* `Db.WellKeyed` — no table has a primary key twice.
-/

namespace VeloxRag

open Lib

/-! ## Knowledge bases and generations -/

inductive KbStatus
  | active
  | reindexing
  | disabled
  | deleting
deriving DecidableEq, Repr

structure KnowledgeBase where
  id : ℕ
  status : KbStatus
  activeIndexGenerationId : Option ℕ
  pendingIndexGenerationId : Option ℕ
  mutationRevision : ℕ
  filterSchemaRevision : ℕ
  filterSchema : Str
deriving DecidableEq, Repr

inductive GenerationStatus
  | building
  | active
  | retiring
  | failed
deriving DecidableEq, Repr

structure Generation where
  id : ℕ
  knowledgeBaseId : ℕ
  qdrantCollectionName : Str
  status : GenerationStatus
  indexProfileHash : Str
  embeddingProfileId : Option ℕ
  embeddingConfigSnapshot : Option Str
  embeddingConfigHash : Option Str
  filterSchemaSnapshot : Option Str
  appliedFilterSchemaRevision : Option ℕ
  caughtUpRevision : ℕ
  validatedRevision : Option ℕ
  validationManifestHash : Option Str
  expectedPointCount : Option ℕ
  actualPointCount : Option ℕ
  validatedAt : Option ℕ
  activatedAt : Option ℕ
  retiredAt : Option ℕ
  safeErrorCode : Option Str
deriving DecidableEq, Repr

/-! ## Documents -/

inductive DocumentStatus
  | processing
  | active
  | failed
  | deleting
  | deleted
deriving DecidableEq, Repr

structure Document where
  id : ℕ
  knowledgeBaseId : ℕ
  checksum : Option Str
  currentVersionId : Option ℕ
  pendingVersionId : Option ℕ
  status : DocumentStatus
  deletedAt : Option ℕ
  metadata : Str
  mimeType : Option Str
deriving DecidableEq, Repr

inductive VersionStatus
  | uploaded
  | parsing
  | chunking
  | embedding
  | indexing
  | ready
  | failed
  | conflicted
  | cancelled
  | ocrRequired
  | superseded
deriving DecidableEq, Repr

/-- The source of a version. -/
structure SourceInfo where
  objectKey : Str
  checksum : Str
  extension : Option Str
  detectedMimeType : Option Str
deriving DecidableEq, Repr

/-- The parser a version is processed with. -/
structure ParserInfo where
  name : Option Str
  version : Option Str
  config : Str
deriving DecidableEq, Repr

/-- The chunker a version is processed with: the two sizes of its configuration, or none for the
empty dictionary the column starts with. -/
structure ChunkerInfo where
  name : Option Str
  version : Option Str
  config : Option (ℤ × ℤ)
deriving DecidableEq, Repr

structure Version where
  id : ℕ
  documentId : ℕ
  baseVersionId : Option ℕ
  source : SourceInfo
  parser : ParserInfo
  parsedObjectKey : Option Str
  parsedObjectChecksum : Option Str
  chunker : ChunkerInfo
  chunkManifestObjectKey : Option Str
  chunkManifestChecksum : Option Str
  chunkConfigHash : Option Str
  chunkCount : Option ℕ
  status : VersionStatus
  activatedAt : Option ℕ
deriving DecidableEq, Repr

inductive IndexStatus
  | queued
  | embedding
  | indexing
  | validated
  | failed
  | retired
deriving DecidableEq, Repr

structure IndexState where
  versionId : ℕ
  generationId : ℕ
  status : IndexStatus
  expectedPointCount : Option ℕ
  actualPointCount : Option ℕ
  errorCode : Option Str
  safeErrorMessage : Option Str
  validatedAt : Option ℕ
  chunkManifestChecksum : Option Str
  embeddingConfigHash : Option Str
  nextChunkIndex : ℕ
deriving DecidableEq, Repr

/-- The primary key of an index state. -/
def IndexState.key (s : IndexState) : ℕ × ℕ := (s.versionId, s.generationId)

/-! ## Mutations -/

/-- What a mutation of the index configuration records. -/
structure IndexConfigPayload where
  generationId : ℕ
  embeddingProfileId : Option ℕ
  indexProfileHash : Str
  embeddingConfigHash : Option Str
  appliedFilterSchemaRevision : Option ℕ
  validationManifestHash : Option Str
deriving DecidableEq, Repr

/-- The type of a mutation, with its payload. -/
inductive MutationKind
  | documentVersionCreated (versionId documentId : ℕ)
  | documentActivated (versionId documentId : ℕ)
  | documentMetadataUpdated (documentId : ℕ)
  | documentDeleted (documentId : ℕ)
  | filterSchemaChanged
  | indexConfigChanged (payload : IndexConfigPayload)
deriving DecidableEq, Repr

structure Mutation where
  id : ℕ
  knowledgeBaseId : ℕ
  revision : ℕ
  kind : MutationKind
deriving DecidableEq, Repr

/-! ## Jobs -/

inductive TargetType
  | documentVersion
  | indexGeneration
  | filterSchemaRevision
  | knowledgeBase
deriving DecidableEq, Repr

inductive Operation
  | ingestDocument
  | indexDocument
  | deleteDocument
  | rebuildGeneration
  | applyFilterSchema
  | cleanupGeneration
  | cleanupDocumentVersion
  | purgeKnowledgeBase
deriving DecidableEq, Repr

inductive JobStatus
  | queued
  | running
  | retryWait
  | succeeded
  | failed
  | cancelled
deriving DecidableEq, Repr

/-- `status IN ('queued', 'running', 'retry_wait')`. -/
def JobStatus.isActive : JobStatus → Bool
  | .queued | .running | .retryWait => true
  | _ => false

/-- The stages of the three kinds of jobs that run. -/
inductive Stage
  | parse
  | chunk
  | embedIndex
  | validate
  | activate
  | indexing
  | validating
  | complete
  | purge
deriving DecidableEq, Repr

structure Job where
  id : ℕ
  knowledgeBaseId : Option ℕ
  actorApiKeyId : Option ℕ
  targetType : TargetType
  targetId : ℕ
  targetRevision : Option ℕ
  indexGenerationId : Option ℕ
  mutationId : Option ℕ
  parentJobId : Option ℕ
  rootJobId : Option ℕ
  idempotencyKey : Option Str
  operation : Operation
  stage : Option Stage
  resumeStage : Option Stage
  status : JobStatus
  progressCurrent : ℕ
  progressTotal : Option ℕ
  attemptCount : ℕ
  maxAttempts : ℕ
  retryable : Bool
  nextRetryAt : Option ℕ
  errorCode : Option Str
  errorMessage : Option Str
  leaseOwner : Option Str
  leaseEpoch : ℕ
  leaseExpiresAt : Option ℕ
  workerHeartbeatAt : Option ℕ
  startedAt : Option ℕ
  finishedAt : Option ℕ
  cancelRequestedAt : Option ℕ
deriving DecidableEq, Repr

/-- A job as it is inserted: queued, with the defaults of the columns. -/
def Job.queued (id : ℕ) (knowledgeBaseId actorApiKeyId : Option ℕ) (operation : Operation)
    (targetType : TargetType) (targetId : ℕ) (targetRevision indexGenerationId mutationId : Option ℕ)
    (stage resumeStage : Option Stage) : Job where
  id := id
  knowledgeBaseId := knowledgeBaseId
  actorApiKeyId := actorApiKeyId
  targetType := targetType
  targetId := targetId
  targetRevision := targetRevision
  indexGenerationId := indexGenerationId
  mutationId := mutationId
  parentJobId := none
  rootJobId := none
  idempotencyKey := none
  operation := operation
  stage := stage
  resumeStage := resumeStage
  status := .queued
  progressCurrent := 0
  progressTotal := none
  attemptCount := 0
  maxAttempts := 5
  retryable := true
  nextRetryAt := none
  errorCode := none
  errorMessage := none
  leaseOwner := none
  leaseEpoch := 0
  leaseExpiresAt := none
  workerHeartbeatAt := none
  startedAt := none
  finishedAt := none
  cancelRequestedAt := none

/-! ## Requests and claims -/

/-- What an upload request resolved to. -/
structure UploadIdempotency where
  actorApiKeyId : ℕ
  knowledgeBaseId : ℕ
  idempotencyKey : Str
  requestFingerprint : Str
  documentId : ℕ
  versionId : ℕ
  jobId : ℕ
deriving DecidableEq, Repr

def UploadIdempotency.key (u : UploadIdempotency) : ℕ × ℕ × Str :=
  (u.actorApiKeyId, u.knowledgeBaseId, u.idempotencyKey)

inductive RequestState
  | inProgress
  | succeeded
  | failed
deriving DecidableEq, Repr

/-- A request to create a generation. -/
structure CreationRequest where
  id : ℕ
  actorApiKeyId : ℕ
  knowledgeBaseId : ℕ
  idempotencyKey : Str
  requestFingerprint : Str
  generationId : ℕ
  state : RequestState
  finalHttpStatus : Option ℕ
  safeErrorCode : Option String
deriving DecidableEq, Repr

/-- A reconciler's claim to delete a collection. -/
structure CleanupClaim where
  collectionName : Str
  knowledgeBaseId : ℕ
  generationId : ℕ
  leaseOwner : ℕ
  leaseEpoch : ℕ
  leaseExpiresAt : ℕ
  completedAt : Option ℕ
deriving DecidableEq, Repr

/-! ## The database -/

structure Db where
  /-- `clock_timestamp()`. -/
  now : ℕ
  knowledgeBases : List KnowledgeBase
  generations : List Generation
  documents : List Document
  versions : List Version
  indexStates : List IndexState
  mutations : List Mutation
  jobs : List Job
  uploads : List UploadIdempotency
  creationRequests : List CreationRequest
  cleanupClaims : List CleanupClaim
deriving DecidableEq, Repr

namespace Db

def empty : Db := ⟨0, [], [], [], [], [], [], [], [], [], []⟩

def knowledgeBase? (db : Db) (id : ℕ) : Option KnowledgeBase := db.knowledgeBases.find? (·.id = id)
def generation? (db : Db) (id : ℕ) : Option Generation := db.generations.find? (·.id = id)
def document? (db : Db) (id : ℕ) : Option Document := db.documents.find? (·.id = id)
def version? (db : Db) (id : ℕ) : Option Version := db.versions.find? (·.id = id)
def indexState? (db : Db) (key : ℕ × ℕ) : Option IndexState := db.indexStates.find? (·.key = key)
def mutation? (db : Db) (id : ℕ) : Option Mutation := db.mutations.find? (·.id = id)
def job? (db : Db) (id : ℕ) : Option Job := db.jobs.find? (·.id = id)

/-- No table has a primary key twice. -/
structure WellKeyed (db : Db) : Prop where
  knowledgeBases : (db.knowledgeBases.map (·.id)).Nodup
  generations : (db.generations.map (·.id)).Nodup
  documents : (db.documents.map (·.id)).Nodup
  versions : (db.versions.map (·.id)).Nodup
  indexStates : (db.indexStates.map (·.key)).Nodup
  mutations : (db.mutations.map (·.id)).Nodup
  jobs : (db.jobs.map (·.id)).Nodup
  uploads : (db.uploads.map (·.key)).Nodup
  creationRequests : (db.creationRequests.map (·.id)).Nodup
  cleanupClaims : (db.cleanupClaims.map (·.collectionName)).Nodup

end Db

end VeloxRag
