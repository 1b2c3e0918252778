import VeloxRag.Jobs.Repository
import VeloxRag.Jobs.ManualRetry

/-!
# The rows of an ingestion

An ingestion works on four rows at once: the document, its version, the state of the version in
the generation the job is pinned to, and the job.  Each stage loads what it needs, works outside
the database, and commits what it found only if the rows are still what it loaded.

## Main definitions

* `ParseStageInput`, `ChunkStageInput`, `EmbedIndexStageInput`, `ActivationStageInput` — what the
  stages load, with the functions `load…` that load it.
* `lockStageGraph` — the check every stage commit starts with.
* `commitParseStarted` … `commitValidateStage` — the commits of the stages.
* `commitActivation`, `commitTerminalFailure`, `commitExhaustedFailure` — the ends of a job.
-/

namespace VeloxRag.Ingestion

open Lib Jobs

/-- `ValueError("ingestion stage state is invalid")`. -/
def stageStateInvalid : TxError := .value "ingestion stage state is invalid"

/-! ## Loading -/

structure ParseStageInput where
  knowledgeBaseId : ℕ
  generationId : ℕ
  documentId : ℕ
  versionId : ℕ
  sourceObjectKey : Str
  sourceChecksum : Str
  sourceExtension : Str
  parser : ParserInfo
  versionStatus : VersionStatus
deriving DecidableEq, Repr

structure ChunkStageInput where
  knowledgeBaseId : ℕ
  generationId : ℕ
  documentId : ℕ
  versionId : ℕ
  sourceChecksum : Str
  sourceExtension : Str
  parsedObjectKey : Str
  parsedObjectChecksum : Str
  parser : ParserInfo
  chunker : ChunkerInfo
  versionStatus : VersionStatus
deriving DecidableEq, Repr

structure EmbedIndexStageInput where
  knowledgeBaseId : ℕ
  generationId : ℕ
  documentId : ℕ
  versionId : ℕ
  modelProfileId : ℕ
  manifestObjectKey : Str
  manifestChecksum : Str
  sourceChecksum : Str
  parsedChecksum : Str
  parser : ParserInfo
  chunker : ChunkerInfo
  chunkConfigHash : Str
  chunkCount : ℕ
  versionStatus : VersionStatus
  indexStateStatus : IndexStatus
  indexStateEmbeddingConfigHash : Option Str
  nextChunkIndex : ℕ
  qdrantCollectionName : Str
  embeddingConfigHash : Str
  embeddingSnapshot : Str
  filterSnapshot : Str
  appliedFilterSchemaRevision : ℕ
  documentMetadata : Str
deriving DecidableEq, Repr

structure ActivationStageInput where
  knowledgeBaseId : ℕ
  generationId : ℕ
  documentId : ℕ
  versionId : ℕ
  jobId : ℕ
  sourceChecksum : Str
  detectedMimeType : Str
  chunkCount : ℕ
  expectedPointCount : ℕ
  actualPointCount : ℕ
deriving DecidableEq, Repr

/-- `_load_graph`: a version, its document and its state in a generation. -/
def loadGraph (db : Db) (versionId generationId : ℕ) : Except TxError (Version × Document × IndexState) :=
  let row : Option (Version × Document × IndexState) := do
    let version ← db.version? versionId
    let document ← db.document? version.documentId
    let state ← db.indexState? (versionId, generationId)
    pure (version, document, state)
  row.elim (.error stageStateInvalid) .ok

/-- `load_parse_stage`. -/
def loadParseStage (db : Db) (versionId generationId : ℕ) : Except TxError ParseStageInput := do
  let (version, document, _) ← loadGraph db versionId generationId
  match version.source.extension, version.parser.name, version.parser.version with
  | some extension, some _, some _ =>
      .ok ⟨document.knowledgeBaseId, generationId, document.id, version.id, version.source.objectKey,
        version.source.checksum, extension, version.parser, version.status⟩
  | _, _, _ => .error stageStateInvalid

/-- `load_chunk_stage`. -/
def loadChunkStage (db : Db) (versionId generationId : ℕ) : Except TxError ChunkStageInput := do
  let (version, document, _) ← loadGraph db versionId generationId
  match version.source.extension, version.parsedObjectKey, version.parsedObjectChecksum,
    version.parser.name, version.parser.version with
  | some extension, some parsedObjectKey, some parsedObjectChecksum, some _, some _ =>
      .ok ⟨document.knowledgeBaseId, generationId, document.id, version.id, version.source.checksum,
        extension, parsedObjectKey, parsedObjectChecksum, version.parser, version.chunker,
        version.status⟩
  | _, _, _, _, _ => .error stageStateInvalid

/-- The configuration of a generation as the embedding stages read it: `_embedding_configuration`
and `build_filter_snapshot` accept what is stored, and return the canonical texts of the two
snapshots.  They read the provider tables, which are not part of the model. -/
structure StageConfiguration where
  embeddingSnapshot : Str
  filterSnapshot : Str
deriving DecidableEq, Repr

/-- What `load_embed_index_stage` asks of the version and its state. -/
def embeddable (generation : Generation) (version : Version) (state : IndexState) : Bool :=
  version.chunkManifestObjectKey.isSome && version.chunkManifestChecksum.isSome
    && version.chunkConfigHash.isSome && version.parsedObjectChecksum.isSome
    && version.parser.name.isSome && version.parser.version.isSome
    && version.chunker.name.isSome && version.chunker.version.isSome
    && (version.chunkCount.any fun count => decide (1 ≤ count))
    && (decide (version.status = .embedding) || decide (version.status = .indexing))
    && (decide (state.status = .embedding) || decide (state.status = .indexing))
    && decide (state.expectedPointCount = version.chunkCount)
    && decide (state.chunkManifestChecksum = version.chunkManifestChecksum)
    && (version.chunkCount.any fun count => decide (state.nextChunkIndex ≤ count))
    && (if state.nextChunkIndex = 0 then
        decide (state.embeddingConfigHash = none)
          || decide (state.embeddingConfigHash = generation.embeddingConfigHash)
      else decide (state.embeddingConfigHash = generation.embeddingConfigHash))

/-- What it asks of the knowledge base, the generation and the job. -/
def embedTarget (collectionName : ℕ → ℕ → Str) (knowledgeBase : KnowledgeBase)
    (generation : Generation) (version : Version) (job : Job) : Bool :=
  decide (knowledgeBase.status = .active)
    && decide (knowledgeBase.activeIndexGenerationId = some generation.id)
    && decide (generation.status = .active)
    && decide (job.knowledgeBaseId = some knowledgeBase.id)
    && decide (job.targetType = .documentVersion) && decide (job.targetId = version.id)
    && decide (job.indexGenerationId = some generation.id)
    && decide (job.operation = .ingestDocument)
    && decide (generation.qdrantCollectionName = collectionName knowledgeBase.id generation.id)

/-- `load_embed_index_stage`, for a job that names its actor; `configuration` is what the generation
and the provider tables give, if they are accepted. -/
def loadEmbedIndexStage (collectionName : ℕ → ℕ → Str) (configuration : Option StageConfiguration)
    (db : Db) (versionId generationId jobId : ℕ) : Except TxError EmbedIndexStageInput := do
  let (version, document, state) ← loadGraph db versionId generationId
  match db.knowledgeBase? document.knowledgeBaseId, db.generation? generationId, db.job? jobId,
    configuration with
  | some knowledgeBase, some generation, some job, some config =>
      if embedTarget collectionName knowledgeBase generation version job = false ∨
          embeddable generation version state = false then .error stageStateInvalid
      else
        match generation.embeddingProfileId, generation.filterSchemaSnapshot,
          generation.appliedFilterSchemaRevision, generation.embeddingConfigHash,
          version.chunkManifestObjectKey, version.chunkManifestChecksum,
          version.parsedObjectChecksum, version.chunkConfigHash, version.chunkCount with
        | some profile, some _, some revision, some hash, some key, some checksum, some parsed,
          some chunkHash, some count =>
            .ok ⟨knowledgeBase.id, generation.id, document.id, version.id, profile, key, checksum,
              version.source.checksum, parsed, version.parser, version.chunker, chunkHash, count,
              version.status, state.status, state.embeddingConfigHash, state.nextChunkIndex,
              generation.qdrantCollectionName, hash, config.embeddingSnapshot,
              config.filterSnapshot, revision, document.metadata⟩
        | _, _, _, _, _, _, _, _, _ => .error stageStateInvalid
  | _, _, _, _ => .error stageStateInvalid

/-- `load_activation_stage`. -/
def loadActivationStage (db : Db) (versionId generationId jobId : ℕ) :
    Except TxError ActivationStageInput := do
  let (version, document, state) ← loadGraph db versionId generationId
  match db.job? jobId, version.source.detectedMimeType, version.chunkCount, state.expectedPointCount,
    state.actualPointCount with
  | some job, some mimeType, some count, some expected, some actual =>
      if job.knowledgeBaseId ≠ some document.knowledgeBaseId ∨ job.operation ≠ .ingestDocument ∨
          job.targetType ≠ .documentVersion ∨ job.targetId ≠ version.id ∨
          job.indexGenerationId ≠ some generationId then .error stageStateInvalid
      else
        .ok ⟨document.knowledgeBaseId, generationId, document.id, version.id, job.id,
          version.source.checksum, mimeType, count, expected, actual⟩
  | _, _, _, _, _ => .error stageStateInvalid

/-! ## The stage graph -/

/-- The rows a stage commit works on. -/
structure StageGraph where
  knowledgeBase : KnowledgeBase
  generation : Generation
  document : Document
  version : Version
  state : IndexState
deriving DecidableEq, Repr

/-- The checks of `_lock_stage_graph`. -/
def StageGraph.Ready (graph : StageGraph) : Prop :=
  graph.knowledgeBase.status = .active ∧
  graph.knowledgeBase.activeIndexGenerationId = some graph.generation.id ∧
  graph.generation.knowledgeBaseId = graph.knowledgeBase.id ∧
  graph.generation.status = .active ∧
  graph.document.knowledgeBaseId = graph.knowledgeBase.id ∧
  graph.document.currentVersionId = none ∧
  graph.document.pendingVersionId = some graph.version.id ∧
  graph.document.status = .processing ∧
  graph.version.documentId = graph.document.id

instance (graph : StageGraph) : Decidable graph.Ready := by
  unfold StageGraph.Ready
  infer_instance

/-- `_lock_stage_graph`. -/
def lockStageGraph (db : Db) (knowledgeBaseId generationId documentId versionId : ℕ) :
    Except TxError StageGraph :=
  match db.knowledgeBase? knowledgeBaseId, db.generation? generationId, db.document? documentId,
    db.version? versionId, db.indexState? (versionId, generationId) with
  | some knowledgeBase, some generation, some document, some version, some state =>
      let graph : StageGraph := ⟨knowledgeBase, generation, document, version, state⟩
      if graph.Ready then .ok graph else .error stageStateInvalid
  | _, _, _, _, _ => .error stageStateInvalid

/-! ## Stage commits -/

/-- The columns that both parse commits compare. -/
def parseUnchanged (expected : ParseStageInput) (document : Document) (version : Version) : Bool :=
  decide (document.checksum = some expected.sourceChecksum)
    && decide (version.source.objectKey = expected.sourceObjectKey)
    && decide (version.source.checksum = expected.sourceChecksum)
    && decide (version.source.extension = some expected.sourceExtension)
    && decide (version.parser = expected.parser)

/-- `commit_parse_started`. -/
def commitParseStarted (expected : ParseStageInput) : Tx Unit := fun db => do
  let graph ← lockStageGraph db expected.knowledgeBaseId expected.generationId expected.documentId
    expected.versionId
  if parseUnchanged expected graph.document graph.version ∧
      (graph.version.status = .uploaded ∨ graph.version.status = .parsing) ∧
      graph.version.parsedObjectKey = none ∧ graph.version.parsedObjectChecksum = none then
    .ok ((), { db with
      versions := setRow (·.id) { graph.version with status := .parsing } db.versions })
  else .error stageStateInvalid

/-- `commit_parse_stage`. -/
def commitParseStage (expected : ParseStageInput) (parsedObjectKey parsedChecksum : Str)
    (parser : ParserInfo) : Tx Unit := fun db => do
  let graph ← lockStageGraph db expected.knowledgeBaseId expected.generationId expected.documentId
    expected.versionId
  let existing := (graph.version.parsedObjectKey, graph.version.parsedObjectChecksum)
  if parseUnchanged expected graph.document graph.version ∧ expected.versionStatus = .parsing ∧
      graph.version.status = expected.versionStatus ∧
      (existing = (none, none) ∨ existing = (some parsedObjectKey, some parsedChecksum)) then
    .ok ((), { db with
      versions := setRow (·.id) { graph.version with
        parsedObjectKey := some parsedObjectKey
        parsedObjectChecksum := some parsedChecksum
        parser := parser
        status := .chunking } db.versions })
  else .error stageStateInvalid

/-- What the chunk stage produced. -/
structure ChunkStageResult where
  manifestObjectKey : Str
  manifestChecksum : Str
  chunkConfigHash : Str
  chunker : ChunkerInfo
  chunkCount : ℕ
deriving DecidableEq, Repr

/-- The columns that the chunk commit compares. -/
def chunkUnchanged (expected : ChunkStageInput) (document : Document) (version : Version) : Bool :=
  decide (document.checksum = some expected.sourceChecksum)
    && decide (version.source.checksum = expected.sourceChecksum)
    && decide (version.source.extension = some expected.sourceExtension)
    && decide (version.parsedObjectKey = some expected.parsedObjectKey)
    && decide (version.parsedObjectChecksum = some expected.parsedObjectChecksum)
    && decide (version.parser = expected.parser) && decide (version.chunker = expected.chunker)
    && decide (version.status = .chunking)

/-- The state of a version that has not been chunked. -/
def stateUntouched (state : IndexState) : Bool :=
  decide (state.status = .queued) && decide (state.expectedPointCount = none)
    && decide (state.actualPointCount = none) && decide (state.errorCode = none)
    && decide (state.validatedAt = none) && decide (state.chunkManifestChecksum = none)
    && decide (state.embeddingConfigHash = none) && decide (state.nextChunkIndex = 0)
    && decide (state.safeErrorMessage = none)

/-- `commit_chunk_stage`. -/
def commitChunkStage (expected : ChunkStageInput) (result : ChunkStageResult) : Tx Unit := fun db => do
  let graph ← lockStageGraph db expected.knowledgeBaseId expected.generationId expected.documentId
    expected.versionId
  let version := graph.version
  let existing := (version.chunkManifestObjectKey, version.chunkManifestChecksum,
    version.chunkConfigHash)
  if chunkUnchanged expected graph.document version ∧
      (existing = (none, none, none) ∨ existing = (some result.manifestObjectKey,
        some result.manifestChecksum, some result.chunkConfigHash)) ∧
      stateUntouched graph.state ∧ 1 ≤ result.chunkCount then
    .ok ((), { db with
      versions := setRow (·.id) { version with
        chunkManifestObjectKey := some result.manifestObjectKey
        chunkManifestChecksum := some result.manifestChecksum
        chunkConfigHash := some result.chunkConfigHash
        chunker := result.chunker
        chunkCount := some result.chunkCount
        status := .embedding } db.versions
      indexStates := setRow IndexState.key { graph.state with
        status := .embedding
        expectedPointCount := some result.chunkCount
        chunkManifestChecksum := some result.manifestChecksum
        nextChunkIndex := 0 } db.indexStates })
  else .error stageStateInvalid

/-- The columns that all commits after the chunk stage compare. -/
def embedUnchanged (expected : EmbedIndexStageInput) (graph : StageGraph) : Bool :=
  decide (graph.generation.embeddingProfileId = some expected.modelProfileId)
    && decide (graph.generation.embeddingConfigHash = some expected.embeddingConfigHash)
    && decide (graph.generation.indexProfileHash = expected.embeddingConfigHash)
    && decide (graph.generation.qdrantCollectionName = expected.qdrantCollectionName)
    && decide (graph.generation.embeddingConfigSnapshot = some expected.embeddingSnapshot)
    && decide (graph.generation.filterSchemaSnapshot = some expected.filterSnapshot)
    && decide (graph.generation.appliedFilterSchemaRevision
      = some expected.appliedFilterSchemaRevision)
    && decide (graph.document.metadata = expected.documentMetadata)
    && decide (graph.document.checksum = some expected.sourceChecksum)
    && decide (graph.version.source.checksum = expected.sourceChecksum)
    && decide (graph.version.parsedObjectChecksum = some expected.parsedChecksum)
    && decide (graph.version.parser = expected.parser)
    && decide (graph.version.chunker = expected.chunker)
    && decide (graph.version.chunkConfigHash = some expected.chunkConfigHash)
    && decide (graph.version.chunkManifestObjectKey = some expected.manifestObjectKey)
    && decide (graph.version.chunkManifestChecksum = some expected.manifestChecksum)
    && decide (graph.version.chunkCount = some expected.chunkCount)
    && decide (graph.state.expectedPointCount = some expected.chunkCount)
    && decide (graph.state.chunkManifestChecksum = some expected.manifestChecksum)

/-- `commit_embed_index_batch`. -/
def commitEmbedIndexBatch (expected : EmbedIndexStageInput) (nextChunkIndex : ℕ) : Tx Unit :=
  fun db => do
    let graph ← lockStageGraph db expected.knowledgeBaseId expected.generationId expected.documentId
      expected.versionId
    if ((expected.nextChunkIndex < nextChunkIndex ∧ nextChunkIndex ≤ expected.chunkCount) ∨
        (expected.nextChunkIndex = nextChunkIndex ∧ nextChunkIndex = expected.chunkCount)) ∧
        embedUnchanged expected graph ∧ graph.version.status = expected.versionStatus ∧
        graph.state.status = expected.indexStateStatus ∧
        graph.state.embeddingConfigHash = expected.indexStateEmbeddingConfigHash ∧
        graph.state.nextChunkIndex = expected.nextChunkIndex then
      .ok ((), { db with
        versions := setRow (·.id) { graph.version with status := .indexing } db.versions
        indexStates := setRow IndexState.key { graph.state with
          status := .indexing
          embeddingConfigHash := some expected.embeddingConfigHash
          nextChunkIndex := nextChunkIndex } db.indexStates })
    else .error stageStateInvalid

/-- `_validate_indexed_snapshot`. -/
def indexedSnapshot (expected : EmbedIndexStageInput) (graph : StageGraph) : Bool :=
  embedUnchanged expected graph && decide (graph.version.status = .indexing)
    && decide (graph.state.status = .indexing)
    && decide (graph.state.embeddingConfigHash = some expected.embeddingConfigHash)
    && decide (graph.state.nextChunkIndex = expected.chunkCount)
    && decide (graph.state.errorCode = none) && decide (graph.state.safeErrorMessage = none)
    && decide (graph.state.validatedAt = none)

/-- `commit_validate_count`. -/
def commitValidateCount (expected : EmbedIndexStageInput) (actualCount : ℕ) : Tx Unit := fun db => do
  let graph ← lockStageGraph db expected.knowledgeBaseId expected.generationId expected.documentId
    expected.versionId
  if indexedSnapshot expected graph ∧
      (graph.state.actualPointCount = none ∨ graph.state.actualPointCount = some actualCount) then
    .ok ((), { db with
      indexStates := setRow IndexState.key { graph.state with
        actualPointCount := some actualCount } db.indexStates })
  else .error stageStateInvalid

/-- `commit_validate_stage`. -/
def commitValidateStage (expected : EmbedIndexStageInput) (actualCount : ℕ) : Tx Unit := fun db => do
  let graph ← lockStageGraph db expected.knowledgeBaseId expected.generationId expected.documentId
    expected.versionId
  if indexedSnapshot expected graph ∧ actualCount = expected.chunkCount ∧
      graph.state.actualPointCount = some actualCount then
    .ok ((), { db with
      indexStates := setRow IndexState.key { graph.state with
        status := .validated
        validatedAt := some db.now } db.indexStates })
  else .error stageStateInvalid

/-! ## Terminal failure -/

/-- `_validate_terminal_failure`. -/
def validTerminalFailure (errorCode safeErrorMessage : Str) : Bool :=
  decide (errorCode ≠ []) && decide (errorCode.length ≤ 64) && decide (safeErrorMessage ≠ [])
    && decide (safeErrorMessage.length ≤ 500)

/-- `status IN ('uploaded', 'parsing', 'chunking', 'embedding', 'indexing')`. -/
def VersionStatus.isInFlight : VersionStatus → Bool
  | .uploaded | .parsing | .chunking | .embedding | .indexing => true
  | _ => false

/-- `status IN ('queued', 'embedding', 'indexing', 'validated')`. -/
def IndexStatus.isInFlight : IndexStatus → Bool
  | .queued | .embedding | .indexing | .validated => true
  | _ => false

/-- `safe_unactivated_version`. -/
def safeUnactivatedVersion (graph : StageGraph) : Bool :=
  decide (graph.version.documentId = graph.document.id)
    && decide (graph.document.knowledgeBaseId = graph.knowledgeBase.id)
    && decide (graph.generation.knowledgeBaseId = graph.knowledgeBase.id)
    && decide (graph.version.baseVersionId = none)
    && decide (graph.document.currentVersionId ≠ some graph.version.id)

/-- The document after a terminal failure. -/
def failedDocument (graph : StageGraph) : Document :=
  let document := graph.document
  let pending := decide (document.pendingVersionId = some graph.version.id)
  if safeUnactivatedVersion graph && decide (document.currentVersionId = none) && pending
      && decide (document.status = .processing) && decide (document.deletedAt = none) then
    { document with status := .failed }
  else if safeUnactivatedVersion graph && document.currentVersionId.isSome && pending then
    { document with pendingVersionId := none }
  else document

/-- The version after a terminal failure. -/
def failedVersion (graph : StageGraph) : Version :=
  if safeUnactivatedVersion graph && VersionStatus.isInFlight graph.version.status then
    { graph.version with status := .failed }
  else graph.version

/-- The state after a terminal failure. -/
def failedState (graph : StageGraph) (errorCode safeErrorMessage : Str) : IndexState :=
  if safeUnactivatedVersion graph && IndexStatus.isInFlight graph.state.status then
    { graph.state with
      status := .failed
      errorCode := some errorCode
      safeErrorMessage := some safeErrorMessage }
  else graph.state

/-- The rows of a version and a generation, whatever their states. -/
def failureGraph (db : Db) (versionId generationId : ℕ) : Option StageGraph := do
  let version ← db.version? versionId
  let document ← db.document? version.documentId
  let knowledgeBase ← db.knowledgeBase? document.knowledgeBaseId
  let generation ← db.generation? generationId
  let state ← db.indexState? (versionId, generationId)
  pure ⟨knowledgeBase, generation, document, version, state⟩

/-- `_apply_terminal_failure`. -/
def applyTerminalFailure (graph : StageGraph) (job : Job) (retryable : Bool)
    (errorCode safeErrorMessage : Str) (db : Db) : Db :=
  { db with
    documents := setRow (·.id) (failedDocument graph) db.documents
    versions := setRow (·.id) (failedVersion graph) db.versions
    indexStates := setRow IndexState.key (failedState graph errorCode safeErrorMessage) db.indexStates
    jobs := setRow (·.id) (failedValues retryable errorCode safeErrorMessage db.now job) db.jobs }

/-- The fence of `commit_terminal_failure`. -/
def terminalFence (now : ℕ) (lease : JobLease) (knowledgeBaseId : ℕ) (job : Job) : Bool :=
  decide (job.id = lease.id) && decide (job.knowledgeBaseId = some knowledgeBaseId)
    && decide (job.operation = lease.operation) && decide (job.targetType = lease.targetType)
    && decide (job.targetId = lease.targetId) && decide (job.targetRevision = lease.targetRevision)
    && decide (job.indexGenerationId = lease.indexGenerationId) && decide (job.stage = lease.stage)
    && decide (job.status = .running) && decide (job.leaseOwner = some lease.leaseOwner)
    && decide (job.leaseEpoch = lease.leaseEpoch)
    && (job.leaseExpiresAt.any fun expiresAt => decide (now < expiresAt))
    && decide (job.cancelRequestedAt = none)

/-- `commit_terminal_failure`. -/
def commitTerminalFailure (lease : JobLease) (retryable : Bool) (errorCode safeErrorMessage : Str) :
    Tx Unit := fun db =>
  if validTerminalFailure errorCode safeErrorMessage = false then
    .error (.value "terminal ingestion failure is invalid")
  else
    match lease.targetType, lease.indexGenerationId with
    | .documentVersion, some generationId =>
        match failureGraph db lease.targetId generationId with
        | none => .error .lostLease
        | some graph =>
            match db.jobs.find? (terminalFence db.now lease graph.knowledgeBase.id) with
            | none => .error .lostLease
            | some job =>
                .ok ((), applyTerminalFailure graph job retryable errorCode safeErrorMessage db)
    | _, _ => .error (.value "terminal ingestion failure is invalid")

/-- `commit_exhausted_failure`. -/
def commitExhaustedFailure (candidate : Job) : Tx Unit := fun db =>
  match candidate.operation, candidate.targetType, candidate.indexGenerationId with
  | .ingestDocument, .documentVersion, some generationId =>
      if candidate.attemptCount ≠ candidate.maxAttempts then
        .error (.value "exhausted ingestion failure is invalid")
      else
        match failureGraph db candidate.targetId generationId with
        | none => .error .lostLease
        | some graph =>
            if candidate.knowledgeBaseId ≠ some graph.knowledgeBase.id then .error .lostLease
            else
              match db.jobs.find? (exhaustedFence db.now candidate) with
              | none => .error .lostLease
              | some job =>
                  .ok ((), applyTerminalFailure graph job false attemptsExhaustedCode
                    attemptsExhaustedMessage db)
  | _, _, _ => .error (.value "exhausted ingestion failure is invalid")

/-! ## Activation -/

/-- The fence of `commit_activation`. -/
def activationFence (now : ℕ) (expected : ActivationStageInput) (lease : JobLease) (job : Job) : Bool :=
  decide (job.id = expected.jobId) && decide (job.id = lease.id)
    && decide (job.knowledgeBaseId = some expected.knowledgeBaseId)
    && decide (job.operation = .ingestDocument) && decide (job.targetType = .documentVersion)
    && decide (job.targetId = expected.versionId)
    && decide (job.targetRevision = lease.targetRevision)
    && decide (job.indexGenerationId = some expected.generationId)
    && decide (job.stage = some .activate) && decide (job.status = .running)
    && decide (job.leaseOwner = some lease.leaseOwner)
    && decide (job.leaseEpoch = lease.leaseEpoch)
    && (job.leaseExpiresAt.any fun expiresAt => decide (now < expiresAt))
    && decide (job.cancelRequestedAt = none)

/-- The rows of a graph are what the activation stage loaded. -/
def activatable (expected : ActivationStageInput) (graph : StageGraph) : Bool :=
  decide (graph.knowledgeBase.status = .active)
    && decide (graph.knowledgeBase.activeIndexGenerationId = some expected.generationId)
    && decide (graph.generation.knowledgeBaseId = expected.knowledgeBaseId)
    && decide (graph.generation.status = .active)
    && decide (graph.document.knowledgeBaseId = expected.knowledgeBaseId)
    && decide (graph.document.status = .processing)
    && decide (graph.document.currentVersionId = none)
    && decide (graph.document.pendingVersionId = some expected.versionId)
    && decide (graph.document.checksum = some expected.sourceChecksum)
    && decide (graph.document.deletedAt = none)
    && decide (graph.version.documentId = expected.documentId)
    && decide (graph.version.baseVersionId = none)
    && decide (graph.version.source.checksum = expected.sourceChecksum)
    && decide (graph.version.source.detectedMimeType = some expected.detectedMimeType)
    && decide (graph.version.chunkCount = some expected.chunkCount)
    && decide (graph.version.status = .indexing) && decide (graph.version.activatedAt = none)
    && decide (graph.state.status = .validated)
    && decide (graph.state.expectedPointCount = some expected.expectedPointCount)
    && decide (graph.state.actualPointCount = some expected.actualPointCount)
    && decide (graph.state.expectedPointCount = graph.state.actualPointCount)
    && decide (graph.state.nextChunkIndex = expected.chunkCount)
    && graph.state.validatedAt.isSome
    && decide (expected.expectedPointCount = expected.actualPointCount)
    && decide (expected.chunkCount = expected.expectedPointCount)

/-- The rows `commit_activation` locks. -/
def activationGraph (db : Db) (expected : ActivationStageInput) : Option StageGraph := do
  let knowledgeBase ← db.knowledgeBase? expected.knowledgeBaseId
  let generation ← db.generation? expected.generationId
  let document ← db.document? expected.documentId
  let version ← db.version? expected.versionId
  let state ← db.indexState? (expected.versionId, expected.generationId)
  pure ⟨knowledgeBase, generation, document, version, state⟩

/-- The rows after an activation. -/
def applyActivation (graph : StageGraph) (job : Job) (mutationId : ℕ) (db : Db) : Db :=
  let revision := graph.knowledgeBase.mutationRevision + 1
  { db with
    knowledgeBases := setRow (·.id) { graph.knowledgeBase with mutationRevision := revision }
      db.knowledgeBases
    documents := setRow (·.id) { graph.document with
      currentVersionId := some graph.version.id
      pendingVersionId := none
      mimeType := graph.version.source.detectedMimeType
      status := .active } db.documents
    versions := setRow (·.id) { graph.version with
      status := .ready
      activatedAt := some db.now } db.versions
    mutations := db.mutations ++ [⟨mutationId, graph.knowledgeBase.id, revision,
      .documentActivated graph.version.id graph.document.id⟩]
    jobs := setRow (·.id) (finishedValues db.now job) db.jobs }

/-- `commit_activation`; `mutationId` is the identity of the new mutation. -/
def commitActivation (expected : ActivationStageInput) (lease : JobLease) (mutationId : ℕ) : Tx Unit :=
  fun db =>
    match db.jobs.find? (activationFence db.now expected lease) with
    | none => .error .lostLease
    | some job =>
        match activationGraph db expected with
        | none => .error .activationConflict
        | some graph =>
            if activatable expected graph then .ok ((), applyActivation graph job mutationId db)
            else .error .activationConflict

end VeloxRag.Ingestion
