import VeloxRag.Ingestion.Chunker
import VeloxRag.Jobs.Repository

/-!
# Manual retry

A job that failed for good, with an error that may be retried, can be retried by hand: a new
job is queued at the stage the old one failed in, and the rows of an ingestion are put back
into the state that stage starts from.  The reservation insists that the rows are what the
stages before would have left; anything else is a mismatch.

## Main definitions

* `ManualRetrySnapshot`, `manualRetryFence` — the job as the caller saw it.
* `resetIngestionRetry` — the rows of an ingestion, stage by stage.
* `validRebuildAnchor`, `canonicalRebuildPointTotal` — what a rebuild is compared with.
* `reserveManualRetry` — the reservation.
-/

namespace VeloxRag.Jobs

open Lib

/-! ## The snapshot -/

structure ManualRetrySnapshot where
  id : ℕ
  knowledgeBaseId : Option ℕ
  actorApiKeyId : Option ℕ
  operation : Operation
  targetType : TargetType
  targetId : ℕ
  targetRevision : Option ℕ
  indexGenerationId : Option ℕ
  mutationId : Option ℕ
  parentJobId : Option ℕ
  rootJobId : Option ℕ
  stage : Option Stage
  status : JobStatus
  progressCurrent : ℕ
  progressTotal : Option ℕ
  attemptCount : ℕ
  maxAttempts : ℕ
  retryable : Bool
  resumeStage : Option Stage
  documentId : Option ℕ
deriving DecidableEq, Repr

/-- The snapshot of a job. -/
def snapshotOf (job : Job) (documentId : Option ℕ) : ManualRetrySnapshot :=
  ⟨job.id, job.knowledgeBaseId, job.actorApiKeyId, job.operation, job.targetType, job.targetId,
    job.targetRevision, job.indexGenerationId, job.mutationId, job.parentJobId, job.rootJobId,
    job.stage, job.status, job.progressCurrent, job.progressTotal, job.attemptCount,
    job.maxAttempts, job.retryable, job.resumeStage, documentId⟩

/-- `get_manual_retry_snapshot`: the document is joined for an ingestion. -/
def getManualRetrySnapshot (db : Db) (jobId : ℕ) : Option ManualRetrySnapshot := do
  let job ← db.job? jobId
  let documentId :=
    if job.operation = .ingestDocument ∧ job.targetType = .documentVersion then
      (db.version? job.targetId).map (·.documentId)
    else none
  pure (snapshotOf job documentId)

/-- `manual_retry_fence`: every field of the snapshot is still that of the job. -/
def manualRetryFence (snapshot : ManualRetrySnapshot) (job : Job) : Bool :=
  decide (snapshotOf job snapshot.documentId = snapshot)

def retryMismatch : TxError := .business 409 "JOB_RETRY_STATE_MISMATCH"
def retryConflict : TxError := .business 409 "JOB_RETRY_CONFLICT"
def notRetryable : TxError := .business 409 "JOB_NOT_RETRYABLE"
def hiddenJob : TxError := .business 404 "RESOURCE_NOT_FOUND"

/-! ## Snapshots of the stages -/

/-- `str.lower()` on the characters an extension may have; the Kelvin sign lowers to `k`. -/
def lowerChar (c : Char) : Char := if c = '\u212A' then 'k' else c.toLower

/-- `parser_for_extension`: name, version and configuration of the parser. -/
def parserForExtension (extension : Str) : Option ParserInfo :=
  let canonical := extension.map lowerChar
  if canonical = ".txt".toList then
    some ⟨some "plain_text_v1".toList, some "1".toList, ['\x7b', '\x7d']⟩
  else if canonical = ".md".toList ∨ canonical = ".markdown".toList then
    some ⟨some "markdown_text_v1".toList, some "1".toList, ['\x7b', '\x7d']⟩
  else none

/-- `_valid_parser_snapshot`. -/
def validParserSnapshot (document : Document) (version : Version) : Bool :=
  decide (document.checksum = some version.source.checksum)
    && version.source.extension.any fun extension =>
      decide (parserForExtension extension = some version.parser)

/-- `_valid_parsed_snapshot`. -/
def validParsedSnapshot (version : Version) : Bool :=
  version.parsedObjectKey.isSome && version.parsedObjectChecksum.isSome

/-- Digest of the configuration of the recursive chunker with two sizes. -/
abbrev ConfigHash := ℤ → ℤ → Str

/-- Digest of the name, the version and the configuration of a chunker. -/
abbrev ChunkerDigest := ChunkerInfo → Str

/-- The recursive chunker with two sizes, as a version stores it. -/
def recursiveChunker (sizes : ℤ × ℤ) : ChunkerInfo :=
  ⟨some Ingestion.RecursiveTextChunker.name, some Ingestion.RecursiveTextChunker.version, some sizes⟩

def ChunkerDigest.configHash (digest : ChunkerDigest) : ConfigHash :=
  fun maximum overlap => digest (recursiveChunker (maximum, overlap))

/-- The chunker with the sizes of a version, if its constructor accepts them. -/
def acceptedSizes (sizes : ℤ × ℤ) : Bool :=
  (Ingestion.RecursiveTextChunker.make sizes.1 sizes.2).toBool

/-- `_valid_manifest_snapshot`. -/
def validManifestSnapshot (configHash : ConfigHash) (version : Version) (state : IndexState)
    (generation : Generation) : Bool :=
  version.chunkManifestObjectKey.isSome && version.chunkManifestChecksum.isSome
    && (version.chunkCount.any fun count => decide (1 ≤ count))
    && generation.embeddingConfigHash.isSome
    && decide (version.chunker.name = some Ingestion.RecursiveTextChunker.name)
    && decide (version.chunker.version = some Ingestion.RecursiveTextChunker.version)
    && (version.chunker.config.any fun sizes => acceptedSizes sizes
      && decide (version.chunkConfigHash = some (configHash sizes.1 sizes.2)))
    && decide (state.expectedPointCount = version.chunkCount)
    && decide (state.chunkManifestChecksum = version.chunkManifestChecksum)
    && (version.chunkCount.any fun count => decide (state.nextChunkIndex ≤ count))
    && (if state.nextChunkIndex = 0 then
        decide (state.embeddingConfigHash = none)
          || decide (state.embeddingConfigHash = generation.embeddingConfigHash)
      else decide (state.embeddingConfigHash = generation.embeddingConfigHash))

/-- Nothing has been chunked or indexed yet. -/
def untouchedManifest (version : Version) (state : IndexState) : Bool :=
  decide (version.chunkManifestObjectKey = none) && decide (version.chunkManifestChecksum = none)
    && decide (version.chunkConfigHash = none) && decide (version.chunkCount = none)
    && decide (state.expectedPointCount = none) && decide (state.actualPointCount = none)
    && decide (state.chunkManifestChecksum = none) && decide (state.embeddingConfigHash = none)
    && decide (state.nextChunkIndex = 0) && decide (state.validatedAt = none)

/-- The rows are what the stages before `stage` leave, and the statuses that stage starts from. -/
def resumable (configHash : ConfigHash) (snapshot : ManualRetrySnapshot) (version : Version)
    (state : IndexState) (generation : Generation) : Option (Bool × VersionStatus × IndexStatus) :=
  let manifest := validParsedSnapshot version && validManifestSnapshot configHash version state generation
  let complete := decide (some state.nextChunkIndex = version.chunkCount)
    && decide (some snapshot.progressCurrent = version.chunkCount)
    && decide (snapshot.progressTotal = version.chunkCount)
    && decide (state.embeddingConfigHash = generation.embeddingConfigHash)
  match snapshot.stage, snapshot.resumeStage with
  | some .parse, none | some .parse, some .parse =>
      some (decide (snapshot.progressCurrent = 0) && decide (snapshot.progressTotal = none)
        && decide (version.parsedObjectKey = none) && decide (version.parsedObjectChecksum = none)
        && untouchedManifest version state, .uploaded, .queued)
  | some .chunk, some .chunk =>
      some (decide (snapshot.progressCurrent = 0) && decide (snapshot.progressTotal = none)
        && validParsedSnapshot version && untouchedManifest version state, .chunking, .queued)
  | some .embedIndex, some .embedIndex =>
      let first := decide (state.nextChunkIndex = 0)
      some (manifest && decide (snapshot.progressCurrent = state.nextChunkIndex)
        && decide (snapshot.progressTotal = version.chunkCount)
        && decide (state.actualPointCount = none),
        if first then .embedding else .indexing, if first then .embedding else .indexing)
  | some .validate, some .validate =>
      some (manifest && complete && (decide (state.actualPointCount = none)
        || decide (state.actualPointCount = state.expectedPointCount))
        && decide (state.validatedAt = none), .indexing, .indexing)
  | some .activate, some .activate =>
      some (manifest && complete && decide (state.actualPointCount = state.expectedPointCount)
        && state.validatedAt.isSome, .indexing, .validated)
  | _, _ => none

/-- `_reset_ingestion_retry`: the rows after it. -/
def resetIngestionRetry (configHash : ConfigHash) (snapshot : ManualRetrySnapshot)
    (document : Document) (version : Version) (state : IndexState) (generation : Generation) :
    Except TxError (Document × Version × IndexState) :=
  if validParserSnapshot document version = false then .error retryMismatch
  else
    match resumable configHash snapshot version state generation with
    | some (true, versionStatus, stateStatus) =>
        .ok ({ document with status := .processing }, { version with status := versionStatus },
          { state with status := stateStatus, errorCode := none, safeErrorMessage := none })
    | _ => .error retryMismatch

/-! ## Rebuilds -/

/-- The live documents of a knowledge base: active and not deleted. -/
def liveDocuments (db : Db) (knowledgeBaseId : ℕ) : List Document :=
  db.documents.filter fun d => decide (d.knowledgeBaseId = knowledgeBaseId)
    && decide (d.status = .active) && decide (d.deletedAt = none)

/-- The current version of a document, with its state in a generation. -/
def currentRows (db : Db) (generationId : ℕ) (document : Document) :
    Option (Version × IndexState) := do
  let version ← db.versions.find? fun v =>
    decide (some v.id = document.currentVersionId) && decide (v.documentId = document.id)
  let state ← db.indexState? (version.id, generationId)
  pure (version, state)

/-- A live document is indexed in a generation, as manual retry checks it. -/
def canonicalRow (configHash : ConfigHash) (generation : Generation) (document : Document)
    (rows : Version × IndexState) : Option ℕ :=
  let (version, state) := rows
  if version.status = .ready ∧ version.activatedAt.isSome = true ∧ state.status = .validated ∧
      state.validatedAt.isSome = true ∧ (version.chunkCount.any fun count => decide (1 ≤ count)) = true ∧
      state.actualPointCount = version.chunkCount ∧ some state.nextChunkIndex = version.chunkCount ∧
      validParserSnapshot document version = true ∧ validParsedSnapshot version = true ∧
      validManifestSnapshot configHash version state generation = true then version.chunkCount
  else none

/-- `_canonical_rebuild_point_total`: the points of all live documents, or `None` if one of them is
not indexed. -/
def canonicalRebuildPointTotal (configHash : ConfigHash) (db : Db) (knowledgeBase : KnowledgeBase)
    (generation : Generation) : Option ℕ := do
  let counts ← (liveDocuments db knowledgeBase.id).mapM fun document => do
    let rows ← currentRows db generation.id document
    canonicalRow configHash generation document rows
  pure counts.sum

/-- `_valid_rebuild_anchor`. -/
def validRebuildAnchor (knowledgeBase : KnowledgeBase) (generation : Generation)
    (mutation : Option Mutation) (snapshot : ManualRetrySnapshot) : Bool :=
  decide (snapshot.targetType = .indexGeneration) && decide (snapshot.targetId = generation.id)
    && decide (snapshot.indexGenerationId = some generation.id)
    && snapshot.mutationId.isSome
    && decide (snapshot.mutationId = mutation.map (·.id))
    && decide (snapshot.targetRevision = some knowledgeBase.mutationRevision)
    && (decide (snapshot.stage = some .indexing) || decide (snapshot.stage = some .validating)
      || decide (snapshot.stage = some .complete))
    && decide (snapshot.resumeStage = snapshot.stage)
    && generation.embeddingProfileId.isSome && generation.embeddingConfigSnapshot.isSome
    && generation.embeddingConfigHash.isSome
    && mutation.any fun m => decide (m.knowledgeBaseId = knowledgeBase.id)
      && decide (m.revision = generation.caughtUpRevision)
      && decide (m.kind = .indexConfigChanged ⟨generation.id, generation.embeddingProfileId,
        generation.indexProfileHash, generation.embeddingConfigHash,
        generation.appliedFilterSchemaRevision, generation.validationManifestHash⟩)

/-! ## The reservation -/

/-- `_active_manual_retry_conflict`. -/
def activeManualRetryConflict (db : Db) (source : Job) (knowledgeBaseId generationId : ℕ) : Bool :=
  let sameIngestionTarget (job : Job) := decide (job.operation = .ingestDocument)
    && decide (job.targetType = source.targetType) && decide (job.targetId = source.targetId)
    && decide (job.targetRevision = source.targetRevision)
    && decide (job.indexGenerationId = source.indexGenerationId)
  let sameGenerationRebuild (job : Job) := decide (job.operation = .rebuildGeneration)
    && decide (job.targetType = .indexGeneration) && decide (job.targetId = generationId)
    && decide (job.indexGenerationId = some generationId)
  let sameGenerationIngestion (job : Job) := decide (job.knowledgeBaseId = some knowledgeBaseId)
    && decide (job.operation = .ingestDocument)
    && decide (job.indexGenerationId = some generationId)
  let conflict (job : Job) := match source.operation with
    | .ingestDocument => sameIngestionTarget job || sameGenerationRebuild job
    | .rebuildGeneration => sameGenerationRebuild job || sameGenerationIngestion job
    | _ => false
  db.jobs.any fun job => conflict job && job.status.isActive

/-- The new job. -/
def childJob (source : Job) (id actorApiKeyId : ℕ) (idempotencyKey : Str) : Job :=
  { Job.queued id source.knowledgeBaseId (some actorApiKeyId) source.operation source.targetType
      source.targetId source.targetRevision source.indexGenerationId source.mutationId source.stage
      source.resumeStage with
    parentJobId := some source.id
    rootJobId := some (source.rootJobId.getD source.id)
    idempotencyKey := some idempotencyKey
    progressCurrent := source.progressCurrent
    progressTotal := source.progressTotal
    maxAttempts := source.maxAttempts }

/-- Whether an active job already has the columns of the unique index `uq_jobs_active_target`. -/
def activeTargetTaken (db : Db) (job : Job) : Bool :=
  db.jobs.any fun other => other.status.isActive && decide (other.operation = job.operation)
    && decide (other.targetType = job.targetType) && decide (other.targetId = job.targetId)
    && decide (other.targetRevision = job.targetRevision)
    && decide (other.indexGenerationId = job.indexGenerationId)

/-- Insert a job: the unique index on active targets is checked. -/
def insertJob (job : Job) : Tx Unit := fun db =>
  if job.status.isActive && activeTargetTaken db job then .error .integrity
  else .ok ((), { db with jobs := db.jobs ++ [job] })

theorem insertJob_eq_ok {job : Job} {db db' : Db} {a : Unit} (h : insertJob job db = .ok (a, db')) :
    (job.status.isActive = true → activeTargetTaken db job = false) ∧
      db' = { db with jobs := db.jobs ++ [job] } := by
  unfold insertJob at h
  split at h
  · cases h
  · rename_i hfree
    simp only [Except.ok.injEq, Prod.mk.injEq] at h
    refine ⟨?_, h.2.symm⟩
    intro hactive
    simpa [hactive] using hfree

variable (configHash : ConfigHash)

/-- The part of `reserve_manual_retry` for an ingestion: its rows are reset. -/
def retryIngestion (snapshot : ManualRetrySnapshot) (source : Job) (knowledgeBase : KnowledgeBase)
    (generation : Generation) : Tx Unit := fun db =>
  let rows : Option (Document × Version × IndexState) := do
    let document ← db.document? (← snapshot.documentId)
    let version ← db.version? snapshot.targetId
    let state ← db.indexState? (snapshot.targetId, generation.id)
    pure (document, version, state)
  match rows with
  | none => .error retryMismatch
  | some (document, version, state) =>
      if source.targetType ≠ .documentVersion ∨ document.knowledgeBaseId ≠ knowledgeBase.id ∨
          document.currentVersionId ≠ none ∨ document.pendingVersionId ≠ some version.id ∨
          document.status ≠ .failed ∨ document.deletedAt ≠ none ∨
          version.documentId ≠ document.id ∨ version.baseVersionId ≠ none ∨
          version.status ≠ .failed ∨ state.status ≠ .failed then .error retryMismatch
      else do
        let (document', version', state') ←
          resetIngestionRetry configHash snapshot document version state generation
        pure ((), { db with
          documents := modifyWhere (·.id = document.id) (fun _ => document') db.documents
          versions := modifyWhere (·.id = version.id) (fun _ => version') db.versions
          indexStates := modifyWhere (·.key = state.key) (fun _ => state') db.indexStates })

/-- The part for a rebuild: its anchor and its progress are checked. -/
def retryRebuild (snapshot : ManualRetrySnapshot) (knowledgeBase : KnowledgeBase)
    (generation : Generation) : Tx Unit := fun db =>
  let mutation := snapshot.mutationId.bind db.mutation?
  let compatible := (canonicalRebuildPointTotal configHash db knowledgeBase generation).any
    fun pointTotal => decide (snapshot.progressTotal = some pointTotal)
      && (if snapshot.stage = some .indexing then decide (snapshot.progressCurrent ≤ pointTotal)
        else decide (snapshot.progressCurrent = pointTotal))
  if validRebuildAnchor knowledgeBase generation mutation snapshot && compatible then .ok ((), db)
  else .error retryMismatch

/-- The result of a reservation: the child, and whether it is new. -/
structure ManualRetryReservation where
  job : Job
  created : Bool
deriving DecidableEq, Repr

/-- `reserve_manual_retry` for an actor who may retry the job; `childId` is the new identity. -/
def reserveManualRetry (snapshot : ManualRetrySnapshot) (actorApiKeyId : ℕ) (idempotencyKey : Str)
    (childId : ℕ) : Tx ManualRetryReservation := fun db =>
  match snapshot.knowledgeBaseId, snapshot.indexGenerationId with
  | some knowledgeBaseId, some generationId =>
      match db.jobs.find? (manualRetryFence snapshot) with
      | none => .error retryConflict
      | some source =>
          match db.jobs.find? fun job => decide (job.parentJobId = some source.id)
            && decide (job.actorApiKeyId = some actorApiKeyId)
            && decide (job.idempotencyKey = some idempotencyKey) with
          | some replay => .ok (⟨replay, false⟩, db)
          | none =>
              if source.status ≠ .failed ∨ source.retryable = false then .error notRetryable
              else
                match db.knowledgeBase? knowledgeBaseId, db.generation? generationId with
                | some knowledgeBase, some generation =>
                    if knowledgeBase.status ≠ .active ∨
                        knowledgeBase.activeIndexGenerationId ≠ some generation.id ∨
                        generation.knowledgeBaseId ≠ knowledgeBase.id ∨
                        generation.status ≠ .active then .error retryMismatch
                    else if activeManualRetryConflict db source knowledgeBaseId generationId then
                      .error retryConflict
                    else do
                      let (_, db) ← match source.operation with
                        | .ingestDocument =>
                            retryIngestion configHash snapshot source knowledgeBase generation db
                        | .rebuildGeneration =>
                            retryRebuild configHash snapshot knowledgeBase generation db
                        | _ => .error notRetryable
                      let child := childJob source childId actorApiKeyId idempotencyKey
                      let (_, db) ← insertJob child db
                      pure (⟨child, true⟩, db)
                | _, _ => .error retryMismatch
  | _, _ => .error hiddenJob

end VeloxRag.Jobs
