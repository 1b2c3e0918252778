import VeloxRag.Ingestion.ObjectKeys
import VeloxRag.Ingestion.Repository
import VeloxRag.Jobs.Runner

/-!
# The stages of an ingestion

One run of the handler works on the stage of its lease: it loads the rows, works outside the
database, and commits through the fence of the lease.  What a stage raises is turned into a
typed error, and an error that ends the job ends the rows of the document with it.

## Main definitions

* `commitStarted`, `commitParsed`, `commitChunked`, `commitEmbedProgress`, `commitCount`,
  `commitValidated`, `commitActivated` — the commits of the stages, under their leases.
* `StageException`, `jobErrorOf` — the `except` clauses of `_dispatch_stage`.
* `afterStageRaised` — what follows an exception.
-/

namespace VeloxRag.Ingestion

open Lib Jobs

/-- The lease is of an ingestion at a stage, on the version and the generation that were loaded. -/
def stageLease (lease : JobLease) (stage : Stage) (versionId generationId : ℕ) : Bool :=
  decide (lease.operation = .ingestDocument) && decide (lease.targetType = .documentVersion)
    && decide (lease.stage = some stage) && decide (lease.targetId = versionId)
    && decide (lease.indexGenerationId = some generationId)

/-! ## Commits -/

/-- The first commit of `_parse_stage`, for a version that is uploaded. -/
def commitStarted (lease : JobLease) (expected : ParseStageInput) : Tx Job := fun db =>
  if stageLease lease .parse expected.versionId expected.generationId ∧
      expected.versionStatus = .uploaded then
    commitStageFacts lease (commitParseStarted expected) db
  else .error stageStateInvalid

/-- The commit of `_parse_stage`, with the checksum of the published text. -/
def commitParsed (lease : JobLease) (expected : ParseStageInput) (parsedChecksum : Str) : Tx Job :=
  fun db =>
    if stageLease lease .parse expected.versionId expected.generationId ∧
        Jobs.parserForExtension expected.sourceExtension = some expected.parser then
      advanceStage lease (commitParseStage expected
        (parsedTextObjectKey expected.knowledgeBaseId expected.documentId expected.versionId)
        parsedChecksum expected.parser) .chunk .chunk 0 none db
    else .error stageStateInvalid

/-- `_chunker_for`: the sizes of the chunker, stored or configured. -/
def chunkerFor (defaults : ℤ × ℤ) (chunker : ChunkerInfo) : Option (ℤ × ℤ) :=
  let sizes := match chunker with
    | ⟨none, none, none⟩ => some defaults
    | ⟨some name, some version, some sizes⟩ =>
        if name = RecursiveTextChunker.name ∧ version = RecursiveTextChunker.version then some sizes
        else none
    | _ => none
  sizes.filter acceptedSizes

/-- The commit of `_chunk_stage`, with the checksum of the published manifest and the number of
its chunks. -/
def commitChunked (digest : ChunkerDigest) (defaults : ℤ × ℤ) (lease : JobLease)
    (expected : ChunkStageInput) (manifestChecksum : Str) (chunkCount : ℕ) : Tx Job := fun db =>
  match chunkerFor defaults expected.chunker with
  | none => .error stageStateInvalid
  | some sizes =>
      if stageLease lease .chunk expected.versionId expected.generationId ∧
          expected.versionStatus = .chunking ∧
          Jobs.parserForExtension expected.sourceExtension = some expected.parser then
        let chunker := recursiveChunker sizes
        advanceStage lease (commitChunkStage expected
          ⟨chunksObjectKey expected.knowledgeBaseId expected.documentId expected.versionId,
            manifestChecksum, digest chunker, chunker, chunkCount⟩)
          .embedIndex .embedIndex 0 (some chunkCount) db
      else .error stageStateInvalid

/-- `_commit_embed_progress`: the last batch also advances the stage. -/
def commitEmbedProgress (lease : JobLease) (expected : EmbedIndexStageInput) (nextChunkIndex : ℕ) :
    Tx Job := fun db =>
  if stageLease lease .embedIndex expected.versionId expected.generationId then
    if nextChunkIndex = expected.chunkCount then
      advanceStage lease (commitEmbedIndexBatch expected nextChunkIndex) .validate .validate
        expected.chunkCount (some expected.chunkCount) db
    else
      commitStageCheckpoint lease (commitEmbedIndexBatch expected nextChunkIndex) nextChunkIndex
        (some expected.chunkCount) db
  else .error stageStateInvalid

/-- The commit of `_validate_stage` after the points were counted. -/
def commitCount (lease : JobLease) (expected : EmbedIndexStageInput) (actualCount : ℕ) : Tx Job :=
  fun db =>
    if stageLease lease .validate expected.versionId expected.generationId then
      commitStageFacts lease (commitValidateCount expected actualCount) db
    else .error stageStateInvalid

/-- The commit of `_validate_stage` after every point was compared. -/
def commitValidated (lease : JobLease) (expected : EmbedIndexStageInput) (actualCount : ℕ) : Tx Job :=
  fun db =>
    if stageLease lease .validate expected.versionId expected.generationId then
      advanceStage lease (commitValidateStage expected actualCount) .activate .activate
        expected.chunkCount (some expected.chunkCount) db
    else .error stageStateInvalid

/-- The commit of `_activate_stage`. -/
def commitActivated (lease : JobLease) (expected : ActivationStageInput) (mutationId : ℕ) : Tx Unit :=
  fun db =>
    if stageLease lease .activate expected.versionId expected.generationId ∧
        expected.jobId = lease.id then
      finalizeDomain lease (commitActivation expected lease mutationId) db
    else .error stageStateInvalid

/-! ## Errors -/

/-- What a stage raises. -/
inductive StageException
  /-- A `JobExecutionError` that the stage raises itself. -/
  | jobError (error : JobExecutionError)
  | artifactChecksumConflict
  | objectStore (retryable : Bool) (code message : Str)
  | documentValidation (code message : Str)
  | structuralMetadataLimitExceeded
  | embeddingGateway (retryable : Bool) (code message : Str)
  | qdrantTransient
  | qdrantConfiguration
  | documentActivationConflict
  /-- `TypeError`, `ValueError` or `UnicodeError`. -/
  | stageConflict
  | lostLease
  /-- Any other exception, such as one of the database. -/
  | other
deriving DecidableEq, Repr

/-- The `except` clauses of `_dispatch_stage`; the last two constructors pass through them. -/
def jobErrorOf : StageException → Option JobExecutionError
  | .jobError error => some error
  | .artifactChecksumConflict =>
      some ⟨false, "ARTIFACT_CHECKSUM_CONFLICT".toList, "Artifact checksum conflict".toList⟩
  | .objectStore retryable code message => some ⟨retryable, code, message⟩
  | .documentValidation code message => some ⟨false, code, message⟩
  | .structuralMetadataLimitExceeded =>
      some ⟨false, "STRUCTURAL_METADATA_TOO_LARGE".toList,
        "Document structural metadata exceeds limit".toList⟩
  | .embeddingGateway retryable code message => some ⟨retryable, code, message⟩
  | .qdrantTransient => some ⟨true, "QDRANT_UNAVAILABLE".toList, "Qdrant unavailable".toList⟩
  | .qdrantConfiguration =>
      some ⟨false, "QDRANT_CONFIGURATION_CONFLICT".toList, "Qdrant configuration conflict".toList⟩
  | .documentActivationConflict =>
      some ⟨false, "DOCUMENT_ACTIVATION_CONFLICT".toList, "Document activation conflict".toList⟩
  | .stageConflict =>
      some ⟨false, "INGESTION_STAGE_CONFLICT".toList, "Ingestion stage conflict".toList⟩
  | .lostLease | .other => none

/-- `_terminal_failure`. -/
def terminalFailure (lease : JobLease) (error : JobExecutionError) : Tx Unit :=
  finalizeDomain lease (commitTerminalFailure lease error.retryable error.code error.message)

/-- What follows an exception of a stage: an error that ends the job ends the rows with it, any
other is left to the runner. -/
def afterStageRaised (lease : JobLease) (exception : StageException) (delay : ℕ) : Tx Unit :=
  match jobErrorOf exception with
  | some error =>
      if error.retryable = false ∨ lease.maxAttempts ≤ lease.attemptCount then
        terminalFailure lease error
      else afterRaised lease (.jobError error) delay
  | none => afterRaised lease (if exception = .lostLease then .lostLease else .other) delay

end VeloxRag.Ingestion
