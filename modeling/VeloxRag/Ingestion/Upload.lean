import VeloxRag.Ingestion.ObjectKeys
import VeloxRag.Ingestion.Repository

/-!
# Reserving an upload

An upload is published to the object store first and then reserved: one transaction, under the
lock of the knowledge base, writes the document, its version, its state in the active
generation, the mutation and the job.  A request that carries an idempotency key is recorded
under it, and a repetition of the request is answered with what the first one created.

## Main definitions

* `UploadPreflight`, `UploadReservation` — what a reservation starts from.
* `uploadReservation` — the reservation of a published source.
* `existingIdempotency`, `replay` — the lookup and the answer of a repetition.
* `liveChecksumTaken` — the unique index on the contents of live documents.
* `reserve` — the transaction.
-/

namespace VeloxRag.Ingestion

open Lib Jobs

structure UploadPreflight where
  knowledgeBaseId : ℕ
  generationId : ℕ
  filterSchemaSnapshot : Str
  appliedFilterSchemaRevision : ℕ
  currentFilterSchemaRevision : ℕ
deriving DecidableEq, Repr

structure UploadReservation where
  actorId : ℕ
  knowledgeBaseId : ℕ
  preflight : Option UploadPreflight
  idempotencyKey : Option Str
  requestFingerprint : Str
  documentId : ℕ
  versionId : ℕ
  jobId : ℕ
  sourceObjectKey : Str
  sourceChecksum : Str
  metadata : Str
  detectedMimeType : Str
  sourceExtension : Str
  parserName : Str
deriving DecidableEq, Repr

structure UploadReservationResult where
  documentId : ℕ
  versionId : ℕ
  jobId : ℕ
  replay : Bool
deriving DecidableEq, Repr

/-! ## Before the transaction -/

/-- `preflight`. -/
def preflight (db : Db) (knowledgeBaseId : ℕ) : Option UploadPreflight := do
  let kb ← db.knowledgeBase? knowledgeBaseId
  let generation ← db.generation? (← kb.activeIndexGenerationId)
  let snapshot ← generation.filterSchemaSnapshot
  let applied ← generation.appliedFilterSchemaRevision
  if kb.status = .active ∧ generation.status = .active then
    pure ⟨kb.id, generation.id, snapshot, applied, kb.filterSchemaRevision⟩
  else none

/-- What a request brings; the two texts are canonical. -/
structure UploadRequest where
  actorId : ℕ
  knowledgeBaseId : ℕ
  preflight : Option UploadPreflight
  idempotencyKey : Option Str
  requestFingerprint : Str
  sourceChecksum : Str
  extension : SourceExtension
  metadata : Str
deriving DecidableEq, Repr

/-- The reservation that `_publish_and_reserve` makes for a published source, with new identities. -/
def uploadReservation (request : UploadRequest) (documentId versionId jobId : ℕ) : UploadReservation where
  actorId := request.actorId
  knowledgeBaseId := request.knowledgeBaseId
  preflight := request.preflight
  idempotencyKey := request.idempotencyKey
  requestFingerprint := request.requestFingerprint
  documentId := documentId
  versionId := versionId
  jobId := jobId
  sourceObjectKey := sourceObjectKey request.knowledgeBaseId documentId versionId request.extension
  sourceChecksum := request.sourceChecksum
  metadata := request.metadata
  detectedMimeType := (if request.extension = .txt then "text/plain" else "text/markdown").toList
  sourceExtension := request.extension.text.toList
  parserName := (if request.extension = .txt then "plain_text_v1" else "markdown_text_v1").toList

/-! ## The transaction -/

/-- `_existing_idempotency`. -/
def existingIdempotency (db : Db) (reservation : UploadReservation) : Option UploadIdempotency := do
  let key ← reservation.idempotencyKey
  db.uploads.find? (·.key = (reservation.actorId, reservation.knowledgeBaseId, key))

def keyReused : TxError := .business 409 "IDEMPOTENCY_KEY_REUSED"
def configurationConflict : TxError := .business 409 "GENERATION_CONFIGURATION_CONFLICT"
def repairInProgress : TxError := .business 409 "GENERATION_REPAIR_IN_PROGRESS"
def notIndexConfigured : TxError := .business 409 "KNOWLEDGE_BASE_NOT_INDEX_CONFIGURED"
def duplicateDocument : TxError := .business 409 "DUPLICATE_DOCUMENT"

/-- `_replay`. -/
def replay (existing : UploadIdempotency) (fingerprint : Str) : Except TxError UploadReservationResult :=
  if existing.requestFingerprint ≠ fingerprint then .error keyReused
  else .ok ⟨existing.documentId, existing.versionId, existing.jobId, true⟩

/-- An active rebuild of the active generation of a knowledge base. -/
def activeRepair (db : Db) (kb : KnowledgeBase) : Bool :=
  db.jobs.any fun job => decide (job.knowledgeBaseId = some kb.id)
    && decide (job.operation = .rebuildGeneration) && decide (job.targetType = .indexGeneration)
    && decide (job.indexGenerationId = kb.activeIndexGenerationId) && job.status.isActive

/-- The generation is the active one, and what the preflight saw. -/
def matchesPreflight (kb : KnowledgeBase) (preflight : UploadPreflight) (generation : Generation) : Bool :=
  decide (generation.status = .active)
    && decide (kb.activeIndexGenerationId = some generation.id)
    && decide (kb.filterSchemaRevision = preflight.currentFilterSchemaRevision)
    && decide (generation.appliedFilterSchemaRevision = some preflight.appliedFilterSchemaRevision)
    && decide (generation.filterSchemaSnapshot = some preflight.filterSchemaSnapshot)

/-- The unique index `uq_documents_kb_checksum_live`. -/
def liveChecksumTaken (db : Db) (knowledgeBaseId : ℕ) (checksum : Str) : Bool :=
  db.documents.any fun d => decide (d.knowledgeBaseId = knowledgeBaseId)
    && decide (d.checksum = some checksum) && decide (d.deletedAt = none)

/-- The row that records the request. -/
def idempotencyRow (reservation : UploadReservation) : List UploadIdempotency :=
  match reservation.idempotencyKey with
  | none => []
  | some key => [⟨reservation.actorId, reservation.knowledgeBaseId, key, reservation.requestFingerprint,
      reservation.documentId, reservation.versionId, reservation.jobId⟩]

def newDocument (reservation : UploadReservation) : Document where
  id := reservation.documentId
  knowledgeBaseId := reservation.knowledgeBaseId
  checksum := some reservation.sourceChecksum
  currentVersionId := none
  pendingVersionId := some reservation.versionId
  status := .processing
  deletedAt := none
  metadata := reservation.metadata
  mimeType := some reservation.detectedMimeType

def newVersion (reservation : UploadReservation) : Version where
  id := reservation.versionId
  documentId := reservation.documentId
  baseVersionId := none
  source := ⟨reservation.sourceObjectKey, reservation.sourceChecksum,
    some reservation.sourceExtension, some reservation.detectedMimeType⟩
  parser := ⟨some reservation.parserName, some "1".toList, ['\x7b', '\x7d']⟩
  parsedObjectKey := none
  parsedObjectChecksum := none
  chunker := ⟨none, none, none⟩
  chunkManifestObjectKey := none
  chunkManifestChecksum := none
  chunkConfigHash := none
  chunkCount := none
  status := .uploaded
  activatedAt := none

def newIndexState (versionId generationId : ℕ) : IndexState where
  versionId := versionId
  generationId := generationId
  status := .queued
  expectedPointCount := none
  actualPointCount := none
  errorCode := none
  safeErrorMessage := none
  validatedAt := none
  chunkManifestChecksum := none
  embeddingConfigHash := none
  nextChunkIndex := 0

/-- The job of an upload. -/
def ingestJob (reservation : UploadReservation) (kb : KnowledgeBase) (generationId mutationId : ℕ) : Job :=
  Job.queued reservation.jobId (some kb.id) (some reservation.actorId) .ingestDocument
    .documentVersion reservation.versionId (some (kb.mutationRevision + 1)) (some generationId)
    (some mutationId) (some .parse) none

/-- The rows after a reservation that creates. -/
def applyUpload (reservation : UploadReservation) (kb : KnowledgeBase) (generation : Generation)
    (mutationId : ℕ) (db : Db) : Db :=
  let revision := kb.mutationRevision + 1
  { db with
    knowledgeBases := setRow (·.id) { kb with mutationRevision := revision } db.knowledgeBases
    documents := db.documents ++ [newDocument reservation]
    versions := db.versions ++ [newVersion reservation]
    indexStates := db.indexStates ++ [newIndexState reservation.versionId generation.id]
    mutations := db.mutations ++ [⟨mutationId, kb.id, revision,
      .documentVersionCreated reservation.versionId reservation.documentId⟩]
    jobs := db.jobs ++ [ingestJob reservation kb generation.id mutationId]
    uploads := db.uploads ++ idempotencyRow reservation }

/-- `reserve` for an actor who may upload.  `checks` is what validating the metadata against the
filter snapshot and verifying the source object answer; `mutationId` is a new identity.  A row
under the same idempotency key cannot appear between the lookup and the insertion, since both
hold the lock of the knowledge base. -/
def reserve (reservation : UploadReservation) (checks : Except TxError Unit) (mutationId : ℕ) :
    Tx UploadReservationResult := fun db =>
  match db.knowledgeBase? reservation.knowledgeBaseId with
  | none => .error configurationConflict
  | some kb =>
      if kb.status ≠ .active then .error configurationConflict
      else
        match existingIdempotency db reservation with
        | some existing => do
            let result ← replay existing reservation.requestFingerprint
            pure (result, db)
        | none =>
            if activeRepair db kb then .error repairInProgress
            else
              match reservation.preflight with
              | none => .error notIndexConfigured
              | some preflight =>
                  match db.generation? preflight.generationId with
                  | none => .error configurationConflict
                  | some generation =>
                      if matchesPreflight kb preflight generation = false then
                        .error configurationConflict
                      else do
                        checks
                        if liveChecksumTaken db kb.id reservation.sourceChecksum then
                          throw duplicateDocument
                        else
                          pure (⟨reservation.documentId, reservation.versionId, reservation.jobId,
                            false⟩, applyUpload reservation kb generation mutationId db)

end VeloxRag.Ingestion
