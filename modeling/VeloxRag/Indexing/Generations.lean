import VeloxRag.Ingestion.ObjectKeys
import VeloxRag.Jobs.ManualRetry

/-!
# Generations of an index

A generation is created by a saga: a transaction reserves it, the collection is prepared in the
vector store, and a second transaction activates it, retires the generation it replaces, enrols
the live versions and queues the job that fills the collection.  A request can be repeated at
any point, and several runs of one saga may be under way at once.

## Main definitions

* `GenerationIdentities` — the identities and digests that are derived from names.
* `Reservation`, `reserveGeneration` — the first transaction.
* `markFailed`, `abandonGeneration` — giving up.
* `enrolLiveVersions`, `livePointTotal`, `activate` — the second transaction.
-/

namespace VeloxRag.Indexing

open Lib Jobs

/-- `collection_name`. -/
def collectionName (knowledgeBaseId generationId : ℕ) : Str :=
  "rag_kb_".toList ++ Ingestion.hexDigits knowledgeBaseId ++ "_g_".toList
    ++ Ingestion.hexDigits generationId

/-- The identities that `uuid5` derives from names, and the digest of the validation manifest of an
empty generation. -/
structure GenerationIdentities where
  generationId : ℕ → ℕ → Str → ℕ
  requestId : ℕ → ℕ → Str → ℕ
  mutationId : ℕ → ℕ → ℕ
  emptyValidationHash : ℕ → ℕ → Str → ℕ → Str

/-! ## Reservation -/

/-- The part of a built embedding configuration that a generation stores. -/
structure EmbeddingConfiguration where
  profileId : ℕ
  semanticHash : Str
  snapshot : Str
deriving DecidableEq, Repr

/-- What a run of the saga carries from the reservation to the activation. -/
structure Reservation where
  requestId : ℕ
  generationId : ℕ
  knowledgeBaseId : ℕ
  filterSchemaRevision : ℕ
  collection : Str
deriving DecidableEq, Repr

/-- What a reservation returns. -/
inductive Reserved
  | reservation (reservation : Reservation)
  /-- The generation of a request that has succeeded. -/
  | safe (generationId : ℕ)
  /-- `_TerminalFailure`: the request has just failed. -/
  | terminal (status : ℕ) (code : String)
deriving DecidableEq, Repr

def internalError : TxError := .business 500 "INTERNAL_ERROR"
def cleanupInProgress : TxError := .business 503 "GENERATION_CLEANUP_IN_PROGRESS"
def collectionRetired : TxError := .business 409 "GENERATION_COLLECTION_RETIRED"
def generationConflict : TxError := .business 409 "GENERATION_CONFIGURATION_CONFLICT"
def alreadyConfigured : TxError := .business 409 "INDEX_GENERATION_ALREADY_CONFIGURED"
def notAbandonable : TxError := .business 409 "GENERATION_NOT_ABANDONABLE"
def idempotencyKeyReused : TxError := .business 409 "IDEMPOTENCY_KEY_REUSED"
def resourceNotFound : TxError := .business 404 "RESOURCE_NOT_FOUND"

def cleanupClaim? (db : Db) (collection : Str) : Option CleanupClaim :=
  db.cleanupClaims.find? (·.collectionName = collection)

def request? (db : Db) (id : ℕ) : Option CreationRequest := db.creationRequests.find? (·.id = id)

/-- The pending pointer is cleared if it is at the generation. -/
def clearPending (knowledgeBase : KnowledgeBase) (generationId : ℕ) : KnowledgeBase :=
  if knowledgeBase.pendingIndexGenerationId = some generationId then
    { knowledgeBase with pendingIndexGenerationId := none }
  else knowledgeBase

/-- The generation fails, and with it the request. -/
def failRequest (knowledgeBase : KnowledgeBase) (generation : Generation) (request : CreationRequest)
    (status : ℕ) (code : String) (db : Db) : Db :=
  { db with
    knowledgeBases := setRow (·.id) (clearPending knowledgeBase generation.id) db.knowledgeBases
    generations := setRow (·.id) { generation with status := .failed, safeErrorCode := some code.toList }
      db.generations
    creationRequests := setRow (·.id) { request with
      state := .failed
      finalHttpStatus := some status
      safeErrorCode := some code } db.creationRequests }

/-- `_terminal_error`. -/
def terminalError (request : CreationRequest) : TxError :=
  match request.state, request.finalHttpStatus, request.safeErrorCode with
  | .failed, some status, some code => .business status code
  | _, _, _ => internalError

/-- The columns that `_reservation_from_rows` checks without the provider tables. -/
def reservableRow (generation : Generation) : Bool :=
  generation.embeddingConfigSnapshot.isSome && generation.embeddingConfigHash.isSome
    && generation.filterSchemaSnapshot.isSome && generation.embeddingProfileId.isSome
    && decide (generation.qdrantCollectionName
      = collectionName generation.knowledgeBaseId generation.id)

/-- `_reservation_from_rows`; `current` is what the provider tables say about the stored
configuration, with the status and the code of the error. -/
def reservationFromRows (current : Except (ℕ × String) Unit) (request : CreationRequest)
    (generation : Generation) : Except (ℕ × String) Reservation :=
  match generation.appliedFilterSchemaRevision with
  | none => .error (409, "GENERATION_CONFIGURATION_CONFLICT")
  | some revision =>
      if reservableRow generation = false then .error (409, "GENERATION_CONFIGURATION_CONFLICT")
      else do
        current
        pure ⟨request.id, generation.id, generation.knowledgeBaseId, revision,
          generation.qdrantCollectionName⟩

/-- The part of `_reserve` for a request that is there already. -/
def replayRequest (current : Except (ℕ × String) Unit) (knowledgeBase : KnowledgeBase)
    (request : CreationRequest) (generation : Generation) : Tx Reserved := fun db =>
  match cleanupClaim? db generation.qdrantCollectionName with
  | some claim =>
      if claim.completedAt = none then .error cleanupInProgress
      else if request.state = .succeeded ∨ generation.status = .active then .error internalError
      else if request.state = .failed then .error collectionRetired
      else .ok (.terminal 409 "GENERATION_COLLECTION_RETIRED",
        failRequest knowledgeBase generation request 409 "GENERATION_COLLECTION_RETIRED" db)
  | none =>
      match request.state with
      | .failed => .error (terminalError request)
      | .succeeded =>
          if generation.status ≠ .active then .error internalError
          else .ok (.safe generation.id, db)
      | .inProgress =>
          if knowledgeBase.status ≠ .active then
            .ok (.terminal 409 "GENERATION_CONFIGURATION_CONFLICT",
              failRequest knowledgeBase generation request 409 "GENERATION_CONFIGURATION_CONFLICT" db)
          else
            match reservationFromRows current request generation with
            | .ok reservation => .ok (.reservation reservation, db)
            | .error (status, code) =>
                .ok (.terminal status code, failRequest knowledgeBase generation request status code db)

/-- The request as the caller made it. -/
structure GenerationCommand where
  knowledgeBaseId : ℕ
  actorId : ℕ
  idempotencyKey : Str
  fingerprint : Str
deriving DecidableEq, Repr

/-- A building generation of a knowledge base. -/
def buildingGenerationExists (db : Db) (knowledgeBaseId : ℕ) : Bool :=
  db.generations.any fun g => decide (g.knowledgeBaseId = knowledgeBaseId)
    && decide (g.status = .building)

/-- The generation that a reservation inserts. -/
def newGeneration (id : ℕ) (knowledgeBase : KnowledgeBase) (embedding : EmbeddingConfiguration)
    (filterSnapshot : Str) : Generation where
  id := id
  knowledgeBaseId := knowledgeBase.id
  qdrantCollectionName := collectionName knowledgeBase.id id
  status := .building
  indexProfileHash := embedding.semanticHash
  embeddingProfileId := some embedding.profileId
  embeddingConfigSnapshot := some embedding.snapshot
  embeddingConfigHash := some embedding.semanticHash
  filterSchemaSnapshot := some filterSnapshot
  appliedFilterSchemaRevision := some knowledgeBase.filterSchemaRevision
  caughtUpRevision := knowledgeBase.mutationRevision
  validatedRevision := none
  validationManifestHash := none
  expectedPointCount := none
  actualPointCount := none
  validatedAt := none
  activatedAt := none
  retiredAt := none
  safeErrorCode := none

/-- The primary keys and the unique columns that the two insertions of a reservation need. -/
def reservationKeysFree (db : Db) (command : GenerationCommand) (requestId generationId : ℕ) : Bool :=
  (db.creationRequests.all fun r => decide (r.id ≠ requestId))
    && db.generations.all fun g => decide (g.id ≠ generationId)
      && decide (g.qdrantCollectionName ≠ collectionName command.knowledgeBaseId generationId)

/-- The part of `_reserve` for a new request. -/
def reserveNew (identities : GenerationIdentities) (command : GenerationCommand)
    (source : Except TxError (EmbeddingConfiguration × Str)) (knowledgeBase : KnowledgeBase) :
    Tx Reserved := fun db =>
  if knowledgeBase.status ≠ .active then .error generationConflict
  else if knowledgeBase.pendingIndexGenerationId ≠ none ∨
      buildingGenerationExists db knowledgeBase.id then .error alreadyConfigured
  else do
    let (embedding, filterSnapshot) ← source
    let generationId := identities.generationId command.actorId command.knowledgeBaseId
      command.idempotencyKey
    let requestId := identities.requestId command.actorId command.knowledgeBaseId
      command.idempotencyKey
    match cleanupClaim? db (collectionName knowledgeBase.id generationId) with
    | some claim => .error (if claim.completedAt.isSome then collectionRetired else cleanupInProgress)
    | none =>
        if reservationKeysFree db command requestId generationId = false then .error .integrity
        else
          .ok (.reservation ⟨requestId, generationId, knowledgeBase.id,
              knowledgeBase.filterSchemaRevision, collectionName knowledgeBase.id generationId⟩,
            { db with
              creationRequests := db.creationRequests ++ [⟨requestId, command.actorId,
                knowledgeBase.id, command.idempotencyKey, command.fingerprint, generationId,
                .inProgress, none, none⟩]
              generations := db.generations ++
                [newGeneration generationId knowledgeBase embedding filterSnapshot]
              knowledgeBases := setRow (·.id) { knowledgeBase with
                pendingIndexGenerationId := some generationId } db.knowledgeBases })

/-- `_reserve`.  `current` and `source` are what the provider tables give for a stored and for a new
configuration. -/
def reserveGeneration (identities : GenerationIdentities) (command : GenerationCommand)
    (current : Except (ℕ × String) Unit) (source : Except TxError (EmbeddingConfiguration × Str)) :
    Tx Reserved := fun db =>
  match db.knowledgeBase? command.knowledgeBaseId with
  | none => .error resourceNotFound
  | some knowledgeBase =>
      match db.creationRequests.find? fun r => decide (r.actorApiKeyId = command.actorId)
        && decide (r.knowledgeBaseId = command.knowledgeBaseId)
        && decide (r.idempotencyKey = command.idempotencyKey) with
      | none => reserveNew identities command source knowledgeBase db
      | some request =>
          if request.requestFingerprint ≠ command.fingerprint then .error idempotencyKeyReused
          else
            match db.generation? request.generationId with
            | none => .error internalError
            | some generation => replayRequest current knowledgeBase request generation db

/-! ## Giving up -/

/-- The rows that the later transactions of a saga lock. -/
def sagaRows (db : Db) (reservation : Reservation) :
    Option (KnowledgeBase × Generation × CreationRequest) := do
  let knowledgeBase ← db.knowledgeBase? reservation.knowledgeBaseId
  let generation ← db.generation? reservation.generationId
  let request ← request? db reservation.requestId
  pure (knowledgeBase, generation, request)

/-- `_mark_failed`. -/
def markFailed (reservation : Reservation) (status : ℕ) (code : String)
    (actualPointCount : Option ℕ) : Tx Unit := fun db =>
  match sagaRows db reservation with
  | none => .error internalError
  | some (knowledgeBase, generation, request) =>
      if request.state = .succeeded ∨ generation.status = .active then .ok ((), db)
      else
        let counted := match actualPointCount with
          | none => generation
          | some actual =>
              { generation with expectedPointCount := some 0, actualPointCount := some actual }
        .ok ((), failRequest knowledgeBase counted request status code db)

/-- `abandon_generation`: the request keeps its state. -/
def abandonGeneration (knowledgeBaseId generationId : ℕ) : Tx Unit := fun db =>
  match db.knowledgeBase? knowledgeBaseId, db.generation? generationId with
  | some knowledgeBase, some generation =>
      if generation.knowledgeBaseId ≠ knowledgeBaseId then .error resourceNotFound
      else if generation.status ≠ .building then .error notAbandonable
      else
        .ok ((), { db with
          knowledgeBases := setRow (·.id) (clearPending knowledgeBase generation.id) db.knowledgeBases
          generations := setRow (·.id) { generation with
            status := .failed
            safeErrorCode := some "GENERATION_ABANDONED".toList } db.generations })
  | _, _ => .error resourceNotFound

/-! ## Activation -/

/-- The versions that a cutover enrols: current, ready and chunked. -/
def liveVersions (db : Db) (knowledgeBaseId : ℕ) : List Version :=
  (liveDocuments db knowledgeBaseId).filterMap fun document => do
    let version ← db.version? (← document.currentVersionId)
    if version.status = .ready ∧ version.chunkCount.isSome then pure version else none

/-- The state of a version that is enrolled in a generation. -/
def enrolledState (generation : Generation) (now : ℕ) (version : Version) : IndexState where
  versionId := version.id
  generationId := generation.id
  status := .validated
  expectedPointCount := version.chunkCount
  actualPointCount := version.chunkCount
  errorCode := none
  safeErrorMessage := none
  validatedAt := some now
  chunkManifestChecksum := version.chunkManifestChecksum
  embeddingConfigHash := generation.embeddingConfigHash
  nextChunkIndex := version.chunkCount.getD 0

/-- `enrol_live_versions`: the states after it. -/
def enrolLiveVersions (db : Db) (knowledgeBaseId : ℕ) (generation : Generation) : List IndexState :=
  insertMissing IndexState.key
    (((liveVersions db knowledgeBaseId).filter fun v => v.chunkManifestChecksum.isSome).map
      (enrolledState generation db.now)) db.indexStates

/-- `live_point_total`. -/
def livePointTotal (db : Db) (knowledgeBaseId : ℕ) : ℕ :=
  ((liveVersions db knowledgeBaseId).map fun v => v.chunkCount.getD 0).sum

/-- The generation as it is activated at a revision. -/
def activatedGeneration (identities : GenerationIdentities) (generation : Generation)
    (revision now : ℕ) : Generation :=
  { generation with
    status := .active
    caughtUpRevision := revision
    validatedRevision := some revision
    expectedPointCount := some 0
    actualPointCount := some 0
    validationManifestHash := some (identities.emptyValidationHash generation.knowledgeBaseId
      generation.id generation.qdrantCollectionName revision)
    validatedAt := some now
    activatedAt := some now
    safeErrorCode := none }

/-- The mutation that an activation records. -/
def activationMutation (id knowledgeBaseId revision : ℕ) (generation : Generation) : Mutation :=
  ⟨id, knowledgeBaseId, revision, .indexConfigChanged ⟨generation.id, generation.embeddingProfileId,
    generation.indexProfileHash, generation.embeddingConfigHash,
    generation.appliedFilterSchemaRevision, generation.validationManifestHash⟩⟩

/-- The job that fills the collection of an activated generation. -/
def cutoverJob (id knowledgeBaseId generationId revision mutationId pointTotal : ℕ) : Job :=
  { Job.queued id (some knowledgeBaseId) none .rebuildGeneration .indexGeneration generationId
      (some revision) (some generationId) (some mutationId) (some .indexing) none with
    progressTotal := some pointTotal }

/-- What an activation does beyond the rows of the saga when it replaces a generation: retire it,
enrol the live versions, and queue the job if there are any. -/
def cutover (knowledgeBase : KnowledgeBase) (generation superseded : Generation)
    (revision mutationId jobId : ℕ) : Tx Unit := fun db =>
  let retired := { db with
    generations := setRow (·.id) { superseded with status := .retiring } db.generations }
  let filled := { retired with
    indexStates := enrolLiveVersions retired knowledgeBase.id generation }
  if filled.indexStates.length = retired.indexStates.length then .ok ((), filled)
  else insertJob (cutoverJob jobId knowledgeBase.id generation.id revision mutationId
    (livePointTotal filled knowledgeBase.id)) filled

/-- The branch of `_activate` that activates. -/
def promote (identities : GenerationIdentities) (knowledgeBase : KnowledgeBase)
    (generation : Generation) (request : CreationRequest) (jobId : ℕ) : Tx Unit := fun db =>
  let revision := knowledgeBase.mutationRevision + 1
  let mutationId := identities.mutationId generation.id revision
  let active := activatedGeneration identities generation revision db.now
  if db.mutations.any fun m => decide (m.id = mutationId) then .error .integrity
  else do
    let recorded := { db with
      mutations := db.mutations ++ [activationMutation mutationId knowledgeBase.id revision active] }
    let (_, swapped) ← match knowledgeBase.activeIndexGenerationId.bind db.generation? with
      | none => .ok ((), recorded)
      | some superseded => cutover knowledgeBase active superseded revision mutationId jobId recorded
    pure ((), { swapped with
      generations := setRow (·.id) active swapped.generations
      knowledgeBases := setRow (·.id) { knowledgeBase with
        mutationRevision := revision
        pendingIndexGenerationId := none
        activeIndexGenerationId := some generation.id } swapped.knowledgeBases
      creationRequests := setRow (·.id) { request with
        state := .succeeded
        finalHttpStatus := some 201
        safeErrorCode := none } swapped.creationRequests })

/-- The rows are no longer those of a reservation that may be activated. -/
def activationRefused (reservation : Reservation) (knowledgeBase : KnowledgeBase)
    (generation : Generation) : Bool :=
  decide (generation.status ≠ .building) || decide (knowledgeBase.status ≠ .active)
    || decide (knowledgeBase.pendingIndexGenerationId ≠ some generation.id)
    || decide (knowledgeBase.activeIndexGenerationId = some generation.id)
    || decide (knowledgeBase.filterSchemaRevision ≠ reservation.filterSchemaRevision)

/-- `_activate`, for an empty collection; `jobId` is the identity of the new job. -/
def activate (identities : GenerationIdentities) (reservation : Reservation) (jobId : ℕ) : Tx Unit :=
  fun db =>
    match sagaRows db reservation with
    | none => .error internalError
    | some (knowledgeBase, generation, request) =>
        match cleanupClaim? db reservation.collection with
        | some claim =>
            if claim.completedAt = none then .error cleanupInProgress
            else if request.state = .succeeded ∨ generation.status = .active then .error internalError
            else .ok ((), failRequest knowledgeBase generation request 409
              "GENERATION_COLLECTION_RETIRED" db)
        | none =>
            if request.state = .succeeded ∧ generation.status = .active then .ok ((), db)
            else if request.state = .failed then .error (terminalError request)
            else if activationRefused reservation knowledgeBase generation then
              .ok ((), failRequest knowledgeBase generation request 409
                "GENERATION_CONFIGURATION_CONFLICT" db)
            else promote identities knowledgeBase generation request jobId db

end VeloxRag.Indexing
