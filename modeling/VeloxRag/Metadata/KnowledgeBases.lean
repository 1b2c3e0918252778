import VeloxRag.Jobs.ManualRetry

/-!
# Knowledge bases

Creating, changing and deleting a knowledge base.  A deletion only marks the knowledge base and
queues the job that purges it; the purge destroys the collections and the objects first and then
every row.

## Main definitions

* `createKnowledgeBase`, `updateStatus`, `replaceFilterSchema`, `deleteKnowledgeBase` — the
  service.
* `purgeCollections`, `deleteRows` — the two transactions of a purge.
-/

namespace VeloxRag.Metadata

open Lib Jobs

def notFound : TxError := .business 404 "RESOURCE_NOT_FOUND"
def stateConflict : TxError := .business 409 "RESOURCE_STATE_CONFLICT"
def reindexRequired : TxError := .business 409 "REINDEX_REQUIRED"

/-- The canonical text of the schema without fields. -/
def emptyFilterSchema : Str := "\x7b\"fields\":[]\x7d".toList

/-- The row that `create_knowledge_base` inserts. -/
def newKnowledgeBase (id : ℕ) : KnowledgeBase :=
  ⟨id, .active, none, none, 0, 0, emptyFilterSchema⟩

/-- `create_knowledge_base`, for a request that is not a repetition. -/
def createKnowledgeBase (id : ℕ) : Tx Unit := fun db =>
  .ok ((), { db with knowledgeBases := db.knowledgeBases ++ [newKnowledgeBase id] })

/-- The statuses a caller may set. -/
inductive PatchStatus
  | active
  | disabled
deriving DecidableEq, Repr

def PatchStatus.status : PatchStatus → KbStatus
  | .active => .active
  | .disabled => .disabled

/-- `update_knowledge_base`, as far as the status goes. -/
def updateStatus (id : ℕ) (status : PatchStatus) : Tx Unit := fun db =>
  match db.knowledgeBase? id with
  | none => .error notFound
  | some row =>
      if row.status = .deleting then .error stateConflict
      else .ok ((), { db with
        knowledgeBases := setRow (·.id) { row with status := status.status } db.knowledgeBases })

/-- A generation of the knowledge base is active or building. -/
def filterSchemaFrozen (db : Db) (id : ℕ) : Bool :=
  db.generations.any fun g => decide (g.knowledgeBaseId = id)
    && (decide (g.status = .active) || decide (g.status = .building))

/-- `replace_filter_schema`; `canonical` is the canonical form of the new schema and `mutationId` a
new identity. -/
def replaceFilterSchema (id : ℕ) (canonical : Str) (mutationId : ℕ) : Tx Unit := fun db =>
  match db.knowledgeBase? id with
  | none => .error notFound
  | some row =>
      if row.status = .deleting then .error stateConflict
      else if filterSchemaFrozen db row.id then
        if canonical = row.filterSchema then .ok ((), db) else .error reindexRequired
      else
        .ok ((), { db with
          knowledgeBases := setRow (·.id) { row with
            filterSchema := canonical
            mutationRevision := row.mutationRevision + 1
            filterSchemaRevision := row.filterSchemaRevision + 1 } db.knowledgeBases
          mutations := db.mutations ++ [⟨mutationId, row.id, row.mutationRevision + 1,
            .filterSchemaChanged⟩] })

/-- The job that purges a knowledge base names it only through its target. -/
def purgeJob (id : ℕ) (actorApiKeyId knowledgeBaseId : ℕ) : Job :=
  Job.queued id none (some actorApiKeyId) .purgeKnowledgeBase .knowledgeBase knowledgeBaseId none none
    none none none

/-- `delete_knowledge_base`. -/
def deleteKnowledgeBase (id actorApiKeyId jobId : ℕ) : Tx Unit := fun db =>
  match db.knowledgeBase? id with
  | none => .error notFound
  | some row =>
      if row.status = .deleting then .ok ((), db)
      else
        insertJob (purgeJob jobId actorApiKeyId row.id) { db with
          knowledgeBases := setRow (·.id) { row with status := .deleting } db.knowledgeBases }

/-! ## Purge -/

/-- `_collections`: what a purge has to destroy, or `None` if the knowledge base is gone or was
never marked. -/
def purgeCollections (db : Db) (knowledgeBaseId : ℕ) : Option (List Str) :=
  match db.knowledgeBase? knowledgeBaseId with
  | none => none
  | some row =>
      if row.status ≠ .deleting then none
      else some ((db.generations.filter (·.knowledgeBaseId = knowledgeBaseId)).map
        (·.qdrantCollectionName))

/-- `_delete_rows`: the pointers are cleared, then the children go before what they refer to, and
the states of the index go with the versions and the generations. -/
def deleteRows (knowledgeBaseId : ℕ) : Tx Unit := fun db =>
  let documentIds := (db.documents.filter (·.knowledgeBaseId = knowledgeBaseId)).map (·.id)
  let versionIds := (db.versions.filter (·.documentId ∈ documentIds)).map (·.id)
  let generationIds := (db.generations.filter (·.knowledgeBaseId = knowledgeBaseId)).map (·.id)
  .ok ((), { db with
    knowledgeBases := db.knowledgeBases.filter (·.id ≠ knowledgeBaseId)
    generations := db.generations.filter (·.knowledgeBaseId ≠ knowledgeBaseId)
    documents := db.documents.filter (·.knowledgeBaseId ≠ knowledgeBaseId)
    versions := db.versions.filter (·.documentId ∉ documentIds)
    indexStates := db.indexStates.filter fun s =>
      s.versionId ∉ versionIds ∧ s.generationId ∉ generationIds
    mutations := db.mutations.filter (·.knowledgeBaseId ≠ knowledgeBaseId)
    jobs := db.jobs.filter (·.knowledgeBaseId ≠ some knowledgeBaseId)
    uploads := db.uploads.filter (·.knowledgeBaseId ≠ knowledgeBaseId)
    creationRequests := db.creationRequests.filter (·.knowledgeBaseId ≠ knowledgeBaseId) })

end VeloxRag.Metadata
