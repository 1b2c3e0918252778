import VeloxRag.Indexing.Generations

/-!
# Visible documents

The rows decide what a search may show: the current version of a live document, indexed completely
in the generation that is searched.

## Main definitions

* `SearchTables` — the tables that a search reads.
* `ActiveSearchTarget`, `getActiveTarget` — the generation that is searched.
* `visibleDocuments`, `loadVisibleDocuments`, `loadVisibleDocumentFilters` — what is visible.
-/

namespace VeloxRag.Retrieval

/-- The database with the columns that only a search reads. -/
structure SearchTables where
  db : Db
  displayName : ℕ → Str
  rerankProfileId : ℕ → Option ℕ

/-! ## The target -/

structure ActiveSearchTarget where
  knowledgeBaseId : ℕ
  knowledgeBaseStatus : KbStatus
  generationId : ℕ
  generationStatus : GenerationStatus
  embeddingProfileId : Option ℕ
  qdrantCollectionName : Str
  embeddingConfigSnapshot : Option Str
  embeddingConfigHash : Option Str
  indexProfileHash : Str
  filterSchemaSnapshot : Option Str
  rerankProfileId : Option ℕ
deriving DecidableEq, Repr

/-- `get_active_target`. -/
def getActiveTarget (tables : SearchTables) (knowledgeBaseId : ℕ) : Option ActiveSearchTarget := do
  let knowledgeBase ← tables.db.knowledgeBase? knowledgeBaseId
  let generation ← tables.db.generations.find? fun g =>
    decide (some g.id = knowledgeBase.activeIndexGenerationId)
      && decide (g.knowledgeBaseId = knowledgeBase.id)
  pure {
    knowledgeBaseId := knowledgeBase.id
    knowledgeBaseStatus := knowledgeBase.status
    generationId := generation.id
    generationStatus := generation.status
    embeddingProfileId := generation.embeddingProfileId
    qdrantCollectionName := generation.qdrantCollectionName
    embeddingConfigSnapshot := generation.embeddingConfigSnapshot
    embeddingConfigHash := generation.embeddingConfigHash
    indexProfileHash := generation.indexProfileHash
    filterSchemaSnapshot := generation.filterSchemaSnapshot
    rerankProfileId := tables.rerankProfileId knowledgeBase.id }

/-! ## Visibility -/

structure VisibleDocument where
  documentId : ℕ
  versionId : ℕ
  sourceFilename : Str
deriving DecidableEq, Repr

/-- The pair by which a candidate is looked up. -/
def VisibleDocument.identity (d : VisibleDocument) : ℕ × ℕ := (d.documentId, d.versionId)

/-- `=` of SQL, which no null satisfies. -/
def sqlEq {α : Type} [DecidableEq α] (a b : Option α) : Bool := a.isSome && decide (a = b)

/-- The conditions of `_visible_documents_statement` on the version of a document, its index state
and the generation. -/
def visibleRows (version : Version) (state : IndexState) (generation : Generation) : Bool :=
  decide (version.status = .ready) && version.activatedAt.isSome
    && (version.chunkCount.any fun count => decide (1 ≤ count))
    && decide (state.status = .validated) && state.validatedAt.isSome
    && sqlEq state.embeddingConfigHash generation.embeddingConfigHash
    && sqlEq state.expectedPointCount state.actualPointCount
    && sqlEq state.expectedPointCount version.chunkCount
    && sqlEq state.actualPointCount version.chunkCount
    && sqlEq (some state.nextChunkIndex) version.chunkCount
    && sqlEq state.chunkManifestChecksum version.chunkManifestChecksum

/-- The row of `_visible_documents_statement` for a document. -/
def visibleDocument? (tables : SearchTables) (knowledgeBaseId generationId : ℕ)
    (document : Document) : Option VisibleDocument := do
  let version ← tables.db.versions.find? fun v =>
    decide (some v.id = document.currentVersionId) && decide (v.documentId = document.id)
  let state ← tables.db.indexState? (version.id, generationId)
  let generation ← tables.db.generation? state.generationId
  if document.knowledgeBaseId = knowledgeBaseId ∧ document.status = .active
      ∧ document.deletedAt = none ∧ visibleRows version state generation = true then
    some ⟨document.id, version.id, tables.displayName document.id⟩
  else none

/-- `_visible_documents_statement`. -/
def visibleDocuments (tables : SearchTables) (knowledgeBaseId generationId : ℕ) :
    List VisibleDocument :=
  tables.db.documents.filterMap (visibleDocument? tables knowledgeBaseId generationId)

/-- `load_visible_documents`, as the lookup of one identity; a later row replaces an earlier. -/
def loadVisibleDocuments (tables : SearchTables) (knowledgeBaseId generationId : ℕ)
    (identity : ℕ × ℕ) : Option VisibleDocument :=
  (visibleDocuments tables knowledgeBaseId generationId).reverse.find? (·.identity = identity)

/-- `load_visible_document_filters`, as the lookup of one document. -/
def loadVisibleDocumentFilters (tables : SearchTables) (knowledgeBaseId generationId : ℕ)
    (documentId : ℕ) : Option VisibleDocument :=
  (visibleDocuments tables knowledgeBaseId generationId).reverse.find? (·.documentId = documentId)

/-- A row that is found is visible and has the identity. -/
theorem loadVisibleDocuments_some {tables : SearchTables} {knowledgeBaseId generationId : ℕ}
    {identity : ℕ × ℕ} {d : VisibleDocument}
    (h : loadVisibleDocuments tables knowledgeBaseId generationId identity = some d) :
    d ∈ visibleDocuments tables knowledgeBaseId generationId ∧ d.identity = identity := by
  constructor
  · exact List.mem_reverse.mp (List.mem_of_find?_eq_some h)
  · simpa using List.find?_some h

/-- A document has a row exactly when it is visible. -/
theorem loadVisibleDocumentFilters_isSome {tables : SearchTables} {knowledgeBaseId generationId : ℕ}
    {documentId : ℕ} :
    (loadVisibleDocumentFilters tables knowledgeBaseId generationId documentId).isSome = true ↔
      ∃ d ∈ visibleDocuments tables knowledgeBaseId generationId, d.documentId = documentId := by
  simp [loadVisibleDocumentFilters, List.find?_isSome]

end VeloxRag.Retrieval
