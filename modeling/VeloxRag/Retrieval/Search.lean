import VeloxRag.Jobs.FencedWrites
import VeloxRag.Retrieval.Filters
import VeloxRag.Retrieval.Visibility

/-!
# Search

A search asks the vector store of the active generation for candidates, drops those whose document
is not visible in the rows, may let a model reorder the rest, and returns the first of them.  The
three reads of the database see it at three times.

## Main definitions

* `Services` — what a search reads and calls.
* `parseRerankResponse`, `applyRerank` — reordering.
* `search` — the service.
* `retrieval_visibility` — what every answer keeps to.
-/

namespace VeloxRag.Retrieval

open Lib Indexing Api Jobs

variable {P : Platform}

/-! ## Callers -/

inductive Capability
  | ingest
  | retrieve
  | answer
  | manage
deriving DecidableEq, Repr

inductive Principal
  | admin (keyId : ℕ)
  | agent (keyId : ℕ) (capabilities : List Capability) (knowledgeBaseIds : List ℕ)
deriving DecidableEq, Repr

/-- `require_capability`, with the knowledge bases of the key. -/
def requireCapability (actor : Principal) (capability : Capability) : Except SearchError (List ℕ) :=
  match actor with
  | .admin _ => .error (.rejected 403 "INSUFFICIENT_CAPABILITY" "Insufficient capability")
  | .agent _ capabilities knowledgeBaseIds =>
      if capability ∈ capabilities then .ok knowledgeBaseIds
      else .error (.rejected 403 "INSUFFICIENT_CAPABILITY" "Insufficient capability")

/-! ## Reranking -/

/-- An entry of a rerank response: its index if it is an integer, and what `_score_of` finds. -/
structure RerankEntry (P : Platform) where
  index : Option ℤ
  score : Option P.Float

/-- The loop of `_parse_response`. -/
def readRerankEntries (documentCount : ℕ) :
    List ℕ → List (RerankEntry P) → Option (List (ℕ × P.Float))
  | _, [] => some []
  | seen, entry :: entries =>
      match entry.index with
      | some (.ofNat index) =>
          if documentCount ≤ index ∨ index ∈ seen then none
          else do
            let score ← entry.score
            let parsed ← readRerankEntries documentCount (index :: seen) entries
            pure ((index, score) :: parsed)
      | _ => none

/-- `_parse_response`, with the indexes in the order of the key `(-score, index)`. -/
def parseRerankResponse (lt : P.Float → P.Float → Bool) (documentCount : ℕ)
    (entries : List (RerankEntry P)) : Option (List ℕ) :=
  if entries = [] then none
  else
    (readRerankEntries documentCount [] entries).map fun parsed =>
      (parsed.mergeSort fun a b =>
        lt b.2 a.2 || (P.floats.eq a.2 b.2 && decide (a.1 ≤ b.1))).map (·.1)

/-- The reranker as `_apply_rerank` reaches it, for a profile, a query and the texts: the entries of
the response, `none` for a configuration or a call that fails. -/
structure RerankGateway (P : Platform) where
  lt : P.Float → P.Float → Bool
  entries : ℕ → Str → List Str → Option (List (RerankEntry P))

/-- `rerank`. -/
def RerankGateway.rerank (gateway : RerankGateway P) (profile : ℕ) (query : Str)
    (documents : List Str) : Option (List ℕ) := do
  let entries ← gateway.entries profile query documents
  parseRerankResponse gateway.lt documents.length entries

/-! ## Results -/

structure SearchResult (P : Platform) where
  text : Str
  score : P.Float
  documentId : ℕ
  versionId : ℕ
  chunkIndex : ℕ
  title : Option Str
  titlePath : List Str
  filename : Str
  startOffset : ℕ
  endOffset : ℕ
  metadata : JsonMembers P.Float

structure SearchResponse (P : Platform) where
  results : List (SearchResult P)
  generationId : ℕ
  embeddingProfileId : Option ℕ

/-- The document and the version that a point names. -/
def pointIdentity (point : SearchPoint P) : ℕ × ℕ :=
  (point.payload.documentId, point.payload.versionId)

/-- The members of the payload's metadata under the names of the schema. -/
def logicalMetadata (fields : List FilterField) (metadata : JsonMembers P.Float) :
    JsonMembers P.Float :=
  fields.filterMap fun field =>
    (metadata.lookup (field.payloadPath.drop 9)).map fun value => (field.name, value)

/-- `_result`, `none` where the schema of the response refuses it. -/
def makeResult (point : SearchPoint P) (canonical : VisibleDocument) (fields : List FilterField) :
    Option (SearchResult P) :=
  if point.payload.titlePath.length ≤ 64 ∧ 1 ≤ canonical.sourceFilename.length
      ∧ canonical.sourceFilename.length ≤ 255 then
    some {
      text := point.payload.text
      score := point.score
      documentId := canonical.documentId
      versionId := canonical.versionId
      chunkIndex := point.payload.chunkIndex
      title := point.payload.titlePath.getLast?
      titlePath := point.payload.titlePath
      filename := canonical.sourceFilename
      startOffset := point.payload.startOffset
      endOffset := point.payload.endOffset
      metadata := logicalMetadata fields point.payload.metadata }
  else none

/-- A result with the point and the row it was made from. -/
structure Hit (P : Platform) where
  point : SearchPoint P
  document : VisibleDocument
  result : SearchResult P

/-- The loop that makes `visible_results`. -/
def visibleResults (visible : ℕ × ℕ → Option VisibleDocument) (fields : List FilterField) :
    List (SearchPoint P) → Option (List (Hit P))
  | [] => some []
  | point :: points =>
      match visible (pointIdentity point) with
      | none => visibleResults visible fields points
      | some canonical => do
          let result ← makeResult point canonical fields
          let hits ← visibleResults visible fields points
          pure (⟨point, canonical, result⟩ :: hits)

/-- `_apply_rerank`. -/
def applyRerank (gateway : Option (RerankGateway P)) (target : ActiveSearchTarget)
    (command : SearchRequest P) (candidates : List (Hit P)) : Except SearchError (List (Hit P)) :=
  let wanted := candidates.take command.topK
  match gateway with
  | none => .ok wanted
  | some gateway =>
      if command.rerank = false then .ok wanted
      else
        match target.rerankProfileId with
        | none => .error (.rejected 409 "RERANK_NOT_CONFIGURED" "Knowledge base has no rerank profile")
        | some profile =>
            if candidates.isEmpty then .ok wanted
            else
              match gateway.rerank profile command.query (candidates.map (·.result.text)) with
              | none => .ok wanted
              | some ordered => .ok ((ordered.filterMap fun i => candidates[i]?).take command.topK)

/-! ## The service -/

/-- The fields of `_EmbeddingConfiguration` that a search uses. -/
structure EmbeddingConfiguration where
  providerId : ℕ
  credentialId : ℕ
  dimension : ℕ
  dimension_pos : 1 ≤ dimension

structure EmbeddingRuntimeRecord where
  profileId : ℕ
  profileCapability : String
  profileEnabled : Bool
  timeoutSeconds : ℚ
  batchSize : ℤ
  providerId : ℕ
  providerEnabled : Option Bool
  maxConcurrency : Option ℤ
  requestsPerMinute : Option ℤ
  credentialId : ℕ
  credentialExists : Bool

inductive EmbeddingAnswer (P : Platform)
  /-- `EmbeddingGatewayError`. -/
  | failed (retryable : Bool)
  | raised
  | vectors (vectors : List (List P.Float))

/-- What a search reads and calls: the tables when it reads the target, the filtered documents and
the candidates' documents, the readers of the stored configuration, and the remote services. -/
structure Services (P : Platform) where
  pointId : PointIds
  targetTables : SearchTables
  filterTables : SearchTables
  hydrationTables : SearchTables
  parseEmbedding : ActiveSearchTarget → Option EmbeddingConfiguration
  parseFilters : Option Str → Option (List FilterField)
  embeddingRuntime : Option ℕ → ℕ → ℕ → Option EmbeddingRuntimeRecord
  embed : EmbeddingConfiguration → Str → EmbeddingAnswer P
  query : Str → List P.Float → ℕ → QdrantSearchFilter P → QdrantAnswer P
  reranker : Option (RerankGateway P)

/-- `candidate_limit`. -/
def candidateLimit (topK : ℕ) : ℕ := min (max (topK * 4) 20) 200

/-- The checks of `search` on the caller and the target. -/
def searchTarget (services : Services P) (knowledgeBaseId : ℕ) (actor : Principal) :
    Except SearchError ActiveSearchTarget := do
  let knowledgeBaseIds ← requireCapability actor .retrieve
  if knowledgeBaseId ∉ knowledgeBaseIds then
    throw (.rejected 404 "RESOURCE_NOT_FOUND" "Resource not found")
  match getActiveTarget services.targetTables knowledgeBaseId with
  | none =>
      throw (.rejected 503 "ACTIVE_GENERATION_UNAVAILABLE" "Active index generation is unavailable")
  | some target =>
      if target.generationStatus ≠ .active then
        throw (.rejected 503 "ACTIVE_GENERATION_UNAVAILABLE"
          "Active index generation is unavailable")
      else if target.knowledgeBaseStatus ≠ .active then
        throw (.rejected 503 "KNOWLEDGE_BASE_UNAVAILABLE" "Knowledge base is unavailable")
      else if target.knowledgeBaseId ≠ knowledgeBaseId
          ∨ target.qdrantCollectionName ≠ collectionName knowledgeBaseId target.generationId then
        throw configurationUnavailable
      else pure target

/-- `EmbeddingOperationalConfig` accepts the limits. -/
def operationalLimits (runtime : EmbeddingRuntimeRecord) (maxConcurrency requestsPerMinute : ℤ) :
    Bool :=
  decide (0 < runtime.timeoutSeconds ∧ runtime.timeoutSeconds ≤ 600)
    && decide (1 ≤ maxConcurrency ∧ maxConcurrency ≤ 10000)
    && decide (1 ≤ requestsPerMinute ∧ requestsPerMinute ≤ 1000000)
    && decide (1 ≤ runtime.batchSize ∧ runtime.batchSize ≤ 10000)

/-- The checks of `search` on the model profile, the provider and the credential. -/
def checkRuntime (services : Services P) (target : ActiveSearchTarget)
    (embedding : EmbeddingConfiguration) : Except SearchError Unit :=
  let unavailable := .rejected 503 "MODEL_PROFILE_UNAVAILABLE" "Model profile is unavailable"
  let providerUnavailable :=
    .rejected 503 "PROVIDER_CONFIG_UNAVAILABLE" "Provider configuration is unavailable"
  match services.embeddingRuntime target.embeddingProfileId embedding.providerId
      embedding.credentialId with
  | none => .error unavailable
  | some runtime =>
      if some runtime.profileId ≠ target.embeddingProfileId ∨ runtime.profileCapability ≠ "embedding"
          ∨ runtime.profileEnabled = false then .error unavailable
      else if runtime.providerId ≠ embedding.providerId ∨ runtime.providerEnabled ≠ some true then
        .error providerUnavailable
      else
        match runtime.maxConcurrency, runtime.requestsPerMinute with
        | some maxConcurrency, some requestsPerMinute =>
            if runtime.credentialId ≠ embedding.credentialId ∨ runtime.credentialExists = false then
              .error (.rejected 503 "PROVIDER_CREDENTIAL_UNAVAILABLE"
                "Provider credential is unavailable")
            else if operationalLimits runtime maxConcurrency requestsPerMinute then .ok ()
            else .error configurationUnavailable
        | _, _ => .error providerUnavailable

/-- The filter that is sent, narrowed to the visible documents of a filter by documents; `none` if
there are none. -/
def visibleFilter (services : Services P) (knowledgeBaseId generationId : ℕ)
    (filters : Option (SearchFilters P)) (compiled : QdrantSearchFilter P) :
    Except SearchError (Option (QdrantSearchFilter P)) :=
  match filters with
  | none => .ok (some compiled)
  | some filters =>
      if filters.documentIds.isEmpty then .ok (some compiled)
      else
        let visible := filters.documentIds.filter fun documentId =>
          (loadVisibleDocumentFilters services.filterTables knowledgeBaseId generationId
            documentId).isSome
        if visible.isEmpty then .ok none
        else do
          let filter ← QdrantSearchFilter.make visible compiled.conditions
          pure (some filter)

/-- The vector of the query. -/
def queryVector (services : Services P) (embedding : EmbeddingConfiguration) (query : Str) :
    Except SearchError (List P.Float) :=
  match services.embed embedding query with
  | .failed retryable =>
      .error (.business ⟨503, "QUERY_EMBEDDING_FAILED", "Query embedding failed"⟩ retryable)
  | .raised => .error .raised
  | .vectors [vector] =>
      if vector.length = embedding.dimension ∧ vector.all P.floats.isFinite = true then .ok vector
      else .error configurationUnavailable
  | .vectors _ => .error configurationUnavailable

/-- The points that the vector store gives. -/
def queryPoints (services : Services P) (target : ActiveSearchTarget) (vector : List P.Float)
    (topK : ℕ) (filter : QdrantSearchFilter P) : Except SearchError (List (SearchPoint P)) :=
  match searchPoints services.pointId target.knowledgeBaseId (candidateLimit topK)
      (services.query target.qdrantCollectionName vector (candidateLimit topK) filter) with
  | .ok points => .ok points
  | .error .transient =>
      .error (.business ⟨503, "RETRIEVAL_UNAVAILABLE", "Retrieval is unavailable"⟩ true)
  | .error .configuration => .error configurationUnavailable

def orRaise {α : Type} (error : SearchError) : Option α → Except SearchError α
  | none => .error error
  | some a => .ok a

/-- The results for the points of the vector store. -/
def hydrate (services : Services P) (target : ActiveSearchTarget) (command : SearchRequest P)
    (fields : List FilterField) (points : List (SearchPoint P)) : Except SearchError (List (Hit P)) :=
  match visibleResults (loadVisibleDocuments services.hydrationTables target.knowledgeBaseId
      target.generationId) fields points with
  | none => .error .raised
  | some hits => applyRerank services.reranker target command hits

/-- `search`. -/
def search (services : Services P) (knowledgeBaseId : ℕ) (actor : Principal)
    (command : SearchRequest P) : Except SearchError (SearchResponse P) := do
  let target ← searchTarget services knowledgeBaseId actor
  let embedding ← orRaise configurationUnavailable (services.parseEmbedding target)
  let fields ← orRaise configurationUnavailable (services.parseFilters target.filterSchemaSnapshot)
  let compiled ← compileSearchFilter command.filters fields
  checkRuntime services target embedding
  match ← visibleFilter services target.knowledgeBaseId target.generationId command.filters
      compiled with
  | none => pure ⟨[], target.generationId, target.embeddingProfileId⟩
  | some filter => do
      let vector ← queryVector services embedding command.query
      let points ← queryPoints services target vector command.topK filter
      let hits ← hydrate services target command fields points
      pure ⟨hits.map (·.result), target.generationId, target.embeddingProfileId⟩

/-! ## Reranking keeps the candidates -/

theorem readRerankEntries_ok {documentCount : ℕ} {entries : List (RerankEntry P)} {seen : List ℕ}
    {parsed : List (ℕ × P.Float)} (h : readRerankEntries documentCount seen entries = some parsed) :
    (parsed.map (·.1)).Nodup ∧ ∀ i ∈ parsed.map (·.1), i < documentCount ∧ i ∉ seen := by
  induction entries generalizing seen parsed with
  | nil =>
      cases h
      simp
  | cons entry entries ih =>
      rw [readRerankEntries] at h
      split at h
      · rename_i index _
        split at h
        · cases h
        · rename_i hnot
          rw [not_or, not_le] at hnot
          obtain ⟨score, -, h⟩ := Option.bind_eq_some_iff.mp h
          obtain ⟨rest, hrest, h⟩ := Option.bind_eq_some_iff.mp h
          cases h
          obtain ⟨hnodup, hall⟩ := ih hrest
          constructor
          · rw [List.map_cons, List.nodup_cons]
            exact ⟨fun hmem => (hall _ hmem).2 List.mem_cons_self, hnodup⟩
          · intro i hi
            rcases List.mem_cons.mp hi with rfl | hi
            · exact hnot
            · exact ⟨(hall i hi).1, fun hmem => (hall i hi).2 (List.mem_cons_of_mem _ hmem)⟩
      · cases h

/-- The order of a response names every document at most once. -/
theorem parseRerankResponse_ok {lt : P.Float → P.Float → Bool} {documentCount : ℕ}
    {entries : List (RerankEntry P)} {ordered : List ℕ}
    (h : parseRerankResponse lt documentCount entries = some ordered) :
    ordered.Nodup ∧ ∀ i ∈ ordered, i < documentCount := by
  rw [parseRerankResponse] at h
  split at h
  · cases h
  · obtain ⟨parsed, hparsed, rfl⟩ := Option.map_eq_some_iff.mp h
    obtain ⟨hnodup, hall⟩ := readRerankEntries_ok hparsed
    have hperm := (List.mergeSort_perm parsed fun a b =>
      lt b.2 a.2 || (P.floats.eq a.2 b.2 && decide (a.1 ≤ b.1))).map (·.1)
    constructor
    · exact hperm.nodup_iff.mpr hnodup
    · exact fun i hi => (hall i (hperm.mem_iff.mp hi)).1

theorem RerankGateway.rerank_ok {gateway : RerankGateway P} {profile : ℕ} {query : Str}
    {documents : List Str} {ordered : List ℕ}
    (h : gateway.rerank profile query documents = some ordered) :
    ordered.Nodup ∧ ∀ i ∈ ordered, i < documents.length := by
  obtain ⟨entries, -, h⟩ := Option.bind_eq_some_iff.mp h
  exact parseRerankResponse_ok h

/-- Picking different positions of a list without repetitions gives a list without repetitions. -/
theorem nodup_picked {α β : Type} {l : List α} {f : α → β} (hl : (l.map f).Nodup) {ordered : List ℕ}
    (hordered : ordered.Nodup) : ((ordered.filterMap fun i => l[i]?).map f).Nodup := by
  rw [List.map_filterMap]
  refine hordered.filterMap ?_
  intro i j b hi hj
  obtain ⟨a, ha, rfl⟩ := Option.map_eq_some_iff.mp hi
  obtain ⟨a', ha', heq⟩ := Option.map_eq_some_iff.mp hj
  have hi' : (l.map f)[i]? = some (f a) := by rw [List.getElem?_map, ha, Option.map_some]
  have hj' : (l.map f)[j]? = some (f a) := by rw [List.getElem?_map, ha', Option.map_some, heq]
  obtain ⟨hlt, -⟩ := List.getElem?_eq_some_iff.mp hi'
  exact (List.getElem?_inj hlt hl).mp (hi'.trans hj'.symm)

/-- The reranker was asked about the texts of these candidates and answered with an order. -/
def Reranked (gateway : Option (RerankGateway P)) (target : ActiveSearchTarget)
    (command : SearchRequest P) (candidates : List (Hit P)) : Prop :=
  command.rerank = true ∧ ∃ g profile ordered, gateway = some g
    ∧ target.rerankProfileId = some profile
    ∧ g.rerank profile command.query (candidates.map (·.result.text)) = some ordered

/-- **What `_apply_rerank` returns**: candidates, none twice, no more than asked for, and in their
order unless the reranker answered. -/
theorem applyRerank_ok {gateway : Option (RerankGateway P)} {target : ActiveSearchTarget}
    {command : SearchRequest P} {candidates hits : List (Hit P)}
    (h : applyRerank gateway target command candidates = .ok hits)
    (hnodup : (candidates.map (·.point.id)).Nodup) :
    hits ⊆ candidates ∧ (hits.map (·.point.id)).Nodup ∧ hits.length ≤ command.topK
      ∧ (hits.Sublist candidates ∨ Reranked gateway target command candidates) := by
  have taken : candidates.take command.topK ⊆ candidates
      ∧ ((candidates.take command.topK).map (·.point.id)).Nodup
      ∧ (candidates.take command.topK).length ≤ command.topK
      ∧ ((candidates.take command.topK).Sublist candidates
        ∨ Reranked gateway target command candidates) := by
    have hsub := List.take_sublist command.topK candidates
    exact ⟨hsub.subset, (hsub.map _).nodup hnodup, List.length_take_le _ _, .inl hsub⟩
  cases gateway with
  | none =>
      cases h
      exact taken
  | some g =>
      dsimp only [applyRerank] at h
      split at h
      · cases h
        exact taken
      · rename_i hrerank
        split at h
        · cases h
        · rename_i profile hprofile
          split at h
          · cases h
            exact taken
          · split at h
            · cases h
              exact taken
            · rename_i ordered hordered
              cases h
              obtain ⟨hdistinct, -⟩ := RerankGateway.rerank_ok hordered
              have hsub := List.take_sublist command.topK
                (ordered.filterMap fun i => candidates[i]?)
              refine ⟨?_, (hsub.map _).nodup (nodup_picked hnodup hdistinct),
                List.length_take_le _ _, .inr ?_⟩
              · intro hit hhit
                obtain ⟨i, -, hi⟩ := List.mem_filterMap.mp (hsub.subset hhit)
                exact List.mem_of_getElem? hi
              · refine ⟨?_, g, profile, ordered, rfl, hprofile, hordered⟩
                simpa using hrerank

/-! ## Hydration -/

/-- Every hit comes from a candidate, in the order of the candidates, and was found by the lookup of
its pair. -/
theorem visibleResults_ok {visible : ℕ × ℕ → Option VisibleDocument} {fields : List FilterField}
    {points : List (SearchPoint P)} {hits : List (Hit P)}
    (h : visibleResults visible fields points = some hits) :
    (hits.map (·.point)).Sublist points ∧ ∀ hit ∈ hits,
      visible (pointIdentity hit.point) = some hit.document
        ∧ makeResult hit.point hit.document fields = some hit.result := by
  induction points generalizing hits with
  | nil =>
      cases h
      simp
  | cons point points ih =>
      rw [visibleResults] at h
      split at h
      · obtain ⟨hsub, hall⟩ := ih h
        exact ⟨hsub.cons point, hall⟩
      · rename_i canonical hcanonical
        obtain ⟨result, hresult, h⟩ := Option.bind_eq_some_iff.mp h
        obtain ⟨rest, hrest, h⟩ := Option.bind_eq_some_iff.mp h
        cases h
        obtain ⟨hsub, hall⟩ := ih hrest
        refine ⟨hsub.cons_cons point, ?_⟩
        intro hit hhit
        rcases List.mem_cons.mp hhit with rfl | hhit
        · exact ⟨hcanonical, hresult⟩
        · exact hall hit hhit

/-- The result of a point carries the pair of the row, and the rest is the point's. -/
theorem makeResult_ok {point : SearchPoint P} {canonical : VisibleDocument}
    {fields : List FilterField} {result : SearchResult P}
    (h : makeResult point canonical fields = some result) :
    (result.documentId, result.versionId) = canonical.identity
      ∧ result.text = point.payload.text ∧ result.startOffset = point.payload.startOffset
      ∧ result.endOffset = point.payload.endOffset := by
  rw [makeResult] at h
  split at h
  · cases h
    exact ⟨rfl, rfl, rfl, rfl⟩
  · cases h

/-! ## Every answer -/

/-- A document is visible in the knowledge base, as the tables have it. -/
def DocumentVisible (tables : SearchTables) (knowledgeBaseId generationId documentId : ℕ) : Prop :=
  ∃ d ∈ visibleDocuments tables knowledgeBaseId generationId, d.documentId = documentId

theorem searchTarget_ok {services : Services P} {knowledgeBaseId : ℕ} {actor : Principal}
    {target : ActiveSearchTarget} (h : searchTarget services knowledgeBaseId actor = .ok target) :
    getActiveTarget services.targetTables knowledgeBaseId = some target
      ∧ target.knowledgeBaseId = knowledgeBaseId := by
  simp only [searchTarget, bind, Except.bind] at h
  split at h
  · cases h
  · split at h
    · cases h
    · split at h
      · cases h
      · rename_i found hfound
        split at h
        · cases h
        · split at h
          · cases h
          · split at h
            · cases h
            · rename_i hsame
              cases h
              rw [not_or, not_not] at hsame
              exact ⟨hfound, hsame.1⟩

/-- A filter by documents is sent with some of its documents, all of them visible, or the search
ends without a result. -/
theorem visibleFilter_ok {services : Services P} {knowledgeBaseId generationId : ℕ}
    {filters : SearchFilters P} {compiled : QdrantSearchFilter P}
    {filter : Option (QdrantSearchFilter P)}
    (h : visibleFilter services knowledgeBaseId generationId (some filters) compiled = .ok filter)
    (hne : filters.documentIds ≠ []) :
    (filter = none ∧ ∀ id ∈ filters.documentIds,
      ¬ DocumentVisible services.filterTables knowledgeBaseId generationId id)
    ∨ ∃ sent, filter = some sent ∧ sent.documentIds ≠ [] ∧ ∀ id ∈ sent.documentIds,
      id ∈ filters.documentIds
        ∧ DocumentVisible services.filterTables knowledgeBaseId generationId id := by
  dsimp only [visibleFilter] at h
  rw [if_neg (by simpa using hne)] at h
  split at h
  · rename_i hempty
    cases h
    refine .inl ⟨rfl, fun id hid hvisible => ?_⟩
    have hnone := List.filter_eq_nil_iff.mp (List.isEmpty_iff.mp hempty) id hid
    exact hnone (loadVisibleDocumentFilters_isSome.mpr hvisible)
  · rename_i hsome
    cases hmake : QdrantSearchFilter.make (filters.documentIds.filter fun documentId =>
        (loadVisibleDocumentFilters services.filterTables knowledgeBaseId generationId
          documentId).isSome) compiled.conditions with
    | error e =>
        rw [hmake] at h
        cases h
    | ok sent =>
        rw [hmake] at h
        cases h
        have hids := QdrantSearchFilter.make_documentIds hmake
        refine .inr ⟨sent, rfl, ?_, fun id hid => ?_⟩
        · rw [hids]
          exact fun hnil => hsome (List.isEmpty_iff.mpr hnil)
        · rw [hids] at hid
          obtain ⟨hmem, hvisible⟩ := List.mem_filter.mp hid
          exact ⟨hmem, loadVisibleDocumentFilters_isSome.mp hvisible⟩

theorem queryPoints_ok {services : Services P} {target : ActiveSearchTarget} {vector : List P.Float}
    {topK : ℕ} {filter : QdrantSearchFilter P} {points : List (SearchPoint P)}
    (h : queryPoints services target vector topK filter = .ok points) :
    (points.map (·.id)).Nodup := by
  rw [queryPoints] at h
  split at h
  · rename_i found hfound
    cases h
    exact (searchPoints_ok hfound).2.1
  · cases h
  · cases h

/-- A point of a search has the checked payload of a point that the vector store answered with. -/
theorem queryPoints_mem {services : Services P} {target : ActiveSearchTarget} {vector : List P.Float}
    {topK : ℕ} {filter : QdrantSearchFilter P} {points : List (SearchPoint P)}
    (h : queryPoints services target vector topK filter = .ok points) {point : SearchPoint P}
    (hpoint : point ∈ points) :
    ∃ raws raw payload, services.query target.qdrantCollectionName vector (candidateLimit topK)
        filter = .points raws ∧ some raw ∈ raws ∧ raw.payload = some payload ∧
      validatedPointPayload services.pointId point.id payload = some point.payload := by
  rw [queryPoints] at h
  split at h
  · rename_i found hfound
    cases h
    unfold searchPoints at hfound
    split at hfound
    · cases hfound
    · cases hfound
    · cases hfound
    · rename_i raws hraws
      split at hfound
      · cases hfound
      · split at hfound
        · cases hfound
        · rename_i read hread
          cases hfound
          obtain ⟨raw, payload, hmem, hrest⟩ := readPoints_mem hread hpoint
          exact ⟨raws, raw, payload, hraws, hmem, hrest⟩
  · cases h
  · cases h

/-- Every hit is the result of its point. -/
theorem hydrate_makeResult {services : Services P} {target : ActiveSearchTarget}
    {vector : List P.Float} {command : SearchRequest P} {sent : QdrantSearchFilter P}
    {points : List (SearchPoint P)} {fields : List FilterField} {hits : List (Hit P)}
    (hpoints : queryPoints services target vector command.topK sent = .ok points)
    (h : hydrate services target command fields points = .ok hits) :
    ∀ hit ∈ hits, makeResult hit.point hit.document fields = some hit.result := by
  rw [hydrate] at h
  split at h
  · cases h
  · rename_i candidates hcandidates
    obtain ⟨hsub, hall⟩ := visibleResults_ok hcandidates
    have hnodup : (candidates.map (·.point.id)).Nodup := by
      have := (hsub.map (·.id)).nodup (queryPoints_ok hpoints)
      rwa [List.map_map] at this
    exact fun hit hhit => (hall hit ((applyRerank_ok h hnodup).1 hhit)).2

/-- The hits of a search, against the points of the vector store. -/
theorem hydrate_ok {services : Services P} {target : ActiveSearchTarget} {vector : List P.Float}
    {command : SearchRequest P} {sent : QdrantSearchFilter P} {points : List (SearchPoint P)}
    {fields : List FilterField} {hits : List (Hit P)}
    (hpoints : queryPoints services target vector command.topK sent = .ok points)
    (h : hydrate services target command fields points = .ok hits) :
    (∀ hit ∈ hits, hit.point ∈ points
      ∧ hit.document ∈ visibleDocuments services.hydrationTables target.knowledgeBaseId
          target.generationId
      ∧ pointIdentity hit.point = hit.document.identity
      ∧ (hit.result.documentId, hit.result.versionId) = hit.document.identity)
    ∧ (hits.map (·.point.id)).Nodup ∧ hits.length ≤ command.topK
    ∧ ∃ candidates, visibleResults (loadVisibleDocuments services.hydrationTables
          target.knowledgeBaseId target.generationId) fields points = some candidates
      ∧ ((hits.map (·.point)).Sublist points
        ∨ Reranked services.reranker target command candidates) := by
  rw [hydrate] at h
  split at h
  · cases h
  · rename_i candidates hcandidates
    obtain ⟨hsub, hall⟩ := visibleResults_ok hcandidates
    have hnodup : (candidates.map (·.point.id)).Nodup := by
      have := (hsub.map (·.id)).nodup (queryPoints_ok hpoints)
      rwa [List.map_map] at this
    obtain ⟨hmem, hdistinct, hlength, horder⟩ := applyRerank_ok h hnodup
    refine ⟨fun hit hhit => ?_, hdistinct, hlength, candidates, hcandidates, ?_⟩
    · obtain ⟨hfound, hresult⟩ := hall hit (hmem hhit)
      obtain ⟨hvisible, hidentity⟩ := loadVisibleDocuments_some hfound
      exact ⟨hsub.subset (List.mem_map_of_mem (hmem hhit)), hvisible, hidentity.symm,
        (makeResult_ok hresult).1⟩
    · rcases horder with horder | hreranked
      · exact .inl ((horder.map _).trans hsub)
      · exact .inr hreranked

/-- What a search has done when it answers: the filter was empty, or the candidates were hydrated. -/
theorem search_ok {services : Services P} {knowledgeBaseId : ℕ} {actor : Principal}
    {command : SearchRequest P} {response : SearchResponse P}
    (h : search services knowledgeBaseId actor command = .ok response) :
    ∃ target compiled filter, getActiveTarget services.targetTables knowledgeBaseId = some target
      ∧ target.knowledgeBaseId = knowledgeBaseId
      ∧ visibleFilter services knowledgeBaseId target.generationId command.filters compiled
        = .ok filter
      ∧ response.generationId = target.generationId
      ∧ match filter with
        | none => response.results = []
            ∧ ∀ query, search { services with query } knowledgeBaseId actor command = .ok response
        | some sent => ∃ vector points fields hits,
            queryPoints services target vector command.topK sent = .ok points
              ∧ hydrate services target command fields points = .ok hits
              ∧ response.results = hits.map (·.result) := by
  obtain ⟨target, htarget, h⟩ := bind_eq_ok.mp h
  obtain ⟨embedding, hembedding, h⟩ := bind_eq_ok.mp h
  obtain ⟨fields, hfields, h⟩ := bind_eq_ok.mp h
  obtain ⟨compiled, hcompiled, h⟩ := bind_eq_ok.mp h
  obtain ⟨⟨⟩, hruntime, h⟩ := bind_eq_ok.mp h
  obtain ⟨filter, hfilter, h⟩ := bind_eq_ok.mp h
  obtain ⟨hactive, hkb⟩ := searchTarget_ok htarget
  rw [hkb] at hfilter
  refine ⟨target, compiled, filter, hactive, hkb, hfilter, ?_⟩
  cases filter with
  | none =>
      cases h
      refine ⟨rfl, rfl, fun query => ?_⟩
      -- No step before the empty answer asks the vector store.
      refine bind_eq_ok.mpr ⟨target, htarget, bind_eq_ok.mpr ⟨embedding, hembedding,
        bind_eq_ok.mpr ⟨fields, hfields, bind_eq_ok.mpr ⟨compiled, hcompiled,
          bind_eq_ok.mpr ⟨(), hruntime, bind_eq_ok.mpr ⟨none, ?_, rfl⟩⟩⟩⟩⟩⟩
      rw [hkb]
      exact hfilter
  | some sent =>
      obtain ⟨vector, -, h⟩ := bind_eq_ok.mp h
      obtain ⟨points, hpoints, h⟩ := bind_eq_ok.mp h
      obtain ⟨hits, hhits, h⟩ := bind_eq_ok.mp h
      cases h
      exact ⟨rfl, vector, points, fields, hits, hpoints, hhits, rfl⟩

/-- **Retrieval visibility.**  Whatever the vector store and the reranker answer, the results of a
search are made from points of the vector store, no point twice and at most `top_k`; each carries a
document and a version that the rows show in the knowledge base when the candidates are hydrated,
the pair that its point names.  The points are in the order of the vector store unless the reranker
answered with an order of the candidates.  A filter by documents is sent with visible documents of the filter only, and when none of
them is visible the answer is empty, whatever the vector store holds. -/
theorem retrieval_visibility {services : Services P} {knowledgeBaseId : ℕ} {actor : Principal}
    {command : SearchRequest P} {response : SearchResponse P}
    (h : search services knowledgeBaseId actor command = .ok response) :
    ∃ target, getActiveTarget services.targetTables knowledgeBaseId = some target
      ∧ (response.results = [] ∨ ∃ sent vector points fields candidates, ∃ hits : List (Hit P),
          queryPoints services target vector command.topK sent = .ok points
          ∧ visibleResults (loadVisibleDocuments services.hydrationTables knowledgeBaseId
              target.generationId) fields points = some candidates
          ∧ response.results = hits.map (·.result)
          ∧ (∀ hit ∈ hits, hit.point ∈ points
            ∧ hit.document ∈ visibleDocuments services.hydrationTables knowledgeBaseId
                target.generationId
            ∧ pointIdentity hit.point = hit.document.identity
            ∧ (hit.result.documentId, hit.result.versionId) = hit.document.identity)
          ∧ (hits.map (·.point.id)).Nodup
          ∧ hits.length ≤ command.topK
          ∧ ((hits.map (·.point)).Sublist points
            ∨ Reranked services.reranker target command candidates)
          ∧ ∀ filters, command.filters = some filters → filters.documentIds ≠ [] →
              sent.documentIds ≠ [] ∧ ∀ id ∈ sent.documentIds, id ∈ filters.documentIds
                ∧ DocumentVisible services.filterTables knowledgeBaseId target.generationId id)
      ∧ ∀ filters, command.filters = some filters → filters.documentIds ≠ [] →
          (∀ id ∈ filters.documentIds,
            ¬ DocumentVisible services.filterTables knowledgeBaseId target.generationId id) →
          response.results = []
            ∧ ∀ query, search { services with query } knowledgeBaseId actor command = .ok response := by
  obtain ⟨target, compiled, filter, hactive, hkb, hfilter, -, hrest⟩ := search_ok h
  refine ⟨target, hactive, ?_, ?_⟩
  · cases filter with
    | none => exact .inl hrest.1
    | some sent =>
        obtain ⟨vector, points, fields, hits, hpoints, hhits, hresults⟩ := hrest
        obtain ⟨hmem, hnodup, hlength, candidates, hcandidates, horder⟩ := hydrate_ok hpoints hhits
        rw [hkb] at hcandidates
        refine .inr ⟨sent, vector, points, fields, candidates, hits, hpoints, hcandidates, hresults, ?_,
          hnodup, hlength, horder, ?_⟩
        · rw [← hkb]
          exact hmem
        · intro filters hfilters hne
          rw [hfilters] at hfilter
          rcases visibleFilter_ok hfilter hne with ⟨hnone, -⟩ | ⟨sent', hsent, hids⟩
          · cases hnone
          · cases hsent
            exact hids
  · intro filters hfilters hne hinvisible
    rw [hfilters] at hfilter
    rcases visibleFilter_ok hfilter hne with ⟨rfl, -⟩ | ⟨sent, rfl, hsent, hids⟩
    · exact hrest
    · obtain ⟨id, hid⟩ := List.exists_mem_of_ne_nil _ hsent
      exact absurd (hids id hid).2 (hinvisible id (hids id hid).1)

/-! ## A search -/

/-- A platform whose one floating-point number is zero. -/
def samplePlatform : Platform where
  Float := Unit
  floats := {
    isFinite := fun _ => true
    repr := fun _ => "0.0".toList
    ofLiteral := fun _ => ()
    nan := ()
    infinity := ()
    negInfinity := ()
    eq := fun _ _ => true
    eqInt := fun _ n => decide (n = 0) }
  floatLaws := by
    refine ⟨fun _ _ => ⟨['0'], ['.', '0'], [], rfl, ?_, ?_, .inl rfl, by simp⟩, by simp, by simp⟩
    · exact ⟨[], ['0'], rfl, .inl rfl, by simp, by simp [isDigit], .inl rfl⟩
    · exact .inr ⟨['0'], rfl, by simp, by simp [isDigit]⟩
  sha256 := Platform.ascii.sha256
  isSha256_sha256 := Platform.ascii.isSha256_sha256
  unicode := Platform.ascii.unicode

/-- The point of a chunk with the text `ok`. -/
def samplePoint (id documentId versionId : ℕ) : RawPoint samplePlatform where
  id := .text (Ingestion.uuidText id)
  score := ()
  payload := some {
    members := [
      ("knowledge_base_id".toList, .str (Ingestion.uuidText 1)),
      ("document_id".toList, .str (Ingestion.uuidText documentId)),
      ("version_id".toList, .str (Ingestion.uuidText versionId)),
      ("chunk_index".toList, .int 0),
      ("chunk_hash".toList, .str (List.replicate 64 'a')),
      ("text".toList, .str "ok".toList),
      ("title_path".toList, .arr []),
      ("start_offset".toList, .int 0),
      ("end_offset".toList, .int 2),
      ("metadata".toList, .obj [])]
    unique := by
      refine ⟨pointPayloadKeys_nodup, ?_⟩
      simp [Json.UniqueKeys, Json.UniqueKeysMembers, Json.UniqueKeysItems] }

/-- One document with one chunk. -/
def sampleTables : SearchTables where
  db := { Db.empty with
    knowledgeBases := [⟨1, .active, some 10, none, 1, 0, []⟩]
    generations := [⟨10, 1, collectionName 1 10, .active, "h".toList, some 5, some [], some "h".toList,
      some [], some 0, 1, some 1, none, some 1, some 1, some 1, some 1, none, none⟩]
    documents := [⟨2, 1, some "c".toList, some 20, none, .active, none, [], none⟩]
    versions := [⟨20, 2, none, ⟨[], "c".toList, none, none⟩, ⟨none, none, []⟩, none, none,
      ⟨none, none, none⟩, none, some "m".toList, none, some 1, .ready, some 1⟩]
    indexStates := [⟨20, 10, .validated, some 1, some 1, none, none, some 1, some "m".toList,
      some "h".toList, 1⟩] }
  displayName := fun _ => "a.txt".toList
  rerankProfileId := fun _ => none

/-- The vector store returns a point of the document and one of a document that is gone. -/
def sampleServices : Services samplePlatform where
  pointId := fun versionId _ _ => versionId
  targetTables := sampleTables
  filterTables := sampleTables
  hydrationTables := sampleTables
  parseEmbedding := fun _ => some ⟨3, 4, 1, Nat.one_pos⟩
  parseFilters := fun _ => some []
  embeddingRuntime := fun _ _ _ =>
    some ⟨5, "embedding", true, 60, 1, 3, some true, some 1, some 1, 4, true⟩
  embed := fun _ _ => .vectors [[()]]
  query := fun _ _ _ _ => .points [some (samplePoint 30 3 30), some (samplePoint 20 2 20)]
  reranker := none

def sampleSearch : SearchRequest samplePlatform where
  query := "q".toList
  topK := 10
  filters := none
  rerank := false
  query_length := by decide
  topK_le := by decide

def sampleAgent : Principal := .agent 6 [.retrieve] [1]

/-- The point of the visible document is the answer. -/
theorem search_sample : ((search sampleServices 1 sampleAgent sampleSearch).toOption.map fun r =>
    r.results.map fun result => (result.documentId, result.versionId)) = some [(2, 20)] := by
  decide +kernel

theorem retrieval_visibility_sample :
    ∃ response, search sampleServices 1 sampleAgent sampleSearch = .ok response
      ∧ response.results ≠ [] ∧ ∃ target, getActiveTarget sampleTables 1 = some target := by
  cases h : search sampleServices 1 sampleAgent sampleSearch with
  | error e =>
      have := search_sample
      rw [h] at this
      cases this
  | ok response =>
      have hsome := search_sample
      rw [h] at hsome
      obtain ⟨target, htarget, -⟩ := retrieval_visibility h
      refine ⟨response, rfl, fun hnil => ?_, target, htarget⟩
      simp only [Except.toOption, Option.map_some, hnil, List.map_nil, Option.some.injEq] at hsome
      cases hsome

end VeloxRag.Retrieval
