import VeloxRag.Ingestion.IndexedChunks
import VeloxRag.Ingestion.ManifestBudget
import VeloxRag.Metadata.KnowledgeBases
import VeloxRag.Retrieval.Search

/-!
# Reading the text behind a citation

A search result names a span of the normalized text of a document by code points.  A caller may read
any span of that text: the service fetches the whole parsed object of the current version, verifies
it against the recorded checksum, decodes it and cuts the span out.

## Main definitions

* `getDocument`, `getCurrentVersion` — the rows.
* `StoredObject`, `readBytes` — the object store.
* `readDocumentContent` — the service.
* `citation_exact` — the span of a result is the text of the result.
-/

namespace VeloxRag.Metadata

open Lib Jobs Ingestion Indexing Retrieval

variable {P : Platform}

/-! ## Rows -/

/-- `get_document`, for a key with the knowledge bases `scope`. -/
def getDocument (db : Db) (scope : List ℕ) (documentId : ℕ) : Option Document :=
  db.documents.find? fun d =>
    decide (d.id = documentId) && decide (d.deletedAt = none) && decide (d.knowledgeBaseId ∈ scope)
      && (db.knowledgeBase? d.knowledgeBaseId).any fun kb => decide (kb.status ≠ .deleting)

/-- `get_current_version`: the version the document points at, not the newest one. -/
def getCurrentVersion (db : Db) (scope : List ℕ) (documentId : ℕ) : Option Version := do
  let document ← getDocument db scope documentId
  db.versions.find? fun v =>
    decide (v.documentId = document.id) && decide (some v.id = document.currentVersionId)

/-! ## The object store -/

structure StoredObject where
  data : Bytes
  /-- The checksum in the metadata. -/
  checksum : Option Str
  hasEtag : Bool
deriving DecidableEq

/-- `read_bytes`, `none` for what it raises.  The keys the service reads are well formed. -/
def readBytes (P : Platform) (store : Str → Option StoredObject) (key expectedChecksum : Str)
    (maxBytes : ℕ) : Option Bytes :=
  if isSha256 expectedChecksum = false ∨ maxBytes = 0 then none
  else
    match store key with
    | none => none
    | some object =>
        if object.data.length ≤ maxBytes ∧ object.checksum = some expectedChecksum ∧
            object.hasEtag = true ∧ P.sha256 object.data = expectedChecksum then some object.data
        else none

/-! ## The service -/

structure AgentPrincipal where
  keyId : ℕ
  capabilities : List Capability
  knowledgeBaseIds : List ℕ
  rawFileRead : Bool
deriving DecidableEq, Repr

/-- `_DOCUMENT_READ_CAPABILITIES`. -/
def documentReadCapabilities : List Capability := [.manage, .ingest, .retrieve]

def insufficientCapability : TxError := .business 403 "INSUFFICIENT_CAPABILITY"
def contentInvalid : TxError := .business 422 "VALIDATION_ERROR"
def contentUnreadable : TxError := .business 500 "INTERNAL_ERROR"

/-- `require_raw_file_read`, for a knowledge base that exists: the flag is checked last. -/
def requireRawFileRead (actor : AgentPrincipal) (knowledgeBaseId : ℕ) : Except TxError Unit :=
  if knowledgeBaseId ∉ actor.knowledgeBaseIds then .error notFound
  else if documentReadCapabilities.any (· ∈ actor.capabilities) = false then
    .error insufficientCapability
  else if actor.rawFileRead = false then .error insufficientCapability
  else .ok ()

structure DocumentContent where
  documentId : ℕ
  versionId : ℕ
  startOffset : ℕ
  endOffset : ℕ
  totalCodepoints : ℕ
  text : Str
deriving DecidableEq, Repr

/-- The end of `read_document_content`: the span is clamped to the text, not rejected. -/
def contentOf (documentId versionId : ℕ) (text : Str) (startOffset endOffset : ℕ) : DocumentContent :=
  let start := min startOffset text.length
  let finish := min endOffset text.length
  ⟨documentId, versionId, start, finish, text.length, slice text start finish⟩

/-- `read_document_content`; the two statements may find different rows. -/
def readDocumentContent (P : Platform) (settings : UploadSettings)
    (store : Option (Str → Option StoredObject)) (documents versions : Db) (scope : List ℕ)
    (actor : AgentPrincipal) (documentId : ℕ) (startOffset endOffset : ℤ) :
    Except TxError DocumentContent :=
  if startOffset < 0 ∨ endOffset < startOffset then .error contentInvalid
  else
    match store with
    | none => .error contentUnreadable
    | some store =>
        match getDocument documents scope documentId with
        | none => .error notFound
        | some row =>
            match requireRawFileRead actor row.knowledgeBaseId with
            | .error e => .error e
            | .ok () =>
                match getCurrentVersion versions scope documentId with
                | none => .error stateConflict
                | some version =>
                    match version.parsedObjectChecksum with
                    | none => .error stateConflict
                    | some checksum =>
                        match (readBytes P store (parsedTextObjectKey row.knowledgeBaseId row.id
                            version.id) checksum settings.maxUploadBytes).bind decode? with
                        | none => .error contentUnreadable
                        | some text =>
                            .ok (contentOf row.id version.id text startOffset.toNat endOffset.toNat)

/-- A span inside the text is returned as it was asked for. -/
theorem contentOf_inside {documentId versionId : ℕ} {text : Str} {startOffset endOffset : ℕ}
    (hspan : startOffset ≤ endOffset) (hinside : endOffset ≤ text.length) :
    contentOf documentId versionId text startOffset endOffset =
      ⟨documentId, versionId, startOffset, endOffset, text.length, slice text startOffset endOffset⟩ := by
  rw [contentOf, min_eq_left (le_trans hspan hinside), min_eq_left hinside]

/-! ## Citations -/

section Citations

variable {U : FilenameText} {settings : UploadSettings} (v : ChunkedVersion U P settings)

/-- The vector store answers with the payloads of the version as they were written. -/
def KeepsPayloads (services : Services P) : Prop :=
  ∀ collection vector limit filter raws,
    services.query collection vector limit filter = .points raws →
    ∀ raw, some raw ∈ raws → ∀ payload, raw.payload = some payload →
      uuidField? payload "version_id" = some v.versionId → v.Wrote payload

/-- The version is the current one of its document, its parsed object is stored, and the caller may
read it. -/
structure Serves (store : Str → Option StoredObject) (documents versions : Db) (scope : List ℕ)
    (actor : AgentPrincipal) : Prop where
  document : ∃ row, getDocument documents scope v.documentId = some row ∧
    row.id = v.documentId ∧ row.knowledgeBaseId = v.knowledgeBaseId
  version : ∃ row, getCurrentVersion versions scope v.documentId = some row ∧
    row.id = v.versionId ∧ row.parsedObjectChecksum = some v.checksum
  readable : requireRawFileRead actor v.knowledgeBaseId = .ok ()
  stored : store (parsedTextObjectKey v.knowledgeBaseId v.documentId v.versionId) =
    some ⟨v.object, some v.checksum, true⟩

variable {v}

/-- **Reading a span** of the parsed object. -/
theorem Serves.readDocumentContent_eq {store : Str → Option StoredObject} {documents versions : Db}
    {scope : List ℕ} {actor : AgentPrincipal} (h : Serves v store documents versions scope actor)
    {text : Str} (htext : encode text = v.object) {startOffset endOffset : ℕ}
    (hspan : startOffset ≤ endOffset) (hinside : endOffset ≤ text.length) :
    readDocumentContent P settings (some store) documents versions scope actor v.documentId
        startOffset endOffset =
      .ok ⟨v.documentId, v.versionId, startOffset, endOffset, text.length,
        slice text startOffset endOffset⟩ := by
  obtain ⟨document, hdocument, hid, hkb⟩ := h.document
  obtain ⟨version, hversion, hversionId, hchecksum⟩ := h.version
  have hpos : settings.maxUploadBytes ≠ 0 := by
    have h1 := settings.buffer_pos
    have h2 := settings.buffer_le
    omega
  have hread : readBytes P store (parsedTextObjectKey v.knowledgeBaseId v.documentId v.versionId)
      v.checksum settings.maxUploadBytes = some v.object := by
    have hshape : isSha256 v.checksum = true := P.isSha256_sha256 v.object
    rw [readBytes, if_neg (by simp [hshape, hpos]), h.stored]
    dsimp only
    rw [if_pos ⟨v.length_object_le, rfl, rfl, rfl⟩]
  rw [readDocumentContent, if_neg (by omega), hdocument]
  dsimp only
  rw [hkb, h.readable, hversion]
  dsimp only
  rw [hchecksum]
  dsimp only
  rw [hid, hversionId, hread, Option.bind_some, ← htext, decode?_encode]
  dsimp only
  rw [Int.toNat_natCast, Int.toNat_natCast, contentOf_inside hspan hinside]

/-- A result of a search, traced to the chunk of its version. -/
theorem result_of_search {services : Services P} {knowledgeBaseId : ℕ} {actor : Principal}
    {command : SearchRequest P} {response : SearchResponse P}
    (hsearch : search services knowledgeBaseId actor command = .ok response)
    (hkeeps : KeepsPayloads v services) {result : SearchResult P} (hresult : result ∈ response.results)
    (hversion : result.versionId = v.versionId) :
    ∃ chunk, v.Indexed chunk ∧ result.documentId = v.documentId ∧ result.text = chunk.text ∧
      result.startOffset = chunk.startOffset ∧ result.endOffset = chunk.endOffset := by
  obtain ⟨target, compiled, filter, -, -, -, -, hrest⟩ := search_ok hsearch
  cases filter with
  | none =>
      rw [hrest.1] at hresult
      cases hresult
  | some sent =>
      obtain ⟨vector, points, fields, hits, hpoints, hhits, hresults⟩ := hrest
      rw [hresults] at hresult
      obtain ⟨hit, hhit, rfl⟩ := List.mem_map.mp hresult
      obtain ⟨hpoint, -, hidentity, hpair⟩ := (hydrate_ok hpoints hhits).1 hit hhit
      obtain ⟨-, htext, hstart, hend⟩ := makeResult_ok (hydrate_makeResult hpoints hhits hit hhit)
      obtain ⟨raws, raw, payload, hanswer, hraw, hpayload, hvalid⟩ := queryPoints_mem hpoints hpoint
      -- the pair of the result is the pair of the payload
      have hids : hit.point.payload.documentId = hit.result.documentId ∧
          hit.point.payload.versionId = hit.result.versionId :=
        Prod.mk.inj (hidentity.trans hpair.symm)
      have hfield := (validatedPointPayload_some hvalid).2.1
      rw [hids.2, hversion] at hfield
      obtain ⟨chunk, metadata, hindexed, rfl⟩ := hkeeps _ _ _ _ _ hanswer raw hraw payload hpayload hfield
      obtain ⟨hdocument, -, htext', hstart', hend'⟩ := validatedPointPayload_qdrantPointPayload hvalid
      exact ⟨chunk, hindexed, hids.1.symm.trans hdocument, htext.trans htext', hstart.trans hstart',
        hend.trans hend'⟩

/-- **Citations are exact.**  Of every version that has passed its stages, from whatever bytes were
uploaded, and for every result of a search that belongs to it: reading the span of the result
returns the text of the result and the same offsets.  The vector store returns the payloads as they
were written; and where the normalized text begins with a byte order mark, the checksum of the text
without it is another. -/
theorem citation_exact (v : ChunkedVersion U P settings)
    (hmark : ∀ rest, v.parsed.text = '\uFEFF' :: rest → P.sha256 (encode rest) ≠ v.checksum)
    {services : Services P} {knowledgeBaseId : ℕ} {actor : Principal} {command : SearchRequest P}
    {response : SearchResponse P}
    (hsearch : search services knowledgeBaseId actor command = .ok response)
    (hkeeps : KeepsPayloads v services) {result : SearchResult P} (hresult : result ∈ response.results)
    (hversion : result.versionId = v.versionId) {store : Str → Option StoredObject}
    {documents versions : Db} {scope : List ℕ} {reader : AgentPrincipal}
    (hserves : Serves v store documents versions scope reader) :
    readDocumentContent P settings (some store) documents versions scope reader result.documentId
        result.startOffset result.endOffset =
      .ok ⟨result.documentId, result.versionId, result.startOffset, result.endOffset,
        v.stored.text.length, result.text⟩ := by
  obtain ⟨chunk, hindexed, hdocument, htext, hstart, hend⟩ :=
    result_of_search hsearch hkeeps hresult hversion
  obtain ⟨hsource, hspan, hinside⟩ := v.indexed_source hindexed
  have hstored : encode v.stored.text = v.object := by
    rw [v.stored_text hmark]
    rfl
  rw [hdocument, hversion, hstart, hend, htext, hsource]
  exact hserves.readDocumentContent_eq hstored hspan.le hinside

end Citations

/-! ## A note in two chunks -/

namespace CitationSample

open NoteSample

/-- Every digest of this platform is the same. -/
theorem chunkHash_eq (chunk : Chunk samplePlatform) : chunk.chunkHash = letterChecksum := by
  obtain ⟨data, -, hdata⟩ := Option.map_eq_some_iff.mp chunk.hash_eq
  exact hdata.symm

/-- The payload of a chunk of the note. -/
def payload (chunkIndex start stop : ℕ) : Mapping samplePlatform where
  members := [
    ("knowledge_base_id".toList, .str (uuidText 1)),
    ("document_id".toList, .str (uuidText 2)),
    ("version_id".toList, .str (uuidText 20)),
    ("chunk_index".toList, .int chunkIndex),
    ("chunk_hash".toList, .str letterChecksum),
    ("text".toList, .str (slice text start stop)),
    ("title_path".toList, .arr [.str ['A']]),
    ("start_offset".toList, .int start),
    ("end_offset".toList, .int stop),
    ("metadata".toList, .obj [])]
  unique := by
    refine ⟨pointPayloadKeys_nodup, ?_⟩
    simp [Json.UniqueKeys, Json.UniqueKeysMembers, Json.UniqueKeysItems]

theorem payload_first : qdrantPointPayload 1 2 20 (first samplePlatform) .empty = payload 0 0 5 := by
  apply Mapping.ext_json
  rw [Mapping.json, qdrantPointPayload, chunkHash_eq]
  rfl

theorem payload_second :
    qdrantPointPayload 1 2 20 (second samplePlatform) .empty = payload 1 3 7 := by
  apply Mapping.ext_json
  rw [Mapping.json, qdrantPointPayload, chunkHash_eq]
  rfl

/-- The vector store has the points of both chunks. -/
def services : Services samplePlatform :=
  { sampleServices with
    pointId := fun versionId index _ => versionId + index
    query := fun _ _ _ _ => .points [
      some { id := .text (uuidText 20), score := (), payload := some (payload 0 0 5) },
      some { id := .text (uuidText 21), score := (), payload := some (payload 1 3 7) }] }

/-- The rows, with the checksum of the parsed object. -/
def versions : Db :=
  { sampleTables.db with
    versions := sampleTables.db.versions.map fun v =>
      { v with parsedObjectChecksum := some letterChecksum } }

def store (key : Str) : Option StoredObject :=
  if key = parsedTextObjectKey 1 2 20 then some ⟨encode text, some letterChecksum, true⟩ else none

def reader : AgentPrincipal := ⟨6, [.retrieve], [1], true⟩

theorem chunkManifest_artifact {lines : List Bytes}
    (hwritten : writtenManifest letterChecksum (artifact samplePlatform) chunker createdAt 2 =
      ⟨lines, .done⟩) :
    chunkManifest letterChecksum createdAt (artifact samplePlatform) (6, 2) = some lines.flatten := by
  have hmake : RecursiveTextChunker.make 6 2 = .ok chunker := by rfl
  rw [writtenManifest, @chunk_artifact samplePlatform rfl] at hwritten
  rw [chunkManifest, hmake]
  dsimp only
  rw [@chunk_artifact samplePlatform rfl, List.length_cons, List.length_singleton, hwritten,
    if_neg (by simp)]

/-- The note has passed its stages, and its chunks were indexed. -/
theorem exists_version : ∃ v : ChunkedVersion .ascii samplePlatform largeUploads,
    v.knowledgeBaseId = 1 ∧ v.documentId = 2 ∧ v.versionId = 20 ∧
      v.pieces.flatten = encode source ∧ v.parsed = artifact samplePlatform ∧
      v.Indexed (first samplePlatform) ∧ v.Indexed (second samplePlatform) := by
  obtain ⟨m, hm⟩ : ∃ m, validateDocumentMetadata .ascii "note.md".toList "text/markdown".toList =
      .ok m := ⟨_, by rfl⟩
  obtain ⟨summary, hsummary⟩ := @validateStream_pieces .ascii largeUploads _ _ _ _ _ hm accepted
    flatten_pieces (by decide)
  obtain ⟨lines, expected, hwritten, -, -, hread⟩ := @manifest samplePlatform rfl letterChecksum
    (by decide)
  let v : ChunkedVersion .ascii samplePlatform largeUploads :=
    { knowledgeBaseId := 1
      documentId := 2
      versionId := 20
      filename := _
      contentType := _
      pieces := pieces
      summary := summary
      accepted := hsummary
      parser := markdownTextParser
      parser_mem := by simp [parsers]
      parsed := artifact samplePlatform
      parse_eq := flatten_pieces ▸ parse_source .ascii samplePlatform
      stored := artifact samplePlatform
      stored_eq := parse_text .ascii samplePlatform
      checksum_eq := rfl
      sourceChecksum := letterChecksum
      createdAt := createdAt
      sizes := (6, 2)
      manifest := lines.flatten
      manifest_eq := chunkManifest_artifact hwritten }
  have hindexed : ∀ chunk ∈ [first samplePlatform, second samplePlatform], v.Indexed chunk := by
    obtain ⟨batches, hbatches, hflatten⟩ := hread lines 1 rfl (le_refl 1) (by decide)
    intro chunk hchunk
    rw [← hflatten] at hchunk
    obtain ⟨batch, hbatch, hmem⟩ := List.mem_flatten.mp hchunk
    refine ⟨expected, 0, 1, lines, batch, rfl, ?_, hmem⟩
    rw [hbatches]
    exact hbatch
  exact ⟨v, rfl, rfl, rfl, flatten_pieces, rfl, hindexed _ List.mem_cons_self,
    hindexed _ (List.mem_cons_of_mem _ List.mem_cons_self)⟩

/-- The answer of the search. -/
theorem search_note : ((search services 1 sampleAgent sampleSearch).toOption.map fun r =>
    r.results.map fun result => (result.versionId, result.text)) =
      some [(20, "# A\n\n".toList), (20, "\n\n😀b".toList)] := by
  decide +kernel

section Version

variable {v : ChunkedVersion .ascii samplePlatform largeUploads}

/-- The vector store returns what was written for the chunks. -/
theorem keepsPayloads (hkb : v.knowledgeBaseId = 1) (hdocument : v.documentId = 2)
    (hversion : v.versionId = 20) (hfirst : v.Indexed (first samplePlatform))
    (hsecond : v.Indexed (second samplePlatform)) : KeepsPayloads v services := by
  intro collection vector limit filter raws hraws raw hraw payload hpayload _
  cases hraws
  simp only [List.mem_cons, List.not_mem_nil, or_false, Option.some.injEq] at hraw
  rcases hraw with rfl | rfl <;> cases hpayload
  · exact ⟨_, .empty, hfirst, by rw [hkb, hdocument, hversion, payload_first]⟩
  · exact ⟨_, .empty, hsecond, by rw [hkb, hdocument, hversion, payload_second]⟩

theorem serves (hkb : v.knowledgeBaseId = 1) (hdocument : v.documentId = 2)
    (hversion : v.versionId = 20) (hparsed : v.parsed = artifact samplePlatform) :
    Serves v store versions versions [1] reader := by
  have hchecksum : v.checksum = letterChecksum := rfl
  have hobject : v.object = encode text := by
    rw [ChunkedVersion.object, hparsed]
    rfl
  constructor
  · rw [hdocument, hkb]
    exact ⟨_, rfl, rfl, rfl⟩
  · rw [hdocument, hversion, hchecksum]
    exact ⟨_, rfl, rfl, rfl⟩
  · rw [hkb]
    rfl
  · rw [hkb, hdocument, hversion, hobject, hchecksum]
    exact if_pos rfl

end Version

end CitationSample

open CitationSample in
/-- Both results of the search cite the note, which was uploaded with a byte order mark and Windows
line ends. -/
theorem citation_exact_note : ∃ (v : ChunkedVersion .ascii samplePlatform largeUploads)
    (response : SearchResponse samplePlatform),
    v.pieces.flatten = encode NoteSample.source ∧
    search services 1 sampleAgent sampleSearch = .ok response ∧
    (response.results.map fun result => (result.versionId, result.text)) =
      [(20, "# A\n\n".toList), (20, "\n\n😀b".toList)] ∧
    ∀ result ∈ response.results,
      readDocumentContent samplePlatform largeUploads (some store) versions versions [1] reader
          result.documentId result.startOffset result.endOffset =
        .ok ⟨result.documentId, result.versionId, result.startOffset, result.endOffset,
          v.stored.text.length, result.text⟩ := by
  obtain ⟨v, hkb, hdocument, hversion, hsource, hparsed, hfirst, hsecond⟩ :=
    CitationSample.exists_version
  have hanswer := CitationSample.search_note
  cases hsearch : search services 1 sampleAgent sampleSearch with
  | error e =>
      rw [hsearch] at hanswer
      cases hanswer
  | ok response =>
      rw [hsearch] at hanswer
      have hresults : (response.results.map fun result => (result.versionId, result.text)) =
          [(20, "# A\n\n".toList), (20, "\n\n😀b".toList)] := Option.some.inj hanswer
      have hmark : ∀ rest, v.parsed.text = '\uFEFF' :: rest →
          samplePlatform.sha256 (encode rest) ≠ v.checksum := by
        intro rest hrest
        rw [hparsed] at hrest
        exact absurd (List.cons.inj hrest).1 (by decide)
      have hkeeps := keepsPayloads hkb hdocument hversion hfirst hsecond
      refine ⟨v, response, hsource, rfl, hresults, ?_⟩
      intro result hresult
      have hvalues : (result.versionId, result.text) ∈
          response.results.map fun result => (result.versionId, result.text) :=
        List.mem_map_of_mem hresult
      have htwenty : result.versionId = 20 := by
        rw [hresults] at hvalues
        simp only [List.mem_cons, List.not_mem_nil, or_false, Prod.mk.injEq] at hvalues
        omega
      exact citation_exact v hmark hsearch hkeeps hresult (htwenty.trans hversion.symm)
        (serves hkb hdocument hversion hparsed)

end VeloxRag.Metadata
