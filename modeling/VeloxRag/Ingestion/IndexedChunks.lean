import VeloxRag.Indexing.Points
import VeloxRag.Ingestion.ArtifactAttempts
import VeloxRag.Ingestion.ManifestSpec
import VeloxRag.Ingestion.ChunkSizes

/-!
# Indexed chunks

A document is parsed, the text is stored, read back and parsed again for the chunk stage, and the
chunks go through the manifest into the payloads of points.  Whatever part of the manifest an attempt
of the embed stage reads, each chunk it meets is a chunk of the stored text, and the payload it
writes says so.

## Main definitions

* `chunk_of_manifest` — the reader meets chunks of the writer only, however far it gets.
* `qdrantPointPayload` — the payload of a point.
* `ChunkedVersion` — a version that has passed the parse and the chunk stage.
* `ChunkedVersion.indexed_source` — the text of an indexed chunk.
-/

namespace VeloxRag.Ingestion

open VeloxRag.Lib VeloxRag.Indexing

variable {P : Platform}

/-! ## Reading a part of the manifest -/

/-- One block: what comes out are the next lines, and what is left begins the lines after them. -/
theorem drainLines_lines (fuel : ℕ) : ∀ {lines : List Bytes} {buffered rest : Bytes},
    (∀ line ∈ lines, IsRecord newline line) → buffered ++ rest = lines.flatten →
    (drainLines fuel buffered).1 <+: lines ∧
      ∀ remaining, (drainLines fuel buffered).2 = some remaining →
        ∃ back, lines = (drainLines fuel buffered).1 ++ back ∧ remaining ++ rest = back.flatten := by
  induction fuel with
  | zero =>
      intro lines buffered rest _ hflat
      refine ⟨List.nil_prefix, ?_⟩
      rintro _ ⟨⟩
      exact ⟨lines, rfl, hflat⟩
  | succ fuel ih =>
      intro lines buffered rest hlines hflat
      rw [drainLines]
      cases hfind : buffered.findIdx? (· = newline) with
      | none =>
          refine ⟨List.nil_prefix, ?_⟩
          rintro _ ⟨⟩
          exact ⟨lines, rfl, hflat⟩
      | some position =>
          obtain ⟨line, more, rfl, htake, _, hdrop⟩ := records_split hlines hflat hfind
          obtain ⟨hbegins, hrest⟩ := ih (fun r hr => hlines r (List.mem_cons_of_mem _ hr)) hdrop
          dsimp only
          split
          · refine ⟨List.nil_prefix, ?_⟩
            rintro _ ⟨⟩
          · split
            · refine ⟨List.nil_prefix, ?_⟩
              rintro _ ⟨⟩
            · rw [htake]
              refine ⟨(List.prefix_cons_inj line).mpr hbegins, ?_⟩
              intro remaining hremaining
              obtain ⟨back, hback, hflat'⟩ := hrest remaining hremaining
              exact ⟨back, by rw [List.cons_append, ← hback], hflat'⟩

/-- **Any blocks**: the lines that come out are the first ones, in order. -/
theorem manifestLines_begin (blocks : List Bytes) : ∀ {lines : List Bytes} {buffered : Bytes},
    (∀ line ∈ lines, IsRecord newline line) → buffered ++ blocks.flatten = lines.flatten →
    (manifestLines blocks buffered).items <+: lines := by
  induction blocks with
  | nil =>
      intro lines buffered _ _
      rw [manifestLines]
      split <;> exact List.nil_prefix
  | cons block blocks ih =>
      intro lines buffered hlines hflat
      rw [List.flatten_cons, ← List.append_assoc] at hflat
      obtain ⟨hbegins, hrest⟩ := drainLines_lines (buffered ++ block).length hlines hflat
      rw [manifestLines]
      dsimp only
      split
      · exact List.nil_prefix
      · split
        · rename_i front hdrain
          rw [hdrain] at hbegins
          exact hbegins
        · rename_i front remaining hdrain
          rw [hdrain] at hrest
          obtain ⟨back, rfl, hflat'⟩ := hrest remaining rfl
          exact (List.prefix_append_right_inj front).mpr
            (ih (fun r hr => hlines r (List.mem_append_right _ hr)) hflat')

section Reader

variable {expected : ManifestExpectation P} {nextChunkIndex batchSize : ℕ}

theorem mem_nextLine {lineNumber : ℕ} {rest : Generated (List (Chunk P)) ManifestError}
    {batch : List (Chunk P)} (h : batch ∈ (nextLine expected lineNumber rest).items) :
    batch ∈ rest.items := by
  rw [nextLine] at h
  split at h
  · cases h
  · exact h

/-- **The batch loop** over the records of chunks, or the first of them: a batch has nothing but
these chunks and those it began with. -/
theorem batchLoop_mem {outcome : Outcome ManifestError} {index : ℕ} {records : List Bytes}
    {chunks : List (Chunk P)} (h : RecordsFrom index records chunks) :
    ∀ {lines : List Bytes} {begun batch : List (Chunk P)}, lines <+: records →
    batch ∈ (batchLoop expected nextChunkIndex batchSize outcome lines (index + 1) begun).items →
    ∀ chunk ∈ batch, chunk ∈ begun ∨ chunk ∈ chunks := by
  -- where no line is left, the last batch is the one that was begun
  have hend : ∀ {lineNumber : ℕ} {begun batch : List (Chunk P)},
      batch ∈ (batchLoop expected nextChunkIndex batchSize outcome [] lineNumber begun).items →
      batch = begun := by
    intro lineNumber begun batch hbatch
    unfold batchLoop at hbatch
    split at hbatch
    · split at hbatch
      · cases hbatch
      · split at hbatch
        · exact List.mem_singleton.mp hbatch
        · cases hbatch
    · cases hbatch
  induction h with
  | nil index =>
      intro lines begun batch hbegins hbatch chunk hchunk
      rw [List.prefix_nil.mp hbegins] at hbatch
      rw [hend hbatch] at hchunk
      exact .inl hchunk
  | @cons index line records chunk chunks hline hindex _ ih =>
      intro lines begun batch hbegins hbatch other hother
      cases lines with
      | nil =>
          rw [hend hbatch] at hother
          exact .inl hother
      | cons first lines =>
          obtain ⟨rfl, hbelow⟩ := List.cons_prefix_cons.mp hbegins
          have hdocument := manifestDocument_record hline
          have hread := manifestChunk_record chunk
          rw [hindex] at hread
          simp only [batchLoop, hdocument, Nat.succ_ne_zero, if_false, Nat.add_sub_cancel, hread]
            at hbatch
          have hlater : ∀ {begun' : List (Chunk P)},
              batch ∈ (nextLine expected (index + 1) (batchLoop expected nextChunkIndex batchSize
                outcome lines (index + 1 + 1) begun')).items →
              (∀ c ∈ begun', c ∈ begun ∨ c = chunk) → other ∈ begun ∨ other ∈ chunk :: chunks := by
            intro begun' hmem hbegun
            rcases ih hbelow (mem_nextLine hmem) other hother with hin | hin
            · rcases hbegun other hin with hin | rfl
              · exact .inl hin
              · exact .inr List.mem_cons_self
            · exact .inr (List.mem_cons_of_mem _ hin)
          split at hbatch
          · have hgrown : ∀ c ∈ begun ++ [chunk], c ∈ begun ∨ c = chunk := fun c hc =>
              (List.mem_append.mp hc).imp_right List.mem_singleton.mp
            split at hbatch
            · rcases List.mem_cons.mp hbatch with rfl | hbatch
              · rcases hgrown other hother with hin | rfl
                · exact .inl hin
                · exact .inr List.mem_cons_self
              · exact hlater hbatch fun c hc => absurd hc List.not_mem_nil
            · exact hlater hbatch hgrown
          · exact hlater hbatch fun c hc => .inl hc

/-- **Every chunk that the reader meets** was written, whatever it expects and however it ends. -/
theorem chunk_of_manifest {sourceChecksum : Str} {parsed : ParsedArtifact P} {chunker : Chunker P}
    {createdAt : Timestamp} {chunkCount : ℕ} {chunks : Generated (Chunk P) ChunkError}
    (hdone : (iterChunkManifestLines sourceChecksum parsed chunker createdAt chunkCount
      chunks).outcome = .done)
    {stream : List Bytes} (hstream : stream.flatten = (iterChunkManifestLines sourceChecksum parsed
      chunker createdAt chunkCount chunks).items.flatten)
    {batch : List (Chunk P)}
    (hbatch : batch ∈ (iterVerifiedManifestBatches expected nextChunkIndex batchSize stream).items)
    {chunk : Chunk P} (hchunk : chunk ∈ batch) : chunk ∈ chunks.items := by
  obtain ⟨header, records, hheader, hitems, hrecords, _⟩ := iterChunkManifestLines_done hdone
  rw [hitems] at hstream
  have hbegins := @manifestLines_begin stream (header :: records) []
    (fun line hline => (isRecord_manifest hheader hrecords line hline).1)
    (by rw [List.nil_append]; exact hstream)
  rw [iterVerifiedManifestBatches] at hbatch
  split at hbatch
  swap
  · cases hbatch
  dsimp only at hbatch
  generalize (manifestLines stream []).items = lines at hbegins hbatch
  cases lines with
  | nil =>
      unfold batchLoop at hbatch
      split at hbatch
      · split at hbatch
        · cases hbatch
        · rw [if_neg (by simp)] at hbatch
          cases hbatch
      · cases hbatch
  | cons first lines =>
      obtain ⟨rfl, hbelow⟩ := List.cons_prefix_cons.mp hbegins
      rw [batchLoop] at hbatch
      split at hbatch
      · cases hbatch
      · rw [if_pos rfl] at hbatch
        split at hbatch
        · rcases batchLoop_mem hrecords hbelow (mem_nextLine hbatch) chunk hchunk with hin | hin
          · cases hin
          · exact hin
        · cases hbatch

end Reader

/-! ## Payloads -/

/-- `qdrant_point_payload`, of a version of a document. -/
def qdrantPointPayload (knowledgeBaseId documentId versionId : ℕ) (chunk : Chunk P)
    (metadata : Mapping P) : Mapping P where
  members := [
    ("knowledge_base_id".toList, .str (uuidText knowledgeBaseId)),
    ("document_id".toList, .str (uuidText documentId)),
    ("version_id".toList, .str (uuidText versionId)),
    ("chunk_index".toList, .int chunk.chunkIndex),
    ("chunk_hash".toList, .str chunk.chunkHash),
    ("text".toList, .str chunk.text),
    ("title_path".toList, .arr (chunk.titlePath.map .str)),
    ("start_offset".toList, .int chunk.startOffset),
    ("end_offset".toList, .int chunk.endOffset),
    ("metadata".toList, metadata.json)]
  unique := by
    refine ⟨pointPayloadKeys_nodup, ?_⟩
    have htitles : (Json.arr (chunk.titlePath.map (Json.str (F := P.Float)))).UniqueKeys := by
      rw [Json.uniqueKeys_arr]
      intro x hx
      obtain ⟨title, -, rfl⟩ := List.mem_map.mp hx
      trivial
    simp only [Json.UniqueKeysMembers, Json.UniqueKeys, true_and, and_true]
    exact ⟨htitles, metadata.unique⟩

section Payload

variable {knowledgeBaseId documentId versionId : ℕ} {chunk : Chunk P} {metadata : Mapping P}

theorem lookup_qdrantPointPayload {key : String} {value : Json P.Float}
    (h : (key.toList, value) ∈
      (qdrantPointPayload knowledgeBaseId documentId versionId chunk metadata).members) :
    (qdrantPointPayload knowledgeBaseId documentId versionId chunk metadata).members.lookup
      key.toList = some value :=
  Json.lookup_of_mem (qdrantPointPayload knowledgeBaseId documentId versionId chunk metadata).unique.1 h

theorem strField?_qdrantPointPayload (key : String) (value : Str)
    (h : (key.toList, .str value) ∈
      (qdrantPointPayload knowledgeBaseId documentId versionId chunk metadata).members) :
    strField? (qdrantPointPayload knowledgeBaseId documentId versionId chunk metadata) key =
      some value := by
  rw [strField?, lookup_qdrantPointPayload h]

theorem natField?_qdrantPointPayload (key : String) (value : ℕ)
    (h : (key.toList, .int value) ∈
      (qdrantPointPayload knowledgeBaseId documentId versionId chunk metadata).members) :
    natField? (qdrantPointPayload knowledgeBaseId documentId versionId chunk metadata) key =
      some value := by
  rw [natField?, lookup_qdrantPointPayload h]

theorem uuidField?_qdrantPointPayload (key : String) (value : ℕ)
    (h : (key.toList, .str (uuidText value)) ∈
      (qdrantPointPayload knowledgeBaseId documentId versionId chunk metadata).members) :
    uuidField? (qdrantPointPayload knowledgeBaseId documentId versionId chunk metadata) key =
      some value := by
  rw [uuidField?, strField?_qdrantPointPayload _ _ h, Option.bind_some, uuidOfText_uuidText]

/-- **The payload reads back** as the chunk and the version it was made from. -/
theorem validatedPointPayload_qdrantPointPayload {pointId : PointIds} {point : ℕ}
    {payload : PointPayload P}
    (h : validatedPointPayload pointId point
      (qdrantPointPayload knowledgeBaseId documentId versionId chunk metadata) = some payload) :
    payload.documentId = documentId ∧ payload.versionId = versionId ∧
      payload.text = chunk.text ∧ payload.startOffset = chunk.startOffset ∧
      payload.endOffset = chunk.endOffset := by
  obtain ⟨hdocument, hversion, htext, hstart, hstop⟩ := validatedPointPayload_some h
  rw [uuidField?_qdrantPointPayload _ documentId (by simp [qdrantPointPayload])] at hdocument
  rw [uuidField?_qdrantPointPayload _ versionId (by simp [qdrantPointPayload])] at hversion
  rw [strField?_qdrantPointPayload _ chunk.text (by simp [qdrantPointPayload])] at htext
  rw [natField?_qdrantPointPayload _ chunk.startOffset (by simp [qdrantPointPayload])]
    at hstart
  rw [natField?_qdrantPointPayload _ chunk.endOffset (by simp [qdrantPointPayload])]
    at hstop
  exact ⟨(Option.some.inj hdocument).symm, (Option.some.inj hversion).symm,
    (Option.some.inj htext).symm, (Option.some.inj hstart).symm, (Option.some.inj hstop).symm⟩

end Payload

/-! ## Versions that are chunked -/

/-- A version that has passed the parse and the chunk stage, with what the stages have stored: the
upload was accepted and parsed, the chunk stage has parsed the stored text again, compared the
checksum of what it found with the recorded one, and written the manifest. -/
structure ChunkedVersion (U : FilenameText) (P : Platform) (settings : UploadSettings) where
  knowledgeBaseId : ℕ
  documentId : ℕ
  versionId : ℕ
  filename : Str
  contentType : Str
  pieces : List Bytes
  summary : TextValidationSummary
  accepted : validateStream U settings filename contentType pieces = .ok summary
  parser : Parser
  parser_mem : parser ∈ parsers
  parsed : ParsedArtifact P
  parse_eq : parser.parse U P pieces.flatten = .ok parsed
  stored : ParsedArtifact P
  stored_eq : parser.parse U P parsed.normalizedBytes = .ok stored
  checksum_eq : P.sha256 stored.normalizedBytes = P.sha256 parsed.normalizedBytes
  sourceChecksum : Str
  createdAt : Timestamp
  sizes : ℤ × ℤ
  manifest : Bytes
  manifest_eq : chunkManifest sourceChecksum createdAt stored sizes = some manifest

namespace ChunkedVersion

variable {U : FilenameText} {settings : UploadSettings} (v : ChunkedVersion U P settings)

/-- The parsed object. -/
def object : Bytes := v.parsed.normalizedBytes

/-- `parsed_object_checksum_sha256`. -/
def checksum : Str := P.sha256 v.object

/-- A chunk that an attempt to embed the version has read from the manifest, from any checkpoint on
and with any expectation. -/
def Indexed (chunk : Chunk P) : Prop :=
  ∃ (expected : ManifestExpectation P) (nextChunkIndex batchSize : ℕ) (stream : List Bytes)
    (batch : List (Chunk P)), stream.flatten = v.manifest ∧
    batch ∈ (iterVerifiedManifestBatches expected nextChunkIndex batchSize stream).items ∧
    chunk ∈ batch

/-- A payload that such an attempt has written. -/
def Wrote (payload : Mapping P) : Prop :=
  ∃ chunk metadata, v.Indexed chunk ∧
    payload = qdrantPointPayload v.knowledgeBaseId v.documentId v.versionId chunk metadata

/-- **The text of an indexed chunk** is the span of the stored text that it names. -/
theorem indexed_source {chunk : Chunk P} (h : v.Indexed chunk) :
    chunk.text = slice v.stored.text chunk.startOffset chunk.endOffset ∧
      chunk.startOffset < chunk.endOffset ∧ chunk.endOffset ≤ v.stored.text.length := by
  obtain ⟨expected, nextChunkIndex, batchSize, stream, batch, hstream, hbatch, hchunk⟩ := h
  have hmanifest := v.manifest_eq
  rw [chunkManifest] at hmanifest
  split at hmanifest
  · cases hmanifest
  rename_i chunker _
  dsimp only at hmanifest
  split at hmanifest
  · cases hmanifest
  rename_i hwritten
  rw [not_or, not_not] at hwritten
  have hmem := chunk_of_manifest hwritten.2 (hstream.trans (Option.some.inj hmanifest).symm) hbatch
    hchunk
  obtain ⟨chunks, hchunks, htiles⟩ := parse_tilesText v.parser_mem v.stored_eq chunker
  rw [hchunks] at hmem
  obtain ⟨hsource, _⟩ := htiles.source chunk hmem
  have hspan := chunk.start_lt_end
  refine ⟨hsource, hspan, ?_⟩
  -- a span that reached beyond the text would be shorter than the chunk
  have hlength := congrArg List.length hsource
  rw [chunk.length_text, slice, List.length_take, List.length_drop] at hlength
  omega

/-- **The stored text parses to itself**: the only thing a second normalization could take away is a
byte order mark, and then the checksum would have to be the same without it. -/
theorem stored_text (hmark : ∀ rest, v.parsed.text = '\uFEFF' :: rest →
    P.sha256 (encode rest) ≠ v.checksum) : v.stored.text = v.parsed.text := by
  obtain ⟨-, s, hs, -, hartifact⟩ := (parse_eq_ok v.parser_mem).mp v.stored_eq
  have hdecode := congrArg decode? hs
  rw [ParsedArtifact.normalizedBytes, decode?_encode, decode?_encode] at hdecode
  rw [← Option.some.inj hdecode] at hartifact
  have hstored := (artifact_eq_ok hartifact).1
  have hcr : '\r' ∉ v.parsed.text := v.parsed.valid_fields.2.2.1
  by_cases hbom : v.parsed.text.head? = some '\uFEFF'
  · obtain ⟨rest, hrest⟩ : ∃ rest, v.parsed.text = '\uFEFF' :: rest :=
      List.head?_eq_some_iff.mp hbom
    -- the text of the second parse is the rest
    have hcr' : '\r' ∉ rest := fun hmem => hcr (by rw [hrest]; exact List.mem_cons_of_mem _ hmem)
    rw [hrest, normalizedText_eq, dropBom, if_pos List.head?_cons, List.tail_cons, replaceCrLf_of_no_cr hcr',
      replaceCr_of_no_cr hcr'] at hstored
    have hchecksum := v.checksum_eq
    rw [ParsedArtifact.normalizedBytes, hstored] at hchecksum
    exact absurd hchecksum (hmark rest hrest)
  · rw [hstored, normalizedText_of_no_cr hcr hbom]

/-- The parsed object is not larger than the upload was allowed to be. -/
theorem length_object_le : v.object.length ≤ settings.maxUploadBytes :=
  le_trans (length_normalizedBytes_le v.parser_mem v.parse_eq) (validateStream_eq_ok v.accepted).1

end ChunkedVersion

end VeloxRag.Ingestion
