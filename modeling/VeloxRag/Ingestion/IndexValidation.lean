import VeloxRag.Indexing.VersionPoints
import VeloxRag.Ingestion.FilterMetadata
import VeloxRag.Ingestion.ManifestBudget
import VeloxRag.Ingestion.Pipeline
import VeloxRag.Ingestion.StageSuccess
import VeloxRag.Retrieval.Search

/-!
# The validate stage

Before a version is searched, the stage counts the points that the vector store has for it, commits
the count, and then goes through the manifest: each chunk's point is looked up, and the digest of its
payload is compared with that of the payload the embed stage writes.

## Main definitions

* `qdrantPointFor`, `EmbeddedAs` — the point that the embed stage writes for a chunk.
* `validateStage` — the stage, with its two commits.
* `ExactlyEmbedded` — the points of the version are those of the manifest.
* `validateStage_exact` — the stage commits the version as validated exactly then.
-/

namespace VeloxRag.Ingestion

open Lib Jobs Indexing

variable {P : Platform}

/-! ## Points of the embed stage -/

/-- `QdrantPoint`. -/
structure QdrantPoint (P : Platform) where
  id : ℕ
  vector : List P.Float
  payload : Mapping P

/-- The constructor; the copy of a payload that is accepted is the payload. -/
def QdrantPoint.make (pointId : PointIds) (id : ℕ) (vector : List P.Float) (payload : Mapping P) :
    Option (QdrantPoint P) :=
  if vector = [] ∨ vector.any (fun x => !P.floats.isFinite x) then none
  else (validatedPointPayload pointId id payload).map fun _ => ⟨id, vector, payload⟩

/-- What the stages after the chunk stage have loaded; `approved_filter_metadata` of it is `none`
where that raises. -/
structure IndexStageInput (P : Platform) where
  row : EmbedIndexStageInput
  manifest : ManifestExpectation P
  dimension : ℕ
  batchSize : ℕ
  approvedMetadata : Option (Mapping P)
  dimension_le : 1 ≤ dimension ∧ dimension ≤ 10000000
  chunkCount_eq : manifest.chunkCount = row.chunkCount
  chunkCount_pos : 1 ≤ row.chunkCount

namespace IndexStageInput

variable (input : IndexStageInput P) (pointId : PointIds)

/-- The identity of a chunk's point. -/
def chunkPointId (chunk : Chunk P) : ℕ :=
  pointId input.row.versionId chunk.chunkIndex chunk.chunkHash

/-- The payload of a chunk's point. -/
def payload (chunk : Chunk P) (metadata : Mapping P) : Mapping P :=
  qdrantPointPayload input.row.knowledgeBaseId input.row.documentId input.row.versionId chunk metadata

/-- `qdrant_point_for`. -/
def qdrantPointFor (chunk : Chunk P) (vector : List P.Float) (metadata : Mapping P) :
    Option (QdrantPoint P) :=
  if vector.length ≠ input.dimension then none
  else QdrantPoint.make pointId (input.chunkPointId pointId chunk) vector (input.payload chunk metadata)

/-- The point is one that the embed stage writes for the chunk, with any vector; the keys of its
payload may be in another order. -/
def EmbeddedAs (chunk : Chunk P) (point : StoredPoint P) : Prop :=
  ∃ metadata embedded payload, input.approvedMetadata = some metadata ∧
    input.qdrantPointFor pointId chunk point.vector metadata = some embedded ∧
    point.id = .uuid embedded.id ∧ point.payload = some payload ∧
    payload.sorted = embedded.payload.sorted

/-- **The points of the version are exactly those of the chunks.** -/
def ExactlyEmbedded (store : PointStore P) (chunks : List (Chunk P)) : Prop :=
  (∀ point ∈ store.points, point.ofVersion input.row.versionId = true →
    ∃ chunk ∈ chunks, input.EmbeddedAs pointId chunk point) ∧
  ∀ chunk ∈ chunks, ∃ point ∈ store.points, point.ofVersion input.row.versionId = true ∧
    input.EmbeddedAs pointId chunk point

end IndexStageInput

/-! ## The stage -/

/-- `MAX_CHUNK_MANIFEST_BYTES`, beyond which `read_stream` of a manifest raises. -/
def maxChunkManifestBytes : ℕ := 512 * 1024 * 1024

def indexValidationFailed : StageException :=
  .jobError ⟨false, "INDEX_VALIDATION_FAILED".toList, "Index validation failed".toList⟩

/-- The check of the loaded rows. -/
def validateReady (row : EmbedIndexStageInput) : Bool :=
  decide (row.versionStatus = .indexing) && decide (row.indexStateStatus = .indexing)
    && decide (row.nextChunkIndex = row.chunkCount)
    && decide (row.indexStateEmbeddingConfigHash = some row.embeddingConfigHash)

/-- What a commit raises, as an exception of the stage. -/
def stageRaised {α : Type} : Except TxError α → Except StageException α
  | .ok a => .ok a
  | .error .lostLease => .error .lostLease
  | .error (.value _) => .error .stageConflict
  | .error _ => .error .other

/-- The comparison of a chunk with the record of its point; a payload that cannot be written raises
`ValueError`. -/
def checkPoint (pointId : PointIds) (input : IndexStageInput P) (metadata : Mapping P)
    (chunk : Chunk P) (inspected : RetrievedPoint) : Except StageException Unit :=
  match canonicalSha256 P (input.payload chunk metadata).json with
  | none => .error .stageConflict
  | some digest =>
      if inspected.id ≠ input.chunkPointId pointId chunk ∨ inspected.vectorDimension ≠ input.dimension ∨
          inspected.payloadDigest ≠ digest then .error indexValidationFailed
      else .ok ()

/-- `zip(..., strict=True)` of the chunks with the records. -/
def checkPoints (pointId : PointIds) (input : IndexStageInput P) (metadata : Mapping P) :
    List (Chunk P) → List RetrievedPoint → Except StageException Unit
  | [], [] => .ok ()
  | chunk :: chunks, inspected :: rest => do
      checkPoint pointId input metadata chunk inspected
      checkPoints pointId input metadata chunks rest
  | _, _ => .error .stageConflict

/-- One batch of the manifest. -/
def checkBatch (pointId : PointIds) (input : IndexStageInput P) (store : PointStore P)
    (metadata : Mapping P) (batch : List (Chunk P)) : Except StageException Unit :=
  match retrieveVersionPoints pointId store input.row.versionId
      (batch.map (input.chunkPointId pointId)) with
  | .error .configuration => .error indexValidationFailed
  | .error .request => .error .stageConflict
  | .ok actual => checkPoints pointId input metadata batch actual

/-- The loop over the batches of the manifest. -/
def checkBatches (pointId : PointIds) (input : IndexStageInput P) (store : PointStore P)
    (metadata : Mapping P) (batches : Generated (List (Chunk P)) ManifestError) :
    Except StageException Unit := do
  batches.items.forM (checkBatch pointId input store metadata)
  match batches.outcome with
  | .done => pure ()
  | _ => throw .stageConflict

/-- `_validate_stage`, on a manifest that is read in the blocks of `stream`: what it returns is the
database with the version validated. -/
def validateStage (pointId : PointIds) (lease : JobLease) (input : IndexStageInput P)
    (store : PointStore P) (stream : List Bytes) (db : Db) : Except StageException (Job × Db) := do
  if validateReady input.row = false then throw .stageConflict
  match countVersionPoints store input.row.versionId with
  | .error .configuration => throw .qdrantConfiguration
  | .error .transient => throw .qdrantTransient
  | .ok actualCount =>
      let (_, db) ← stageRaised (commitCount lease input.row actualCount db)
      if actualCount ≠ input.row.chunkCount then throw indexValidationFailed
      match input.approvedMetadata with
      | none => throw .stageConflict
      | some metadata =>
          checkBatches pointId input store metadata
            (iterVerifiedManifestBatches input.manifest 0 input.batchSize stream)
          stageRaised (commitValidated lease input.row actualCount db)

/-- The stage commits the version as validated. -/
def CommitsValidated (pointId : PointIds) (lease : JobLease) (input : IndexStageInput P)
    (store : PointStore P) (stream : List Bytes) (db : Db) : Prop :=
  ∃ job db', validateStage pointId lease input store stream db = .ok (job, db') ∧
    ∃ state ∈ db'.indexStates, state.key = (input.row.versionId, input.row.generationId) ∧
      state.status = .validated

/-! ## One point -/

/-- SHA-256 tells the payloads of the store from those of the chunks. -/
def NoCollision (input : IndexStageInput P) (store : PointStore P) (chunks : List (Chunk P)) : Prop :=
  ∀ point ∈ store.points, ∀ payload, point.payload = some payload → ∀ chunk ∈ chunks, ∀ metadata,
    input.approvedMetadata = some metadata → ∀ stored wanted,
      canonicalJsonBytes P payload.json = some stored →
      canonicalJsonBytes P (input.payload chunk metadata).json = some wanted →
      P.sha256 stored = P.sha256 wanted → stored = wanted

section Point

variable {pointId : PointIds} {input : IndexStageInput P} {metadata payload : Mapping P}
  {chunk : Chunk P} {point : StoredPoint P} {retrieved : RetrievedPoint}

/-- What passes the checks can be written. -/
theorem isSome_dumps_of_validated {id : ℕ} {valid : PointPayload P}
    (h : validatedPointPayload pointId id payload = some valid) :
    (Json.dumps P.floats payload.json).isSome = true := by
  simp only [validatedPointPayload, Option.bind_eq_bind, Option.bind_eq_some_iff] at h
  obtain ⟨_, -, _, -, _, -, _, -, _, -, _, -, _, -, _, -, _, -, _, -, _, -, h⟩ := h
  split at h
  · rename_i hchecks
    rw [Bool.and_eq_true] at hchecks
    exact hchecks.2
  · cases h

/-- Dictionaries with one canonical form are one dictionary. -/
theorem sorted_eq_of_canonicalJsonBytes {other : Mapping P} {data : Bytes}
    (h : canonicalJsonBytes P payload.json = some data)
    (h' : canonicalJsonBytes P other.json = some data) : payload.sorted = other.sorted := by
  have hread := loadsBytes_canonical payload.unique h
  rw [loadsBytes_canonical other.unique h', Option.some.injEq] at hread
  apply Mapping.ext_json
  rw [Mapping.json_sorted, Mapping.json_sorted]
  exact hread.symm

theorem checkPoint_eq_ok : checkPoint pointId input metadata chunk retrieved = .ok () ↔
    retrieved.id = input.chunkPointId pointId chunk ∧ retrieved.vectorDimension = input.dimension ∧
      canonicalSha256 P (input.payload chunk metadata).json = some retrieved.payloadDigest := by
  rw [checkPoint]
  cases canonicalSha256 P (input.payload chunk metadata).json with
  | none => simp
  | some digest =>
      dsimp only
      rw [Option.some.injEq]
      split
      · rename_i h
        constructor
        · intro h'
          cases h'
        · rintro ⟨hid, hdimension, hdigest⟩
          rcases h with h | h | h
          · exact absurd hid h
          · exact absurd hdimension h
          · exact absurd hdigest.symm h
      · rename_i h
        simp only [not_or, not_not] at h
        exact ⟨fun _ => ⟨h.1, h.2.1, h.2.2.symm⟩, fun _ => rfl⟩

theorem qdrantPointFor_eq_some {vector : List P.Float} {embedded : QdrantPoint P} :
    input.qdrantPointFor pointId chunk vector metadata = some embedded ↔
      vector.length = input.dimension ∧ vector.any (fun x => !P.floats.isFinite x) = false ∧
        (∃ valid, validatedPointPayload pointId (input.chunkPointId pointId chunk)
          (input.payload chunk metadata) = some valid) ∧
        embedded = ⟨input.chunkPointId pointId chunk, vector, input.payload chunk metadata⟩ := by
  have hpos := input.dimension_le.1
  rw [IndexStageInput.qdrantPointFor, QdrantPoint.make]
  constructor
  · intro h
    split at h
    · cases h
    rename_i hlength
    split at h
    · cases h
    rename_i hvector
    obtain ⟨valid, hvalid, rfl⟩ := Option.map_eq_some_iff.mp h
    rw [not_or, Bool.not_eq_true] at hvector
    exact ⟨not_not.mp hlength, hvector.2, ⟨valid, hvalid⟩, rfl⟩
  · rintro ⟨hlength, hvector, ⟨valid, hvalid⟩, rfl⟩
    have hne : vector ≠ [] := List.ne_nil_of_length_pos (by omega)
    rw [if_neg (not_not.mpr hlength), if_neg (by simp [hne, hvector]), hvalid]
    rfl

/-- **A stored point passes the comparison** with a chunk exactly if it is one that the embed stage
writes for the chunk. -/
theorem embeddedAs_iff {store : PointStore P} {chunks : List (Chunk P)}
    (hcollision : NoCollision input store chunks) (happroved : input.approvedMetadata = some metadata)
    (hpoint : point ∈ store.points) (hchunk : chunk ∈ chunks) :
    input.EmbeddedAs pointId chunk point ↔ ∃ retrieved,
      retrievedPoint pointId input.row.versionId point = some retrieved ∧
        checkPoint pointId input metadata chunk retrieved = .ok () := by
  constructor
  · rintro ⟨metadata', embedded, payload, happroved', hembedded, hid, hpayload, hsorted⟩
    obtain rfl : metadata' = metadata := Option.some.inj (happroved'.symm.trans happroved)
    obtain ⟨hlength, -, ⟨valid, hvalid⟩, rfl⟩ := qdrantPointFor_eq_some.mp hembedded
    obtain ⟨-, hversion, -⟩ := validatedPointPayload_qdrantPointPayload hvalid
    obtain ⟨valid', hvalid', hsame⟩ := validatedPointPayload_of_sorted_eq hsorted.symm hvalid
    obtain ⟨text, htext⟩ := Option.isSome_iff_exists.mp (isSome_dumps_of_validated hvalid)
    have hdigest : canonicalSha256 P (input.payload chunk metadata').json =
        canonicalSha256 P payload.json := by
      rw [← canonicalSha256_sorted, ← canonicalSha256_sorted payload.json, ← Mapping.json_sorted,
        ← Mapping.json_sorted, hsorted]
    obtain ⟨digest, hsome⟩ : ∃ digest, canonicalSha256 P (input.payload chunk metadata').json =
        some digest := by
      have hcanonical : (Json.dumps P.floats (input.payload chunk metadata').json.sorted).isSome =
          true := (Json.isSome_dumps_sorted _).mpr (isSome_dumps_of_validated hvalid)
      obtain ⟨written, hwritten⟩ := Option.isSome_iff_exists.mp hcanonical
      exact ⟨_, by rw [canonicalSha256, canonicalJsonBytes, hwritten, Option.map_some, Option.map_some]⟩
    refine ⟨⟨input.chunkPointId pointId chunk, point.vector.length, digest⟩, ?_, ?_⟩
    · refine retrievedPoint_eq_some.mpr ⟨hid, ?_, ?_, rfl, payload, valid', hpayload, hvalid',
        hsame.trans hversion, hdigest ▸ hsome⟩
      · have := input.dimension_le
        omega
      · have := input.dimension_le
        omega
    · exact checkPoint_eq_ok.mpr ⟨rfl, hlength, hsome⟩
  · rintro ⟨retrieved, hretrieved, hcheck⟩
    obtain ⟨hid, -, -, hdimension, payload, valid, hpayload, hvalid, hversion, hdigest⟩ :=
      retrievedPoint_eq_some.mp hretrieved
    obtain ⟨hretrievedId, hlength, hwanted⟩ := checkPoint_eq_ok.mp hcheck
    obtain ⟨stored, hstored, hstoredDigest⟩ := Option.map_eq_some_iff.mp hdigest
    obtain ⟨wanted, hwantedBytes, hwantedDigest⟩ := Option.map_eq_some_iff.mp hwanted
    have hsame : stored = wanted := hcollision point hpoint payload hpayload chunk hchunk metadata
      happroved stored wanted hstored hwantedBytes (hstoredDigest.trans hwantedDigest.symm)
    have hsorted : payload.sorted = (input.payload chunk metadata).sorted :=
      sorted_eq_of_canonicalJsonBytes hstored (hsame ▸ hwantedBytes)
    rw [hretrievedId] at hvalid hid
    obtain ⟨valid', hvalid', -⟩ := validatedPointPayload_of_sorted_eq hsorted hvalid
    have hfinite : point.vector.any (fun x => !P.floats.isFinite x) = false := by
      simpa using point.vector_finite
    exact ⟨metadata, _, payload, happroved, qdrantPointFor_eq_some.mpr
      ⟨hdimension.symm.trans hlength, hfinite, ⟨valid', hvalid'⟩, rfl⟩, hid, hpayload, hsorted⟩

/-- A point of a chunk has the chunk's identity and is one of the version. -/
theorem IndexStageInput.EmbeddedAs.identity (h : input.EmbeddedAs pointId chunk point) :
    point.id = .uuid (input.chunkPointId pointId chunk) ∧
      point.ofVersion input.row.versionId = true := by
  obtain ⟨metadata, embedded, payload, -, hembedded, hid, hpayload, hsorted⟩ := h
  obtain ⟨-, -, -, rfl⟩ := qdrantPointFor_eq_some.mp hembedded
  refine ⟨hid, ?_⟩
  have hversion : strField? payload "version_id" = some (uuidText input.row.versionId) := by
    rw [← strField?_sorted, hsorted, strField?_sorted]
    exact strField?_qdrantPointPayload _ _ (by simp [qdrantPointPayload])
  have hlookup : payload.members.lookup "version_id".toList =
      some (.str (uuidText input.row.versionId)) := by
    rw [strField?] at hversion
    split at hversion
    · rename_i hlookup
      cases hversion
      exact hlookup
    · cases hversion
  rw [StoredPoint.ofVersion, hpayload, Option.bind_some, hlookup]
  simp [matchesText]

end Point

/-! ## The batches -/

section Batches

variable {pointId : PointIds} {input : IndexStageInput P} {metadata : Mapping P}
  {store : PointStore P}

/-- A point of the store passes the comparison with the chunk. -/
def Confirmed (pointId : PointIds) (input : IndexStageInput P) (store : PointStore P)
    (metadata : Mapping P) (chunk : Chunk P) : Prop :=
  ∃ point ∈ store.points, ∃ retrieved,
    retrievedPoint pointId input.row.versionId point = some retrieved ∧
      checkPoint pointId input metadata chunk retrieved = .ok ()

theorem checkPoints_eq_ok : ∀ {chunks : List (Chunk P)} {records : List RetrievedPoint},
    checkPoints pointId input metadata chunks records = .ok () ↔
      List.Forall₂ (fun chunk r => checkPoint pointId input metadata chunk r = .ok ())
        chunks records := by
  intro chunks
  induction chunks with
  | nil =>
      intro records
      cases records with
      | nil => exact ⟨fun _ => .nil, fun _ => rfl⟩
      | cons r records => constructor <;> intro h <;> cases h
  | cons chunk chunks ih =>
      intro records
      cases records with
      | nil => constructor <;> intro h <;> cases h
      | cons r records =>
          rw [checkPoints, Fallible.bind_ok_iff, List.forall₂_cons, ← ih]
          exact ⟨fun ⟨_, hpoint, hrest⟩ => ⟨hpoint, hrest⟩, fun ⟨hpoint, hrest⟩ => ⟨_, hpoint, hrest⟩⟩

/-- **A batch passes** when each of its chunks does. -/
theorem checkBatch_eq_ok {batch : List (Chunk P)}
    (hlength : 1 ≤ batch.length ∧ batch.length ≤ maxPointRetrieveBatch)
    (hids : (batch.map (input.chunkPointId pointId)).Nodup) :
    checkBatch pointId input store metadata batch = .ok () ↔
      ∀ chunk ∈ batch, Confirmed pointId input store metadata chunk := by
  have hrequest : 1 ≤ (batch.map (input.chunkPointId pointId)).length ∧
      (batch.map (input.chunkPointId pointId)).length ≤ maxPointRetrieveBatch := by
    rw [List.length_map]
    exact hlength
  rw [checkBatch]
  constructor
  · intro h chunk hchunk
    split at h
    · cases h
    · cases h
    rename_i actual hactual
    have hretrieved := (retrieveVersionPoints_eq_ok hrequest hids).mp hactual
    rw [List.forall₂_map_left_iff] at hretrieved
    obtain ⟨r, hr, hcheck⟩ := Fallible.exists_of_mem_left (checkPoints_eq_ok.mp h) hchunk
    obtain ⟨_, -, -, point, hpoint, hpointRetrieved⟩ := Fallible.exists_of_mem_right hretrieved hr
    exact ⟨point, hpoint, r, hpointRetrieved, hcheck⟩
  · intro hall
    have hrecords : ∀ chunk ∈ batch, ∃ r, (∃ point ∈ store.points,
        retrievedPoint pointId input.row.versionId point = some r) ∧
          checkPoint pointId input metadata chunk r = .ok () := by
      intro chunk hchunk
      obtain ⟨point, hpoint, r, hretrieved, hcheck⟩ := hall chunk hchunk
      exact ⟨r, ⟨point, hpoint, hretrieved⟩, hcheck⟩
    obtain ⟨records, hforall⟩ := Fallible.exists_forall₂ hrecords
    have hactual : retrieveVersionPoints pointId store input.row.versionId
        (batch.map (input.chunkPointId pointId)) = .ok records := by
      rw [retrieveVersionPoints_eq_ok hrequest hids, List.forall₂_map_left_iff]
      exact hforall.imp fun chunk r h => ⟨(checkPoint_eq_ok.mp h.2).1, h.1⟩
    rw [hactual]
    exact checkPoints_eq_ok.mpr (hforall.imp fun _ _ h => h.2)

/-- **The loop passes** when every chunk of the manifest does. -/
theorem checkBatches_eq_ok {batchSize : ℕ} {chunks : List (Chunk P)} {batches : List (List (Chunk P))}
    (hbatched : Batched batchSize chunks batches) (hsize : batchSize ≤ maxPointRetrieveBatch)
    (hids : (chunks.map (input.chunkPointId pointId)).Nodup) :
    checkBatches pointId input store metadata ⟨batches, .done⟩ = .ok () ↔
      ∀ chunk ∈ chunks, Confirmed pointId input store metadata chunk := by
  have hbatch : ∀ batch ∈ batches, (checkBatch pointId input store metadata batch = .ok () ↔
      ∀ chunk ∈ batch, Confirmed pointId input store metadata chunk) := by
    intro batch hbatch
    obtain ⟨hne, hle⟩ := hbatched.bounded batch hbatch
    refine checkBatch_eq_ok ⟨List.length_pos_of_ne_nil hne, hle.trans hsize⟩ ?_
    have hsublist : batch.Sublist chunks := by
      rw [← hbatched.flatten_eq]
      exact List.sublist_flatten_of_mem hbatch
    exact (hsublist.map _).nodup hids
  have hloop : checkBatches pointId input store metadata ⟨batches, .done⟩ = .ok () ↔
      batches.forM (checkBatch pointId input store metadata) = .ok () := by
    rw [checkBatches, Fallible.bind_ok_iff]
    exact ⟨fun ⟨_, h, _⟩ => h, fun h => ⟨_, h, rfl⟩⟩
  rw [hloop, Fallible.forM_ok_iff, ← hbatched.flatten_eq]
  constructor
  · intro h chunk hchunk
    obtain ⟨batch, hmem, hchunk⟩ := List.mem_flatten.mp hchunk
    exact (hbatch batch hmem).mp (h batch hmem) chunk hchunk
  · intro h batch hmem
    exact (hbatch batch hmem).mpr fun chunk hchunk => h chunk (List.mem_flatten.mpr ⟨batch, hmem, hchunk⟩)

end Batches

/-! ## The count -/

section Count

variable {pointId : PointIds} {input : IndexStageInput P} {store : PointStore P}
  {chunks : List (Chunk P)}

/-- **Counting is enough**: when every chunk has its point, the points of the version are exactly these
if there are as many of them as chunks. -/
theorem exactlyEmbedded_iff (hids : (chunks.map (input.chunkPointId pointId)).Nodup) :
    input.ExactlyEmbedded pointId store chunks ↔
      store.points.countP (·.ofVersion input.row.versionId) = chunks.length ∧
        ∀ chunk ∈ chunks, ∃ point ∈ store.points, input.EmbeddedAs pointId chunk point := by
  have hwanted : ((chunks.map (input.chunkPointId pointId)).map StoredId.uuid).Nodup :=
    hids.map fun a b h => StoredId.uuid.inj h
  have hstored : ((store.points.filter (·.ofVersion input.row.versionId)).map (·.id)).Nodup :=
    nodup_filter store.ids_nodup _
  have hidentity : ∀ {id}, id ∈ (chunks.map (input.chunkPointId pointId)).map StoredId.uuid ↔
      ∃ chunk ∈ chunks, id = .uuid (input.chunkPointId pointId chunk) := by
    simp [eq_comm]
  rw [List.countP_eq_length_filter]
  constructor
  · rintro ⟨hpoints, hchunks⟩
    refine ⟨?_, fun chunk hchunk => ?_⟩
    · have hperm := (List.perm_ext_iff_of_nodup hstored hwanted).mpr fun id => by
        rw [hidentity, List.mem_map]
        constructor
        · rintro ⟨point, hpoint, rfl⟩
          rw [List.mem_filter] at hpoint
          obtain ⟨chunk, hchunk, hembedded⟩ := hpoints point hpoint.1 hpoint.2
          exact ⟨chunk, hchunk, hembedded.identity.1⟩
        · rintro ⟨chunk, hchunk, rfl⟩
          obtain ⟨point, hpoint, hversion, hembedded⟩ := hchunks chunk hchunk
          exact ⟨point, List.mem_filter.mpr ⟨hpoint, hversion⟩, hembedded.identity.1⟩
      simpa using hperm.length_eq
    · obtain ⟨point, hpoint, -, hembedded⟩ := hchunks chunk hchunk
      exact ⟨point, hpoint, hembedded⟩
  · rintro ⟨hcount, hchunks⟩
    constructor
    · intro point hpoint hversion
      have hsub : (chunks.map (input.chunkPointId pointId)).map StoredId.uuid ⊆
          (store.points.filter (·.ofVersion input.row.versionId)).map (·.id) := by
        intro id hid
        obtain ⟨chunk, hchunk, rfl⟩ := hidentity.mp hid
        obtain ⟨point, hpoint, hembedded⟩ := hchunks chunk hchunk
        obtain ⟨hpointId, hpointVersion⟩ := hembedded.identity
        exact List.mem_map.mpr ⟨point, List.mem_filter.mpr ⟨hpoint, hpointVersion⟩, hpointId⟩
      have hperm := (hwanted.subperm hsub).perm_of_length_le (by simp [hcount])
      have hmem : point.id ∈ (store.points.filter (·.ofVersion input.row.versionId)).map (·.id) :=
        List.mem_map_of_mem (List.mem_filter.mpr ⟨hpoint, hversion⟩)
      obtain ⟨chunk, hchunk, hid⟩ := hidentity.mp (hperm.mem_iff.mpr hmem)
      obtain ⟨other, hother, hembedded⟩ := hchunks chunk hchunk
      -- the chunk's point has the same identity, and there is one point with it
      have hsame : other = point :=
        row_unique store.ids_nodup hother hpoint (hembedded.identity.1.trans hid.symm)
      exact ⟨chunk, hchunk, hsame ▸ hembedded⟩
    · intro chunk hchunk
      obtain ⟨point, hpoint, hembedded⟩ := hchunks chunk hchunk
      exact ⟨point, hpoint, hembedded.identity.2, hembedded⟩

end Count

/-! ## The size of a manifest -/

theorem length_le_length_dumpsStr (s : Str) : s.length ≤ (Json.dumpsStr s).length := by
  have hescape : ∀ c : Char, 1 ≤ (Json.escapeChar c).length := by
    intro c
    unfold Json.escapeChar
    repeat' split
    all_goals simp
  have hbody : s.length ≤ (s.flatMap Json.escapeChar).length := by
    induction s with
    | nil => simp
    | cons c s ih =>
        have := hescape c
        rw [List.flatMap_cons, List.length_append, List.length_cons]
        omega
  rw [Json.dumpsStr, List.length_cons, List.length_append]
  omega

theorem length_keys_le_dumpsMembers {F : Type} (ops : FloatOps F) {members : JsonMembers F} :
    ∀ {written : Str}, Json.dumpsMembers ops members = some written →
      (members.map (·.1.length)).sum ≤ written.length := by
  induction members with
  | nil =>
      intro written _
      simp
  | cons m members ih =>
      intro written h
      obtain ⟨key, value⟩ := m
      simp only [Json.dumpsMembers, Option.bind_eq_bind, Option.bind_eq_some_iff] at h
      obtain ⟨first, -, rest, hrest, h⟩ := h
      cases h
      have hkey := length_le_length_dumpsStr key
      have hlength := ih hrest
      simp only [List.map_cons, List.sum_cons, List.length_cons, List.length_append]
      omega

/-- An object is written with all its keys. -/
theorem length_keys_le_dumps {F : Type} (ops : FloatOps F) {members : JsonMembers F} {written : Str}
    (h : Json.dumps ops (.obj members) = some written) :
    (members.map (·.1.length)).sum ≤ written.length := by
  cases members with
  | nil => simp
  | cons m members =>
      obtain ⟨key, value⟩ := m
      simp only [Json.dumps, Option.bind_eq_bind, Option.bind_eq_some_iff] at h
      obtain ⟨first, -, rest, hrest, h⟩ := h
      cases h
      have hkey := length_le_length_dumpsStr key
      have hlength := length_keys_le_dumpsMembers ops hrest
      simp only [List.map_cons, List.sum_cons, List.length_cons, List.length_append]
      omega

/-- The keys of a record alone are 65 characters. -/
theorem length_record_ge {chunk : Chunk P} {line : Bytes}
    (h : chunkManifestRecordBytes chunk = some line) : 65 ≤ line.length := by
  rw [chunkManifestRecordBytes, canonicalLine] at h
  obtain ⟨data, hdata, rfl⟩ := Option.map_eq_some_iff.mp h
  obtain ⟨written, hwritten, rfl⟩ := Option.map_eq_some_iff.mp hdata
  rw [Chunk.asRecord, Json.sorted_obj] at hwritten
  have hkeys := length_keys_le_dumps P.floats hwritten
  rw [((Json.sortKeys_perm _).map _).sum_eq, List.map_map] at hkeys
  have hsum : 65 ≤ written.length := le_trans (le_of_eq rfl) hkeys
  have hencode := length_le_encode written
  rw [List.length_append, List.length_singleton]
  omega

theorem RecordsFrom.length_ge {index : ℕ} {lines : List Bytes} {chunks : List (Chunk P)}
    (h : RecordsFrom index lines chunks) : 65 * chunks.length ≤ lines.flatten.length := by
  induction h with
  | nil index => simp
  | cons hline hindex hrest ih =>
      have := length_record_ge hline
      rw [List.flatten_cons, List.length_append, List.length_cons]
      omega

/-- **A manifest that can be read** has no more chunks than a version may have points. -/
theorem CanonicalManifest.count_le {expected : ManifestExpectation P} {data header : Bytes}
    {records : List Bytes} {document : Mapping P} {chunks : List (Chunk P)}
    (h : CanonicalManifest expected data header records document chunks)
    (hsize : data.length ≤ maxChunkManifestBytes) : chunks.length ≤ maxVersionPoints := by
  have hrecords := h.recordsFrom.length_ge
  rw [h.data_eq, List.flatten_cons, List.length_append, maxChunkManifestBytes] at hsize
  rw [maxVersionPoints]
  omega

/-! ## The commits -/

section Commits

variable {lease : JobLease} {expected : EmbedIndexStageInput} {db db₁ : Db} {job : Job} {count : ℕ}

/-- A state of a version is replaced. -/
def setIndexState (db : Db) (state : IndexState) : Db :=
  { db with indexStates := setRow IndexState.key state db.indexStates }

/-- What the commit of the count has found and written. -/
theorem commitCount_found (hkeys : db.WellKeyed)
    (h : commitCount lease expected count db = .ok (job, db₁)) :
    ∃ graph : StageGraph, stageLease lease .validate expected.versionId expected.generationId = true ∧
      job ∈ db.jobs ∧ stageFence db.now lease job = true ∧ graph.In db ∧ graph.Ready ∧
      (graph.knowledgeBase.id = expected.knowledgeBaseId ∧ graph.generation.id = expected.generationId ∧
        graph.document.id = expected.documentId ∧ graph.version.id = expected.versionId) ∧
      indexedSnapshot expected graph = true ∧
      db₁ = setIndexState db { graph.state with actualPointCount := some count } := by
  rw [commitCount] at h
  split at h
  swap
  · cases h
  rename_i hlease
  have hwrites : ∀ r db', commitValidateCount expected count db = .ok (r, db') →
      ∃ graph : StageGraph, lockStageGraph db expected.knowledgeBaseId expected.generationId
        expected.documentId expected.versionId = .ok graph ∧ indexedSnapshot expected graph = true ∧
        db' = setIndexState db { graph.state with actualPointCount := some count } := by
    intro r db' haction
    obtain ⟨graph, hlock, haction⟩ := bind_eq_ok.mp haction
    split at haction
    · rename_i hcond
      cases haction
      exact ⟨graph, hlock, hcond.1, rfl⟩
    · cases haction
  obtain ⟨J, hJ, hfence, rfl, r, db', haction, rfl⟩ := stageCommit_eq_ok hkeys.jobs h (fun _ => rfl)
    fun r db' haction => by
      obtain ⟨graph, -, -, rfl⟩ := hwrites r db' haction
      exact ⟨rfl, rfl⟩
  obtain ⟨graph, hlock, hindexed, rfl⟩ := hwrites r db' haction
  obtain ⟨hin, hready, hids⟩ := lockStageGraph_eq_ok hlock
  refine ⟨graph, hlease, hJ, hfence, hin, hready, hids, hindexed, ?_⟩
  have hjobs : setRow (·.id) job db.jobs = db.jobs := setRow_self hkeys.jobs hJ
  simp only [Db.setJob, setIndexState, id_eq, hjobs]

/-- **After the count the version can be committed as validated**, if it is the number of chunks. -/
theorem commitValidated_of_commitCount (hkeys : db.WellKeyed)
    (h : commitCount lease expected expected.chunkCount db = .ok (job, db₁)) :
    ∃ job' db₂, commitValidated lease expected expected.chunkCount db₁ = .ok (job', db₂) ∧
      ∃ state ∈ db₂.indexStates, state.key = (expected.versionId, expected.generationId) ∧
        state.status = .validated := by
  obtain ⟨graph, hlease, hJ, hfence, hin, hready, ⟨hkb, hgeneration, hdocument, hversion⟩, hindexed,
    rfl⟩ := commitCount_found hkeys h
  let counted : IndexState := { graph.state with actualPointCount := some expected.chunkCount }
  let validated : IndexState := { counted with status := .validated, validatedAt := some db.now }
  have hkeys' : (setIndexState db counted).WellKeyed :=
    { hkeys with indexStates := nodup_setRow hkeys.indexStates counted }
  have hcounted : counted ∈ (setIndexState db counted).indexStates :=
    mem_setRow_self hin.state rfl
  have hin' : StageGraph.In { graph with state := counted } (setIndexState db counted) :=
    ⟨hin.knowledgeBase, hin.generation, hin.document, hin.version, hcounted, hin.key⟩
  have hlock := lockStageGraph_ok hkeys' hin' hready
  dsimp only at hlock
  rw [hkb, hgeneration, hdocument, hversion] at hlock
  have haction : commitValidateStage expected expected.chunkCount (setIndexState db counted) =
      .ok ((), setIndexState (setIndexState db counted) validated) := by
    rw [commitValidateStage, hlock]
    exact if_pos ⟨hindexed, rfl, rfl⟩
  have hprogress : validProgress expected.chunkCount (some expected.chunkCount) = true := by
    simp [validProgress]
  let advanced : Job :=
    checkpointValues (some .activate) (some .activate) expected.chunkCount (some expected.chunkCount) job
  have hadvance : advanceStage lease (commitValidateStage expected expected.chunkCount) .activate
      .activate expected.chunkCount (some expected.chunkCount) (setIndexState db counted) =
        .ok (advanced, (setIndexState (setIndexState db counted) validated).setJob advanced) :=
    advanceStage_ok hkeys'.jobs hJ hfence haction rfl rfl hprogress
  have hcommit : commitValidated lease expected expected.chunkCount (setIndexState db counted) =
      .ok (advanced, (setIndexState (setIndexState db counted) validated).setJob advanced) := by
    rw [commitValidated, if_pos hlease]
    exact hadvance
  have hkey : validated.key = (expected.versionId, expected.generationId) := by
    rw [← hversion, ← hgeneration]
    exact hin.key
  exact ⟨advanced, _, hcommit, validated, mem_setRow_self hcounted rfl, hkey, rfl⟩

end Commits

/-! ## The stage commits exactly the exact versions -/

section Stage

variable {pointId : PointIds} {lease : JobLease} {input : IndexStageInput P} {store : PointStore P}
  {stream : List Bytes} {db db₁ : Db} {job : Job}

/-- What the stage asks for, where its first commit is accepted. -/
theorem validateStage_eq_ok (hkeys : db.WellKeyed) (hready : validateReady input.row = true)
    (hcount : commitCount lease input.row
      (store.points.countP (·.ofVersion input.row.versionId)) db = .ok (job, db₁)) :
    CommitsValidated pointId lease input store stream db ↔
      store.points.countP (·.ofVersion input.row.versionId) ≤ maxVersionPoints ∧
        store.points.countP (·.ofVersion input.row.versionId) = input.row.chunkCount ∧
        ∃ metadata, input.approvedMetadata = some metadata ∧
          checkBatches pointId input store metadata
            (iterVerifiedManifestBatches input.manifest 0 input.batchSize stream) = .ok () := by
  rw [CommitsValidated, validateStage, if_neg (by simp [hready]), countVersionPoints]
  dsimp only
  generalize store.points.countP (·.ofVersion input.row.versionId) = count at *
  by_cases hmax : count ≤ maxVersionPoints
  swap
  · simp [hmax, throw, throwThe, MonadExceptOf.throw]
  rw [if_pos hmax]
  by_cases hchunks : count = input.row.chunkCount
  swap
  · simp [hchunks, hcount, stageRaised, throw, throwThe, MonadExceptOf.throw, bind, Except.bind]
  subst hchunks
  cases hmetadata : input.approvedMetadata with
  | none =>
      simp [hcount, stageRaised, throw, throwThe, MonadExceptOf.throw, bind, Except.bind]
  | some metadata =>
      obtain ⟨job', db₂, hvalidated, state, hstate, hkey, hstatus⟩ :=
        commitValidated_of_commitCount hkeys hcount
      cases hbatches : checkBatches pointId input store metadata
          (iterVerifiedManifestBatches input.manifest 0 input.batchSize stream) with
      | error e =>
          simp [hcount, hbatches, stageRaised, bind, Except.bind]
      | ok a =>
          have hexists : ∃ state ∈ db₂.indexStates,
              state.key = (input.row.versionId, input.row.generationId) ∧ state.status = .validated :=
            ⟨state, hstate, hkey, hstatus⟩
          simp [hcount, hbatches, hvalidated, hmax, hexists, stageRaised, bind, Except.bind]

end Stage

/-- **Index validation is exact.**  The rows are as the stage expects them and the count can be
committed, the manifest is read to its end, its chunks have different points, and SHA-256 tells the
payloads apart: then the stage commits the version as validated exactly if the points that the vector
store has for the version are those that the embed stage writes for the chunks, no more, no fewer and
none of them altered. -/
theorem validateStage_exact {pointId : PointIds} {lease : JobLease} {input : IndexStageInput P}
    {store : PointStore P} {stream : List Bytes} {db db₁ : Db} {job : Job} {chunks : List (Chunk P)}
    (hkeys : db.WellKeyed) (hready : validateReady input.row = true)
    (hsize : stream.flatten.length ≤ maxChunkManifestBytes)
    (hmanifest : (iterVerifiedManifestBatches input.manifest 0 input.batchSize stream).outcome = .done)
    (hchunks : (iterVerifiedManifestBatches input.manifest 0 input.batchSize stream).items.flatten =
      chunks)
    (hids : (chunks.map (input.chunkPointId pointId)).Nodup)
    (hcollision : NoCollision input store chunks)
    (hcount : commitCount lease input.row
      (store.points.countP (·.ofVersion input.row.versionId)) db = .ok (job, db₁)) :
    CommitsValidated pointId lease input store stream db ↔
      input.ExactlyEmbedded pointId store chunks := by
  obtain ⟨hbounds, header, records, document, chunks', hcanonical⟩ := canonicalManifest_of_accepted hmanifest
  obtain ⟨batches, hread, hbatched⟩ := hcanonical.accepted hbounds rfl
  rw [List.drop_zero] at hbatched
  rw [hread, hbatched.flatten_eq] at hchunks
  subst hchunks
  have hlength : chunks'.length = input.row.chunkCount := hcanonical.count.trans input.chunkCount_eq
  have hbound := hcanonical.count_le hsize
  have hbatches : ∀ metadata, checkBatches pointId input store metadata ⟨batches, .done⟩ = .ok () ↔
      ∀ chunk ∈ chunks', Confirmed pointId input store metadata chunk :=
    fun metadata => checkBatches_eq_ok hbatched hbounds.2.2 hids
  rw [validateStage_eq_ok hkeys hready hcount, exactlyEmbedded_iff hids, hread, hlength]
  constructor
  · rintro ⟨-, hall, metadata, happroved, hpassed⟩
    refine ⟨hall, fun chunk hchunk => ?_⟩
    obtain ⟨point, hpoint, hconfirmed⟩ := (hbatches metadata).mp hpassed chunk hchunk
    exact ⟨point, hpoint, (embeddedAs_iff hcollision happroved hpoint hchunk).mpr hconfirmed⟩
  · rintro ⟨hall, hembedded⟩
    obtain ⟨chunk, hchunk⟩ := List.exists_mem_of_length_pos (hlength ▸ input.chunkCount_pos)
    obtain ⟨-, -, metadata, -, -, happroved, -⟩ := hembedded chunk hchunk
    refine ⟨by omega, hall, metadata, happroved, (hbatches metadata).mpr fun chunk hchunk => ?_⟩
    obtain ⟨point, hpoint, hpointEmbedded⟩ := hembedded chunk hchunk
    exact ⟨point, hpoint, (embeddedAs_iff hcollision happroved hpoint hchunk).mp hpointEmbedded⟩

/-! ## A version of two points -/

/-- A digest for which the order of the bytes does not matter is that of the unsorted document. -/
theorem canonicalSha256_of_perm
    (hperm : ∀ data data' : Bytes, data.Perm data' → P.sha256 data = P.sha256 data')
    {value : Json P.Float} {text : Str} (h : Json.dumps P.floats value = some text) :
    canonicalSha256 P value = some (P.sha256 (encode text)) := by
  obtain ⟨sorted, hsorted, hmoved⟩ := Json.perm_dumps_sorted value text h
  rw [canonicalSha256, canonicalJsonBytes, hsorted]
  exact congrArg some (hperm _ _ (hmoved.symm.flatMap_right _))

namespace ValidationSample

open NoteSample

/-- The rows that the stage has loaded. -/
def row : EmbedIndexStageInput :=
  ⟨1, 2, 3, 4, 5, "manifest".toList, "digest".toList, letterChecksum, "parsed".toList,
    ⟨none, none, []⟩, ⟨none, none, none⟩, "config".toList, 2, .indexing, .indexing,
    some "hash".toList, 2, "collection".toList, "hash".toList, "snapshot".toList, "filter".toList, 0,
    []⟩

def lease : JobLease :=
  ⟨6, .ingestDocument, .documentVersion, 4, none, some 2, some .validate, some .validate, 1, some 1,
    1, 5, "worker".toList, 1, 30, none, none⟩

/-- The job that the lease is for. -/
def job : Job :=
  { Job.queued 6 (some 1) none .ingestDocument .documentVersion 4 none (some 2) none (some .validate)
      (some .validate) with
    status := .running
    leaseOwner := some "worker".toList
    leaseEpoch := 1
    leaseExpiresAt := some 30 }

def db : Db :=
  { Db.empty with
    knowledgeBases := [⟨1, .active, some 2, none, 0, 0, []⟩]
    generations := [⟨2, 1, "collection".toList, .active, "hash".toList, some 5,
      some "snapshot".toList, some "hash".toList, some "filter".toList, some 0, 0, none, none, none,
      none, none, none, none, none⟩]
    documents := [⟨3, 1, some letterChecksum, none, some 4, .processing, none, [], none⟩]
    versions := [⟨4, 3, none, ⟨[], letterChecksum, none, none⟩, ⟨none, none, []⟩, none,
      some "parsed".toList, ⟨none, none, none⟩, some "manifest".toList, some "digest".toList,
      some "config".toList, some 2, .indexing, none⟩]
    indexStates := [⟨4, 2, .indexing, some 2, none, none, none, none, some "digest".toList,
      some "hash".toList, 2⟩]
    jobs := [job] }

def pointId : PointIds := fun _ index _ => 100 + index

/-- The metadata that the embed stage approves. -/
def approved : Mapping Platform.small where
  members := [("f_".toList ++ List.replicate 32 '0', .str ['x']),
    ("f_".toList ++ List.replicate 32 '1', .int 7)]
  unique := by simp [Json.UniqueKeys, Json.UniqueKeysMembers]

/-- The point that the embed stage writes for a chunk. -/
def point (x : Bool) (chunk : Chunk Platform.small) : StoredPoint Platform.small where
  id := .uuid (100 + chunk.chunkIndex)
  vector := [some x]
  payload := some (qdrantPointPayload 1 3 4 chunk approved)
  vector_finite := by cases x <;> decide

def store : PointStore Platform.small where
  points := [point false (first _), point true (second _)]
  ids_nodup := by decide
  retrieve := fun ids => [point false (first _), point true (second _)].filter fun p =>
    p.id ∈ ids.map StoredId.uuid
  retrieve_perm := fun _ => List.Perm.refl _

/-- The digest of a value, without its keys being sorted. -/
def digest (value : Json (Option Bool)) : Str :=
  byteSumDigest (encode ((Json.dumps smallFloats value).getD []))

theorem canonicalSha256_small {value : Json (Option Bool)}
    (h : (Json.dumps smallFloats value).isSome = true) :
    canonicalSha256 Platform.small value = some (digest value) := by
  obtain ⟨text, htext⟩ := Option.isSome_iff_exists.mp h
  rw [digest, htext]
  exact canonicalSha256_of_perm (fun _ _ => byteSumDigest_perm) htext

/-- The digest of a chunk under the title. -/
def chunkDigest (text : Str) : Str :=
  digest (.obj [("metadata".toList, .obj []), ("schema_version".toList, .str chunkSchemaVersion),
    ("text".toList, .str text), ("title_path".toList, .arr [.str ['A']])])

/-- The payload of a chunk under the title. -/
def payloadJson (text : Str) (index start stop : ℕ) : Json (Option Bool) :=
  .obj [
    ("knowledge_base_id".toList, .str (uuidText 1)),
    ("document_id".toList, .str (uuidText 3)),
    ("version_id".toList, .str (uuidText 4)),
    ("chunk_index".toList, .int index),
    ("chunk_hash".toList, .str (chunkDigest text)),
    ("text".toList, .str text),
    ("title_path".toList, .arr [.str ['A']]),
    ("start_offset".toList, .int start),
    ("end_offset".toList, .int stop),
    ("metadata".toList, approved.json)]

theorem payload_first :
    (qdrantPointPayload 1 3 4 (first _) approved).json = payloadJson "# A\n\n".toList 0 0 5 := by
  have hhash : (first Platform.small).chunkHash = chunkDigest "# A\n\n".toList :=
    Option.some.inj ((first Platform.small).hash_eq.symm.trans (canonicalSha256_small (by rfl)))
  rw [Mapping.json, qdrantPointPayload, hhash]
  rfl

theorem payload_second :
    (qdrantPointPayload 1 3 4 (second _) approved).json = payloadJson "\n\n😀b".toList 1 3 7 := by
  have hhash : (second Platform.small).chunkHash = chunkDigest "\n\n😀b".toList :=
    Option.some.inj ((second Platform.small).hash_eq.symm.trans (canonicalSha256_small (by rfl)))
  rw [Mapping.json, qdrantPointPayload, hhash]
  rfl

/-- The digest tells the two payloads apart. -/
theorem digest_ne : digest (payloadJson "# A\n\n".toList 0 0 5) ≠
    digest (payloadJson "\n\n😀b".toList 1 3 7) := by
  decide +kernel

theorem sha256_eq_digest {value : Json (Option Bool)} {data : Bytes}
    (hsome : (Json.dumps smallFloats value).isSome = true)
    (hdata : canonicalJsonBytes Platform.small value = some data) :
    Platform.small.sha256 data = digest value := by
  have hmap : canonicalSha256 Platform.small value = some (Platform.small.sha256 data) :=
    congrArg (Option.map Platform.small.sha256) hdata
  exact Option.some.inj (hmap.symm.trans (canonicalSha256_small hsome))

/-- The input of the stage for the two chunks. -/
structure ReadsNote (input : IndexStageInput Platform.small) : Prop where
  row : input.row = ValidationSample.row
  dimension : input.dimension = 1
  approvedMetadata : input.approvedMetadata = some approved

section Stage

variable {input : IndexStageInput Platform.small}

theorem ReadsNote.noCollision (h : ReadsNote input) : NoCollision input store [first _, second _] := by
  intro point hpoint payload hpayload chunk hchunk metadata hmetadata stored wanted hstored hwanted hsame
  obtain rfl : approved = metadata := Option.some.inj (h.approvedMetadata.symm.trans hmetadata)
  rw [IndexStageInput.payload, h.row] at hwanted
  change canonicalJsonBytes Platform.small (qdrantPointPayload 1 3 4 chunk approved).json =
    some wanted at hwanted
  simp only [store, List.mem_cons, List.not_mem_nil, or_false] at hpoint hchunk
  rcases hpoint with rfl | rfl <;> cases hpayload <;> rcases hchunk with rfl | rfl
  · exact Option.some.inj (hstored.symm.trans hwanted)
  · rw [payload_first] at hstored
    rw [payload_second] at hwanted
    rw [sha256_eq_digest (by rfl) hstored, sha256_eq_digest (by rfl) hwanted] at hsame
    exact absurd hsame digest_ne
  · rw [payload_second] at hstored
    rw [payload_first] at hwanted
    rw [sha256_eq_digest (by rfl) hstored, sha256_eq_digest (by rfl) hwanted] at hsame
    exact absurd hsame.symm digest_ne
  · exact Option.some.inj (hstored.symm.trans hwanted)

theorem ReadsNote.embeddedAs (h : ReadsNote input) (x : Bool) {chunk : Chunk Platform.small}
    (hchunk : chunk.Writable) : input.EmbeddedAs pointId chunk (point x chunk) := by
  obtain ⟨inputRow, manifest, dimension, batchSize, approvedMetadata, _, _, _⟩ := input
  obtain ⟨rfl, rfl, rfl⟩ : inputRow = ValidationSample.row ∧ dimension = 1 ∧ approvedMetadata = some approved :=
    ⟨h.row, h.dimension, h.approvedMetadata⟩
  obtain ⟨valid, hvalid, -⟩ := @validatedPointPayload_isSome Platform.small 1 3 4 chunk approved
    pointId hchunk (by rfl) (by decide +kernel)
  exact ⟨approved, _, _, rfl, qdrantPointFor_eq_some.mpr ⟨rfl, by cases x <;> rfl,
    ⟨valid, hvalid⟩, rfl⟩, rfl, rfl, rfl⟩

/-- The store has one point of the version for each chunk. -/
theorem ReadsNote.exactlyEmbedded (h : ReadsNote input) :
    input.ExactlyEmbedded pointId store [first _, second _] := by
  have hfirst : input.EmbeddedAs pointId (first _) (point false (first _)) := h.embeddedAs false rfl
  have hsecond : input.EmbeddedAs pointId (second _) (point true (second _)) := h.embeddedAs true rfl
  have hversion : ∀ point ∈ store.points, point.ofVersion input.row.versionId = true := by
    rw [h.row]
    decide +kernel
  constructor
  · intro other hother _
    simp only [store, List.mem_cons, List.not_mem_nil, or_false] at hother
    rcases hother with rfl | rfl
    · exact ⟨first _, List.mem_cons_self, hfirst⟩
    · exact ⟨second _, List.mem_cons_of_mem _ List.mem_cons_self, hsecond⟩
  · intro chunk hchunk
    simp only [List.mem_cons, List.not_mem_nil, or_false] at hchunk
    rcases hchunk with rfl | rfl
    · exact ⟨_, List.mem_cons_self, hversion _ List.mem_cons_self, hfirst⟩
    · exact ⟨_, List.mem_cons_of_mem _ List.mem_cons_self,
        hversion _ (List.mem_cons_of_mem _ List.mem_cons_self), hsecond⟩

end Stage

end ValidationSample

open ValidationSample NoteSample in
/-- Two chunks with a title and metadata, whose points have different payloads and digests. -/
theorem validateStage_exact_note : ∃ (input : IndexStageInput Platform.small) (stream : List Bytes),
    CommitsValidated pointId lease input store stream db := by
  obtain ⟨lines, expected, -, hsize, htwo, hread⟩ := @manifest Platform.small rfl letterChecksum
    (by decide)
  obtain ⟨batches, hbatches, hflatten⟩ := hread lines 1 rfl (le_refl 1) (by decide)
  let input : IndexStageInput Platform.small :=
    ⟨row, expected, 1, 1, some approved, by decide, htwo, by decide⟩
  have hnote : ReadsNote input := ⟨rfl, rfl, rfl⟩
  obtain ⟨job', db', hcount⟩ : ∃ job' db', commitCount lease row
      (store.points.countP (·.ofVersion row.versionId)) db = .ok (job', db') := by
    have hpoints : store.points.countP (·.ofVersion row.versionId) = 2 := by decide +kernel
    rw [hpoints]
    exact ⟨_, _, rfl⟩
  have hbound : lines.flatten.length ≤ maxChunkManifestBytes := hsize.trans (by decide)
  have hitems : (iterVerifiedManifestBatches input.manifest 0 input.batchSize lines).items.flatten =
      [first _, second _] := by
    rw [← hflatten]
    exact congrArg (fun read => List.flatten (Generated.items read)) hbatches
  have hids : ([first Platform.small, second Platform.small].map (input.chunkPointId pointId)).Nodup :=
    (by decide : [100, 101].Nodup)
  exact ⟨input, lines, (validateStage_exact (by constructor <;> decide) rfl hbound
    (congrArg Generated.outcome hbatches) hitems hids hnote.noCollision hcount).mpr
      hnote.exactlyEmbedded⟩

end VeloxRag.Ingestion
