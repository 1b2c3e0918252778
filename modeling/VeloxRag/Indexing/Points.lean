import VeloxRag.Platform
import VeloxRag.Ingestion.ObjectKeys

/-!
# Points

The vector store keeps points with a payload.  What it returns is checked field by field before
anything is made of it; a value of the type `SearchPoint` has passed these checks.

## Main definitions

* `PointPayload`, `validatedPointPayload` — the payload and its checks.
* `SearchPoint`, `SearchPoint.make` — a scored point.
* `QdrantAnswer`, `searchPoints` — what a query may return, and what the client makes of it.
* `searchPoints_ok` — the points that are returned.
-/

namespace VeloxRag.Indexing

open Lib Ingestion

variable {P : Platform}

/-! ## Fields of a dictionary -/

/-- `type(payload.get(key)) is str`. -/
def strField? (payload : Mapping P) (key : String) : Option Str :=
  match payload.members.lookup key.toList with
  | some (.str s) => some s
  | _ => none

/-- `type(payload.get(key)) is int`, for one that is not negative. -/
def natField? (payload : Mapping P) (key : String) : Option ℕ :=
  match payload.members.lookup key.toList with
  | some (.int (.ofNat n)) => some n
  | _ => none

/-- A canonical UUID under the key; `UUID` takes other spellings, which differ from its text. -/
def uuidField? (payload : Mapping P) (key : String) : Option ℕ :=
  (strField? payload key).bind uuidOfText

def arrField? (payload : Mapping P) (key : String) : Option (List (Json P.Float)) :=
  match payload.members.lookup key.toList with
  | some (.arr items) => some items
  | _ => none

def objField? (payload : Mapping P) (key : String) : Option (JsonMembers P.Float) :=
  match payload.members.lookup key.toList with
  | some (.obj members) => some members
  | _ => none

/-! ## Payloads -/

/-- `_POINT_PAYLOAD_KEYS`. -/
def pointPayloadKeys : List Str :=
  ["knowledge_base_id", "document_id", "version_id", "chunk_index", "chunk_hash", "text",
    "title_path", "start_offset", "end_offset", "metadata"].map String.toList

theorem pointPayloadKeys_nodup : pointPayloadKeys.Nodup := by decide +kernel

/-- `_safe_metadata_value`. -/
def safeMetadataValue : Json P.Float → Bool
  | .str s => decide (s.length ≤ 4096) && !s.contains '\x00'
  | .int n => decide (-(2 ^ 63) ≤ n ∧ n ≤ 2 ^ 63 - 1)
  | .bool _ => true
  | .float f => P.floats.isFinite f
  | _ => false

/-- `re.fullmatch(r"f_[0-9a-f]{32}", key)`. -/
def isMetadataKey (key : Str) : Bool :=
  decide (key.take 2 = "f_".toList) && decide (key.length = 34)
    && (key.drop 2).all fun c => decide ('0' ≤ c ∧ c ≤ '9') || decide ('a' ≤ c ∧ c ≤ 'f')

/-- A title of the path: a text that is not empty and has no NUL. -/
def titleOf? : Json P.Float → Option Str
  | .str s => if s = [] ∨ s.contains '\x00' then none else some s
  | _ => none

/-- The payload of a point. -/
structure PointPayload (P : Platform) where
  knowledgeBaseId : ℕ
  documentId : ℕ
  versionId : ℕ
  chunkIndex : ℕ
  chunkHash : Str
  text : Str
  titlePath : List Str
  startOffset : ℕ
  endOffset : ℕ
  metadata : JsonMembers P.Float
  text_ne : text ≠ []
  span : endOffset = startOffset + text.length

/-- `point_id`, the name-based UUID of a chunk. -/
abbrev PointIds := ℕ → ℕ → Str → ℕ

/-- `_validated_point_payload`, `none` for what it raises.  The copy through JSON fails on an
integer that is too long to be written. -/
def validatedPointPayload (pointId : PointIds) (point : ℕ) (payload : Mapping P) :
    Option (PointPayload P) := do
  let knowledgeBaseId ← uuidField? payload "knowledge_base_id"
  let documentId ← uuidField? payload "document_id"
  let versionId ← uuidField? payload "version_id"
  let chunkIndex ← natField? payload "chunk_index"
  let chunkHash ← strField? payload "chunk_hash"
  let text ← strField? payload "text"
  let titlePath ← (← arrField? payload "title_path").mapM titleOf?
  let startOffset ← natField? payload "start_offset"
  let endOffset ← natField? payload "end_offset"
  let metadata ← objField? payload "metadata"
  let keys := payload.members.map (·.1)
  if keys.all (· ∈ pointPayloadKeys) && pointPayloadKeys.all (· ∈ keys) && isSha256 chunkHash
      && decide (point = pointId versionId chunkIndex chunkHash) && !text.contains '\x00'
      && (metadata.all fun m => isMetadataKey m.1 && safeMetadataValue m.2)
      && (Json.dumps P.floats payload.json).isSome then
    if h : text ≠ [] ∧ endOffset = startOffset + text.length then
      some ⟨knowledgeBaseId, documentId, versionId, chunkIndex, chunkHash, text, titlePath,
        startOffset, endOffset, metadata, h.1, h.2⟩
    else none
  else none

/-- The fields of a payload that has passed the checks. -/
theorem validatedPointPayload_some {pointId : PointIds} {point : ℕ} {payload : Mapping P}
    {valid : PointPayload P} (h : validatedPointPayload pointId point payload = some valid) :
    uuidField? payload "document_id" = some valid.documentId ∧
      uuidField? payload "version_id" = some valid.versionId ∧
      strField? payload "text" = some valid.text ∧
      natField? payload "start_offset" = some valid.startOffset ∧
      natField? payload "end_offset" = some valid.endOffset := by
  simp only [validatedPointPayload, Option.bind_eq_bind, Option.bind_eq_some_iff] at h
  obtain ⟨kb, -, document, hdocument, version, hversion, index, -, hash, -, text, htext, titles, -,
    path, -, start, hstart, stop, hstop, metadata, -, h⟩ := h
  split at h
  · split at h
    · cases h
      exact ⟨hdocument, hversion, htext, hstart, hstop⟩
    · cases h
  · cases h

/-! ## Points of a query -/

/-- `QdrantSearchPoint`. -/
structure SearchPoint (P : Platform) where
  id : ℕ
  score : P.Float
  payload : PointPayload P
  score_finite : P.floats.isFinite score = true

def SearchPoint.make (pointId : PointIds) (id : ℕ) (score : P.Float) (payload : Mapping P) :
    Option (SearchPoint P) :=
  if h : P.floats.isFinite score = true then
    (validatedPointPayload pointId id payload).map fun payload => ⟨id, score, payload, h⟩
  else none

theorem SearchPoint.make_id {pointId : PointIds} {id : ℕ} {score : P.Float} {payload : Mapping P}
    {point : SearchPoint P} (h : SearchPoint.make pointId id score payload = some point) :
    point.id = id := by
  rw [make] at h
  split at h
  · obtain ⟨valid, -, rfl⟩ := Option.map_eq_some_iff.mp h
    rfl
  · cases h

/-- The identity of a record as the client library gives it. -/
inductive RecordId
  | uuid (n : ℕ)
  | text (s : Str)
  | int (n : ℤ)

/-- `_record_uuid`. -/
def recordUuid : RecordId → Option ℕ
  | .uuid n => some n
  | .text s => uuidOfText s
  | .int _ => none

structure RawPoint (P : Platform) where
  id : RecordId
  score : P.Float
  payload : Option (Mapping P)

/-- What the call of the client library ends with. -/
inductive QdrantAnswer (P : Platform)
  /-- An error that is mapped to `QdrantTransientError`. -/
  | unavailable
  /-- An error that is mapped to `QdrantConfigurationError`. -/
  | refused
  /-- Something other than a `QueryResponse` with a list of points. -/
  | malformed
  /-- A response; `none` is an element that is no `ScoredPoint`. -/
  | points (raws : List (Option (RawPoint P)))

inductive QdrantError
  | configuration
  | transient
deriving DecidableEq, Repr

/-- The loop of `search_points` over the points of the response. -/
def readPoints (pointId : PointIds) (knowledgeBaseId : ℕ) :
    List ℕ → List (Option (RawPoint P)) → Option (List (SearchPoint P))
  | _, [] => some []
  | _, none :: _ => none
  | seen, some raw :: raws => do
      let identifier ← recordUuid raw.id
      let point ← SearchPoint.make pointId identifier raw.score (← raw.payload)
      if identifier ∈ seen ∨ point.payload.knowledgeBaseId ≠ knowledgeBaseId then none
      else do
        let points ← readPoints pointId knowledgeBaseId (identifier :: seen) raws
        pure (point :: points)

/-- `search_points`, for the collection of a generation of the knowledge base. -/
def searchPoints (pointId : PointIds) (knowledgeBaseId limit : ℕ) :
    QdrantAnswer P → Except QdrantError (List (SearchPoint P))
  | .unavailable => .error .transient
  | .refused | .malformed => .error .configuration
  | .points raws =>
      if limit < raws.length then .error .configuration
      else
        match readPoints pointId knowledgeBaseId [] raws with
        | none => .error .configuration
        | some points => .ok points

section Points

variable {pointId : PointIds} {knowledgeBaseId : ℕ}

theorem readPoints_cons {seen : List ℕ} {raw : RawPoint P} {raws : List (Option (RawPoint P))}
    {points : List (SearchPoint P)}
    (h : readPoints pointId knowledgeBaseId seen (some raw :: raws) = some points) :
    ∃ point rest, points = point :: rest ∧ point.id ∉ seen
      ∧ point.payload.knowledgeBaseId = knowledgeBaseId
      ∧ readPoints pointId knowledgeBaseId (point.id :: seen) raws = some rest := by
  simp only [readPoints, Option.bind_eq_bind, Option.bind_eq_some_iff] at h
  obtain ⟨identifier, -, payload, -, point, hpoint, h⟩ := h
  have hid := SearchPoint.make_id hpoint
  split at h
  · cases h
  · rename_i hnot
    rw [not_or, not_not] at hnot
    obtain ⟨rest, hrest, h⟩ := Option.bind_eq_some_iff.mp h
    cases h
    refine ⟨point, rest, rfl, ?_, hnot.2, ?_⟩
    · rw [hid]
      exact hnot.1
    · rw [hid]
      exact hrest

/-- The points are as many as the response has, have different identities and belong to the
knowledge base. -/
theorem readPoints_ok {raws : List (Option (RawPoint P))} {seen : List ℕ}
    {points : List (SearchPoint P)}
    (h : readPoints pointId knowledgeBaseId seen raws = some points) :
    points.length = raws.length ∧ (points.map (·.id)).Nodup ∧ (∀ point ∈ points, point.id ∉ seen)
      ∧ ∀ point ∈ points, point.payload.knowledgeBaseId = knowledgeBaseId := by
  induction raws generalizing seen points with
  | nil =>
      cases h
      simp
  | cons raw raws ih =>
      cases raw with
      | none => cases h
      | some raw =>
          obtain ⟨point, rest, rfl, hseen, hkb, hrest⟩ := readPoints_cons h
          obtain ⟨hlength, hnodup, hnew, hall⟩ := ih hrest
          refine ⟨by simp [hlength], ?_, ?_, ?_⟩
          · rw [List.map_cons, List.nodup_cons]
            refine ⟨fun hmem => ?_, hnodup⟩
            obtain ⟨other, hother, heq⟩ := List.mem_map.mp hmem
            exact hnew other hother (heq ▸ List.mem_cons_self)
          · intro other hother
            rcases List.mem_cons.mp hother with rfl | hother
            · exact hseen
            · exact fun hmem => hnew other hother (List.mem_cons_of_mem _ hmem)
          · intro other hother
            rcases List.mem_cons.mp hother with rfl | hother
            · exact hkb
            · exact hall other hother

/-- A point that is read has the checked payload of a point of the response. -/
theorem readPoints_mem {raws : List (Option (RawPoint P))} {seen : List ℕ}
    {points : List (SearchPoint P)}
    (h : readPoints pointId knowledgeBaseId seen raws = some points) {point : SearchPoint P}
    (hpoint : point ∈ points) :
    ∃ raw payload, some raw ∈ raws ∧ raw.payload = some payload ∧
      validatedPointPayload pointId point.id payload = some point.payload := by
  induction raws generalizing seen points with
  | nil =>
      cases h
      cases hpoint
  | cons raw raws ih =>
      cases raw with
      | none => cases h
      | some raw =>
          simp only [readPoints, Option.bind_eq_bind, Option.bind_eq_some_iff] at h
          obtain ⟨identifier, -, payload, hpayload, first, hfirst, h⟩ := h
          split at h
          · cases h
          obtain ⟨rest, hrest, h⟩ := Option.bind_eq_some_iff.mp h
          cases h
          rcases List.mem_cons.mp hpoint with rfl | hpoint
          · refine ⟨raw, payload, List.mem_cons_self, hpayload, ?_⟩
            rw [SearchPoint.make] at hfirst
            split at hfirst
            · obtain ⟨valid, hvalid, rfl⟩ := Option.map_eq_some_iff.mp hfirst
              exact hvalid
            · cases hfirst
          · obtain ⟨raw', payload', hmem, hrest'⟩ := ih hrest hpoint
            exact ⟨raw', payload', List.mem_cons_of_mem _ hmem, hrest'⟩

/-- **What `search_points` returns**: at most `limit` points, no identity twice, all of the
knowledge base. -/
theorem searchPoints_ok {limit : ℕ} {answer : QdrantAnswer P} {points : List (SearchPoint P)}
    (h : searchPoints pointId knowledgeBaseId limit answer = .ok points) :
    points.length ≤ limit ∧ (points.map (·.id)).Nodup
      ∧ ∀ point ∈ points, point.payload.knowledgeBaseId = knowledgeBaseId := by
  cases answer with
  | unavailable => cases h
  | refused => cases h
  | malformed => cases h
  | points raws =>
      rw [searchPoints] at h
      split at h
      · cases h
      · rename_i hlimit
        split at h
        · cases h
        · rename_i read hread
          cases h
          obtain ⟨hlength, hnodup, -, hall⟩ := readPoints_ok hread
          exact ⟨by omega, hnodup, hall⟩

end Points

end VeloxRag.Indexing
