import VeloxRag.Ingestion.IndexedChunks
import VeloxRag.Lib.Fallible
import VeloxRag.Lib.Table

/-!
# The points of a version

The points that the vector store keeps for a version are counted, and looked up by their identities in
batches.  A record that comes back is checked as a point was when it was written, and only the digest
of its payload is kept.

## Main definitions

* `StoredPoint`, `PointStore` — what the vector store has.
* `countVersionPoints`, `retrieveVersionPoints` — the two requests.
* `validatedPointPayload_sorted` — the checks do not depend on the order of keys.
* `retrieveVersionPoints_eq_ok` — what a look-up returns.
-/

namespace VeloxRag.Indexing

open Lib Ingestion

variable {P : Platform}

/-! ## Payloads with their keys sorted -/

section Sorted

variable {payload : Mapping P}

theorem lookup_sorted_eq (payload : Mapping P) (key : Str) :
    payload.sorted.members.lookup key = (payload.members.lookup key).map Json.sorted := by
  cases hlookup : payload.members.lookup key with
  | none =>
      have hmem : key ∉ payload.sorted.members.map (·.1) := by
        rw [mem_keys_sorted]
        exact Fallible.lookup_none_iff.mp hlookup
      exact Fallible.lookup_none_iff.mpr hmem
  | some value =>
      have hmem := (Fallible.lookup_some_iff payload.unique.1).mp hlookup
      exact lookup_sorted payload hmem

theorem strField?_sorted (key : String) : strField? payload.sorted key = strField? payload key := by
  rw [strField?, strField?, lookup_sorted_eq]
  cases payload.members.lookup key.toList with
  | none => rfl
  | some value => cases value <;> rfl

theorem uuidField?_sorted (key : String) : uuidField? payload.sorted key = uuidField? payload key := by
  rw [uuidField?, uuidField?, strField?_sorted]

theorem natField?_sorted (key : String) : natField? payload.sorted key = natField? payload key := by
  rw [natField?, natField?, lookup_sorted_eq]
  cases payload.members.lookup key.toList with
  | none => rfl
  | some value => cases value <;> rfl

theorem arrField?_sorted (key : String) :
    arrField? payload.sorted key = (arrField? payload key).map (·.map Json.sorted) := by
  rw [arrField?, arrField?, lookup_sorted_eq]
  cases payload.members.lookup key.toList with
  | none => rfl
  | some value =>
      cases value with
      | arr items => rw [Option.map_some, Json.sorted_arr, Option.map_some]
      | _ => rfl

/-- The members with their keys sorted at every level. -/
def sortedMembers (members : JsonMembers P.Float) : JsonMembers P.Float :=
  Json.sortKeys (members.map fun m => (m.1, m.2.sorted))

theorem objField?_sorted (key : String) :
    objField? payload.sorted key = (objField? payload key).map sortedMembers := by
  rw [objField?, objField?, lookup_sorted_eq]
  cases payload.members.lookup key.toList with
  | none => rfl
  | some value =>
      cases value with
      | obj members =>
          rw [Option.map_some, Json.sorted_obj, Option.map_some]
          rfl
      | _ => rfl

theorem mapM_titleOf?_sorted (items : List (Json P.Float)) :
    (items.map Json.sorted).mapM titleOf? = items.mapM titleOf? := by
  have htitle : ∀ item : Json P.Float, titleOf? item.sorted = titleOf? item := by
    intro item
    cases item <;> rfl
  rw [List.mapM_map]
  congr 1
  funext item
  exact htitle item

theorem safeMetadataValue_sorted (value : Json P.Float) :
    safeMetadataValue value.sorted = safeMetadataValue value := by
  cases value <;> rfl

theorem all_sortedMembers {members : JsonMembers P.Float} :
    ((sortedMembers members).all fun m => isMetadataKey m.1 && safeMetadataValue m.2) =
      members.all fun m => isMetadataKey m.1 && safeMetadataValue m.2 := by
  rw [sortedMembers, (Json.sortKeys_perm _).all_eq, List.all_map]
  congr 1
  funext m
  rw [Function.comp_apply, safeMetadataValue_sorted]

theorem keys_sorted_all :
    ((payload.sorted.members.map (·.1)).all (· ∈ pointPayloadKeys)) =
        ((payload.members.map (·.1)).all (· ∈ pointPayloadKeys)) ∧
      (pointPayloadKeys.all (· ∈ payload.sorted.members.map (·.1))) =
        (pointPayloadKeys.all (· ∈ payload.members.map (·.1))) := by
  constructor
  · rw [Bool.eq_iff_iff]
    simp only [List.all_eq_true, mem_keys_sorted]
  · simp only [mem_keys_sorted]

/-- **The checks of a payload do not depend on the order of its keys.** -/
theorem validatedPointPayload_sorted (pointId : PointIds) (point : ℕ) (payload : Mapping P) :
    validatedPointPayload pointId point payload.sorted =
      (validatedPointPayload pointId point payload).map fun valid =>
        { valid with metadata := sortedMembers valid.metadata } := by
  have hdumps : (Json.dumps P.floats payload.sorted.json).isSome =
      (Json.dumps P.floats payload.json).isSome := by
    rw [Bool.eq_iff_iff, Mapping.json_sorted]
    exact Json.isSome_dumps_sorted _
  rw [validatedPointPayload, validatedPointPayload]
  simp only [uuidField?_sorted, natField?_sorted, strField?_sorted, arrField?_sorted, objField?_sorted,
    hdumps, keys_sorted_all.1, keys_sorted_all.2]
  -- a field that is missing is missing in both
  cases uuidField? payload "knowledge_base_id" with
  | none => rfl
  | some knowledgeBaseId =>
  cases uuidField? payload "document_id" with
  | none => rfl
  | some documentId =>
  cases uuidField? payload "version_id" with
  | none => rfl
  | some versionId =>
  cases natField? payload "chunk_index" with
  | none => rfl
  | some chunkIndex =>
  cases strField? payload "chunk_hash" with
  | none => rfl
  | some chunkHash =>
  cases strField? payload "text" with
  | none => rfl
  | some text =>
  cases arrField? payload "title_path" with
  | none => rfl
  | some items =>
  simp only [Option.map_some, Option.bind_eq_bind, Option.bind_some, mapM_titleOf?_sorted]
  cases items.mapM titleOf? with
  | none => rfl
  | some titlePath =>
  cases natField? payload "start_offset" with
  | none => rfl
  | some startOffset =>
  cases natField? payload "end_offset" with
  | none => rfl
  | some endOffset =>
  cases objField? payload "metadata" with
  | none => rfl
  | some metadata =>
  simp only [Option.map_some, Option.bind_some, all_sortedMembers]
  split
  · split <;> rfl
  · rfl

/-- Payloads that are one dictionary pass the checks together, with the same version. -/
theorem validatedPointPayload_of_sorted_eq {pointId : PointIds} {point : ℕ} {other : Mapping P}
    {valid : PointPayload P} (heq : payload.sorted = other.sorted)
    (h : validatedPointPayload pointId point payload = some valid) :
    ∃ valid', validatedPointPayload pointId point other = some valid' ∧
      valid'.versionId = valid.versionId := by
  have hsorted := validatedPointPayload_sorted pointId point payload
  rw [heq, validatedPointPayload_sorted, h, Option.map_some] at hsorted
  obtain ⟨valid', hvalid', hmap⟩ := Option.map_eq_some_iff.mp hsorted
  have hversion := congrArg PointPayload.versionId hmap
  exact ⟨valid', hvalid', hversion⟩

end Sorted

/-! ## The vector store -/

/-- The identity of a point: a UUID or a number. -/
inductive StoredId
  | uuid (n : ℕ)
  | int (n : ℕ)
deriving DecidableEq

/-- The identity in a record. -/
def StoredId.record : StoredId → RecordId
  | .uuid n => .text (uuidText n)
  | .int n => .int n

structure StoredPoint (P : Platform) where
  id : StoredId
  vector : List P.Float
  payload : Option (Mapping P)
  vector_finite : ∀ x ∈ vector, P.floats.isFinite x = true

/-- `MatchValue` of a text: the value is the text, or is a list that has it. -/
def matchesText {F : Type} (text : Str) : Json F → Bool
  | .str s => decide (s = text)
  | .arr items => items.any fun
    | .str s => decide (s = text)
    | _ => false
  | _ => false

/-- `_version_filter`. -/
def StoredPoint.ofVersion (versionId : ℕ) (point : StoredPoint P) : Bool :=
  match point.payload.bind fun payload => payload.members.lookup "version_id".toList with
  | some value => matchesText (uuidText versionId) value
  | none => false

/-- A collection that does not change.  A look-up returns the points with the identities, in some
order. -/
structure PointStore (P : Platform) where
  points : List (StoredPoint P)
  ids_nodup : (points.map (·.id)).Nodup
  retrieve : List ℕ → List (StoredPoint P)
  retrieve_perm : ∀ ids, (retrieve ids).Perm (points.filter fun p => p.id ∈ ids.map StoredId.uuid)

/-! ## Requests -/

def maxVersionPoints : ℕ := 10000000
def maxPointRetrieveBatch : ℕ := 10000

/-- `count_version_points`. -/
def countVersionPoints (store : PointStore P) (versionId : ℕ) : Except QdrantError ℕ :=
  let count := store.points.countP (·.ofVersion versionId)
  if count ≤ maxVersionPoints then .ok count else .error .configuration

/-- `QdrantRetrievedPoint`. -/
structure RetrievedPoint where
  id : ℕ
  vectorDimension : ℕ
  payloadDigest : Str
deriving DecidableEq

/-- `_retrieved_point`, with the checks of the constructor. -/
def retrievedPoint (pointId : PointIds) (versionId : ℕ) (point : StoredPoint P) :
    Option RetrievedPoint := do
  let id ← recordUuid point.id.record
  let payload ← point.payload
  if point.vector = [] ∨ point.vector.any (fun x => !P.floats.isFinite x) then none
  else
    let valid ← validatedPointPayload pointId id payload
    let digest ← canonicalSha256 P payload.json
    if valid.versionId = versionId ∧ point.vector.length ≤ 10000000 then
      some ⟨id, point.vector.length, digest⟩
    else none

/-- What a look-up raises: `ValueError` for the request, or `QdrantConfigurationError`. -/
inductive RetrieveError
  | request
  | configuration
deriving DecidableEq, Repr

/-- The loop over the records. -/
def readRecords (pointId : PointIds) (versionId : ℕ) (requested : List ℕ) :
    List RetrievedPoint → List (StoredPoint P) → Option (List RetrievedPoint)
  | found, [] => some found
  | found, record :: records => do
      let inspected ← retrievedPoint pointId versionId record
      if inspected.id ∉ requested ∨ inspected.id ∈ found.map (·.id) then none
      else readRecords pointId versionId requested (found ++ [inspected]) records

/-- `retrieve_version_points`. -/
def retrieveVersionPoints (pointId : PointIds) (store : PointStore P) (versionId : ℕ)
    (requested : List ℕ) : Except RetrieveError (List RetrievedPoint) :=
  if ¬(1 ≤ requested.length ∧ requested.length ≤ maxPointRetrieveBatch) ∨ ¬requested.Nodup then
    .error .request
  else
    let records := store.retrieve requested
    if records.length ≠ requested.length then .error .configuration
    else
      match readRecords pointId versionId requested [] records with
      | none => .error .configuration
      | some found =>
          match requested.mapM fun id => found.find? (·.id = id) with
          | none => .error .configuration
          | some points => .ok points

section Requests

variable {pointId : PointIds} {versionId : ℕ} {store : PointStore P} {point : StoredPoint P}
  {retrieved : RetrievedPoint} {requested : List ℕ}

theorem recordUuid_record {id : StoredId} {n : ℕ} : recordUuid id.record = some n ↔ id = .uuid n := by
  cases id with
  | uuid m =>
      rw [StoredId.record, recordUuid, uuidOfText_uuidText, Option.some.injEq, StoredId.uuid.injEq]
  | int m => simp [StoredId.record, recordUuid]

/-- **What a record becomes.** -/
theorem retrievedPoint_eq_some : retrievedPoint pointId versionId point = some retrieved ↔
    point.id = .uuid retrieved.id ∧ 1 ≤ point.vector.length ∧ point.vector.length ≤ 10000000 ∧
      retrieved.vectorDimension = point.vector.length ∧ ∃ payload valid, point.payload = some payload ∧
        validatedPointPayload pointId retrieved.id payload = some valid ∧ valid.versionId = versionId ∧
        canonicalSha256 P payload.json = some retrieved.payloadDigest := by
  have hfinite : point.vector.any (fun x => !P.floats.isFinite x) = false := by
    simpa using point.vector_finite
  simp only [retrievedPoint, Option.bind_eq_bind, Option.bind_eq_some_iff, recordUuid_record, hfinite,
    Bool.false_eq_true, or_false]
  constructor
  · rintro ⟨id, hid, payload, hpayload, h⟩
    split at h
    · cases h
    rename_i hne
    simp only [Option.bind_eq_some_iff] at h
    obtain ⟨valid, hvalid, digest, hdigest, h⟩ := h
    split at h
    · rename_i hversion
      cases h
      exact ⟨hid, List.length_pos_of_ne_nil hne, hversion.2, rfl, payload, valid, hpayload, hvalid,
        hversion.1, hdigest⟩
    · cases h
  · rintro ⟨hid, hpos, hle, hdimension, payload, valid, hpayload, hvalid, hversion, hdigest⟩
    refine ⟨_, hid, payload, hpayload, ?_⟩
    have hne : point.vector ≠ [] := List.ne_nil_of_length_pos hpos
    rw [if_neg hne, hvalid, Option.bind_some, hdigest, Option.bind_some, if_pos ⟨hversion, hle⟩,
      ← hdimension]

/-- **The loop** reads every record, if each is of another point that was asked for. -/
theorem readRecords_eq_some {records : List (StoredPoint P)} :
    ∀ {found out : List RetrievedPoint}, (found.map (·.id)).Nodup →
    (readRecords pointId versionId requested found records = some out ↔
      ∃ read, List.Forall₂ (fun record r => retrievedPoint pointId versionId record = some r)
          records read ∧ (∀ r ∈ read, r.id ∈ requested) ∧ out = found ++ read ∧
        (out.map (·.id)).Nodup) := by
  induction records with
  | nil =>
      intro found out hnodup
      rw [readRecords, Option.some.injEq]
      constructor
      · rintro rfl
        exact ⟨[], .nil, by simp, by simp, hnodup⟩
      · rintro ⟨read, hread, -, rfl, -⟩
        cases hread
        simp
  | cons record records ih =>
      intro found out hnodup
      rw [readRecords, Option.bind_eq_bind, Option.bind_eq_some_iff]
      constructor
      · rintro ⟨inspected, hinspected, h⟩
        split at h
        · cases h
        rename_i hnew
        rw [not_or, not_not] at hnew
        have hsnoc : ((found ++ [inspected]).map (·.id)).Nodup := nodup_map_append hnodup
          fun r hr heq => hnew.2 (heq ▸ List.mem_map_of_mem hr)
        obtain ⟨read, hread, hall, rfl, hout⟩ := (ih hsnoc).mp h
        refine ⟨inspected :: read, .cons hinspected hread, ?_, by simp, hout⟩
        rw [List.forall_mem_cons]
        exact ⟨hnew.1, hall⟩
      · rintro ⟨read, hread, hall, rfl, hout⟩
        cases hread with
        | cons hinspected hrest =>
            rename_i inspected rest
            rw [List.forall_mem_cons] at hall
            have hsplit : found ++ inspected :: rest = (found ++ [inspected]) ++ rest := by simp
            have hsnoc : ((found ++ [inspected]).map (·.id)).Nodup := by
              rw [hsplit, List.map_append] at hout
              exact (List.nodup_append'.mp hout).1
            have hnew : inspected.id ∉ found.map (·.id) := by
              rw [List.map_append, List.nodup_append'] at hsnoc
              exact fun hmem => hsnoc.2.2 hmem (by simp)
            refine ⟨inspected, hinspected, ?_⟩
            rw [if_neg (by simp [hall.1, hnew])]
            exact (ih hsnoc).mpr ⟨rest, hrest, hall.2, hsplit, hout⟩

theorem nodup_retrieve : ((store.retrieve requested).map (·.id)).Nodup := by
  rw [((store.retrieve_perm requested).map _).nodup_iff]
  exact nodup_filter store.ids_nodup _

theorem mem_retrieve : point ∈ store.retrieve requested ↔
    point ∈ store.points ∧ ∃ id ∈ requested, point.id = .uuid id := by
  rw [(store.retrieve_perm requested).mem_iff, List.mem_filter, decide_eq_true_eq, List.mem_map]
  simp only [eq_comm]

/-- Where every point is there, the look-up returns one for each identity. -/
theorem retrieve_ids_perm (hrequested : requested.Nodup)
    (hall : ∀ id ∈ requested, ∃ p ∈ store.points, p.id = .uuid id) :
    ((store.retrieve requested).map (·.id)).Perm (requested.map StoredId.uuid) := by
  have hinjective : Function.Injective StoredId.uuid := fun a b h => StoredId.uuid.inj h
  rw [List.perm_ext_iff_of_nodup nodup_retrieve (hrequested.map hinjective)]
  intro id
  rw [List.mem_map, List.mem_map]
  constructor
  · rintro ⟨p, hp, rfl⟩
    obtain ⟨-, id, hid, hpid⟩ := mem_retrieve.mp hp
    exact ⟨id, hid, hpid.symm⟩
  · rintro ⟨id, hid, rfl⟩
    obtain ⟨p, hp, hpid⟩ := hall id hid
    exact ⟨p, mem_retrieve.mpr ⟨hp, id, hid, hpid⟩, hpid⟩

/-- **What a look-up returns**: for each identity what the record of its point becomes, in the order
of the request, and nothing if one of them is missing or refused. -/
theorem retrieveVersionPoints_eq_ok {points : List RetrievedPoint}
    (hlength : 1 ≤ requested.length ∧ requested.length ≤ maxPointRetrieveBatch)
    (hrequested : requested.Nodup) :
    retrieveVersionPoints pointId store versionId requested = .ok points ↔
      List.Forall₂ (fun id r => r.id = id ∧ ∃ p ∈ store.points,
        retrievedPoint pointId versionId p = some r) requested points := by
  have hnil : (([] : List RetrievedPoint).map (·.id)).Nodup := List.nodup_nil
  rw [retrieveVersionPoints, if_neg (by simp [hlength, hrequested])]
  dsimp only
  constructor
  · intro h
    split at h
    · cases h
    split at h
    · cases h
    rename_i found hfound
    split at h
    · cases h
    rename_i out hout
    cases h
    obtain ⟨read, hread, -, rfl, -⟩ := (readRecords_eq_some hnil).mp hfound
    refine (Fallible.mapM_some_iff.mp hout).imp ?_
    intro id r hr
    have hmem := List.mem_of_find?_eq_some hr
    have hid : r.id = id := by simpa using List.find?_some hr
    obtain ⟨record, hrecord, hretrieved⟩ := Fallible.exists_of_mem_right hread hmem
    exact ⟨hid, record, (mem_retrieve.mp hrecord).1, hretrieved⟩
  · intro hall
    have hthere : ∀ id ∈ requested, ∃ p ∈ store.points, p.id = .uuid id ∧
        ∃ r ∈ points, r.id = id ∧ retrievedPoint pointId versionId p = some r := by
      intro id hid
      obtain ⟨r, hr, hrid, p, hp, hretrieved⟩ := Fallible.exists_of_mem_left hall hid
      refine ⟨p, hp, ?_, r, hr, hrid, hretrieved⟩
      rw [← hrid]
      exact (retrievedPoint_eq_some.mp hretrieved).1
    have hperm := retrieve_ids_perm hrequested fun id hid =>
      let ⟨p, hp, hpid, _⟩ := hthere id hid
      ⟨p, hp, hpid⟩
    have hcount : (store.retrieve requested).length = requested.length := by
      simpa using hperm.length_eq
    have hrecords : ∀ record ∈ store.retrieve requested, ∃ r,
        retrievedPoint pointId versionId record = some r ∧ r ∈ points := by
      intro record hrecord
      obtain ⟨hstored, id, hid, hrecordId⟩ := mem_retrieve.mp hrecord
      obtain ⟨p, hp, hpid, r, hr, -, hretrieved⟩ := hthere id hid
      have hsame : record = p := row_unique store.ids_nodup hstored hp (hrecordId.trans hpid.symm)
      exact ⟨r, hsame ▸ hretrieved, hr⟩
    obtain ⟨read, hread⟩ := Fallible.exists_forall₂ hrecords
    have hids : points.map (·.id) = requested := by
      have h := Fallible.map_eq_of_forall₂ (f := id) (g := RetrievedPoint.id) hall fun _ _ hr => hr.1.symm
      rw [List.map_id] at h
      exact h.symm
    have hpoints : (points.map (·.id)).Nodup := hids.symm ▸ hrequested
    have hreadIds : (store.retrieve requested).map (·.id) = (read.map (·.id)).map StoredId.uuid := by
      rw [List.map_map]
      exact Fallible.map_eq_of_forall₂ hread fun _ _ hr => (retrievedPoint_eq_some.mp hr.1).1
    rw [hreadIds] at hperm
    have hpermIds : (read.map (·.id)).Perm requested :=
      (List.map_perm_map_iff fun a b h => StoredId.uuid.inj h).mp hperm
    have hreadNodup : (read.map (·.id)).Nodup := hpermIds.nodup_iff.mpr hrequested
    have hfound : readRecords pointId versionId requested [] (store.retrieve requested) = some read := by
      refine (readRecords_eq_some hnil).mpr ⟨read, hread.imp fun _ _ h => h.1, ?_, rfl, hreadNodup⟩
      intro r hr
      exact hpermIds.mem_iff.mp (List.mem_map_of_mem hr)
    have hout : (requested.mapM fun id => read.find? (·.id = id)) = some points := by
      refine Fallible.mapM_some_iff.mpr ?_
      have hmem := Fallible.forall₂_and_right hall (p := fun r => r ∈ points) fun r hr => hr
      refine hmem.imp ?_
      rintro id r ⟨⟨hid, -⟩, hr⟩
      refine (find?_some_iff hreadNodup).mpr ⟨?_, hid⟩
      -- the record with the identity became a point of the answer, and there is one of it
      have hrequestedId : r.id ∈ requested := hids ▸ List.mem_map_of_mem hr
      obtain ⟨r', hr', heq⟩ := List.mem_map.mp (hpermIds.mem_iff.mpr hrequestedId)
      obtain ⟨record, -, -, hr'points⟩ := Fallible.exists_of_mem_right hread hr'
      have hsame : r' = r := row_unique hpoints hr'points hr heq
      exact hsame ▸ hr'
    rw [if_neg (not_not.mpr hcount), hfound]
    dsimp only
    rw [hout]

end Requests

end VeloxRag.Indexing
