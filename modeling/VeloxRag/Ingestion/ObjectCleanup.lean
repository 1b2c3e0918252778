import VeloxRag.Db.Rows
import VeloxRag.Ingestion.ObjectKeys

/-!
# Orphaned objects

The reconciler lists the objects under two prefixes, and removes those that no row references and
that no stage of an ingestion can still come to reference.

## Main definitions

* `objectKeyIsReferenced`, `objectKeyCleanupIsAllowed` — the checks of the repository.
* `reconcilable` — the objects that `reconcile_orphan_objects` removes.
* `NamesVersion` — the key of an artifact of a version.
-/

namespace VeloxRag.Ingestion

/-- `object_key_is_referenced`. -/
def objectKeyIsReferenced (db : Db) (objectKey : Str) : Bool :=
  db.versions.any fun v => decide (v.source.objectKey = objectKey)
    || decide (v.parsedObjectKey = some objectKey) || decide (v.chunkManifestObjectKey = some objectKey)

/-- The version that a key names, of the document and the knowledge base it names. -/
def artifactVersion (db : Db) (identity : DocumentArtifactIdentity) : Option Version :=
  db.versions.find? fun v => decide (v.id = identity.versionId)
    && decide (v.documentId = identity.documentId)
    && db.documents.any fun d => decide (d.id = identity.documentId)
      && decide (d.knowledgeBaseId = identity.knowledgeBaseId)

/-- The stage that publishes an artifact, and the statuses a version has while it may come to
reference it. -/
def publishingStage : ArtifactType → Option (Stage × List VersionStatus)
  | .source => none
  | .parsed => some (.parse, [.uploaded, .parsing, .failed])
  | .chunks => some (.chunk, [.chunking, .failed])

/-- A job that runs or that a manual retry may run again. -/
def recoverableJob (job : Job) : Bool :=
  job.status.isActive || (decide (job.status = .failed) && job.retryable)

/-- The jobs that ingest a version. -/
def ingestsVersion (versionId : ℕ) (job : Job) : Bool :=
  decide (job.targetType = .documentVersion) && decide (job.targetId = versionId)
    && decide (job.operation = .ingestDocument)

/-- `object_key_cleanup_is_allowed`, none for a key it refuses to check. -/
def objectKeyCleanupIsAllowed (db : Db) (objectKey : Str) : Option Bool :=
  if objectKey = [] ∨ objectKey.length > 1024 then none
  else
    match canonicalDocumentArtifactIdentity objectKey with
    | none => some (!objectKeyIsReferenced db objectKey)
    | some identity =>
      match artifactVersion db identity with
      | none => some (!objectKeyIsReferenced db objectKey)
      | some version =>
        if version.source.objectKey = objectKey ∨ version.parsedObjectKey = some objectKey ∨
            version.chunkManifestObjectKey = some objectKey ∨
            objectKeyIsReferenced db objectKey = true then some false
        else
          match publishingStage identity.artifactType with
          | none => some true
          | some (expectedStage, recoverableVersionStatuses) =>
            if version.status ∈ recoverableVersionStatuses then
              some (!((db.jobs.filter (ingestsVersion identity.versionId)).any fun job =>
                recoverableJob job && (decide (job.stage = some expectedStage)
                  || decide (job.resumeStage = some expectedStage))))
            else some true

/-- `_OBJECT_RECONCILIATION_PREFIXES`. -/
def objectReconciliationPrefixes : List Str := ["tmp/jobs/".toList, "knowledge-bases/".toList]

/-- `_is_canonical_final_object_key`. -/
def isCanonicalFinalObjectKey (objectKey : Str) : Bool :=
  (canonicalDocumentArtifactIdentity objectKey).isSome

/-- An object that `reconcile_orphan_objects` removes once it is old enough: it is listed in one of
the two phases, canonical in the second, and the repository allows it. -/
def reconcilable (db : Db) (objectKey : Str) : Bool :=
  (List.range objectReconciliationPrefixes.length).any fun phase =>
    (objectReconciliationPrefixes[phase]?).any (·.isPrefixOf objectKey)
      && (decide (phase ≠ 1) || isCanonicalFinalObjectKey objectKey)
      && objectKeyCleanupIsAllowed db objectKey == some true

/-- `f"tmp/uploads/{uuid4().hex}"`. -/
def uploadTempKey (id : ℕ) : Str := "tmp/uploads/".toList ++ hexDigits id

/-! ## Keys of versions -/

/-- The key is the key of an artifact of the version. -/
def NamesVersion (objectKey : Str) (versionId : ℕ) : Prop :=
  ∃ identity, canonicalDocumentArtifactIdentity objectKey = some identity ∧
    identity.versionId = versionId

/-- The keys of a row of a version name the version. -/
structure NamedKeys (v : Version) : Prop where
  source : NamesVersion v.source.objectKey v.id
  parsed : ∀ key, v.parsedObjectKey = some key → NamesVersion key v.id
  chunks : ∀ key, v.chunkManifestObjectKey = some key → NamesVersion key v.id

variable {db : Db} {objectKey : Str} {v : Version}

theorem identity_sourceObjectKey (knowledgeBaseId documentId versionId : ℕ)
    (extension : SourceExtension) :
    canonicalDocumentArtifactIdentity
      (sourceObjectKey knowledgeBaseId documentId versionId extension)
      = some ⟨knowledgeBaseId, documentId, versionId, .source⟩ := by
  apply identity_versionObjectKey
  · decide
  · cases extension <;> decide
  · cases extension <;> decide

theorem joinSlash_temp (name : Str) :
    joinSlash ["tmp".toList, "uploads".toList, name] = "tmp/uploads/".toList ++ name := by
  have hbegins : "tmp/uploads/".toList = "tmp".toList ++ (['/'] ++ ("uploads".toList ++ ['/'])) := by
    decide
  rw [joinSlash, hbegins]
  simp only [List.intercalate, List.intersperse, List.flatten_cons, List.flatten_nil,
    List.append_nil, List.append_assoc]

/-- A temporary key has three parts. -/
theorem identity_uploadTempKey (id : ℕ) : canonicalDocumentArtifactIdentity (uploadTempKey id) = none := by
  have hsplit : (joinSlash ["tmp".toList, "uploads".toList, hexDigits id]).splitOn '/'
      = ["tmp".toList, "uploads".toList, hexDigits id] := by
    apply List.splitOn_intercalate
    · intro part hpart
      simp only [List.mem_cons, List.not_mem_nil, or_false] at hpart
      rcases hpart with rfl | rfl | rfl
      · decide
      · decide
      · exact separator_not_mem_hexDigits (.inr rfl)
    · exact List.cons_ne_nil _ _
  rw [joinSlash_temp] at hsplit
  unfold canonicalDocumentArtifactIdentity uploadTempKey
  rw [hsplit]

/-- A key that no version is named by is not referenced. -/
theorem not_referenced (hkeys : ∀ v ∈ db.versions, NamedKeys v)
    (hnot : ∀ v ∈ db.versions, ¬ NamesVersion objectKey v.id) :
    objectKeyIsReferenced db objectKey = false := by
  rw [objectKeyIsReferenced, List.any_eq_false]
  intro v hv
  simp only [Bool.or_eq_true, decide_eq_true_eq]
  rintro ((hsource | hparsed) | hchunks)
  · exact hnot v hv (hsource ▸ (hkeys v hv).source)
  · exact hnot v hv ((hkeys v hv).parsed _ hparsed)
  · exact hnot v hv ((hkeys v hv).chunks _ hchunks)

theorem uploadTempKey_not_named (id versionId : ℕ) : ¬ NamesVersion (uploadTempKey id) versionId := by
  rintro ⟨identity, hidentity, -⟩
  rw [identity_uploadTempKey] at hidentity
  cases hidentity

theorem sourceObjectKey_named {knowledgeBaseId documentId versionId other : ℕ}
    {extension : SourceExtension}
    (h : NamesVersion (sourceObjectKey knowledgeBaseId documentId versionId extension) other) :
    versionId = other := by
  obtain ⟨identity, hidentity, hversion⟩ := h
  rw [identity_sourceObjectKey] at hidentity
  cases hidentity
  exact hversion

/-! ## The length of a key -/

theorem length_sourceObjectKey_le {knowledgeBaseId documentId versionId : ℕ}
    (hknowledgeBase : knowledgeBaseId < 2 ^ 128) (hdocument : documentId < 2 ^ 128)
    (hversion : versionId < 2 ^ 128) (extension : SourceExtension) :
    (sourceObjectKey knowledgeBaseId documentId versionId extension).length ≤ 1024 := by
  have hname : ("source" ++ extension.text).toList.length ≤ 15 := by cases extension <;> decide
  simp only [sourceObjectKey, versionObjectKey, joinSlash, List.intercalate, List.intersperse,
    List.flatten_cons, List.flatten_nil, List.length_append, length_uuidText hknowledgeBase,
    length_uuidText hdocument, length_uuidText hversion, List.length_cons, List.length_nil]
  have hparts : "knowledge-bases".toList.length + "documents".toList.length +
    "versions".toList.length + "source".toList.length ≤ 60 := by decide
  omega

/-- The source key of a version that no row is named by is removed by the reconciler. -/
theorem reconcilable_sourceObjectKey {knowledgeBaseId documentId versionId : ℕ}
    {extension : SourceExtension} (hknowledgeBase : knowledgeBaseId < 2 ^ 128)
    (hdocument : documentId < 2 ^ 128) (hversion : versionId < 2 ^ 128)
    (hkeys : ∀ v ∈ db.versions, NamedKeys v) (hnew : ∀ v ∈ db.versions, v.id ≠ versionId) :
    reconcilable db (sourceObjectKey knowledgeBaseId documentId versionId extension) = true := by
  have hreferenced : objectKeyIsReferenced db
      (sourceObjectKey knowledgeBaseId documentId versionId extension) = false :=
    not_referenced hkeys fun v hv hnamed => hnew v hv (sourceObjectKey_named hnamed).symm
  have hmissing : artifactVersion db ⟨knowledgeBaseId, documentId, versionId, .source⟩ = none := by
    rw [artifactVersion, List.find?_eq_none]
    intro v hv
    simp [hnew v hv]
  have hlength := length_sourceObjectKey_le hknowledgeBase hdocument hversion extension
  have hne : sourceObjectKey knowledgeBaseId documentId versionId extension ≠ [] := by
    simp [sourceObjectKey, versionObjectKey, joinSlash, List.intercalate]
  have hallowed : objectKeyCleanupIsAllowed db
      (sourceObjectKey knowledgeBaseId documentId versionId extension) = some true := by
    unfold objectKeyCleanupIsAllowed
    rw [if_neg (by rintro (h | h) <;> [exact hne h; exact absurd hlength (by omega)]),
      identity_sourceObjectKey]
    simp only [hmissing, hreferenced, Bool.not_false]
  rw [reconcilable, List.any_eq_true]
  refine ⟨1, by decide, ?_⟩
  have hlisted : "knowledge-bases/".toList.isPrefixOf
      (sourceObjectKey knowledgeBaseId documentId versionId extension) = true := by
    rw [List.isPrefixOf_iff_prefix]
    exact ⟨_, rfl⟩
  rw [isCanonicalFinalObjectKey, identity_sourceObjectKey, hallowed]
  simpa [objectReconciliationPrefixes] using hlisted

end VeloxRag.Ingestion
