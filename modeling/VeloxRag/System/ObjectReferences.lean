import VeloxRag.Ingestion.ObjectCleanup
import VeloxRag.System.Uploads

/-!
# What the rows of the versions reference

A version is inserted with the key of its source, and the stages of its ingestion add the keys of
its two artifacts.  All three keys name the version, so an object whose key names no version of the
database, or nothing at all, is referenced by no row.

## Main definitions

* `KeyOrigin`, `Effect.versionKeys` — the versions after a step.
* `namedKeys_of_reachable` — the keys of every version name it, in every reachable state.
* `unreserved_source_reconciled` — the reconciler finds the source of an upload that was not reserved.
-/

namespace VeloxRag

open Lib Jobs Ingestion Indexing Metadata

variable {settings : Settings} {s s' : Sys} {op : Op}

/-- A column of an artifact key after a step: as it was, or with a key that names the version. -/
def KeyKept (before after : Option Str) (versionId : ℕ) : Prop :=
  after = before ∨ after = none ∨ ∃ key, after = some key ∧ NamesVersion key versionId

/-- Where a version after a step comes from. -/
inductive KeyOrigin (settings : Settings) (s : Sys) (op : Op) (v' : Version) : Prop
  | kept (v : Version) (mem : v ∈ s.db.versions) (id : v'.id = v.id)
      (source : v'.source = v.source) (parsed : KeyKept v.parsedObjectKey v'.parsedObjectKey v.id)
      (chunks : KeyKept v.chunkManifestObjectKey v'.chunkManifestObjectKey v.id)
  | added (request : UploadRequest) (documentId versionId jobId mutationId : ℕ)
      (checks : Except TxError Unit)
      (upload : op = .upload request documentId versionId jobId mutationId checks)
      (new : v' = newVersion (uploadReservation request documentId versionId jobId))

theorem KeyOrigin.of_mem {v : Version} (h : v ∈ s.db.versions) : KeyOrigin settings s op v :=
  .kept v h rfl rfl (.inl rfl) (.inl rfl)

theorem KeyOrigin.of_setRow {v after v' : Version} (hv : v ∈ s.db.versions)
    (h : v' ∈ setRow (·.id) after s.db.versions) (id : after.id = v.id) (source : after.source = v.source)
    (parsed : KeyKept v.parsedObjectKey after.parsedObjectKey v.id)
    (chunks : KeyKept v.chunkManifestObjectKey after.chunkManifestObjectKey v.id) :
    KeyOrigin settings s op v' := by
  rcases mem_setRow h with rfl | ⟨hmem, -⟩
  · exact .kept v hv id source parsed chunks
  · exact .of_mem hmem

theorem failedVersion_columns (graph : StageGraph) : (failedVersion graph).id = graph.version.id ∧
    (failedVersion graph).source = graph.version.source ∧
    (failedVersion graph).parsedObjectKey = graph.version.parsedObjectKey ∧
    (failedVersion graph).chunkManifestObjectKey = graph.version.chunkManifestObjectKey := by
  rw [failedVersion]
  split
  · exact ⟨rfl, rfl, rfl, rfl⟩
  · exact ⟨rfl, rfl, rfl, rfl⟩

/-- **The versions after a step.** -/
theorem Effect.versionKeys (h : Effect settings s op s') {v' : Version} (hv' : v' ∈ s'.db.versions) :
    KeyOrigin settings s op v' := by
  cases h with
  | stage _ lease graph job after version state leases held commit issued =>
      have hmem := commit.graph_in.version
      cases commit.write with
      | parsed =>
          apply KeyOrigin.of_setRow hmem hv' rfl rfl
          · exact .inr (.inr ⟨_, rfl, _, identity_parsedTextObjectKey _ _ _, rfl⟩)
          · exact .inl rfl
      | chunked =>
          apply KeyOrigin.of_setRow hmem hv' rfl rfl
          · exact .inl rfl
          · exact .inr (.inr ⟨_, rfl, _, identity_chunksObjectKey _ _ _, rfl⟩)
      | started | embedded | counted | validated =>
          exact .of_setRow hmem hv' rfl rfl (.inl rfl) (.inl rfl)
  | failed _ graph job retryable code message failure operation =>
      obtain ⟨hid, hsource, hparsed, hchunks⟩ := failedVersion_columns graph
      exact .of_setRow failure.graph_in.version hv' hid hsource (.inl hparsed) (.inl hchunks)
  | activated lease expected graph job mutationId held fresh activation =>
      exact .of_setRow activation.graph_in.version hv' rfl rfl (.inl rfl) (.inl rfl)
  | uploaded request documentId versionId jobId mutationId checks knowledgeBase generation fresh creates =>
      rcases List.mem_append.mp hv' with hmem | hmem
      · exact .of_mem hmem
      · exact .added request documentId versionId jobId mutationId checks rfl (List.mem_singleton.mp hmem)
  | retried _ jobId db fresh write =>
      cases write with
      | ingestion snapshot source knowledgeBase generation document version state versionStatus
          stateStatus actorApiKeyId idempotencyKey operation hsource rows =>
          exact .of_setRow rows.version_mem hv' rfl rfl (.inl rfl) (.inl rfl)
      | rebuild => exact .of_mem hv'
  | saga _ delayed db reservations of_delayed write backed =>
      rcases write with rfl | write
      · exact .of_mem hv'
      · cases write <;> exact .of_mem hv'
  | purged _ lease db held purge knowledgeBase mem target deleting rows =>
      simp only [deleteRows, Except.ok.injEq, Prod.mk.injEq, true_and] at rows
      subst rows
      exact .of_mem (List.mem_of_mem_filter hv')
  | _ => exact .of_mem hv'

theorem KeyKept.named {before after : Option Str} {versionId : ℕ} (h : KeyKept before after versionId)
    (hbefore : ∀ key, before = some key → NamesVersion key versionId) :
    ∀ key, after = some key → NamesVersion key versionId := by
  intro key hkey
  rcases h with rfl | rfl | ⟨key', rfl, hnamed⟩
  · exact hbefore key hkey
  · cases hkey
  · cases hkey
    exact hnamed

theorem KeyOrigin.named {v' : Version} (h : KeyOrigin settings s op v')
    (hkeys : ∀ v ∈ s.db.versions, NamedKeys v) : NamedKeys v' := by
  cases h with
  | kept v mem id source parsed chunks =>
      obtain ⟨hsource, hparsed, hchunks⟩ := hkeys v mem
      constructor
      · rw [id, source]
        exact hsource
      · rw [id]
        exact parsed.named hparsed
      · rw [id]
        exact chunks.named hchunks
  | added request documentId versionId jobId mutationId checks upload new =>
      subst new
      exact ⟨⟨_, identity_sourceObjectKey _ _ _ _, rfl⟩, nofun, nofun⟩

/-- **The keys of every version name it.** -/
theorem namedKeys_of_reachable (h : Reachable settings s) : ∀ v ∈ s.db.versions, NamedKeys v :=
  (h.induction_on (fun s => ∀ v ∈ s.db.versions, NamedKeys v) (fun _ hv => by cases hv)
    fun _ hinv heffect _ hv' => (heffect.versionKeys hv').named hinv).2

/-! ## Uploads that were not reserved -/

/-- A temporary key begins with none of the prefixes that the reconciler lists. -/
theorem not_reconcilable_uploadTempKey (db : Db) (id : ℕ) : reconcilable db (uploadTempKey id) = false := by
  have hprefixes : ∀ listed ∈ objectReconciliationPrefixes,
      listed.isPrefixOf "tmp/uploads/".toList = false ∧ "tmp/uploads/".toList.isPrefixOf listed = false := by
    decide
  rw [reconcilable, List.any_eq_false]
  intro phase _
  cases hget : objectReconciliationPrefixes[phase]? with
  | none => simp
  | some listed =>
      obtain ⟨hshort, hlong⟩ := hprefixes listed (List.mem_of_getElem? hget)
      have hnot : listed.isPrefixOf (uploadTempKey id) = false := by
        by_contra htrue
        rw [Bool.not_eq_false, List.isPrefixOf_iff_prefix] at htrue
        have htemp : "tmp/uploads/".toList <+: uploadTempKey id := List.prefix_append _ _
        rcases List.prefix_or_prefix_of_prefix htrue htemp with hp | hp
        · rw [List.isPrefixOf_iff_prefix.mpr hp] at hshort
          cases hshort
        · rw [List.isPrefixOf_iff_prefix.mpr hp] at hlong
          cases hlong
      simp [hnot]

/-- **An upload that was not reserved**: in every reachable state, the source object of a version that
no row has is referenced by no row and is found by the reconciler; a temporary object is not found. -/
theorem unreserved_source_reconciled (h : Reachable settings s)
    {knowledgeBaseId documentId versionId : ℕ} (hknowledgeBase : knowledgeBaseId < 2 ^ 128)
    (hdocument : documentId < 2 ^ 128) (hversion : versionId < 2 ^ 128)
    (hnew : ∀ v ∈ s.db.versions, v.id ≠ versionId) (extension : SourceExtension) :
    objectKeyIsReferenced s.db (sourceObjectKey knowledgeBaseId documentId versionId extension) = false ∧
      reconcilable s.db (sourceObjectKey knowledgeBaseId documentId versionId extension) = true ∧
      ∀ id, objectKeyIsReferenced s.db (uploadTempKey id) = false ∧
        reconcilable s.db (uploadTempKey id) = false := by
  have hkeys := namedKeys_of_reachable h
  refine ⟨?_, reconcilable_sourceObjectKey hknowledgeBase hdocument hversion hkeys hnew, ?_⟩
  · apply not_referenced hkeys
    intro v hv hnamed
    exact hnew v hv (sourceObjectKey_named hnamed).symm
  · intro id
    refine ⟨?_, not_reconcilable_uploadTempKey s.db id⟩
    exact not_referenced hkeys fun v _ => uploadTempKey_not_named id v.id

theorem unreserved_source_reconciled_uploadedRun :
    reconcilable (exec sampleSettings Sys.init uploadedRun).db (sourceObjectKey 1 20 21 .md) = true := by
  have hnew : ∀ v ∈ (exec sampleSettings Sys.init uploadedRun).db.versions, v.id ≠ 21 := by decide +kernel
  exact (unreserved_source_reconciled (reachable_exec uploadedRun) (by decide) (by decide) (by decide) hnew
    .md).2.1

end VeloxRag
