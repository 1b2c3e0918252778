import VeloxRag.System.Failures
import VeloxRag.System.ObjectReferences

/-!
# Artifacts that are cleaned up

The reconciler removes an object once the repository allows it, and an object that is removed must
not be referenced later.  When the parsed text or the manifest of a version may be removed, the
version stands at the stage that would publish it, every job of the version has failed, and none
that a retry would accept stands there; so no job of the version is ever written or added again,
and no row comes to hold the key.

## Main definitions

* `awaitedStage` — the stage at which a version without a manifest stands.
* `Halted` — the jobs of a version that stay as they are.
* `Effect.halted` — they stay as they are in a step, or the knowledge base is purged.
* `cleanup_is_final` — a key whose cleanup was allowed is never referenced again.
-/

namespace VeloxRag

open Lib Jobs Ingestion Indexing Metadata

/-! ## Keys and identities -/

theorem uuidText_of_uuidOfText {text : Str} {n : ℕ} (h : uuidOfText text = some n) : uuidText n = text := by
  simp only [uuidOfText, Option.ite_none_right_eq_some, Option.some.injEq] at h
  obtain ⟨htext, rfl⟩ := h
  exact htext

/-- **The identity of an artifact determines its key.** -/
theorem key_of_identity {objectKey : Str} {identity : DocumentArtifactIdentity}
    (h : canonicalDocumentArtifactIdentity objectKey = some identity) :
    (identity.artifactType = .parsed → objectKey
      = parsedTextObjectKey identity.knowledgeBaseId identity.documentId identity.versionId) ∧
    (identity.artifactType = .chunks → objectKey
      = chunksObjectKey identity.knowledgeBaseId identity.documentId identity.versionId) := by
  have hjoin : ['/'].intercalate (objectKey.splitOn '/') = objectKey := List.intercalate_splitOn '/'
  unfold canonicalDocumentArtifactIdentity at h
  split at h
  · rename_i root kb documents document versions version artifact name hsplit
    split at h
    · cases h
    · rename_i hparts
      simp only [ne_eq, not_or, not_not] at hparts
      obtain ⟨rfl, rfl, rfl⟩ := hparts
      simp only [Option.bind_eq_bind, Option.bind_eq_some_iff, Option.pure_def, Option.some.injEq] at h
      obtain ⟨artifactType, htype, knowledgeBaseId, hkb, documentId, hdocument, versionId, hversion, rfl⟩ := h
      rw [hsplit, ← uuidText_of_uuidOfText hkb, ← uuidText_of_uuidOfText hdocument,
        ← uuidText_of_uuidOfText hversion] at hjoin
      unfold artifactType? at htype
      constructor
      · rintro rfl
        split at htype
        · cases htype
        · split at htype
          · rename_i hnames
            obtain ⟨rfl, rfl⟩ := hnames
            exact hjoin.symm
          · split at htype <;> cases htype
      · rintro rfl
        split at htype
        · cases htype
        · split at htype
          · cases htype
          · split at htype
            · rename_i hnames
              obtain ⟨rfl, rfl⟩ := hnames
              exact hjoin.symm
            · cases htype
  · cases h

section Cleanup

variable {settings : Settings} {s s' t : Sys} {op : Op}

/-- The key of a source names a source. -/
def SourceKeyed (v : Version) : Prop :=
  ∃ identity, canonicalDocumentArtifactIdentity v.source.objectKey = some identity ∧
    identity.artifactType = .source

theorem sourceKeyed_of_reachable (h : Reachable settings s) : ∀ v ∈ s.db.versions, SourceKeyed v := by
  refine (h.induction_on (fun s => ∀ v ∈ s.db.versions, SourceKeyed v) ?_ ?_).2
  · intro v hv
    cases hv
  · intro s s' op _ hinv heffect v' hv'
    cases heffect.versionKeys hv' with
    | kept v mem id source =>
        unfold SourceKeyed
        rw [source]
        exact hinv v mem
    | added request documentId versionId jobId mutationId checks upload new =>
        subst new
        exact ⟨_, identity_sourceObjectKey _ _ _ _, rfl⟩

/-! ## Versions without a manifest -/

/-- The stage at which a version without a manifest stands. -/
def awaitedStage (v : Version) : Stage := if v.parsedObjectKey.isSome = true then .chunk else .parse

/-- The jobs of the first two stages work on a version without a manifest. -/
theorem AtStage.awaited {digest : ChunkerDigest} {g : Generation} {d : Document} {v : Version}
    {st : IndexState} {J : Job} (h : AtStage digest g d v st J)
    (early : J.stage = some .parse ∨ J.stage = some .chunk) :
    v.chunkManifestObjectKey = none ∧ J.stage = some (awaitedStage v) := by
  have untouched (unchunked : Unchunked v st) : v.chunkManifestObjectKey = none := by
    have hmanifest := unchunked.manifest
    simp only [untouchedManifest, Bool.and_eq_true, decide_eq_true_eq] at hmanifest
    exact hmanifest.1.1.1.1.1.1.1.1.1
  rcases early with stage | stage
  · obtain ⟨unparsed, unchunked⟩ := h.of_parse stage
    exact ⟨untouched unchunked, by simp [awaitedStage, unparsed.1, stage]⟩
  · obtain ⟨parsed, unchunked⟩ := h.of_chunk stage
    exact ⟨untouched unchunked, by simp [awaitedStage, parsed.key, stage]⟩

/-- A retry that is accepted for a version without a manifest starts where the version stands. -/
theorem Resumes.awaited {configHash : ConfigHash} {snapshot : ManualRetrySnapshot} {g : Generation}
    {v : Version} {st : IndexState} {versionStatus : VersionStatus} {stateStatus : IndexStatus}
    (h : Resumes configHash snapshot g v st versionStatus stateStatus)
    (hmanifest : v.chunkManifestObjectKey = none) : snapshot.stage = some (awaitedStage v) := by
  cases h with
  | parse stage _ _ unparsed => simp [awaitedStage, unparsed, stage]
  | chunk stage _ _ parsed =>
      simp only [validParsedSnapshot, Bool.and_eq_true] at parsed
      simp [awaitedStage, parsed.1, stage]
  | embedIndex _ _ _ _ manifest => simp [validManifestSnapshot, hmanifest] at manifest
  | validate _ _ _ _ _ manifest => simp [validManifestSnapshot, hmanifest] at manifest
  | activate _ _ _ _ _ manifest => simp [validManifestSnapshot, hmanifest] at manifest

/-! ## Jobs that stay as they are -/

/-- The jobs of a version have all failed, the last at one of the first two stages, and none of those
that may be retried stands at that stage. -/
structure Halted (jobs : List Job) (stage : Stage) (knowledgeBaseId : ℕ) : Prop where
  early : stage = .parse ∨ stage = .chunk
  last : ∃ older J, jobs = older ++ [J] ∧ J.stage = some stage
  failed : ∀ K ∈ jobs, K.status = .failed
  spent : ∀ K ∈ jobs, K.retryable = true → K.stage ≠ some stage
  knowledgeBase : ∀ K ∈ jobs, K.knowledgeBaseId = some knowledgeBaseId

variable {jobs : List Job} {stage : Stage} {knowledgeBaseId versionId : ℕ}

/-- The rows of a version whose jobs are halted. -/
theorem Halted.rows {digest : ChunkerDigest} {db : Db} {v : Version} (h : Halted jobs stage knowledgeBaseId)
    (hjobs : ingestionsOf db.jobs v.id = jobs) (hingested : Ingested digest True db v) :
    v.chunkManifestObjectKey = none ∧ awaitedStage v = stage := by
  obtain ⟨d, -, st, -, g, -, older, J, hlist, -, hing⟩ := hingested
  obtain ⟨older', J', hlast, hstage⟩ := h.last
  obtain ⟨-, hsame⟩ := List.append_inj' (hlist.symm.trans (hjobs.trans hlast)) rfl
  obtain rfl := List.singleton_inj.mp hsame
  have early : J.stage = some .parse ∨ J.stage = some .chunk := by
    rw [hstage]
    rcases h.early with rfl | rfl
    · exact .inl rfl
    · exact .inr rfl
  obtain ⟨hmanifest, hat⟩ := hing.atStage.awaited early
  exact ⟨hmanifest, Option.some.inj (hat.symm.trans hstage)⟩

/-- **Halted jobs stay as they are** in a step, unless their knowledge base is purged. -/
theorem Effect.halted (hbase : Base s) (hinv : IngestionInv settings True s)
    (hhalted : Halted jobs stage knowledgeBaseId) (hjobs : ingestionsOf s.db.jobs versionId = jobs)
    (h : Effect settings s op s') :
    ingestionsOf s'.db.jobs versionId = jobs ∨ Gone s' knowledgeBaseId := by
  have mem_jobs {K : Job} (hK : K ∈ s.db.jobs) (hop : K.operation = .ingestDocument)
      (htarget : K.targetId = versionId) : K ∈ jobs := by
    rw [← hjobs]
    exact (mem_ingestionsOf).mpr ⟨hK, hop, htarget⟩
  -- a job that is written was active
  have of_setRow {job after : Job} (hjob : job ∈ s.db.jobs) (keeps : job.Keeps after) :
      ingestionsOf (setRow (·.id) after s.db.jobs) versionId = jobs := by
    rw [ingestionsOf_setRow_of_ne hbase.keys.jobs hjob keeps.id keeps.operation keeps.targetId, hjobs]
    intro hop htarget
    have hactive := keeps.active
    rw [hhalted.failed job (mem_jobs hjob hop htarget)] at hactive
    cases hactive
  have of_append {job : Job} (hne : job.operation = .ingestDocument → job.targetId ≠ versionId) :
      ingestionsOf (s.db.jobs ++ [job]) versionId = jobs := (ingestionsOf_append_of_ne hne).trans hjobs
  cases h with
  | job _ job after leases mem write => exact .inl (of_setRow mem write.keeps)
  | stage _ lease graph job after version state leases held commit issued =>
      have hrunning := (fence_iff.mp (stageFence_iff.mp commit.fence).1).2.1
      exact .inl (of_setRow commit.job_mem (commit.write.keeps hrunning))
  | failed _ graph job retryable code message failure operation =>
      exact .inl (of_setRow failure.job_mem (failedValues_keeps failure.active))
  | activated lease expected graph job mutationId held fresh activation =>
      exact .inl (of_setRow activation.job_mem (finishedValues_keeps (fence_active activation.fence)))
  | uploaded request documentId newId jobId mutationId checks knowledgeBase generation fresh creates =>
      refine .inl (of_append fun _ htarget => ?_)
      obtain ⟨older, J, hlast, -⟩ := hhalted.last
      have hJ : J ∈ ingestionsOf s.db.jobs versionId := by
        rw [hjobs, hlast]
        exact List.mem_append_right _ List.mem_cons_self
      obtain ⟨hmem, -, hJtarget⟩ := (mem_ingestionsOf).mp hJ
      exact (fresh.2.1.job hmem).2.1 (hJtarget.trans htarget.symm)
  | retried _ jobId db fresh write =>
      cases write with
      | ingestion snapshot source knowledgeBase generation document version state versionStatus stateStatus
          actorApiKeyId idempotencyKey operation hsource rows =>
          refine .inl (of_append fun _ htarget => ?_)
          -- the source of the retry would stand where the version stands
          have hsnapshot := manualRetryFence_iff hsource.fence
          have hversion : version.id = versionId :=
            (rows.versionId.trans (congrArg ManualRetrySnapshot.targetId hsnapshot).symm).trans htarget
          have hrows := hhalted.rows (by rw [hversion]; exact hjobs)
            (hinv.ingestions.ingested version rows.version_mem)
          have hstage := (resumes_of_resumable rows.resumable).awaited hrows.1
          have hsourceStage : source.stage = some stage := by
            rw [← hrows.2, ← hstage]
            exact congrArg ManualRetrySnapshot.stage hsnapshot
          exact hhalted.spent source (mem_jobs hsource.mem operation htarget) hsource.retryable hsourceStage
      | rebuild snapshot source knowledgeBase generation actorApiKeyId idempotencyKey operation =>
          refine .inl (of_append fun hop => ?_)
          have hchild : source.operation = .ingestDocument := hop
          rw [operation] at hchild
          cases hchild
  | repaired =>
      refine .inl (of_append fun hop => ?_)
      cases hop
  | saga _ delayed db reservations of_delayed write backed =>
      rcases write with rfl | write
      · exact .inl hjobs
      · cases write with
        | activated _ knowledgeBase generation request reservation jobId added rows reserved generationId claim
            state status active pending mutation queued =>
            rcases queued with rfl | ⟨-, rfl, -⟩
            · left
              simpa [promoted] using hjobs
            · refine .inl (of_append fun hop => ?_)
              cases hop
        | _ => exact .inl hjobs
  | deleted =>
      refine .inl (of_append fun hop => ?_)
      cases hop
  | purged _ lease db held purge knowledgeBase mem target deleting rows =>
      by_cases hgone : knowledgeBaseId = lease.targetId
      · rw [hgone]
        exact .inr (gone_of_deleteRows held rows rfl rfl)
      · left
        simp only [deleteRows, Except.ok.injEq, Prod.mk.injEq, true_and] at rows
        subst rows
        rw [← hjobs]
        unfold ingestionsOf
        rw [List.filter_filter]
        apply List.filter_congr
        intro K hK
        by_cases hof : K.operation = .ingestDocument ∧ K.targetId = versionId
        · have hkb := hhalted.knowledgeBase K (mem_jobs hK hof.1 hof.2)
          simp [hof, hkb, hgone]
        · rw [← Bool.decide_and, decide_eq_false hof]
          simp
  | _ => exact .inl hjobs

/-- Halted jobs stay as they are in a run, unless their knowledge base is purged. -/
theorem halted_run (hbase : Base s) (hinv : IngestionInv settings True s)
    (hhalted : Halted jobs stage knowledgeBaseId) (hjobs : ingestionsOf s.db.jobs versionId = jobs)
    (hrun : Relation.ReflTransGen (Step settings) s t) :
    ingestionsOf t.db.jobs versionId = jobs ∨ Gone t knowledgeBaseId := by
  refine (Base.run (fun u => IngestionInv settings True u ∧
    (ingestionsOf u.db.jobs versionId = jobs ∨ Gone u knowledgeBaseId)) ?_ hbase ⟨hinv, .inl hjobs⟩ hrun).2.2
  rintro u u' op hbase ⟨hinv, hkept⟩ heffect
  refine ⟨hinv.step hbase (fun _ _ _ => trivial) heffect, ?_⟩
  rcases hkept with hkept | hgone
  · exact heffect.halted hbase hinv hhalted hkept
  · exact .inr (hgone.step heffect)

/-! ## The cleanup -/

variable {objectKey : Str} {identity : DocumentArtifactIdentity} {v : Version} {statuses : List VersionStatus}

theorem artifactVersion_eq_some {db : Db} (h : artifactVersion db identity = some v) :
    v ∈ db.versions ∧ v.id = identity.versionId ∧ v.documentId = identity.documentId ∧
      ∃ d ∈ db.documents, d.id = identity.documentId ∧ d.knowledgeBaseId = identity.knowledgeBaseId := by
  have hspec := List.find?_some h
  simp only [Bool.and_eq_true, decide_eq_true_eq, List.any_eq_true] at hspec
  obtain ⟨⟨hid, hdocument⟩, d, hd, hdid, hkb⟩ := hspec
  exact ⟨List.mem_of_find?_eq_some h, hid, hdocument, d, hd, hdid, hkb⟩

/-- What the repository has checked of the rows when it allows a cleanup. -/
theorem allowed_spec {db : Db} (hidentity : canonicalDocumentArtifactIdentity objectKey = some identity)
    (hversion : artifactVersion db identity = some v)
    (hpublishing : publishingStage identity.artifactType = some (stage, statuses))
    (hallowed : objectKeyCleanupIsAllowed db objectKey = some true) :
    v.parsedObjectKey ≠ some objectKey ∧ v.chunkManifestObjectKey ≠ some objectKey ∧
      (v.status ∈ statuses → ∀ K ∈ db.jobs, ingestsVersion identity.versionId K = true →
        recoverableJob K = true → K.stage ≠ some stage) := by
  unfold objectKeyCleanupIsAllowed at hallowed
  split at hallowed
  · cases hallowed
  · simp only [hidentity, hversion, hpublishing] at hallowed
    split at hallowed
    · cases hallowed
    · rename_i hreferences
      simp only [not_or] at hreferences
      refine ⟨hreferences.2.1, hreferences.2.2.1, ?_⟩
      intro hstatus K hK hingests hrecoverable hstage
      rw [if_pos hstatus, Option.some.injEq, Bool.not_eq_true', List.any_eq_false] at hallowed
      have hspent := hallowed K (List.mem_filter.mpr ⟨hK, hingests⟩)
      simp [hrecoverable, hstage] at hspent

/-- A version that stands at the stage of an artifact has one of the statuses of that stage. -/
theorem Standing.publishing {d : Document} {st : IndexState} {J : Job} {artifactType : ArtifactType}
    (h : Standing True d v st J) (hstage : J.stage = some stage)
    (hpublishing : publishingStage artifactType = some (stage, statuses)) :
    v.status ∈ statuses ∧ (J.status.isActive = true ∨ J.status = .failed) := by
  have of_rows (rows : InFlight v st J.stage) : v.status ∈ statuses := by
    rw [hstage] at rows
    cases artifactType with
    | source => cases hpublishing
    | parsed =>
        cases hpublishing
        cases rows with
        | parse version => rcases version with hv | hv <;> simp [hv]
    | chunks =>
        cases hpublishing
        cases rows with
        | chunk version => simp [version]
  cases h with
  | running status document rows => exact ⟨of_rows rows, .inl status⟩
  | failed status document version =>
      refine ⟨?_, .inr status⟩
      rw [version]
      cases artifactType <;> cases hpublishing <;> decide
  | crashed _ status _ _ rows => exact ⟨of_rows rows, .inr status⟩
  | succeeded _ _ _ _ activate =>
      rw [activate] at hstage
      cases hstage
      cases artifactType <;> cases hpublishing

/-- The keys of the artifacts of a version, and what they name. -/
theorem Ingesting.artifact {digest : ChunkerDigest} {crash : Prop} {g : Generation} {d : Document}
    {st : IndexState} {J : Job} (h : Ingesting digest crash g d v st J)
    (hidentity : canonicalDocumentArtifactIdentity objectKey = some identity) :
    (v.parsedObjectKey = some objectKey → identity = ⟨d.knowledgeBaseId, d.id, v.id, .parsed⟩) ∧
    (v.chunkManifestObjectKey = some objectKey → identity = ⟨d.knowledgeBaseId, d.id, v.id, .chunks⟩) := by
  have of_parsed (parsed : ParsedText d v) (hkey : v.parsedObjectKey = some objectKey) :
      identity = ⟨d.knowledgeBaseId, d.id, v.id, .parsed⟩ := by
    rw [← Option.some.inj (parsed.key.symm.trans hkey), identity_parsedTextObjectKey] at hidentity
    exact (Option.some.inj hidentity).symm
  have of_manifest {count : ℕ} (manifest : Manifest digest d v st count)
      (hkey : v.chunkManifestObjectKey = some objectKey) :
      identity = ⟨d.knowledgeBaseId, d.id, v.id, .chunks⟩ := by
    rw [← Option.some.inj (manifest.key.symm.trans hkey), identity_chunksObjectKey] at hidentity
    exact (Option.some.inj hidentity).symm
  have of_early (early : J.stage = some .parse ∨ J.stage = some .chunk)
      (hkey : v.chunkManifestObjectKey = some objectKey) :
      identity = ⟨d.knowledgeBaseId, d.id, v.id, .chunks⟩ := by
    rw [(h.atStage.awaited early).1] at hkey
    cases hkey
  cases h.atStage with
  | parse place resume unparsed unchunked =>
      refine ⟨fun hkey => ?_, of_early (.inl place.1)⟩
      rw [unparsed.1] at hkey
      cases hkey
  | chunk place resume parsed => exact ⟨of_parsed parsed, of_early (.inr place.1)⟩
  | embedIndex count place resume manifest => exact ⟨of_parsed manifest.parsed, of_manifest manifest⟩
  | validate count place resume manifest => exact ⟨of_parsed manifest.parsed, of_manifest manifest⟩
  | activate count place resume manifest => exact ⟨of_parsed manifest.parsed, of_manifest manifest⟩

/-- The parsed text of a version, or its manifest once the text is parsed. -/
def Derived (artifactType : ArtifactType) (v : Version) : Prop :=
  artifactType = .parsed ∨ artifactType = .chunks ∧ v.parsedObjectKey.isSome = true

/-- The stage that publishes a derived artifact is one of the first two. -/
theorem Derived.publishing {artifactType : ArtifactType} (h : Derived artifactType v) :
    ∃ stage statuses, publishingStage artifactType = some (stage, statuses) ∧
      (stage = .parse ∨ stage = .chunk) := by
  rcases h with rfl | ⟨rfl, -⟩
  · exact ⟨_, _, rfl, .inl rfl⟩
  · exact ⟨_, _, rfl, .inr rfl⟩

/-- The job of a version whose derived artifact is not referenced stands at the stage of the artifact. -/
theorem Ingesting.stage_of_unreferenced {digest : ChunkerDigest} {crash : Prop} {g : Generation}
    {d : Document} {st : IndexState} {J : Job} (h : Ingesting digest crash g d v st J)
    (hderived : Derived identity.artifactType v)
    (hparsed : identity.artifactType = .parsed →
      objectKey = parsedTextObjectKey d.knowledgeBaseId d.id v.id)
    (hchunks : identity.artifactType = .chunks → objectKey = chunksObjectKey d.knowledgeBaseId d.id v.id)
    (unparsed : v.parsedObjectKey ≠ some objectKey) (unchunked : v.chunkManifestObjectKey ≠ some objectKey)
    (hpublishing : publishingStage identity.artifactType = some (stage, statuses)) :
    J.stage = some stage := by
  rcases hderived with htype | ⟨htype, hsome⟩
  · rw [hparsed htype] at unparsed
    rw [htype] at hpublishing
    cases hpublishing
    cases h.atStage with
    | parse place => exact place.1
    | chunk _ _ parsed => exact absurd parsed.key unparsed
    | embedIndex _ _ _ manifest => exact absurd manifest.parsed.key unparsed
    | validate _ _ _ manifest => exact absurd manifest.parsed.key unparsed
    | activate _ _ _ manifest => exact absurd manifest.parsed.key unparsed
  · rw [hchunks htype] at unchunked
    rw [htype] at hpublishing
    cases hpublishing
    cases h.atStage with
    | parse _ _ none =>
        rw [none.1] at hsome
        cases hsome
    | chunk place => exact place.1
    | embedIndex _ _ _ manifest => exact absurd manifest.key unchunked
    | validate _ _ _ manifest => exact absurd manifest.key unchunked
    | activate _ _ _ manifest => exact absurd manifest.key unchunked

/-- **A cleanup that is allowed** finds the jobs of the version halted. -/
theorem halted_of_allowed (hbase : Base s) (hinv : IngestionInv settings True s)
    (hidentity : canonicalDocumentArtifactIdentity objectKey = some identity)
    (hversion : artifactVersion s.db identity = some v) (hderived : Derived identity.artifactType v)
    (hallowed : objectKeyCleanupIsAllowed s.db objectKey = some true) :
    ∃ stage statuses, publishingStage identity.artifactType = some (stage, statuses) ∧
      Halted (ingestionsOf s.db.jobs v.id) stage identity.knowledgeBaseId := by
  obtain ⟨hv, hvid, hvdocument, d', hd', hd'id, hd'kb⟩ := artifactVersion_eq_some hversion
  have hingested := hinv.ingestions.ingested v hv
  obtain ⟨d, hd, st, hst, g, hg, older, J, hlist, holder, hing⟩ := hingested
  obtain rfl : d = d' :=
    row_unique hbase.keys.documents hd hd' ((hing.owner.symm.trans hvdocument).trans hd'id.symm)
  obtain ⟨hparsedKey, hchunksKey⟩ := key_of_identity hidentity
  rw [← hd'kb, ← hd'id, ← hvid] at hparsedKey hchunksKey
  obtain ⟨stage, statuses, hpublishing, early⟩ := hderived.publishing
  obtain ⟨unparsed, unchunked, hjobs⟩ := allowed_spec hidentity hversion hpublishing hallowed
  have hstage := hing.stage_of_unreferenced hderived hparsedKey hchunksKey unparsed unchunked hpublishing
  obtain ⟨hstatus, hended⟩ := hing.standing.publishing hstage hpublishing
  have hspent := hjobs hstatus
  have ingests {K : Job} (hK : K ∈ ingestionsOf s.db.jobs v.id) :
      K ∈ s.db.jobs ∧ ingestsVersion identity.versionId K = true := by
    obtain ⟨hmem, hop, htarget⟩ := (mem_ingestionsOf).mp hK
    obtain ⟨g₀, -, hon⟩ := hinv.jobs K hmem (.inl hop)
    refine ⟨hmem, ?_⟩
    simp [ingestsVersion, hon.ingestion hop, hop, htarget, hvid]
  have hJ : J ∈ ingestionsOf s.db.jobs v.id := by
    rw [hlist]
    exact List.mem_append_right _ List.mem_cons_self
  have hJfailed : J.status = .failed := by
    rcases hended with hactive | hfailed
    · exact absurd hstage (hspent J (ingests hJ).1 (ingests hJ).2 (by simp [recoverableJob, hactive]))
    · exact hfailed
  have hfailed : ∀ K ∈ ingestionsOf s.db.jobs v.id, K.status = .failed := by
    intro K hK
    rw [hlist] at hK
    rcases List.mem_append.mp hK with hold | hlast
    · exact (holder K hold).failed
    · rw [List.mem_singleton.mp hlast]
      exact hJfailed
  refine ⟨stage, statuses, hpublishing, early, ⟨older, J, hlist, hstage⟩, hfailed, ?_, ?_⟩
  · intro K hK hretryable
    exact hspent K (ingests hK).1 (ingests hK).2 (by simp [recoverableJob, hfailed K hK, hretryable])
  · intro K hK
    rw [← hd'kb]
    exact (hinv.ingestions.ingested v hv).job_knowledgeBase hbase.keys hinv.jobs hK hd hing.owner

/-- The key of a derived artifact of a version whose jobs are halted, or whose knowledge base is gone,
is referenced by no row. -/
theorem not_referenced_of_halted (h : Reachable settings t)
    (hidentity : canonicalDocumentArtifactIdentity objectKey = some identity)
    (hpublishing : publishingStage identity.artifactType = some (stage, statuses))
    (hhalted : Halted jobs stage identity.knowledgeBaseId)
    (hkept : ingestionsOf t.db.jobs identity.versionId = jobs ∨ Gone t identity.knowledgeBaseId) :
    objectKeyIsReferenced t.db objectKey = false := by
  obtain ⟨-, hinv⟩ := ingestionInv_of_reachable h
  rw [objectKeyIsReferenced, List.any_eq_false]
  intro w hw
  simp only [Bool.or_eq_true, decide_eq_true_eq]
  have hingested := hinv.ingestions.ingested w hw
  obtain ⟨d, -, st, -, g, hg, older, J, -, -, hing⟩ := hingested
  obtain ⟨hparsedOf, hchunksOf⟩ := hing.artifact hidentity
  -- the row of an artifact names a knowledge base that is there
  have halted_row {artifactType : ArtifactType}
      (hof : identity = ⟨d.knowledgeBaseId, d.id, w.id, artifactType⟩) :
      w.chunkManifestObjectKey = none ∧ awaitedStage w = stage := by
    rcases hkept with hjobs | hgone
    · apply hhalted.rows _ (hinv.ingestions.ingested w hw)
      rw [← hjobs, hof]
    · obtain ⟨k, hk, hid⟩ := List.mem_map.mp (hinv.generations.owner g hg)
      refine absurd ?_ (hgone.1 k hk)
      rw [hid, ← hing.knowledgeBase, hof]
  rintro ((hsource | hparsed) | hchunks)
  · obtain ⟨identity', hidentity', htype⟩ := sourceKeyed_of_reachable h w hw
    rw [hsource, hidentity, Option.some.injEq] at hidentity'
    rw [hidentity', htype] at hpublishing
    cases hpublishing
  · have hof := hparsedOf hparsed
    have hawaited := (halted_row hof).2
    rw [hof] at hpublishing
    cases hpublishing
    rw [awaitedStage, hparsed] at hawaited
    cases hawaited
  · rw [(halted_row (hchunksOf hchunks)).1] at hchunks
    cases hchunks

/-- **A cleanup is final**: once the repository allows the removal of the parsed text of a version, or
of its manifest after the text was parsed, no row references the key in any state that a run reaches
from there, whatever jobs, retries, uploads and purges the run has. -/
theorem cleanup_is_final (h : Reachable settings s)
    (hidentity : canonicalDocumentArtifactIdentity objectKey = some identity)
    (hversion : artifactVersion s.db identity = some v) (hderived : Derived identity.artifactType v)
    (hallowed : objectKeyCleanupIsAllowed s.db objectKey = some true)
    (hrun : Relation.ReflTransGen (Step settings) s t) : objectKeyIsReferenced t.db objectKey = false := by
  obtain ⟨hbase, hinv⟩ := ingestionInv_of_reachable h
  obtain ⟨stage, statuses, hpublishing, hhalted⟩ :=
    halted_of_allowed hbase hinv hidentity hversion hderived hallowed
  apply not_referenced_of_halted (h.trans hrun) hidentity hpublishing hhalted
  rw [← (artifactVersion_eq_some hversion).2.1]
  exact halted_run hbase hinv hhalted rfl hrun

end Cleanup

/-- The parsed text of the version of `rejectedRun`, whose job has failed for good. -/
theorem cleanup_is_final_rejectedRun :
    objectKeyIsReferenced (exec sampleSettings (exec sampleSettings Sys.init rejectedRun) [.tick 60]).db
      (parsedTextObjectKey 1 10 11) = false := by
  have hversion : ∃ v, artifactVersion (exec sampleSettings Sys.init rejectedRun).db ⟨1, 10, 11, .parsed⟩
      = some v := Option.isSome_iff_exists.mp (by decide +kernel)
  have hallowed : objectKeyCleanupIsAllowed (exec sampleSettings Sys.init rejectedRun).db
      (parsedTextObjectKey 1 10 11) = some true := by decide +kernel
  obtain ⟨v, hv⟩ := hversion
  exact cleanup_is_final (reachable_exec rejectedRun) (identity_parsedTextObjectKey 1 10 11) hv (.inl rfl)
    hallowed (run_exec _ _)

/-- While the text is not parsed, the key of the manifest may be removed, and is referenced later. -/
example : objectKeyCleanupIsAllowed (exec sampleSettings Sys.init uploadedRun).db (chunksObjectKey 1 10 11)
      = some true ∧
    objectKeyIsReferenced (exec sampleSettings Sys.init chunkedRun).db (chunksObjectKey 1 10 11) = true := by
  decide +kernel

end VeloxRag
