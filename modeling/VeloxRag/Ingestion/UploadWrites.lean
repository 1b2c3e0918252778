import VeloxRag.Ingestion.Upload
import VeloxRag.Jobs.FencedWrites

/-!
# What an upload and a retry write

A reservation either answers a repetition from the row it finds, and writes nothing, or creates
the rows of a new document.  A manual retry either answers with the child it finds, or queues a
new job; for an ingestion it also puts three rows back.

## Main definitions

* `UploadCreates`, `reserve_eq_ok` — the reservation of an upload.
* `RetrySource`, `RetriedRows`, `RetryWrite`, `reserveManualRetry_eq_ok` — the manual retry.
-/

namespace VeloxRag.Ingestion

open Lib Jobs

/-! ## Uploads -/

/-- What a reservation that creates has checked. -/
structure UploadCreates (db : Db) (reservation : UploadReservation) (knowledgeBase : KnowledgeBase)
    (generation : Generation) : Prop where
  knowledgeBase_mem : knowledgeBase ∈ db.knowledgeBases
  knowledgeBaseId : knowledgeBase.id = reservation.knowledgeBaseId
  status : knowledgeBase.status = .active
  unused : existingIdempotency db reservation = none
  noRepair : activeRepair db knowledgeBase = false
  generation_mem : generation ∈ db.generations
  generationStatus : generation.status = .active
  active : knowledgeBase.activeIndexGenerationId = some generation.id
  newChecksum : liveChecksumTaken db knowledgeBase.id reservation.sourceChecksum = false

/-- **The reservation of an upload** answers from the row of its key, or creates. -/
theorem reserve_eq_ok {reservation : UploadReservation} {checks : Except TxError Unit} {mutationId : ℕ}
    {result : UploadReservationResult} {db db' : Db}
    (h : reserve reservation checks mutationId db = .ok (result, db')) :
    (db' = db ∧ ∃ existing, existingIdempotency db reservation = some existing ∧
      existing.requestFingerprint = reservation.requestFingerprint ∧
      result = ⟨existing.documentId, existing.versionId, existing.jobId, true⟩) ∨
    ∃ knowledgeBase generation, UploadCreates db reservation knowledgeBase generation ∧
      result = ⟨reservation.documentId, reservation.versionId, reservation.jobId, false⟩ ∧
      db' = applyUpload reservation knowledgeBase generation mutationId db := by
  unfold reserve at h
  split at h
  · cases h
  · rename_i knowledgeBase hk
    obtain ⟨hkmem, hkid⟩ := mem_of_find? hk
    split at h
    · cases h
    · rename_i hstatus
      split at h
      · rename_i existing hexisting
        obtain ⟨answer, hanswer, h⟩ := bind_eq_ok.mp h
        simp only [pure_ok_iff, Prod.mk.injEq] at h
        unfold replay at hanswer
        split at hanswer
        · cases hanswer
        · rename_i hfingerprint
          obtain rfl := Except.ok.inj hanswer
          exact .inl ⟨h.2.symm, existing, hexisting, by simpa using hfingerprint, h.1.symm⟩
      · rename_i hunused
        split at h
        · cases h
        · rename_i hrepair
          split at h
          · cases h
          · rename_i preflight hpreflight
            split at h
            · cases h
            · rename_i generation hg
              obtain ⟨hgmem, -⟩ := mem_of_find? hg
              split at h
              · cases h
              · rename_i hmatches
                simp only [Bool.not_eq_false, matchesPreflight, Bool.and_eq_true, decide_eq_true_eq] at hmatches
                obtain ⟨⟨⟨⟨hgstatus, hactive⟩, -⟩, -⟩, -⟩ := hmatches
                obtain ⟨_, -, h⟩ := bind_eq_ok.mp h
                split at h
                · cases h
                · rename_i hchecksum
                  simp only [pure_ok_iff, Prod.mk.injEq] at h
                  refine .inr ⟨knowledgeBase, generation, ⟨hkmem, hkid, by simpa using hstatus, hunused,
                    by simpa using hrepair, hgmem, hgstatus, hactive, by simpa using hchecksum⟩, h.1.symm,
                    h.2.symm⟩

end VeloxRag.Ingestion

namespace VeloxRag.Jobs

open Lib

/-! ## Manual retries -/

/-- What a retry that creates a job has checked of the job it retries. -/
structure RetrySource (db : Db) (snapshot : ManualRetrySnapshot) (source : Job)
    (knowledgeBase : KnowledgeBase) (generation : Generation) : Prop where
  mem : source ∈ db.jobs
  fence : manualRetryFence snapshot source = true
  failed : source.status = .failed
  retryable : source.retryable = true
  knowledgeBase_mem : knowledgeBase ∈ db.knowledgeBases
  generation_mem : generation ∈ db.generations
  knowledgeBaseId : source.knowledgeBaseId = some knowledgeBase.id
  generationId : source.indexGenerationId = some generation.id
  status : knowledgeBase.status = .active
  active : knowledgeBase.activeIndexGenerationId = some generation.id
  owner : generation.knowledgeBaseId = knowledgeBase.id
  generationStatus : generation.status = .active
  noConflict : activeManualRetryConflict db source knowledgeBase.id generation.id = false

/-- What the retry of an ingestion has checked of the rows, and the rows after it. -/
structure RetriedRows (configHash : ConfigHash) (db : Db) (snapshot : ManualRetrySnapshot)
    (generation : Generation) (document : Document) (version : Version) (state : IndexState)
    (versionStatus : VersionStatus) (stateStatus : IndexStatus) : Prop where
  document_mem : document ∈ db.documents
  version_mem : version ∈ db.versions
  state_mem : state ∈ db.indexStates
  versionId : version.id = snapshot.targetId
  key : state.key = (version.id, generation.id)
  current : document.currentVersionId = none
  pending : document.pendingVersionId = some version.id
  documentStatus : document.status = .failed
  deletedAt : document.deletedAt = none
  owner : version.documentId = document.id
  versionFailed : version.status = .failed
  stateFailed : state.status = .failed
  parser : validParserSnapshot document version = true
  resumable : resumable configHash snapshot version state generation
    = some (true, versionStatus, stateStatus)

/-- The database after the retry of an ingestion. -/
def retried (document : Document) (version : Version) (state : IndexState) (versionStatus : VersionStatus)
    (stateStatus : IndexStatus) (child : Job) (db : Db) : Db :=
  { db with
    documents := setRow (·.id) { document with status := .processing } db.documents
    versions := setRow (·.id) { version with status := versionStatus } db.versions
    indexStates := setRow IndexState.key { state with
      status := stateStatus
      errorCode := none
      safeErrorMessage := none } db.indexStates
    jobs := db.jobs ++ [child] }

/-- What the retry of a rebuild has checked. -/
structure RetriedRebuild (configHash : ConfigHash) (db : Db) (snapshot : ManualRetrySnapshot)
    (knowledgeBase : KnowledgeBase) (generation : Generation) : Prop where
  anchor : validRebuildAnchor knowledgeBase generation (snapshot.mutationId.bind db.mutation?) snapshot = true
  total : canonicalRebuildPointTotal configHash db knowledgeBase generation = snapshot.progressTotal
  progress : ∀ t, snapshot.progressTotal = some t → snapshot.progressCurrent ≤ t

/-- **The writes of a manual retry.** -/
inductive RetryWrite (configHash : ConfigHash) (db : Db) (childId : ℕ) : Db → Prop
  | ingestion (snapshot : ManualRetrySnapshot) (source : Job) (knowledgeBase : KnowledgeBase)
      (generation : Generation) (document : Document) (version : Version) (state : IndexState)
      (versionStatus : VersionStatus) (stateStatus : IndexStatus) (actorApiKeyId : ℕ)
      (idempotencyKey : Str) (operation : source.operation = .ingestDocument)
      (hsource : RetrySource db snapshot source knowledgeBase generation)
      (rows : RetriedRows configHash db snapshot generation document version state versionStatus
        stateStatus)
      (free : activeTargetTaken db (childJob source childId actorApiKeyId idempotencyKey) = false) :
      RetryWrite configHash db childId (retried document version state versionStatus stateStatus
        (childJob source childId actorApiKeyId idempotencyKey) db)
  | rebuild (snapshot : ManualRetrySnapshot) (source : Job) (knowledgeBase : KnowledgeBase)
      (generation : Generation) (actorApiKeyId : ℕ) (idempotencyKey : Str)
      (operation : source.operation = .rebuildGeneration)
      (hsource : RetrySource db snapshot source knowledgeBase generation)
      (rows : RetriedRebuild configHash db snapshot knowledgeBase generation)
      (free : activeTargetTaken db (childJob source childId actorApiKeyId idempotencyKey) = false) :
      RetryWrite configHash db childId
        { db with jobs := db.jobs ++ [childJob source childId actorApiKeyId idempotencyKey] }

section Retry

variable {configHash : ConfigHash} {snapshot : ManualRetrySnapshot} {db db' : Db}

theorem manualRetryFence_iff {job : Job} (h : manualRetryFence snapshot job = true) :
    snapshotOf job snapshot.documentId = snapshot := by
  simpa [manualRetryFence] using h

theorem retryIngestion_eq_ok {source : Job} {knowledgeBase : KnowledgeBase} {generation : Generation}
    {a : Unit} (h : retryIngestion configHash snapshot source knowledgeBase generation db = .ok (a, db')) :
    ∃ document version state versionStatus stateStatus,
      RetriedRows configHash db snapshot generation document version state versionStatus stateStatus ∧
      document.knowledgeBaseId = knowledgeBase.id ∧ source.targetType = .documentVersion ∧
      db' = { db with
        documents := setRow (·.id) { document with status := .processing } db.documents
        versions := setRow (·.id) { version with status := versionStatus } db.versions
        indexStates := setRow IndexState.key { state with
          status := stateStatus
          errorCode := none
          safeErrorMessage := none } db.indexStates } := by
  unfold retryIngestion at h
  dsimp only at h
  split at h
  · cases h
  · rename_i document version state hrows
    simp only [Option.bind_eq_bind, Option.bind_eq_some_iff] at hrows
    obtain ⟨documentId, hdocument, d, hd, v, hv, st, hst, hrows⟩ := hrows
    obtain ⟨rfl, rfl, rfl⟩ : d = document ∧ v = version ∧ st = state := by simpa using hrows
    obtain ⟨hdmem, hdid⟩ := mem_of_find? hd
    obtain ⟨hvmem, hvid⟩ := mem_of_find? hv
    obtain ⟨hsmem, hkey⟩ := mem_of_find? hst
    split at h
    · cases h
    · rename_i hguard
      simp only [not_or, ne_eq, not_not] at hguard
      obtain ⟨htype, hkb, hcurrent, hpending, hdstatus, hdeleted, howner, -, hvstatus, hsstatus⟩ := hguard
      obtain ⟨⟨d', v', s'⟩, hreset, h⟩ := bind_eq_ok.mp h
      simp only [pure_ok_iff, Prod.mk.injEq] at h
      unfold resetIngestionRetry at hreset
      split at hreset
      · cases hreset
      · rename_i hparser
        split at hreset
        · rename_i versionStatus stateStatus hresumable
          simp only [Except.ok.injEq, Prod.mk.injEq] at hreset
          obtain ⟨rfl, rfl, rfl⟩ := hreset
          refine ⟨d, v, st, versionStatus, stateStatus, ⟨hdmem, hvmem, hsmem, hvid, ?_, hcurrent, hpending,
            hdstatus, hdeleted, howner, hvstatus, hsstatus, by simpa using hparser, hresumable⟩, hkb, htype,
            h.2.symm⟩
          rw [hkey, hvid]
        · cases hreset

theorem retryRebuild_eq_ok {knowledgeBase : KnowledgeBase} {generation : Generation} {a : Unit}
    (h : retryRebuild configHash snapshot knowledgeBase generation db = .ok (a, db')) :
    RetriedRebuild configHash db snapshot knowledgeBase generation ∧ db' = db := by
  unfold retryRebuild at h
  obtain ⟨hguard, h⟩ := check_eq_ok h
  simp only [Bool.and_eq_true, Option.any_eq_true, decide_eq_true_eq] at hguard
  obtain ⟨hanchor, total, htotal, hprogress, hcurrent⟩ := hguard
  simp only [Except.ok.injEq, Prod.mk.injEq] at h
  refine ⟨⟨hanchor, htotal.trans hprogress.symm, ?_⟩, h.2.symm⟩
  intro t ht
  obtain rfl : total = t := by simpa [hprogress] using ht
  split at hcurrent
  · simpa using hcurrent
  · simp only [decide_eq_true_eq] at hcurrent
    exact hcurrent.le

/-- **The manual retry** answers with the child it finds, or writes. -/
theorem reserveManualRetry_eq_ok {actorApiKeyId : ℕ} {idempotencyKey : Str} {childId : ℕ}
    {result : ManualRetryReservation}
    (h : reserveManualRetry configHash snapshot actorApiKeyId idempotencyKey childId db
      = .ok (result, db')) : db' = db ∨ RetryWrite configHash db childId db' := by
  unfold reserveManualRetry at h
  split at h
  · rename_i knowledgeBaseId generationId hkb hgen
    split at h
    · cases h
    · rename_i source hsource
      split at h
      · simp only [Except.ok.injEq, Prod.mk.injEq] at h
        exact .inl h.2.symm
      · split at h
        · cases h
        · rename_i hfailed
          simp only [not_or, ne_eq, not_not, Bool.not_eq_false] at hfailed
          split at h
          · rename_i knowledgeBase generation hk hg
            obtain ⟨hkmem, rfl⟩ := mem_of_find? hk
            obtain ⟨hgmem, rfl⟩ := mem_of_find? hg
            split at h
            · cases h
            · rename_i hguard
              simp only [not_or, ne_eq, not_not] at hguard
              split at h
              · cases h
              · rename_i hconflict
                have hfence := List.find?_some hsource
                have heq := manualRetryFence_iff hfence
                have hsrc : RetrySource db snapshot source knowledgeBase generation :=
                  ⟨List.mem_of_find?_eq_some hsource, hfence, hfailed.1, hfailed.2, hkmem, hgmem,
                    (congrArg ManualRetrySnapshot.knowledgeBaseId heq).trans hkb,
                    (congrArg ManualRetrySnapshot.indexGenerationId heq).trans hgen, hguard.1, hguard.2.1,
                    hguard.2.2.1, hguard.2.2.2, by simpa using hconflict⟩
                right
                split at h
                · rename_i hop
                  obtain ⟨⟨u, db₁⟩, hretry, hinsert⟩ := bind_eq_ok.mp h
                  obtain ⟨document, version, state, versionStatus, stateStatus, hrows, -, -, rfl⟩ :=
                    retryIngestion_eq_ok hretry
                  obtain ⟨⟨u', db₂⟩, hinsert, hdone⟩ := bind_eq_ok.mp hinsert
                  obtain ⟨hfree, rfl⟩ := insertJob_eq_ok hinsert
                  simp only [pure_ok_iff, Prod.mk.injEq] at hdone
                  rw [← hdone.2]
                  exact .ingestion snapshot source knowledgeBase generation document version state
                    versionStatus stateStatus actorApiKeyId idempotencyKey hop hsrc hrows (hfree rfl)
                · rename_i hop
                  obtain ⟨⟨u, db₁⟩, hretry, hinsert⟩ := bind_eq_ok.mp h
                  obtain ⟨hrows, rfl⟩ := retryRebuild_eq_ok hretry
                  obtain ⟨⟨u', db₂⟩, hinsert, hdone⟩ := bind_eq_ok.mp hinsert
                  obtain ⟨hfree, rfl⟩ := insertJob_eq_ok hinsert
                  simp only [pure_ok_iff, Prod.mk.injEq] at hdone
                  rw [← hdone.2]
                  exact .rebuild snapshot source knowledgeBase generation actorApiKeyId idempotencyKey hop
                    hsrc hrows (hfree rfl)
                · cases h
          · cases h
  · cases h

end Retry

end VeloxRag.Jobs
