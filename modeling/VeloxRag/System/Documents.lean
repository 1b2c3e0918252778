import VeloxRag.System.Uploads

/-!
# Documents and their versions

Every document has one version.  The two rows move together: both are being processed, both
have failed, or the document is active and the version is its current one.

## Main definitions

* `Phase` — the statuses and the pointers of a document with its version.
* `Paired` — the columns of a version that agree with its document.
* `Pairing` — every version has its document and every document its version.
* `pairing_of_reachable` — the invariant.
-/

namespace VeloxRag

open Lib Jobs Ingestion Indexing Metadata

/-! ## One document -/

/-- Where a document is with its version. -/
inductive Phase (d : Document) (v : Version) : Prop
  | processing (status : d.status = .processing) (current : d.currentVersionId = none)
      (pending : d.pendingVersionId = some v.id) (inFlight : VersionStatus.isInFlight v.status = true)
      (activatedAt : v.activatedAt = none)
  | failed (status : d.status = .failed) (current : d.currentVersionId = none)
      (pending : d.pendingVersionId = some v.id) (versionStatus : v.status = .failed)
      (activatedAt : v.activatedAt = none)
  | active (status : d.status = .active) (current : d.currentVersionId = some v.id)
      (pending : d.pendingVersionId = none) (ready : v.status = .ready)
      (activatedAt : v.activatedAt.isSome = true)

/-- A document with its version. -/
structure Paired (d : Document) (v : Version) : Prop where
  owner : v.documentId = d.id
  checksum : d.checksum = some v.source.checksum
  deletedAt : d.deletedAt = none
  base : v.baseVersionId = none
  parser : v.source.extension.bind Jobs.parserForExtension = some v.parser
  mimeType : v.source.detectedMimeType.isSome = true
  phase : Phase d v

/-- The columns of a version that no write changes. -/
structure Version.Keeps (v v' : Version) : Prop where
  id : v'.id = v.id
  documentId : v'.documentId = v.documentId
  baseVersionId : v'.baseVersionId = v.baseVersionId
  source : v'.source = v.source
  parser : v'.parser = v.parser

theorem Version.Keeps.rfl {v : Version} : v.Keeps v :=
  ⟨Eq.refl _, Eq.refl _, Eq.refl _, Eq.refl _, Eq.refl _⟩

/-- The columns of a document that no write changes. -/
structure Document.Keeps (d d' : Document) : Prop where
  id : d'.id = d.id
  checksum : d'.checksum = d.checksum
  deletedAt : d'.deletedAt = d.deletedAt

theorem Paired.keeps {d d' : Document} {v v' : Version} (h : Paired d v) (hd : d.Keeps d') (hv : v.Keeps v')
    (phase : Phase d' v') : Paired d' v' where
  owner := by rw [hv.documentId, hd.id, h.owner]
  checksum := by rw [hd.checksum, hv.source, h.checksum]
  deletedAt := by rw [hd.deletedAt, h.deletedAt]
  base := by rw [hv.baseVersionId, h.base]
  parser := by rw [hv.source, hv.parser, h.parser]
  mimeType := by rw [hv.source, h.mimeType]
  phase := phase

/-- A terminal failure that finds the rows of a document applies to them. -/
theorem Paired.safe {graph : StageGraph} (h : Paired graph.document graph.version)
    (hkb : graph.document.knowledgeBaseId = graph.knowledgeBase.id)
    (hgen : graph.generation.knowledgeBaseId = graph.knowledgeBase.id)
    (hcurrent : graph.document.currentVersionId = none) : safeUnactivatedVersion graph = true := by
  simp [safeUnactivatedVersion, h.owner, h.base, hkb, hgen, hcurrent]

/-! ## The tables -/

/-- Every version has its document, every document its version, and no document two. -/
structure Pairing (documents : List Document) (versions : List Version) : Prop where
  document : ∀ v ∈ versions, ∃ d ∈ documents, Paired d v
  version : ∀ d ∈ documents, ∃ v ∈ versions, v.documentId = d.id
  unique : ∀ v ∈ versions, ∀ v' ∈ versions, v.documentId = v'.documentId → v = v'

section Tables

variable {documents : List Document} {versions : List Version}

/-- The document of a version. -/
theorem Pairing.paired (h : Pairing documents versions) (hkeys : (documents.map (·.id)).Nodup)
    {d : Document} {v : Version} (hd : d ∈ documents) (hv : v ∈ versions) (howner : v.documentId = d.id) :
    Paired d v := by
  obtain ⟨d', hd', hpaired⟩ := h.document v hv
  rwa [row_unique hkeys hd hd' (howner.symm.trans hpaired.owner)]

/-- A document and its version are replaced together. -/
theorem Pairing.set (h : Pairing documents versions) (hkeys : (versions.map (·.id)).Nodup) {d d' : Document}
    {v v' : Version} (hd : d ∈ documents) (hv : v ∈ versions) (hpaired : Paired d v)
    (hdid : d'.id = d.id) (hvid : v'.id = v.id) (hpaired' : Paired d' v') :
    Pairing (setRow (·.id) d' documents) (setRow (·.id) v' versions) := by
  have hd' : d' ∈ setRow (·.id) d' documents := mem_setRow_self hd hdid.symm
  have hv' : v' ∈ setRow (·.id) v' versions := mem_setRow_self hv hvid.symm
  have howner : v'.documentId = v.documentId := by rw [hpaired'.owner, hdid, hpaired.owner]
  refine ⟨?_, ?_, ?_⟩
  · intro x hx
    rcases mem_setRow hx with rfl | ⟨hmem, hne⟩
    · exact ⟨d', hd', hpaired'⟩
    · obtain ⟨e, he, hxe⟩ := h.document x hmem
      refine ⟨e, mem_setRow_of_ne he ?_, hxe⟩
      intro heq
      have hsame := h.unique x hmem v hv (by rw [hxe.owner, hpaired.owner, heq, hdid])
      exact hne (by rw [hsame, hvid])
  · intro e he
    rcases mem_setRow he with rfl | ⟨hmem, hne⟩
    · exact ⟨v', hv', hpaired'.owner⟩
    · obtain ⟨x, hx, hxe⟩ := h.version e hmem
      refine ⟨x, mem_setRow_of_ne hx ?_, hxe⟩
      intro heq
      have hsame := row_unique hkeys hx hv (heq.trans hvid)
      exact hne (by rw [← hxe, hsame, hpaired.owner, hdid])
  · intro x hx y hy hxy
    rcases mem_setRow hx with rfl | ⟨hxmem, hxne⟩
    · rcases mem_setRow hy with rfl | ⟨hymem, hyne⟩
      · rfl
      · have hsame := h.unique v hv y hymem (by rw [← howner, hxy])
        exact absurd (by rw [← hsame, hvid]) hyne
    · rcases mem_setRow hy with rfl | ⟨hymem, hyne⟩
      · have hsame := h.unique x hxmem v hv (by rw [← howner, hxy])
        exact absurd (by rw [hsame, hvid]) hxne
      · exact h.unique x hxmem y hymem hxy

/-- Only the version is replaced. -/
theorem Pairing.setVersion (h : Pairing documents versions) (hdocs : (documents.map (·.id)).Nodup)
    (hkeys : (versions.map (·.id)).Nodup) {d : Document} {v v' : Version} (hd : d ∈ documents)
    (hv : v ∈ versions) (hpaired : Paired d v) (hvid : v'.id = v.id) (hpaired' : Paired d v') :
    Pairing documents (setRow (·.id) v' versions) := by
  have hset := h.set hkeys hd hv hpaired rfl hvid hpaired'
  rwa [setRow_self hdocs hd] at hset

theorem Pairing.append (h : Pairing documents versions) {d : Document} {v : Version} (hpaired : Paired d v)
    (hfresh : ∀ e ∈ documents, e.id ≠ d.id) : Pairing (documents ++ [d]) (versions ++ [v]) := by
  have hother : ∀ x ∈ versions, x.documentId ≠ v.documentId := by
    intro x hx heq
    obtain ⟨e, he, hxe⟩ := h.document x hx
    exact hfresh e he (by rw [← hxe.owner, heq, hpaired.owner])
  refine ⟨?_, ?_, ?_⟩
  · intro x hx
    rcases List.mem_append.mp hx with hmem | hmem
    · obtain ⟨e, he, hxe⟩ := h.document x hmem
      exact ⟨e, List.mem_append_left _ he, hxe⟩
    · rw [List.mem_singleton.mp hmem]
      exact ⟨d, List.mem_append_right _ (List.mem_singleton.mpr rfl), hpaired⟩
  · intro e he
    rcases List.mem_append.mp he with hmem | hmem
    · obtain ⟨x, hx, hxe⟩ := h.version e hmem
      exact ⟨x, List.mem_append_left _ hx, hxe⟩
    · rw [List.mem_singleton.mp hmem]
      exact ⟨v, List.mem_append_right _ (List.mem_singleton.mpr rfl), hpaired.owner⟩
  · intro x hx y hy hxy
    rcases List.mem_append.mp hx with hxmem | hxmem
    · rcases List.mem_append.mp hy with hymem | hymem
      · exact h.unique x hxmem y hymem hxy
      · rw [List.mem_singleton.mp hymem] at hxy
        exact absurd hxy (hother x hxmem)
    · rcases List.mem_append.mp hy with hymem | hymem
      · rw [List.mem_singleton.mp hxmem] at hxy
        exact absurd hxy.symm (hother y hymem)
      · rw [List.mem_singleton.mp hxmem, List.mem_singleton.mp hymem]

/-- The documents of a knowledge base go with their versions. -/
theorem Pairing.purge (h : Pairing documents versions) (hdocs : (documents.map (·.id)).Nodup)
    (knowledgeBaseId : ℕ) :
    Pairing (documents.filter (·.knowledgeBaseId ≠ knowledgeBaseId)) (versions.filter
      (·.documentId ∉ (documents.filter (·.knowledgeBaseId = knowledgeBaseId)).map (·.id))) := by
  have hkeep {v : Version} {d : Document} (hd : d ∈ documents) (howner : v.documentId = d.id) :
      v.documentId ∉ (documents.filter (·.knowledgeBaseId = knowledgeBaseId)).map (·.id) ↔
        d.knowledgeBaseId ≠ knowledgeBaseId := by
    rw [howner, not_iff_not]
    simp only [List.mem_map, List.mem_filter, decide_eq_true_eq]
    constructor
    · rintro ⟨e, ⟨he, hkb⟩, hid⟩
      rwa [row_unique hdocs hd he hid.symm]
    · intro hkb
      exact ⟨d, ⟨hd, hkb⟩, rfl⟩
  refine ⟨?_, ?_, ?_⟩
  · intro v hv
    obtain ⟨hmem, hnot⟩ := List.mem_filter.mp hv
    obtain ⟨d, hd, hpaired⟩ := h.document v hmem
    have hkb := (hkeep hd hpaired.owner).mp (by simpa using hnot)
    exact ⟨d, List.mem_filter.mpr ⟨hd, by simpa using hkb⟩, hpaired⟩
  · intro d hd
    obtain ⟨hmem, hkb⟩ := List.mem_filter.mp hd
    obtain ⟨v, hv, howner⟩ := h.version d hmem
    have hnot := (hkeep hmem howner).mpr (by simpa using hkb)
    exact ⟨v, List.mem_filter.mpr ⟨hv, by simpa using hnot⟩, howner⟩
  · intro v hv v' hv' heq
    exact h.unique v (List.mem_of_mem_filter hv) v' (List.mem_of_mem_filter hv') heq

end Tables

/-! ## The writes -/

section Writes

variable {settings : Settings} {s s' : Sys} {op : Op}

/-- A stage commit keeps the columns of the version, and a version in flight stays in flight. -/
theorem Ingestion.StageWrite.version {digest : ChunkerDigest} {defaults : ℤ × ℤ} {now : ℕ}
    {graph : StageGraph} {job after : Job} {version : Version} {state : IndexState}
    (h : StageWrite digest defaults now graph job version state after) :
    graph.version.Keeps version ∧ version.activatedAt = graph.version.activatedAt ∧
      (VersionStatus.isInFlight graph.version.status = true →
        VersionStatus.isInFlight version.status = true) := by
  cases h with
  | started => exact ⟨⟨rfl, rfl, rfl, rfl, rfl⟩, rfl, fun _ => rfl⟩
  | parsed => exact ⟨⟨rfl, rfl, rfl, rfl, rfl⟩, rfl, fun _ => rfl⟩
  | chunked => exact ⟨⟨rfl, rfl, rfl, rfl, rfl⟩, rfl, fun _ => rfl⟩
  | embedded => exact ⟨⟨rfl, rfl, rfl, rfl, rfl⟩, rfl, fun _ => rfl⟩
  | counted => exact ⟨.rfl, rfl, id⟩
  | validated => exact ⟨.rfl, rfl, id⟩

theorem Paired.phase_of_ready {graph : StageGraph} (h : Paired graph.document graph.version)
    (hready : graph.document.status = .processing) :
    graph.document.currentVersionId = none ∧ graph.document.pendingVersionId = some graph.version.id ∧
      VersionStatus.isInFlight graph.version.status = true ∧ graph.version.activatedAt = none := by
  cases h.phase with
  | processing status current pending inFlight activatedAt => exact ⟨current, pending, inFlight, activatedAt⟩
  | failed status =>
      rw [hready] at status
      cases status
  | active status =>
      rw [hready] at status
      cases status

/-- **A stage commit** keeps the pairing. -/
theorem Pairing.stage (hkeys : s.db.WellKeyed) (h : Pairing s.db.documents s.db.versions) {lease : JobLease}
    {graph : StageGraph} {job after : Job} {version : Version} {state : IndexState}
    (commit : StageCommit settings.digest settings.chunkDefaults s.db lease graph job version state after) :
    Pairing s.db.documents (setRow (·.id) version s.db.versions) := by
  obtain ⟨-, -, -, -, -, -, -, hprocessing, howner⟩ := commit.ready
  have hpaired := h.paired hkeys.documents commit.graph_in.document commit.graph_in.version howner
  obtain ⟨hkeeps, hactivated, hinFlight⟩ := commit.write.version
  obtain ⟨hcurrent, hpending, hwas, hnone⟩ := hpaired.phase_of_ready hprocessing
  refine h.setVersion hkeys.documents hkeys.versions commit.graph_in.document commit.graph_in.version hpaired
    hkeeps.id (hpaired.keeps ⟨rfl, rfl, rfl⟩ hkeeps ?_)
  exact .processing hprocessing hcurrent (by rw [hkeeps.id, hpending]) (hinFlight hwas)
    (by rw [hactivated, hnone])

/-- The rows after a terminal failure. -/
theorem Paired.fail {graph : StageGraph} (h : Paired graph.document graph.version) :
    Paired (failedDocument graph) (failedVersion graph) := by
  by_cases hsafe : safeUnactivatedVersion graph = true
  · cases hphase : h.phase with
    | processing status current pending inFlight activatedAt =>
        have hd : failedDocument graph = { graph.document with status := .failed } := by
          simp [failedDocument, hsafe, current, pending, status, h.deletedAt]
        have hv : failedVersion graph = { graph.version with status := .failed } := by
          simp [failedVersion, hsafe, inFlight]
        rw [hd, hv]
        exact h.keeps ⟨rfl, rfl, rfl⟩ ⟨rfl, rfl, rfl, rfl, rfl⟩ (.failed rfl current pending rfl activatedAt)
    | failed status current pending versionStatus activatedAt =>
        have hd : failedDocument graph = graph.document := by
          simp [failedDocument, status, current]
        have hv : failedVersion graph = graph.version := by
          simp [failedVersion, versionStatus, VersionStatus.isInFlight]
        rwa [hd, hv]
    | active status current =>
        simp [safeUnactivatedVersion, current] at hsafe
  · have hd : failedDocument graph = graph.document := by
      simp [failedDocument, hsafe]
    have hv : failedVersion graph = graph.version := by
      simp [failedVersion, hsafe]
    rwa [hd, hv]

theorem failedVersion_id (graph : StageGraph) : (failedVersion graph).id = graph.version.id := by
  unfold failedVersion
  split
  · rfl
  · rfl

/-- The statuses that a retry starts from are in flight. -/
theorem resumable_inFlight {configHash : ConfigHash} {snapshot : ManualRetrySnapshot} {version : Version}
    {state : IndexState} {generation : Generation} {ok : Bool} {versionStatus : VersionStatus}
    {stateStatus : IndexStatus}
    (h : resumable configHash snapshot version state generation = some (ok, versionStatus, stateStatus)) :
    VersionStatus.isInFlight versionStatus = true ∧ IndexStatus.isInFlight stateStatus = true := by
  unfold resumable at h
  dsimp only at h
  split at h <;> simp only [Option.some.injEq, Prod.mk.injEq, reduceCtorEq] at h
  all_goals
    obtain ⟨-, rfl, rfl⟩ := h
    try split
    all_goals exact ⟨rfl, rfl⟩

theorem Paired.retry {configHash : ConfigHash} {snapshot : ManualRetrySnapshot} {generation : Generation}
    {document : Document} {version : Version} {state : IndexState} {versionStatus : VersionStatus}
    {stateStatus : IndexStatus} (h : Paired document version)
    (rows : RetriedRows configHash s.db snapshot generation document version state versionStatus stateStatus) :
    Paired { document with status := .processing } { version with status := versionStatus } := by
  refine h.keeps ⟨rfl, rfl, rfl⟩ ⟨rfl, rfl, rfl, rfl, rfl⟩ ?_
  refine .processing rfl rows.current rows.pending (resumable_inFlight rows.resumable).1 ?_
  cases h.phase with
  | processing _ _ _ _ activatedAt => exact activatedAt
  | failed _ _ _ _ activatedAt => exact activatedAt
  | active status =>
      rw [rows.documentStatus] at status
      cases status

/-- The parser that an upload records is the one of its extension. -/
theorem uploadReservation_parserName (request : UploadRequest) (documentId versionId jobId : ℕ) :
    (some (uploadReservation request documentId versionId jobId).sourceExtension).bind Jobs.parserForExtension
      = some ⟨some (uploadReservation request documentId versionId jobId).parserName, some "1".toList,
        ['\x7b', '\x7d']⟩ := by
  simp only [uploadReservation, Option.bind_some]
  cases request.extension with
  | txt => decide
  | md => decide
  | markdown => decide

theorem paired_upload (request : UploadRequest) (documentId versionId jobId : ℕ) :
    Paired (newDocument (uploadReservation request documentId versionId jobId))
      (newVersion (uploadReservation request documentId versionId jobId)) where
  owner := rfl
  checksum := rfl
  deletedAt := rfl
  base := rfl
  parser := uploadReservation_parserName request documentId versionId jobId
  mimeType := rfl
  phase := .processing rfl rfl rfl rfl rfl

/-! ## Every step -/

/-- **A step keeps the pairing.** -/
theorem Pairing.step (hbase : Base s) (h : Pairing s.db.documents s.db.versions)
    (heffect : Effect settings s op s') : Pairing s'.db.documents s'.db.versions := by
  have hkeys := hbase.keys
  cases heffect with
  | stage _ lease graph job after version state leases held commit issued => exact h.stage hkeys commit
  | failed _ graph job retryable code message failure operation =>
      have hpaired := h.paired hkeys.documents failure.graph_in.document failure.graph_in.version
        failure.document.symm
      exact h.set hkeys.versions failure.graph_in.document failure.graph_in.version hpaired
        (failedDocument_columns graph).1 (failedVersion_id graph) hpaired.fail
  | activated lease expected graph job mutationId held fresh activation =>
      have hpaired := h.paired hkeys.documents activation.graph_in.document activation.graph_in.version
        activation.document
      refine h.set hkeys.versions activation.graph_in.document activation.graph_in.version hpaired rfl rfl ?_
      exact hpaired.keeps ⟨rfl, rfl, rfl⟩ ⟨rfl, rfl, rfl, rfl, rfl⟩ (.active rfl rfl rfl rfl rfl)
  | uploaded request documentId versionId jobId mutationId checks knowledgeBase generation fresh creates =>
      exact h.append (paired_upload request documentId versionId jobId)
        fun d hd => (fresh.1.document hd).1
  | retried _ jobId db fresh write =>
      cases write with
      | ingestion snapshot source knowledgeBase generation document version state versionStatus stateStatus
          actorApiKeyId idempotencyKey operation hsource rows =>
          have hpaired := h.paired hkeys.documents rows.document_mem rows.version_mem rows.owner
          exact h.set hkeys.versions rows.document_mem rows.version_mem hpaired rfl rfl (hpaired.retry rows)
      | rebuild => exact h
  | saga _ delayed db reservations of_delayed write backed =>
      rcases write with rfl | write
      · exact h
      · cases write <;> exact h
  | purged _ lease db held purge knowledgeBase mem target deleting rows =>
      simp only [deleteRows, Except.ok.injEq, Prod.mk.injEq, true_and] at rows
      subst rows
      exact h.purge hkeys.documents lease.targetId
  | _ => exact h

theorem pairing_init : Pairing Sys.init.db.documents Sys.init.db.versions := by
  refine ⟨?_, ?_, ?_⟩
  · intro v hv
    cases hv
  · intro d hd
    cases hd
  · intro v hv
    cases hv

/-- Every reachable state pairs its documents with their versions. -/
theorem pairing_of_reachable (h : Reachable settings s) : Pairing s.db.documents s.db.versions :=
  (Reachable.induction_on (fun s => Pairing s.db.documents s.db.versions) pairing_init
    (fun hbase hinv heffect => hinv.step hbase heffect) h).2

end Writes

end VeloxRag
