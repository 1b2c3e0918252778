import VeloxRag.System.Purge

/-!
# Repeated uploads

A request that carries an idempotency key leaves a row under it, in the same transaction as the
document it creates.  The row stays as long as the knowledge base does, and every later request
under the key is answered from it, before anything else is compared.

## Main definitions

* `DocumentOrigin`, `Effect.documents` — the documents after a step.
* `reserve_replays` — the answer of a request whose key is taken.
* `LiveChecksums` — no two live documents of a knowledge base have the same content.
* `upload_idempotent` — repeated requests over whole runs.
-/

namespace VeloxRag

open Lib Jobs Ingestion Indexing Metadata

section Documents

variable {settings : Settings} {s s' : Sys} {op : Op}

/-- Where a document after a step comes from. -/
inductive DocumentOrigin (s s' : Sys) (d' : Document) : Prop
  | kept (d : Document) (mem : d ∈ s.db.documents) (id : d'.id = d.id)
      (knowledgeBaseId : d'.knowledgeBaseId = d.knowledgeBaseId) (checksum : d'.checksum = d.checksum)
      (deletedAt : d'.deletedAt = d.deletedAt)
  | added (reservation : UploadReservation) (knowledgeBase : KnowledgeBase) (generation : Generation)
      (creates : UploadCreates s.db reservation knowledgeBase generation)
      (new : d' = newDocument reservation) (rows : s'.db.documents = s.db.documents ++ [d'])

theorem DocumentOrigin.of_mem {d' : Document} (h : d' ∈ s.db.documents) : DocumentOrigin s s' d' :=
  .kept d' h rfl rfl rfl rfl

theorem DocumentOrigin.of_setRow {d after d' : Document} (hd : d ∈ s.db.documents)
    (h : d' ∈ setRow (·.id) after s.db.documents) (id : after.id = d.id)
    (knowledgeBaseId : after.knowledgeBaseId = d.knowledgeBaseId) (checksum : after.checksum = d.checksum)
    (deletedAt : after.deletedAt = d.deletedAt) : DocumentOrigin s s' d' := by
  rcases mem_setRow h with rfl | ⟨hmem, -⟩
  · exact .kept d hd id knowledgeBaseId checksum deletedAt
  · exact .of_mem hmem

theorem failedDocument_columns (graph : StageGraph) : (failedDocument graph).id = graph.document.id ∧
    (failedDocument graph).knowledgeBaseId = graph.document.knowledgeBaseId ∧
    (failedDocument graph).checksum = graph.document.checksum ∧
    (failedDocument graph).deletedAt = graph.document.deletedAt := by
  unfold failedDocument
  dsimp only
  split
  · exact ⟨rfl, rfl, rfl, rfl⟩
  · split
    · exact ⟨rfl, rfl, rfl, rfl⟩
    · exact ⟨rfl, rfl, rfl, rfl⟩

/-- **The documents after a step.** -/
theorem Effect.documents (h : Effect settings s op s') {d' : Document} (hd' : d' ∈ s'.db.documents) :
    DocumentOrigin s s' d' := by
  cases h with
  | failed _ graph job retryable code message failure operation =>
      obtain ⟨hid, hkb, hchecksum, hdeleted⟩ := failedDocument_columns graph
      exact .of_setRow failure.graph_in.document hd' hid hkb hchecksum hdeleted
  | activated lease expected graph job mutationId held fresh activation =>
      exact .of_setRow activation.graph_in.document hd' rfl rfl rfl rfl
  | uploaded request documentId versionId jobId mutationId checks knowledgeBase generation fresh creates =>
      rcases List.mem_append.mp hd' with hmem | hmem
      · exact .of_mem hmem
      · obtain rfl := List.mem_singleton.mp hmem
        exact .added _ knowledgeBase generation creates rfl rfl
  | retried _ jobId db fresh write =>
      cases write with
      | ingestion snapshot source knowledgeBase generation document version state versionStatus
          stateStatus actorApiKeyId idempotencyKey operation hsource rows =>
          exact .of_setRow rows.document_mem hd' rfl rfl rfl rfl
      | rebuild => exact .of_mem hd'
  | saga _ delayed db reservations of_delayed write backed =>
      rcases write with rfl | write
      · exact .of_mem hd'
      · cases write <;> exact .of_mem hd'
  | purged _ lease db held purge knowledgeBase mem target deleting rows =>
      simp only [deleteRows, Except.ok.injEq, Prod.mk.injEq, true_and] at rows
      subst rows
      exact .of_mem (List.mem_of_mem_filter hd')
  | _ => exact .of_mem hd'

/-- No two live documents of a knowledge base have the same content. -/
def LiveChecksums (s : Sys) : Prop :=
  ∀ d₁ ∈ s.db.documents, ∀ d₂ ∈ s.db.documents, d₁.knowledgeBaseId = d₂.knowledgeBaseId →
    d₁.deletedAt = none → d₂.deletedAt = none → d₁.checksum = d₂.checksum → d₁.checksum ≠ none →
    d₁ = d₂

/-- A document with the content of a reservation is not live in the knowledge base. -/
theorem Ingestion.UploadCreates.not_live {reservation : UploadReservation} {knowledgeBase : KnowledgeBase}
    {generation : Generation} (creates : UploadCreates s.db reservation knowledgeBase generation)
    {d : Document} (hd : d ∈ s.db.documents) (hkb : d.knowledgeBaseId = reservation.knowledgeBaseId)
    (hdeleted : d.deletedAt = none) : d.checksum ≠ some reservation.sourceChecksum := by
  intro hchecksum
  have htaken := creates.newChecksum
  unfold liveChecksumTaken at htaken
  rw [List.any_eq_false] at htaken
  apply htaken d hd
  simp [hkb, hchecksum, hdeleted, creates.knowledgeBaseId]

theorem LiveChecksums.step (hbase : Base s) (hinv : LiveChecksums s) (h : Effect settings s op s') :
    LiveChecksums s' := by
  intro d₁ hd₁ d₂ hd₂ hkb hdel₁ hdel₂ hchecksum hsome
  have hkeys := (hbase.step h).keys.documents
  cases h.documents hd₁ with
  | kept e₁ mem₁ id₁ kb₁ checksum₁ deleted₁ =>
      cases h.documents hd₂ with
      | kept e₂ mem₂ id₂ kb₂ checksum₂ deleted₂ =>
          have heq : e₁ = e₂ := by
            apply hinv e₁ mem₁ e₂ mem₂
            · rw [← kb₁, ← kb₂, hkb]
            · rw [← deleted₁, hdel₁]
            · rw [← deleted₂, hdel₂]
            · rw [← checksum₁, ← checksum₂, hchecksum]
            · rwa [← checksum₁]
          exact row_unique hkeys hd₁ hd₂ (by rw [id₁, id₂, heq])
      | added reservation knowledgeBase generation creates new rows =>
          rw [new] at hchecksum hkb
          exact absurd (checksum₁.symm.trans hchecksum)
            (creates.not_live mem₁ (kb₁.symm.trans hkb) (deleted₁.symm.trans hdel₁))
  | added reservation knowledgeBase generation creates new rows =>
      cases h.documents hd₂ with
      | kept e₂ mem₂ id₂ kb₂ checksum₂ deleted₂ =>
          rw [new] at hchecksum hkb
          exact absurd (checksum₂.symm.trans hchecksum.symm)
            (creates.not_live mem₂ (kb₂.symm.trans hkb.symm) (deleted₂.symm.trans hdel₂))
      | added reservation' knowledgeBase' generation' creates' new' rows' =>
          simpa using rows.symm.trans rows'

end Documents

/-! ## Repetitions -/

section Uploads

variable {settings : Settings} {s s' t : Sys} {op : Op}

/-- A row under a key stays, unless its knowledge base is purged. -/
theorem Effect.uploads (h : Effect settings s op s') {u : UploadIdempotency} (hu : u ∈ s.db.uploads) :
    u ∈ s'.db.uploads ∨ Gone s' u.knowledgeBaseId := by
  cases h with
  | uploaded => exact .inl (List.mem_append_left _ hu)
  | retried _ jobId db fresh write =>
      cases write with
      | ingestion => exact .inl hu
      | rebuild => exact .inl hu
  | saga _ delayed db reservations of_delayed write backed =>
      rcases write with rfl | write
      · exact .inl hu
      · cases write <;> exact .inl hu
  | purged _ lease db held purge knowledgeBase mem target deleting rows =>
      by_cases hkb : u.knowledgeBaseId = lease.targetId
      · rw [hkb]
        exact .inr (gone_of_deleteRows held rows rfl rfl)
      · simp only [deleteRows, Except.ok.injEq, Prod.mk.injEq, true_and] at rows
        subst rows
        exact .inl (List.mem_filter.mpr ⟨hu, by simpa using hkb⟩)
  | _ => exact .inl hu

/-- A row under a key stays along a run, unless its knowledge base is purged. -/
theorem upload_persists (hbase : Base s) (hrun : Relation.ReflTransGen (Step settings) s t)
    {u : UploadIdempotency} (hu : u ∈ s.db.uploads) :
    Base t ∧ (u ∈ t.db.uploads ∨ Gone t u.knowledgeBaseId) := by
  refine Base.run (fun s => u ∈ s.db.uploads ∨ Gone s u.knowledgeBaseId) ?_ hbase (.inl hu) hrun
  intro s s' op _ hinv h
  rcases hinv with hu | hgone
  · exact h.uploads hu
  · exact .inr (hgone.step h)

/-- A request that was answered has left its row. -/
theorem reserve_recorded {reservation : UploadReservation} {checks : Except TxError Unit}
    {mutationId : ℕ} {result : UploadReservationResult} {db db' : Db} {key : Str}
    (hkey : reservation.idempotencyKey = some key)
    (h : reserve reservation checks mutationId db = .ok (result, db')) :
    (⟨reservation.actorId, reservation.knowledgeBaseId, key, reservation.requestFingerprint,
      result.documentId, result.versionId, result.jobId⟩ : UploadIdempotency) ∈ db'.uploads := by
  rcases reserve_eq_ok h with ⟨rfl, existing, hexisting, hfingerprint, rfl⟩ |
    ⟨knowledgeBase, generation, creates, rfl, rfl⟩
  · simp only [existingIdempotency, hkey, Option.bind_eq_bind, Option.bind_some] at hexisting
    obtain ⟨hmem, hrow⟩ := mem_of_find? hexisting
    simp only [UploadIdempotency.key, Prod.mk.injEq] at hrow
    obtain ⟨hactor, hkb, hrowkey⟩ := hrow
    rw [← hactor, ← hkb, ← hrowkey, ← hfingerprint]
    exact hmem
  · simp only [applyUpload, idempotencyRow, hkey]
    exact List.mem_append_right _ (List.mem_singleton.mpr rfl)

/-- **A request whose key is taken** is answered from the row of the key. -/
theorem reserve_replays {db : Db} (hkeys : db.WellKeyed) {u : UploadIdempotency} (hu : u ∈ db.uploads)
    {reservation : UploadReservation} (hactor : reservation.actorId = u.actorApiKeyId)
    (hkb : reservation.knowledgeBaseId = u.knowledgeBaseId)
    (hkey : reservation.idempotencyKey = some u.idempotencyKey) {knowledgeBase : KnowledgeBase}
    (hmem : knowledgeBase ∈ db.knowledgeBases) (hid : knowledgeBase.id = reservation.knowledgeBaseId)
    (hstatus : knowledgeBase.status = .active) (checks : Except TxError Unit) (mutationId : ℕ) :
    reserve reservation checks mutationId db
      = if u.requestFingerprint = reservation.requestFingerprint then
          .ok (⟨u.documentId, u.versionId, u.jobId, true⟩, db)
        else .error keyReused := by
  have hfind : db.knowledgeBase? reservation.knowledgeBaseId = some knowledgeBase :=
    (find?_some_iff hkeys.knowledgeBases).mpr ⟨hmem, hid⟩
  have hexisting : existingIdempotency db reservation = some u := by
    simp only [existingIdempotency, hkey, Option.bind_eq_bind, Option.bind_some]
    exact (find?_some_iff hkeys.uploads).mpr ⟨hu, by rw [hactor, hkb]; rfl⟩
  unfold reserve
  simp only [hfind, hstatus, hexisting, replay]
  by_cases hfp : u.requestFingerprint = reservation.requestFingerprint
  · simp [hfp, bind, Except.bind, pure, Except.pure]
  · simp [hfp, bind, Except.bind]

/-- Without an active knowledge base every request is a conflict. -/
theorem reserve_inactive {db : Db} {reservation : UploadReservation}
    (h : ∀ k ∈ db.knowledgeBases, k.id = reservation.knowledgeBaseId → k.status ≠ .active)
    (checks : Except TxError Unit) (mutationId : ℕ) :
    reserve reservation checks mutationId db = .error configurationConflict := by
  unfold reserve
  cases hfind : db.knowledgeBase? reservation.knowledgeBaseId with
  | none => rfl
  | some knowledgeBase =>
      obtain ⟨hmem, hid⟩ := mem_of_find? hfind
      simp only [h knowledgeBase hmem hid, ne_eq, not_false_eq_true, if_true]

theorem liveChecksums_of_reachable (h : Reachable settings s) : LiveChecksums s := by
  refine (Reachable.induction_on LiveChecksums ?_ ?_ h).2
  · intro d hd
    cases hd
  · intro s s' op hbase hinv heffect
    exact hinv.step hbase heffect

/-- **Uploads are idempotent.**  Once a request with a key was answered, every later request of the
same actor under the same key of the same knowledge base is answered with the same document, version
and job if its fingerprint is the same, and is a conflict if it is not; when the knowledge base is no
longer active every request is a conflict.  In no reachable state do two live documents of a
knowledge base have the same content. -/
theorem upload_idempotent (h : Reachable settings s) : LiveChecksums s ∧
    ∀ (first : UploadRequest) (documentId versionId jobId mutationId : ℕ)
      (checks : Except TxError Unit) (result : UploadReservationResult) (db : Db) (key : Str),
      s.Fresh documentId ∧ s.Fresh versionId ∧ s.Fresh jobId ∧ s.Fresh mutationId →
      reserve (uploadReservation first documentId versionId jobId) checks mutationId s.db
        = .ok (result, db) → first.idempotencyKey = some key →
      ∀ (t : Sys), Relation.ReflTransGen (Step settings) { s with db := db } t →
      ∀ (second : UploadRequest) (documentId' versionId' jobId' mutationId' : ℕ)
        (checks' : Except TxError Unit), second.actorId = first.actorId →
        second.knowledgeBaseId = first.knowledgeBaseId → second.idempotencyKey = some key →
        reserve (uploadReservation second documentId' versionId' jobId') checks' mutationId' t.db
          = if ∃ k ∈ t.db.knowledgeBases, k.id = second.knowledgeBaseId ∧ k.status = .active then
              if first.requestFingerprint = second.requestFingerprint then
                .ok (⟨result.documentId, result.versionId, result.jobId, true⟩, t.db)
              else .error keyReused
            else .error configurationConflict := by
  refine ⟨liveChecksums_of_reachable h, ?_⟩
  intro first documentId versionId jobId mutationId checks result db key fresh hfirst hkey t hrun second
    documentId' versionId' jobId' mutationId' checks' hactor hkb hkey'
  have hstep : (Op.upload first documentId versionId jobId mutationId checks).apply settings s
      = some { s with db := db } := by
    simp only [Op.apply, if_pos fresh, Sys.commit, hfirst]
  have hbase := base_of_reachable (h.tail ⟨_, hstep⟩)
  have hrecorded := reserve_recorded hkey hfirst
  obtain ⟨hbase', hpersists⟩ := upload_persists hbase hrun hrecorded
  by_cases hactive : ∃ k ∈ t.db.knowledgeBases, k.id = second.knowledgeBaseId ∧ k.status = .active
  · rw [if_pos hactive]
    obtain ⟨k, hk, hkid, hstatus⟩ := hactive
    rcases hpersists with hu | hgone
    · exact reserve_replays hbase'.keys hu hactor hkb hkey' hk hkid hstatus checks' mutationId'
    · exact absurd (hkid.trans hkb) (hgone.1 k hk)
  · rw [if_neg hactive]
    apply reserve_inactive
    intro k hk hkid hstatus
    exact hactive ⟨k, hk, hkid, hstatus⟩

end Uploads

/-! ## A run -/

/-- A request to create a generation. -/
def sampleCommand : GenerationCommand := ⟨1, 7, "g".toList, "f".toList⟩

/-- The reservation it gets. -/
def sampleReservation : Reservation := ⟨2711, 1711, 1, 0, collectionName 1 1711⟩

/-- A knowledge base with an active generation. -/
def configuredRun : List Op :=
  [.created 1,
    .generationReserved sampleCommand (.ok ()) (.ok (⟨3, "hash".toList, "snapshot".toList⟩, "filter".toList)),
    .generationActivated sampleReservation 50]

/-- An upload into it. -/
def sampleRequest : UploadRequest :=
  ⟨7, 1, some ⟨1, 1711, "filter".toList, 0, 0⟩, some "upload".toList, "print".toList, "sum".toList, .txt, []⟩

def uploadedRun : List Op := configuredRun ++ [.upload sampleRequest 10 11 12 13 (.ok ())]

theorem upload_idempotent_uploadedRun :
    LiveChecksums (exec sampleSettings Sys.init configuredRun) ∧
    reserve (uploadReservation sampleRequest 20 21 22) (.ok ()) 23
        (exec sampleSettings Sys.init uploadedRun).db
      = .ok (⟨10, 11, 12, true⟩, (exec sampleSettings Sys.init uploadedRun).db) := by
  have hfirst : reserve (uploadReservation sampleRequest 10 11 12) (.ok ()) 13
      (exec sampleSettings Sys.init configuredRun).db
        = .ok (⟨10, 11, 12, false⟩, (exec sampleSettings Sys.init uploadedRun).db) := by
    rfl
  obtain ⟨hlive, hreplay⟩ := upload_idempotent (reachable_exec configuredRun)
  refine ⟨hlive, ?_⟩
  have hanswer := hreplay sampleRequest 10 11 12 13 (.ok ()) _ _ "upload".toList (by decide) hfirst rfl _
    .refl sampleRequest 20 21 22 23 (.ok ()) rfl rfl rfl
  rwa [if_pos (by decide), if_pos rfl] at hanswer

end VeloxRag
