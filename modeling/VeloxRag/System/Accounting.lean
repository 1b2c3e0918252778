import VeloxRag.System.Documents

/-!
# Activations and revisions

A document becomes active in one kind of step only, which holds the lease of its job and has
found the state of the version validated with all counts equal; no version goes through it
twice.  Every step that raises the revision of a knowledge base records one mutation with the
new revision, so the revisions of its mutations are the numbers from one on.

## Main definitions

* `Activates` — what an activation has found.
* `VersionOrigin`, `Effect.versions` — the versions after a step.
* `Accounted` — the revisions of the mutations of every knowledge base.
* `activation_sound` — both over whole runs.
-/

namespace VeloxRag

open Lib Jobs Ingestion Indexing Metadata

/-! ## Revisions -/

/-- The revisions of the mutations of a knowledge base, in the order they were recorded. -/
def revisions (mutations : List Mutation) (knowledgeBaseId : ℕ) : List ℕ :=
  (mutations.filter (·.knowledgeBaseId = knowledgeBaseId)).map (·.revision)

/-- The revisions of every knowledge base are the numbers from one up to its own. -/
def Accounted (knowledgeBases : List KnowledgeBase) (mutations : List Mutation) : Prop :=
  ∀ k ∈ knowledgeBases, revisions mutations k.id = List.range' 1 k.mutationRevision

section Revisions

variable {knowledgeBases : List KnowledgeBase} {mutations : List Mutation} {k k' : KnowledgeBase}

theorem Accounted.set (h : Accounted knowledgeBases mutations) (hk : k ∈ knowledgeBases)
    (hid : k'.id = k.id) (hrevision : k'.mutationRevision = k.mutationRevision) :
    Accounted (setRow (·.id) k' knowledgeBases) mutations := by
  intro x hx
  rcases mem_setRow hx with rfl | ⟨hmem, -⟩
  · rw [hid, hrevision]
    exact h k hk
  · exact h x hmem

/-- A mutation of one knowledge base with the next revision. -/
theorem Accounted.record (h : Accounted knowledgeBases mutations) (hk : k ∈ knowledgeBases)
    (hid : k'.id = k.id) (hrevision : k'.mutationRevision = k.mutationRevision + 1) {m : Mutation}
    (hkb : m.knowledgeBaseId = k.id) (hm : m.revision = k.mutationRevision + 1) :
    Accounted (setRow (·.id) k' knowledgeBases) (mutations ++ [m]) := by
  intro x hx
  rcases mem_setRow hx with rfl | ⟨hmem, hne⟩
  · have hwas := h k hk
    unfold revisions at hwas ⊢
    rw [List.filter_append, List.map_append, hid, hwas, hrevision, List.range'_concat]
    simp [hkb, hm, Nat.add_comm]
  · have hwas := h x hmem
    have hother : ¬ m.knowledgeBaseId = x.id := by
      rw [hkb, ← hid]
      exact Ne.symm hne
    unfold revisions at hwas ⊢
    rw [List.filter_append, List.map_append, hwas]
    simp [hother]

theorem Accounted.purge (h : Accounted knowledgeBases mutations) (knowledgeBaseId : ℕ) :
    Accounted (knowledgeBases.filter (·.id ≠ knowledgeBaseId))
      (mutations.filter (·.knowledgeBaseId ≠ knowledgeBaseId)) := by
  intro k hk
  obtain ⟨hmem, hne⟩ := List.mem_filter.mp hk
  rw [← h k hmem]
  unfold revisions
  rw [List.filter_filter]
  congr 1
  apply List.filter_congr
  intro m _
  by_cases hkb : m.knowledgeBaseId = k.id
  · rw [hkb]
    simpa using hne
  · simp [hkb]

end Revisions

section Steps

variable {settings : Settings} {s s' t t' : Sys} {op : Op}

theorem Indexing.SagaWrite.accounted {identities : GenerationIdentities} {delayed : Bool} {db : Db}
    (hinv : Accounted s.db.knowledgeBases s.db.mutations)
    (h : SagaWrite identities s.reservations s.Fresh s.db delayed db) :
    Accounted db.knowledgeBases db.mutations := by
  have hclear (k : KnowledgeBase) (generationId : ℕ) :
      (clearPending k generationId).mutationRevision = k.mutationRevision := by
    unfold clearPending
    split
    · rfl
    · rfl
  cases h with
  | reserved command knowledgeBase embedding filterSnapshot requestId generationId mem =>
      exact hinv.set mem rfl rfl
  | refused _ knowledgeBase generation counted request status code rows =>
      exact hinv.set rows.knowledgeBase_mem (clearPending_id _ _) (hclear _ _)
  | abandoned knowledgeBase generation knowledgeBase_mem =>
      exact hinv.set knowledgeBase_mem (clearPending_id _ _) (hclear _ _)
  | activated _ knowledgeBase generation request reservation jobId jobs rows =>
      apply hinv.record rows.knowledgeBase_mem <;> rfl

/-- **A step keeps the account.** -/
theorem Accounted.step (hinv : Accounted s.db.knowledgeBases s.db.mutations)
    (h : Effect settings s op s') : Accounted s'.db.knowledgeBases s'.db.mutations := by
  cases h with
  | activated lease expected graph job mutationId held fresh activation =>
      apply hinv.record activation.graph_in.knowledgeBase <;> rfl
  | uploaded request documentId versionId jobId mutationId checks knowledgeBase generation fresh creates =>
      apply hinv.record creates.knowledgeBase_mem <;> rfl
  | retried _ jobId db fresh write =>
      cases write with
      | ingestion => exact hinv
      | rebuild => exact hinv
  | saga _ delayed db reservations of_delayed write backed =>
      rcases write with rfl | write
      · exact hinv
      · exact write.accounted hinv
  | created knowledgeBaseId fresh =>
      intro k hk
      rcases List.mem_append.mp hk with hmem | hmem
      · exact hinv k hmem
      · rw [List.mem_singleton.mp hmem]
        have hnone : revisions s.db.mutations knowledgeBaseId = [] := by
          rw [revisions, List.map_eq_nil_iff, List.filter_eq_nil_iff]
          intro m hm
          simpa using (fresh.mutation hm).2
        exact hnone
  | updated _ knowledgeBase status mem => exact hinv.set mem rfl rfl
  | schemaReplaced _ knowledgeBase canonical mutationId mem => apply hinv.record mem <;> rfl
  | deleted _ knowledgeBase actorId jobId mem => exact hinv.set mem rfl rfl
  | purged _ lease db held purge knowledgeBase mem target deleting rows =>
      simp only [deleteRows, Except.ok.injEq, Prod.mk.injEq, true_and] at rows
      subst rows
      exact hinv.purge lease.targetId
  | _ => exact hinv

/-! ## Activations -/

/-- What the activation of a version has found: the lease is the current one of a running job on the
version, and the state of the version is validated, with every count that of the version. -/
def Activates (s : Sys) (lease : JobLease) (documentId versionId : ℕ) : Prop :=
  ∃ J ∈ s.db.jobs, fence s.db.now lease J = true ∧ J.operation = .ingestDocument ∧
    J.targetId = versionId ∧ ∃ v ∈ s.db.versions, v.id = versionId ∧ v.documentId = documentId ∧
      ∃ state ∈ s.db.indexStates, state.versionId = versionId ∧
        J.indexGenerationId = some state.generationId ∧ state.status = .validated ∧
        state.expectedPointCount = v.chunkCount ∧ state.actualPointCount = v.chunkCount ∧
        some state.nextChunkIndex = v.chunkCount

theorem Ingestion.Activation.activates {lease : JobLease} {graph : StageGraph} {job : Job}
    (h : Activation s.db lease graph job) : Activates s lease graph.document.id graph.version.id := by
  obtain ⟨hversion, hgeneration⟩ := Prod.mk.inj h.graph_in.key
  refine ⟨job, h.job_mem, h.fence, h.operation, h.targetId, graph.version, h.graph_in.version, rfl, h.document,
    graph.state, h.graph_in.state, hversion, ?_, h.stateStatus, h.expected, h.actual, h.next⟩
  rw [h.generation, hgeneration]

/-- The version becomes ready in a step. -/
def BecomesReady (s s' : Sys) (versionId : ℕ) : Prop :=
  (∃ v' ∈ s'.db.versions, v'.id = versionId ∧ v'.status = .ready) ∧
    ∀ v ∈ s.db.versions, v.id = versionId → v.status ≠ .ready

/-- The document becomes active in a step. -/
def BecomesActive (s s' : Sys) (documentId : ℕ) : Prop :=
  (∃ d' ∈ s'.db.documents, d'.id = documentId ∧ d'.status = .active) ∧
    ∀ d ∈ s.db.documents, d.id = documentId → d.status ≠ .active

/-- Where a version after a step comes from. -/
inductive VersionOrigin (s : Sys) (op : Op) (s' : Sys) (v' : Version) : Prop
  | kept (v : Version) (mem : v ∈ s.db.versions) (keeps : v.Keeps v')
      (ready : v'.status = .ready ↔ v.status = .ready)
  | activated (lease : JobLease) (expected : ActivationStageInput) (mutationId : ℕ) (graph : StageGraph)
      (job : Job) (is_op : op = .activated lease expected mutationId) (held : lease ∈ s.leases)
      (activation : Activation s.db lease graph job) (id : v'.id = graph.version.id)
      (status : v'.status = .ready) (after : s'.db = applyActivation graph job mutationId s.db)
  | added (fresh : s.Fresh v'.id) (status : v'.status = .uploaded)

theorem VersionOrigin.of_mem {v' : Version} (h : v' ∈ s.db.versions) : VersionOrigin s op s' v' :=
  .kept v' h .rfl Iff.rfl

theorem VersionOrigin.of_setRow {v after v' : Version} (hv : v ∈ s.db.versions)
    (h : v' ∈ setRow (·.id) after s.db.versions) (keeps : v.Keeps after)
    (ready : after.status = .ready ↔ v.status = .ready) : VersionOrigin s op s' v' := by
  rcases mem_setRow h with rfl | ⟨hmem, -⟩
  · exact .kept v hv keeps ready
  · exact .of_mem hmem

theorem inFlight_not_ready {status : VersionStatus} (h : VersionStatus.isInFlight status = true) :
    status ≠ .ready := by
  rintro rfl
  cases h

theorem failedVersion_keeps (graph : StageGraph) : graph.version.Keeps (failedVersion graph) ∧
    ((failedVersion graph).status = .ready ↔ graph.version.status = .ready) := by
  unfold failedVersion
  split
  · rename_i hsafe
    rw [Bool.and_eq_true] at hsafe
    exact ⟨⟨rfl, rfl, rfl, rfl, rfl⟩, iff_of_false (by simp) (inFlight_not_ready hsafe.2)⟩
  · exact ⟨.rfl, Iff.rfl⟩

/-- **The versions after a step.** -/
theorem Effect.versions (hbase : Base s) (hpairing : Pairing s.db.documents s.db.versions)
    (h : Effect settings s op s') {v' : Version} (hv' : v' ∈ s'.db.versions) : VersionOrigin s op s' v' := by
  cases h with
  | stage _ lease graph job after version state leases held commit issued =>
      obtain ⟨-, -, -, -, -, -, -, hprocessing, howner⟩ := commit.ready
      have hpaired := hpairing.paired hbase.keys.documents commit.graph_in.document commit.graph_in.version
        howner
      obtain ⟨-, -, hwas, -⟩ := hpaired.phase_of_ready hprocessing
      obtain ⟨hkeeps, -, hinFlight⟩ := commit.write.version
      exact .of_setRow commit.graph_in.version hv' hkeeps
        (iff_of_false (inFlight_not_ready (hinFlight hwas)) (inFlight_not_ready hwas))
  | failed _ graph job retryable code message failure operation =>
      obtain ⟨hkeeps, hready⟩ := failedVersion_keeps graph
      exact .of_setRow failure.graph_in.version hv' hkeeps hready
  | activated lease expected graph job mutationId held fresh activation =>
      rcases mem_setRow hv' with rfl | ⟨hmem, -⟩
      · exact .activated lease expected mutationId graph job rfl held activation rfl rfl rfl
      · exact .of_mem hmem
  | uploaded request documentId versionId jobId mutationId checks knowledgeBase generation fresh creates =>
      rcases List.mem_append.mp hv' with hmem | hmem
      · exact .of_mem hmem
      · rw [List.mem_singleton.mp hmem]
        exact .added fresh.2.1 rfl
  | retried _ jobId db fresh write =>
      cases write with
      | ingestion snapshot source knowledgeBase generation document version state versionStatus
          stateStatus actorApiKeyId idempotencyKey operation hsource rows =>
          refine .of_setRow rows.version_mem hv' ⟨rfl, rfl, rfl, rfl, rfl⟩ (iff_of_false ?_ ?_)
          · exact inFlight_not_ready (resumable_inFlight rows.resumable).1
          · rw [rows.versionFailed]
            decide
      | rebuild => exact .of_mem hv'
  | saga _ delayed db reservations of_delayed write backed =>
      rcases write with rfl | write
      · exact .of_mem hv'
      · cases write <;> exact .of_mem hv'
  | purged _ lease db held purge knowledgeBase mem target deleting rows =>
      simp only [deleteRows, Except.ok.injEq, Prod.mk.injEq, true_and] at rows
      subst rows
      exact .of_mem (List.mem_of_mem_filter hv')
  | _ => exact .of_mem hv'

/-! ## Whole runs -/

/-- A version that becomes ready is activated, and its document with it. -/
theorem becomesReady_activates (hbase : Base s) (hpairing : Pairing s.db.documents s.db.versions)
    (h : Effect settings s op s') {versionId : ℕ} (hready : BecomesReady s s' versionId) :
    ∃ documentId lease expected mutationId, op = .activated lease expected mutationId ∧ lease ∈ s.leases ∧
      Activates s lease documentId versionId ∧ BecomesActive s s' documentId := by
  obtain ⟨⟨v', hv', rfl, hstatus⟩, hnot⟩ := hready
  cases h.versions hbase hpairing hv' with
  | kept v mem keeps ready => exact absurd (ready.mp hstatus) (hnot v mem keeps.id.symm)
  | activated lease expected mutationId graph job is_op held activation id status after =>
      refine ⟨graph.document.id, lease, expected, mutationId, is_op, held, by rw [id]; exact activation.activates,
        ⟨{ graph.document with
          currentVersionId := some graph.version.id
          pendingVersionId := none
          mimeType := graph.version.source.detectedMimeType
          status := .active }, ?_, rfl, rfl⟩, ?_⟩
      · rw [after]
        exact mem_setRow_self activation.graph_in.document rfl
      intro d hd hid hactive
      rw [row_unique hbase.keys.documents hd activation.graph_in.document hid, activation.processing] at hactive
      cases hactive
  | added fresh status =>
      rw [hstatus] at status
      cases status

theorem failedDocument_active (graph : StageGraph) (h : (failedDocument graph).status = .active) :
    graph.document.status = .active := by
  unfold failedDocument at h
  dsimp only at h
  split at h
  · cases h
  · split at h
    · exact h
    · exact h

/-- A document that becomes active is activated with its version. -/
theorem becomesActive_activates (hbase : Base s) (h : Effect settings s op s') {documentId : ℕ}
    (hactive : BecomesActive s s' documentId) :
    ∃ versionId lease expected mutationId, op = .activated lease expected mutationId ∧ lease ∈ s.leases ∧
      Activates s lease documentId versionId ∧ BecomesReady s s' versionId := by
  obtain ⟨⟨d', hd', rfl, hstatus⟩, hnot⟩ := hactive
  have of_mem (hmem : d' ∈ s.db.documents) : False := hnot d' hmem rfl hstatus
  cases h with
  | failed _ graph job retryable code message failure operation =>
      rcases mem_setRow hd' with rfl | ⟨hmem, -⟩
      · exact absurd (failedDocument_active graph hstatus) (hnot graph.document failure.graph_in.document
          (failedDocument_columns graph).1.symm)
      · exact (of_mem hmem).elim
  | activated lease expected graph job mutationId held fresh activation =>
      rcases mem_setRow hd' with rfl | ⟨hmem, -⟩
      · refine ⟨graph.version.id, lease, expected, mutationId, rfl, held, activation.activates,
          ⟨_, mem_setRow_self activation.graph_in.version rfl, rfl, rfl⟩, ?_⟩
        intro v hv hid hready
        rw [row_unique hbase.keys.versions hv activation.graph_in.version hid, activation.versionStatus] at hready
        cases hready
      · exact (of_mem hmem).elim
  | uploaded request documentId versionId jobId mutationId checks knowledgeBase generation fresh creates =>
      rcases List.mem_append.mp hd' with hmem | hmem
      · exact (of_mem hmem).elim
      · rw [List.mem_singleton.mp hmem] at hstatus
        cases hstatus
  | retried _ jobId db fresh write =>
      cases write with
      | ingestion snapshot source knowledgeBase generation document version state versionStatus
          stateStatus actorApiKeyId idempotencyKey operation hsource rows =>
          rcases mem_setRow hd' with rfl | ⟨hmem, -⟩
          · cases hstatus
          · exact (of_mem hmem).elim
      | rebuild => exact (of_mem hd').elim
  | saga _ delayed db reservations of_delayed write backed =>
      rcases write with rfl | write
      · exact (of_mem hd').elim
      · cases write <;> exact (of_mem hd').elim
  | purged _ lease db held purge knowledgeBase mem target deleting rows =>
      simp only [deleteRows, Except.ok.injEq, Prod.mk.injEq, true_and] at rows
      subst rows
      exact (of_mem (List.mem_of_mem_filter hd')).elim
  | _ => exact (of_mem hd').elim

/-- The version is ready for good: a lease of its job names it, and its row is ready as long as it is
there. -/
def ReadyForGood (s : Sys) (versionId : ℕ) : Prop :=
  (∃ L ∈ s.leases, L.targetId = versionId) ∧ ∀ v ∈ s.db.versions, v.id = versionId → v.status = .ready

theorem ReadyForGood.step (hbase : Base s) (hpairing : Pairing s.db.documents s.db.versions) {versionId : ℕ}
    (hgood : ReadyForGood s versionId) (h : Effect settings s op s') : ReadyForGood s' versionId := by
  obtain ⟨⟨L, hL, hname⟩, hready⟩ := hgood
  refine ⟨⟨L, h.leases_subset hL, hname⟩, ?_⟩
  intro v' hv' hid
  cases h.versions hbase hpairing hv' with
  | kept v mem keeps ready => exact ready.mpr (hready v mem (keeps.id.symm.trans hid))
  | activated lease expected mutationId graph job is_op held activation id status => exact status
  | added fresh => exact absurd (hname.trans hid.symm) (fresh.lease hL).2

/-- A version that becomes ready is ready for good. -/
theorem readyForGood_of_becomesReady (hbase : Base s) (hpairing : Pairing s.db.documents s.db.versions)
    (h : Effect settings s op s') {versionId : ℕ} (hready : BecomesReady s s' versionId) :
    ReadyForGood s' versionId := by
  obtain ⟨_, lease, _, _, -, held, ⟨J, hJ, hfence, -, htarget, -⟩, -⟩ :=
    becomesReady_activates hbase hpairing h hready
  obtain ⟨v', hv', hid, hstatus⟩ := hready.1
  refine ⟨⟨lease, h.leases_subset held, ?_⟩, ?_⟩
  · rw [(hbase.leases lease held J hJ (fence_id J hfence)).targetId, htarget]
  · intro v hv hvid
    rwa [row_unique (hbase.step h).keys.versions hv hv' (hvid.trans hid.symm)]

/-- **Activation is sound and revisions are accounted for.**  In a step from a reachable state, a
document becomes active exactly when its version becomes ready, only under the current lease of a job
on the version, with the state of the version validated and every count that of the version; no
later step makes the version ready once more.  In every reachable state the revisions of the
mutations of a knowledge base are the numbers from one up to its own revision. -/
theorem activation_sound (h : Reachable settings s) :
    (∀ (op : Op) (s' : Sys), op.apply settings s = some s' →
      (∀ documentId, BecomesActive s s' documentId → ∃ versionId lease expected mutationId,
        op = .activated lease expected mutationId ∧ lease ∈ s.leases ∧
        Activates s lease documentId versionId ∧ BecomesReady s s' versionId) ∧
      (∀ versionId, BecomesReady s s' versionId → ∃ documentId lease expected mutationId,
        op = .activated lease expected mutationId ∧ lease ∈ s.leases ∧
        Activates s lease documentId versionId ∧ BecomesActive s s' documentId) ∧
      ∀ versionId, BecomesReady s s' versionId → ∀ t t', Relation.ReflTransGen (Step settings) s' t →
        Step settings t t' → ¬ BecomesReady t t' versionId) ∧
    ∀ k ∈ s.db.knowledgeBases, revisions s.db.mutations k.id = List.range' 1 k.mutationRevision := by
  have hbase := base_of_reachable h
  have hpairing := pairing_of_reachable h
  refine ⟨?_, ?_⟩
  · intro op s' hop
    have heffect := hbase.effect hop
    refine ⟨fun documentId => becomesActive_activates hbase heffect,
      fun versionId => becomesReady_activates hbase hpairing heffect, ?_⟩
    intro versionId hready t t' hrun hstep hagain
    have hgood := readyForGood_of_becomesReady hbase hpairing heffect hready
    obtain ⟨hbase', hpairing', -, hready'⟩ :=
      Base.run (fun u => Pairing u.db.documents u.db.versions ∧ ReadyForGood u versionId)
        (fun hb hi he => ⟨hi.1.step hb he, hi.2.step hb hi.1 he⟩) (hbase.step heffect)
        ⟨hpairing.step hbase heffect, hgood⟩ hrun
    -- an activation finds the row of the version, which is ready already
    obtain ⟨op', hop'⟩ := hstep
    obtain ⟨_, _, _, _, -, -, ⟨_, -, -, -, -, v, hv, hid, -⟩, -⟩ :=
      becomesReady_activates hbase' hpairing' (hbase'.effect hop') hagain
    exact hagain.2 v hv hid (hready' v hv hid)
  · exact (Reachable.induction_on (fun s => Accounted s.db.knowledgeBases s.db.mutations)
      (fun k hk => by cases hk) (fun _ hinv heffect => hinv.step heffect) h).2

end Steps

/-! ## A run -/

/-- The leases of the job of `uploadedRun`, claimed once. -/
def ingestLease (stage : Stage) (resumeStage : Option Stage) (progressCurrent : ℕ)
    (progressTotal : Option ℕ) : JobLease :=
  ⟨12, .ingestDocument, .documentVersion, 11, some 2, some 1711, some stage, resumeStage, progressCurrent,
    progressTotal, 1, 5, "worker".toList, 1, 30, none, some 13⟩

def sampleParser : ParserInfo := ⟨some "plain_text_v1".toList, some "1".toList, ['\x7b', '\x7d']⟩

/-- What the parse stage loads. -/
def parseInput (status : VersionStatus) : ParseStageInput :=
  ⟨1, 1711, 10, 11, sourceObjectKey 1 10 11 .txt, "sum".toList, ".txt".toList, sampleParser, status⟩

/-- What the chunk stage loads. -/
def chunkInput : ChunkStageInput :=
  ⟨1, 1711, 10, 11, "sum".toList, ".txt".toList, parsedTextObjectKey 1 10 11, "parsed".toList, sampleParser,
    ⟨none, none, none⟩, .chunking⟩

/-- What the embedding stages load. -/
def embedInput (versionStatus : VersionStatus) (stateStatus : IndexStatus) (hash : Option Str) (next : ℕ) :
    EmbedIndexStageInput :=
  ⟨1, 1711, 10, 11, 3, chunksObjectKey 1 10 11, "manifest".toList, "sum".toList, "parsed".toList, sampleParser,
    recursiveChunker (512, 64), "digest".toList, 2, versionStatus, stateStatus, hash, next,
    collectionName 1 1711, "hash".toList, "snapshot".toList, "filter".toList, 0, []⟩

/-- The stages up to the manifest. -/
def chunkedRun : List Op := uploadedRun ++
  [.claimed "worker".toList 30 12,
    .started (ingestLease .parse none 0 none) (parseInput .uploaded),
    .parsed (ingestLease .parse none 0 none) (parseInput .parsing) "parsed".toList,
    .chunked (ingestLease .chunk (some .chunk) 0 none) chunkInput "manifest".toList 2]

/-- The stages up to the validated state. -/
def validatedRun : List Op := chunkedRun ++
  [.embedded (ingestLease .embedIndex (some .embedIndex) 0 (some 2)) (embedInput .embedding .embedding none 0) 2,
    .counted (ingestLease .validate (some .validate) 2 (some 2))
      (embedInput .indexing .indexing (some "hash".toList) 2) 2,
    .validated (ingestLease .validate (some .validate) 2 (some 2))
      (embedInput .indexing .indexing (some "hash".toList) 2) 2]

/-- The activation. -/
def activationOp : Op :=
  .activated (ingestLease .activate (some .activate) 2 (some 2))
    ⟨1, 1711, 10, 11, 12, "sum".toList, "text/plain".toList, 2, 2, 2⟩ 14

def activatedRun : List Op := validatedRun ++ [activationOp]

theorem activation_sound_validatedRun :
    (∃ lease ∈ (exec sampleSettings Sys.init validatedRun).leases,
      Activates (exec sampleSettings Sys.init validatedRun) lease 10 11) ∧
    revisions (exec sampleSettings Sys.init validatedRun).db.mutations 1 = List.range' 1 2 := by
  have hstep : activationOp.apply sampleSettings (exec sampleSettings Sys.init validatedRun)
      = some (exec sampleSettings Sys.init activatedRun) := by
    decide +kernel
  have hready : BecomesReady (exec sampleSettings Sys.init validatedRun)
      (exec sampleSettings Sys.init activatedRun) 11 := by
    unfold BecomesReady
    decide +kernel
  obtain ⟨hactivations, hrevisions⟩ := activation_sound (reachable_exec validatedRun)
  obtain ⟨documentId, lease, expected, mutationId, -, held, hactivates, -⟩ :=
    (hactivations activationOp _ hstep).2.1 11 hready
  have hdocument : documentId = 10 := by
    obtain ⟨-, -, -, -, -, v, hv, -, rfl, -⟩ := hactivates
    have hall : ∀ v ∈ (exec sampleSettings Sys.init validatedRun).db.versions, v.documentId = 10 := by
      decide +kernel
    exact hall v hv
  rw [hdocument] at hactivates
  refine ⟨⟨lease, held, hactivates⟩, ?_⟩
  have hrow : ⟨1, .active, some 1711, none, 2, 0, emptyFilterSchema⟩
      ∈ (exec sampleSettings Sys.init validatedRun).db.knowledgeBases := by
    decide +kernel
  exact hrevisions ⟨1, .active, some 1711, none, 2, 0, emptyFilterSchema⟩ hrow

end VeloxRag
