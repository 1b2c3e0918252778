import VeloxRag.System.Exclusion

/-!
# Ingestions, stage by stage

A version is ingested by one job after another: each but the last has failed, and the last works
on the state of the version in one generation.  What the rows hold depends on the stage of that
job, and the statuses of the rows on its status.

## Main definitions

* `AtStage` — what the rows hold, stage by stage.
* `InFlight`, `Standing` — the statuses of the rows.
* `Ingesting` — the rows of a version with its last job.
* `Ingested`, `Ingestions` — every version has such rows.
* `ingestionInv_of_reachable` — the invariant.
-/

namespace VeloxRag

open Lib Jobs Ingestion Indexing Metadata

/-! ## The rows of one version -/

/-- What the parse stage leaves. -/
structure ParsedText (d : Document) (v : Version) : Prop where
  key : v.parsedObjectKey = some (parsedTextObjectKey d.knowledgeBaseId d.id v.id)
  checksum : v.parsedObjectChecksum.isSome = true

/-- Nothing has been chunked. -/
structure Unchunked (v : Version) (st : IndexState) : Prop where
  chunker : v.chunker = ⟨none, none, none⟩
  manifest : untouchedManifest v st = true

/-- What the chunk stage leaves. -/
structure Manifest (digest : ChunkerDigest) (d : Document) (v : Version) (st : IndexState) (count : ℕ) :
    Prop where
  parsed : ParsedText d v
  key : v.chunkManifestObjectKey = some (chunksObjectKey d.knowledgeBaseId d.id v.id)
  checksum : v.chunkManifestChecksum.isSome = true
  chunkCount : v.chunkCount = some count
  positive : 1 ≤ count
  chunker : ∃ sizes, acceptedSizes sizes = true ∧ v.chunker = recursiveChunker sizes ∧
    v.chunkConfigHash = some (digest (recursiveChunker sizes))
  expected : st.expectedPointCount = some count
  stateChecksum : st.chunkManifestChecksum = v.chunkManifestChecksum

/-- The progress of a job. -/
def Job.At (J : Job) (stage : Stage) (current : ℕ) (total : Option ℕ) : Prop :=
  J.stage = some stage ∧ J.progressCurrent = current ∧ J.progressTotal = total

/-- **What the rows of a version hold**, by the stage of its job. -/
inductive AtStage (digest : ChunkerDigest) (g : Generation) (d : Document) (v : Version) (st : IndexState)
    (J : Job) : Prop
  | parse (place : J.At .parse 0 none) (resume : J.resumeStage = none ∨ J.resumeStage = some .parse)
      (unparsed : v.parsedObjectKey = none ∧ v.parsedObjectChecksum = none) (unchunked : Unchunked v st)
  | chunk (place : J.At .chunk 0 none) (resume : J.resumeStage = some .chunk) (parsed : ParsedText d v)
      (unchunked : Unchunked v st)
  | embedIndex (count : ℕ) (place : J.At .embedIndex st.nextChunkIndex (some count))
      (resume : J.resumeStage = some .embedIndex) (manifest : Manifest digest d v st count)
      (below : st.nextChunkIndex < count)
      (configHash : st.embeddingConfigHash = if st.nextChunkIndex = 0 then none else g.embeddingConfigHash)
      (uncounted : st.actualPointCount = none ∧ st.validatedAt = none)
  | validate (count : ℕ) (place : J.At .validate count (some count))
      (resume : J.resumeStage = some .validate) (manifest : Manifest digest d v st count)
      (next : st.nextChunkIndex = count) (configHash : st.embeddingConfigHash = g.embeddingConfigHash)
      (unvalidated : st.validatedAt = none)
  | activate (count : ℕ) (place : J.At .activate count (some count))
      (resume : J.resumeStage = some .activate) (manifest : Manifest digest d v st count)
      (next : st.nextChunkIndex = count) (configHash : st.embeddingConfigHash = g.embeddingConfigHash)
      (actual : st.actualPointCount = some count) (validated : st.validatedAt.isSome = true)

/-- The statuses of a version and its state while a job works on them. -/
inductive InFlight (v : Version) (st : IndexState) : Option Stage → Prop
  | parse (version : v.status = .uploaded ∨ v.status = .parsing) (state : st.status = .queued) :
      InFlight v st (some .parse)
  | chunk (version : v.status = .chunking) (state : st.status = .queued) : InFlight v st (some .chunk)
  | embedFirst (first : st.nextChunkIndex = 0) (version : v.status = .embedding)
      (state : st.status = .embedding) : InFlight v st (some .embedIndex)
  | embedNext (next : st.nextChunkIndex ≠ 0) (version : v.status = .indexing)
      (state : st.status = .indexing) : InFlight v st (some .embedIndex)
  | validate (version : v.status = .indexing) (state : st.status = .indexing) :
      InFlight v st (some .validate)
  | activate (version : v.status = .indexing) (state : st.status = .validated) :
      InFlight v st (some .activate)

/-- **The statuses of the rows**, by the status of the job.  A job that has `crashed` leaves the rows as
they are. -/
inductive Standing (crash : Prop) (d : Document) (v : Version) (st : IndexState) (J : Job) : Prop
  | running (status : J.status.isActive = true) (document : d.status = .processing)
      (rows : InFlight v st J.stage) (errors : st.errorCode = none ∧ st.safeErrorMessage = none)
  | failed (status : J.status = .failed) (document : d.status = .failed) (version : v.status = .failed)
      (state : st.status = .failed)
  | crashed (crash : crash) (status : J.status = .failed) (retryable : J.retryable = false)
      (document : d.status = .processing) (rows : InFlight v st J.stage)
  | succeeded (status : J.status = .succeeded) (document : d.status = .active) (version : v.status = .ready)
      (state : st.status = .validated) (stage : J.stage = some .activate)

/-- The rows of a version with the last job that works on it. -/
structure Ingesting (digest : ChunkerDigest) (crash : Prop) (g : Generation) (d : Document) (v : Version)
    (st : IndexState) (J : Job) : Prop where
  operation : J.operation = .ingestDocument
  target : J.targetId = v.id
  on : OnGeneration J g
  owner : v.documentId = d.id
  knowledgeBase : d.knowledgeBaseId = g.knowledgeBaseId
  key : st.key = (v.id, g.id)
  atStage : AtStage digest g d v st J
  standing : Standing crash d v st J

/-- What is left of a job that was retried. -/
structure Superseded (g : Generation) (K : Job) : Prop where
  failed : K.status = .failed
  generation : K.indexGenerationId = some g.id
  below : K.stage = some .embedIndex → ∃ total, K.progressTotal = some total ∧ K.progressCurrent < total

/-- The jobs that ingest a version, oldest first. -/
def ingestionsOf (jobs : List Job) (versionId : ℕ) : List Job :=
  jobs.filter fun J => decide (J.operation = .ingestDocument) && decide (J.targetId = versionId)

/-- A version is ingested: its rows are there, and all its jobs but the last have failed. -/
def Ingested (digest : ChunkerDigest) (crash : Prop) (db : Db) (v : Version) : Prop :=
  ∃ d ∈ db.documents, ∃ st ∈ db.indexStates, ∃ g ∈ db.generations, ∃ older J,
    ingestionsOf db.jobs v.id = older ++ [J] ∧ (∀ K ∈ older, Superseded g K) ∧
      Ingesting digest crash g d v st J

/-- Every version is ingested, every ingestion is of a version, and every state of a version in a
generation. -/
structure Ingestions (digest : ChunkerDigest) (crash : Prop) (db : Db) : Prop where
  ingested : ∀ v ∈ db.versions, Ingested digest crash db v
  target : ∀ J ∈ db.jobs, J.operation = .ingestDocument → ∃ v ∈ db.versions, v.id = J.targetId
  state : ∀ st ∈ db.indexStates, (∃ v ∈ db.versions, v.id = st.versionId) ∧
    ∃ g ∈ db.generations, g.id = st.generationId ∧ g.status ≠ .building
  uncancelled : ∀ J ∈ db.jobs, J.cancelRequestedAt = none

/-! ## The jobs of a version -/

section Jobs

variable {jobs : List Job} {J J' : Job} {older : List Job} {versionId : ℕ}

theorem mem_ingestionsOf : J ∈ ingestionsOf jobs versionId ↔
    J ∈ jobs ∧ J.operation = .ingestDocument ∧ J.targetId = versionId := by
  simp [ingestionsOf]

/-- A job that keeps its target is replaced in the list of its version. -/
theorem ingestionsOf_setRow (hkeys : (jobs.map (·.id)).Nodup) (hJ : J ∈ jobs) (hid : J'.id = J.id)
    (hop : J'.operation = J.operation) (htarget : J'.targetId = J.targetId) :
    ingestionsOf (setRow (·.id) J' jobs) versionId = setRow (·.id) J' (ingestionsOf jobs versionId) := by
  apply filter_setRow
  intro x hx heq
  rw [row_unique hkeys hx hJ (heq.trans hid), hop, htarget]

/-- A job of another version, or no ingestion, leaves the list alone. -/
theorem ingestionsOf_setRow_of_ne (hkeys : (jobs.map (·.id)).Nodup) (hJ : J ∈ jobs) (hid : J'.id = J.id)
    (hop : J'.operation = J.operation) (htarget : J'.targetId = J.targetId)
    (hne : J.operation = .ingestDocument → J.targetId ≠ versionId) :
    ingestionsOf (setRow (·.id) J' jobs) versionId = ingestionsOf jobs versionId := by
  rw [ingestionsOf_setRow hkeys hJ hid hop htarget]
  apply setRow_of_ne
  intro x hx heq
  obtain ⟨hmem, hxop, hxtarget⟩ := (mem_ingestionsOf).mp hx
  rw [row_unique hkeys hmem hJ (heq.trans hid)] at hxop hxtarget
  exact hne hxop hxtarget

theorem ingestionsOf_setRow_last (hkeys : (jobs.map (·.id)).Nodup) (hid : J'.id = J.id)
    (hop : J'.operation = J.operation) (htarget : J'.targetId = J.targetId)
    (hlist : ingestionsOf jobs versionId = older ++ [J]) :
    ingestionsOf (setRow (·.id) J' jobs) versionId = older ++ [J'] := by
  have hJ : J ∈ ingestionsOf jobs versionId := by
    rw [hlist]
    exact List.mem_append_right _ List.mem_cons_self
  rw [ingestionsOf_setRow hkeys ((mem_ingestionsOf).mp hJ).1 hid hop htarget, hlist]
  apply setRow_concat
  · rw [← hlist]
    exact nodup_filter hkeys _
  · exact hid.symm

theorem ingestionsOf_append : ingestionsOf (jobs ++ [J]) versionId
    = ingestionsOf jobs versionId
      ++ if J.operation = .ingestDocument ∧ J.targetId = versionId then [J] else [] := by
  unfold ingestionsOf
  rw [List.filter_append, List.filter_cons, List.filter_nil]
  simp only [Bool.and_eq_true, decide_eq_true_eq]

/-- A job of another version, or no ingestion, is added elsewhere. -/
theorem ingestionsOf_append_of_ne (hne : J.operation = .ingestDocument → J.targetId ≠ versionId) :
    ingestionsOf (jobs ++ [J]) versionId = ingestionsOf jobs versionId := by
  rw [ingestionsOf_append, if_neg, List.append_nil]
  rintro ⟨hop, htarget⟩
  exact hne hop htarget

end Jobs

/-! ## Writes to the rows of one version -/

section Rows

variable {settings : Settings} {s s' : Sys} {op : Op} {digest : ChunkerDigest} {crash : Prop}
  {g : Generation} {d : Document} {v : Version} {st : IndexState} {J J' : Job}

theorem InFlight.version {stage : Option Stage} (h : InFlight v st stage) : VersionStatus.isInFlight v.status = true := by
  cases h with
  | parse version => rcases version with hv | hv <;> rw [hv] <;> rfl
  | chunk version => rw [version]; rfl
  | embedFirst _ version => rw [version]; rfl
  | embedNext _ version => rw [version]; rfl
  | validate version => rw [version]; rfl
  | activate version => rw [version]; rfl

theorem InFlight.state {stage : Option Stage} (h : InFlight v st stage) : IndexStatus.isInFlight st.status = true := by
  cases h with
  | parse _ state => rw [state]; rfl
  | chunk _ state => rw [state]; rfl
  | embedFirst _ _ state => rw [state]; rfl
  | embedNext _ _ state => rw [state]; rfl
  | validate _ state => rw [state]; rfl
  | activate _ state => rw [state]; rfl

/-- An active job works on rows that are being processed. -/
theorem Standing.of_active (h : Standing crash d v st J) (active : J.status.isActive = true) :
    d.status = .processing ∧ InFlight v st J.stage ∧ st.errorCode = none ∧ st.safeErrorMessage = none := by
  cases h with
  | running status document rows errors => exact ⟨document, rows, errors⟩
  | failed status =>
      rw [status] at active
      cases active
  | crashed _ status =>
      rw [status] at active
      cases active
  | succeeded status =>
      rw [status] at active
      cases active

/-- The job of a version that has failed has failed. -/
theorem Standing.of_failed (h : Standing crash d v st J) (failed : v.status = .failed) :
    J.status = .failed ∧ d.status = .failed ∧ st.status = .failed := by
  have hnot : ¬ VersionStatus.isInFlight v.status = true := by
    rw [failed]
    decide
  cases h with
  | running status document rows => exact absurd rows.version hnot
  | failed status document version state => exact ⟨status, document, state⟩
  | crashed _ _ _ _ rows => exact absurd rows.version hnot
  | succeeded _ _ version =>
      rw [failed] at version
      cases version

/-- The stage of a job only depends on the columns of its progress. -/
theorem AtStage.of_job (h : AtStage digest g d v st J) (hstage : J'.stage = J.stage)
    (hresume : J'.resumeStage = J.resumeStage) (hcurrent : J'.progressCurrent = J.progressCurrent)
    (htotal : J'.progressTotal = J.progressTotal) : AtStage digest g d v st J' := by
  have hat {stage : Stage} {current : ℕ} {total : Option ℕ} (h : J.At stage current total) :
      J'.At stage current total := ⟨hstage.trans h.1, hcurrent.trans h.2.1, htotal.trans h.2.2⟩
  cases h with
  | parse place resume unparsed unchunked =>
      exact .parse (hat place) (by rwa [hresume]) unparsed unchunked
  | chunk place resume parsed unchunked => exact .chunk (hat place) (hresume.trans resume) parsed unchunked
  | embedIndex count place resume manifest below configHash uncounted =>
      exact .embedIndex count (hat place) (hresume.trans resume) manifest below configHash uncounted
  | validate count place resume manifest next configHash unvalidated =>
      exact .validate count (hat place) (hresume.trans resume) manifest next configHash unvalidated
  | activate count place resume manifest next configHash actual validated =>
      exact .activate count (hat place) (hresume.trans resume) manifest next configHash actual validated

/-- A write that leaves the progress of the job alone. -/
theorem Ingesting.of_job (h : Ingesting digest crash g d v st J) (keeps : J.Keeps J')
    (hstage : J'.stage = J.stage) (hresume : J'.resumeStage = J.resumeStage)
    (hcurrent : J'.progressCurrent = J.progressCurrent) (htotal : J'.progressTotal = J.progressTotal)
    (standing : Standing crash d v st J') : Ingesting digest crash g d v st J' where
  operation := keeps.operation.trans h.operation
  target := keeps.targetId.trans h.target
  on := h.on.keeps .rfl h.on.built keeps.indexGenerationId keeps.knowledgeBaseId keeps.operation
    keeps.targetType keeps.targetId
  owner := h.owner
  knowledgeBase := h.knowledgeBase
  key := h.key
  atStage := h.atStage.of_job hstage hresume hcurrent htotal
  standing := standing

/-- The runner cannot record an exception of an unknown kind, unless a crash is allowed. -/
def Crash (crash : Prop) (op : Op) : Prop := ∀ lease delay, op = .stageRaised lease .other delay → crash

/-- **A write to the job alone** keeps the rows. -/
theorem Ingesting.job (hbase : Base s) (h : Ingesting digest crash g d v st J) (hJ : J ∈ s.db.jobs)
    (uncancelled : J.cancelRequestedAt = none) (hcrash : Crash crash op) {leases : List JobLease}
    (write : JobWrite settings s J op J' leases) : Ingesting digest crash g d v st J' := by
  have keeps := write.keeps
  obtain ⟨document, rows, errors⟩ := h.standing.of_active keeps.active
  have hrunning {K : Job} (hK : K.status.isActive = true) (hstage : K.stage = J.stage) :
      Standing crash d v st K := .running hK document (by rwa [hstage]) errors
  have hother {L : JobLease} (held : L ∈ s.leases) (hfence : fence s.db.now L J = true)
      (hop : L.operation ≠ .ingestDocument) : False := by
    have hleased := hbase.leases L held J hJ (fence_id J hfence)
    exact hop (hleased.operation.trans h.operation)
  cases write with
  | claimed => exact h.of_job keeps rfl rfl rfl rfl (hrunning rfl rfl)
  | heartbeat => exact h.of_job keeps rfl rfl rfl rfl (hrunning keeps.active rfl)
  | released => exact h.of_job keeps rfl rfl rfl rfl (hrunning rfl rfl)
  | exhausted candidate operation => exact absurd h.operation operation
  | stageRaised lease exception delay error held operation fence raised =>
      refine h.of_job keeps rfl rfl rfl rfl ?_
      have hleased := hbase.leases lease held J hJ (fence_id J fence)
      obtain ⟨-, hstatus, -, hepoch, -⟩ := fence_iff.mp fence
      have hattempts := hleased.held hepoch.symm hstatus
      have hmax := hleased.maxAttempts
      cases herror : jobErrorOf exception with
      | some error' =>
          simp only [stageError, herror] at raised
          split at raised
          · cases raised
          · rename_i hretry
            obtain rfl := Option.some.inj raised
            simp only [not_or, Bool.not_eq_false, not_le] at hretry
            have hleft : J.attemptCount < J.maxAttempts := by omega
            have hwaits : (errorValues error' delay s.db.now J).status = .retryWait := by
              simp [errorValues, failureValues, uncancelled, hretry.1, hleft]
            exact hrunning (by rw [hwaits]; rfl) rfl
      | none =>
          simp only [stageError, herror] at raised
          split at raised
          · cases raised
          · rename_i hlost
            obtain rfl := Option.some.inj raised
            have hother : exception = .other := by
              cases exception <;> simp_all [jobErrorOf]
            refine .crashed (hcrash lease delay (by rw [hother])) ?_ ?_ document rows
            · simp [errorValues, failureValues, uncancelled, handlerFailed]
            · simp [errorValues, failureValues, uncancelled, handlerFailed]
  | repairRaised lease raised delay error held operation fence =>
      exact (hother held fence (by rw [operation]; decide)).elim
  | purgeRaised lease delay held purge fence =>
      refine (hother held fence ?_).elim
      intro hop
      simp [purgeLease, hop] at purge
  | purgeSucceeded lease held purge returned fence =>
      refine (hother held fence ?_).elim
      intro hop
      simp [purgeLease, hop] at purge
  | rebuilt _ lease _ _ held fence write issued =>
      refine (hother held (stageFence_iff.mp fence).1 ?_).elim
      rw [write.operation]
      decide

/-! ### The stage of a job -/

theorem Job.At.stage_eq {stage stage' : Stage} {current : ℕ} {total : Option ℕ} (h : J.At stage current total)
    (hstage : J.stage = some stage') : stage = stage' := Option.some.inj (h.1.symm.trans hstage)

theorem AtStage.of_parse (h : AtStage digest g d v st J) (stage : J.stage = some .parse) :
    (v.parsedObjectKey = none ∧ v.parsedObjectChecksum = none) ∧ Unchunked v st := by
  cases h with
  | parse _ _ unparsed unchunked => exact ⟨unparsed, unchunked⟩
  | chunk place => cases place.stage_eq stage
  | embedIndex _ place => cases place.stage_eq stage
  | validate _ place => cases place.stage_eq stage
  | activate _ place => cases place.stage_eq stage

theorem AtStage.of_chunk (h : AtStage digest g d v st J) (stage : J.stage = some .chunk) :
    ParsedText d v ∧ Unchunked v st := by
  cases h with
  | chunk _ _ parsed unchunked => exact ⟨parsed, unchunked⟩
  | parse place => cases place.stage_eq stage
  | embedIndex _ place => cases place.stage_eq stage
  | validate _ place => cases place.stage_eq stage
  | activate _ place => cases place.stage_eq stage

theorem AtStage.of_embedIndex (h : AtStage digest g d v st J) (stage : J.stage = some .embedIndex) :
    ∃ count, Manifest digest d v st count ∧ J.At .embedIndex st.nextChunkIndex (some count) ∧
      J.resumeStage = some .embedIndex ∧ st.nextChunkIndex < count ∧
      (st.embeddingConfigHash = if st.nextChunkIndex = 0 then none else g.embeddingConfigHash) ∧
      st.actualPointCount = none ∧ st.validatedAt = none := by
  cases h with
  | embedIndex count place resume manifest below configHash uncounted =>
      exact ⟨count, manifest, place, resume, below, configHash, uncounted⟩
  | parse place => cases place.stage_eq stage
  | chunk place => cases place.stage_eq stage
  | validate _ place => cases place.stage_eq stage
  | activate _ place => cases place.stage_eq stage

theorem AtStage.of_validate (h : AtStage digest g d v st J) (stage : J.stage = some .validate) :
    ∃ count, Manifest digest d v st count ∧ J.At .validate count (some count) ∧
      J.resumeStage = some .validate ∧ st.nextChunkIndex = count ∧
      st.embeddingConfigHash = g.embeddingConfigHash ∧ st.validatedAt = none := by
  cases h with
  | validate count place resume manifest next configHash unvalidated =>
      exact ⟨count, manifest, place, resume, next, configHash, unvalidated⟩
  | parse place => cases place.stage_eq stage
  | chunk place => cases place.stage_eq stage
  | embedIndex _ place => cases place.stage_eq stage
  | activate _ place => cases place.stage_eq stage

/-- The columns of the manifest are those that the chunk stage wrote. -/
theorem Manifest.of_columns {count : ℕ} {v' : Version} {st' : IndexState} (h : Manifest digest d v st count)
    (hv : v' = { v with status := v'.status, activatedAt := v'.activatedAt })
    (hexpected : st'.expectedPointCount = st.expectedPointCount)
    (hchecksum : st'.chunkManifestChecksum = st.chunkManifestChecksum) : Manifest digest d v' st' count := by
  rw [hv]
  exact ⟨⟨h.parsed.key, h.parsed.checksum⟩, h.key, h.checksum, h.chunkCount, h.positive, h.chunker,
    hexpected.trans h.expected, hchecksum.trans h.stateChecksum⟩

/-! ### Stage commits -/

/-- The rows after a commit of the parse stage. -/
theorem AtStage.after_parse {parsedChecksum : Str} {graph : StageGraph} {status : VersionStatus}
    (hkb : graph.document.knowledgeBaseId = graph.knowledgeBase.id) (h : Unchunked graph.version graph.state) :
    AtStage digest graph.generation graph.document
      { graph.version with
        parsedObjectKey := some (parsedTextObjectKey graph.knowledgeBase.id graph.document.id graph.version.id)
        parsedObjectChecksum := some parsedChecksum
        status := status }
      graph.state (checkpointValues (some .chunk) (some .chunk) 0 none J) := by
  refine .chunk ⟨rfl, rfl, rfl⟩ rfl ⟨?_, rfl⟩ ⟨h.chunker, h.manifest⟩
  rw [hkb]

/-- The rows after a commit of the chunk stage. -/
theorem AtStage.after_chunk {checksum : Str} {count : ℕ} {sizes : ℤ × ℤ} {graph : StageGraph}
    {status : VersionStatus} {stateStatus : IndexStatus}
    (hkb : graph.document.knowledgeBaseId = graph.knowledgeBase.id)
    (parsed : ParsedText graph.document graph.version) (unchunked : Unchunked graph.version graph.state)
    (accepted : acceptedSizes sizes = true) (positive : 1 ≤ count) :
    AtStage digest graph.generation graph.document
      { graph.version with
        chunkManifestObjectKey := some (chunksObjectKey graph.knowledgeBase.id graph.document.id
          graph.version.id)
        chunkManifestChecksum := some checksum
        chunkConfigHash := some (digest (recursiveChunker sizes))
        chunker := recursiveChunker sizes
        chunkCount := some count
        status := status }
      { graph.state with
        status := stateStatus
        expectedPointCount := some count
        chunkManifestChecksum := some checksum
        nextChunkIndex := 0 }
      (checkpointValues (some .embedIndex) (some .embedIndex) 0 (some count) J) := by
  have huntouched := unchunked.manifest
  simp only [untouchedManifest, Bool.and_eq_true, decide_eq_true_eq] at huntouched
  refine .embedIndex count ⟨rfl, rfl, rfl⟩ rfl ⟨⟨parsed.key, parsed.checksum⟩, ?_, rfl, rfl, positive,
    ⟨sizes, accepted, rfl, rfl⟩, rfl, rfl⟩ positive ?_ ?_
  · rw [hkb]
  · simp [huntouched]
  · exact ⟨huntouched.1.1.1.1.2, huntouched.2⟩

/-- **A stage commit** moves the rows on with the job. -/
theorem Ingesting.stage {defaults : ℤ × ℤ} {now : ℕ} {graph : StageGraph} {v' : Version} {st' : IndexState}
    (h : Ingesting digest crash graph.generation graph.document graph.version graph.state J)
    (hkb : graph.document.knowledgeBaseId = graph.knowledgeBase.id) (running : J.status = .running)
    (write : StageWrite digest defaults now graph J v' st' J') :
    Ingesting digest crash graph.generation graph.document v' st' J' := by
  have keeps := write.keeps running
  obtain ⟨document, rows, errors⟩ := h.standing.of_active (running_active running)
  have hwith {after : Job} (hkeeps : J.Keeps after) (hstatus : after.status = J.status) {w : Version}
      {t : IndexState} (hw : graph.version.Keeps w) (ht : t.key = graph.state.key)
      (hat : AtStage digest graph.generation graph.document w t after) (hrows : InFlight w t after.stage)
      (herrors : t.errorCode = none ∧ t.safeErrorMessage = none) :
      Ingesting digest crash graph.generation graph.document w t after := by
    refine ⟨hkeeps.operation.trans h.operation, ?_, ?_, hw.documentId.trans h.owner, h.knowledgeBase, ?_, hat,
      .running (by rw [hstatus]; exact running_active running) document hrows herrors⟩
    · rw [hkeeps.targetId, h.target, hw.id]
    · exact h.on.keeps .rfl h.on.built hkeeps.indexGenerationId hkeeps.knowledgeBaseId hkeeps.operation
        hkeeps.targetType hkeeps.targetId
    · rw [ht, h.key, hw.id]
  cases write with
  | started stage status =>
      obtain ⟨unparsed, unchunked⟩ := h.atStage.of_parse stage
      rw [stage] at rows
      refine hwith keeps rfl ⟨rfl, rfl, rfl, rfl, rfl⟩ rfl ?_ ?_ errors
      · cases h.atStage with
        | parse place resume => exact .parse place resume unparsed ⟨unchunked.chunker, unchunked.manifest⟩
        | chunk place => cases place.stage_eq stage
        | embedIndex _ place => cases place.stage_eq stage
        | validate _ place => cases place.stage_eq stage
        | activate _ place => cases place.stage_eq stage
      · rw [stage]
        cases rows with
        | parse version state => exact .parse (.inr rfl) state
  | parsed parsedChecksum stage =>
      obtain ⟨-, unchunked⟩ := h.atStage.of_parse stage
      rw [stage] at rows
      refine hwith keeps rfl ⟨rfl, rfl, rfl, rfl, rfl⟩ rfl (AtStage.after_parse hkb unchunked) ?_ errors
      cases rows with
      | parse _ state => exact .chunk rfl state
  | chunked manifestChecksum count sizes stage status chunker untouched positive =>
      obtain ⟨parsed, unchunked⟩ := h.atStage.of_chunk stage
      have haccepted : acceptedSizes sizes = true := (Option.eq_some_iff_get_eq.mp chunker).elim fun _ _ =>
        (Option.filter_eq_some_iff.mp chunker).2
      exact hwith keeps rfl ⟨rfl, rfl, rfl, rfl, rfl⟩ rfl
        (AtStage.after_chunk hkb parsed unchunked haccepted positive) (.embedFirst rfl rfl rfl) errors
  | embedded checksum count next stage manifested forward bound from_le =>
      obtain ⟨total, manifest, place, resume, below, configHash, uncounted⟩ := h.atStage.of_embedIndex stage
      obtain rfl : total = count := Option.some.inj (manifest.chunkCount.symm.trans manifested.chunkCount)
      have hpos := manifest.positive
      have hmanifest : Manifest digest graph.document { graph.version with status := .indexing }
          { graph.state with
            status := .indexing
            embeddingConfigHash := graph.generation.embeddingConfigHash
            nextChunkIndex := next } total := manifest.of_columns rfl rfl rfl
      by_cases hlast : next = total
      · rw [if_pos hlast] at keeps ⊢
        refine hwith keeps rfl ⟨rfl, rfl, rfl, rfl, rfl⟩ rfl ?_ (.validate rfl rfl) errors
        exact .validate total ⟨rfl, rfl, rfl⟩ rfl hmanifest hlast rfl uncounted.2
      · rw [if_neg hlast] at keeps ⊢
        have hnext : next ≠ 0 := by omega
        refine hwith keeps rfl ⟨rfl, rfl, rfl, rfl, rfl⟩ rfl ?_ ?_ errors
        · refine .embedIndex total ⟨stage, rfl, rfl⟩ resume hmanifest ?_ ?_ uncounted
          · exact lt_of_le_of_ne bound hlast
          · rw [if_neg hnext]
        · have hstage : (progressValues next (some total) J).stage = some .embedIndex := stage
          rw [hstage]
          exact .embedNext hnext rfl rfl
  | counted checksum count actual stage manifested statuses before =>
      obtain ⟨total, manifest, place, resume, next, configHash, unvalidated⟩ := h.atStage.of_validate stage
      refine hwith keeps rfl .rfl rfl ?_ ?_ errors
      · exact .validate total place resume (manifest.of_columns rfl rfl rfl) next configHash unvalidated
      · rw [stage]
        exact .validate statuses.1 statuses.2
  | validated checksum count stage manifested statuses configHash next noErrors actual =>
      obtain ⟨total, manifest, place, resume, -⟩ := h.atStage.of_validate stage
      obtain rfl : total = count := Option.some.inj (manifest.chunkCount.symm.trans manifested.chunkCount)
      refine hwith keeps rfl .rfl rfl ?_ ?_ errors
      · exact .activate total ⟨rfl, rfl, rfl⟩ rfl (manifest.of_columns rfl rfl rfl) next configHash actual rfl
      · exact .activate statuses.1 rfl

/-! ### The ends of a job -/

/-- What the rows hold does not depend on their statuses. -/
theorem AtStage.of_statuses {v' : Version} {st' : IndexState} {d' : Document} (h : AtStage digest g d v st J)
    (hd : d'.id = d.id ∧ d'.knowledgeBaseId = d.knowledgeBaseId)
    (hv : v' = { v with status := v'.status, activatedAt := v'.activatedAt })
    (hst : st' = { st with
      status := st'.status, errorCode := st'.errorCode, safeErrorMessage := st'.safeErrorMessage }) :
    AtStage digest g d' v' st' J := by
  rw [hv, hst]
  have hparsed (hp : ParsedText d v) :
      ParsedText d' { v with status := v'.status, activatedAt := v'.activatedAt } :=
    ⟨by rw [hd.1, hd.2]; exact hp.key, hp.checksum⟩
  have hmanifest {count : ℕ} (hm : Manifest digest d v st count) :
      Manifest digest d' { v with status := v'.status, activatedAt := v'.activatedAt }
        { st with
          status := st'.status, errorCode := st'.errorCode, safeErrorMessage := st'.safeErrorMessage } count :=
    ⟨hparsed hm.parsed, by rw [hd.1, hd.2]; exact hm.key, hm.checksum, hm.chunkCount, hm.positive, hm.chunker,
      hm.expected, hm.stateChecksum⟩
  cases h with
  | parse place resume unparsed unchunked =>
      exact .parse place resume unparsed ⟨unchunked.chunker, unchunked.manifest⟩
  | chunk place resume parsed unchunked =>
      exact .chunk place resume (hparsed parsed) ⟨unchunked.chunker, unchunked.manifest⟩
  | embedIndex count place resume manifest below configHash uncounted =>
      exact .embedIndex count place resume (hmanifest manifest) below configHash uncounted
  | validate count place resume manifest next configHash unvalidated =>
      exact .validate count place resume (hmanifest manifest) next configHash unvalidated
  | activate count place resume manifest next configHash actual validated =>
      exact .activate count place resume (hmanifest manifest) next configHash actual validated

/-- **A terminal failure** ends the rows with the job. -/
theorem Ingesting.fail {graph : StageGraph} {retryable : Bool} {code message : Str} {now : ℕ}
    (h : Ingesting digest crash graph.generation graph.document graph.version graph.state J)
    (paired : Paired graph.document graph.version) (active : J.status.isActive = true)
    (hkb : graph.knowledgeBase.id = graph.document.knowledgeBaseId) :
    Ingesting digest crash graph.generation (failedDocument graph) (failedVersion graph)
      (failedState graph code message) (failedValues retryable code message now J) := by
  obtain ⟨document, rows, -⟩ := h.standing.of_active active
  obtain ⟨current, pending, -⟩ := paired.phase_of_ready document
  have hsafe : safeUnactivatedVersion graph = true :=
    paired.safe hkb.symm (by rw [hkb, ← h.knowledgeBase]) current
  have hd : failedDocument graph = { graph.document with status := .failed } := by
    simp [failedDocument, hsafe, current, pending, document, paired.deletedAt]
  have hv : failedVersion graph = { graph.version with status := .failed } := by
    simp [failedVersion, hsafe, rows.version]
  have hst : failedState graph code message = { graph.state with
      status := .failed, errorCode := some code, safeErrorMessage := some message } := by
    simp [failedState, hsafe, rows.state]
  rw [hd, hv, hst]
  refine ⟨h.operation, h.target, ?_, h.owner, h.knowledgeBase, h.key, ?_, .failed rfl rfl rfl rfl⟩
  · exact h.on.keeps .rfl h.on.built rfl rfl rfl rfl rfl
  · have hat : AtStage digest graph.generation graph.document graph.version graph.state
        (failedValues retryable code message now J) := h.atStage.of_job rfl rfl rfl rfl
    apply hat.of_statuses
    · exact ⟨rfl, rfl⟩
    · rfl
    · rfl

/-- **An activation** ends the job in success. -/
theorem Ingesting.activate {graph : StageGraph} {lease : JobLease} {db : Db}
    (h : Ingesting digest crash graph.generation graph.document graph.version graph.state J)
    (activation : Activation db lease graph J) :
    Ingesting digest crash graph.generation
      { graph.document with
        currentVersionId := some graph.version.id
        pendingVersionId := none
        mimeType := graph.version.source.detectedMimeType
        status := .active }
      { graph.version with status := .ready, activatedAt := some db.now } graph.state
      (finishedValues db.now J) := by
  refine ⟨h.operation, h.target, ?_, h.owner, h.knowledgeBase, h.key, ?_,
    .succeeded rfl rfl rfl activation.stateStatus activation.stage⟩
  · exact h.on.keeps .rfl h.on.built rfl rfl rfl rfl rfl
  · have hat : AtStage digest graph.generation graph.document graph.version graph.state
        (finishedValues db.now J) := h.atStage.of_job rfl rfl rfl rfl
    apply hat.of_statuses
    · exact ⟨rfl, rfl⟩
    · rfl
    · rfl

/-- The rows of an upload. -/
theorem ingesting_upload (hinv : GenInv s.db s.reservations) (hkeys : s.db.WellKeyed) {reservation : UploadReservation} {knowledgeBase : KnowledgeBase} {mutationId : ℕ}
    (creates : UploadCreates s.db reservation knowledgeBase g) :
    Ingesting digest crash g (newDocument reservation) (newVersion reservation)
      (newIndexState reservation.versionId g.id) (ingestJob reservation knowledgeBase g.id mutationId) := by
  obtain ⟨howner, hbuilt⟩ := hinv.active_built creates.generation_mem creates.generationStatus
    creates.knowledgeBase_mem hkeys creates.active
  refine ⟨rfl, rfl, ⟨rfl, ?_, hbuilt, ?_, fun _ => rfl⟩, rfl, ?_, rfl, ?_, ?_⟩
  · rw [howner]
    rfl
  · intro hop
    cases hop
  · rw [howner, creates.knowledgeBaseId]
    rfl
  · exact .parse ⟨rfl, rfl, rfl⟩ (.inl rfl) ⟨rfl, rfl⟩ ⟨rfl, rfl⟩
  · exact .running rfl rfl (.parse (.inl rfl) rfl) ⟨rfl, rfl⟩

/-! ### Retries -/

/-- What a retry has checked of the rows, by the stage it starts in. -/
inductive Resumes (configHash : ConfigHash) (snapshot : ManualRetrySnapshot) (g : Generation) (v : Version)
    (st : IndexState) : VersionStatus → IndexStatus → Prop
  | parse (stage : snapshot.stage = some .parse)
      (resume : snapshot.resumeStage = none ∨ snapshot.resumeStage = some .parse)
      (progress : snapshot.progressCurrent = 0 ∧ snapshot.progressTotal = none)
      (unparsed : v.parsedObjectKey = none) (untouched : untouchedManifest v st = true) :
      Resumes configHash snapshot g v st .uploaded .queued
  | chunk (stage : snapshot.stage = some .chunk) (resume : snapshot.resumeStage = some .chunk)
      (progress : snapshot.progressCurrent = 0 ∧ snapshot.progressTotal = none)
      (parsed : validParsedSnapshot v = true) (untouched : untouchedManifest v st = true) :
      Resumes configHash snapshot g v st .chunking .queued
  | embedIndex (stage : snapshot.stage = some .embedIndex) (resume : snapshot.resumeStage = some .embedIndex)
      (current : snapshot.progressCurrent = st.nextChunkIndex) (total : snapshot.progressTotal = v.chunkCount)
      (manifest : validManifestSnapshot configHash v st g = true)
      (uncounted : st.actualPointCount = none) :
      Resumes configHash snapshot g v st (if st.nextChunkIndex = 0 then .embedding else .indexing)
        (if st.nextChunkIndex = 0 then .embedding else .indexing)
  | validate (stage : snapshot.stage = some .validate) (resume : snapshot.resumeStage = some .validate)
      (progress : some snapshot.progressCurrent = v.chunkCount ∧ snapshot.progressTotal = v.chunkCount)
      (next : some st.nextChunkIndex = v.chunkCount) (unvalidated : st.validatedAt = none)
      (manifest : validManifestSnapshot configHash v st g = true) :
      Resumes configHash snapshot g v st .indexing .indexing
  | activate (stage : snapshot.stage = some .activate) (resume : snapshot.resumeStage = some .activate)
      (progress : some snapshot.progressCurrent = v.chunkCount ∧ snapshot.progressTotal = v.chunkCount)
      (next : some st.nextChunkIndex = v.chunkCount) (validated : st.validatedAt.isSome = true)
      (manifest : validManifestSnapshot configHash v st g = true) :
      Resumes configHash snapshot g v st .indexing .validated

theorem resumes_of_resumable {configHash : ConfigHash} {snapshot : ManualRetrySnapshot}
    {versionStatus : VersionStatus} {stateStatus : IndexStatus}
    (h : resumable configHash snapshot v st g = some (true, versionStatus, stateStatus)) :
    Resumes configHash snapshot g v st versionStatus stateStatus := by
  unfold resumable at h
  dsimp only at h
  split at h
  · rename_i hstage hresume
    simp only [Option.some.injEq, Prod.mk.injEq, Bool.and_eq_true, decide_eq_true_eq] at h
    obtain ⟨⟨⟨⟨hprogress, hkey⟩, -⟩, huntouched⟩, rfl, rfl⟩ := h
    exact .parse hstage (.inl hresume) hprogress hkey huntouched
  · rename_i hstage hresume
    simp only [Option.some.injEq, Prod.mk.injEq, Bool.and_eq_true, decide_eq_true_eq] at h
    obtain ⟨⟨⟨⟨hprogress, hkey⟩, -⟩, huntouched⟩, rfl, rfl⟩ := h
    exact .parse hstage (.inr hresume) hprogress hkey huntouched
  · rename_i hstage hresume
    simp only [Option.some.injEq, Prod.mk.injEq, Bool.and_eq_true, decide_eq_true_eq] at h
    obtain ⟨⟨⟨hprogress, hparsed⟩, huntouched⟩, rfl, rfl⟩ := h
    exact .chunk hstage hresume hprogress hparsed huntouched
  · rename_i hstage hresume
    simp only [Option.some.injEq, Prod.mk.injEq, Bool.and_eq_true, decide_eq_true_eq] at h
    obtain ⟨⟨⟨⟨⟨-, hmanifest⟩, hcurrent⟩, htotal⟩, huncounted⟩, rfl, rfl⟩ := h
    exact .embedIndex hstage hresume hcurrent htotal hmanifest huncounted
  · rename_i hstage hresume
    simp only [Option.some.injEq, Prod.mk.injEq, Bool.and_eq_true, decide_eq_true_eq] at h
    obtain ⟨⟨⟨⟨⟨-, hmanifest⟩, ⟨⟨hnext, hcurrent⟩, htotal⟩, -⟩, -⟩, hunvalidated⟩, rfl, rfl⟩ := h
    exact .validate hstage hresume ⟨hcurrent, htotal⟩ hnext hunvalidated hmanifest
  · rename_i hstage hresume
    simp only [Option.some.injEq, Prod.mk.injEq, Bool.and_eq_true, decide_eq_true_eq] at h
    obtain ⟨⟨⟨⟨⟨-, hmanifest⟩, ⟨⟨hnext, hcurrent⟩, htotal⟩, -⟩, -⟩, hvalidated⟩, rfl, rfl⟩ := h
    exact .activate hstage hresume ⟨hcurrent, htotal⟩ hnext hvalidated hmanifest
  · cases h

/-- The rows with the statuses that a retry gives them. -/
theorem Resumes.inFlight {configHash : ConfigHash} {snapshot : ManualRetrySnapshot}
    {versionStatus : VersionStatus} {stateStatus : IndexStatus}
    (h : Resumes configHash snapshot g v st versionStatus stateStatus) :
    InFlight { v with status := versionStatus }
      { st with status := stateStatus, errorCode := none, safeErrorMessage := none } snapshot.stage := by
  cases h with
  | parse stage =>
      rw [stage]
      exact .parse (.inl rfl) rfl
  | chunk stage =>
      rw [stage]
      exact .chunk rfl rfl
  | embedIndex stage =>
      rw [stage]
      by_cases hfirst : st.nextChunkIndex = 0
      · simp only [if_pos hfirst]
        exact .embedFirst hfirst rfl rfl
      · simp only [if_neg hfirst]
        exact .embedNext hfirst rfl rfl
  | validate stage =>
      rw [stage]
      exact .validate rfl rfl
  | activate stage =>
      rw [stage]
      exact .activate rfl rfl

theorem Unchunked.chunkCount (h : Unchunked v st) : v.chunkCount = none := by
  have huntouched := h.manifest
  simp only [untouchedManifest, Bool.and_eq_true, decide_eq_true_eq] at huntouched
  exact huntouched.1.1.1.1.1.1.2

theorem Manifest.not_untouched {count : ℕ} (h : Manifest digest d v st count) :
    untouchedManifest v st = false := by
  simp [untouchedManifest, h.key]

/-- A retry that is accepted starts where the last job of the version stands, whichever job of the
version it retries. -/
theorem AtStage.resume (h : AtStage digest g d v st J) {configHash : ConfigHash}
    {snapshot : ManualRetrySnapshot} {versionStatus : VersionStatus} {stateStatus : IndexStatus}
    (hresumes : Resumes configHash snapshot g v st versionStatus stateStatus)
    (below : snapshot.stage = some .embedIndex →
      ∃ total, snapshot.progressTotal = some total ∧ snapshot.progressCurrent < total)
    (hstage : J'.stage = snapshot.stage) (hresume : J'.resumeStage = snapshot.resumeStage)
    (hcurrent : J'.progressCurrent = snapshot.progressCurrent)
    (htotal : J'.progressTotal = snapshot.progressTotal) : AtStage digest g d v st J' := by
  cases hresumes with
  | parse stage resume progress unparsed untouched =>
      have place : J'.At .parse 0 none :=
        ⟨hstage.trans stage, hcurrent.trans progress.1, htotal.trans progress.2⟩
      cases h with
      | parse _ _ hunparsed unchunked => exact .parse place (by rwa [hresume]) hunparsed unchunked
      | chunk _ _ parsed =>
          rw [parsed.key] at unparsed
          cases unparsed
      | embedIndex _ _ _ manifest => simp [manifest.not_untouched] at untouched
      | validate _ _ _ manifest => simp [manifest.not_untouched] at untouched
      | activate _ _ _ manifest => simp [manifest.not_untouched] at untouched
  | chunk stage resume progress parsed untouched =>
      have place : J'.At .chunk 0 none :=
        ⟨hstage.trans stage, hcurrent.trans progress.1, htotal.trans progress.2⟩
      cases h with
      | parse _ _ unparsed =>
          simp [validParsedSnapshot, unparsed.1] at parsed
      | chunk _ _ hparsed unchunked => exact .chunk place (hresume.trans resume) hparsed unchunked
      | embedIndex _ _ _ manifest => simp [manifest.not_untouched] at untouched
      | validate _ _ _ manifest => simp [manifest.not_untouched] at untouched
      | activate _ _ _ manifest => simp [manifest.not_untouched] at untouched
  | embedIndex stage resume current total manifest uncounted =>
      obtain ⟨n, hn, hlt⟩ := below stage
      rw [total] at hn
      rw [current] at hlt
      cases h with
      | parse _ _ _ unchunked =>
          rw [unchunked.chunkCount] at hn
          cases hn
      | chunk _ _ _ unchunked =>
          rw [unchunked.chunkCount] at hn
          cases hn
      | embedIndex count _ _ hmanifest hbelow configHash huncounted =>
          have place : J'.At .embedIndex st.nextChunkIndex (some count) :=
            ⟨hstage.trans stage, hcurrent.trans current, (htotal.trans total).trans hmanifest.chunkCount⟩
          exact .embedIndex count place (hresume.trans resume) hmanifest hbelow configHash huncounted
      | validate count _ _ hmanifest next =>
          rw [hmanifest.chunkCount, Option.some.injEq] at hn
          omega
      | activate count _ _ hmanifest next =>
          rw [hmanifest.chunkCount, Option.some.injEq] at hn
          omega
  | validate stage resume progress next unvalidated manifest =>
      cases h with
      | parse _ _ _ unchunked =>
          rw [unchunked.chunkCount] at next
          cases next
      | chunk _ _ _ unchunked =>
          rw [unchunked.chunkCount] at next
          cases next
      | embedIndex count _ _ hmanifest hbelow =>
          rw [hmanifest.chunkCount, Option.some.injEq] at next
          omega
      | validate count _ _ hmanifest hnext configHash =>
          rw [hmanifest.chunkCount, Option.some.injEq] at progress
          have place : J'.At .validate count (some count) :=
            ⟨hstage.trans stage, hcurrent.trans progress.1, htotal.trans progress.2⟩
          exact .validate count place (hresume.trans resume) hmanifest hnext configHash unvalidated
      | activate _ _ _ _ _ _ _ validated => simp [unvalidated] at validated
  | activate stage resume progress next validated manifest =>
      cases h with
      | parse _ _ _ unchunked =>
          rw [unchunked.chunkCount] at next
          cases next
      | chunk _ _ _ unchunked =>
          rw [unchunked.chunkCount] at next
          cases next
      | embedIndex count _ _ hmanifest hbelow =>
          rw [hmanifest.chunkCount, Option.some.injEq] at next
          omega
      | validate _ _ _ _ _ _ unvalidated => simp [unvalidated] at validated
      | activate count _ _ hmanifest hnext configHash actual =>
          rw [hmanifest.chunkCount, Option.some.injEq] at progress
          have place : J'.At .activate count (some count) :=
            ⟨hstage.trans stage, hcurrent.trans progress.1, htotal.trans progress.2⟩
          exact .activate count place (hresume.trans resume) hmanifest hnext configHash actual validated

/-- A generation may be retired meanwhile. -/
theorem AtStage.generation {g' : Generation} (h : AtStage digest g d v st J) (keeps : g.Keeps g') :
    AtStage digest g' d v st J := by
  cases h with
  | parse place resume unparsed unchunked => exact .parse place resume unparsed unchunked
  | chunk place resume parsed unchunked => exact .chunk place resume parsed unchunked
  | embedIndex count place resume manifest below configHash uncounted =>
      exact .embedIndex count place resume manifest below (by rw [keeps.embeddingConfigHash, configHash])
        uncounted
  | validate count place resume manifest next configHash unvalidated =>
      exact .validate count place resume manifest next (by rw [keeps.embeddingConfigHash, configHash])
        unvalidated
  | activate count place resume manifest next configHash actual validated =>
      exact .activate count place resume manifest next (by rw [keeps.embeddingConfigHash, configHash]) actual
        validated

theorem Ingesting.generation {g' : Generation} (h : Ingesting digest crash g d v st J) (keeps : g.Keeps g')
    (built : g'.status ≠ .building) : Ingesting digest crash g' d v st J where
  operation := h.operation
  target := h.target
  on := h.on.keeps keeps built rfl rfl rfl rfl rfl
  owner := h.owner
  knowledgeBase := h.knowledgeBase.trans keeps.knowledgeBaseId.symm
  key := by rw [h.key, keeps.id]
  atStage := h.atStage.generation keeps
  standing := h.standing

/-- A job that is retried leaves its generation and its progress behind. -/
theorem Ingesting.superseded (h : Ingesting digest crash g d v st J) (failed : J.status = .failed) :
    Superseded g J where
  failed := failed
  generation := h.on.generation
  below := by
    intro stage
    obtain ⟨count, -, place, -, below, -⟩ := h.atStage.of_embedIndex stage
    exact ⟨count, place.2.2, by rw [place.2.1]; exact below⟩

end Rows

/-! ## The tables -/

section Tables

variable {digest : ChunkerDigest} {crash : Prop} {db db' : Db} {g : Generation} {d d' : Document}
  {v v' : Version} {st st' : IndexState} {J J' : Job} {older : List Job}

/-- A job of a version that has not failed is its last. -/
theorem Ingested.last (h : Ingested digest crash db v) (hJ : J ∈ db.jobs)
    (hop : J.operation = .ingestDocument) (htarget : J.targetId = v.id) (hstatus : J.status ≠ .failed) :
    ∃ d ∈ db.documents, ∃ st ∈ db.indexStates, ∃ g ∈ db.generations, ∃ older,
      ingestionsOf db.jobs v.id = older ++ [J] ∧ (∀ K ∈ older, Superseded g K) ∧
        Ingesting digest crash g d v st J := by
  obtain ⟨d, hd, st, hst, g, hg, older, J₀, hlist, holder, h⟩ := h
  have hmem : J ∈ older ++ [J₀] := by
    rw [← hlist]
    exact (mem_ingestionsOf).mpr ⟨hJ, hop, htarget⟩
  rcases List.mem_append.mp hmem with hold | hlast
  · exact absurd (holder J hold).failed hstatus
  · rw [List.mem_singleton.mp hlast]
    exact ⟨d, hd, st, hst, g, hg, older, hlist, holder, h⟩

/-- The rows that a job works on are those of its version. -/
theorem Ingested.find (hkeys : db.WellKeyed) (h : Ingested digest crash db v) (hJ : J ∈ db.jobs)
    (hop : J.operation = .ingestDocument) (htarget : J.targetId = v.id) (hstatus : J.status ≠ .failed)
    (hd : d ∈ db.documents) (howner : v.documentId = d.id) (hg : g ∈ db.generations)
    (hgen : J.indexGenerationId = some g.id) (hst : st ∈ db.indexStates) (hkey : st.key = (v.id, g.id)) :
    ∃ older, ingestionsOf db.jobs v.id = older ++ [J] ∧ (∀ K ∈ older, Superseded g K) ∧
      Ingesting digest crash g d v st J := by
  obtain ⟨d₀, hd₀, st₀, hst₀, g₀, hg₀, older, hlist, holder, h⟩ := h.last hJ hop htarget hstatus
  have hdocument : d = d₀ := row_unique hkeys.documents hd hd₀ (howner.symm.trans h.owner)
  have hgeneration : g = g₀ :=
    row_unique hkeys.generations hg hg₀ (Option.some.inj (hgen.symm.trans h.on.generation))
  have hstate : st = st₀ := by
    apply row_unique hkeys.indexStates hst hst₀
    rw [hkey, hgeneration, h.key]
  rw [hdocument, hgeneration, hstate]
  exact ⟨older, hlist, holder, h⟩

/-- Every job of a version is of the knowledge base of its document. -/
theorem Ingested.job_knowledgeBase (hkeys : db.WellKeyed) (hon : JobsOnGenerations db)
    (h : Ingested digest crash db v) (hJ : J ∈ ingestionsOf db.jobs v.id) (hd : d ∈ db.documents)
    (howner : v.documentId = d.id) : J.knowledgeBaseId = some d.knowledgeBaseId := by
  obtain ⟨d₀, hd₀, st, hst, g, hg, older, J₀, hlist, holder, h⟩ := h
  obtain ⟨hmem, hop, -⟩ := (mem_ingestionsOf).mp hJ
  have hgen : J.indexGenerationId = some g.id := by
    rw [hlist] at hJ
    rcases List.mem_append.mp hJ with hold | hlast
    · exact (holder J hold).generation
    · rw [List.mem_singleton.mp hlast]
      exact h.on.generation
  obtain ⟨g₀, hg₀, hJon⟩ := hon J hmem (.inl hop)
  have hsame : g₀ = g := by
    apply row_unique hkeys.generations hg₀ hg
    exact Option.some.inj (hJon.generation.symm.trans hgen)
  have hdocument : d = d₀ := row_unique hkeys.documents hd hd₀ (howner.symm.trans h.owner)
  rw [hJon.knowledgeBase, hsame, hdocument, h.knowledgeBase]

/-- The rows of a version that are still there. -/
theorem Ingested.frame (h : Ingested digest crash db v)
    (hrows : ∀ d ∈ db.documents, ∀ st ∈ db.indexStates, ∀ g ∈ db.generations, v.documentId = d.id →
      st.key = (v.id, g.id) → d.knowledgeBaseId = g.knowledgeBaseId → g.status ≠ .building →
      d ∈ db'.documents ∧ st ∈ db'.indexStates ∧
        ∃ g' ∈ db'.generations, g.Keeps g' ∧ g'.status ≠ .building)
    (hjobs : ingestionsOf db'.jobs v.id = ingestionsOf db.jobs v.id) : Ingested digest crash db' v := by
  obtain ⟨d, hd, st, hst, g, hg, older, J, hlist, holder, h⟩ := h
  obtain ⟨hd', hst', g', hg', keeps, built⟩ := hrows d hd st hst g hg h.owner h.key h.knowledgeBase h.on.built
  refine ⟨d, hd', st, hst', g', hg', older, J, ?_, ?_, h.generation keeps built⟩
  · rw [hjobs, hlist]
  · intro K hK
    have hK' := holder K hK
    exact ⟨hK'.failed, by rw [hK'.generation, keeps.id], hK'.below⟩

/-- **The rows of one version are written**, with its jobs. -/
theorem Ingestions.write (hpairing : Pairing db.documents db.versions)
    (h : Ingestions digest crash db) (hd : d ∈ db.documents) (hv : v ∈ db.versions)
    (hst : st ∈ db.indexStates) (hg : g ∈ db.generations) (howner : v.documentId = d.id)
    (hkey : st.key = (v.id, g.id))
    (hdocuments : db'.documents = setRow (·.id) d' db.documents) (hdid : d'.id = d.id)
    (hversions : db'.versions = setRow (·.id) v' db.versions) (hvid : v'.id = v.id)
    (hstates : db'.indexStates = setRow IndexState.key st' db.indexStates) (hstkey : st'.key = st.key)
    (hgenerations : db'.generations = db.generations)
    (hothers : ∀ w, w ≠ v.id → ingestionsOf db'.jobs w = ingestionsOf db.jobs w)
    (hlist : ingestionsOf db'.jobs v.id = older ++ [J']) (holder : ∀ K ∈ older, Superseded g K)
    (hrows : Ingesting digest crash g d' v' st' J')
    (htarget : ∀ K ∈ db'.jobs, K.operation = .ingestDocument → ∃ w ∈ db.versions, w.id = K.targetId)
    (uncancelled : ∀ K ∈ db'.jobs, K.cancelRequestedAt = none) : Ingestions digest crash db' := by
  have hids : ∀ w, (∃ x ∈ db.versions, x.id = w) → ∃ x ∈ db'.versions, x.id = w := by
    rintro w ⟨x, hx, rfl⟩
    rw [hversions]
    obtain ⟨x', hx', hcase⟩ := exists_mem_setRow (·.id) v' hx
    refine ⟨x', hx', ?_⟩
    rcases hcase with ⟨rfl, heq⟩ | ⟨rfl, -⟩
    · exact heq.symm
    · rfl
  refine ⟨?_, ?_, ?_, uncancelled⟩
  · intro x hx
    rw [hversions] at hx
    rcases mem_setRow hx with rfl | ⟨hmem, hne⟩
    · refine ⟨d', ?_, st', ?_, g, ?_, older, J', ?_, holder, hrows⟩
      · rw [hdocuments]
        exact mem_setRow_self hd hdid.symm
      · rw [hstates]
        exact mem_setRow_self hst hstkey.symm
      · rwa [hgenerations]
      · rwa [hvid]
    · have hxv : x.id ≠ v.id := fun heq => hne (heq.trans hvid.symm)
      refine (h.ingested x hmem).frame ?_ (hothers x.id hxv)
      intro e he t ht g₀ hg₀ hxowner htkey _ hbuilt
      refine ⟨?_, ?_, g₀, by rwa [hgenerations], .rfl, hbuilt⟩
      · rw [hdocuments]
        apply mem_setRow_of_ne he
        intro heq
        have hsame := hpairing.unique x hmem v hv (by rw [hxowner, howner, ← hdid, heq])
        exact hxv (by rw [hsame])
      · rw [hstates]
        apply mem_setRow_of_ne ht
        intro heq
        rw [htkey, hstkey, hkey] at heq
        exact hxv (Prod.mk.inj heq).1
  · intro K hK hop
    exact hids _ (htarget K hK hop)
  · intro t ht
    rw [hstates] at ht
    rw [hgenerations]
    rcases mem_setRow ht with rfl | ⟨hmem, -⟩
    · obtain ⟨hversion, hgeneration⟩ := h.state st hst
      have hsame : t.versionId = st.versionId ∧ t.generationId = st.generationId := Prod.mk.inj hstkey
      rw [hsame.1, hsame.2]
      exact ⟨hids _ hversion, hgeneration⟩
    · obtain ⟨hversion, hgeneration⟩ := h.state t hmem
      exact ⟨hids _ hversion, hgeneration⟩

/-- The versions and their jobs are left alone; states may be added. -/
theorem Ingestions.frame (h : Ingestions digest crash db) (hversions : db'.versions = db.versions)
    (hdocuments : db'.documents = db.documents) (hstates : ∀ st ∈ db.indexStates, st ∈ db'.indexStates)
    (hadded : ∀ st ∈ db'.indexStates, st ∈ db.indexStates ∨ (∃ v ∈ db.versions, v.id = st.versionId) ∧
      ∃ g ∈ db'.generations, g.id = st.generationId ∧ g.status ≠ .building)
    (hgenerations : ∀ g ∈ db.generations, g.status ≠ .building →
      ∃ g' ∈ db'.generations, g.Keeps g' ∧ g'.status ≠ .building)
    (hjobs : ∀ w, ingestionsOf db'.jobs w = ingestionsOf db.jobs w)
    (uncancelled : ∀ K ∈ db'.jobs, K.cancelRequestedAt = none) : Ingestions digest crash db' := by
  refine ⟨?_, ?_, ?_, uncancelled⟩
  · intro v hv
    rw [hversions] at hv
    refine (h.ingested v hv).frame ?_ (hjobs v.id)
    intro d hd st hst g hg _ _ _ hbuilt
    exact ⟨hdocuments ▸ hd, hstates st hst, hgenerations g hg hbuilt⟩
  · intro K hK hop
    have hmem := (mem_ingestionsOf).mpr ⟨hK, hop, rfl⟩
    rw [hjobs] at hmem
    rw [hversions]
    exact h.target K ((mem_ingestionsOf).mp hmem).1 hop
  · intro st hst
    rw [hversions]
    rcases hadded st hst with hold | hnew
    · obtain ⟨hversion, g, hg, hid, hbuilt⟩ := h.state st hold
      obtain ⟨g', hg', keeps, hbuilt'⟩ := hgenerations g hg hbuilt
      exact ⟨hversion, g', hg', keeps.id.trans hid, hbuilt'⟩
    · exact hnew

/-- A new version starts with its own rows. -/
theorem Ingestions.upload (h : Ingestions digest crash db) (hversions : db'.versions = db.versions ++ [v])
    (hdocuments : db'.documents = db.documents ++ [d]) (hstates : db'.indexStates = db.indexStates ++ [st])
    (hgenerations : db'.generations = db.generations) (hjobs : db'.jobs = db.jobs ++ [J])
    (hg : g ∈ db.generations) (hrows : Ingesting digest crash g d v st J)
    (hfresh : ∀ w ∈ db.versions, w.id ≠ v.id) (uncancelled : J.cancelRequestedAt = none) :
    Ingestions digest crash db' := by
  have hnone : ingestionsOf db.jobs v.id = [] := by
    rw [List.eq_nil_iff_forall_not_mem]
    intro K hK
    obtain ⟨hmem, hop, htarget⟩ := (mem_ingestionsOf).mp hK
    obtain ⟨w, hw, hid⟩ := h.target K hmem hop
    exact hfresh w hw (hid.trans htarget)
  have hlast {α : Type} (xs : List α) (x : α) : x ∈ xs ++ [x] := List.mem_append_right _ List.mem_cons_self
  refine ⟨?_, ?_, ?_, ?_⟩
  · intro x hx
    rw [hversions] at hx
    rcases List.mem_append.mp hx with hold | hnew
    · refine (h.ingested x hold).frame ?_ ?_
      · intro e he t ht g₀ hg₀ _ _ _ hbuilt
        rw [hdocuments, hstates, hgenerations]
        exact ⟨List.mem_append_left _ he, List.mem_append_left _ ht, g₀, hg₀, .rfl, hbuilt⟩
      · rw [hjobs]
        apply ingestionsOf_append_of_ne
        intro _ heq
        exact hfresh x hold (by rw [← heq, hrows.target])
    · obtain rfl := List.mem_singleton.mp hnew
      refine ⟨d, ?_, st, ?_, g, ?_, [], J, ?_, fun K hK => (List.not_mem_nil hK).elim, hrows⟩
      · rw [hdocuments]
        exact hlast _ _
      · rw [hstates]
        exact hlast _ _
      · rwa [hgenerations]
      · rw [hjobs, ingestionsOf_append, hnone, if_pos ⟨hrows.operation, hrows.target⟩]
  · intro K hK hop
    rw [hjobs] at hK
    rw [hversions]
    rcases List.mem_append.mp hK with hold | hnew
    · obtain ⟨w, hw, hid⟩ := h.target K hold hop
      exact ⟨w, List.mem_append_left _ hw, hid⟩
    · rw [List.mem_singleton.mp hnew]
      exact ⟨v, hlast _ _, hrows.target.symm⟩
  · intro t ht
    rw [hstates] at ht
    rw [hversions, hgenerations]
    rcases List.mem_append.mp ht with hold | hnew
    · obtain ⟨⟨w, hw, hid⟩, hgeneration⟩ := h.state t hold
      exact ⟨⟨w, List.mem_append_left _ hw, hid⟩, hgeneration⟩
    · obtain rfl := List.mem_singleton.mp hnew
      obtain ⟨hvid, hgid⟩ := Prod.mk.inj hrows.key
      exact ⟨⟨v, hlast _ _, hvid.symm⟩, g, hg, hgid.symm, hrows.on.built⟩
  · intro K hK
    rw [hjobs] at hK
    rcases List.mem_append.mp hK with hold | hnew
    · exact h.uncancelled K hold
    · rwa [List.mem_singleton.mp hnew]

/-- The versions of a knowledge base are purged with all that belongs to them. -/
theorem Ingestions.purge (hkeys : db.WellKeyed) (h : Ingestions digest crash db) (hon : JobsOnGenerations db)
    {knowledgeBaseId : ℕ} (hrows : deleteRows knowledgeBaseId db = .ok ((), db')) :
    Ingestions digest crash db' := by
  simp only [deleteRows, Except.ok.injEq, Prod.mk.injEq, true_and] at hrows
  subst hrows
  -- a version that is kept is one of a document that is kept
  have hkept {v : Version} (hv : v ∈ db.versions) {d : Document} (hd : d ∈ db.documents)
      (howner : v.documentId = d.id) :
      v.documentId ∉ (db.documents.filter (·.knowledgeBaseId = knowledgeBaseId)).map (·.id) ↔
        d.knowledgeBaseId ≠ knowledgeBaseId := by
    rw [howner, not_iff_not]
    simp only [List.mem_map, List.mem_filter, decide_eq_true_eq]
    constructor
    · rintro ⟨e, ⟨he, hkb⟩, hid⟩
      rwa [row_unique hkeys.documents hd he hid.symm]
    · intro hkb
      exact ⟨d, ⟨hd, hkb⟩, rfl⟩
  refine ⟨?_, ?_, ?_, ?_⟩
  · intro v hv
    obtain ⟨hv, hnot⟩ := List.mem_filter.mp hv
    obtain ⟨d, hd, st, hst, g, hg, older, J, hlist, holder, hing⟩ := h.ingested v hv
    have hkb := (hkept hv hd hing.owner).mp (by simpa using hnot)
    refine ⟨d, ?_, st, ?_, g, ?_, older, J, ?_, holder, hing⟩
    · exact List.mem_filter.mpr ⟨hd, by simpa using hkb⟩
    · refine List.mem_filter.mpr ⟨hst, ?_⟩
      obtain ⟨hvid, hgid⟩ := Prod.mk.inj hing.key
      simp only [decide_eq_true_eq, List.mem_map, List.mem_filter, not_exists, not_and, hvid, hgid]
      refine ⟨?_, ?_⟩
      · rintro w ⟨hw, hin⟩ heq
        rw [row_unique hkeys.versions hw hv heq] at hin
        simp [hin] at hnot
      · rintro g₀ ⟨hg₀, hgkb⟩ heq
        rw [row_unique hkeys.generations hg₀ hg heq, ← hing.knowledgeBase] at hgkb
        exact hkb hgkb
    · refine List.mem_filter.mpr ⟨hg, ?_⟩
      rw [← hing.knowledgeBase]
      simpa using hkb
    · rw [← hlist]
      unfold ingestionsOf
      rw [List.filter_filter]
      apply List.filter_congr
      intro K hK
      by_cases hp : (decide (K.operation = .ingestDocument) && decide (K.targetId = v.id)) = true
      · have hKkb := (h.ingested v hv).job_knowledgeBase hkeys hon (List.mem_filter.mpr ⟨hK, hp⟩) hd hing.owner
        rw [hp, hKkb]
        simpa using hkb
      · simp [hp]
  · intro K hK hop
    obtain ⟨hK, hKkb⟩ := List.mem_filter.mp hK
    obtain ⟨v, hv, hid⟩ := h.target K hK hop
    obtain ⟨d, hd, st, hst, g, hg, older, J, hlist, holder, hing⟩ := h.ingested v hv
    refine ⟨v, List.mem_filter.mpr ⟨hv, ?_⟩, hid⟩
    simp only [decide_eq_true_eq]
    apply (hkept hv hd hing.owner).mpr
    have hsame := (h.ingested v hv).job_knowledgeBase hkeys hon ((mem_ingestionsOf).mpr ⟨hK, hop, hid.symm⟩) hd
      hing.owner
    rw [hsame] at hKkb
    simpa using hKkb
  · intro st hst
    obtain ⟨hst, hnot⟩ := List.mem_filter.mp hst
    obtain ⟨⟨v, hv, hvid⟩, g, hg, hgid, hbuilt⟩ := h.state st hst
    simp only [decide_eq_true_eq, List.mem_map, List.mem_filter, not_exists, not_and] at hnot
    refine ⟨⟨v, List.mem_filter.mpr ⟨hv, ?_⟩, hvid⟩, g, List.mem_filter.mpr ⟨hg, ?_⟩, hgid, hbuilt⟩
    · by_contra hin
      exact hnot.1 v ⟨hv, by simpa [and_assoc] using hin⟩ hvid
    · by_contra hkb
      exact hnot.2 g ⟨hg, by simpa using hkb⟩ hgid
  · intro K hK
    exact h.uncancelled K (List.mem_of_mem_filter hK)

end Tables

/-! ## Every step -/

section Steps

variable {settings : Settings} {s s' : Sys} {op : Op} {digest : ChunkerDigest} {crash : Prop}

/-- Nothing asks for a job to be cancelled. -/
theorem JobOrigin.uncancelled {J' : Job} (h : JobOrigin settings s s' J')
    (hinv : ∀ J ∈ s.db.jobs, J.cancelRequestedAt = none) : J'.cancelRequestedAt = none := by
  cases h with
  | kept mem => exact hinv J' mem
  | written J mem keeps => exact keeps.cancelRequestedAt.trans (hinv J mem)
  | added fresh new => cases new <;> rfl

/-- The job of a version and its rows are written, its jobs before are kept. -/
theorem Ingestions.setJob {db db' : Db} {g : Generation} {d d' : Document} {v v' : Version}
    {st st' : IndexState} {J J' : Job} {older : List Job} (hkeys : db.WellKeyed)
    (hpairing : Pairing db.documents db.versions) (h : Ingestions digest crash db) (hd : d ∈ db.documents)
    (hv : v ∈ db.versions) (hst : st ∈ db.indexStates) (hg : g ∈ db.generations)
    (hold : Ingesting digest crash g d v st J) (hrows : Ingesting digest crash g d' v' st' J')
    (hlist : ingestionsOf db.jobs v.id = older ++ [J]) (holder : ∀ K ∈ older, Superseded g K)
    (hdocuments : db'.documents = setRow (·.id) d' db.documents) (hdid : d'.id = d.id)
    (hversions : db'.versions = setRow (·.id) v' db.versions) (hvid : v'.id = v.id)
    (hstates : db'.indexStates = setRow IndexState.key st' db.indexStates)
    (hgenerations : db'.generations = db.generations) (hjobs : db'.jobs = setRow (·.id) J' db.jobs)
    (keeps : J.Keeps J') (uncancelled : ∀ K ∈ db'.jobs, K.cancelRequestedAt = none) :
    Ingestions digest crash db' := by
  have hJ : J ∈ db.jobs := by
    have hmem : J ∈ ingestionsOf db.jobs v.id := by
      rw [hlist]
      exact List.mem_append_right _ List.mem_cons_self
    exact ((mem_ingestionsOf).mp hmem).1
  refine h.write hpairing hd hv hst hg hold.owner hold.key hdocuments hdid hversions hvid hstates ?_ hgenerations
    ?_ ?_ holder hrows ?_ uncancelled
  · rw [hrows.key, hold.key, hvid]
  · intro w hne
    rw [hjobs]
    apply ingestionsOf_setRow_of_ne hkeys.jobs hJ keeps.id keeps.operation keeps.targetId
    intro _ heq
    exact hne (by rw [← heq, hold.target])
  · rw [hjobs]
    exact ingestionsOf_setRow_last hkeys.jobs keeps.id keeps.operation keeps.targetId hlist
  · intro K hK hop
    rw [hjobs] at hK
    rcases mem_setRow hK with rfl | ⟨hmem, -⟩
    · exact ⟨v, hv, by rw [hrows.target, hvid]⟩
    · exact h.target K hmem hop

theorem Indexing.SagaWrite.knowledgeBase_ids {identities : GenerationIdentities} {delayed : Bool} {db : Db}
    (h : SagaWrite identities s.reservations s.Fresh s.db delayed db) :
    db.knowledgeBases.map (·.id) = s.db.knowledgeBases.map (·.id) := by
  cases h with
  | reserved => exact map_setRow _ _ _
  | refused => exact map_setRow _ _ _
  | abandoned => exact map_setRow _ _ _
  | activated => exact map_setRow _ _ _

theorem liveVersions_subset {db : Db} {knowledgeBaseId : ℕ} {v : Version}
    (h : v ∈ liveVersions db knowledgeBaseId) : v ∈ db.versions := by
  unfold liveVersions at h
  obtain ⟨d, -, hrow⟩ := List.mem_filterMap.mp h
  simp only [Option.bind_eq_bind, Option.bind_eq_some_iff] at hrow
  obtain ⟨id, -, w, hw, hrow⟩ := hrow
  split at hrow
  · rw [← Option.some.inj hrow]
    exact (mem_of_find? hw).1
  · cases hrow

/-- **A step of a saga** only adds states of versions that are there, and a rebuild. -/
theorem Ingestions.saga (hbase : Base s) (hinv : GenInv s.db s.reservations)
    (h : Ingestions digest crash s.db) {delayed : Bool} {db : Db} {reservations : List Reservation}
    (heffect : Effect settings s op { s with db := db, reservations := s.reservations ++ reservations })
    (write : SagaWrite settings.identities s.reservations s.Fresh s.db delayed db) :
    Ingestions digest crash db := by
  have hgenerations : ∀ g ∈ s.db.generations, g.status ≠ .building →
      ∃ g' ∈ db.generations, g.Keeps g' ∧ g'.status ≠ .building := by
    intro g hg hbuilt
    rcases heffect.generation_persists hbase hinv hg with ⟨g', hg', keeps, moved⟩ | hgone
    · exact ⟨g', hg', keeps, moved.built hbuilt⟩
    · have howner := hinv.owner g hg
      rw [← write.knowledgeBase_ids] at howner
      obtain ⟨k, hk, hid⟩ := List.mem_map.mp howner
      exact absurd hid (hgone.1 k hk)
  have huncancelled : ∀ K ∈ db.jobs, K.cancelRequestedAt = none :=
    fun K hK => (heffect.jobs hK).uncancelled h.uncancelled
  cases write with
  | reserved =>
      exact h.frame rfl rfl (fun _ hst => hst) (fun _ hst => .inl hst) hgenerations (fun _ => rfl) huncancelled
  | refused =>
      exact h.frame rfl rfl (fun _ hst => hst) (fun _ hst => .inl hst) hgenerations (fun _ => rfl) huncancelled
  | abandoned =>
      exact h.frame rfl rfl (fun _ hst => hst) (fun _ hst => .inl hst) hgenerations (fun _ => rfl) huncancelled
  | activated _ knowledgeBase generation request reservation jobId jobs rows reserved generationId claim state
      status active pending mutation queued =>
      refine h.frame rfl rfl ?_ ?_ hgenerations ?_ huncancelled
      · intro st hst
        simp only [promoted, enrolled]
        split
        · exact subset_insertMissing hst
        · exact hst
      · intro st hst
        simp only [promoted, enrolled] at hst
        split at hst
        · rcases mem_insertMissing hst with hold | hnew
          · exact .inl hold
          · obtain ⟨v, hv, rfl⟩ := List.mem_map.mp hnew
            refine .inr ⟨⟨v, liveVersions_subset (List.mem_of_mem_filter hv), rfl⟩, _,
              promoted_generation hbase hinv rows, rfl, ?_⟩
            simp [activatedGeneration]
        · exact .inl hst
      · intro w
        rcases queued with rfl | ⟨-, rfl, -⟩
        · simp [promoted]
        · apply ingestionsOf_append_of_ne
          intro hop
          cases hop

/-- **A manual retry** of an ingestion puts the rows back and appends the new job. -/
theorem Ingestions.retry (hbase : Base s) (hpairing : Pairing s.db.documents s.db.versions)
    (hon : JobsOnGenerations s.db) (h : Ingestions settings.digest crash s.db)
    {snapshot : ManualRetrySnapshot} {source : Job}
    {knowledgeBase : KnowledgeBase} {generation : Generation} {document : Document} {version : Version}
    {state : IndexState} {versionStatus : VersionStatus} {stateStatus : IndexStatus} {jobId actorId : ℕ}
    {key : Str} (operation : source.operation = .ingestDocument)
    (hsource : RetrySource s.db snapshot source knowledgeBase generation)
    (rows : RetriedRows settings.digest.configHash s.db snapshot generation document version state
      versionStatus stateStatus) :
    Ingestions settings.digest crash (retried document version state versionStatus stateStatus
      (childJob source jobId actorId key) s.db) := by
  have hkeys := hbase.keys
  have hsnapshot := manualRetryFence_iff hsource.fence
  have htarget : source.targetId = version.id :=
    (congrArg ManualRetrySnapshot.targetId hsnapshot).trans rows.versionId.symm
  obtain ⟨d, hd, st, hst, g, hg, older, J, hlist, holder, hing⟩ := h.ingested version rows.version_mem
  obtain ⟨hfailed, -, -⟩ := hing.standing.of_failed rows.versionFailed
  -- the source is one of the jobs of the version, so the rows are those of the version
  have hpast : ∀ K ∈ older ++ [J], Superseded g K := by
    intro K hK
    rcases List.mem_append.mp hK with hold | hlast
    · exact holder K hold
    · rw [List.mem_singleton.mp hlast]
      exact hing.superseded hfailed
  have hpaststatus : Superseded g source := by
    apply hpast
    rw [← hlist]
    exact (mem_ingestionsOf).mpr ⟨hsource.mem, operation, htarget⟩
  obtain rfl : g = generation :=
    row_unique hkeys.generations hg hsource.generation_mem
      (Option.some.inj (hpaststatus.generation.symm.trans hsource.generationId))
  obtain rfl : d = document := row_unique hkeys.documents hd rows.document_mem (hing.owner.symm.trans rows.owner)
  obtain rfl : st = state := row_unique hkeys.indexStates hst rows.state_mem (hing.key.trans rows.key.symm)
  have hresumes := resumes_of_resumable rows.resumable
  have hcolumns : snapshot.stage = source.stage ∧ snapshot.resumeStage = source.resumeStage ∧
      snapshot.progressCurrent = source.progressCurrent ∧ snapshot.progressTotal = source.progressTotal :=
    ⟨(congrArg ManualRetrySnapshot.stage hsnapshot).symm,
      (congrArg ManualRetrySnapshot.resumeStage hsnapshot).symm,
      (congrArg ManualRetrySnapshot.progressCurrent hsnapshot).symm,
      (congrArg ManualRetrySnapshot.progressTotal hsnapshot).symm⟩
  obtain ⟨hstage, hresume, hcurrent, htotal⟩ := hcolumns
  have hat : AtStage settings.digest g d version st (childJob source jobId actorId key) := by
    refine hing.atStage.resume hresumes ?_ hstage.symm hresume.symm hcurrent.symm htotal.symm
    rw [hstage, hcurrent, htotal]
    exact hpaststatus.below
  have hsourceon : OnGeneration source g := by
    obtain ⟨g₀, hg₀, hon⟩ := hon source hsource.mem (.inl operation)
    rwa [row_unique hkeys.generations hg hg₀
      (Option.some.inj (hpaststatus.generation.symm.trans hon.generation))]
  have hrows : Ingesting settings.digest crash g { d with status := .processing }
      { version with status := versionStatus }
      { st with status := stateStatus, errorCode := none, safeErrorMessage := none }
      (childJob source jobId actorId key) := by
    refine ⟨operation, htarget, hsourceon.keeps .rfl hing.on.built rfl rfl rfl rfl rfl, hing.owner,
      hing.knowledgeBase, hing.key, ?_, ?_⟩
    · apply hat.of_statuses
      · exact ⟨rfl, rfl⟩
      · rfl
      · rfl
    · refine .running rfl rfl ?_ ⟨rfl, rfl⟩
      have hinFlight := hresumes.inFlight
      rwa [hstage] at hinFlight
  have hjobs (w : ℕ) : ingestionsOf (s.db.jobs ++ [childJob source jobId actorId key]) w
      = ingestionsOf s.db.jobs w ++ if version.id = w then [childJob source jobId actorId key] else [] := by
    rw [ingestionsOf_append]
    simp [childJob, Job.queued, operation, htarget]
  refine h.write hpairing hd rows.version_mem hst hg hing.owner hing.key rfl rfl rfl rfl rfl rfl rfl ?_ ?_ hpast
    hrows ?_ ?_
  · intro w hne
    exact (hjobs w).trans (by rw [if_neg (fun heq => hne heq.symm), List.append_nil])
  · exact (hjobs version.id).trans (by rw [if_pos rfl, hlist])
  · intro K hK hop
    rcases List.mem_append.mp hK with hold | hnew
    · exact h.target K hold hop
    · rw [List.mem_singleton.mp hnew]
      exact ⟨version, rows.version_mem, htarget.symm⟩
  · intro K hK
    rcases List.mem_append.mp hK with hold | hnew
    · exact h.uncancelled K hold
    · rw [List.mem_singleton.mp hnew]
      rfl

/-- **A write to a job** that is no ingestion, or to the last job of a version. -/
theorem Ingestions.job (hbase : Base s) (hpairing : Pairing s.db.documents s.db.versions)
    (h : Ingestions digest crash s.db) (hcrash : Crash crash op) {J J' : Job} {leases : List JobLease}
    (hJ : J ∈ s.db.jobs) (write : JobWrite settings s J op J' leases)
    (uncancelled : ∀ K ∈ (s.db.setJob J').jobs, K.cancelRequestedAt = none) :
    Ingestions digest crash (s.db.setJob J') := by
  have hkeys := hbase.keys
  have keeps := write.keeps
  by_cases hop : J.operation = .ingestDocument
  · obtain ⟨v, hv, hid⟩ := h.target J hJ hop
    have hstatus : J.status ≠ .failed := by
      intro hfailed
      have hactive := keeps.active
      rw [hfailed] at hactive
      cases hactive
    obtain ⟨d, hd, st, hst, g, hg, older, hlist, holder, hing⟩ := (h.ingested v hv).last hJ hop hid.symm hstatus
    exact h.setJob hkeys hpairing hd hv hst hg hing (hing.job hbase hJ (h.uncancelled J hJ) hcrash write) hlist
      holder (setRow_self hkeys.documents hd).symm rfl (setRow_self hkeys.versions hv).symm rfl
      (setRow_self hkeys.indexStates hst).symm rfl rfl keeps uncancelled
  · refine h.frame rfl rfl (fun _ hst => hst) (fun _ hst => .inl hst) (fun g hg hbuilt => ⟨g, hg, .rfl, hbuilt⟩)
      ?_ uncancelled
    intro w
    exact ingestionsOf_setRow_of_ne hkeys.jobs hJ keeps.id keeps.operation keeps.targetId
      fun heq => absurd heq hop

/-- **A step keeps the ingestions.** -/
theorem Ingestions.step (hbase : Base s) (hinv : GenInv s.db s.reservations) (hon : JobsOnGenerations s.db)
    (hpairing : Pairing s.db.documents s.db.versions) (h : Ingestions settings.digest crash s.db)
    (hcrash : Crash crash op) (heffect : Effect settings s op s') : Ingestions settings.digest crash s'.db := by
  have hkeys := hbase.keys
  have huncancelled : ∀ K ∈ s'.db.jobs, K.cancelRequestedAt = none :=
    fun K hK => (heffect.jobs hK).uncancelled h.uncancelled
  have hsame {db' : Db} (hversions : db'.versions = s.db.versions) (hdocuments : db'.documents = s.db.documents)
      (hstates : db'.indexStates = s.db.indexStates) (hgenerations : db'.generations = s.db.generations)
      (hjobs : ∀ w, ingestionsOf db'.jobs w = ingestionsOf s.db.jobs w)
      (hcancel : ∀ K ∈ db'.jobs, K.cancelRequestedAt = none) : Ingestions settings.digest crash db' := by
    refine h.frame hversions hdocuments (fun _ hst => hstates ▸ hst) (fun _ hst => .inl (hstates ▸ hst)) ?_ hjobs
      hcancel
    intro g hg hbuilt
    exact ⟨g, hgenerations ▸ hg, .rfl, hbuilt⟩
  have hactive {J : Job} (hstatus : J.status.isActive = true) : J.status ≠ .failed := by
    intro hfailed
    rw [hfailed] at hstatus
    cases hstatus
  cases heffect with
  | idle => exact h
  | tick => exact hsame rfl rfl rfl rfl (fun _ => rfl) huncancelled
  | job _ job after leases mem write => exact h.job hbase hpairing hcrash mem write huncancelled
  | stage _ lease graph job after version state leases held commit issued =>
      obtain ⟨hfence, -⟩ := stageFence_iff.mp commit.fence
      have hrunning := (fence_iff.mp hfence).2.1
      have hleased := hbase.leases lease held job commit.job_mem (fence_id job hfence)
      obtain ⟨older, hlist, holder, hing⟩ := (h.ingested graph.version commit.graph_in.version).find hkeys
        commit.job_mem (hleased.operation.symm.trans commit.operation)
        (hleased.targetId.symm.trans commit.targetId) (hactive (running_active hrunning))
        commit.graph_in.document commit.ready.2.2.2.2.2.2.2.2 commit.graph_in.generation
        (hleased.indexGenerationId.symm.trans commit.generation) commit.graph_in.state commit.graph_in.key
      have hing' := hing.stage commit.ready.2.2.2.2.1 hrunning commit.write
      have hvid := commit.write.version.1.id
      refine h.setJob hkeys hpairing commit.graph_in.document commit.graph_in.version commit.graph_in.state
        commit.graph_in.generation hing hing' hlist holder (setRow_self hkeys.documents commit.graph_in.document).symm
        rfl rfl hvid rfl rfl rfl (commit.write.keeps hrunning) huncancelled
  | failed _ graph job retryable code message failure operation =>
      obtain ⟨older, hlist, holder, hing⟩ := (h.ingested graph.version failure.graph_in.version).find hkeys
        failure.job_mem operation failure.targetId (hactive failure.active) failure.graph_in.document
        failure.document.symm failure.graph_in.generation failure.generation failure.graph_in.state
        failure.graph_in.key
      have hpaired := hpairing.paired hkeys.documents failure.graph_in.document failure.graph_in.version
        failure.document.symm
      exact h.setJob hkeys hpairing failure.graph_in.document failure.graph_in.version failure.graph_in.state
        failure.graph_in.generation hing (hing.fail hpaired failure.active failure.knowledgeBase) hlist holder rfl
        (failedDocument_columns graph).1 rfl (failedVersion_id graph) rfl rfl rfl
        (failedValues_keeps failure.active) huncancelled
  | activated lease expected graph job mutationId held fresh activation =>
      obtain ⟨older, hlist, holder, hing⟩ := (h.ingested graph.version activation.graph_in.version).find hkeys
        activation.job_mem activation.operation activation.targetId (hactive (fence_active activation.fence))
        activation.graph_in.document activation.document activation.graph_in.generation activation.generation
        activation.graph_in.state activation.graph_in.key
      exact h.setJob hkeys hpairing activation.graph_in.document activation.graph_in.version
        activation.graph_in.state activation.graph_in.generation hing (hing.activate activation) hlist holder rfl rfl
        rfl rfl (setRow_self hkeys.indexStates activation.graph_in.state).symm rfl rfl
        (finishedValues_keeps (fence_active activation.fence)) huncancelled
  | uploaded request documentId versionId jobId mutationId checks knowledgeBase generation fresh creates =>
      exact h.upload rfl rfl rfl rfl rfl creates.generation_mem (ingesting_upload hinv hkeys creates)
        (fun w hw => (fresh.2.1.version hw).1) rfl
  | retried _ jobId db fresh write =>
      cases write with
      | ingestion snapshot source knowledgeBase generation document version state versionStatus stateStatus
          actorApiKeyId idempotencyKey operation hsource rows =>
          exact h.retry hbase hpairing hon operation hsource rows
      | rebuild snapshot source knowledgeBase generation actorApiKeyId idempotencyKey operation =>
          refine hsame rfl rfl rfl rfl (fun w => ingestionsOf_append_of_ne ?_) huncancelled
          intro hop
          rw [show (childJob source jobId actorApiKeyId idempotencyKey).operation = .rebuildGeneration
            from operation] at hop
          cases hop
  | repaired =>
      refine hsame rfl rfl rfl rfl (fun w => ingestionsOf_append_of_ne ?_) huncancelled
      intro hop
      cases hop
  | saga _ delayed db reservations of_delayed write backed free =>
      rcases write with rfl | write
      · exact h
      · exact h.saga hbase hinv (.saga _ delayed db reservations of_delayed (.inr write) backed free) write
  | claims => exact hsame rfl rfl rfl rfl (fun _ => rfl) huncancelled
  | created => exact hsame rfl rfl rfl rfl (fun _ => rfl) huncancelled
  | updated => exact hsame rfl rfl rfl rfl (fun _ => rfl) huncancelled
  | schemaReplaced => exact hsame rfl rfl rfl rfl (fun _ => rfl) huncancelled
  | deleted =>
      refine hsame rfl rfl rfl rfl (fun w => ingestionsOf_append_of_ne ?_) huncancelled
      intro hop
      cases hop
  | purged _ lease db held purge knowledgeBase mem target deleting rows => exact h.purge hkeys hon rows
  | purgeReturned => exact h

end Steps

/-! ## Runs -/

/-- The invariants of the generations, the jobs, the documents and the ingestions together. -/
structure IngestionInv (settings : Settings) (crash : Prop) (s : Sys) : Prop where
  generations : GenInv s.db s.reservations
  jobs : JobsOnGenerations s.db
  pairing : Pairing s.db.documents s.db.versions
  ingestions : Ingestions settings.digest crash s.db

section Runs

variable {settings : Settings} {s s' : Sys} {op : Op} {crash : Prop}

theorem ingestionInv_init : IngestionInv settings crash Sys.init := by
  refine ⟨genInv_init, ?_, pairing_init, ?_⟩
  · intro J hJ
    cases hJ
  · refine ⟨?_, ?_, ?_, ?_⟩
    · intro v hv
      cases hv
    · intro J hJ
      cases hJ
    · intro st hst
      cases hst
    · intro J hJ
      cases hJ

theorem IngestionInv.step (hbase : Base s) (h : IngestionInv settings crash s) (hcrash : Crash crash op)
    (heffect : Effect settings s op s') : IngestionInv settings crash s' where
  generations := h.generations.step hbase heffect
  jobs := h.jobs.step hbase h.generations heffect
  pairing := h.pairing.step hbase heffect
  ingestions := h.ingestions.step hbase h.generations h.jobs h.pairing hcrash heffect

/-- Every reachable state ingests its versions; a job may have crashed. -/
theorem ingestionInv_of_reachable (h : Reachable settings s) : Base s ∧ IngestionInv settings True s :=
  h.induction_on (IngestionInv settings True) ingestionInv_init
    fun hbase hinv heffect => hinv.step hbase (fun _ _ _ => trivial) heffect

end Runs

end VeloxRag
