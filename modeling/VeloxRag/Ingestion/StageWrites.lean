import VeloxRag.Ingestion.Pipeline
import VeloxRag.Jobs.FencedWrites

/-!
# What the stages of an ingestion write

Every commit of a stage replaces a version, its state and its job, and nothing else.  What it
compares with the rows it had loaded only matters through the rows it finds, so the commits are
described here by the rows alone.

## Main definitions

* `StageGraph.In` — the five rows of a graph are rows of the database.
* `StageWrite` — the version, the state and the job before and after a commit, one constructor for
  each stage.
* `StageCommit` — a commit under a lease.
* `commitStarted_eq_ok` … `commitValidated_eq_ok` — every commit is one.
* `TerminalFailure`, `Activation` — the two ends of a job.
-/

namespace VeloxRag.Ingestion

open Lib Jobs

/-! ## Graphs -/

/-- The rows of a graph are in the database, and the state is the one of the version in the
generation. -/
structure StageGraph.In (graph : StageGraph) (db : Db) : Prop where
  knowledgeBase : graph.knowledgeBase ∈ db.knowledgeBases
  generation : graph.generation ∈ db.generations
  document : graph.document ∈ db.documents
  version : graph.version ∈ db.versions
  state : graph.state ∈ db.indexStates
  key : graph.state.key = (graph.version.id, graph.generation.id)

/-- The rows found under five keys. -/
theorem StageGraph.in_of_find {db : Db} {k g d v : ℕ} {graph : StageGraph}
    (hk : db.knowledgeBase? k = some graph.knowledgeBase) (hg : db.generation? g = some graph.generation)
    (hd : db.document? d = some graph.document) (hv : db.version? v = some graph.version)
    (hs : db.indexState? (v, g) = some graph.state) :
    graph.In db ∧ graph.knowledgeBase.id = k ∧ graph.generation.id = g ∧ graph.document.id = d ∧
      graph.version.id = v := by
  obtain ⟨kmem, rfl⟩ := mem_of_find? hk
  obtain ⟨gmem, rfl⟩ := mem_of_find? hg
  obtain ⟨dmem, rfl⟩ := mem_of_find? hd
  obtain ⟨vmem, rfl⟩ := mem_of_find? hv
  obtain ⟨smem, hkey⟩ := mem_of_find? hs
  exact ⟨⟨kmem, gmem, dmem, vmem, smem, hkey⟩, rfl, rfl, rfl, rfl⟩

theorem lockStageGraph_eq_ok {db : Db} {k g d v : ℕ} {graph : StageGraph}
    (h : lockStageGraph db k g d v = .ok graph) :
    graph.In db ∧ graph.Ready ∧ graph.knowledgeBase.id = k ∧ graph.generation.id = g ∧
      graph.document.id = d ∧ graph.version.id = v := by
  unfold lockStageGraph at h
  split at h
  · rename_i knowledgeBase generation document version state hk hg hd hv hs
    dsimp only at h
    split at h
    · rename_i hready
      obtain rfl := Except.ok.inj h
      let graph : StageGraph := ⟨knowledgeBase, generation, document, version, state⟩
      have hfound : graph.In db ∧ _ := StageGraph.in_of_find hk hg hd hv hs
      exact ⟨hfound.1, hready, hfound.2⟩
    · cases h
  · cases h

/-! ## Stage commits -/

/-- The manifest of a version, with its checksum and the number of its chunks, and the state that
was prepared for it. -/
structure Manifested (graph : StageGraph) (checksum : Str) (count : ℕ) : Prop where
  documentChecksum : graph.document.checksum = some graph.version.source.checksum
  configHash : graph.generation.embeddingConfigHash = some graph.generation.indexProfileHash
  chunkCount : graph.version.chunkCount = some count
  expected : graph.state.expectedPointCount = some count
  versionChecksum : graph.version.chunkManifestChecksum = some checksum
  stateChecksum : graph.state.chunkManifestChecksum = some checksum

/-- **The commits of the stages**: from the rows of a graph and the job to the version, the state
and the job after. -/
inductive StageWrite (digest : ChunkerDigest) (defaults : ℤ × ℤ) (now : ℕ) (graph : StageGraph)
    (job : Job) : Version → IndexState → Job → Prop
  | started (stage : job.stage = some .parse)
      (status : graph.version.status = .uploaded ∨ graph.version.status = .parsing)
      (key : graph.version.parsedObjectKey = none)
      (checksum : graph.version.parsedObjectChecksum = none) :
      StageWrite digest defaults now graph job { graph.version with status := .parsing } graph.state job
  | parsed (parsedChecksum : Str) (stage : job.stage = some .parse)
      (status : graph.version.status = .parsing)
      (source : graph.document.checksum = some graph.version.source.checksum)
      (parser : graph.version.source.extension.bind Jobs.parserForExtension = some graph.version.parser) :
      StageWrite digest defaults now graph job
        { graph.version with
          parsedObjectKey := some (parsedTextObjectKey graph.knowledgeBase.id graph.document.id
            graph.version.id)
          parsedObjectChecksum := some parsedChecksum
          status := .chunking }
        graph.state (checkpointValues (some .chunk) (some .chunk) 0 none job)
  | chunked (manifestChecksum : Str) (count : ℕ) (sizes : ℤ × ℤ) (stage : job.stage = some .chunk)
      (status : graph.version.status = .chunking)
      (chunker : chunkerFor defaults graph.version.chunker = some sizes)
      (untouched : stateUntouched graph.state = true) (positive : 1 ≤ count) :
      StageWrite digest defaults now graph job
        { graph.version with
          chunkManifestObjectKey := some (chunksObjectKey graph.knowledgeBase.id graph.document.id
            graph.version.id)
          chunkManifestChecksum := some manifestChecksum
          chunkConfigHash := some (digest (recursiveChunker sizes))
          chunker := recursiveChunker sizes
          chunkCount := some count
          status := .embedding }
        { graph.state with
          status := .embedding
          expectedPointCount := some count
          chunkManifestChecksum := some manifestChecksum
          nextChunkIndex := 0 }
        (checkpointValues (some .embedIndex) (some .embedIndex) 0 (some count) job)
  | embedded (checksum : Str) (count next : ℕ) (stage : job.stage = some .embedIndex)
      (manifested : Manifested graph checksum count)
      (forward : graph.state.nextChunkIndex < next ∨ next = count) (bound : next ≤ count)
      (from_le : graph.state.nextChunkIndex ≤ next) :
      StageWrite digest defaults now graph job { graph.version with status := .indexing }
        { graph.state with
          status := .indexing
          embeddingConfigHash := graph.generation.embeddingConfigHash
          nextChunkIndex := next }
        (if next = count then
          checkpointValues (some .validate) (some .validate) count (some count) job
        else progressValues next (some count) job)
  | counted (checksum : Str) (count actual : ℕ) (stage : job.stage = some .validate)
      (manifested : Manifested graph checksum count)
      (statuses : graph.version.status = .indexing ∧ graph.state.status = .indexing)
      (before : graph.state.actualPointCount = none ∨ graph.state.actualPointCount = some actual) :
      StageWrite digest defaults now graph job graph.version
        { graph.state with actualPointCount := some actual } job
  | validated (checksum : Str) (count : ℕ) (stage : job.stage = some .validate)
      (manifested : Manifested graph checksum count)
      (statuses : graph.version.status = .indexing ∧ graph.state.status = .indexing)
      (configHash : graph.state.embeddingConfigHash = graph.generation.embeddingConfigHash)
      (next : graph.state.nextChunkIndex = count)
      (errors : graph.state.errorCode = none ∧ graph.state.safeErrorMessage = none)
      (actual : graph.state.actualPointCount = some count) :
      StageWrite digest defaults now graph job graph.version
        { graph.state with status := .validated, validatedAt := some now }
        (checkpointValues (some .activate) (some .activate) count (some count) job)

/-- The tables that a stage commit writes. -/
def writeStage (version : Version) (state : IndexState) (job : Job) (db : Db) : Db :=
  { db with
    versions := setRow (·.id) version db.versions
    indexStates := setRow IndexState.key state db.indexStates
    jobs := setRow (·.id) job db.jobs }

/-- A commit of a stage under a lease. -/
structure StageCommit (digest : ChunkerDigest) (defaults : ℤ × ℤ) (db : Db) (lease : JobLease)
    (graph : StageGraph) (job : Job) (version : Version) (state : IndexState) (after : Job) : Prop where
  job_mem : job ∈ db.jobs
  fence : stageFence db.now lease job = true
  graph_in : graph.In db
  ready : graph.Ready
  operation : lease.operation = .ingestDocument
  targetType : lease.targetType = .documentVersion
  targetId : lease.targetId = graph.version.id
  generation : lease.indexGenerationId = some graph.generation.id
  write : StageWrite digest defaults db.now graph job version state after

theorem stageLease_iff {lease : JobLease} {stage : Stage} {versionId generationId : ℕ} :
    stageLease lease stage versionId generationId = true ↔ lease.operation = .ingestDocument ∧
      lease.targetType = .documentVersion ∧ lease.stage = some stage ∧ lease.targetId = versionId ∧
      lease.indexGenerationId = some generationId := by
  simp only [stageLease, Bool.and_eq_true, decide_eq_true_eq]
  tauto

section Commits

variable {digest : ChunkerDigest} {defaults : ℤ × ℤ} {db db' : Db} {lease : JobLease} {job : Job}

/-- What a stage commit needs of its action: the action replaces the version and the state of a ready
graph, as the stage writes them. -/
def ActionWrites {α : Type} (digest : ChunkerDigest) (defaults : ℤ × ℤ) (db : Db) (action : Tx α)
    (stage : Stage) (versionId generationId : ℕ) (values : Job → Job) : Prop :=
  ∀ r db₁, action db = .ok (r, db₁) → ∃ graph version state, graph.In db ∧ graph.Ready ∧
    graph.version.id = versionId ∧ graph.generation.id = generationId ∧
    db₁ = { db with
      versions := setRow (·.id) version db.versions
      indexStates := setRow IndexState.key state db.indexStates } ∧
    ∀ J : Job, J.stage = some stage →
      StageWrite digest defaults db.now graph J version state (values J)

/-- A stage commit with such an action. -/
theorem stageCommit_of_actionWrites {α : Type} {action : Tx α} {values : Job → Job} {stage : Stage}
    {versionId generationId : ℕ} (hkeys : db.WellKeyed)
    (hlease : stageLease lease stage versionId generationId = true)
    (h : stageCommit lease action values db = .ok (job, db'))
    (hvalues : ∀ j, (values j).id = j.id)
    (haction : ActionWrites digest defaults db action stage versionId generationId values) :
    ∃ J graph version state, StageCommit digest defaults db lease graph J version state job ∧
      db' = writeStage version state job db := by
  obtain ⟨hop, htype, hstage, htarget, hgen⟩ := stageLease_iff.mp hlease
  have hkeeps : ∀ r db₁, action db = .ok (r, db₁) → db₁.jobs = db.jobs ∧ db₁.now = db.now := by
    intro r db₁ hr
    obtain ⟨_, _, _, -, -, -, -, rfl, -⟩ := haction r db₁ hr
    exact ⟨rfl, rfl⟩
  obtain ⟨J, hJ, hfence, rfl, r, db₁, hact, rfl⟩ := stageCommit_eq_ok hkeys.jobs h hvalues hkeeps
  obtain ⟨graph, version, state, hin, hready, hvid, hgid, rfl, hwrite⟩ := haction r db₁ hact
  have hJstage : J.stage = some stage := (stageFence_iff.mp hfence).2.trans hstage
  exact ⟨J, graph, version, state, ⟨hJ, hfence, hin, hready, hop, htype, by rw [htarget, hvid],
    by rw [hgen, hgid], hwrite J hJstage⟩, rfl⟩

theorem commitStarted_eq_ok {expected : ParseStageInput} (hkeys : db.WellKeyed)
    (h : commitStarted lease expected db = .ok (job, db')) :
    ∃ J graph version state, StageCommit digest defaults db lease graph J version state job ∧
      db' = writeStage version state job db := by
  unfold commitStarted at h
  split at h
  · rename_i hlease
    refine stageCommit_of_actionWrites hkeys hlease.1 h (fun _ => rfl) ?_
    intro r db₁ hact
    obtain ⟨graph, hlock, hact⟩ := bind_eq_ok.mp hact
    obtain ⟨hin, hready, -, hgid, -, hvid⟩ := lockStageGraph_eq_ok hlock
    split at hact
    · rename_i hcond
      cases hact
      refine ⟨graph, { graph.version with status := .parsing }, graph.state, hin, hready, hvid, hgid,
        ?_, ?_⟩
      · rw [setRow_self hkeys.indexStates hin.state]
      · intro J hJ
        exact .started hJ hcond.2.1 hcond.2.2.1 hcond.2.2.2
    · cases hact
  · cases h

theorem commitParsed_eq_ok {expected : ParseStageInput} {parsedChecksum : Str} (hkeys : db.WellKeyed)
    (h : commitParsed lease expected parsedChecksum db = .ok (job, db')) :
    ∃ J graph version state, StageCommit digest defaults db lease graph J version state job ∧
      db' = writeStage version state job db := by
  unfold commitParsed at h
  split at h
  · rename_i hlease
    refine stageCommit_of_actionWrites hkeys hlease.1 (stageCommit_of_advanceStage h) (fun _ => rfl) ?_
    intro r db₁ hact
    obtain ⟨graph, hlock, hact⟩ := bind_eq_ok.mp hact
    obtain ⟨hin, hready, hkid, hgid, hdid, hvid⟩ := lockStageGraph_eq_ok hlock
    dsimp only at hact
    split at hact
    · rename_i hcond
      obtain ⟨hunchanged, hparsing, hstatus, -⟩ := hcond
      simp only [parseUnchanged, Bool.and_eq_true, decide_eq_true_eq] at hunchanged
      obtain ⟨⟨⟨⟨hdoc, -⟩, hchecksum⟩, hext⟩, hparser⟩ := hunchanged
      cases hact
      refine ⟨graph, { graph.version with
        parsedObjectKey := some (parsedTextObjectKey graph.knowledgeBase.id graph.document.id
          graph.version.id)
        parsedObjectChecksum := some parsedChecksum
        status := .chunking }, graph.state, hin, hready, hvid, hgid, ?_, ?_⟩
      · rw [setRow_self hkeys.indexStates hin.state, ← hkid, ← hdid, ← hvid, ← hparser]
      · intro J hJ
        refine .parsed parsedChecksum hJ (hstatus.trans hparsing) (by rw [hdoc, hchecksum]) ?_
        rw [hext, hparser]
        exact hlease.2
    · cases hact
  · cases h

theorem commitChunked_eq_ok {expected : ChunkStageInput} {manifestChecksum : Str} {count : ℕ}
    (hkeys : db.WellKeyed)
    (h : commitChunked digest defaults lease expected manifestChecksum count db = .ok (job, db')) :
    ∃ J graph version state, StageCommit digest defaults db lease graph J version state job ∧
      db' = writeStage version state job db := by
  unfold commitChunked at h
  split at h
  · cases h
  · rename_i sizes hsizes
    split at h
    · rename_i hlease
      refine stageCommit_of_actionWrites hkeys hlease.1 (stageCommit_of_advanceStage h) (fun _ => rfl) ?_
      intro r db₁ hact
      obtain ⟨graph, hlock, hact⟩ := bind_eq_ok.mp hact
      obtain ⟨hin, hready, hkid, hgid, hdid, hvid⟩ := lockStageGraph_eq_ok hlock
      dsimp only at hact
      split at hact
      · rename_i hcond
        obtain ⟨hunchanged, -, huntouched, hpositive⟩ := hcond
        simp only [chunkUnchanged, Bool.and_eq_true, decide_eq_true_eq] at hunchanged
        obtain ⟨⟨-, hchunker⟩, hstatus⟩ := hunchanged
        rw [← hchunker] at hsizes
        cases hact
        refine ⟨graph, _, _, hin, hready, hvid, hgid, rfl, ?_⟩
        intro J hJ
        rw [← hkid, ← hdid, ← hvid]
        exact .chunked manifestChecksum count sizes hJ hstatus hsizes huntouched hpositive
      · cases hact
    · cases h

/-- The checks that every commit after the chunk stage makes, in terms of the rows. -/
theorem embedUnchanged_manifested {expected : EmbedIndexStageInput} {graph : StageGraph}
    (h : embedUnchanged expected graph = true) :
    Manifested graph expected.manifestChecksum expected.chunkCount ∧
      graph.generation.embeddingConfigHash = some expected.embeddingConfigHash := by
  simp only [embedUnchanged, Bool.and_eq_true, decide_eq_true_eq] at h
  obtain ⟨⟨⟨⟨⟨⟨⟨⟨⟨⟨⟨⟨⟨⟨⟨⟨⟨⟨-, hhash⟩, hprofile⟩, -⟩, -⟩, -⟩, -⟩, -⟩, hdoc⟩, hsource⟩, -⟩, -⟩, -⟩, -⟩, -⟩,
    hmanifest⟩, hcount⟩, hexpected⟩, hstate⟩ := h
  exact ⟨⟨by rw [hdoc, hsource], by rw [hhash, hprofile], hcount, hexpected, hmanifest, hstate⟩, hhash⟩

theorem commitEmbedIndexBatch_writes {expected : EmbedIndexStageInput} {next : ℕ} {values : Job → Job}
    (hvalues : ∀ J, values J = if next = expected.chunkCount then
      checkpointValues (some .validate) (some .validate) expected.chunkCount (some expected.chunkCount) J
      else progressValues next (some expected.chunkCount) J) :
    ActionWrites digest defaults db (commitEmbedIndexBatch expected next) .embedIndex
      expected.versionId expected.generationId values := by
  intro r db₁ hact
  obtain ⟨graph, hlock, hact⟩ := bind_eq_ok.mp hact
  obtain ⟨hin, hready, -, hgid, -, hvid⟩ := lockStageGraph_eq_ok hlock
  split at hact
  · rename_i hcond
    obtain ⟨hrange, hunchanged, -, -, -, hfrom⟩ := hcond
    obtain ⟨hmanifested, hhash⟩ := embedUnchanged_manifested hunchanged
    cases hact
    refine ⟨graph, _, _, hin, hready, hvid, hgid, rfl, ?_⟩
    intro J hJ
    rw [hvalues J, ← hhash]
    exact .embedded expected.manifestChecksum expected.chunkCount next hJ hmanifested (by omega)
      (by omega) (by omega)
  · cases hact

theorem commitEmbedProgress_eq_ok {expected : EmbedIndexStageInput} {next : ℕ} (hkeys : db.WellKeyed)
    (h : commitEmbedProgress lease expected next db = .ok (job, db')) :
    ∃ J graph version state, StageCommit digest defaults db lease graph J version state job ∧
      db' = writeStage version state job db := by
  unfold commitEmbedProgress at h
  split at h
  · rename_i hlease
    split at h
    · rename_i hlast
      refine stageCommit_of_actionWrites hkeys hlease (stageCommit_of_advanceStage h) (fun _ => rfl) ?_
      apply commitEmbedIndexBatch_writes
      intro J
      rw [if_pos hlast]
    · rename_i hlast
      refine stageCommit_of_actionWrites hkeys hlease (stageCommit_of_commitStageCheckpoint h)
        (fun _ => rfl) ?_
      apply commitEmbedIndexBatch_writes
      intro J
      rw [if_neg hlast]
  · cases h

theorem indexedSnapshot_iff {expected : EmbedIndexStageInput} {graph : StageGraph} :
    indexedSnapshot expected graph = true ↔ embedUnchanged expected graph = true ∧
      graph.version.status = .indexing ∧ graph.state.status = .indexing ∧
      graph.state.embeddingConfigHash = some expected.embeddingConfigHash ∧
      graph.state.nextChunkIndex = expected.chunkCount ∧ graph.state.errorCode = none ∧
      graph.state.safeErrorMessage = none ∧ graph.state.validatedAt = none := by
  simp only [indexedSnapshot, Bool.and_eq_true, decide_eq_true_eq]
  tauto

theorem commitCount_eq_ok {expected : EmbedIndexStageInput} {actual : ℕ} (hkeys : db.WellKeyed)
    (h : commitCount lease expected actual db = .ok (job, db')) :
    ∃ J graph version state, StageCommit digest defaults db lease graph J version state job ∧
      db' = writeStage version state job db := by
  unfold commitCount at h
  split at h
  · rename_i hlease
    refine stageCommit_of_actionWrites hkeys hlease h (fun _ => rfl) ?_
    intro r db₁ hact
    obtain ⟨graph, hlock, hact⟩ := bind_eq_ok.mp hact
    obtain ⟨hin, hready, -, hgid, -, hvid⟩ := lockStageGraph_eq_ok hlock
    split at hact
    · rename_i hcond
      obtain ⟨hindexed, hbefore⟩ := hcond
      obtain ⟨hunchanged, hversion, hstate, -⟩ := indexedSnapshot_iff.mp hindexed
      cases hact
      refine ⟨graph, graph.version, { graph.state with actualPointCount := some actual }, hin, hready,
        hvid, hgid, ?_, ?_⟩
      · rw [setRow_self hkeys.versions hin.version]
      · intro J hJ
        exact .counted expected.manifestChecksum expected.chunkCount actual hJ
          (embedUnchanged_manifested hunchanged).1 ⟨hversion, hstate⟩ hbefore
    · cases hact
  · cases h

theorem commitValidated_eq_ok {expected : EmbedIndexStageInput} {actual : ℕ} (hkeys : db.WellKeyed)
    (h : commitValidated lease expected actual db = .ok (job, db')) :
    ∃ J graph version state, StageCommit digest defaults db lease graph J version state job ∧
      db' = writeStage version state job db := by
  unfold commitValidated at h
  split at h
  · rename_i hlease
    refine stageCommit_of_actionWrites hkeys hlease (stageCommit_of_advanceStage h) (fun _ => rfl) ?_
    intro r db₁ hact
    obtain ⟨graph, hlock, hact⟩ := bind_eq_ok.mp hact
    obtain ⟨hin, hready, -, hgid, -, hvid⟩ := lockStageGraph_eq_ok hlock
    split at hact
    · rename_i hcond
      obtain ⟨hindexed, hcount, hactual⟩ := hcond
      obtain ⟨hunchanged, hversion, hstate, hhash, hnext, herror, hmessage, -⟩ :=
        indexedSnapshot_iff.mp hindexed
      obtain ⟨hmanifested, hconfig⟩ := embedUnchanged_manifested hunchanged
      cases hact
      refine ⟨graph, graph.version, { graph.state with status := .validated, validatedAt := some db.now },
        hin, hready, hvid, hgid, ?_, ?_⟩
      · rw [setRow_self hkeys.versions hin.version]
      · intro J hJ
        exact .validated expected.manifestChecksum expected.chunkCount hJ hmanifested ⟨hversion, hstate⟩
          (hhash.trans hconfig.symm) hnext ⟨herror, hmessage⟩ (hcount ▸ hactual)
    · cases hact
  · cases h

end Commits

/-! ## The ends of a job -/

theorem failureGraph_eq_some {db : Db} {versionId generationId : ℕ} {graph : StageGraph}
    (h : failureGraph db versionId generationId = some graph) :
    graph.In db ∧ graph.version.id = versionId ∧ graph.generation.id = generationId ∧
      graph.document.id = graph.version.documentId ∧
      graph.knowledgeBase.id = graph.document.knowledgeBaseId := by
  unfold failureGraph at h
  simp only [Option.bind_eq_bind, Option.bind_eq_some_iff] at h
  obtain ⟨version, hv, document, hd, knowledgeBase, hk, generation, hg, state, hs, h⟩ := h
  obtain rfl := Option.some.inj h
  let graph : StageGraph := ⟨knowledgeBase, generation, document, version, state⟩
  have hfound : graph.In db ∧ _ := StageGraph.in_of_find hk hg hd hv hs
  exact ⟨hfound.1, hfound.2.2.2.2, hfound.2.2.1, hfound.2.2.2.1, hfound.2.1⟩

/-- The rows a terminal failure is applied to. -/
structure TerminalFailure (db : Db) (graph : StageGraph) (job : Job) : Prop where
  job_mem : job ∈ db.jobs
  graph_in : graph.In db
  document : graph.document.id = graph.version.documentId
  knowledgeBase : graph.knowledgeBase.id = graph.document.knowledgeBaseId
  active : job.status.isActive = true
  targetId : job.targetId = graph.version.id
  generation : job.indexGenerationId = some graph.generation.id
  jobKnowledgeBase : job.knowledgeBaseId = some graph.knowledgeBase.id

theorem terminalFence_iff {now : ℕ} {lease : JobLease} {knowledgeBaseId : ℕ} {job : Job}
    (h : terminalFence now lease knowledgeBaseId job = true) :
    job.id = lease.id ∧ job.knowledgeBaseId = some knowledgeBaseId ∧ job.operation = lease.operation ∧
      job.targetId = lease.targetId ∧ job.indexGenerationId = lease.indexGenerationId ∧
      job.status = .running ∧ job.leaseEpoch = lease.leaseEpoch := by
  simp only [terminalFence, Bool.and_eq_true, decide_eq_true_eq] at h
  tauto

theorem commitTerminalFailure_eq_ok {db db' : Db} {lease : JobLease} {retryable : Bool}
    {code message : Str} {a : Unit}
    (h : commitTerminalFailure lease retryable code message db = .ok (a, db')) :
    ∃ graph J, TerminalFailure db graph J ∧
      terminalFence db.now lease graph.knowledgeBase.id J = true ∧
      db' = applyTerminalFailure graph J retryable code message db := by
  unfold commitTerminalFailure at h
  split at h
  · cases h
  · split at h
    · rename_i generationId htype hgen
      split at h
      · cases h
      · rename_i graph hgraph
        split at h
        · cases h
        · rename_i J hfind
          obtain ⟨hin, hvid, hgid, hdoc, hkb⟩ := failureGraph_eq_some hgraph
          have hfence := List.find?_some hfind
          obtain ⟨-, hJkb, -, htarget, hJgen, hrunning, -⟩ := terminalFence_iff hfence
          cases h
          refine ⟨graph, J, ⟨List.mem_of_find?_eq_some hfind, hin, hdoc, hkb, ?_, ?_, ?_, hJkb⟩, hfence,
            rfl⟩
          · rw [hrunning]
            rfl
          · rw [htarget, hvid]
          · rw [hJgen, hgen, hgid]
    · cases h

theorem commitExhaustedFailure_eq_ok {db db' : Db} {candidate : Job} {a : Unit}
    (h : commitExhaustedFailure candidate db = .ok (a, db')) :
    ∃ graph J, TerminalFailure db graph J ∧ exhaustedFence db.now candidate J = true ∧
      candidate.operation = .ingestDocument ∧
      db' = applyTerminalFailure graph J false attemptsExhaustedCode attemptsExhaustedMessage db := by
  unfold commitExhaustedFailure at h
  split at h
  · rename_i generationId hop htype hgen
    split at h
    · cases h
    · split at h
      · cases h
      · rename_i graph hgraph
        split at h
        · cases h
        · rename_i hkb'
          split at h
          · cases h
          · rename_i J hfind
            obtain ⟨hin, hvid, hgid, hdoc, hkb⟩ := failureGraph_eq_some hgraph
            have hfence := List.find?_some hfind
            obtain ⟨-, -, -, htarget, hJgen, hJkb, -, -, -, heligible⟩ := exhaustedFence_iff hfence
            cases h
            refine ⟨graph, J, ⟨List.mem_of_find?_eq_some hfind, hin, hdoc, hkb,
              eligible_active heligible, ?_, ?_, ?_⟩, hfence, hop, rfl⟩
            · rw [htarget, hvid]
            · rw [hJgen, hgen, hgid]
            · rw [hJkb]
              simpa using hkb'
  · cases h

/-- The rows an activation is applied to, with what it has checked of them. -/
structure Activation (db : Db) (lease : JobLease) (graph : StageGraph) (job : Job) : Prop where
  job_mem : job ∈ db.jobs
  fence : Jobs.fence db.now lease job = true
  stage : job.stage = some .activate
  operation : job.operation = .ingestDocument
  targetId : job.targetId = graph.version.id
  generation : job.indexGenerationId = some graph.generation.id
  graph_in : graph.In db
  document : graph.version.documentId = graph.document.id
  knowledgeBaseStatus : graph.knowledgeBase.status = .active
  activeGeneration : graph.knowledgeBase.activeIndexGenerationId = some graph.generation.id
  documentKnowledgeBase : graph.document.knowledgeBaseId = graph.knowledgeBase.id
  processing : graph.document.status = .processing
  current : graph.document.currentVersionId = none
  pending : graph.document.pendingVersionId = some graph.version.id
  deletedAt : graph.document.deletedAt = none
  versionStatus : graph.version.status = .indexing
  activatedAt : graph.version.activatedAt = none
  stateStatus : graph.state.status = .validated
  validatedAt : graph.state.validatedAt.isSome = true
  expected : graph.state.expectedPointCount = graph.version.chunkCount
  actual : graph.state.actualPointCount = graph.version.chunkCount
  next : some graph.state.nextChunkIndex = graph.version.chunkCount

theorem activationFence_iff {now : ℕ} {expected : ActivationStageInput} {lease : JobLease} {job : Job}
    (h : activationFence now expected lease job = true) :
    job.id = lease.id ∧ job.knowledgeBaseId = some expected.knowledgeBaseId ∧
      job.operation = .ingestDocument ∧ job.targetId = expected.versionId ∧
      job.indexGenerationId = some expected.generationId ∧ job.stage = some .activate ∧
      job.status = .running ∧ job.leaseOwner = some lease.leaseOwner ∧
      job.leaseEpoch = lease.leaseEpoch ∧ ∃ t, job.leaseExpiresAt = some t ∧ now < t := by
  simp only [activationFence, Bool.and_eq_true, decide_eq_true_eq, Option.any_eq_true] at h
  tauto

theorem commitActivated_eq_ok {db db' : Db} {lease : JobLease} {expected : ActivationStageInput}
    {mutationId : ℕ} {a : Unit}
    (hmutation : ∀ J ∈ db.jobs, J.id = lease.id → J.mutationId = lease.mutationId)
    (h : commitActivated lease expected mutationId db = .ok (a, db')) :
    ∃ graph J, Activation db lease graph J ∧ db' = applyActivation graph J mutationId db := by
  unfold commitActivated at h
  split at h
  · replace h := finalizeDomain_eq_ok h
    unfold commitActivation at h
    split at h
    · cases h
    · rename_i J hfind
      have hJ := List.mem_of_find?_eq_some hfind
      obtain ⟨hid, -, hop, htarget, hJgen, hstage, hrunning, howner, hepoch, hexpires⟩ :=
        activationFence_iff (List.find?_some hfind)
      split at h
      · cases h
      · rename_i graph hgraph
        unfold activationGraph at hgraph
        simp only [Option.bind_eq_bind, Option.bind_eq_some_iff] at hgraph
        obtain ⟨knowledgeBase, hk, generation, hg, document, hd, version, hv, state, hs, hgraph⟩ := hgraph
        obtain rfl := Option.some.inj hgraph
        let graph : StageGraph := ⟨knowledgeBase, generation, document, version, state⟩
        have hfound : graph.In db ∧ _ := StageGraph.in_of_find hk hg hd hv hs
        obtain ⟨hin, hkid, hgid, hdid, hvid⟩ := hfound
        split at h
        · rename_i hactivatable
          simp only [activatable, Bool.and_eq_true, decide_eq_true_eq] at hactivatable
          cases h
          have hfence := fence_iff.mpr ⟨hid, hrunning, howner, hepoch, hmutation J hJ hid, hexpires⟩
          have htarget' : J.targetId = graph.version.id := htarget.trans hvid.symm
          have hgen' : J.indexGenerationId = some graph.generation.id := by rw [hJgen, hgid]
          refine ⟨graph, J, ⟨hJ, hfence, hstage, hop, htarget', hgen', hin, ?_, ?_, ?_, ?_, ?_, ?_, ?_, ?_, ?_, ?_,
            ?_, ?_, ?_, ?_, ?_⟩, rfl⟩
          all_goals grind
        · cases h
  · cases h

end VeloxRag.Ingestion
