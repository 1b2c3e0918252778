import VeloxRag.System.Accounting
import VeloxRag.System.Generations

/-!
# Rebuilds and ingestions exclude each other

Four transactions create jobs on a generation.  Each looks for active jobs of the other kind
before it does, except the cutover, whose generation no job can name yet.

## Main definitions

* `OnGeneration`, `JobsOnGenerations` — the generation of a job.
* `Exclusive` — no generation has an active rebuild and an active ingestion.
* `rebuild_ingestion_exclusive` — the invariant over whole runs.
-/

namespace VeloxRag

open Lib Jobs Ingestion Indexing Metadata

/-- The job is on a generation: one that is not being built, of the knowledge base of the job. -/
structure OnGeneration (J : Job) (g : Generation) : Prop where
  generation : J.indexGenerationId = some g.id
  knowledgeBase : J.knowledgeBaseId = some g.knowledgeBaseId
  built : g.status ≠ .building
  rebuild : J.operation = .rebuildGeneration → J.targetType = .indexGeneration ∧ J.targetId = g.id
  ingestion : J.operation = .ingestDocument → J.targetType = .documentVersion

/-- The jobs that work on generations. -/
def Job.indexes (J : Job) : Prop := J.operation = .ingestDocument ∨ J.operation = .rebuildGeneration

/-- Every ingestion and every rebuild is on a generation. -/
def JobsOnGenerations (db : Db) : Prop :=
  ∀ J ∈ db.jobs, J.indexes → ∃ g ∈ db.generations, OnGeneration J g

/-- No generation has an active rebuild and an active ingestion. -/
def Exclusive (db : Db) : Prop :=
  ∀ J ∈ db.jobs, ∀ K ∈ db.jobs, J.operation = .rebuildGeneration → K.operation = .ingestDocument →
    J.status.isActive = true → K.status.isActive = true → J.indexGenerationId ≠ K.indexGenerationId

section Generations

variable {settings : Settings} {s s' : Sys} {op : Op} {J J' : Job} {g g' : Generation}

theorem OnGeneration.keeps (h : OnGeneration J g) (keeps : g.Keeps g') (built : g'.status ≠ .building)
    (hgen : J'.indexGenerationId = J.indexGenerationId) (hkb : J'.knowledgeBaseId = J.knowledgeBaseId)
    (hop : J'.operation = J.operation) (htype : J'.targetType = J.targetType)
    (htarget : J'.targetId = J.targetId) : OnGeneration J' g' where
  generation := by rw [hgen, h.generation, keeps.id]
  knowledgeBase := by rw [hkb, h.knowledgeBase, keeps.knowledgeBaseId]
  built := built
  rebuild := by rw [hop, htype, htarget, keeps.id]; exact h.rebuild
  ingestion := by rw [hop, htype]; exact h.ingestion

/-- A generation that was built is not being built after a step. -/
theorem Moved.built {reversal : Prop} {status status' : GenerationStatus} (h : Moved reversal status status')
    (built : status ≠ .building) : status' ≠ .building := by
  cases h with
  | same => exact built
  | failed => decide
  | activated => decide
  | retired => decide
  | reversed => decide

/-- The generation of a job stays as long as the job does. -/
theorem Effect.onGeneration (hbase : Base s) (hinv : GenInv s.db s.reservations) (h : Effect settings s op s')
    (hg : g ∈ s.db.generations) (hkb : J'.knowledgeBaseId = some g.knowledgeBaseId) (hJ' : J' ∈ s'.db.jobs) :
    ∃ g' ∈ s'.db.generations, g.Keeps g' ∧ Moved (DelayedOp s op) g.status g'.status := by
  rcases h.generation_persists hbase hinv hg with hkept | hgone
  · exact hkept
  · rcases h.knowledgeBase_persists (hinv.owner g hg) with hthere | hpurged
    · obtain ⟨k, hk, hid⟩ := List.mem_map.mp hthere
      exact absurd hid (hgone.1 k hk)
    · exact absurd hkb (hpurged.jobs J' hJ')

/-- The generation of a knowledge base that a pointer names is built. -/
theorem GenInv.active_built (hinv : GenInv s.db s.reservations) {k : KnowledgeBase} (hg : g ∈ s.db.generations)
    (hstatus : g.status = .active) (hk : k ∈ s.db.knowledgeBases) (hkeys : s.db.WellKeyed)
    (hactive : k.activeIndexGenerationId = some g.id) : g.knowledgeBaseId = k.id ∧ g.status ≠ .building := by
  have hhas := ((hinv.pointed k hk).active g.id).mp hactive
  rw [hasGeneration_self hkeys.generations hg] at hhas
  refine ⟨hhas.1, ?_⟩
  rw [hstatus]
  decide

/-- A promotion leaves its generation in the place of the active one. -/
theorem promoted_generation (hbase : Base s) (hinv : GenInv s.db s.reservations)
    {identities : GenerationIdentities} {k : KnowledgeBase} {r : CreationRequest} {jobs : List Job}
    (rows : SagaRows s.db s.reservations k g r) :
    activatedGeneration identities g (k.mutationRevision + 1) s.db.now
      ∈ (promoted identities k g r jobs s.db).generations := by
  obtain ⟨x, hx, hkeeps, -⟩ := (retire_cases hbase.keys hinv rows.knowledgeBase_mem).1 g rows.generation_mem
  exact mem_setRow_self hx hkeeps.id

/-- **A step keeps the jobs on their generations.** -/
theorem JobsOnGenerations.step (hbase : Base s) (hinv : GenInv s.db s.reservations)
    (h : JobsOnGenerations s.db) (heffect : Effect settings s op s') : JobsOnGenerations s'.db := by
  intro J' hJ' hindexes
  have hstays {J : Job} (hJ : J ∈ s.db.jobs) (hJindexes : J.indexes)
      (hgen : J'.indexGenerationId = J.indexGenerationId) (hkb : J'.knowledgeBaseId = J.knowledgeBaseId)
      (hop : J'.operation = J.operation) (htype : J'.targetType = J.targetType)
      (htarget : J'.targetId = J.targetId) : ∃ g ∈ s'.db.generations, OnGeneration J' g := by
    obtain ⟨g, hg, hon⟩ := h J hJ hJindexes
    obtain ⟨g', hg', keeps, moved⟩ := heffect.onGeneration hbase hinv hg (hkb.trans hon.knowledgeBase) hJ'
    exact ⟨g', hg', hon.keeps keeps (moved.built hon.built) hgen hkb hop htype htarget⟩
  have hpersists {g : Generation} (hg : g ∈ s.db.generations) (hbuilt : g.status ≠ .building)
      (hon : OnGeneration J' g) : ∃ g ∈ s'.db.generations, OnGeneration J' g := by
    obtain ⟨g', hg', keeps, moved⟩ := heffect.onGeneration hbase hinv hg hon.knowledgeBase hJ'
    exact ⟨g', hg', hon.keeps keeps (moved.built hbuilt) rfl rfl rfl rfl rfl⟩
  cases heffect.jobs hJ' with
  | kept mem => exact hstays mem hindexes rfl rfl rfl rfl rfl
  | written J mem keeps =>
      refine hstays mem ?_ keeps.indexGenerationId keeps.knowledgeBaseId keeps.operation keeps.targetType
        keeps.targetId
      unfold Job.indexes at hindexes ⊢
      rwa [keeps.operation] at hindexes
  | added fresh new =>
      cases new with
      | upload reservation mutationId knowledgeBase generation creates rows =>
          obtain ⟨hkb, hbuilt⟩ := hinv.active_built creates.generation_mem creates.generationStatus
            creates.knowledgeBase_mem hbase.keys creates.active
          refine hpersists creates.generation_mem hbuilt ⟨rfl, ?_, hbuilt, ?_, fun _ => rfl⟩
          · rw [hkb]
            rfl
          · intro hop
            cases hop
      | retry snapshot source knowledgeBase generation jobId actorId key hsource operation =>
          have hsourceindexes : source.indexes := operation.imp_right And.left
          obtain ⟨g, hg, hon⟩ := h source hsource.mem hsourceindexes
          exact hpersists hg hon.built (hon.keeps .rfl hon.built rfl rfl rfl rfl rfl)
      | repair configured knowledgeBase generation snapshot jobId knowledgeBase_mem generation_mem noIngestion
          rows =>
          obtain ⟨howner, hstatus, hsnapshot, hgeneration⟩ := snapshotFromRows_active rows
          have hbuilt : generation.status ≠ .building := by
            rw [hstatus]
            decide
          refine hpersists generation_mem hbuilt ⟨?_, ?_, hbuilt, fun _ => ⟨rfl, hgeneration⟩, ?_⟩
          · simp only [repairJob, Job.queued, hgeneration]
          · simp only [repairJob, Job.queued, hsnapshot, howner]
          · intro hop
            cases hop
      | promotion delayed knowledgeBase generation request jobId jobs rows status pending after =>
          have hkb := (hinv.linked hbase.keys rows).2.1
          let g' := activatedGeneration settings.identities generation (knowledgeBase.mutationRevision + 1)
            s.db.now
          have hg' : g' ∈ s'.db.generations := by
            rw [after]
            exact promoted_generation hbase hinv rows
          refine ⟨g', hg', rfl, ?_, ?_, fun _ => ⟨rfl, rfl⟩, ?_⟩
          · simp [promotionJob, cutoverJob, Job.queued, g', activatedGeneration, hkb]
          · simp [g', activatedGeneration]
          · intro hop
            cases hop
      | purge knowledgeBase actorId jobId mem rows =>
          rcases hindexes with hop | hop
          · cases hop
          · cases hop

/-- A step adds at most one job. -/
theorem Effect.one_job (h : Effect settings s op s') :
    ∃ id, ∀ J' ∈ s'.db.jobs, J'.id ∈ s.db.jobs.map (·.id) ∨ J'.id = id := by
  have hsame {t : Sys} (ht : t.db.jobs.map (·.id) = s.db.jobs.map (·.id)) :
      ∃ id, ∀ J' ∈ t.db.jobs, J'.id ∈ s.db.jobs.map (·.id) ∨ J'.id = id := by
    refine ⟨0, fun J' hJ' => .inl ?_⟩
    rw [← ht]
    exact List.mem_map_of_mem hJ'
  have hadded {job : Job} : ∃ id, ∀ J' ∈ s.db.jobs ++ [job], J'.id ∈ s.db.jobs.map (·.id) ∨ J'.id = id := by
    refine ⟨job.id, fun J' hJ' => ?_⟩
    rcases List.mem_append.mp hJ' with hold | hnew
    · exact .inl (List.mem_map_of_mem hold)
    · exact .inr (by rw [List.mem_singleton.mp hnew])
  have hset {job : Job} : (setRow (·.id) job s.db.jobs).map (·.id) = s.db.jobs.map (·.id) := map_setRow _ _ _
  cases h with
  | idle => exact hsame rfl
  | tick => exact hsame rfl
  | job => exact hsame hset
  | stage => exact hsame hset
  | failed => exact hsame hset
  | activated => exact hsame hset
  | uploaded => exact hadded
  | retried _ jobId db fresh write =>
      cases write with
      | ingestion => exact hadded
      | rebuild => exact hadded
  | repaired => exact hadded
  | saga _ delayed db reservations of_delayed write backed =>
      rcases write with rfl | write
      · exact hsame rfl
      · cases write with
        | activated _ knowledgeBase generation request reservation jobId jobs rows reserved generationId claim
            state status active pending mutation queued =>
            rcases queued with rfl | ⟨fresh, rfl, -⟩
            · exact hsame (by simp [promoted])
            · exact hadded
        | _ => exact hsame rfl
  | claims => exact hsame rfl
  | created => exact hsame rfl
  | updated => exact hsame rfl
  | schemaReplaced => exact hsame rfl
  | deleted => exact hadded
  | purged _ lease db held purge knowledgeBase mem target deleting rows =>
      simp only [deleteRows, Except.ok.injEq, Prod.mk.injEq, true_and] at rows
      subst rows
      exact ⟨0, fun J' hJ' => .inl (List.mem_map_of_mem (List.mem_of_mem_filter hJ'))⟩
  | purgeReturned => exact hsame rfl

/-- An active job after a step was active before, or is new. -/
theorem JobOrigin.of_active (h : JobOrigin settings s s' J') (active : J'.status.isActive = true) :
    (∃ J ∈ s.db.jobs, J.status.isActive = true ∧ J.operation = J'.operation ∧
      J.indexGenerationId = J'.indexGenerationId) ∨ s.Fresh J'.id ∧ NewJob settings s s' J' := by
  cases h with
  | kept mem => exact .inl ⟨J', mem, active, rfl, rfl⟩
  | written J mem keeps =>
      exact .inl ⟨J, mem, keeps.active, keeps.operation.symm, keeps.indexGenerationId.symm⟩
  | added fresh new => exact .inr ⟨fresh, new⟩

/-- A new rebuild meets no active ingestion on its generation. -/
theorem NewJob.no_ingestion (hbase : Base s) (hon : JobsOnGenerations s.db)
    (h : NewJob settings s s' J') (hop : J'.operation = .rebuildGeneration) {K : Job} (hK : K ∈ s.db.jobs)
    (hingest : K.operation = .ingestDocument) (active : K.status.isActive = true) :
    J'.indexGenerationId ≠ K.indexGenerationId := by
  intro hgen
  obtain ⟨g, hg, honK⟩ := hon K hK (.inl hingest)
  cases h with
  | upload => cases hop
  | purge => cases hop
  | retry snapshot source knowledgeBase generation jobId actorId key hsource operation =>
      have hconflict := List.any_eq_false.mp hsource.noConflict K hK
      have hKgen : K.indexGenerationId = some generation.id := hgen.symm.trans hsource.generationId
      have hsame : g = generation := by
        apply row_unique hbase.keys.generations hg hsource.generation_mem
        exact Option.some.inj (honK.generation.symm.trans hKgen)
      have hKkb : K.knowledgeBaseId = some knowledgeBase.id := by
        rw [honK.knowledgeBase, hsame, hsource.owner]
      have hsourceop : source.operation = .rebuildGeneration := hop
      simp [hsourceop, hingest, hKgen, hKkb, active] at hconflict
  | repair configured knowledgeBase generation snapshot jobId knowledgeBase_mem generation_mem noIngestion rows =>
      obtain ⟨howner, -, -, hgeneration⟩ := snapshotFromRows_active rows
      have hKgen : K.indexGenerationId = some generation.id := by
        rw [← hgen, ← hgeneration]
        rfl
      have hsame : g = generation := by
        apply row_unique hbase.keys.generations hg generation_mem
        exact Option.some.inj (honK.generation.symm.trans hKgen)
      have hKkb : K.knowledgeBaseId = some knowledgeBase.id := by
        rw [honK.knowledgeBase, hsame, howner]
      have hnone := List.any_eq_false.mp noIngestion K hK
      simp [hKkb, hingest, hKgen, active] at hnone
  | promotion delayed knowledgeBase generation request jobId jobs rows status pending after =>
      have hsame : g = generation := by
        apply row_unique hbase.keys.generations hg rows.generation_mem
        exact Option.some.inj (honK.generation.symm.trans hgen.symm)
      exact honK.built (hsame ▸ status)

/-- A new ingestion meets no active rebuild of its generation. -/
theorem NewJob.no_rebuild (hbase : Base s) (hinv : GenInv s.db s.reservations) (hon : JobsOnGenerations s.db)
    (h : NewJob settings s s' J') (hop : J'.operation = .ingestDocument) {K : Job} (hK : K ∈ s.db.jobs)
    (hrebuild : K.operation = .rebuildGeneration) (active : K.status.isActive = true) :
    K.indexGenerationId ≠ J'.indexGenerationId := by
  intro hgen
  obtain ⟨g, hg, honK⟩ := hon K hK (.inr hrebuild)
  obtain ⟨htype, htarget⟩ := honK.rebuild hrebuild
  cases h with
  | repair => cases hop
  | promotion => cases hop
  | purge => cases hop
  | upload reservation mutationId knowledgeBase generation creates rows =>
      obtain ⟨howner, -⟩ := hinv.active_built creates.generation_mem creates.generationStatus
        creates.knowledgeBase_mem hbase.keys creates.active
      have hsame : g = generation := by
        apply row_unique hbase.keys.generations hg creates.generation_mem
        exact Option.some.inj (honK.generation.symm.trans hgen)
      have hKkb : K.knowledgeBaseId = some knowledgeBase.id := by
        rw [honK.knowledgeBase, hsame, howner]
      have hKgen : K.indexGenerationId = some generation.id := hgen
      have hnone := List.any_eq_false.mp creates.noRepair K hK
      simp [hKkb, hrebuild, htype, hKgen, creates.active, active] at hnone
  | retry snapshot source knowledgeBase generation jobId actorId key hsource operation =>
      have hsourceop : source.operation = .ingestDocument := hop
      have hKgen : K.indexGenerationId = some generation.id := hgen.trans hsource.generationId
      have hKtarget : K.targetId = generation.id := by
        rw [htarget]
        exact Option.some.inj (honK.generation.symm.trans hKgen)
      have hconflict := List.any_eq_false.mp hsource.noConflict K hK
      simp [hsourceop, hrebuild, htype, hKtarget, hKgen, active] at hconflict

/-- **A step keeps rebuilds and ingestions apart.** -/
theorem Exclusive.step (hbase : Base s) (hinv : GenInv s.db s.reservations) (hon : JobsOnGenerations s.db)
    (h : Exclusive s.db) (heffect : Effect settings s op s') : Exclusive s'.db := by
  intro J' hJ' K' hK' hrebuild hingest hJactive hKactive
  rcases (heffect.jobs hJ').of_active hJactive with ⟨J, hJ, hJa, hJop, hJgen⟩ | ⟨hJfresh, hJnew⟩
  · rcases (heffect.jobs hK').of_active hKactive with ⟨K, hK, hKa, hKop, hKgen⟩ | ⟨-, hKnew⟩
    · rw [← hJgen, ← hKgen]
      exact h J hJ K hK (hJop.trans hrebuild) (hKop.trans hingest) hJa hKa
    · rw [← hJgen]
      exact hKnew.no_rebuild hbase hinv hon hingest hJ (hJop.trans hrebuild) hJa
  · rcases (heffect.jobs hK').of_active hKactive with ⟨K, hK, hKa, hKop, hKgen⟩ | ⟨hKfresh, -⟩
    · rw [← hKgen]
      exact hJnew.no_ingestion hbase hon hrebuild hK (hKop.trans hingest) hKa
    · -- Both would be the one job that the step adds.
      obtain ⟨id, hone⟩ := heffect.one_job
      have hnew {L : Job} (hL : L ∈ s'.db.jobs) (hfresh : s.Fresh L.id) : L.id = id := by
        rcases hone L hL with hold | hid
        · obtain ⟨L₀, hL₀, hid⟩ := List.mem_map.mp hold
          exact absurd hid (hfresh.job hL₀).1
        · exact hid
      have hsame : J' = K' := by
        apply row_unique (hbase.step heffect).keys.jobs hJ' hK'
        rw [hnew hJ' hJfresh, hnew hK' hKfresh]
      rw [hsame, hingest] at hrebuild
      cases hrebuild

end Generations

/-! ## Runs -/

/-- The generations, the jobs on them, and their exclusion. -/
structure ExclusionInv (s : Sys) : Prop where
  generations : GenInv s.db s.reservations
  jobs : JobsOnGenerations s.db
  exclusive : Exclusive s.db

theorem exclusionInv_of_reachable {settings : Settings} {s : Sys} (h : Reachable settings s) :
    Base s ∧ ExclusionInv s := by
  refine h.induction_on ExclusionInv ⟨genInv_init, ?_, ?_⟩ fun hbase hinv heffect =>
    ⟨hinv.generations.step hbase heffect, hinv.jobs.step hbase hinv.generations heffect,
      hinv.exclusive.step hbase hinv.generations hinv.jobs heffect⟩
  · intro J hJ
    cases hJ
  · intro J hJ
    cases hJ

/-- **Rebuilds and ingestions exclude each other**: in every state that a run reaches, no generation
has both an active rebuild and an active ingestion. -/
theorem rebuild_ingestion_exclusive {settings : Settings} {s : Sys} (h : Reachable settings s) {J K : Job}
    (hJ : J ∈ s.db.jobs) (hK : K ∈ s.db.jobs) (hrebuild : J.operation = .rebuildGeneration)
    (hingest : K.operation = .ingestDocument) (hJactive : J.status.isActive = true)
    (hKactive : K.status.isActive = true) : J.indexGenerationId ≠ K.indexGenerationId :=
  (exclusionInv_of_reachable h).2.exclusive J hJ K hK hrebuild hingest hJactive hKactive

/-! ## A run -/

/-- A second upload, into the generation of the first. -/
def secondRequest : UploadRequest :=
  ⟨7, 1, some ⟨1, 1711, "filter".toList, 0, 0⟩, some "second".toList, "print".toList, "other".toList, .txt, []⟩

/-- A generation takes the place of the first while an upload is still being ingested. -/
def cutoverRun : List Op := activatedRun ++
  [.upload secondRequest 20 21 22 23 (.ok ()),
    .generationReserved ⟨1, 7, "gg".toList, "f".toList⟩ (.ok ())
      (.ok (⟨3, "hash".toList, "snapshot".toList⟩, "filter".toList)),
    .generationActivated ⟨2712, 1712, 1, 0, collectionName 1 1712⟩ 51]

theorem rebuild_ingestion_exclusive_cutoverRun :
    ∃ J ∈ (exec sampleSettings Sys.init cutoverRun).db.jobs,
    ∃ K ∈ (exec sampleSettings Sys.init cutoverRun).db.jobs,
      (J.operation = .rebuildGeneration ∧ J.status = .queued) ∧
      (K.operation = .ingestDocument ∧ K.status = .queued) ∧ J.indexGenerationId ≠ K.indexGenerationId := by
  have hjobs : (∃ J ∈ (exec sampleSettings Sys.init cutoverRun).db.jobs,
        J.operation = .rebuildGeneration ∧ J.status = .queued) ∧
      ∃ K ∈ (exec sampleSettings Sys.init cutoverRun).db.jobs,
        K.operation = .ingestDocument ∧ K.status = .queued := by
    decide +kernel
  obtain ⟨⟨J, hJ, hrebuild⟩, K, hK, hingest⟩ := hjobs
  refine ⟨J, hJ, K, hK, hrebuild, hingest, ?_⟩
  apply rebuild_ingestion_exclusive (reachable_exec cutoverRun) hJ hK hrebuild.1 hingest.1
  · rw [hrebuild.2]
    rfl
  · rw [hingest.2]
    rfl

end VeloxRag
