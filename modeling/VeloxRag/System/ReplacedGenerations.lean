import VeloxRag.System.Ingestions

/-!
# Ingestions whose generation was replaced

An ingestion is pinned to the generation that was active when its document was uploaded.  Once that
generation has been replaced, or has failed, no stage commits under it and no retry is accepted:
its jobs are claimed, released and ended, but they stand where they stood.

## Main definitions

* `Unserved` — the status of a generation that uploads and stages refuse for good.
* `Stood` — a job that has not moved on.
* `Effect.stood`, `stood_of_run`, `replaced_generation_stands` — the jobs of such a generation, in a step
  and in a run.
* `replaced_upload_stranded` — the version of such a job never gets ready.
-/

namespace VeloxRag

open Lib Jobs Ingestion Indexing Metadata

/-- A generation that was replaced or that failed. -/
def Unserved (status : GenerationStatus) : Prop := status = .retiring ∨ status = .failed

theorem Unserved.not_active {status : GenerationStatus} (h : Unserved status) : status ≠ .active := by
  rcases h with rfl | rfl
  · decide
  · decide

/-- Such a generation stays so, also when an activation is repeated late. -/
theorem Moved.unserved {reversal : Prop} {status status' : GenerationStatus}
    (h : Moved reversal status status') (hunserved : Unserved status) : Unserved status' := by
  cases h with
  | same => exact hunserved
  | failed => exact .inr rfl
  | activated => rcases hunserved with h | h <;> cases h
  | retired => exact .inl rfl
  | reversed => exact .inr rfl

/-- The job has not moved on: it may have been claimed, released or ended, but did not succeed. -/
structure Stood (J J' : Job) : Prop where
  id : J'.id = J.id
  targetId : J'.targetId = J.targetId
  stage : J'.stage = J.stage
  resumeStage : J'.resumeStage = J.resumeStage
  current : J'.progressCurrent = J.progressCurrent
  total : J'.progressTotal = J.progressTotal
  succeeded : J'.status = .succeeded → J.status = .succeeded

theorem Stood.rfl {J : Job} : Stood J J :=
  ⟨Eq.refl _, Eq.refl _, Eq.refl _, Eq.refl _, Eq.refl _, Eq.refl _, fun hs => hs⟩

theorem Stood.trans {J J' J'' : Job} (h : Stood J J') (h' : Stood J' J'') : Stood J J'' where
  id := h'.id.trans h.id
  targetId := h'.targetId.trans h.targetId
  stage := h'.stage.trans h.stage
  resumeStage := h'.resumeStage.trans h.resumeStage
  current := h'.current.trans h.current
  total := h'.total.trans h.total
  succeeded := fun hs => h.succeeded (h'.succeeded hs)

section Replaced

variable {settings : Settings} {s s' t : Sys} {op : Op} {g : Generation} {job after : Job}

/-- A write to the job alone leaves an ingestion where it stands. -/
theorem JobWrite.stood (hbase : Base s) (hjob : job ∈ s.db.jobs) (hop : job.operation = .ingestDocument)
    {leases : List JobLease} (h : JobWrite settings s job op after leases) : Stood job after := by
  have hother {L : JobLease} (held : L ∈ s.leases) (hfence : fence s.db.now L job = true)
      (hne : L.operation ≠ .ingestDocument) : False := by
    have hleased := hbase.leases L held job hjob (fence_id job hfence)
    exact hne (hleased.operation.trans hop)
  have purge_ne {L : JobLease} (hpurge : purgeLease L = true) : L.operation ≠ .ingestDocument := by
    intro hingest
    simp [purgeLease, hingest] at hpurge
  cases h with
  | claimed => exact ⟨rfl, rfl, rfl, rfl, rfl, rfl, fun hs => by cases hs⟩
  | heartbeat => exact ⟨rfl, rfl, rfl, rfl, rfl, rfl, fun hs => hs⟩
  | released => exact ⟨rfl, rfl, rfl, rfl, rfl, rfl, fun hs => by cases hs⟩
  | exhausted candidate operation => exact absurd hop operation
  | stageRaised lease exception delay error =>
      refine ⟨rfl, rfl, rfl, rfl, rfl, rfl, fun hs => ?_⟩
      simp only [errorValues, failureValues] at hs
      split at hs
      · cases hs
      · split at hs <;> cases hs
  | repairRaised lease raised delay error held operation fence =>
      exact (hother held fence (by rw [operation]; decide)).elim
  | purgeRaised lease delay held purge fence => exact (hother held fence (purge_ne purge)).elim
  | purgeSucceeded lease held purge returned fence => exact (hother held fence (purge_ne purge)).elim
  | rebuilt _ lease _ _ held fence write =>
      refine (hother held (stageFence_iff.mp fence).1 ?_).elim
      rw [write.operation]
      decide

/-- **In a step**, an ingestion of such a generation was there, and stands where it stood. -/
theorem Effect.stood (hbase : Base s) (hinv : GenInv s.db s.reservations) (h : Effect settings s op s')
    (hg : g ∈ s.db.generations) (hunserved : Unserved g.status) {K' : Job} (hK' : K' ∈ s'.db.jobs)
    (hop : K'.operation = .ingestDocument) (hgen : K'.indexGenerationId = some g.id) :
    ∃ K ∈ s.db.jobs, K.operation = .ingestDocument ∧ K.indexGenerationId = some g.id ∧
      K.knowledgeBaseId = K'.knowledgeBaseId ∧ Stood K K' := by
  have same {x : Generation} (hx : x ∈ s.db.generations) (hid : some x.id = some g.id) : x = g :=
    row_unique hbase.keys.generations hx hg (Option.some.inj hid)
  have of_mem (hmem : K' ∈ s.db.jobs) : ∃ K ∈ s.db.jobs, K.operation = .ingestDocument ∧
      K.indexGenerationId = some g.id ∧ K.knowledgeBaseId = K'.knowledgeBaseId ∧ Stood K K' :=
    ⟨K', hmem, hop, hgen, rfl, .rfl⟩
  have of_setRow {J J' : Job} (hJ : J ∈ s.db.jobs) (keeps : J.Keeps J')
      (hstood : J.operation = .ingestDocument → J.indexGenerationId = some g.id → Stood J J')
      (hmem : K' ∈ setRow (·.id) J' s.db.jobs) : ∃ K ∈ s.db.jobs, K.operation = .ingestDocument ∧
      K.indexGenerationId = some g.id ∧ K.knowledgeBaseId = K'.knowledgeBaseId ∧ Stood K K' := by
    rcases mem_setRow hmem with rfl | ⟨hold, -⟩
    · have hJop := keeps.operation.symm.trans hop
      have hJgen := keeps.indexGenerationId.symm.trans hgen
      exact ⟨J, hJ, hJop, hJgen, keeps.knowledgeBaseId.symm, hstood hJop hJgen⟩
    · exact of_mem hold
  -- a new ingestion is of an active generation
  have of_append {J : Job} (hne : J.operation = .ingestDocument → J.indexGenerationId ≠ some g.id)
      (hmem : K' ∈ s.db.jobs ++ [J]) : ∃ K ∈ s.db.jobs, K.operation = .ingestDocument ∧
      K.indexGenerationId = some g.id ∧ K.knowledgeBaseId = K'.knowledgeBaseId ∧ Stood K K' := by
    rcases List.mem_append.mp hmem with hold | hnew
    · exact of_mem hold
    · obtain rfl := List.mem_singleton.mp hnew
      exact absurd hgen (hne hop)
  cases h with
  | job _ job after leases mem write =>
      exact of_setRow mem write.keeps (fun hjobOp _ => write.stood hbase mem hjobOp) hK'
  | stage _ lease graph job after version state leases held commit issued =>
      obtain ⟨hfence, -⟩ := stageFence_iff.mp commit.fence
      have hrunning := (fence_iff.mp hfence).2.1
      refine of_setRow commit.job_mem (commit.write.keeps hrunning) (fun _ hjobGen => ?_) hK'
      have hleased := hbase.leases lease held job commit.job_mem (fence_id job hfence)
      have hid : some graph.generation.id = some g.id :=
        (hleased.indexGenerationId.symm.trans commit.generation).symm.trans hjobGen
      have hactive := commit.ready.2.2.2.1
      rw [same commit.graph_in.generation hid] at hactive
      exact absurd hactive hunserved.not_active
  | failed _ graph job retryable code message failure operation =>
      exact of_setRow failure.job_mem (failedValues_keeps failure.active)
        (fun _ _ => ⟨rfl, rfl, rfl, rfl, rfl, rfl, fun hs => by cases hs⟩) hK'
  | activated lease expected graph job mutationId held fresh activation =>
      refine of_setRow activation.job_mem (finishedValues_keeps (fence_active activation.fence))
        (fun _ hjobGen => ?_) hK'
      have hsame := same activation.graph_in.generation (activation.generation.symm.trans hjobGen)
      have hhas := ((hinv.pointed _ activation.graph_in.knowledgeBase).active _).mp activation.activeGeneration
      rw [hsame, hasGeneration_self hbase.keys.generations hg] at hhas
      exact absurd hhas.2 hunserved.not_active
  | uploaded request documentId versionId jobId mutationId checks knowledgeBase generation fresh creates =>
      refine of_append (fun _ hid => ?_) hK'
      have hactive := creates.generationStatus
      rw [same creates.generation_mem hid] at hactive
      exact hunserved.not_active hactive
  | retried _ jobId db fresh write =>
      cases write with
      | ingestion snapshot source knowledgeBase generation document version state versionStatus stateStatus
          actorApiKeyId idempotencyKey operation hsource rows =>
          refine of_append (fun _ hid => ?_) hK'
          have hactive := hsource.generationStatus
          rw [same hsource.generation_mem (hsource.generationId.symm.trans hid)] at hactive
          exact hunserved.not_active hactive
      | rebuild snapshot source knowledgeBase generation actorApiKeyId idempotencyKey operation =>
          refine of_append (fun hingest => ?_) hK'
          have hchild : source.operation = .ingestDocument := hingest
          rw [operation] at hchild
          cases hchild
  | repaired =>
      refine of_append (fun hingest => ?_) hK'
      cases hingest
  | saga _ delayed db reservations of_delayed write backed =>
      rcases write with rfl | write
      · exact of_mem hK'
      · cases write with
        | activated _ knowledgeBase generation request reservation jobId added rows reserved generationId claim
            state status active pending mutation queued =>
            rcases queued with rfl | ⟨-, rfl, -⟩
            · simp only [promoted, List.append_nil] at hK'
              exact of_mem hK'
            · refine of_append (fun hingest => ?_) hK'
              cases hingest
        | _ => exact of_mem hK'
  | deleted =>
      refine of_append (fun hingest => ?_) hK'
      cases hingest
  | purged _ lease db held purge knowledgeBase mem target deleting rows =>
      simp only [deleteRows, Except.ok.injEq, Prod.mk.injEq, true_and] at rows
      subst rows
      exact of_mem (List.mem_of_mem_filter hK')
  | _ => exact of_mem hK'

/-- The ingestions of a generation stand where they stood in an earlier state. -/
def AllStood (s u : Sys) (generationId : ℕ) : Prop :=
  ∀ K' ∈ u.db.jobs, K'.operation = .ingestDocument → K'.indexGenerationId = some generationId →
    ∃ K ∈ s.db.jobs, K.operation = .ingestDocument ∧ Stood K K'

/-- The ingestions of a replaced generation were all there when it was replaced, and stand where they
stood. -/
theorem stood_of_run (h : Reachable settings s) (hg : g ∈ s.db.generations) (hunserved : Unserved g.status)
    (hrun : Relation.ReflTransGen (Step settings) s t) {K' : Job} (hK' : K' ∈ t.db.jobs)
    (hop : K'.operation = .ingestDocument) (hgen : K'.indexGenerationId = some g.id)
    (hkb : K'.knowledgeBaseId = some g.knowledgeBaseId) :
    ∃ K ∈ s.db.jobs, K.operation = .ingestDocument ∧ Stood K K' := by
  obtain ⟨hbase, hinv⟩ := ingestionInv_of_reachable h
  have hend := Base.run (fun u => IngestionInv settings True u ∧
    ((∃ g' ∈ u.db.generations, g.Keeps g' ∧ Unserved g'.status ∧ AllStood s u g.id) ∨
      Gone u g.knowledgeBaseId)) ?_ hbase
    ⟨hinv, .inl ⟨g, hg, .rfl, hunserved, fun K hK hKop _ => ⟨K, hK, hKop, .rfl⟩⟩⟩ hrun
  · obtain ⟨-, hinv', hstood | hgone⟩ := hend
    · obtain ⟨g', -, -, -, hall⟩ := hstood
      exact hall K' hK' hop hgen
    · obtain ⟨g₀, hg₀, hon⟩ := hinv'.jobs K' hK' (.inl hop)
      obtain ⟨k, hk, hid⟩ := List.mem_map.mp (hinv'.generations.owner g₀ hg₀)
      refine absurd ?_ (hgone.1 k hk)
      rw [hid]
      exact Option.some.inj (hon.knowledgeBase.symm.trans hkb)
  · rintro u u' op hbase ⟨hinv, hcase⟩ heffect
    refine ⟨hinv.step hbase (fun _ _ _ => trivial) heffect, ?_⟩
    rcases hcase with ⟨g', hg', keeps, hunserved', hall⟩ | hgone
    · rcases heffect.generation_persists hbase hinv.generations hg' with ⟨g'', hg'', keeps', moved⟩ | hgone
      · refine .inl ⟨g'', hg'', keeps.trans keeps', moved.unserved hunserved', ?_⟩
        intro L hL hLop hLgen
        obtain ⟨M, hM, hMop, hMgen, -, hstood⟩ :=
          heffect.stood hbase hinv.generations hg' hunserved' hL hLop (by rw [hLgen, keeps.id])
        obtain ⟨K, hK, hKop, hstood'⟩ := hall M hM hMop (by rw [hMgen, keeps.id])
        exact ⟨K, hK, hKop, hstood'.trans hstood⟩
      · rw [keeps.knowledgeBaseId] at hgone
        exact .inr hgone
    · exact .inr (hgone.step heffect)

/-- **A replaced generation ends its ingestions**: from a state in which a generation was replaced or
failed, no run adds an ingestion of it, moves one on to a later stage or chunk, or lets one succeed. -/
theorem replaced_generation_stands (h : Reachable settings s) (hg : g ∈ s.db.generations)
    (hunserved : Unserved g.status) (hrun : Relation.ReflTransGen (Step settings) s t) {K' : Job}
    (hK' : K' ∈ t.db.jobs) (hop : K'.operation = .ingestDocument) (hgen : K'.indexGenerationId = some g.id)
    (hkb : K'.knowledgeBaseId = some g.knowledgeBaseId) : ∃ K ∈ s.db.jobs, Stood K K' := by
  obtain ⟨K, hK, -, hstood⟩ := stood_of_run h hg hunserved hrun hK' hop hgen hkb
  exact ⟨K, hK, hstood⟩

/-- The rows of a version whose last job has succeeded. -/
theorem Standing.of_succeeded {crash : Prop} {d : Document} {v : Version} {st : IndexState} {J : Job}
    (h : Standing crash d v st J) (succeeded : J.status = .succeeded) : v.status = .ready := by
  cases h with
  | running status =>
      rw [succeeded] at status
      cases status
  | failed status =>
      rw [succeeded] at status
      cases status
  | crashed _ status =>
      rw [succeeded] at status
      cases status
  | succeeded _ _ version => exact version

/-- Only a job that has succeeded leaves a version ready or a document active. -/
theorem Standing.succeeded_of {crash : Prop} {d : Document} {v : Version} {st : IndexState} {J : Job}
    (h : Standing crash d v st J) (done : v.status = .ready ∨ d.status = .active) : J.status = .succeeded := by
  cases h with
  | running _ document rows =>
      rcases done with hready | hactive
      · exact absurd hready (inFlight_not_ready rows.version)
      · rw [document] at hactive
        cases hactive
  | failed _ document version =>
      rcases done with hready | hactive
      · rw [version] at hready
        cases hready
      · rw [document] at hactive
        cases hactive
  | crashed _ _ _ document rows =>
      rcases done with hready | hactive
      · exact absurd hready (inFlight_not_ready rows.version)
      · rw [document] at hactive
        cases hactive
  | succeeded status => exact status

/-- **An upload is stranded by a cutover**: a version that was not ready when the generation of its
job was replaced or failed never gets ready in any run, and its document never gets active, as long
as the job is there. -/
theorem replaced_upload_stranded (h : Reachable settings s) (hg : g ∈ s.db.generations)
    (hunserved : Unserved g.status) {v : Version} (hv : v ∈ s.db.versions) (hunready : v.status ≠ .ready)
    (hrun : Relation.ReflTransGen (Step settings) s t) {J : Job} (hJ : J ∈ t.db.jobs)
    (hop : J.operation = .ingestDocument) (htarget : J.targetId = v.id)
    (hgen : J.indexGenerationId = some g.id) (hkb : J.knowledgeBaseId = some g.knowledgeBaseId)
    {v' : Version} (hv' : v' ∈ t.db.versions) (hid : v'.id = v.id) :
    v'.status ≠ .ready ∧ ∀ d' ∈ t.db.documents, v'.documentId = d'.id → d'.status ≠ .active := by
  obtain ⟨hbase, hinv⟩ := ingestionInv_of_reachable h
  obtain ⟨hbase', hinv'⟩ := ingestionInv_of_reachable (h.trans hrun)
  have hingested := hinv'.ingestions.ingested v' hv'
  obtain ⟨d, hd, st, -, g', -, older, K', hlist, holder, hing⟩ := hingested
  have hK' : K' ∈ ingestionsOf t.db.jobs v'.id := by
    rw [hlist]
    exact List.mem_append_right _ List.mem_cons_self
  have hJ' : J ∈ ingestionsOf t.db.jobs v'.id := (mem_ingestionsOf).mpr ⟨hJ, hop, htarget.trans hid.symm⟩
  obtain ⟨hK'mem, hK'op, hK'target⟩ := (mem_ingestionsOf).mp hK'
  -- the jobs of the version are all of one generation and one knowledge base
  have hJgen : J.indexGenerationId = some g'.id := by
    rw [hlist] at hJ'
    rcases List.mem_append.mp hJ' with hold | hlast
    · exact (holder J hold).generation
    · rw [List.mem_singleton.mp hlast]
      exact hing.on.generation
  have hK'gen : K'.indexGenerationId = some g.id := hing.on.generation.trans (hJgen.symm.trans hgen)
  have owned {K : Job} (hK : K ∈ ingestionsOf t.db.jobs v'.id) : K.knowledgeBaseId = some d.knowledgeBaseId :=
    (hinv'.ingestions.ingested v' hv').job_knowledgeBase hbase'.keys hinv'.jobs hK hd hing.owner
  have hK'kb : K'.knowledgeBaseId = some g.knowledgeBaseId := (owned hK').trans ((owned hJ').symm.trans hkb)
  have hnot : K'.status ≠ .succeeded := by
    intro hsucceeded
    obtain ⟨K, hK, hKop, hstood⟩ :=
      stood_of_run h hg hunserved hrun hK'mem hK'op hK'gen hK'kb
    have hKtarget : K.targetId = v.id := by rw [← hstood.targetId, hK'target, hid]
    have hKsucceeded := hstood.succeeded hsucceeded
    obtain ⟨d₀, -, st₀, -, g₀, -, older₀, -, -, hing₀⟩ := (hinv.ingestions.ingested v hv).last hK hKop hKtarget
      (by rw [hKsucceeded]; decide)
    exact hunready (hing₀.standing.of_succeeded hKsucceeded)
  refine ⟨fun hready => hnot (hing.standing.succeeded_of (.inl hready)), ?_⟩
  intro d' hd' howner hactive
  rw [row_unique hbase'.keys.documents hd' hd (howner.symm.trans hing.owner)] at hactive
  exact hnot (hing.standing.succeeded_of (.inr hactive))

end Replaced

/-! ## A run -/

/-- A generation is replaced while an upload waits for its first stage. -/
def replacedUploadRun : List Op := uploadedRun ++
  [.generationReserved ⟨1, 7, "gg".toList, "f".toList⟩ (.ok ())
      (.ok (⟨3, "hash".toList, "snapshot".toList⟩, "filter".toList)),
    .generationActivated ⟨2712, 1712, 1, 0, collectionName 1 1712⟩ 51]

theorem replaced_generation_stands_replacedUploadRun :
    ∃ K' ∈ (exec sampleSettings (exec sampleSettings Sys.init replacedUploadRun)
        [.claimed "worker".toList 30 12]).db.jobs, K'.status = .running ∧
      ∃ K ∈ (exec sampleSettings Sys.init replacedUploadRun).db.jobs, Stood K K' := by
  have hgeneration : ∃ g ∈ (exec sampleSettings Sys.init replacedUploadRun).db.generations,
      g.id = 1711 ∧ g.knowledgeBaseId = 1 ∧ g.status = .retiring := by decide +kernel
  have hjob : ∃ K' ∈ (exec sampleSettings (exec sampleSettings Sys.init replacedUploadRun)
      [.claimed "worker".toList 30 12]).db.jobs, K'.status = .running ∧ K'.operation = .ingestDocument ∧
      K'.indexGenerationId = some 1711 ∧ K'.knowledgeBaseId = some 1 := by decide +kernel
  obtain ⟨g, hg, hid, hkb, hstatus⟩ := hgeneration
  obtain ⟨K', hK', hrunning, hop, hgen, hKkb⟩ := hjob
  refine ⟨K', hK', hrunning, ?_⟩
  exact replaced_generation_stands (reachable_exec replacedUploadRun) hg (.inl hstatus) (run_exec _ _) hK' hop
    (by rw [hgen, hid]) (by rw [hKkb, hkb])

/-- The upload of that run, after its job was claimed. -/
theorem replaced_upload_stranded_replacedUploadRun :
    ∃ v' ∈ (exec sampleSettings (exec sampleSettings Sys.init replacedUploadRun)
        [.claimed "worker".toList 30 12]).db.versions, v'.id = 11 ∧ v'.status ≠ .ready ∧
      ∀ d' ∈ (exec sampleSettings (exec sampleSettings Sys.init replacedUploadRun)
        [.claimed "worker".toList 30 12]).db.documents, v'.documentId = d'.id → d'.status ≠ .active := by
  have hgeneration : ∃ g ∈ (exec sampleSettings Sys.init replacedUploadRun).db.generations,
      g.id = 1711 ∧ g.knowledgeBaseId = 1 ∧ g.status = .retiring := by decide +kernel
  have hversion : ∃ v ∈ (exec sampleSettings Sys.init replacedUploadRun).db.versions,
      v.id = 11 ∧ v.status = .uploaded := by decide +kernel
  have hjob : ∃ J ∈ (exec sampleSettings (exec sampleSettings Sys.init replacedUploadRun)
      [.claimed "worker".toList 30 12]).db.jobs, J.operation = .ingestDocument ∧ J.targetId = 11 ∧
      J.indexGenerationId = some 1711 ∧ J.knowledgeBaseId = some 1 := by decide +kernel
  have hlater : ∃ v' ∈ (exec sampleSettings (exec sampleSettings Sys.init replacedUploadRun)
      [.claimed "worker".toList 30 12]).db.versions, v'.id = 11 := by decide +kernel
  obtain ⟨g, hg, hid, hkb, hstatus⟩ := hgeneration
  obtain ⟨v, hv, hvid, hvstatus⟩ := hversion
  obtain ⟨J, hJ, hop, htarget, hgen, hJkb⟩ := hjob
  obtain ⟨v', hv', hv'id⟩ := hlater
  refine ⟨v', hv', hv'id, ?_⟩
  exact replaced_upload_stranded (reachable_exec replacedUploadRun) hg (.inl hstatus) hv
    (by rw [hvstatus]; decide) (run_exec _ _) hJ hop (by rw [htarget, hvid]) (by rw [hgen, hid])
    (by rw [hJkb, hkb]) hv' (by rw [hv'id, hvid])

end VeloxRag
