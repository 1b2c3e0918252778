import VeloxRag.System.Base

/-!
# Knowledge bases that are deleted

A knowledge base that has been purged never comes back: the lease of its purge names it for
ever, so no new knowledge base gets its identity.  Until then, a knowledge base that is being
deleted has a purge job that is still active, unless the purge itself failed: the runner ends
a purge that raises, or whose attempts are used up, for good.

## Main definitions

* `Gone` — a knowledge base that was purged.
* `PurgeInv` — the purge jobs and what they purge.
* `PurgeAllowed`, `purge_never_stranded` — the runs in which no purge job ends in failure.
-/

namespace VeloxRag

open Lib Jobs Ingestion Indexing Metadata

section Gone

variable {settings : Settings} {s s' : Sys} {op : Op}

/-- The knowledge base was purged. -/
def Gone (s : Sys) (knowledgeBaseId : ℕ) : Prop :=
  (∀ k ∈ s.db.knowledgeBases, k.id ≠ knowledgeBaseId) ∧ ∃ L ∈ s.leases, L.targetId = knowledgeBaseId

/-- An active purge job of a knowledge base. -/
def ActivePurge (db : Db) (knowledgeBaseId : ℕ) : Prop :=
  ∃ J ∈ db.jobs, J.operation = .purgeKnowledgeBase ∧ J.targetId = knowledgeBaseId ∧
    J.status.isActive = true

/-- Where a knowledge base after a step comes from: it was there and is being deleted as before, or it
was there and has been marked, or it is new. -/
inductive KbOrigin (s s' : Sys) (k' : KnowledgeBase) : Prop
  | kept (k : KnowledgeBase) (mem : k ∈ s.db.knowledgeBases) (id : k'.id = k.id)
      (deleting : k'.status = .deleting ↔ k.status = .deleting)
  | marked (k : KnowledgeBase) (mem : k ∈ s.db.knowledgeBases) (id : k'.id = k.id)
      (deleting : k'.status = .deleting) (purge : ActivePurge s'.db k'.id)
  | added (fresh : s.Fresh k'.id) (active : k'.status = .active)

theorem KbOrigin.of_mem {k' : KnowledgeBase} (h : k' ∈ s.db.knowledgeBases) : KbOrigin s s' k' :=
  .kept k' h rfl Iff.rfl

theorem KbOrigin.of_setRow {k after k' : KnowledgeBase} (hk : k ∈ s.db.knowledgeBases)
    (h : k' ∈ setRow (·.id) after s.db.knowledgeBases) (hid : after.id = k.id)
    (hdeleting : after.status = .deleting ↔ k.status = .deleting) : KbOrigin s s' k' := by
  rcases mem_setRow h with rfl | ⟨hmem, -⟩
  · exact .kept k hk hid hdeleting
  · exact .of_mem hmem

theorem clearPending_id (k : KnowledgeBase) (generationId : ℕ) : (clearPending k generationId).id = k.id := by
  unfold clearPending
  split
  · rfl
  · rfl

theorem clearPending_status (k : KnowledgeBase) (generationId : ℕ) :
    (clearPending k generationId).status = k.status := by
  unfold clearPending
  split
  · rfl
  · rfl

theorem Indexing.SagaWrite.knowledgeBases {identities : GenerationIdentities} {delayed : Bool} {db : Db}
    (h : SagaWrite identities s.reservations s.Fresh s.db delayed db) {k' : KnowledgeBase}
    (hk' : k' ∈ db.knowledgeBases) : KbOrigin s s' k' := by
  cases h with
  | reserved command knowledgeBase embedding filterSnapshot requestId generationId mem =>
      exact .of_setRow mem hk' rfl Iff.rfl
  | refused _ knowledgeBase generation counted request status code rows =>
      refine .of_setRow rows.knowledgeBase_mem hk' (clearPending_id _ _) ?_
      rw [clearPending_status]
  | abandoned knowledgeBase generation knowledgeBase_mem =>
      refine .of_setRow knowledgeBase_mem hk' (clearPending_id _ _) ?_
      rw [clearPending_status]
  | activated _ knowledgeBase generation request reservation jobId jobs rows =>
      exact .of_setRow rows.knowledgeBase_mem hk' rfl Iff.rfl

/-- **The knowledge bases after a step.** -/
theorem Effect.knowledgeBases (h : Effect settings s op s') {k' : KnowledgeBase}
    (hk' : k' ∈ s'.db.knowledgeBases) : KbOrigin s s' k' := by
  cases h with
  | activated lease expected graph job mutationId held fresh activation =>
      exact .of_setRow activation.graph_in.knowledgeBase hk' rfl Iff.rfl
  | uploaded request documentId versionId jobId mutationId checks knowledgeBase generation fresh creates =>
      exact .of_setRow creates.knowledgeBase_mem hk' rfl Iff.rfl
  | retried _ jobId db fresh write =>
      cases write with
      | ingestion => exact .of_mem hk'
      | rebuild => exact .of_mem hk'
  | saga _ delayed db reservations of_delayed write backed =>
      rcases write with rfl | write
      · exact .of_mem hk'
      · exact write.knowledgeBases hk'
  | created knowledgeBaseId fresh =>
      rcases List.mem_append.mp hk' with hmem | hmem
      · exact .of_mem hmem
      · rw [List.mem_singleton.mp hmem]
        exact .added fresh rfl
  | updated _ knowledgeBase status mem kept =>
      refine .of_setRow mem hk' rfl (iff_of_false ?_ kept)
      cases status with
      | active => exact fun hd => by cases hd
      | disabled => exact fun hd => by cases hd
  | schemaReplaced _ knowledgeBase canonical mutationId mem =>
      exact .of_setRow mem hk' rfl Iff.rfl
  | deleted _ knowledgeBase actorId jobId mem fresh kept =>
      rcases mem_setRow hk' with rfl | ⟨hmem, -⟩
      · exact .marked knowledgeBase mem rfl rfl ⟨purgeJob jobId actorId knowledgeBase.id,
          List.mem_append_right _ (List.mem_singleton.mpr rfl), rfl, rfl, rfl⟩
      · exact .of_mem hmem
  | purged _ lease db held purge knowledgeBase mem target deleting rows =>
      simp only [deleteRows, Except.ok.injEq, Prod.mk.injEq, true_and] at rows
      subst rows
      exact .of_mem (List.mem_of_mem_filter hk')
  | _ => exact .of_mem hk'

theorem Effect.leases_subset (h : Effect settings s op s') {L : JobLease} (hL : L ∈ s.leases) :
    L ∈ s'.leases := by
  obtain ⟨new, hleases, -⟩ := h.issued
  rw [hleases]
  exact List.mem_append_left new hL

/-- **What is gone stays gone.** -/
theorem Gone.step {knowledgeBaseId : ℕ} (hgone : Gone s knowledgeBaseId) (h : Effect settings s op s') :
    Gone s' knowledgeBaseId := by
  obtain ⟨habsent, L, hL, rfl⟩ := hgone
  refine ⟨?_, L, h.leases_subset hL, rfl⟩
  intro k' hk'
  cases h.knowledgeBases hk' with
  | kept k mem id => rw [id]; exact habsent k mem
  | marked k mem id => rw [id]; exact habsent k mem
  | added fresh => exact (fresh.lease hL).2.symm

/-- A purge of rows leaves a knowledge base gone. -/
theorem gone_of_deleteRows {lease : JobLease} {db : Db} (held : lease ∈ s.leases)
    (rows : deleteRows lease.targetId s.db = .ok ((), db)) {t : Sys} (hdb : t.db = db)
    (hleases : t.leases = s.leases) : Gone t lease.targetId := by
  simp only [deleteRows, Except.ok.injEq, Prod.mk.injEq, true_and] at rows
  refine ⟨?_, lease, hleases ▸ held, rfl⟩
  rw [hdb, ← rows]
  intro k hk
  simpa using (List.mem_filter.mp hk).2

/-- The knowledge base was purged with its jobs and its documents. -/
structure Purged (s : Sys) (knowledgeBaseId : ℕ) : Prop where
  gone : Gone s knowledgeBaseId
  jobs : ∀ J ∈ s.db.jobs, J.knowledgeBaseId ≠ some knowledgeBaseId
  documents : ∀ d ∈ s.db.documents, d.knowledgeBaseId ≠ knowledgeBaseId

/-- A knowledge base stays, unless it is purged. -/
theorem Effect.knowledgeBase_persists (h : Effect settings s op s') {id : ℕ}
    (hid : id ∈ s.db.knowledgeBases.map (·.id)) :
    id ∈ s'.db.knowledgeBases.map (·.id) ∨ Purged s' id := by
  have of_setRow {k : KnowledgeBase} (hset : s'.db.knowledgeBases = setRow (·.id) k s.db.knowledgeBases) :
      id ∈ s'.db.knowledgeBases.map (·.id) ∨ Purged s' id := by
    rw [hset, map_setRow]
    exact .inl hid
  cases h with
  | activated => exact of_setRow rfl
  | uploaded => exact of_setRow rfl
  | retried _ jobId db fresh write =>
      cases write with
      | ingestion => exact .inl hid
      | rebuild => exact .inl hid
  | saga _ delayed db reservations of_delayed write backed =>
      rcases write with rfl | write
      · exact .inl hid
      · cases write <;> exact of_setRow rfl
  | created =>
      rw [List.map_append]
      exact .inl (List.mem_append_left _ hid)
  | updated => exact of_setRow rfl
  | schemaReplaced => exact of_setRow rfl
  | deleted => exact of_setRow rfl
  | purged _ lease db held purge knowledgeBase mem target deleting rows =>
      by_cases htarget : id = lease.targetId
      · right
        rw [htarget]
        refine ⟨gone_of_deleteRows held rows rfl rfl, ?_, ?_⟩
        all_goals
          simp only [deleteRows, Except.ok.injEq, Prod.mk.injEq, true_and] at rows
          subst rows
        · intro J hJ
          simpa using (List.mem_filter.mp hJ).2
        · intro d hd
          simpa using (List.mem_filter.mp hd).2
      · left
        simp only [deleteRows, Except.ok.injEq, Prod.mk.injEq, true_and] at rows
        subst rows
        obtain ⟨k, hk, rfl⟩ := List.mem_map.mp hid
        exact List.mem_map_of_mem (List.mem_filter.mpr ⟨hk, by simpa using htarget⟩)
  | _ => exact .inl hid

end Gone

/-! ## Purge jobs -/

section Purge

variable {settings : Settings} {s s' : Sys} {op : Op}

/-- A purge job names its knowledge base through its target only; the knowledge base is being deleted
or not there; and a purge that has returned under the job has left nothing. -/
structure PurgeInv (s : Sys) : Prop where
  target : ∀ J ∈ s.db.jobs, J.operation = .purgeKnowledgeBase → J.knowledgeBaseId = none ∧
    ∀ k ∈ s.db.knowledgeBases, k.id = J.targetId → k.status = .deleting
  returned : ∀ x ∈ s.purged, ∀ J ∈ s.db.jobs, J.id = x.1 → J.operation = .purgeKnowledgeBase →
    ∀ k ∈ s.db.knowledgeBases, k.id ≠ J.targetId

/-- A knowledge base that a job of the state before names is deleting after a step if it was before. -/
theorem Effect.keeps_deleting (h : Effect settings s op s') {J : Job} (hJ : J ∈ s.db.jobs)
    (hdeleting : ∀ k ∈ s.db.knowledgeBases, k.id = J.targetId → k.status = .deleting) :
    ∀ k' ∈ s'.db.knowledgeBases, k'.id = J.targetId → k'.status = .deleting := by
  intro k' hk' hid
  cases h.knowledgeBases hk' with
  | kept k mem id deleting => exact deleting.mpr (hdeleting k mem (id.symm.trans hid))
  | marked k mem id deleting => exact deleting
  | added fresh => exact absurd hid.symm (fresh.job hJ).2.1

theorem Effect.keeps_absent (h : Effect settings s op s') {J : Job} (hJ : J ∈ s.db.jobs)
    (habsent : ∀ k ∈ s.db.knowledgeBases, k.id ≠ J.targetId) :
    ∀ k' ∈ s'.db.knowledgeBases, k'.id ≠ J.targetId := by
  intro k' hk' hid
  cases h.knowledgeBases hk' with
  | kept k mem id => exact habsent k mem (id.symm.trans hid)
  | marked k mem id => exact habsent k mem (id.symm.trans hid)
  | added fresh => exact (fresh.job hJ).2.1 hid.symm

/-- A purge that a step records has left nothing that is being deleted. -/
theorem Effect.purged_cases (hkeys : s.db.WellKeyed) (h : Effect settings s op s') {x : ℕ × ℕ}
    (hx : x ∈ s'.purged) :
    x ∈ s.purged ∨ ∃ lease ∈ s.leases, x.1 = lease.id ∧ (∀ J ∈ s'.db.jobs, J ∈ s.db.jobs) ∧
      ∀ k ∈ s'.db.knowledgeBases, k ∈ s.db.knowledgeBases ∧
        (k.id = lease.targetId → k.status ≠ .deleting) := by
  cases h with
  | purged _ lease db held purge knowledgeBase mem target deleting rows =>
      simp only [deleteRows, Except.ok.injEq, Prod.mk.injEq, true_and] at rows
      subst rows
      rcases List.mem_append.mp hx with hold | hnew
      · exact .inl hold
      · rw [List.mem_singleton.mp hnew]
        refine .inr ⟨lease, held, rfl, fun J hJ => List.mem_of_mem_filter hJ, ?_⟩
        intro k hk
        obtain ⟨hmem, hne⟩ := List.mem_filter.mp hk
        exact ⟨hmem, fun hid => absurd hid (by simpa using hne)⟩
  | purgeReturned _ lease held purge gone =>
      rcases List.mem_append.mp hx with hold | hnew
      · exact .inl hold
      · rw [List.mem_singleton.mp hnew]
        refine .inr ⟨lease, held, rfl, fun J hJ => hJ, fun k hk => ⟨hk, ?_⟩⟩
        intro hid hdeleting
        unfold purgeCollections at gone
        split at gone
        · rename_i hnone
          unfold Db.knowledgeBase? at hnone
          rw [List.find?_eq_none] at hnone
          exact hnone k hk (by simpa using hid)
        · rename_i row hrow
          obtain ⟨hmem, hrowid⟩ := mem_of_find? hrow
          obtain rfl : k = row := row_unique hkeys.knowledgeBases hk hmem (hid.trans hrowid.symm)
          simp [hdeleting] at gone
  | _ => exact .inl hx

/-- A step keeps the invariant. -/
theorem PurgeInv.step (hbase : Base s) (hinv : PurgeInv s) (h : Effect settings s op s') : PurgeInv s' := by
  refine ⟨?_, ?_⟩
  · intro J' hJ' hop
    cases h.jobs hJ' with
    | kept mem =>
        obtain ⟨hnone, hdeleting⟩ := hinv.target J' mem hop
        exact ⟨hnone, h.keeps_deleting mem hdeleting⟩
    | written J mem keeps =>
        obtain ⟨hnone, hdeleting⟩ := hinv.target J mem (keeps.operation.symm.trans hop)
        rw [keeps.knowledgeBaseId, keeps.targetId]
        exact ⟨hnone, h.keeps_deleting mem hdeleting⟩
    | added fresh new =>
        cases new with
        | purge knowledgeBase actorId jobId mem rows =>
            refine ⟨rfl, ?_⟩
            intro k' hk' hid
            rw [rows] at hk'
            rcases mem_setRow hk' with rfl | ⟨-, hne⟩
            · rfl
            · exact absurd hid hne
        | retry snapshot source knowledgeBase generation jobId actorId key hsource operation =>
            have hsourceOp : source.operation = .purgeKnowledgeBase := hop
            rw [hsourceOp] at operation
            simp at operation
        | _ => cases hop
  · intro x hx J' hJ' hid hop
    rcases h.purged_cases hbase.keys hx with hold | ⟨lease, hlease, hxid, hjobs, hkbs⟩
    · cases h.jobs hJ' with
      | kept mem => exact h.keeps_absent mem (hinv.returned x hold J' mem hid hop)
      | written J mem keeps =>
          rw [keeps.targetId]
          exact h.keeps_absent mem (hinv.returned x hold J mem (keeps.id.symm.trans hid)
            (keeps.operation.symm.trans hop))
      | added fresh new => exact absurd hid.symm (fresh.purged hold)
    · intro k hk hkid
      have hJ := hjobs J' hJ'
      obtain ⟨hkmem, hnot⟩ := hkbs k hk
      have htarget := (hbase.leases lease hlease J' hJ (hid.trans hxid)).targetId
      exact hnot (hkid.trans htarget.symm) ((hinv.target J' hJ hop).2 k hkmem hkid)

/-! ## The purge that is never stranded -/

/-- Every knowledge base that is being deleted has an active purge job, or repeating the deletion
queues one. -/
def PurgeNotStranded (s : Sys) : Prop :=
  ∀ k ∈ s.db.knowledgeBases, k.status = .deleting → ActivePurge s.db k.id ∨
    ∀ actorId jobId, s.Fresh jobId → ∃ db,
      deleteKnowledgeBase k.id actorId jobId s.db = .ok ((), db) ∧ ActivePurge db k.id

/-- The steps that do not end a purge job in failure: no purge raises, and no purge job whose attempts
are used up is finalized. -/
def PurgeAllowed (_ : Sys) (op : Op) : Prop :=
  match op with
  | .purgeRaised _ _ => False
  | .exhausted candidate => candidate.operation ≠ .purgeKnowledgeBase
  | _ => True

/-- A job that is written under the lease of another operation is not a purge. -/
theorem LeaseInv.not_purge (hinv : LeaseInv s) {L : JobLease} {J : Job} (hL : L ∈ s.leases)
    (hJ : J ∈ s.db.jobs) (hfence : fence s.db.now L J = true) (hop : L.operation ≠ .purgeKnowledgeBase) :
    J.operation ≠ .purgeKnowledgeBase := by
  rw [← (hinv L hL J hJ (fence_id J hfence)).operation]
  exact hop

/-- An allowed write to a purge job leaves it active while its knowledge base is there. -/
theorem JobWrite.purge_active (hbase : Base s) (hinv : PurgeInv s) (hallowed : PurgeAllowed s op)
    {J J' : Job} {leases : List JobLease} (hJ : J ∈ s.db.jobs) (hop : J.operation = .purgeKnowledgeBase)
    {k : KnowledgeBase} (hk : k ∈ s.db.knowledgeBases) (hid : k.id = J.targetId)
    (h : JobWrite settings s J op J' leases) : J'.status.isActive = true := by
  cases h with
  | claimed => rfl
  | heartbeat lease lease' duration held fence =>
      have hactive := fence_active fence
      exact hactive
  | released => rfl
  | exhausted candidate operation fence =>
      exact absurd ((exhaustedFence_iff fence).2.1.symm.trans hop) hallowed
  | stageRaised lease exception delay error held operation fence =>
      exact absurd hop (hbase.leases.not_purge held hJ fence (by rw [operation]; decide))
  | repairRaised lease raised delay error held operation fence =>
      exact absurd hop (hbase.leases.not_purge held hJ fence (by rw [operation]; decide))
  | purgeRaised => exact absurd hallowed id
  | purgeSucceeded lease held purge returned fence =>
      exact absurd hid (hinv.returned _ returned J hJ (fence_id J fence) hop k hk)
  | rebuilt _ lease _ _ held fence write =>
      have hrebuild : lease.operation = .rebuildGeneration := by
        cases write with
        | advanced expected fromStage toStage stages stage byLease => exact (expectedByLease_iff.mp byLease).1
        | checkpointed expected next stage byLease => exact (expectedByLease_iff.mp byLease).1
        | refreshed configured knowledgeBaseId snapshot operation => exact operation
        | finished operation => exact operation
      exact absurd hop (hbase.leases.not_purge held hJ (stageFence_iff.mp fence).1 (by rw [hrebuild]; decide))

/-- What an allowed step keeps: the purge job of a knowledge base that is being deleted. -/
theorem ActivePurge.step (hbase : Base s) (hinv : PurgeInv s) (hallowed : PurgeAllowed s op)
    (h : Effect settings s op s') {k : KnowledgeBase} (hk : k ∈ s.db.knowledgeBases)
    (hactive : ActivePurge s.db k.id) :
    ActivePurge s'.db k.id := by
  obtain ⟨J, hJ, hop, htarget, hstatus⟩ := hactive
  have of_mem (hmem : J ∈ s'.db.jobs) : ActivePurge s'.db k.id := ⟨J, hmem, hop, htarget, hstatus⟩
  -- a write to a job of another operation leaves the purge job alone
  have of_other {job after : Job} (hmem : job ∈ s.db.jobs) (hne : job.operation ≠ .purgeKnowledgeBase)
      (hid : after.id = job.id) : J ∈ setRow (·.id) after s.db.jobs := by
    apply mem_setRow_of_ne hJ
    rw [hid]
    intro heq
    rw [row_unique hbase.keys.jobs hJ hmem heq] at hop
    exact hne hop
  cases h with
  | job _ job after leases mem write =>
      by_cases hid : J.id = job.id
      · obtain rfl := row_unique hbase.keys.jobs hJ mem hid
        have hkeeps := write.keeps
        exact ⟨after, mem_setRow_self hJ hkeeps.id.symm, hkeeps.operation.trans hop,
          hkeeps.targetId.trans htarget,
          write.purge_active hbase hinv hallowed hJ hop hk htarget.symm⟩
      · exact of_mem (mem_setRow_of_ne hJ (by rwa [write.keeps.id]))
  | stage _ lease graph job after version state leases held commit issued =>
      have hfence := (stageFence_iff.mp commit.fence).1
      have hrunning := (fence_iff.mp hfence).2.1
      refine of_mem (of_other commit.job_mem ?_ (commit.write.keeps hrunning).id)
      exact hbase.leases.not_purge held commit.job_mem hfence (by rw [commit.operation]; decide)
  | failed _ graph job retryable code message failure operation =>
      exact of_mem (of_other failure.job_mem (by rw [operation]; decide) rfl)
  | activated lease expected graph job mutationId held fresh activation =>
      exact of_mem (of_other activation.job_mem (by rw [activation.operation]; decide) rfl)
  | uploaded => exact of_mem (List.mem_append_left _ hJ)
  | retried _ jobId db fresh write =>
      obtain ⟨added, hjobs⟩ := write.jobs_append
      refine of_mem ?_
      rw [hjobs]
      exact List.mem_append_left _ hJ
  | repaired => exact of_mem (List.mem_append_left _ hJ)
  | saga _ delayed db reservations of_delayed write backed =>
      rcases write with rfl | write
      · exact of_mem hJ
      · obtain ⟨added, hjobs⟩ := write.jobs_append
        refine of_mem ?_
        rw [hjobs]
        exact List.mem_append_left _ hJ
  | deleted => exact of_mem (List.mem_append_left _ hJ)
  | purged _ lease db held purge knowledgeBase mem target deleting rows =>
      simp only [deleteRows, Except.ok.injEq, Prod.mk.injEq, true_and] at rows
      subst rows
      refine of_mem (List.mem_filter.mpr ⟨hJ, ?_⟩)
      rw [(hinv.target J hJ hop).1]
      rfl
  | _ => exact of_mem hJ

/-- In the runs whose steps are allowed, a knowledge base that is being deleted has an active purge
job. -/
theorem activePurge_of_allowed (h : ReachableWhere settings PurgeAllowed s) :
    PurgeInv s ∧ ∀ k ∈ s.db.knowledgeBases, k.status = .deleting → ActivePurge s.db k.id := by
  refine (ReachableWhere.induction_on (fun s => PurgeInv s ∧
    ∀ k ∈ s.db.knowledgeBases, k.status = .deleting → ActivePurge s.db k.id) ?_ ?_ h).2
  · refine ⟨⟨fun J hJ => ?_, fun x hx => ?_⟩, fun k hk => ?_⟩
    · cases hJ
    · cases hx
    · cases hk
  · rintro s s' op hbase ⟨hinv, hactive⟩ hallowed heffect
    refine ⟨hinv.step hbase heffect, ?_⟩
    intro k' hk' hdeleting
    cases heffect.knowledgeBases hk' with
    | kept k mem id deleting =>
        rw [id]
        exact (hactive k mem (deleting.mp hdeleting)).step hbase hinv hallowed heffect mem
    | marked k mem id deleting purge => exact purge
    | added fresh active =>
        rw [active] at hdeleting
        cases hdeleting

/-- **A purge is never stranded** in a run in which no purge raises and no purge job runs out of
attempts. -/
theorem purge_never_stranded (h : ReachableWhere settings PurgeAllowed s) : PurgeNotStranded s := by
  intro k hk hdeleting
  exact .inl ((activePurge_of_allowed h).2 k hk hdeleting)

end Purge

/-- A knowledge base is created and deleted. -/
def deletionRun : List Op := [.created 1, .deleted 1 7 2]

/-- The lease of its purge. -/
def deletionLease : JobLease :=
  ⟨2, .purgeKnowledgeBase, .knowledgeBase, 1, none, none, none, none, 0, none, 1, 5, "worker".toList, 1,
    30, none, none⟩

theorem purge_never_stranded_deletionRun :
    PurgeNotStranded (exec sampleSettings Sys.init deletionRun) := by
  apply purge_never_stranded
  apply reachableWhere_exec
  intro op hop s
  simp only [deletionRun, List.mem_cons, List.not_mem_nil, or_false] at hop
  rcases hop with rfl | rfl
  · exact trivial
  · exact trivial

/-- The purge raises once. -/
def failedPurgeRun : List Op :=
  deletionRun ++ [.claimed "worker".toList 30 2, .purgeRaised deletionLease 0]

/-- The job has failed for good then, and repeating the deletion queues nothing. -/
theorem purge_stranded_after_error : ∃ s, Reachable sampleSettings s ∧ ¬ PurgeNotStranded s := by
  refine ⟨exec sampleSettings Sys.init failedPurgeRun, reachable_exec failedPurgeRun, ?_⟩
  have hended : ∀ J ∈ (exec sampleSettings Sys.init failedPurgeRun).db.jobs, J.status.isActive = false := by
    decide
  have hrow : { newKnowledgeBase 1 with status := .deleting }
      ∈ (exec sampleSettings Sys.init failedPurgeRun).db.knowledgeBases := by
    decide
  have hnone : ¬ ActivePurge (exec sampleSettings Sys.init failedPurgeRun).db 1 := by
    rintro ⟨J, hJ, -, -, hactive⟩
    rw [hended J hJ] at hactive
    cases hactive
  intro h
  rcases h _ hrow rfl with hactive | hrepeat
  · exact hnone hactive
  · obtain ⟨db, hdelete, hactive⟩ := hrepeat 7 9 (by decide)
    have hsame : deleteKnowledgeBase 1 7 9 (exec sampleSettings Sys.init failedPurgeRun).db
        = .ok ((), (exec sampleSettings Sys.init failedPurgeRun).db) := by
      rfl
    have hdb : (exec sampleSettings Sys.init failedPurgeRun).db = db := by
      simpa using hsame.symm.trans hdelete
    exact hnone (hdb ▸ hactive)

end VeloxRag
