import VeloxRag.Indexing.Repair
import VeloxRag.Jobs.FencedWrites

/-!
# What a rebuild writes

Every commit of a rebuild changes its own job and nothing else, after checking that the
generation is still the active one and that the revision is the one the job was pinned to.

## Main definitions

* `ControlPlaneCurrent` — what `assertControlPlaneCurrent` has checked.
* `RebuildWrite` — the job before and after a commit.
* `advanceRepair_eq_ok` … `finalizeRepair_eq_ok` — every commit is one.
-/

namespace VeloxRag.Indexing

open Lib Jobs

/-- The knowledge base is at the revision of a snapshot and the generation is its active one, with
the anchor of the snapshot. -/
structure ControlPlaneCurrent (db : Db) (expected : RepairSnapshot) (knowledgeBase : KnowledgeBase)
    (generation : Generation) : Prop where
  knowledgeBase_mem : knowledgeBase ∈ db.knowledgeBases
  generation_mem : generation ∈ db.generations
  knowledgeBaseId : knowledgeBase.id = expected.knowledgeBaseId
  generationId : generation.id = expected.generationId
  owner : generation.knowledgeBaseId = knowledgeBase.id
  status : generation.status = .active
  active : knowledgeBase.activeIndexGenerationId = some generation.id
  revision : knowledgeBase.mutationRevision = expected.mutationRevision

theorem assertControlPlaneCurrent_eq_ok {configured : Bool} {expected : RepairSnapshot} {db db' : Db}
    {a : Unit} (h : assertControlPlaneCurrent configured expected db = .ok (a, db')) :
    db' = db ∧ ∃ knowledgeBase generation, ControlPlaneCurrent db expected knowledgeBase generation := by
  unfold assertControlPlaneCurrent at h
  split at h
  · rename_i knowledgeBase generation hk hg
    obtain ⟨hkmem, hkid⟩ := mem_of_find? hk
    obtain ⟨hgmem, hgid⟩ := mem_of_find? hg
    split at h
    · rename_i hcond
      obtain ⟨-, howner, hstatus, hactive, hrevision, -⟩ := hcond
      simp only [Except.ok.injEq, Prod.mk.injEq] at h
      exact ⟨h.2.symm, knowledgeBase, generation, hkmem, hgmem, hkid, hgid, by rw [howner, hkid], hstatus,
        by rw [hactive, hgid], hrevision⟩
    · cases h
  · cases h

theorem expectedByLease_iff {lease : JobLease} {snapshot : RepairSnapshot} :
    expectedByLease lease snapshot = true ↔ lease.operation = .rebuildGeneration ∧
      lease.targetType = .indexGeneration ∧ lease.indexGenerationId = some lease.targetId ∧
      snapshot.generationId = lease.targetId ∧ lease.mutationId = some snapshot.anchorMutationId ∧
      lease.targetRevision = some snapshot.mutationRevision ∧
      lease.progressTotal = some snapshot.pointTotal := by
  simp only [expectedByLease, Bool.and_eq_true, decide_eq_true_eq]
  tauto

/-- A snapshot is of the active generation of a knowledge base, at its revision. -/
theorem snapshotFromRows_active {digest : ChunkerDigest} {configured : Bool} {db : Db}
    {knowledgeBase : KnowledgeBase} {generation : Generation} {snapshot : RepairSnapshot}
    (h : snapshotFromRows digest configured db knowledgeBase generation = .ok snapshot) :
    generation.knowledgeBaseId = knowledgeBase.id ∧ generation.status = .active ∧
      snapshot.knowledgeBaseId = knowledgeBase.id ∧ snapshot.generationId = generation.id := by
  unfold snapshotFromRows at h
  split at h
  · cases h
  · rename_i hactive
    simp only [not_or, ne_eq, not_not] at hactive
    split at h
    · obtain ⟨⟨targets, total⟩, -, h⟩ := bind_eq_ok.mp h
      obtain rfl := pure_ok_iff.mp h
      exact ⟨hactive.1, hactive.2.1, rfl, rfl⟩
    · cases h

/-- **The commits of a rebuild**: the job after. -/
inductive RebuildWrite (digest : ChunkerDigest) (db : Db) (lease : JobLease) (job : Job) : Job → Prop
  | advanced (expected : RepairSnapshot) (fromStage toStage : Stage)
      (stages : fromStage = .indexing ∧ toStage = .validating ∨ fromStage = .validating ∧ toStage = .complete)
      (stage : lease.stage = some fromStage) (byLease : expectedByLease lease expected = true)
      (current : ∃ knowledgeBase generation, ControlPlaneCurrent db expected knowledgeBase generation) :
      RebuildWrite digest db lease job (checkpointValues (some toStage) (some toStage) expected.pointTotal
        (some expected.pointTotal) job)
  | checkpointed (expected : RepairSnapshot) (next : ℕ) (stage : lease.stage = some .indexing)
      (byLease : expectedByLease lease expected = true)
      (current : ∃ knowledgeBase generation, ControlPlaneCurrent db expected knowledgeBase generation)
      (bound : next < expected.pointTotal) :
      RebuildWrite digest db lease job (progressValues next (some expected.pointTotal) job)
  | refreshed (configured : Bool) (knowledgeBaseId : ℕ) (snapshot : RepairSnapshot)
      (operation : lease.operation = .rebuildGeneration)
      (rows : lockedSnapshot digest configured knowledgeBaseId lease.targetId db = .ok snapshot) :
      RebuildWrite digest db lease job
        (resetValues ⟨snapshot.mutationRevision, snapshot.pointTotal⟩ job)
  | finished (operation : lease.operation = .rebuildGeneration) :
      RebuildWrite digest db lease job (finishedValues db.now job)

/-- Only the lease of a rebuild writes so. -/
theorem RebuildWrite.operation {digest : ChunkerDigest} {db : Db} {lease : JobLease} {job after : Job}
    (h : RebuildWrite digest db lease job after) : lease.operation = .rebuildGeneration := by
  have hexpected {expected : RepairSnapshot} (byLease : expectedByLease lease expected = true) :
      lease.operation = .rebuildGeneration := by
    simp only [expectedByLease, Bool.and_eq_true, decide_eq_true_eq] at byLease
    exact byLease.1.1.1.1.1.1
  cases h with
  | advanced _ _ _ _ _ byLease => exact hexpected byLease
  | checkpointed _ _ _ byLease => exact hexpected byLease
  | refreshed _ _ _ operation => exact operation
  | finished operation => exact operation

section Commits

variable {digest : ChunkerDigest} {configured : Bool} {lease lease' : JobLease}
  {expected : RepairSnapshot} {db db' : Db} {job : Job}

/-- The action of the commits leaves the database alone. -/
theorem assertControlPlaneCurrent_keeps (r : Unit) (db₁ : Db)
    (h : assertControlPlaneCurrent configured expected db = .ok (r, db₁)) :
    db₁.jobs = db.jobs ∧ db₁.now = db.now := by
  obtain ⟨rfl, -⟩ := assertControlPlaneCurrent_eq_ok h
  exact ⟨rfl, rfl⟩

theorem advanceRepair_eq_ok {fromStage toStage : Stage} (hkeys : db.WellKeyed)
    (hstages : fromStage = .indexing ∧ toStage = .validating ∨ fromStage = .validating ∧ toStage = .complete)
    (h : advanceRepair configured lease expected fromStage toStage db = .ok (job, db')) :
    ∃ J ∈ db.jobs, stageFence db.now lease J = true ∧ RebuildWrite digest db lease J job ∧
      db' = db.setJob job := by
  unfold advanceRepair at h
  split at h
  · rename_i hlease
    obtain ⟨J, hJ, hfence, rfl, r, db₁, hact, rfl⟩ :=
      advanceStage_eq_ok hkeys.jobs assertControlPlaneCurrent_keeps h
    obtain ⟨rfl, hcurrent⟩ := assertControlPlaneCurrent_eq_ok hact
    exact ⟨J, hJ, hfence, .advanced expected fromStage toStage hstages hlease.2 hlease.1 hcurrent, rfl⟩
  · cases h

theorem checkpointRepair_eq_ok {next : ℕ} (hkeys : db.WellKeyed)
    (h : checkpointRepair configured lease expected next db = .ok (job, db')) :
    ∃ J ∈ db.jobs, stageFence db.now lease J = true ∧ RebuildWrite digest db lease J job ∧
      db' = db.setJob job := by
  unfold checkpointRepair at h
  split at h
  · rename_i hlease
    obtain ⟨J, hJ, hfence, rfl, r, db₁, hact, rfl⟩ :=
      commitStageCheckpoint_eq_ok hkeys.jobs assertControlPlaneCurrent_keeps h
    obtain ⟨rfl, hcurrent⟩ := assertControlPlaneCurrent_eq_ok hact
    exact ⟨J, hJ, hfence, .checkpointed expected next hlease.2.1 hlease.1 hcurrent hlease.2.2, rfl⟩
  · cases h

theorem refreshTarget_eq_ok {knowledgeBaseId : ℕ} (hkeys : db.WellKeyed)
    (h : refreshTarget digest configured lease knowledgeBaseId db = .ok (lease', db')) :
    ∃ J ∈ db.jobs, stageFence db.now lease J = true ∧ ∃ after, RebuildWrite digest db lease J after ∧
      leaseFromJob after = some lease' ∧ db' = db.setJob after := by
  unfold refreshTarget at h
  have hrefresh {r : RebuildTargetRefresh} {db₁ : Db} (hact : (do
      let snapshot ← lockedSnapshot digest configured knowledgeBaseId lease.targetId db
      pure (⟨snapshot.mutationRevision, snapshot.pointTotal⟩, db)) = Except.ok (r, db₁)) :
      db₁ = db ∧ ∃ snapshot, lockedSnapshot digest configured knowledgeBaseId lease.targetId db
        = .ok snapshot ∧ r = ⟨snapshot.mutationRevision, snapshot.pointTotal⟩ := by
    obtain ⟨snapshot, hsnapshot, hr⟩ := bind_eq_ok.mp hact
    simp only [pure_ok_iff, Prod.mk.injEq] at hr
    exact ⟨hr.2.symm, snapshot, hsnapshot, hr.1.symm⟩
  obtain ⟨hop, J, hJ, hfence, refresh, hact, hlease, rfl⟩ :=
    resetRebuildTarget_eq_ok hkeys.jobs (fun r db₁ hact => (hrefresh hact).1) h
  obtain ⟨-, snapshot, hsnapshot, rfl⟩ := hrefresh hact
  exact ⟨J, hJ, hfence, _, .refreshed configured knowledgeBaseId snapshot hop hsnapshot, hlease, rfl⟩

theorem repairFence_iff {now : ℕ} (h : repairFence now lease job = true) :
    job.id = lease.id ∧ job.status = .running ∧ job.leaseOwner = some lease.leaseOwner ∧
      job.leaseEpoch = lease.leaseEpoch ∧ job.mutationId = lease.mutationId ∧ job.stage = lease.stage ∧
      ∃ t, job.leaseExpiresAt = some t ∧ now < t := by
  simp only [repairFence, Bool.and_eq_true, decide_eq_true_eq, Option.any_eq_true] at h
  tauto

theorem finalizeRepair_eq_ok {a : Unit}
    (h : finalizeRepair digest configured lease expected db = .ok (a, db')) :
    ∃ J ∈ db.jobs, stageFence db.now lease J = true ∧ RebuildWrite digest db lease J
      (finishedValues db.now J) ∧ db' = db.setJob (finishedValues db.now J) := by
  unfold finalizeRepair at h
  split at h
  · rename_i hlease
    obtain ⟨current, -, h⟩ := bind_eq_ok.mp (finalizeDomain_eq_ok h)
    split at h
    · cases h
    · rename_i J hfind
      split at h
      · cases h
      · simp only [pure_ok_iff, Prod.mk.injEq] at h
        obtain ⟨hid, hrunning, howner, hepoch, hmutation, hstage, hexpires⟩ :=
          repairFence_iff (List.find?_some hfind)
        refine ⟨J, List.mem_of_find?_eq_some hfind, ?_, .finished (expectedByLease_iff.mp hlease.1).1,
          h.2.symm⟩
        exact stageFence_iff.mpr ⟨fence_iff.mpr ⟨hid, hrunning, howner, hepoch, hmutation, hexpires⟩, hstage⟩
  · cases h

end Commits

end VeloxRag.Indexing
