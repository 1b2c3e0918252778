import VeloxRag.System.Accounting

/-!
# Leases fence their jobs

A worker that has lost its lease may still be running: it may wake up after another worker has
claimed the job, and it still believes what it has loaded.  Nothing that it does reaches the
database any more, except that a purge may still delete the rows of its knowledge base.

## Main definitions

* `RowWrite` — who may write a row of the table of jobs.
* `OwnerInv` — all leases of one claim name one owner.
* `Dead` — a lease that is not in force and never will be.
* `lease_fencing`, `dead_lease_commits_nothing` — what leases are for.
-/

namespace VeloxRag

open Lib Jobs Ingestion Indexing Metadata

/-- **Who writes the row of a job**: the worker that claims it, a worker whose lease is in force, or
the runner that finds its attempts used up. -/
inductive RowWrite (s : Sys) (op : Op) (J J' : Job) : Prop
  | claimed (owner : Str) (duration : ℕ) (claims : op = .claimed owner duration J.id)
      (eligible : eligible s.db.now J = true) (left : J.attemptCount < J.maxAttempts)
      (after : J' = claimValues owner duration s.db.now J)
  | leased (lease : JobLease) (used : op.lease? = some lease) (held : lease ∈ s.leases)
      (inForce : lease.InForce s.db.now J) (epoch : J'.leaseEpoch = J.leaseEpoch)
      (owner : J'.status = .running → J'.leaseOwner = J.leaseOwner)
  | exhausted (candidate : Job) (ends : op = .exhausted candidate)
      (eligible : eligible s.db.now J = true) (spent : J.attemptCount = J.maxAttempts)
      (epoch : J'.leaseEpoch = J.leaseEpoch) (after : J'.status = .failed)

section Rows

variable {settings : Settings} {s s' : Sys} {op : Op} {J J' : Job}

theorem errorValues_not_running {error : JobExecutionError} {delay now : ℕ} {job : Job} :
    (errorValues error delay now job).status ≠ .running := by
  simp only [errorValues, failureValues]
  split_ifs <;> simp

theorem succeededValues_not_running {now : ℕ} {job : Job} : (succeededValues now job).status ≠ .running := by
  simp only [succeededValues]
  split_ifs <;> simp

theorem Indexing.RebuildWrite.owner {digest : ChunkerDigest} {db : Db} {lease : JobLease} {job after : Job}
    (h : RebuildWrite digest db lease job after) : after.leaseEpoch = job.leaseEpoch ∧
      (after.status = .running → after.leaseOwner = job.leaseOwner) := by
  cases h with
  | finished => exact ⟨rfl, fun hr => by cases hr⟩
  | _ => exact ⟨rfl, fun _ => rfl⟩

theorem Ingestion.StageWrite.owner {digest : ChunkerDigest} {defaults : ℤ × ℤ} {now : ℕ} {graph : StageGraph}
    {job after : Job} {version : Version} {state : IndexState}
    (h : StageWrite digest defaults now graph job version state after) :
    after.leaseEpoch = job.leaseEpoch ∧ after.leaseOwner = job.leaseOwner := by
  cases h with
  | embedded =>
      split
      · exact ⟨rfl, rfl⟩
      · exact ⟨rfl, rfl⟩
  | _ => exact ⟨rfl, rfl⟩

/-- A write to one job is made by someone who may write it. -/
theorem JobWrite.row {after : Job} {leases : List JobLease} (h : JobWrite settings s J op after leases) :
    RowWrite s op J after := by
  cases h with
  | claimed owner duration lease heligible left => exact .claimed owner duration rfl heligible left rfl
  | heartbeat lease lease' duration held fence =>
      exact .leased lease rfl held (inForce_of_fence fence) rfl fun _ => rfl
  | released lease held fence =>
      exact .leased lease rfl held (inForce_of_fence fence) rfl fun hr => by cases hr
  | exhausted candidate operation fence =>
      obtain ⟨-, -, -, -, -, -, -, hspent, -, heligible⟩ := exhaustedFence_iff fence
      exact .exhausted candidate rfl heligible hspent rfl rfl
  | stageRaised lease exception delay error held operation fence =>
      exact .leased lease rfl held (inForce_of_fence fence) rfl fun hr => absurd hr errorValues_not_running
  | repairRaised lease raised delay error held operation fence =>
      exact .leased lease rfl held (inForce_of_fence fence) rfl fun hr => absurd hr errorValues_not_running
  | purgeRaised lease delay held purge fence =>
      exact .leased lease rfl held (inForce_of_fence fence) rfl fun hr => absurd hr errorValues_not_running
  | purgeSucceeded lease held purge returned fence =>
      exact .leased lease rfl held (inForce_of_fence fence) rfl fun hr => absurd hr succeededValues_not_running
  | rebuilt _ lease _ _ held fence write issued used =>
      exact .leased lease used held (inForce_of_stageFence fence) write.owner.1 write.owner.2

/-- The row of a job after one row was replaced. -/
theorem eq_or_row_of_setRow {job after : Job} (hkeys : (s.db.jobs.map (·.id)).Nodup) (hJ : J ∈ s.db.jobs)
    (hid : J'.id = J.id) (mem : job ∈ s.db.jobs) (id : after.id = job.id) (row : RowWrite s op job after)
    (h : J' ∈ setRow (·.id) after s.db.jobs) : J' = J ∨ RowWrite s op J J' := by
  rcases mem_setRow h with rfl | ⟨hmem, -⟩
  · obtain rfl := row_unique hkeys mem hJ (id.symm.trans hid)
    exact .inr row
  · exact .inl (row_unique hkeys hmem hJ hid)

theorem eq_of_append {added : List Job} {jobs : List Job} (hkeys : (s'.db.jobs.map (·.id)).Nodup)
    (hjobs : s'.db.jobs = jobs ++ added) (hJ : J ∈ jobs) (hJ' : J' ∈ s'.db.jobs) (hid : J'.id = J.id) :
    J' = J :=
  row_unique hkeys hJ' (hjobs ▸ List.mem_append_left added hJ) hid

/-- **Nobody else writes the row of a job.** -/
theorem Effect.row (hkeys : s.db.WellKeyed) (h : Effect settings s op s') (hJ : J ∈ s.db.jobs)
    (hJ' : J' ∈ s'.db.jobs) (hid : J'.id = J.id) : J' = J ∨ RowWrite s op J J' := by
  have hkeys' := (wellKeyed_step hkeys h).jobs
  have hsame (hmem : J' ∈ s.db.jobs) : J' = J ∨ RowWrite s op J J' :=
    .inl (row_unique hkeys.jobs hmem hJ hid)
  cases h with
  | job _ job after leases mem write =>
      exact eq_or_row_of_setRow hkeys.jobs hJ hid mem write.keeps.id write.row hJ'
  | stage _ lease graph job after version state leases held commit issued used =>
      have hrunning := (fence_iff.mp (stageFence_iff.mp commit.fence).1).2.1
      exact eq_or_row_of_setRow hkeys.jobs hJ hid commit.job_mem (commit.write.keeps hrunning).id
        (.leased lease used held (inForce_of_stageFence commit.fence) commit.write.owner.1
          fun _ => commit.write.owner.2) hJ'
  | failed _ graph job retryable code message failure operation fence =>
      refine eq_or_row_of_setRow hkeys.jobs hJ hid failure.job_mem (failedValues_keeps failure.active).id ?_ hJ'
      cases fence with
      | leased _ lease used held inForce => exact .leased lease used held inForce rfl fun hr => by cases hr
      | exhausted candidate fence =>
          obtain ⟨-, -, -, -, -, -, -, hspent, -, heligible⟩ := exhaustedFence_iff fence
          exact .exhausted candidate rfl heligible hspent rfl rfl
  | activated lease expected graph job mutationId held fresh activation =>
      exact eq_or_row_of_setRow hkeys.jobs hJ hid activation.job_mem
        (finishedValues_keeps (fence_active activation.fence)).id
        (.leased lease rfl held (inForce_of_fence activation.fence) rfl fun hr => by cases hr) hJ'
  | uploaded => exact .inl (eq_of_append hkeys' rfl hJ hJ' hid)
  | retried _ jobId db fresh write =>
      obtain ⟨added, hjobs⟩ := write.jobs_append
      exact .inl (eq_of_append hkeys' hjobs hJ hJ' hid)
  | repaired => exact .inl (eq_of_append hkeys' rfl hJ hJ' hid)
  | saga _ delayed db reservations of_delayed write =>
      rcases write with rfl | write
      · exact hsame hJ'
      · obtain ⟨added, hjobs⟩ := write.jobs_append
        exact .inl (eq_of_append hkeys' hjobs hJ hJ' hid)
  | deleted => exact .inl (eq_of_append hkeys' rfl hJ hJ' hid)
  | purged _ lease db held purge knowledgeBase mem target deleting rows =>
      simp only [deleteRows, Except.ok.injEq, Prod.mk.injEq, true_and] at rows
      subst rows
      exact hsame (List.mem_of_mem_filter hJ')
  | _ => exact hsame hJ'

/-- An operation of a worker, but for a purge, commits only while its lease is in force. -/
theorem Effect.inForce {lease : JobLease} (h : Effect settings s op s') (used : op.lease? = some lease)
    (rows : op ≠ .purged lease) : ∃ J ∈ s.db.jobs, lease.InForce s.db.now J := by
  have hfree (free : op.lease? = none) : ∃ J ∈ s.db.jobs, lease.InForce s.db.now J := by
    rw [free] at used
    cases used
  have hused {other : JobLease} {J : Job} (hother : op.lease? = some other) (mem : J ∈ s.db.jobs)
      (inForce : other.InForce s.db.now J) : ∃ J ∈ s.db.jobs, lease.InForce s.db.now J := by
    obtain rfl := Option.some.inj (hother.symm.trans used)
    exact ⟨J, mem, inForce⟩
  cases h with
  | idle _ free => exact hfree free
  | job _ job after leases mem write =>
      cases write.row with
      | claimed owner duration claims => exact hfree (claims ▸ rfl)
      | leased other hother held inForce => exact hused hother mem inForce
      | exhausted candidate ends => exact hfree (ends ▸ rfl)
  | stage _ other graph job after version state leases held commit issued hother =>
      exact hused hother commit.job_mem (inForce_of_stageFence commit.fence)
  | failed _ graph job retryable code message failure operation fence =>
      cases fence with
      | leased _ other hother held inForce => exact hused hother failure.job_mem inForce
      | exhausted candidate => exact hfree rfl
  | activated other expected graph job mutationId held fresh activation =>
      exact hused rfl activation.job_mem (inForce_of_fence activation.fence)
  | retried _ jobId db fresh write free => exact hfree free
  | repaired _ _ _ _ _ _ _ _ _ _ _ _ _ _ free => exact hfree free
  | saga _ _ _ _ _ _ _ free => exact hfree free
  | claims _ _ _ free => exact hfree free
  | updated _ _ _ _ _ free => exact hfree free
  | schemaReplaced _ _ _ _ _ _ _ free => exact hfree free
  | deleted _ _ _ _ _ _ _ free => exact hfree free
  | purged _ other db held purge knowledgeBase mem target deleting hrows purges =>
      subst purges
      obtain rfl := Option.some.inj used
      exact absurd rfl rows
  | purgeReturned _ other held purge gone purges =>
      subst purges
      obtain rfl := Option.some.inj used
      exact absurd rfl rows
  | _ => exact hfree rfl

/-- Time does not run backwards. -/
theorem Effect.now_le (h : Effect settings s op s') : s.db.now ≤ s'.db.now := by
  cases h with
  | tick elapsed => exact Nat.le_add_right _ _
  | retried _ jobId db fresh write => cases write <;> exact le_rfl
  | saga _ delayed db reservations of_delayed write =>
      rcases write with rfl | write
      · exact le_rfl
      · cases write <;> exact le_rfl
  | purged _ lease db held purge knowledgeBase mem target deleting rows =>
      simp only [deleteRows, Except.ok.injEq, Prod.mk.injEq, true_and] at rows
      subst rows
      exact le_rfl
  | _ => exact le_rfl

end Rows

/-! ## The owner of an epoch -/

/-- The leases of one job and epoch name one owner, and so does the job while it runs under it. -/
structure OwnerInv (s : Sys) : Prop where
  leases : ∀ L ∈ s.leases, ∀ L' ∈ s.leases, L'.id = L.id → L'.leaseEpoch = L.leaseEpoch →
    L'.leaseOwner = L.leaseOwner
  jobs : ∀ L ∈ s.leases, ∀ J ∈ s.db.jobs, J.id = L.id → J.leaseEpoch = L.leaseEpoch →
    J.status = .running → J.leaseOwner = some L.leaseOwner

section Owners

variable {settings : Settings} {s s' : Sys} {op : Op}

/-- A job that runs after a step under the epoch of an older lease has the owner of the lease. -/
theorem OwnerInv.job_step (hbase : Base s) (hinv : OwnerInv s) (h : Effect settings s op s') {L : JobLease}
    (hL : L ∈ s.leases) {J' : Job} (hJ' : J' ∈ s'.db.jobs) (hid : J'.id = L.id)
    (hepoch : J'.leaseEpoch = L.leaseEpoch) (hrunning : J'.status = .running) :
    J'.leaseOwner = some L.leaseOwner := by
  cases h.jobs hJ' with
  | kept mem => exact hinv.jobs L hL J' mem hid hepoch hrunning
  | added fresh => exact absurd hid.symm (fresh.lease hL).1
  | written J mem keeps =>
      have hJid : J.id = L.id := keeps.id.symm.trans hid
      have hold := (hbase.leases L hL J mem hJid).epoch
      rcases h.row hbase.keys mem hJ' keeps.id with rfl | hrow
      · exact hinv.jobs L hL J' mem hid hepoch hrunning
      · cases hrow with
        | claimed owner duration claims eligible left after =>
            -- the claim has raised the epoch above that of every lease
            rw [after] at hepoch
            simp only [claimValues] at hepoch
            omega
        | leased lease used held inForce epoch owner =>
            rw [owner hrunning]
            exact hinv.jobs L hL J mem hJid (epoch.symm.trans hepoch) inForce.running
        | exhausted candidate ends eligible spent epoch after =>
            rw [after] at hrunning
            cases hrunning

theorem OwnerInv.step (hbase : Base s) (hinv : OwnerInv s) (h : Effect settings s op s') : OwnerInv s' := by
  have hkeys := (wellKeyed_step hbase.keys h).jobs
  obtain ⟨new, hleases, hnew⟩ := h.issued
  have hjobs : ∀ L ∈ s'.leases, ∀ J' ∈ s'.db.jobs, J'.id = L.id → J'.leaseEpoch = L.leaseEpoch →
      J'.status = .running → J'.leaseOwner = some L.leaseOwner := by
    intro L hL J' hJ' hid hepoch hrunning
    rw [hleases] at hL
    rcases List.mem_append.mp hL with hold | hissued
    · exact hinv.job_step hbase h hold hJ' hid hepoch hrunning
    · obtain ⟨J, hJ, hlease⟩ := hnew L hissued
      obtain rfl := row_unique hkeys hJ' hJ (hid.trans (Leased.of_leaseFromJob hlease).1)
      exact (leaseFromJob_eq_some hlease).2.1
  refine ⟨?_, hjobs⟩
  -- a new lease is that of a job, whose owner the other lease names as well
  have hissued : ∀ L ∈ new, ∀ L' ∈ s'.leases, L'.id = L.id → L'.leaseEpoch = L.leaseEpoch →
      L'.leaseOwner = L.leaseOwner := by
    intro L hL L' hL' hid hepoch
    obtain ⟨J, hJ, hlease⟩ := hnew L hL
    obtain ⟨hrunning, howner, -, heq⟩ := leaseFromJob_eq_some hlease
    have hJid : L.id = J.id := (Leased.of_leaseFromJob hlease).1
    have hJepoch : L.leaseEpoch = J.leaseEpoch := by rw [heq]
    have hother := hjobs L' hL' J hJ (hJid.symm.trans hid.symm) (hJepoch.symm.trans hepoch.symm) hrunning
    exact Option.some.inj (hother.symm.trans howner)
  intro L hL L' hL' hid hepoch
  have hmem := hL
  have hmem' := hL'
  rw [hleases] at hmem hmem'
  rcases List.mem_append.mp hmem with hold | hL₁
  · rcases List.mem_append.mp hmem' with hold' | hL₁'
    · exact hinv.leases L hold L' hold' hid hepoch
    · exact (hissued L' hL₁' L hL hid.symm hepoch.symm).symm
  · exact hissued L hL₁ L' hL' hid hepoch

theorem ownerInv_init : OwnerInv Sys.init := by
  constructor <;> exact fun L hL => absurd hL List.not_mem_nil

theorem ownerInv_of_reachable (h : Reachable settings s) : Base s ∧ OwnerInv s :=
  h.induction_on OwnerInv ownerInv_init fun hbase hinv heffect => hinv.step hbase heffect

/-- **Leases fence their jobs**: a row changes only by a claim, which raises its epoch above that of
every lease that was issued, under a lease that is in force, or when its attempts are used up; and all
leases of one epoch were issued to one worker. -/
theorem lease_fencing (h : Reachable settings s) (hop : op.apply settings s = some s') :
    (∀ J ∈ s.db.jobs, ∀ J' ∈ s'.db.jobs, J'.id = J.id → J' = J ∨ RowWrite s op J J') ∧
    (∀ L ∈ s'.leases, ∀ J' ∈ s'.db.jobs, J'.id = L.id → L.leaseEpoch ≤ J'.leaseEpoch) ∧
    ∀ L ∈ s'.leases, ∀ L' ∈ s'.leases, L'.id = L.id → L'.leaseEpoch = L.leaseEpoch →
      L'.leaseOwner = L.leaseOwner := by
  obtain ⟨hbase, hinv⟩ := ownerInv_of_reachable h
  have heffect := hbase.effect hop
  refine ⟨?_, ?_, (hinv.step hbase heffect).leases⟩
  · intro J hJ J' hJ' hid
    exact heffect.row hbase.keys hJ hJ' hid
  · intro L hL J' hJ' hid
    exact ((hbase.step heffect).leases L hL J' hJ' hid).epoch

end Owners

/-! ## Leases that are lost -/

/-- No job with this identity runs, unexpired, under this epoch or an earlier one. -/
def Dead (id epoch : ℕ) (s : Sys) : Prop :=
  ∀ J ∈ s.db.jobs, J.id = id → J.status = .running → J.leaseEpoch ≤ epoch →
    ∀ t, J.leaseExpiresAt = some t → t ≤ s.db.now

section Lost

variable {settings : Settings} {s s' : Sys} {op : Op} {L : JobLease}

/-- **What is lost stays lost.** -/
theorem Dead.step (hbase : Base s) (hL : L ∈ s.leases) (hdead : Dead L.id L.leaseEpoch s)
    (h : Effect settings s op s') : Dead L.id L.leaseEpoch s' := by
  intro J' hJ' hid hrunning hepoch t ht
  have hkept (hmem : J' ∈ s.db.jobs) : t ≤ s'.db.now :=
    (hdead J' hmem hid hrunning hepoch t ht).trans h.now_le
  cases h.jobs hJ' with
  | kept mem => exact hkept mem
  | added fresh => exact absurd hid.symm (fresh.lease hL).1
  | written J mem keeps =>
      have hJid : J.id = L.id := keeps.id.symm.trans hid
      rcases h.row hbase.keys mem hJ' keeps.id with rfl | hrow
      · exact hkept mem
      · cases hrow with
        | claimed owner duration claims eligible left after =>
            have hold := (hbase.leases L hL J mem hJid).epoch
            rw [after] at hepoch
            simp only [claimValues] at hepoch
            omega
        | leased lease used held inForce epoch owner =>
            -- the lease that wrote is in force, so the lost one is older
            obtain ⟨u, hu, hlt⟩ := inForce.unexpired
            have hexpired := hdead J mem hJid inForce.running (by omega) u hu
            omega
        | exhausted candidate ends eligible spent epoch after =>
            rw [after] at hrunning
            cases hrunning

theorem Dead.run (hbase : Base s) (hL : L ∈ s.leases) (hdead : Dead L.id L.leaseEpoch s)
    (h : Relation.ReflTransGen (Step settings) s s') : Base s' ∧ Dead L.id L.leaseEpoch s' := by
  have hrun := Base.run (fun t => L ∈ t.leases ∧ Dead L.id L.leaseEpoch t)
    (fun hbase hinv heffect => ⟨heffect.leases_subset hinv.1, hinv.2.step hbase hinv.1 heffect⟩) hbase
    ⟨hL, hdead⟩ h
  exact ⟨hrun.1, hrun.2.2⟩

/-- A lease that is not in force is lost. -/
theorem dead_of_not_inForce (hbase : Base s) (hinv : OwnerInv s) (hL : L ∈ s.leases)
    (lost : ∀ J ∈ s.db.jobs, ¬ L.InForce s.db.now J) : Dead L.id L.leaseEpoch s := by
  intro J hJ hid hrunning hepoch t ht
  by_contra hlt
  have heq : J.leaseEpoch = L.leaseEpoch := le_antisymm hepoch (hbase.leases L hL J hJ hid).epoch
  exact lost J hJ ⟨hid, hrunning, hinv.jobs L hL J hJ hid heq hrunning, heq, t, ht, by omega⟩

/-- **A lost lease commits nothing**: from the moment that a lease is not in force, whatever steps
follow, no operation under it or under an earlier lease of its job commits, except that a purge may
delete rows. -/
theorem dead_lease_commits_nothing (h : Reachable settings s) (hL : L ∈ s.leases)
    (lost : ∀ J ∈ s.db.jobs, ¬ L.InForce s.db.now J) (hrun : Relation.ReflTransGen (Step settings) s s')
    {L' : JobLease} (used : op.lease? = some L') (hid : L'.id = L.id) (hepoch : L'.leaseEpoch ≤ L.leaseEpoch)
    (rows : op ≠ .purged L') : op.apply settings s' = none := by
  obtain ⟨hbase, hinv⟩ := ownerInv_of_reachable h
  obtain ⟨hbase', hdead⟩ := (dead_of_not_inForce hbase hinv hL lost).run hbase hL hrun
  cases hop : op.apply settings s' with
  | none => rfl
  | some s'' =>
      obtain ⟨J, hJ, hforce⟩ := (hbase'.effect hop).inForce used rows
      obtain ⟨t, ht, hlt⟩ := hforce.unexpired
      have hexpired := hdead J hJ (hforce.id.trans hid) hforce.running (hforce.epoch.le.trans hepoch) t ht
      omega

end Lost

/-! ## A run -/

/-- A worker claims the job and stalls; its lease expires, and another worker claims the job. -/
def stolenRun : List Op := uploadedRun ++
  [.claimed "worker".toList 30 12, .tick 30, .claimed "other".toList 30 12]

theorem lease_fencing_stolenRun :
    let s := exec sampleSettings Sys.init uploadedRun
    let s' := exec sampleSettings Sys.init (uploadedRun ++ [.claimed "worker".toList 30 12])
    ∀ J ∈ s.db.jobs, ∀ J' ∈ s'.db.jobs, J'.id = J.id →
      J' = J ∨ RowWrite s (.claimed "worker".toList 30 12) J J' :=
  (lease_fencing (reachable_exec uploadedRun) (by decide +kernel)).1

theorem dead_lease_commits_nothing_stolenRun :
    (Op.parsed (ingestLease .parse none 0 none) (parseInput .uploaded) "parsed".toList).apply sampleSettings
      (exec sampleSettings Sys.init (stolenRun ++ [.tick 5])) = none := by
  refine dead_lease_commits_nothing (reachable_exec stolenRun) (L := ingestLease .parse none 0 none)
    (by decide +kernel) ?_ ?_ rfl rfl le_rfl (by simp)
  · intro J hJ hforce
    have hepoch : ∀ J ∈ (exec sampleSettings Sys.init stolenRun).db.jobs, J.leaseEpoch = 2 := by decide +kernel
    have hone := hforce.epoch
    rw [hepoch J hJ] at hone
    cases hone
  · rw [exec_append]
    exact run_exec _ _

end VeloxRag
