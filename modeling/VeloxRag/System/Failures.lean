import VeloxRag.System.Ingestions

/-!
# Jobs that end and the documents they leave

An ingestion that ends in failure ends its document with it, whichever way it fails, as long as
the exception is one that the stages map to a typed error.

## Main definitions

* `LeftProcessing` — a document without a job that is still being processed.
* `Mapped` — a step that records no exception of an unknown kind.
* `terminal_job_ends_document` — the invariant over runs of such steps.
-/

namespace VeloxRag

open Lib Jobs Ingestion Indexing Metadata

/-- An ingestion has ended without success, no other job of its version is active, and the rows of its
document are still in flight. -/
structure LeftProcessing (db : Db) (J : Job) (d : Document) (v : Version) (st : IndexState) : Prop where
  job_mem : J ∈ db.jobs
  operation : J.operation = .ingestDocument
  ended : J.status = .failed ∨ J.status = .cancelled
  noOther : ∀ K ∈ db.jobs, K.operation = .ingestDocument → K.targetId = J.targetId → K.status.isActive = false
  version_mem : v ∈ db.versions
  target : J.targetId = v.id
  document_mem : d ∈ db.documents
  owner : v.documentId = d.id
  state_mem : st ∈ db.indexStates
  key : st.versionId = v.id ∧ J.indexGenerationId = some st.generationId
  document : d.status = .processing
  version : VersionStatus.isInFlight v.status = true
  state : IndexStatus.isInFlight st.status = true

/-- The step does not record an exception that no clause of the stages maps to a typed error. -/
def Mapped (_ : Sys) (op : Op) : Prop := ∀ lease delay, op ≠ .stageRaised lease .other delay

section Failures

variable {settings : Settings} {s : Sys}

/-- A version whose jobs have all ended is not in flight, unless one has crashed. -/
theorem Standing.ended {d : Document} {v : Version} {st : IndexState} {J : Job}
    (h : Standing False d v st J) (ended : J.status.isActive = false) : d.status ≠ .processing := by
  cases h with
  | running status =>
      rw [ended] at status
      cases status
  | failed _ document =>
      rw [document]
      decide
  | crashed crash => exact crash.elim
  | succeeded _ document =>
      rw [document]
      decide

/-- In the runs without such a step no job has crashed. -/
theorem ingestionInv_of_mapped (h : ReachableWhere settings Mapped s) :
    Base s ∧ IngestionInv settings False s :=
  h.induction_on (IngestionInv settings False) ingestionInv_init fun hbase hinv hmapped heffect =>
    hinv.step hbase (fun lease delay hop => hmapped lease delay hop) heffect

/-- **A job that ends ends its document**: in every state that a run of mapped exceptions reaches, a
version without an active job has no rows left in flight. -/
theorem terminal_job_ends_document (h : ReachableWhere settings Mapped s) {J : Job} {d : Document}
    {v : Version} {st : IndexState} : ¬ LeftProcessing s.db J d v st := by
  intro left
  obtain ⟨hbase, hinv⟩ := ingestionInv_of_mapped h
  obtain ⟨d₀, hd₀, st₀, -, g, -, older, K, hlist, -, hing⟩ := hinv.ingestions.ingested v left.version_mem
  have hK : K ∈ s.db.jobs := by
    have hmem : K ∈ ingestionsOf s.db.jobs v.id := by
      rw [hlist]
      exact List.mem_append_right _ List.mem_cons_self
    exact ((mem_ingestionsOf).mp hmem).1
  have hdocument : d = d₀ :=
    row_unique hbase.keys.documents left.document_mem hd₀ (left.owner.symm.trans hing.owner)
  have hended := left.noOther K hK hing.operation (hing.target.trans left.target.symm)
  exact hing.standing.ended hended (hdocument ▸ left.document)

end Failures

/-! ## Runs -/

/-- An upload whose parse stage fails for good. -/
def rejectedRun : List Op := uploadedRun ++
  [.claimed "worker".toList 30 12, .stageRaised (ingestLease .parse none 0 none) .stageConflict 0]

/-- An upload whose parse stage raises an exception that nothing maps, such as one of the database. -/
def crashedRun : List Op := uploadedRun ++
  [.claimed "worker".toList 30 12, .stageRaised (ingestLease .parse none 0 none) .other 0]

theorem terminal_job_ends_document_rejectedRun :
    ∃ J ∈ (exec sampleSettings Sys.init rejectedRun).db.jobs, J.operation = .ingestDocument ∧
      J.status = .failed ∧ ∀ d v st, ¬ LeftProcessing (exec sampleSettings Sys.init rejectedRun).db J d v st := by
  have hreachable : ReachableWhere sampleSettings Mapped (exec sampleSettings Sys.init rejectedRun) := by
    apply reachableWhere_exec
    intro op hop s lease delay heq
    subst heq
    simp [rejectedRun, uploadedRun, configuredRun] at hop
  have hjob : ∃ J ∈ (exec sampleSettings Sys.init rejectedRun).db.jobs, J.operation = .ingestDocument ∧
      J.status = .failed := by
    decide +kernel
  obtain ⟨J, hJ, hop, hfailed⟩ := hjob
  exact ⟨J, hJ, hop, hfailed, fun d v st => terminal_job_ends_document hreachable⟩

theorem document_left_processing : ∃ s, Reachable sampleSettings s ∧
    ∃ J d v st, LeftProcessing s.db J d v st := by
  refine ⟨exec sampleSettings Sys.init crashedRun, reachable_exec crashedRun, ?_⟩
  have hrows : ∃ J ∈ (exec sampleSettings Sys.init crashedRun).db.jobs,
      ∃ d ∈ (exec sampleSettings Sys.init crashedRun).db.documents,
      ∃ v ∈ (exec sampleSettings Sys.init crashedRun).db.versions,
      ∃ st ∈ (exec sampleSettings Sys.init crashedRun).db.indexStates,
        (J.operation = .ingestDocument ∧ J.status = .failed ∧
          (∀ K ∈ (exec sampleSettings Sys.init crashedRun).db.jobs, K.operation = .ingestDocument →
            K.targetId = J.targetId → K.status.isActive = false)) ∧
        (J.targetId = v.id ∧ v.documentId = d.id ∧ st.versionId = v.id ∧
          J.indexGenerationId = some st.generationId) ∧
        d.status = .processing ∧ VersionStatus.isInFlight v.status = true ∧
        IndexStatus.isInFlight st.status = true := by
    decide +kernel
  obtain ⟨J, hJ, d, hd, v, hv, st, hst, ⟨hop, hfailed, hother⟩, ⟨htarget, howner, hkey⟩, hdoc, hver, hstate⟩ := hrows
  exact ⟨J, d, v, st, hJ, hop, .inl hfailed, hother, hv, htarget, hd, howner, hst, hkey, hdoc, hver, hstate⟩

end VeloxRag
