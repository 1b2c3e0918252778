import VeloxRag.System.Generations

/-!
# Collections that are cleaned up

A reconciler may have been authorized long before it deletes, and every other transaction may
come in between.  What protects a collection that is in use is the row of the claim: it is only
taken while no generation uses the collection, no saga reserves or activates a generation over
it, and it is never given back.

## Main definitions

* `GenerationColumns`, `Named` — the columns of generations, and their collections.
* `Claimed` — a claimed collection belongs to failed generations only.
* `Cleanup`, `CleanupStep` — the system with the reconcilers that may delete.
* `cleanup_safe` — no collection in use is deleted, reserved or activated.
-/

namespace VeloxRag

open Lib Jobs Ingestion Indexing Metadata

/-! ## The columns of generations -/

/-- What a reservation writes into a generation, for good. -/
structure GenerationColumns (g : Generation) : Prop where
  collection : g.qdrantCollectionName = collectionName g.knowledgeBaseId g.id
  embeddingProfileId : g.embeddingProfileId.isSome = true
  embeddingConfigSnapshot : g.embeddingConfigSnapshot.isSome = true
  embeddingConfigHash : g.embeddingConfigHash = some g.indexProfileHash
  filterSchemaSnapshot : g.filterSchemaSnapshot.isSome = true
  appliedFilterSchemaRevision : g.appliedFilterSchemaRevision.isSome = true

/-- Every generation has its columns, and no two share a collection. -/
structure Named (generations : List Generation) : Prop where
  columns : ∀ g ∈ generations, GenerationColumns g
  collections : (generations.map (·.qdrantCollectionName)).Nodup

section Names

variable {settings : Settings} {s s' : Sys} {op : Op} {g g' : Generation}

theorem GenerationColumns.keeps (h : GenerationColumns g) (keeps : g.Keeps g') : GenerationColumns g' where
  collection := by rw [keeps.collection, keeps.knowledgeBaseId, keeps.id, h.collection]
  embeddingProfileId := by rw [keeps.embeddingProfileId, h.embeddingProfileId]
  embeddingConfigSnapshot := by rw [keeps.embeddingConfigSnapshot, h.embeddingConfigSnapshot]
  embeddingConfigHash := by rw [keeps.embeddingConfigHash, keeps.indexProfileHash, h.embeddingConfigHash]
  filterSchemaSnapshot := by rw [keeps.filterSchemaSnapshot, h.filterSchemaSnapshot]
  appliedFilterSchemaRevision := by rw [keeps.appliedFilterSchemaRevision, h.appliedFilterSchemaRevision]

/-- The collections after a step of a saga. -/
theorem Indexing.SagaWrite.collections (hkeys : s.db.WellKeyed) (hinv : GenInv s.db s.reservations)
    {identities : GenerationIdentities} {delayed : Bool} {db : Db}
    (hnames : (s.db.generations.map (·.qdrantCollectionName)).Nodup)
    (h : SagaWrite identities s.reservations s.Fresh s.db delayed db) :
    (db.generations.map (·.qdrantCollectionName)).Nodup := by
  cases h with
  | reserved command knowledgeBase embedding filterSnapshot requestId generationId mem id status pending
      building claim free =>
      simp only [reservationKeysFree, Bool.and_eq_true, List.all_eq_true, decide_eq_true_eq] at free
      refine nodup_map_append hnames fun x hx => ?_
      have hname := (free.2 x hx).2
      rwa [← id] at hname
  | refused _ knowledgeBase generation counted request status code rows columns guard =>
      have hsame : (setRow (·.id) { counted with status := .failed, safeErrorCode := some code.toList }
          s.db.generations).map (·.qdrantCollectionName) = s.db.generations.map (·.qdrantCollectionName) := by
        apply map_setRow_column hkeys.generations rows.generation_mem
        · rw [columns]
        · rw [columns]
      exact hsame ▸ hnames
  | abandoned knowledgeBase generation knowledgeBase_mem generation_mem owner status =>
      have hsame : (setRow (·.id) { generation with
            status := .failed
            safeErrorCode := some "GENERATION_ABANDONED".toList }
          s.db.generations).map (·.qdrantCollectionName) = s.db.generations.map (·.qdrantCollectionName) :=
        map_setRow_column hkeys.generations generation_mem rfl rfl
      exact hsame ▸ hnames
  | activated _ knowledgeBase generation request reservation jobId jobs rows reserved generationId claim
      state status active pending mutation queued =>
      have hretired : (retire (superseded? s.db knowledgeBase) s.db.generations).map (·.qdrantCollectionName)
          = s.db.generations.map (·.qdrantCollectionName) := by
        rcases hinv.superseded hkeys rows.knowledgeBase_mem with ⟨hnone, -⟩ | ⟨old, hold, hsome, -⟩
        · rw [hnone]
          rfl
        · rw [hsome]
          exact map_setRow_column hkeys.generations hold rfl rfl
      obtain ⟨x, hx, -, rfl | ⟨hactive, -⟩⟩ :=
        (retire_cases hkeys hinv rows.knowledgeBase_mem).1 generation rows.generation_mem
      · have hkeys' : ((retire (superseded? s.db knowledgeBase) s.db.generations).map (·.id)).Nodup :=
          nodup_retire hkeys.generations
        have hsame : (setRow (·.id) (activatedGeneration identities x (knowledgeBase.mutationRevision + 1) s.db.now)
            (retire (superseded? s.db knowledgeBase) s.db.generations)).map (·.qdrantCollectionName)
              = (retire (superseded? s.db knowledgeBase) s.db.generations).map (·.qdrantCollectionName) :=
          map_setRow_column hkeys' hx rfl rfl
        simp only [promoted]
        rw [hsame, hretired]
        exact hnames
      · rw [status] at hactive
        cases hactive

/-- **A step keeps the names.** -/
theorem Named.step (hbase : Base s) (hinv : GenInv s.db s.reservations) (h : Named s.db.generations)
    (heffect : Effect settings s op s') : Named s'.db.generations := by
  constructor
  · intro g' hg'
    cases heffect.generations hbase hinv hg' with
    | kept g mem keeps => exact (h.columns g mem).keeps keeps
    | added id knowledgeBase embedding filterSnapshot mem new =>
        rw [new]
        exact ⟨rfl, rfl, rfl, rfl, rfl, rfl⟩
  · cases heffect with
    | retried _ jobId db fresh write =>
        cases write with
        | ingestion => exact h.collections
        | rebuild => exact h.collections
    | saga _ delayed db reservations of_delayed write backed =>
        rcases write with rfl | write
        · exact h.collections
        · exact write.collections hbase.keys hinv h.collections
    | purged _ lease db held purge knowledgeBase mem target deleting rows =>
        simp only [deleteRows, Except.ok.injEq, Prod.mk.injEq, true_and] at rows
        subst rows
        exact nodup_filter h.collections _
    | _ => exact h.collections

/-! ## Claims -/

/-- The generations that use a claimed collection have failed. -/
def Claimed (db : Db) : Prop :=
  ∀ claim ∈ db.cleanupClaims, ∀ g ∈ db.generations, g.qdrantCollectionName = claim.collectionName →
    g.status = .failed

/-- A collection whose status is that of an orphan is used by failed generations only. -/
theorem orphanStatus_iff {db : Db} (hnames : (db.generations.map (·.qdrantCollectionName)).Nodup)
    {collection : Str} : orphanStatus (collectionStatus? db collection) = true ↔
      ∀ g ∈ db.generations, g.qdrantCollectionName = collection → g.status = .failed := by
  unfold collectionStatus?
  cases hfind : db.generations.find? (·.qdrantCollectionName = collection) with
  | none =>
      rw [List.find?_eq_none] at hfind
      refine iff_of_true rfl fun g hg hname => ?_
      exact absurd (by simpa using hname) (hfind g hg)
  | some g =>
      obtain ⟨hg, hname⟩ := (find?_some_iff hnames).mp hfind
      constructor
      · intro horphan x hx hxname
        rw [row_unique hnames hx hg (hxname.trans hname.symm)]
        rw [Option.map_some] at horphan
        cases hstatus : g.status with
        | failed => rfl
        | building =>
            rw [hstatus] at horphan
            cases horphan
        | active =>
            rw [hstatus] at horphan
            cases horphan
        | retiring =>
            rw [hstatus] at horphan
            cases horphan
      · intro hall
        rw [Option.map_some, hall g hg hname]
        rfl

/-- A claim is never released, so its row stays. -/
theorem Indexing.ClaimWrite.persists (hnames : (s.db.generations.map (·.qdrantCollectionName)).Nodup)
    (hclaimed : Claimed s.db) {claims : List CleanupClaim} (h : ClaimWrite s.db claims) {claim : CleanupClaim}
    (hclaim : claim ∈ s.db.cleanupClaims) : ∃ claim' ∈ claims, claim'.collectionName = claim.collectionName := by
  cases h with
  | opened => exact ⟨claim, List.mem_append_left _ hclaim, rfl⟩
  | kept _ names =>
      have hmem : claim.collectionName ∈ claims.map (·.collectionName) := by
        rw [names]
        exact List.mem_map_of_mem hclaim
      exact List.mem_map.mp hmem
  | released current there used =>
      obtain ⟨row, hrow⟩ := Option.isSome_iff_exists.mp there
      obtain ⟨hmem, hname⟩ := mem_of_find? hrow
      have horphan := (orphanStatus_iff hnames).mpr fun g hg hg' => hclaimed row hmem g hg (hg'.trans hname.symm)
      rw [horphan] at used
      cases used

theorem Effect.claim_persists (hnames : (s.db.generations.map (·.qdrantCollectionName)).Nodup)
    (hclaimed : Claimed s.db) (h : Effect settings s op s') {claim : CleanupClaim}
    (hclaim : claim ∈ s.db.cleanupClaims) :
    ∃ claim' ∈ s'.db.cleanupClaims, claim'.collectionName = claim.collectionName := by
  cases h with
  | retried _ jobId db fresh write =>
      cases write with
      | ingestion => exact ⟨claim, hclaim, rfl⟩
      | rebuild => exact ⟨claim, hclaim, rfl⟩
  | saga _ delayed db reservations of_delayed write backed =>
      rcases write with rfl | write
      · exact ⟨claim, hclaim, rfl⟩
      · cases write <;> exact ⟨claim, hclaim, rfl⟩
  | claims _ claims write => exact write.persists hnames hclaimed hclaim
  | purged _ lease db held purge knowledgeBase mem target deleting rows =>
      simp only [deleteRows, Except.ok.injEq, Prod.mk.injEq, true_and] at rows
      subst rows
      exact ⟨claim, hclaim, rfl⟩
  | _ => exact ⟨claim, hclaim, rfl⟩

/-- A claim after a step was there, or nothing uses its collection. -/
theorem Effect.claims_cases (hnames : (s.db.generations.map (·.qdrantCollectionName)).Nodup)
    (h : Effect settings s op s') {claim : CleanupClaim} (hclaim : claim ∈ s'.db.cleanupClaims) :
    (∃ old ∈ s.db.cleanupClaims, old.collectionName = claim.collectionName) ∨
      (s'.db.generations = s.db.generations ∧
        ∀ g ∈ s.db.generations, g.qdrantCollectionName = claim.collectionName → g.status = .failed) := by
  have of_mem (hmem : claim ∈ s.db.cleanupClaims) :
      (∃ old ∈ s.db.cleanupClaims, old.collectionName = claim.collectionName) ∨
      (s'.db.generations = s.db.generations ∧
        ∀ g ∈ s.db.generations, g.qdrantCollectionName = claim.collectionName → g.status = .failed) :=
    .inl ⟨claim, hmem, rfl⟩
  cases h with
  | retried _ jobId db fresh write =>
      cases write with
      | ingestion => exact of_mem hclaim
      | rebuild => exact of_mem hclaim
  | saga _ delayed db reservations of_delayed write backed =>
      rcases write with rfl | write
      · exact of_mem hclaim
      · cases write <;> exact of_mem hclaim
  | claims _ claims write =>
      cases write with
      | opened new orphan unclaimed =>
          rcases List.mem_append.mp hclaim with hmem | hmem
          · exact .inl ⟨claim, hmem, rfl⟩
          · rw [List.mem_singleton.mp hmem]
            exact .inr ⟨rfl, (orphanStatus_iff hnames).mp orphan⟩
      | kept _ names =>
          have hmem : claim.collectionName ∈ s.db.cleanupClaims.map (·.collectionName) := by
            rw [← names]
            exact List.mem_map_of_mem hclaim
          exact .inl (List.mem_map.mp hmem)
      | released => exact .inl ⟨claim, List.mem_of_mem_filter hclaim, rfl⟩
  | purged _ lease db held purge knowledgeBase mem target deleting rows =>
      simp only [deleteRows, Except.ok.injEq, Prod.mk.injEq, true_and] at rows
      subst rows
      exact of_mem hclaim
  | _ => exact of_mem hclaim

/-- A generation over a claimed collection was there before a step, and has failed. -/
theorem Effect.claimed_generation (hbase : Base s) (hinv : GenInv s.db s.reservations)
    (hclaimed : Claimed s.db) (h : Effect settings s op s') {claim : CleanupClaim}
    (hclaim : claim ∈ s.db.cleanupClaims) {g' : Generation} (hg' : g' ∈ s'.db.generations)
    (hname : g'.qdrantCollectionName = claim.collectionName) :
    g'.status = .failed ∧ ∃ g ∈ s.db.generations, g.id = g'.id := by
  cases h.generations hbase hinv hg' with
  | kept g mem keeps moved =>
      have hfailed := hclaimed claim hclaim g mem (keeps.collection.symm.trans hname)
      rw [hfailed] at moved
      refine ⟨?_, g, mem, keeps.id.symm⟩
      generalize hstatus : g'.status = status at moved
      cases moved
      rfl
  | added id knowledgeBase embedding filterSnapshot mem new unclaimed =>
      unfold cleanupClaim? at unclaimed
      rw [List.find?_eq_none] at unclaimed
      exact absurd (by simpa using hname.symm) (unclaimed claim hclaim)

/-- **A step keeps the claimed collections unused.** -/
theorem Claimed.step (hbase : Base s) (hinv : GenInv s.db s.reservations) (hnamed : Named s.db.generations)
    (h : Claimed s.db) (heffect : Effect settings s op s') : Claimed s'.db := by
  intro claim hclaim g' hg' hname
  rcases heffect.claims_cases hnamed.collections hclaim with ⟨old, hold, holdname⟩ | ⟨hsame, hfailed⟩
  · exact (heffect.claimed_generation hbase hinv h hold hg' (hname.trans holdname.symm)).1
  · rw [hsame] at hg'
    exact hfailed g' hg' hname

end Names

/-! ## The reconcilers -/

/-- The system with the claims whose reconcilers were authorized to delete. -/
structure Cleanup where
  sys : Sys
  authorized : List CleanupClaim
deriving DecidableEq, Repr

/-- The steps of the system and of the reconcilers, with the collection that is deleted, if any.  A
reconciler that was authorized may delete at any time after, and may as well be repeated or stop. -/
inductive CleanupStep (settings : Settings) (c : Cleanup) : Option Str → Cleanup → Prop
  | system (op : Op) (s' : Sys) (applied : op.apply settings c.sys = some s') :
      CleanupStep settings c none { c with sys := s' }
  | authorized (claim : CleanupClaim) (db : Db)
      (answer : authorizeOrphanCleanup claim c.sys.db = .ok (true, db)) :
      CleanupStep settings c none ⟨{ c.sys with db := db }, c.authorized ++ [claim]⟩
  | deleted (claim : CleanupClaim) (mem : claim ∈ c.authorized) :
      CleanupStep settings c (some claim.collectionName) c

/-- The states that runs of the system with its reconcilers reach. -/
def CleanupReachable (settings : Settings) : Cleanup → Prop :=
  Relation.ReflTransGen (fun c c' => ∃ deleted, CleanupStep settings c deleted c') ⟨Sys.init, []⟩

/-- The claims of a state protect their collections, and so do the claims that reconcilers hold. -/
structure CleanupInv (c : Cleanup) : Prop where
  base : Base c.sys
  saga : GenInv c.sys.db c.sys.reservations
  named : Named c.sys.db.generations
  claimed : Claimed c.sys.db
  authorized : ∀ a ∈ c.authorized, ∃ claim ∈ c.sys.db.cleanupClaims, claim.collectionName = a.collectionName

section Reconcilers

variable {settings : Settings} {c c' : Cleanup}

theorem authorizeOrphanCleanup_true {claim : CleanupClaim} {db db' : Db}
    (h : authorizeOrphanCleanup claim db = .ok (true, db')) :
    db' = db ∧ ∃ current ∈ db.cleanupClaims, current.collectionName = claim.collectionName := by
  unfold authorizeOrphanCleanup at h
  split at h
  · simp at h
  · rename_i current hcurrent
    split at h
    · simp at h
    · split at h
      · simp only [Except.ok.injEq, Prod.mk.injEq, true_and] at h
        exact ⟨h.symm, current, mem_of_find? hcurrent⟩
      · simp at h

theorem CleanupInv.step (h : CleanupInv c) {deleted : Option Str} (hstep : CleanupStep settings c deleted c') :
    CleanupInv c' := by
  cases hstep with
  | system op s' applied =>
      have heffect := h.base.effect applied
      refine ⟨h.base.step heffect, h.saga.step h.base heffect, h.named.step h.base h.saga heffect,
        h.claimed.step h.base h.saga h.named heffect, ?_⟩
      intro a ha
      obtain ⟨claim, hclaim, hname⟩ := h.authorized a ha
      obtain ⟨claim', hclaim', hname'⟩ := heffect.claim_persists h.named.collections h.claimed hclaim
      exact ⟨claim', hclaim', hname'.trans hname⟩
  | authorized claim db answer =>
      obtain ⟨rfl, current, hcurrent, hname⟩ := authorizeOrphanCleanup_true answer
      refine ⟨h.base, h.saga, h.named, h.claimed, ?_⟩
      intro a ha
      rcases List.mem_append.mp ha with hold | hnew
      · exact h.authorized a hold
      · rw [List.mem_singleton.mp hnew]
        exact ⟨current, hcurrent, hname⟩
  | deleted claim mem => exact h

theorem cleanupInv_of_reachable (h : CleanupReachable settings c) : CleanupInv c := by
  induction h with
  | refl =>
      refine ⟨base_init, genInv_init, ⟨?_, List.nodup_nil⟩, ?_, ?_⟩
      · intro g hg
        cases hg
      · intro claim hclaim
        cases hclaim
      · intro a ha
        cases ha
  | tail _ hstep ih =>
      obtain ⟨deleted, hstep⟩ := hstep
      exact ih.step hstep

/-- **Orphaned collections are cleaned up safely.**  A collection that a reconciler deletes is used by
failed generations only at that moment; and after any step from a state with a claim, a generation
over the claimed collection was there before and has failed, so none is reserved or activated. -/
theorem cleanup_safe (h : CleanupReachable settings c) :
    (∀ collection c', CleanupStep settings c (some collection) c' →
      ∀ g ∈ c.sys.db.generations, g.qdrantCollectionName = collection → g.status = .failed) ∧
    ∀ claim ∈ c.sys.db.cleanupClaims, ∀ (op : Op) (s' : Sys), op.apply settings c.sys = some s' →
      ∀ g' ∈ s'.db.generations, g'.qdrantCollectionName = claim.collectionName →
        g'.status = .failed ∧ ∃ g ∈ c.sys.db.generations, g.id = g'.id := by
  have hinv := cleanupInv_of_reachable h
  refine ⟨?_, ?_⟩
  · intro collection c' hstep g hg hname
    cases hstep with
    | deleted claim mem =>
        obtain ⟨current, hcurrent, hcurrentname⟩ := hinv.authorized claim mem
        exact hinv.claimed current hcurrent g hg (hname.trans hcurrentname.symm)
  · intro claim hclaim op s' hop g' hg' hname
    exact (hinv.base.effect hop).claimed_generation hinv.base hinv.saga hinv.claimed hclaim hg' hname

end Reconcilers

/-! ## A run -/

/-- A generation is reserved, given up, and its collection claimed. -/
def claimedRun : List Op :=
  [.created 1,
    .generationReserved sampleCommand (.ok ()) (.ok (⟨3, "hash".toList, "snapshot".toList⟩, "filter".toList)),
    .generationAbandoned 1 1711, .cleanupClaimed 1 1711 9 60]

/-- The claim it leaves. -/
def sampleClaim : CleanupClaim := ⟨collectionName 1 1711, 1, 1711, 9, 1, 60, none⟩

theorem cleanup_safe_claimedRun :
    authorizeOrphanCleanup sampleClaim (exec sampleSettings Sys.init claimedRun).db
      = .ok (true, (exec sampleSettings Sys.init claimedRun).db) ∧
    ∀ g ∈ (exec sampleSettings Sys.init claimedRun).db.generations,
      g.qdrantCollectionName = sampleClaim.collectionName → g.status = .failed := by
  have hrun (ops : List Op) (s : Sys) :
      Relation.ReflTransGen (fun c c' => ∃ deleted, CleanupStep sampleSettings c deleted c') ⟨s, []⟩
        ⟨exec sampleSettings s ops, []⟩ := by
    refine Relation.ReflTransGen.lift (fun s => (⟨s, []⟩ : Cleanup)) ?_ _ _ (run_exec s ops)
    rintro s s' ⟨op, hop⟩
    exact ⟨none, .system op s' hop⟩
  have hanswer : authorizeOrphanCleanup sampleClaim (exec sampleSettings Sys.init claimedRun).db
      = .ok (true, (exec sampleSettings Sys.init claimedRun).db) := by
    decide +kernel
  have hreached : CleanupReachable sampleSettings ⟨exec sampleSettings Sys.init claimedRun, [sampleClaim]⟩ :=
    (hrun claimedRun Sys.init).tail ⟨none, .authorized sampleClaim _ hanswer⟩
  exact ⟨hanswer, (cleanup_safe hreached).1 _ _ (.deleted sampleClaim (List.mem_singleton.mpr rfl))⟩

end VeloxRag
