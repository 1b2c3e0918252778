import VeloxRag.System.Collections

/-!
# Creation requests that are sent again

The row of a creation request keeps its actor, its key and its fingerprint for good, and no two rows
have the same actor, knowledge base and key, so a request that is sent again finds its own row.  What
it returns then depends on the generation: while that one is the active one of its knowledge base, the
request returns it.

## Main definitions

* `CreationRequest.Same` — the columns of a request that stay.
* `Distinct` — the requests are distinct as callers name them.
* `creation_replay` — when a request that has succeeded returns its generation again.
-/

namespace VeloxRag

open Lib Jobs Ingestion Indexing Metadata

/-! ## The rows of the requests -/

/-- The columns of a request that no write changes, the caller's among them. -/
structure CreationRequest.Same (r r' : CreationRequest) : Prop extends r.Keeps r' where
  actorApiKeyId : r'.actorApiKeyId = r.actorApiKeyId
  idempotencyKey : r'.idempotencyKey = r.idempotencyKey
  requestFingerprint : r'.requestFingerprint = r.requestFingerprint

theorem CreationRequest.Same.rfl {r : CreationRequest} : r.Same r := ⟨.rfl, Eq.refl _, Eq.refl _, Eq.refl _⟩

theorem CreationRequest.Same.trans {r r' r'' : CreationRequest} (h : r.Same r') (h' : r'.Same r'') :
    r.Same r'' where
  id := by rw [h'.id, h.id]
  knowledgeBaseId := by rw [h'.knowledgeBaseId, h.knowledgeBaseId]
  generationId := by rw [h'.generationId, h.generationId]
  actorApiKeyId := by rw [h'.actorApiKeyId, h.actorApiKeyId]
  idempotencyKey := by rw [h'.idempotencyKey, h.idempotencyKey]
  requestFingerprint := by rw [h'.requestFingerprint, h.requestFingerprint]

/-- What a caller names a request by. -/
def CreationRequest.name (r : CreationRequest) : ℕ × ℕ × Str :=
  (r.actorApiKeyId, r.knowledgeBaseId, r.idempotencyKey)

theorem CreationRequest.Same.name_eq {r r' : CreationRequest} (h : r.Same r') : r'.name = r.name := by
  rw [CreationRequest.name, CreationRequest.name, h.actorApiKeyId, h.knowledgeBaseId, h.idempotencyKey]

/-- No two requests have one name. -/
def Distinct (requests : List CreationRequest) : Prop := (requests.map (·.name)).Nodup

section Steps

variable {settings : Settings} {s s' t : Sys} {op : Op}

/-- A request of one identity is replaced by one of the same name. -/
theorem Distinct.setRow {requests : List CreationRequest} (h : Distinct requests)
    (hkeys : (requests.map (·.id)).Nodup) {r r' : CreationRequest} (hr : r ∈ requests) (same : r.Same r') :
    Distinct (setRow (·.id) r' requests) := by
  have hnames : (Lib.setRow (·.id) r' requests).map (·.name) = requests.map (·.name) :=
    map_setRow_column hkeys hr same.id same.name_eq
  rw [Distinct, hnames]
  exact h

/-- **The requests stay distinct.** -/
theorem Distinct.step (hbase : Base s) (h : Distinct s.db.creationRequests)
    (heffect : Effect settings s op s') : Distinct s'.db.creationRequests := by
  cases heffect with
  | retried _ jobId db fresh write =>
      cases write with
      | ingestion => exact h
      | rebuild => exact h
  | saga _ delayed db reservations of_delayed write backed =>
      rcases write with rfl | write
      · exact h
      · cases write with
        | reserved command knowledgeBase embedding filterSnapshot requestId generationId mem id status
            pending building claim free unused =>
            refine nodup_map_append h fun r hr hname => ?_
            simp only [CreationRequest.name, Prod.mk.injEq] at hname
            exact unused r hr ⟨hname.1, hname.2.1.trans id, hname.2.2⟩
        | refused _ knowledgeBase generation counted request status code rows =>
            exact h.setRow hbase.keys.creationRequests rows.request_mem ⟨⟨rfl, rfl, rfl⟩, rfl, rfl, rfl⟩
        | abandoned => exact h
        | activated _ knowledgeBase generation request reservation jobId jobs rows =>
            exact h.setRow hbase.keys.creationRequests rows.request_mem ⟨⟨rfl, rfl, rfl⟩, rfl, rfl, rfl⟩
  | purged _ lease db held purge knowledgeBase mem target deleting rows =>
      simp only [deleteRows, Except.ok.injEq, Prod.mk.injEq, true_and] at rows
      subst rows
      exact nodup_filter h _
  | _ => exact h

/-- A request stays the same, unless its knowledge base is purged. -/
theorem Effect.request_same (hbase : Base s) (h : Effect settings s op s') {r : CreationRequest}
    (hr : r ∈ s.db.creationRequests) :
    (∃ r' ∈ s'.db.creationRequests, r.Same r') ∨ Gone s' r.knowledgeBaseId := by
  have of_setRow {x x' : CreationRequest} (hx : x ∈ s.db.creationRequests) (same : x.Same x') :
      ∃ r' ∈ setRow (·.id) x' s.db.creationRequests, r.Same r' := by
    obtain ⟨r', hr', ⟨rfl, hid⟩ | ⟨rfl, -⟩⟩ := exists_mem_setRow CreationRequest.id x' hr
    · rw [row_unique hbase.keys.creationRequests hr hx (hid.trans same.id)]
      exact ⟨r', hr', same⟩
    · exact ⟨r', hr', .rfl⟩
  cases h with
  | retried _ jobId db fresh write =>
      cases write with
      | ingestion => exact .inl ⟨r, hr, .rfl⟩
      | rebuild => exact .inl ⟨r, hr, .rfl⟩
  | saga _ delayed db reservations of_delayed write backed =>
      rcases write with rfl | write
      · exact .inl ⟨r, hr, .rfl⟩
      · cases write with
        | reserved => exact .inl ⟨r, List.mem_append_left _ hr, .rfl⟩
        | refused _ knowledgeBase generation counted request status code rows =>
            exact .inl (of_setRow rows.request_mem ⟨⟨rfl, rfl, rfl⟩, rfl, rfl, rfl⟩)
        | abandoned => exact .inl ⟨r, hr, .rfl⟩
        | activated _ knowledgeBase generation request reservation jobId jobs rows =>
            exact .inl (of_setRow rows.request_mem ⟨⟨rfl, rfl, rfl⟩, rfl, rfl, rfl⟩)
  | purged _ lease db held purge knowledgeBase mem target deleting rows =>
      by_cases hkb : r.knowledgeBaseId = lease.targetId
      · rw [hkb]
        exact .inr (gone_of_deleteRows held rows rfl rfl)
      · simp only [deleteRows, Except.ok.injEq, Prod.mk.injEq, true_and] at rows
        subst rows
        exact .inl ⟨r, List.mem_filter.mpr ⟨hr, by simpa using hkb⟩, .rfl⟩
  | _ => exact .inl ⟨r, hr, .rfl⟩

/-- Over a run, a request stays the same, unless its knowledge base is purged. -/
theorem request_same_of_run (hbase : Base s) (hrun : Relation.ReflTransGen (Step settings) s t)
    {r : CreationRequest} (hr : r ∈ s.db.creationRequests) :
    (∃ r' ∈ t.db.creationRequests, r.Same r') ∨ Gone t r.knowledgeBaseId := by
  refine (Base.run (fun u => (∃ r' ∈ u.db.creationRequests, r.Same r') ∨ Gone u r.knowledgeBaseId)
    ?_ hbase (.inl ⟨r, hr, .rfl⟩) hrun).2
  rintro u u' op hbase (⟨r', hr', same⟩ | hgone) heffect
  · rcases heffect.request_same hbase hr' with ⟨r'', hr'', same'⟩ | hgone
    · exact .inl ⟨r'', hr'', same.trans same'⟩
    · rw [same.knowledgeBaseId] at hgone
      exact .inr hgone
  · exact .inr (hgone.step heffect)

/-- What a request that is sent again meets: distinct requests, and claims on failed generations only. -/
structure ReplayInv (s : Sys) : Prop where
  saga : GenInv s.db s.reservations
  named : Named s.db.generations
  claimed : Claimed s.db
  distinct : Distinct s.db.creationRequests

theorem replayInv_of_reachable (h : Reachable settings s) : Base s ∧ ReplayInv s := by
  refine Reachable.induction_on ReplayInv ?_ ?_ h
  · refine ⟨genInv_init, ⟨?_, List.nodup_nil⟩, ?_, List.nodup_nil⟩
    · intro g hg
      cases hg
    · intro claim hclaim
      cases hclaim
  · intro u u' op hbase hinv heffect
    exact ⟨hinv.saga.step hbase heffect, hinv.named.step hbase hinv.saga heffect,
      hinv.claimed.step hbase hinv.saga hinv.named heffect, hinv.distinct.step hbase heffect⟩

/-! ## Sending a request again -/

/-- The command that a request was created by. -/
def CreationRequest.command (r : CreationRequest) : GenerationCommand :=
  ⟨r.knowledgeBaseId, r.actorApiKeyId, r.idempotencyKey, r.requestFingerprint⟩

/-- A request that is sent again finds its row, and its generation. -/
theorem reserveGeneration_replay (hbase : Base s) (hinv : ReplayInv s) {r : CreationRequest}
    (hr : r ∈ s.db.creationRequests) {k : KnowledgeBase} (hk : k ∈ s.db.knowledgeBases)
    (hid : k.id = r.knowledgeBaseId) {g : Generation} (hg : g ∈ s.db.generations)
    (hgid : g.id = r.generationId) (identities : GenerationIdentities)
    (current : Except (ℕ × String) Unit) (source : Except TxError (EmbeddingConfiguration × Str)) :
    reserveGeneration identities r.command current source s.db =
      replayRequest current k r g s.db := by
  have hkb : s.db.knowledgeBase? r.command.knowledgeBaseId = some k :=
    (find?_some_iff hbase.keys.knowledgeBases).mpr ⟨hk, hid⟩
  have hgen : s.db.generation? r.generationId = some g :=
    (find?_some_iff hbase.keys.generations).mpr ⟨hg, hgid⟩
  have hfind : (s.db.creationRequests.find? fun x => decide (x.actorApiKeyId = r.command.actorId)
      && decide (x.knowledgeBaseId = r.command.knowledgeBaseId)
      && decide (x.idempotencyKey = r.command.idempotencyKey)) = some r := by
    have hname := (find?_some_iff hinv.distinct).mpr ⟨hr, rfl⟩
    rw [← hname]
    congr 1
    funext x
    rw [Bool.eq_iff_iff]
    simp only [Bool.and_eq_true, decide_eq_true_eq]
    simp only [CreationRequest.command, CreationRequest.name, Prod.mk.injEq, and_assoc]
  rw [reserveGeneration, hkb]
  dsimp only
  rw [hfind]
  dsimp only
  rw [hgen, if_neg (by simp [CreationRequest.command])]

/-- **A creation request that is sent again**, after any run since its row was in the database,
returns its generation exactly while that is the active generation of its knowledge base. -/
theorem creation_replay (h : Reachable settings s) {r : CreationRequest}
    (hr : r ∈ s.db.creationRequests) (hrun : Relation.ReflTransGen (Step settings) s t) {k : KnowledgeBase}
    (hk : k ∈ t.db.knowledgeBases) (hid : k.id = r.knowledgeBaseId)
    (current : Except (ℕ × String) Unit) (source : Except TxError (EmbeddingConfiguration × Str)) :
    reserveGeneration settings.identities r.command current source t.db =
        .ok (.safe r.generationId, t.db) ↔
      k.activeIndexGenerationId = some r.generationId := by
  obtain ⟨hbase, hinv⟩ := replayInv_of_reachable (h.trans hrun)
  have hthere : ¬ Gone t r.knowledgeBaseId := fun hgone => hgone.1 k hk hid
  obtain ⟨r', hr', same⟩ := (request_same_of_run (base_of_reachable h) hrun hr).resolve_right hthere
  obtain ⟨g, hg, hgid, hgkb, hsettles⟩ := hinv.saga.requested r' hr'
  have hcommand : r'.command = r.command := by
    rw [CreationRequest.command, CreationRequest.command, same.knowledgeBaseId, same.actorApiKeyId,
      same.idempotencyKey, same.requestFingerprint]
  have hid' : k.id = r'.knowledgeBaseId := hid.trans same.knowledgeBaseId.symm
  have hreplay := reserveGeneration_replay hbase hinv hr' hk hid' hg hgid settings.identities current source
  rw [hcommand] at hreplay
  -- the pointer is at the generation exactly when that one is active
  have hpointer : k.activeIndexGenerationId = some r.generationId ↔ g.status = .active := by
    rw [(hinv.saga.pointed k hk).active, ← same.generationId, ← hgid,
      hasGeneration_self hbase.keys.generations hg]
    constructor
    · exact And.right
    · intro hactive
      exact ⟨hgkb.trans hid'.symm, hactive⟩
  rw [hreplay, hpointer, replayRequest]
  constructor
  · intro hok
    split at hok
    · split at hok
      · cases hok
      · split at hok
        · cases hok
        · split at hok
          · cases hok
          · simp at hok
    · split at hok
      · cases hok
      · split at hok
        · cases hok
        · rename_i hactive
          exact not_not.mp hactive
      · split at hok
        · simp at hok
        · split at hok
          · simp at hok
          · simp at hok
  · intro hactive
    have hunclaimed : cleanupClaim? t.db g.qdrantCollectionName = none := by
      rw [cleanupClaim?, List.find?_eq_none]
      intro claim hclaim hname
      have hfailed := hinv.claimed claim hclaim g hg (by simpa using Eq.symm (by simpa using hname))
      rw [hactive] at hfailed
      cases hfailed
    have hstate : r'.state = .succeeded := by
      rw [hactive] at hsettles
      exact hsettles
    rw [hunclaimed, hstate]
    simp only [hactive, ne_eq, not_true_eq_false, if_false, hgid, same.generationId]

end Steps

/-! ## Runs -/

/-- The request of `configuredRun`. -/
def configuredRequest : CreationRequest :=
  ⟨2711, 7, 1, "g".toList, "f".toList, 1711, .succeeded, some 201, none⟩

/-- A second generation is reserved, and the first one is still active. -/
def reservedRun : List Op := configuredRun ++
  [.generationReserved ⟨1, 7, "gg".toList, "f".toList⟩ (.ok ())
    (.ok (⟨3, "hash".toList, "snapshot".toList⟩, "filter".toList))]

/-- The request returns its generation while a second one is built, and no longer when that one has
taken its place. -/
theorem creation_replay_reservedRun :
    reserveGeneration sampleSettings.identities configuredRequest.command (.ok ())
        (.error internalError) (exec sampleSettings Sys.init reservedRun).db =
      .ok (.safe 1711, (exec sampleSettings Sys.init reservedRun).db) ∧
    reserveGeneration sampleSettings.identities configuredRequest.command (.ok ())
        (.error internalError) (exec sampleSettings Sys.init replacedRun).db ≠
      .ok (.safe 1711, (exec sampleSettings Sys.init replacedRun).db) := by
  have hrow : configuredRequest ∈ (exec sampleSettings Sys.init configuredRun).db.creationRequests := by
    decide +kernel
  have hlater (later : List Op) : Relation.ReflTransGen (Step sampleSettings)
      (exec sampleSettings Sys.init configuredRun)
      (exec sampleSettings Sys.init (configuredRun ++ later)) := by
    rw [exec_append]
    exact run_exec _ _
  have hreserved : ∃ k ∈ (exec sampleSettings Sys.init reservedRun).db.knowledgeBases,
      k.id = 1 ∧ k.activeIndexGenerationId = some 1711 := by
    decide +kernel
  have hreplaced : ∃ k ∈ (exec sampleSettings Sys.init replacedRun).db.knowledgeBases,
      k.id = 1 ∧ k.activeIndexGenerationId = some 1712 := by
    decide +kernel
  constructor
  · obtain ⟨k, hk, hid, hactive⟩ := hreserved
    exact (creation_replay (reachable_exec configuredRun) hrow (hlater _) hk hid (.ok ())
      (.error internalError)).mpr hactive
  · obtain ⟨k, hk, hid, hactive⟩ := hreplaced
    intro hok
    have hpointer := (creation_replay (reachable_exec configuredRun) hrow (hlater _) hk hid (.ok ())
      (.error internalError)).mp hok
    rw [hactive] at hpointer
    revert hpointer
    decide

/-- After a second generation has taken the place of the first, the request raises. -/
theorem creation_replay_replaced : ¬ ∀ (settings : Settings) (s t : Sys) (r : CreationRequest)
    (k : KnowledgeBase) (current : Except (ℕ × String) Unit)
    (source : Except TxError (EmbeddingConfiguration × Str)), Reachable settings s →
    r ∈ s.db.creationRequests → r.state = .succeeded → Relation.ReflTransGen (Step settings) s t →
    k ∈ t.db.knowledgeBases → k.id = r.knowledgeBaseId →
    reserveGeneration settings.identities r.command current source t.db =
      .ok (.safe r.generationId, t.db) := by
  intro hclaim
  have hrun : Relation.ReflTransGen (Step sampleSettings) (exec sampleSettings Sys.init configuredRun)
      (exec sampleSettings Sys.init replacedRun) := by
    rw [replacedRun, exec_append]
    exact run_exec _ _
  have hrow : configuredRequest ∈ (exec sampleSettings Sys.init configuredRun).db.creationRequests := by
    decide +kernel
  have hkb : ∃ k ∈ (exec sampleSettings Sys.init replacedRun).db.knowledgeBases, k.id = 1 := by
    decide +kernel
  obtain ⟨k, hk, hid⟩ := hkb
  have hsafe := hclaim sampleSettings _ _ configuredRequest k (.ok ()) (.error internalError)
    (reachable_exec configuredRun) hrow rfl hrun hk hid
  have hraised : (reserveGeneration sampleSettings.identities configuredRequest.command (.ok ())
      (.error internalError) (exec sampleSettings Sys.init replacedRun).db).toOption.isNone = true := by
    decide +kernel
  rw [hsafe] at hraised
  cases hraised

end VeloxRag
