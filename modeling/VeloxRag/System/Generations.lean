import VeloxRag.System.Uploads

/-!
# Generations and their requests

A knowledge base points at its building and at its active generation, and every request names
one generation.  The pointers and the statuses move together, whatever runs of the saga are
interleaved: a generation is active only while its request has succeeded, so a run that comes
too late finds the request settled.

## Main definitions

* `HasGeneration`, `Pointed` — the pointers of a knowledge base.
* `GenInv` — the invariant over knowledge bases, generations, requests and reservations.
* `GenOrigin`, `RequestOrigin` — the generations and the requests after a step.
* `generation_pointers`, `lifecycle_one_way` — the pointers, and the order of the statuses.
-/

namespace VeloxRag

open Lib Jobs Ingestion Indexing Metadata

/-! ## Pointers -/

/-- A knowledge base has the generation, with a status. -/
def HasGeneration (generations : List Generation) (knowledgeBaseId : ℕ) (status : GenerationStatus)
    (id : ℕ) : Prop :=
  ∃ g ∈ generations, g.id = id ∧ g.knowledgeBaseId = knowledgeBaseId ∧ g.status = status

section Tables

variable {generations : List Generation} {g g' : Generation} {knowledgeBaseId id : ℕ}
  {status : GenerationStatus}

theorem hasGeneration_self (hkeys : (generations.map (·.id)).Nodup) (hg : g ∈ generations) :
    HasGeneration generations knowledgeBaseId status g.id ↔
      g.knowledgeBaseId = knowledgeBaseId ∧ g.status = status := by
  constructor
  · rintro ⟨x, hx, hid, hkb, hstatus⟩
    rw [row_unique hkeys hg hx hid.symm]
    exact ⟨hkb, hstatus⟩
  · rintro ⟨hkb, hstatus⟩
    exact ⟨g, hg, rfl, hkb, hstatus⟩

/-- The generation of one identity is replaced. -/
theorem hasGeneration_setRow (hg : g ∈ generations) (hid : g'.id = g.id)
    (hkb : g'.knowledgeBaseId = g.knowledgeBaseId) :
    HasGeneration (setRow (·.id) g' generations) knowledgeBaseId status id ↔
      if id = g.id then g.knowledgeBaseId = knowledgeBaseId ∧ g'.status = status
      else HasGeneration generations knowledgeBaseId status id := by
  by_cases h : id = g.id
  · rw [if_pos h]
    constructor
    · rintro ⟨x, hx, hxid, hxkb, hxstatus⟩
      rcases mem_setRow hx with rfl | ⟨-, hne⟩
      · exact ⟨by rw [← hkb, hxkb], hxstatus⟩
      · exact absurd (by rw [hxid, hid, h]) hne
    · rintro ⟨hkb', hstatus⟩
      exact ⟨g', mem_setRow_self hg hid.symm, by rw [hid, h], by rw [hkb, hkb'], hstatus⟩
  · rw [if_neg h]
    constructor
    · rintro ⟨x, hx, hxid, hrest⟩
      rcases mem_setRow hx with rfl | ⟨hmem, -⟩
      · exact absurd (by rw [← hxid, hid]) h
      · exact ⟨x, hmem, hxid, hrest⟩
    · rintro ⟨x, hx, hxid, hrest⟩
      refine ⟨x, mem_setRow_of_ne hx ?_, hxid, hrest⟩
      rw [hxid, hid]
      exact h

theorem HasGeneration.unique (hkeys : (generations.map (·.id)).Nodup) {other : ℕ}
    {status' : GenerationStatus} (h : HasGeneration generations knowledgeBaseId status id)
    (h' : HasGeneration generations other status' id) : knowledgeBaseId = other ∧ status = status' := by
  obtain ⟨x, hx, rfl, rfl, rfl⟩ := h
  exact (hasGeneration_self hkeys hx).mp h'

theorem hasGeneration_append :
    HasGeneration (generations ++ [g]) knowledgeBaseId status id ↔
      HasGeneration generations knowledgeBaseId status id ∨
        (g.id = id ∧ g.knowledgeBaseId = knowledgeBaseId ∧ g.status = status) := by
  simp only [HasGeneration, List.mem_append, List.mem_singleton]
  constructor
  · rintro ⟨x, hx | rfl, hrest⟩
    · exact .inl ⟨x, hx, hrest⟩
    · exact .inr hrest
  · rintro (⟨x, hx, hrest⟩ | hrest)
    · exact ⟨x, .inl hx, hrest⟩
    · exact ⟨g, .inr rfl, hrest⟩

/-- The generations of another knowledge base are deleted. -/
theorem hasGeneration_purge {other : ℕ} (h : knowledgeBaseId ≠ other) :
    HasGeneration (generations.filter (·.knowledgeBaseId ≠ other)) knowledgeBaseId status id ↔
      HasGeneration generations knowledgeBaseId status id := by
  constructor
  · rintro ⟨x, hx, hrest⟩
    exact ⟨x, List.mem_of_mem_filter hx, hrest⟩
  · rintro ⟨x, hx, hid, hkb, hstatus⟩
    exact ⟨x, List.mem_filter.mpr ⟨hx, by simpa [hkb] using h⟩, hid, hkb, hstatus⟩

end Tables

/-- The pointers of a knowledge base are at its building and at its active generation. -/
structure Pointed (generations : List Generation) (k : KnowledgeBase) : Prop where
  pending : ∀ id, k.pendingIndexGenerationId = some id ↔ HasGeneration generations k.id .building id
  active : ∀ id, k.activeIndexGenerationId = some id ↔ HasGeneration generations k.id .active id

/-- What the status of a generation says about its request. -/
def Settles : GenerationStatus → RequestState → Prop
  | .building, state => state = .inProgress
  | .active, state | .retiring, state => state = .succeeded
  | .failed, _ => True

/-! ## The invariant -/

/-- Every generation has its knowledge base, whose pointers are right; every request has its generation,
and no other request has it; and a reservation is backed as long as its knowledge base is there. -/
structure GenInv (db : Db) (reservations : List Reservation) : Prop where
  owner : ∀ g ∈ db.generations, g.knowledgeBaseId ∈ db.knowledgeBases.map (·.id)
  pointed : ∀ k ∈ db.knowledgeBases, Pointed db.generations k
  requested : ∀ r ∈ db.creationRequests, ∃ g ∈ db.generations, g.id = r.generationId ∧
    g.knowledgeBaseId = r.knowledgeBaseId ∧ Settles g.status r.state
  single : (db.creationRequests.map (·.generationId)).Nodup
  backed : ∀ R ∈ reservations, R.knowledgeBaseId ∈ db.knowledgeBases.map (·.id) → R.Backed db

section Invariant

variable {db db' : Db} {reservations : List Reservation} {k k' : KnowledgeBase} {g : Generation}
  {r : CreationRequest}

theorem Pointed.same {generations : List Generation} (h : Pointed generations k) (hid : k'.id = k.id)
    (hpending : k'.pendingIndexGenerationId = k.pendingIndexGenerationId)
    (hactive : k'.activeIndexGenerationId = k.activeIndexGenerationId) : Pointed generations k' where
  pending := by rw [hid, hpending]; exact h.pending
  active := by rw [hid, hactive]; exact h.active

/-- The invariant only reads the pointers of the knowledge bases, the generations and the requests. -/
theorem GenInv.frame (h : GenInv db reservations)
    (hids : db'.knowledgeBases.map (·.id) = db.knowledgeBases.map (·.id))
    (hkbs : ∀ x' ∈ db'.knowledgeBases, ∃ x ∈ db.knowledgeBases, x'.id = x.id ∧
      x'.pendingIndexGenerationId = x.pendingIndexGenerationId ∧
      x'.activeIndexGenerationId = x.activeIndexGenerationId)
    (hgens : db'.generations = db.generations) (hreqs : db'.creationRequests = db.creationRequests) :
    GenInv db' reservations := by
  refine ⟨?_, ?_, ?_, ?_, ?_⟩
  · rw [hgens, hids]
    exact h.owner
  · intro x' hx'
    obtain ⟨x, hx, hid, hpending, hactive⟩ := hkbs x' hx'
    rw [hgens]
    exact (h.pointed x hx).same hid hpending hactive
  · rw [hreqs, hgens]
    exact h.requested
  · rw [hreqs]
    exact h.single
  · rw [hids]
    unfold Reservation.Backed
    rw [hreqs, hgens]
    exact h.backed

/-- A knowledge base changes, and not in its pointers. -/
theorem GenInv.setKb (h : GenInv db reservations) (hk : k ∈ db.knowledgeBases)
    (hkbs : db'.knowledgeBases = setRow (·.id) k' db.knowledgeBases) (hid : k'.id = k.id)
    (hpending : k'.pendingIndexGenerationId = k.pendingIndexGenerationId)
    (hactive : k'.activeIndexGenerationId = k.activeIndexGenerationId)
    (hgens : db'.generations = db.generations) (hreqs : db'.creationRequests = db.creationRequests) :
    GenInv db' reservations := by
  refine h.frame (by rw [hkbs, map_setRow]) ?_ hgens hreqs
  intro x hx
  rw [hkbs] at hx
  rcases mem_setRow hx with rfl | ⟨hmem, -⟩
  · exact ⟨k, hk, hid, hpending, hactive⟩
  · exact ⟨x, hmem, rfl, rfl, rfl⟩

/-- The rows of a saga belong together. -/
theorem GenInv.linked (hkeys : db.WellKeyed) (h : GenInv db reservations)
    (rows : SagaRows db reservations k g r) :
    r.generationId = g.id ∧ g.knowledgeBaseId = k.id ∧ Settles g.status r.state := by
  obtain ⟨x, hx, hxid, hxkb, hsettles⟩ := h.requested r rows.request_mem
  have hlink : r.generationId = g.id ∧ g.knowledgeBaseId = k.id := by
    rcases rows.named with ⟨R, hR, hRkb, hRgen, hRreq⟩ | ⟨hkb, hgen⟩
    · have hmem : R.knowledgeBaseId ∈ db.knowledgeBases.map (·.id) := by
        rw [hRkb]
        exact List.mem_map_of_mem rows.knowledgeBase_mem
      obtain ⟨r', hr', g', hg', hrid, hrgen, hgid, hgkb, -⟩ := h.backed R hR hmem
      obtain rfl := row_unique hkeys.creationRequests rows.request_mem hr' (by rw [hrid, hRreq])
      obtain rfl := row_unique hkeys.generations rows.generation_mem hg' (by rw [hgid, hRgen])
      exact ⟨by rw [hrgen, hRgen], by rw [hgkb, hRkb]⟩
    · obtain rfl := row_unique hkeys.generations rows.generation_mem hx (by rw [hxid, hgen])
      exact ⟨hgen, by rw [hxkb, hkb]⟩
  obtain rfl := row_unique hkeys.generations rows.generation_mem hx (by rw [hxid, hlink.1])
  exact ⟨hlink.1, hlink.2, hsettles⟩

end Invariant

/-! ## Rows that are replaced -/

/-- The columns of a generation that no write changes. -/
structure Generation.Keeps (g g' : Generation) : Prop where
  id : g'.id = g.id
  knowledgeBaseId : g'.knowledgeBaseId = g.knowledgeBaseId
  collection : g'.qdrantCollectionName = g.qdrantCollectionName
  indexProfileHash : g'.indexProfileHash = g.indexProfileHash
  embeddingProfileId : g'.embeddingProfileId = g.embeddingProfileId
  embeddingConfigSnapshot : g'.embeddingConfigSnapshot = g.embeddingConfigSnapshot
  embeddingConfigHash : g'.embeddingConfigHash = g.embeddingConfigHash
  filterSchemaSnapshot : g'.filterSchemaSnapshot = g.filterSchemaSnapshot
  appliedFilterSchemaRevision : g'.appliedFilterSchemaRevision = g.appliedFilterSchemaRevision

/-- The columns of a request that no write changes. -/
structure CreationRequest.Keeps (r r' : CreationRequest) : Prop where
  id : r'.id = r.id
  knowledgeBaseId : r'.knowledgeBaseId = r.knowledgeBaseId
  generationId : r'.generationId = r.generationId

theorem Generation.Keeps.rfl {g : Generation} : g.Keeps g :=
  ⟨Eq.refl _, Eq.refl _, Eq.refl _, Eq.refl _, Eq.refl _, Eq.refl _, Eq.refl _, Eq.refl _, Eq.refl _⟩

theorem CreationRequest.Keeps.rfl {r : CreationRequest} : r.Keeps r := ⟨Eq.refl _, Eq.refl _, Eq.refl _⟩

theorem Generation.Keeps.trans {g g' g'' : Generation} (h : g.Keeps g') (h' : g'.Keeps g'') : g.Keeps g'' := by
  constructor
  · rw [h'.id, h.id]
  · rw [h'.knowledgeBaseId, h.knowledgeBaseId]
  · rw [h'.collection, h.collection]
  · rw [h'.indexProfileHash, h.indexProfileHash]
  · rw [h'.embeddingProfileId, h.embeddingProfileId]
  · rw [h'.embeddingConfigSnapshot, h.embeddingConfigSnapshot]
  · rw [h'.embeddingConfigHash, h.embeddingConfigHash]
  · rw [h'.filterSchemaSnapshot, h.filterSchemaSnapshot]
  · rw [h'.appliedFilterSchemaRevision, h.appliedFilterSchemaRevision]

section Replaced

variable {db db' : Db} {reservations : List Reservation} {k k' : KnowledgeBase} {g g' : Generation}
  {r : CreationRequest} {generations : List Generation}

theorem exists_keeps_setRow (hkeys : (generations.map (·.id)).Nodup) (hg : g ∈ generations)
    (keeps : g.Keeps g') {x : Generation} (hx : x ∈ generations) :
    ∃ x' ∈ setRow (·.id) g' generations, x.Keeps x' := by
  obtain ⟨x', hx', ⟨rfl, hid⟩ | ⟨rfl, -⟩⟩ := exists_mem_setRow Generation.id g' hx
  · rw [row_unique hkeys hx hg (hid.trans keeps.id)]
    exact ⟨x', hx', keeps⟩
  · exact ⟨x', hx', .rfl⟩

theorem exists_request_setRow {requests : List CreationRequest} (hkeys : (requests.map (·.id)).Nodup)
    (hr : r ∈ requests) {r' x : CreationRequest} (keeps : r.Keeps r') (hx : x ∈ requests) :
    ∃ x' ∈ setRow (·.id) r' requests, x.Keeps x' := by
  obtain ⟨x', hx', ⟨rfl, hid⟩ | ⟨rfl, -⟩⟩ := exists_mem_setRow CreationRequest.id r' hx
  · rw [row_unique hkeys hx hr (hid.trans keeps.id)]
    exact ⟨x', hx', keeps⟩
  · exact ⟨x', hx', .rfl⟩

/-- Generations and requests are replaced by rows that keep what the invariant compares. -/
theorem GenInv.replace (h : GenInv db reservations)
    (hkbs : db'.knowledgeBases.map (·.id) = db.knowledgeBases.map (·.id))
    (hgens : ∀ x ∈ db.generations, ∃ x' ∈ db'.generations, x.Keeps x')
    (hback : ∀ x' ∈ db'.generations, ∃ x ∈ db.generations, x.Keeps x')
    (hreqs : ∀ x ∈ db.creationRequests, ∃ x' ∈ db'.creationRequests, x.Keeps x')
    (hsingle : db'.creationRequests.map (·.generationId) = db.creationRequests.map (·.generationId))
    (pointed : ∀ k ∈ db'.knowledgeBases, Pointed db'.generations k)
    (requested : ∀ r ∈ db'.creationRequests, ∃ g ∈ db'.generations, g.id = r.generationId ∧
      g.knowledgeBaseId = r.knowledgeBaseId ∧ Settles g.status r.state) : GenInv db' reservations := by
  refine ⟨?_, pointed, requested, by rw [hsingle]; exact h.single, ?_⟩
  · intro x' hx'
    obtain ⟨x, hx, keeps⟩ := hback x' hx'
    rw [keeps.knowledgeBaseId, hkbs]
    exact h.owner x hx
  · intro R hR hmem
    rw [hkbs] at hmem
    obtain ⟨r, hr, g, hg, hrid, hrgen, hgid, hgkb, hcollection⟩ := h.backed R hR hmem
    obtain ⟨r', hr', rkeeps⟩ := hreqs r hr
    obtain ⟨g', hg', gkeeps⟩ := hgens g hg
    exact ⟨r', hr', g', hg', by rw [rkeeps.id, hrid], by rw [rkeeps.generationId, hrgen],
      by rw [gkeeps.id, hgid], by rw [gkeeps.knowledgeBaseId, hgkb], by rw [gkeeps.collection, hcollection]⟩

theorem clearPending_pending (k : KnowledgeBase) (generationId id : ℕ) :
    (clearPending k generationId).pendingIndexGenerationId = some id ↔
      id ≠ generationId ∧ k.pendingIndexGenerationId = some id := by
  unfold clearPending
  split
  · rename_i h
    simp only [reduceCtorEq, h, Option.some.injEq, false_iff, not_and]
    exact fun hne heq => hne heq.symm
  · rename_i h
    constructor
    · intro hid
      refine ⟨?_, hid⟩
      rintro rfl
      exact h hid
    · exact And.right

theorem clearPending_active (k : KnowledgeBase) (generationId : ℕ) :
    (clearPending k generationId).activeIndexGenerationId = k.activeIndexGenerationId := by
  unfold clearPending
  split
  · rfl
  · rfl

/-- A generation of another knowledge base changes. -/
theorem Pointed.other (h : Pointed generations k) (hkeys : (generations.map (·.id)).Nodup)
    (hg : g ∈ generations) (keeps : g.Keeps g') (hne : g.knowledgeBaseId ≠ k.id) :
    Pointed (setRow (·.id) g' generations) k := by
  have hsame {status : GenerationStatus} {id : ℕ} :
      HasGeneration (setRow (·.id) g' generations) k.id status id ↔
        HasGeneration generations k.id status id := by
    rw [hasGeneration_setRow hg keeps.id keeps.knowledgeBaseId]
    split
    · rename_i hid
      rw [hid, hasGeneration_self hkeys hg]
      exact iff_of_false (fun hk => hne hk.1) (fun hk => hne hk.1)
    · rfl
  exact ⟨fun id => by rw [hsame]; exact h.pending id, fun id => by rw [hsame]; exact h.active id⟩

/-- A generation that is not active fails, and the pending pointer is cleared. -/
theorem Pointed.fail (h : Pointed generations k) (hkeys : (generations.map (·.id)).Nodup)
    (hg : g ∈ generations) (keeps : g.Keeps g') (hfailed : g'.status = .failed)
    (hactive : g.status ≠ .active) :
    Pointed (setRow (·.id) g' generations) (clearPending k g.id) := by
  constructor
  · intro id
    rw [clearPending_id, clearPending_pending, hasGeneration_setRow hg keeps.id keeps.knowledgeBaseId,
      h.pending id]
    by_cases hid : id = g.id
    · simp [hid, hfailed]
    · simp [hid]
  · intro id
    rw [clearPending_id, clearPending_active, hasGeneration_setRow hg keeps.id keeps.knowledgeBaseId,
      h.active id]
    by_cases hid : id = g.id
    · rw [hid, hasGeneration_self hkeys hg]
      simp [hfailed, hactive]
    · rw [if_neg hid]

/-- **A generation fails**, with its request or without. -/
theorem GenInv.fail (hkeys : db.WellKeyed) (h : GenInv db reservations) (hk : k ∈ db.knowledgeBases)
    (hg : g ∈ db.generations) (keeps : g.Keeps g') (hfailed : g'.status = .failed)
    (hkb : g.knowledgeBaseId = k.id) (hactive : g.status ≠ .active)
    (hkbs : db'.knowledgeBases = setRow (·.id) (clearPending k g.id) db.knowledgeBases)
    (hgens : db'.generations = setRow (·.id) g' db.generations)
    (hreqs : ∀ x ∈ db.creationRequests, ∃ x' ∈ db'.creationRequests, x.Keeps x')
    (hsingle : db'.creationRequests.map (·.generationId) = db.creationRequests.map (·.generationId))
    (hchanged : ∀ x' ∈ db'.creationRequests, x' ∈ db.creationRequests ∨
      (x'.generationId = g.id ∧ x'.knowledgeBaseId = g.knowledgeBaseId)) : GenInv db' reservations := by
  have hself : g' ∈ db'.generations := by
    rw [hgens]
    exact mem_setRow_self hg keeps.id.symm
  refine h.replace (by rw [hkbs, map_setRow]) ?_ ?_ hreqs hsingle ?_ ?_
  · rw [hgens]
    exact fun x hx => exists_keeps_setRow hkeys.generations hg keeps hx
  · rw [hgens]
    intro x' hx'
    rcases mem_setRow hx' with rfl | ⟨hmem, -⟩
    · exact ⟨g, hg, keeps⟩
    · exact ⟨x', hmem, .rfl⟩
  · intro x hx
    rw [hgens]
    rw [hkbs] at hx
    rcases mem_setRow hx with rfl | ⟨hmem, hne⟩
    · exact (h.pointed k hk).fail hkeys.generations hg keeps hfailed hactive
    · refine (h.pointed x hmem).other hkeys.generations hg keeps ?_
      rw [clearPending_id] at hne
      rw [hkb]
      exact Ne.symm hne
  · intro x' hx'
    rcases hchanged x' hx' with hmem | ⟨hgen, hxkb⟩
    · obtain ⟨y, hy, hyid, hykb, hsettles⟩ := h.requested x' hmem
      by_cases hid : y.id = g.id
      · obtain rfl := row_unique hkeys.generations hy hg hid
        exact ⟨g', hself, by rw [keeps.id, hyid], by rw [keeps.knowledgeBaseId, hykb], by rw [hfailed]; trivial⟩
      · refine ⟨y, ?_, hyid, hykb, hsettles⟩
        rw [hgens]
        exact mem_setRow_of_ne hy (by rw [keeps.id]; exact hid)
    · exact ⟨g', hself, by rw [keeps.id, hgen], by rw [keeps.knowledgeBaseId, hxkb], by rw [hfailed]; trivial⟩

end Replaced

/-! ## The saga -/

section Saga

variable {identities : GenerationIdentities} {fresh : ℕ → Prop} {db db' : Db}
  {reservations : List Reservation} {k : KnowledgeBase} {g : Generation} {delayed : Bool}

/-- **A new generation** with its request. -/
theorem GenInv.reserve (h : GenInv db reservations) {command : GenerationCommand}
    {embedding : EmbeddingConfiguration} {filterSnapshot : Str} {requestId generationId : ℕ}
    (hk : k ∈ db.knowledgeBases) (hpending : k.pendingIndexGenerationId = none)
    (free : reservationKeysFree db command requestId generationId = true) :
    GenInv { db with
      creationRequests := db.creationRequests ++ [⟨requestId, command.actorId, k.id,
        command.idempotencyKey, command.fingerprint, generationId, .inProgress, none, none⟩]
      generations := db.generations ++ [newGeneration generationId k embedding filterSnapshot]
      knowledgeBases := setRow (·.id) { k with
        pendingIndexGenerationId := some generationId } db.knowledgeBases } reservations := by
  simp only [reservationKeysFree, Bool.and_eq_true, List.all_eq_true, decide_eq_true_eq] at free
  have hnew : newGeneration generationId k embedding filterSnapshot
      ∈ db.generations ++ [newGeneration generationId k embedding filterSnapshot] :=
    List.mem_append_right _ (List.mem_singleton.mpr rfl)
  refine ⟨?_, ?_, ?_, ?_, ?_⟩
  · intro x hx
    rw [map_setRow]
    rcases List.mem_append.mp hx with hmem | hmem
    · exact h.owner x hmem
    · rw [List.mem_singleton.mp hmem]
      exact List.mem_map_of_mem hk
  · intro x hx
    rcases mem_setRow hx with rfl | ⟨hmem, hne⟩
    · constructor
      · intro id
        have hnone : ¬ HasGeneration db.generations k.id .building id := by
          rw [← (h.pointed k hk).pending id, hpending]
          simp
        rw [hasGeneration_append]
        simp [hnone, newGeneration]
      · intro id
        rw [hasGeneration_append, ← (h.pointed k hk).active id]
        simp [newGeneration]
    · have hother : ¬ k.id = x.id := Ne.symm hne
      refine ⟨fun id => ?_, fun id => ?_⟩
      · rw [hasGeneration_append, (h.pointed x hmem).pending id]
        simp [newGeneration, hother]
      · rw [hasGeneration_append, (h.pointed x hmem).active id]
        simp [newGeneration, hother]
  · intro x hx
    rcases List.mem_append.mp hx with hmem | hmem
    · obtain ⟨y, hy, hrest⟩ := h.requested x hmem
      exact ⟨y, List.mem_append_left _ hy, hrest⟩
    · rw [List.mem_singleton.mp hmem]
      exact ⟨_, hnew, rfl, rfl, rfl⟩
  · refine nodup_map_append h.single ?_
    intro x hx heq
    obtain ⟨y, hy, hyid, -⟩ := h.requested x hx
    exact (free.2 y hy).1 (hyid.trans heq)
  · intro R hR hmem
    rw [map_setRow] at hmem
    obtain ⟨r, hr, y, hy, hrest⟩ := h.backed R hR hmem
    exact ⟨r, List.mem_append_left _ hr, y, List.mem_append_left _ hy, hrest⟩

/-- The generation that an activation replaces is the active one. -/
theorem GenInv.superseded (hkeys : db.WellKeyed) (h : GenInv db reservations) (hk : k ∈ db.knowledgeBases) :
    (superseded? db k = none ∧ k.activeIndexGenerationId = none) ∨
      ∃ old ∈ db.generations, superseded? db k = some old ∧ k.activeIndexGenerationId = some old.id ∧
        old.knowledgeBaseId = k.id ∧ old.status = .active := by
  unfold superseded?
  cases hactive : k.activeIndexGenerationId with
  | none => exact .inl ⟨rfl, rfl⟩
  | some id =>
      obtain ⟨old, hold, rfl, hkb, hstatus⟩ := ((h.pointed k hk).active id).mp hactive
      refine .inr ⟨old, hold, ?_, rfl, hkb, hstatus⟩
      rw [Option.bind_some]
      exact (find?_some_iff hkeys.generations).mpr ⟨hold, rfl⟩

theorem activatedGeneration_keeps {revision now : ℕ} :
    g.Keeps (activatedGeneration identities g revision now) :=
  ⟨rfl, rfl, rfl, rfl, rfl, rfl, rfl, rfl, rfl⟩

/-- The generations when the active one is retired. -/
theorem retire_cases (hkeys : db.WellKeyed) (h : GenInv db reservations) (hk : k ∈ db.knowledgeBases) :
    (∀ x ∈ db.generations, ∃ x' ∈ retire (superseded? db k) db.generations, x.Keeps x' ∧
      (x' = x ∨ x.status = .active ∧ x'.status = .retiring)) ∧
    (∀ x' ∈ retire (superseded? db k) db.generations, ∃ x ∈ db.generations, x.Keeps x' ∧
      (x' = x ∨ x.status = .active ∧ x'.status = .retiring)) ∧
    (∀ kb status id, HasGeneration (retire (superseded? db k) db.generations) kb status id ↔
      if k.activeIndexGenerationId = some id then k.id = kb ∧ status = .retiring
      else HasGeneration db.generations kb status id) := by
  rcases h.superseded hkeys hk with ⟨hnone, hactive⟩ | ⟨old, hold, hsome, hactive, hkb, hstatus⟩
  · rw [hnone, hactive]
    exact ⟨fun x hx => ⟨x, hx, .rfl, .inl rfl⟩, fun x hx => ⟨x, hx, .rfl, .inl rfl⟩, fun _ _ _ => by simp [retire]⟩
  · rw [hsome, hactive]
    have hkeeps : old.Keeps { old with status := .retiring } := ⟨rfl, rfl, rfl, rfl, rfl, rfl, rfl, rfl, rfl⟩
    refine ⟨?_, ?_, ?_⟩
    · intro x hx
      obtain ⟨x', hx', ⟨rfl, hid⟩ | ⟨rfl, -⟩⟩ :=
        exists_mem_setRow Generation.id { old with status := .retiring } hx
      · obtain rfl := row_unique hkeys.generations hx hold hid
        exact ⟨_, hx', hkeeps, .inr ⟨hstatus, rfl⟩⟩
      · exact ⟨x', hx', .rfl, .inl rfl⟩
    · intro x' hx'
      rcases mem_setRow hx' with rfl | ⟨hmem, -⟩
      · exact ⟨old, hold, hkeeps, .inr ⟨hstatus, rfl⟩⟩
      · exact ⟨x', hmem, .rfl, .inl rfl⟩
    · intro kb status id
      refine (hasGeneration_setRow hold hkeeps.id hkeeps.knowledgeBaseId).trans ?_
      rw [hkb]
      by_cases hid : id = old.id
      · simp [hid, eq_comm]
      · have hid' : ¬ old.id = id := fun heq => hid heq.symm
        simp [hid, hid']

/-- **A building generation becomes active**, and the active one is retired. -/
theorem GenInv.activate (hkeys : db.WellKeyed) (h : GenInv db reservations) {r : CreationRequest}
    {jobs : List Job} (rows : SagaRows db reservations k g r) (hstatus : g.status = .building)
    (hpending : k.pendingIndexGenerationId = some g.id) :
    GenInv (promoted identities k g r jobs db) reservations := by
  obtain ⟨hgen, hkb, -⟩ := h.linked hkeys rows
  obtain ⟨hforward, hback, hhas⟩ := retire_cases hkeys h rows.knowledgeBase_mem
  have hretired : ((retire (superseded? db k) db.generations).map (·.id)).Nodup := nodup_retire hkeys.generations
  have hg : g ∈ retire (superseded? db k) db.generations := by
    obtain ⟨x', hx', -, rfl | ⟨hactive, -⟩⟩ := hforward g rows.generation_mem
    · exact hx'
    · rw [hstatus] at hactive
      cases hactive
  have hkeeps : g.Keeps (activatedGeneration identities g (k.mutationRevision + 1) db.now) :=
    activatedGeneration_keeps
  have hhas' (kb : ℕ) (status : GenerationStatus) (id : ℕ) :
      HasGeneration (promoted identities k g r jobs db).generations kb status id ↔
        if id = g.id then g.knowledgeBaseId = kb ∧ .active = status
        else if k.activeIndexGenerationId = some id then k.id = kb ∧ status = .retiring
        else HasGeneration db.generations kb status id := by
    rw [← hhas kb status id]
    exact hasGeneration_setRow hg hkeeps.id hkeeps.knowledgeBaseId
  refine h.replace (map_setRow _ _ _) ?_ ?_ ?_ ?_ ?_ ?_
  · intro x hx
    obtain ⟨x₁, hx₁, hkeeps₁, -⟩ := hforward x hx
    obtain ⟨x₂, hx₂, hkeeps₂⟩ := exists_keeps_setRow hretired hg hkeeps hx₁
    exact ⟨x₂, hx₂, hkeeps₁.trans hkeeps₂⟩
  · intro x' hx'
    rcases mem_setRow hx' with rfl | ⟨hmem, -⟩
    · exact ⟨g, rows.generation_mem, hkeeps⟩
    · obtain ⟨x, hx, hkeepsx, -⟩ := hback x' hmem
      exact ⟨x, hx, hkeepsx⟩
  · exact fun x hx => exists_request_setRow hkeys.creationRequests rows.request_mem ⟨rfl, rfl, rfl⟩ hx
  · exact map_setRow_column hkeys.creationRequests rows.request_mem rfl rfl
  · intro x hx
    rcases mem_setRow hx with rfl | ⟨hmem, hne⟩
    · refine ⟨fun id => ?_, fun id => ?_⟩
      · rw [hhas']
        by_cases hid : id = g.id
        · simp [hid]
        · rw [if_neg hid, ← (h.pointed k rows.knowledgeBase_mem).pending id, hpending]
          have hid' : ¬ g.id = id := fun heq => hid heq.symm
          simp [hid']
      · rw [hhas']
        by_cases hid : id = g.id
        · simp [hid, hkb]
        · rw [if_neg hid, ← (h.pointed k rows.knowledgeBase_mem).active id]
          have hid' : ¬ g.id = id := fun heq => hid heq.symm
          simp [hid']
    · -- the rows that change belong to another knowledge base
      have hsame (status : GenerationStatus) (id : ℕ) :
          HasGeneration (promoted identities k g r jobs db).generations x.id status id ↔
            HasGeneration db.generations x.id status id := by
        have hother : ¬ k.id = x.id := Ne.symm hne
        rw [hhas']
        by_cases hid : id = g.id
        · rw [if_pos hid, hkb, hid, hasGeneration_self hkeys.generations rows.generation_mem, hkb]
          simp [hother]
        · rw [if_neg hid]
          by_cases hactive : k.activeIndexGenerationId = some id
          · rw [if_pos hactive]
            refine iff_of_false (fun hk => hother hk.1) fun hx => hother ?_
            exact ((((h.pointed k rows.knowledgeBase_mem).active id).mp hactive).unique hkeys.generations hx).1
          · rw [if_neg hactive]
      exact ⟨fun id => by rw [hsame]; exact (h.pointed x hmem).pending id,
        fun id => by rw [hsame]; exact (h.pointed x hmem).active id⟩
  · intro x hx
    rcases mem_setRow hx with rfl | ⟨hmem, hne⟩
    · obtain ⟨y, hy, hyid, hykb, -⟩ := h.requested r rows.request_mem
      obtain rfl := row_unique hkeys.generations hy rows.generation_mem (hyid.trans hgen)
      exact ⟨_, mem_setRow_self hg hkeeps.id.symm, hyid, hykb, rfl⟩
    · obtain ⟨y, hy, hyid, hykb, hsettles⟩ := h.requested x hmem
      have hyne : y.id ≠ g.id := by
        intro heq
        have hsame := row_unique h.single hmem rows.request_mem (by rw [← hyid, heq, hgen])
        exact hne (by rw [hsame])
      obtain ⟨y', hy', hkeepsy, hstatusy⟩ := hforward y hy
      refine ⟨y', mem_setRow_of_ne hy' (by rw [hkeepsy.id]; exact hyne), by rw [hkeepsy.id, hyid],
        by rw [hkeepsy.knowledgeBaseId, hykb], ?_⟩
      rcases hstatusy with rfl | ⟨hactive, hretiring⟩
      · exact hsettles
      · rw [hactive] at hsettles
        rw [hretiring]
        exact hsettles

/-- **Every step of a saga keeps the invariant.** -/
theorem GenInv.saga (hkeys : db.WellKeyed) (h : GenInv db reservations)
    (write : SagaWrite identities reservations fresh db delayed db') : GenInv db' reservations := by
  cases write with
  | reserved command knowledgeBase embedding filterSnapshot requestId generationId mem id status pending
      building claim free => exact h.reserve mem pending free
  | refused _ knowledgeBase generation counted request status code rows columns guard =>
      obtain ⟨hgen, hkb, hsettles⟩ := h.linked hkeys rows
      have hactive : generation.status ≠ .active := by
        intro ha
        rw [ha] at hsettles guard
        split at guard
        · exact guard.2 rfl
        · exact guard.1 hsettles
      have hcid : counted.id = generation.id := by rw [columns]
      have hkeeps : generation.Keeps { counted with
          status := .failed
          safeErrorCode := some code.toList } := by
        rw [columns]
        exact ⟨rfl, rfl, rfl, rfl, rfl, rfl, rfl, rfl, rfl⟩
      refine h.fail hkeys rows.knowledgeBase_mem rows.generation_mem hkeeps rfl hkb hactive
        (by rw [← hcid]; rfl) rfl ?_ ?_ ?_
      · exact fun x hx => exists_request_setRow hkeys.creationRequests rows.request_mem ⟨rfl, rfl, rfl⟩ hx
      · exact map_setRow_column hkeys.creationRequests rows.request_mem rfl rfl
      · intro x hx
        rcases mem_setRow hx with rfl | ⟨hmem, -⟩
        · obtain ⟨y, hy, hyid, hykb, -⟩ := h.requested request rows.request_mem
          obtain rfl := row_unique hkeys.generations hy rows.generation_mem (hyid.trans hgen)
          exact .inr ⟨hgen, hykb.symm⟩
        · exact .inl hmem
  | abandoned knowledgeBase generation knowledgeBase_mem generation_mem owner status =>
      have hkeeps : generation.Keeps { generation with
          status := .failed
          safeErrorCode := some "GENERATION_ABANDONED".toList } := ⟨rfl, rfl, rfl, rfl, rfl, rfl, rfl, rfl, rfl⟩
      exact h.fail hkeys knowledgeBase_mem generation_mem hkeeps rfl owner (by rw [status]; decide) rfl rfl
        (fun x hx => ⟨x, hx, .rfl⟩) rfl (fun x hx => .inl hx)
  | activated _ knowledgeBase generation request reservation jobId jobs rows reserved generationId claim
      state status active pending => exact h.activate hkeys rows status pending

end Saga

/-! ## Every step -/

section Steps

variable {settings : Settings} {s s' t : Sys} {op : Op}

/-- The rows of a knowledge base are deleted. -/
theorem GenInv.purge {db db' : Db} {reservations : List Reservation} {knowledgeBaseId : ℕ}
    (hkeys : db.WellKeyed) (h : GenInv db reservations) (rows : deleteRows knowledgeBaseId db = .ok ((), db')) :
    GenInv db' reservations := by
  simp only [deleteRows, Except.ok.injEq, Prod.mk.injEq, true_and] at rows
  subst rows
  have hmem {x : ℕ} (hx : x ∈ (db.knowledgeBases.filter (·.id ≠ knowledgeBaseId)).map (·.id)) :
      x ∈ db.knowledgeBases.map (·.id) ∧ x ≠ knowledgeBaseId := by
    obtain ⟨k, hk, rfl⟩ := List.mem_map.mp hx
    obtain ⟨hk, hne⟩ := List.mem_filter.mp hk
    exact ⟨List.mem_map_of_mem hk, by simpa using hne⟩
  have hstays {g : Generation} (hg : g ∈ db.generations) (hne : g.knowledgeBaseId ≠ knowledgeBaseId) :
      g ∈ db.generations.filter (·.knowledgeBaseId ≠ knowledgeBaseId) :=
    List.mem_filter.mpr ⟨hg, by simpa using hne⟩
  refine ⟨?_, ?_, ?_, ?_, ?_⟩
  · intro g hg
    obtain ⟨hg, hne⟩ := List.mem_filter.mp hg
    obtain ⟨k, hk, hid⟩ := List.mem_map.mp (h.owner g hg)
    refine List.mem_map.mpr ⟨k, List.mem_filter.mpr ⟨hk, ?_⟩, hid⟩
    rw [hid]
    exact hne
  · intro k hk
    obtain ⟨hk, hne⟩ := List.mem_filter.mp hk
    have hne : k.id ≠ knowledgeBaseId := by simpa using hne
    exact ⟨fun id => by rw [hasGeneration_purge hne]; exact (h.pointed k hk).pending id,
      fun id => by rw [hasGeneration_purge hne]; exact (h.pointed k hk).active id⟩
  · intro r hr
    obtain ⟨hr, hne⟩ := List.mem_filter.mp hr
    obtain ⟨g, hg, hid, hkb, hsettles⟩ := h.requested r hr
    exact ⟨g, hstays hg (by rw [hkb]; simpa using hne), hid, hkb, hsettles⟩
  · exact h.single.sublist (List.filter_sublist.map _)
  · intro R hR hR'
    obtain ⟨hkbmem, hne⟩ := hmem hR'
    obtain ⟨r, hr, g, hg, hrid, hrgen, hgid, hgkb, hcollection⟩ := h.backed R hR hkbmem
    obtain ⟨g', hg', hgid', hgkb', -⟩ := h.requested r hr
    obtain rfl := row_unique hkeys.generations hg' hg (by rw [hgid', hrgen, hgid])
    refine ⟨r, List.mem_filter.mpr ⟨hr, ?_⟩, g', hstays hg (by rw [hgkb]; exact hne), hrid, hrgen, hgid, hgkb,
      hcollection⟩
    rw [← hgkb', hgkb]
    simpa using hne

/-- **A step keeps the invariant.** -/
theorem GenInv.step (hbase : Base s) (h : GenInv s.db s.reservations) (heffect : Effect settings s op s') :
    GenInv s'.db s'.reservations := by
  have hsame {db : Db} (hk : db.knowledgeBases = s.db.knowledgeBases)
      (hg : db.generations = s.db.generations) (hr : db.creationRequests = s.db.creationRequests) :
      GenInv db s.reservations :=
    h.frame (by rw [hk]) (fun x hx => ⟨x, hk ▸ hx, rfl, rfl, rfl⟩) hg hr
  cases heffect with
  | activated lease expected graph job mutationId held fresh activation =>
      exact h.setKb activation.graph_in.knowledgeBase rfl rfl rfl rfl rfl rfl
  | uploaded request documentId versionId jobId mutationId checks knowledgeBase generation fresh creates =>
      exact h.setKb creates.knowledgeBase_mem rfl rfl rfl rfl rfl rfl
  | retried _ jobId db fresh write =>
      cases write with
      | ingestion => exact hsame rfl rfl rfl
      | rebuild => exact hsame rfl rfl rfl
  | saga _ delayed db reservations of_delayed write backed =>
      have hinv : GenInv db s.reservations := by
        rcases write with rfl | write
        · exact h
        · exact h.saga hbase.keys write
      refine ⟨hinv.owner, hinv.pointed, hinv.requested, hinv.single, ?_⟩
      intro R hR hmem
      rcases List.mem_append.mp hR with hold | hnew
      · exact hinv.backed R hold hmem
      · exact backed R hnew
  | created knowledgeBaseId fresh =>
      refine ⟨?_, ?_, h.requested, h.single, ?_⟩
      · intro g hg
        rw [List.map_append]
        exact List.mem_append_left _ (h.owner g hg)
      · intro k hk
        rcases List.mem_append.mp hk with hmem | hmem
        · exact h.pointed k hmem
        · rw [List.mem_singleton.mp hmem]
          have hnone (status : GenerationStatus) (id : ℕ) :
              ¬ HasGeneration s.db.generations knowledgeBaseId status id := by
            rintro ⟨g, hg, -, hkb, -⟩
            exact (fresh.generation hg).2 hkb
          exact ⟨fun id => iff_of_false (by simp [newKnowledgeBase]) (hnone _ id),
            fun id => iff_of_false (by simp [newKnowledgeBase]) (hnone _ id)⟩
      · intro R hR hmem
        rw [List.map_append] at hmem
        rcases List.mem_append.mp hmem with hold | hnew
        · exact h.backed R hR hold
        · exact absurd (List.mem_singleton.mp hnew) (fresh.reservation hR)
  | updated _ knowledgeBase status mem => exact h.setKb mem rfl rfl rfl rfl rfl rfl
  | schemaReplaced _ knowledgeBase canonical mutationId mem => exact h.setKb mem rfl rfl rfl rfl rfl rfl
  | deleted _ knowledgeBase actorId jobId mem => exact h.setKb mem rfl rfl rfl rfl rfl rfl
  | purged _ lease db held purge knowledgeBase mem target deleting rows => exact h.purge hbase.keys rows
  | _ => exact hsame rfl rfl rfl

theorem genInv_init : GenInv Sys.init.db Sys.init.reservations := by
  refine ⟨?_, ?_, ?_, List.nodup_nil, ?_⟩
  · intro g hg
    cases hg
  · intro k hk
    cases hk
  · intro r hr
    cases hr
  · intro R hR
    cases hR

theorem genInv_of_reachable (h : Reachable settings s) : GenInv s.db s.reservations :=
  (Reachable.induction_on (fun s => GenInv s.db s.reservations) genInv_init
    (fun hbase hinv heffect => hinv.step hbase heffect) h).2

/-- The generation is the only one of its knowledge base with the status. -/
def OnlyGeneration (generations : List Generation) (knowledgeBaseId : ℕ) (status : GenerationStatus)
    (id : ℕ) : Prop :=
  ∃ g ∈ generations, (g.id = id ∧ g.knowledgeBaseId = knowledgeBaseId ∧ g.status = status) ∧
    ∀ g' ∈ generations, g'.knowledgeBaseId = knowledgeBaseId → g'.status = status → g' = g

theorem onlyGeneration_iff {generations : List Generation} {knowledgeBaseId : ℕ}
    {status : GenerationStatus} {pointer : Option ℕ} (hkeys : (generations.map (·.id)).Nodup)
    (h : ∀ id, pointer = some id ↔ HasGeneration generations knowledgeBaseId status id) (id : ℕ) :
    pointer = some id ↔ OnlyGeneration generations knowledgeBaseId status id := by
  constructor
  · intro hpointer
    obtain ⟨g, hg, hid, hrest⟩ := (h id).mp hpointer
    refine ⟨g, hg, ⟨hid, hrest⟩, ?_⟩
    intro g' hg' hkb hstatus
    have hother : pointer = some g'.id := (h g'.id).mpr ⟨g', hg', rfl, hkb, hstatus⟩
    exact row_unique hkeys hg' hg (by rw [hid]; simpa using hother.symm.trans hpointer)
  · rintro ⟨g, hg, hrow, -⟩
    exact (h id).mpr ⟨g, hg, hrow⟩

/-- **The pointers of a knowledge base**: in every reachable state the pending pointer is at a
generation exactly when it is the only building one, and the active pointer exactly when it is the
only active one. -/
theorem generation_pointers (h : Reachable settings s) :
    ∀ k ∈ s.db.knowledgeBases, ∀ id,
      (k.pendingIndexGenerationId = some id ↔ OnlyGeneration s.db.generations k.id .building id) ∧
      (k.activeIndexGenerationId = some id ↔ OnlyGeneration s.db.generations k.id .active id) := by
  intro k hk id
  have hpointed := (genInv_of_reachable h).pointed k hk
  have hkeys := (base_of_reachable h).keys.generations
  exact ⟨onlyGeneration_iff hkeys hpointed.pending id, onlyGeneration_iff hkeys hpointed.active id⟩

/-! ## The order of the statuses -/

/-- The step is an activation that comes after its request has succeeded, when its generation is no
longer the active one. -/
def DelayedOp (s : Sys) (op : Op) : Prop :=
  ∃ reservation jobId, op = .generationActivated reservation jobId ∧
    delayedActivation s.db reservation = true

/-- The changes of the status of a generation; a retiring one fails only under a reversal. -/
inductive Moved (reversal : Prop) : GenerationStatus → GenerationStatus → Prop
  | same (status : GenerationStatus) : Moved reversal status status
  | failed : Moved reversal .building .failed
  | activated : Moved reversal .building .active
  | retired : Moved reversal .active .retiring
  | reversed (h : reversal) : Moved reversal .retiring .failed

/-- Where a generation after a step comes from. -/
inductive GenOrigin (s : Sys) (op : Op) (g' : Generation) : Prop
  | kept (g : Generation) (mem : g ∈ s.db.generations) (keeps : g.Keeps g')
      (moved : Moved (DelayedOp s op) g.status g'.status)
  | added (id : ℕ) (knowledgeBase : KnowledgeBase) (embedding : EmbeddingConfiguration) (filterSnapshot : Str)
      (mem : knowledgeBase ∈ s.db.knowledgeBases)
      (new : g' = newGeneration id knowledgeBase embedding filterSnapshot)
      (claim : cleanupClaim? s.db g'.qdrantCollectionName = none)
      (free : ∀ g ∈ s.db.generations, g.id ≠ g'.id ∧ g.qdrantCollectionName ≠ g'.qdrantCollectionName)

theorem GenOrigin.of_mem {g' : Generation} (h : g' ∈ s.db.generations) : GenOrigin s op g' :=
  .kept g' h .rfl (.same _)

theorem Indexing.SagaWrite.generations (hkeys : s.db.WellKeyed) (hinv : GenInv s.db s.reservations)
    {identities : GenerationIdentities} {delayed : Bool} {db : Db} (hdelayed : delayed = true → DelayedOp s op)
    (h : SagaWrite identities s.reservations s.Fresh s.db delayed db) {g' : Generation}
    (hg' : g' ∈ db.generations) : GenOrigin s op g' := by
  cases h with
  | reserved command knowledgeBase embedding filterSnapshot requestId generationId mem id status pending
      building claim free =>
      rcases List.mem_append.mp hg' with hmem | hmem
      · exact .of_mem hmem
      · rw [List.mem_singleton.mp hmem]
        simp only [reservationKeysFree, Bool.and_eq_true, List.all_eq_true, decide_eq_true_eq] at free
        refine .added generationId knowledgeBase embedding filterSnapshot mem rfl claim ?_
        intro g hg
        refine ⟨(free.2 g hg).1, ?_⟩
        have hname := (free.2 g hg).2
        rwa [← id] at hname
  | refused _ knowledgeBase generation counted request status code rows columns guard =>
      rcases mem_setRow hg' with rfl | ⟨hmem, -⟩
      · have hsettles := (hinv.linked hkeys rows).2.2
        refine .kept generation rows.generation_mem ?_ ?_
        · rw [columns]
          exact ⟨rfl, rfl, rfl, rfl, rfl, rfl, rfl, rfl, rfl⟩
        · cases hstatus : generation.status with
          | building => exact .failed
          | failed => exact .same _
          | retiring =>
              rw [hstatus] at hsettles
              split at guard
              · exact .reversed (hdelayed (by assumption))
              · exact absurd hsettles guard.1
          | active =>
              rw [hstatus] at hsettles
              split at guard
              · exact absurd hstatus guard.2
              · exact absurd hsettles guard.1
      · exact .of_mem hmem
  | abandoned knowledgeBase generation knowledgeBase_mem generation_mem owner status =>
      rcases mem_setRow hg' with rfl | ⟨hmem, -⟩
      · refine .kept generation generation_mem ⟨rfl, rfl, rfl, rfl, rfl, rfl, rfl, rfl, rfl⟩ ?_
        rw [status]
        exact .failed
      · exact .of_mem hmem
  | activated _ knowledgeBase generation request reservation jobId jobs rows reserved generationId claim
      state status active pending mutation queued =>
      rcases mem_setRow hg' with rfl | ⟨hmem, -⟩
      · refine .kept generation rows.generation_mem activatedGeneration_keeps ?_
        rw [status]
        exact .activated
      · obtain ⟨x, hx, hkeeps, rfl | ⟨hactive, hretiring⟩⟩ :=
          (retire_cases hkeys hinv rows.knowledgeBase_mem).2.1 g' hmem
        · exact .of_mem hx
        · refine .kept x hx hkeeps ?_
          rw [hactive, hretiring]
          exact .retired

/-- **The generations after a step.** -/
theorem Effect.generations (hbase : Base s) (hinv : GenInv s.db s.reservations)
    (h : Effect settings s op s') {g' : Generation} (hg' : g' ∈ s'.db.generations) : GenOrigin s op g' := by
  cases h with
  | retried _ jobId db fresh write =>
      cases write with
      | ingestion => exact .of_mem hg'
      | rebuild => exact .of_mem hg'
  | saga _ delayed db reservations of_delayed write backed =>
      rcases write with rfl | write
      · exact .of_mem hg'
      · exact write.generations hbase.keys hinv of_delayed hg'
  | purged _ lease db held purge knowledgeBase mem target deleting rows =>
      simp only [deleteRows, Except.ok.injEq, Prod.mk.injEq, true_and] at rows
      subst rows
      exact .of_mem (List.mem_of_mem_filter hg')
  | _ => exact .of_mem hg'

/-- A generation stays, unless its knowledge base is purged. -/
theorem Effect.generation_persists (hbase : Base s) (hinv : GenInv s.db s.reservations)
    (h : Effect settings s op s') {g : Generation} (hg : g ∈ s.db.generations) :
    (∃ g' ∈ s'.db.generations, g.Keeps g' ∧ Moved (DelayedOp s op) g.status g'.status) ∨
      Gone s' g.knowledgeBaseId := by
  -- a row with the same identity is kept, since new identities are not taken
  have of_row {g' : Generation} (hg' : g' ∈ s'.db.generations) (hid : g'.id = g.id) :
      ∃ g' ∈ s'.db.generations, g.Keeps g' ∧ Moved (DelayedOp s op) g.status g'.status := by
    cases h.generations hbase hinv hg' with
    | kept x mem keeps moved =>
        obtain rfl := row_unique hbase.keys.generations mem hg (keeps.id.symm.trans hid)
        exact ⟨g', hg', keeps, moved⟩
    | added id knowledgeBase embedding filterSnapshot mem new claim free =>
        exact absurd hid.symm (free g hg).1
  have of_setRow {x : Generation} {rows : List Generation} (hrows : g ∈ rows)
      (hset : s'.db.generations = setRow (·.id) x rows) :
      ∃ g' ∈ s'.db.generations, g.Keeps g' ∧ Moved (DelayedOp s op) g.status g'.status := by
    obtain ⟨g', hg', hcase⟩ := exists_mem_setRow Generation.id x hrows
    have hid : g'.id = g.id := by
      rcases hcase with ⟨rfl, hid⟩ | ⟨rfl, -⟩
      · exact hid.symm
      · rfl
    exact of_row (hset ▸ hg') hid
  cases h with
  | retried _ jobId db fresh write =>
      cases write with
      | ingestion => exact .inl (of_row hg rfl)
      | rebuild => exact .inl (of_row hg rfl)
  | saga _ delayed db reservations of_delayed write backed =>
      rcases write with rfl | write
      · exact .inl (of_row hg rfl)
      · cases write with
        | reserved => exact .inl (of_row (List.mem_append_left _ hg) rfl)
        | refused => exact .inl (of_setRow hg rfl)
        | abandoned => exact .inl (of_setRow hg rfl)
        | activated _ knowledgeBase generation request reservation jobId jobs rows =>
            obtain ⟨x, hx, hkeeps, -⟩ := (retire_cases hbase.keys hinv rows.knowledgeBase_mem).1 g hg
            obtain ⟨g', hg', hcase⟩ := exists_mem_setRow Generation.id
              (activatedGeneration settings.identities generation (knowledgeBase.mutationRevision + 1) s.db.now) hx
            refine .inl (of_row hg' ?_)
            rcases hcase with ⟨rfl, hid⟩ | ⟨rfl, -⟩
            · exact hid.symm.trans hkeeps.id
            · exact hkeeps.id
  | purged _ lease db held purge knowledgeBase mem target deleting rows =>
      by_cases hkb : g.knowledgeBaseId = lease.targetId
      · rw [hkb]
        exact .inr (gone_of_deleteRows held rows rfl rfl)
      · refine .inl (of_row ?_ rfl)
        simp only [deleteRows, Except.ok.injEq, Prod.mk.injEq, true_and] at rows
        subst rows
        exact List.mem_filter.mpr ⟨hg, by simpa using hkb⟩
  | _ => exact .inl (of_row hg rfl)

/-- Where a request after a step comes from. -/
inductive RequestOrigin (s : Sys) (op : Op) (r' : CreationRequest) : Prop
  | kept (r : CreationRequest) (mem : r ∈ s.db.creationRequests) (keeps : r.Keeps r')
      (succeeded : r.state = .succeeded → r'.state = .succeeded ∨ DelayedOp s op)
  | added (free : ∀ r ∈ s.db.creationRequests, r.id ≠ r'.id)

theorem RequestOrigin.of_mem {r' : CreationRequest} (h : r' ∈ s.db.creationRequests) :
    RequestOrigin s op r' :=
  .kept r' h .rfl .inl

/-- **The requests after a step.** -/
theorem Effect.requests (h : Effect settings s op s') {r' : CreationRequest}
    (hr' : r' ∈ s'.db.creationRequests) : RequestOrigin s op r' := by
  cases h with
  | retried _ jobId db fresh write =>
      cases write with
      | ingestion => exact .of_mem hr'
      | rebuild => exact .of_mem hr'
  | saga _ delayed db reservations of_delayed write backed =>
      rcases write with rfl | write
      · exact .of_mem hr'
      · cases write with
        | reserved command knowledgeBase embedding filterSnapshot requestId generationId mem id status pending
            building claim free =>
            rcases List.mem_append.mp hr' with hmem | hmem
            · exact .of_mem hmem
            · simp only [reservationKeysFree, Bool.and_eq_true, List.all_eq_true, decide_eq_true_eq] at free
              rw [List.mem_singleton.mp hmem]
              exact .added free.1
        | refused _ knowledgeBase generation counted request status code rows columns guard =>
            rcases mem_setRow hr' with rfl | ⟨hmem, -⟩
            · refine .kept request rows.request_mem ⟨rfl, rfl, rfl⟩ fun hs => ?_
              split at guard
              · exact .inr (of_delayed (by assumption))
              · exact absurd hs guard.1
            · exact .of_mem hmem
        | abandoned => exact .of_mem hr'
        | activated _ knowledgeBase generation request reservation jobId jobs rows =>
            rcases mem_setRow hr' with rfl | ⟨hmem, -⟩
            · exact .kept request rows.request_mem ⟨rfl, rfl, rfl⟩ fun _ => .inl rfl
            · exact .of_mem hmem
  | purged _ lease db held purge knowledgeBase mem target deleting rows =>
      simp only [deleteRows, Except.ok.injEq, Prod.mk.injEq, true_and] at rows
      subst rows
      exact .of_mem (List.mem_of_mem_filter hr')
  | _ => exact .of_mem hr'

/-- A request stays, unless its knowledge base is purged. -/
theorem Effect.request_persists (h : Effect settings s op s') {r : CreationRequest}
    (hr : r ∈ s.db.creationRequests) :
    (∃ r' ∈ s'.db.creationRequests, r'.id = r.id) ∨ Gone s' r.knowledgeBaseId := by
  have of_setRow {x : CreationRequest} : ∃ r' ∈ setRow (·.id) x s.db.creationRequests, r'.id = r.id := by
    obtain ⟨r', hr', ⟨rfl, hid⟩ | ⟨rfl, -⟩⟩ := exists_mem_setRow CreationRequest.id x hr
    · exact ⟨r', hr', hid.symm⟩
    · exact ⟨r', hr', rfl⟩
  cases h with
  | retried _ jobId db fresh write =>
      cases write with
      | ingestion => exact .inl ⟨r, hr, rfl⟩
      | rebuild => exact .inl ⟨r, hr, rfl⟩
  | saga _ delayed db reservations of_delayed write backed =>
      rcases write with rfl | write
      · exact .inl ⟨r, hr, rfl⟩
      · cases write with
        | reserved => exact .inl ⟨r, List.mem_append_left _ hr, rfl⟩
        | refused => exact .inl of_setRow
        | abandoned => exact .inl ⟨r, hr, rfl⟩
        | activated => exact .inl of_setRow
  | purged _ lease db held purge knowledgeBase mem target deleting rows =>
      by_cases hkb : r.knowledgeBaseId = lease.targetId
      · rw [hkb]
        exact .inr (gone_of_deleteRows held rows rfl rfl)
      · simp only [deleteRows, Except.ok.injEq, Prod.mk.injEq, true_and] at rows
        subst rows
        exact .inl ⟨r, List.mem_filter.mpr ⟨hr, by simpa using hkb⟩, rfl⟩
  | _ => exact .inl ⟨r, hr, rfl⟩

/-! ## The lifecycle over whole runs -/

/-- What became of the generations and the requests of a state is in order: an active generation has
at most become retiring, a retiring or failed one is still so, and a request that has succeeded is
still so. -/
structure OneWay (s t : Sys) : Prop where
  generation : ∀ g ∈ s.db.generations, ∀ g' ∈ t.db.generations, g'.id = g.id →
    g'.knowledgeBaseId = g.knowledgeBaseId →
    (g.status = .active → g'.status = .active ∨ g'.status = .retiring) ∧
    (g.status = .retiring → g'.status = .retiring) ∧ (g.status = .failed → g'.status = .failed)
  request : ∀ r ∈ s.db.creationRequests, ∀ r' ∈ t.db.creationRequests, r'.id = r.id →
    r'.knowledgeBaseId = r.knowledgeBaseId → r.state = .succeeded → r'.state = .succeeded

/-- No activation comes after its request has succeeded and its generation has been replaced. -/
def NotDelayed (s : Sys) (op : Op) : Prop := ¬ DelayedOp s op

/-- The statuses that may follow one. -/
def Follows : GenerationStatus → GenerationStatus → Prop
  | .building, _ => True
  | .active, status => status = .active ∨ status = .retiring
  | .retiring, status => status = .retiring
  | .failed, status => status = .failed

theorem Follows.moved {before status status' : GenerationStatus} {reversal : Prop} (hno : ¬ reversal)
    (h : Follows before status) (moved : Moved reversal status status') : Follows before status' := by
  cases moved with
  | same => exact h
  | reversed hr => exact absurd hr hno
  | failed => cases before <;> simp_all [Follows]
  | activated => cases before <;> simp_all [Follows]
  | retired => cases before <;> simp_all [Follows]

theorem generation_follows (hinv : GenInv s.db s.reservations) (hbase : Base s)
    (hrun : RunWhere settings NotDelayed s t) {g : Generation} (hg : g ∈ s.db.generations) :
    (∃ g' ∈ t.db.generations, g.Keeps g' ∧ Follows g.status g'.status) ∨ Gone t g.knowledgeBaseId := by
  have hfirst : Follows g.status g.status := by
    cases g.status <;> simp [Follows]
  refine (Base.runWhere (fun u => GenInv u.db u.reservations ∧
    ((∃ g' ∈ u.db.generations, g.Keeps g' ∧ Follows g.status g'.status) ∨ Gone u g.knowledgeBaseId))
    ?_ hbase ⟨hinv, .inl ⟨g, hg, .rfl, hfirst⟩⟩ hrun).2.2
  rintro u u' op hbase ⟨hinv, hcase⟩ hallowed heffect
  refine ⟨hinv.step hbase heffect, ?_⟩
  rcases hcase with ⟨g', hg', keeps, follows⟩ | hgone
  · rcases heffect.generation_persists hbase hinv hg' with ⟨g'', hg'', keeps', moved⟩ | hgone
    · exact .inl ⟨g'', hg'', keeps.trans keeps', follows.moved hallowed moved⟩
    · rw [keeps.knowledgeBaseId] at hgone
      exact .inr hgone
  · exact .inr (hgone.step heffect)

theorem request_follows (hbase : Base s) (hrun : RunWhere settings NotDelayed s t) {r : CreationRequest}
    (hr : r ∈ s.db.creationRequests) (hstate : r.state = .succeeded) :
    (∃ r' ∈ t.db.creationRequests, r.Keeps r' ∧ r'.state = .succeeded) ∨ Gone t r.knowledgeBaseId := by
  refine (Base.runWhere (fun u => (∃ r' ∈ u.db.creationRequests, r.Keeps r' ∧ r'.state = .succeeded) ∨
    Gone u r.knowledgeBaseId) ?_ hbase (.inl ⟨r, hr, .rfl, hstate⟩) hrun).2
  rintro u u' op hbase (⟨r', hr', keeps, hsucceeded⟩ | hgone) hallowed heffect
  · rcases heffect.request_persists hr' with ⟨r'', hr'', hid⟩ | hgone
    · cases heffect.requests hr'' with
      | kept x mem keeps' succeeded =>
          obtain rfl := row_unique hbase.keys.creationRequests mem hr' (keeps'.id.symm.trans hid)
          refine .inl ⟨r'', hr'', ⟨by rw [keeps'.id, keeps.id], by rw [keeps'.knowledgeBaseId,
            keeps.knowledgeBaseId], by rw [keeps'.generationId, keeps.generationId]⟩, ?_⟩
          exact (succeeded hsucceeded).resolve_right hallowed
      | added free => exact absurd hid.symm (free r' hr')
    · rw [keeps.knowledgeBaseId] at hgone
      exact .inr hgone
  · exact .inr (hgone.step heffect)

/-- **The lifecycle is one-way** in a run in which no activation is delayed beyond the success of its
request and the replacement of its generation. -/
theorem lifecycle_one_way (h : ReachableWhere settings NotDelayed s)
    (hrun : RunWhere settings NotDelayed s t) : OneWay s t := by
  have hbase := base_of_reachable h.reachable
  have hinv := genInv_of_reachable h.reachable
  have hreached : ReachableWhere settings NotDelayed t := h.trans hrun
  have hbase' := base_of_reachable hreached.reachable
  have hinv' := genInv_of_reachable hreached.reachable
  have hthere {g' : Generation} (hg' : g' ∈ t.db.generations) : ¬ Gone t g'.knowledgeBaseId := by
    intro hgone
    obtain ⟨k, hk, hid⟩ := List.mem_map.mp (hinv'.owner g' hg')
    exact hgone.1 k hk hid
  constructor
  · intro g hg g' hg' hid hkb
    rcases generation_follows hinv hbase hrun hg with ⟨x, hx, keeps, follows⟩ | hgone
    · rw [row_unique hbase'.keys.generations hg' hx (hid.trans keeps.id.symm)]
      refine ⟨fun hs => ?_, fun hs => ?_, fun hs => ?_⟩
      all_goals
        rw [hs] at follows
        exact follows
    · exact absurd (hkb ▸ hgone) (hthere hg')
  · intro r hr r' hr' hid hkb hstate
    rcases request_follows hbase hrun hr hstate with ⟨x, hx, keeps, hsucceeded⟩ | hgone
    · rwa [row_unique hbase'.keys.creationRequests hr' hx (hid.trans keeps.id.symm)]
    · obtain ⟨g', hg', -, hgkb, -⟩ := hinv'.requested r' hr'
      exact absurd (by rw [hgkb, hkb]; exact hgone) (hthere hg')

end Steps

/-! ## Runs -/

theorem generation_pointers_configuredRun :
    OnlyGeneration (exec sampleSettings Sys.init configuredRun).db.generations 1 .active 1711 := by
  have hrow : ⟨1, .active, some 1711, none, 1, 0, emptyFilterSchema⟩
      ∈ (exec sampleSettings Sys.init configuredRun).db.knowledgeBases := by
    decide +kernel
  exact ((generation_pointers (reachable_exec configuredRun) _ hrow 1711).2).mp rfl

/-- A second generation takes the place of the first. -/
def replacedRun : List Op := configuredRun ++
  [.generationReserved ⟨1, 7, "gg".toList, "f".toList⟩ (.ok ())
      (.ok (⟨3, "hash".toList, "snapshot".toList⟩, "filter".toList)),
    .generationActivated ⟨2712, 1712, 1, 0, collectionName 1 1712⟩ 51]

theorem lifecycle_one_way_replacedRun :
    OneWay (exec sampleSettings Sys.init configuredRun) (exec sampleSettings Sys.init replacedRun) ∧
      ∃ g ∈ (exec sampleSettings Sys.init replacedRun).db.generations, g.id = 1711 ∧ g.status = .retiring := by
  have hreserved (s : Sys) (command : GenerationCommand) (current : Except (ℕ × String) Unit)
      (source : Except TxError (EmbeddingConfiguration × Str)) :
      NotDelayed s (.generationReserved command current source) := by
    rintro ⟨_, _, hop, -⟩
    cases hop
  refine ⟨?_, by decide +kernel⟩
  rw [replacedRun, exec_append]
  apply lifecycle_one_way
  · refine runWhere_exec ⟨?_, hreserved _ _ _ _, ?_, trivial⟩
    · rintro ⟨_, _, hop, -⟩
      cases hop
    · rintro ⟨reservation, jobId, hop, hdelayed⟩
      obtain ⟨rfl, -⟩ := Op.generationActivated.inj hop
      revert hdelayed
      decide +kernel
  · refine runWhere_exec ⟨hreserved _ _ _ _, ?_, trivial⟩
    rintro ⟨reservation, jobId, hop, hdelayed⟩
    obtain ⟨rfl, -⟩ := Op.generationActivated.inj hop
    revert hdelayed
    decide +kernel

/-- The first saga activates its generation once more. -/
def reversedRun : List Op := replacedRun ++ [.generationActivated sampleReservation 52]

/-- The retiring generation fails then, and with it the request that had succeeded. -/
theorem lifecycle_reversed : ∃ s t, Reachable sampleSettings s ∧
    Relation.ReflTransGen (Step sampleSettings) s t ∧ ¬ OneWay s t := by
  refine ⟨exec sampleSettings Sys.init replacedRun, exec sampleSettings Sys.init reversedRun,
    reachable_exec replacedRun, ?_, ?_⟩
  · rw [reversedRun, exec_append]
    exact run_exec _ _
  · intro h
    have hsucceeded : ∃ r ∈ (exec sampleSettings Sys.init replacedRun).db.creationRequests,
        r.id = 2711 ∧ r.knowledgeBaseId = 1 ∧ r.state = .succeeded := by
      decide +kernel
    have hfailed : ∃ r ∈ (exec sampleSettings Sys.init reversedRun).db.creationRequests,
        r.id = 2711 ∧ r.knowledgeBaseId = 1 ∧ r.state = .failed := by
      decide +kernel
    obtain ⟨r, hr, hid, hkb, hstate⟩ := hsucceeded
    obtain ⟨r', hr', hid', hkb', hstate'⟩ := hfailed
    have hstill := h.request r hr r' hr' (hid'.trans hid.symm) (hkb'.trans hkb.symm) hstate
    rw [hstate'] at hstill
    cases hstill

end VeloxRag
