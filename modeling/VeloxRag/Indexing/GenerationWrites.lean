import VeloxRag.Indexing.Cleanup
import VeloxRag.Jobs.FencedWrites

/-!
# What the saga of a generation writes

The transactions of the saga come down to four changes of the rows: a new generation with its
request, a generation that fails with its request, one that is given up, and one that is
activated in the place of another.  Several transactions refuse a generation, under different
guards, and all write the same.

## Main definitions

* `SagaWrite` — the four changes, with what each has checked.
* `reserveGeneration_eq_ok`, `markFailed_eq_ok`, `abandonGeneration_eq_ok`, `activate_eq_ok` —
  every transaction of the saga makes one of them or none.
* `ClaimWrite` — the changes of the cleanup claims.
-/

namespace VeloxRag.Indexing

open Lib Jobs

/-! ## The rows after an activation -/

/-- The generation that an activation replaces. -/
def superseded? (db : Db) (knowledgeBase : KnowledgeBase) : Option Generation :=
  knowledgeBase.activeIndexGenerationId.bind db.generation?

/-- The generations with the replaced one retired. -/
def retire (superseded : Option Generation) (generations : List Generation) : List Generation :=
  match superseded with
  | none => generations
  | some generation => setRow (·.id) { generation with status := .retiring } generations

/-- The states after the live versions were enrolled, if a generation is replaced. -/
def enrolled (superseded : Option Generation) (db : Db) (knowledgeBaseId : ℕ) (generation : Generation) :
    List IndexState :=
  if superseded.isSome then enrolLiveVersions db knowledgeBaseId generation else db.indexStates

/-- The database after an activation. -/
def promoted (identities : GenerationIdentities) (knowledgeBase : KnowledgeBase) (generation : Generation)
    (request : CreationRequest) (jobs : List Job) (db : Db) : Db :=
  let revision := knowledgeBase.mutationRevision + 1
  let active := activatedGeneration identities generation revision db.now
  { db with
    mutations := db.mutations ++ [activationMutation (identities.mutationId generation.id revision)
      knowledgeBase.id revision active]
    generations := setRow (·.id) active (retire (superseded? db knowledgeBase) db.generations)
    indexStates := enrolled (superseded? db knowledgeBase) db knowledgeBase.id active
    jobs := db.jobs ++ jobs
    knowledgeBases := setRow (·.id) { knowledgeBase with
      mutationRevision := revision
      pendingIndexGenerationId := none
      activeIndexGenerationId := some generation.id } db.knowledgeBases
    creationRequests := setRow (·.id) { request with
      state := .succeeded
      finalHttpStatus := some 201
      safeErrorCode := none } db.creationRequests }

/-- The job that an activation queues, if it enrols versions. -/
def promotionJob (identities : GenerationIdentities) (knowledgeBase : KnowledgeBase)
    (generation : Generation) (jobId : ℕ) (db : Db) : Job :=
  cutoverJob jobId knowledgeBase.id generation.id (knowledgeBase.mutationRevision + 1)
    (identities.mutationId generation.id (knowledgeBase.mutationRevision + 1))
    (livePointTotal db knowledgeBase.id)

/-! ## The changes -/

/-- The rows are those that a reservation names, or the request names the generation. -/
def SagaNamed (reservations : List Reservation) (knowledgeBase : KnowledgeBase) (generation : Generation)
    (request : CreationRequest) : Prop :=
  (∃ reservation ∈ reservations, reservation.knowledgeBaseId = knowledgeBase.id ∧
    reservation.generationId = generation.id ∧ reservation.requestId = request.id) ∨
  (request.knowledgeBaseId = knowledgeBase.id ∧ request.generationId = generation.id)

/-- The rows of a saga are in the database. -/
structure SagaRows (db : Db) (reservations : List Reservation) (knowledgeBase : KnowledgeBase)
    (generation : Generation) (request : CreationRequest) : Prop where
  knowledgeBase_mem : knowledgeBase ∈ db.knowledgeBases
  generation_mem : generation ∈ db.generations
  request_mem : request ∈ db.creationRequests
  named : SagaNamed reservations knowledgeBase generation request

/-- The request and the generation that a reservation names are there. -/
def Reservation.Backed (reservation : Reservation) (db : Db) : Prop :=
  ∃ request ∈ db.creationRequests, ∃ generation ∈ db.generations,
    request.id = reservation.requestId ∧ request.generationId = reservation.generationId ∧
    generation.id = reservation.generationId ∧
    generation.knowledgeBaseId = reservation.knowledgeBaseId ∧
    generation.qdrantCollectionName = reservation.collection

/-- An activation that comes after its request has succeeded, when its generation is no longer the
active one. -/
def delayedActivation (db : Db) (reservation : Reservation) : Bool :=
  (sagaRows db reservation).any fun (_, generation, request) =>
    decide (request.state = .succeeded) && decide (generation.status ≠ .active)

/-- The row of a request has the actor, the knowledge base and the key of a command. -/
def GenerationCommand.Names (command : GenerationCommand) (r : CreationRequest) : Prop :=
  r.actorApiKeyId = command.actorId ∧ r.knowledgeBaseId = command.knowledgeBaseId ∧
    r.idempotencyKey = command.idempotencyKey

/-- **The changes that the saga makes**, under a delayed activation or any other transaction; a job is
queued under an identity that is `fresh`. -/
inductive SagaWrite (identities : GenerationIdentities) (reservations : List Reservation)
    (fresh : ℕ → Prop) (db : Db) : Bool → Db → Prop
  | reserved (command : GenerationCommand) (knowledgeBase : KnowledgeBase)
      (embedding : EmbeddingConfiguration) (filterSnapshot : Str) (requestId generationId : ℕ)
      (mem : knowledgeBase ∈ db.knowledgeBases) (id : knowledgeBase.id = command.knowledgeBaseId)
      (status : knowledgeBase.status = .active) (pending : knowledgeBase.pendingIndexGenerationId = none)
      (building : buildingGenerationExists db knowledgeBase.id = false)
      (claim : cleanupClaim? db (collectionName knowledgeBase.id generationId) = none)
      (free : reservationKeysFree db command requestId generationId = true)
      (unused : ∀ r ∈ db.creationRequests, ¬ command.Names r) :
      SagaWrite identities reservations fresh db false { db with
        creationRequests := db.creationRequests ++ [⟨requestId, command.actorId, knowledgeBase.id,
          command.idempotencyKey, command.fingerprint, generationId, .inProgress, none, none⟩]
        generations := db.generations ++
          [newGeneration generationId knowledgeBase embedding filterSnapshot]
        knowledgeBases := setRow (·.id) { knowledgeBase with
          pendingIndexGenerationId := some generationId } db.knowledgeBases }
  | refused (delayed : Bool) (knowledgeBase : KnowledgeBase) (generation counted : Generation)
      (request : CreationRequest) (status : ℕ) (code : String)
      (rows : SagaRows db reservations knowledgeBase generation request)
      (columns : counted = { generation with
        expectedPointCount := counted.expectedPointCount, actualPointCount := counted.actualPointCount })
      (guard : if delayed then request.state = .succeeded ∧ generation.status ≠ .active
        else request.state ≠ .succeeded ∧ (generation.status = .active → request.state = .inProgress)) :
      SagaWrite identities reservations fresh db delayed
        (failRequest knowledgeBase counted request status code db)
  | abandoned (knowledgeBase : KnowledgeBase) (generation : Generation)
      (knowledgeBase_mem : knowledgeBase ∈ db.knowledgeBases) (generation_mem : generation ∈ db.generations)
      (owner : generation.knowledgeBaseId = knowledgeBase.id) (status : generation.status = .building) :
      SagaWrite identities reservations fresh db false { db with
        knowledgeBases := setRow (·.id) (clearPending knowledgeBase generation.id) db.knowledgeBases
        generations := setRow (·.id) { generation with
          status := .failed
          safeErrorCode := some "GENERATION_ABANDONED".toList } db.generations }
  | activated (delayed : Bool) (knowledgeBase : KnowledgeBase) (generation : Generation)
      (request : CreationRequest) (reservation : Reservation) (jobId : ℕ) (jobs : List Job)
      (rows : SagaRows db reservations knowledgeBase generation request)
      (reserved : reservation ∈ reservations) (generationId : reservation.generationId = generation.id)
      (claim : cleanupClaim? db reservation.collection = none)
      (state : request.state ≠ .failed) (status : generation.status = .building)
      (active : knowledgeBase.status = .active)
      (pending : knowledgeBase.pendingIndexGenerationId = some generation.id)
      (mutation : ∀ m ∈ db.mutations, m.id ≠ identities.mutationId generation.id
        (knowledgeBase.mutationRevision + 1))
      (queued : jobs = [] ∨ (fresh jobId ∧
        jobs = [promotionJob identities knowledgeBase generation jobId db] ∧
        activeTargetTaken db (promotionJob identities knowledgeBase generation jobId db) = false)) :
      SagaWrite identities reservations fresh db delayed
        (promoted identities knowledgeBase generation request jobs db)

section Transactions

variable {identities : GenerationIdentities} {reservations : List Reservation} {fresh : ℕ → Prop}
  {db db' : Db}

/-- A generation fails as it is. -/
theorem SagaWrite.refused_self {knowledgeBase : KnowledgeBase} {generation : Generation}
    {request : CreationRequest} {status : ℕ} {code : String} {delayed : Bool}
    (rows : SagaRows db reservations knowledgeBase generation request)
    (guard : if delayed then request.state = .succeeded ∧ generation.status ≠ .active
      else request.state ≠ .succeeded ∧ (generation.status = .active → request.state = .inProgress)) :
    SagaWrite identities reservations fresh db delayed
      (failRequest knowledgeBase generation request status code db) :=
  .refused delayed knowledgeBase generation generation request status code rows rfl guard

theorem replayRequest_eq_ok {current : Except (ℕ × String) Unit} {knowledgeBase : KnowledgeBase}
    {request : CreationRequest} {generation : Generation} {reserved : Reserved}
    (hk : knowledgeBase ∈ db.knowledgeBases) (hr : request ∈ db.creationRequests)
    (hg : generation ∈ db.generations) (hkb : request.knowledgeBaseId = knowledgeBase.id)
    (hgen : request.generationId = generation.id)
    (h : replayRequest current knowledgeBase request generation db = .ok (reserved, db')) :
    (db' = db ∨ SagaWrite identities reservations fresh db false db') ∧
      ∀ reservation, reserved = .reservation reservation → db' = db ∧
        reservation.requestId = request.id ∧ reservation.generationId = generation.id ∧
        reservation.knowledgeBaseId = generation.knowledgeBaseId ∧
        reservation.collection = generation.qdrantCollectionName := by
  have rows : SagaRows db reservations knowledgeBase generation request := ⟨hk, hg, hr, .inr ⟨hkb, hgen⟩⟩
  unfold replayRequest at h
  split at h
  · split at h
    · cases h
    · split at h
      · cases h
      · rename_i hstate
        split at h
        · cases h
        · simp only [Except.ok.injEq, Prod.mk.injEq] at h
          obtain ⟨rfl, rfl⟩ := h
          refine ⟨.inr (SagaWrite.refused_self rows ⟨fun hs => hstate (.inl hs), fun ha => ?_⟩), by simp⟩
          exact absurd (.inr ha) hstate
  · split at h
    · cases h
    · split at h
      · cases h
      · simp only [Except.ok.injEq, Prod.mk.injEq] at h
        obtain ⟨rfl, rfl⟩ := h
        exact ⟨.inl rfl, by simp⟩
    · rename_i hprogress
      have guard : if false then request.state = .succeeded ∧ generation.status ≠ .active
          else request.state ≠ .succeeded ∧ (generation.status = .active → request.state = .inProgress) := by
        simp [hprogress]
      split at h
      · simp only [Except.ok.injEq, Prod.mk.injEq] at h
        obtain ⟨rfl, rfl⟩ := h
        exact ⟨.inr (SagaWrite.refused_self rows guard), by simp⟩
      · split at h
        · rename_i reservation hfrom
          simp only [Except.ok.injEq, Prod.mk.injEq] at h
          obtain ⟨rfl, rfl⟩ := h
          refine ⟨.inl rfl, ?_⟩
          intro reservation' heq
          obtain rfl : reservation = reservation' := by simpa using heq
          unfold reservationFromRows at hfrom
          split at hfrom
          · cases hfrom
          · split at hfrom
            · cases hfrom
            · obtain ⟨_, -, hfrom⟩ := bind_eq_ok.mp hfrom
              obtain rfl := pure_ok_iff.mp hfrom
              exact ⟨rfl, rfl, rfl, rfl, rfl⟩
        · simp only [Except.ok.injEq, Prod.mk.injEq] at h
          obtain ⟨rfl, rfl⟩ := h
          exact ⟨.inr (SagaWrite.refused_self rows guard), by simp⟩

theorem reserveNew_eq_ok {command : GenerationCommand}
    {source : Except TxError (EmbeddingConfiguration × Str)} {knowledgeBase : KnowledgeBase}
    {reserved : Reserved} (hk : knowledgeBase ∈ db.knowledgeBases)
    (hid : knowledgeBase.id = command.knowledgeBaseId)
    (hunused : ∀ r ∈ db.creationRequests, ¬ command.Names r)
    (h : reserveNew identities command source knowledgeBase db = .ok (reserved, db')) :
    SagaWrite identities reservations fresh db false db' ∧
      ∀ reservation, reserved = .reservation reservation → reservation.Backed db' := by
  unfold reserveNew at h
  split at h
  · cases h
  · rename_i hstatus
    split at h
    · cases h
    · rename_i hfree
      obtain ⟨⟨embedding, filterSnapshot⟩, -, h⟩ := bind_eq_ok.mp h
      dsimp only at h
      split at h
      · cases h
      · rename_i hclaim
        split at h
        · cases h
        · rename_i hkeys
          simp only [Except.ok.injEq, Prod.mk.injEq] at h
          obtain ⟨rfl, rfl⟩ := h
          simp only [not_or, ne_eq, not_not, Bool.not_eq_true] at hfree hstatus hkeys
          refine ⟨.reserved command knowledgeBase embedding filterSnapshot _ _ hk hid hstatus hfree.1
            hfree.2 hclaim (by simpa using hkeys) hunused, ?_⟩
          intro reservation heq
          obtain rfl : _ = reservation := by simpa using heq
          exact ⟨_, List.mem_append_right _ (List.mem_singleton.mpr rfl), _,
            List.mem_append_right _ (List.mem_singleton.mpr rfl), rfl, rfl, rfl, rfl, rfl⟩

/-- **The first transaction of a saga.** -/
theorem reserveGeneration_eq_ok {command : GenerationCommand} {current : Except (ℕ × String) Unit}
    {source : Except TxError (EmbeddingConfiguration × Str)} {reserved : Reserved}
    (h : reserveGeneration identities command current source db = .ok (reserved, db')) :
    (db' = db ∨ SagaWrite identities reservations fresh db false db') ∧
      ∀ reservation, reserved = .reservation reservation → reservation.Backed db' := by
  unfold reserveGeneration at h
  split at h
  · cases h
  · rename_i knowledgeBase hfind
    obtain ⟨hk, hkid⟩ := mem_of_find? hfind
    split at h
    · rename_i hnone
      rw [List.find?_eq_none] at hnone
      have hunused : ∀ r ∈ db.creationRequests, ¬ command.Names r := by
        intro r hr
        simpa [GenerationCommand.Names, and_assoc] using hnone r hr
      obtain ⟨hwrite, hbacked⟩ := reserveNew_eq_ok hk hkid hunused h
      exact ⟨.inr hwrite, hbacked⟩
    · rename_i request hrequest
      have hr := List.mem_of_find?_eq_some hrequest
      have hmatch := List.find?_some hrequest
      simp only [Bool.and_eq_true, decide_eq_true_eq] at hmatch
      split at h
      · cases h
      · split at h
        · cases h
        · rename_i generation hgeneration
          obtain ⟨hg, hgid⟩ := mem_of_find? hgeneration
          obtain ⟨hwrite, hreservation⟩ := replayRequest_eq_ok hk hr hg (hmatch.1.2.trans hkid.symm)
            hgid.symm h
          refine ⟨hwrite, ?_⟩
          intro reservation heq
          obtain ⟨rfl, hrid, hRgen, hRkb, hRcollection⟩ := hreservation reservation heq
          exact ⟨request, hr, generation, hg, hrid.symm, hgid.symm.trans hRgen.symm, hRgen.symm, hRkb.symm,
            hRcollection.symm⟩

theorem sagaRows_eq_some {reservation : Reservation} {knowledgeBase : KnowledgeBase}
    {generation : Generation} {request : CreationRequest} (hR : reservation ∈ reservations)
    (h : sagaRows db reservation = some (knowledgeBase, generation, request)) :
    SagaRows db reservations knowledgeBase generation request ∧
      reservation.generationId = generation.id := by
  unfold sagaRows at h
  simp only [Option.bind_eq_bind, Option.bind_eq_some_iff] at h
  obtain ⟨k, hk, g, hg, r, hr, h⟩ := h
  obtain ⟨rfl, rfl, rfl⟩ : k = knowledgeBase ∧ g = generation ∧ r = request := by simpa using h
  obtain ⟨hkmem, hkid⟩ := mem_of_find? hk
  obtain ⟨hgmem, hgid⟩ := mem_of_find? hg
  obtain ⟨hrmem, hrid⟩ := mem_of_find? hr
  exact ⟨⟨hkmem, hgmem, hrmem, .inl ⟨reservation, hR, hkid.symm, hgid.symm, hrid.symm⟩⟩, hgid.symm⟩

theorem markFailed_eq_ok {reservation : Reservation} {status : ℕ} {code : String} {actual : Option ℕ}
    {a : Unit} (hR : reservation ∈ reservations)
    (h : markFailed reservation status code actual db = .ok (a, db')) :
    db' = db ∨ SagaWrite identities reservations fresh db false db' := by
  unfold markFailed at h
  split at h
  · cases h
  · rename_i knowledgeBase generation request hrows
    obtain ⟨rows, -⟩ := sagaRows_eq_some hR hrows
    split at h
    · simp only [Except.ok.injEq, Prod.mk.injEq] at h
      exact .inl h.2.symm
    · rename_i hguard
      simp only [Except.ok.injEq, Prod.mk.injEq] at h
      rw [← h.2]
      right
      refine .refused false knowledgeBase generation _ request status code rows ?_
        ⟨fun hs => hguard (.inl hs), fun ha => absurd (.inr ha) hguard⟩
      cases actual with
      | none => rfl
      | some count => rfl

theorem abandonGeneration_eq_ok {knowledgeBaseId generationId : ℕ} {a : Unit}
    (h : abandonGeneration knowledgeBaseId generationId db = .ok (a, db')) :
    SagaWrite identities reservations fresh db false db' := by
  unfold abandonGeneration at h
  split at h
  · rename_i knowledgeBase generation hk hg
    obtain ⟨hkmem, hkid⟩ := mem_of_find? hk
    obtain ⟨hgmem, hgid⟩ := mem_of_find? hg
    split at h
    · cases h
    · rename_i howner
      split at h
      · cases h
      · rename_i hstatus
        simp only [Except.ok.injEq, Prod.mk.injEq] at h
        rw [← h.2]
        simp only [ne_eq, not_not] at howner hstatus
        exact .abandoned knowledgeBase generation hkmem hgmem (by rw [howner, hkid]) hstatus
  · cases h

/-- **The branch that activates** retires, enrols and queues at most one job. -/
theorem promote_eq_ok {knowledgeBase : KnowledgeBase} {generation : Generation}
    {request : CreationRequest} {jobId : ℕ} {a : Unit}
    (h : promote identities knowledgeBase generation request jobId db = .ok (a, db')) :
    (∀ m ∈ db.mutations, m.id ≠ identities.mutationId generation.id
      (knowledgeBase.mutationRevision + 1)) ∧
    ∃ jobs, (jobs = [] ∨ (jobs = [promotionJob identities knowledgeBase generation jobId db] ∧
        activeTargetTaken db (promotionJob identities knowledgeBase generation jobId db) = false)) ∧
      db' = promoted identities knowledgeBase generation request jobs db := by
  unfold promote at h
  dsimp only at h
  split at h
  · cases h
  · rename_i hmutation
    refine ⟨by simpa using hmutation, ?_⟩
    split at h
    · rename_i hnone
      obtain ⟨⟨u, swapped⟩, hswap, hdone⟩ := bind_eq_ok.mp h
      simp only [Except.ok.injEq, Prod.mk.injEq, true_and] at hswap
      simp only [pure_ok_iff, Prod.mk.injEq, true_and] at hdone
      refine ⟨[], .inl rfl, ?_⟩
      rw [← hdone, ← hswap]
      simp only [promoted, superseded?, hnone, retire, enrolled, Option.isSome_none, Bool.false_eq_true,
        if_false, List.append_nil]
    · rename_i superseded hsome
      obtain ⟨⟨u, swapped⟩, hswap, hdone⟩ := bind_eq_ok.mp h
      simp only [pure_ok_iff, Prod.mk.injEq, true_and] at hdone
      unfold cutover at hswap
      dsimp only at hswap
      split at hswap
      · simp only [Except.ok.injEq, Prod.mk.injEq, true_and] at hswap
        refine ⟨[], .inl rfl, ?_⟩
        rw [← hdone, ← hswap]
        simp only [promoted, superseded?, hsome, retire, enrolled, Option.isSome_some, if_true,
          List.append_nil]
        rfl
      · obtain ⟨hfree, hjobs⟩ := insertJob_eq_ok hswap
        refine ⟨[promotionJob identities knowledgeBase generation jobId db], .inr ⟨rfl, hfree rfl⟩, ?_⟩
        rw [← hdone, hjobs]
        simp only [promoted, superseded?, hsome, retire, enrolled, Option.isSome_some, if_true]
        rfl

/-- **The second transaction of a saga.** -/
theorem activate_eq_ok {reservation : Reservation} {jobId : ℕ} {a : Unit}
    (hR : reservation ∈ reservations) (hfresh : fresh jobId)
    (h : activate identities reservation jobId db = .ok (a, db')) :
    db' = db ∨ SagaWrite identities reservations fresh db (delayedActivation db reservation) db' := by
  unfold activate at h
  split at h
  · cases h
  · rename_i knowledgeBase generation request hrows
    have hdelayed : delayedActivation db reservation
        = (decide (request.state = .succeeded) && decide (generation.status ≠ .active)) := by
      unfold delayedActivation
      rw [hrows]
      rfl
    obtain ⟨rows, hgid⟩ := sagaRows_eq_some hR hrows
    split at h
    · split at h
      · cases h
      · split at h
        · cases h
        · rename_i hguard
          simp only [Except.ok.injEq, Prod.mk.injEq] at h
          rw [← h.2, hdelayed]
          right
          have hstate : request.state ≠ .succeeded := fun hs => hguard (.inl hs)
          simp only [hstate, decide_false, Bool.false_and]
          exact SagaWrite.refused_self rows ⟨hstate, fun ha => absurd (.inr ha) hguard⟩
    · rename_i hclaim
      split at h
      · simp only [Except.ok.injEq, Prod.mk.injEq] at h
        exact .inl h.2.symm
      · rename_i hdone
        split at h
        · cases h
        · rename_i hfailed
          split at h
          · simp only [Except.ok.injEq, Prod.mk.injEq] at h
            rw [← h.2, hdelayed]
            right
            by_cases hs : request.state = .succeeded
            · have hna : generation.status ≠ .active := fun ha => hdone ⟨hs, ha⟩
              simp only [hs, hna, ne_eq, not_false_eq_true, decide_true, Bool.and_self]
              exact SagaWrite.refused_self rows ⟨hs, hna⟩
            · have hprogress : request.state = .inProgress := by
                cases hcase : request.state with
                | inProgress => rfl
                | succeeded => exact absurd hcase hs
                | failed => exact absurd hcase hfailed
              simp only [hs, decide_false, Bool.false_and]
              exact SagaWrite.refused_self rows ⟨hs, fun _ => hprogress⟩
          · rename_i hrefused
            obtain ⟨hmutation, jobs, hjobs, rfl⟩ := promote_eq_ok h
            simp only [activationRefused, Bool.or_eq_true, decide_eq_true_eq, not_or, ne_eq, not_not] at hrefused
            obtain ⟨⟨⟨⟨hstatus, hactive⟩, hpending⟩, -⟩, -⟩ := hrefused
            exact .inr (.activated _ knowledgeBase generation request reservation jobId jobs rows hR hgid hclaim
              hfailed hstatus hactive hpending hmutation (hjobs.imp_right fun hj => ⟨hfresh, hj⟩))

end Transactions

/-! ## Cleanup claims -/

/-- **The changes of the cleanup claims**: a claim on a collection that nothing uses, a change that
keeps the claimed collections, and the release of a claim on a collection that is in use. -/
inductive ClaimWrite (db : Db) : List CleanupClaim → Prop
  | opened (claim : CleanupClaim)
      (orphan : orphanStatus (collectionStatus? db claim.collectionName) = true)
      (unclaimed : cleanupClaim? db claim.collectionName = none) :
      ClaimWrite db (db.cleanupClaims ++ [claim])
  | kept (claims : List CleanupClaim)
      (names : claims.map (·.collectionName) = db.cleanupClaims.map (·.collectionName)) :
      ClaimWrite db claims
  | released (claim : CleanupClaim)
      (claimed : (cleanupClaim? db claim.collectionName).isSome = true)
      (used : orphanStatus (collectionStatus? db claim.collectionName) = false) :
      ClaimWrite db (db.cleanupClaims.filter fun row => !sameOpenClaim claim row)

section Claims

variable {db db' : Db}

theorem claimOrphanCleanup_eq_ok {knowledgeBaseId generationId owner duration : ℕ}
    {result : Option CleanupClaim}
    (h : claimOrphanCleanup knowledgeBaseId generationId owner duration db = .ok (result, db')) :
    ∃ claims, ClaimWrite db claims ∧ db' = { db with cleanupClaims := claims } := by
  unfold claimOrphanCleanup at h
  split at h
  · rename_i horphan
    unfold claimCollectionCleanup at h
    dsimp only at h
    split at h
    · rename_i hnone
      simp only [Except.ok.injEq, Prod.mk.injEq] at h
      exact ⟨_, .opened _ horphan hnone, h.2.symm⟩
    · rename_i current hcurrent
      split at h
      · cases h
      · split at h
        · simp only [Except.ok.injEq, Prod.mk.injEq] at h
          exact ⟨db.cleanupClaims, .kept _ rfl, h.2.symm⟩
        · simp only [Except.ok.injEq, Prod.mk.injEq] at h
          exact ⟨_, .kept _ (map_setRow _ _ _), h.2.symm⟩
  · simp only [Except.ok.injEq, Prod.mk.injEq] at h
    exact ⟨db.cleanupClaims, .kept _ rfl, h.2.symm⟩

theorem authorizeOrphanCleanup_eq_ok {claim : CleanupClaim} {authorized : Bool}
    (h : authorizeOrphanCleanup claim db = .ok (authorized, db')) :
    ∃ claims, ClaimWrite db claims ∧ db' = { db with cleanupClaims := claims } := by
  unfold authorizeOrphanCleanup at h
  split at h
  · simp only [Except.ok.injEq, Prod.mk.injEq] at h
    exact ⟨db.cleanupClaims, .kept _ rfl, h.2.symm⟩
  · rename_i current hcurrent
    split at h
    · simp only [Except.ok.injEq, Prod.mk.injEq] at h
      exact ⟨db.cleanupClaims, .kept _ rfl, h.2.symm⟩
    · split at h
      · simp only [Except.ok.injEq, Prod.mk.injEq] at h
        exact ⟨db.cleanupClaims, .kept _ rfl, h.2.symm⟩
      · rename_i hused
        simp only [Except.ok.injEq, Prod.mk.injEq] at h
        exact ⟨_, .released claim (by rw [hcurrent]; rfl) (by simpa using hused), h.2.symm⟩

theorem completeOrphanCleanup_eq_ok {claim : CleanupClaim} {done : Bool}
    (h : completeOrphanCleanup claim db = .ok (done, db')) :
    ∃ claims, ClaimWrite db claims ∧ db' = { db with cleanupClaims := claims } := by
  unfold completeOrphanCleanup at h
  simp only [Except.ok.injEq, Prod.mk.injEq] at h
  refine ⟨_, .kept _ ?_, h.2.symm⟩
  exact map_modifyWhere fun _ => rfl

theorem expireOrphanCleanup_eq_ok {claim : CleanupClaim} {done : Bool}
    (h : expireOrphanCleanup claim db = .ok (done, db')) :
    ∃ claims, ClaimWrite db claims ∧ db' = { db with cleanupClaims := claims } := by
  unfold expireOrphanCleanup at h
  simp only [Except.ok.injEq, Prod.mk.injEq] at h
  refine ⟨_, .kept _ ?_, h.2.symm⟩
  exact map_modifyWhere fun _ => rfl

end Claims

end VeloxRag.Indexing
