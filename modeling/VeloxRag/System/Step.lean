import VeloxRag.Indexing.Cleanup
import VeloxRag.Indexing.Repair
import VeloxRag.Ingestion.Pipeline
import VeloxRag.Ingestion.Upload
import VeloxRag.Metadata.KnowledgeBases

/-!
# The system

Every transaction of the service as one step on a common state: the database, and what the
processes outside it remember.  A worker may use any lease that was ever issued, a saga any
reservation, and a stage any rows it claims to have loaded, so a run covers every interleaving of
workers, crashes and repeated requests.

## Main definitions

* `Sys` — the database with the leases and reservations that processes hold.
* `Sys.Fresh` — an identity that occurs nowhere yet.
* `Op`, `Op.apply` — the transactions.
* `Step`, `Reachable` — one step, and the states that runs reach.
-/

namespace VeloxRag

open Lib Jobs Ingestion Indexing Metadata

/-- What the service is configured with. -/
structure Settings where
  digest : ChunkerDigest
  chunkDefaults : ℤ × ℤ
  identities : GenerationIdentities

/-- The database, the leases that were issued, the reservations that sagas carry, and the leases
(job and epoch) whose purge has returned. -/
structure Sys where
  db : Db
  leases : List JobLease
  reservations : List Reservation
  purged : List (ℕ × ℕ)
deriving DecidableEq, Repr

namespace Sys

def init : Sys := ⟨Db.empty, [], [], []⟩

/-! ## Identities in use -/

/-- Every identity that a row names. -/
def dbIds (db : Db) : List ℕ :=
  db.knowledgeBases.map (·.id)
    ++ db.generations.flatMap (fun g => [g.id, g.knowledgeBaseId])
    ++ db.documents.flatMap (fun d =>
      [d.id, d.knowledgeBaseId] ++ d.currentVersionId.toList ++ d.pendingVersionId.toList)
    ++ db.versions.flatMap (fun v => [v.id, v.documentId])
    ++ db.indexStates.flatMap (fun s => [s.versionId, s.generationId])
    ++ db.mutations.flatMap (fun m => [m.id, m.knowledgeBaseId])
    ++ db.jobs.flatMap (fun j => [j.id, j.targetId] ++ j.knowledgeBaseId.toList
      ++ j.indexGenerationId.toList ++ j.mutationId.toList ++ j.parentJobId.toList
      ++ j.rootJobId.toList)
    ++ db.uploads.flatMap (fun u => [u.knowledgeBaseId, u.documentId, u.versionId, u.jobId])
    ++ db.creationRequests.flatMap (fun r => [r.id, r.knowledgeBaseId, r.generationId])
    ++ db.cleanupClaims.flatMap (fun c => [c.knowledgeBaseId, c.generationId])

/-- Every identity that the state names. -/
def ids (s : Sys) : List ℕ :=
  dbIds s.db ++ s.leases.flatMap (fun l => [l.id, l.targetId])
    ++ s.reservations.flatMap (fun r => [r.requestId, r.generationId, r.knowledgeBaseId])
    ++ s.purged.map (·.1)

/-- A new identity, such as `uuid4` gives. -/
def Fresh (s : Sys) (id : ℕ) : Prop := id ∉ s.ids

instance (s : Sys) (id : ℕ) : Decidable (s.Fresh id) := inferInstanceAs (Decidable (_ ∉ _))

/-! ## Transactions on the state -/

variable (s : Sys)

/-- A transaction that only changes the database. -/
def commit {α : Type} (tx : Tx α) : Option Sys :=
  match tx s.db with
  | .ok (_, db) => some { s with db := db }
  | .error _ => none

/-- A transaction that issues a lease. -/
def issue (tx : Tx JobLease) : Option Sys :=
  match tx s.db with
  | .ok (lease, db) => some { s with db := db, leases := s.leases ++ [lease] }
  | .error _ => none

/-- A transaction that issues the lease of the row it has changed. -/
def renew (tx : Tx Job) : Option Sys :=
  match tx s.db with
  | .ok (job, db) => some { s with db := db, leases := s.leases ++ (leaseFromJob job).toList }
  | .error _ => none

end Sys

/-! ## Operations -/

inductive Op
  | tick (elapsed : ℕ)
  -- leasing
  | claimed (owner : Str) (duration jobId : ℕ)
  | heartbeatSent (lease : JobLease) (duration : ℕ)
  | released (lease : JobLease)
  | exhausted (candidate : Job)
  -- ingestion
  | started (lease : JobLease) (expected : ParseStageInput)
  | parsed (lease : JobLease) (expected : ParseStageInput) (checksum : Str)
  | chunked (lease : JobLease) (expected : ChunkStageInput) (checksum : Str) (count : ℕ)
  | embedded (lease : JobLease) (expected : EmbedIndexStageInput) (next : ℕ)
  | counted (lease : JobLease) (expected : EmbedIndexStageInput) (actual : ℕ)
  | validated (lease : JobLease) (expected : EmbedIndexStageInput) (actual : ℕ)
  | activated (lease : JobLease) (expected : ActivationStageInput) (mutationId : ℕ)
  | stageRaised (lease : JobLease) (exception : StageException) (delay : ℕ)
  -- uploads and retries
  | upload (request : UploadRequest) (documentId versionId jobId mutationId : ℕ)
      (checks : Except TxError Unit)
  | retry (snapshot : ManualRetrySnapshot) (actorId : ℕ) (key : Str) (jobId : ℕ)
  -- rebuilds
  | repair (configured : Bool) (initial : RepairSnapshot) (probe : Except TxError Unit) (jobId : ℕ)
  | repairAdvanced (configured : Bool) (lease : JobLease) (expected : RepairSnapshot)
  | repairValidated (configured : Bool) (lease : JobLease) (expected : RepairSnapshot)
  | repairCheckpointed (configured : Bool) (lease : JobLease) (expected : RepairSnapshot) (next : ℕ)
  | repairRefreshed (configured : Bool) (lease : JobLease) (knowledgeBaseId : ℕ)
  | repairFinished (configured : Bool) (lease : JobLease) (expected : RepairSnapshot)
  | repairRaised (lease : JobLease) (raised : Raised) (delay : ℕ)
  -- generations
  | generationReserved (command : GenerationCommand) (current : Except (ℕ × String) Unit)
      (source : Except TxError (EmbeddingConfiguration × Str))
  | generationFailed (reservation : Reservation) (status : ℕ) (code : String) (actual : Option ℕ)
  | generationActivated (reservation : Reservation) (jobId : ℕ)
  | generationAbandoned (knowledgeBaseId generationId : ℕ)
  -- orphaned collections
  | cleanupClaimed (knowledgeBaseId generationId owner duration : ℕ)
  | cleanupAuthorized (claim : CleanupClaim)
  | cleanupCompleted (claim : CleanupClaim)
  | cleanupExpired (claim : CleanupClaim)
  -- knowledge bases
  | created (knowledgeBaseId : ℕ)
  | updated (knowledgeBaseId : ℕ) (status : PatchStatus)
  | schemaReplaced (knowledgeBaseId : ℕ) (canonical : Str) (mutationId : ℕ)
  | deleted (knowledgeBaseId actorId jobId : ℕ)
  | purged (lease : JobLease)
  | purgeSucceeded (lease : JobLease)
  | purgeRaised (lease : JobLease) (delay : ℕ)

/-- The lease that a worker does the operation under. -/
def Op.lease? : Op → Option JobLease
  | .heartbeatSent lease _ => some lease
  | .released lease => some lease
  | .started lease _ => some lease
  | .parsed lease _ _ => some lease
  | .chunked lease _ _ _ => some lease
  | .embedded lease _ _ => some lease
  | .counted lease _ _ => some lease
  | .validated lease _ _ => some lease
  | .activated lease _ _ => some lease
  | .stageRaised lease _ _ => some lease
  | .repairAdvanced _ lease _ => some lease
  | .repairValidated _ lease _ => some lease
  | .repairCheckpointed _ lease _ _ => some lease
  | .repairRefreshed _ lease _ => some lease
  | .repairFinished _ lease _ => some lease
  | .repairRaised lease _ _ => some lease
  | .purged lease => some lease
  | .purgeSucceeded lease => some lease
  | .purgeRaised lease _ => some lease
  | _ => none

/-- A claim that gives a lease issues it. -/
def claimLease (owner : Str) (duration jobId : ℕ) (s : Sys) : Option Sys :=
  match claimNext owner duration jobId s.db with
  | .ok (some (.lease lease), db) => some { s with db := db, leases := s.leases ++ [lease] }
  | .ok (_, db) => some { s with db := db }
  | .error _ => none

/-- `_finalize_exhausted`: ingestions have a finalizer. -/
def finalizeCandidate (candidate : Job) : Tx Unit :=
  if candidate.operation = .ingestDocument then
    finalizeExhaustedWith candidate (commitExhaustedFailure candidate)
  else finalizeExhausted candidate

/-- The first transaction of a saga; a reservation is carried on. -/
def reserveSaga (settings : Settings) (command : GenerationCommand)
    (current : Except (ℕ × String) Unit) (source : Except TxError (EmbeddingConfiguration × Str))
    (s : Sys) : Option Sys :=
  match reserveGeneration settings.identities command current source s.db with
  | .ok (.reservation reservation, db) =>
      some { s with db := db, reservations := s.reservations ++ [reservation] }
  | .ok (_, db) => some { s with db := db }
  | .error _ => none

/-- The lease of a purge. -/
def purgeLease (lease : JobLease) : Bool :=
  decide (lease.operation = .purgeKnowledgeBase) && decide (lease.targetType = .knowledgeBase)

/-- `purge`, once the collections and the objects are gone: the rows go, unless the knowledge base
is gone already. -/
def purgeRows (lease : JobLease) (s : Sys) : Option Sys :=
  let after := match purgeCollections s.db lease.targetId with
    | none => some s
    | some _ => s.commit (deleteRows lease.targetId)
  after.map fun t => { t with purged := t.purged ++ [(lease.id, lease.leaseEpoch)] }

/-- One transaction, if it commits. -/
def Op.apply (settings : Settings) (op : Op) (s : Sys) : Option Sys :=
  match op with
  | .tick elapsed => some { s with db := { s.db with now := s.db.now + elapsed } }
  | .claimed owner duration jobId => claimLease owner duration jobId s
  | .heartbeatSent lease duration =>
      if lease ∈ s.leases then s.issue (heartbeat lease duration) else none
  | .released lease => if lease ∈ s.leases then s.commit (releaseClaim lease) else none
  | .exhausted candidate => s.commit (finalizeCandidate candidate)
  | .started lease expected => if lease ∈ s.leases then s.commit (commitStarted lease expected) else none
  | .parsed lease expected checksum =>
      if lease ∈ s.leases then s.renew (commitParsed lease expected checksum) else none
  | .chunked lease expected checksum count =>
      if lease ∈ s.leases then s.renew (commitChunked settings.digest settings.chunkDefaults lease
        expected checksum count) else none
  | .embedded lease expected next =>
      if lease ∈ s.leases then s.renew (commitEmbedProgress lease expected next) else none
  | .counted lease expected actual =>
      if lease ∈ s.leases then s.commit (commitCount lease expected actual) else none
  | .validated lease expected actual =>
      if lease ∈ s.leases then s.renew (commitValidated lease expected actual) else none
  | .activated lease expected mutationId =>
      if lease ∈ s.leases ∧ s.Fresh mutationId then
        s.commit (commitActivated lease expected mutationId) else none
  | .stageRaised lease exception delay =>
      if lease ∈ s.leases ∧ lease.operation = .ingestDocument then
        s.commit (afterStageRaised lease exception delay) else none
  | .upload request documentId versionId jobId mutationId checks =>
      if s.Fresh documentId ∧ s.Fresh versionId ∧ s.Fresh jobId ∧ s.Fresh mutationId then
        s.commit (reserve (uploadReservation request documentId versionId jobId) checks mutationId)
      else none
  | .retry snapshot actorId key jobId =>
      if s.Fresh jobId then
        s.commit (reserveManualRetry settings.digest.configHash snapshot actorId key jobId) else none
  | .repair configured initial probe jobId =>
      if s.Fresh jobId then
        s.commit (reserveRepair settings.digest configured initial probe jobId) else none
  | .repairAdvanced configured lease expected =>
      if lease ∈ s.leases then s.renew (advanceToValidating configured lease expected) else none
  | .repairValidated configured lease expected =>
      if lease ∈ s.leases then s.renew (advanceToComplete configured lease expected) else none
  | .repairCheckpointed configured lease expected next =>
      if lease ∈ s.leases then s.renew (checkpointRepair configured lease expected next) else none
  | .repairRefreshed configured lease knowledgeBaseId =>
      if lease ∈ s.leases then
        s.issue (refreshTarget settings.digest configured lease knowledgeBaseId) else none
  | .repairFinished configured lease expected =>
      if lease ∈ s.leases then
        s.commit (finalizeRepair settings.digest configured lease expected) else none
  | .repairRaised lease raised delay =>
      if lease ∈ s.leases ∧ lease.operation = .rebuildGeneration then
        s.commit (afterRaised lease raised delay) else none
  | .generationReserved command current source => reserveSaga settings command current source s
  | .generationFailed reservation status code actual =>
      if reservation ∈ s.reservations then s.commit (markFailed reservation status code actual) else none
  | .generationActivated reservation jobId =>
      if reservation ∈ s.reservations ∧ s.Fresh jobId then
        s.commit (activate settings.identities reservation jobId) else none
  | .generationAbandoned knowledgeBaseId generationId =>
      s.commit (abandonGeneration knowledgeBaseId generationId)
  | .cleanupClaimed knowledgeBaseId generationId owner duration =>
      s.commit (claimOrphanCleanup knowledgeBaseId generationId owner duration)
  | .cleanupAuthorized claim => s.commit (authorizeOrphanCleanup claim)
  | .cleanupCompleted claim => s.commit (completeOrphanCleanup claim)
  | .cleanupExpired claim => s.commit (expireOrphanCleanup claim)
  | .created knowledgeBaseId =>
      if s.Fresh knowledgeBaseId then s.commit (createKnowledgeBase knowledgeBaseId) else none
  | .updated knowledgeBaseId status => s.commit (updateStatus knowledgeBaseId status)
  | .schemaReplaced knowledgeBaseId canonical mutationId =>
      if s.Fresh mutationId then
        s.commit (replaceFilterSchema knowledgeBaseId canonical mutationId) else none
  | .deleted knowledgeBaseId actorId jobId =>
      if s.Fresh jobId then s.commit (deleteKnowledgeBase knowledgeBaseId actorId jobId) else none
  | .purged lease => if lease ∈ s.leases ∧ purgeLease lease then purgeRows lease s else none
  | .purgeSucceeded lease =>
      if lease ∈ s.leases ∧ purgeLease lease ∧ (lease.id, lease.leaseEpoch) ∈ s.purged then
        s.commit (markSucceeded lease) else none
  | .purgeRaised lease delay =>
      if lease ∈ s.leases ∧ purgeLease lease then s.commit (afterRaised lease .other delay) else none

/-- One step. -/
def Step (settings : Settings) (s s' : Sys) : Prop := ∃ op : Op, op.apply settings s = some s'

/-- The states that runs reach from the empty database. -/
def Reachable (settings : Settings) : Sys → Prop := Relation.ReflTransGen (Step settings) Sys.init

/-- The state after a list of operations; those that fail change nothing. -/
def exec (settings : Settings) (s : Sys) (ops : List Op) : Sys :=
  ops.foldl (fun s op => (op.apply settings s).getD s) s

end VeloxRag
