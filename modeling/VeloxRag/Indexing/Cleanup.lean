import VeloxRag.Indexing.Generations

/-!
# Cleaning up orphaned collections

A reconciler lists the collections of the vector store and deletes those that no generation
uses.  What it has listed is stale by the time it deletes, so it first claims the collection by
a row of the database, checks once more, and only then deletes.  The rows of completed claims
stay for ever.

## Main definitions

* `collectionStatus?` — the status of the generation that uses a collection.
* `claimOrphanCleanup`, `authorizeOrphanCleanup` — before the deletion.
* `completeOrphanCleanup`, `expireOrphanCleanup` — after it.
-/

namespace VeloxRag.Indexing

open Lib Jobs

/-- `collection_statuses` of one collection. -/
def collectionStatus? (db : Db) (collection : Str) : Option GenerationStatus :=
  (db.generations.find? (·.qdrantCollectionName = collection)).map (·.status)

/-- `status in {None, "failed"}`. -/
def orphanStatus : Option GenerationStatus → Bool
  | none | some .failed => true
  | _ => false

/-- `claim_collection_cleanup`: a new claim, or an expired one taken over. -/
def claimCollectionCleanup (knowledgeBaseId generationId leaseOwner leaseDuration : ℕ) :
    Tx (Option CleanupClaim) := fun db =>
  let collection := collectionName knowledgeBaseId generationId
  match cleanupClaim? db collection with
  | none =>
      let claim : CleanupClaim :=
        ⟨collection, knowledgeBaseId, generationId, leaseOwner, 1, db.now + leaseDuration, none⟩
      .ok (some claim, { db with cleanupClaims := db.cleanupClaims ++ [claim] })
  | some current =>
      if current.knowledgeBaseId ≠ knowledgeBaseId ∨ current.generationId ≠ generationId then
        .error (.value "cleanup claim identity mismatch")
      else if current.completedAt.isSome ∨ db.now < current.leaseExpiresAt then .ok (none, db)
      else
        let claim := { current with
          leaseOwner := leaseOwner
          leaseEpoch := current.leaseEpoch + 1
          leaseExpiresAt := db.now + leaseDuration }
        .ok (some claim,
          { db with cleanupClaims := setRow (·.collectionName) claim db.cleanupClaims })

/-- `_claim_orphan_cleanup` of a managed collection. -/
def claimOrphanCleanup (knowledgeBaseId generationId leaseOwner leaseDuration : ℕ) :
    Tx (Option CleanupClaim) := fun db =>
  if orphanStatus (collectionStatus? db (collectionName knowledgeBaseId generationId)) then
    claimCollectionCleanup knowledgeBaseId generationId leaseOwner leaseDuration db
  else .ok (none, db)

/-- The row is still the open claim. -/
def sameOpenClaim (claim row : CleanupClaim) : Bool :=
  decide (row.collectionName = claim.collectionName) && decide (row.leaseOwner = claim.leaseOwner)
    && decide (row.leaseEpoch = claim.leaseEpoch) && decide (row.completedAt = none)

/-- `_authorize_orphan_cleanup`: whether the deletion may go on; a claim on a collection that is in
use is released. -/
def authorizeOrphanCleanup (claim : CleanupClaim) : Tx Bool := fun db =>
  match cleanupClaim? db claim.collectionName with
  | none => .ok (false, db)
  | some current =>
      if sameOpenClaim claim current = false ∨ current.leaseExpiresAt ≤ db.now then .ok (false, db)
      else if orphanStatus (collectionStatus? db claim.collectionName) then .ok (true, db)
      else
        .ok (false, { db with
          cleanupClaims := db.cleanupClaims.filter fun row => !sameOpenClaim claim row })

/-- `_complete_orphan_cleanup`. -/
def completeOrphanCleanup (claim : CleanupClaim) : Tx Bool := fun db =>
  .ok (db.cleanupClaims.any (sameOpenClaim claim), { db with
    cleanupClaims := modifyWhere (sameOpenClaim claim) (fun row =>
      { row with completedAt := some db.now }) db.cleanupClaims })

/-- `_expire_orphan_cleanup`. -/
def expireOrphanCleanup (claim : CleanupClaim) : Tx Bool := fun db =>
  .ok (db.cleanupClaims.any (sameOpenClaim claim), { db with
    cleanupClaims := modifyWhere (sameOpenClaim claim) (fun row =>
      { row with leaseExpiresAt := db.now }) db.cleanupClaims })

end VeloxRag.Indexing
