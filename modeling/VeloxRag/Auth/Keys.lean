import VeloxRag.Api.RequestProtocol
import VeloxRag.Auth.Tokens
import VeloxRag.Retrieval.Search

/-!
# API keys

The service of API keys creates, changes and revokes the keys of administrators and agents, and
authenticates their tokens.  Each request is one transaction: what it raises undoes all of it, and
what it changes raises the revision of the key and is written to the audit log.

## Main definitions

* `ApiKey`, `KeyStore` — the rows, with the constraints of their table.
* `materializePrincipal`, `authenticate` — from a token to a principal.
* `createAdminKey`, `createAgentKey`, `updateAgentKey`, `revokeAdminKey`, `revokeAgentKey` — the
  requests.
* `ensureLocalKeys`, `requirePrincipalWithoutToken` — the local actors of an install that trusts
  requests without a token.
* `KeyOp`, `KeyReachable` — the requests as steps of the store.
-/

namespace VeloxRag.Auth

open Lib
open Api (BusinessError KeyKind)
open RequestProtocol (isValidRequestId generatedRequestIdLength maxHeaderValueLength)
open Retrieval (Capability)

/-! ## Rows -/

def capabilityValue : Capability → Str
  | .ingest => "ingest".toList
  | .retrieve => "retrieve".toList
  | .answer => "answer".toList
  | .manage => "manage".toList

/-- `Capability(value)`, `none` for the `ValueError`. -/
def capability? (value : Str) : Option Capability :=
  [Capability.ingest, .retrieve, .answer, .manage].find? fun c => decide (capabilityValue c = value)

/-- `sorted(capability.value for capability in capabilities)`. -/
def sortedCapabilities (capabilities : Finset Capability) : List Str :=
  ([Capability.answer, .ingest, .manage, .retrieve].filter (· ∈ capabilities)).map capabilityValue

inductive KeyStatus
  | active
  | disabled
  | revoked
deriving DecidableEq, Repr

structure ApiKey where
  id : ℕ
  publicId : Str
  secretDigest : Bytes
  keyType : KeyKind
  name : Str
  status : KeyStatus
  capabilities : List Str
  rawFileRead : Bool
  requestsPerMinute : Option ℤ
  maxConcurrency : Option ℤ
  notBefore : Option ℕ
  expiresAt : Option ℕ
  resourceRevision : ℕ
  createdByApiKeyId : Option ℕ
  revokedByApiKeyId : Option ℕ
  createdAt : ℕ
  updatedAt : ℕ
  revokedAt : Option ℕ
deriving DecidableEq

/-- The window of a key is not empty. -/
def validWindow (notBefore expiresAt : Option ℕ) : Bool :=
  notBefore.all fun start => expiresAt.all fun stop => decide (start < stop)

/-- The `CHECK` constraints of `api_keys`. -/
def ApiKey.checks (row : ApiKey) : Bool :=
  decide (16 ≤ row.publicId.length ∧ row.publicId.length ≤ 64)
    && decide (row.secretDigest.length = 32)
    && decide (1 ≤ row.name.length ∧ row.name.length ≤ 120)
    && decide (row.capabilities.length ≤ 4) && row.capabilities.all (fun c => (capability? c).isSome)
    && validWindow row.notBefore row.expiresAt
    && (decide (row.keyType ≠ .admin) || (decide (row.capabilities = []) && !row.rawFileRead
      && decide (row.requestsPerMinute = none) && decide (row.maxConcurrency = none)))
    && (decide (row.keyType ≠ .agent)
      || ((row.requestsPerMinute.any fun n => decide (1 ≤ n ∧ n ≤ 10000))
        && row.maxConcurrency.any fun n => decide (1 ≤ n ∧ n ≤ 1000)))
    && decide (1 ≤ row.resourceRevision)
    && decide ((row.status = .revoked) ↔ row.revokedAt.isSome = true)

/-- PostgreSQL stores no text with a NUL in it. -/
def ApiKey.storable (row : ApiKey) : Bool :=
  (row.publicId :: row.name :: row.capabilities).all fun text => decide ('\x00' ∉ text)

structure QueryProfileScope where
  apiKeyId : ℕ
  queryProfileId : ℕ
  isDefault : Bool
deriving DecidableEq

inductive ActorKind
  | adminKey
  | localCli
deriving DecidableEq

inductive AuditAction
  | created
  | policyUpdated
  | revoked
deriving DecidableEq

/-- The metadata of an update. -/
structure PolicyChange where
  changedFields : List Str
  knowledgeBaseIdsAdded : List ℕ
  knowledgeBaseIdsRemoved : List ℕ
  queryProfileIdsAdded : List ℕ
  queryProfileIdsRemoved : List ℕ
deriving DecidableEq

structure AuditEvent where
  requestId : Str
  actorApiKeyId : Option ℕ
  actorKind : ActorKind
  action : AuditAction
  targetId : ℕ
  metadata : Option PolicyChange
deriving DecidableEq

/-- The tables of the service. -/
structure KeyStore where
  apiKeys : List ApiKey
  /-- The key and the knowledge base. -/
  knowledgeBaseScopes : List (ℕ × ℕ)
  queryProfileScopes : List QueryProfileScope
  audits : List AuditEvent
deriving DecidableEq

/-- What other services write: the status of a knowledge base, and whether a query profile is
enabled. -/
structure ReferencedRows where
  knowledgeBaseStatus : ℕ → Option KbStatus
  queryProfileEnabled : ℕ → Option Bool

/-! ## Errors -/

def notFoundError : BusinessError := ⟨404, "RESOURCE_NOT_FOUND", "Resource not found"⟩

def stateConflictError : BusinessError := ⟨409, "RESOURCE_STATE_CONFLICT", "Resource state conflict"⟩

def preconditionError : BusinessError := ⟨412, "PRECONDITION_FAILED", "Precondition failed"⟩

def validationError : BusinessError := ⟨422, "VALIDATION_ERROR", "Invalid API key policy"⟩

/-! ## Repositories -/

namespace KeyStore

variable (store : KeyStore)

def empty : KeyStore := ⟨[], [], [], []⟩

/-- `get_by_public_id`. -/
def getByPublicId (kind : KeyKind) (publicId : Str) : Option ApiKey :=
  store.apiKeys.find? fun row => decide (row.keyType = kind) && decide (row.publicId = publicId)

/-- `get_by_id`. -/
def getById (keyId : ℕ) (kind : KeyKind) : Option ApiKey :=
  store.apiKeys.find? fun row => decide (row.id = keyId) && decide (row.keyType = kind)

/-- `SqlAlchemyApiKeyRepository.add`: the flush raises for a row that the table does not take. -/
def add (row : ApiKey) : Except BusinessError KeyStore :=
  if row.storable = false ∨ row.checks = false ∨
      store.apiKeys.any (fun key => decide (key.id = row.id ∨ key.publicId = row.publicId)) then
    .error internalError
  else .ok { store with apiKeys := store.apiKeys ++ [row] }

/-- The flush of a changed row. -/
def update (row : ApiKey) : Except BusinessError KeyStore :=
  if row.storable = false ∨ row.checks = false then .error internalError
  else .ok { store with apiKeys := setRow (·.id) row store.apiKeys }

/-- `replace_kb_scopes`. -/
def replaceKbScopes (keyId : ℕ) (ids : Finset ℕ) : KeyStore :=
  { store with
    knowledgeBaseScopes := store.knowledgeBaseScopes.filter (fun scope => decide (scope.1 ≠ keyId))
      ++ ids.sort.map fun identifier => (keyId, identifier) }

/-- `replace_query_profile_scopes`. -/
def replaceQueryProfileScopes (keyId : ℕ) (ids : Finset ℕ) (defaultId : Option ℕ) : KeyStore :=
  { store with
    queryProfileScopes := store.queryProfileScopes.filter (fun scope => decide (scope.apiKeyId ≠ keyId))
      ++ ids.sort.map fun identifier => ⟨keyId, identifier, decide (some identifier = defaultId)⟩ }

/-- `get_knowledge_base_scopes`. -/
def getKnowledgeBaseScopes (keyId : ℕ) : Finset ℕ :=
  ((store.knowledgeBaseScopes.filter fun scope => decide (scope.1 = keyId)).map (·.2)).toFinset

/-- The rows of the scope of a key, as the query returns them. -/
def queryProfileRows (keyId : ℕ) : List QueryProfileScope :=
  store.queryProfileScopes.filter fun scope => decide (scope.apiKeyId = keyId)

/-- `get_query_profile_scopes`. -/
def getQueryProfileScopes (keyId : ℕ) : Finset ℕ × Option ℕ :=
  let rows := store.queryProfileRows keyId
  let defaultIds := (rows.filter (·.isDefault)).map (·.queryProfileId)
  ((rows.map (·.queryProfileId)).toFinset,
    match defaultIds with
    | [defaultId] => some defaultId
    | _ => none)

/-- `SqlAlchemyAuditEventRepository.add`. -/
def addAudit (event : AuditEvent) : KeyStore := { store with audits := store.audits ++ [event] }

end KeyStore

/-! ## Principals -/

structure AdminPrincipal where
  keyId : ℕ
  publicId : Str
deriving DecidableEq

structure AgentPrincipal where
  keyId : ℕ
  publicId : Str
  capabilities : Finset Capability
  knowledgeBaseIds : Finset ℕ
  queryProfileIds : Finset ℕ
  defaultQueryProfileId : Option ℕ
  rawFileRead : Bool
  requestsPerMinute : ℤ
  maxConcurrency : ℤ
deriving DecidableEq

inductive Principal
  | admin (principal : AdminPrincipal)
  | agent (principal : AgentPrincipal)
deriving DecidableEq

/-- `_is_canonical_public_id`. -/
def isCanonicalPublicId (value : Str) : Bool :=
  decide (16 ≤ value.length ∧ value.length ≤ 64) && value.all (· ∈ Base64.alphabet)
    && (Base64.decode? value).any fun decoded => decide (Base64.encode decoded = value)

/-- `_materialize_principal`, `none` for what it raises. -/
def materializePrincipal? (row : ApiKey) (knowledgeBaseIds queryProfileIds : Finset ℕ)
    (defaultQueryProfileId : Option ℕ) : Option Principal :=
  if isCanonicalPublicId row.publicId = false then none
  else
    match row.keyType with
    | .admin =>
        if row.capabilities ≠ [] ∨ row.rawFileRead = true ∨ row.requestsPerMinute ≠ none ∨
            row.maxConcurrency ≠ none ∨ knowledgeBaseIds ≠ ∅ ∨ queryProfileIds ≠ ∅ ∨
            defaultQueryProfileId ≠ none then none
        else some (.admin ⟨row.id, row.publicId⟩)
    | .agent => do
        if 4 < row.capabilities.length ∨ ¬ row.capabilities.Nodup then none
        let capabilities ← row.capabilities.mapM capability?
        let requestsPerMinute ← row.requestsPerMinute
        let maxConcurrency ← row.maxConcurrency
        if ¬ (1 ≤ requestsPerMinute ∧ requestsPerMinute ≤ 10000) ∨
            ¬ (1 ≤ maxConcurrency ∧ maxConcurrency ≤ 1000) then none
        if defaultQueryProfileId.any (fun id => decide (id ∉ queryProfileIds)) then none
        some (.agent ⟨row.id, row.publicId, capabilities.toFinset, knowledgeBaseIds, queryProfileIds,
          defaultQueryProfileId, row.rawFileRead, requestsPerMinute, maxConcurrency⟩)

/-- `materialize_principal`. -/
def materializePrincipal (row : ApiKey) (knowledgeBaseIds queryProfileIds : Finset ℕ)
    (defaultQueryProfileId : Option ℕ) : Except BusinessError Principal :=
  match materializePrincipal? row knowledgeBaseIds queryProfileIds defaultQueryProfileId with
  | some principal => .ok principal
  | none => .error internalError

/-- `_is_currently_active`. -/
def isCurrentlyActive (row : ApiKey) (now : ℕ) : Bool :=
  if row.status ≠ .active ∨ row.revokedAt.isSome then false
  else if row.notBefore.any fun start => decide (now < start) then false
  else row.expiresAt.all fun stop => decide (now < stop)

/-! ## The service -/

/-- The settings of the service, as they are validated. -/
structure KeySettings where
  maxApiKeyRequestsPerMinute : ℤ
  maxApiKeyConcurrency : ℤ
  maxRequestIdLength : ℤ
  adminKeyHmacSecret : Str
  agentKeyHmacSecret : Str
  /-- Requests without a token are let in, as one of the local actors. -/
  localTrustedAuth : Bool
  requestIdLength : generatedRequestIdLength ≤ maxRequestIdLength ∧ maxRequestIdLength ≤ maxHeaderValueLength

/-- `_hmac_secret`. -/
def KeySettings.hmacSecret (settings : KeySettings) : KeyKind → Str
  | .admin => settings.adminKeyHmacSecret
  | .agent => settings.agentKeyHmacSecret

/-- `agent_key_etag`. -/
def agentKeyEtag (resourceId revision : ℕ) : Except BusinessError Str :=
  if revision = 0 then .error internalError
  else .ok ("\"agent-key:".toList ++ Ingestion.uuidText resourceId ++ ":r".toList
    ++ Nat.toDigits 10 revision ++ ['"'])

/-- `require_matching_etag`. -/
def requireMatchingEtag (ifMatch : Option Str) (expected : Str) : Except BusinessError Unit :=
  if ifMatch ≠ some expected then .error preconditionError else .ok ()

structure SafeApiKey where
  id : ℕ
  publicId : Str
  name : Str
  status : KeyStatus
  keyType : KeyKind
  capabilities : List Capability
  knowledgeBaseIds : List ℕ
  queryProfileIds : List ℕ
  defaultQueryProfileId : Option ℕ
  rawFileRead : Bool
  requestsPerMinute : Option ℤ
  maxConcurrency : Option ℤ
  notBefore : Option ℕ
  expiresAt : Option ℕ
  resourceRevision : ℕ
  etag : Option Str
  createdAt : ℕ
  updatedAt : ℕ
  revokedAt : Option ℕ
deriving DecidableEq

/-- The fields of `SafeApiKey` that its schema checks. -/
def validSafeApiKey (row : ApiKey) : Bool :=
  decide (16 ≤ row.publicId.length ∧ row.publicId.length ≤ 64)
    && decide (1 ≤ row.name.length ∧ row.name.length ≤ 120) && decide (1 ≤ row.resourceRevision)

/-- `_safe_api_key`.  The capabilities are sorted by their texts. -/
def safeApiKey (row : ApiKey) (knowledgeBaseIds queryProfileIds : Finset ℕ)
    (defaultQueryProfileId : Option ℕ) : Except BusinessError SafeApiKey := do
  let (capabilities, etag) ← (match row.keyType with
    | .admin =>
        if row.capabilities ≠ [] ∨ row.rawFileRead = true ∨ row.requestsPerMinute ≠ none ∨
            row.maxConcurrency ≠ none ∨ knowledgeBaseIds ≠ ∅ ∨ queryProfileIds ≠ ∅ ∨
            defaultQueryProfileId ≠ none then .error internalError
        else .ok ([], none)
    | .agent =>
        match row.capabilities.mapM capability? with
        | none => .error internalError
        | some capabilities => do
            let etag ← agentKeyEtag row.id row.resourceRevision
            .ok (capabilities.insertionSort (fun a b => capabilityValue a ≤ capabilityValue b), some etag))
  if validSafeApiKey row = false then throw internalError
  pure ⟨row.id, row.publicId, row.name, row.status, row.keyType, capabilities, knowledgeBaseIds.sort,
    queryProfileIds.sort, defaultQueryProfileId, row.rawFileRead, row.requestsPerMinute,
    row.maxConcurrency, row.notBefore, row.expiresAt, row.resourceRevision, etag, row.createdAt,
    row.updatedAt, row.revokedAt⟩

/-- `_safe_agent`. -/
def safeAgent (store : KeyStore) (row : ApiKey) : Except BusinessError SafeApiKey :=
  let (queryProfileIds, defaultQueryProfileId) := store.getQueryProfileScopes row.id
  safeApiKey row (store.getKnowledgeBaseScopes row.id) queryProfileIds defaultQueryProfileId

structure IssuedApiKey where
  apiKey : SafeApiKey
  token : Str

/-- `ApiKeyName`. -/
abbrev ApiKeyName := {name : Str // 1 ≤ name.length ∧ name.length ≤ 120}

structure AdminApiKeyCreate where
  name : ApiKeyName
  notBefore : Option ℕ
  expiresAt : Option ℕ

structure AgentApiKeyCreate where
  name : ApiKeyName
  capabilities : Finset Capability
  knowledgeBaseIds : Finset ℕ
  queryProfileIds : Finset ℕ
  defaultQueryProfileId : Option ℕ
  rawFileRead : Bool
  requestsPerMinute : ℤ
  maxConcurrency : ℤ
  notBefore : Option ℕ
  expiresAt : Option ℕ

/-- The statuses that an update may set. -/
inductive EditableStatus
  | active
  | disabled
deriving DecidableEq

def EditableStatus.status : EditableStatus → KeyStatus
  | .active => .active
  | .disabled => .disabled

/-- A field of an update, `none` where it is not set; a set field may be null. -/
abbrev PatchField (α : Type) := Option (Option α)

structure AgentApiKeyUpdate where
  name : PatchField ApiKeyName
  status : PatchField EditableStatus
  capabilities : PatchField (Finset Capability)
  knowledgeBaseIds : PatchField (Finset ℕ)
  queryProfileIds : PatchField (Finset ℕ)
  defaultQueryProfileId : PatchField ℕ
  rawFileRead : PatchField Bool
  requestsPerMinute : PatchField ℤ
  maxConcurrency : PatchField ℤ
  notBefore : PatchField ℕ
  expiresAt : PatchField ℕ

/-- `sorted(model_fields_set)`. -/
def AgentApiKeyUpdate.changedFields (command : AgentApiKeyUpdate) : List Str :=
  [("capabilities".toList, command.capabilities.isSome),
    ("default_query_profile_id".toList, command.defaultQueryProfileId.isSome),
    ("expires_at".toList, command.expiresAt.isSome),
    ("knowledge_base_ids".toList, command.knowledgeBaseIds.isSome),
    ("max_concurrency".toList, command.maxConcurrency.isSome),
    ("name".toList, command.name.isSome),
    ("not_before".toList, command.notBefore.isSome),
    ("query_profile_ids".toList, command.queryProfileIds.isSome),
    ("raw_file_read".toList, command.rawFileRead.isSome),
    ("requests_per_minute".toList, command.requestsPerMinute.isSome),
    ("status".toList, command.status.isSome)].filterMap fun field => if field.2 then some field.1 else none

/-- A transaction on the keys: what it returns, and the tables after it. -/
abbrev KeyTx (α : Type) := KeyStore → Except BusinessError (α × KeyStore)

/-- `_require_request_id`. -/
def requireRequestId (settings : KeySettings) (requestId : Str) : Except BusinessError Unit :=
  if isValidRequestId requestId settings.maxRequestIdLength then .ok () else .error validationError

/-- `_require_admin_actor`. -/
def requireAdminActor (actor : Option AdminPrincipal) (now : ℕ) (store : KeyStore) :
    Except BusinessError (Option ℕ × ActorKind) :=
  match actor with
  | none => .ok (none, .localCli)
  | some actor =>
      match store.getById actor.keyId .admin with
      | none => .error invalidApiKeyError
      | some row =>
          if row.publicId ≠ actor.publicId ∨ row.keyType ≠ .admin ∨ isCurrentlyActive row now = false then
            .error invalidApiKeyError
          else .ok (some row.id, .adminKey)

/-- `_validate_agent_limits`. -/
def validateAgentLimits (settings : KeySettings) (requestsPerMinute maxConcurrency : ℤ) :
    Except BusinessError Unit :=
  if ¬ (1 ≤ requestsPerMinute ∧ requestsPerMinute ≤ settings.maxApiKeyRequestsPerMinute) ∨
      ¬ (1 ≤ maxConcurrency ∧ maxConcurrency ≤ settings.maxApiKeyConcurrency) then .error validationError
  else .ok ()

/-- `_validate_validity_window`. -/
def validateValidityWindow (notBefore expiresAt : Option ℕ) : Except BusinessError Unit :=
  if validWindow notBefore expiresAt = false then .error validationError else .ok ()

/-- `_validate_references`. -/
def validateReferences (rows : ReferencedRows) (knowledgeBaseIds queryProfileIds : Finset ℕ)
    (defaultQueryProfileId : Option ℕ) (validateKnowledgeBases validateQueryProfiles : Bool) :
    Except BusinessError Unit :=
  if defaultQueryProfileId.any (fun id => decide (id ∉ queryProfileIds)) then .error validationError
  else if validateKnowledgeBases ∧ ∃ id ∈ knowledgeBaseIds, rows.knowledgeBaseStatus id = none ∨
      rows.knowledgeBaseStatus id = some .deleting then .error validationError
  else if validateQueryProfiles ∧ ∃ id ∈ queryProfileIds, rows.queryProfileEnabled id ≠ some true then
    .error validationError
  else .ok ()

section Service

-- `hmac.new(key, message, hashlib.sha256).digest()`
variable (hmac : Bytes → Bytes → Digest) (settings : KeySettings)

/-- What a creation draws: the identity of the row and the two parts of the token, and the time of the
database. -/
structure Drawn where
  id : ℕ
  publicBytes : RandomBytes publicIdBytes
  randomSecret : RandomBytes secretBytes
  createdAt : ℕ

/-- `create_admin_key`. -/
def createAdminKey (command : AdminApiKeyCreate) (requestId : Str) (drawn : Drawn) : KeyTx IssuedApiKey :=
  fun store => do
    requireRequestId settings requestId
    validateValidityWindow command.notBefore command.expiresAt
    let generated ← generateToken hmac .admin drawn.publicBytes drawn.randomSecret settings.adminKeyHmacSecret
    let row : ApiKey :=
      { id := drawn.id
        publicId := generated.publicId
        secretDigest := generated.digest
        keyType := .admin
        name := command.name.1
        status := .active
        capabilities := []
        rawFileRead := false
        requestsPerMinute := none
        maxConcurrency := none
        notBefore := command.notBefore
        expiresAt := command.expiresAt
        resourceRevision := 1
        createdByApiKeyId := none
        revokedByApiKeyId := none
        createdAt := drawn.createdAt
        updatedAt := drawn.createdAt
        revokedAt := none }
    let store ← store.add row
    let store := store.addAudit ⟨requestId, none, .localCli, .created, row.id, none⟩
    let safe ← safeApiKey row ∅ ∅ none
    pure (⟨safe, generated.token⟩, store)

/-- `create_agent_key`. -/
def createAgentKey (rows : ReferencedRows) (now : ℕ) (command : AgentApiKeyCreate)
    (actor : Option AdminPrincipal) (requestId : Str) (drawn : Drawn) : KeyTx IssuedApiKey := fun store => do
  requireRequestId settings requestId
  validateAgentLimits settings command.requestsPerMinute command.maxConcurrency
  validateValidityWindow command.notBefore command.expiresAt
  let (actorId, actorKind) ← requireAdminActor actor now store
  validateReferences rows command.knowledgeBaseIds command.queryProfileIds command.defaultQueryProfileId
    true true
  let generated ← generateToken hmac .agent drawn.publicBytes drawn.randomSecret settings.agentKeyHmacSecret
  let row : ApiKey :=
    { id := drawn.id
      publicId := generated.publicId
      secretDigest := generated.digest
      keyType := .agent
      name := command.name.1
      status := .active
      capabilities := sortedCapabilities command.capabilities
      rawFileRead := command.rawFileRead
      requestsPerMinute := some command.requestsPerMinute
      maxConcurrency := some command.maxConcurrency
      notBefore := command.notBefore
      expiresAt := command.expiresAt
      resourceRevision := 1
      createdByApiKeyId := actorId
      revokedByApiKeyId := none
      createdAt := drawn.createdAt
      updatedAt := drawn.createdAt
      revokedAt := none }
  let store ← store.add row
  let store := store.replaceKbScopes row.id command.knowledgeBaseIds
  let store := store.replaceQueryProfileScopes row.id command.queryProfileIds command.defaultQueryProfileId
  let store := store.addAudit ⟨requestId, actorId, actorKind, .created, row.id, none⟩
  let safe ← safeApiKey row command.knowledgeBaseIds command.queryProfileIds command.defaultQueryProfileId
  pure (⟨safe, generated.token⟩, store)

/-- A value that must not be null. -/
def required {α : Type} (value : Option α) : Except BusinessError α :=
  match value with
  | some value => .ok value
  | none => .error validationError

/-- The capabilities after an update. -/
def updatedCapabilities (command : AgentApiKeyUpdate) (row : ApiKey) :
    Except BusinessError (Finset Capability) :=
  match command.capabilities with
  | some capabilities => required capabilities
  | none =>
      match row.capabilities.mapM capability? with
      | some capabilities => .ok capabilities.toFinset
      | none => .error internalError

/-- The row after an update whose policy was checked. -/
def updatedRow (command : AgentApiKeyUpdate) (row : ApiKey) (capabilities : Finset Capability)
    (requestsPerMinute maxConcurrency : ℤ) (now : ℕ) : Except BusinessError ApiKey := do
  let name ← (match command.name with
    | some name => (required name).map Subtype.val
    | none => .ok row.name)
  let status ← (match command.status with
    | some status => (required status).map EditableStatus.status
    | none => .ok row.status)
  let rawFileRead ← (match command.rawFileRead with
    | some rawFileRead => required rawFileRead
    | none => .ok row.rawFileRead)
  pure { row with
    name := name
    status := status
    capabilities := if command.capabilities.isSome then sortedCapabilities capabilities else row.capabilities
    rawFileRead := rawFileRead
    requestsPerMinute :=
      if command.requestsPerMinute.isSome then some requestsPerMinute else row.requestsPerMinute
    maxConcurrency := if command.maxConcurrency.isSome then some maxConcurrency else row.maxConcurrency
    notBefore := command.notBefore.getD row.notBefore
    expiresAt := command.expiresAt.getD row.expiresAt
    resourceRevision := row.resourceRevision + 1
    updatedAt := now }

/-- `update_agent_key`. -/
def updateAgentKey (rows : ReferencedRows) (now keyId : ℕ) (command : AgentApiKeyUpdate)
    (actor : Option AdminPrincipal) (requestId expectedEtag : Str) : KeyTx SafeApiKey := fun store => do
  requireRequestId settings requestId
  let (actorId, actorKind) ← requireAdminActor actor now store
  match store.getById keyId .agent with
  | none => throw notFoundError
  | some row => do
      let etag ← agentKeyEtag row.id row.resourceRevision
      requireMatchingEtag (some expectedEtag) etag
      if row.status = .revoked then throw stateConflictError
      let oldKbIds := store.getKnowledgeBaseScopes row.id
      let (oldQpIds, oldDefaultId) := store.getQueryProfileScopes row.id
      let newKbIds ← required (command.knowledgeBaseIds.getD (some oldKbIds))
      let newQpIds ← required (command.queryProfileIds.getD (some oldQpIds))
      let newDefaultId := command.defaultQueryProfileId.getD oldDefaultId
      let capabilities ← updatedCapabilities command row
      let requestsPerMinute ← required (command.requestsPerMinute.getD row.requestsPerMinute)
      let maxConcurrency ← required (command.maxConcurrency.getD row.maxConcurrency)
      validateAgentLimits settings requestsPerMinute maxConcurrency
      validateValidityWindow (command.notBefore.getD row.notBefore) (command.expiresAt.getD row.expiresAt)
      let profilesSet := command.queryProfileIds.isSome || command.defaultQueryProfileId.isSome
      validateReferences rows newKbIds newQpIds newDefaultId command.knowledgeBaseIds.isSome profilesSet
      let row ← updatedRow command row capabilities requestsPerMinute maxConcurrency now
      let store ← store.update row
      let store := if command.knowledgeBaseIds.isSome then store.replaceKbScopes row.id newKbIds else store
      let store := if profilesSet then store.replaceQueryProfileScopes row.id newQpIds newDefaultId else store
      let store := store.addAudit ⟨requestId, actorId, actorKind, .policyUpdated, row.id, some
        ⟨command.changedFields, (newKbIds \ oldKbIds).sort, (oldKbIds \ newKbIds).sort,
          (newQpIds \ oldQpIds).sort, (oldQpIds \ newQpIds).sort⟩⟩
      let safe ← safeApiKey row newKbIds newQpIds newDefaultId
      pure (safe, store)

/-- The columns of a revocation. -/
def revokedRow (row : ApiKey) (now : ℕ) (actorId : Option ℕ) : ApiKey :=
  { row with
    status := .revoked
    revokedAt := some now
    revokedByApiKeyId := actorId
    resourceRevision := row.resourceRevision + 1
    updatedAt := now }

/-- `revoke_admin_key`. -/
def revokeAdminKey (now keyId : ℕ) (requestId : Str) : KeyTx SafeApiKey := fun store => do
  requireRequestId settings requestId
  match store.getById keyId .admin with
  | none => throw notFoundError
  | some row => do
      if row.status = .revoked then
        let safe ← safeApiKey row ∅ ∅ none
        pure (safe, store)
      else
        let row := revokedRow row now none
        let store ← store.update row
        let store := store.addAudit ⟨requestId, none, .localCli, .revoked, row.id, none⟩
        let safe ← safeApiKey row ∅ ∅ none
        pure (safe, store)

/-- `revoke_agent_key`. -/
def revokeAgentKey (now keyId : ℕ) (actor : Option AdminPrincipal) (requestId : Str)
    (expectedEtag : Option Str) : KeyTx SafeApiKey := fun store => do
  requireRequestId settings requestId
  let (actorId, actorKind) ← requireAdminActor actor now store
  match store.getById keyId .agent with
  | none => throw notFoundError
  | some row => do
      if actor.isSome ∨ expectedEtag.isSome then
        let etag ← agentKeyEtag row.id row.resourceRevision
        requireMatchingEtag expectedEtag etag
      if row.status = .revoked then
        let safe ← safeAgent store row
        pure (safe, store)
      else
        let row := revokedRow row now actorId
        let store ← store.update row
        let store := store.addAudit ⟨requestId, actorId, actorKind, .revoked, row.id, none⟩
        let safe ← safeAgent store row
        pure (safe, store)

/-- `_DUMMY_SECRET_DIGEST`. -/
def dummySecretDigest : Bytes := List.replicate 32 0

/-- `authenticate`. -/
def authenticate (now : ℕ) (rawToken : Str) (expectedKind : KeyKind) (store : KeyStore) :
    Except BusinessError Principal := do
  let parsed ← parseToken rawToken expectedKind
  let found := store.getByPublicId expectedKind parsed.publicId
  let digest := found.elim dummySecretDigest (·.secretDigest)
  let digestMatches := verifySecret hmac parsed.secret digest (settings.hmacSecret expectedKind)
  match found with
  | none => throw invalidApiKeyError
  | some row => do
      if digestMatches = false then throw invalidApiKeyError
      if row.keyType ≠ expectedKind ∨ isCurrentlyActive row now = false then throw invalidApiKeyError
      match expectedKind with
      | .agent =>
          let (queryProfileIds, defaultQueryProfileId) := store.getQueryProfileScopes row.id
          materializePrincipal row (store.getKnowledgeBaseScopes row.id) queryProfileIds defaultQueryProfileId
      | .admin => materializePrincipal row ∅ ∅ none

/-! ## Local trust -/

/-- `LOCAL_ADMIN_KEY_ID`, `00000000-0000-4000-8000-0000000010ca`, and `LOCAL_AGENT_KEY_ID`,
`00000000-0000-4000-8000-00000000a6e7`. -/
def localKeyId : KeyKind → ℕ
  | .admin => 0x400080000000000010ca
  | .agent => 0x4000800000000000a6e7

/-- `LOCAL_ADMIN_PUBLIC_ID` and `LOCAL_AGENT_PUBLIC_ID`. -/
def localPublicId : KeyKind → Str
  | .admin => "local-trusted-admin".toList
  | .agent => "local-trusted-agent".toList

/-- `_LOCAL_CAPABILITIES`. -/
def localCapabilities : List Capability := [.manage, .ingest, .retrieve, .answer]

def localRequestsPerMinute : ℤ := 10000
def localMaxConcurrency : ℤ := 64

/-- The row that `ensure_local_keys` adds for a local actor. -/
def localKey (kind : KeyKind) (secretDigest : Digest) (createdAt : ℕ) : ApiKey where
  id := localKeyId kind
  publicId := localPublicId kind
  secretDigest := secretDigest.1
  keyType := kind
  name := "local trusted ".toList ++ (match kind with | .admin => "admin".toList | .agent => "agent".toList)
  status := .active
  capabilities := if kind = .agent then localCapabilities.map capabilityValue else []
  rawFileRead := decide (kind = .agent)
  requestsPerMinute := if kind = .agent then some localRequestsPerMinute else none
  maxConcurrency := if kind = .agent then some localMaxConcurrency else none
  notBefore := none
  expiresAt := none
  resourceRevision := 1
  createdByApiKeyId := none
  revokedByApiKeyId := none
  createdAt := createdAt
  updatedAt := createdAt
  revokedAt := none

/-- One turn of the loop of `ensure_local_keys`. -/
def ensureLocalKey (kind : KeyKind) (secretDigest : Digest) (createdAt : ℕ) (store : KeyStore) :
    Except BusinessError KeyStore :=
  if store.apiKeys.any (fun key => decide (key.id = localKeyId kind)) then .ok store
  else store.add (localKey kind secretDigest createdAt)

/-- `_grant_missing_scopes`; `knowledgeBaseIds` are those of the knowledge bases that are not being
deleted. -/
def grantMissingScopes (knowledgeBaseIds : Finset ℕ) (store : KeyStore) : KeyStore :=
  { store with
    knowledgeBaseScopes := store.knowledgeBaseScopes
      ++ (knowledgeBaseIds \ store.getKnowledgeBaseScopes (localKeyId .agent)).sort.map
        fun identifier => (localKeyId .agent, identifier) }

/-- `ensure_local_keys`; the digests are random bytes. -/
def ensureLocalKeys (knowledgeBaseIds : Finset ℕ) (digests : KeyKind → Digest) (createdAt : ℕ)
    (store : KeyStore) : Except BusinessError KeyStore := do
  let store ← ensureLocalKey .admin (digests .admin) createdAt store
  let store ← ensureLocalKey .agent (digests .agent) createdAt store
  pure (grantMissingScopes knowledgeBaseIds store)

/-- `local_admin_principal`. -/
def localAdminPrincipal : AdminPrincipal := ⟨localKeyId .admin, localPublicId .admin⟩

/-- `local_agent_principal`. -/
def localAgentPrincipal (store : KeyStore) : AgentPrincipal where
  keyId := localKeyId .agent
  publicId := localPublicId .agent
  capabilities := localCapabilities.toFinset
  knowledgeBaseIds := store.getKnowledgeBaseScopes (localKeyId .agent)
  queryProfileIds := ∅
  defaultQueryProfileId := none
  rawFileRead := true
  requestsPerMinute := localRequestsPerMinute
  maxConcurrency := localMaxConcurrency

/-- `require_admin_principal` and `require_agent_principal` of a request without a token. -/
def requirePrincipalWithoutToken (kind : KeyKind) (knowledgeBaseIds : Finset ℕ) (digests : KeyKind → Digest)
    (createdAt : ℕ) : KeyTx Principal := fun store => do
  if settings.localTrustedAuth = false then throw invalidApiKeyError
  let store ← ensureLocalKeys knowledgeBaseIds digests createdAt store
  match kind with
  | .admin => pure (.admin localAdminPrincipal, store)
  | .agent => pure (.agent (localAgentPrincipal store), store)

/-! ## Steps -/

/-- The requests, with what each reads from outside; and what other services write to the scopes. -/
inductive KeyOp
  | createAdmin (command : AdminApiKeyCreate) (requestId : Str) (drawn : Drawn)
  | createAgent (rows : ReferencedRows) (now : ℕ) (command : AgentApiKeyCreate)
      (actor : Option AdminPrincipal) (requestId : Str) (drawn : Drawn)
  | updateAgent (rows : ReferencedRows) (now keyId : ℕ) (command : AgentApiKeyUpdate)
      (actor : Option AdminPrincipal) (requestId expectedEtag : Str)
  | revokeAdmin (now keyId : ℕ) (requestId : Str)
  | revokeAgent (now keyId : ℕ) (actor : Option AdminPrincipal) (requestId : Str)
      (expectedEtag : Option Str)
  /-- A request of any kind comes without a token. -/
  | withoutToken (kind : KeyKind) (knowledgeBaseIds : Finset ℕ) (digests : KeyKind → Digest) (createdAt : ℕ)
  /-- An agent creates a knowledge base and gets it into its scope. -/
  | knowledgeBaseCreated (actorKeyId knowledgeBaseId : ℕ)
  /-- A knowledge base is purged. -/
  | knowledgeBasePurged (knowledgeBaseId : ℕ)

/-- The tables after a request that commits. -/
def KeyOp.apply (op : KeyOp) (store : KeyStore) : Except BusinessError KeyStore :=
  match op with
  | .createAdmin command requestId drawn =>
      (createAdminKey hmac settings command requestId drawn store).map Prod.snd
  | .createAgent rows now command actor requestId drawn =>
      (createAgentKey hmac settings rows now command actor requestId drawn store).map Prod.snd
  | .updateAgent rows now keyId command actor requestId expectedEtag =>
      (updateAgentKey settings rows now keyId command actor requestId expectedEtag store).map Prod.snd
  | .revokeAdmin now keyId requestId => (revokeAdminKey settings now keyId requestId store).map Prod.snd
  | .revokeAgent now keyId actor requestId expectedEtag =>
      (revokeAgentKey settings now keyId actor requestId expectedEtag store).map Prod.snd
  | .withoutToken kind knowledgeBaseIds digests createdAt =>
      (requirePrincipalWithoutToken settings kind knowledgeBaseIds digests createdAt store).map Prod.snd
  | .knowledgeBaseCreated actorKeyId knowledgeBaseId =>
      match store.getById actorKeyId .agent with
      | none => .error notFoundError
      | some row =>
          if (row.id, knowledgeBaseId) ∈ store.knowledgeBaseScopes then .error internalError
          else .ok { store with
            knowledgeBaseScopes := store.knowledgeBaseScopes ++ [(row.id, knowledgeBaseId)] }
  | .knowledgeBasePurged knowledgeBaseId =>
      .ok { store with
        knowledgeBaseScopes := store.knowledgeBaseScopes.filter fun scope =>
          decide (scope.2 ≠ knowledgeBaseId) }

/-- One step. -/
def KeyStep (store store' : KeyStore) : Prop := ∃ op : KeyOp, op.apply hmac settings store = .ok store'

/-- The tables that runs reach from the empty ones. -/
def KeyReachable : KeyStore → Prop := Relation.ReflTransGen (KeyStep hmac settings) KeyStore.empty

end Service

end VeloxRag.Auth
