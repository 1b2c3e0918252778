import VeloxRag.Auth.Keys

/-!
# Keys along runs

A key that was issued is never taken back or issued again: its identity, its kind and the digest of
its secret stay, its revision counts the writes that the audit log records, and from its revocation
on nothing of it changes.  The keys of the local actors are keys like others, but the log does not
record that they were added.

## Main definitions

* `CreatedKey`, `WrittenKey`, `KeyChange` — what the requests do to the tables.
* `KeyInv` — what holds of the tables in every state.
* `KeyFollows` — a key and what becomes of it.
* `key_lifecycle`, `etag_writes_once` — the life of a key.
-/

namespace VeloxRag.Auth

open Lib
open Api (BusinessError KeyKind)
open Jobs (bind_eq_ok guard_eq_ok pure_ok_iff check_eq_ok)
open Retrieval (Capability)

/-! ## Capabilities -/

@[simp] theorem capability?_value (c : Capability) : capability? (capabilityValue c) = some c := by
  cases c <;> decide

theorem capabilityValue_injective : Function.Injective capabilityValue := by
  intro a b h
  have ha := capability?_value a
  rw [h, capability?_value] at ha
  exact (Option.some.inj ha).symm

theorem mapM_capability? (capabilities : List Capability) :
    (capabilities.map capabilityValue).mapM capability? = some capabilities := by
  induction capabilities with
  | nil => rfl
  | cons c rest ih => simp [ih]

/-- The capabilities in the order of their texts. -/
def capabilityOrder (capabilities : Finset Capability) : List Capability :=
  [Capability.answer, .ingest, .manage, .retrieve].filter (· ∈ capabilities)

theorem sortedCapabilities_eq (capabilities : Finset Capability) :
    sortedCapabilities capabilities = (capabilityOrder capabilities).map capabilityValue := rfl

/-- The texts of capabilities, each once. -/
def CapabilityTexts (texts : List Str) : Prop :=
  ∃ capabilities : List Capability, capabilities.Nodup ∧ texts = capabilities.map capabilityValue

theorem capabilityTexts_sorted (capabilities : Finset Capability) :
    CapabilityTexts (sortedCapabilities capabilities) :=
  ⟨capabilityOrder capabilities, List.Nodup.filter _ (by decide), sortedCapabilities_eq capabilities⟩

theorem length_sortedCapabilities (capabilities : Finset Capability) :
    (sortedCapabilities capabilities).length ≤ 4 := by
  rw [sortedCapabilities_eq, List.length_map]
  exact List.length_filter_le _ _

/-! ## What a request does -/

/-- What no write to a key changes. -/
structure SameKey (row row' : ApiKey) : Prop where
  id : row'.id = row.id
  publicId : row'.publicId = row.publicId
  secretDigest : row'.secretDigest = row.secretDigest
  keyType : row'.keyType = row.keyType
  createdByApiKeyId : row'.createdByApiKeyId = row.createdByApiKeyId
  createdAt : row'.createdAt = row.createdAt

/-- The knowledge bases after a write to a key: those of an agent may be replaced. -/
def KbScopesAfter (store : KeyStore) (row : ApiKey) (scopes : List (ℕ × ℕ)) : Prop :=
  scopes = store.knowledgeBaseScopes ∨
    row.keyType = .agent ∧ ∃ ids, scopes = (store.replaceKbScopes row.id ids).knowledgeBaseScopes

/-- The query profiles after a write to a key. -/
def QpScopesAfter (store : KeyStore) (row : ApiKey) (scopes : List QueryProfileScope) : Prop :=
  scopes = store.queryProfileScopes ∨
    row.keyType = .agent ∧ ∃ ids : Finset ℕ, ∃ defaultId : Option ℕ, (∀ id ∈ defaultId, id ∈ ids) ∧
      scopes = (store.replaceQueryProfileScopes row.id ids defaultId).queryProfileScopes

/-- The keys of the audit log, in order. -/
def KeyStore.auditTargets (store : KeyStore) : List ℕ := store.audits.map (·.targetId)

theorem KeyStore.auditTargets_addAudit (store : KeyStore) (event : AuditEvent) :
    (store.addAudit event).auditTargets = store.auditTargets ++ [event.targetId] :=
  List.map_append

/-- A public identifier of a token, or that of a local actor. -/
def PublicIdentifier (publicId : Str) : Prop :=
  (∃ bytes : RandomBytes publicIdBytes, publicId = encodeComponent bytes.1) ∨
    ∃ kind, publicId = localPublicId kind

/-- The key of a local actor. -/
def ApiKey.isLocal (row : ApiKey) : Bool :=
  decide (row.publicId = localPublicId .admin) || decide (row.publicId = localPublicId .agent)

/-- The writes of a key that the log does not record: that a local actor was added. -/
def ApiKey.unrecorded (row : ApiKey) : ℕ := if row.isLocal then 1 else 0

theorem SameKey.unrecorded {row row' : ApiKey} (h : SameKey row row') : row'.unrecorded = row.unrecorded := by
  rw [ApiKey.unrecorded, ApiKey.isLocal, h.publicId]
  rfl

/-- **No token names a local actor**: their public identifiers are not canonical. -/
theorem encodeComponent_ne_localPublicId (bytes : Bytes) (kind : KeyKind) :
    encodeComponent bytes ≠ localPublicId kind := by
  intro h
  have hnone : decodeCanonicalComponent (localPublicId kind) = none := by
    cases kind <;> decide +kernel
  have hne : localPublicId kind ≠ [] := by
    cases kind <;> decide
  rw [(decodeCanonicalComponent_eq_some).mpr ⟨hne, h.symm⟩] at hnone
  cases hnone

theorem isLocal_eq_false {row : ApiKey} {bytes : Bytes} (h : row.publicId = encodeComponent bytes) :
    row.isLocal = false := by
  simp [ApiKey.isLocal, h, encodeComponent_ne_localPublicId]

/-- The key of a token is recorded. -/
theorem KeyStore.auditTargets_issued {store : KeyStore} {row : ApiKey} {event : AuditEvent} {bytes : Bytes}
    (publicId : row.publicId = encodeComponent bytes) (target : event.targetId = row.id) :
    (store.addAudit event).auditTargets = store.auditTargets ++ if row.isLocal then [] else [row.id] := by
  rw [auditTargets_addAudit, isLocal_eq_false publicId, target]
  rfl

theorem isLocal_localKey (kind : KeyKind) (digest : Digest) (createdAt : ℕ) :
    (localKey kind digest createdAt).isLocal = true := by
  cases kind <;> simp [ApiKey.isLocal, localKey]

/-- A key is new. -/
structure CreatedKey (store : KeyStore) (row : ApiKey) (store' : KeyStore) : Prop where
  storable : row.storable = true
  checks : row.checks = true
  fresh : ∀ key ∈ store.apiKeys, key.id ≠ row.id ∧ key.publicId ≠ row.publicId
  revision : row.resourceRevision = 1
  publicId : PublicIdentifier row.publicId
  capabilities : CapabilityTexts row.capabilities
  apiKeys : store'.apiKeys = store.apiKeys ++ [row]
  knowledgeBaseScopes : KbScopesAfter store row store'.knowledgeBaseScopes
  queryProfileScopes : QpScopesAfter store row store'.queryProfileScopes
  audits : store'.auditTargets = store.auditTargets ++ if row.isLocal then [] else [row.id]

/-- A key was written. -/
structure WrittenKey (store : KeyStore) (row row' : ApiKey) (store' : KeyStore) : Prop where
  mem : row ∈ store.apiKeys
  same : SameKey row row'
  revision : row'.resourceRevision = row.resourceRevision + 1
  unrevoked : row.status ≠ .revoked
  storable : row'.storable = true
  checks : row'.checks = true
  capabilities : row'.capabilities = row.capabilities ∨ CapabilityTexts row'.capabilities
  apiKeys : store'.apiKeys = setRow (·.id) row' store.apiKeys
  knowledgeBaseScopes : KbScopesAfter store row' store'.knowledgeBaseScopes
  queryProfileScopes : QpScopesAfter store row' store'.queryProfileScopes
  audits : store'.auditTargets = store.auditTargets ++ [row.id]

/-- **The changes of the tables.** -/
inductive KeyChange (store : KeyStore) : KeyStore → Prop
  | idle : KeyChange store store
  | created (row : ApiKey) (store' : KeyStore) (created : CreatedKey store row store') :
      KeyChange store store'
  | written (row row' : ApiKey) (store' : KeyStore) (written : WrittenKey store row row' store') :
      KeyChange store store'
  | rescoped (scopes : List (ℕ × ℕ)) (keys : ∀ scope ∈ scopes, scope ∈ store.knowledgeBaseScopes ∨
      ∃ row ∈ store.apiKeys, row.id = scope.1) :
      KeyChange store { store with knowledgeBaseScopes := scopes }

theorem require_eq_ok {c : Prop} [Decidable c] {e : BusinessError} {a : Unit}
    (h : (if c then Except.error e else .ok ()) = Except.ok a) : ¬ c := by
  intro hc
  rw [if_pos hc] at h
  cases h

namespace KeyStore

variable {store store' : KeyStore} {row : ApiKey} {keyId : ℕ} {kind : KeyKind}

theorem getById_eq_some (h : store.getById keyId kind = some row) :
    row ∈ store.apiKeys ∧ row.id = keyId ∧ row.keyType = kind := by
  have hp := List.find?_some h
  simp only [Bool.and_eq_true, decide_eq_true_eq] at hp
  exact ⟨List.mem_of_find?_eq_some h, hp.1, hp.2⟩

theorem add_eq_ok (h : store.add row = .ok store') : row.storable = true ∧ row.checks = true ∧
    (∀ key ∈ store.apiKeys, key.id ≠ row.id ∧ key.publicId ≠ row.publicId) ∧
    store' = { store with apiKeys := store.apiKeys ++ [row] } := by
  rw [add] at h
  split at h
  · cases h
  · rename_i hfree
    rw [not_or, not_or, Bool.not_eq_false, Bool.not_eq_false] at hfree
    refine ⟨hfree.1, hfree.2.1, ?_, (Except.ok.inj h).symm⟩
    intro key hkey
    have hnot := hfree.2.2
    simp only [List.any_eq_true, decide_eq_true_eq, not_exists, not_and] at hnot
    exact not_or.mp (hnot key hkey)

theorem update_eq_ok (h : store.update row = .ok store') :
    row.storable = true ∧ row.checks = true ∧
      store' = { store with apiKeys := setRow (·.id) row store.apiKeys } := by
  rw [update] at h
  split at h
  · cases h
  · rename_i hchecks
    rw [not_or, Bool.not_eq_false, Bool.not_eq_false] at hchecks
    exact ⟨hchecks.1, hchecks.2, (Except.ok.inj h).symm⟩

end KeyStore

section Requests

variable {hmac : Bytes → Bytes → Digest} {settings : KeySettings} {store store' : KeyStore}
  {rows : ReferencedRows} {now keyId : ℕ} {requestId : Str} {drawn : Drawn} {actor : Option AdminPrincipal}

/-- The row and the token of a new key. -/
structure NewKey (hmac : Bytes → Bytes → Digest) (settings : KeySettings) (kind : KeyKind)
    (drawn : Drawn) (row : ApiKey) (issued : IssuedApiKey) : Prop where
  id : row.id = drawn.id
  keyType : row.keyType = kind
  publicId : row.publicId = (newToken kind drawn.publicBytes drawn.randomSecret).publicId
  secretDigest : row.secretDigest = (hmac (encode (settings.hmacSecret kind))
    (encode (encodeComponent drawn.randomSecret.1))).1
  token : issued.token = (newToken kind drawn.publicBytes drawn.randomSecret).text
  apiKey : issued.apiKey.id = row.id

/-- What is shown of a key names it. -/
theorem safeApiKey_id {row : ApiKey} {kbs qps : Finset ℕ} {defaultId : Option ℕ} {safe : SafeApiKey}
    (h : safeApiKey row kbs qps defaultId = .ok safe) : safe.id = row.id := by
  unfold safeApiKey at h
  obtain ⟨⟨capabilities, etag⟩, -, h⟩ := bind_eq_ok.mp h
  obtain ⟨-, h⟩ := guard_eq_ok.mp h
  obtain rfl := pure_ok_iff.mp h
  rfl

theorem validateReferences_default {knowledgeBaseIds queryProfileIds : Finset ℕ} {defaultId : Option ℕ}
    {kbs qps : Bool} {a : Unit}
    (h : validateReferences rows knowledgeBaseIds queryProfileIds defaultId kbs qps = .ok a) :
    ∀ id ∈ defaultId, id ∈ queryProfileIds := by
  rw [validateReferences] at h
  split at h
  · cases h
  · rename_i hdefault
    intro id hid
    by_contra hnot
    obtain rfl := Option.mem_def.mp hid
    exact hdefault (decide_eq_true hnot)

theorem createAdminKey_eq_ok {command : AdminApiKeyCreate} {issued : IssuedApiKey}
    (h : createAdminKey hmac settings command requestId drawn store = .ok (issued, store')) :
    ∃ row, NewKey hmac settings .admin drawn row issued ∧ CreatedKey store row store' := by
  unfold createAdminKey at h
  obtain ⟨-, -, h⟩ := bind_eq_ok.mp h
  obtain ⟨-, -, h⟩ := bind_eq_ok.mp h
  rw [generateToken_eq] at h
  obtain ⟨generated, hgenerated, h⟩ := bind_eq_ok.mp h
  obtain rfl := Except.ok.inj hgenerated
  obtain ⟨added, hadd, h⟩ := bind_eq_ok.mp h
  obtain ⟨hstorable, hchecks, hfresh, rfl⟩ := KeyStore.add_eq_ok hadd
  obtain ⟨safe, hsafe, h⟩ := bind_eq_ok.mp h
  simp only [pure_ok_iff, Prod.mk.injEq] at h
  obtain ⟨rfl, rfl⟩ := h
  exact ⟨_, ⟨rfl, rfl, rfl, rfl, rfl, safeApiKey_id hsafe⟩, ⟨hstorable, hchecks, hfresh, rfl,
    .inl ⟨drawn.publicBytes, rfl⟩, capabilityTexts_sorted ∅, rfl, .inl rfl, .inl rfl, KeyStore.auditTargets_issued rfl rfl⟩⟩

theorem createAgentKey_eq_ok {command : AgentApiKeyCreate} {issued : IssuedApiKey}
    (h : createAgentKey hmac settings rows now command actor requestId drawn store = .ok (issued, store')) :
    ∃ row, NewKey hmac settings .agent drawn row issued ∧ CreatedKey store row store' := by
  unfold createAgentKey at h
  obtain ⟨-, -, h⟩ := bind_eq_ok.mp h
  obtain ⟨-, -, h⟩ := bind_eq_ok.mp h
  obtain ⟨-, -, h⟩ := bind_eq_ok.mp h
  obtain ⟨⟨actorId, actorKind⟩, -, h⟩ := bind_eq_ok.mp h
  obtain ⟨_, hreferences, h⟩ := bind_eq_ok.mp h
  rw [generateToken_eq] at h
  obtain ⟨generated, hgenerated, h⟩ := bind_eq_ok.mp h
  obtain rfl := Except.ok.inj hgenerated
  obtain ⟨added, hadd, h⟩ := bind_eq_ok.mp h
  obtain ⟨hstorable, hchecks, hfresh, rfl⟩ := KeyStore.add_eq_ok hadd
  obtain ⟨safe, hsafe, h⟩ := bind_eq_ok.mp h
  simp only [pure_ok_iff, Prod.mk.injEq] at h
  obtain ⟨rfl, rfl⟩ := h
  exact ⟨_, ⟨rfl, rfl, rfl, rfl, rfl, safeApiKey_id hsafe⟩, ⟨hstorable, hchecks, hfresh, rfl,
    .inl ⟨drawn.publicBytes, rfl⟩, capabilityTexts_sorted command.capabilities, rfl,
    .inr ⟨rfl, command.knowledgeBaseIds, rfl⟩,
    .inr ⟨rfl, command.queryProfileIds, command.defaultQueryProfileId, validateReferences_default hreferences,
      rfl⟩, KeyStore.auditTargets_issued rfl rfl⟩⟩

theorem updatedRow_eq_ok {command : AgentApiKeyUpdate} {row row' : ApiKey} {capabilities : Finset Capability}
    {requestsPerMinute maxConcurrency : ℤ}
    (h : updatedRow command row capabilities requestsPerMinute maxConcurrency now = .ok row') :
    SameKey row row' ∧ row'.resourceRevision = row.resourceRevision + 1 ∧
      (row'.capabilities = row.capabilities ∨ row'.capabilities = sortedCapabilities capabilities) := by
  unfold updatedRow at h
  obtain ⟨name, -, h⟩ := bind_eq_ok.mp h
  obtain ⟨status, -, h⟩ := bind_eq_ok.mp h
  obtain ⟨rawFileRead, -, h⟩ := bind_eq_ok.mp h
  obtain rfl := pure_ok_iff.mp h
  refine ⟨⟨rfl, rfl, rfl, rfl, rfl, rfl⟩, rfl, ?_⟩
  by_cases hset : command.capabilities.isSome
  · exact .inr (if_pos hset)
  · exact .inl (if_neg hset)

/-- An update writes the row whose etag the caller has sent. -/
theorem updateAgentKey_eq_ok {command : AgentApiKeyUpdate} {expectedEtag : Str} {safe : SafeApiKey}
    (h : updateAgentKey settings rows now keyId command actor requestId expectedEtag store
      = .ok (safe, store')) :
    ∃ row row', WrittenKey store row row' store' ∧ row.id = keyId ∧ row.keyType = .agent ∧
      agentKeyEtag row.id row.resourceRevision = .ok expectedEtag := by
  unfold updateAgentKey at h
  obtain ⟨-, -, h⟩ := bind_eq_ok.mp h
  obtain ⟨⟨actorId, actorKind⟩, -, h⟩ := bind_eq_ok.mp h
  dsimp only at h
  split at h
  · cases h
  · rename_i row hrow
    obtain ⟨hmem, hid, htype⟩ := KeyStore.getById_eq_some hrow
    obtain ⟨etag, hetag, h⟩ := bind_eq_ok.mp h
    obtain ⟨_, hmatch, h⟩ := bind_eq_ok.mp h
    have heq : some expectedEtag = some etag := not_not.mp (require_eq_ok hmatch)
    obtain ⟨hstatus, h⟩ := guard_eq_ok.mp h
    obtain ⟨newKbIds, -, h⟩ := bind_eq_ok.mp h
    obtain ⟨newQpIds, -, h⟩ := bind_eq_ok.mp h
    obtain ⟨capabilities, -, h⟩ := bind_eq_ok.mp h
    obtain ⟨requestsPerMinute, -, h⟩ := bind_eq_ok.mp h
    obtain ⟨maxConcurrency, -, h⟩ := bind_eq_ok.mp h
    obtain ⟨-, -, h⟩ := bind_eq_ok.mp h
    obtain ⟨-, -, h⟩ := bind_eq_ok.mp h
    obtain ⟨_, hreferences, h⟩ := bind_eq_ok.mp h
    obtain ⟨row', hrow', h⟩ := bind_eq_ok.mp h
    obtain ⟨hsame, hrevision, hcapabilities⟩ := updatedRow_eq_ok hrow'
    obtain ⟨updated, hupdate, h⟩ := bind_eq_ok.mp h
    obtain ⟨hstorable, hchecks, rfl⟩ := KeyStore.update_eq_ok hupdate
    obtain ⟨safe', -, h⟩ := bind_eq_ok.mp h
    simp only [pure_ok_iff, Prod.mk.injEq] at h
    obtain ⟨rfl, rfl⟩ := h
    have htype' : row'.keyType = .agent := hsame.keyType.trans htype
    refine ⟨row, row', ⟨hmem, hsame, hrevision, hstatus, hstorable, hchecks, ?_, ?_, ?_, ?_, ?_⟩, hid, htype, ?_⟩
    · refine hcapabilities.imp_right fun hc => ?_
      rw [hc]
      exact capabilityTexts_sorted capabilities
    · split_ifs <;> rfl
    · split_ifs
      · exact .inr ⟨htype', newKbIds, rfl⟩
      · exact .inl rfl
      · exact .inr ⟨htype', newKbIds, rfl⟩
      · exact .inl rfl
    · have hdefault := validateReferences_default hreferences
      split_ifs
      · exact .inr ⟨htype', newQpIds, _, hdefault, rfl⟩
      · exact .inr ⟨htype', newQpIds, _, hdefault, rfl⟩
      · exact .inl rfl
      · exact .inl rfl
    · rw [KeyStore.auditTargets_addAudit, hsame.id]
      split_ifs <;> rfl
    · rw [hetag, Option.some.inj heq]

theorem WrittenKey.revoke {row : ApiKey} {actorId : Option ℕ} {event : AuditEvent}
    (mem : row ∈ store.apiKeys) (unrevoked : row.status ≠ .revoked)
    (hupdate : store.update (revokedRow row now actorId) = .ok store') (target : event.targetId = row.id) :
    WrittenKey store row (revokedRow row now actorId) (store'.addAudit event) := by
  obtain ⟨hstorable, hchecks, rfl⟩ := KeyStore.update_eq_ok hupdate
  refine ⟨mem, ⟨rfl, rfl, rfl, rfl, rfl, rfl⟩, rfl, unrevoked, hstorable, hchecks, .inl rfl, rfl, .inl rfl,
    .inl rfl, ?_⟩
  rw [KeyStore.auditTargets_addAudit, target]
  rfl

theorem revokeAdminKey_eq_ok {safe : SafeApiKey}
    (h : revokeAdminKey settings now keyId requestId store = .ok (safe, store')) :
    ∃ row ∈ store.apiKeys, row.id = keyId ∧ row.keyType = .admin ∧
      (row.status = .revoked ∧ store' = store ∨ WrittenKey store row (revokedRow row now none) store') := by
  unfold revokeAdminKey at h
  obtain ⟨-, -, h⟩ := bind_eq_ok.mp h
  split at h
  · cases h
  · rename_i row hrow
    obtain ⟨hmem, hid, htype⟩ := KeyStore.getById_eq_some hrow
    refine ⟨row, hmem, hid, htype, ?_⟩
    split at h
    · rename_i hstatus
      obtain ⟨safe', -, h⟩ := bind_eq_ok.mp h
      simp only [pure_ok_iff, Prod.mk.injEq] at h
      exact .inl ⟨hstatus, h.2.symm⟩
    · rename_i hstatus
      obtain ⟨updated, hupdate, h⟩ := bind_eq_ok.mp h
      obtain ⟨safe', -, h⟩ := bind_eq_ok.mp h
      simp only [pure_ok_iff, Prod.mk.injEq] at h
      rw [← h.2]
      exact .inr (.revoke hmem hstatus hupdate rfl)

theorem revokeAgentKey_eq_ok {expectedEtag : Option Str} {safe : SafeApiKey}
    (h : revokeAgentKey settings now keyId actor requestId expectedEtag store = .ok (safe, store')) :
    ∃ row ∈ store.apiKeys, row.id = keyId ∧ row.keyType = .agent ∧
      (∀ etag ∈ expectedEtag, agentKeyEtag row.id row.resourceRevision = .ok etag) ∧
      (row.status = .revoked ∧ store' = store ∨
        ∃ actorId, WrittenKey store row (revokedRow row now actorId) store') := by
  unfold revokeAgentKey at h
  obtain ⟨-, -, h⟩ := bind_eq_ok.mp h
  obtain ⟨⟨actorId, actorKind⟩, -, h⟩ := bind_eq_ok.mp h
  dsimp only at h
  split at h
  · cases h
  · rename_i row hrow
    obtain ⟨hmem, hid, htype⟩ := KeyStore.getById_eq_some hrow
    have hcont {etags : Prop} (hetag : etags)
        (h : (if row.status = .revoked then do
            let safe ← safeAgent store row
            pure (safe, store)
          else do
            let store ← store.update (revokedRow row now actorId)
            let safe ← safeAgent
              (store.addAudit ⟨requestId, actorId, actorKind, .revoked, (revokedRow row now actorId).id, none⟩)
              (revokedRow row now actorId)
            pure (safe, store.addAudit
              ⟨requestId, actorId, actorKind, .revoked, (revokedRow row now actorId).id, none⟩)) =
          Except.ok (safe, store')) :
        etags ∧ (row.status = .revoked ∧ store' = store ∨
          ∃ actorId, WrittenKey store row (revokedRow row now actorId) store') := by
      refine ⟨hetag, ?_⟩
      split at h
      · rename_i hstatus
        obtain ⟨safe', -, h⟩ := bind_eq_ok.mp h
        simp only [pure_ok_iff, Prod.mk.injEq] at h
        exact .inl ⟨hstatus, h.2.symm⟩
      · rename_i hstatus
        obtain ⟨updated, hupdate, h⟩ := bind_eq_ok.mp h
        obtain ⟨safe', -, h⟩ := bind_eq_ok.mp h
        simp only [pure_ok_iff, Prod.mk.injEq] at h
        rw [← h.2]
        exact .inr ⟨actorId, .revoke hmem hstatus hupdate rfl⟩
    refine ⟨row, hmem, hid, htype, ?_⟩
    split at h
    · obtain ⟨etag, hetag, h⟩ := bind_eq_ok.mp h
      obtain ⟨_, hmatch, h⟩ := bind_eq_ok.mp h
      have heq : expectedEtag = some etag := not_not.mp (require_eq_ok hmatch)
      refine hcont ?_ h
      intro e he
      rw [heq] at he
      rw [hetag, Option.mem_some_iff.mp he]
    · rename_i hnone
      rw [not_or] at hnone
      refine hcont ?_ h
      intro e he
      rw [Option.mem_def.mp he] at hnone
      exact absurd rfl hnone.2

/-- The result of a request, without what it returns. -/
theorem map_snd_eq_ok {α : Type} {x : Except BusinessError (α × KeyStore)}
    (h : x.map Prod.snd = .ok store') : ∃ a, x = .ok (a, store') := by
  cases x with
  | error e => cases h
  | ok result =>
      obtain rfl := Except.ok.inj h
      exact ⟨result.1, rfl⟩

/-- The key of a local actor is there, or it is added. -/
theorem ensureLocalKey_eq_ok {kind : KeyKind} {secretDigest : Digest} {createdAt : ℕ}
    (h : ensureLocalKey kind secretDigest createdAt store = .ok store') :
    KeyChange store store' ∧ store'.knowledgeBaseScopes = store.knowledgeBaseScopes ∧
      ∃ key ∈ store'.apiKeys, key.id = localKeyId kind := by
  rw [ensureLocalKey] at h
  split at h
  · rename_i hthere
    obtain rfl := Except.ok.inj h
    obtain ⟨key, hkey, hid⟩ := List.any_eq_true.mp hthere
    exact ⟨.idle, rfl, key, hkey, of_decide_eq_true hid⟩
  · obtain ⟨hstorable, hchecks, hfresh, rfl⟩ := KeyStore.add_eq_ok h
    refine ⟨.created (localKey kind secretDigest createdAt) _ ?_, rfl, _,
      List.mem_append_right _ List.mem_cons_self, rfl⟩
    refine ⟨hstorable, hchecks, hfresh, rfl, .inr ⟨kind, rfl⟩, ?_, rfl, .inl rfl, .inl rfl, ?_⟩
    · cases kind with
      | admin => exact ⟨[], List.nodup_nil, rfl⟩
      | agent => exact ⟨localCapabilities, by decide, rfl⟩
    · rw [isLocal_localKey, if_pos rfl, List.append_nil]
      rfl

/-- **A request without a token** adds the local actors that are missing, and then the scopes that the
agent of them lacks. -/
theorem ensureLocalKeys_eq_ok {knowledgeBaseIds : Finset ℕ} {digests : KeyKind → Digest} {createdAt : ℕ}
    (h : ensureLocalKeys knowledgeBaseIds digests createdAt store = .ok store') :
    Relation.ReflTransGen KeyChange store store' := by
  rw [ensureLocalKeys] at h
  obtain ⟨first, hfirst, h⟩ := bind_eq_ok.mp h
  obtain ⟨second, hsecond, h⟩ := bind_eq_ok.mp h
  obtain rfl := pure_ok_iff.mp h
  obtain ⟨hchange, -⟩ := ensureLocalKey_eq_ok hfirst
  obtain ⟨hchange', -, key, hkey, hid⟩ := ensureLocalKey_eq_ok hsecond
  refine ((Relation.ReflTransGen.single hchange).tail hchange').tail (.rescoped _ ?_)
  intro scope hscope
  rcases List.mem_append.mp hscope with hold | hnew
  · exact .inl hold
  · obtain ⟨identifier, -, rfl⟩ := List.mem_map.mp hnew
    exact .inr ⟨key, hkey, hid⟩

/-- **Every request that commits is such changes**, most of them one. -/
theorem keyChanges_of_apply {op : KeyOp} (h : op.apply hmac settings store = .ok store') :
    Relation.ReflTransGen KeyChange store store' := by
  cases op with
  | createAdmin command requestId drawn =>
      obtain ⟨issued, h⟩ := map_snd_eq_ok h
      obtain ⟨row, -, hcreated⟩ := createAdminKey_eq_ok h
      exact .single (.created row store' hcreated)
  | createAgent rows now command actor requestId drawn =>
      obtain ⟨issued, h⟩ := map_snd_eq_ok h
      obtain ⟨row, -, hcreated⟩ := createAgentKey_eq_ok h
      exact .single (.created row store' hcreated)
  | updateAgent rows now keyId command actor requestId expectedEtag =>
      obtain ⟨safe, h⟩ := map_snd_eq_ok h
      obtain ⟨row, row', hwritten, -⟩ := updateAgentKey_eq_ok h
      exact .single (.written row row' store' hwritten)
  | revokeAdmin now keyId requestId =>
      obtain ⟨safe, h⟩ := map_snd_eq_ok h
      obtain ⟨row, -, -, -, ⟨-, rfl⟩ | hwritten⟩ := revokeAdminKey_eq_ok h
      · exact .refl
      · exact .single (.written row _ store' hwritten)
  | revokeAgent now keyId actor requestId expectedEtag =>
      obtain ⟨safe, h⟩ := map_snd_eq_ok h
      obtain ⟨row, -, -, -, -, ⟨-, rfl⟩ | ⟨actorId, hwritten⟩⟩ := revokeAgentKey_eq_ok h
      · exact .refl
      · exact .single (.written row _ store' hwritten)
  | withoutToken kind knowledgeBaseIds digests createdAt =>
      obtain ⟨principal, h⟩ := map_snd_eq_ok h
      unfold requirePrincipalWithoutToken at h
      obtain ⟨-, h⟩ := guard_eq_ok.mp h
      obtain ⟨ensured, hensured, h⟩ := bind_eq_ok.mp h
      have hsame : ensured = store' := by
        cases kind <;> exact (Prod.mk.inj (pure_ok_iff.mp h)).2
      exact hsame ▸ ensureLocalKeys_eq_ok hensured
  | knowledgeBaseCreated actorKeyId knowledgeBaseId =>
      simp only [KeyOp.apply] at h
      split at h
      · cases h
      · rename_i row hrow
        obtain ⟨hmem, -, -⟩ := KeyStore.getById_eq_some hrow
        split at h
        · cases h
        · obtain rfl := Except.ok.inj h
          refine .single (.rescoped _ ?_)
          intro scope hscope
          rcases List.mem_append.mp hscope with hold | hnew
          · exact .inl hold
          · rw [List.mem_singleton.mp hnew]
            exact .inr ⟨row, hmem, rfl⟩
  | knowledgeBasePurged knowledgeBaseId =>
      obtain rfl := Except.ok.inj h
      exact .single (.rescoped _ fun scope hscope => .inl (List.mem_of_mem_filter hscope))

end Requests

/-! ## The tables -/

/-- The rows that `replaceQueryProfileScopes` writes. -/
def scopeRows (keyId : ℕ) (ids : Finset ℕ) (defaultId : Option ℕ) : List QueryProfileScope :=
  ids.sort.map fun identifier => ⟨keyId, identifier, decide (some identifier = defaultId)⟩

/-- **What holds of the tables**: keys are told apart by their identities and by their public
identifiers, scopes are those of keys, a default profile is in scope, and the revision of a key is the
number of its audit events and of the writes that are not recorded. -/
structure KeyInv (store : KeyStore) : Prop where
  ids : (store.apiKeys.map (·.id)).Nodup
  publicIds : (store.apiKeys.map (·.publicId)).Nodup
  storable : ∀ row ∈ store.apiKeys, row.storable = true
  checks : ∀ row ∈ store.apiKeys, row.checks = true
  publicIdentifiers : ∀ row ∈ store.apiKeys, PublicIdentifier row.publicId
  capabilities : ∀ row ∈ store.apiKeys, CapabilityTexts row.capabilities
  knowledgeBaseScopes : ∀ scope ∈ store.knowledgeBaseScopes, ∃ row ∈ store.apiKeys, row.id = scope.1
  queryProfileScopes : ∀ scope ∈ store.queryProfileScopes,
    ∃ row ∈ store.apiKeys, row.id = scope.apiKeyId ∧ row.keyType = .agent
  profiles : ∀ keyId, ∃ ids : Finset ℕ, ∃ defaultId : Option ℕ, (∀ id ∈ defaultId, id ∈ ids) ∧
    store.queryProfileRows keyId = scopeRows keyId ids defaultId
  revisions : ∀ row ∈ store.apiKeys,
    row.resourceRevision = store.auditTargets.count row.id + row.unrecorded
  targets : ∀ id ∈ store.auditTargets, ∃ row ∈ store.apiKeys, row.id = id

section Invariant

variable {store store' : KeyStore} {row row' : ApiKey}

theorem keyInv_empty : KeyInv KeyStore.empty where
  ids := List.nodup_nil
  publicIds := List.nodup_nil
  storable := by simp [KeyStore.empty]
  checks := by simp [KeyStore.empty]
  publicIdentifiers := by simp [KeyStore.empty]
  capabilities := by simp [KeyStore.empty]
  knowledgeBaseScopes := by simp [KeyStore.empty]
  queryProfileScopes := by simp [KeyStore.empty]
  profiles := fun keyId => ⟨∅, none, by simp, by simp [scopeRows, KeyStore.queryProfileRows, KeyStore.empty]⟩
  revisions := by simp [KeyStore.empty]
  targets := by simp [KeyStore.empty, KeyStore.auditTargets]

/-- The query profiles of a key after a write to some key. -/
theorem QpScopesAfter.rows {scopes : List QueryProfileScope} (h : QpScopesAfter store row scopes) (keyId : ℕ) :
    scopes.filter (fun scope => decide (scope.apiKeyId = keyId)) = store.queryProfileRows keyId ∨
      keyId = row.id ∧ ∃ ids : Finset ℕ, ∃ defaultId : Option ℕ, (∀ id ∈ defaultId, id ∈ ids) ∧
        scopes.filter (fun scope => decide (scope.apiKeyId = keyId)) = scopeRows keyId ids defaultId := by
  rcases h with rfl | ⟨-, ids, defaultId, hdefault, rfl⟩
  · exact .inl rfl
  · have hsplit : (store.replaceQueryProfileScopes row.id ids defaultId).queryProfileScopes =
        store.queryProfileScopes.filter (fun scope => decide (scope.apiKeyId ≠ row.id))
          ++ scopeRows row.id ids defaultId := rfl
    rw [hsplit, List.filter_append, List.filter_filter]
    by_cases hkey : keyId = row.id
    · subst hkey
      refine .inr ⟨rfl, ids, defaultId, hdefault, ?_⟩
      have hold : store.queryProfileScopes.filter (fun scope =>
          decide (scope.apiKeyId = row.id) && decide (scope.apiKeyId ≠ row.id)) = [] := by
        simp
      rw [hold, List.nil_append, List.filter_eq_self]
      intro scope hscope
      obtain ⟨identifier, -, rfl⟩ := List.mem_map.mp hscope
      exact decide_eq_true rfl
    · refine .inl ?_
      have hnew : (scopeRows row.id ids defaultId).filter (fun scope => decide (scope.apiKeyId = keyId)) = [] := by
        rw [List.filter_eq_nil_iff]
        intro scope hscope
        obtain ⟨identifier, -, rfl⟩ := List.mem_map.mp hscope
        simpa using fun h => hkey h.symm
      rw [hnew, List.append_nil, KeyStore.queryProfileRows]
      refine List.filter_congr ?_
      intro scope _
      by_cases hscope : scope.apiKeyId = keyId
      · simp [hscope, hkey]
      · simp [hscope]

theorem QpScopesAfter.mem {scopes : List QueryProfileScope} (h : QpScopesAfter store row scopes)
    {scope : QueryProfileScope} (hscope : scope ∈ scopes) : scope ∈ store.queryProfileScopes ∨
      row.keyType = .agent ∧ scope.apiKeyId = row.id := by
  rcases h with rfl | ⟨hagent, ids, defaultId, -, rfl⟩
  · exact .inl hscope
  · rcases List.mem_append.mp hscope with hold | hnew
    · exact .inl (List.mem_of_mem_filter hold)
    · obtain ⟨identifier, -, rfl⟩ := List.mem_map.mp hnew
      exact .inr ⟨hagent, rfl⟩

theorem KbScopesAfter.mem {scopes : List (ℕ × ℕ)} (h : KbScopesAfter store row scopes) {scope : ℕ × ℕ}
    (hscope : scope ∈ scopes) : scope ∈ store.knowledgeBaseScopes ∨ scope.1 = row.id := by
  rcases h with rfl | ⟨-, ids, rfl⟩
  · exact .inl hscope
  · rcases List.mem_append.mp hscope with hold | hnew
    · exact .inl (List.mem_of_mem_filter hold)
    · obtain ⟨identifier, -, rfl⟩ := List.mem_map.mp hnew
      exact .inr rfl

theorem KeyInv.profiles_after {scopes : List QueryProfileScope} (hinv : KeyInv store)
    (h : QpScopesAfter store row scopes) (keyId : ℕ) : ∃ ids : Finset ℕ, ∃ defaultId : Option ℕ,
      (∀ id ∈ defaultId, id ∈ ids) ∧
        scopes.filter (fun scope => decide (scope.apiKeyId = keyId)) = scopeRows keyId ids defaultId := by
  rcases h.rows keyId with hsame | ⟨-, hreplaced⟩
  · rw [hsame]
    exact hinv.profiles keyId
  · exact hreplaced

/-- The creation of a key in the log. -/
theorem count_recorded (row : ApiKey) :
    (if row.isLocal then [] else [row.id]).count row.id + row.unrecorded = 1 := by
  rw [ApiKey.unrecorded]
  split
  · rfl
  · rw [List.count_singleton_self]

theorem count_recorded_of_ne {id : ℕ} (h : row.id ≠ id) :
    (if row.isLocal then [] else [row.id]).count id = 0 := by
  split
  · rfl
  · rw [List.count_singleton', if_neg h]

theorem KeyInv.created (hinv : KeyInv store) (h : CreatedKey store row store') : KeyInv store' := by
  have hmem {key : ApiKey} : key ∈ store'.apiKeys ↔ key ∈ store.apiKeys ∨ key = row := by
    rw [h.apiKeys, List.mem_append, List.mem_singleton]
  have hkept {id : ℕ} {kind : KeyKind} (hold : ∃ key ∈ store.apiKeys, key.id = id ∧ key.keyType = kind) :
      ∃ key ∈ store'.apiKeys, key.id = id ∧ key.keyType = kind := by
    obtain ⟨key, hkey, hid⟩ := hold
    exact ⟨key, hmem.mpr (.inl hkey), hid⟩
  refine ⟨?_, ?_, ?_, ?_, ?_, ?_, ?_, ?_, hinv.profiles_after h.queryProfileScopes, ?_, ?_⟩
  · rw [h.apiKeys]
    exact nodup_map_append hinv.ids fun key hkey => (h.fresh key hkey).1
  · rw [h.apiKeys]
    exact nodup_map_append hinv.publicIds fun key hkey => (h.fresh key hkey).2
  · intro key hkey
    rcases hmem.mp hkey with hold | rfl
    · exact hinv.storable key hold
    · exact h.storable
  · intro key hkey
    rcases hmem.mp hkey with hold | rfl
    · exact hinv.checks key hold
    · exact h.checks
  · intro key hkey
    rcases hmem.mp hkey with hold | rfl
    · exact hinv.publicIdentifiers key hold
    · exact h.publicId
  · intro key hkey
    rcases hmem.mp hkey with hold | rfl
    · exact hinv.capabilities key hold
    · exact h.capabilities
  · intro scope hscope
    rcases h.knowledgeBaseScopes.mem hscope with hold | hid
    · obtain ⟨key, hkey, hkeyId⟩ := hinv.knowledgeBaseScopes scope hold
      exact ⟨key, hmem.mpr (.inl hkey), hkeyId⟩
    · exact ⟨row, hmem.mpr (.inr rfl), hid.symm⟩
  · intro scope hscope
    rcases h.queryProfileScopes.mem hscope with hold | ⟨hagent, hid⟩
    · exact hkept (hinv.queryProfileScopes scope hold)
    · exact ⟨row, hmem.mpr (.inr rfl), hid.symm, hagent⟩
  · intro key hkey
    rw [h.audits, List.count_append]
    rcases hmem.mp hkey with hold | rfl
    · rw [count_recorded_of_ne (h.fresh key hold).1.symm, Nat.add_zero, hinv.revisions key hold]
    · -- the log has nothing of a key that was not there
      have hnone : key.id ∉ store.auditTargets := by
        intro htarget
        obtain ⟨old, hold, hid⟩ := hinv.targets key.id htarget
        exact (h.fresh old hold).1 hid
      rw [List.count_eq_zero.mpr hnone, h.revision, Nat.zero_add, count_recorded]
  · intro id hid
    rw [h.audits] at hid
    rcases List.mem_append.mp hid with hold | hnew
    · obtain ⟨key, hkey, hkeyId⟩ := hinv.targets id hold
      exact ⟨key, hmem.mpr (.inl hkey), hkeyId⟩
    · refine ⟨row, hmem.mpr (.inr rfl), ?_⟩
      split at hnew
      · cases hnew
      · exact (List.mem_singleton.mp hnew).symm

/-- The keys after a write. -/
theorem WrittenKey.mem_cases (h : WrittenKey store row row' store')
    {key : ApiKey} (hkey : key ∈ store'.apiKeys) : key = row' ∨ key ∈ store.apiKeys ∧ key.id ≠ row.id := by
  rw [h.apiKeys] at hkey
  rcases mem_setRow hkey with rfl | ⟨hmem, hne⟩
  · exact .inl rfl
  · exact .inr ⟨hmem, by rwa [h.same.id] at hne⟩

theorem WrittenKey.mem_after (h : WrittenKey store row row' store') : row' ∈ store'.apiKeys := by
  rw [h.apiKeys]
  exact mem_setRow_self h.mem h.same.id.symm

theorem WrittenKey.mem_of_ne (h : WrittenKey store row row' store') {key : ApiKey}
    (hkey : key ∈ store.apiKeys) (hne : key.id ≠ row.id) : key ∈ store'.apiKeys := by
  rw [h.apiKeys]
  exact mem_setRow_of_ne hkey (by rwa [h.same.id])

theorem KeyInv.written (hinv : KeyInv store) (h : WrittenKey store row row' store') : KeyInv store' := by
  have hkept {id : ℕ} {kind : KeyKind} (hold : ∃ key ∈ store.apiKeys, key.id = id ∧ key.keyType = kind) :
      ∃ key ∈ store'.apiKeys, key.id = id ∧ key.keyType = kind := by
    obtain ⟨key, hkey, rfl, rfl⟩ := hold
    by_cases heq : key.id = row.id
    · obtain rfl := row_unique hinv.ids hkey h.mem heq
      exact ⟨row', h.mem_after, h.same.id, h.same.keyType⟩
    · exact ⟨key, h.mem_of_ne hkey heq, rfl, rfl⟩
  refine ⟨?_, ?_, ?_, ?_, ?_, ?_, ?_, ?_, hinv.profiles_after h.queryProfileScopes, ?_, ?_⟩
  · rw [h.apiKeys]
    exact nodup_setRow hinv.ids row'
  · rw [h.apiKeys, map_setRow_column hinv.ids h.mem h.same.id h.same.publicId]
    exact hinv.publicIds
  · intro key hkey
    rcases h.mem_cases hkey with rfl | ⟨hold, -⟩
    · exact h.storable
    · exact hinv.storable key hold
  · intro key hkey
    rcases h.mem_cases hkey with rfl | ⟨hold, -⟩
    · exact h.checks
    · exact hinv.checks key hold
  · intro key hkey
    rcases h.mem_cases hkey with rfl | ⟨hold, -⟩
    · rw [h.same.publicId]
      exact hinv.publicIdentifiers row h.mem
    · exact hinv.publicIdentifiers key hold
  · intro key hkey
    rcases h.mem_cases hkey with rfl | ⟨hold, -⟩
    · rcases h.capabilities with heq | hset
      · rw [heq]
        exact hinv.capabilities row h.mem
      · exact hset
    · exact hinv.capabilities key hold
  · intro scope hscope
    rcases h.knowledgeBaseScopes.mem hscope with hold | hid
    · obtain ⟨key, hkey, hkeyId⟩ := hinv.knowledgeBaseScopes scope hold
      obtain ⟨key', hkey', hid', -⟩ := hkept ⟨key, hkey, hkeyId, rfl⟩
      exact ⟨key', hkey', hid'⟩
    · exact ⟨row', h.mem_after, hid.symm⟩
  · intro scope hscope
    rcases h.queryProfileScopes.mem hscope with hold | ⟨hagent, hid⟩
    · exact hkept (hinv.queryProfileScopes scope hold)
    · exact ⟨row', h.mem_after, hid.symm, hagent⟩
  · intro key hkey
    rw [h.audits, List.count_append, List.count_singleton']
    rcases h.mem_cases hkey with rfl | ⟨hold, hne⟩
    · rw [h.same.id, if_pos rfl, h.revision, hinv.revisions row h.mem, h.same.unrecorded]
      omega
    · rw [if_neg hne.symm, hinv.revisions key hold, Nat.add_zero]
  · intro id hid
    rw [h.audits] at hid
    have hrow : ∃ key ∈ store.apiKeys, key.id = id := by
      rcases List.mem_append.mp hid with hold | hnew
      · exact hinv.targets id hold
      · exact ⟨row, h.mem, (List.mem_singleton.mp hnew).symm⟩
    obtain ⟨key, hkey, hkeyId⟩ := hrow
    obtain ⟨key', hkey', hid', -⟩ := hkept ⟨key, hkey, hkeyId, rfl⟩
    exact ⟨key', hkey', hid'⟩

/-- **A change keeps the tables in order.** -/
theorem KeyInv.step (hinv : KeyInv store) (h : KeyChange store store') : KeyInv store' := by
  cases h with
  | idle => exact hinv
  | created row _ hcreated => exact hinv.created hcreated
  | written row row' _ hwritten => exact hinv.written hwritten
  | rescoped scopes keys =>
      refine { hinv with knowledgeBaseScopes := ?_ }
      intro scope hscope
      rcases keys scope hscope with hold | hkey
      · exact hinv.knowledgeBaseScopes scope hold
      · exact hkey

end Invariant

/-! ## What becomes of a key -/

/-- A key and what it has become: a row of the same revision is the same row, and a revoked key is
never written again. -/
structure KeyFollows (store : KeyStore) (row : ApiKey) (store' : KeyStore) (row' : ApiKey) : Prop where
  mem : row' ∈ store'.apiKeys
  same : SameKey row row'
  revision : row.resourceRevision ≤ row'.resourceRevision
  unchanged : row'.resourceRevision = row.resourceRevision →
    row' = row ∧ store'.queryProfileRows row.id = store.queryProfileRows row.id
  revoked : row.status = .revoked → row' = row

section Follows

variable {hmac : Bytes → Bytes → Digest} {settings : KeySettings} {store store' store'' : KeyStore}
  {row row' row'' : ApiKey}

theorem SameKey.refl (row : ApiKey) : SameKey row row := ⟨rfl, rfl, rfl, rfl, rfl, rfl⟩

theorem SameKey.trans (h : SameKey row row') (h' : SameKey row' row'') : SameKey row row'' :=
  ⟨h'.id.trans h.id, h'.publicId.trans h.publicId, h'.secretDigest.trans h.secretDigest,
    h'.keyType.trans h.keyType, h'.createdByApiKeyId.trans h.createdByApiKeyId,
    h'.createdAt.trans h.createdAt⟩

theorem KeyFollows.of_mem (hmem : row ∈ store'.apiKeys)
    (hprofiles : store'.queryProfileRows row.id = store.queryProfileRows row.id) :
    KeyFollows store row store' row :=
  ⟨hmem, .refl row, le_rfl, fun _ => ⟨rfl, hprofiles⟩, fun _ => rfl⟩

theorem KeyFollows.trans (h : KeyFollows store row store' row') (h' : KeyFollows store' row' store'' row'') :
    KeyFollows store row store'' row'' := by
  refine ⟨h'.mem, h.same.trans h'.same, h.revision.trans h'.revision, ?_, ?_⟩
  · intro hrevision
    have hfirst : row'.resourceRevision = row.resourceRevision :=
      le_antisymm (h'.revision.trans hrevision.le) h.revision
    obtain ⟨rfl, hprofiles⟩ := h.unchanged hfirst
    obtain ⟨rfl, hprofiles'⟩ := h'.unchanged hrevision
    exact ⟨rfl, hprofiles'.trans hprofiles⟩
  · intro hrevoked
    obtain rfl := h.revoked hrevoked
    exact h'.revoked hrevoked

/-- **A change and a key that is there.** -/
theorem KeyInv.follows (hinv : KeyInv store) (hrow : row ∈ store.apiKeys) (h : KeyChange store store') :
    ∃ row', KeyFollows store row store' row' := by
  have hother {scopes : List QueryProfileScope} {key : ApiKey} (hne : row.id ≠ key.id)
      (hscopes : QpScopesAfter store key scopes) :
      scopes.filter (fun scope => decide (scope.apiKeyId = row.id)) = store.queryProfileRows row.id := by
    rcases hscopes.rows row.id with hsame | ⟨heq, -⟩
    · exact hsame
    · exact absurd heq hne
  cases h with
  | idle => exact ⟨row, .of_mem hrow rfl⟩
  | rescoped scopes keys => exact ⟨row, .of_mem hrow rfl⟩
  | created key _ hcreated =>
      refine ⟨row, .of_mem ?_ (hother (hcreated.fresh row hrow).1 hcreated.queryProfileScopes)⟩
      rw [hcreated.apiKeys]
      exact List.mem_append_left _ hrow
  | written key key' _ hwritten =>
      by_cases heq : row.id = key.id
      · obtain rfl := row_unique hinv.ids hrow hwritten.mem heq
        have hlt := hwritten.revision
        exact ⟨key', hwritten.mem_after, hwritten.same, by omega, fun hsame => by omega,
          fun hrevoked => absurd hrevoked hwritten.unrevoked⟩
      · refine ⟨row, .of_mem (hwritten.mem_of_ne hrow heq) (hother ?_ hwritten.queryProfileScopes)⟩
        rwa [hwritten.same.id]

/-- A run is a sequence of changes. -/
theorem keyChanges_of_run (h : Relation.ReflTransGen (KeyStep hmac settings) store store') :
    Relation.ReflTransGen KeyChange store store' := by
  refine Relation.reflTransGen_closed ?_ _ _ h
  intro before after hstep
  obtain ⟨op, hop⟩ := hstep
  exact keyChanges_of_apply hop

theorem KeyInv.changes (hinv : KeyInv store) (h : Relation.ReflTransGen KeyChange store store') :
    KeyInv store' := by
  induction h with
  | refl => exact hinv
  | tail _ hchange ih => exact ih.step hchange

theorem KeyInv.run (hinv : KeyInv store) (h : Relation.ReflTransGen (KeyStep hmac settings) store store') :
    KeyInv store' :=
  hinv.changes (keyChanges_of_run h)

theorem keyInv_of_reachable (h : KeyReachable hmac settings store) : KeyInv store := KeyInv.run keyInv_empty h

theorem KeyInv.follows_changes (hinv : KeyInv store) (hrow : row ∈ store.apiKeys)
    (h : Relation.ReflTransGen KeyChange store store') : ∃ row', KeyFollows store row store' row' := by
  induction h with
  | refl => exact ⟨row, .of_mem hrow rfl⟩
  | tail hrun hchange ih =>
      obtain ⟨row', hfollows⟩ := ih
      obtain ⟨row'', hnext⟩ := (hinv.changes hrun).follows hfollows.mem hchange
      exact ⟨row'', hfollows.trans hnext⟩

theorem KeyInv.follows_run (hinv : KeyInv store) (hrow : row ∈ store.apiKeys)
    (h : Relation.ReflTransGen (KeyStep hmac settings) store store') :
    ∃ row', KeyFollows store row store' row' :=
  hinv.follows_changes hrow (keyChanges_of_run h)

/-- **The life of a key**: it is never gone, nor is its token ever that of another key; its revision
grows with every write, which the log records, except that a local actor was added, so that a row of
one revision is the same row with the same query profiles; and once it is revoked nothing of it
changes. -/
theorem key_lifecycle (h : KeyReachable hmac settings store) (hrow : row ∈ store.apiKeys)
    (hrun : Relation.ReflTransGen (KeyStep hmac settings) store store') :
    ∃ row', KeyFollows store row store' row' ∧
      row'.resourceRevision = store'.auditTargets.count row.id + row.unrecorded ∧
      ∀ key ∈ store'.apiKeys, key.id = row.id ∨ key.publicId = row.publicId → key = row' := by
  have hinv := keyInv_of_reachable h
  have hinv' := hinv.run hrun
  obtain ⟨row', hfollows⟩ := hinv.follows_run hrow hrun
  refine ⟨row', hfollows, ?_, ?_⟩
  · rw [hinv'.revisions row' hfollows.mem, hfollows.same.id, hfollows.same.unrecorded]
  · rintro key hkey (hid | hpublic)
    · exact row_unique hinv'.ids hkey hfollows.mem (hid.trans hfollows.same.id.symm)
    · exact row_unique hinv'.publicIds hkey hfollows.mem (hpublic.trans hfollows.same.publicId.symm)

/-! ## Etags -/

theorem agentKeyEtag_injective {id revision revision' : ℕ} {etag : Str}
    (h : agentKeyEtag id revision = .ok etag) (h' : agentKeyEtag id revision' = .ok etag) :
    revision = revision' := by
  rw [agentKeyEtag] at h h'
  split at h
  · cases h
  · split at h'
    · cases h'
    · have heq := (Except.ok.inj h).trans (Except.ok.inj h').symm
      simp only [List.append_assoc, List.append_cancel_left_eq, List.append_cancel_right_eq] at heq
      have hread := congrArg (Nat.ofDigitChars 10 · 0) heq
      simpa only [Nat.ofDigitChars_ten_toDigits] using hread

/-- A write that was sent with this etag. -/
def WritesUnder (settings : KeySettings) (keyId : ℕ) (etag : Str) (store store' : KeyStore) : Prop :=
  (∃ rows now command actor requestId safe,
    updateAgentKey settings rows now keyId command actor requestId etag store = .ok (safe, store')) ∨
  ∃ now actor requestId safe,
    revokeAgentKey settings now keyId actor requestId (some etag) store = .ok (safe, store')

/-- What was written under an etag was the row of that etag. -/
theorem WritesUnder.target {keyId : ℕ} {etag : Str} (h : WritesUnder settings keyId etag store store') :
    ∃ row ∈ store.apiKeys, row.id = keyId ∧ agentKeyEtag row.id row.resourceRevision = .ok etag ∧
      (store' = store ∨ ∃ row', WrittenKey store row row' store') := by
  rcases h with ⟨rows, now, command, actor, requestId, safe, h⟩ | ⟨now, actor, requestId, safe, h⟩
  · obtain ⟨row, row', hwritten, hid, -, hetag⟩ := updateAgentKey_eq_ok h
    exact ⟨row, hwritten.mem, hid, hetag, .inr ⟨row', hwritten⟩⟩
  · obtain ⟨row, hmem, hid, -, hetag, ⟨-, rfl⟩ | ⟨actorId, hwritten⟩⟩ := revokeAgentKey_eq_ok h
    · exact ⟨row, hmem, hid, hetag etag rfl, .inl rfl⟩
    · exact ⟨row, hmem, hid, hetag etag rfl, .inr ⟨_, hwritten⟩⟩

/-- **No update is lost**: after a write under an etag that has changed the tables, no request that is
sent with the same etag ever commits, whatever happens in between. -/
theorem etag_writes_once (h : KeyReachable hmac settings store) {keyId : ℕ} {etag : Str}
    (hfirst : WritesUnder settings keyId etag store store') (hchanged : store' ≠ store)
    (hrun : Relation.ReflTransGen (KeyStep hmac settings) store' store'') (last : KeyStore) :
    ¬ WritesUnder settings keyId etag store'' last := by
  intro hsecond
  have hinv := keyInv_of_reachable h
  obtain ⟨row, hmem, hid, hetag, hsame | ⟨row', hwritten⟩⟩ := hfirst.target
  · exact hchanged hsame
  · have hinv' := hinv.written hwritten
    obtain ⟨later, hlater⟩ := hinv'.follows_run hwritten.mem_after hrun
    obtain ⟨key, hkey, hkeyId, hkeyEtag, -⟩ := hsecond.target
    have hlaterId : later.id = row.id := hlater.same.id.trans hwritten.same.id
    obtain rfl : key = later :=
      row_unique (hinv'.run hrun).ids hkey hlater.mem ((hkeyId.trans hid.symm).trans hlaterId.symm)
    rw [hlaterId] at hkeyEtag
    have hrevision := agentKeyEtag_injective hetag hkeyEtag
    have hgrown := hlater.revision
    have hone := hwritten.revision
    omega

end Follows

/-! ## A run -/

namespace KeySample

def hmac (_ _ : Bytes) : Digest := ⟨List.replicate 32 0, List.length_replicate⟩

theorem requestIdLength : RequestProtocol.generatedRequestIdLength ≤ 128 ∧
    (128 : ℤ) ≤ RequestProtocol.maxHeaderValueLength := by
  decide

def settings : KeySettings where
  maxApiKeyRequestsPerMinute := 10000
  maxApiKeyConcurrency := 1000
  maxRequestIdLength := 128
  adminKeyHmacSecret := "admin".toList
  agentKeyHmacSecret := "agent".toList
  localTrustedAuth := true
  requestIdLength := requestIdLength

/-- What a creation draws: the same bytes for every key. -/
def drawn : Drawn :=
  ⟨7, ⟨List.replicate 16 0, List.length_replicate⟩, ⟨List.replicate 32 0, List.length_replicate⟩, 5⟩

def referenced : ReferencedRows := ⟨fun _ => some .active, fun _ => some true⟩

theorem agentName : 1 ≤ "agent".toList.length ∧ "agent".toList.length ≤ 120 := by decide

def agentCommand : AgentApiKeyCreate where
  name := ⟨"agent".toList, agentName⟩
  capabilities := {.retrieve}
  knowledgeBaseIds := {1}
  queryProfileIds := {3}
  defaultQueryProfileId := some 3
  rawFileRead := false
  requestsPerMinute := 60
  maxConcurrency := 2
  notBefore := none
  expiresAt := none

/-- The key is allowed less. -/
def narrowing : AgentApiKeyUpdate where
  name := none
  status := none
  capabilities := none
  knowledgeBaseIds := none
  queryProfileIds := none
  defaultQueryProfileId := none
  rawFileRead := none
  requestsPerMinute := some (some 30)
  maxConcurrency := none
  notBefore := none
  expiresAt := none

/-- The etag of the new key. -/
def firstEtag : Str := "\"agent-key:00000000-0000-0000-0000-000000000007:r1\"".toList

def creation : KeyOp := .createAgent referenced 5 agentCommand none "request".toList drawn

/-- A request without a token, while there is one knowledge base. -/
def trusted : KeyOp := .withoutToken .agent {1} (fun _ => hmac [] []) 6

def narrowed : KeyOp := .updateAgent referenced 6 7 narrowing none "request".toList firstEtag

/-- The tables after an operation, or before it if it is refused. -/
def after (op : KeyOp) (store : KeyStore) : KeyStore := (op.apply hmac settings store).toOption.getD store

def created : KeyStore := after creation KeyStore.empty

def shared : KeyStore := after trusted created

def updated : KeyStore := after narrowed shared

theorem creation_ok : creation.apply hmac settings KeyStore.empty = .ok created := by decide +kernel

theorem trusted_ok : trusted.apply hmac settings created = .ok shared := by decide +kernel

theorem narrowed_ok : narrowed.apply hmac settings shared = .ok updated := by decide +kernel

theorem reachable_created : KeyReachable hmac settings created := .single ⟨creation, creation_ok⟩

theorem reachable_shared : KeyReachable hmac settings shared := reachable_created.tail ⟨trusted, trusted_ok⟩

theorem run_updated : Relation.ReflTransGen (KeyStep hmac settings) created updated :=
  .head ⟨trusted, trusted_ok⟩ (.single ⟨narrowed, narrowed_ok⟩)

end KeySample

/-- The key of an agent is narrowed after a request without a token has added the local actors. -/
theorem key_lifecycle_updated : ∃ row ∈ KeySample.created.apiKeys, row.resourceRevision = 1 ∧
    ∃ row', KeyFollows KeySample.created row KeySample.updated row' ∧
      row'.resourceRevision = KeySample.updated.auditTargets.count row.id + row.unrecorded := by
  have hrow : ∃ row ∈ KeySample.created.apiKeys, row.resourceRevision = 1 := by decide +kernel
  obtain ⟨row, hmem, hrevision⟩ := hrow
  obtain ⟨row', hfollows, hcount, -⟩ := key_lifecycle KeySample.reachable_created hmem KeySample.run_updated
  exact ⟨row, hmem, hrevision, row', hfollows, hcount⟩

theorem etag_writes_once_updated :
    ¬ WritesUnder KeySample.settings 7 KeySample.firstEtag KeySample.updated KeySample.updated := by
  obtain ⟨safe, h⟩ := map_snd_eq_ok KeySample.narrowed_ok
  exact etag_writes_once KeySample.reachable_shared (.inl ⟨_, _, _, _, _, safe, h⟩) (by decide +kernel) .refl _

end VeloxRag.Auth
