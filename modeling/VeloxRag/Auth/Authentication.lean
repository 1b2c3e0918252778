import VeloxRag.Auth.KeyRuns

/-!
# Authentication

A token is accepted exactly while the key that it names is active, and what a request is then allowed
is what the rows of the key say.  No state that requests reach makes the service fail on its own rows.

## Main definitions

* `principalOf` — what the rows of a key allow.
* `authenticate_accepts` — when a token is accepted.
* `issued_token_authenticates` — the life of the token of a new key.
* `no_internal_error` — the requests are answered, or refused for a reason of their own.
-/

namespace VeloxRag.Auth

open Lib
open Api (BusinessError KeyKind)
open Jobs (bind_eq_ok guard_eq_ok pure_ok_iff check_eq_ok)
open Retrieval (Capability)

/-! ## Principals -/

/-- **What the rows of a key allow.** -/
def principalOf (store : KeyStore) (row : ApiKey) : Principal :=
  match row.keyType with
  | .admin => .admin ⟨row.id, row.publicId⟩
  | .agent =>
      let (queryProfileIds, defaultQueryProfileId) := store.getQueryProfileScopes row.id
      .agent ⟨row.id, row.publicId,
        ({.ingest, .retrieve, .answer, .manage} : Finset Capability).filter
          (fun c => capabilityValue c ∈ row.capabilities),
        store.getKnowledgeBaseScopes row.id, queryProfileIds, defaultQueryProfileId, row.rawFileRead,
        row.requestsPerMinute.getD 0, row.maxConcurrency.getD 0⟩

theorem isCanonicalPublicId_encodeComponent {bytes : Bytes}
    (h : 16 ≤ (encodeComponent bytes).length ∧ (encodeComponent bytes).length ≤ 64) :
    isCanonicalPublicId (encodeComponent bytes) = true := by
  have hletters : (encodeComponent bytes).all (· ∈ Base64.alphabet) = true := by
    rw [List.all_eq_true]
    intro c hc
    exact decide_eq_true (Base64.mem_alphabet_of_mem_encode hc)
  have hdecode : Base64.decode? (encodeComponent bytes) = some bytes := Base64.decode?_encode bytes
  rw [isCanonicalPublicId, decide_eq_true h, hletters, hdecode]
  simp [encodeComponent]

/-- The scope that was written is the scope that is read. -/
theorem getQueryProfileScopes_of_rows {store : KeyStore} {keyId : ℕ} {ids : Finset ℕ} {defaultId : Option ℕ}
    (hdefault : ∀ id ∈ defaultId, id ∈ ids) (h : store.queryProfileRows keyId = scopeRows keyId ids defaultId) :
    store.getQueryProfileScopes keyId = (ids, defaultId) := by
  have hmap : (scopeRows keyId ids defaultId).map (·.queryProfileId) = ids.sort := by
    rw [scopeRows, List.map_map]
    exact List.map_id _
  have hdefaults : ((scopeRows keyId ids defaultId).filter (·.isDefault)).map (·.queryProfileId)
      = ids.sort.filter (fun id => decide (some id = defaultId)) := by
    rw [scopeRows, List.filter_map, List.map_map]
    exact List.map_id _
  rw [KeyStore.getQueryProfileScopes, h]
  simp only [hmap, hdefaults, Finset.sort_toFinset]
  cases defaultId with
  | none => simp
  | some d =>
      have hone : ids.sort.filter (fun id => decide (some id = some d)) = [d] := by
        have heq : (fun id => decide (some id = some d)) = fun id => decide (id = d) := by
          funext id
          simp
        rw [heq, List.filter_eq, List.count_eq_one_of_mem (Finset.sort_nodup _ _)
          ((Finset.mem_sort _).mpr (hdefault d rfl))]
        rfl
      rw [hone]

/-- What the constraints of the table ask of a row. -/
structure ApiKey.Valid (row : ApiKey) : Prop where
  publicId : 16 ≤ row.publicId.length ∧ row.publicId.length ≤ 64
  secretDigest : row.secretDigest.length = 32
  name : 1 ≤ row.name.length ∧ row.name.length ≤ 120
  length : row.capabilities.length ≤ 4
  known : ∀ c ∈ row.capabilities, (capability? c).isSome = true
  window : validWindow row.notBefore row.expiresAt = true
  admin : row.keyType = .admin → row.capabilities = [] ∧ row.rawFileRead = false ∧
    row.requestsPerMinute = none ∧ row.maxConcurrency = none
  agent : row.keyType = .agent → (∃ n, row.requestsPerMinute = some n ∧ 1 ≤ n ∧ n ≤ 10000) ∧
    ∃ n, row.maxConcurrency = some n ∧ 1 ≤ n ∧ n ≤ 1000
  revision : 1 ≤ row.resourceRevision
  revocation : row.status = .revoked ↔ row.revokedAt.isSome = true

theorem ApiKey.checks_iff {row : ApiKey} : row.checks = true ↔ row.Valid := by
  simp only [checks, Bool.and_eq_true, Bool.or_eq_true, decide_eq_true_eq, Bool.not_eq_true',
    Option.any_eq_true, List.all_eq_true]
  constructor
  · intro h
    exact ⟨by tauto, by tauto, by tauto, by tauto, by tauto, by tauto, by tauto, by tauto, by tauto, by tauto⟩
  · rintro ⟨h₁, h₂, h₃, h₄, h₅, h₆, h₇, h₈, h₉, h₁₀⟩
    tauto

section Principals

variable {store : KeyStore} {row : ApiKey}

theorem filter_mem_map_capabilityValue (capabilities : List Capability) :
    ({.ingest, .retrieve, .answer, .manage} : Finset Capability).filter
      (fun c => capabilityValue c ∈ capabilities.map capabilityValue) = capabilities.toFinset := by
  ext c
  have hall : c ∈ ({.ingest, .retrieve, .answer, .manage} : Finset Capability) := by
    cases c <;> decide
  rw [Finset.mem_filter, List.mem_map_of_injective capabilityValue_injective, List.mem_toFinset]
  exact and_iff_right hall

/-- A row that a token can name makes a principal. -/
theorem KeyInv.materialize_agent (hinv : KeyInv store) (hrow : row ∈ store.apiKeys)
    (htype : row.keyType = .agent) (hcanonical : isCanonicalPublicId row.publicId = true) :
    materializePrincipal row (store.getKnowledgeBaseScopes row.id) (store.getQueryProfileScopes row.id).1
      (store.getQueryProfileScopes row.id).2 = .ok (principalOf store row) := by
  have hvalid := (ApiKey.checks_iff).mp (hinv.checks row hrow)
  obtain ⟨capabilities, hdistinct, hcapabilities⟩ := hinv.capabilities row hrow
  obtain ⟨⟨rpm, hrpm, hrpmRange⟩, conc, hconc, hconcRange⟩ := hvalid.agent htype
  obtain ⟨ids, defaultId, hdefault, hrows⟩ := hinv.profiles row.id
  have hscopes := getQueryProfileScopes_of_rows hdefault hrows
  have hnodup : row.capabilities.Nodup := hcapabilities ▸ hdistinct.map capabilityValue_injective
  have hlength : ¬ 4 < row.capabilities.length := not_lt.mpr hvalid.length
  have hread : row.capabilities.mapM capability? = some capabilities := by
    rw [hcapabilities, mapM_capability?]
  have hin : ¬ defaultId.any (fun id => decide (id ∉ ids)) = true := by
    simp only [Option.any_eq_true, decide_eq_true_eq, not_exists, not_and, not_not]
    exact fun id hid => hdefault id hid
  have hgranted : ({.ingest, .retrieve, .answer, .manage} : Finset Capability).filter
      (fun c => capabilityValue c ∈ row.capabilities) = capabilities.toFinset := by
    rw [hcapabilities, filter_mem_map_capabilityValue]
  have hprincipal : materializePrincipal? row (store.getKnowledgeBaseScopes row.id) ids defaultId =
      some (principalOf store row) := by
    simp only [materializePrincipal?, hcanonical, htype, hread, hrpm, hconc, principalOf, hscopes,
      hlength, hnodup, not_true_eq_false, or_self, hrpmRange, hconcRange, and_self, hin,
      Option.bind_eq_bind, Option.bind_some, if_false, hgranted,
      Option.getD_some, Bool.true_eq_false]
    exact if_neg Bool.false_ne_true
  rw [hscopes, materializePrincipal, hprincipal]

theorem KeyInv.materialize_admin (hinv : KeyInv store) (hrow : row ∈ store.apiKeys)
    (htype : row.keyType = .admin) (hcanonical : isCanonicalPublicId row.publicId = true) :
    materializePrincipal row ∅ ∅ none = .ok (principalOf store row) := by
  have hvalid := (ApiKey.checks_iff).mp (hinv.checks row hrow)
  obtain ⟨hcapabilities, hraw, hrpm, hconc⟩ := hvalid.admin htype
  simp [materializePrincipal, materializePrincipal?, principalOf, hcanonical, htype, hcapabilities, hraw,
    hrpm, hconc]

/-! ## Tokens -/

theorem KeyInv.getByPublicId (hinv : KeyInv store) {kind : KeyKind} {publicId : Str} :
    store.getByPublicId kind publicId = some row ↔
      row ∈ store.apiKeys ∧ row.keyType = kind ∧ row.publicId = publicId := by
  constructor
  · intro h
    have hp := List.find?_some h
    simp only [Bool.and_eq_true, decide_eq_true_eq] at hp
    exact ⟨List.mem_of_find?_eq_some h, hp⟩
  · rintro ⟨hmem, htype, hpublic⟩
    cases hfind : store.getByPublicId kind publicId with
    | none =>
        have hnone := List.find?_eq_none.mp hfind row hmem
        simp [htype, hpublic] at hnone
    | some other =>
        have hp := List.find?_some hfind
        simp only [Bool.and_eq_true, decide_eq_true_eq] at hp
        rw [row_unique hinv.publicIds (List.mem_of_find?_eq_some hfind) hmem (hp.2.trans hpublic.symm)]

variable {hmac : Bytes → Bytes → Digest} {settings : KeySettings} {now : ℕ} {raw : Str} {kind : KeyKind}
  {token : ParsedToken}

/-- The answer to a token whose key is there. -/
theorem KeyInv.authenticate_row (hinv : KeyInv store) (hparse : parseToken raw kind = .ok token)
    (hrow : row ∈ store.apiKeys) (htype : row.keyType = kind) (hpublic : row.publicId = token.publicId) :
    authenticate hmac settings now raw kind store =
      if verifySecret hmac token.secret row.secretDigest (settings.hmacSecret kind) = true ∧
          isCurrentlyActive row now = true then .ok (principalOf store row)
      else .error invalidApiKeyError := by
  have hfound := hinv.getByPublicId.mpr ⟨hrow, htype, hpublic⟩
  obtain ⟨-, -, htoken⟩ := parseToken_eq_ok.mp hparse
  have hcanonical : isCanonicalPublicId row.publicId = true := by
    obtain ⟨bytes, hbytes⟩ := htoken.publicId_eq
    rw [hpublic, hbytes]
    exact isCanonicalPublicId_encodeComponent (hbytes ▸ ⟨htoken.length_ge, htoken.length_le⟩)
  simp only [authenticate, hparse, hfound, bind, Except.bind, Option.elim_some]
  cases hverify : verifySecret hmac token.secret row.secretDigest (settings.hmacSecret kind) with
  | false => rfl
  | true =>
      cases hactive : isCurrentlyActive row now with
      | false =>
          simp [throw, throwThe, MonadExceptOf.throw]
      | true =>
          cases kind with
          | admin => simpa [htype] using hinv.materialize_admin hrow htype hcanonical
          | agent => simpa [htype] using hinv.materialize_agent hrow htype hcanonical

theorem authenticate_unknown (hparse : parseToken raw kind = .ok token)
    (h : store.getByPublicId kind token.publicId = none) :
    authenticate hmac settings now raw kind store = .error invalidApiKeyError := by
  simp only [authenticate, hparse, h, bind, Except.bind]
  rfl

theorem authenticate_unparsed (h : ∀ token, parseToken raw kind ≠ .ok token) :
    authenticate hmac settings now raw kind store = .error invalidApiKeyError := by
  have hparse : parseToken raw kind = .error invalidApiKeyError := by
    rw [parseToken] at h ⊢
    cases hread : parseToken? raw kind with
    | none => rfl
    | some token =>
        rw [hread] at h
        exact absurd rfl (h token)
  simp only [authenticate, hparse, bind, Except.bind]

/-- **A token is accepted** exactly when it is one of its kind, the key that it names is there and
active, and its secret has the digest of the key; the principal is what the rows of the key allow.
Whatever else is sent is answered with one and the same error. -/
theorem authenticate_accepts (h : KeyReachable hmac settings store) (now : ℕ) (raw : Str) (kind : KeyKind) :
    (∀ principal, authenticate hmac settings now raw kind store = .ok principal ↔
      ∃ token row, parseToken raw kind = .ok token ∧ row ∈ store.apiKeys ∧ row.keyType = kind ∧
        row.publicId = token.publicId ∧
        verifySecret hmac token.secret row.secretDigest (settings.hmacSecret kind) = true ∧
        isCurrentlyActive row now = true ∧ principal = principalOf store row) ∧
    ∀ error, authenticate hmac settings now raw kind store = .error error → error = invalidApiKeyError := by
  have hinv := keyInv_of_reachable h
  by_cases hparse : ∃ token, parseToken raw kind = .ok token
  · obtain ⟨token, hparse⟩ := hparse
    cases hfound : store.getByPublicId kind token.publicId with
    | none =>
        rw [authenticate_unknown hparse hfound]
        refine ⟨fun principal => ⟨fun hok => (by cases hok), ?_⟩, fun error herror => (Except.error.inj herror).symm⟩
        rintro ⟨token', row, hparse', hrow, htype, hpublic, -⟩
        obtain rfl := Except.ok.inj (hparse.symm.trans hparse')
        rw [hinv.getByPublicId.mpr ⟨hrow, htype, hpublic⟩] at hfound
        cases hfound
    | some row =>
        obtain ⟨hrow, htype, hpublic⟩ := hinv.getByPublicId.mp hfound
        rw [hinv.authenticate_row hparse hrow htype hpublic]
        constructor
        · intro principal
          constructor
          · intro hok
            split at hok
            · rename_i haccept
              exact ⟨token, row, hparse, hrow, htype, hpublic, haccept.1, haccept.2, (Except.ok.inj hok).symm⟩
            · cases hok
          · rintro ⟨token', row', hparse', hrow', htype', hpublic', hverify, hactive, rfl⟩
            obtain rfl := Except.ok.inj (hparse.symm.trans hparse')
            obtain rfl := row_unique hinv.publicIds hrow hrow' (hpublic.trans hpublic'.symm)
            rw [if_pos ⟨hverify, hactive⟩]
        · intro error herror
          split at herror
          · cases herror
          · exact (Except.error.inj herror).symm
  · rw [authenticate_unparsed fun token htoken => hparse ⟨token, htoken⟩]
    refine ⟨fun principal => ⟨fun hok => (by cases hok), ?_⟩, fun error herror => (Except.error.inj herror).symm⟩
    rintro ⟨token, row, htoken, -⟩
    exact absurd ⟨token, htoken⟩ hparse

end Principals

namespace KeySample

/-- The token of the key. -/
def token : ParsedToken := newToken .agent drawn.publicBytes drawn.randomSecret

theorem parse_token : parseToken token.text .agent = .ok token :=
  parseToken_eq_ok.mpr ⟨rfl, rfl, canonical_newToken .agent drawn.publicBytes drawn.randomSecret⟩

end KeySample

theorem authenticate_accepts_created : ∃ row ∈ KeySample.created.apiKeys,
    authenticate KeySample.hmac KeySample.settings 6 KeySample.token.text .agent KeySample.created
      = .ok (principalOf KeySample.created row) := by
  have hrow : ∃ row ∈ KeySample.created.apiKeys, row.keyType = .agent ∧
      row.publicId = KeySample.token.publicId ∧
      verifySecret KeySample.hmac KeySample.token.secret row.secretDigest
        (KeySample.settings.hmacSecret .agent) = true ∧
      isCurrentlyActive row 6 = true := by
    decide +kernel
  obtain ⟨row, hmem, htype, hpublic, hverify, hactive⟩ := hrow
  refine ⟨row, hmem, ((authenticate_accepts KeySample.reachable_created 6 KeySample.token.text .agent).1 _).mpr ?_⟩
  exact ⟨KeySample.token, row, KeySample.parse_token, hmem, htype, hpublic, hverify, hactive, rfl⟩

/-! ## New keys -/

section Issued

variable {hmac : Bytes → Bytes → Digest} {settings : KeySettings} {store store' store'' : KeyStore}

/-- A request has created a key of this kind. -/
def Creates (hmac : Bytes → Bytes → Digest) (settings : KeySettings) (kind : KeyKind)
    (issued : IssuedApiKey) (store store' : KeyStore) : Prop :=
  (kind = .admin ∧ ∃ command requestId drawn,
    createAdminKey hmac settings command requestId drawn store = .ok (issued, store')) ∨
  kind = .agent ∧ ∃ rows now command actor requestId drawn,
    createAgentKey hmac settings rows now command actor requestId drawn store = .ok (issued, store')

theorem Creates.row {kind : KeyKind} {issued : IssuedApiKey} (h : Creates hmac settings kind issued store store') :
    ∃ row drawn, NewKey hmac settings kind drawn row issued ∧ CreatedKey store row store' := by
  rcases h with ⟨rfl, command, requestId, drawn, h⟩ | ⟨rfl, rows, now, command, actor, requestId, drawn, h⟩
  · obtain ⟨row, hnew, hcreated⟩ := createAdminKey_eq_ok h
    exact ⟨row, drawn, hnew, hcreated⟩
  · obtain ⟨row, hnew, hcreated⟩ := createAgentKey_eq_ok h
    exact ⟨row, drawn, hnew, hcreated⟩

/-- **The token of a new key** is accepted, in every state that follows, exactly while its key is
active, with what the rows of the key then allow; as a token of the other kind it is never accepted. -/
theorem issued_token_authenticates (h : KeyReachable hmac settings store) {kind : KeyKind}
    {issued : IssuedApiKey} (hcreates : Creates hmac settings kind issued store store')
    (hrun : Relation.ReflTransGen (KeyStep hmac settings) store' store'') :
    ∃ row ∈ store''.apiKeys, row.id = issued.apiKey.id ∧ ∀ now,
      (authenticate hmac settings now issued.token kind store'' =
        if isCurrentlyActive row now = true then .ok (principalOf store'' row)
        else .error invalidApiKeyError) ∧
      ∀ other, other ≠ kind →
        authenticate hmac settings now issued.token other store'' = .error invalidApiKeyError := by
  obtain ⟨row, drawn, hnew, hcreated⟩ := hcreates.row
  have hinv' := (keyInv_of_reachable h).created hcreated
  have hmem : row ∈ store'.apiKeys := by
    rw [hcreated.apiKeys]
    exact List.mem_append_right _ (List.mem_singleton.mpr rfl)
  obtain ⟨row', hfollows⟩ := hinv'.follows_run hmem hrun
  have hcanonical := canonical_newToken kind drawn.publicBytes drawn.randomSecret
  have hparse : parseToken issued.token kind = .ok (newToken kind drawn.publicBytes drawn.randomSecret) :=
    parseToken_eq_ok.mpr ⟨rfl, hnew.token, hcanonical⟩
  have hverify : verifySecret hmac (newToken kind drawn.publicBytes drawn.randomSecret).secret
      row'.secretDigest (settings.hmacSecret kind) = true := by
    rw [hfollows.same.secretDigest, hnew.secretDigest]
    exact verifySecret_of_digest hmac (digestSecret?_encodeComponent hmac drawn.randomSecret _)
  refine ⟨row', hfollows.mem, hfollows.same.id.trans hnew.apiKey.symm, ?_⟩
  intro now
  constructor
  · rw [(hinv'.run hrun).authenticate_row hparse hfollows.mem (hfollows.same.keyType.trans hnew.keyType)
      (hfollows.same.publicId.trans hnew.publicId)]
    simp only [hverify, true_and]
  · intro other hother
    apply authenticate_unparsed
    intro token htoken
    rw [hnew.token, parseToken_other hother] at htoken
    cases htoken

end Issued

theorem issued_token_authenticates_updated : ∃ issued : IssuedApiKey, ∃ row ∈ KeySample.updated.apiKeys,
    authenticate KeySample.hmac KeySample.settings 6 issued.token .agent KeySample.updated
      = if isCurrentlyActive row 6 = true then .ok (principalOf KeySample.updated row)
        else .error invalidApiKeyError := by
  have hcreation : (createAgentKey KeySample.hmac KeySample.settings KeySample.referenced 5
      KeySample.agentCommand none "request".toList KeySample.drawn KeyStore.empty).map Prod.snd
        = .ok KeySample.created := KeySample.creation_ok
  obtain ⟨issued, h⟩ := map_snd_eq_ok hcreation
  obtain ⟨row, hmem, -, hanswer⟩ := issued_token_authenticates .refl
    (.inr ⟨rfl, _, _, _, _, _, _, h⟩) KeySample.run_updated
  exact ⟨issued, row, hmem, (hanswer 6).1⟩

/-! ## Internal errors -/

/-- The request is not answered with an internal error. -/
def NoInternal {α : Type} (x : Except BusinessError α) : Prop := x ≠ .error internalError

section Answers

variable {α β : Type} {hmac : Bytes → Bytes → Digest} {settings : KeySettings} {store : KeyStore}
  {rows : ReferencedRows} {now keyId : ℕ} {requestId : Str} {drawn : Drawn} {actor : Option AdminPrincipal}
  {row : ApiKey}

theorem noInternal_ok (a : α) : NoInternal (.ok a : Except BusinessError α) := by
  intro h
  cases h

theorem noInternal_error {e : BusinessError} (h : e ≠ internalError) : NoInternal (.error e : Except BusinessError α) :=
  fun heq => h (Except.error.inj heq)

theorem noInternal_bind {x : Except BusinessError α} {f : α → Except BusinessError β} (hx : NoInternal x)
    (hf : ∀ a, x = .ok a → NoInternal (f a)) : NoInternal (x >>= f) := by
  cases x with
  | error e => exact fun h => hx (congrArg Except.error (Except.error.inj h))
  | ok a => exact hf a rfl

/-- A check that raises an error of its own. -/
theorem noInternal_check {c : Prop} [Decidable c] {e : BusinessError} (h : e ≠ internalError) :
    NoInternal (if c then Except.error e else .ok ()) := by
  split
  · exact noInternal_error h
  · exact noInternal_ok ()

theorem noInternal_guard {c : Prop} [Decidable c] {e : BusinessError} {rest : Unit → Except BusinessError α}
    (h : e ≠ internalError) (hrest : ¬ c → NoInternal (rest ())) :
    NoInternal (if c then (throw e >>= rest) else rest ()) := by
  by_cases hc : c
  · rw [if_pos hc]
    exact noInternal_error h
  · rw [if_neg hc]
    exact hrest hc

theorem noInternal_required (value : Option α) : NoInternal (required value) := by
  cases value with
  | none => exact noInternal_error (by decide)
  | some a => exact noInternal_ok a

theorem noInternal_requestId : NoInternal (requireRequestId settings requestId) := by
  rw [requireRequestId]
  split
  · exact noInternal_ok ()
  · exact noInternal_error (by decide)

theorem noInternal_actor : NoInternal (requireAdminActor actor now store) := by
  unfold requireAdminActor
  split
  · exact noInternal_ok _
  · split
    · exact noInternal_error (by decide)
    · split
      · exact noInternal_error (by decide)
      · exact noInternal_ok _

theorem noInternal_references {kbs qps : Finset ℕ} {defaultId : Option ℕ} {b b' : Bool} :
    NoInternal (validateReferences rows kbs qps defaultId b b') := by
  rw [validateReferences]
  split
  · exact noInternal_error (by decide)
  · split
    · exact noInternal_error (by decide)
    · exact noInternal_check (by decide)

/-- What is shown of a key that the table accepts. -/
theorem safeApiKey_agent (hvalid : row.Valid) (htype : row.keyType = .agent)
    (hcapabilities : CapabilityTexts row.capabilities) (kbs qps : Finset ℕ)
    (defaultId : Option ℕ) : ∃ safe, safeApiKey row kbs qps defaultId = .ok safe := by
  obtain ⟨capabilities, -, htexts⟩ := hcapabilities
  have hread : row.capabilities.mapM capability? = some capabilities := by
    rw [htexts, mapM_capability?]
  have hrevision : row.resourceRevision ≠ 0 := Nat.one_le_iff_ne_zero.mp hvalid.revision
  have hsafe : validSafeApiKey row = true := by
    simp [validSafeApiKey, hvalid.publicId, hvalid.name, hvalid.revision]
  simp [safeApiKey, htype, hread, agentKeyEtag, hrevision, hsafe, bind, Except.bind, pure, Except.pure]

theorem safeApiKey_admin (hvalid : row.Valid) (htype : row.keyType = .admin) :
    ∃ safe, safeApiKey row ∅ ∅ none = .ok safe := by
  obtain ⟨hcapabilities, hraw, hrpm, hconc⟩ := hvalid.admin htype
  have hsafe : validSafeApiKey row = true := by
    simp [validSafeApiKey, hvalid.publicId, hvalid.name, hvalid.revision]
  simp [safeApiKey, htype, hcapabilities, hraw, hrpm, hconc, hsafe, bind, Except.bind, pure, Except.pure]

theorem KeyInv.safeAgent_ok (hinv : KeyInv store) (hrow : row ∈ store.apiKeys) (htype : row.keyType = .agent) :
    ∃ safe, safeAgent store row = .ok safe := by
  exact safeApiKey_agent ((ApiKey.checks_iff).mp (hinv.checks row hrow)) htype (hinv.capabilities row hrow) _ _ _

theorem noInternal_of_ok {x : Except BusinessError α} (h : ∃ a, x = .ok a) : NoInternal x := by
  obtain ⟨a, rfl⟩ := h
  exact noInternal_ok a

theorem add_ok (hstorable : row.storable = true) (hvalid : row.Valid)
    (hfresh : ∀ key ∈ store.apiKeys, key.id ≠ row.id ∧ key.publicId ≠ row.publicId) :
    ∃ added, store.add row = .ok added := by
  rw [KeyStore.add, if_neg]
  · exact ⟨_, rfl⟩
  · simp only [hstorable, (ApiKey.checks_iff).mpr hvalid, Bool.true_eq_false, List.any_eq_true,
      decide_eq_true_eq, false_or, not_exists, not_and, not_or]
    exact hfresh

theorem update_ok (hstorable : row.storable = true) (hvalid : row.Valid) :
    ∃ updated, store.update row = .ok updated := by
  rw [KeyStore.update, if_neg (by simp [hstorable, (ApiKey.checks_iff).mpr hvalid])]
  exact ⟨_, rfl⟩

/-! ### Texts that are stored -/

theorem storable_iff : row.storable = true ↔
    '\x00' ∉ row.publicId ∧ '\x00' ∉ row.name ∧ ∀ c ∈ row.capabilities, '\x00' ∉ c := by
  simp [ApiKey.storable]

theorem nul_not_mem_encodeComponent (bytes : Bytes) : '\x00' ∉ encodeComponent bytes := by
  intro hnul
  exact absurd (Base64.mem_alphabet_of_mem_encode hnul) (by decide)

theorem nul_not_mem_sortedCapabilities (capabilities : Finset Capability) :
    ∀ c ∈ sortedCapabilities capabilities, '\x00' ∉ c := by
  intro c hc
  obtain ⟨capability, -, rfl⟩ := List.mem_map.mp hc
  cases capability <;> decide

/-- The length of the public identifier of a new key. -/
theorem newToken_publicId_length (kind : KeyKind) :
    16 ≤ (newToken kind drawn.publicBytes drawn.randomSecret).publicId.length ∧
      (newToken kind drawn.publicBytes drawn.randomSecret).publicId.length ≤ 64 :=
  ⟨(canonical_newToken kind drawn.publicBytes drawn.randomSecret).length_ge,
    (canonical_newToken kind drawn.publicBytes drawn.randomSecret).length_le⟩

/-- The identities that a creation draws are not in use. -/
def Drawn.Unused (drawn : Drawn) (store : KeyStore) : Prop :=
  ∀ key ∈ store.apiKeys, key.id ≠ drawn.id ∧ key.publicId ≠ encodeComponent drawn.publicBytes.1

theorem createAdminKey_noInternal {command : AdminApiKeyCreate} (hname : '\x00' ∉ command.name.1)
    (hunused : drawn.Unused store) :
    NoInternal (createAdminKey hmac settings command requestId drawn store) := by
  unfold createAdminKey
  refine noInternal_bind noInternal_requestId fun _ _ => ?_
  refine noInternal_bind (noInternal_check (by decide)) fun _ hwindow => ?_
  rw [generateToken_eq]
  refine noInternal_bind (noInternal_ok _) fun generated hgenerated => ?_
  obtain rfl := Except.ok.inj hgenerated
  have hwindow' : validWindow command.notBefore command.expiresAt = true := by
    simpa using require_eq_ok hwindow
  have hvalid : ApiKey.Valid
      { id := drawn.id
        publicId := (newToken .admin drawn.publicBytes drawn.randomSecret).publicId
        secretDigest := (hmac (encode settings.adminKeyHmacSecret)
          (encode (encodeComponent drawn.randomSecret.1))).1
        keyType := .admin, name := command.name.1, status := .active, capabilities := []
        rawFileRead := false, requestsPerMinute := none, maxConcurrency := none
        notBefore := command.notBefore, expiresAt := command.expiresAt, resourceRevision := 1
        createdByApiKeyId := none, revokedByApiKeyId := none, createdAt := drawn.createdAt
        updatedAt := drawn.createdAt, revokedAt := none } :=
    ⟨newToken_publicId_length .admin, (hmac _ _).2, command.name.2, Nat.zero_le _, by simp, hwindow',
      fun _ => ⟨rfl, rfl, rfl, rfl⟩, by simp, le_rfl, by simp⟩
  refine noInternal_bind (noInternal_of_ok (add_ok ((storable_iff).mpr
    ⟨nul_not_mem_encodeComponent drawn.publicBytes.1, hname, by simp⟩) hvalid hunused)) fun added _ => ?_
  exact noInternal_bind (noInternal_of_ok (safeApiKey_admin hvalid rfl)) fun safe _ => noInternal_ok _

theorem known_sortedCapabilities (capabilities : Finset Capability) :
    ∀ c ∈ sortedCapabilities capabilities, (capability? c).isSome = true := by
  intro c hc
  obtain ⟨capability, -, rfl⟩ := List.mem_map.mp hc
  rw [capability?_value]
  rfl

/-- The limits that the settings allow are those of the table. -/
theorem limits_of_validated (hlimits : settings.maxApiKeyRequestsPerMinute ≤ 10000 ∧
      settings.maxApiKeyConcurrency ≤ 1000) {rpm conc : ℤ} {a : Unit}
    (h : validateAgentLimits settings rpm conc = .ok a) : (1 ≤ rpm ∧ rpm ≤ 10000) ∧ 1 ≤ conc ∧ conc ≤ 1000 := by
  have hrange := require_eq_ok h
  omega

theorem createAgentKey_noInternal {command : AgentApiKeyCreate} (hname : '\x00' ∉ command.name.1)
    (hlimits : settings.maxApiKeyRequestsPerMinute ≤ 10000 ∧ settings.maxApiKeyConcurrency ≤ 1000)
    (hunused : drawn.Unused store) :
    NoInternal (createAgentKey hmac settings rows now command actor requestId drawn store) := by
  unfold createAgentKey
  refine noInternal_bind noInternal_requestId fun _ _ => ?_
  refine noInternal_bind (noInternal_check (by decide)) fun _ hvalidated => ?_
  refine noInternal_bind (noInternal_check (by decide)) fun _ hwindow => ?_
  refine noInternal_bind noInternal_actor fun checked _ => ?_
  obtain ⟨actorId, actorKind⟩ := checked
  refine noInternal_bind noInternal_references fun _ _ => ?_
  rw [generateToken_eq]
  refine noInternal_bind (noInternal_ok _) fun generated hgenerated => ?_
  obtain rfl := Except.ok.inj hgenerated
  have hwindow' : validWindow command.notBefore command.expiresAt = true := by
    simpa using require_eq_ok hwindow
  obtain ⟨hrpm, hconc⟩ := limits_of_validated hlimits hvalidated
  have hvalid : ApiKey.Valid
      { id := drawn.id
        publicId := (newToken .agent drawn.publicBytes drawn.randomSecret).publicId
        secretDigest := (hmac (encode settings.agentKeyHmacSecret)
          (encode (encodeComponent drawn.randomSecret.1))).1
        keyType := .agent, name := command.name.1, status := .active
        capabilities := sortedCapabilities command.capabilities
        rawFileRead := command.rawFileRead, requestsPerMinute := some command.requestsPerMinute
        maxConcurrency := some command.maxConcurrency
        notBefore := command.notBefore, expiresAt := command.expiresAt, resourceRevision := 1
        createdByApiKeyId := actorId, revokedByApiKeyId := none, createdAt := drawn.createdAt
        updatedAt := drawn.createdAt, revokedAt := none } :=
    ⟨newToken_publicId_length .agent, (hmac _ _).2, command.name.2, length_sortedCapabilities _,
      known_sortedCapabilities _, hwindow', by simp, fun _ => ⟨⟨_, rfl, hrpm⟩, _, rfl, hconc⟩, le_rfl, by simp⟩
  refine noInternal_bind (noInternal_of_ok (add_ok ((storable_iff).mpr
    ⟨nul_not_mem_encodeComponent drawn.publicBytes.1, hname,
      nul_not_mem_sortedCapabilities command.capabilities⟩) hvalid hunused)) fun added _ => ?_
  exact noInternal_bind (noInternal_of_ok
    (safeApiKey_agent hvalid rfl (capabilityTexts_sorted command.capabilities) _ _ _)) fun safe _ => noInternal_ok _

theorem noInternal_map {x : Except BusinessError α} {f : α → β} (h : NoInternal x) : NoInternal (x.map f) := by
  cases x with
  | error e => exact fun heq => h (congrArg Except.error (Except.error.inj heq))
  | ok a => exact noInternal_ok _

theorem noInternal_updatedRow {command : AgentApiKeyUpdate} {capabilities : Finset Capability} {rpm conc : ℤ} :
    NoInternal (updatedRow command row capabilities rpm conc now) := by
  unfold updatedRow
  refine noInternal_bind ?_ fun name _ => noInternal_bind ?_ fun status _ => noInternal_bind ?_ fun raw _ =>
    noInternal_ok _
  · split
    · exact noInternal_map (noInternal_required _)
    · exact noInternal_ok _
  · split
    · exact noInternal_map (noInternal_required _)
    · exact noInternal_ok _
  · split
    · exact noInternal_required _
    · exact noInternal_ok _

theorem map_eq_ok {x : Except BusinessError α} {f : α → β} {b : β} (h : x.map f = .ok b) :
    ∃ a, x = .ok a ∧ f a = b := by
  cases x with
  | error e => cases h
  | ok a => exact ⟨a, rfl, Except.ok.inj h⟩

/-- **An update keeps to the constraints of the table**. -/
theorem updatedRow_valid {command : AgentApiKeyUpdate} {capabilities : Finset Capability} {rpm conc : ℤ}
    {row' : ApiKey} (hvalid : row.Valid) (htype : row.keyType = .agent) (hstatus : row.status ≠ .revoked)
    (hrpm : 1 ≤ rpm ∧ rpm ≤ 10000) (hconc : 1 ≤ conc ∧ conc ≤ 1000)
    (hwindow : validWindow (command.notBefore.getD row.notBefore) (command.expiresAt.getD row.expiresAt) = true)
    (h : updatedRow command row capabilities rpm conc now = .ok row') : row'.Valid := by
  unfold updatedRow at h
  obtain ⟨name, hname, h⟩ := bind_eq_ok.mp h
  obtain ⟨status, hnew, h⟩ := bind_eq_ok.mp h
  obtain ⟨raw, -, h⟩ := bind_eq_ok.mp h
  obtain rfl := pure_ok_iff.mp h
  have hnameRange : 1 ≤ name.length ∧ name.length ≤ 120 := by
    split at hname
    · obtain ⟨new, -, rfl⟩ := map_eq_ok hname
      exact new.2
    · obtain rfl := Except.ok.inj hname
      exact hvalid.name
  have hunrevoked : status ≠ .revoked := by
    split at hnew
    · obtain ⟨new, -, rfl⟩ := map_eq_ok hnew
      cases new <;> exact fun hr => by cases hr
    · obtain rfl := Except.ok.inj hnew
      exact hstatus
  have hrevokedAt : ¬ row.revokedAt.isSome = true := fun hsome => hstatus (hvalid.revocation.mpr hsome)
  have hnotAdmin : row.keyType ≠ .admin := by
    rw [htype]
    exact fun hr => by cases hr
  obtain ⟨holdRpm, holdConc⟩ := hvalid.agent htype
  have hnewRpm : ∃ n, (if command.requestsPerMinute.isSome then some rpm else row.requestsPerMinute) = some n ∧
      1 ≤ n ∧ n ≤ 10000 := by
    split
    · exact ⟨rpm, rfl, hrpm⟩
    · exact holdRpm
  have hnewConc : ∃ n, (if command.maxConcurrency.isSome then some conc else row.maxConcurrency) = some n ∧
      1 ≤ n ∧ n ≤ 1000 := by
    split
    · exact ⟨conc, rfl, hconc⟩
    · exact holdConc
  refine ⟨hvalid.publicId, hvalid.secretDigest, hnameRange, ?_, ?_, hwindow, fun hadmin => absurd hadmin hnotAdmin,
    fun _ => ⟨hnewRpm, hnewConc⟩, Nat.le_add_left _ _, iff_of_false hunrevoked hrevokedAt⟩
  · split
    · exact length_sortedCapabilities capabilities
    · exact hvalid.length
  · split
    · exact known_sortedCapabilities capabilities
    · exact hvalid.known

/-- An update writes a text that can be stored, as long as the new name can. -/
theorem updatedRow_storable {command : AgentApiKeyUpdate} {capabilities : Finset Capability} {rpm conc : ℤ}
    {row' : ApiKey} (hstorable : row.storable = true)
    (hname : ∀ name, command.name = some (some name) → '\x00' ∉ name.1)
    (h : updatedRow command row capabilities rpm conc now = .ok row') : row'.storable = true := by
  obtain ⟨hpublic, hold, hcapabilities⟩ := (storable_iff).mp hstorable
  unfold updatedRow at h
  obtain ⟨name, hnew, h⟩ := bind_eq_ok.mp h
  obtain ⟨status, -, h⟩ := bind_eq_ok.mp h
  obtain ⟨raw, -, h⟩ := bind_eq_ok.mp h
  obtain rfl := pure_ok_iff.mp h
  refine (storable_iff).mpr ⟨hpublic, ?_, ?_⟩
  · split at hnew
    · rename_i set hset
      obtain ⟨new, hnew, rfl⟩ := map_eq_ok hnew
      cases set with
      | none => cases hnew
      | some given =>
          rw [← Except.ok.inj hnew]
          exact hname _ hset
    · obtain rfl := Except.ok.inj hnew
      exact hold
  · dsimp only
    split
    · exact nul_not_mem_sortedCapabilities capabilities
    · exact hcapabilities

theorem KeyInv.updateAgentKey_noInternal {command : AgentApiKeyUpdate} {expectedEtag : Str} (hinv : KeyInv store)
    (hname : ∀ name, command.name = some (some name) → '\x00' ∉ name.1)
    (hlimits : settings.maxApiKeyRequestsPerMinute ≤ 10000 ∧ settings.maxApiKeyConcurrency ≤ 1000) :
    NoInternal (updateAgentKey settings rows now keyId command actor requestId expectedEtag store) := by
  unfold updateAgentKey
  refine noInternal_bind noInternal_requestId fun _ _ => ?_
  refine noInternal_bind noInternal_actor fun checked _ => ?_
  obtain ⟨actorId, actorKind⟩ := checked
  dsimp only
  split
  · exact noInternal_error (by decide)
  · rename_i row hfind
    obtain ⟨hrow, -, htype⟩ := KeyStore.getById_eq_some hfind
    have hvalid := (ApiKey.checks_iff).mp (hinv.checks row hrow)
    obtain ⟨granted, hdistinct, hgranted⟩ := hinv.capabilities row hrow
    have hread : row.capabilities.mapM capability? = some granted := by
      rw [hgranted, mapM_capability?]
    have hetag : agentKeyEtag row.id row.resourceRevision ≠ .error internalError := by
      rw [agentKeyEtag, if_neg (Nat.one_le_iff_ne_zero.mp hvalid.revision)]
      exact noInternal_ok _
    refine noInternal_bind hetag fun etag _ => ?_
    refine noInternal_bind (noInternal_check (by decide)) fun _ _ => ?_
    refine noInternal_guard (by decide) fun hstatus => ?_
    refine noInternal_bind (noInternal_required _) fun newKbIds _ => ?_
    refine noInternal_bind (noInternal_required _) fun newQpIds _ => ?_
    refine noInternal_bind ?_ fun capabilities hcapabilities => ?_
    · rw [updatedCapabilities, hread]
      split
      · exact noInternal_required _
      · exact noInternal_ok _
    refine noInternal_bind (noInternal_required _) fun rpm _ => ?_
    refine noInternal_bind (noInternal_required _) fun conc _ => ?_
    refine noInternal_bind (noInternal_check (by decide)) fun _ hvalidated => ?_
    refine noInternal_bind (noInternal_check (by decide)) fun _ hwindow => ?_
    refine noInternal_bind noInternal_references fun _ _ => ?_
    refine noInternal_bind noInternal_updatedRow fun row' hrow' => ?_
    obtain ⟨hrpm, hconc⟩ := limits_of_validated hlimits hvalidated
    have hwindow' : validWindow (command.notBefore.getD row.notBefore) (command.expiresAt.getD row.expiresAt)
        = true := by
      simpa using require_eq_ok hwindow
    have hvalid' := updatedRow_valid hvalid htype hstatus hrpm hconc hwindow' hrow'
    obtain ⟨hsame, -, hcapabilities'⟩ := updatedRow_eq_ok hrow'
    have hstorable' := updatedRow_storable (hinv.storable row hrow) hname hrow'
    have htexts : CapabilityTexts row'.capabilities := by
      rcases hcapabilities' with heq | heq
      · rw [heq]
        exact ⟨granted, hdistinct, hgranted⟩
      · rw [heq]
        exact capabilityTexts_sorted capabilities
    refine noInternal_bind (noInternal_of_ok (update_ok hstorable' hvalid')) fun updated _ => ?_
    exact noInternal_bind (noInternal_of_ok (safeApiKey_agent hvalid' (hsame.keyType.trans htype) htexts _ _ _))
      fun safe _ => noInternal_ok _

theorem revokedRow_valid {actorId : Option ℕ} (hvalid : row.Valid) : (revokedRow row now actorId).Valid :=
  ⟨hvalid.publicId, hvalid.secretDigest, hvalid.name, hvalid.length, hvalid.known, hvalid.window, hvalid.admin,
    hvalid.agent, Nat.le_add_left _ _, iff_of_true rfl rfl⟩

theorem KeyInv.revokedRow_storable (hinv : KeyInv store) (hrow : row ∈ store.apiKeys) {actorId : Option ℕ} :
    (revokedRow row now actorId).storable = true :=
  hinv.storable row hrow

theorem KeyInv.revokeAdminKey_noInternal (hinv : KeyInv store) :
    NoInternal (revokeAdminKey settings now keyId requestId store) := by
  unfold revokeAdminKey
  refine noInternal_bind noInternal_requestId fun _ _ => ?_
  split
  · exact noInternal_error (by decide)
  · rename_i row hfind
    obtain ⟨hrow, -, htype⟩ := KeyStore.getById_eq_some hfind
    have hvalid := (ApiKey.checks_iff).mp (hinv.checks row hrow)
    split
    · exact noInternal_bind (noInternal_of_ok (safeApiKey_admin hvalid htype)) fun safe _ => noInternal_ok _
    · have hvalid' : (revokedRow row now none).Valid := revokedRow_valid hvalid
      refine noInternal_bind (noInternal_of_ok (update_ok (hinv.revokedRow_storable hrow) hvalid')) fun updated _ => ?_
      exact noInternal_bind (noInternal_of_ok (safeApiKey_admin hvalid' htype)) fun safe _ => noInternal_ok _

theorem KeyInv.revokeAgentKey_noInternal {expectedEtag : Option Str} (hinv : KeyInv store) :
    NoInternal (revokeAgentKey settings now keyId actor requestId expectedEtag store) := by
  unfold revokeAgentKey
  refine noInternal_bind noInternal_requestId fun _ _ => ?_
  refine noInternal_bind noInternal_actor fun checked _ => ?_
  obtain ⟨actorId, actorKind⟩ := checked
  dsimp only
  split
  · exact noInternal_error (by decide)
  · rename_i row hfind
    obtain ⟨hrow, -, htype⟩ := KeyStore.getById_eq_some hfind
    have hvalid := (ApiKey.checks_iff).mp (hinv.checks row hrow)
    have htexts : CapabilityTexts (revokedRow row now actorId).capabilities := hinv.capabilities row hrow
    have hetag : agentKeyEtag row.id row.resourceRevision ≠ .error internalError := by
      rw [agentKeyEtag, if_neg (Nat.one_le_iff_ne_zero.mp hvalid.revision)]
      exact noInternal_ok _
    have hvalid' : (revokedRow row now actorId).Valid := revokedRow_valid hvalid
    have hanswer : NoInternal (if row.status = .revoked then do
          let safe ← safeAgent store row
          pure (safe, store)
        else do
          let store ← store.update (revokedRow row now actorId)
          let safe ← safeAgent
            (store.addAudit ⟨requestId, actorId, actorKind, .revoked, (revokedRow row now actorId).id, none⟩)
            (revokedRow row now actorId)
          pure (safe, store.addAudit
            ⟨requestId, actorId, actorKind, .revoked, (revokedRow row now actorId).id, none⟩)) := by
      split
      · exact noInternal_bind (noInternal_of_ok (hinv.safeAgent_ok hrow htype)) fun safe _ => noInternal_ok _
      · refine noInternal_bind (noInternal_of_ok (update_ok (hinv.revokedRow_storable hrow) hvalid')) fun updated _ => ?_
        exact noInternal_bind (noInternal_of_ok (safeApiKey_agent hvalid' htype htexts _ _ _))
          fun safe _ => noInternal_ok _
    split
    · refine noInternal_bind hetag fun etag _ => ?_
      exact noInternal_bind (noInternal_check (by decide)) fun _ _ => hanswer
    · exact hanswer

/-- **The rows never fail the service**: in every state that requests reach, a request is answered or
refused for a reason of its own, as long as the limits that the settings allow are those of the table,
a name has no NUL in it, which the table does not take, and a creation does not draw an identity that
is in use. -/
theorem no_internal_error (h : KeyReachable hmac settings store)
    (hlimits : settings.maxApiKeyRequestsPerMinute ≤ 10000 ∧ settings.maxApiKeyConcurrency ≤ 1000) :
    (∀ command requestId drawn, '\x00' ∉ command.name.1 → drawn.Unused store →
      createAdminKey hmac settings command requestId drawn store ≠ .error internalError) ∧
    (∀ rows now command actor requestId drawn, '\x00' ∉ command.name.1 → drawn.Unused store →
      createAgentKey hmac settings rows now command actor requestId drawn store ≠ .error internalError) ∧
    (∀ rows now keyId command actor requestId expectedEtag,
      (∀ name, command.name = some (some name) → '\x00' ∉ name.1) →
        updateAgentKey settings rows now keyId command actor requestId expectedEtag store
          ≠ .error internalError) ∧
    (∀ now keyId requestId, revokeAdminKey settings now keyId requestId store ≠ .error internalError) ∧
    ∀ now keyId actor requestId expectedEtag,
      revokeAgentKey settings now keyId actor requestId expectedEtag store ≠ .error internalError := by
  have hinv := keyInv_of_reachable h
  refine ⟨?_, ?_, ?_, ?_, ?_⟩
  · intro command requestId drawn hname hunused
    exact createAdminKey_noInternal hname hunused
  · intro rows now command actor requestId drawn hname hunused
    exact createAgentKey_noInternal hname hlimits hunused
  · intro rows now keyId command actor requestId expectedEtag hname
    exact hinv.updateAgentKey_noInternal hname hlimits
  · intro now keyId requestId
    exact hinv.revokeAdminKey_noInternal
  · intro now keyId actor requestId expectedEtag
    exact hinv.revokeAgentKey_noInternal

end Answers

/-- After a request without a token, the narrowing of a key is answered. -/
theorem no_internal_error_shared :
    updateAgentKey KeySample.settings KeySample.referenced 6 7 KeySample.narrowing none "request".toList
      KeySample.firstEtag KeySample.shared ≠ .error internalError :=
  (no_internal_error KeySample.reachable_shared ⟨le_rfl, le_rfl⟩).2.2.1 _ _ _ _ _ _ _ (by
    intro name hname
    cases hname)

namespace KeySample

theorem nulName : 1 ≤ "a\x00b".toList.length ∧ "a\x00b".toList.length ≤ 120 := by decide

end KeySample

/-- A name with a NUL in it is one that the schema accepts and the table does not. -/
example : (createAdminKey KeySample.hmac KeySample.settings ⟨⟨"a\x00b".toList, KeySample.nulName⟩, none, none⟩
    "request".toList KeySample.drawn KeyStore.empty).map Prod.snd = .error internalError := by
  decide +kernel

end VeloxRag.Auth
