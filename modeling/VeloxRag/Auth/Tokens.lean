import VeloxRag.Api.Listings
import VeloxRag.Lib.Base64

/-!
# Tokens of API keys

A token is the words of its kind, a public identifier, a dot and a secret.  Both parts are unpadded
Base64 in the one spelling that the writer uses, so that no two texts stand for the same key.  The
service keeps the public identifier and an HMAC of the secret.

## Main definitions

* `encodeComponent`, `decodeCanonicalComponent` — the parts of a token.
* `parseToken` — a token of the expected kind.
* `digestSecret`, `verifySecret`, `generateToken` — the secret and its digest.
* `token_format` — which texts are tokens, and that generated tokens are.
-/

namespace VeloxRag.Auth

open Lib Api

/-! ## Parts -/

def maxTokenLength : ℕ := 256
def minPublicIdLength : ℕ := 16
def maxPublicIdLength : ℕ := 64
def publicIdBytes : ℕ := 16
def secretBytes : ℕ := 32
def digestBytes : ℕ := 32

/-- `_encode_component`. -/
def encodeComponent (value : Bytes) : Str := Base64.encode value

/-- `_decode_canonical_component`, `none` for what it raises.  The padding that it adds is the one
that the length asks for, so it is left out on both sides. -/
def decodeCanonicalComponent (value : Str) : Option Bytes :=
  if value = [] ∨ value.all (· ∈ Base64.alphabet) = false then none
  else do
    let decoded ← Base64.decode? value
    if encodeComponent decoded = value then some decoded else none

theorem encodeComponent_ne_nil {value : Bytes} (h : value ≠ []) : encodeComponent value ≠ [] := by
  intro hnil
  have hlength := Base64.length_encode value
  rw [← encodeComponent, hnil, List.length_nil] at hlength
  have hpos := List.length_pos_of_ne_nil h
  omega

/-- **A canonical part** is what the writer makes of its bytes. -/
theorem decodeCanonicalComponent_eq_some {value : Str} {decoded : Bytes} :
    decodeCanonicalComponent value = some decoded ↔ value ≠ [] ∧ value = encodeComponent decoded := by
  constructor
  · intro h
    rw [decodeCanonicalComponent] at h
    split at h
    · cases h
    · rename_i hvalue
      obtain ⟨bytes, -, hbytes⟩ := Option.bind_eq_some_iff.mp h
      split at hbytes
      · rename_i heq
        cases hbytes
        exact ⟨fun hnil => hvalue (.inl hnil), heq.symm⟩
      · cases hbytes
  · rintro ⟨hne, rfl⟩
    have hletters : (encodeComponent decoded).all (· ∈ Base64.alphabet) = true := by
      rw [List.all_eq_true]
      intro c hc
      exact decide_eq_true (Base64.mem_alphabet_of_mem_encode hc)
    rw [decodeCanonicalComponent, if_neg (by simp [hne, hletters]), encodeComponent,
      Base64.decode?_encode]
    exact if_pos rfl

/-! ## Tokens -/

/-- `_TOKEN_PREFIXES`. -/
def tokenPrefix : KeyKind → Str
  | .admin => "rag_adm_".toList
  | .agent => "rag_agent_".toList

structure ParsedToken where
  kind : KeyKind
  publicId : Str
  secret : Str
deriving DecidableEq

/-- `_parse_token`, `none` for what it raises. -/
def parseToken? (raw : Str) (expectedKind : KeyKind) : Option ParsedToken :=
  if raw = [] ∨ maxTokenLength < raw.length then none
  else if raw.take (tokenPrefix expectedKind).length ≠ tokenPrefix expectedKind then none
  else
    match (raw.drop (tokenPrefix expectedKind).length).splitOn '.' with
    | [publicId, secret] =>
        if publicId.length < minPublicIdLength ∨ maxPublicIdLength < publicId.length then none
        else do
          let _ ← decodeCanonicalComponent publicId
          let decoded ← decodeCanonicalComponent secret
          if decoded.length = secretBytes then some ⟨expectedKind, publicId, secret⟩ else none
    | _ => none

def invalidApiKeyError : BusinessError := ⟨401, "INVALID_API_KEY", "Invalid API key"⟩

def internalError : BusinessError := ⟨500, "INTERNAL_ERROR", "Internal server error"⟩

/-- `parse_token`. -/
def parseToken (raw : Str) (expectedKind : KeyKind) : Except BusinessError ParsedToken :=
  match parseToken? raw expectedKind with
  | some token => .ok token
  | none => .error invalidApiKeyError

/-- The text of a token. -/
def ParsedToken.text (token : ParsedToken) : Str :=
  tokenPrefix token.kind ++ token.publicId ++ '.' :: token.secret

/-- The parts of a token as they have to be. -/
structure ParsedToken.Canonical (token : ParsedToken) : Prop where
  length_ge : minPublicIdLength ≤ token.publicId.length
  length_le : token.publicId.length ≤ maxPublicIdLength
  publicId_eq : ∃ bytes, token.publicId = encodeComponent bytes
  secret_eq : ∃ bytes : Bytes, bytes.length = secretBytes ∧ token.secret = encodeComponent bytes

theorem dot_not_mem_encodeComponent (bytes : Bytes) : '.' ∉ encodeComponent bytes := by
  intro h
  have hmem := Base64.mem_alphabet_of_mem_encode h
  revert hmem
  decide

theorem splitOn_dot {publicId secret : Str} (hpublic : '.' ∉ publicId) (hsecret : '.' ∉ secret) :
    (publicId ++ '.' :: secret).splitOn '.' = [publicId, secret] := by
  have hjoin : publicId ++ '.' :: secret = ['.'].intercalate [publicId, secret] := by
    simp [List.intercalate, List.intersperse]
  rw [hjoin]
  refine List.splitOn_intercalate '.' ?_ (by simp)
  intro part hpart
  rcases List.mem_pair.mp hpart with rfl | rfl
  · exact hpublic
  · exact hsecret

theorem eq_of_splitOn_dot {rest publicId secret : Str} (h : rest.splitOn '.' = [publicId, secret]) :
    rest = publicId ++ '.' :: secret := by
  have hjoin : List.intercalate ['.'] (rest.splitOn '.') = rest := List.intercalate_splitOn '.'
  rw [h] at hjoin
  simpa [List.intercalate, List.intersperse] using hjoin.symm

theorem length_tokenPrefix_le (kind : KeyKind) : (tokenPrefix kind).length ≤ 10 := by
  cases kind <;> decide

namespace ParsedToken

variable {token : ParsedToken}

theorem Canonical.length_secret (h : token.Canonical) : token.secret.length = 43 := by
  obtain ⟨bytes, hlength, heq⟩ := h.secret_eq
  rw [heq, encodeComponent, Base64.length_encode, hlength]
  rfl

theorem Canonical.length_text_le (h : token.Canonical) : token.text.length ≤ maxTokenLength := by
  have hbegins := length_tokenPrefix_le token.kind
  have hpublic := h.length_le
  have hsecret := h.length_secret
  simp only [text, List.length_append, List.length_cons, maxTokenLength, maxPublicIdLength] at *
  omega

/-- The part of the text after the words of the kind. -/
theorem Canonical.splitOn_text (h : token.Canonical) :
    (token.text.drop (tokenPrefix token.kind).length).splitOn '.' = [token.publicId, token.secret] := by
  obtain ⟨identity, hpublic⟩ := h.publicId_eq
  obtain ⟨secret, -, hsecret⟩ := h.secret_eq
  rw [text, List.append_assoc, List.drop_left]
  apply splitOn_dot
  · rw [hpublic]
    exact dot_not_mem_encodeComponent identity
  · rw [hsecret]
    exact dot_not_mem_encodeComponent secret

theorem Canonical.parse (h : token.Canonical) : parseToken? token.text token.kind = some token := by
  obtain ⟨identity, hpublic⟩ := h.publicId_eq
  obtain ⟨secret, hsecretLength, hsecret⟩ := h.secret_eq
  have hne : token.text ≠ [] := by
    rw [text]
    exact List.append_ne_nil_of_right_ne_nil _ (by simp)
  have hbegins : token.text.take (tokenPrefix token.kind).length = tokenPrefix token.kind := by
    rw [text, List.append_assoc, List.take_left]
  have hlengths : ¬(token.publicId.length < minPublicIdLength ∨
      maxPublicIdLength < token.publicId.length) := by
    have hge := h.length_ge
    have hle := h.length_le
    omega
  have hpublicRead : decodeCanonicalComponent token.publicId = some identity := by
    refine decodeCanonicalComponent_eq_some.mpr ⟨?_, hpublic⟩
    have hge := h.length_ge
    exact List.ne_nil_of_length_pos (lt_of_lt_of_le (by decide) hge)
  have hsecretRead : decodeCanonicalComponent token.secret = some secret := by
    refine decodeCanonicalComponent_eq_some.mpr ⟨?_, hsecret⟩
    have hlength := h.length_secret
    exact List.ne_nil_of_length_pos (by omega)
  rw [parseToken?, if_neg (by simp [hne, h.length_text_le]), if_neg (not_not_intro hbegins),
    h.splitOn_text]
  simp only [if_neg hlengths, hpublicRead, hsecretRead, Option.bind_eq_bind, Option.bind_some,
    hsecretLength, if_true]

end ParsedToken

/-- **The tokens of a kind** are the texts of its canonical parts. -/
theorem parseToken?_eq_some {raw : Str} {expectedKind : KeyKind} {token : ParsedToken} :
    parseToken? raw expectedKind = some token ↔
      token.kind = expectedKind ∧ raw = token.text ∧ token.Canonical := by
  constructor
  · intro h
    rw [parseToken?] at h
    split at h
    · cases h
    split at h
    · cases h
    rename_i hbegins
    split at h
    · rename_i publicId secret hsplit
      split at h
      · cases h
      rename_i hlengths
      obtain ⟨identity, hpublic, h⟩ := Option.bind_eq_some_iff.mp h
      obtain ⟨bytes, hbytes, h⟩ := Option.bind_eq_some_iff.mp h
      split at h
      · rename_i hlength
        cases h
        have hrest := eq_of_splitOn_dot hsplit
        have hraw : raw = tokenPrefix expectedKind ++ publicId ++ '.' :: secret := by
          calc raw = raw.take (tokenPrefix expectedKind).length
                ++ raw.drop (tokenPrefix expectedKind).length := (List.take_append_drop _ _).symm
            _ = tokenPrefix expectedKind ++ (publicId ++ '.' :: secret) := by
                rw [not_not.mp hbegins, hrest]
            _ = _ := (List.append_assoc _ _ _).symm
        have hpublicEq := (decodeCanonicalComponent_eq_some.mp hpublic).2
        have hsecretEq := (decodeCanonicalComponent_eq_some.mp hbytes).2
        have hge : minPublicIdLength ≤ publicId.length := by omega
        have hle : publicId.length ≤ maxPublicIdLength := by omega
        exact ⟨rfl, hraw, ⟨hge, hle, ⟨identity, hpublicEq⟩, ⟨bytes, hlength, hsecretEq⟩⟩⟩
      · cases h
    · cases h
  · rintro ⟨rfl, rfl, h⟩
    exact h.parse

theorem parseToken_eq_ok {raw : Str} {expectedKind : KeyKind} {token : ParsedToken} :
    parseToken raw expectedKind = .ok token ↔
      token.kind = expectedKind ∧ raw = token.text ∧ token.Canonical := by
  rw [← parseToken?_eq_some, parseToken]
  cases parseToken? raw expectedKind with
  | none => simp
  | some parsed => simp

theorem take_tokenPrefix_ne {kind other : KeyKind} (hne : other ≠ kind) :
    (tokenPrefix kind).take 8 ≠ (tokenPrefix other).take 8 := by
  cases kind <;> cases other <;> first | exact absurd rfl hne | decide

/-- No text is a token of both kinds. -/
theorem parseToken_other {token : ParsedToken} {kind : KeyKind} (hne : kind ≠ token.kind) :
    parseToken token.text kind = .error invalidApiKeyError := by
  have hlength : ∀ kind, 8 ≤ (tokenPrefix kind).length := by
    intro kind
    cases kind <;> decide
  have hbegins : token.text.take (tokenPrefix kind).length ≠ tokenPrefix kind := by
    intro h
    -- the words of the two kinds differ within their first eight characters
    have height := congrArg (List.take 8) h
    rw [List.take_take, min_eq_left (hlength kind), ParsedToken.text, List.append_assoc,
      List.take_append_of_le_length (hlength token.kind)] at height
    exact take_tokenPrefix_ne hne height
  have hnone : parseToken? token.text kind = none := by
    rw [parseToken?, if_pos hbegins]
    split <;> rfl
  rw [parseToken, hnone]

/-! ## Secrets -/

/-- What an HMAC with SHA-256 returns. -/
abbrev Digest := {bytes : Bytes // bytes.length = digestBytes}

/-- What `secrets.token_bytes(n)` returns. -/
abbrev RandomBytes (n : ℕ) := {bytes : Bytes // bytes.length = n}

section Secrets

-- `hmac.new(key, message, hashlib.sha256).digest()`
variable (hmac : Bytes → Bytes → Digest)

/-- `_digest_secret`, `none` for a secret that is not canonical. -/
def digestSecret? (secret hmacSecret : Str) : Option Digest := do
  let decoded ← decodeCanonicalComponent secret
  if decoded.length = secretBytes then some (hmac (encode hmacSecret) (encode secret)) else none

/-- `digest_secret`. -/
def digestSecret (secret hmacSecret : Str) : Except BusinessError Digest :=
  match digestSecret? hmac secret hmacSecret with
  | some digest => .ok digest
  | none => .error invalidApiKeyError

/-- `verify_secret`. -/
def verifySecret (secret : Str) (expectedDigest : Bytes) (hmacSecret : Str) : Bool :=
  if expectedDigest.length ≠ digestBytes then false
  else
    match digestSecret? hmac secret hmacSecret with
    | some calculated => decide (calculated.1 = expectedDigest)
    | none => false

structure GeneratedToken where
  token : Str
  publicId : Str
  digest : Bytes

/-- `generate_token`, with the bytes that the system returns. -/
def generateToken (kind : KeyKind) (publicBytes : RandomBytes publicIdBytes)
    (randomSecret : RandomBytes secretBytes) (hmacSecret : Str) : Except BusinessError GeneratedToken :=
  let publicId := encodeComponent publicBytes.1
  let secret := encodeComponent randomSecret.1
  let token := tokenPrefix kind ++ publicId ++ '.' :: secret
  if maxTokenLength < token.length then .error internalError
  else
    match digestSecret? hmac secret hmacSecret with
    | some digest => .ok ⟨token, publicId, digest.1⟩
    | none => .error internalError

/-- What is made of random bytes. -/
def newToken (kind : KeyKind) (publicBytes : RandomBytes publicIdBytes)
    (randomSecret : RandomBytes secretBytes) : ParsedToken :=
  ⟨kind, encodeComponent publicBytes.1, encodeComponent randomSecret.1⟩

theorem canonical_newToken (kind : KeyKind) (publicBytes : RandomBytes publicIdBytes)
    (randomSecret : RandomBytes secretBytes) : (newToken kind publicBytes randomSecret).Canonical := by
  have hlength : (encodeComponent publicBytes.1).length = 22 := by
    rw [encodeComponent, Base64.length_encode, publicBytes.2]
    rfl
  refine ⟨?_, ?_, ⟨publicBytes.1, rfl⟩, ⟨randomSecret.1, randomSecret.2, rfl⟩⟩
  · exact le_of_le_of_eq (by decide) hlength.symm
  · exact le_of_eq_of_le hlength (by decide)

theorem digestSecret?_encodeComponent (randomSecret : RandomBytes secretBytes) (hmacSecret : Str) :
    digestSecret? hmac (encodeComponent randomSecret.1) hmacSecret =
      some (hmac (encode hmacSecret) (encode (encodeComponent randomSecret.1))) := by
  have hne : randomSecret.1 ≠ [] :=
    List.ne_nil_of_length_pos (by rw [randomSecret.2]; decide)
  have hread : decodeCanonicalComponent (encodeComponent randomSecret.1) = some randomSecret.1 :=
    decodeCanonicalComponent_eq_some.mpr ⟨encodeComponent_ne_nil hne, rfl⟩
  rw [digestSecret?, hread]
  exact if_pos randomSecret.2

theorem verifySecret_of_digest {secret hmacSecret : Str} {digest : Digest}
    (h : digestSecret? hmac secret hmacSecret = some digest) :
    verifySecret hmac secret digest.1 hmacSecret = true := by
  rw [verifySecret, if_neg (not_not_intro digest.2), h]
  exact decide_eq_true rfl

theorem generateToken_eq (kind : KeyKind) (publicBytes : RandomBytes publicIdBytes)
    (randomSecret : RandomBytes secretBytes) (hmacSecret : Str) :
    generateToken hmac kind publicBytes randomSecret hmacSecret =
      .ok ⟨(newToken kind publicBytes randomSecret).text, (newToken kind publicBytes randomSecret).publicId,
        (hmac (encode hmacSecret) (encode (encodeComponent randomSecret.1))).1⟩ := by
  have hlength := (canonical_newToken kind publicBytes randomSecret).length_text_le
  simp only [generateToken, digestSecret?_encodeComponent]
  exact if_neg (not_lt.mpr hlength)

/-- **The tokens** are exactly the texts with canonical parts, different tokens stand for different
keys, and a generated token is one of its kind and of no other and carries the secret of its
digest. -/
theorem token_format :
    (∀ (raw : Str) (kind : KeyKind) (token : ParsedToken), parseToken raw kind = .ok token ↔
      token.kind = kind ∧ raw = token.text ∧ token.Canonical) ∧
    (∀ (raw raw' : Str) (token token' : ParsedToken),
      parseToken raw token.kind = .ok token → parseToken raw' token'.kind = .ok token' →
      token.kind = token'.kind → token.publicId = token'.publicId →
      decodeCanonicalComponent token.secret = decodeCanonicalComponent token'.secret → raw = raw') ∧
    ∀ (kind : KeyKind) (publicBytes : RandomBytes publicIdBytes) (randomSecret : RandomBytes secretBytes)
      (hmacSecret : Str), ∃ generated token,
        generateToken hmac kind publicBytes randomSecret hmacSecret = .ok generated ∧
        parseToken generated.token kind = .ok token ∧ token.publicId = generated.publicId ∧
        verifySecret hmac token.secret generated.digest hmacSecret = true ∧
        ∀ other, other ≠ kind → parseToken generated.token other = .error invalidApiKeyError := by
  refine ⟨fun _ _ _ => parseToken_eq_ok, ?_, ?_⟩
  · intro raw raw' token token' h h' hkind hpublic hsecret
    obtain ⟨-, hraw, -⟩ := parseToken_eq_ok.mp h
    obtain ⟨-, hraw', hcanonical'⟩ := parseToken_eq_ok.mp h'
    obtain ⟨bytes, -, hbytes⟩ := hcanonical'.secret_eq
    have hne : token'.secret ≠ [] :=
      List.ne_nil_of_length_pos (by rw [hcanonical'.length_secret]; decide)
    have hread := decodeCanonicalComponent_eq_some.mpr ⟨hne, hbytes⟩
    have hsame : token.secret = token'.secret := by
      rw [hread] at hsecret
      rw [(decodeCanonicalComponent_eq_some.mp hsecret).2, hbytes]
    rw [hraw, hraw', ParsedToken.text, ParsedToken.text, hkind, hpublic, hsame]
  · intro kind publicBytes randomSecret hmacSecret
    refine ⟨_, newToken kind publicBytes randomSecret,
      generateToken_eq hmac kind publicBytes randomSecret hmacSecret, ?_, rfl, ?_, ?_⟩
    · exact parseToken_eq_ok.mpr ⟨rfl, rfl, canonical_newToken kind publicBytes randomSecret⟩
    · exact verifySecret_of_digest hmac (digestSecret?_encodeComponent hmac randomSecret hmacSecret)
    · intro other hother
      exact parseToken_other hother

end Secrets

end VeloxRag.Auth
