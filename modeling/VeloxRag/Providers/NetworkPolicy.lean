import VeloxRag.Text

/-!
# The endpoint policy

`ProviderEndpointPolicy` resolves the host of a provider endpoint and accepts the answers only if
every single one of them is an address it permits.  Addresses are those of `ipaddress`: a number, and
for version 6 a scope.  The canonical form of an endpoint URL is a parameter; the policy only
compares it.

## Main definitions

* `IPAddress`, `ipAddress`, `IPAddress.compressed` — addresses and their texts.
* `isPermittedAddress` — `_is_permitted_address`.
* `resolveAndValidate` — `_resolve_and_validate`.
* `resolveAndValidate_eq_some` — what an accepted answer set is.
-/

namespace VeloxRag.NetworkPolicy

/-- `IPv4Address` and `IPv6Address`. -/
inductive IPAddress
  | v4 (number : Fin (2 ^ 32))
  | v6 (number : Fin (2 ^ 128)) (scopeId : Option Str)
  deriving DecidableEq

/-! ## Texts of addresses -/

/-- `"0123456789"`. -/
def isDecimalDigit (c : Char) : Bool := decide ('0' ≤ c ∧ c ≤ '9')

/-- The value of a digit of `_HEX_DIGITS`. -/
def hexDigit? (c : Char) : Option ℕ :=
  if '0' ≤ c ∧ c ≤ '9' then some (c.toNat - 48)
  else if 'a' ≤ c ∧ c ≤ 'f' then some (c.toNat - 87)
  else if 'A' ≤ c ∧ c ≤ 'F' then some (c.toNat - 55)
  else none

/-- `_parse_octet`. -/
def parseOctet (s : Str) : Option ℕ :=
  if s = [] ∨ ¬s.all isDecimalDigit ∨ 3 < s.length then none
  else if s ≠ ['0'] ∧ s.head? = some '0' then none
  else
    let value := s.foldl (fun n c => 10 * n + (c.toNat - 48)) 0
    if 255 < value then none else some value

/-- The number of a dotted quad. -/
def ipv4Number (s : Str) : Option (Fin (2 ^ 32)) := do
  let octets ← (s.splitOn '.').mapM parseOctet
  if octets.length = 4 then some (Fin.ofNat _ (octets.foldl (fun n o => 256 * n + o) 0)) else none

/-- `_parse_hextet`. -/
def parseHextet (s : Str) : Option ℕ :=
  if s = [] ∨ 4 < s.length then none
  else (s.mapM hexDigit?).map fun digits => digits.foldl (fun n d => 16 * n + d) 0

def hexText (n : ℕ) : Str := Nat.toDigits 16 n

/-- The last part of an address of version 6 may be a dotted quad. -/
def replaceDottedQuad (parts : List Str) : Option (List Str) :=
  match parts.getLast? with
  | some last =>
    if '.' ∈ last then
      (ipv4Number last).map fun n =>
        parts.dropLast ++ [hexText (n.val / 2 ^ 16), hexText (n.val % 2 ^ 16)]
    else some parts
  | none => none

/-- The positions of empty parts that are neither first nor last. -/
def emptyParts (parts : List Str) : List ℕ :=
  (List.range (parts.length - 1)).filter fun i => decide (0 < i) && decide (parts[i]? = some [])

/-- The parts before and after the omitted ones, and how many are omitted. -/
def splitParts (parts : List Str) : Option (List Str × ℕ × List Str) :=
  match emptyParts parts with
  | [] =>
    if parts.length ≠ 8 ∨ parts.head? = some [] ∨ parts.getLast? = some [] then none
    else some (parts, 0, [])
  | [skip] =>
    let high := parts.take skip
    let low := parts.drop (skip + 1)
    let high' := if high.head? = some [] then high.tail else high
    let low' := if low.getLast? = some [] then low.dropLast else low
    if (high.head? = some [] ∧ high' ≠ []) ∨ (low.getLast? = some [] ∧ low' ≠ []) then none
    else if 8 ≤ high'.length + low'.length then none
    else some (high', 8 - (high'.length + low'.length), low')
  | _ => none

/-- The number of an address of version 6. -/
def ipv6Number (s : Str) : Option (Fin (2 ^ 128)) := do
  if s = [] then none
  let parts := s.splitOn ':'
  if parts.length < 3 then none
  let parts ← replaceDottedQuad parts
  if 9 < parts.length then none
  let (high, skipped, low) ← splitParts parts
  let high ← high.mapM parseHextet
  let low ← low.mapM parseHextet
  let shift := fun (n : ℕ) (hextet : ℕ) => 2 ^ 16 * n + hextet
  some (Fin.ofNat _ (low.foldl shift (high.foldl shift 0 * 2 ^ (16 * skipped))))

/-- `_split_scope_id`. -/
def splitScopeId (s : Str) : Option (Str × Option Str) :=
  if '%' ∉ s then some (s, none)
  else
    let scope := (s.dropWhile (· ≠ '%')).tail
    if scope = [] ∨ '%' ∈ scope then none else some (s.takeWhile (· ≠ '%'), some scope)

/-- `ipaddress.ip_address`. -/
def ipAddress (s : Str) : Option IPAddress :=
  if '/' ∈ s then none
  else
    match ipv4Number s with
    | some n => some (.v4 n)
    | none => do
      let (address, scope) ← splitScopeId s
      let n ← ipv6Number address
      some (.v6 n scope)

/-- The longest run of zeros, the first of them: its start and its length. -/
def longestZeros (hextets : List ℕ) : ℕ × ℕ :=
  (hextets.zipIdx.foldl
    (fun (best, current) (hextet, i) =>
      if hextet = 0 then
        let start := if current.2 = 0 then i else current.1
        let run := (start, current.2 + 1)
        (if best.2 < run.2 then run else best, run)
      else (best, (0, 0)))
    ((0, 0), (0, 0))).1

/-- `_compress_hextets` and `":".join`. -/
def compressHextets (hextets : List ℕ) : Str :=
  let texts := hextets.map hexText
  let (start, length) := longestZeros hextets
  let compressed :=
    if 1 < length then
      (if start = 0 then [[]] else []) ++ texts.take start ++ [[]] ++ texts.drop (start + length) ++
        (if start + length = texts.length then [[]] else [])
    else texts
  [':'].intercalate compressed

/-- `address.compressed`. -/
def IPAddress.compressed : IPAddress → Str
  | .v4 n => ['.'].intercalate
      ([2 ^ 24, 2 ^ 16, 2 ^ 8, 1].map fun place => Nat.toDigits 10 (n.val / place % 256))
  | .v6 n scope =>
    compressHextets ((List.range 8).map fun i => n.val / 2 ^ (16 * (7 - i)) % 2 ^ 16) ++
      match scope with
      | some scope => '%' :: scope
      | none => []

/-! ## Kinds of addresses -/

/-- A number is in the network of a first number and a prefix length, of numbers of `width` bits. -/
def inNetwork (width : ℕ) (network : ℕ × ℕ) (n : ℕ) : Bool :=
  n / 2 ^ (width - network.2) == network.1 / 2 ^ (width - network.2)

def dotted (a b c d : ℕ) : ℕ := ((a * 256 + b) * 256 + c) * 256 + d

/-- The number whose first hextets are given. -/
def hextets (high : List ℕ) : ℕ :=
  high.foldl (fun n h => 2 ^ 16 * n + h) 0 * 2 ^ (16 * (8 - high.length))

namespace V4

def privateNetworks : List (ℕ × ℕ) :=
  [(dotted 0 0 0 0, 8), (dotted 10 0 0 0, 8), (dotted 127 0 0 0, 8), (dotted 169 254 0 0, 16),
    (dotted 172 16 0 0, 12), (dotted 192 0 0 0, 24), (dotted 192 0 0 170, 31),
    (dotted 192 0 2 0, 24), (dotted 192 168 0 0, 16), (dotted 198 18 0 0, 15),
    (dotted 198 51 100 0, 24), (dotted 203 0 113 0, 24), (dotted 240 0 0 0, 4),
    (dotted 255 255 255 255, 32)]

def privateNetworkExceptions : List (ℕ × ℕ) := [(dotted 192 0 0 9, 32), (dotted 192 0 0 10, 32)]

def isPrivate (n : ℕ) : Bool :=
  privateNetworks.any (inNetwork 32 · n) && !privateNetworkExceptions.any (inNetwork 32 · n)

def isGlobal (n : ℕ) : Bool := !inNetwork 32 (dotted 100 64 0 0, 10) n && !isPrivate n

def isLinkLocal (n : ℕ) : Bool := inNetwork 32 (dotted 169 254 0 0, 16) n

def isMulticast (n : ℕ) : Bool := inNetwork 32 (dotted 224 0 0 0, 4) n

def isUnspecified (n : ℕ) : Bool := n == 0

def isLoopback (n : ℕ) : Bool := inNetwork 32 (dotted 127 0 0 0, 8) n

def isReserved (n : ℕ) : Bool := inNetwork 32 (dotted 240 0 0 0, 4) n

/-- `_CLOUD_METADATA_ADDRESSES` of version 4. -/
def isCloudMetadata (n : ℕ) : Bool :=
  n == dotted 169 254 169 254 || n == dotted 169 254 170 2 || n == dotted 100 100 100 200 ||
    n == dotted 192 0 0 192

end V4

namespace V6

def ipv4Mapped (n : ℕ) : Option ℕ := if n / 2 ^ 32 = 0xffff then some (n % 2 ^ 32) else none

def privateNetworks : List (ℕ × ℕ) :=
  [(1, 128), (0, 128), (hextets [0, 0, 0, 0, 0, 0xffff], 96), (hextets [0x64, 0xff9b, 1], 48),
    (hextets [0x100], 64), (hextets [0x2001], 23), (hextets [0x2001, 0xdb8], 32),
    (hextets [0x2002], 16), (hextets [0x3fff], 20), (hextets [0xfc00], 7), (hextets [0xfe80], 10)]

def privateNetworkExceptions : List (ℕ × ℕ) :=
  [(hextets [0x2001, 1] + 1, 128), (hextets [0x2001, 1] + 2, 128), (hextets [0x2001, 3], 32),
    (hextets [0x2001, 4, 0x112], 48), (hextets [0x2001, 0x20], 28), (hextets [0x2001, 0x30], 28)]

def reservedNetworks : List (ℕ × ℕ) :=
  [(0, 8), (hextets [0x100], 8), (hextets [0x200], 7), (hextets [0x400], 6), (hextets [0x800], 5),
    (hextets [0x1000], 4), (hextets [0x4000], 3), (hextets [0x6000], 3), (hextets [0x8000], 3),
    (hextets [0xa000], 3), (hextets [0xc000], 3), (hextets [0xe000], 4), (hextets [0xf000], 5),
    (hextets [0xf800], 6), (hextets [0xfe00], 9)]

def isPrivate (n : ℕ) : Bool :=
  privateNetworks.any (inNetwork 128 · n) && !privateNetworkExceptions.any (inNetwork 128 · n)

def isGlobal (n : ℕ) : Bool := !isPrivate n

def isLinkLocal (n : ℕ) : Bool := inNetwork 128 (hextets [0xfe80], 10) n

def isSiteLocal (n : ℕ) : Bool := inNetwork 128 (hextets [0xfec0], 10) n

def isMulticast (n : ℕ) : Bool := inNetwork 128 (hextets [0xff00], 8) n

def isUnspecified (n : ℕ) : Bool := n == 0

def isLoopback (n : ℕ) : Bool := n == 1

def isReserved (n : ℕ) : Bool := reservedNetworks.any (inNetwork 128 · n)

/-- `sixtofour is not None`. -/
def isSixToFour (n : ℕ) : Bool := n / 2 ^ 112 == 0x2002

/-- `teredo is not None`. -/
def isTeredo (n : ℕ) : Bool := n / 2 ^ 96 == 0x20010000

/-- `_CLOUD_METADATA_ADDRESSES` of version 6; equal addresses have equal scopes. -/
def isCloudMetadata (n : ℕ) (scope : Option Str) : Bool :=
  n == hextets [0xfd00, 0xec2] + 0x254 && scope.isNone

end V6

/-- `_is_permitted_address` of an address of version 4. -/
def isPermittedV4 (allowPrivateTargets : Bool) (n : ℕ) : Bool :=
  if V4.isCloudMetadata n then false
  else if V4.isLinkLocal n || V4.isMulticast n || V4.isUnspecified n then false
  else if V4.isLoopback n then allowPrivateTargets
  else if V4.isReserved n then false
  else if allowPrivateTargets && V4.isPrivate n then true
  else V4.isGlobal n

/-- `_is_permitted_address`. -/
def isPermittedAddress (allowPrivateTargets : Bool) : IPAddress → Bool
  | .v4 n => isPermittedV4 allowPrivateTargets n
  | .v6 n scope =>
    match V6.ipv4Mapped n with
    | some mapped => isPermittedV4 allowPrivateTargets mapped
    | none =>
      if V6.isSiteLocal n || V6.isLinkLocal n || V6.isSixToFour n || V6.isTeredo n then false
      else if V6.isCloudMetadata n scope then false
      else if V6.isLinkLocal n || V6.isMulticast n || V6.isUnspecified n then false
      else if V6.isLoopback n then allowPrivateTargets
      else if V6.isReserved n then false
      else if allowPrivateTargets && V6.isPrivate n then true
      else V6.isGlobal n

/-! ## Resolution -/

/-- `CanonicalProviderEndpoint`. -/
structure CanonicalProviderEndpoint where
  url : Str
  hostname : Str
  port : ℕ
  path : Str
  policyVersion : Str
  deriving DecidableEq

/-- `ResolvedProviderEndpoint`. -/
structure ResolvedProviderEndpoint where
  endpoint : CanonicalProviderEndpoint
  addresses : List Str
  deriving DecidableEq

/-- `PROVIDER_ENDPOINT_POLICY_VERSION`. -/
def providerEndpointPolicyVersion : Str := "provider-endpoint-v1".toList

/-- `_MAX_RESOLVER_ANSWERS`. -/
def maxResolverAnswers : ℕ := 64

/-- `ProviderEndpointPolicy`, with `validate_provider_endpoint_url`. -/
structure ProviderEndpointPolicy where
  allowPrivateTargets : Bool
  validateProviderEndpointUrl : Str → Option CanonicalProviderEndpoint

/-- `_address_sort_key`. -/
def addressSortKey : IPAddress → ℕ × ℕ
  | .v4 n => (4, n)
  | .v6 n _ => (6, n)

def sortsBefore (a b : IPAddress) : Bool :=
  let x := addressSortKey a
  let y := addressSortKey b
  decide (x.1 < y.1 ∨ (x.1 = y.1 ∧ x.2 ≤ y.2))

/-- `_resolve_answers` of what the resolver answers, or of a resolver that fails. -/
def resolveAnswers (answers : Option (List Str)) : Option (List Str) :=
  answers.filter fun answers => decide (answers.length ≤ maxResolverAnswers)

/-- The answers that are validated: a literal address is not resolved. -/
def rawAnswers (endpoint : CanonicalProviderEndpoint) (answers : Option (List Str)) :
    Option (List Str) :=
  match ipAddress endpoint.hostname with
  | some literal => some [literal.compressed]
  | none => resolveAnswers answers

/-- One answer is an address that is permitted. -/
def validateAnswer (policy : ProviderEndpointPolicy) (raw : Str) : Option IPAddress :=
  (ipAddress raw).filter (isPermittedAddress policy.allowPrivateTargets)

/-- `_resolve_and_validate`; `answers` is what the resolver answers if it is asked.  Addresses that
differ only in their scope come in the order of the answers, where the source has that of a set. -/
def resolveAndValidate (policy : ProviderEndpointPolicy) (endpoint : CanonicalProviderEndpoint)
    (answers : Option (List Str)) : Option ResolvedProviderEndpoint := do
  if endpoint.policyVersion ≠ providerEndpointPolicyVersion ∨
      policy.validateProviderEndpointUrl endpoint.url ≠ some endpoint then none
  let raw ← rawAnswers endpoint answers
  let addresses ← raw.mapM (validateAnswer policy)
  if addresses = [] then none
  some ⟨endpoint, (addresses.eraseDups.mergeSort sortsBefore).map IPAddress.compressed⟩

variable {policy : ProviderEndpointPolicy} {endpoint : CanonicalProviderEndpoint}
  {answers : Option (List Str)} {resolved : ResolvedProviderEndpoint}

theorem validateAnswer_eq_some {raw : Str} {a : IPAddress} :
    validateAnswer policy raw = some a ↔
      ipAddress raw = some a ∧ isPermittedAddress policy.allowPrivateTargets a = true := by
  rw [validateAnswer, Option.filter_eq_some_iff]

/-- An answer set that is accepted: there is an address, every answer is a permitted address, and
the addresses are those of the answers. -/
structure Accepted (policy : ProviderEndpointPolicy) (endpoint : CanonicalProviderEndpoint)
    (answers : Option (List Str)) (resolved : ResolvedProviderEndpoint) : Prop where
  same : resolved.endpoint = endpoint
  nonempty : resolved.addresses ≠ []
  permitted : ∀ raws, rawAnswers endpoint answers = some raws → ∀ raw ∈ raws,
    ∃ a, ipAddress raw = some a ∧ isPermittedAddress policy.allowPrivateTargets a = true
  answered : ∀ text ∈ resolved.addresses, ∃ raws, rawAnswers endpoint answers = some raws ∧
    ∃ raw ∈ raws, ∃ a, ipAddress raw = some a ∧ a.compressed = text

theorem mem_canonical {addresses : List IPAddress} {text : Str} :
    text ∈ (addresses.eraseDups.mergeSort sortsBefore).map IPAddress.compressed ↔
      ∃ a ∈ addresses, a.compressed = text := by
  simp [List.mem_map, List.mem_mergeSort, List.mem_eraseDups]

/-- A list is mapped without failure. -/
theorem mapM_eq_some {α β : Type*} {f : α → Option β} {xs : List α} {ys : List β}
    (h : xs.mapM f = some ys) :
    (∀ x ∈ xs, ∃ y ∈ ys, f x = some y) ∧ ∀ y ∈ ys, ∃ x ∈ xs, f x = some y := by
  induction xs generalizing ys with
  | nil =>
    cases h
    simp
  | cons x xs ih =>
    rw [List.mapM_cons] at h
    obtain ⟨y, hy, h⟩ := Option.bind_eq_some_iff.mp h
    obtain ⟨rest, hrest, h⟩ := Option.bind_eq_some_iff.mp h
    cases h
    obtain ⟨hleft, hright⟩ := ih hrest
    constructor
    · intro x' hx'
      rcases List.mem_cons.mp hx' with rfl | hx'
      · exact ⟨y, List.mem_cons_self, hy⟩
      · obtain ⟨y', hy', hf⟩ := hleft x' hx'
        exact ⟨y', List.mem_cons_of_mem _ hy', hf⟩
    · intro y' hy'
      rcases List.mem_cons.mp hy' with rfl | hy'
      · exact ⟨x, List.mem_cons_self, hy⟩
      · obtain ⟨x', hx', hf⟩ := hright y' hy'
        exact ⟨x', List.mem_cons_of_mem _ hx', hf⟩

/-- What the validation accepts. -/
theorem resolveAndValidate_eq_some (h : resolveAndValidate policy endpoint answers = some resolved) :
    Accepted policy endpoint answers resolved := by
  simp only [resolveAndValidate] at h
  split at h
  · cases h
  · obtain ⟨raws, hraws, h⟩ := Option.bind_eq_some_iff.mp h
    obtain ⟨addresses, haddresses, h⟩ := Option.bind_eq_some_iff.mp h
    split at h
    · cases h
    · rename_i hnonempty
      cases h
      obtain ⟨hleft, hright⟩ := mapM_eq_some haddresses
      constructor
      · rfl
      · obtain ⟨a, ha⟩ := List.exists_mem_of_ne_nil addresses hnonempty
        exact List.ne_nil_of_mem (mem_canonical.mpr ⟨a, ha, rfl⟩)
      · intro raws' hraws' raw hraw
        cases hraws.symm.trans hraws'
        obtain ⟨a, -, ha⟩ := hleft raw hraw
        exact ⟨a, validateAnswer_eq_some.mp ha⟩
      · intro text htext
        obtain ⟨a, ha, hcompressed⟩ := mem_canonical.mp htext
        obtain ⟨raw, hraw, hvalid⟩ := hright a ha
        exact ⟨raws, hraws, raw, hraw, a, (validateAnswer_eq_some.mp hvalid).1, hcompressed⟩

/-- One answer that is no permitted address rejects the whole set. -/
theorem resolveAndValidate_of_forbidden {raws : List Str} {raw : Str}
    (hraws : rawAnswers endpoint answers = some raws) (hraw : raw ∈ raws)
    (hforbidden : ∀ a, ipAddress raw = some a →
      isPermittedAddress policy.allowPrivateTargets a = false) :
    resolveAndValidate policy endpoint answers = none := by
  by_contra hsome
  obtain ⟨resolved, hresolved⟩ := Option.ne_none_iff_exists'.mp hsome
  obtain ⟨a, ha, hpermitted⟩ :=
    (resolveAndValidate_eq_some hresolved).permitted raws hraws raw hraw
  rw [hforbidden a ha] at hpermitted
  cases hpermitted

end VeloxRag.NetworkPolicy
