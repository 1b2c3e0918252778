import VeloxRag.Lib.PercentCoding
import VeloxRag.Providers.AddressTexts

/-!
# Endpoint URLs

`validate_provider_endpoint_url` brings the base URL of a provider into one form: a host in lower
case or an address in its compressed text, no default port, and a path whose segments are decoded,
normalized and escaped again.  `urlsplit` is that of the standard library.  The Unicode operations
on texts that are not ASCII are a parameter.

## Main definitions

* `urlsplit`, `SplitResult.hostname`, `SplitResult.port` — `urllib.parse`.
* `canonicalHostname`, `canonicalPath` — `_canonical_hostname` and `_canonical_path`.
* `validateProviderEndpointUrl` — `_validate_provider_endpoint_url`.

## Main results

* `endpoint_canonical` — the form is its own form, and the policy accepts the endpoint again.
* `endpoint_path_safe` — no segment is read as a separator, a control character or a dot segment,
  whether it is decoded once or twice.
-/

namespace VeloxRag.NetworkPolicy

open Lib (utf8Bytes)
open Lib.Percent (quote containsEscape replaceEscape unquote)

/-! ## Texts -/

def isAscii (c : Char) : Bool := decide (c.toNat < 128)

/-- The operations of `str`, `unicodedata` and the IDNA codec on texts that are not ASCII. -/
structure UnicodeText where
  lower : Str → Str
  nfkc : Str → Str
  nfc : Str → Str
  idna : Str → Option Str

/-- Normalization keeps what is ASCII, is done once, and leaves no text empty. -/
structure UnicodeText.Lawful (U : UnicodeText) : Prop where
  nfc_ascii : ∀ s : Str, s.all isAscii = true → U.nfc s = s
  nfc_nfc : ∀ s, U.nfc (U.nfc s) = U.nfc s
  nfc_ne_nil : ∀ s, s ≠ [] → U.nfc s ≠ []

/-- `str.lower()`. -/
def lowerText (U : UnicodeText) (s : Str) : Str :=
  if s.all isAscii then s.map Char.toLower else U.lower s

/-- `str.partition`: what is before the separator, whether it is there, and what is after it. -/
def partition (sep : Char) (s : Str) : Str × Bool × Str :=
  (s.takeWhile (· ≠ sep), decide (sep ∈ s), (s.dropWhile (· ≠ sep)).tail)

/-- `str.rpartition(sep)[2]`. -/
def afterLast (sep : Char) (s : Str) : Str := (s.reverse.takeWhile (· ≠ sep)).reverse

/-! ## `urllib.parse` -/

/-- `SplitResult`. -/
structure SplitResult where
  scheme : Str
  netloc : Str
  path : Str
  query : Str
  fragment : Str

/-- `scheme_chars`. -/
def isSchemeChar (c : Char) : Bool := c.isAlphanum || ['+', '-', '.'].contains c

/-- The scheme in lower case, if there is one, and the rest. -/
def splitScheme (url : Str) : Str × Str :=
  let (scheme, found, rest) := partition ':' url
  if found ∧ (scheme.head?.any Char.isAlpha) ∧ scheme.all isSchemeChar then
    (scheme.map Char.toLower, rest)
  else ([], url)

/-- The pattern of an `IPvFuture` address. -/
def isIpvFuture (hostname : Str) : Bool :=
  let digits := hostname.tail.takeWhile fun c => (hexDigit? c).isSome
  let rest := hostname.tail.dropWhile fun c => (hexDigit? c).isSome
  decide (digits ≠ [] ∧ rest.head? = some '.' ∧ rest.tail ≠ [] ∧ '\n' ∉ rest.tail)

/-- `_check_bracketed_host`. -/
def checkBracketedHost (hostname : Str) : Bool :=
  if hostname.head? = some 'v' then isIpvFuture hostname
  else
    match ipAddress hostname with
    | some (.v6 _ _) => true
    | _ => false

/-- `_check_bracketed_netloc`. -/
def checkBracketedNetloc (netloc : Str) : Bool :=
  let hostnameAndPort := afterLast '@' netloc
  let (before, opened, bracketed) := partition '[' hostnameAndPort
  if opened then
    let (hostname, _, port) := partition ']' bracketed
    decide (before = [] ∧ (port = [] ∨ port.head? = some ':')) && checkBracketedHost hostname
  else checkBracketedHost (partition ':' hostnameAndPort).1

/-- `_checknetloc`. -/
def checkNetloc (U : UnicodeText) (netloc : Str) : Bool :=
  netloc.all isAscii ||
    (let n := netloc.filter (· ∉ ['@', ':', '#', '?'])
     decide (U.nfkc n = n) || (U.nfkc n).all (· ∉ ['/', '?', '#', '@', ':']))

/-- A text where `_splitnetloc` ends. -/
def isDelimiter (c : Char) : Bool := ['/', '?', '#'].contains c

/-- `urlsplit`, of a text without spaces and control characters. -/
def urlsplit (U : UnicodeText) (url : Str) : Option SplitResult :=
  let (scheme, rest) := splitScheme url
  let (netloc, rest) :=
    if rest.take 2 = ['/', '/'] then
      ((rest.drop 2).takeWhile (!isDelimiter ·), (rest.drop 2).dropWhile (!isDelimiter ·))
    else ([], rest)
  if decide ('[' ∈ netloc) ≠ decide (']' ∈ netloc) then none
  else if '[' ∈ netloc ∧ checkBracketedNetloc netloc = false then none
  else if checkNetloc U netloc = false then none
  else
    let (rest, _, fragment) := partition '#' rest
    let (path, _, query) := partition '?' rest
    some { scheme, netloc, path, query, fragment }

/-- `_hostinfo`. -/
def SplitResult.hostinfo (r : SplitResult) : Str × Option Str :=
  let hostinfo := afterLast '@' r.netloc
  let (_, opened, bracketed) := partition '[' hostinfo
  let (hostname, port) :=
    if opened then
      let (hostname, _, port) := partition ']' bracketed
      (hostname, (partition ':' port).2.2)
    else ((partition ':' hostinfo).1, (partition ':' hostinfo).2.2)
  (hostname, if port = [] then none else some port)

/-- `username is not None`. -/
def SplitResult.hasUserinfo (r : SplitResult) : Bool := decide ('@' ∈ r.netloc)

/-- `hostname`; the zone of an address keeps its case. -/
def SplitResult.hostname (U : UnicodeText) (r : SplitResult) : Option Str :=
  if r.hostinfo.1 = [] then none
  else
    let (hostname, percent, zone) := partition '%' r.hostinfo.1
    some (lowerText U hostname ++ if percent then '%' :: zone else [])

/-- `port`, with `none` outside for a `ValueError`. -/
def SplitResult.port (r : SplitResult) : Option (Option ℕ) :=
  match r.hostinfo.2 with
  | none => some none
  | some port =>
    if port.all isDecimalDigit ∧ decimalValue port ≤ 65535 then some (some (decimalValue port))
    else none

/-! ## The host -/

/-- `_MAX_HOSTNAME_LENGTH`. -/
def maxHostnameLength : ℕ := 253

def isLowerAlphanum (c : Char) : Bool := decide ('a' ≤ c ∧ c ≤ 'z') || isDecimalDigit c

/-- `_DNS_LABEL_PATTERN`. -/
def isDnsLabel (label : Str) : Bool :=
  label.head?.any isLowerAlphanum && label.getLast?.any isLowerAlphanum &&
    label.all (fun c => isLowerAlphanum c || c = '-') && decide (label.length ≤ 63)

/-- `str.encode("idna")` and `bytes.decode("ascii")`. -/
def encodeIdna (U : UnicodeText) (s : Str) : Option Str :=
  if s.all isAscii then
    let labels := s.splitOn '.'
    if labels.dropLast.all (fun label => decide (0 < label.length ∧ label.length < 64)) ∧
        labels.getLast?.all (fun label => decide (label.length < 64)) then some s
    else none
  else U.idna s

def IPAddress.isV6 : IPAddress → Bool
  | .v4 _ => false
  | .v6 _ _ => true

/-- `_canonical_hostname`. -/
def canonicalHostname (U : UnicodeText) (rawHostname : Str) : Option (Str × Bool) :=
  if '%' ∈ rawHostname then none
  else
    match ipAddress rawHostname with
    | some address => some (lowerText U address.compressed, address.isV6)
    | none =>
      let hostname := rstripWhere (· = '.') rawHostname
      if hostname = [] then none
      else (encodeIdna U hostname).bind fun hostname =>
        let hostname := hostname.map Char.toLower
        if maxHostnameLength < hostname.length then none
        else if (hostname.splitOn '.').all isDnsLabel then some (hostname, false)
        else none

/-! ## The path -/

/-- `_MAX_PATH_LENGTH`. -/
def maxPathLength : ℕ := 1024

/-- `_decode_path_segment`. -/
def decodePathSegment (rawSegment : Str) : Option Str :=
  (Lib.Percent.decode? rawSegment).bind VeloxRag.decode?

/-- The bytes of `_SECOND_DECODE_SEPARATOR_ESCAPE_PATTERN`. -/
def isSeparatorByte (b : UInt8) : Bool := b = 0x2f || b = 0x5c

/-- The bytes of `_SECOND_DECODE_CONTROL_OR_DELIMITER_ESCAPE_PATTERN`. -/
def isControlOrDelimiterByte (b : UInt8) : Bool := b < 0x20 || b = 0x7f || b = 0x23 || b = 0x3f

def isDotSegment (s : Str) : Bool := decide (s = ['.'] ∨ s = ['.', '.'])

/-- `_has_ambiguous_second_decode_path_semantics`. -/
def hasAmbiguousSecondDecodePathSemantics (decodedSegment : Str) : Bool :=
  containsEscape isSeparatorByte decodedSegment ||
    containsEscape isControlOrDelimiterByte decodedSegment ||
      isDotSegment (replaceEscape 0x2e '.' decodedSegment)

def isControl (c : Char) : Bool := decide (c.toNat < 32 ∨ c.toNat = 127)

/-- The characters that `quote` does not escape. -/
def isUnreservedByte (b : UInt8) : Bool :=
  (Char.ofUInt8 b).isAlphanum || ['-', '.', '_', '~'].contains (Char.ofUInt8 b)

/-- A decoded segment that `_canonical_path` accepts. -/
def isAcceptedSegment (decodedSegment : Str) : Bool :=
  !isDotSegment decodedSegment && !hasAmbiguousSecondDecodePathSemantics decodedSegment &&
    !decodedSegment.any (fun c => c = '/' || c = '\\' || isControl c)

/-- One turn of the loop of `_canonical_path`. -/
def canonicalSegment (U : UnicodeText) (rawSegment : Str) : Option Str :=
  (decodePathSegment rawSegment).bind fun decoded =>
    if isAcceptedSegment (U.nfc decoded) then some (quote isUnreservedByte (encode (U.nfc decoded)))
    else none

/-- `_canonical_path`. -/
def canonicalPath (U : UnicodeText) (rawPath : Str) : Option Str :=
  if maxPathLength < rawPath.length ∨ '\\' ∈ rawPath ∨ ['/', '/'] <:+: rawPath then none
  else if rawPath.any isControl then none
  else if rawPath ≠ [] ∧ rawPath.head? ≠ some '/' then none
  else
    ((rawPath.splitOn '/').mapM (canonicalSegment U)).bind fun segments =>
      let canonical := ['/'].intercalate segments
      if canonical = ['/'] then some []
      else
        let canonical := rstripWhere (· = '/') canonical
        if maxPathLength < canonical.length then none else some canonical

/-! ## The endpoint -/

/-- `_MAX_ENDPOINT_LENGTH`. -/
def maxEndpointLength : ℕ := 2048

/-- `_DEFAULT_HTTPS_PORT`. -/
def defaultHttpsPort : ℕ := 443

/-- `_split_endpoint`. -/
def splitEndpoint (U : UnicodeText) (rawUrl : Str) : Option SplitResult :=
  if rawUrl = [] ∨ maxEndpointLength < rawUrl.length then none
  else if '?' ∈ rawUrl ∨ '#' ∈ rawUrl ∨ '\\' ∈ rawUrl then none
  else if rawUrl.any (fun c => isSpace c || decide (c.toNat < 32)) then none
  else
    (urlsplit U rawUrl).bind fun parsed =>
      if parsed.scheme.map Char.toLower ≠ "https".toList ∨ parsed.netloc = [] then none
      else if parsed.hasUserinfo then none
      else if parsed.query ≠ [] ∨ parsed.fragment ≠ [] then none
      else some parsed

def authorityOf (hostname : Str) (isIpv6 : Bool) (port : ℕ) : Str :=
  let authorityHost := if isIpv6 then '[' :: hostname ++ [']'] else hostname
  if port = defaultHttpsPort then authorityHost else authorityHost ++ ':' :: Nat.toDigits 10 port

/-- `_validate_provider_endpoint_url`. -/
def validateProviderEndpointUrl (U : UnicodeText) (rawUrl : Str) :
    Option CanonicalProviderEndpoint := do
  let parsed ← splitEndpoint U rawUrl
  let rawHostname ← parsed.hostname U
  let (hostname, isIpv6) ← canonicalHostname U rawHostname
  let parsedPort ← parsed.port
  let port := parsedPort.getD defaultHttpsPort
  if ¬(1 ≤ port ∧ port ≤ 65535) then none
  if parsedPort = none ∧ parsed.netloc.getLast? = some ':' then none
  let path ← canonicalPath U parsed.path
  let url := "https://".toList ++ authorityOf hostname isIpv6 port ++ path
  if maxEndpointLength < url.length then none
  some { url, hostname, port, path, policyVersion := providerEndpointPolicyVersion }

variable {U : UnicodeText}

/-! ## Characters -/

/-- A property of the ASCII characters is checked for each of them. -/
theorem of_isAscii (p : Char → Prop) (h : ∀ n < 128, p (Char.ofNat n)) {c : Char}
    (hc : isAscii c = true) : p c := by
  rw [← Char.ofNat_toNat c]
  exact h _ (of_decide_eq_true hc)

theorem isAscii_of_isAlphanum {c : Char} (h : c.isAlphanum = true) : isAscii c = true := by
  simp only [Char.isAlphanum, Char.isAlpha, Char.isUpper, Char.isLower, Char.isDigit,
    Bool.or_eq_true, Bool.and_eq_true, decide_eq_true_eq, ge_iff_le, UInt32.le_iff_toNat_le] at h
  apply decide_eq_true
  change c.val.toNat < 128
  rcases h with (⟨-, h⟩ | ⟨-, h⟩) | ⟨-, h⟩ <;> exact lt_of_le_of_lt h (by decide)

theorem isAscii_of_isDecimalDigit {c : Char} (h : isDecimalDigit c = true) : isAscii c = true :=
  decide_eq_true (lt_of_le_of_lt (of_decide_eq_true h).2 (by decide : '9'.toNat < 128))

theorem isAscii_of_isLowerAlphanum {c : Char} (h : isLowerAlphanum c = true) : isAscii c = true := by
  rw [isLowerAlphanum, Bool.or_eq_true] at h
  rcases h with h | h
  · exact decide_eq_true (lt_of_le_of_lt (of_decide_eq_true h).2 (by decide : 'z'.toNat < 128))
  · exact isAscii_of_isDecimalDigit h

/-- The characters of a segment that is escaped. -/
def isSegmentChar (c : Char) : Bool := c.isAlphanum || ['-', '.', '_', '~', '%'].contains c

theorem isAscii_of_isSegmentChar {c : Char} (h : isSegmentChar c = true) : isAscii c = true := by
  rw [isSegmentChar, Bool.or_eq_true, List.contains_iff_mem] at h
  rcases h with h | h
  · exact isAscii_of_isAlphanum h
  · simp only [List.mem_cons, List.not_mem_nil, or_false] at h
    rcases h with rfl | rfl | rfl | rfl | rfl <;> rfl

/-- A character that no URL is refused for. -/
def isHarmless (c : Char) : Bool :=
  decide (c ∉ ['?', '#', '\\', '@']) && !isSpace c && !isControl c

theorem ne_of_isHarmless {c : Char} (h : isHarmless c = true) :
    c ≠ '?' ∧ c ≠ '#' ∧ c ≠ '\\' ∧ c ≠ '@' := by
  refine ⟨?_, ?_, ?_, ?_⟩ <;>
    · rintro rfl
      exact absurd h (by decide)

set_option maxRecDepth 4000 in
theorem isSegmentChar_spec {c : Char} (h : isSegmentChar c = true) :
    isHarmless c = true ∧ c ≠ '/' :=
  of_isAscii (fun c => isSegmentChar c = true → isHarmless c = true ∧ c ≠ '/') (by decide)
    (isAscii_of_isSegmentChar h) h

/-! ## Segments of a path -/

theorem isUnreservedByte_safe : Lib.Percent.Safe isUnreservedByte := by
  constructor
  · intro b hb
    rw [isUnreservedByte, Bool.or_eq_true, List.contains_iff_mem] at hb
    have hascii : isAscii (Char.ofUInt8 b) = true := by
      rcases hb with hb | hb
      · exact isAscii_of_isAlphanum hb
      · simp only [List.mem_cons, List.not_mem_nil, or_false] at hb
        rcases hb with hb | hb | hb | hb <;>
          · rw [hb]
            rfl
    exact Lib.Percent.ofUInt8_lt (of_decide_eq_true hascii)
  · decide

theorem encode_of_decode? {b : Bytes} {s : Str} (h : VeloxRag.decode? b = some s) : encode s = b := by
  obtain ⟨chars, hchars, rfl⟩ := Option.map_eq_some_iff.mp h
  have hsome : (List.toByteArray b).utf8Decode?.isSome := by
    rw [hchars]
    rfl
  have hencode := ByteArray.utf8Encode_get_utf8Decode? (h := hsome)
  simp only [hchars, Option.get_some] at hencode
  have hdata := congrArg (fun x : ByteArray => x.data.toList) hencode
  simpa [List.utf8Encode, encode] using hdata

theorem decodePathSegment_quote (s : Str) :
    decodePathSegment (quote isUnreservedByte (encode s)) = some s := by
  rw [decodePathSegment, Lib.Percent.decode?_quote isUnreservedByte_safe, Option.bind_some,
    decode?_encode]

theorem canonicalSegment_eq_some {raw q : Str} (h : canonicalSegment U raw = some q) :
    ∃ d, decodePathSegment raw = some d ∧ isAcceptedSegment (U.nfc d) = true ∧
      quote isUnreservedByte (encode (U.nfc d)) = q := by
  obtain ⟨d, hd, h⟩ := Option.bind_eq_some_iff.mp h
  split_ifs at h with haccepted
  exact ⟨d, hd, haccepted, Option.some.inj h⟩

/-- **A segment** that is canonical stays as it is. -/
theorem canonicalSegment_canonical (hU : U.Lawful) {raw q : Str}
    (h : canonicalSegment U raw = some q) : canonicalSegment U q = some q := by
  obtain ⟨d, -, haccepted, rfl⟩ := canonicalSegment_eq_some h
  rw [canonicalSegment, decodePathSegment_quote, Option.bind_some, hU.nfc_nfc, if_pos haccepted]

theorem canonicalSegment_nil (hU : U.Lawful) : canonicalSegment U [] = some [] := by
  have hdecode : decodePathSegment [] = some [] := decodePathSegment_quote []
  have haccepted : isAcceptedSegment [] = true := by decide
  rw [canonicalSegment, hdecode, Option.bind_some, hU.nfc_ascii [] rfl, if_pos haccepted]
  rfl

theorem decode?_ne_nil {s : Str} {b : Bytes} (h : Lib.Percent.decode? s = some b) (hs : s ≠ []) :
    b ≠ [] := by
  cases s with
  | nil => exact absurd rfl hs
  | cons c s =>
    by_cases hc : c = '%'
    · subst hc
      rw [Lib.Percent.decode?.eq_def] at h
      simp only [ne_eq, not_true_eq_false, if_false] at h
      split at h
      · obtain ⟨x, -, h⟩ := Option.bind_eq_some_iff.mp h
        obtain ⟨rest, -, rfl⟩ := Option.map_eq_some_iff.mp h
        exact List.cons_ne_nil x rest
      · cases h
    · rw [Lib.Percent.decode?_literal hc] at h
      obtain ⟨rest, -, rfl⟩ := Option.map_eq_some_iff.mp h
      intro hnil
      exact Lib.Percent.utf8EncodeChar_ne_nil c (List.append_eq_nil_iff.mp hnil).1

theorem encode_ne_nil {s : Str} (h : s ≠ []) : encode s ≠ [] := by
  intro hnil
  have hlength := length_le_encode s
  rw [hnil, List.length_nil, Nat.le_zero] at hlength
  exact h (List.length_eq_zero_iff.mp hlength)

theorem canonicalSegment_ne_nil (hU : U.Lawful) {raw q : Str}
    (h : canonicalSegment U raw = some q) (hne : raw ≠ []) : q ≠ [] := by
  obtain ⟨d, hd, -, rfl⟩ := canonicalSegment_eq_some h
  rw [decodePathSegment] at hd
  obtain ⟨b, hb, hd⟩ := Option.bind_eq_some_iff.mp hd
  have hd0 : d ≠ [] := by
    rintro rfl
    exact decode?_ne_nil hb hne (encode_of_decode? hd).symm
  rw [Ne, Lib.Percent.quote_eq_nil]
  exact encode_ne_nil (hU.nfc_ne_nil d hd0)

theorem isSegmentChar_of_mem {raw q : Str} (h : canonicalSegment U raw = some q) {c : Char}
    (hc : c ∈ q) : isSegmentChar c = true := by
  obtain ⟨d, -, -, rfl⟩ := canonicalSegment_eq_some h
  rcases Lib.Percent.mem_quote hc with ⟨b, hb, rfl⟩ | rfl | hc
  · rw [isUnreservedByte, Bool.or_eq_true] at hb
    rw [isSegmentChar, Bool.or_eq_true]
    rcases hb with hb | hb
    · exact .inl hb
    · right
      rw [List.contains_iff_mem] at hb ⊢
      exact List.mem_append_left ['%'] hb
  · rfl
  · rw [isSegmentChar, Bool.or_eq_true]
    have hdigits : "0123456789ABCDEF".toList.all Char.isAlphanum = true := by rfl
    exact .inl (List.all_eq_true.mp hdigits c hc)

/-! ## Paths -/

/-- Segments, each after a separator. -/
def joined (segments : List Str) : Str := segments.flatMap ('/' :: ·)

@[simp] theorem joined_nil : joined [] = [] := rfl

@[simp] theorem joined_cons (q : Str) (qs : List Str) : joined (q :: qs) = '/' :: (q ++ joined qs) := rfl

theorem joined_append (qs rs : List Str) : joined (qs ++ rs) = joined qs ++ joined rs :=
  List.flatMap_append

theorem joined_concat (qs : List Str) (q : Str) : joined (qs ++ [q]) = joined qs ++ '/' :: q := by
  rw [joined_append]
  simp

theorem intercalate_cons_joined (q : Str) (qs : List Str) :
    ['/'].intercalate (q :: qs) = q ++ joined qs := by
  induction qs generalizing q with
  | nil => simp
  | cons r rs ih =>
    rw [List.intercalate_cons_of_ne_nil (List.cons_ne_nil r rs), ih, joined_cons]
    simp

/-- A path that begins with a separator consists of its segments after the first, empty one. -/
theorem splitOn_slash {raw : Str} (h : raw.head? = some '/') :
    ∃ rs, raw.splitOn '/' = [] :: rs ∧ raw = joined rs := by
  cases raw with
  | nil => cases h
  | cons c t =>
    cases h
    have hsplit : ('/' :: t).splitOn '/' = [] :: t.splitOn '/' := by
      rw [List.splitOn_cons_eq_if_modifyHead]
      simp
    refine ⟨t.splitOn '/', hsplit, ?_⟩
    rw [← List.nil_append (joined _), ← intercalate_cons_joined, ← hsplit, List.intercalate_splitOn]

theorem splitOn_joined {qs : List Str} (h : ∀ q ∈ qs, '/' ∉ q) :
    (joined qs).splitOn '/' = [] :: qs := by
  rw [← List.nil_append (joined qs), ← intercalate_cons_joined]
  apply List.splitOn_intercalate
  · rw [List.forall_mem_cons]
    exact ⟨List.not_mem_nil, h⟩
  · exact List.cons_ne_nil _ _

/-- Without two separators in a row only the last segment may be empty. -/
theorem ne_nil_of_mem_dropLast {rs : List Str} (h : ¬['/', '/'] <:+: joined rs) :
    ∀ r ∈ rs.dropLast, r ≠ [] := by
  rintro r hr rfl
  obtain ⟨xs, ys, hsplit⟩ := List.append_of_mem hr
  have hne : rs ≠ [] := by
    rintro rfl
    exact absurd hr List.not_mem_nil
  apply h
  have hrs : rs = xs ++ [] :: (ys ++ [rs.getLast hne]) := by
    rw [← List.cons_append, ← List.append_assoc, ← hsplit, List.dropLast_append_getLast]
  obtain ⟨z, zs, hz⟩ : ∃ z zs, ys ++ [rs.getLast hne] = z :: zs :=
    List.exists_cons_of_ne_nil (by simp)
  rw [hrs, hz, joined_append, joined_cons, joined_cons]
  exact ⟨joined xs, z ++ joined zs, by simp⟩

theorem infix_of_infix_append {q t : Str} (hq : '/' ∉ q) (h : ['/', '/'] <:+: q ++ t) :
    ['/', '/'] <:+: t := by
  induction q with
  | nil => exact h
  | cons c q ih =>
    rw [List.mem_cons, not_or] at hq
    rw [List.cons_append, List.infix_cons_iff] at h
    rcases h with h | h
    · rw [List.cons_prefix_cons] at h
      exact absurd h.1 hq.1
    · exact ih hq.2 h

/-- Segments that are not empty leave no two separators in a row. -/
theorem no_double_slash {qs : List Str} (h : ∀ q ∈ qs, q ≠ [] ∧ '/' ∉ q) :
    ¬['/', '/'] <:+: joined qs := by
  induction qs with
  | nil =>
    intro hinfix
    exact absurd (List.infix_nil.mp hinfix) (by simp)
  | cons q qs ih =>
    rw [List.forall_mem_cons] at h
    intro hinfix
    rw [joined_cons, List.infix_cons_iff] at hinfix
    rcases hinfix with hprefix | hinfix
    · obtain ⟨c, q', hcons⟩ := List.exists_cons_of_ne_nil h.1.1
      rw [List.cons_prefix_cons, hcons, List.cons_append, List.cons_prefix_cons] at hprefix
      apply h.1.2
      rw [hcons, hprefix.2.1]
      exact List.mem_cons_self
    · exact ih h.2 (infix_of_infix_append h.1.2 hinfix)

theorem rstripWhere_concat (p : Char → Bool) (s : Str) (c : Char) :
    rstripWhere p (s ++ [c]) = if p c then rstripWhere p s else s ++ [c] := by
  rw [rstripWhere, List.reverse_append, List.reverse_singleton, List.singleton_append,
    List.dropWhile_cons]
  split_ifs
  · rfl
  · simp

theorem rstrip_joined {qs : List Str} (h : ∀ q ∈ qs, q ≠ [] ∧ '/' ∉ q) :
    rstripWhere (· = '/') (joined qs) = joined qs := by
  rcases List.eq_nil_or_concat qs with rfl | ⟨xs, q, rfl⟩
  · rfl
  · obtain ⟨hne, hslash⟩ := h q (by simp)
    rcases List.eq_nil_or_concat q with rfl | ⟨q', c, rfl⟩
    · exact absurd rfl hne
    · have hc : c ≠ '/' := by
        rintro rfl
        exact hslash (by simp)
      have htext : joined (xs ++ [q' ++ [c]]) = (joined xs ++ '/' :: q') ++ [c] := by
        rw [joined_concat, List.append_assoc, List.cons_append]
      rw [List.concat_eq_append] at *
      rw [List.concat_eq_append, htext, rstripWhere_concat, if_neg (by simpa using hc)]

theorem mapM_self {α : Type*} {f : α → Option α} {xs : List α} (h : ∀ x ∈ xs, f x = some x) :
    xs.mapM f = some xs := by
  induction xs with
  | nil => rfl
  | cons x xs ih =>
    rw [List.forall_mem_cons] at h
    rw [List.mapM_cons, h.1, ih h.2]
    rfl

/-- A segment of a canonical path. -/
def IsCanonicalSegment (U : UnicodeText) (q : Str) : Prop := q ≠ [] ∧ canonicalSegment U q = some q

theorem IsCanonicalSegment.no_slash {q : Str} (h : IsCanonicalSegment U q) : '/' ∉ q :=
  fun hmem => (isSegmentChar_spec (isSegmentChar_of_mem h.2 hmem)).2 rfl

theorem isHarmless_of_mem_joined {qs : List Str} (h : ∀ q ∈ qs, IsCanonicalSegment U q) {c : Char}
    (hc : c ∈ joined qs) : isHarmless c = true ∧ isAscii c = true := by
  obtain ⟨q, hq, hc⟩ := List.mem_flatMap.mp hc
  rcases List.mem_cons.mp hc with rfl | hc
  · decide
  · have hsegment := isSegmentChar_of_mem (h q hq).2 hc
    exact ⟨(isSegmentChar_spec hsegment).1, isAscii_of_isSegmentChar hsegment⟩

/-- Both ends of a path that is not empty are checked away: what is left are segments. -/
theorem rstrip_segments (hU : U.Lawful) {rs qs : List Str} (hinside : ∀ r ∈ rs.dropLast, r ≠ [])
    (hqs : rs.mapM (canonicalSegment U) = some qs) :
    ∃ ps, rstripWhere (· = '/') (joined qs) = joined ps ∧ ∀ p ∈ ps, IsCanonicalSegment U p := by
  rcases List.eq_nil_or_concat rs with rfl | ⟨init, last, rfl⟩
  · cases hqs
    exact ⟨[], rfl, by simp⟩
  · rw [List.concat_eq_append] at hqs hinside
    rw [List.dropLast_concat] at hinside
    rw [List.mapM_append] at hqs
    obtain ⟨qinit, hqinit, hqs⟩ := Option.bind_eq_some_iff.mp hqs
    obtain ⟨qlast', hqlast, hqs⟩ := Option.bind_eq_some_iff.mp hqs
    cases hqs
    rw [List.mapM_cons, List.mapM_nil] at hqlast
    obtain ⟨qlast, hlast, hqlast⟩ := Option.bind_eq_some_iff.mp hqlast
    cases hqlast
    have hinit : ∀ p ∈ qinit, IsCanonicalSegment U p := by
      intro p hp
      obtain ⟨r, hr, hrp⟩ := (mapM_eq_some hqinit).2 p hp
      exact ⟨canonicalSegment_ne_nil hU hrp (hinside r hr), canonicalSegment_canonical hU hrp⟩
    have hstrip : rstripWhere (· = '/') (joined qinit) = joined qinit :=
      rstrip_joined fun p hp => ⟨(hinit p hp).1, (hinit p hp).no_slash⟩
    by_cases hempty : qlast = []
    · refine ⟨qinit, ?_, hinit⟩
      rw [hempty, joined_concat, rstripWhere_concat, if_pos (by simp), hstrip]
    · have hall : ∀ p ∈ qinit ++ [qlast], IsCanonicalSegment U p := by
        intro p hp
        rcases List.mem_append.mp hp with hp | hp
        · exact hinit p hp
        · rw [List.mem_singleton.mp hp]
          exact ⟨hempty, canonicalSegment_canonical hU hlast⟩
      exact ⟨qinit ++ [qlast], rstrip_joined fun p hp => ⟨(hall p hp).1, (hall p hp).no_slash⟩, hall⟩

/-- What `_canonical_path` returns. -/
theorem canonicalPath_eq_some (hU : U.Lawful) {raw path : Str} (h : canonicalPath U raw = some path) :
    path.length ≤ maxPathLength ∧ ∃ ps, path = joined ps ∧ ∀ p ∈ ps, IsCanonicalSegment U p := by
  rw [canonicalPath] at h
  split_ifs at h with h1 h2 h3
  simp only [not_or, not_and, not_not] at h1 h3
  obtain ⟨segments, hsegments, h⟩ := Option.bind_eq_some_iff.mp h
  have hps : ∃ ps, rstripWhere (· = '/') (['/'].intercalate segments) = joined ps ∧
      ∀ p ∈ ps, IsCanonicalSegment U p := by
    by_cases hraw : raw = []
    · subst hraw
      have hnil : ([] : Str).splitOn '/' = [[]] := rfl
      rw [hnil, List.mapM_cons, canonicalSegment_nil hU] at hsegments
      cases hsegments
      exact ⟨[], rfl, by simp⟩
    · obtain ⟨rs, hsplit, hjoined⟩ := splitOn_slash (h3 hraw)
      rw [hsplit, List.mapM_cons, canonicalSegment_nil hU] at hsegments
      obtain ⟨q0, hq0, hsegments⟩ := Option.bind_eq_some_iff.mp hsegments
      obtain ⟨qs, hqs, hsegments⟩ := Option.bind_eq_some_iff.mp hsegments
      cases hq0
      cases hsegments
      rw [intercalate_cons_joined, List.nil_append]
      rw [hjoined] at h1
      exact rstrip_segments hU (ne_nil_of_mem_dropLast h1.2.2) hqs
  obtain ⟨ps, hstrip, hps⟩ := hps
  dsimp only at h
  split_ifs at h with hroot hlong
  · cases h
    exact ⟨Nat.zero_le _, [], rfl, by simp⟩
  · cases h
    exact ⟨Nat.le_of_not_lt hlong, ps, hstrip, hps⟩

/-- **A path** of canonical segments stays as it is. -/
theorem canonicalPath_joined (hU : U.Lawful) {ps : List Str} (h : ∀ p ∈ ps, IsCanonicalSegment U p)
    (hlength : (joined ps).length ≤ maxPathLength) :
    canonicalPath U (joined ps) = some (joined ps) := by
  have hseg : ∀ p ∈ ps, p ≠ [] ∧ '/' ∉ p := fun p hp => ⟨(h p hp).1, (h p hp).no_slash⟩
  have hstrip := rstrip_joined hseg
  have hmapM : ([] :: ps).mapM (canonicalSegment U) = some ([] :: ps) := by
    apply mapM_self
    rw [List.forall_mem_cons]
    exact ⟨canonicalSegment_nil hU, fun p hp => (h p hp).2⟩
  have hbackslash : '\\' ∉ joined ps :=
    fun hc => (ne_of_isHarmless (isHarmless_of_mem_joined h hc).1).2.2.1 rfl
  have hcontrol : (joined ps).any isControl = false := by
    rw [List.any_eq_false]
    intro c hc
    have hharmless := (isHarmless_of_mem_joined h hc).1
    simp only [isHarmless, Bool.and_eq_true, Bool.not_eq_true'] at hharmless
    simp [hharmless.2]
  have hhead : ¬(joined ps ≠ [] ∧ (joined ps).head? ≠ some '/') := by
    cases ps <;> simp
  have hroot : joined ps ≠ ['/'] := by
    intro heq
    rw [heq] at hstrip
    exact absurd hstrip (by decide)
  rw [canonicalPath, if_neg (by
      simp only [not_or]
      exact ⟨Nat.not_lt.mpr hlength, hbackslash, no_double_slash hseg⟩),
    if_neg (by simp [hcontrol]), if_neg hhead, splitOn_joined fun p hp => (hseg p hp).2, hmapM,
    Option.bind_some, intercalate_cons_joined, List.nil_append]
  dsimp only
  rw [if_neg hroot, hstrip, if_neg (Nat.not_lt.mpr hlength)]

/-! ## Hosts -/

/-- The characters of a canonical host. -/
def isHostChar (isIpv6 : Bool) (c : Char) : Bool :=
  if isIpv6 then isLowerAlphanum c && (hexDigit? c).isSome || c = ':'
  else isLowerAlphanum c || c = '.' || c = '-'

/-- A host in its canonical form. -/
structure CanonicalHost (U : UnicodeText) (hostname : Str) (isIpv6 : Bool) : Prop where
  canonical : canonicalHostname U hostname = some (hostname, isIpv6)
  chars : ∀ c ∈ hostname, isHostChar isIpv6 c = true
  nonempty : hostname ≠ []
  address : isIpv6 = true → ∃ n, ipAddress hostname = some (.v6 n none)

theorem isAscii_of_isHostChar {isIpv6 : Bool} {c : Char} (h : isHostChar isIpv6 c = true) :
    isAscii c = true := by
  cases isIpv6 with
  | true =>
    simp only [isHostChar, if_true, Bool.or_eq_true, Bool.and_eq_true, decide_eq_true_eq] at h
    rcases h with h | rfl
    · exact isAscii_of_isLowerAlphanum h.1
    · rfl
  | false =>
    simp only [isHostChar, Bool.false_eq_true, if_false, Bool.or_eq_true, decide_eq_true_eq] at h
    rcases h with (h | rfl) | rfl
    · exact isAscii_of_isLowerAlphanum h
    · rfl
    · rfl

set_option maxRecDepth 4000 in
theorem isHostChar_spec {isIpv6 : Bool} {c : Char} (h : isHostChar isIpv6 c = true) :
    isHarmless c = true ∧ c.toLower = c ∧ c ≠ '/' ∧ c ≠ '%' ∧ c ≠ '[' ∧ c ≠ ']' :=
  of_isAscii (fun c => ∀ b, isHostChar b c = true →
    isHarmless c = true ∧ c.toLower = c ∧ c ≠ '/' ∧ c ≠ '%' ∧ c ≠ '[' ∧ c ≠ ']') (by decide)
    (isAscii_of_isHostChar h) isIpv6 h

theorem lowerText_eq_self {s : Str} (h : ∀ c ∈ s, isAscii c = true ∧ c.toLower = c) :
    lowerText U s = s := by
  rw [lowerText, if_pos (List.all_eq_true.mpr fun c hc => (h c hc).1)]
  exact (List.map_congr_left fun c hc => (h c hc).2).trans (List.map_id s)

theorem lowerText_host {isIpv6 : Bool} {s : Str} (h : ∀ c ∈ s, isHostChar isIpv6 c = true) :
    lowerText U s = s :=
  lowerText_eq_self fun c hc => ⟨isAscii_of_isHostChar (h c hc), (isHostChar_spec (h c hc)).2.1⟩

theorem ipAddress_eq_v4 {s : Str} {n : Fin (2 ^ 32)} (h : ipAddress s = some (.v4 n)) :
    ipv4Number s = some n := by
  rw [ipAddress] at h
  split_ifs at h
  cases hs : ipv4Number s with
  | some m =>
    rw [hs] at h
    cases h
    rfl
  | none =>
    rw [hs] at h
    obtain ⟨⟨address, scope⟩, -, h⟩ := Option.bind_eq_some_iff.mp h
    obtain ⟨m, -, h⟩ := Option.bind_eq_some_iff.mp h
    cases h

/-- An address without a zone has no scope. -/
theorem ipAddress_eq_v6 {s : Str} {n : Fin (2 ^ 128)} {scope : Option Str}
    (h : ipAddress s = some (.v6 n scope)) (hpercent : '%' ∉ s) : scope = none ∧ ipv6Number s = some n := by
  rw [ipAddress] at h
  split_ifs at h
  cases hs : ipv4Number s with
  | some m =>
    rw [hs] at h
    cases h
  | none =>
    rw [hs] at h
    obtain ⟨⟨address, scope'⟩, hsplit, h⟩ := Option.bind_eq_some_iff.mp h
    obtain ⟨m, hm, h⟩ := Option.bind_eq_some_iff.mp h
    cases h
    rw [splitScopeId, if_pos hpercent] at hsplit
    cases hsplit
    exact ⟨rfl, hm⟩

theorem canonicalHost_v4 {hostname : Str} {n : Fin (2 ^ 32)} (h : ipAddress hostname = some (.v4 n))
    (hpercent : '%' ∉ hostname) : lowerText U (IPAddress.v4 n).compressed = hostname ∧
      CanonicalHost U hostname false := by
  have htext := compressed_of_ipv4Number (ipAddress_eq_v4 h)
  have hchars : ∀ c ∈ hostname, isHostChar false c = true := by
    intro c hc
    rw [← htext] at hc
    rcases mem_compressed_v4 hc with hdigit | rfl
    · simp [isHostChar, isLowerAlphanum, hdigit]
    · rfl
  have hlower : lowerText U (IPAddress.v4 n).compressed = hostname := by
    rw [htext, lowerText_host hchars]
  refine ⟨hlower, ?_, hchars, ?_, fun h => absurd h (by decide)⟩
  · rw [canonicalHostname, if_neg hpercent, h]
    exact congrArg (fun s => some (s, false)) hlower
  · rintro rfl
    have hnone : ipAddress [] = none := by decide
    rw [hnone] at h
    cases h

theorem canonicalHost_v6 (n : Fin (2 ^ 128)) :
    lowerText U (IPAddress.v6 n none).compressed = (IPAddress.v6 n none).compressed ∧
      CanonicalHost U (IPAddress.v6 n none).compressed true := by
  have hchars : ∀ c ∈ (IPAddress.v6 n none).compressed, isHostChar true c = true := by
    intro c hc
    rcases mem_compressed_v6 hc with ⟨d, hd, rfl⟩ | rfl
    · exact (by decide : ∀ d < 16, isHostChar true (Nat.digitChar d) = true) d hd
    · rfl
  have hlower : lowerText U (IPAddress.v6 n none).compressed = (IPAddress.v6 n none).compressed :=
    lowerText_host hchars
  have haddress := ipAddress_compressed_v6 n
  refine ⟨hlower, ?_, hchars, ?_, fun _ => ⟨n, haddress⟩⟩
  · rw [canonicalHostname, if_neg fun hc => (isHostChar_spec (hchars _ hc)).2.2.2.1 rfl, haddress]
    exact congrArg (fun s => some (s, true)) hlower
  · intro hnil
    have hnone : ipAddress [] = none := by decide
    rw [hnil, hnone] at haddress
    cases haddress

theorem mem_of_mem_splitOn (sep : Char) {c : Char} {s : Str} (h : c ∈ s) :
    c = sep ∨ ∃ part ∈ s.splitOn sep, c ∈ part := by
  have hjoin : [sep].intercalate (s.splitOn sep) = s := List.intercalate_splitOn sep
  rw [← hjoin] at h
  exact mem_intercalate h

/-- **A name** of labels is canonical. -/
theorem canonicalHost_dns {hostname : Str} (hlength : hostname.length ≤ maxHostnameLength)
    (hlabels : (hostname.splitOn '.').all isDnsLabel = true) : CanonicalHost U hostname false := by
  rw [List.all_eq_true] at hlabels
  have hlabel : ∀ label ∈ hostname.splitOn '.', label ≠ [] ∧ label.length ≤ 63 ∧
      ∀ c ∈ label, isLowerAlphanum c = true ∨ c = '-' := by
    intro label hmem
    have h := hlabels label hmem
    simp only [isDnsLabel, Bool.and_eq_true, List.all_eq_true, Bool.or_eq_true, decide_eq_true_eq] at h
    refine ⟨?_, h.2, h.1.2⟩
    rintro rfl
    exact absurd h.1.1.1 (by decide)
  have hchars : ∀ c ∈ hostname, isHostChar false c = true := by
    intro c hc
    rcases mem_of_mem_splitOn '.' hc with rfl | ⟨label, hmem, hc⟩
    · rfl
    · rcases (hlabel label hmem).2.2 c hc with hlower | rfl
      · simp [isHostChar, hlower]
      · rfl
  have hnonempty : hostname ≠ [] := by
    rintro rfl
    exact (hlabel [] (by decide)).1 rfl
  have hpercent : '%' ∉ hostname := fun hc => (isHostChar_spec (hchars _ hc)).2.2.2.1 rfl
  have hcolon : ':' ∉ hostname := fun hc => absurd (hchars _ hc) (by decide)
  cases haddress : ipAddress hostname with
  | some address =>
    cases address with
    | v4 n => exact (canonicalHost_v4 haddress hpercent).2
    | v6 n scope =>
      have hparts : hostname.splitOn ':' = [hostname] := List.splitOn_eq_singleton hcolon
      have hnone : ipv6Number hostname = none := by
        rw [ipv6Number, if_neg hnonempty, hparts]
        rfl
      rw [(ipAddress_eq_v6 haddress hpercent).2] at hnone
      cases hnone
  | none =>
    refine ⟨?_, hchars, hnonempty, fun h => absurd h (by decide)⟩
    have hstrip : rstripWhere (· = '.') hostname = hostname := by
      rcases List.eq_nil_or_concat hostname with rfl | ⟨s, c, rfl⟩
      · exact absurd rfl hnonempty
      · rw [List.concat_eq_append] at *
        rw [rstripWhere_concat, if_neg]
        intro hc
        have hc : c = '.' := by simpa using hc
        rw [hc, List.splitOn_append_cons_self s []] at hlabel
        exact (hlabel [] (by simp)).1 rfl
    have hidna : encodeIdna U hostname = some hostname := by
      rw [encodeIdna, if_pos (List.all_eq_true.mpr fun c hc => isAscii_of_isHostChar (hchars c hc))]
      dsimp only
      rw [if_pos]
      constructor
      · rw [List.all_eq_true]
        intro label hmem
        have h := hlabel label (List.mem_of_mem_dropLast hmem)
        exact decide_eq_true ⟨List.length_pos_iff.mpr h.1, Nat.lt_succ_of_le h.2.1⟩
      · rw [Option.all_eq_true]
        intro label hlast
        exact decide_eq_true (Nat.lt_succ_of_le (hlabel label (List.mem_of_getLast? hlast)).2.1)
    have hlower : hostname.map Char.toLower = hostname :=
      (List.map_congr_left fun c hc => (isHostChar_spec (hchars c hc)).2.1).trans (List.map_id _)
    rw [canonicalHostname, if_neg hpercent, haddress]
    dsimp only
    rw [hstrip, if_neg hnonempty, hidna, Option.bind_some, hlower, if_neg (Nat.not_lt.mpr hlength), if_pos (List.all_eq_true.mpr hlabels)]

/-- **A host** that is returned is canonical. -/
theorem canonicalHost_of_eq_some {raw hostname : Str} {isIpv6 : Bool}
    (h : canonicalHostname U raw = some (hostname, isIpv6)) : CanonicalHost U hostname isIpv6 := by
  rw [canonicalHostname] at h
  split_ifs at h with hpercent
  cases haddress : ipAddress raw with
  | some address =>
    rw [haddress] at h
    cases h
    cases address with
    | v4 n =>
      obtain ⟨hlower, hhost⟩ := canonicalHost_v4 (U := U) haddress hpercent
      rw [hlower]
      exact hhost
    | v6 n scope =>
      obtain ⟨rfl, -⟩ := ipAddress_eq_v6 haddress hpercent
      obtain ⟨hlower, hhost⟩ := canonicalHost_v6 (U := U) n
      rw [hlower]
      exact hhost
  | none =>
    rw [haddress] at h
    dsimp only at h
    split_ifs at h
    obtain ⟨encoded, -, h⟩ := Option.bind_eq_some_iff.mp h
    split_ifs at h with hlong hlabels
    cases h
    exact canonicalHost_dns (Nat.le_of_not_lt hlong) hlabels

/-! ## Splitting a canonical URL -/

theorem partition_append {sep : Char} {s : Str} (h : sep ∉ s) (t : Str) :
    partition sep (s ++ sep :: t) = (s, true, t) := by
  have hne : ∀ c ∈ s, (decide (c ≠ sep)) = true := by
    intro c hc
    apply decide_eq_true
    rintro rfl
    exact h hc
  rw [partition, List.takeWhile_append_of_pos hne, List.dropWhile_append_of_pos hne]
  simp

theorem partition_of_notMem {sep : Char} {s : Str} (h : sep ∉ s) :
    partition sep s = (s, false, []) := by
  have hne : ∀ c ∈ s, (decide (c ≠ sep)) = true := by
    intro c hc
    apply decide_eq_true
    rintro rfl
    exact h hc
  rw [partition, List.takeWhile_eq_self_iff.mpr hne, List.dropWhile_eq_nil_iff.mpr hne,
    decide_eq_false h]
  rfl

theorem afterLast_of_notMem {sep : Char} {s : Str} (h : sep ∉ s) : afterLast sep s = s := by
  have hne : ∀ c ∈ s.reverse, (decide (c ≠ sep)) = true := by
    intro c hc
    apply decide_eq_true
    rintro rfl
    exact h (List.mem_reverse.mp hc)
  rw [afterLast, List.takeWhile_eq_self_iff.mpr hne, List.reverse_reverse]

theorem decimalValue_toDigits (n : ℕ) : decimalValue (Nat.toDigits 10 n) = n := by
  induction n using Nat.strong_induction_on with
  | _ n ih =>
    by_cases hlt : n < 10
    · rw [Nat.toDigits_of_lt_base hlt]
      interval_cases n <;> rfl
    · rw [Nat.toDigits_of_base_le (by decide) (by omega), decimalValue_concat, ih (n / 10) (by omega)]
      have hdigit : (n % 10).digitChar.toNat - 48 = n % 10 := by
        have hmod : n % 10 < 10 := Nat.mod_lt n (by decide)
        generalize n % 10 = d at hmod
        interval_cases d <;> rfl
      rw [hdigit]
      exact Nat.div_add_mod n 10

theorem isDecimalDigit_of_mem_toDigits {n : ℕ} {c : Char} (h : c ∈ Nat.toDigits 10 n) :
    isDecimalDigit c = true := by
  have hdigit := Nat.isDigit_of_mem_toDigits (by decide) (le_refl 10) h
  simp only [Char.isDigit, Bool.and_eq_true, decide_eq_true_eq] at hdigit
  exact decide_eq_true ⟨hdigit.1, hdigit.2⟩

/-- The port as it stands in the authority. -/
def portText (port : ℕ) : Str := if port = defaultHttpsPort then [] else ':' :: Nat.toDigits 10 port

theorem authorityOf_eq (hostname : Str) (isIpv6 : Bool) (port : ℕ) :
    authorityOf hostname isIpv6 port =
      (if isIpv6 then '[' :: hostname ++ [']'] else hostname) ++ portText port := by
  rw [authorityOf, portText]
  split_ifs <;> simp

theorem mem_portText {port : ℕ} {c : Char} (h : c ∈ portText port) : c = ':' ∨ isDecimalDigit c = true := by
  rw [portText] at h
  split_ifs at h
  · cases h
  · rcases List.mem_cons.mp h with rfl | h
    · exact .inl rfl
    · exact .inr (isDecimalDigit_of_mem_toDigits h)

/-- The characters of an authority. -/
theorem mem_authorityOf {hostname : Str} {isIpv6 : Bool} {port : ℕ}
    (h : ∀ c ∈ hostname, isHostChar isIpv6 c = true) {c : Char} (hc : c ∈ authorityOf hostname isIpv6 port) :
    isHostChar isIpv6 c = true ∨ c = ':' ∨ isDecimalDigit c = true ∨ (isIpv6 = true ∧ (c = '[' ∨ c = ']')) := by
  rw [authorityOf_eq, List.mem_append] at hc
  rcases hc with hc | hc
  · cases isIpv6 with
    | true =>
      rw [if_pos rfl, List.mem_append, List.mem_cons, List.mem_singleton] at hc
      rcases hc with (hc | hc) | hc
      · exact .inr (.inr (.inr ⟨rfl, .inl hc⟩))
      · exact .inl (h c hc)
      · exact .inr (.inr (.inr ⟨rfl, .inr hc⟩))
    | false => exact .inl (h c hc)
  · rcases mem_portText hc with hc | hc
    · exact .inr (.inl hc)
    · exact .inr (.inr (.inl hc))

set_option maxRecDepth 4000 in
theorem isDecimalDigit_spec {c : Char} (h : isDecimalDigit c = true) :
    isHarmless c = true ∧ c ≠ '/' ∧ c ≠ '[' ∧ c ≠ ']' :=
  of_isAscii (fun c => isDecimalDigit c = true → isHarmless c = true ∧ c ≠ '/' ∧ c ≠ '[' ∧ c ≠ ']')
    (by decide) (isAscii_of_isDecimalDigit h) h

theorem authority_spec {hostname : Str} {isIpv6 : Bool} {port : ℕ}
    (h : ∀ c ∈ hostname, isHostChar isIpv6 c = true) {c : Char}
    (hc : c ∈ authorityOf hostname isIpv6 port) :
    isHarmless c = true ∧ isAscii c = true ∧ c ≠ '/' ∧ (isIpv6 = false → c ≠ '[' ∧ c ≠ ']') := by
  rcases mem_authorityOf h hc with hc | rfl | hc | ⟨rfl, rfl | rfl⟩
  · obtain ⟨hharmless, -, hslash, -, hopen, hclose⟩ := isHostChar_spec hc
    exact ⟨hharmless, isAscii_of_isHostChar hc, hslash, fun _ => ⟨hopen, hclose⟩⟩
  · exact ⟨rfl, rfl, by decide, fun _ => by decide⟩
  · obtain ⟨hharmless, hslash, hopen, hclose⟩ := isDecimalDigit_spec hc
    exact ⟨hharmless, isAscii_of_isDecimalDigit hc, hslash, fun _ => ⟨hopen, hclose⟩⟩
  · exact ⟨rfl, rfl, by decide, fun hfalse => absurd hfalse (by decide)⟩
  · exact ⟨rfl, rfl, by decide, fun hfalse => absurd hfalse (by decide)⟩

section Split

variable {hostname path : Str} {isIpv6 : Bool} {port : ℕ}

/-- The host and the port are found again in the authority. -/
theorem hostinfo_authorityOf (h : CanonicalHost U hostname isIpv6) {r : SplitResult}
    (hr : r.netloc = authorityOf hostname isIpv6 port) :
    r.hostinfo = (hostname, if port = defaultHttpsPort then none else some (Nat.toDigits 10 port)) := by
  have hat : '@' ∉ authorityOf hostname isIpv6 port :=
    fun hc => (ne_of_isHarmless (authority_spec h.chars hc).1).2.2.2 rfl
  have hport : (if (partition ':' (portText port)).2.2 = [] then none
      else some (partition ':' (portText port)).2.2) =
      if port = defaultHttpsPort then none else some (Nat.toDigits 10 port) := by
    by_cases hdefault : port = defaultHttpsPort
    · rw [portText, if_pos hdefault, if_pos hdefault]
      rfl
    · have hpartition : partition ':' (':' :: Nat.toDigits 10 port) = ([], true, Nat.toDigits 10 port) :=
        partition_append (s := []) List.not_mem_nil _
      rw [portText, if_neg hdefault, if_neg hdefault, hpartition, if_neg Nat.toDigits_ne_nil]
  have hclose : ']' ∉ hostname := fun hc => (isHostChar_spec (h.chars _ hc)).2.2.2.2.2 rfl
  rw [SplitResult.hostinfo, hr, afterLast_of_notMem hat, authorityOf_eq]
  cases isIpv6 with
  | true =>
    have hopened : (if true = true then '[' :: hostname ++ [']'] else hostname) ++ portText port =
        [] ++ '[' :: (hostname ++ ']' :: portText port) := by simp
    rw [hopened, partition_append List.not_mem_nil]
    dsimp only
    rw [if_pos rfl, partition_append hclose]
    dsimp only
    rw [hport]
  | false =>
    have hopen : '[' ∉ hostname ++ portText port := by
      intro hc
      have hmem : '[' ∈ authorityOf hostname false port := by
        rw [authorityOf_eq]
        exact hc
      exact ((authority_spec h.chars hmem).2.2.2 rfl).1 rfl
    have hcolon : ':' ∉ hostname := fun hc => absurd (h.chars _ hc) (by decide)
    have hsplit : partition ':' (hostname ++ portText port) =
        (hostname, (partition ':' (portText port)).2.1, (partition ':' (portText port)).2.2) := by
      rw [portText]
      split_ifs
      · rw [List.append_nil, partition_of_notMem hcolon]
        rfl
      · rw [partition_append hcolon, ← List.nil_append (':' :: _), partition_append List.not_mem_nil]
    have hplain : (if false = true then '[' :: hostname ++ [']'] else hostname) ++ portText port =
        hostname ++ portText port := rfl
    rw [hplain, partition_of_notMem hopen]
    dsimp only
    rw [if_neg Bool.false_ne_true, hsplit]
    dsimp only
    rw [hport]

/-- The brackets of an authority are those around an address of version 6. -/
theorem brackets_authorityOf (port : ℕ) (h : CanonicalHost U hostname isIpv6) :
    (decide ('[' ∈ authorityOf hostname isIpv6 port) = decide (']' ∈ authorityOf hostname isIpv6 port)) ∧
      ('[' ∈ authorityOf hostname isIpv6 port →
        checkBracketedNetloc (authorityOf hostname isIpv6 port) = true) := by
  have hat : '@' ∉ authorityOf hostname isIpv6 port :=
    fun hc => (ne_of_isHarmless (authority_spec h.chars hc).1).2.2.2 rfl
  cases isIpv6 with
  | true =>
    have hclose : ']' ∉ hostname := fun hc => (isHostChar_spec (h.chars _ hc)).2.2.2.2.2 rfl
    have htext : authorityOf hostname true port = [] ++ '[' :: (hostname ++ ']' :: portText port) := by
      rw [authorityOf_eq]
      simp
    constructor
    · rw [decide_eq_true (p := '[' ∈ _) (by rw [htext]; simp),
        decide_eq_true (p := ']' ∈ _) (by rw [htext]; simp)]
    · intro _
      obtain ⟨n, hn⟩ := h.address rfl
      have hhead : hostname.head? ≠ some 'v' :=
        fun hv => absurd (h.chars _ (List.mem_of_head? hv)) (by decide)
      have hport : portText port = [] ∨ (portText port).head? = some ':' := by
        rw [portText]
        split_ifs
        · exact .inl rfl
        · exact .inr rfl
      rw [checkBracketedNetloc, afterLast_of_notMem hat, htext, partition_append List.not_mem_nil]
      dsimp only
      rw [if_pos rfl, partition_append hclose]
      dsimp only
      rw [checkBracketedHost, if_neg hhead, hn, decide_eq_true ⟨rfl, hport⟩]
      rfl
  | false =>
    have hopen : '[' ∉ authorityOf hostname false port :=
      fun hc => ((authority_spec h.chars hc).2.2.2 rfl).1 rfl
    have hclose : ']' ∉ authorityOf hostname false port :=
      fun hc => ((authority_spec h.chars hc).2.2.2 rfl).2 rfl
    rw [decide_eq_false hopen, decide_eq_false hclose]
    exact ⟨rfl, fun hc => absurd hc hopen⟩

theorem splitScheme_https (rest : Str) :
    splitScheme ("https://".toList ++ rest) = ("https".toList, "//".toList ++ rest) := by
  have hpartition : partition ':' ("https://".toList ++ rest) =
      ("https".toList, true, "//".toList ++ rest) :=
    partition_append (s := "https".toList) (by decide) _
  rw [splitScheme, hpartition]
  dsimp only
  rw [if_pos (by decide)]
  rfl

/-- **A canonical URL** is split into its authority and its path. -/
theorem urlsplit_canonical (h : CanonicalHost U hostname isIpv6)
    (hpath : path = [] ∨ path.head? = some '/') (hharmless : ∀ c ∈ path, isHarmless c = true) :
    urlsplit U ("https://".toList ++ authorityOf hostname isIpv6 port ++ path) =
      some ⟨"https".toList, authorityOf hostname isIpv6 port, path, [], []⟩ := by
  have hauthority : ∀ c ∈ authorityOf hostname isIpv6 port, (!isDelimiter c) = true := by
    intro c hc
    obtain ⟨hc1, -, hslash, -⟩ := authority_spec h.chars hc
    simp [isDelimiter, hslash, (ne_of_isHarmless hc1).1, (ne_of_isHarmless hc1).2.1]
  have hend : path.takeWhile (!isDelimiter ·) = [] ∧ path.dropWhile (!isDelimiter ·) = path := by
    rcases hpath with rfl | hpath
    · exact ⟨rfl, rfl⟩
    · cases path with
      | nil => cases hpath
      | cons c path =>
        cases hpath
        exact ⟨rfl, rfl⟩
  obtain ⟨hbrackets, hchecked⟩ := brackets_authorityOf port h
  have hascii : checkNetloc U (authorityOf hostname isIpv6 port) = true := by
    rw [checkNetloc, Bool.or_eq_true, List.all_eq_true]
    exact .inl fun c hc => (authority_spec h.chars hc).2.1
  have hfragment : '#' ∉ path := fun hc => (ne_of_isHarmless (hharmless _ hc)).2.1 rfl
  have hquery : '?' ∉ path := fun hc => (ne_of_isHarmless (hharmless _ hc)).1 rfl
  have hnetloc : (if ("//".toList ++ (authorityOf hostname isIpv6 port ++ path)).take 2 = ['/', '/'] then
      ((("//".toList ++ (authorityOf hostname isIpv6 port ++ path)).drop 2).takeWhile (!isDelimiter ·),
        (("//".toList ++ (authorityOf hostname isIpv6 port ++ path)).drop 2).dropWhile (!isDelimiter ·))
      else ([], "//".toList ++ (authorityOf hostname isIpv6 port ++ path))) =
      (authorityOf hostname isIpv6 port, path) := by
    have hdrop : ("//".toList ++ (authorityOf hostname isIpv6 port ++ path)).drop 2 =
        authorityOf hostname isIpv6 port ++ path := rfl
    have htake : ("//".toList ++ (authorityOf hostname isIpv6 port ++ path)).take 2 = ['/', '/'] := rfl
    rw [if_pos htake, hdrop, List.takeWhile_append_of_pos hauthority,
      List.dropWhile_append_of_pos hauthority, hend.1, hend.2, List.append_nil]
  rw [urlsplit, List.append_assoc, splitScheme_https]
  dsimp only
  rw [hnetloc]
  dsimp only
  rw [if_neg (fun hne => hne hbrackets), if_neg, if_neg (by simp [hascii]),
    partition_of_notMem hfragment]
  · dsimp only
    rw [partition_of_notMem hquery]
  · rintro ⟨hopen, hfalse⟩
    rw [hchecked hopen] at hfalse
    cases hfalse

end Split

/-! ## Endpoints -/

/-- An endpoint in its canonical form. -/
structure CanonicalEndpoint (U : UnicodeText) (endpoint : CanonicalProviderEndpoint)
    (isIpv6 : Bool) : Prop where
  host : CanonicalHost U endpoint.hostname isIpv6
  port : 1 ≤ endpoint.port ∧ endpoint.port ≤ 65535
  path : endpoint.path.length ≤ maxPathLength ∧
    ∃ ps, endpoint.path = joined ps ∧ ∀ p ∈ ps, IsCanonicalSegment U p
  url : endpoint.url =
    "https://".toList ++ authorityOf endpoint.hostname isIpv6 endpoint.port ++ endpoint.path
  short : endpoint.url.length ≤ maxEndpointLength
  policyVersion : endpoint.policyVersion = providerEndpointPolicyVersion

variable {raw : Str} {endpoint : CanonicalProviderEndpoint}

/-- What the validation returns. -/
theorem canonicalEndpoint_of_eq_some (hU : U.Lawful)
    (h : validateProviderEndpointUrl U raw = some endpoint) :
    ∃ isIpv6, CanonicalEndpoint U endpoint isIpv6 := by
  rw [validateProviderEndpointUrl] at h
  obtain ⟨parsed, -, h⟩ := Option.bind_eq_some_iff.mp h
  obtain ⟨rawHostname, -, h⟩ := Option.bind_eq_some_iff.mp h
  obtain ⟨⟨hostname, isIpv6⟩, hhost, h⟩ := Option.bind_eq_some_iff.mp h
  obtain ⟨parsedPort, -, h⟩ := Option.bind_eq_some_iff.mp h
  dsimp only at h
  split at h
  · cases h
  · rename_i hport
    split at h
    · cases h
    · obtain ⟨path, hpath, h⟩ := Option.bind_eq_some_iff.mp h
      split at h
      · cases h
      · rename_i hshort
        cases h
        exact ⟨isIpv6, canonicalHost_of_eq_some hhost, not_not.mp hport,
          canonicalPath_eq_some hU hpath, rfl, Nat.le_of_not_lt hshort, rfl⟩

/-- A canonical URL passes `_split_endpoint`. -/
theorem splitEndpoint_canonical {isIpv6 : Bool} (h : CanonicalEndpoint U endpoint isIpv6) :
    splitEndpoint U endpoint.url = some ⟨"https".toList,
      authorityOf endpoint.hostname isIpv6 endpoint.port, endpoint.path, [], []⟩ := by
  obtain ⟨-, ps, hpath, hps⟩ := h.path
  have hpathSafe : ∀ c ∈ endpoint.path, isHarmless c = true := by
    intro c hc
    rw [hpath] at hc
    exact (isHarmless_of_mem_joined hps hc).1
  have hhead : endpoint.path = [] ∨ endpoint.path.head? = some '/' := by
    rw [hpath]
    cases ps
    · exact .inl rfl
    · exact .inr rfl
  have hchars : ∀ c ∈ endpoint.url, isHarmless c = true := by
    intro c hc
    rw [h.url, List.mem_append, List.mem_append] at hc
    rcases hc with (hc | hc) | hc
    · have hscheme : "https://".toList.all isHarmless = true := by rfl
      exact List.all_eq_true.mp hscheme c hc
    · exact (authority_spec h.host.chars hc).1
    · exact hpathSafe c hc
  have hspace : ¬(endpoint.url.any (fun c => isSpace c || decide (c.toNat < 32)) = true) := by
    rw [List.any_eq_true]
    rintro ⟨c, hc, hbad⟩
    have hclean := hchars c hc
    simp only [isHarmless, isControl, Bool.and_eq_true, Bool.not_eq_true', decide_eq_false_iff_not,
      not_or] at hclean
    rw [hclean.1.2, Bool.false_or, decide_eq_true_eq] at hbad
    exact hclean.2.1 hbad
  have hne : endpoint.url ≠ [] := by
    rw [h.url]
    simp
  have hauthority : authorityOf endpoint.hostname isIpv6 endpoint.port ≠ [] := by
    rw [authorityOf_eq]
    have hhost := h.host.nonempty
    split_ifs <;> simp [hhost]
  have hat : '@' ∉ authorityOf endpoint.hostname isIpv6 endpoint.port :=
    fun hc => (ne_of_isHarmless (authority_spec h.host.chars hc).1).2.2.2 rfl
  rw [splitEndpoint, if_neg (by simp [hne, h.short]), if_neg (by
      rintro (hc | hc | hc)
      · exact (ne_of_isHarmless (hchars _ hc)).1 rfl
      · exact (ne_of_isHarmless (hchars _ hc)).2.1 rfl
      · exact (ne_of_isHarmless (hchars _ hc)).2.2.1 rfl), if_neg hspace, h.url,
    urlsplit_canonical h.host hhead hpathSafe, Option.bind_some, if_neg, if_neg, if_neg]
  · simp
  · simp [SplitResult.hasUserinfo, hat]
  · simp only [hauthority, or_false, not_not]
    decide

/-- **The canonical form** is its own canonical form. -/
theorem validateProviderEndpointUrl_canonical (hU : U.Lawful) {isIpv6 : Bool}
    (h : CanonicalEndpoint U endpoint isIpv6) :
    validateProviderEndpointUrl U endpoint.url = some endpoint := by
  obtain ⟨hlength, ps, hpath, hps⟩ := h.path
  have hsplit := splitEndpoint_canonical h
  generalize hr : (⟨"https".toList, authorityOf endpoint.hostname isIpv6 endpoint.port, endpoint.path,
    [], []⟩ : SplitResult) = r at hsplit
  have hnetloc : r.netloc = authorityOf endpoint.hostname isIpv6 endpoint.port := by rw [← hr]
  have hinfo := hostinfo_authorityOf h.host hnetloc
  have hpercent : '%' ∉ endpoint.hostname :=
    fun hc => (isHostChar_spec (h.host.chars _ hc)).2.2.2.1 rfl
  have hhostname : r.hostname U = some endpoint.hostname := by
    rw [SplitResult.hostname, hinfo, if_neg h.host.nonempty, partition_of_notMem hpercent]
    dsimp only
    rw [lowerText_host h.host.chars, if_neg Bool.false_ne_true, List.append_nil]
  have hport : r.port = some (if endpoint.port = defaultHttpsPort then none else some endpoint.port) := by
    rw [SplitResult.port, hinfo]
    by_cases hdefault : endpoint.port = defaultHttpsPort
    · rw [if_pos hdefault, if_pos hdefault]
    · rw [if_neg hdefault, if_neg hdefault]
      dsimp only
      rw [decimalValue_toDigits, if_pos]
      exact ⟨List.all_eq_true.mpr fun c hc => isDecimalDigit_of_mem_toDigits hc, h.port.2⟩
  have hgetD : (if endpoint.port = defaultHttpsPort then none else some endpoint.port).getD
      defaultHttpsPort = endpoint.port := by
    split_ifs with hdefault
    · exact hdefault.symm
    · rfl
  have hlast : ¬((if endpoint.port = defaultHttpsPort then none else some endpoint.port) = none ∧
      r.netloc.getLast? = some ':') := by
    rintro ⟨hnone, hcolon⟩
    split_ifs at hnone with hdefault
    rw [hnetloc, authorityOf_eq, portText, if_pos hdefault, List.append_nil] at hcolon
    cases isIpv6 with
    | true =>
      rw [if_pos rfl, List.getLast?_concat] at hcolon
      cases hcolon
    | false => exact absurd (h.host.chars _ (List.mem_of_getLast? hcolon)) (by decide)
  have hcanonicalPath : canonicalPath U r.path = some endpoint.path := by
    rw [← hr, hpath]
    rw [hpath] at hlength
    exact canonicalPath_joined hU hps hlength
  have hshort : ¬maxEndpointLength < endpoint.url.length := Nat.not_lt.mpr h.short
  rw [validateProviderEndpointUrl, hsplit]
  simp only [bind, Option.bind_some, hhostname, h.host.canonical, hport, hgetD, hlast, if_false,
    h.port, and_self, not_true_eq_false, hcanonicalPath, ← h.url, hshort, ← h.policyVersion]

/-- An endpoint that the validation returned is refused before a connection only for its
addresses. -/
theorem resolveAndValidate_of_canonical {policy : ProviderEndpointPolicy}
    {answers : Option (List Str)} (hversion : endpoint.policyVersion = providerEndpointPolicyVersion)
    (hsame : policy.validateProviderEndpointUrl endpoint.url = some endpoint) :
    resolveAndValidate policy endpoint answers = none ↔
      ∀ raws, rawAnswers endpoint answers = some raws →
        raws = [] ∨ ∃ raw ∈ raws, validateAnswer policy raw = none := by
  have hguard : ¬(endpoint.policyVersion ≠ providerEndpointPolicyVersion ∨
      policy.validateProviderEndpointUrl endpoint.url ≠ some endpoint) := by
    simp [hversion, hsame]
  rw [resolveAndValidate, if_neg hguard]
  cases hraws : rawAnswers endpoint answers with
  | none => simp
  | some raws =>
    have hraws' : ∀ {P : List Str → Prop}, (∀ raws', some raws = some raws' → P raws') ↔ P raws :=
      ⟨fun h => h raws rfl, fun h raws' heq => Option.some.inj heq ▸ h⟩
    rw [hraws']
    change (raws.mapM (validateAnswer policy)).bind _ = none ↔ _
    cases haddresses : raws.mapM (validateAnswer policy) with
    | none =>
      refine iff_of_true rfl (.inr ?_)
      by_contra hall
      simp only [not_exists, not_and] at hall
      have hsome : ∀ {xs : List Str}, (∀ raw ∈ xs, validateAnswer policy raw ≠ none) →
          xs.mapM (validateAnswer policy) ≠ none := by
        intro xs hxs
        induction xs with
        | nil => simp
        | cons x xs ih =>
          rw [List.forall_mem_cons] at hxs
          obtain ⟨a, ha⟩ := Option.ne_none_iff_exists'.mp hxs.1
          obtain ⟨rest, hrest⟩ := Option.ne_none_iff_exists'.mp (ih hxs.2)
          simp [List.mapM_cons, ha, hrest]
      exact hsome hall haddresses
    | some addresses =>
      obtain ⟨hleft, hright⟩ := mapM_eq_some haddresses
      by_cases hempty : addresses = []
      · subst hempty
        refine iff_of_true rfl (.inl ?_)
        cases raws with
        | nil => rfl
        | cons raw raws =>
          obtain ⟨a, ha, -⟩ := hleft raw List.mem_cons_self
          cases ha
      · refine iff_of_false ?_ ?_
        · rw [Option.bind_some, if_neg hempty]
          exact Option.some_ne_none _
        · rintro (rfl | ⟨raw, hraw, hnone⟩)
          · cases haddresses
            exact hempty rfl
          · obtain ⟨a, -, ha⟩ := hleft raw hraw
            rw [hnone] at ha
            cases ha

/-- Operations that leave a text as it is, as they do where it is composed. -/
def plainText : UnicodeText := ⟨id, id, id, some⟩

theorem plainText_lawful : plainText.Lawful := ⟨fun _ _ => rfl, fun _ => rfl, fun _ h => h⟩

def sampleUrl : Str := "HTTPS://Api.Example.com.:0443/v1%2Da/%C3%A9/".toList

def sampleEndpoint : CanonicalProviderEndpoint where
  url := "https://api.example.com/v1-a/%C3%A9".toList
  hostname := "api.example.com".toList
  port := 443
  path := "/v1-a/%C3%A9".toList
  policyVersion := providerEndpointPolicyVersion

theorem validate_sampleUrl :
    validateProviderEndpointUrl plainText sampleUrl = some sampleEndpoint := by decide +kernel

/-- A literal address that is canonical is its own text. -/
theorem CanonicalHost.compressed {hostname : Str} {isIpv6 : Bool} {literal : IPAddress}
    (h : CanonicalHost U hostname isIpv6) (haddress : ipAddress hostname = some literal) :
    literal.compressed = hostname := by
  have hpercent : '%' ∉ hostname := fun hc => (isHostChar_spec (h.chars _ hc)).2.2.2.1 rfl
  cases literal with
  | v4 n => exact compressed_of_ipv4Number (ipAddress_eq_v4 haddress)
  | v6 n scope =>
    obtain ⟨rfl, -⟩ := ipAddress_eq_v6 haddress hpercent
    have hcanonical := h.canonical
    rw [canonicalHostname, if_neg hpercent, haddress] at hcanonical
    have hlower : lowerText U (IPAddress.v6 n none).compressed = hostname :=
      congrArg Prod.fst (Option.some.inj hcanonical)
    rw [← (canonicalHost_v6 (U := U) n).1, hlower]

/-- Answers that are refused: none, more than are read, or one that is no permitted address. -/
def RefusedAnswers (allowPrivateTargets : Bool) (raws : List Str) : Prop :=
  raws = [] ∨ maxResolverAnswers < raws.length ∨
    ∃ raw ∈ raws, ∀ a, ipAddress raw = some a → isPermittedAddress allowPrivateTargets a = false

theorem validateAnswer_eq_none {policy : ProviderEndpointPolicy} {raw : Str} :
    validateAnswer policy raw = none ↔
      ∀ a, ipAddress raw = some a → isPermittedAddress policy.allowPrivateTargets a = false := by
  simp [validateAnswer, Option.filter_eq_none_iff]

/-- **Canonicalization is stable**: a URL that is accepted has a canonical form that is its own
canonical form, so an endpoint is refused before a connection only for its literal address, or for
what the resolver answers. -/
theorem endpoint_canonical (hU : U.Lawful) (h : validateProviderEndpointUrl U raw = some endpoint) :
    validateProviderEndpointUrl U endpoint.url = some endpoint ∧
      ∀ (allowPrivateTargets : Bool) (answers : Option (List Str)),
        (∀ literal, ipAddress endpoint.hostname = some literal →
          (resolveAndValidate ⟨allowPrivateTargets, validateProviderEndpointUrl U⟩ endpoint answers = none ↔
            isPermittedAddress allowPrivateTargets literal = false)) ∧
        (ipAddress endpoint.hostname = none →
          (resolveAndValidate ⟨allowPrivateTargets, validateProviderEndpointUrl U⟩ endpoint answers = none ↔
            answers = none ∨ ∃ raws, answers = some raws ∧ RefusedAnswers allowPrivateTargets raws)) := by
  obtain ⟨isIpv6, hcanonical⟩ := canonicalEndpoint_of_eq_some hU h
  have hsame := validateProviderEndpointUrl_canonical hU hcanonical
  refine ⟨hsame, fun allowPrivateTargets answers => ⟨?_, ?_⟩⟩
  · intro literal haddress
    rw [resolveAndValidate_of_canonical hcanonical.policyVersion hsame, rawAnswers, haddress]
    have htext : ipAddress literal.compressed = some literal := by
      rw [hcanonical.host.compressed haddress, haddress]
    simp [validateAnswer_eq_none, htext]
  · intro haddress
    rw [resolveAndValidate_of_canonical hcanonical.policyVersion hsame, rawAnswers, haddress]
    cases answers with
    | none => simp [resolveAnswers]
    | some raws =>
      by_cases hmany : maxResolverAnswers < raws.length
      · have hunread : ¬ raws.length ≤ maxResolverAnswers := Nat.not_le.mpr hmany
        simp [resolveAnswers, RefusedAnswers, hmany, hunread]
      · simp [resolveAnswers, RefusedAnswers, validateAnswer_eq_none, hmany, Nat.not_lt.mp hmany]

/-- The resolver answers once too often. -/
theorem endpoint_canonical_sampleUrl :
    validateProviderEndpointUrl plainText sampleEndpoint.url = some sampleEndpoint ∧
      resolveAndValidate ⟨false, validateProviderEndpointUrl plainText⟩ sampleEndpoint
        (some (List.replicate 65 "8.8.8.8".toList)) = none := by
  obtain ⟨hsame, hanswers⟩ := endpoint_canonical plainText_lawful validate_sampleUrl
  refine ⟨hsame, ((hanswers false _).2 (by decide +kernel)).mpr (.inr ⟨_, rfl, .inr (.inl ?_)⟩)⟩
  rw [List.length_replicate]
  decide

/-! ## What a segment is read as -/

/-- A separator of paths or a control character. -/
def isForbiddenByte (b : UInt8) : Bool := isSeparatorByte b || b < 0x20 || b = 0x7f

/-- Bytes that a segment may be read as. -/
structure SafeReading (bytes : Bytes) : Prop where
  clean : ∀ b ∈ bytes, isForbiddenByte b = false
  notDots : bytes ≠ encode ['.'] ∧ bytes ≠ encode ['.', '.']

theorem isForbiddenByte_spec {b : UInt8} (h : isForbiddenByte b = true) :
    b.toNat < 128 ∧ (Char.ofUInt8 b = '/' ∨ Char.ofUInt8 b = '\\' ∨ isControl (Char.ofUInt8 b) = true) ∧
      (isSeparatorByte b = true ∨ isControlOrDelimiterByte b = true) := by
  simp only [isForbiddenByte, isSeparatorByte, Bool.or_eq_true, decide_eq_true_eq] at h
  rcases h with ((rfl | rfl) | h) | rfl
  · exact ⟨by decide, .inl rfl, .inl rfl⟩
  · exact ⟨by decide, .inr (.inl rfl), .inl rfl⟩
  · have hlt : b.toNat < 32 := h
    refine ⟨by omega, .inr (.inr ?_), .inr ?_⟩
    · rw [isControl, Lib.Percent.toNat_ofUInt8]
      exact decide_eq_true (.inl hlt)
    · simp [isControlOrDelimiterByte, h]
  · exact ⟨by decide, .inr (.inr rfl), .inr rfl⟩

section Readings

variable {d : Str}

theorem accepted_iff : isAcceptedSegment d = true ↔ isDotSegment d = false ∧
    hasAmbiguousSecondDecodePathSemantics d = false ∧
      ∀ c ∈ d, c ≠ '/' ∧ c ≠ '\\' ∧ isControl c = false := by
  simp [isAcceptedSegment, and_assoc]

/-- A character that is not accepted is not read from the escapes either. -/
theorem clean_of_accepted (h : isAcceptedSegment d = true) {b : UInt8}
    (hb : Char.ofUInt8 b ∈ d ∨
      ∃ high low, ['%', high, low] <:+: d ∧ Lib.Percent.byte? high low = some b) :
    isForbiddenByte b = false := by
  obtain ⟨-, hsecond, hchars⟩ := (accepted_iff).mp h
  by_contra hforbidden
  rw [Bool.not_eq_false] at hforbidden
  obtain ⟨-, hchar, hescape⟩ := isForbiddenByte_spec hforbidden
  simp only [hasAmbiguousSecondDecodePathSemantics, Bool.or_eq_false_iff] at hsecond
  rcases hb with hmem | ⟨high, low, hinfix, hbyte⟩
  · obtain ⟨hslash, hbackslash, hcontrol⟩ := hchars _ hmem
    rcases hchar with hchar | hchar | hchar
    · exact hslash hchar
    · exact hbackslash hchar
    · rw [hcontrol] at hchar
      cases hchar
  · rcases hescape with hescape | hescape
    · rw [Lib.Percent.containsEscape_of_infix hinfix hbyte hescape] at hsecond
      cases hsecond.1.1
    · rw [Lib.Percent.containsEscape_of_infix hinfix hbyte hescape] at hsecond
      cases hsecond.1.2

theorem mem_of_mem_encode {b : UInt8} (hb : b.toNat < 128) (h : b ∈ encode d) : Char.ofUInt8 b ∈ d := by
  obtain ⟨c, hc, hmem⟩ := List.mem_flatMap.mp h
  rw [← (Lib.Percent.eq_of_mem_utf8EncodeChar hmem hb).2]
  exact hc

theorem eq_of_encode_eq {s : Str} (h : encode d = encode s) : d = s := by
  have hdecode := congrArg VeloxRag.decode? h
  rw [decode?_encode, decode?_encode] at hdecode
  exact Option.some.inj hdecode

/-- **Read once**, an accepted segment is safe. -/
theorem safeReading_encode (h : isAcceptedSegment d = true) : SafeReading (encode d) := by
  have hdots := ((accepted_iff).mp h).1
  constructor
  · intro b hb
    by_cases hlt : b.toNat < 128
    · exact clean_of_accepted h (.inl (mem_of_mem_encode hlt hb))
    · by_contra hforbidden
      rw [Bool.not_eq_false] at hforbidden
      exact hlt (isForbiddenByte_spec hforbidden).1
  · constructor
    · intro heq
      rw [eq_of_encode_eq heq] at hdots
      cases hdots
    · intro heq
      rw [eq_of_encode_eq heq] at hdots
      cases hdots

/-- **Read twice**, it is safe as well. -/
theorem safeReading_unquote (h : isAcceptedSegment d = true) : SafeReading (unquote (encode d)) := by
  have hsecond := ((accepted_iff).mp h).2.1
  simp only [hasAmbiguousSecondDecodePathSemantics, Bool.or_eq_false_iff] at hsecond
  constructor
  · intro b hb
    by_cases hlt : b.toNat < 128
    · exact clean_of_accepted h (Lib.Percent.mem_unquote hlt d hb)
    · by_contra hforbidden
      rw [Bool.not_eq_false] at hforbidden
      exact hlt (isForbiddenByte_spec hforbidden).1
  · constructor
    · intro heq
      have hone : unquote (utf8Bytes d) = List.replicate 1 0x2e := heq
      have hdot := Lib.Percent.replaceEscape_of_unquote (by decide) (by decide) d hone
      have hread : replaceEscape 0x2e '.' d = ['.'] := hdot
      rw [hread] at hsecond
      cases hsecond.2
    · intro heq
      have htwo : unquote (utf8Bytes d) = List.replicate 2 0x2e := heq
      have hdots := Lib.Percent.replaceEscape_of_unquote (by decide) (by decide) d htwo
      have hread : replaceEscape 0x2e '.' d = ['.', '.'] := hdots
      rw [hread] at hsecond
      cases hsecond.2

/-- No escape of the decoded segment stands for a delimiter. -/
theorem delimiter_mem (h : isAcceptedSegment d = true) {b : UInt8} (hb : b = 0x23 ∨ b = 0x3f)
    (hmem : b ∈ unquote (encode d)) : Char.ofUInt8 b ∈ d := by
  have hsecond := ((accepted_iff).mp h).2.1
  simp only [hasAmbiguousSecondDecodePathSemantics, Bool.or_eq_false_iff] at hsecond
  have hlt : b.toNat < 128 := by
    rcases hb with rfl | rfl <;> decide
  have hdelimiter : isControlOrDelimiterByte b = true := by
    rcases hb with rfl | rfl <;> rfl
  rcases Lib.Percent.mem_unquote hlt d hmem with hmem | ⟨high, low, hinfix, hbyte⟩
  · exact hmem
  · rw [Lib.Percent.containsEscape_of_infix hinfix hbyte hdelimiter] at hsecond
    cases hsecond.1.2

end Readings

/-- **No traversal**: a segment of an accepted endpoint is decoded, and neither what it is decoded
to nor what that is decoded to again is a dot segment or has a separator or a control character;
a second decoding brings no delimiter that the first did not. -/
theorem endpoint_path_safe (hU : U.Lawful) (h : validateProviderEndpointUrl U raw = some endpoint) :
    ∀ segment ∈ endpoint.path.splitOn '/', ∃ d, decodePathSegment segment = some d ∧
      SafeReading (encode d) ∧ SafeReading (unquote (encode d)) ∧
      ∀ b ∈ unquote (encode d), b = 0x23 ∨ b = 0x3f → Char.ofUInt8 b ∈ d := by
  obtain ⟨isIpv6, hcanonical⟩ := canonicalEndpoint_of_eq_some hU h
  obtain ⟨-, ps, hpath, hps⟩ := hcanonical.path
  intro segment hsegment
  have hfixed : canonicalSegment U segment = some segment := by
    rw [hpath, splitOn_joined fun p hp => (hps p hp).no_slash, List.mem_cons] at hsegment
    rcases hsegment with rfl | hsegment
    · exact canonicalSegment_nil hU
    · exact (hps segment hsegment).2
  obtain ⟨d, -, haccepted, hquote⟩ := canonicalSegment_eq_some hfixed
  refine ⟨U.nfc d, ?_, safeReading_encode haccepted, safeReading_unquote haccepted,
    fun b hmem hb => delimiter_mem haccepted hb hmem⟩
  rw [← hquote]
  exact decodePathSegment_quote (U.nfc d)

def escapedUrl : Str := "https://api.example.com/%3F%2561".toList

def escapedEndpoint : CanonicalProviderEndpoint where
  url := escapedUrl
  hostname := "api.example.com".toList
  port := 443
  path := "/%3F%2561".toList
  policyVersion := providerEndpointPolicyVersion

/-- A segment with an escape of an escape, and one where the second decoding would bring a
delimiter. -/
theorem endpoint_path_safe_escapedUrl :
    (∃ d, decodePathSegment "%3F%2561".toList = some d ∧
      SafeReading (encode d) ∧ SafeReading (unquote (encode d)) ∧
      ∀ b ∈ unquote (encode d), b = 0x23 ∨ b = 0x3f → Char.ofUInt8 b ∈ d) ∧
    decodePathSegment "%3F%2561".toList = some "?%61".toList ∧
    unquote (encode "?%61".toList) = encode "?a".toList ∧
    validateProviderEndpointUrl plainText "https://api.example.com/%253F".toList = none := by
  have hurl : validateProviderEndpointUrl plainText escapedUrl = some escapedEndpoint := by
    decide +kernel
  refine ⟨endpoint_path_safe plainText_lawful hurl _ ?_, ?_, ?_, ?_⟩
  all_goals decide +kernel

end VeloxRag.NetworkPolicy
