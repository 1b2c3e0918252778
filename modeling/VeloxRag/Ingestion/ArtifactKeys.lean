import VeloxRag.Ingestion.ObjectKeys
import VeloxRag.Ingestion.TextValidator
import VeloxRag.Lib.Json

/-!
# Keys of artifacts

The recogniser of artifact keys reads three identities from a listed key.  Python's `UUID` accepts
many spellings of one identity (`urn:uuid:`, braces, dashes anywhere, both cases, and whatever `int`
accepts in base 16), so the recogniser writes what it read and compares.

## Main definitions

* `uuid` — the constructor `UUID`, with `int16` for `int(hex, 16)`.
* `canonicalDocumentArtifactIdentity` — the recogniser.
* `sourceObjectKey`, `parsedTextObjectKey`, `chunksObjectKey`, `temporaryObjectKey` — the builders.
* `canonicalDocumentArtifactIdentity_iff` — the recogniser accepts what the builders make.
* `artifact_keys_recognised` — the recogniser and all four builders.
-/

namespace VeloxRag.ArtifactKeys

open VeloxRag.Ingestion (FilenameText ValidationError ArtifactType artifactType? canonicalFilename
  uuidText hexDigits hexNumber)

/-! ## Reading an identity -/

/-- `UUID`: 128 bits. -/
abbrev UUID := Fin (2 ^ 128)

/-- The decimal digits of every script, which `int` reads. -/
structure DigitText where
  /-- `unicodedata.decimal`. -/
  decimal : Char → Option ℕ
  decimal_ascii : ∀ c, c.toNat < 128 → decimal c =
    if 48 ≤ c.toNat ∧ c.toNat ≤ 57 then some (c.toNat - 48) else none

/-- The decimal digits of ASCII; no other character is one. -/
def DigitText.ascii : DigitText where
  decimal := fun c => if 48 ≤ c.toNat ∧ c.toNat ≤ 57 then some (c.toNat - 48) else none
  decimal_ascii := fun _ _ => rfl

section Reading

variable (T : DigitText)

/-- A digit of base 16. -/
def digit16 (c : Char) : Option ℕ :=
  match T.decimal c with
  | some d => some d
  | none =>
    if 97 ≤ c.toNat ∧ c.toNat ≤ 102 then some (c.toNat - 87)
    else if 65 ≤ c.toNat ∧ c.toNat ≤ 70 then some (c.toNat - 55)
    else none

/-- The digits after the first one; a single underscore may stand before a digit. -/
def moreDigits : ℕ → Str → Option ℕ
  | n, [] => some n
  | n, '_' :: c :: rest => (digit16 T c).bind fun d => moreDigits (16 * n + d) rest
  | n, c :: rest => (digit16 T c).bind fun d => moreDigits (16 * n + d) rest

def digits16 : Str → Option ℕ
  | [] => none
  | c :: rest => (digit16 T c).bind fun d => moreDigits T d rest

/-- The digits after `0x`, or all of them. -/
def withoutBase (s : Str) : Str :=
  match s with
  | '0' :: 'x' :: '_' :: rest => rest
  | '0' :: 'X' :: '_' :: rest => rest
  | '0' :: 'x' :: rest => rest
  | '0' :: 'X' :: rest => rest
  | s => s

/-- `int(text, 16)`, with `none` for a `ValueError`. -/
def int16 (text : Str) : Option ℤ :=
  match strip text with
  | '-' :: rest => (digits16 T (withoutBase rest)).map fun n => -(n : ℤ)
  | '+' :: rest => (digits16 T (withoutBase rest)).map fun n => (n : ℤ)
  | rest => (digits16 T (withoutBase rest)).map fun n => (n : ℤ)

/-- The text without the occurrences of `pattern`, and without its first `skipped` characters. -/
def removeFrom (pattern : Str) : ℕ → Str → Str
  | _, [] => []
  | skipped + 1, _ :: s => removeFrom pattern skipped s
  | 0, c :: s =>
    if pattern.isPrefixOf (c :: s) then removeFrom pattern (pattern.length - 1) s
    else c :: removeFrom pattern 0 s

/-- `text.replace(pattern, "")` for a pattern that is not empty. -/
def removeAll (pattern text : Str) : Str := removeFrom pattern 0 text

def isBrace (c : Char) : Bool := c = '\x7b' || c = '\x7d'

/-- `UUID(text)`, with `none` for a `ValueError`. -/
def uuid (text : Str) : Option UUID :=
  let hex := removeAll "uuid:".toList (removeAll "urn:".toList text)
  let hex := (stripWhere isBrace hex).filter (· ≠ '-')
  if hex.length ≠ 32 then none
  else (int16 T hex).bind fun n =>
    if h : n.toNat < 2 ^ 128 then if 0 ≤ n then some ⟨n.toNat, h⟩ else none else none

end Reading

/-- `str(uuid)`. -/
def text (id : UUID) : Str := uuidText id

/-! ## The recogniser and the builders -/

structure DocumentArtifactIdentity where
  knowledgeBaseId : UUID
  documentId : UUID
  versionId : UUID
  artifactType : ArtifactType
deriving DecidableEq

/-- `canonical_document_artifact_identity`. -/
def canonicalDocumentArtifactIdentity (T : DigitText) (objectKey : Str) :
    Option DocumentArtifactIdentity :=
  match objectKey.splitOn '/' with
  | [root, kb, documents, document, versions, version, artifact, name] =>
    if root ≠ "knowledge-bases".toList ∨ documents ≠ "documents".toList ∨
        versions ≠ "versions".toList then none
    else do
      let artifactType ← artifactType? artifact name
      let knowledgeBaseId ← uuid T kb
      let documentId ← uuid T document
      let versionId ← uuid T version
      if text knowledgeBaseId ≠ kb ∨ text documentId ≠ document ∨ text versionId ≠ version then none
      else some ⟨knowledgeBaseId, documentId, versionId, artifactType⟩
  | _ => none

/-- `_version_prefix`. -/
def versionPrefix (knowledgeBaseId documentId versionId : UUID) : Str :=
  "knowledge-bases/".toList ++ text knowledgeBaseId ++ "/documents/".toList ++ text documentId ++
    "/versions/".toList ++ text versionId

/-- `canonical_source_extension`. -/
def canonicalSourceExtension (U : FilenameText) (filename : Str) : Except ValidationError Str :=
  (canonicalFilename U filename).map fun (_, extension) => extension

/-- `source_object_key`. -/
def sourceObjectKey (U : FilenameText) (knowledgeBaseId documentId versionId : UUID)
    (filename : Str) : Except ValidationError Str :=
  (canonicalSourceExtension U filename).map fun extension =>
    versionPrefix knowledgeBaseId documentId versionId ++ "/source/source".toList ++ extension

/-- `parsed_text_object_key`. -/
def parsedTextObjectKey (knowledgeBaseId documentId versionId : UUID) : Str :=
  versionPrefix knowledgeBaseId documentId versionId ++ "/parsed/text.txt".toList

/-- `chunks_object_key`. -/
def chunksObjectKey (knowledgeBaseId documentId versionId : UUID) : Str :=
  versionPrefix knowledgeBaseId documentId versionId ++ "/chunks/recursive_text_v1.jsonl".toList

/-- The `ValueError`s of `temporary_object_key`; the last one is that of writing an integer. -/
inductive TemporaryKeyError
  | identityInvalid
  | nameInvalid
  | intTooLong
deriving DecidableEq

/-- The text of the exception. -/
def TemporaryKeyError.message : TemporaryKeyError → String
  | .identityInvalid => "temporary artifact identity is invalid"
  | .nameInvalid => "artifact name is invalid"
  | .intTooLong => "Exceeds the limit (4300 digits) for integer string conversion; use sys.set_int_max_str_digits() to increase the limit"

/-- A segment of an artifact name is refused. -/
def unsafeSegment (U : FilenameText) (segment : Str) : Bool :=
  decide (segment = []) || decide (segment = ['.']) || decide (segment = ['.', '.']) ||
    decide ('\x00' ∈ segment) || segment.any U.isOther || decide (255 < (encode segment).length)

/-- `temporary_object_key`. -/
def temporaryObjectKey (U : FilenameText) (jobId : UUID) (leaseEpoch : ℤ) (artifactName : Str) :
    Except TemporaryKeyError Str :=
  if leaseEpoch < 0 then .error .identityInvalid
  else if artifactName = [] ∨ 512 < artifactName.length then .error .nameInvalid
  else if '\\' ∈ artifactName ∨ artifactName.head? = some '/' then .error .nameInvalid
  else if (artifactName.splitOn '/').any (unsafeSegment U) then .error .nameInvalid
  else
    match Lib.Json.dumpsInt leaseEpoch with
    | none => .error .intTooLong
    | some epoch =>
      let objectKey := "tmp/jobs/".toList ++ text jobId ++ ['/'] ++ epoch ++ ['/'] ++ artifactName
      if 1024 < (encode objectKey).length then .error .nameInvalid else .ok objectKey

/-! ## The canonical text of an identity -/

/-- A digit that `str(uuid)` uses. -/
def IsHex (c : Char) : Prop := ∃ d < 16, c = Nat.digitChar d

theorem isHex_of_mem {n : ℕ} {c : Char} (h : c ∈ hexDigits n) : IsHex c := by
  rcases List.mem_append.mp h with h | h
  · exact ⟨0, by decide, List.eq_of_mem_replicate h⟩
  · exact Ingestion.mem_toDigits n h

theorem IsHex.ne {c c' : Char} (h : IsHex c) (hc' : ∀ d < 16, Nat.digitChar d ≠ c') : c ≠ c' := by
  obtain ⟨d, hd, rfl⟩ := h
  exact hc' d hd

theorem IsHex.not_isSpace {c : Char} (h : IsHex c) : isSpace c = false := by
  obtain ⟨d, hd, rfl⟩ := h
  interval_cases d <;> decide

theorem digit16_digitChar (T : DigitText) {d : ℕ} (h : d < 16) :
    digit16 T d.digitChar = some d := by
  have hascii : d.digitChar.toNat < 128 := by interval_cases d <;> decide
  rw [digit16, T.decimal_ascii _ hascii]
  interval_cases d <;> rfl

theorem moreDigits_cons (T : DigitText) {c : Char} (hc : c ≠ '_') (n : ℕ) (s : Str) :
    moreDigits T n (c :: s) = (digit16 T c).bind fun d => moreDigits T (16 * n + d) s := by
  rw [moreDigits]
  intro _ _ heq
  exact absurd heq hc

theorem moreDigits_hex (T : DigitText) {s : Str} (h : ∀ c ∈ s, IsHex c) (n : ℕ) :
    moreDigits T n s = some (s.foldl (fun n c => 16 * n + Ingestion.hexValue c) n) := by
  induction s generalizing n with
  | nil => rfl
  | cons c s ih =>
    have hc := h c List.mem_cons_self
    rw [moreDigits_cons T (hc.ne (by decide))]
    obtain ⟨d, hd, rfl⟩ := hc
    rw [digit16_digitChar T hd, Option.bind_some, ih fun c' hc' => h c' (List.mem_cons_of_mem _ hc'),
      List.foldl_cons, Ingestion.hexValue_digitChar hd]

theorem digits16_hex (T : DigitText) {s : Str} (hne : s ≠ []) (h : ∀ c ∈ s, IsHex c) :
    digits16 T s = some (hexNumber s) := by
  cases s with
  | nil => exact absurd rfl hne
  | cons c s =>
    obtain ⟨d, hd, rfl⟩ := h c List.mem_cons_self
    rw [digits16, digit16_digitChar T hd, Option.bind_some,
      moreDigits_hex T fun c' hc' => h c' (List.mem_cons_of_mem _ hc'), hexNumber, List.foldl_cons,
      Ingestion.hexValue_digitChar hd, Nat.mul_zero, Nat.zero_add]

theorem withoutBase_hex {s : Str} (h : ∀ c ∈ s, IsHex c) : withoutBase s = s := by
  have hlower : 'x' ∉ s := fun hx => (h 'x' hx).ne (by decide) rfl
  have hupper : 'X' ∉ s := fun hx => (h 'X' hx).ne (by decide) rfl
  unfold withoutBase
  split
  · exact absurd (by simp) hlower
  · exact absurd (by simp) hupper
  · exact absurd (by simp) hlower
  · exact absurd (by simp) hupper
  · rfl

theorem stripWhere_eq_self {p : Char → Bool} {s : Str} (h : ∀ c ∈ s, p c = false) :
    stripWhere p s = s := by
  have hdrop : ∀ {t : Str}, (∀ c ∈ t, p c = false) → t.dropWhile p = t := by
    intro t ht
    cases t with
    | nil => rfl
    | cons c t => rw [List.dropWhile_cons_of_neg (by simp [ht c List.mem_cons_self])]
  rw [stripWhere, rstripWhere, hdrop h, hdrop fun c hc => h c (List.mem_reverse.mp hc),
    List.reverse_reverse]

theorem int16_hex (T : DigitText) {s : Str} (hne : s ≠ []) (h : ∀ c ∈ s, IsHex c) :
    int16 T s = some (hexNumber s : ℤ) := by
  have hstrip : strip s = s := stripWhere_eq_self fun c hc => (h c hc).not_isSpace
  have hminus : '-' ∉ s := fun hx => (h '-' hx).ne (by decide) rfl
  have hplus : '+' ∉ s := fun hx => (h '+' hx).ne (by decide) rfl
  rw [int16, hstrip]
  split
  · exact absurd List.mem_cons_self hminus
  · exact absurd List.mem_cons_self hplus
  · rw [withoutBase_hex h, digits16_hex T hne h]
    rfl

theorem removeFrom_eq_self {pattern : Str} {c : Char} (hc : c ∈ pattern) {s : Str} (hs : c ∉ s) :
    removeFrom pattern 0 s = s := by
  induction s with
  | nil => rfl
  | cons x s ih =>
    have hnot : ¬ pattern.isPrefixOf (x :: s) = true := by
      intro hprefix
      exact hs ((List.isPrefixOf_iff_prefix.mp hprefix).subset hc)
    rw [removeFrom, if_neg hnot, ih fun hmem => hs (List.mem_cons_of_mem _ hmem)]

theorem mem_uuidText {n : ℕ} {c : Char} (h : c ∈ uuidText n) : IsHex c ∨ c = '-' := by
  by_cases hc : c = '-'
  · exact .inr hc
  · left
    apply isHex_of_mem (n := n)
    rw [← Ingestion.filter_uuidText]
    exact List.mem_filter.mpr ⟨h, by simpa using hc⟩

theorem not_mem_text {id : UUID} {c' : Char} (hdash : c' ≠ '-')
    (hhex : ∀ d < 16, Nat.digitChar d ≠ c') : c' ∉ text id := by
  intro h
  rcases mem_uuidText h with h | h
  · exact h.ne hhex rfl
  · exact hdash h

/-- **An identity** is read from its own text. -/
theorem uuid_text (T : DigitText) (id : UUID) : uuid T (text id) = some id := by
  have hcolon : ':' ∉ text id := not_mem_text (by decide) (by decide)
  have hurn : removeAll "urn:".toList (text id) = text id :=
    removeFrom_eq_self (c := ':') (by decide) hcolon
  have huuid : removeAll "uuid:".toList (text id) = text id :=
    removeFrom_eq_self (c := ':') (by decide) hcolon
  have hbraces : stripWhere isBrace (text id) = text id := by
    apply stripWhere_eq_self
    intro c hc
    have hopen : c ≠ '\x7b' := fun h => not_mem_text (by decide) (by decide) (h ▸ hc)
    have hclose : c ≠ '\x7d' := fun h => not_mem_text (by decide) (by decide) (h ▸ hc)
    simp [isBrace, hopen, hclose]
  have hhex : (text id).filter (· ≠ '-') = hexDigits id := Ingestion.filter_uuidText id
  have hlength : (hexDigits id).length = 32 := Ingestion.length_hexDigits id.isLt
  have hne : hexDigits id ≠ [] := by
    intro h
    rw [h] at hlength
    cases hlength
  have hint : int16 T (hexDigits id) = some (id.val : ℤ) := by
    rw [int16_hex T hne fun c hc => isHex_of_mem hc, Ingestion.hexNumber_hexDigits]
  rw [uuid]
  simp only [hurn, huuid, hbraces, hhex, hlength, hint, ne_eq, not_true_eq_false, if_false,
    Option.bind_some, Int.toNat_natCast, id.isLt, dif_pos, Int.natCast_nonneg, if_true]

/-! ## What the recogniser accepts -/

theorem slash_not_mem_text (id : UUID) : '/' ∉ text id := Ingestion.slash_not_mem_uuidText id

/-- The parts of an artifact key. -/
def parts (knowledgeBaseId documentId versionId : UUID) (artifact name : Str) : List Str :=
  ["knowledge-bases".toList, text knowledgeBaseId, "documents".toList, text documentId,
    "versions".toList, text versionId, artifact, name]

theorem intercalate_eight (a b c d e f g h : Str) :
    ['/'].intercalate [a, b, c, d, e, f, g, h] =
      a ++ ['/'] ++ b ++ '/' :: (c ++ ['/']) ++ d ++ '/' :: (e ++ ['/']) ++ f ++
        '/' :: (g ++ '/' :: h) := by
  simp [List.intercalate, List.intersperse]

theorem versionPrefix_append (knowledgeBaseId documentId versionId : UUID) (artifact name : Str) :
    versionPrefix knowledgeBaseId documentId versionId ++ '/' :: (artifact ++ '/' :: name) =
      ['/'].intercalate (parts knowledgeBaseId documentId versionId artifact name) := by
  have hroot : "knowledge-bases/".toList = "knowledge-bases".toList ++ ['/'] := by decide
  have hdocuments : "/documents/".toList = '/' :: ("documents".toList ++ ['/']) := by decide
  have hversions : "/versions/".toList = '/' :: ("versions".toList ++ ['/']) := by decide
  unfold versionPrefix
  rw [parts, intercalate_eight, hroot, hdocuments, hversions]

theorem splitOn_parts {knowledgeBaseId documentId versionId : UUID} {artifact name : Str}
    (hartifact : '/' ∉ artifact) (hname : '/' ∉ name) :
    (['/'].intercalate (parts knowledgeBaseId documentId versionId artifact name)).splitOn '/' =
      parts knowledgeBaseId documentId versionId artifact name := by
  apply List.splitOn_intercalate
  · intro part hpart
    simp only [parts, List.mem_cons, List.not_mem_nil, or_false] at hpart
    rcases hpart with rfl | rfl | rfl | rfl | rfl | rfl | rfl | rfl
    · decide
    · exact slash_not_mem_text _
    · decide
    · exact slash_not_mem_text _
    · decide
    · exact slash_not_mem_text _
    · exact hartifact
    · exact hname
  · exact List.cons_ne_nil _ _

/-- The recogniser reads what the parts of a key name. -/
theorem canonicalDocumentArtifactIdentity_parts (T : DigitText)
    {knowledgeBaseId documentId versionId : UUID} {artifact name : Str} {artifactType : ArtifactType}
    (hartifact : '/' ∉ artifact) (hname : '/' ∉ name)
    (htype : artifactType? artifact name = some artifactType) :
    canonicalDocumentArtifactIdentity T
        (['/'].intercalate (parts knowledgeBaseId documentId versionId artifact name)) =
      some ⟨knowledgeBaseId, documentId, versionId, artifactType⟩ := by
  rw [canonicalDocumentArtifactIdentity, splitOn_parts hartifact hname]
  simp [parts, htype, uuid_text]

/-- An accepted key has the parts of its identity. -/
theorem parts_of_canonicalDocumentArtifactIdentity {T : DigitText} {key : Str}
    {identity : DocumentArtifactIdentity}
    (h : canonicalDocumentArtifactIdentity T key = some identity) :
    ∃ artifact name, artifactType? artifact name = some identity.artifactType ∧
      key = ['/'].intercalate (parts identity.knowledgeBaseId identity.documentId
        identity.versionId artifact name) := by
  have hjoin : ['/'].intercalate (key.splitOn '/') = key := List.intercalate_splitOn '/'
  rw [canonicalDocumentArtifactIdentity] at h
  split at h
  · rename_i root kb documents document versions version artifact name hsplit
    split_ifs at h with hfixed
    simp only [not_or, not_not] at hfixed
    obtain ⟨hroot, hdocuments, hversions⟩ := hfixed
    obtain ⟨artifactType, htype, h⟩ := Option.bind_eq_some_iff.mp h
    obtain ⟨knowledgeBaseId, -, h⟩ := Option.bind_eq_some_iff.mp h
    obtain ⟨documentId, -, h⟩ := Option.bind_eq_some_iff.mp h
    obtain ⟨versionId, -, h⟩ := Option.bind_eq_some_iff.mp h
    split_ifs at h with htexts
    simp only [not_or, not_not] at htexts
    obtain ⟨hkb, hdocument, hversion⟩ := htexts
    cases h
    refine ⟨artifact, name, htype, ?_⟩
    rw [← hjoin, hsplit, parts, hroot, hdocuments, hversions, hkb, hdocument, hversion]
  · cases h

/-- The names that an artifact may have. -/
theorem artifactType?_eq_some {artifact name : Str} {artifactType : ArtifactType}
    (h : artifactType? artifact name = some artifactType) :
    (artifactType = .source ∧ artifact = "source".toList ∧
      ∃ extension ∈ Ingestion.supportedExtensions, name = "source".toList ++ extension) ∨
    (artifactType = .parsed ∧ artifact = "parsed".toList ∧ name = "text.txt".toList) ∨
    (artifactType = .chunks ∧ artifact = "chunks".toList ∧
      name = "recursive_text_v1.jsonl".toList) := by
  rw [artifactType?] at h
  by_cases hsource : artifact = "source".toList ∧ (name = "source.txt".toList ∨
      name = "source.md".toList ∨ name = "source.markdown".toList)
  · rw [if_pos hsource] at h
    cases h
    refine .inl ⟨rfl, hsource.1, ?_⟩
    rcases hsource.2 with rfl | rfl | rfl
    · exact ⟨".txt".toList, by decide, by decide⟩
    · exact ⟨".md".toList, by decide, by decide⟩
    · exact ⟨".markdown".toList, by decide, by decide⟩
  · rw [if_neg hsource] at h
    by_cases hparsed : artifact = "parsed".toList ∧ name = "text.txt".toList
    · rw [if_pos hparsed] at h
      cases h
      exact .inr (.inl ⟨rfl, hparsed⟩)
    · rw [if_neg hparsed] at h
      by_cases hchunks : artifact = "chunks".toList ∧ name = "recursive_text_v1.jsonl".toList
      · rw [if_pos hchunks] at h
        cases h
        exact .inr (.inr ⟨rfl, hchunks⟩)
      · rw [if_neg hchunks] at h
        cases h

theorem canonicalSourceExtension_mem {U : FilenameText} {filename extension : Str}
    (h : canonicalSourceExtension U filename = .ok extension) :
    extension ∈ Ingestion.supportedExtensions := by
  rw [canonicalSourceExtension, canonicalFilename] at h
  dsimp only at h
  split_ifs at h
  · cases h
  · split at h
    · cases h
    · split_ifs at h with hbad
      · cases h
      · cases h
        rw [not_or, not_not] at hbad
        exact hbad.2

/-- The extension of a plain ASCII name. -/
theorem canonicalSourceExtension_ascii (U : FilenameText) (name stem suffix : Str)
    (hplain : ∀ c ∈ name, 32 ≤ c.toNat ∧ c.toNat < 127) (hstrip : strip name = name)
    (hsafe : ¬(name = [] ∨ name = ['.'] ∨ name = ['.', '.'] ∨ '/' ∈ name ∨ '\\' ∈ name))
    (hlength : name.length < 64)
    (hpart : Ingestion.rpartitionDot name = some (stem, suffix)) (hstem : stem ≠ [])
    (hsuffix : ∀ c ∈ suffix, c ∈ name) (hlower : suffix.map Char.toLower = suffix)
    (hsupported : '.' :: suffix ∈ Ingestion.supportedExtensions) :
    canonicalSourceExtension U name = .ok ('.' :: suffix) := by
  have hascii : ∀ c ∈ name, c.toNat < 128 := fun c hc => by
    have := hplain c hc
    omega
  have hother : ∀ c ∈ name, ¬(c.toNat < 32 ∨ c.toNat = 127) := fun c hc => by
    have := hplain c hc
    omega
  have hnfc : U.nfc (strip name) = name := by rw [hstrip, U.nfc_ascii name hascii]
  have hany : name.any U.isOther = false := by
    rw [List.any_eq_false]
    intro c hc
    simp only [U.isOther_ascii c (hascii c hc), hother c hc, decide_false, Bool.false_eq_true,
      not_false_eq_true]
  simp only [not_or] at hsafe
  obtain ⟨h1, h2, h3, h4, h5⟩ := hsafe
  have h6 : ¬255 < (encode name).length := by
    have := length_encode_le name
    omega
  have hfilename : canonicalFilename U name = .ok (name, '.' :: suffix) := by
    rw [canonicalFilename]
    simp only [hnfc, hany, h1, h2, h3, h4, h5, h6, Bool.false_eq_true, or_self, if_false, hpart,
      U.lower_ascii suffix fun c hc => hascii c (hsuffix c hc), hlower, hstem, hsupported, not_true_eq_false]
  rw [canonicalSourceExtension, hfilename]
  rfl

/-- Every supported extension is that of some file name. -/
theorem exists_canonicalSourceExtension (U : FilenameText) {extension : Str}
    (h : extension ∈ Ingestion.supportedExtensions) :
    ∃ filename, canonicalSourceExtension U filename = .ok extension := by
  simp only [Ingestion.supportedExtensions, List.mem_cons, List.not_mem_nil, or_false] at h
  rcases h with rfl | rfl | rfl
  · exact ⟨_, canonicalSourceExtension_ascii U "a.txt".toList ['a'] "txt".toList (by simp)
      (by decide) (by decide) (by decide) (by decide) (by decide) (by simp) (by decide) (by decide)⟩
  · exact ⟨_, canonicalSourceExtension_ascii U "a.md".toList ['a'] "md".toList (by simp)
      (by decide) (by decide) (by decide) (by decide) (by decide) (by simp) (by decide) (by decide)⟩
  · exact ⟨_, canonicalSourceExtension_ascii U "a.markdown".toList ['a'] "markdown".toList (by simp)
      (by decide) (by decide) (by decide) (by decide) (by decide) (by simp) (by decide) (by decide)⟩

/-- A key and what it was made for, by one of the three builders. -/
inductive Made (U : FilenameText) : Str → DocumentArtifactIdentity → Prop
  | source {knowledgeBaseId documentId versionId : UUID} {filename key : Str}
      (h : sourceObjectKey U knowledgeBaseId documentId versionId filename = .ok key) :
      Made U key ⟨knowledgeBaseId, documentId, versionId, .source⟩
  | parsed (knowledgeBaseId documentId versionId : UUID) :
      Made U (parsedTextObjectKey knowledgeBaseId documentId versionId)
        ⟨knowledgeBaseId, documentId, versionId, .parsed⟩
  | chunks (knowledgeBaseId documentId versionId : UUID) :
      Made U (chunksObjectKey knowledgeBaseId documentId versionId)
        ⟨knowledgeBaseId, documentId, versionId, .chunks⟩

/-- The source key of an extension. -/
theorem sourceObjectKey_eq_ok {U : FilenameText} {knowledgeBaseId documentId versionId : UUID}
    {filename key : Str} :
    sourceObjectKey U knowledgeBaseId documentId versionId filename = .ok key ↔
      ∃ extension, canonicalSourceExtension U filename = .ok extension ∧
        key = ['/'].intercalate (parts knowledgeBaseId documentId versionId "source".toList
          ("source".toList ++ extension)) := by
  have hname : "/source/source".toList = '/' :: ("source".toList ++ '/' :: "source".toList) := by
    decide
  have hkey : ∀ extension : Str,
      versionPrefix knowledgeBaseId documentId versionId ++ "/source/source".toList ++ extension =
        ['/'].intercalate (parts knowledgeBaseId documentId versionId "source".toList
          ("source".toList ++ extension)) := by
    intro extension
    rw [← versionPrefix_append, hname]
    simp only [List.append_assoc, List.cons_append]
  unfold sourceObjectKey
  simp only [hkey]
  cases canonicalSourceExtension U filename with
  | error e => simp [Except.map]
  | ok extension =>
    simp only [Except.map, Except.ok.injEq, exists_eq_left']
    exact eq_comm

theorem parsedTextObjectKey_eq (knowledgeBaseId documentId versionId : UUID) :
    parsedTextObjectKey knowledgeBaseId documentId versionId =
      ['/'].intercalate (parts knowledgeBaseId documentId versionId "parsed".toList
        "text.txt".toList) := by
  rw [← versionPrefix_append]
  rfl

theorem chunksObjectKey_eq (knowledgeBaseId documentId versionId : UUID) :
    chunksObjectKey knowledgeBaseId documentId versionId =
      ['/'].intercalate (parts knowledgeBaseId documentId versionId "chunks".toList
        "recursive_text_v1.jsonl".toList) := by
  rw [← versionPrefix_append]
  rfl

/-- The name of a source has no slash and is a source's. -/
theorem source_name {extension : Str} (h : extension ∈ Ingestion.supportedExtensions) :
    '/' ∉ "source".toList ++ extension ∧
      artifactType? "source".toList ("source".toList ++ extension) = some .source := by
  simp only [Ingestion.supportedExtensions, List.mem_cons, List.not_mem_nil, or_false] at h
  rcases h with rfl | rfl | rfl
  · decide
  · decide
  · decide

/-- **The recogniser** accepts exactly the keys that the builders make, and reads what they were
made for. -/
theorem canonicalDocumentArtifactIdentity_iff (T : DigitText) (U : FilenameText) {key : Str}
    {identity : DocumentArtifactIdentity} :
    canonicalDocumentArtifactIdentity T key = some identity ↔ Made U key identity := by
  constructor
  · intro h
    obtain ⟨artifact, name, htype, hkey⟩ := parts_of_canonicalDocumentArtifactIdentity h
    obtain ⟨knowledgeBaseId, documentId, versionId, artifactType⟩ := identity
    dsimp only at htype hkey
    rcases artifactType?_eq_some htype with ⟨rfl, rfl, extension, hextension, rfl⟩ |
      ⟨rfl, rfl, rfl⟩ | ⟨rfl, rfl, rfl⟩
    · obtain ⟨filename, hfilename⟩ := exists_canonicalSourceExtension U hextension
      exact .source (sourceObjectKey_eq_ok.mpr ⟨extension, hfilename, hkey⟩)
    · rw [hkey, ← parsedTextObjectKey_eq]
      exact .parsed _ _ _
    · rw [hkey, ← chunksObjectKey_eq]
      exact .chunks _ _ _
  · intro h
    cases h with
    | source h =>
      obtain ⟨extension, hfilename, rfl⟩ := sourceObjectKey_eq_ok.mp h
      obtain ⟨hslash, htype⟩ := source_name (canonicalSourceExtension_mem hfilename)
      exact canonicalDocumentArtifactIdentity_parts T (by decide) hslash htype
    | parsed knowledgeBaseId documentId versionId =>
      rw [parsedTextObjectKey_eq]
      exact canonicalDocumentArtifactIdentity_parts T (by decide) (by decide) (by decide)
    | chunks knowledgeBaseId documentId versionId =>
      rw [chunksObjectKey_eq]
      exact canonicalDocumentArtifactIdentity_parts T (by decide) (by decide) (by decide)

/-- A text that is read as an identity is the text of that one. -/
theorem eq_text_of_uuidOfText {s : Str} {id : UUID} (h : Ingestion.uuidOfText s = some ↑id) : s = text id := by
  rw [Ingestion.uuidOfText] at h
  split_ifs at h with hs
  rw [text, ← Option.some.inj h, hs]

/-- The recogniser over unbounded identities, which the clean-up of objects is modelled with, reads
the identities below `2 ^ 128` from the same keys. -/
theorem canonicalDocumentArtifactIdentity_eq_iff {T : DigitText} {key : Str}
    {identity : DocumentArtifactIdentity} :
    Ingestion.canonicalDocumentArtifactIdentity key =
        some ⟨identity.knowledgeBaseId, identity.documentId, identity.versionId, identity.artifactType⟩ ↔
      canonicalDocumentArtifactIdentity T key = some identity := by
  have hslashes {artifact name : Str} (htype : artifactType? artifact name = some identity.artifactType) :
      '/' ∉ artifact ∧ '/' ∉ name := by
    rcases artifactType?_eq_some htype with ⟨-, rfl, extension, hextension, rfl⟩ |
      ⟨-, rfl, rfl⟩ | ⟨-, rfl, rfl⟩
    · exact ⟨by decide, (source_name hextension).1⟩
    · decide
    · decide
  constructor
  · intro h
    have hjoin : ['/'].intercalate (key.splitOn '/') = key := List.intercalate_splitOn '/'
    rw [Ingestion.canonicalDocumentArtifactIdentity] at h
    split at h
    · rename_i root kb documents document versions version artifact name hsplit
      split_ifs at h with hfixed
      simp only [not_or, not_not] at hfixed
      obtain ⟨rfl, rfl, rfl⟩ := hfixed
      obtain ⟨artifactType, htype, h⟩ := Option.bind_eq_some_iff.mp h
      obtain ⟨knowledgeBaseId, hknowledgeBase, h⟩ := Option.bind_eq_some_iff.mp h
      obtain ⟨documentId, hdocument, h⟩ := Option.bind_eq_some_iff.mp h
      obtain ⟨versionId, hversion, h⟩ := Option.bind_eq_some_iff.mp h
      obtain ⟨rfl, rfl, rfl, rfl⟩ := Ingestion.DocumentArtifactIdentity.mk.inj (Option.some.inj h)
      obtain ⟨hartifact, hname⟩ := hslashes htype
      rw [← hjoin, hsplit, eq_text_of_uuidOfText hknowledgeBase, eq_text_of_uuidOfText hdocument,
        eq_text_of_uuidOfText hversion]
      exact canonicalDocumentArtifactIdentity_parts T hartifact hname htype
    · cases h
  · intro h
    obtain ⟨artifact, name, htype, hkey⟩ := parts_of_canonicalDocumentArtifactIdentity h
    obtain ⟨hartifact, hname⟩ := hslashes htype
    rw [hkey, Ingestion.canonicalDocumentArtifactIdentity, splitOn_parts hartifact hname]
    simp [parts, htype, text, Ingestion.uuidOfText_uuidText]

/-! ## Temporary keys -/

/-- A temporary key is made of its parts. -/
theorem temporaryObjectKey_eq_ok {U : FilenameText} {jobId : UUID} {leaseEpoch : ℤ}
    {artifactName key : Str} (h : temporaryObjectKey U jobId leaseEpoch artifactName = .ok key) :
    ∃ rest, key = "tmp/jobs/".toList ++ rest := by
  rw [temporaryObjectKey] at h
  split_ifs at h
  split at h
  · cases h
  · dsimp only at h
    split_ifs at h
    cases h
    simp only [List.append_assoc]
    exact ⟨_, rfl⟩

theorem canonicalDocumentArtifactIdentity_tmp (T : DigitText) (rest : Str) :
    canonicalDocumentArtifactIdentity T ("tmp/jobs/".toList ++ rest) = none := by
  have htmp : "tmp/jobs/".toList ++ rest = "tmp".toList ++ '/' :: ("jobs/".toList ++ rest) := rfl
  have hsplit : ("tmp/jobs/".toList ++ rest).splitOn '/' =
      "tmp".toList :: ("jobs/".toList ++ rest).splitOn '/' := by
    have hslash : '/' ∉ "tmp".toList := by decide
    rw [htmp]
    exact List.splitOn_append_cons_self_of_not_mem hslash _
  rw [canonicalDocumentArtifactIdentity, hsplit]
  split
  · rename_i heq
    rw [List.cons.injEq] at heq
    rw [if_pos]
    left
    rw [← heq.1]
    decide
  · rfl

/-! ## The keys of the store -/

/-- **Object keys.**  The recogniser accepts the keys that the builders make and no other text, and
reads what each was made for; so keys made for different artifacts are different, also those of two
sources with different extensions.  A temporary key lies under its prefix and is no artifact key. -/
theorem artifact_keys_recognised (T : DigitText) (U : FilenameText) :
    (∀ key identity, canonicalDocumentArtifactIdentity T key = some identity ↔ Made U key identity) ∧
    (∀ key identity identity', Made U key identity → Made U key identity' → identity = identity') ∧
    (∀ key knowledgeBaseId documentId versionId knowledgeBaseId' documentId' versionId' filename
        filename', sourceObjectKey U knowledgeBaseId documentId versionId filename = .ok key →
      sourceObjectKey U knowledgeBaseId' documentId' versionId' filename' = .ok key →
      canonicalSourceExtension U filename = canonicalSourceExtension U filename') ∧
    ∀ jobId leaseEpoch artifactName key,
      temporaryObjectKey U jobId leaseEpoch artifactName = .ok key →
      "tmp/jobs/".toList <+: key ∧ canonicalDocumentArtifactIdentity T key = none := by
  refine ⟨fun key identity => canonicalDocumentArtifactIdentity_iff T U, ?_, ?_, ?_⟩
  · intro key identity identity' h h'
    rw [← canonicalDocumentArtifactIdentity_iff T U] at h h'
    rw [h] at h'
    exact Option.some.inj h'
  · intro key _ _ _ _ _ _ filename filename' h h'
    obtain ⟨extension, hextension, hkey⟩ := sourceObjectKey_eq_ok.mp h
    obtain ⟨extension', hextension', hkey'⟩ := sourceObjectKey_eq_ok.mp h'
    have hslash := (source_name (canonicalSourceExtension_mem hextension)).1
    have hslash' := (source_name (canonicalSourceExtension_mem hextension')).1
    have hparts := congrArg (List.splitOn '/') (hkey.symm.trans hkey')
    rw [splitOn_parts (by decide) hslash, splitOn_parts (by decide) hslash'] at hparts
    simp only [parts, List.cons.injEq, and_true, true_and] at hparts
    rw [hextension, hextension', List.append_cancel_left hparts.2.2.2]
  · intro jobId leaseEpoch artifactName key h
    obtain ⟨rest, rfl⟩ := temporaryObjectKey_eq_ok h
    exact ⟨⟨rest, rfl⟩, canonicalDocumentArtifactIdentity_tmp T rest⟩

end VeloxRag.ArtifactKeys
