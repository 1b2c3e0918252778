import VeloxRag.Ingestion.Validation
import VeloxRag.Lib.Utf8Stream

/-!
# The text validator

An upload is validated while it arrives and again, as one byte string, when it is parsed.  Both
run `IncrementalTextValidator`: it counts the bytes, decodes them as UTF-8, drops a byte order mark
at the beginning and rejects a document with a NUL character, with too many control characters or
without any text.

## Main definitions

* `IncrementalTextValidator`, with `feed`, `inspect` and `finish`.
* `validateDocument` — the validation of a whole document, and its normalized text.
* `TextAccepted` — what the validator asks of a decoded document.
* `validateDocument_isOk_iff`, `Fed.finish_isOk_iff` — the documents the two accept.
-/

namespace VeloxRag.Ingestion

open VeloxRag.Lib

/-! ## The metadata of a document -/

/-- The two operations on a file name that read the Unicode tables, with the category of a
character. -/
structure FilenameText where
  /-- `unicodedata.normalize("NFC", s)`. -/
  nfc : Str → Str
  /-- `s.lower()`. -/
  lower : Str → Str
  /-- `unicodedata.category(c).startswith("C")`. -/
  isOther : Char → Bool
  nfc_ascii : ∀ s, (∀ c ∈ s, c.toNat < 128) → nfc s = s
  lower_ascii : ∀ s, (∀ c ∈ s, c.toNat < 128) → lower s = s.map Char.toLower
  isOther_ascii : ∀ c, c.toNat < 128 → isOther c = decide (c.toNat < 32 ∨ c.toNat = 127)

/-- The operations on ASCII names; every other character is left alone. -/
def FilenameText.ascii : FilenameText where
  nfc := id
  lower := List.map Char.toLower
  isOther := fun c => decide (c.toNat < 32 ∨ c.toNat = 127)
  nfc_ascii := fun _ _ => rfl
  lower_ascii := fun _ _ => rfl
  isOther_ascii := fun _ _ => rfl

/-- The codes of `DocumentValidationError` that a validation raises, and the `ValueError` of a
validator that is used out of turn. -/
inductive ValidationError
  | fileTooLarge
  | unsupportedDocumentType
  | invalidTextEncoding
  | binaryContentRejected
  | emptyDocument
  | stateInvalid
  | alreadyFinished
  | limitInvalid
deriving DecidableEq, Repr

/-- The text of the exception. -/
def ValidationError.message : ValidationError → String
  | .fileTooLarge => "Document exceeds the upload limit"
  | .unsupportedDocumentType => "Unsupported document type"
  | .invalidTextEncoding => "Document is not valid UTF-8"
  | .binaryContentRejected => "Document content is not supported text"
  | .emptyDocument => "Document contains no text"
  | .stateInvalid => "document validator state is invalid"
  | .alreadyFinished => "document validator is already finished"
  | .limitInvalid => "document byte limit is invalid"

/-- `s.rpartition(".")`: the parts before and after the last dot. -/
def rpartitionDot (s : Str) : Option (Str × Str) :=
  let suffix := (s.reverse.takeWhile (· ≠ '.')).reverse
  if suffix.length < s.length then some (s.take (s.length - suffix.length - 1), suffix) else none

/-- `_SUPPORTED_EXTENSIONS`. -/
def supportedExtensions : List Str := [".txt".toList, ".md".toList, ".markdown".toList]

/-- `_TEXT_MIME_TYPES`. -/
def textMimeTypes : List Str := ["text/plain".toList, "application/octet-stream".toList]

/-- `_MARKDOWN_MIME_TYPES`. -/
def markdownMimeTypes : List Str :=
  ["text/plain".toList, "text/markdown".toList, "text/x-markdown".toList,
    "application/markdown".toList, "application/octet-stream".toList]

section Metadata

variable (U : FilenameText)

/-- `_canonical_filename`. -/
def canonicalFilename (filename : Str) : Except ValidationError (Str × Str) :=
  let displayFilename := U.nfc (strip filename)
  if displayFilename = [] ∨ displayFilename = ['.'] ∨ displayFilename = ['.', '.'] ∨
      '/' ∈ displayFilename ∨ '\\' ∈ displayFilename ∨ displayFilename.any U.isOther ∨
      255 < (encode displayFilename).length then
    .error .unsupportedDocumentType
  else
    match rpartitionDot displayFilename with
    | none => .error .unsupportedDocumentType
    | some (stem, suffix) =>
        let extension := '.' :: U.lower suffix
        if stem = [] ∨ extension ∉ supportedExtensions then .error .unsupportedDocumentType
        else .ok (displayFilename, extension)

/-- The characters of either half of a media type. -/
def isMimeChar (c : Char) : Bool :=
  ('a' ≤ c && c ≤ 'z') || ('0' ≤ c && c ≤ '9') || "!#$&^_.+-".toList.contains c

/-- `_MIME_TOKEN.fullmatch`. -/
def isMimeToken (token : Str) : Bool :=
  match token.span isMimeChar with
  | (type, '/' :: subtype) => !type.isEmpty && !subtype.isEmpty && subtype.all isMimeChar
  | _ => false

/-- `_canonical_content_type`. -/
def canonicalContentType (contentType : Str) : Except ValidationError Str :=
  let token := U.lower (strip (contentType.takeWhile (· ≠ ';')))
  if isMimeToken token then .ok token else .error .unsupportedDocumentType

structure DocumentMetadata where
  displayFilename : Str
  extension : Str
  contentType : Str
deriving DecidableEq, Repr

/-- `validate_document_metadata`. -/
def validateDocumentMetadata (filename contentType : Str) :
    Except ValidationError DocumentMetadata := do
  let (displayFilename, extension) ← canonicalFilename U filename
  let canonical ← canonicalContentType U contentType
  let allowed := if extension = ".txt".toList then textMimeTypes else markdownMimeTypes
  if canonical ∉ allowed then throw .unsupportedDocumentType
  pure ⟨displayFilename, extension, canonical⟩

end Metadata

/-! ## Control characters -/

/-- `_is_disallowed_control`: a character of category `Cc` that is neither white space a text may
have nor a form feed. -/
def isDisallowedControl (c : Char) : Bool :=
  (c.toNat < 0x20 || (0x7f ≤ c.toNat && c.toNat < 0xa0)) &&
    !(c == '\t' || c == '\n' || c == '\r' || c == '\x0c')

/-- `controls and controls / max(1, characters) >= 0.05`.  The quotient is rounded to the nearest
binary floating-point number, ties to even, and the literal is `7205759403792794 / 2 ^ 57`, so the
comparison holds from the midpoint below the literal on. -/
def tooManyControls (controls characters : ℕ) : Bool :=
  decide (controls ≠ 0 ∧ 14411518807585587 * max 1 characters ≤ controls * 2 ^ 58)

/-! ## The validator -/

structure IncrementalTextValidator where
  metadata : DocumentMetadata
  maxBytes : ℕ
  /-- The bytes the decoder keeps back. -/
  decoder : Bytes
  /-- What the digest has been given. -/
  digest : Bytes
  total : ℕ
  controlCount : ℕ
  textCharacterCount : ℕ
  hasText : Bool
  sawCodepoint : Bool
  finished : Bool

structure TextValidationSummary where
  metadata : DocumentMetadata
  sourceSize : ℕ
  /-- The bytes whose SHA-256 digest the summary has. -/
  digested : Bytes
  hasText : Bool

/-- `text[1:] if text.startswith("\ufeff") else text`. -/
def dropBom (s : Str) : Str := if s.head? = some '\uFEFF' then s.tail else s

namespace IncrementalTextValidator

/-- The constructor. -/
def new (U : FilenameText) (filename contentType : Str) (maxBytes : ℕ) :
    Except ValidationError IncrementalTextValidator := do
  if maxBytes = 0 then throw .limitInvalid
  let metadata ← validateDocumentMetadata U filename contentType
  pure ⟨metadata, maxBytes, [], [], 0, 0, 0, false, false, false⟩

variable (v : IncrementalTextValidator)

/-- `_inspect`. -/
def inspect (decoded : Str) : Except ValidationError IncrementalTextValidator :=
  if decoded = [] then .ok v
  else
    let text := if v.sawCodepoint then decoded else dropBom decoded
    if '\x00' ∈ text then .error .binaryContentRejected
    else .ok { v with
      sawCodepoint := true
      textCharacterCount := v.textCharacterCount + text.length
      controlCount := v.controlCount + text.countP isDisallowedControl
      hasText := v.hasText || text.any fun c => !isSpace c }

/-- The bytes of a piece are counted and digested; `rest` is kept back. -/
def receive (chunk rest : Bytes) : IncrementalTextValidator :=
  { v with total := v.total + chunk.length, digest := v.digest ++ chunk, decoder := rest }

/-- `feed`. -/
def feed (chunk : Bytes) : Except ValidationError IncrementalTextValidator :=
  if v.finished then .error .stateInvalid
  else if chunk = [] then .ok v
  else if v.maxBytes < v.total + chunk.length then .error .fileTooLarge
  else
    match decodeComplete (v.decoder ++ chunk) with
    | none => .error .invalidTextEncoding
    | some (decoded, rest) => inspect (v.receive chunk rest) decoded

/-- `finish`.  The decoder has nothing left to decode: bytes that are still kept back are an
error. -/
def finish : Except ValidationError TextValidationSummary :=
  if v.finished then .error .alreadyFinished
  else if v.decoder ≠ [] then .error .invalidTextEncoding
  else if tooManyControls v.controlCount v.textCharacterCount then .error .binaryContentRejected
  else if !v.hasText then .error .emptyDocument
  else .ok ⟨v.metadata, v.total, v.digest, true⟩

/-- The pieces of a document, one after the other. -/
def feedAll (chunks : List Bytes) : Except ValidationError IncrementalTextValidator :=
  chunks.foldlM feed v

end IncrementalTextValidator

/-! ## Whole documents -/

structure ValidatedDocument where
  summary : TextValidationSummary
  normalizedText : Str

/-- `validate_document`. -/
def validateDocument (U : FilenameText) (content : Bytes) (filename contentType : Str)
    (maxBytes : ℕ) : Except ValidationError ValidatedDocument := do
  let validator ← IncrementalTextValidator.new U filename contentType maxBytes
  let validator ← validator.feed content
  let summary ← validator.finish
  match decode? content with
  | none => throw .invalidTextEncoding
  | some decoded => pure ⟨summary, normalizedText decoded⟩

/-- `ValidatedDocument.normalized_bytes`. -/
def ValidatedDocument.normalizedBytes (d : ValidatedDocument) : Bytes := encode d.normalizedText

/-! ## What is accepted -/

/-- What the validator asks of a decoded document. -/
structure TextAccepted (s : Str) : Prop where
  no_nul : '\x00' ∉ s
  few_controls :
    tooManyControls ((dropBom s).countP isDisallowedControl) (dropBom s).length = false
  has_text : ((dropBom s).any fun c => !isSpace c) = true

@[simp] theorem dropBom_nil : dropBom [] = [] := rfl

theorem dropBom_append {s : Str} (hs : s ≠ []) (t : Str) : dropBom (s ++ t) = dropBom s ++ t := by
  obtain ⟨c, s, rfl⟩ := List.exists_cons_of_ne_nil hs
  rw [dropBom, dropBom, List.cons_append, List.head?_cons, List.head?_cons, List.tail_cons,
    List.tail_cons]
  split
  · rfl
  · rfl

theorem mem_dropBom {c : Char} (hc : c ≠ '\uFEFF') (s : Str) : c ∈ dropBom s ↔ c ∈ s := by
  rw [dropBom]
  split
  · rename_i h
    obtain ⟨rest, rfl⟩ : ∃ rest, s = '\uFEFF' :: rest :=
      ⟨s.tail, (List.cons_head?_tail (by simpa using h)).symm⟩
    simp [hc]
  · exact Iff.rfl

namespace IncrementalTextValidator

variable {v v' : IncrementalTextValidator}

/-- What the validator has counted when the decoded text so far is `s`. -/
structure Inspected (v : IncrementalTextValidator) (s : Str) : Prop where
  no_nul : '\x00' ∉ s
  saw : v.sawCodepoint = decide (s ≠ [])
  characters : v.textCharacterCount = (dropBom s).length
  controls : v.controlCount = (dropBom s).countP isDisallowedControl
  text : v.hasText = (dropBom s).any fun c => !isSpace c

/-- The text an inspection counts is what it adds to the text without its byte order mark. -/
theorem Inspected.dropBom_append_eq {s : Str} (hv : Inspected v s) (t : Str) :
    dropBom (s ++ t) = dropBom s ++ (if v.sawCodepoint then t else dropBom t) := by
  by_cases hs : s = []
  · subst hs
    rw [hv.saw]
    simp
  · rw [hv.saw, dropBom_append hs]
    simp [hs]

/-- One inspection. -/
theorem Inspected.inspect {s t : Str} (hv : Inspected v s) (h : v.inspect t = .ok v') :
    Inspected v' (s ++ t) ∧ v'.metadata = v.metadata ∧ v'.maxBytes = v.maxBytes ∧
      v'.decoder = v.decoder ∧ v'.digest = v.digest ∧ v'.total = v.total ∧
      v'.finished = v.finished := by
  rw [IncrementalTextValidator.inspect] at h
  split at h
  · rename_i ht
    cases h
    rw [ht, List.append_nil]
    exact ⟨hv, rfl, rfl, rfl, rfl, rfl, rfl⟩
  · rename_i ht
    have hdrop := hv.dropBom_append_eq t
    have hmem : '\x00' ∈ (if v.sawCodepoint then t else dropBom t) ↔ '\x00' ∈ t := by
      split
      · exact Iff.rfl
      · exact mem_dropBom (by decide) t
    dsimp only at h
    generalize (if v.sawCodepoint then t else dropBom t) = text at h hdrop hmem
    by_cases hnul : '\x00' ∈ text
    · rw [if_pos hnul] at h
      cases h
    · rw [if_neg hnul] at h
      cases h
      refine ⟨⟨?_, ?_, ?_, ?_, ?_⟩, rfl, rfl, rfl, rfl, rfl, rfl⟩
      · rw [List.mem_append, not_or, ← hmem]
        exact ⟨hv.no_nul, hnul⟩
      · simp [ht]
      · rw [hdrop, List.length_append, hv.characters]
      · rw [hdrop, List.countP_append, hv.controls]
      · rw [hdrop, List.any_append, hv.text]

theorem inspect_isOk {t : Str} (ht : '\x00' ∉ t) : ∃ v', v.inspect t = .ok v' := by
  rw [IncrementalTextValidator.inspect]
  split
  · exact ⟨v, rfl⟩
  · dsimp only
    rw [if_neg]
    · exact ⟨_, rfl⟩
    · split
      · exact ht
      · rwa [mem_dropBom (by decide)]

theorem Inspected.receive {s : Str} (hv : Inspected v s) (chunk rest : Bytes) :
    Inspected (v.receive chunk rest) s :=
  ⟨hv.no_nul, hv.saw, hv.characters, hv.controls, hv.text⟩

/-- The bytes fed so far decode to `s` and the bytes that are kept back. -/
structure Fed (v : IncrementalTextValidator) (s : Str) : Prop extends Inspected v s where
  running : v.finished = false
  digest_eq : v.digest = encode s ++ v.decoder
  total_eq : v.total = v.digest.length
  within : v.total ≤ v.maxBytes

/-- A new validator has been fed nothing. -/
theorem fed_new {U : FilenameText} {filename contentType : Str} {maxBytes : ℕ}
    (h : new U filename contentType maxBytes = .ok v) :
    Fed v [] ∧ v.digest = [] ∧ v.decoder = [] ∧ v.maxBytes = maxBytes := by
  rw [new] at h
  split at h
  · cases h
  · cases hm : validateDocumentMetadata U filename contentType with
    | error e => rw [hm] at h; cases h
    | ok metadata =>
        rw [hm] at h
        cases h
        exact ⟨⟨⟨by simp, rfl, rfl, rfl, rfl⟩, rfl, rfl, rfl, Nat.zero_le _⟩, rfl, rfl, rfl⟩

/-- **One piece.** -/
theorem Fed.feed {s : Str} {chunk : Bytes} (hv : Fed v s) (h : v.feed chunk = .ok v') :
    (∃ t, Fed v' (s ++ t)) ∧ v'.digest = v.digest ++ chunk ∧ v'.maxBytes = v.maxBytes := by
  rw [IncrementalTextValidator.feed, if_neg (by simp [hv.running])] at h
  split at h
  · rename_i hchunk
    cases h
    rw [hchunk, List.append_nil]
    exact ⟨⟨[], by rwa [List.append_nil]⟩, rfl, rfl⟩
  · split at h
    · cases h
    · rename_i hsize
      cases hd : decodeComplete (v.decoder ++ chunk) with
      | none => rw [hd] at h; cases h
      | some d =>
          obtain ⟨t, rest⟩ := d
          rw [hd] at h
          have hsound : v.decoder ++ chunk = encode t ++ rest := decodeComplete_sound hd
          -- the bytes are moved first, then the new characters are counted
          obtain ⟨hins, _, hmax, hdecoder, hdigest, htotal, hrunning⟩ :=
            (hv.toInspected.receive chunk rest).inspect h
          refine ⟨⟨t, hins, ?_, ?_, ?_, ?_⟩, hdigest, hmax⟩
          · rw [hrunning]
            exact hv.running
          · rw [hdigest, hdecoder]
            show v.digest ++ chunk = encode (s ++ t) ++ rest
            rw [hv.digest_eq, encode_append, List.append_assoc, hsound, List.append_assoc]
          · rw [htotal, hdigest]
            show v.total + chunk.length = (v.digest ++ chunk).length
            rw [List.length_append, hv.total_eq]
          · rw [htotal, hmax]
            exact Nat.not_lt.mp hsize

/-- **All pieces.** -/
theorem Fed.feedAll (chunks : List Bytes) : ∀ {v : IncrementalTextValidator} {s : Str},
    Fed v s → v.feedAll chunks = .ok v' →
    (∃ t, Fed v' t) ∧ v'.digest = v.digest ++ chunks.flatten ∧ v'.maxBytes = v.maxBytes := by
  induction chunks with
  | nil =>
      intro v s hv h
      cases h
      exact ⟨⟨s, hv⟩, by simp, rfl⟩
  | cons chunk chunks ih =>
      intro v s hv h
      rw [IncrementalTextValidator.feedAll, List.foldlM_cons] at h
      cases hf : v.feed chunk with
      | error e => rw [hf] at h; cases h
      | ok w =>
          rw [hf] at h
          obtain ⟨⟨t, hw⟩, hdigest, hmax⟩ := hv.feed hf
          obtain ⟨hfed, hdigest', hmax'⟩ := ih hw h
          refine ⟨hfed, ?_, hmax'.trans hmax⟩
          rw [hdigest', hdigest, List.flatten_cons, List.append_assoc]

/-- The end of a document. -/
theorem Fed.finish_isOk_iff {s : Str} (hv : Fed v s) :
    (∃ summary, v.finish = .ok summary) ↔ v.decoder = [] ∧ TextAccepted s := by
  rw [IncrementalTextValidator.finish, if_neg (by simp [hv.running])]
  by_cases hd : v.decoder = []
  · rw [if_neg (by simp [hd]), hv.controls, hv.characters, hv.text]
    constructor
    · rintro ⟨summary, h⟩
      split at h
      · cases h
      · rename_i hcontrols
        split at h
        · cases h
        · rename_i htext
          exact ⟨hd, hv.no_nul, by simpa using hcontrols, by simpa using htext⟩
    · rintro ⟨_, htext⟩
      rw [htext.few_controls, htext.has_text]
      exact ⟨_, rfl⟩
  · rw [if_pos hd]
    constructor
    · rintro ⟨summary, h⟩
      cases h
    · rintro ⟨h, _⟩
      exact absurd h hd

/-- **What the validator accepts in pieces**: the bytes are at most as many as allowed and encode
an acceptable text. -/
theorem feedAll_finish_isOk {U : FilenameText} {filename contentType : Str} {maxBytes : ℕ}
    {summary : TextValidationSummary} {chunks : List Bytes}
    (hnew : new U filename contentType maxBytes = .ok v) (hfeed : v.feedAll chunks = .ok v')
    (hfinish : v'.finish = .ok summary) :
    chunks.flatten.length ≤ maxBytes ∧ ∃ s, chunks.flatten = encode s ∧ TextAccepted s := by
  obtain ⟨hv, hdigest, _, hmax⟩ := fed_new hnew
  obtain ⟨⟨s, hs⟩, hdigest', hmax'⟩ := hv.feedAll chunks hfeed
  obtain ⟨hdecoder, haccepted⟩ := hs.finish_isOk_iff.mp ⟨summary, hfinish⟩
  rw [hdigest, List.nil_append] at hdigest'
  constructor
  · rw [← hdigest', ← hs.total_eq, ← hmax, ← hmax']
    exact hs.within
  · refine ⟨s, ?_, haccepted⟩
    rw [← hdigest', hs.digest_eq, hdecoder, List.append_nil]

/-- A document in one piece. -/
theorem Fed.feed_encode {s : Str} (hv : Fed v []) (hdigest : v.digest = []) (hd : v.decoder = [])
    (hs : '\x00' ∉ s) (hsize : (encode s).length ≤ v.maxBytes) :
    ∃ v', v.feed (encode s) = .ok v' ∧ Fed v' s ∧ v'.decoder = [] ∧ v'.digest = encode s := by
  rw [IncrementalTextValidator.feed, if_neg (by simp [hv.running])]
  have htotal : v.total = 0 := by rw [hv.total_eq, hdigest]; rfl
  by_cases hempty : encode s = []
  · rw [if_pos hempty]
    have hnil : s = [] := by
      have := length_le_encode s
      rw [hempty] at this
      exact List.eq_nil_of_length_eq_zero (Nat.le_zero.mp this)
    subst hnil
    exact ⟨v, rfl, hv, hd, hdigest⟩
  · rw [if_neg hempty, if_neg (by omega), hd, List.nil_append]
    have hdecode : decodeComplete (encode s) = some (s, []) := decodeComplete_utf8Bytes s
    rw [hdecode]
    obtain ⟨v', h⟩ := inspect_isOk (v := v.receive (encode s) []) hs
    obtain ⟨hins, _, hmax, hdecoder, hdigest', htotal', hrunning⟩ :=
      (hv.toInspected.receive (encode s) []).inspect h
    have hdigested : v'.digest = encode s := by
      rw [hdigest']
      show v.digest ++ encode s = encode s
      rw [hdigest, List.nil_append]
    have hcounted : v'.total = (encode s).length := by
      rw [htotal']
      show v.total + (encode s).length = (encode s).length
      rw [htotal, Nat.zero_add]
    refine ⟨v', h, ⟨hins, ?_, ?_, ?_, ?_⟩, hdecoder, hdigested⟩
    · rw [hrunning]
      exact hv.running
    · rw [hdigested, hdecoder]
      exact (List.append_nil _).symm
    · rw [hcounted, hdigested]
    · rw [hcounted, hmax]
      exact hsize

end IncrementalTextValidator

open IncrementalTextValidator

/-- **What a whole-document validation accepts**, and the text it normalizes. -/
theorem validateDocument_eq_ok {U : FilenameText} {filename contentType : Str}
    {maxBytes : ℕ} {v : IncrementalTextValidator}
    (hnew : new U filename contentType maxBytes = .ok v) (content : Bytes) (text : Str) :
    (∃ d, validateDocument U content filename contentType maxBytes = .ok d ∧
        d.normalizedText = text) ↔
      content.length ≤ maxBytes ∧ ∃ s, content = encode s ∧ TextAccepted s ∧
        text = normalizedText s := by
  obtain ⟨hv, hdigest, hdecoder, hmax⟩ := fed_new hnew
  rw [validateDocument, hnew]
  constructor
  · rintro ⟨d, h, rfl⟩
    cases hfeed : v.feed content with
    | error e =>
        have h' : (v.feed content >>= _) = _ := h
        rw [hfeed] at h'
        cases h'
    | ok v' =>
        have h' : (v.feed content >>= _) = _ := h
        rw [hfeed] at h'
        cases hfinish : v'.finish with
        | error e =>
            have h'' : (v'.finish >>= _) = _ := h'
            rw [hfinish] at h''
            cases h''
        | ok summary =>
            have h'' : (v'.finish >>= _) = _ := h'
            rw [hfinish] at h''
            have hall : v.feedAll [content] = .ok v' := by
              rw [feedAll, List.foldlM_cons, hfeed]
              rfl
            obtain ⟨hsize, s, hs, haccepted⟩ := feedAll_finish_isOk hnew hall hfinish
            rw [List.flatten_cons, List.flatten_nil, List.append_nil] at hsize hs
            refine ⟨hsize, s, hs, haccepted, ?_⟩
            rw [hs, decode?_encode] at h''
            cases h''
            rfl
  · rintro ⟨hsize, s, rfl, haccepted, rfl⟩
    obtain ⟨v', hfeed, hfed, hd, _⟩ := hv.feed_encode hdigest hdecoder haccepted.no_nul
      (by rw [hmax]; exact hsize)
    obtain ⟨summary, hfinish⟩ := hfed.finish_isOk_iff.mpr ⟨hd, haccepted⟩
    refine ⟨⟨summary, normalizedText s⟩, ?_, rfl⟩
    show (v.feed (encode s) >>= _) = _
    rw [hfeed]
    show (v'.finish >>= _) = _
    rw [hfinish, decode?_encode]
    rfl

end VeloxRag.Ingestion
