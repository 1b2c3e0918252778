import VeloxRag.Ingestion.TextValidatorSpec
import VeloxRag.Ingestion.Markdown
import VeloxRag.Ingestion.Artifact

/-!
# The two parsers

Parsing validates a document as a whole, normalizes its text and finds the boundaries of its
structure.  The chunk stage parses again what the parse stage has stored, and the parse stage
validates again what the upload has accepted; both repeat the validation on other bytes or with
another limit than the first time.

## Main definitions

* `plainBoundaries` — the paragraphs of a plain text.
* `Parser`, `plainTextParser`, `markdownTextParser`, `Parser.parse` — the parsers.
* `UploadSettings`, `validateStream` — the validation of an upload.
* `accepted_upload_validates` — when the parser accepts what the upload accepted.
* `parse_normalizedBytes` — when parsing is stable under normalization.
-/

namespace VeloxRag.Ingestion

open VeloxRag.Lib

/-! ## Plain text -/

/-- The loop of `_iter_lines`.  Every line takes at least one position, so that the fuel of
`iterLines` is enough. -/
def iterLinesFrom (text : Str) : ℕ → ℕ → List Line
  | 0, _ => []
  | fuel + 1, start =>
      if start < text.length then
        match findChar text '\n' start with
        | none => [⟨start, text.drop start⟩]
        | some newline => ⟨start, slice text start newline⟩ :: iterLinesFrom text fuel (newline + 1)
      else []

/-- `_iter_lines`. -/
def iterLines (text : Str) : List Line := iterLinesFrom text text.length 0

/-- The loop of `_plain_boundaries`; the paragraph that is open ends with the text. -/
def plainLoop : List Line → Option ℕ → ℕ → BoundaryBuilder → Except ParserError BoundaryBuilder
  | [], none, _, boundaries => .ok boundaries
  | [], some paragraphStart, paragraphEnd, boundaries =>
      boundaries.addFields .paragraph paragraphStart paragraphEnd [] none
  | line :: lines, paragraphStart, paragraphEnd, boundaries =>
      if isBlankLine line.content then
        match paragraphStart with
        | none => plainLoop lines none paragraphEnd boundaries
        | some paragraphStart => do
            let boundaries ← boundaries.addFields .paragraph paragraphStart paragraphEnd [] none
            plainLoop lines none paragraphEnd boundaries
      else
        plainLoop lines (some (paragraphStart.getD line.startOffset)) line.contentEndOffset boundaries

/-- `_plain_boundaries`. -/
def plainBoundaries (text : Str) : Except ParserError PackedTable := do
  let boundaries ← plainLoop (iterLines text) none 0 .new
  let (table, _) ← boundaries.finish
  pure table

/-! ## The parsers -/

variable {P : Platform}

/-- The constructor of `ParsedArtifact`, from packed boundaries. -/
def ParsedArtifact.ofTable (text : Str) (boundaries : PackedTable) (parserName parserVersion : Str)
    (parserConfig : Mapping P) : Except ParserError (ParsedArtifact P) :=
  match h : checkArtifact text boundaries parserName parserVersion with
  | .error e => .error e
  | .ok () => .ok ⟨text, boundaries, parserName, parserVersion, sortedConfig parserConfig, h⟩

/-- `ParsedArtifact.normalized_bytes`. -/
def ParsedArtifact.normalizedBytes (a : ParsedArtifact P) : Bytes := encode a.text

/-- What a parser raises. -/
inductive ParseError
  | validation (error : ValidationError)
  | structure_ (error : ParserError)
deriving DecidableEq, Repr

/-- A parser: its identity, the names under which it validates, and its boundaries. -/
structure Parser where
  name : Str
  version : Str
  filename : Str
  contentType : Str
  boundaries : Str → Except ParserError PackedTable

/-- `PlainTextParser`. -/
def plainTextParser : Parser where
  name := "plain_text_v1".toList
  version := "1".toList
  filename := "source.txt".toList
  contentType := "text/plain".toList
  boundaries := plainBoundaries

/-- `MarkdownTextParser`. -/
def markdownTextParser : Parser where
  name := "markdown_text_v1".toList
  version := "1".toList
  filename := "source.md".toList
  contentType := "text/markdown".toList
  boundaries := markdownBoundaries

/-- `parser_for_extension`. -/
def parserForExtension (U : FilenameText) (extension : Str) : Option Parser :=
  let canonical := U.lower extension
  if canonical = ".txt".toList then some plainTextParser
  else if canonical = ".md".toList ∨ canonical = ".markdown".toList then some markdownTextParser
  else none

namespace Parser

variable (U : FilenameText) (p : Parser)

/-- The validation a parser begins with: the limit is the default of `validate_document`. -/
def validate (source : Bytes) : Except ValidationError ValidatedDocument :=
  validateDocument U source p.filename p.contentType maxDocumentBytes

/-- The artifact of a normalized text. -/
def artifact (P : Platform) (text : Str) : Except ParserError (ParsedArtifact P) := do
  let boundaries ← p.boundaries text
  ParsedArtifact.ofTable text boundaries p.name p.version Mapping.empty

/-- `parse`. -/
def parse (P : Platform) (source : Bytes) : Except ParseError (ParsedArtifact P) :=
  match p.validate U source with
  | .error e => .error (.validation e)
  | .ok validated =>
      match p.artifact P validated.normalizedText with
      | .error e => .error (.structure_ e)
      | .ok a => .ok a

end Parser

/-- The parsers of the service. -/
def parsers : List Parser := [plainTextParser, markdownTextParser]

/-- Every parser is chosen for some extension. -/
theorem parserForExtension_mem {U : FilenameText} {extension : Str} {p : Parser}
    (h : parserForExtension U extension = some p) : p ∈ parsers := by
  rw [parserForExtension] at h
  split at h
  · cases h
    simp [parsers]
  · split at h
    · cases h
      simp [parsers]
    · cases h

/-! ## Validation inside a parser -/

section Validation

variable (U : FilenameText)

/-- A name of printable ASCII characters passes when its parts do. -/
theorem canonicalFilename_ascii {s stem suffix : Str} (hascii : ∀ c ∈ s, 32 < c.toNat ∧ c.toNat < 127)
    (hstrip : strip s = s) (hs : s ≠ [] ∧ s ≠ ['.'] ∧ s ≠ ['.', '.'] ∧ '/' ∉ s ∧ '\\' ∉ s)
    (hlength : (encode s).length ≤ 255) (hparts : rpartitionDot s = some (stem, suffix))
    (hsuffix : ∀ c ∈ suffix, c ∈ s) (hstem : stem ≠ [])
    (hext : '.' :: suffix.map Char.toLower ∈ supportedExtensions) :
    canonicalFilename U s = .ok (s, '.' :: suffix.map Char.toLower) := by
  have hnfc : U.nfc (strip s) = s := by
    rw [hstrip]
    apply U.nfc_ascii
    intro c hc
    have := hascii c hc
    omega
  have hother : s.any U.isOther = false := by
    rw [List.any_eq_false]
    intro c hc
    have := hascii c hc
    rw [U.isOther_ascii c (by omega)]
    simp
    omega
  have hlower : U.lower suffix = suffix.map Char.toLower := by
    apply U.lower_ascii
    intro c hc
    have := hascii c (hsuffix c hc)
    omega
  rw [canonicalFilename]
  simp only [hnfc, hother, hparts, hlower]
  rw [if_neg (by simp [hs]; omega), if_neg (by simp [hstem]; simpa using hext)]

/-- A media type of ASCII characters passes when it is a token in lower case. -/
theorem canonicalContentType_ascii {s : Str} (hascii : ∀ c ∈ s, c.toNat < 128)
    (hstrip : strip (s.takeWhile (· ≠ ';')) = s) (hlower : s.map Char.toLower = s)
    (htoken : isMimeToken s = true) : canonicalContentType U s = .ok s := by
  rw [canonicalContentType]
  simp only [hstrip, U.lower_ascii s hascii, hlower, htoken, if_true]

/-- The metadata of a plain text document with the names of its parser. -/
def plainTextMetadata : DocumentMetadata :=
  ⟨"source.txt".toList, ".txt".toList, "text/plain".toList⟩

theorem validateDocumentMetadata_plain :
    validateDocumentMetadata U plainTextParser.filename plainTextParser.contentType =
      .ok plainTextMetadata := by
  have hname := @canonicalFilename_ascii U "source.txt".toList "source".toList "txt".toList
    (by simp) (by decide) (by simp) (by decide) (by decide) (by simp) (by simp) (by decide)
  have htype := @canonicalContentType_ascii U "text/plain".toList (by simp) (by decide) (by decide)
    (by decide)
  show validateDocumentMetadata U "source.txt".toList "text/plain".toList = _
  rw [validateDocumentMetadata, hname, htype]
  rfl

/-- The plain text parser is chosen for them. -/
theorem parserForExtension_plain :
    parserForExtension U plainTextMetadata.extension = some plainTextParser := by
  have hlower : U.lower ".txt".toList = ".txt".toList := by
    rw [U.lower_ascii _ (by simp)]
    rfl
  show parserForExtension U ".txt".toList = _
  rw [parserForExtension, hlower]
  exact if_pos rfl

/-- The names a parser gives its documents are accepted. -/
theorem validateDocumentMetadata_of_mem {p : Parser} (hp : p ∈ parsers) :
    ∃ m, validateDocumentMetadata U p.filename p.contentType = .ok m := by
  rcases List.mem_pair.mp hp with rfl | rfl
  · exact ⟨plainTextMetadata, validateDocumentMetadata_plain U⟩
  · have hname := @canonicalFilename_ascii U "source.md".toList "source".toList "md".toList
      (by simp) (by decide) (by simp) (by decide) (by decide) (by simp) (by simp) (by decide)
    have htype := @canonicalContentType_ascii U "text/markdown".toList (by simp) (by decide) (by decide)
      (by decide)
    refine ⟨⟨"source.md".toList, ".md".toList, "text/markdown".toList⟩, ?_⟩
    show validateDocumentMetadata U "source.md".toList "text/markdown".toList = _
    rw [validateDocumentMetadata, hname, htype]
    rfl

/-- The validator of a parser. -/
theorem new_of_mem_parsers {p : Parser} (hp : p ∈ parsers) :
    ∃ v, IncrementalTextValidator.new U p.filename p.contentType maxDocumentBytes = .ok v := by
  obtain ⟨m, hm⟩ := validateDocumentMetadata_of_mem U hp
  rw [IncrementalTextValidator.new, if_neg (by decide), hm]
  exact ⟨_, rfl⟩

/-- **What a parser accepts**: the encoding of an acceptable text that is not too large. -/
theorem validate_eq_ok {p : Parser} (hp : p ∈ parsers) (source : Bytes) (text : Str) :
    (∃ d, p.validate U source = .ok d ∧ d.normalizedText = text) ↔
      source.length ≤ maxDocumentBytes ∧ ∃ s, source = encode s ∧ TextAccepted s ∧
        text = normalizedText s := by
  obtain ⟨v, hv⟩ := new_of_mem_parsers U hp
  exact validateDocument_eq_ok hv source text

end Validation

/-! ## The upload -/

/-- The upload settings that the configuration accepts. -/
structure UploadSettings where
  maxUploadBytes : ℕ
  uploadBufferBytes : ℕ
  /-- "numeric limits must be positive". -/
  buffer_pos : 0 < uploadBufferBytes
  /-- "upload buffer size must not exceed upload limit". -/
  buffer_le : uploadBufferBytes ≤ maxUploadBytes

/-- The validator of `_stage_source` and the loop of `_ValidatingStream` over the pieces of an
upload. -/
def validateStream (U : FilenameText) (settings : UploadSettings) (filename contentType : Str)
    (chunks : List Bytes) : Except ValidationError TextValidationSummary := do
  let validator ← IncrementalTextValidator.new U filename contentType settings.maxUploadBytes
  let validator ← validator.feedAll chunks
  validator.finish

/-- What an accepted upload is made of. -/
theorem validateStream_eq_ok {U : FilenameText} {settings : UploadSettings}
    {filename contentType : Str} {chunks : List Bytes} {summary : TextValidationSummary}
    (h : validateStream U settings filename contentType chunks = .ok summary) :
    chunks.flatten.length ≤ settings.maxUploadBytes ∧
      ∃ s, chunks.flatten = encode s ∧ TextAccepted s := by
  rw [validateStream] at h
  cases hnew : IncrementalTextValidator.new U filename contentType settings.maxUploadBytes with
  | error e => rw [hnew] at h; cases h
  | ok v =>
      rw [hnew] at h
      cases hfeed : v.feedAll chunks with
      | error e =>
          have h' : (v.feedAll chunks >>= _) = _ := h
          rw [hfeed] at h'
          cases h'
      | ok v' =>
          have h' : (v.feedAll chunks >>= _) = _ := h
          rw [hfeed] at h'
          exact IncrementalTextValidator.feedAll_finish_isOk hnew hfeed h'

/-- An acceptable text that is not too large is accepted, in whatever pieces. -/
theorem validateStream_pieces {U : FilenameText} {settings : UploadSettings}
    {filename contentType : Str} {m : DocumentMetadata} {s : Str} {chunks : List Bytes}
    (hm : validateDocumentMetadata U filename contentType = .ok m) (hs : TextAccepted s)
    (hchunks : chunks.flatten = encode s) (hsize : (encode s).length ≤ settings.maxUploadBytes) :
    ∃ summary, validateStream U settings filename contentType chunks = .ok summary := by
  have hpos : settings.maxUploadBytes ≠ 0 := by
    have := settings.buffer_pos
    have := settings.buffer_le
    omega
  exact ⟨_, validatePieces_eq_ok_iff.mpr
    ⟨m, s, hpos, hm, hchunks ▸ hsize, hchunks, hs, rfl⟩⟩

theorem validateStream_encode {U : FilenameText} {settings : UploadSettings}
    {filename contentType : Str} {m : DocumentMetadata} {s : Str}
    (hm : validateDocumentMetadata U filename contentType = .ok m) (hs : TextAccepted s)
    (hsize : (encode s).length ≤ settings.maxUploadBytes) :
    ∃ summary, validateStream U settings filename contentType [encode s] = .ok summary :=
  validateStream_pieces hm hs (List.flatten_singleton) hsize

/-- A character that no check of a document minds. -/
def isVisible (c : Char) : Bool :=
  !(c == '\x00' || c == '\uFEFF' || isDisallowedControl c || isSpace c)

/-- A text of visible characters is accepted. -/
theorem textAccepted_of_visible {s : Str} (hs : ∀ c ∈ s, isVisible c = true) (hne : s ≠ []) :
    TextAccepted s := by
  simp only [isVisible, Bool.not_eq_true', Bool.or_eq_false_iff, beq_eq_false_iff_ne] at hs
  have hhead : s.head? ≠ some '\uFEFF' :=
    fun h => (hs _ (List.mem_of_mem_head? h)).1.1.2 rfl
  have hdrop : dropBom s = s := by rw [dropBom, if_neg hhead]
  have hcontrols : s.countP isDisallowedControl = 0 :=
    List.countP_eq_zero.mpr fun c hc => by rw [(hs c hc).1.2]; decide
  refine ⟨fun hnul => (hs _ hnul).1.1.1 rfl, ?_, ?_⟩
  · rw [hdrop, hcontrols]
    simp [tooManyControls]
  · obtain ⟨c, rest, rfl⟩ := List.exists_cons_of_ne_nil hne
    rw [hdrop, List.any_eq_true]
    exact ⟨c, List.mem_cons_self, by rw [(hs c List.mem_cons_self).2]; rfl⟩

/-- A text of letters is accepted. -/
theorem textAccepted_replicate {n : ℕ} (hn : n ≠ 0) : TextAccepted (List.replicate n 'a') := by
  apply textAccepted_of_visible
  · intro c hc
    rw [List.eq_of_mem_replicate hc]
    decide
  · rwa [ne_eq, List.replicate_eq_nil_iff]

theorem length_encode_replicate (n : ℕ) : (encode (List.replicate n 'a')).length = n := by
  induction n with
  | zero => rfl
  | succ n ih =>
      rw [List.replicate_succ, encode_cons, List.length_append, ih]
      exact Nat.add_comm 1 n

/-- **The parser accepts an accepted upload** exactly when it is not larger than the limit that the
parser has of its own. -/
theorem accepted_upload_validates (U : FilenameText) (settings : UploadSettings)
    (filename contentType : Str) (chunks : List Bytes) (summary : TextValidationSummary)
    (haccepted : validateStream U settings filename contentType chunks = .ok summary)
    (p : Parser) (hp : p ∈ parsers) :
    (∃ validated, p.validate U chunks.flatten = .ok validated) ↔
      chunks.flatten.length ≤ maxDocumentBytes := by
  obtain ⟨_, s, hs, htext⟩ := validateStream_eq_ok haccepted
  constructor
  · rintro ⟨d, hd⟩
    exact ((validate_eq_ok U hp _ _).mp ⟨d, hd, rfl⟩).1
  · intro hsize
    obtain ⟨d, hd, _⟩ := (validate_eq_ok U hp _ _).mpr ⟨hsize, s, hs, htext, rfl⟩
    exact ⟨d, hd⟩

/-- Settings with an upload limit of 100 MiB. -/
def largeUploads : UploadSettings where
  maxUploadBytes := 100 * 1024 * 1024
  uploadBufferBytes := 1024 * 1024
  buffer_pos := by decide
  buffer_le := by decide

namespace NoteSample

/-- A byte order mark, a heading, two Windows line ends and a character of four bytes. -/
def source : Str := '\uFEFF' :: "# A\r\n\r\n😀b".toList

/-- The document in four pieces, which cut the mark, a line end and the character. -/
def pieces : List Bytes :=
  [(encode source).take 2, ((encode source).drop 2).take 5, ((encode source).drop 7).take 5,
    (encode source).drop 12]

theorem flatten_pieces : pieces.flatten = encode source := by decide

theorem accepted : TextAccepted source := ⟨by decide, by decide, by decide⟩

end NoteSample

open NoteSample in
theorem accepted_upload_validates_note : ∃ summary validated,
    validateStream .ascii largeUploads "note.md".toList "text/markdown".toList pieces = .ok summary ∧
      markdownTextParser.validate .ascii pieces.flatten = .ok validated := by
  have hm : ∃ m, validateDocumentMetadata .ascii "note.md".toList "text/markdown".toList = .ok m :=
    ⟨_, by rfl⟩
  obtain ⟨m, hm⟩ := hm
  obtain ⟨summary, h⟩ := @validateStream_pieces .ascii largeUploads _ _ _ _ _ hm accepted
    flatten_pieces (by decide)
  obtain ⟨validated, hvalidated⟩ := (accepted_upload_validates .ascii largeUploads _ _ _ summary h
    markdownTextParser (by simp [parsers])).mpr (by decide)
  exact ⟨summary, validated, h, hvalidated⟩

/-- One byte more than 50 MiB: the upload is accepted and no parser takes it. -/
theorem accepted_upload_too_large : ¬ ∀ (U : FilenameText) (settings : UploadSettings)
    (filename contentType : Str) (chunks : List Bytes) (summary : TextValidationSummary),
    validateStream U settings filename contentType chunks = .ok summary →
    ∀ p ∈ parsers, ∃ validated, p.validate U chunks.flatten = .ok validated := by
  intro hclaim
  have hmem : plainTextParser ∈ parsers := by simp [parsers]
  obtain ⟨m, hm⟩ := validateDocumentMetadata_of_mem .ascii hmem
  have hlength := length_encode_replicate (maxDocumentBytes + 1)
  obtain ⟨summary, h⟩ := @validateStream_encode _ largeUploads _ _ _ _ hm
    (textAccepted_replicate (Nat.succ_ne_zero maxDocumentBytes)) (by rw [hlength]; decide)
  obtain ⟨d, hd⟩ := hclaim _ _ _ _ _ _ h plainTextParser hmem
  obtain ⟨hsize, _⟩ := (validate_eq_ok .ascii hmem _ _).mp ⟨d, hd, rfl⟩
  rw [List.flatten_cons, List.flatten_nil, List.append_nil, hlength] at hsize
  omega

/-! ## Parsing again -/

/-- `text.count("\r\n")`. -/
def crLfCount : Str → ℕ
  | '\r' :: '\n' :: rest => crLfCount rest + 1
  | _ :: rest => crLfCount rest
  | [] => 0

theorem length_replaceCrLf (s : Str) : (replaceCrLf s).length + crLfCount s = s.length := by
  fun_induction replaceCrLf s with
  | case1 rest ih =>
      rw [crLfCount, List.length_cons, List.length_cons, List.length_cons, ← ih]
      omega
  | case2 c rest hne ih =>
      rw [crLfCount, List.length_cons, List.length_cons, ← ih]
      · omega
      · exact hne
  | case3 => rfl

/-- A property that does not tell the line ends apart sees the same in a normalized text. -/
theorem countP_replaceCrLf {f : Char → Bool} (hcr : f '\r' = false) (s : Str) :
    (replaceCrLf s).countP f = s.countP f := by
  fun_induction replaceCrLf s with
  | case1 rest ih => rw [List.countP_cons, List.countP_cons, List.countP_cons, ih, hcr]; simp
  | case2 c rest _ ih => rw [List.countP_cons, List.countP_cons, ih]
  | case3 => rfl

theorem countP_replaceCr {f : Char → Bool} (hcr : f '\r' = false) (hlf : f '\n' = false) (s : Str) :
    (replaceCr s).countP f = s.countP f := by
  rw [replaceCr, List.countP_map]
  apply List.countP_congr
  intro c _
  show f (if c = '\r' then '\n' else c) = true ↔ f c = true
  split
  · rename_i h
    rw [h, hcr, hlf]
  · exact Iff.rfl

theorem normalizedText_eq (s : Str) : normalizedText s = replaceCr (replaceCrLf (dropBom s)) := rfl

/-- Line ends aside, a normalized text has the characters of the document. -/
theorem countP_normalizedText {f : Char → Bool} (hcr : f '\r' = false) (hlf : f '\n' = false)
    (s : Str) : (normalizedText s).countP f = (dropBom s).countP f := by
  rw [normalizedText_eq, countP_replaceCr hcr hlf, countP_replaceCrLf hcr]

theorem length_normalizedText (s : Str) :
    (normalizedText s).length = (dropBom s).length - crLfCount (dropBom s) := by
  have := length_replaceCrLf (dropBom s)
  rw [normalizedText_eq, replaceCr, List.length_map]
  omega

/-- A text without carriage returns has no line end to replace. -/
theorem replaceCrLf_of_no_cr {s : Str} (h : '\r' ∉ s) : replaceCrLf s = s := by
  fun_induction replaceCrLf s with
  | case1 rest => exact absurd List.mem_cons_self h
  | case2 c rest _ ih => rw [ih fun hc => h (List.mem_cons_of_mem _ hc)]
  | case3 => rfl

theorem replaceCr_of_no_cr {s : Str} (h : '\r' ∉ s) : replaceCr s = s := by
  conv_rhs => rw [← List.map_id s]
  apply List.map_congr_left
  intro c hc
  refine if_neg fun hcr => ?_
  rw [hcr] at hc
  exact h hc

/-- A text without carriage returns and byte order mark is its own normalization. -/
theorem normalizedText_of_no_cr {s : Str} (h : '\r' ∉ s) (hbom : s.head? ≠ some '\uFEFF') :
    normalizedText s = s := by
  rw [normalizedText_eq, dropBom, if_neg hbom, replaceCrLf_of_no_cr h, replaceCr_of_no_cr h]

theorem head?_replaceCr (s : Str) :
    (replaceCr s).head? = some '\uFEFF' ↔ s.head? = some '\uFEFF' := by
  cases s with
  | nil => exact Iff.rfl
  | cons c s =>
      show some (if c = '\r' then '\n' else c) = _ ↔ some c = _
      split
      · rename_i h
        rw [h]
        decide
      · exact Iff.rfl

theorem head?_replaceCrLf (s : Str) :
    (replaceCrLf s).head? = some '\uFEFF' ↔ s.head? = some '\uFEFF' := by
  fun_cases replaceCrLf s with
  | case1 rest => simp
  | case2 c rest => rfl
  | case3 => rfl

/-- The normalized text begins with a byte order mark when the document begins with two. -/
theorem head?_normalizedText (s : Str) :
    (normalizedText s).head? = some '\uFEFF' ↔ ['\uFEFF', '\uFEFF'] <+: s := by
  rw [normalizedText_eq, head?_replaceCr, head?_replaceCrLf, dropBom]
  cases s with
  | nil => simp
  | cons c s =>
      rw [List.head?_cons, List.tail_cons, List.cons_prefix_cons]
      by_cases hc : c = '\uFEFF'
      · subst hc
        rw [if_pos rfl]
        cases s with
        | nil => simp
        | cons d s => simp [eq_comm]
      · rw [if_neg (by simpa using hc), List.head?_cons]
        simp [hc, eq_comm]

/-- The normalization of an accepted document is accepted again when its control characters are
still few, now that each line end is one character. -/
theorem textAccepted_normalizedText {s : Str} (h : TextAccepted s)
    (hbom : (normalizedText s).head? ≠ some '\uFEFF') :
    TextAccepted (normalizedText s) ↔
      tooManyControls ((dropBom s).countP isDisallowedControl)
        ((dropBom s).length - crLfCount (dropBom s)) = false := by
  have hdrop : dropBom (normalizedText s) = normalizedText s := by rw [dropBom, if_neg hbom]
  have hcontrols := @countP_normalizedText isDisallowedControl (by decide) (by decide) s
  have htext := @countP_normalizedText (fun c => !isSpace c) (by decide) (by decide) s
  constructor
  · intro haccepted
    have := haccepted.few_controls
    rwa [hdrop, hcontrols, length_normalizedText] at this
  · intro hfew
    refine ⟨?_, ?_, ?_⟩
    · intro hnul
      have hsub := replaceCrLf_sublist (dropBom s)
      exact h.no_nul ((mem_dropBom (by decide) s).mp
        (hsub.subset (mem_of_mem_replaceCr hnul (by decide))))
    · rwa [hdrop, hcontrols, length_normalizedText]
    · rw [hdrop]
      have hsome := h.has_text
      rw [List.any_eq_true, ← List.countP_pos_iff] at hsome ⊢
      rwa [htext]

/-- **Parsing**, with the text it normalizes. -/
theorem parse_eq_ok {U : FilenameText} {p : Parser} (hp : p ∈ parsers) {source : Bytes}
    {a : ParsedArtifact P} : p.parse U P source = .ok a ↔
      source.length ≤ maxDocumentBytes ∧ ∃ s, source = encode s ∧ TextAccepted s ∧
        p.artifact P (normalizedText s) = .ok a := by
  rw [Parser.parse]
  constructor
  · intro h
    cases hd : p.validate U source with
    | error e => rw [hd] at h; cases h
    | ok d =>
        rw [hd] at h
        obtain ⟨hsize, s, hs, haccepted, htext⟩ := (validate_eq_ok U hp _ _).mp ⟨d, hd, rfl⟩
        refine ⟨hsize, s, hs, haccepted, ?_⟩
        rw [← htext]
        dsimp only at h
        cases ha : p.artifact P d.normalizedText with
        | error e => rw [ha] at h; cases h
        | ok a' => rw [ha] at h; cases h; rfl
  · rintro ⟨hsize, s, hs, haccepted, ha⟩
    obtain ⟨d, hd, htext⟩ := (validate_eq_ok U hp _ _).mpr ⟨hsize, s, hs, haccepted, rfl⟩
    rw [hd]
    dsimp only
    rw [htext, ha]

/-- An artifact has the text it was made from, and its boundaries. -/
theorem artifact_eq_ok {p : Parser} {text : Str} {a : ParsedArtifact P}
    (h : p.artifact P text = .ok a) : a.text = text ∧ p.boundaries text = .ok a.boundaries := by
  rw [Parser.artifact] at h
  cases hb : p.boundaries text with
  | error e => rw [hb] at h; cases h
  | ok table =>
      rw [hb] at h
      have h' : ParsedArtifact.ofTable text table p.name p.version Mapping.empty = .ok a := h
      rw [ParsedArtifact.ofTable] at h'
      split at h'
      · cases h'
      · cases h'
        exact ⟨rfl, rfl⟩

/-- A document whose normalization parses to the same text: it does not begin with two byte order
marks, and its control characters stay few when each `"\r\n"` counts once. -/
def ParsesStably (s : Str) : Prop :=
  ¬ ['\uFEFF', '\uFEFF'] <+: s ∧
    tooManyControls ((dropBom s).countP isDisallowedControl)
      ((dropBom s).length - crLfCount (dropBom s)) = false

/-- **Parsing the bytes of an artifact again** gives its text and its boundaries exactly when the
document parses stably. -/
theorem parse_normalizedBytes (U : FilenameText) (p : Parser) (hp : p ∈ parsers) (source : Bytes)
    (a : ParsedArtifact P) (hparse : p.parse U P source = .ok a) :
    (∃ b, p.parse U P a.normalizedBytes = .ok b ∧ b.text = a.text ∧ b.boundaries = a.boundaries) ↔
      ∀ s, decode? source = some s → ParsesStably s := by
  obtain ⟨hsize, s, rfl, haccepted, hartifact⟩ := (parse_eq_ok hp).mp hparse
  obtain ⟨htext, hboundaries⟩ := artifact_eq_ok hartifact
  have hnocr : '\r' ∉ normalizedText s := not_mem_replaceCr _
  simp only [decode?_encode, Option.some.injEq, forall_eq']
  constructor
  · rintro ⟨b, hb, hsame, _⟩
    obtain ⟨_, t, ht, haccepted', hagain⟩ := (parse_eq_ok hp).mp hb
    have hst : t = normalizedText s := by
      have hdecode := congrArg decode? ht
      rw [ParsedArtifact.normalizedBytes, htext, decode?_encode, decode?_encode] at hdecode
      exact (Option.some.inj hdecode).symm
    subst hst
    -- the second normalization would drop a mark that the first one has left
    have hbom : (normalizedText s).head? ≠ some '\uFEFF' := by
      intro hhead
      have hsecond : normalizedText (normalizedText s) = normalizedText s := by
        rw [← (artifact_eq_ok hagain).1, hsame, htext]
      have hlength := length_normalizedText (normalizedText s)
      rw [hsecond, dropBom, if_pos hhead, List.length_tail] at hlength
      have hpos : 0 < (normalizedText s).length := by
        cases hn : normalizedText s with
        | nil => rw [hn] at hhead; cases hhead
        | cons c rest => simp
      omega
    exact ⟨fun htwo => hbom ((head?_normalizedText s).mpr htwo),
      (textAccepted_normalizedText haccepted hbom).mp haccepted'⟩
  · rintro ⟨htwo, hfew⟩
    have hbom : (normalizedText s).head? ≠ some '\uFEFF' :=
      fun hhead => htwo ((head?_normalizedText s).mp hhead)
    have hagain := (textAccepted_normalizedText haccepted hbom).mpr hfew
    refine ⟨a, (parse_eq_ok hp).mpr ⟨?_, normalizedText s, ?_, hagain, ?_⟩, rfl, rfl⟩
    · rw [ParsedArtifact.normalizedBytes, htext, normalizedText_eq, length_encode_replaceCr]
      refine le_trans (encode_sublist (replaceCrLf_sublist _)) (le_trans (encode_sublist ?_) hsize)
      rw [dropBom]
      split
      · exact List.tail_sublist s
      · exact List.Sublist.refl s
    · rw [ParsedArtifact.normalizedBytes, htext]
    · rw [normalizedText_of_no_cr hnocr hbom]
      exact hartifact

/-- The artifact of a text whose boundaries the check accepts. -/
theorem artifact_of_boundaries {p : Parser} {text : Str} {table : PackedTable}
    (hb : p.boundaries text = .ok table)
    (hcheck : checkArtifact text table p.name p.version = .ok ()) :
    p.artifact P text = .ok ⟨text, table, p.name, p.version, Mapping.empty, hcheck⟩ := by
  have hconfig : sortedConfig (Mapping.empty : Mapping P) = Mapping.empty :=
    Mapping.ext_json (by simp [sortedConfig, Mapping.json, Mapping.empty, Json.sortKeys])
  rw [Parser.artifact, hb]
  show ParsedArtifact.ofTable text table p.name p.version Mapping.empty = _
  rw [ParsedArtifact.ofTable]
  split
  · rename_i e he
    rw [hcheck] at he
    cases he
  · simp only [hconfig]

theorem artifact_isOk {p : Parser} {text : Str} {table : PackedTable}
    (hb : p.boundaries text = .ok table)
    (hcheck : checkArtifact text table p.name p.version = .ok ()) :
    ∃ a, p.artifact P text = .ok a := ⟨_, artifact_of_boundaries hb hcheck⟩

/-- The packed boundaries of one paragraph. -/
def oneParagraph (length : ℕ) : PackedTable :=
  ⟨[⟨boundaryCodeByKind .paragraph, 0, length, 0, levelCode none⟩], [⟨0, 1, 1, 0, 0, 1⟩], [], [], []⟩

namespace NoteSample

/-- The text of the note. -/
def text : Str := "# A\n\n😀b".toList

/-- The packed boundaries of the text: the heading and the paragraph under it. -/
def table : PackedTable :=
  ⟨[⟨boundaryCodeByKind .heading, 0, 3, 1, levelCode (some 1)⟩,
    ⟨boundaryCodeByKind .paragraph, 5, 2, 1, levelCode none⟩], [⟨0, 2, 1, 0, 0, 2⟩], encode ['A'], [1],
    [0]⟩

def artifact (P : Platform) : ParsedArtifact P :=
  ⟨text, table, markdownTextParser.name, markdownTextParser.version, Mapping.empty, by rfl⟩

theorem artifact_text (P : Platform) : markdownTextParser.artifact P text = .ok (artifact P) :=
  artifact_of_boundaries (by rfl) (by rfl)

theorem parse_source (U : FilenameText) (P : Platform) :
    markdownTextParser.parse U P (encode source) = .ok (artifact P) :=
  (parse_eq_ok (by simp [parsers])).mpr ⟨by decide, source, rfl, accepted, artifact_text P⟩

/-- What the parse stage stores of the note parses to the same artifact. -/
theorem parse_text (U : FilenameText) (P : Platform) :
    markdownTextParser.parse U P (encode text) = .ok (artifact P) :=
  (parse_eq_ok (by simp [parsers])).mpr
    ⟨by decide, text, rfl, ⟨by decide, by decide, by decide⟩, artifact_text P⟩

end NoteSample

open NoteSample in
/-- The note is parsed twice. -/
theorem parse_normalizedBytes_note : ∃ again : ParsedArtifact Platform.ascii,
    markdownTextParser.parse .ascii .ascii (encode source) = .ok (artifact .ascii) ∧
      markdownTextParser.parse .ascii .ascii (artifact .ascii).normalizedBytes = .ok again ∧
      again.text = text ∧ again.boundaries = table := by
  have hsource := parse_source .ascii .ascii
  have hstably : ∀ s, decode? (encode source) = some s → ParsesStably s := by
    intro s hs
    rw [decode?_encode] at hs
    cases hs
    exact ⟨by decide, by decide⟩
  obtain ⟨again, hagain, htext, hboundaries⟩ :=
    (parse_normalizedBytes .ascii markdownTextParser (by simp [parsers]) _ _ hsource).mpr hstably
  exact ⟨again, hsource, hagain, htext, hboundaries⟩

/-- A letter after two byte order marks: the second parse loses the second mark. -/
theorem parse_twice_two_marks : ¬ ∀ (U : FilenameText) (P : Platform), ∀ p ∈ parsers,
    ∀ (source : Bytes) (a : ParsedArtifact P), p.parse U P source = .ok a →
    ∃ b, p.parse U P a.normalizedBytes = .ok b ∧ b.text = a.text ∧ b.boundaries = a.boundaries := by
  intro hclaim
  have hmem : plainTextParser ∈ parsers := by simp [parsers]
  obtain ⟨a, ha⟩ := @artifact_isOk .ascii plainTextParser ['\uFEFF', 'a'] (oneParagraph 2)
    (by rfl) (by rfl)
  have hparse : plainTextParser.parse .ascii .ascii (encode ['\uFEFF', '\uFEFF', 'a']) = .ok a :=
    (parse_eq_ok hmem).mpr ⟨by decide, _, rfl, ⟨by decide, by decide, by decide⟩, ha⟩
  obtain ⟨b, hb, htext, _⟩ := hclaim .ascii .ascii plainTextParser hmem _ a hparse
  obtain ⟨_, s, hs, _, hagain⟩ := (parse_eq_ok hmem).mp hb
  have hdecode := congrArg decode? hs
  rw [ParsedArtifact.normalizedBytes, decode?_encode, decode?_encode, (artifact_eq_ok ha).1]
    at hdecode
  rw [← Option.some.inj hdecode] at hagain
  rw [(artifact_eq_ok hagain).1, (artifact_eq_ok ha).1] at htext
  exact absurd htext (by decide)

end VeloxRag.Ingestion
