import VeloxRag.Ingestion.ParserSpec

/-!
# Chunk sizes and input limits

The chunker bounds its chunks by characters, a setting of the worker; the embedding gateway bounds
its inputs by the `max_input_tokens` of a model profile.  The worker runs the gateway without a
token counter, and then the UTF-8 bytes of an input are counted, of which a character takes one to
four.

## Main definitions

* `inputIsValid`, `validateInputs` — the test of the gateway.
* `chunk_sizes` — which sizes are compatible with which limit.
-/

namespace VeloxRag.Embeddings

/-! ## The test of the gateway -/

/-- The limits a model profile may have, which the snapshot of a generation checks again. -/
def acceptedMaxInputTokens (maxInputTokens : ℤ) : Bool :=
  decide (1 ≤ maxInputTokens ∧ maxInputTokens ≤ 10000000)

/-- A token counter; `none` when it raises or returns something else than an integer. -/
abbrev TokenCounter := Str → Option ℤ

/-- The `input_tokens` of `_input_is_valid`: without a counter the bytes are counted. -/
def inputTokens (tokenCounter : Option TokenCounter) (value : Str) : Option ℤ :=
  match tokenCounter with
  | none => some (encode value).length
  | some count => count value

/-- The size test of `_input_is_valid`. -/
def inputSizeIsValid (maxInputTokens : ℤ) (tokenCounter : Option TokenCounter) (value : Str) : Bool :=
  match inputTokens tokenCounter value with
  | none => false
  | some tokens => decide (0 ≤ tokens ∧ tokens ≤ maxInputTokens)

/-- `_input_is_valid`. -/
def inputIsValid (maxInputTokens : ℤ) (tokenCounter : Option TokenCounter) (value : Str) : Bool :=
  decide (strip value ≠ [] ∧ '\x00' ∉ value) && inputSizeIsValid maxInputTokens tokenCounter value

/-- `_MAX_RESPONSE_ITEMS`. -/
def maxResponseItems : ℕ := 10000

/-- The errors of `_validate_inputs`. -/
inductive InputError
  | embeddingBatchInvalid
  | embeddingInputInvalid
deriving DecidableEq, Repr

def InputError.code : InputError → String
  | .embeddingBatchInvalid => "EMBEDDING_BATCH_INVALID"
  | .embeddingInputInvalid => "EMBEDDING_INPUT_INVALID"

def InputError.message : InputError → String
  | .embeddingBatchInvalid => "Embedding batch is invalid"
  | .embeddingInputInvalid => "Embedding input is invalid"

/-- `_validate_inputs`: neither error is retryable. -/
def validateInputs (inputs : List Str) (maxInputTokens : ℤ) (batchSize : ℕ)
    (tokenCounter : Option TokenCounter) : Except InputError (List Str) :=
  if ¬ (1 ≤ inputs.length ∧ inputs.length ≤ batchSize) ∨ maxResponseItems < inputs.length then
    .error .embeddingBatchInvalid
  else if inputs.all (inputIsValid maxInputTokens tokenCounter) then .ok inputs
  else .error .embeddingInputInvalid

variable {maxInputTokens : ℤ}

/-- Without a counter, an input has the right size when its bytes are not too many. -/
theorem inputSizeIsValid_bytes (value : Str) :
    inputSizeIsValid maxInputTokens none value = true ↔
      ((encode value).length : ℤ) ≤ maxInputTokens := by
  simp [inputSizeIsValid, inputTokens]

end VeloxRag.Embeddings

namespace VeloxRag.Ingestion

open VeloxRag.Lib VeloxRag.Embeddings

variable {U : FilenameText} {P : Platform} {chunker : RecursiveTextChunker}

/-! ## The chunks of a document -/

/-- The normalized text of what a parser accepts. -/
theorem artifact_of_parse {p : Parser} (hp : p ∈ parsers) {source : Bytes} {a : ParsedArtifact P}
    (h : p.parse U P source = .ok a) :
    ∃ t : NormalizedText, a.text = t.text ∧ p.artifact P t.text = .ok a := by
  obtain ⟨hsize, s, rfl, haccepted, hartifact⟩ := (parse_eq_ok hp).mp h
  exact ⟨.ofDecoded s haccepted.no_nul hsize, (artifact_eq_ok hartifact).1, hartifact⟩

/-- **The chunks of a parsed document** tile its text. -/
theorem parse_tilesText {p : Parser} (hp : p ∈ parsers) {source : Bytes} {a : ParsedArtifact P}
    (h : p.parse U P source = .ok a) (chunker : RecursiveTextChunker) :
    ∃ chunks, chunker.chunk a = ⟨chunks, .done⟩ ∧ TilesText a.text chunker.maxChunk chunks := by
  obtain ⟨t, htext, hartifact⟩ := artifact_of_parse hp h
  obtain ⟨bs, ⟨blocks, nodes, hrep⟩, hordered, hinside⟩ := artifact_represented hp t hartifact
  refine hrep.chunk_tilesText hordered hinside ?_ chunker
  have hsize := t.length_le
  rw [htext]
  simp only [maxDocumentBytes] at hsize
  omega

/-- The only chunk of a plain text that is not longer than a chunk. -/
theorem chunk_single {a : ParsedArtifact P} (hname : a.parserName ≠ markdownTextV1)
    (hlength : a.text.length ≤ chunker.maxChunk) {chunks : List (Chunk P)}
    (h : chunker.chunk a = ⟨chunks, .done⟩) : ∃ chunk, chunks = [chunk] := by
  have htext := a.valid_fields.1
  rw [RecursiveTextChunker.chunk, RecursiveTextChunker.chunkText, if_neg htext] at h
  cases hindex : indexBoundaries (.compact a.boundaries) with
  | error e => rw [hindex] at h; cases h
  | ok index =>
      rw [hindex] at h
      dsimp only at h
      rw [RecursiveTextChunker.chunkLoop, if_pos (List.length_pos_of_ne_nil htext)] at h
      dsimp only at h
      have hend : min (0 + chunker.maxChunk) a.text.length = a.text.length := by omega
      have hchosen : ∀ minimumEnd, chooseEnd P.unicode a.text a.parserName index 0 0 minimumEnd
          a.text.length true = (a.text.length, false) := by
        intro minimumEnd
        simp only [chooseEnd, if_neg hname, if_true]
      have hpos : ¬ a.text.length ≤ 0 := by
        have := List.length_pos_of_ne_nil htext
        omega
      rw [hend, decide_eq_true rfl, hchosen] at h
      dsimp only at h
      rw [if_neg hpos, if_neg (fun hblank => lt_irrefl _ hblank.2)] at h
      split at h
      · cases h
      · split at h
        · cases h
        · rename_i chunk _
          rw [if_pos rfl] at h
          injection h with hitems
          exact ⟨chunk, hitems.symm⟩

/-- A chunk has at most four bytes for each of its characters, and no more than its document. -/
theorem length_encode_chunk_le {p : Parser} (hp : p ∈ parsers) {source : Bytes}
    {a : ParsedArtifact P} (h : p.parse U P source = .ok a) {chunk : Chunk P}
    (hchunk : chunk ∈ (chunker.chunk a).items) :
    (encode chunk.text).length ≤ 4 * chunker.maxChunk ∧
      (encode chunk.text).length ≤ a.normalizedBytes.length := by
  obtain ⟨chunks, hchunks, htiles⟩ := parse_tilesText hp h chunker
  rw [hchunks] at hchunk
  obtain ⟨hsource, _, hlength⟩ := htiles.source chunk hchunk
  have hbytes := length_encode_le chunk.text
  refine ⟨by omega, ?_⟩
  rw [hsource]
  exact encode_sublist ((List.take_sublist _ _).trans (List.drop_sublist _ _))

/-- Normalization makes no document longer. -/
theorem length_normalizedBytes_le {p : Parser} (hp : p ∈ parsers) {source : Bytes}
    {a : ParsedArtifact P} (h : p.parse U P source = .ok a) :
    a.normalizedBytes.length ≤ source.length := by
  obtain ⟨_, s, rfl, _, hartifact⟩ := (parse_eq_ok hp).mp h
  rw [ParsedArtifact.normalizedBytes, (artifact_eq_ok hartifact).1, normalizedText_eq,
    length_encode_replaceCr]
  refine le_trans (encode_sublist (replaceCrLf_sublist _)) (encode_sublist ?_)
  rw [dropBom]
  split
  · exact List.tail_sublist s
  · exact List.Sublist.refl s

/-! ## A document that takes the space of a chunk -/

/-- A character of one, two or three bytes, if there are bytes left. -/
def lastCharacter : ℕ → Str
  | 1 => ['a']
  | 2 => ['é']
  | 3 => ['€']
  | _ => []

/-- A text of so many bytes, in as few characters as there can be. -/
def denseText (bytes : ℕ) : Str :=
  List.replicate (bytes / 4) '😀' ++ lastCharacter (bytes % 4)

theorem lastCharacter_spec {r : ℕ} (hr : r < 4) : (encode (lastCharacter r)).length = r ∧
    (lastCharacter r).length ≤ 1 ∧ (r = 0 → lastCharacter r = []) ∧
    ((lastCharacter r).all fun c => isVisible c && c != '\r') = true := by
  interval_cases r <;> decide

theorem length_encode_emojis (n : ℕ) : (encode (List.replicate n '😀')).length = 4 * n := by
  induction n with
  | zero => rfl
  | succ n ih =>
      have hemoji : (String.utf8EncodeChar '😀').length = 4 := by decide
      rw [List.replicate_succ, encode_cons, List.length_append, ih, hemoji]
      omega

theorem length_encode_denseText (bytes : ℕ) : (encode (denseText bytes)).length = bytes := by
  have hlast := (lastCharacter_spec (Nat.mod_lt bytes (show 0 < 4 by decide))).1
  rw [denseText, length_encode_append, length_encode_emojis, hlast]
  omega

theorem length_denseText_le {bytes n : ℕ} (h : bytes ≤ 4 * n) : (denseText bytes).length ≤ n := by
  obtain ⟨_, hone, hzero, _⟩ := lastCharacter_spec (Nat.mod_lt bytes (show 0 < 4 by decide))
  rw [denseText, List.length_append, List.length_replicate]
  by_cases hr : bytes % 4 = 0
  · rw [hzero hr, List.length_nil]
    omega
  · omega

theorem visible_denseText {bytes : ℕ} {c : Char} (hc : c ∈ denseText bytes) :
    isVisible c = true ∧ c ≠ '\r' := by
  obtain ⟨_, _, _, hall⟩ := lastCharacter_spec (Nat.mod_lt bytes (show 0 < 4 by decide))
  rcases List.mem_append.mp hc with hc | hc
  · rw [List.eq_of_mem_replicate hc]
    decide
  · have := List.all_eq_true.mp hall c hc
    rwa [Bool.and_eq_true, bne_iff_ne] at this

theorem normalizedText_denseText (bytes : ℕ) : normalizedText (denseText bytes) = denseText bytes := by
  apply normalizedText_of_no_cr
  · intro hmem
    exact (visible_denseText hmem).2 rfl
  · intro hhead
    exact absurd (visible_denseText (List.mem_of_mem_head? hhead)).1 (by decide)

/-- **A document no longer than a chunk** is accepted and parsed, as the parse stage and the chunk
stage do, and becomes one chunk with all its bytes. -/
theorem denseText_chunked (U : FilenameText) (P : Platform) {settings : UploadSettings}
    {chunker : RecursiveTextChunker} {bytes : ℕ} (hpos : bytes ≠ 0)
    (hupload : bytes ≤ settings.maxUploadBytes) (hchunk : bytes ≤ 4 * chunker.maxChunk) :
    ∃ (source : Bytes) (summary : TextValidationSummary) (parsed stored : ParsedArtifact P)
      (chunk : Chunk P),
      validateStream U settings plainTextParser.filename plainTextParser.contentType [source] =
        .ok summary ∧
      plainTextParser.parse U P source = .ok parsed ∧
      plainTextParser.parse U P parsed.normalizedBytes = .ok stored ∧
      chunker.chunk stored = ⟨[chunk], .done⟩ ∧ (encode chunk.text).length = bytes := by
  have hmem : plainTextParser ∈ parsers := by simp [parsers]
  have hmax := chunker.max_le
  have hbytes := length_encode_denseText bytes
  have hne : denseText bytes ≠ [] := by
    intro hnil
    rw [hnil] at hbytes
    exact hpos hbytes.symm
  have haccepted := textAccepted_of_visible (fun c hc => (@visible_denseText bytes c hc).1) hne
  have hsize : (encode (denseText bytes)).length ≤ maxDocumentBytes := by
    rw [hbytes]
    simp only [maxChunkCodepoints] at hmax
    simp only [maxDocumentBytes]
    omega
  obtain ⟨summary, hsummary⟩ := validateStream_encode (validateDocumentMetadata_plain U) haccepted
    (hbytes.trans_le hupload)
  obtain ⟨a, ha⟩ := plainText_artifact P (.ofDecoded (denseText bytes) haccepted.no_nul hsize)
    ((normalizedText_denseText bytes).trans_ne hne)
  have hartifact : plainTextParser.artifact P (normalizedText (denseText bytes)) = .ok a := ha
  have hparse : plainTextParser.parse U P (encode (denseText bytes)) = .ok a :=
    (parse_eq_ok hmem).mpr ⟨hsize, denseText bytes, rfl, haccepted, hartifact⟩
  have htext : a.text = denseText bytes :=
    (artifact_eq_ok hartifact).1.trans (normalizedText_denseText bytes)
  obtain ⟨chunks, hchunks, htiles⟩ := parse_tilesText hmem hparse chunker
  obtain ⟨chunk, rfl⟩ := chunk_single (by rw [artifact_parserName hartifact]; decide)
    (by rw [htext]; exact length_denseText_le hchunk) hchunks
  refine ⟨encode (denseText bytes), summary, a, a, chunk, hsummary, hparse, ?_, hchunks, ?_⟩
  · rw [ParsedArtifact.normalizedBytes, htext]
    exact hparse
  · have hsource := (htiles.source chunk List.mem_cons_self).1
    rw [htiles.first chunk rfl, htiles.last chunk rfl, htext] at hsource
    rw [hsource, slice, List.drop_zero, Nat.sub_zero, List.take_length]
    exact hbytes

/-! ## Compatible sizes -/

/-- **Chunks fit the limit of the profile**, whatever document the upload accepts, exactly when four
times the characters of a chunk do, or the bytes of an upload. -/
theorem chunk_sizes (U : FilenameText) (P : Platform) (settings : UploadSettings)
    (chunker : RecursiveTextChunker) (maxInputTokens : ℤ) :
    (∀ (filename contentType : Str) (pieces : List Bytes) (summary : TextValidationSummary),
      validateStream U settings filename contentType pieces = .ok summary →
      ∀ (m : DocumentMetadata) (p : Parser),
        validateDocumentMetadata U filename contentType = .ok m →
        parserForExtension U m.extension = some p →
        ∀ parsed stored : ParsedArtifact P, p.parse U P pieces.flatten = .ok parsed →
          p.parse U P parsed.normalizedBytes = .ok stored →
          ∀ chunk ∈ (chunker.chunk stored).items,
            inputSizeIsValid maxInputTokens none chunk.text = true) ↔
      4 * (chunker.maxChunk : ℤ) ≤ maxInputTokens ∨
        (settings.maxUploadBytes : ℤ) ≤ maxInputTokens := by
  constructor
  · intro hfits
    have hchunker := chunker.max_pos
    have hbuffer := settings.buffer_pos
    have hlimit := settings.buffer_le
    obtain ⟨source, summary, parsed, stored, chunk, hsummary, hparsed, hstored, hchunks, hbytes⟩ :=
      @denseText_chunked U P settings chunker (min (4 * chunker.maxChunk) settings.maxUploadBytes)
        (by omega) (min_le_right _ _) (min_le_left _ _)
    have hvalid := hfits _ _ _ summary hsummary plainTextMetadata plainTextParser
      (validateDocumentMetadata_plain U) (parserForExtension_plain U) parsed stored
      (by rwa [List.flatten_singleton]) hstored chunk (by rw [hchunks]; exact List.mem_cons_self)
    rw [inputSizeIsValid_bytes, hbytes] at hvalid
    omega
  · intro hlimit _ _ _ _ haccepted _ p _ hparser parsed stored hparsed hstored chunk hchunk
    have hp := parserForExtension_mem hparser
    have hupload := (validateStream_eq_ok haccepted).1
    have hnormal := length_normalizedBytes_le hp hparsed
    have hagain := length_normalizedBytes_le hp hstored
    obtain ⟨hcharacters, hdocument⟩ := length_encode_chunk_le hp hstored hchunk
    rw [inputSizeIsValid_bytes]
    omega

/-- The chunk sizes that are configured by default. -/
def defaultChunker : RecursiveTextChunker where
  maxChunk := 600
  targetOverlap := 100
  max_pos := by decide
  max_le := by decide
  overlap_lt := by decide
  overlap_le := by decide

/-- The default chunks and a profile that takes 512 tokens: a document of 600 bytes is accepted,
parsed and chunked, and its chunk is refused. -/
theorem default_chunk_too_large : ¬ ∀ (U : FilenameText) (P : Platform) (settings : UploadSettings)
    (chunker : RecursiveTextChunker) (maxInputTokens : ℤ),
    acceptedMaxInputTokens maxInputTokens = true →
    ∀ (filename contentType : Str) (pieces : List Bytes) (summary : TextValidationSummary),
      validateStream U settings filename contentType pieces = .ok summary →
      ∀ (m : DocumentMetadata) (p : Parser),
        validateDocumentMetadata U filename contentType = .ok m →
        parserForExtension U m.extension = some p →
        ∀ parsed stored : ParsedArtifact P, p.parse U P pieces.flatten = .ok parsed →
          p.parse U P parsed.normalizedBytes = .ok stored →
          ∀ chunk ∈ (chunker.chunk stored).items,
            inputSizeIsValid maxInputTokens none chunk.text = true := by
  intro hclaim
  obtain ⟨source, summary, parsed, stored, chunk, hsummary, hparsed, hstored, hchunks, hbytes⟩ :=
    @denseText_chunked .ascii .ascii largeUploads defaultChunker 600 (by decide) (by decide)
      (by decide)
  have hvalid := hclaim .ascii .ascii largeUploads defaultChunker 512 (by decide) _ _ _ summary
    hsummary plainTextMetadata plainTextParser (validateDocumentMetadata_plain .ascii)
    (parserForExtension_plain .ascii) parsed stored (by rwa [List.flatten_singleton]) hstored chunk
    (by rw [hchunks]; exact List.mem_cons_self)
  rw [inputSizeIsValid_bytes, hbytes] at hvalid
  exact absurd hvalid (by decide)

end VeloxRag.Ingestion
