import VeloxRag.Ingestion.Chunker
import VeloxRag.Lib.JsonLines

/-!
# The chunk manifest

The chunk stage streams its chunks into a manifest, one line of canonical JSON for the
header and one for each chunk, and checks every chunk against a second run of the chunker
on the way.  The embed stage streams the manifest back: it reassembles lines across the
blocks of the object store, insists that every line is canonical, compares the header with
what it expects, builds the chunks again and groups those that are not embedded yet.

Every exception on the way out is `ValueError("chunk manifest is invalid")`, except for
what the chunker itself raises that is not a `ValueError`.

## Main definitions

* `Chunker`, `Timestamp` — what the writer is given.
* `iterChunkManifestLines` — the writer.
* `ManifestExpectation` — what the reader is given.
* `iterVerifiedManifestBatches` — the reader.
-/

namespace VeloxRag.Ingestion

open VeloxRag.Lib

/-- What the writer and the reader raise. -/
inductive ManifestError
  /-- `ValueError("chunk manifest is invalid")`. -/
  | invalid
  /-- An exception of the chunker that is not a `ValueError`. -/
  | chunker (error : ChunkError)
deriving DecidableEq, Repr

def ManifestError.message : ManifestError → String
  | .invalid => "chunk manifest is invalid"
  | .chunker error => error.message

/-- The exceptions that are a `TypeError`, a `ValueError` or a `UnicodeError`. -/
def ChunkError.isValueError : ChunkError → Bool
  | .boundaries .boundaryIndexOutOfRange | .boundaries (.scannerAssertion _)
  | .boundaries .columnCorrupt | .boundaries .titleCycle | .boundaries .columnOverflow
  | .boundaries .loopNotEnded => false
  | _ => true

/-- What the writer makes of an exception of the chunker. -/
def manifestErrorOf (error : ChunkError) : ManifestError :=
  if error.isValueError then .invalid else .chunker error

variable (P : Platform)

/-- The `Chunker` protocol. -/
structure Chunker where
  name : Str
  version : Str
  config : Mapping P
  chunk : ParsedArtifact P → Generated (Chunk P) ChunkError

/-- The recursive chunker is one. -/
def RecursiveTextChunker.toChunker (chunker : RecursiveTextChunker) : Chunker P where
  name := RecursiveTextChunker.name
  version := RecursiveTextChunker.version
  config := chunker.config P
  chunk := chunker.chunk

variable {P}

/-! ## Time stamps -/

/-- A time with a zone, by its fields in UTC. -/
structure Timestamp where
  year : ℕ
  month : ℕ
  day : ℕ
  hour : ℕ
  minute : ℕ
  second : ℕ
  microsecond : ℕ
deriving DecidableEq, Repr

/-- A number with zeros in front. -/
def padded (width n : ℕ) : Str :=
  let digits := Nat.toDigits 10 n
  List.replicate (width - digits.length) '0' ++ digits

/-- `_stable_utc_timestamp`: the ISO format, with `Z` for the offset. -/
def stableUtcTimestamp (t : Timestamp) : Str :=
  padded 4 t.year ++ '-' :: padded 2 t.month ++ '-' :: padded 2 t.day
    ++ 'T' :: padded 2 t.hour ++ ':' :: padded 2 t.minute ++ ':' :: padded 2 t.second
    ++ (if t.microsecond = 0 then [] else '.' :: padded 6 t.microsecond) ++ ['Z']

/-! ## Writing -/

/-- The line break that ends a line. -/
def newline : UInt8 := 10

/-- A canonical line, `none` for the `ValueError`. -/
def canonicalLine (value : Json P.Float) : Option Bytes :=
  (canonicalJsonBytes P value).map (· ++ [newline])

/-- The header as it is written. -/
def headerJson (sourceChecksum parsedChecksum parserName parserVersion : Str)
    (parserConfig : Mapping P) (chunkerName chunkerVersion : Str) (chunkerConfig : Mapping P)
    (createdAt : Timestamp) (chunkCount : ℕ) : Json P.Float :=
  .obj [
    ("schema_version".toList, .str chunkSchemaVersion),
    ("source_checksum_sha256".toList, .str sourceChecksum),
    ("parsed_checksum_sha256".toList, .str parsedChecksum),
    ("parser".toList, .obj [
      ("name".toList, .str parserName),
      ("version".toList, .str parserVersion),
      ("config".toList, parserConfig.json)]),
    ("chunker".toList, .obj [
      ("name".toList, .str chunkerName),
      ("version".toList, .str chunkerVersion),
      ("config".toList, chunkerConfig.json)]),
    ("document_version_created_at".toList, .str (stableUtcTimestamp createdAt)),
    ("chunk_count".toList, .int chunkCount)]

theorem canonicalLine_headerJson (sourceChecksum parsedChecksum parserName parserVersion : Str)
    (parserConfig : Mapping P) (chunkerName chunkerVersion : Str) (chunkerConfig : Mapping P)
    (createdAt : Timestamp) (chunkCount : ℕ) :
    canonicalLine (headerJson sourceChecksum parsedChecksum parserName parserVersion
        parserConfig.sorted chunkerName chunkerVersion chunkerConfig.sorted createdAt chunkCount) =
      canonicalLine (headerJson sourceChecksum parsedChecksum parserName parserVersion
        parserConfig chunkerName chunkerVersion chunkerConfig createdAt chunkCount) := by
  rw [canonicalLine, canonicalLine, canonicalJsonBytes, canonicalJsonBytes]
  simp only [headerJson, Json.sorted, Json.sortedMembers, Mapping.json_sorted, Json.sorted_sorted]

/-- `_parsed_text_checksum_sha256`: the digest of the text, fed window by window. -/
def parsedTextChecksum (text : Str) : Str := P.sha256 (encode text)

/-- `chunk_manifest_header_bytes`. -/
def chunkManifestHeaderBytes (sourceChecksum : Str) (parsed : ParsedArtifact P) (chunker : Chunker P)
    (createdAt : Timestamp) (chunkCount : ℕ) : Option Bytes :=
  if isSha256 sourceChecksum = false ∨ (parsed.text ≠ [] ∧ chunkCount = 0) then none
  else
    canonicalLine (headerJson sourceChecksum (parsedTextChecksum (P := P) parsed.text)
      parsed.parserName parsed.parserVersion parsed.parserConfig.sorted chunker.name chunker.version
      chunker.config.sorted createdAt chunkCount)

/-- `chunk_manifest_record_bytes`. -/
def chunkManifestRecordBytes (chunk : Chunk P) : Option Bytes := canonicalLine chunk.asRecord

/-- Where the writer stands: how many chunks it has written, and the span of the last. -/
structure WriteState where
  emitted : ℕ
  previousStart : ℤ
  previousEnd : ℕ

/-- The check of one chunk against the one the chunker is expected to yield. -/
def chunkFits (parsed : ParsedArtifact P) (chunkCount : ℕ) (state : WriteState)
    (chunk expected : Chunk P) : Bool :=
  decide (state.emitted < chunkCount) && decide (chunk.chunkIndex = state.emitted)
    && chunk.pyEq expected && decide (chunk.endOffset ≤ parsed.text.length)
    && decide (chunk.text = slice parsed.text chunk.startOffset chunk.endOffset)
    && (decide (state.emitted ≠ 0) || decide (chunk.startOffset = 0))
    && (decide (state.emitted = 0) || (decide (state.previousStart < chunk.startOffset)
      && decide (chunk.startOffset ≤ state.previousEnd)
      && decide (state.previousEnd < chunk.endOffset)))

/-- The end of a generator, seen by the writer. -/
def writerOutcome : Outcome ChunkError → Outcome ManifestError
  | .done => .done
  | .raised error => .raised (manifestErrorOf error)
  | .running => .running

/-- The loop of `_iter_chunk_manifest_lines` over the chunks it was given and those it expects. -/
def recordLoop (parsed : ParsedArtifact P) (chunkCount : ℕ)
    (actualOutcome expectedOutcome : Outcome ChunkError) :
    List (Chunk P) → List (Chunk P) → WriteState → Generated Bytes ManifestError
  | [], expected, state =>
      match writerOutcome actualOutcome, expected, writerOutcome expectedOutcome with
      | .done, [], .done =>
          if state.emitted ≠ chunkCount ∨
              (0 < state.emitted ∧ state.previousEnd ≠ parsed.text.length) then
            ⟨[], .raised .invalid⟩
          else ⟨[], .done⟩
      | .done, [], outcome => ⟨[], outcome⟩
      | .done, _ :: _, _ => ⟨[], .raised .invalid⟩
      | outcome, _, _ => ⟨[], outcome⟩
  | _ :: _, [], _ =>
      match writerOutcome expectedOutcome with
      | .done => ⟨[], .raised .invalid⟩
      | outcome => ⟨[], outcome⟩
  | chunk :: actual, e :: expected, state =>
      if chunkFits parsed chunkCount state chunk e then
        match chunkManifestRecordBytes chunk with
        | none => ⟨[], .raised .invalid⟩
        | some line =>
            (recordLoop parsed chunkCount actualOutcome expectedOutcome actual expected
              ⟨state.emitted + 1, chunk.startOffset, chunk.endOffset⟩).cons line
      else ⟨[], .raised .invalid⟩

/-- `iter_chunk_manifest_lines`. -/
def iterChunkManifestLines (sourceChecksum : Str) (parsed : ParsedArtifact P) (chunker : Chunker P)
    (createdAt : Timestamp) (chunkCount : ℕ) (chunks : Generated (Chunk P) ChunkError) :
    Generated Bytes ManifestError :=
  match chunkManifestHeaderBytes sourceChecksum parsed chunker createdAt chunkCount with
  | none => ⟨[], .raised .invalid⟩
  | some line =>
      let expected := chunker.chunk parsed
      (recordLoop parsed chunkCount chunks.outcome expected.outcome chunks.items expected.items
        ⟨0, -1, 0⟩).cons line

/-! ## What the reader expects -/

structure ManifestExpectation (P : Platform) where
  sourceChecksum : Str
  parsedChecksum : Str
  parserName : Str
  parserVersion : Str
  parserConfig : Mapping P
  chunkerName : Str
  chunkerVersion : Str
  chunkerConfig : Mapping P
  chunkConfigHash : Str
  createdAt : Timestamp
  chunkCount : ℕ

/-- A dictionary through canonical JSON and back. -/
def canonicalCopy (config : Mapping P) : Option (Mapping P) :=
  match canonicalJsonBytes P config.json with
  | none => none
  | some data =>
      match h : loadsBytes P data with
      | some (.obj members) => some ⟨members, by
          obtain ⟨text, _, htext⟩ := Option.bind_eq_some_iff.mp h
          exact Json.uniqueKeys_of_loads htext⟩
      | _ => none

/-- `ManifestExpectation(...)`, with its checks. -/
def ManifestExpectation.make (sourceChecksum parsedChecksum parserName parserVersion : Str)
    (parserConfig : Mapping P) (chunkerName chunkerVersion : Str) (chunkerConfig : Mapping P)
    (chunkConfigHash : Str) (createdAt : Timestamp) (chunkCount : ℕ) :
    Option (ManifestExpectation P) :=
  if isSha256 sourceChecksum = false ∨ isSha256 parsedChecksum = false ∨
      isSha256 chunkConfigHash = false ∨ parserName = [] ∨ parserVersion = [] ∨ chunkerName = [] ∨
      chunkerVersion = [] ∨ chunkCount < 1 then none
  else do
    let parserConfig ← canonicalCopy parserConfig
    let chunkerConfig ← canonicalCopy chunkerConfig
    pure ⟨sourceChecksum, parsedChecksum, parserName, parserVersion, parserConfig, chunkerName,
      chunkerVersion, chunkerConfig, chunkConfigHash, createdAt, chunkCount⟩

/-! ## Reading -/

def maxManifestLineBytes : ℕ := 1024 * 1024

/-- The inner loop of `_manifest_lines`: the lines that are complete, and what is left; `none` for
a line that is empty or too long. -/
def drainLines : ℕ → Bytes → List Bytes × Option Bytes
  | 0, buffered => ([], some buffered)
  | fuel + 1, buffered =>
      match buffered.findIdx? (· = newline) with
      | none => ([], some buffered)
      | some position =>
          if maxManifestLineBytes < position + 1 then ([], none)
          else
            let line := buffered.take (position + 1)
            if line = [newline] then ([], none)
            else
              let (lines, rest) := drainLines fuel (buffered.drop (position + 1))
              (line :: lines, rest)

/-- `_manifest_lines`: the lines of a stream of blocks. -/
def manifestLines : List Bytes → Bytes → Generated Bytes ManifestError
  | [], buffered => if buffered ≠ [] then ⟨[], .raised .invalid⟩ else ⟨[], .done⟩
  | block :: blocks, buffered =>
      let buffered := buffered ++ block
      if maxManifestLineBytes < buffered.length ∧ newline ∉ buffered then ⟨[], .raised .invalid⟩
      else
        match drainLines buffered.length buffered with
        | (lines, none) => ⟨lines, .raised .invalid⟩
        | (lines, some rest) =>
            let more := manifestLines blocks rest
            ⟨lines ++ more.items, more.outcome⟩

/-- `_manifest_document`: the dictionary of a line that is canonical. -/
def manifestDocument (line : Bytes) : Option (Mapping P) :=
  match h : loadsBytes P line with
  | some (.obj members) =>
      if canonicalLine (P := P) (.obj members) = some line then
        some ⟨members, by
          obtain ⟨text, _, htext⟩ := Option.bind_eq_some_iff.mp h
          exact Json.uniqueKeys_of_loads htext⟩
      else none
  | _ => none

/-- The digest of a chunker's configuration. -/
def chunkerConfigHash (name version : Str) (config : Mapping P) : Option Str :=
  canonicalSha256 P (.obj [("config".toList, config.json), ("name".toList, .str name),
    ("version".toList, .str version)])

/-- The header the reader wants. -/
def ManifestExpectation.wanted (expected : ManifestExpectation P) : Json P.Float :=
  headerJson expected.sourceChecksum expected.parsedChecksum expected.parserName
    expected.parserVersion expected.parserConfig.sorted expected.chunkerName expected.chunkerVersion
    expected.chunkerConfig.sorted expected.createdAt expected.chunkCount

/-- `_validate_manifest_header`. -/
def validateManifestHeader (document : Mapping P) (expected : ManifestExpectation P) : Bool :=
  Json.pyEq P.floats document.json expected.wanted &&
    decide (chunkerConfigHash expected.chunkerName expected.chunkerVersion
      expected.chunkerConfig.sorted = some expected.chunkConfigHash)

/-- The keys of a chunk record. -/
def recordKeys : List Str :=
  ["chunk_index".toList, "text".toList, "chunk_hash".toList, "start_offset".toList,
    "end_offset".toList, "title_path".toList, "metadata".toList]

/-- A JSON integer that is not negative. -/
def asNat : Json P.Float → Option ℕ
  | .int n => if 0 ≤ n then some n.toNat else none
  | _ => none

def asStr : Json P.Float → Option Str
  | .str s => some s
  | _ => none

def asItems : Json P.Float → Option (List (Json P.Float))
  | .arr items => some items
  | _ => none

theorem uniqueKeys_of_lookup {members : JsonMembers P.Float} (hu : (Json.obj members).UniqueKeys)
    {key : Str} {value : Json P.Float} (h : members.lookup key = some value) : value.UniqueKeys := by
  rw [Json.uniqueKeys_obj] at hu
  obtain ⟨front, back, heq, _⟩ := List.lookup_eq_some_iff.mp h
  exact hu.2 (key, value) (by rw [heq]; simp)

/-- `document[key]`, if it is a dictionary. -/
def dictAt (document : Mapping P) (key : Str) : Option (Mapping P) :=
  match h : document.members.lookup key with
  | some (.obj members) => some ⟨members, uniqueKeys_of_lookup document.unique h⟩
  | _ => none

/-- `_manifest_chunk`: the chunk of a record, `none` for any record that is not one. -/
def manifestChunk (document : Mapping P) (chunkIndex : ℕ) : Option (Chunk P) :=
  let keys := document.members.map (·.1)
  let field (key : String) := document.members.lookup key.toList
  if (∀ key ∈ recordKeys, key ∈ keys) ∧ (∀ key ∈ keys, key ∈ recordKeys) then do
    let index ← (field "chunk_index").bind asNat
    let text ← (field "text").bind asStr
    let chunkHash ← (field "chunk_hash").bind asStr
    let startOffset ← (field "start_offset").bind asNat
    let endOffset ← (field "end_offset").bind asNat
    let titles ← (field "title_path").bind asItems
    let titlePath ← titles.mapM asStr
    let metadata ← dictAt document "metadata".toList
    let chunk ← (Chunk.make index text chunkHash startOffset endOffset titlePath metadata).toOption
    if chunk.chunkIndex = chunkIndex then some chunk else none
  else none

variable (expected : ManifestExpectation P) (nextChunkIndex batchSize : ℕ)

/-- The end of a turn of the batch loop: one line more, and no more lines than expected. -/
def nextLine (lineNumber : ℕ) (rest : Generated (List (Chunk P)) ManifestError) :
    Generated (List (Chunk P)) ManifestError :=
  if expected.chunkCount + 1 < lineNumber + 1 then ⟨[], .raised .invalid⟩ else rest

/-- The loop of `iter_verified_manifest_batches` over the lines of the manifest. -/
def batchLoop (outcome : Outcome ManifestError) :
    List Bytes → ℕ → List (Chunk P) → Generated (List (Chunk P)) ManifestError
  | [], lineNumber, batch =>
      match outcome with
      | .done =>
          if lineNumber ≠ expected.chunkCount + 1 then ⟨[], .raised .invalid⟩
          else if batch ≠ [] then ⟨[batch], .done⟩
          else ⟨[], .done⟩
      | outcome => ⟨[], outcome⟩
  | line :: lines, lineNumber, batch =>
      match manifestDocument (P := P) line with
      | none => ⟨[], .raised .invalid⟩
      | some document =>
          if lineNumber = 0 then
            if validateManifestHeader document expected then
              nextLine expected lineNumber (batchLoop outcome lines (lineNumber + 1) batch)
            else ⟨[], .raised .invalid⟩
          else
            match manifestChunk document (lineNumber - 1) with
            | none => ⟨[], .raised .invalid⟩
            | some chunk =>
                if nextChunkIndex ≤ chunk.chunkIndex then
                  if (batch ++ [chunk]).length = batchSize then
                    (nextLine expected lineNumber
                      (batchLoop outcome lines (lineNumber + 1) [])).cons (batch ++ [chunk])
                  else nextLine expected lineNumber
                    (batchLoop outcome lines (lineNumber + 1) (batch ++ [chunk]))
                else nextLine expected lineNumber (batchLoop outcome lines (lineNumber + 1) batch)

def maxBatchSize : ℕ := 10000

/-- `iter_verified_manifest_batches`. -/
def iterVerifiedManifestBatches (stream : List Bytes) :
    Generated (List (Chunk P)) ManifestError :=
  if nextChunkIndex ≤ expected.chunkCount ∧ 1 ≤ batchSize ∧ batchSize ≤ maxBatchSize then
    let lines := manifestLines stream []
    batchLoop expected nextChunkIndex batchSize lines.outcome lines.items 0 []
  else ⟨[], .raised .invalid⟩

end VeloxRag.Ingestion
