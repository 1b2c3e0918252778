import VeloxRag.Ingestion.Manifest
import VeloxRag.Ingestion.ChunkerSpec
import VeloxRag.Lib.Records

/-!
# Reading back a manifest

What the writer has written the reader accepts, however the bytes are cut into blocks: the
lines come back one by one, each decodes to the dictionary it was written from, the header
is the one expected, and every record gives its chunk again.  The reader then yields the
chunks that are not embedded yet, in batches of the given size.

The reader refuses batches of more than ten thousand chunks and lines of more than one
mebibyte, which the writer does not, so the round trip is for batches and lines within
these bounds.

## Main definitions

* `Batched` — a list cut into full batches and a last one.
* `MatchesManifest` — the expectation that belongs to a manifest.
* `manifest_roundTrip` — the round trip.
-/

namespace VeloxRag.Ingestion

open VeloxRag.Lib

variable {P : Platform}

/-! ## Lines -/

theorem high_byte_ne {n : ℕ} (hlow : 0x80 ≤ n) (hhigh : n < 256) : newline ≠ UInt8.ofNat n := by
  intro heq
  have := congrArg UInt8.toNat heq
  rw [UInt8.toNat_ofNat_of_lt' hhigh] at this
  simp only [newline, UInt8.toNat_ofNat] at this
  omega

/-- In UTF-8 the byte of a line break stands for a line break only. -/
theorem mem_utf8_newline {c : Char} (h : newline ∈ String.utf8EncodeChar c) : c = '\n' := by
  unfold String.utf8EncodeChar at h
  dsimp only at h
  split at h
  · rename_i hv
    rw [List.mem_singleton] at h
    have h10 := congrArg UInt8.toNat h
    rw [UInt8.toNat_ofNat_of_lt' (show c.val.toNat < 2 ^ 8 by omega)] at h10
    apply Char.ext
    apply UInt32.toNat_inj.mp
    rw [← h10]
    rfl
  · split at h
    · simp only [List.mem_cons, List.not_mem_nil, or_false] at h
      rcases h with h | h
      all_goals exact absurd h (high_byte_ne (by omega) (by omega))
    · split at h
      · simp only [List.mem_cons, List.not_mem_nil, or_false] at h
        rcases h with h | h | h
        all_goals exact absurd h (high_byte_ne (by omega) (by omega))
      · simp only [List.mem_cons, List.not_mem_nil, or_false] at h
        rcases h with h | h | h | h
        all_goals exact absurd h (high_byte_ne (by omega) (by omega))

theorem newline_not_mem_encode {s : Str} (h : '\n' ∉ s) : newline ∉ encode s := by
  intro hmem
  obtain ⟨c, hc, hbyte⟩ := List.mem_flatMap.mp hmem
  exact h (mem_utf8_newline hbyte ▸ hc)

/-- **A canonical line** is a record: it ends with its only line break, and is not blank. -/
theorem canonicalLine_record {value : Json P.Float} {line : Bytes}
    (h : canonicalLine value = some line) : IsRecord newline line ∧ line ≠ [newline] := by
  obtain ⟨data, hdata, rfl⟩ := Option.map_eq_some_iff.mp h
  obtain ⟨text, htext, rfl⟩ := Option.map_eq_some_iff.mp hdata
  constructor
  · refine ⟨encode text, rfl, newline_not_mem_encode ?_⟩
    intro hmem
    have := Json.dumps_printable P.floatLaws _ _ htext _ hmem
    revert this
    decide
  · obtain ⟨c, tail, rfl, _⟩ := Json.dumps_head P.floatLaws htext
    rw [encode_cons]
    intro heq
    have hlen := congrArg List.length heq
    rw [List.length_append, List.length_append, String.length_utf8EncodeChar] at hlen
    have := c.utf8Size_pos
    simp only [List.length_singleton] at hlen
    omega

/-- A dictionary reads back from its line, with its keys sorted. -/
theorem manifestDocument_canonicalLine (document : Mapping P) {line : Bytes}
    (h : canonicalLine document.json = some line) :
    manifestDocument line = some document.sorted := by
  obtain ⟨data, hdata, rfl⟩ := Option.map_eq_some_iff.mp h
  obtain ⟨text, htext, rfl⟩ := Option.map_eq_some_iff.mp hdata
  have hload : loadsBytes P (encode text ++ [newline]) = some document.sorted.json := by
    have henc : encode text ++ [newline] = encode (text ++ ['\n']) := by
      rw [encode_append]
      rfl
    rw [loadsBytes, henc, decode?_encode, Mapping.json_sorted]
    exact Json.loads_line P.floatLaws htext (Json.uniqueKeys_sorted _ document.unique)
  have hline : canonicalLine document.sorted.json = some (encode text ++ [newline]) := by
    rw [canonicalLine, Mapping.json_sorted, canonicalJsonBytes_sorted]
    exact h
  unfold manifestDocument
  split
  · rename_i members hobj
    have heq : Json.obj members = document.sorted.json := Option.some.inj (hobj.symm.trans hload)
    rw [if_pos (by rw [heq]; exact hline)]
    congr 1
    exact Mapping.ext_json heq
  · rename_i hother
    exact absurd hload (hother _)

/-! ## Reassembly -/

/-- The lines the reader accepts. -/
structure Acceptable (line : Bytes) : Prop where
  isRecord : IsRecord newline line
  not_blank : line ≠ [newline]
  length_le : line.length ≤ maxManifestLineBytes

/-- **One block**: the lines that are complete come out, and less than a line is left. -/
theorem drainLines_spec (fuel : ℕ) : ∀ {lines : List Bytes} {buffered rest : Bytes},
    (∀ line ∈ lines, Acceptable line) → buffered.length ≤ fuel → buffered ++ rest = lines.flatten →
    ∃ front back remaining, lines = front ++ back ∧
      drainLines fuel buffered = (front, some remaining) ∧ newline ∉ remaining ∧
      remaining ++ rest = back.flatten := by
  induction fuel with
  | zero =>
      intro lines buffered rest _ hlen hflat
      obtain rfl := List.length_eq_zero_iff.mp (Nat.le_zero.mp hlen)
      exact ⟨[], lines, [], rfl, rfl, by simp, hflat⟩
  | succ fuel ih =>
      intro lines buffered rest hlines hlen hflat
      rw [drainLines]
      cases hfind : buffered.findIdx? (· = newline) with
      | none =>
          rw [List.findIdx?_eq_none_iff] at hfind
          refine ⟨[], lines, buffered, rfl, rfl, ?_, hflat⟩
          intro hmem
          simpa using hfind newline hmem
      | some position =>
          obtain ⟨line, more, rfl, htake, hlength, hdrop⟩ :=
            records_split (fun r hr => (hlines r hr).isRecord) hflat hfind
          have hline := hlines line (by simp)
          have hle := hline.length_le
          obtain ⟨front, back, remaining, rfl, hrest, hno, hflat'⟩ := ih
            (fun r hr => hlines r (by simp [hr]))
            (show (buffered.drop (position + 1)).length ≤ fuel by rw [List.length_drop]; omega) hdrop
          refine ⟨line :: front, back, remaining, rfl, ?_, hno, hflat'⟩
          dsimp only
          rw [if_neg (by omega), htake, if_neg hline.not_blank, hrest]

/-- **Any blocks**: lines that are acceptable come back one by one. -/
theorem manifestLines_blocks (blocks : List Bytes) : ∀ {lines : List Bytes} {buffered : Bytes},
    (∀ line ∈ lines, Acceptable line) → newline ∉ buffered →
    buffered ++ blocks.flatten = lines.flatten →
    manifestLines blocks buffered = ⟨lines, .done⟩ := by
  induction blocks with
  | nil =>
      intro lines buffered hlines hno hflat
      rw [List.flatten_nil, List.append_nil] at hflat
      -- a line that was never received would need its line break
      have hnil : lines = [] := by
        cases lines with
        | nil => rfl
        | cons line more =>
            obtain ⟨body, rfl, _⟩ := (hlines line (by simp)).isRecord
            rw [hflat] at hno
            exact absurd (by simp) hno
      subst hnil
      rw [List.flatten_nil] at hflat
      rw [manifestLines, if_neg (by simp [hflat])]
  | cons block blocks ih =>
      intro lines buffered hlines hno hflat
      rw [List.flatten_cons, ← List.append_assoc] at hflat
      have hshort : ¬ (maxManifestLineBytes < (buffered ++ block).length ∧
          newline ∉ buffered ++ block) := by
        rintro ⟨hlong, hno'⟩
        rcases length_lt_of_no_delimiter (fun r hr => (hlines r hr).isRecord) hflat hno' with
          hnil | ⟨line, hline, hlt⟩
        · rw [hnil] at hlong
          simp at hlong
        · have := (hlines line hline).length_le
          omega
      obtain ⟨front, back, remaining, rfl, hdrain, hno', hflat'⟩ :=
        drainLines_spec _ hlines (le_refl _) hflat
      rw [manifestLines]
      dsimp only
      rw [if_neg hshort, hdrain]
      dsimp only
      rw [ih (fun r hr => hlines r (by simp [hr])) hno' hflat']

/-! ## Records -/

/-- The record of a chunk as a dictionary. -/
def recordMapping (chunk : Chunk P) : Mapping P where
  members := [
    ("chunk_index".toList, .int chunk.chunkIndex),
    ("text".toList, .str chunk.text),
    ("chunk_hash".toList, .str chunk.chunkHash),
    ("start_offset".toList, .int chunk.startOffset),
    ("end_offset".toList, .int chunk.endOffset),
    ("title_path".toList, .arr (chunk.titlePath.map .str)),
    ("metadata".toList, chunk.metadata.json)]
  unique := by
    rw [Json.uniqueKeys_obj]
    refine ⟨by simp, ?_⟩
    intro m hm
    simp only [List.mem_cons, List.not_mem_nil, or_false] at hm
    rcases hm with rfl | rfl | rfl | rfl | rfl | rfl | rfl
    all_goals try trivial
    · rw [Json.uniqueKeys_arr]
      intro x hx
      obtain ⟨title, _, rfl⟩ := List.mem_map.mp hx
      trivial
    · exact chunk.metadata.unique

/-- What a key of a dictionary is mapped to, once its keys are sorted. -/
theorem lookup_sorted (document : Mapping P) {key : Str} {value : Json P.Float}
    (h : (key, value) ∈ document.members) :
    document.sorted.members.lookup key = some value.sorted := by
  have hkeys := document.sorted.unique
  rw [Json.UniqueKeys] at hkeys
  refine Json.lookup_of_mem hkeys.1 (m := (key, value.sorted)) ?_
  exact (Json.sortKeys_perm _).mem_iff.mpr (List.mem_map.mpr ⟨(key, value), h, rfl⟩)

theorem mem_keys_sorted (document : Mapping P) (key : Str) :
    key ∈ document.sorted.members.map (·.1) ↔ key ∈ document.members.map (·.1) := by
  have hperm : (document.sorted.members.map (·.1)).Perm
      ((document.members.map fun m => (m.1, m.2.sorted)).map (·.1)) := (Json.sortKeys_perm _).map _
  rw [hperm.mem_iff, List.map_map]
  rfl

theorem mapM_asStr (titles : List Str) :
    ((titles.map Json.str).map Json.sorted).mapM (asStr (P := P)) = some titles := by
  induction titles with
  | nil => rfl
  | cons title titles ih =>
      rw [List.map_cons, List.map_cons, List.mapM_cons, ih]
      rfl

/-- **A record gives its chunk again.** -/
theorem manifestChunk_record (chunk : Chunk P) :
    manifestChunk (recordMapping chunk).sorted chunk.chunkIndex = some chunk := by
  have hfield : ∀ {key : String} {value : Json P.Float},
      (key.toList, value) ∈ (recordMapping chunk).members →
      (recordMapping chunk).sorted.members.lookup key.toList = some value.sorted :=
    fun h => lookup_sorted _ h
  have hkeys : (∀ key ∈ recordKeys, key ∈ (recordMapping chunk).sorted.members.map (·.1)) ∧
      ∀ key ∈ (recordMapping chunk).sorted.members.map (·.1), key ∈ recordKeys := by
    constructor
    · intro key hkey
      rw [mem_keys_sorted]
      exact hkey
    · intro key hkey
      rw [mem_keys_sorted] at hkey
      exact hkey
  have hmetadata : dictAt (recordMapping chunk).sorted "metadata".toList = some chunk.metadata := by
    have hlookup := lookup_sorted (recordMapping chunk)
      (show ("metadata".toList, chunk.metadata.json) ∈ _ by simp [recordMapping])
    rw [sorted_of_frozen chunk.frozen] at hlookup
    unfold dictAt
    split
    · rename_i members h
      congr 1
      apply Mapping.ext_json
      exact Option.some.inj (h.symm.trans hlookup)
    · rename_i hother
      exact absurd hlookup (hother _)
  unfold manifestChunk
  dsimp only
  rw [if_pos hkeys, hfield (show _ ∈ _ from List.mem_cons_self ..),
    @hfield "text" (.str chunk.text) (by simp [recordMapping]),
    @hfield "chunk_hash" (.str chunk.chunkHash) (by simp [recordMapping]),
    @hfield "start_offset" (.int chunk.startOffset) (by simp [recordMapping]),
    @hfield "end_offset" (.int chunk.endOffset) (by simp [recordMapping]),
    @hfield "title_path" (.arr (chunk.titlePath.map .str)) (by simp [recordMapping]),
    Json.sorted_arr, hmetadata]
  simp only [Option.bind_some, asItems, Option.bind_eq_bind, mapM_asStr]
  simp only [Json.sorted, asNat, asStr, Int.natCast_nonneg, if_true, Int.toNat_natCast,
    Option.bind_some, Chunk.make_self, Except.toOption]

theorem manifestDocument_record {chunk : Chunk P} {line : Bytes}
    (h : chunkManifestRecordBytes chunk = some line) :
    manifestDocument line = some (recordMapping chunk).sorted :=
  manifestDocument_canonicalLine (recordMapping chunk) h

/-! ## The header -/

theorem headerJson_unique (sourceChecksum parsedChecksum parserName parserVersion : Str)
    (parserConfig : Mapping P) (chunkerName chunkerVersion : Str) (chunkerConfig : Mapping P)
    (createdAt : Timestamp) (chunkCount : ℕ) :
    (headerJson sourceChecksum parsedChecksum parserName parserVersion parserConfig chunkerName
      chunkerVersion chunkerConfig createdAt chunkCount).UniqueKeys := by
  have hpart : ∀ (name version : Str) (config : Mapping P), (Json.obj [("name".toList, .str name),
      ("version".toList, .str version), ("config".toList, config.json)]).UniqueKeys := by
    intro name version config
    rw [Json.uniqueKeys_obj]
    refine ⟨by simp, ?_⟩
    intro m hm
    simp only [List.mem_cons, List.not_mem_nil, or_false] at hm
    rcases hm with rfl | rfl | rfl
    · trivial
    · trivial
    · exact config.unique
  rw [headerJson, Json.uniqueKeys_obj]
  refine ⟨by simp, ?_⟩
  intro m hm
  simp only [List.mem_cons, List.not_mem_nil, or_false] at hm
  rcases hm with rfl | rfl | rfl | rfl | rfl | rfl | rfl
  all_goals first
    | exact hpart _ _ _
    | trivial

/-- A copy through canonical JSON is the dictionary with its keys sorted. -/
theorem canonicalCopy_eq {config copy : Mapping P} (h : canonicalCopy config = some copy) :
    copy = config.sorted := by
  unfold canonicalCopy at h
  split at h
  · cases h
  · rename_i data hdata
    have hload := loadsBytes_canonical config.unique hdata
    split at h
    · rename_i members hobj
      cases h
      apply Mapping.ext_json
      rw [Mapping.json_sorted]
      exact Option.some.inj (hobj.symm.trans hload)
    · cases h

theorem canonicalCopy_some {config : Mapping P}
    (h : (Json.dumps P.floats config.json).isSome = true) :
    canonicalCopy config = some config.sorted := by
  obtain ⟨text, htext⟩ := Option.isSome_iff_exists.mp ((Json.isSome_dumps_sorted _).mpr h)
  have hdata : canonicalJsonBytes P config.json = some (encode text) := by
    rw [canonicalJsonBytes, htext]
    rfl
  have hload : loadsBytes P (encode text) = some config.sorted.json := by
    rw [Mapping.json_sorted]
    exact loadsBytes_canonical config.unique hdata
  unfold canonicalCopy
  rw [hdata]
  dsimp only
  split
  · rename_i members hobj
    congr 1
    exact Mapping.ext_json (Option.some.inj (hobj.symm.trans hload))
  · rename_i hother
    exact absurd hload (hother _)

theorem chunkerConfigHash_sorted (name version : Str) (config : Mapping P) :
    chunkerConfigHash name version config.sorted = chunkerConfigHash name version config := by
  unfold chunkerConfigHash
  rw [← canonicalSha256_sorted, ← canonicalSha256_sorted (.obj [("config".toList, config.json),
    ("name".toList, .str name), ("version".toList, .str version)]), Json.sorted_obj, Json.sorted_obj]
  simp only [List.map_cons, Mapping.json_sorted, Json.sorted_sorted]

/-- The expectation that belongs to a manifest: built from the same values, with the digest of the
chunker's configuration. -/
def MatchesManifest (sourceChecksum : Str) (parsed : ParsedArtifact P) (chunker : Chunker P)
    (createdAt : Timestamp) (chunkCount : ℕ) (expected : ManifestExpectation P) : Prop :=
  ∃ hash, chunkerConfigHash chunker.name chunker.version chunker.config = some hash ∧
    ManifestExpectation.make sourceChecksum (parsedTextChecksum (P := P) parsed.text)
      parsed.parserName parsed.parserVersion parsed.parserConfig chunker.name chunker.version
      chunker.config hash createdAt chunkCount = some expected

/-- There is such an expectation when the configurations can be written. -/
theorem exists_expectation {sourceChecksum : Str} {parsed : ParsedArtifact P} {chunker : Chunker P}
    {createdAt : Timestamp} {chunkCount : ℕ} (hsource : isSha256 sourceChecksum = true)
    (hparser : (Json.dumps P.floats parsed.parserConfig.json).isSome = true)
    (hchunker : (Json.dumps P.floats chunker.config.json).isSome = true) (hname : chunker.name ≠ [])
    (hversion : chunker.version ≠ []) (hcount : chunkCount ≠ 0) :
    ∃ expected, MatchesManifest sourceChecksum parsed chunker createdAt chunkCount expected := by
  obtain ⟨_, _, _, hparserName, hparserVersion⟩ := parsed.valid_fields
  have hdigest : (Json.dumps P.floats (.obj [("config".toList, chunker.config.json),
      ("name".toList, .str chunker.name), ("version".toList, .str chunker.version)])).isSome = true := by
    rw [Json.isSome_dumps_obj]
    intro m hm
    simp only [List.mem_cons, List.not_mem_nil, or_false] at hm
    rcases hm with rfl | rfl | rfl
    · exact hchunker
    · rfl
    · rfl
  obtain ⟨text, htext⟩ := Option.isSome_iff_exists.mp ((Json.isSome_dumps_sorted _).mpr hdigest)
  have hhash : chunkerConfigHash chunker.name chunker.version chunker.config =
      some (P.sha256 (encode text)) := by
    rw [chunkerConfigHash, canonicalSha256, canonicalJsonBytes, htext]
    rfl
  refine ⟨⟨sourceChecksum, parsedTextChecksum (P := P) parsed.text, parsed.parserName,
    parsed.parserVersion, parsed.parserConfig.sorted, chunker.name, chunker.version,
    chunker.config.sorted, P.sha256 (encode text), createdAt, chunkCount⟩, _, hhash, ?_⟩
  have hshape : isSha256 (parsedTextChecksum (P := P) parsed.text) = true := P.isSha256_sha256 _
  rw [ManifestExpectation.make, if_neg (by
    simp only [hsource, hshape, P.isSha256_sha256, hparserName, hparserVersion, hname, hversion,
      Bool.true_eq_false, false_or]
    omega)]
  rw [canonicalCopy_some hparser, canonicalCopy_some hchunker]
  rfl

/-- **The header is accepted.** -/
theorem validateManifestHeader_header {sourceChecksum : Str} {parsed : ParsedArtifact P}
    {chunker : Chunker P} {createdAt : Timestamp} {chunkCount : ℕ} {expected : ManifestExpectation P}
    (hmatch : MatchesManifest sourceChecksum parsed chunker createdAt chunkCount expected)
    {line : Bytes}
    (hline : chunkManifestHeaderBytes sourceChecksum parsed chunker createdAt chunkCount = some line) :
    ∃ (value : Json P.Float) (document : Mapping P), canonicalLine value = some line ∧
      manifestDocument line = some document ∧
      validateManifestHeader document expected = true ∧ expected.chunkCount = chunkCount := by
  obtain ⟨hash, hhash, hmake⟩ := hmatch
  unfold ManifestExpectation.make at hmake
  split at hmake
  · cases hmake
  simp only [Option.bind_eq_bind, Option.bind_eq_some_iff, Option.pure_def, Option.some.injEq] at hmake
  obtain ⟨parserConfig, hparser, chunkerConfig, hchunker, rfl⟩ := hmake
  obtain rfl := canonicalCopy_eq hparser
  obtain rfl := canonicalCopy_eq hchunker
  unfold chunkManifestHeaderBytes at hline
  split at hline
  · cases hline
  -- the header that is written and the one that is wanted are the same value
  generalize hheader : headerJson sourceChecksum (parsedTextChecksum (P := P) parsed.text)
    parsed.parserName parsed.parserVersion parsed.parserConfig.sorted chunker.name chunker.version
    chunker.config.sorted createdAt chunkCount = header at hline
  have hunique : header.UniqueKeys := by
    rw [← hheader]
    exact headerJson_unique ..
  have hobj : ∃ members, header = .obj members := by
    rw [← hheader]
    exact ⟨_, rfl⟩
  obtain ⟨members, rfl⟩ := hobj
  have hdocument := manifestDocument_canonicalLine ⟨members, hunique⟩ hline
  refine ⟨_, _, hline, hdocument, ?_, rfl⟩
  rw [validateManifestHeader, Bool.and_eq_true]
  constructor
  · rw [ManifestExpectation.wanted]
    dsimp only
    rw [Mapping.sorted_sorted, Mapping.sorted_sorted, hheader, Mapping.json_sorted]
    refine Json.pyEq_sorted P.floatLaws _ hunique ?_
    obtain ⟨data, hdata, _⟩ := Option.map_eq_some_iff.mp hline
    obtain ⟨text, htext, _⟩ := Option.map_eq_some_iff.mp hdata
    exact Option.isSome_iff_exists.mpr ⟨text, htext⟩
  · dsimp only
    rw [Mapping.sorted_sorted, chunkerConfigHash_sorted, hhash, decide_eq_true_eq]

/-! ## Batches -/

/-- The batches cut a list: every batch but the last is full. -/
structure Batched {α : Type} (size : ℕ) (xs : List α) (batches : List (List α)) : Prop where
  flatten_eq : batches.flatten = xs
  full : ∀ batch ∈ batches.dropLast, batch.length = size
  bounded : ∀ batch ∈ batches, batch ≠ [] ∧ batch.length ≤ size

theorem Batched.cons {α : Type} {size : ℕ} {batch xs : List α} {batches : List (List α)}
    (h : Batched size xs batches) (hsize : 1 ≤ size) (hfull : batch.length = size) :
    Batched size (batch ++ xs) (batch :: batches) where
  flatten_eq := by rw [List.flatten_cons, h.flatten_eq]
  full := by
    cases batches with
    | nil => simp
    | cons first batches =>
        rw [List.dropLast_cons_cons, List.forall_mem_cons]
        exact ⟨hfull, h.full⟩
  bounded := by
    rw [List.forall_mem_cons]
    refine ⟨⟨?_, by omega⟩, h.bounded⟩
    intro hnil
    rw [hnil, List.length_nil] at hfull
    omega

theorem Batched.last {α : Type} {size : ℕ} {batch : List α} (hlt : batch.length < size) :
    Batched size batch (if batch ≠ [] then [batch] else []) := by
  by_cases hbatch : batch = []
  · rw [if_neg (by simp [hbatch]), hbatch]
    exact ⟨rfl, by simp, by simp⟩
  · rw [if_pos hbatch]
    refine ⟨by simp, by simp, ?_⟩
    intro b hb
    rw [List.mem_singleton.mp hb]
    exact ⟨hbatch, by omega⟩

/-- Batches of one. -/
theorem Batched.one {α : Type} : ∀ {xs : List α} {batches : List (List α)}, Batched 1 xs batches →
    batches = xs.map fun x => [x] := by
  intro xs batches h
  obtain ⟨rfl, -, hbounded⟩ := h
  induction batches with
  | nil => rfl
  | cons batch batches ih =>
      obtain ⟨⟨hne, hle⟩, hrest⟩ := List.forall_mem_cons.mp hbounded
      obtain ⟨x, rfl⟩ : ∃ x, batch = [x] := by
        have hpos := List.length_pos_of_ne_nil hne
        exact List.length_eq_one_iff.mp (by omega)
      rw [List.flatten_cons, List.map_append, ← ih hrest]
      rfl

/-- The records of chunks whose indices count from `index`. -/
inductive RecordsFrom : ℕ → List Bytes → List (Chunk P) → Prop
  | nil (index : ℕ) : RecordsFrom index [] []
  | cons {index : ℕ} {line : Bytes} {lines : List Bytes} {chunk : Chunk P} {chunks : List (Chunk P)}
      (hline : chunkManifestRecordBytes chunk = some line) (hindex : chunk.chunkIndex = index)
      (hrest : RecordsFrom (index + 1) lines chunks) :
      RecordsFrom index (line :: lines) (chunk :: chunks)

/-- **The batch loop**, from any record on: it yields the chunks not embedded yet. -/
theorem batchLoop_records {expected : ManifestExpectation P} {nextChunkIndex batchSize : ℕ}
    (hsize : 1 ≤ batchSize) {index : ℕ} {lines : List Bytes} {chunks : List (Chunk P)}
    (h : RecordsFrom index lines chunks) : ∀ {batch : List (Chunk P)},
    index + chunks.length = expected.chunkCount → batch.length < batchSize →
    ∃ batches, batchLoop expected nextChunkIndex batchSize .done lines (index + 1) batch =
        ⟨batches, .done⟩ ∧
      Batched batchSize (batch ++ chunks.filter fun c => decide (nextChunkIndex ≤ c.chunkIndex))
        batches := by
  induction h with
  | nil index =>
      intro batch hcount hlt
      rw [List.length_nil, Nat.add_zero] at hcount
      refine ⟨if batch ≠ [] then [batch] else [], ?_, ?_⟩
      · simp only [batchLoop, hcount, ne_eq, not_true_eq_false, if_false]
        split <;> rfl
      · rw [List.filter_nil, List.append_nil]
        exact .last hlt
  | @cons index line lines chunk chunks hline hindex _ ih =>
      intro batch hcount hlt
      rw [List.length_cons] at hcount
      have hdocument := manifestDocument_record hline
      have hchunk := manifestChunk_record chunk
      rw [hindex] at hchunk
      simp only [batchLoop, hdocument, Nat.succ_ne_zero, if_false, Nat.add_sub_cancel, hchunk, nextLine,
        show ¬ expected.chunkCount + 1 < index + 1 + 1 by omega]
      by_cases hnext : nextChunkIndex ≤ chunk.chunkIndex
      · rw [if_pos hnext, List.filter_cons_of_pos (by simpa using hnext)]
        by_cases hfull : (batch ++ [chunk]).length = batchSize
        · obtain ⟨batches, hrun, hbatched⟩ := @ih [] (by omega) (by rw [List.length_nil]; omega)
          rw [if_pos hfull, hrun]
          refine ⟨(batch ++ [chunk]) :: batches, rfl, ?_⟩
          have := hbatched.cons hsize hfull
          simpa using this
        · have hlength : (batch ++ [chunk]).length < batchSize := by
            rw [List.length_append, List.length_singleton] at hfull ⊢
            omega
          obtain ⟨batches, hrun, hbatched⟩ := @ih (batch ++ [chunk]) (by omega) hlength
          rw [if_neg hfull, hrun]
          refine ⟨batches, rfl, ?_⟩
          rw [List.append_assoc] at hbatched
          exact hbatched
      · obtain ⟨batches, hrun, hbatched⟩ := @ih batch (by omega) hlt
        rw [if_neg hnext, hrun, List.filter_cons_of_neg (by simpa using hnext)]
        exact ⟨batches, rfl, hbatched⟩

theorem RecordsFrom.indices {index : ℕ} {lines : List Bytes} {chunks : List (Chunk P)}
    (h : RecordsFrom index lines chunks) :
    ∀ i c, chunks[i]? = some c → c.chunkIndex = index + i := by
  induction h with
  | nil index => simp
  | @cons index line lines chunk chunks _ hindex _ ih =>
      intro i c hc
      cases i with
      | zero =>
          rw [List.getElem?_cons_zero, Option.some.injEq] at hc
          rw [← hc, hindex, Nat.add_zero]
      | succ i =>
          rw [List.getElem?_cons_succ] at hc
          rw [ih i c hc]
          omega

/-- The chunks from an index on are those after it in the list. -/
theorem RecordsFrom.filter_eq {index : ℕ} {lines : List Bytes} {chunks : List (Chunk P)}
    (h : RecordsFrom index lines chunks) (next : ℕ) :
    chunks.filter (fun c => decide (next ≤ c.chunkIndex)) = chunks.drop (next - index) := by
  induction h with
  | nil index => simp
  | @cons index line lines chunk chunks _ hindex _ ih =>
      by_cases hnext : next ≤ index
      · rw [List.filter_cons_of_pos (by simpa [hindex] using hnext), ih,
          show next - (index + 1) = 0 by omega, show next - index = 0 by omega]
        rfl
      · rw [List.filter_cons_of_neg (by simpa [hindex] using hnext), ih,
          show next - index = (next - (index + 1)) + 1 by omega, List.drop_succ_cons]

theorem RecordsFrom.lines {index : ℕ} {lines : List Bytes} {chunks : List (Chunk P)}
    (h : RecordsFrom index lines chunks) :
    ∀ line ∈ lines, ∃ value : Json P.Float, canonicalLine value = some line := by
  induction h with
  | nil index => simp
  | cons hline _ _ ih =>
      rw [List.forall_mem_cons]
      exact ⟨⟨_, hline⟩, ih⟩

/-! ## The writer -/

/-- **What a complete run of the writer has checked.** -/
theorem recordLoop_done {parsed : ParsedArtifact P} {chunkCount : ℕ}
    {actualOutcome expectedOutcome : Outcome ChunkError} (actual : List (Chunk P)) :
    ∀ {expected : List (Chunk P)} {state : WriteState},
    (recordLoop parsed chunkCount actualOutcome expectedOutcome actual expected state).outcome =
      .done →
    RecordsFrom state.emitted
      (recordLoop parsed chunkCount actualOutcome expectedOutcome actual expected state).items actual ∧
      state.emitted + actual.length = chunkCount ∧
      List.Forall₂ (fun c e => c.pyEq e = true) actual expected ∧ expectedOutcome = .done := by
  have houtcome : ∀ o : Outcome ChunkError, writerOutcome o = .done → o = .done := by
    intro o h
    cases o with
    | done => rfl
    | raised e => cases h
    | running => cases h
  induction actual with
  | nil =>
      intro expected state h
      unfold recordLoop at h ⊢
      cases hactual : writerOutcome actualOutcome with
      | raised e =>
          rw [hactual] at h
          cases h
      | running =>
          rw [hactual] at h
          cases h
      | done =>
          rw [hactual] at h
          cases expected with
          | cons e expected => cases h
          | nil =>
              cases hexpected : writerOutcome expectedOutcome with
              | raised e =>
                  rw [hexpected] at h
                  cases h
              | running =>
                  rw [hexpected] at h
                  cases h
              | done =>
                  rw [hexpected] at h
                  dsimp only at h ⊢
                  split at h
                  · cases h
                  · rename_i hcheck
                    rw [if_neg hcheck]
                    simp only [not_or, not_not] at hcheck
                    exact ⟨.nil _, hcheck.1, .nil, houtcome _ hexpected⟩
  | cons chunk actual ih =>
      intro expected state h
      cases expected with
      | nil =>
          rw [recordLoop] at h
          split at h
          · cases h
          · rename_i hne
            exact absurd h hne
      | cons e expected =>
          rw [recordLoop] at h ⊢
          split at h
          · rename_i hfits
            rw [if_pos hfits]
            cases hline : chunkManifestRecordBytes chunk with
            | none =>
                rw [hline] at h
                cases h
            | some line =>
                rw [hline] at h
                dsimp only [Generated.cons] at h ⊢
                obtain ⟨hrecords, hcount, hequal, hdone⟩ := ih h
                simp only [chunkFits, Bool.and_eq_true, decide_eq_true_eq] at hfits
                refine ⟨.cons hline hfits.1.1.1.1.1.2 hrecords, ?_, .cons hfits.1.1.1.1.2 hequal,
                  hdone⟩
                rw [List.length_cons]
                dsimp only at hcount
                omega
          · cases h

/-- **A manifest that the writer has completed**: a header, and the records of the chunks it was given,
which are those of the chunker. -/
theorem iterChunkManifestLines_done {sourceChecksum : Str} {parsed : ParsedArtifact P}
    {chunker : Chunker P} {createdAt : Timestamp} {chunkCount : ℕ}
    {chunks : Generated (Chunk P) ChunkError}
    (hdone : (iterChunkManifestLines sourceChecksum parsed chunker createdAt chunkCount
      chunks).outcome = .done) :
    ∃ header records,
      chunkManifestHeaderBytes sourceChecksum parsed chunker createdAt chunkCount = some header ∧
      (iterChunkManifestLines sourceChecksum parsed chunker createdAt chunkCount chunks).items =
        header :: records ∧
      RecordsFrom 0 records chunks.items ∧ chunks.items.length = chunkCount ∧
      List.Forall₂ (fun c e => c.pyEq e = true) chunks.items (chunker.chunk parsed).items ∧
      (chunker.chunk parsed).outcome = .done := by
  unfold iterChunkManifestLines at hdone ⊢
  cases hheader : chunkManifestHeaderBytes sourceChecksum parsed chunker createdAt chunkCount with
  | none =>
      rw [hheader] at hdone
      cases hdone
  | some header =>
      rw [hheader] at hdone
      dsimp only [Generated.cons] at hdone ⊢
      obtain ⟨hrecords, hcount, hequal, hexpected⟩ := recordLoop_done chunks.items hdone
      exact ⟨header, _, rfl, rfl, hrecords, by rwa [Nat.zero_add] at hcount, hequal, hexpected⟩

/-- Every line of a manifest ends with the only line break in it. -/
theorem isRecord_manifest {sourceChecksum : Str} {parsed : ParsedArtifact P} {chunker : Chunker P}
    {createdAt : Timestamp} {chunkCount : ℕ} {header : Bytes} {records : List Bytes}
    {chunks : List (Chunk P)}
    (hheader : chunkManifestHeaderBytes sourceChecksum parsed chunker createdAt chunkCount =
      some header)
    (hrecords : RecordsFrom 0 records chunks) :
    ∀ line ∈ header :: records, IsRecord newline line ∧ line ≠ [newline] := by
  intro line hline
  have hcanonical : ∃ v : Json P.Float, canonicalLine v = some line := by
    rcases List.mem_cons.mp hline with rfl | hmem
    · unfold chunkManifestHeaderBytes at hheader
      split at hheader
      · cases hheader
      · exact ⟨_, hheader⟩
    · exact hrecords.lines line hmem
  obtain ⟨v, hv⟩ := hcanonical
  exact canonicalLine_record hv

/-- **What the reader makes of the lines of a manifest**, when it expects them. -/
theorem manifest_read {sourceChecksum : Str} {parsed : ParsedArtifact P} {chunker : Chunker P}
    {createdAt : Timestamp} {chunkCount : ℕ} {header : Bytes} {records : List Bytes}
    {chunks : List (Chunk P)}
    (hheader : chunkManifestHeaderBytes sourceChecksum parsed chunker createdAt chunkCount =
      some header)
    (hrecords : RecordsFrom 0 records chunks) (hcount : chunks.length = chunkCount)
    (hlines : ∀ line ∈ header :: records, line.length ≤ 2 ^ 20) {expected : ManifestExpectation P}
    (hmatch : MatchesManifest sourceChecksum parsed chunker createdAt chunkCount expected)
    {stream : List Bytes} (hstream : stream.flatten = (header :: records).flatten)
    {nextChunkIndex batchSize : ℕ} (hnext : nextChunkIndex ≤ chunkCount) (hsize : 1 ≤ batchSize)
    (hbound : batchSize ≤ 10000) :
    ∃ batches, iterVerifiedManifestBatches expected nextChunkIndex batchSize stream =
        ⟨batches, .done⟩ ∧ Batched batchSize (chunks.drop nextChunkIndex) batches := by
  obtain ⟨value, document, hvalue, hdocument, hvalid, hexpectedCount⟩ :=
    validateManifestHeader_header hmatch hheader
  have hacceptable : ∀ line ∈ header :: records, Acceptable line := by
    intro line hline
    obtain ⟨hrecord, hblank⟩ := isRecord_manifest hheader hrecords line hline
    exact ⟨hrecord, hblank, hlines line hline⟩
  have hread : manifestLines stream [] = ⟨header :: records, .done⟩ :=
    manifestLines_blocks stream hacceptable (by simp) (by rw [List.nil_append]; exact hstream)
  obtain ⟨batches, hrun, hbatched⟩ := @batchLoop_records P expected nextChunkIndex batchSize hsize
    _ _ _ hrecords [] (by rw [hexpectedCount]; omega) (by rw [List.length_nil]; omega)
  refine ⟨batches, ?_, ?_⟩
  · rw [iterVerifiedManifestBatches, if_pos ⟨by omega, hsize, hbound⟩]
    dsimp only
    rw [hread, batchLoop, hdocument]
    dsimp only
    rw [if_pos rfl, if_pos hvalid, nextLine, if_neg (by omega)]
    exact hrun
  · rw [List.nil_append, hrecords.filter_eq, Nat.sub_zero] at hbatched
    exact hbatched

/-- **Manifest round trip.**  If the writer completes, then over any blocks of its bytes the reader
with the matching expectation accepts and yields the chunks from the checkpoint on, which are those
of the chunker, in full batches and a last one.  Batches and lines are within the reader's bounds. -/
theorem manifest_roundTrip (sourceChecksum : Str) (parsed : ParsedArtifact P) (chunker : Chunker P)
    (createdAt : Timestamp) (chunkCount : ℕ) (chunks : Generated (Chunk P) ChunkError)
    (written : Generated Bytes ManifestError)
    (hwritten : iterChunkManifestLines sourceChecksum parsed chunker createdAt chunkCount chunks =
      written)
    (hdone : written.outcome = .done) (hlines : ∀ line ∈ written.items, line.length ≤ 2 ^ 20)
    (expected : ManifestExpectation P)
    (hmatch : MatchesManifest sourceChecksum parsed chunker createdAt chunkCount expected)
    (stream : List Bytes) (hstream : stream.flatten = written.items.flatten)
    (nextChunkIndex batchSize : ℕ) (hnext : nextChunkIndex ≤ chunkCount) (hsize : 1 ≤ batchSize)
    (hbound : batchSize ≤ 10000) :
    (chunker.chunk parsed).outcome = .done ∧ chunks.items.length = chunkCount ∧
      (∀ (i : ℕ) (c : Chunk P), chunks.items[i]? = some c → c.chunkIndex = i) ∧
      List.Forall₂ (fun c e => c.pyEq e = true) chunks.items (chunker.chunk parsed).items ∧
      ∃ batches, iterVerifiedManifestBatches expected nextChunkIndex batchSize stream =
          ⟨batches, .done⟩ ∧ Batched batchSize (chunks.items.drop nextChunkIndex) batches := by
  subst hwritten
  obtain ⟨header, records, hheader, hitems, hrecords, hcount, hequal, hexpected⟩ :=
    iterChunkManifestLines_done hdone
  rw [hitems] at hlines hstream
  refine ⟨hexpected, hcount, ?_, hequal,
    manifest_read hheader hrecords hcount hlines hmatch hstream hnext hsize hbound⟩
  intro i c hc
  rw [hrecords.indices i c hc, Nat.zero_add]

/-! ## The length of a record -/

/-- The length of a canonical line, and that there is one. -/
theorem canonicalLine_bound {value : Json P.Float} (h : (Json.dumps P.floats value).isSome = true) :
    ∃ line, canonicalLine value = some line ∧
      line.length ≤ 4 * Json.weight P.floats value + 1 := by
  obtain ⟨text, htext⟩ := Option.isSome_iff_exists.mp ((Json.isSome_dumps_sorted value).mpr h)
  refine ⟨encode text ++ [newline], by rw [canonicalLine, canonicalJsonBytes, htext]; rfl, ?_⟩
  have hweight := Json.length_dumps_le _ _ htext
  rw [Json.weight_sorted] at hweight
  have := length_encode_le text
  rw [List.length_append, List.length_singleton]
  omega

theorem length_decimal_le {n : ℕ} (h : n < 2 ^ 31) : (Json.decimal n).length ≤ 10 := by
  show (Nat.toDigits 10 n).length ≤ 10
  rw [Nat.length_toDigits_le_iff (by decide) (by decide)]
  omega

theorem isSome_dumpsInt_of_small {n : ℕ} (h : n < 2 ^ 31) : (Json.dumpsInt n).isSome = true := by
  have hdigits : (Nat.toDigits 10 (n : ℤ).natAbs).length ≤ maxIntDigits :=
    (length_decimal_le h).trans (by decide)
  rw [Json.dumpsInt, if_pos hdigits]
  rfl

/-- A chunk without metadata, of the size of the recursive chunker, has a record within the line limit
of the reader. -/
theorem record_short {chunk : Chunk P} (hmetadata : chunk.metadata = .empty)
    (htext : chunk.text.length ≤ maxChunkCodepoints) (hindex : chunk.chunkIndex < 2 ^ 31)
    (hend : chunk.endOffset < 2 ^ 31)
    (htitles : Json.weight P.floats (.arr (chunk.titlePath.map .str)) ≤
      9 * maxTitlePathUtf8Bytes + 2) :
    ∃ line, chunkManifestRecordBytes chunk = some line ∧ line.length ≤ maxManifestLineBytes := by
  have hstart : chunk.startOffset < 2 ^ 31 := lt_trans chunk.start_lt_end hend
  have hsome : (Json.dumps P.floats chunk.asRecord).isSome = true := by
    rw [Chunk.asRecord, Json.isSome_dumps_obj]
    simp only [List.forall_mem_cons, Json.dumps, isSome_dumpsInt_of_small hindex,
      isSome_dumpsInt_of_small hstart, isSome_dumpsInt_of_small hend, Option.isSome_some, true_and]
    refine ⟨?_, ?_, List.forall_mem_nil _⟩
    · exact (Json.isSome_dumps_arr _).mpr (List.forall_mem_map.mpr fun _ _ => rfl)
    · rw [hmetadata]
      rfl
  obtain ⟨line, hline, hlength⟩ := canonicalLine_bound hsome
  have hhash : chunk.chunkHash.length = 64 := by
    have hshape := chunk.hash_shape
    simp only [isSha256, Bool.and_eq_true, decide_eq_true_eq] at hshape
    exact hshape.1
  have hindexDigits := length_decimal_le hindex
  have hstartDigits := length_decimal_le hstart
  have hendDigits := length_decimal_le hend
  have hempty : Json.weight P.floats (Mapping.empty : Mapping P).json = 2 := rfl
  refine ⟨line, hline, hlength.trans ?_⟩
  rw [Chunk.asRecord, hmetadata]
  simp only [Json.weight, Json.weightMembers, hhash, hempty] at htitles ⊢
  simp only [maxChunkCodepoints, maxTitlePathUtf8Bytes, maxManifestLineBytes] at *
  simp only [String.reduceToList, List.length_cons, List.length_nil]
  omega

/-- A chunk without metadata equals itself. -/
theorem Chunk.pyEq_self {chunk : Chunk P} (h : chunk.metadata = .empty) :
    chunk.pyEq chunk = true := by
  rw [Chunk.pyEq, h]
  simp [Mapping.json, Mapping.empty, Json.pyEq, Json.pyEqMembers]

/-! ## A manifest of two chunks -/

namespace ManifestSample

/-- A document of four characters. -/
def artifact : ParsedArtifact Platform.small :=
  ⟨"a\n😀b".toList, BoundaryBuilder.new.table, "plain_text_v1".toList, "1".toList, Mapping.empty,
    by decide⟩

/-- Its chunks, which overlap. -/
def first : Chunk Platform.small := .plain 0 "a\n".toList 0 2 [] (by decide)

def second : Chunk Platform.small := .plain 1 "\n😀b".toList 1 4 [] (by decide)

/-- A chunker that yields these chunks. -/
def chunker : Chunker Platform.small where
  name := "line_text_v1".toList
  version := "1".toList
  config := Mapping.empty
  chunk := fun _ => ⟨[first, second], .done⟩

def createdAt : Timestamp := ⟨2024, 2, 29, 12, 30, 0, 0⟩

def sourceChecksum : Str := List.replicate 64 '0'

theorem fits_first : chunkFits artifact 2 ⟨0, -1, 0⟩ first first = true := by
  rw [chunkFits, Chunk.pyEq_self rfl]
  rfl

theorem fits_second : chunkFits artifact 2 ⟨1, 0, 2⟩ second second = true := by
  rw [chunkFits, Chunk.pyEq_self rfl]
  rfl

/-- The writer completes, with short lines. -/
theorem written : ∃ header line line',
    iterChunkManifestLines sourceChecksum artifact chunker createdAt 2 ⟨[first, second], .done⟩ =
      ⟨[header, line, line'], .done⟩ ∧
    ∀ written ∈ [header, line, line'], written.length ≤ maxManifestLineBytes := by
  have htitles : Json.weight Platform.small.floats (.arr []) ≤ 9 * maxTitlePathUtf8Bytes + 2 := by
    decide
  obtain ⟨line, hline, hlineLength⟩ := @record_short Platform.small first rfl (by decide) (by decide)
    (by decide) htitles
  obtain ⟨line', hline', hlineLength'⟩ := @record_short Platform.small second rfl (by decide) (by decide)
    (by decide) htitles
  have hempty : (Mapping.empty : Mapping Platform.small).sorted = Mapping.empty :=
    Option.some.inj (by rw [← freezeMapping_empty]; rfl)
  obtain ⟨header, hheader, hheaderLength⟩ := @canonicalLine_bound Platform.small
    (headerJson sourceChecksum (parsedTextChecksum (P := Platform.small) artifact.text)
      artifact.parserName artifact.parserVersion Mapping.empty chunker.name chunker.version
      Mapping.empty createdAt 2) (by decide +kernel)
  have hheaderBytes : chunkManifestHeaderBytes sourceChecksum artifact chunker createdAt 2 =
      some header := by
    rw [chunkManifestHeaderBytes, if_neg (by decide +kernel)]
    show canonicalLine (headerJson _ _ _ _ (Mapping.empty : Mapping Platform.small).sorted _ _
      (Mapping.empty : Mapping Platform.small).sorted _ _) = _
    rw [hempty]
    exact hheader
  refine ⟨header, line, line', ?_, ?_⟩
  · rw [iterChunkManifestLines, hheaderBytes]
    show (recordLoop artifact 2 .done .done [first, second] [first, second] ⟨0, -1, 0⟩).cons
      header = _
    rw [recordLoop, if_pos fits_first, hline]
    show ((recordLoop artifact 2 .done .done [second] [second] ⟨1, 0, 2⟩).cons line).cons header = _
    rw [recordLoop, if_pos fits_second, hline']
    rfl
  · rw [List.forall_mem_cons, List.forall_mem_cons, List.forall_mem_singleton]
    exact ⟨hheaderLength.trans (by decide +kernel), hlineLength, hlineLength'⟩

/-- The expectation that belongs to it. -/
theorem expectation : ∃ expected,
    MatchesManifest sourceChecksum artifact chunker createdAt 2 expected :=
  exists_expectation (by decide) (by decide) (by decide) (by decide) (by decide) (by decide)

end ManifestSample

open ManifestSample in
/-- Byte by byte and in batches of one, from the first chunk and from the second. -/
theorem manifest_roundTrip_twoChunks : ∃ (lines : List Bytes)
    (expected : ManifestExpectation Platform.small),
    iterChunkManifestLines sourceChecksum artifact chunker createdAt 2 ⟨[first, second], .done⟩ =
        ⟨lines, .done⟩ ∧
      iterVerifiedManifestBatches expected 0 1 (lines.flatten.map fun byte => [byte]) =
        ⟨[[first], [second]], .done⟩ ∧
      iterVerifiedManifestBatches expected 1 1 (lines.flatten.map fun byte => [byte]) =
        ⟨[[second]], .done⟩ := by
  obtain ⟨header, line, line', hwritten, hshort⟩ := ManifestSample.written
  obtain ⟨expected, hmatch⟩ := ManifestSample.expectation
  have hblocks : ([header, line, line'].flatten.map fun byte => [byte]).flatten =
      [header, line, line'].flatten := by
    rw [← List.flatMap_def, List.flatMap_singleton']
  obtain ⟨_, _, _, _, batches, hall, hbatched⟩ := manifest_roundTrip _ _ _ _ _ _ _ hwritten rfl
    hshort expected hmatch _ hblocks 0 1 (by decide) (by decide) (by decide)
  obtain ⟨_, _, _, _, batches', hrest, hbatched'⟩ := manifest_roundTrip _ _ _ _ _ _ _ hwritten rfl
    hshort expected hmatch _ hblocks 1 1 (by decide) (by decide) (by decide)
  obtain rfl := hbatched.one
  obtain rfl := hbatched'.one
  exact ⟨_, expected, hwritten, hall, hrest⟩

open ManifestSample in
/-- A batch size the reader refuses. -/
theorem manifest_roundTrip_largeBatch : ∃ (lines : List Bytes)
    (expected : ManifestExpectation Platform.small),
    iterChunkManifestLines sourceChecksum artifact chunker createdAt 2 ⟨[first, second], .done⟩ =
      ⟨lines, .done⟩ ∧
      MatchesManifest sourceChecksum artifact chunker createdAt 2 expected ∧
      iterVerifiedManifestBatches expected 0 10001 [lines.flatten] = ⟨[], .raised .invalid⟩ := by
  obtain ⟨header, line, line', hwritten, -⟩ := ManifestSample.written
  obtain ⟨expected, hmatch⟩ := ManifestSample.expectation
  refine ⟨_, expected, hwritten, hmatch, ?_⟩
  rw [iterVerifiedManifestBatches, if_neg]
  rintro ⟨_, _, hbound⟩
  exact absurd hbound (by decide)

end VeloxRag.Ingestion
