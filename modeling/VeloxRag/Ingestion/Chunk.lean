import VeloxRag.Platform
import VeloxRag.Ingestion.Boundary

/-!
# Chunks

A chunk is a half-open span of the source text with the titles above it, some metadata
and a digest of its content.  The constructor checks all of it, so a value of the type
`Chunk` has passed these checks.

## Main definitions

* `ChunkError` — what the chunker raises.
* `Chunk`, `Chunk.make`, `Chunk.fromSource` — the chunk and its constructors.
* `Chunk.asRecord`, `Chunk.pyEq` — the manifest record and equality as Python has it.
-/

namespace VeloxRag.Ingestion

open VeloxRag.Lib

/-- What the chunker and the constructors of a chunk raise. -/
inductive ChunkError
  | chunkInvalid
  | metadataInvalid
  | sourceSpanInvalid
  | configInvalid
  | noProgress
  /-- `ValueError` of `canonical_json_bytes`. -/
  | notCanonicalJson
  /-- An exception of the packed boundaries. -/
  | boundaries (error : ParserError)
deriving DecidableEq, Repr

/-- The text of the exception. -/
def ChunkError.message : ChunkError → String
  | .chunkInvalid => "chunk is invalid"
  | .metadataInvalid => "chunk metadata is invalid"
  | .sourceSpanInvalid => "chunk source span is invalid"
  | .configInvalid => "document chunker config is invalid"
  | .noProgress => "document chunker could not make progress"
  | .notCanonicalJson => "value is not canonical JSON"
  | .boundaries error => error.message

/-! ## Metadata -/

section Finite

variable {F : Type} (ops : FloatOps F)

mutual
/-- No floating-point number is infinite or not a number. -/
def allFinite : Json F → Bool
  | .float f => ops.isFinite f
  | .arr xs => allFiniteItems xs
  | .obj ms => allFiniteMembers ms
  | _ => true

def allFiniteItems : List (Json F) → Bool
  | [] => true
  | x :: xs => allFinite x && allFiniteItems xs

def allFiniteMembers : List (List Char × Json F) → Bool
  | [] => true
  | (_, v) :: ms => allFinite v && allFiniteMembers ms
end

variable {ops}

theorem allFiniteItems_iff (xs : List (Json F)) :
    allFiniteItems ops xs = true ↔ ∀ x ∈ xs, allFinite ops x = true := by
  induction xs with
  | nil => exact iff_of_true rfl (by simp)
  | cons x xs ih =>
    rw [List.forall_mem_cons, ← ih, ← Bool.and_eq_true_iff]
    exact Iff.rfl

theorem allFiniteMembers_iff (ms : JsonMembers F) :
    allFiniteMembers ops ms = true ↔ ∀ m ∈ ms, allFinite ops m.2 = true := by
  induction ms with
  | nil => exact iff_of_true rfl (by simp)
  | cons m ms ih =>
    rw [List.forall_mem_cons, ← ih, ← Bool.and_eq_true_iff]
    exact Iff.rfl

theorem allFinite_arr {xs : List (Json F)} :
    allFinite ops (.arr xs) = true ↔ ∀ x ∈ xs, allFinite ops x = true := allFiniteItems_iff xs

theorem allFinite_obj {ms : JsonMembers F} :
    allFinite ops (.obj ms) = true ↔ ∀ m ∈ ms, allFinite ops m.2 = true := allFiniteMembers_iff ms

theorem allFinite_sorted : ∀ v : Json F, allFinite ops v = true → allFinite ops v.sorted = true := by
  refine Json.induction_on (fun h => h) (fun _ h => h) (fun _ h => h) (fun _ h => h) (fun _ h => h) ?_ ?_
  · intro xs ih h
    rw [allFinite_arr] at h
    rw [Json.sorted_arr, allFinite_arr]
    intro x hx
    obtain ⟨y, hy, rfl⟩ := List.mem_map.mp hx
    exact ih y hy (h y hy)
  · intro ms ih h
    rw [allFinite_obj] at h
    rw [Json.sorted_obj, allFinite_obj]
    intro m hm
    obtain ⟨m', hm', rfl⟩ := List.mem_map.mp ((Json.sortKeys_perm _).mem_iff.mp hm)
    exact ih m' hm' (h m' hm')

end Finite

variable {P : Platform}

/-- `_freeze_mapping`: the metadata with its keys sorted at every level. -/
def freezeMapping (metadata : Mapping P) : Option (Mapping P) :=
  if allFinite P.floats metadata.json then some metadata.sorted else none

/-- What is frozen stays as it is. -/
theorem freezeMapping_frozen {metadata frozen : Mapping P} (h : freezeMapping metadata = some frozen) :
    freezeMapping frozen = some frozen := by
  unfold freezeMapping at h ⊢
  split at h
  · rename_i hfin
    cases h
    rw [Mapping.json_sorted, if_pos (allFinite_sorted _ hfin), Mapping.sorted_sorted]
  · cases h

theorem sorted_of_frozen {metadata : Mapping P} (h : freezeMapping metadata = some metadata) :
    metadata.json.sorted = metadata.json := by
  unfold freezeMapping at h
  split at h
  · have := congrArg Mapping.json (Option.some.inj h)
    rwa [Mapping.json_sorted] at this
  · cases h

/-! ## The chunk -/

def chunkSchemaVersion : Str := "chunks-v1".toList

variable (P) in
/-- `_chunk_hash`. -/
def chunkHashOf (text : Str) (titlePath : List Str) (metadata : Mapping P) : Option Str :=
  canonicalSha256 P (.obj [
    ("metadata".toList, metadata.json),
    ("schema_version".toList, .str chunkSchemaVersion),
    ("text".toList, .str text),
    ("title_path".toList, .arr (titlePath.map .str))])

/-- The checks of `Chunk.__post_init__` that do not concern the metadata and the digest. -/
def spanValid (text : Str) (startOffset endOffset : ℕ) (titlePath : List Str) : Bool :=
  decide (text ≠ []) && decide ('\x00' ∉ text) && decide ('\r' ∉ text)
    && decide (startOffset < endOffset) && decide (endOffset - startOffset = text.length)
    && titlePath.all fun title => decide (title ≠ []) && decide ('\x00' ∉ title)

structure Chunk (P : Platform) where
  chunkIndex : ℕ
  text : Str
  chunkHash : Str
  startOffset : ℕ
  endOffset : ℕ
  titlePath : List Str
  metadata : Mapping P
  span_valid : spanValid text startOffset endOffset titlePath = true
  frozen : freezeMapping metadata = some metadata
  hash_shape : isSha256 chunkHash = true
  hash_eq : chunkHashOf P text titlePath metadata = some chunkHash

namespace Chunk

/-- `Chunk(...)`, with the checks of `__post_init__` in their order. -/
def make (chunkIndex : ℕ) (text chunkHash : Str) (startOffset endOffset : ℕ)
    (titlePath : List Str) (metadata : Mapping P) : Except ChunkError (Chunk P) :=
  if hspan : spanValid text startOffset endOffset titlePath = true then
    match hfreeze : freezeMapping metadata with
    | none => .error .metadataInvalid
    | some frozen =>
        if hshape : isSha256 chunkHash = true then
          match hhash : chunkHashOf P text titlePath frozen with
          | none => .error .notCanonicalJson
          | some computed =>
              if heq : computed = chunkHash then
                .ok ⟨chunkIndex, text, chunkHash, startOffset, endOffset, titlePath, frozen, hspan,
                  freezeMapping_frozen hfreeze, hshape, heq ▸ hhash⟩
              else .error .chunkInvalid
        else .error .chunkInvalid
  else .error .chunkInvalid

/-- `Chunk.from_source`. -/
def fromSource (chunkIndex : ℕ) (sourceText : Str) (startOffset endOffset : ℕ)
    (titlePath : List Str) (metadata : Mapping P) : Except ChunkError (Chunk P) :=
  if endOffset ≤ startOffset ∨ sourceText.length < endOffset then .error .sourceSpanInvalid
  else
    match freezeMapping metadata with
    | none => .error .metadataInvalid
    | some frozen =>
        let text := slice sourceText startOffset endOffset
        match chunkHashOf P text titlePath frozen with
        | none => .error .notCanonicalJson
        | some chunkHash => make chunkIndex text chunkHash startOffset endOffset titlePath frozen

/-- `as_record`. -/
def asRecord (c : Chunk P) : Json P.Float :=
  .obj [
    ("chunk_index".toList, .int c.chunkIndex),
    ("text".toList, .str c.text),
    ("chunk_hash".toList, .str c.chunkHash),
    ("start_offset".toList, .int c.startOffset),
    ("end_offset".toList, .int c.endOffset),
    ("title_path".toList, .arr (c.titlePath.map .str)),
    ("metadata".toList, c.metadata.json)]

/-- Equality of two chunks, field by field; metadata are compared as dictionaries. -/
def pyEq (c d : Chunk P) : Bool :=
  decide (c.chunkIndex = d.chunkIndex) && decide (c.text = d.text)
    && decide (c.chunkHash = d.chunkHash) && decide (c.startOffset = d.startOffset)
    && decide (c.endOffset = d.endOffset) && decide (c.titlePath = d.titlePath)
    && Json.pyEq P.floats c.metadata.json d.metadata.json

/-- **The constructor gives a chunk back from its own fields.** -/
theorem make_self (c : Chunk P) :
    make c.chunkIndex c.text c.chunkHash c.startOffset c.endOffset c.titlePath c.metadata = .ok c := by
  rw [make, dif_pos c.span_valid]
  split
  · rename_i h
    rw [c.frozen] at h
    cases h
  · rename_i frozen h
    obtain rfl : c.metadata = frozen := Option.some.inj (c.frozen.symm.trans h)
    rw [dif_pos c.hash_shape]
    split
    · rename_i h
      rw [c.hash_eq] at h
      cases h
    · rename_i computed h
      obtain rfl : c.chunkHash = computed := Option.some.inj (c.hash_eq.symm.trans h)
      rw [dif_pos rfl]

theorem start_lt_end (c : Chunk P) : c.startOffset < c.endOffset := by
  have := c.span_valid
  simp only [spanValid, Bool.and_eq_true, decide_eq_true_eq] at this
  exact this.1.1.2

theorem length_text (c : Chunk P) : c.text.length = c.endOffset - c.startOffset := by
  have := c.span_valid
  simp only [spanValid, Bool.and_eq_true, decide_eq_true_eq] at this
  exact this.1.2.symm

end Chunk

/-! ## Chunks of a source -/

theorem sorted_empty : (Mapping.empty : Mapping P).json.sorted = Mapping.empty.json := by
  simp [Mapping.empty, Mapping.json, Json.sorted_obj, Json.sortKeys]

theorem freezeMapping_empty : freezeMapping (Mapping.empty : Mapping P) = some Mapping.empty := by
  have hsorted : (Mapping.empty : Mapping P).sorted = Mapping.empty := by
    apply Mapping.ext_json
    rw [Mapping.json_sorted, sorted_empty]
  rw [freezeMapping, hsorted]
  rfl

theorem isSha256_zeros : isSha256 (List.replicate 64 '0') = true := by decide

theorem spanValid_letter : spanValid ['a'] 0 1 [] = true := by decide

/-- Without metadata the digest can always be computed. -/
theorem chunkHashOf_empty (text : Str) (titlePath : List Str) :
    ∃ h, chunkHashOf P text titlePath Mapping.empty = some h ∧ isSha256 h = true := by
  have hsome : (Json.dumps P.floats (Json.sorted (.obj [
      ("metadata".toList, (Mapping.empty : Mapping P).json),
      ("schema_version".toList, .str chunkSchemaVersion),
      ("text".toList, .str text),
      ("title_path".toList, .arr (titlePath.map .str))]))).isSome = true := by
    rw [Json.sorted_obj, Json.isSome_dumps_obj]
    intro m hm
    obtain ⟨m', hm', rfl⟩ := List.mem_map.mp ((Json.sortKeys_perm _).mem_iff.mp hm)
    simp only [List.mem_cons, List.not_mem_nil, or_false] at hm'
    rcases hm' with rfl | rfl | rfl | rfl
    · simp only [sorted_empty]
      rfl
    · rfl
    · rfl
    · simp only [Json.sorted_arr, Json.isSome_dumps_arr, List.map_map]
      intro x hx
      obtain ⟨title, _, rfl⟩ := List.mem_map.mp hx
      rfl
  obtain ⟨s, hs⟩ := Option.isSome_iff_exists.mp hsome
  refine ⟨P.sha256 (encode s), ?_, P.isSha256_sha256 _⟩
  rw [chunkHashOf, canonicalSha256, canonicalJsonBytes, hs]
  rfl

/-- A chunk without metadata. -/
def Chunk.plain (chunkIndex : ℕ) (text : Str) (startOffset endOffset : ℕ) (titlePath : List Str)
    (h : spanValid text startOffset endOffset titlePath = true) : Chunk P where
  chunkIndex := chunkIndex
  text := text
  chunkHash := (chunkHashOf P text titlePath .empty).getD []
  startOffset := startOffset
  endOffset := endOffset
  titlePath := titlePath
  metadata := Mapping.empty
  span_valid := h
  frozen := freezeMapping_empty
  hash_shape := by
    obtain ⟨digest, hdigest, hshape⟩ := @chunkHashOf_empty P text titlePath
    rw [hdigest]
    exact hshape
  hash_eq := by
    obtain ⟨digest, hdigest, -⟩ := @chunkHashOf_empty P text titlePath
    rw [hdigest]
    rfl

/-- **A span of a normalized text makes a chunk**, whatever titles are above it. -/
theorem Chunk.fromSource_ok {sourceText : Str} (hnul : '\x00' ∉ sourceText) (hcr : '\r' ∉ sourceText)
    {startOffset endOffset : ℕ} (hspan : startOffset < endOffset)
    (hinside : endOffset ≤ sourceText.length) {titlePath : List Str}
    (htitles : ∀ title ∈ titlePath, title ≠ [] ∧ '\x00' ∉ title) (chunkIndex : ℕ) :
    ∃ c : Chunk P, Chunk.fromSource chunkIndex sourceText startOffset endOffset titlePath
        Mapping.empty = .ok c ∧ c.chunkIndex = chunkIndex ∧ c.startOffset = startOffset ∧
      c.endOffset = endOffset ∧ c.text = slice sourceText startOffset endOffset ∧
      c.titlePath = titlePath := by
  have hlen := @length_slice _ sourceText startOffset endOffset hinside
  have hsub : ∀ c ∈ slice sourceText startOffset endOffset, c ∈ sourceText := by
    intro c hc
    exact List.mem_of_mem_drop (List.mem_of_mem_take hc)
  have hvalid : spanValid (slice sourceText startOffset endOffset) startOffset endOffset titlePath =
      true := by
    simp only [spanValid, Bool.and_eq_true, decide_eq_true_eq, List.all_eq_true]
    refine ⟨⟨⟨⟨⟨?_, fun h => hnul (hsub _ h)⟩, fun h => hcr (hsub _ h)⟩, hspan⟩, hlen.symm⟩, htitles⟩
    intro h
    rw [h] at hlen
    simp only [List.length_nil] at hlen
    omega
  let c : Chunk P := .plain chunkIndex (slice sourceText startOffset endOffset) startOffset endOffset
    titlePath hvalid
  have hhash : chunkHashOf P (slice sourceText startOffset endOffset) titlePath .empty =
      some c.chunkHash := c.hash_eq
  refine ⟨c, ?_, rfl, rfl, rfl, rfl, rfl⟩
  rw [Chunk.fromSource, if_neg (by omega), freezeMapping_empty]
  simp only [hhash]
  exact Chunk.make_self c

/-- A chunk without metadata whose text is its span is made from the source. -/
theorem Chunk.fromSource_self {c : Chunk P} {sourceText : Str}
    (htext : c.text = slice sourceText c.startOffset c.endOffset)
    (hinside : c.endOffset ≤ sourceText.length) (hmetadata : c.metadata = Mapping.empty) :
    Chunk.fromSource c.chunkIndex sourceText c.startOffset c.endOffset c.titlePath .empty = .ok c := by
  have hspan := c.start_lt_end
  have hhash := c.hash_eq
  rw [hmetadata, htext] at hhash
  rw [Chunk.fromSource, if_neg (by omega), freezeMapping_empty]
  simp only [hhash]
  have hself := c.make_self
  rwa [hmetadata, htext] at hself

end VeloxRag.Ingestion
