import VeloxRag.Ingestion.ChunkWindows

/-!
# Blank chunks

A window that is blank up to its chosen end is widened to its hard end, so a chunk that is still blank
fills its window.  If the window is a full one, the chunk lies in a run of whitespace as long as a chunk
may be, and no other cut would help.  Otherwise the window is the last one and starts in the whitespace
that ends the text, however short that is.

## Main definitions

* `BlankBetween` — nothing but whitespace in a part of a text.
* `InLongRun` — a chunk inside a run of whitespace as long as a chunk may be.
* `LongTail` — a text that ends with such a run.
* `blank_chunks` — which chunks are blank without need.
-/

namespace VeloxRag.Ingestion

open VeloxRag.Lib

variable {P : Platform}

/-! ## Whitespace -/

/-- Nothing but whitespace from one offset to another. -/
def BlankBetween (text : Str) (start stop : ℕ) : Prop :=
  ∀ position c, start ≤ position → position < stop → text[position]? = some c → isSpace c = true

/-- A part of a text strips to nothing exactly when it is blank. -/
theorem strip_slice_eq_nil {text : Str} {start stop : ℕ} :
    strip (slice text start stop) = [] ↔ BlankBetween text start stop := by
  rw [strip, stripWhere_eq_nil]
  constructor
  · intro h position c hstart hstop hc
    exact h c (mem_slice.mpr ⟨position, hstart, hstop, hc⟩)
  · intro h c hc
    obtain ⟨position, hstart, hstop, hc⟩ := mem_slice.mp hc
    exact h position c hstart hstop hc

theorem strip_drop_eq_nil {text : Str} {start : ℕ} :
    strip (text.drop start) = [] ↔ BlankBetween text start text.length := by
  rw [← strip_slice_eq_nil, slice, List.take_of_length_le (by rw [List.length_drop])]

namespace BlankBetween

variable {text : Str} {a b c d : ℕ}

theorem mono (h : BlankBetween text a d) (hstart : a ≤ b) (hstop : c ≤ d) : BlankBetween text b c :=
  fun position x hb hc hx => h position x (hstart.trans hb) (hc.trans_le hstop) hx

/-- Two parts that meet. -/
theorem trans (h : BlankBetween text a c) (h' : BlankBetween text b d) (hmeet : b ≤ c) :
    BlankBetween text a d := by
  intro position x hstart hstop hx
  by_cases hfirst : position < c
  · exact h position x hstart hfirst hx
  · exact h' position x (by omega) hstop hx

end BlankBetween

/-! ## Runs of whitespace -/

/-- The chunk lies inside a run of whitespace of at least a number of characters. -/
def InLongRun (text : Str) (limit : ℕ) (chunk : Chunk P) : Prop :=
  ∃ start stop, start ≤ chunk.startOffset ∧ chunk.endOffset ≤ stop ∧ stop ≤ text.length ∧
    limit ≤ stop - start ∧ BlankBetween text start stop

/-- The text ends with a run of whitespace of at least a number of characters. -/
def LongTail (text : Str) (limit : ℕ) : Prop :=
  limit ≤ text.length ∧ BlankBetween text (text.length - limit) text.length

/-- **A blank chunk** fills its window. -/
theorem Chunking.stop_of_blank {k : Chunking P} {bs : List StructuralBoundary} {w : Window}
    (h : IndexReads k.index bs) (horder : Ordered bs) (hin : k.InText w)
    (hblank : BlankBetween k.text w.start (k.stop w)) : k.stop w = k.hardEnd w := by
  by_cases hwidened : k.Widened w
  · exact stop_of_widened hwidened
  · rw [stop_of_not_widened hwidened] at hblank ⊢
    have hchosen := (chosen_bounds h horder hin).2
    by_contra hne
    exact hwidened ⟨strip_slice_eq_nil.mpr hblank, lt_of_le_of_ne hchosen hne⟩

/-- The chunk of a window is blank only inside a long run of whitespace, if the window starts inside
the last whitespace of the text only where that is long. -/
theorem ChunkRun.blank_chunks_iff {a : ParsedArtifact P} {bs : List StructuralBoundary} {k : Chunking P}
    {chunks : List (Chunk P)} (h : ChunkRun a bs k chunks) :
    (∀ chunk ∈ chunks, strip chunk.text = [] → InLongRun k.text k.chunker.maxChunk chunk) ↔
      ∀ w, k.Reached w → k.Yields w → strip (k.text.drop w.start) = [] →
        LongTail k.text k.chunker.maxChunk := by
  have htext : k.text ≠ [] := by
    rw [h.text_eq]
    exact a.valid_fields.1
  constructor
  · intro hchunks w hw hyields hblank
    have hin := hw.inText h.reads h.ordered htext
    obtain ⟨chunk, hchunk, hstart, hstop⟩ := h.window_chunk w hw hyields
    rw [strip_drop_eq_nil] at hblank
    have hbounds := Chunking.stop_bounds h.reads h.ordered hin
    have hlength := (@Chunking.hardEnd_le P k w).1
    have hempty : strip chunk.text = [] := by
      rw [h.source chunk hchunk, strip_slice_eq_nil, hstart, hstop, ← h.text_eq]
      exact hblank.mono (le_refl _) (by omega)
    obtain ⟨first, last, hfirst, hlast, hinside, hlong, hrun⟩ := hchunks chunk hchunk hempty
    -- the run reaches over the start of the window, and from there on the text is blank
    refine ⟨by omega, ?_⟩
    exact (hrun.trans hblank (by omega)).mono (by omega) (le_refl _)
  · intro hwindows chunk hchunk hempty
    obtain ⟨w, hw, hyields, hstart, hstop⟩ := h.chunk_window chunk hchunk
    have hin := hw.inText h.reads h.ordered htext
    rw [h.source chunk hchunk, strip_slice_eq_nil, hstart, hstop, ← h.text_eq] at hempty
    have hfull := Chunking.stop_of_blank h.reads h.ordered hin hempty
    rw [hfull] at hempty hstop
    by_cases hlast : w.start + k.chunker.maxChunk ≤ k.text.length
    · have hhard : k.hardEnd w = w.start + k.chunker.maxChunk := Nat.min_eq_left hlast
      rw [hhard] at hempty hstop
      exact ⟨w.start, w.start + k.chunker.maxChunk, hstart.ge, hstop.le, hlast, by omega, hempty⟩
    · have hhard : k.hardEnd w = k.text.length := Nat.min_eq_right (by omega)
      rw [hhard] at hempty hstop
      obtain ⟨hlength, hrun⟩ := hwindows w hw hyields (strip_drop_eq_nil.mpr hempty)
      exact ⟨k.text.length - k.chunker.maxChunk, k.text.length, by omega, hstop.le, le_refl _,
        by omega, hrun⟩

/-- **Blank chunks.**  Every blank chunk of a parsed document lies inside a run of whitespace as long as
a chunk may be, exactly when no window that yields a chunk starts inside the whitespace that ends the
text, unless that is as long. -/
theorem blank_chunks {U : FilenameText} {p : Parser} (hp : p ∈ parsers) {source : Bytes}
    {a : ParsedArtifact P} (h : p.parse U P source = .ok a) (chunker : RecursiveTextChunker) :
    ∃ index, indexCompactBoundaries a.boundaries = .ok index ∧
      ((∀ chunk ∈ (chunker.chunk a).items, strip chunk.text = [] →
          InLongRun a.text chunker.maxChunk chunk) ↔
        ∀ w, (a.chunking index chunker).Reached w → (a.chunking index chunker).Yields w →
          strip (a.text.drop w.start) = [] → LongTail a.text chunker.maxChunk) := by
  obtain ⟨t, -, hartifact⟩ := artifact_of_parse hp h
  obtain ⟨bs, hbs⟩ := artifact_represented hp t hartifact
  obtain ⟨index, chunks, hindex, hchunks, hrun⟩ := chunk_windows hbs (length_parsed hp h) chunker
  refine ⟨index, hindex, ?_⟩
  rw [hchunks]
  exact hrun.blank_chunks_iff

/-! ## A document that ends with a line break -/

namespace BlankSample

/-- Chunks of at most two characters that do not overlap. -/
def chunker : RecursiveTextChunker where
  maxChunk := 2
  targetOverlap := 0
  max_pos := by decide
  max_le := by decide
  overlap_lt := by decide
  overlap_le := Nat.zero_le _

/-- A document that ends with whitespace that is shorter than a chunk. -/
def text : Str := "ab\n".toList

/-- A document with whitespace of two chunks inside. -/
def blankLines : Str := "ab\n \n\nc".toList

/-- Its packed boundaries, the two paragraphs. -/
def blankLinesTable : PackedTable :=
  ⟨[⟨boundaryCodeByKind .paragraph, 0, 2, 0, levelCode none⟩,
    ⟨boundaryCodeByKind .paragraph, 6, 1, 0, levelCode none⟩], [⟨0, 2, 1, 0, 0, 2⟩], [], [], []⟩

/-- A run over a document with these boundaries. -/
def chunking (text : Str) (table : PackedTable) : Chunking Platform.ascii where
  text := text
  parserName := plainTextParser.name
  index := (indexCompactBoundaries table).toOption.getD (indexPlainBoundaries [])
  chunker := chunker

theorem parse {text : Str} {table : PackedTable} (hsize : (encode text).length ≤ maxDocumentBytes)
    (haccepted : TextAccepted text) (hnormalized : normalizedText text = text)
    (hboundaries : plainTextParser.boundaries text = .ok table)
    (hcheck : checkArtifact text table plainTextParser.name plainTextParser.version = .ok ()) :
    ∃ a : ParsedArtifact Platform.ascii,
      plainTextParser.parse .ascii .ascii (encode text) = .ok a ∧
      plainTextParser.artifact .ascii text = .ok a := by
  obtain ⟨a, ha⟩ := @artifact_isOk .ascii plainTextParser text table hboundaries hcheck
  refine ⟨a, (parse_eq_ok (by simp [parsers])).mpr ⟨hsize, text, rfl, haccepted, ?_⟩, ha⟩
  rw [hnormalized]
  exact ha

/-- The run that the theorems speak of. -/
theorem chunking_eq {text : Str} {table : PackedTable} {a : ParsedArtifact Platform.ascii}
    {index : BoundaryIndex} (htable : plainTextParser.boundaries text = .ok table)
    (ha : plainTextParser.artifact .ascii text = .ok a)
    (hindex : indexCompactBoundaries a.boundaries = .ok index) :
    a.chunking index chunker = chunking text table := by
  obtain ⟨htext, hboundaries⟩ := artifact_eq_ok ha
  rw [Except.ok.inj (hboundaries.symm.trans htable)] at hindex
  rw [ParsedArtifact.chunking, htext, artifact_parserName ha, chunking, hindex]
  rfl

/-- In both documents the second window starts at the line break. -/
theorem reached {text : Str} {table : PackedTable} (hlast : ¬(chunking text table).Last ⟨0, 0⟩)
    (hnext : (chunking text table).next ⟨0, 0⟩ = ⟨2, 2⟩) : (chunking text table).Reached ⟨2, 2⟩ := by
  rw [← hnext]
  exact Chunking.reached_first.next hlast

/-- The windows of the document with blank lines: the second and the third are blank. -/
def windows : List Window := [⟨0, 0⟩, ⟨2, 2⟩, ⟨4, 4⟩, ⟨6, 6⟩]

theorem mem_windows {w : Window} (h : (chunking blankLines blankLinesTable).Reached w) :
    w ∈ windows := by
  have hnext : ∀ w ∈ windows, ¬(chunking blankLines blankLinesTable).Last w →
      (chunking blankLines blankLinesTable).next w ∈ windows := by decide +kernel
  exact h.induction_on List.mem_cons_self fun w _ hw hlast => hnext w hw hlast

end BlankSample

/-- The last chunk of a document is a line break, in a run of whitespace shorter than a chunk. -/
theorem blank_last_chunk : ∃ (a : ParsedArtifact Platform.ascii) (chunk : Chunk Platform.ascii),
    plainTextParser.parse .ascii .ascii (encode "ab\n".toList) = .ok a ∧
    RecursiveTextChunker.make 2 0 = .ok BlankSample.chunker ∧
    chunk ∈ (BlankSample.chunker.chunk a).items ∧ strip chunk.text = [] ∧
    ¬ InLongRun a.text BlankSample.chunker.maxChunk chunk := by
  have hboundaries : plainTextParser.boundaries BlankSample.text = .ok (oneParagraph 2) := by rfl
  obtain ⟨a, hparse, ha⟩ := BlankSample.parse (by decide) ⟨by decide, by decide, by decide⟩ rfl
    hboundaries (by rfl)
  have hp : plainTextParser ∈ parsers := by simp [parsers]
  obtain ⟨t, -, hartifact⟩ := artifact_of_parse hp hparse
  obtain ⟨bs, hbs⟩ := artifact_represented hp t hartifact
  obtain ⟨index, chunks, hindex, hchunks, hrun⟩ :=
    chunk_windows hbs (length_parsed hp hparse) BlankSample.chunker
  rw [BlankSample.chunking_eq hboundaries ha hindex] at hrun
  obtain ⟨chunk, hchunk, hstart, hstop⟩ := hrun.window_chunk ⟨2, 2⟩
    (BlankSample.reached (by decide +kernel) (by decide +kernel)) (by decide +kernel)
  have hend : (BlankSample.chunking BlankSample.text (oneParagraph 2)).stop ⟨2, 2⟩ = 3 := by
    decide +kernel
  rw [hend] at hstop
  have htext : a.text = BlankSample.text := (artifact_eq_ok ha).1
  refine ⟨a, chunk, hparse, by rfl, by rw [hchunks]; exact hchunk, ?_, ?_⟩
  · rw [hrun.source chunk hchunk, hstart, hstop, htext]
    decide
  · rintro ⟨first, last, hfirst, hlast, hinside, hlong, hblank⟩
    rw [htext] at hinside hblank
    have hlength : BlankSample.text.length = 3 := rfl
    have hmax : BlankSample.chunker.maxChunk = 2 := rfl
    -- the run would have to reach back over a letter
    have hletter := hblank 1 'b' (by omega) (by omega) rfl
    exact absurd hletter (by decide)

open BlankSample in
/-- The blank lines inside a document give blank chunks, all of them in a run as long as a chunk. -/
theorem blank_chunks_blankLines : ∃ a : ParsedArtifact Platform.ascii,
    plainTextParser.parse .ascii .ascii (encode blankLines) = .ok a ∧
    (∃ chunk ∈ (chunker.chunk a).items, strip chunk.text = []) ∧
    ∀ chunk ∈ (chunker.chunk a).items, strip chunk.text = [] →
      InLongRun a.text chunker.maxChunk chunk := by
  have hboundaries : plainTextParser.boundaries blankLines = .ok blankLinesTable := by rfl
  obtain ⟨a, hparse, ha⟩ := BlankSample.parse (by decide) ⟨by decide, by decide, by decide⟩ rfl
    hboundaries (by rfl)
  have hp : plainTextParser ∈ parsers := by simp [parsers]
  have htext : a.text = blankLines := (artifact_eq_ok ha).1
  obtain ⟨t, -, hartifact⟩ := artifact_of_parse hp hparse
  obtain ⟨bs, hbs⟩ := artifact_represented hp t hartifact
  obtain ⟨index', chunks, hindex', hchunks, hrun⟩ :=
    chunk_windows hbs (length_parsed hp hparse) chunker
  rw [chunking_eq hboundaries ha hindex'] at hrun
  obtain ⟨chunk, hchunk, hstart, hstop⟩ := hrun.window_chunk ⟨2, 2⟩
    (reached (by decide +kernel) (by decide +kernel)) (by decide +kernel)
  have hend : (chunking blankLines blankLinesTable).stop ⟨2, 2⟩ = 4 := by decide +kernel
  obtain ⟨index, hindex, hiff⟩ := blank_chunks hp hparse chunker
  refine ⟨a, hparse, ⟨chunk, by rw [hchunks]; exact hchunk, ?_⟩, hiff.mpr ?_⟩
  · rw [hrun.source chunk hchunk, hstart, hstop, hend, htext]
    decide
  · rw [chunking_eq hboundaries ha hindex, htext]
    intro w hreached _ hblank
    have hletter : ∀ w ∈ windows, strip (blankLines.drop w.start) ≠ [] := by decide
    exact absurd hblank (hletter w (mem_windows hreached))

end VeloxRag.Ingestion
