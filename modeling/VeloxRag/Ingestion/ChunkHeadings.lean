import VeloxRag.Ingestion.ChunkBlanks

/-!
# Headings inside chunks

In a Markdown document the chosen end of a window is not after its first heading, so a chunk could
only have a heading inside it where it overlaps the chunk before, and there it would have been inside
that chunk already.  The one exception is a window that is blank up to a heading: it is widened to its
hard end, and goes over that heading and over those that follow it, with the text between them.

## Main definitions

* `BlankOrHeading` — a part of a text that is whitespace and headings.
* `NoHeadingInside` — a chunk whose headings come before its content.
* `headings_inside` — which chunks have a heading after content.
-/

namespace VeloxRag.Ingestion

open VeloxRag.Lib

variable {P : Platform} {bs : List StructuralBoundary}

/-- From one offset to another there is whitespace, or the text of a heading. -/
def BlankOrHeading (text : Str) (bs : List StructuralBoundary) (start stop : ℕ) : Prop :=
  ∀ position c, start ≤ position → position < stop → text[position]? = some c →
    isSpace c = true ∨ ∃ b ∈ bs, b.kind = .heading ∧ b.startOffset ≤ position ∧ position < b.endOffset

/-- A heading starts at an offset. -/
def HeadingAt (bs : List StructuralBoundary) (offset : ℕ) : Prop :=
  ∃ b ∈ bs, b.kind = .heading ∧ b.startOffset = offset

/-- A heading that starts strictly inside the chunk has nothing before it in the chunk but whitespace
and headings. -/
def NoHeadingInside (text : Str) (bs : List StructuralBoundary) (chunk : Chunk P) : Prop :=
  ∀ offset, HeadingAt bs offset → chunk.startOffset < offset → offset < chunk.endOffset →
    BlankOrHeading text bs chunk.startOffset offset

namespace BlankOrHeading

variable {text : Str} {a b c d : ℕ}

theorem mono (h : BlankOrHeading text bs a c) (hstart : a ≤ b) : BlankOrHeading text bs b c :=
  fun position x hb hc hx => h position x (hstart.trans hb) hc hx

theorem of_blank (h : BlankBetween text a b) : BlankOrHeading text bs a b :=
  fun position x ha hb hx => .inl (h position x ha hb hx)

/-- Two parts that meet. -/
theorem trans (h : BlankOrHeading text bs a b) (h' : BlankOrHeading text bs b c) :
    BlankOrHeading text bs a c := by
  intro position x hstart hstop hx
  by_cases hfirst : position < b
  · exact h position x hstart hfirst hx
  · exact h' position x (Nat.not_lt.mp hfirst) hstop hx

end BlankOrHeading

/-! ## Headings of an index -/

theorem mem_headings {offset : ℕ} : offset ∈ distinctPoints [.heading] .starts bs ↔
    HeadingAt bs offset := by
  rw [distinctPoints, mem_dedupRuns, boundaryPoints, List.mem_flatMap]
  constructor
  · rintro ⟨b, hb, hoffset⟩
    split at hoffset
    · rename_i hkind
      exact ⟨b, hb, List.mem_singleton.mp hkind, (List.mem_singleton.mp hoffset).symm⟩
    · cases hoffset
  · rintro ⟨b, hb, hkind, rfl⟩
    refine ⟨b, hb, ?_⟩
    rw [if_pos (by rw [hkind]; exact List.mem_singleton_self _)]
    exact List.mem_singleton_self _

/-- The first heading of a window is not after any other. -/
theorem IndexReads.firstHeading_le {index : BoundaryIndex} (h : IndexReads index bs)
    (horder : Ordered bs) {lo hi offset : ℕ} (hheading : HeadingAt bs offset) (hlo : lo ≤ offset)
    (hhi : offset < hi) : ∃ first, firstPoint index.headings lo hi = some first ∧ first ≤ offset := by
  have hinc : Increasing (distinctPoints [.heading] .starts bs) := distinctPoints_increasing horder
  rw [h.headings.firstPoint_eq hinc]
  exact firstIn_le hinc (mem_headings.mpr hheading) hlo hhi

theorem IndexReads.containsHeading {index : BoundaryIndex} (h : IndexReads index bs)
    (horder : Ordered bs) {offset : ℕ} :
    containsPoint index.headings offset = true ↔ HeadingAt bs offset := by
  rw [h.headings.containsPoint_eq (distinctPoints_increasing horder), decide_eq_true_eq, mem_headings]

namespace Chunking

variable {k : Chunking P} {w : Window}

/-- **The chosen end** is not after a heading that the chunk before does not reach. -/
theorem chosen_le_heading (h : IndexReads k.index bs) (horder : Ordered bs)
    (hname : k.parserName = markdownTextV1) (hin : k.InText w) {offset : ℕ}
    (hheading : HeadingAt bs offset) (hafter : w.previousEnd < offset) (hinside : offset ≤ k.hardEnd w) :
    (k.chosen w).1 ≤ offset := by
  obtain ⟨hprevious, -⟩ := hin
  obtain ⟨first, hfirst, hle⟩ := h.firstHeading_le horder hheading
    (show max w.start w.previousEnd + 1 ≤ offset by omega)
    (show offset < k.hardEnd w + 1 by omega)
  rw [chosen, chooseEnd, if_pos hname, hfirst]
  exact hle

/-- The next window does not start before a heading at the end of the chunk. -/
theorem nextStart_of_heading (h : IndexReads k.index bs) (horder : Ordered bs)
    (hheading : HeadingAt bs (k.stop w)) : k.nextStart w = k.stop w := by
  rw [nextStart]
  split
  · rfl
  · rw [chooseOverlapStart, if_pos ((h.containsHeading horder).mpr hheading)]

/-- Where a widened window has a heading after the one it was cut at, nothing but whitespace and
headings is between the two. -/
def HeadingsTogether (k : Chunking P) (bs : List StructuralBoundary) (w : Window) : Prop :=
  k.Widened w → ∀ offset, HeadingAt bs offset → (k.chosen w).1 < offset → offset < k.hardEnd w →
    BlankOrHeading k.text bs (k.chosen w).1 offset

/-- The headings from a window up to the end of the chunk before it come before any content. -/
def OverlapClear (k : Chunking P) (bs : List StructuralBoundary) (w : Window) : Prop :=
  ∀ offset, HeadingAt bs offset → w.start < offset → offset ≤ w.previousEnd →
    BlankOrHeading k.text bs w.start offset

/-- **One window**: a heading inside its chunk has no content before it. -/
theorem OverlapClear.inside (hclear : k.OverlapClear bs w) (h : IndexReads k.index bs)
    (horder : Ordered bs) (hname : k.parserName = markdownTextV1) (hin : k.InText w)
    (htogether : k.HeadingsTogether bs w) {offset : ℕ} (hheading : HeadingAt bs offset)
    (hstart : w.start < offset) (hstop : offset < k.stop w) :
    BlankOrHeading k.text bs w.start offset := by
  by_cases hoverlap : offset ≤ w.previousEnd
  · exact hclear offset hheading hstart hoverlap
  have hhard := (stop_bounds h horder hin).2
  have hchosen := chosen_le_heading h horder hname hin hheading (by omega) (by omega)
  -- the chunk goes over the heading, so the window was widened
  have hwidened : k.Widened w := by
    by_contra hnot
    rw [stop_of_not_widened hnot] at hstop
    omega
  have hblank : BlankOrHeading k.text bs w.start (k.chosen w).1 :=
    .of_blank (strip_slice_eq_nil.mp hwidened.1)
  rcases Nat.lt_or_eq_of_le hchosen with hlater | hfirst
  · exact hblank.trans (htogether hwidened offset hheading hlater (by omega))
  · rw [← hfirst]
    exact hblank

/-- **One step** keeps the overlap clear. -/
theorem OverlapClear.next (hclear : k.OverlapClear bs w) (h : IndexReads k.index bs)
    (horder : Ordered bs) (hname : k.parserName = markdownTextV1) (hin : k.InText w)
    (htogether : k.Yields w → k.HeadingsTogether bs w) : k.OverlapClear bs (k.next w) := by
  by_cases hyields : k.Yields w
  · obtain ⟨hforward, -⟩ := nextStart_bounds h horder hin
    rw [next_of_yields hyields]
    intro offset hheading hstart hstop
    dsimp only at hstart hstop
    rcases Nat.lt_or_eq_of_le hstop with hinside | rfl
    · exact (hclear.inside h horder hname hin (htogether hyields) hheading (by omega) hinside).mono
        hforward.le
    · rw [nextStart_of_heading h horder hheading] at hstart
      omega
  · obtain ⟨hforward, -⟩ := reducedStart_bounds h horder hin hyields
    rw [next_of_not_yields hyields]
    intro offset hheading hstart hstop
    dsimp only at hstart hstop
    exact (hclear offset hheading (by omega) hstop).mono hforward.le

end Chunking

/-- The chunks of a run have no heading after content exactly when the widened windows have none. -/
theorem ChunkRun.headings_inside_iff {a : ParsedArtifact P} {k : Chunking P} {chunks : List (Chunk P)}
    (h : ChunkRun a bs k chunks) (hname : k.parserName = markdownTextV1) :
    (∀ chunk ∈ chunks, NoHeadingInside k.text bs chunk) ↔
      ∀ w, k.Reached w → k.Yields w → k.HeadingsTogether bs w := by
  have htext : k.text ≠ [] := by
    rw [h.text_eq]
    exact a.valid_fields.1
  constructor
  · intro hchunks w hw hyields hwidened offset hheading hafter hinside
    have hin := hw.inText h.reads h.ordered htext
    obtain ⟨chunk, hchunk, hstart, hstop⟩ := h.window_chunk w hw hyields
    have hchosen := (Chunking.chosen_bounds h.reads h.ordered hin).1
    rw [Chunking.stop_of_widened hwidened] at hstop
    have := hchunks chunk hchunk offset hheading (by omega) (by omega)
    rw [hstart] at this
    exact this.mono hchosen.le
  · intro hwindows chunk hchunk offset hheading hafter hinside
    obtain ⟨w, hw, hyields, hstart, hstop⟩ := h.chunk_window chunk hchunk
    have hclear : k.OverlapClear bs w := by
      refine hw.induction_on ?_ ?_
      · intro offset' _ hpos hzero
        exact absurd hzero (Nat.not_le.mpr hpos)
      · intro w' hw' hclear' _
        exact hclear'.next h.reads h.ordered hname (hw'.inText h.reads h.ordered htext)
          (hwindows w' hw')
    rw [hstart] at hafter ⊢
    rw [hstop] at hinside
    exact hclear.inside h.reads h.ordered hname (hw.inText h.reads h.ordered htext)
      (hwindows w hw hyields) hheading hafter hinside

namespace HeadingSample

def text : Str := "\n# A\nx\n# B\ny".toList

/-- The boundaries of the document. -/
def boundaries : List StructuralBoundary :=
  [⟨.heading, 1, 4, [['A']], some 1, by decide⟩, ⟨.paragraph, 5, 6, [['A']], none, by decide⟩,
    ⟨.heading, 7, 10, [['B']], some 1, by decide⟩, ⟨.paragraph, 11, 12, [['B']], none, by decide⟩]

/-- The largest sizes that the constructor accepts. -/
def chunker : RecursiveTextChunker where
  maxChunk := 1200
  targetOverlap := 150
  max_pos := by decide
  max_le := by decide
  overlap_lt := by decide
  overlap_le := by decide

/-- The boundaries, packed. -/
def table : PackedTable := (PackedTable.fromSequence boundaries).toOption.getD (oneParagraph 1)

/-- A run over the document. -/
def chunking : Chunking Platform.ascii where
  text := text
  parserName := markdownTextParser.name
  index := (indexCompactBoundaries table).toOption.getD (indexPlainBoundaries [])
  chunker := chunker

theorem parse : ∃ a : ParsedArtifact Platform.ascii,
    markdownTextParser.parse .ascii .ascii (encode text) = .ok a ∧
    markdownTextParser.artifact .ascii text = .ok a ∧ a.boundaries = table ∧
    a.Represented boundaries := by
  have hordered : Ordered boundaries := by decide
  obtain ⟨table', blocks, nodes, hpacked, hrep⟩ :=
    fromSequence_represents hordered ⟨by decide, by decide, by decide⟩
  have htable' : PackedTable.fromSequence boundaries = .ok table := by rfl
  rw [Except.ok.inj (hpacked.symm.trans htable')] at hrep
  have hmarkdown : markdownTextParser.boundaries text = .ok table := by rfl
  have hinside : ∀ b ∈ boundaries, b.endOffset ≤ text.length := by decide
  have hcheck : checkArtifact text table markdownTextParser.name markdownTextParser.version =
      .ok () := by
    rw [checkArtifact, if_neg (by decide)]
    exact hrep.validateForTextLength hordered hinside
  obtain ⟨a, ha⟩ := @artifact_isOk .ascii markdownTextParser text table hmarkdown hcheck
  obtain ⟨htext, hboundaries⟩ := artifact_eq_ok ha
  have htable : a.boundaries = table := Except.ok.inj (hboundaries.symm.trans hmarkdown)
  refine ⟨a, ?_, ha, htable, ⟨blocks, nodes, by rw [htable]; exact hrep⟩, hordered, ?_⟩
  · apply (parse_eq_ok (by simp [parsers])).mpr
    exact ⟨by decide, text, rfl, ⟨by decide, by decide, by decide⟩, ha⟩
  · rw [htext]
    exact hinside

end HeadingSample

end VeloxRag.Ingestion
