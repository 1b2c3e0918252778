import VeloxRag.Ingestion.BoundaryIndexSpec
import VeloxRag.Ingestion.Chunker

/-!
# What the chunker yields

The chunks tile the text: they are in order, each starts inside the one before it or where
it ends, each ends after the one before it, and together they reach from the first
character to the last.  The choices of an end and of an overlap are only known to stay
inside their windows, which is enough: the argument does not depend on which structural
point, line or sentence was preferred.

The chunker asks the boundary index nothing but its queries, so two indexes that answer
alike give the same chunks.

## Main definitions

* `TilesText` — a sequence of chunks that tiles a text.
* `chunk_tiles` — the chunks of every artifact tile its text.
* `compactBoundaries_chunk_eq` — packed and plain boundaries give the same chunks.
-/

namespace VeloxRag.Ingestion

open VeloxRag.Lib

variable {P : Platform} {U : UnicodeData} {text parserName : Str} {index : BoundaryIndex}
  {bs : List StructuralBoundary}

/-! ## Windows -/

/-- What the chunker relies on of an index: a point it finds lies in the window it asked for. -/
structure PointsInWindow (points : Points) : Prop where
  first : ∀ {lo hi x}, firstPoint points lo hi = some x → lo ≤ x ∧ x < hi
  last : ∀ {lo hi x}, lastPoint points lo hi = some x → lo < x ∧ x ≤ hi

theorem Points.Reads.inWindow {points : Points} {xs : List ℕ} (h : points.Reads xs)
    (hinc : Increasing xs) : PointsInWindow points where
  first := by
    intro lo hi x hx
    rw [h.firstPoint_eq hinc] at hx
    have := firstIn_bounds hx
    omega
  last := by
    intro lo hi x hx
    rw [h.lastPoint_eq hinc] at hx
    have := lastIn_bounds hx
    omega

theorem IndexReads.inWindow (h : IndexReads index bs) (horder : Ordered bs) :
    PointsInWindow index.headings ∧ PointsInWindow index.codeBlocks ∧
      PointsInWindow index.paragraphs ∧ PointsInWindow index.listItems :=
  ⟨h.headings.inWindow (distinctPoints_increasing horder),
    h.codeBlocks.inWindow (distinctPoints_increasing horder),
    h.paragraphs.inWindow (distinctPoints_increasing horder),
    h.listItems.inWindow (distinctPoints_increasing horder)⟩

/-- The structural points of either parser. -/
theorem structuralPoints_inWindow (h : IndexReads index bs) (horder : Ordered bs) :
    ∀ points ∈ structuralPoints parserName index, PointsInWindow points.1 := by
  obtain ⟨_, hcode, hpara, hlist⟩ := h.inWindow horder
  intro points hp
  unfold structuralPoints at hp
  split at hp <;> simp only [List.mem_cons, List.not_mem_nil, or_false] at hp
  · rcases hp with rfl | rfl | rfl <;> assumption
  · rw [hp]
    exact hpara

theorem overlapPoints_inWindow (h : IndexReads index bs) (horder : Ordered bs) :
    ∀ points ∈ overlapPoints parserName index, PointsInWindow points := by
  obtain ⟨hhead, hcode, hpara, hlist⟩ := h.inWindow horder
  intro points hp
  unfold overlapPoints at hp
  split at hp <;> simp only [List.mem_cons, List.not_mem_nil, or_false] at hp
  · rcases hp with rfl | rfl | rfl | rfl <;> assumption
  · rw [hp]
    exact hpara

/-! ## The choices stay inside their windows -/

theorem chooseTextEnd_bounds {start previousEnd minimumEnd hardEnd : ℕ} (hprev : start ≤ previousEnd)
    (hmin : minimumEnd ≤ hardEnd) (hstart : start < hardEnd) :
    start < (chooseTextEnd U text parserName start previousEnd minimumEnd hardEnd).1 ∧
      (chooseTextEnd U text parserName start previousEnd minimumEnd hardEnd).1 ≤ hardEnd := by
  have hnewline : ∀ {lower upper point : ℕ},
      (if parserName = markdownTextV1 then none else lastNewlinePoint text lower upper) =
        some point → lower < point ∧ point ≤ upper := by
    intro lower upper point h
    split at h
    · cases h
    · exact lastNewlinePoint_bounds h
  simp only [chooseTextEnd]
  split
  · rename_i h
    have := hnewline h
    omega
  split
  · rename_i h
    have := hnewline h
    omega
  split
  · rename_i sentence h
    have := lastSentenceEnd_bounds h
    exact alignSentenceBoundary_bounds (by omega) (by omega)
  split
  · rename_i sentence h
    have := lastSentenceEnd_bounds h
    exact alignSentenceBoundary_bounds (by omega) (by omega)
  · exact safeEnd_bounds hstart

/-- **The end of a chunk** is after its start and not after the hard end of the window. -/
theorem chooseEnd_bounds (h : IndexReads index bs) (horder : Ordered bs)
    {start previousEnd minimumEnd hardEnd : ℕ} {finalWindow : Bool} (hprev : start ≤ previousEnd)
    (hmin : finalWindow = false → minimumEnd ≤ hardEnd) (hstart : start < hardEnd) :
    start < (chooseEnd U text parserName index start previousEnd minimumEnd hardEnd finalWindow).1 ∧
      (chooseEnd U text parserName index start previousEnd minimumEnd hardEnd finalWindow).1 ≤
        hardEnd := by
  simp only [chooseEnd]
  split
  · rename_i heading hh
    split at hh
    · have := (h.inWindow horder).1.first hh
      omega
    · cases hh
  split
  · exact ⟨hstart, le_refl _⟩
  rename_i hfinal
  have hmin := hmin (by simpa using hfinal)
  split
  · rename_i selected hs
    obtain ⟨points, hp, hpoint⟩ := List.exists_of_findSome?_eq_some hs
    have := (structuralPoints_inWindow h horder points hp).last hpoint
    omega
  split
  · rename_i selected hs
    obtain ⟨points, hp, hpoint⟩ := List.exists_of_findSome?_eq_some hs
    simp only [earlyPoint] at hpoint
    split at hpoint
    · cases hpoint
    · have := (structuralPoints_inWindow h horder points hp).last hpoint
      omega
  · exact chooseTextEnd_bounds hprev hmin hstart

/-- **The start of an overlap** is after the start of its chunk and not after the end. -/
theorem chooseOverlapStart_bounds (h : IndexReads index bs) (horder : Ordered bs)
    {chunkStart overlapTarget stop : ℕ} (hstart : chunkStart < overlapTarget)
    (hstop : overlapTarget ≤ stop) :
    chunkStart < chooseOverlapStart U text parserName index chunkStart overlapTarget stop ∧
      chooseOverlapStart U text parserName index chunkStart overlapTarget stop ≤ stop := by
  simp only [chooseOverlapStart]
  split
  · omega
  split
  · rename_i selected hs
    obtain ⟨points, hp, hpoint⟩ := List.exists_of_findSome?_eq_some hs
    have := (overlapPoints_inWindow h horder points hp).first hpoint
    omega
  split
  · rename_i newline hn
    split at hn
    · cases hn
    · have := firstNewlinePoint_bounds (by omega) hn
      omega
  split
  · rename_i sentence hs
    have := firstSentenceEnd_bounds hs
    exact alignSentenceBoundary_bounds (by omega) (by omega)
  · have := @safeStart_bounds U text overlapTarget stop chunkStart hstop
    omega

/-! ## Titles -/

theorem validateTitles_valid {total : ℕ} {titles : List Str} (h : validateTitles total titles = .ok ()) :
    ∀ title ∈ titles, title ≠ [] ∧ '\x00' ∉ title := by
  induction titles generalizing total with
  | nil => simp
  | cons title titles ih =>
      rw [validateTitles] at h
      split at h
      · cases h
      rename_i hvalid
      split at h
      · cases h
      split at h
      · cases h
      · rw [List.forall_mem_cons]
        exact ⟨by simpa only [not_or] using hvalid, ih h⟩

/-- The titles above an offset are those of a boundary, or none. -/
theorem titlesAbove_valid (bs : List StructuralBoundary) (offset : ℕ) :
    ∀ title ∈ titlesAbove bs offset, title ≠ [] ∧ '\x00' ∉ title := by
  intro title ht
  unfold titlesAbove at ht
  cases hf : bs.reverse.find? (fun b => decide (b.startOffset ≤ offset)) with
  | none =>
      rw [hf] at ht
      cases ht
  | some b =>
      rw [hf] at ht
      exact validateTitles_valid b.titlePath_valid title ht

/-! ## Tiling -/

/-- A sequence of chunks that tiles a text, in spans of at most `limit` characters. -/
structure TilesText (text : Str) (limit : ℕ) (chunks : List (Chunk P)) : Prop where
  nonempty : chunks ≠ []
  indices : ∀ i (c : Chunk P), chunks[i]? = some c → c.chunkIndex = i
  first : ∀ c, chunks.head? = some c → c.startOffset = 0
  last : ∀ c, chunks.getLast? = some c → c.endOffset = text.length
  advance : ∀ i (c d : Chunk P), chunks[i]? = some c → chunks[i + 1]? = some d →
    c.startOffset < d.startOffset ∧ d.startOffset ≤ c.endOffset ∧ c.endOffset < d.endOffset
  source : ∀ c ∈ chunks, c.text = slice text c.startOffset c.endOffset ∧
    1 ≤ c.text.length ∧ c.text.length ≤ limit

/-- The rest of a tiling after a chunk that ends at `previousEnd`, from `start` on. -/
def TilesFrom (text : Str) (limit : ℕ) : ℕ → ℕ → ℕ → List (Chunk P) → Prop
  | _, previousEnd, _, [] => previousEnd = text.length
  | start, previousEnd, chunkIndex, c :: cs =>
      (start ≤ c.startOffset ∧ c.startOffset ≤ previousEnd ∧ previousEnd < c.endOffset) ∧
        c.chunkIndex = chunkIndex ∧ c.text = slice text c.startOffset c.endOffset ∧
        c.text.length ≤ limit ∧
        TilesFrom text limit (c.startOffset + 1) c.endOffset (chunkIndex + 1) cs

theorem TilesFrom.mono {limit start start' previousEnd chunkIndex : ℕ} {chunks : List (Chunk P)}
    (hstart : start' ≤ start) (h : TilesFrom text limit start previousEnd chunkIndex chunks) :
    TilesFrom text limit start' previousEnd chunkIndex chunks := by
  cases chunks with
  | nil => exact h
  | cons c cs => exact ⟨⟨le_trans hstart h.1.1, h.1.2⟩, h.2⟩

theorem TilesFrom.indices {limit : ℕ} {chunks : List (Chunk P)} :
    ∀ {start previousEnd chunkIndex : ℕ}, TilesFrom text limit start previousEnd chunkIndex chunks →
    ∀ i (c : Chunk P), chunks[i]? = some c → c.chunkIndex = chunkIndex + i := by
  induction chunks with
  | nil => simp
  | cons c cs ih =>
      intro start previousEnd chunkIndex h i d hd
      cases i with
      | zero =>
          obtain rfl : c = d := by simpa using hd
          exact h.2.1
      | succ i =>
          have := ih h.2.2.2.2 i d (by simpa using hd)
          omega

theorem TilesFrom.advance {limit : ℕ} {chunks : List (Chunk P)} :
    ∀ {start previousEnd chunkIndex : ℕ}, TilesFrom text limit start previousEnd chunkIndex chunks →
    ∀ i (c d : Chunk P), chunks[i]? = some c → chunks[i + 1]? = some d →
      c.startOffset < d.startOffset ∧ d.startOffset ≤ c.endOffset ∧ c.endOffset < d.endOffset := by
  induction chunks with
  | nil => simp
  | cons c cs ih =>
      intro start previousEnd chunkIndex h i x y hx hy
      cases i with
      | zero =>
          obtain rfl : c = x := by simpa using hx
          obtain ⟨ys, rfl⟩ : ∃ ys, cs = y :: ys := by
            cases cs with
            | nil => simp at hy
            | cons z zs => exact ⟨zs, by simpa using hy⟩
          exact h.2.2.2.2.1
      | succ i => exact ih h.2.2.2.2 i x y (by simpa using hx) (by simpa using hy)

theorem TilesFrom.last {limit : ℕ} {chunks : List (Chunk P)} :
    ∀ {start previousEnd chunkIndex : ℕ}, TilesFrom text limit start previousEnd chunkIndex chunks →
    ∀ c, chunks.getLast? = some c → c.endOffset = text.length := by
  induction chunks with
  | nil => simp
  | cons c cs ih =>
      intro start previousEnd chunkIndex h x hx
      cases cs with
      | nil =>
          obtain rfl : c = x := by simpa using hx
          exact h.2.2.2.2
      | cons y ys => exact ih h.2.2.2.2 x (by simpa using hx)

theorem TilesFrom.source {limit : ℕ} {chunks : List (Chunk P)} :
    ∀ {start previousEnd chunkIndex : ℕ}, TilesFrom text limit start previousEnd chunkIndex chunks →
    ∀ c ∈ chunks, c.text = slice text c.startOffset c.endOffset ∧
      1 ≤ c.text.length ∧ c.text.length ≤ limit := by
  induction chunks with
  | nil => simp
  | cons c cs ih =>
      intro start previousEnd chunkIndex h
      rw [List.forall_mem_cons]
      refine ⟨⟨h.2.2.1, ?_, h.2.2.2.1⟩, ih h.2.2.2.2⟩
      have := c.start_lt_end
      rw [c.length_text]
      omega

/-- A tiling from the first character on. -/
theorem TilesFrom.tilesText {limit : ℕ} {chunks : List (Chunk P)} (htext : text ≠ [])
    (h : TilesFrom text limit 0 0 0 chunks) : TilesText text limit chunks where
  nonempty := by
    rintro rfl
    have hlen : 0 = text.length := h
    exact htext (List.length_eq_zero_iff.mp hlen.symm)
  indices := by
    intro i c hc
    have := h.indices i c hc
    omega
  first := by
    intro c hc
    cases chunks with
    | nil => cases hc
    | cons d ds =>
        obtain rfl : d = c := by simpa using hc
        have := h.1
        omega
  last := h.last
  advance := h.advance
  source := h.source

/-! ## The loop -/

/-- **The loop tiles the rest of the text** from every state it reaches. -/
theorem chunkLoop_tiles (chunker : RecursiveTextChunker) (h : IndexReads index bs)
    (horder : Ordered bs) (hnul : '\x00' ∉ text) (hcr : '\r' ∉ text) {Sound : TitleCache → Prop}
    (htitles : ∀ cache offset, Sound cache →
      ∃ cache', titlePathAt index cache offset = .ok (titlesAbove bs offset, cache') ∧ Sound cache')
    (fuel : ℕ) : ∀ state : ChunkState, Sound state.cache → text.length - state.start < fuel →
    state.start ≤ state.previousEnd → state.previousEnd < text.length →
    ∃ chunks : List (Chunk P), chunker.chunkLoop text parserName index fuel state =
        ⟨chunks, .done⟩ ∧
      TilesFrom text chunker.maxChunk state.start state.previousEnd state.chunkIndex chunks := by
  induction fuel with
  | zero =>
      intro state _ hfuel
      omega
  | succ fuel ih =>
      intro state hsound hfuel hprev hinside
      have hmax := chunker.max_pos
      have hoverlap := chunker.overlap_lt
      rw [RecursiveTextChunker.chunkLoop, if_pos (show state.start < text.length by omega)]
      dsimp only
      generalize hhard : min (state.start + chunker.maxChunk) text.length = hardEnd
      have hhardEnd : state.start < hardEnd ∧ hardEnd ≤ text.length ∧
          hardEnd ≤ state.start + chunker.maxChunk := by omega
      have hchosen := @chooseEnd_bounds P.unicode text parserName index bs h horder state.start
        state.previousEnd (state.start + chunker.targetOverlap) hardEnd
        (decide (hardEnd = text.length)) hprev
        (by intro hf; rw [decide_eq_false_iff_not] at hf; omega) hhardEnd.1
      generalize chooseEnd P.unicode text parserName index state.start state.previousEnd
        (state.start + chunker.targetOverlap) hardEnd (decide (hardEnd = text.length)) = chosen
        at hchosen ⊢
      obtain ⟨chosenEnd, suppress⟩ := chosen
      simp only at hchosen ⊢
      by_cases hback : chosenEnd ≤ state.previousEnd
      · -- the window ends inside the chunk before it, and starts later instead
        rw [if_pos hback]
        have hsafe := @safeStart_bounds P.unicode text (state.start + 1) state.previousEnd
          state.start (by omega)
        generalize safeStart P.unicode text (state.start + 1) state.previousEnd state.start = reduced
          at hsafe ⊢
        rw [if_neg (by omega)]
        obtain ⟨chunks, hrun, htiles⟩ := ih { state with start := reduced } hsound
          (by simp only; omega) hsafe.2 hinside
        exact ⟨chunks, hrun, htiles.mono (by simp only; omega)⟩
      · rw [if_neg hback]
        obtain ⟨cache, htitle, hsound'⟩ := htitles state.cache state.start hsound
        generalize hstop : (if strip (slice text state.start chosenEnd) = [] ∧ chosenEnd < hardEnd
          then hardEnd else chosenEnd) = stop
        have hstopBounds : state.previousEnd < stop ∧ state.start < stop ∧ stop ≤ hardEnd := by
          rw [← hstop]
          split <;> omega
        obtain ⟨c, hc, hindex, hstart, hend, hsource, _⟩ := @Chunk.fromSource_ok P text hnul hcr
          state.start stop hstopBounds.2.1 (by omega) (titlesAbove bs state.start)
          (titlesAbove_valid bs state.start) state.chunkIndex
        have hlimit : c.text.length ≤ chunker.maxChunk := by
          rw [c.length_text, hstart, hend]
          omega
        rw [htitle]
        simp only [hc]
        by_cases hlast : stop = text.length
        · rw [if_pos hlast]
          refine ⟨[c], rfl, ⟨?_, ?_, ?_⟩, hindex, ?_, hlimit, ?_⟩
          · omega
          · omega
          · omega
          · rw [hsource, hstart, hend]
          · show c.endOffset = text.length
            omega
        · rw [if_neg hlast]
          have hnext : state.start < (if suppress = true then stop else
              chooseOverlapStart P.unicode text parserName index state.start
                (max (state.start + 1) (stop - chunker.targetOverlap)) stop) ∧
              (if suppress = true then stop else
              chooseOverlapStart P.unicode text parserName index state.start
                (max (state.start + 1) (stop - chunker.targetOverlap)) stop) ≤ stop := by
            split
            · omega
            · exact chooseOverlapStart_bounds h horder (by omega) (by omega)
          generalize (if suppress = true then stop else
              chooseOverlapStart P.unicode text parserName index state.start
                (max (state.start + 1) (stop - chunker.targetOverlap)) stop) = nextStart at hnext
          rw [if_neg (by omega)]
          obtain ⟨chunks, hrun, htiles⟩ := ih ⟨nextStart, stop, state.chunkIndex + 1, cache⟩ hsound'
            (by simp only; omega) hnext.2 (by simp only; omega)
          refine ⟨c :: chunks, by rw [hrun]; rfl, ⟨?_, ?_, ?_⟩, hindex, ?_, hlimit, ?_⟩
          · omega
          · omega
          · omega
          · rw [hsource, hstart, hend]
          · rw [hstart, hend]
            exact htiles.mono (by simp only; omega)

/-! ## The chunks of an artifact -/

/-- Boundaries in order, none empty: there are no more of them than characters. -/
theorem OrderedFrom.length_le {last bound : ℕ} {bs : List StructuralBoundary}
    (h : OrderedFrom last bs) (hlast : last ≤ bound) (hinside : ∀ b ∈ bs, b.endOffset ≤ bound) :
    last + bs.length ≤ bound := by
  induction bs generalizing last with
  | nil => simpa using hlast
  | cons b bs ih =>
      have hb := hinside b (by simp)
      have := ih h.2 hb fun x hx => hinside x (by simp [hx])
      have := b.start_lt_end
      have := h.1
      rw [List.length_cons]
      omega

/-- The packed index of boundaries inside a text of fewer than `2 ^ 31` characters. -/
theorem indexCompactBoundaries_represents {t : PackedTable} {blocks : List Block}
    {nodes : List TitleNode} {textLength : ℕ} (hrep : Represents t blocks nodes bs)
    (horder : Ordered bs) (hinside : ∀ b ∈ bs, b.endOffset ≤ textLength)
    (hsize : textLength < 2 ^ 31) :
    ∃ index, indexCompactBoundaries t = .ok index ∧ IndexReads index bs := by
  have hcount := horder.length_le (Nat.zero_le textLength) hinside
  refine indexCompactBoundaries_reads hrep horder (show 2 * textLength < 2 ^ 32 by omega) ?_ (by omega)
  intro b hb
  have := hinside b hb
  omega

theorem indexCompactBoundaries_ok {t : PackedTable} {textLength : ℕ}
    (hpacked : PackedTable.fromSequence bs = .ok t) (horder : Ordered bs) (hpack : Packable bs)
    (hinside : ∀ b ∈ bs, b.endOffset ≤ textLength) (hsize : textLength < 2 ^ 31) :
    ∃ index, indexCompactBoundaries t = .ok index ∧ IndexReads index bs := by
  obtain ⟨t', blocks, nodes, hok, hrep⟩ := fromSequence_represents horder hpack
  obtain rfl : t = t' := Except.ok.inj (hpacked.symm.trans hok)
  exact indexCompactBoundaries_represents hrep horder hinside hsize

/-- The chunks of an artifact whose columns represent boundaries in order and inside the text. -/
theorem Represents.chunk_tilesText {artifact : ParsedArtifact P} {blocks : List Block}
    {nodes : List TitleNode} (hrep : Represents artifact.boundaries blocks nodes bs)
    (horder : Ordered bs) (hinside : ∀ b ∈ bs, b.endOffset ≤ artifact.text.length)
    (hsize : artifact.text.length < 2 ^ 31) (chunker : RecursiveTextChunker) :
    ∃ chunks, chunker.chunk artifact = ⟨chunks, .done⟩ ∧
      TilesText artifact.text chunker.maxChunk chunks := by
  obtain ⟨htext, hnul, hcr, _⟩ := artifact.valid_fields
  obtain ⟨index, hindex, hreads⟩ := indexCompactBoundaries_represents hrep horder hinside hsize
  obtain ⟨Sound, hnew, htitles⟩ := hreads.titles
  have hpos : 0 < artifact.text.length := List.length_pos_of_ne_nil htext
  obtain ⟨chunks, hrun, htiles⟩ := @chunkLoop_tiles P artifact.text artifact.parserName index bs
    chunker hreads horder hnul hcr Sound htitles (artifact.text.length + 1) ⟨0, 0, 0, .new⟩ hnew
    (by simp only; omega) (le_refl 0) hpos
  refine ⟨chunks, ?_, htiles.tilesText htext⟩
  simp only [RecursiveTextChunker.chunk, RecursiveTextChunker.chunkText, if_neg htext,
    indexBoundaries, hindex, hrun]

/-- **The chunks of every parsed artifact tile its text.**  For every parser name and every pair
of sizes the constructor accepts, the chunker ends without an exception, and its chunks are
numbered from zero, reach from the first character to the last, start strictly later and end
strictly later one after the other without a gap, and are the source text of their spans, of one
to `maxChunk` characters.  A document has far fewer than `2 ^ 31` characters; from there on the
packed index would overflow its columns. -/
theorem chunk_tiles (chunker : RecursiveTextChunker) (artifact : ParsedArtifact P)
    (h : artifact.Holds bs) (hsize : artifact.text.length < 2 ^ 31) :
    ∃ chunks, chunker.chunk artifact = ⟨chunks, .done⟩ ∧
      TilesText artifact.text chunker.maxChunk chunks := by
  obtain ⟨t, blocks, nodes, hok, hrep⟩ := fromSequence_represents h.ordered h.packable
  rw [Except.ok.inj (hok.symm.trans h.packed)] at hrep
  exact hrep.chunk_tilesText h.ordered h.inside hsize chunker

/-- The text of which `periodicSample` are the boundaries. -/
def periodicText : Str := "# A\n- b\n- c\n- d\n\nabc".toList

/-- Chunks of at most eight characters that overlap by three. -/
def smallChunker : RecursiveTextChunker where
  maxChunk := 8
  targetOverlap := 3
  max_pos := by decide
  max_le := by decide
  overlap_lt := by decide
  overlap_le := by decide

theorem chunk_tiles_periodicText :
    ∃ (artifact : ParsedArtifact Platform.ascii) (chunks : List (Chunk Platform.ascii)),
      artifact.text = periodicText ∧ smallChunker.chunk artifact = ⟨chunks, .done⟩ ∧
        TilesText periodicText 8 chunks := by
  have hpack : Packable periodicSample := ⟨by decide, by decide, by decide⟩
  obtain ⟨artifact, _, htext, _, _, _, hholds⟩ := @ParsedArtifact.make_holds Platform.ascii
    periodicText periodicSample markdownTextV1 ['1'] (by decide) (by decide) (by decide) (by decide)
    (by decide) (by decide) hpack (by decide) Mapping.empty
  obtain ⟨chunks, hrun, htiles⟩ :=
    chunk_tiles smallChunker artifact hholds (by rw [htext]; decide)
  rw [htext] at htiles
  exact ⟨artifact, chunks, htext, hrun, htiles⟩

/-! ## Packed and plain boundaries -/

/-- Two sequences of points that every query answers alike. -/
structure SamePoints (p q : Points) : Prop where
  len : p.len = q.len
  getItem : ∀ index, p.getItem index = q.getItem index
  getSlice : ∀ s, p.getSlice s = q.getSlice s
  first : ∀ lo hi, firstPoint p lo hi = firstPoint q lo hi
  last : ∀ lo hi, lastPoint p lo hi = lastPoint q lo hi
  contains : ∀ offset, containsPoint p offset = containsPoint q offset

theorem Points.Reads.same {p q : Points} {xs : List ℕ} (hp : p.Reads xs) (hq : q.Reads xs)
    (hinc : Increasing xs) : SamePoints p q where
  len := by rw [hp.len_eq, hq.len_eq]
  getItem := fun index => by rw [hp.getItem_eq, hq.getItem_eq]
  getSlice := fun s => by rw [hp.getSlice_eq, hq.getSlice_eq]
  first := fun lo hi => by rw [hp.firstPoint_eq hinc, hq.firstPoint_eq hinc]
  last := fun lo hi => by rw [hp.lastPoint_eq hinc, hq.lastPoint_eq hinc]
  contains := fun offset => by rw [hp.containsPoint_eq hinc, hq.containsPoint_eq hinc]

/-- The title paths of a run of lookups, each with the cache the one before it left. -/
def titleLookups (index : BoundaryIndex) :
    TitleCache → List ℕ → Except ParserError (List (List Str))
  | _, [] => .ok []
  | cache, offset :: offsets => do
      let (titlePath, cache) ← titlePathAt index cache offset
      let rest ← titleLookups index cache offsets
      pure (titlePath :: rest)

/-- Two indexes that every query answers alike. -/
structure SameAnswers (i j : BoundaryIndex) : Prop where
  headings : SamePoints i.headings j.headings
  structuralStarts : SamePoints i.structuralStarts j.structuralStarts
  codeBlocks : SamePoints i.codeBlocks j.codeBlocks
  paragraphs : SamePoints i.paragraphs j.paragraphs
  paragraphStarts : SamePoints i.paragraphStarts j.paragraphStarts
  paragraphEnds : SamePoints i.paragraphEnds j.paragraphEnds
  listItems : SamePoints i.listItems j.listItems
  paragraphEnd : ∀ offset, paragraphEndStartingAt i offset = paragraphEndStartingAt j offset
  titles : ∀ offsets, titleLookups i .new offsets = titleLookups j .new offsets

/-- An index looks titles up as its boundaries have them. -/
theorem titleLookups_eq {Sound : TitleCache → Prop}
    (htitles : ∀ cache offset, Sound cache →
      ∃ cache', titlePathAt index cache offset = .ok (titlesAbove bs offset, cache') ∧ Sound cache')
    (offsets : List ℕ) : ∀ cache, Sound cache →
    titleLookups index cache offsets = .ok (offsets.map (titlesAbove bs)) := by
  induction offsets with
  | nil => intro cache _; rfl
  | cons offset offsets ih =>
      intro cache hsound
      obtain ⟨cache', heq, hsound'⟩ := htitles cache offset hsound
      simp only [titleLookups, heq, ih cache' hsound', bind, Except.bind]
      rfl

theorem IndexReads.same {i j : BoundaryIndex} (hi : IndexReads i bs) (hj : IndexReads j bs)
    (horder : Ordered bs) : SameAnswers i j where
  headings := hi.headings.same hj.headings (distinctPoints_increasing horder)
  structuralStarts := hi.structuralStarts.same hj.structuralStarts (distinctPoints_increasing horder)
  codeBlocks := hi.codeBlocks.same hj.codeBlocks (distinctPoints_increasing horder)
  paragraphs := hi.paragraphs.same hj.paragraphs (distinctPoints_increasing horder)
  paragraphStarts := hi.paragraphStarts.same hj.paragraphStarts (distinctPoints_increasing horder)
  paragraphEnds := hi.paragraphEnds.same hj.paragraphEnds (distinctPoints_increasing horder)
  listItems := hi.listItems.same hj.listItems (distinctPoints_increasing horder)
  paragraphEnd := fun offset => by rw [hi.paragraphEnd, hj.paragraphEnd]
  titles := by
    intro offsets
    obtain ⟨Si, hnewi, hti⟩ := hi.titles
    obtain ⟨Sj, hnewj, htj⟩ := hj.titles
    rw [titleLookups_eq hti offsets _ hnewi, titleLookups_eq htj offsets _ hnewj]

theorem chooseEnd_congr {i j : BoundaryIndex} (h : SameAnswers i j)
    (start previousEnd minimumEnd hardEnd : ℕ) (finalWindow : Bool) :
    chooseEnd U text parserName i start previousEnd minimumEnd hardEnd finalWindow =
      chooseEnd U text parserName j start previousEnd minimumEnd hardEnd finalWindow := by
  by_cases hname : parserName = markdownTextV1
  · simp only [chooseEnd, structuralPoints, earlyPoint, headingContentStart, hname, if_true, true_and,
      List.findSome?_cons, List.findSome?_nil, h.headings.first, h.headings.contains,
      h.structuralStarts.first, h.codeBlocks.last, h.paragraphs.last, h.listItems.last,
      h.paragraphEnd]
  · simp only [chooseEnd, structuralPoints, earlyPoint, headingContentStart, hname, if_false,
      false_and, List.findSome?_cons, List.findSome?_nil, h.paragraphs.last]

theorem chooseOverlapStart_congr {i j : BoundaryIndex} (h : SameAnswers i j)
    (chunkStart overlapTarget stop : ℕ) :
    chooseOverlapStart U text parserName i chunkStart overlapTarget stop =
      chooseOverlapStart U text parserName j chunkStart overlapTarget stop := by
  by_cases hname : parserName = markdownTextV1
  · simp only [chooseOverlapStart, overlapPoints, hname, if_true, List.findSome?_cons,
      List.findSome?_nil, h.headings.contains, h.headings.first, h.codeBlocks.first,
      h.paragraphs.first, h.listItems.first]
  · simp only [chooseOverlapStart, overlapPoints, hname, if_false, List.findSome?_cons,
      List.findSome?_nil, h.headings.contains, h.paragraphs.first]

/-- The loop over two indexes of one sequence: the caches may differ, the chunks do not. -/
theorem chunkLoop_congr (chunker : RecursiveTextChunker) {i j : BoundaryIndex}
    (hi : IndexReads i bs) (hj : IndexReads j bs) (horder : Ordered bs)
    {Si Sj : TitleCache → Prop}
    (hti : ∀ cache offset, Si cache →
      ∃ cache', titlePathAt i cache offset = .ok (titlesAbove bs offset, cache') ∧ Si cache')
    (htj : ∀ cache offset, Sj cache →
      ∃ cache', titlePathAt j cache offset = .ok (titlesAbove bs offset, cache') ∧ Sj cache')
    (fuel : ℕ) : ∀ (start previousEnd chunkIndex : ℕ) (ci cj : TitleCache), Si ci → Sj cj →
    (chunker.chunkLoop text parserName i fuel ⟨start, previousEnd, chunkIndex, ci⟩ :
        Generated (Chunk P) ChunkError) =
      chunker.chunkLoop text parserName j fuel ⟨start, previousEnd, chunkIndex, cj⟩ := by
  have hsame := hi.same hj horder
  induction fuel with
  | zero => intro _ _ _ _ _ _ _; rfl
  | succ fuel ih =>
      intro start previousEnd chunkIndex ci cj hci hcj
      obtain ⟨ci', heqi, hci'⟩ := hti ci start hci
      obtain ⟨cj', heqj, hcj'⟩ := htj cj start hcj
      have hloop := fun s p c => ih s p c ci' cj' hci' hcj'
      have hretry := fun s p c => ih s p c ci cj hci hcj
      simp only [RecursiveTextChunker.chunkLoop, chooseEnd_congr hsame,
        chooseOverlapStart_congr hsame, heqi, heqj, hloop, hretry]

/-- **Packed and plain boundaries are interchangeable.**  For every ordered sequence of boundaries
inside a text, the index of its packed form and the index of the sequence itself answer every
query alike, in any run of title lookups, and the chunker yields the same chunks and ends in the
same way over both. -/
theorem compactBoundaries_chunk_eq (bs : List StructuralBoundary) (text : Str)
    (horder : Ordered bs) (hpack : Packable bs) (hinside : ∀ b ∈ bs, b.endOffset ≤ text.length)
    (hsize : text.length < 2 ^ 31) :
    ∃ t compact plain, PackedTable.fromSequence bs = .ok t ∧
      indexBoundaries (.compact t) = .ok compact ∧ indexBoundaries (.plain bs) = .ok plain ∧
      SameAnswers compact plain ∧
      ∀ (chunker : RecursiveTextChunker) (parserName : Str),
        (chunker.chunkText text parserName (.compact t) : Generated (Chunk P) ChunkError) =
          chunker.chunkText text parserName (.plain bs) := by
  obtain ⟨t, _, _, hpacked, _⟩ := fromSequence_represents horder hpack
  obtain ⟨compact, hcompact, hreads⟩ :=
    indexCompactBoundaries_ok hpacked horder hpack hinside hsize
  have hplain := indexPlainBoundaries_reads horder
  refine ⟨t, compact, indexPlainBoundaries bs, hpacked, hcompact, rfl,
    hreads.same hplain horder, ?_⟩
  intro chunker parserName
  obtain ⟨Si, hnewi, hti⟩ := hreads.titles
  obtain ⟨Sj, hnewj, htj⟩ := hplain.titles
  have hloop := @chunkLoop_congr P text parserName bs chunker compact (indexPlainBoundaries bs)
    hreads hplain horder Si Sj hti htj (text.length + 1) 0 0 0 .new .new hnewi hnewj
  simp only [RecursiveTextChunker.chunkText, indexBoundaries, hcompact, hloop]

theorem compactBoundaries_chunk_eq_periodicSample :
    ∃ t compact plain, PackedTable.fromSequence periodicSample = .ok t ∧
      indexBoundaries (.compact t) = .ok compact ∧
      indexBoundaries (.plain periodicSample) = .ok plain ∧ SameAnswers compact plain ∧
      (smallChunker.chunkText periodicText markdownTextV1 (.compact t) :
          Generated (Chunk Platform.ascii) ChunkError) =
        smallChunker.chunkText periodicText markdownTextV1 (.plain periodicSample) := by
  have hpack : Packable periodicSample := ⟨by decide, by decide, by decide⟩
  obtain ⟨t, compact, plain, hpacked, hcompact, hplain, hsame, hchunks⟩ :=
    @compactBoundaries_chunk_eq Platform.ascii periodicSample periodicText (by decide) hpack
      (by decide) (by decide)
  exact ⟨t, compact, plain, hpacked, hcompact, hplain, hsame, hchunks smallChunker markdownTextV1⟩

end VeloxRag.Ingestion
