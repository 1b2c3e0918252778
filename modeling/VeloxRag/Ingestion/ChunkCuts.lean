import VeloxRag.Ingestion.ChunkBlanks

/-!
# Where chunks are cut

A cut that is not at a structural point or after a line break comes from a search for a safe one, which
returns an unsafe cut only where the whole range of the search is unsafe.  What is safe is said relative
to the start of the window, from which the search counts.  The exception is again a window that is
blank up to its chosen end: its hard end is taken as it is.

## Main definitions

* `SafeCut` — a cut that is structural, after a line break, safe, or without a safe one in its range.
* `Chunking.SafeEnd`, `Chunking.SafeStart` — the cuts of a window.
* `CutsSafely` — all cuts of the chunks of a run.
* `cuts_safely` — which runs cut safely.
-/

namespace VeloxRag.Ingestion

open VeloxRag.Lib

variable {P : Platform} {U : UnicodeData} {text : Str} {bs : List StructuralBoundary}

/-! ## Searches for a safe cut -/

/-- Every cut from one offset to another is unsafe. -/
def AllUnsafe (U : UnicodeData) (text : Str) (anchor lower upper : ℕ) : Prop :=
  ∀ offset, lower ≤ offset → offset ≤ upper → unsafeBoundary U text offset anchor = true

theorem safeEndFrom_spec (start hardEnd : ℕ) (h : start ≤ hardEnd) :
    (∀ offset, safeEndFrom U text start hardEnd < offset → offset ≤ hardEnd →
      unsafeBoundary U text offset start = true) ∧
    (start < safeEndFrom U text start hardEnd →
      unsafeBoundary U text (safeEndFrom U text start hardEnd) start = false) := by
  induction hardEnd with
  | zero =>
      rw [safeEndFrom]
      exact ⟨fun offset hpos hzero => by omega, fun hlt => by omega⟩
  | succ candidate ih =>
      rw [safeEndFrom]
      split
      · rename_i hunsafe
        obtain ⟨hskipped, hfound⟩ := ih (by omega)
        refine ⟨?_, hfound⟩
        intro offset hafter hle
        rcases Nat.lt_or_eq_of_le hle with hlt | rfl
        · exact hskipped offset hafter (by omega)
        · exact hunsafe.2
      · rename_i hstop
        refine ⟨fun offset hafter hle => by omega, ?_⟩
        intro hlt
        rw [not_and, Bool.not_eq_true] at hstop
        exact hstop hlt

/-- **The safe end** is safe, if any cut of its range is. -/
theorem safeEnd_spec {start hardEnd : ℕ} (h : start ≤ hardEnd) :
    unsafeBoundary U text (safeEnd U text hardEnd start) start = false ∨
      AllUnsafe U text start (start + 1) hardEnd := by
  obtain ⟨hskipped, hfound⟩ := @safeEndFrom_spec U text start hardEnd h
  have hbounds := @safeEndFrom_bounds U text start hardEnd h
  rw [safeEnd]
  by_cases hnone : safeEndFrom U text start hardEnd = start
  · right
    intro offset hlower hupper
    exact hskipped offset (by omega) hupper
  · left
    rw [if_neg hnone]
    exact hfound (by omega)

theorem safeStartFrom_spec {stop anchor : ℕ} (fuel : ℕ) : ∀ {candidate : ℕ},
    stop ≤ candidate + fuel → candidate ≤ stop →
    (∀ offset, candidate ≤ offset → offset < safeStartFrom U text stop anchor fuel candidate →
      unsafeBoundary U text offset anchor = true) ∧
    (safeStartFrom U text stop anchor fuel candidate < stop →
      unsafeBoundary U text (safeStartFrom U text stop anchor fuel candidate) anchor = false) := by
  induction fuel with
  | zero =>
      intro candidate hfuel _
      rw [safeStartFrom]
      exact ⟨fun offset hle hlt => by omega, fun hlt => by omega⟩
  | succ fuel ih =>
      intro candidate hfuel hle
      rw [safeStartFrom]
      split
      · rename_i hunsafe
        obtain ⟨hskipped, hfound⟩ := @ih (candidate + 1) (by omega) (by omega)
        refine ⟨?_, hfound⟩
        intro offset hfrom hbefore
        rcases Nat.lt_or_eq_of_le hfrom with hlt | rfl
        · exact hskipped offset hlt hbefore
        · exact hunsafe.2
      · rename_i hstop
        refine ⟨fun offset hfrom hbefore => by omega, ?_⟩
        intro hlt
        rw [not_and, Bool.not_eq_true] at hstop
        exact hstop hlt

/-- **The safe start** is safe, if any cut of its range is. -/
theorem safeStart_spec {target stop anchor : ℕ} (h : target ≤ stop) :
    (unsafeBoundary U text (safeStart U text target stop anchor) anchor = false ∨
      AllUnsafe U text anchor target stop) ∧
    (unsafeBoundary U text (safeStart U text target stop anchor) anchor = true →
      AllUnsafe U text anchor target stop) := by
  obtain ⟨hskipped, hfound⟩ := @safeStartFrom_spec U text stop anchor (stop - target) target
    (by omega) h
  obtain ⟨hlower, hupper⟩ := @safeStart_bounds U text target stop anchor h
  have hall : unsafeBoundary U text (safeStart U text target stop anchor) anchor = true →
      AllUnsafe U text anchor target stop := by
    intro hunsafe offset hfrom hto
    -- an unsafe result is the end of the range
    have hlast : safeStart U text target stop anchor = stop := by
      by_contra hne
      rw [safeStart] at hne hunsafe hupper
      rw [hfound (by omega)] at hunsafe
      cases hunsafe
    rcases Nat.lt_or_eq_of_le hto with hlt | rfl
    · rw [safeStart] at hlast
      exact hskipped offset hfrom (by omega)
    · rw [← hlast]
      exact hunsafe
  refine ⟨?_, hall⟩
  cases hsafe : unsafeBoundary U text (safeStart U text target stop anchor) anchor with
  | false => exact .inl rfl
  | true => exact .inr (hall hsafe)

/-- **The aligned end of a sentence** is safe, if any cut up to the limit is. -/
theorem alignSentenceBoundary_spec {target limit anchor : ℕ} (hanchor : anchor ≤ target)
    (hlimit : target ≤ limit) :
    unsafeBoundary U text (alignSentenceBoundary U text target limit anchor) anchor = false ∨
      AllUnsafe U text anchor (anchor + 1) limit := by
  obtain ⟨-, hup⟩ := @safeStart_spec U text target limit anchor hlimit
  rw [alignSentenceBoundary]
  split
  · rename_i hunsafe
    -- nothing from the end of the sentence on, so the search goes back
    have habove := hup hunsafe
    rcases @safeEnd_spec U text anchor target hanchor with hsafe | hbelow
    · exact .inl hsafe
    · right
      intro offset hfrom hto
      by_cases hbefore : offset ≤ target
      · exact hbelow offset hfrom hbefore
      · exact habove offset (by omega) hto
  · rename_i hsafe
    exact .inl (by simpa using hsafe)

/-! ## Cuts that are exempt -/

/-- A boundary starts or ends at the offset. -/
def StructuralPoint (bs : List StructuralBoundary) (offset : ℕ) : Prop :=
  ∃ b ∈ bs, offset = b.startOffset ∨ offset = b.endOffset

/-- The offset is after a line break. -/
def AfterNewline (text : Str) (offset : ℕ) : Prop := 0 < offset ∧ text[offset - 1]? = some '\n'

/-- A cut that is structural, after a line break, at the end of the text or safe, or for which the
range that is searched has no safe one. -/
def SafeCut (U : UnicodeData) (text : Str) (bs : List StructuralBoundary)
    (anchor lower upper offset : ℕ) : Prop :=
  StructuralPoint bs offset ∨ AfterNewline text offset ∨ offset = text.length ∨
    unsafeBoundary U text offset anchor = false ∨ AllUnsafe U text anchor lower upper

theorem SafeCut.of_search {anchor lower upper offset : ℕ}
    (h : unsafeBoundary U text offset anchor = false ∨ AllUnsafe U text anchor lower upper) :
    SafeCut U text bs anchor lower upper offset :=
  .inr (.inr (.inr h))

theorem mem_distinctPoints {kinds : List BoundaryKind} {mode : PointMode} {offset : ℕ}
    (h : offset ∈ distinctPoints kinds mode bs) : StructuralPoint bs offset := by
  rw [distinctPoints, mem_dedupRuns, boundaryPoints, List.mem_flatMap] at h
  obtain ⟨b, hb, hoffset⟩ := h
  refine ⟨b, hb, ?_⟩
  split at hoffset
  · cases mode with
    | starts => exact .inl (List.mem_singleton.mp hoffset)
    | ends => exact .inr (List.mem_singleton.mp hoffset)
    | both =>
        rcases List.mem_cons.mp hoffset with rfl | hend
        · exact .inl rfl
        · exact .inr (List.mem_singleton.mp hend)
  · cases hoffset

/-- The points that an index finds are structural. -/
structure PointsAreStructural (bs : List StructuralBoundary) (points : Points) : Prop where
  first : ∀ {lo hi x}, firstPoint points lo hi = some x → StructuralPoint bs x
  last : ∀ {lo hi x}, lastPoint points lo hi = some x → StructuralPoint bs x

theorem Points.Reads.areStructural {points : Points} {kinds : List BoundaryKind} {mode : PointMode}
    (h : points.Reads (distinctPoints kinds mode bs)) (horder : Ordered bs) :
    PointsAreStructural bs points where
  first := by
    intro lo hi x hx
    rw [h.firstPoint_eq (distinctPoints_increasing horder)] at hx
    exact mem_distinctPoints (firstIn_bounds hx).2.2
  last := by
    intro lo hi x hx
    rw [h.lastPoint_eq (distinctPoints_increasing horder)] at hx
    exact mem_distinctPoints (lastIn_bounds hx).2.2

theorem structuralPoints_areStructural {index : BoundaryIndex} {parserName : Str}
    (h : IndexReads index bs) (horder : Ordered bs) :
    ∀ points ∈ structuralPoints parserName index, PointsAreStructural bs points.1 := by
  intro points hp
  unfold structuralPoints at hp
  split at hp <;> simp only [List.mem_cons, List.not_mem_nil, or_false] at hp
  · rcases hp with rfl | rfl | rfl
    · exact h.codeBlocks.areStructural horder
    · exact h.paragraphs.areStructural horder
    · exact h.listItems.areStructural horder
  · rw [hp]
    exact h.paragraphs.areStructural horder

theorem overlapPoints_areStructural {index : BoundaryIndex} {parserName : Str}
    (h : IndexReads index bs) (horder : Ordered bs) :
    ∀ points ∈ overlapPoints parserName index, PointsAreStructural bs points := by
  intro points hp
  unfold overlapPoints at hp
  split at hp <;> simp only [List.mem_cons, List.not_mem_nil, or_false] at hp
  · rcases hp with rfl | rfl | rfl | rfl
    · exact h.headings.areStructural horder
    · exact h.codeBlocks.areStructural horder
    · exact h.paragraphs.areStructural horder
    · exact h.listItems.areStructural horder
  · rw [hp]
    exact h.paragraphs.areStructural horder

/-- A newline point is after a line break. -/
theorem lastNewlinePoint_afterNewline {lower upper point : ℕ}
    (h : lastNewlinePoint text lower upper = some point) : AfterNewline text point := by
  simp only [lastNewlinePoint, Option.map_eq_some_iff] at h
  obtain ⟨i, hi, rfl⟩ := h
  obtain ⟨hlt, hat, -⟩ := List.findIdx?_eq_some_iff_getElem.mp hi
  rw [List.length_reverse] at hlt
  refine ⟨Nat.succ_pos _, ?_⟩
  have hchar : (slice text lower upper)[(slice text lower upper).length - 1 - i]? = some '\n' := by
    rw [List.getElem_reverse] at hat
    rw [List.getElem?_eq_getElem (by omega)]
    simpa using hat
  rw [slice, List.getElem?_take] at hchar
  split at hchar
  · rw [List.getElem?_drop] at hchar
    rw [Nat.add_sub_cancel]
    exact hchar
  · cases hchar

theorem firstNewlinePoint_afterNewline {lower upper point : ℕ}
    (h : firstNewlinePoint text lower upper = some point) : AfterNewline text point := by
  simp only [firstNewlinePoint, Option.map_eq_some_iff] at h
  obtain ⟨i, hi, rfl⟩ := h
  obtain ⟨hlt, hat, -⟩ := List.findIdx?_eq_some_iff_getElem.mp hi
  refine ⟨Nat.succ_pos _, ?_⟩
  have hchar : (slice text (lower - 1) (upper - 1))[i]? = some '\n' := by
    rw [List.getElem?_eq_getElem hlt]
    simpa using hat
  rw [slice, List.getElem?_take] at hchar
  split at hchar
  · rw [List.getElem?_drop] at hchar
    rw [Nat.add_sub_cancel]
    exact hchar
  · cases hchar

/-! ## The cuts of a window -/

namespace Chunking

variable (k : Chunking P) (bs) (w : Window)

/-- The end of the window's chunk, searched for up to its hard end. -/
def SafeEnd : Prop :=
  SafeCut P.unicode k.text bs w.start (w.start + 1) (k.hardEnd w) (k.stop w)

/-- Where the search for the start of an overlap begins: the end of a sentence may be aligned back. -/
def overlapSearch : ℕ :=
  match firstSentenceEnd k.text w.start (k.overlapTarget w) (k.stop w) with
  | some _ => w.start + 1
  | none => k.overlapTarget w

/-- The start of the window after it.  After a chunk it is the end of the chunk or is searched for up
to there, else from the next character on and up to the end of the chunk before. -/
def SafeStart : Prop :=
  if k.Yields w then
    if (k.chosen w).2 = true then k.SafeEnd bs w
    else SafeCut P.unicode k.text bs w.start (k.overlapSearch w) (k.stop w) (k.nextStart w)
  else SafeCut P.unicode k.text bs w.start (w.start + 1) w.previousEnd (k.reducedStart w)

/-- Where the window is widened, its hard end is a safe cut. -/
def WidenedSafely : Prop :=
  k.Widened w → SafeCut P.unicode k.text bs w.start (w.start + 1) (k.hardEnd w) (k.hardEnd w)

variable {k bs w}

/-- **The chosen end** is a safe cut. -/
theorem chosen_safe (h : IndexReads k.index bs) (horder : Ordered bs) (hin : k.InText w) :
    SafeCut P.unicode k.text bs w.start (w.start + 1) (k.hardEnd w) (k.chosen w).1 := by
  have hmax := k.chunker.max_pos
  have hoverlap := k.chunker.overlap_lt
  obtain ⟨hprevious, hinside⟩ := hin
  have hhard : w.start < k.hardEnd w := by
    rw [hardEnd]
    omega
  have hnewline : ∀ {lower upper point : ℕ},
      (if k.parserName = markdownTextV1 then none else lastNewlinePoint k.text lower upper) =
        some point → AfterNewline k.text point := by
    intro lower upper point hpoint
    split at hpoint
    · cases hpoint
    · exact lastNewlinePoint_afterNewline hpoint
  rw [chosen]
  simp only [chooseEnd]
  split
  · rename_i heading hheading
    split at hheading
    · exact .inl ((h.headings.areStructural horder).first hheading)
    · cases hheading
  split
  · rename_i hfinal
    rw [decide_eq_true_eq] at hfinal
    exact .inr (.inr (.inl hfinal))
  rename_i hfinal
  have hminimum : w.start + k.chunker.targetOverlap ≤ k.hardEnd w := by
    rw [decide_eq_true_eq, hardEnd] at hfinal
    rw [hardEnd]
    omega
  split
  · rename_i selected hselected
    obtain ⟨points, hp, hpoint⟩ := List.exists_of_findSome?_eq_some hselected
    exact .inl ((structuralPoints_areStructural h horder points hp).last hpoint)
  split
  · rename_i selected hselected
    obtain ⟨points, hp, hpoint⟩ := List.exists_of_findSome?_eq_some hselected
    simp only [earlyPoint] at hpoint
    split at hpoint
    · cases hpoint
    · exact .inl ((structuralPoints_areStructural h horder points hp).last hpoint)
  simp only [chooseTextEnd]
  split
  · rename_i hpoint
    exact .inr (.inl (hnewline hpoint))
  split
  · rename_i hpoint
    exact .inr (.inl (hnewline hpoint))
  split
  · rename_i sentence hsentence
    have := lastSentenceEnd_bounds hsentence
    exact .of_search (alignSentenceBoundary_spec (by omega) (by omega))
  split
  · rename_i sentence hsentence
    have := lastSentenceEnd_bounds hsentence
    exact .of_search (alignSentenceBoundary_spec (by omega) (by omega))
  · exact .of_search (safeEnd_spec hhard.le)

/-- The end of a chunk is a safe cut if it is one where the window was widened. -/
theorem WidenedSafely.safeEnd (hsafely : k.WidenedSafely bs w) (h : IndexReads k.index bs)
    (horder : Ordered bs) (hin : k.InText w) : k.SafeEnd bs w := by
  rw [SafeEnd]
  by_cases hwidened : k.Widened w
  · rw [stop_of_widened hwidened]
    exact hsafely hwidened
  · rw [stop_of_not_widened hwidened]
    exact chosen_safe h horder hin

/-- **The start of an overlap** is a safe cut. -/
theorem overlapStart_safe (h : IndexReads k.index bs) (horder : Ordered bs) (hin : k.InText w)
    (hoverlap : (k.chosen w).2 ≠ true) :
    SafeCut P.unicode k.text bs w.start (k.overlapSearch w) (k.stop w) (k.nextStart w) := by
  have hstop := (stop_bounds h horder hin).1
  have htarget : w.start + 1 ≤ k.overlapTarget w ∧ k.overlapTarget w ≤ k.stop w := by
    rw [overlapTarget]
    omega
  rw [nextStart, if_neg hoverlap]
  simp only [chooseOverlapStart]
  split
  · rename_i hheading
    rw [h.headings.containsPoint_eq (distinctPoints_increasing horder), decide_eq_true_eq] at hheading
    exact .inl (mem_distinctPoints hheading)
  split
  · rename_i selected hselected
    obtain ⟨points, hp, hpoint⟩ := List.exists_of_findSome?_eq_some hselected
    exact .inl ((overlapPoints_areStructural h horder points hp).first hpoint)
  split
  · rename_i point hpoint
    split at hpoint
    · cases hpoint
    · exact .inr (.inl (firstNewlinePoint_afterNewline hpoint))
  split
  · rename_i sentence hsentence
    have := firstSentenceEnd_bounds hsentence
    rw [overlapSearch, hsentence]
    exact .of_search (alignSentenceBoundary_spec (by omega) (by omega))
  · rename_i hsentence
    rw [overlapSearch, hsentence]
    exact .of_search (safeStart_spec htarget.2).1

/-- **The start of the next window** is a safe cut if the end of the chunk is one. -/
theorem WidenedSafely.safeStart (hsafely : k.Yields w → k.WidenedSafely bs w)
    (h : IndexReads k.index bs) (horder : Ordered bs) (hin : k.InText w) : k.SafeStart bs w := by
  rw [SafeStart]
  by_cases hyields : k.Yields w
  · rw [if_pos hyields]
    by_cases hsuppress : (k.chosen w).2 = true
    · rw [if_pos hsuppress]
      exact (hsafely hyields).safeEnd h horder hin
    · rw [if_neg hsuppress]
      exact overlapStart_safe h horder hin hsuppress
  · rw [if_neg hyields]
    have hchosen := (chosen_bounds h horder hin).1
    rw [Yields] at hyields
    exact .of_search (safeStart_spec (by omega)).1

end Chunking

/-- All cuts of the chunks of a run: each end, searched for up to the hard end of the window, and each
start, searched for in the window before it. -/
def CutsSafely (k : Chunking P) (bs : List StructuralBoundary) (chunks : List (Chunk P)) : Prop :=
  ∀ chunk ∈ chunks,
    SafeCut P.unicode k.text bs chunk.startOffset (chunk.startOffset + 1)
        (min (chunk.startOffset + k.chunker.maxChunk) k.text.length) chunk.endOffset ∧
      (chunk.startOffset = 0 ∨ ∃ w, k.Reached w ∧ ¬ k.Last w ∧
        (k.next w).start = chunk.startOffset ∧ k.SafeStart bs w)

/-- The chunks of a run are cut safely exactly when the widened windows are. -/
theorem ChunkRun.cuts_safely_iff {a : ParsedArtifact P} {k : Chunking P} {chunks : List (Chunk P)}
    (h : ChunkRun a bs k chunks) :
    CutsSafely k bs chunks ↔ ∀ w, k.Reached w → k.Yields w → k.WidenedSafely bs w := by
  have htext : k.text ≠ [] := by
    rw [h.text_eq]
    exact a.valid_fields.1
  constructor
  · intro hchunks w hw hyields hwidened
    obtain ⟨chunk, hchunk, hstart, hstop⟩ := h.window_chunk w hw hyields
    have hcut := (hchunks chunk hchunk).1
    rw [hstart, hstop, Chunking.stop_of_widened hwidened] at hcut
    exact hcut
  · intro hwindows chunk hchunk
    obtain ⟨w, hw, hyields, hstart, hstop⟩ := h.chunk_window chunk hchunk
    constructor
    · rw [hstart, hstop]
      exact (hwindows w hw hyields).safeEnd h.reads h.ordered (hw.inText h.reads h.ordered htext)
    · rw [hstart]
      rcases hw.cases_tail with rfl | ⟨w', hw', hlast, rfl⟩
      · exact .inl rfl
      · right
        refine ⟨w', hw', hlast, rfl, ?_⟩
        exact Chunking.WidenedSafely.safeStart (hwindows w' hw') h.reads h.ordered
          (Chunking.Reached.inText h.reads h.ordered htext hw')

/-- **Safe cuts.**  Every start and end of a chunk of a parsed document is structural, after a line
break, the end of the text, safe, or without a safe one where it is searched for, exactly when this
holds of the hard end of each window that is widened. -/
theorem cuts_safely {U : FilenameText} {p : Parser} (hp : p ∈ parsers) {source : Bytes}
    {a : ParsedArtifact P} (h : p.parse U P source = .ok a) {bs : List StructuralBoundary}
    (hbs : a.Represented bs) (chunker : RecursiveTextChunker) :
    ∃ index, indexCompactBoundaries a.boundaries = .ok index ∧
      (CutsSafely (a.chunking index chunker) bs (chunker.chunk a).items ↔
        ∀ w, (a.chunking index chunker).Reached w → (a.chunking index chunker).Yields w →
          (a.chunking index chunker).WidenedSafely bs w) := by
  obtain ⟨index, chunks, hindex, hchunks, hrun⟩ := chunk_windows hbs (length_parsed hp h) chunker
  refine ⟨index, hindex, ?_⟩
  rw [hchunks]
  exact hrun.cuts_safely_iff

/-! ## A cut inside a character -/

namespace CutSample

/-- Two empty lines, and an aeroplane with a variation selector. -/
def document : Str := "\n\n✈\uFE0Fz".toList

/-- The boundaries of the document. -/
def boundaries : List StructuralBoundary := [⟨.paragraph, 2, 5, [], none, by decide⟩]

/-- The boundaries, packed. -/
def table : PackedTable := (PackedTable.fromSequence boundaries).toOption.getD (oneParagraph 1)

/-- Chunks of at most three characters that do not overlap. -/
def chunker : RecursiveTextChunker where
  maxChunk := 3
  targetOverlap := 0
  max_pos := by decide
  max_le := by decide
  overlap_lt := by decide
  overlap_le := Nat.zero_le _

/-- A run over the document. -/
def chunking : Chunking Platform.ascii where
  text := document
  parserName := plainTextParser.name
  index := (indexCompactBoundaries table).toOption.getD (indexPlainBoundaries [])
  chunker := chunker

theorem parse : ∃ a : ParsedArtifact Platform.ascii,
    plainTextParser.parse .ascii .ascii (encode document) = .ok a ∧
    plainTextParser.artifact .ascii document = .ok a ∧ a.boundaries = table ∧
    a.Represented boundaries := by
  have hordered : Ordered boundaries := by decide
  obtain ⟨table', blocks, nodes, hpacked, hrep⟩ :=
    fromSequence_represents hordered ⟨by decide, by decide, by decide⟩
  have htable' : PackedTable.fromSequence boundaries = .ok table := by rfl
  rw [Except.ok.inj (hpacked.symm.trans htable')] at hrep
  have hplain : plainTextParser.boundaries document = .ok table := by rfl
  have hinside : ∀ b ∈ boundaries, b.endOffset ≤ document.length := by decide
  have hcheck : checkArtifact document table plainTextParser.name plainTextParser.version = .ok () := by
    rw [checkArtifact, if_neg (by decide)]
    exact hrep.validateForTextLength hordered hinside
  obtain ⟨a, ha⟩ := @artifact_isOk .ascii plainTextParser document table hplain hcheck
  obtain ⟨htext, hboundaries⟩ := artifact_eq_ok ha
  have htable : a.boundaries = table := Except.ok.inj (hboundaries.symm.trans hplain)
  refine ⟨a, ?_, ha, htable, ⟨blocks, nodes, by rw [htable]; exact hrep⟩, hordered, ?_⟩
  · apply (parse_eq_ok (by simp [parsers])).mpr
    exact ⟨by decide, document, rfl, ⟨by decide, by decide, by decide⟩, ha⟩
  · rw [htext]
    exact hinside

end CutSample

/-- The first chunk of a document ends between a character and its variation selector. -/
theorem cut_inside_character : ∃ (a : ParsedArtifact Platform.ascii) (index : BoundaryIndex),
    plainTextParser.parse .ascii .ascii (encode "\n\n✈\uFE0Fz".toList) = .ok a ∧
    a.Represented CutSample.boundaries ∧ RecursiveTextChunker.make 3 0 = .ok CutSample.chunker ∧
    indexCompactBoundaries a.boundaries = .ok index ∧
    ¬ CutsSafely (a.chunking index CutSample.chunker) CutSample.boundaries
      (CutSample.chunker.chunk a).items := by
  obtain ⟨a, hparse, ha, htable, hbs⟩ := CutSample.parse
  have hp : plainTextParser ∈ parsers := by simp [parsers]
  obtain ⟨index, chunks, hindex, hchunks, hrun⟩ :=
    chunk_windows hbs (length_parsed hp hparse) CutSample.chunker
  have htext : a.text = CutSample.document := (artifact_eq_ok ha).1
  have hchunking : a.chunking index CutSample.chunker = CutSample.chunking := by
    rw [htable] at hindex
    rw [ParsedArtifact.chunking, htext, artifact_parserName ha, CutSample.chunking, hindex]
    rfl
  refine ⟨a, index, hparse, hbs, by rfl, hindex, ?_⟩
  rw [hchunks]
  intro hsafely
  have hcut := hrun.cuts_safely_iff.mp hsafely ⟨0, 0⟩ Chunking.reached_first
  rw [hchunking] at hcut
  have hend : CutSample.chunking.hardEnd ⟨0, 0⟩ = 3 := by decide +kernel
  have hcut := hcut (by decide +kernel) (by decide +kernel)
  rw [hend] at hcut
  rcases hcut with hstructural | ⟨-, hnewline⟩ | hlast | hsafe | hnone
  · have hnot : ∀ b ∈ CutSample.boundaries, ¬ (3 = b.startOffset ∨ 3 = b.endOffset) := by decide
    obtain ⟨b, hb, hpoint⟩ := hstructural
    exact hnot b hb hpoint
  · exact absurd hnewline (by decide)
  · exact absurd hlast (by decide)
  · exact absurd hsafe (by decide +kernel)
  · -- between the two line breaks nothing is split
    exact absurd (hnone 1 (by decide) (by decide)) (by decide +kernel)

theorem cuts_safely_sample : ∃ (a : ParsedArtifact Platform.ascii) (index : BoundaryIndex),
    plainTextParser.parse .ascii .ascii (encode "\n\n✈\uFE0Fz".toList) = .ok a ∧
    indexCompactBoundaries a.boundaries = .ok index ∧
    (CutsSafely (a.chunking index CutSample.chunker) CutSample.boundaries
        (CutSample.chunker.chunk a).items ↔
      ∀ w, (a.chunking index CutSample.chunker).Reached w →
        (a.chunking index CutSample.chunker).Yields w →
        (a.chunking index CutSample.chunker).WidenedSafely CutSample.boundaries w) := by
  obtain ⟨a, hparse, -, -, hbs⟩ := CutSample.parse
  obtain ⟨index, hindex, hiff⟩ :=
    cuts_safely (by simp [parsers]) hparse hbs CutSample.chunker
  exact ⟨a, index, hparse, hindex, hiff⟩

end VeloxRag.Ingestion
