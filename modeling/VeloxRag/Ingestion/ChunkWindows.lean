import VeloxRag.Ingestion.ChunkSizes
import VeloxRag.Ingestion.ManifestBudget

/-!
# The windows of the chunker

A turn of the chunker's loop is known by where it starts and where the chunk before it ends.  From
these follow the hard end of its window, the end that is chosen, whether the window yields a chunk,
whether it is blank and therefore widened, and where the next turn starts.  So what the chunks have in
common can be said of the windows that a run reaches, and proved from one window to the next.

## Main definitions

* `Chunking`, `Window` — what a run is about, and where a turn stands.
* `Chunking.next`, `Chunking.Reached` — the next turn, and the turns of a run.
* `chunk_windows` — the chunks are the windows that yield one.
* `parse_windows` — and so for every parsed document.
-/

namespace VeloxRag.Ingestion

open VeloxRag.Lib

variable {P : Platform}

/-! ## One turn -/

/-- What a run of the chunker is about. -/
structure Chunking (P : Platform) where
  text : Str
  parserName : Str
  index : BoundaryIndex
  chunker : RecursiveTextChunker

/-- Where a turn of the loop starts, and where the chunk before it ends. -/
structure Window where
  start : ℕ
  previousEnd : ℕ
deriving DecidableEq, Repr

namespace Chunking

variable (k : Chunking P) (w : Window)

def hardEnd : ℕ := min (w.start + k.chunker.maxChunk) k.text.length

/-- The end that is chosen, and whether the next window starts there. -/
def chosen : ℕ × Bool :=
  chooseEnd P.unicode k.text k.parserName k.index w.start w.previousEnd
    (w.start + k.chunker.targetOverlap) (k.hardEnd w) (decide (k.hardEnd w = k.text.length))

/-- The window yields a chunk. -/
def Yields : Prop := w.previousEnd < (k.chosen w).1

/-- The window is blank up to the chosen end, and widened. -/
def Widened : Prop :=
  strip (slice k.text w.start (k.chosen w).1) = [] ∧ (k.chosen w).1 < k.hardEnd w

instance : Decidable (k.Yields w) := inferInstanceAs (Decidable (_ < _))

instance : Decidable (k.Widened w) := inferInstanceAs (Decidable (_ ∧ _))

/-- The end of the chunk. -/
def stop : ℕ := if k.Widened w then k.hardEnd w else (k.chosen w).1

def overlapTarget : ℕ := max (w.start + 1) (k.stop w - k.chunker.targetOverlap)

/-- Where the window after a chunk starts. -/
def nextStart : ℕ :=
  if (k.chosen w).2 = true then k.stop w
  else chooseOverlapStart P.unicode k.text k.parserName k.index w.start (k.overlapTarget w) (k.stop w)

/-- Where the window starts again that would not reach beyond the chunk before it. -/
def reducedStart : ℕ := safeStart P.unicode k.text (w.start + 1) w.previousEnd w.start

/-- The next turn. -/
def next : Window :=
  if k.Yields w then ⟨k.nextStart w, k.stop w⟩ else ⟨k.reducedStart w, w.previousEnd⟩

/-- The chunk of the window ends with the text. -/
def Last : Prop := k.Yields w ∧ k.stop w = k.text.length

instance : Decidable (k.Last w) := inferInstanceAs (Decidable (_ ∧ _))

/-- A turn that is not the last is followed by the next. -/
def Step (w w' : Window) : Prop := ¬ k.Last w ∧ w' = k.next w

/-- A window of the run. -/
def Reached : Prop := Relation.ReflTransGen k.Step ⟨0, 0⟩ w

/-- A chunk is the one of a window. -/
def Spans (chunk : Chunk P) : Prop := chunk.startOffset = w.start ∧ chunk.endOffset = k.stop w

/-- The window stands inside the text, not after the end of the chunk before it. -/
def InText : Prop := w.start ≤ w.previousEnd ∧ w.previousEnd < k.text.length

variable {k w}

theorem next_of_yields (h : k.Yields w) : k.next w = ⟨k.nextStart w, k.stop w⟩ := if_pos h

theorem next_of_not_yields (h : ¬ k.Yields w) : k.next w = ⟨k.reducedStart w, w.previousEnd⟩ :=
  if_neg h

theorem stop_of_widened (h : k.Widened w) : k.stop w = k.hardEnd w := if_pos h

theorem stop_of_not_widened (h : ¬ k.Widened w) : k.stop w = (k.chosen w).1 := if_neg h

theorem chosen_le_stop : (k.chosen w).1 ≤ k.stop w := by
  by_cases h : k.Widened w
  · rw [stop_of_widened h]
    exact h.2.le
  · rw [stop_of_not_widened h]

theorem hardEnd_le : k.hardEnd w ≤ k.text.length ∧ k.hardEnd w ≤ w.start + k.chunker.maxChunk :=
  ⟨Nat.min_le_right _ _, Nat.min_le_left _ _⟩

theorem reached_first : k.Reached ⟨0, 0⟩ := .refl

theorem Reached.next (h : k.Reached w) (hlast : ¬ k.Last w) : k.Reached (k.next w) :=
  h.tail ⟨hlast, rfl⟩

/-- **An invariant** of the first window and of every step holds of every window of the run. -/
theorem Reached.induction_on {I : Window → Prop} (hfirst : I ⟨0, 0⟩)
    (hstep : ∀ w, k.Reached w → I w → ¬ k.Last w → I (k.next w)) (h : k.Reached w) : I w := by
  induction h with
  | refl => exact hfirst
  | tail hreached hstep' ih =>
      obtain ⟨hlast, rfl⟩ := hstep'
      exact hstep _ hreached ih hlast

/-! ## The bounds of a turn -/

section Bounds

variable {bs : List StructuralBoundary}

theorem chosen_bounds (h : IndexReads k.index bs) (horder : Ordered bs) (hw : k.InText w) :
    w.start < (k.chosen w).1 ∧ (k.chosen w).1 ≤ k.hardEnd w := by
  have hmax := k.chunker.max_pos
  have hoverlap := k.chunker.overlap_lt
  obtain ⟨hprevious, hinside⟩ := hw
  refine chooseEnd_bounds h horder hprevious ?_ ?_
  · intro hfinal
    rw [decide_eq_false_iff_not, hardEnd] at hfinal
    rw [hardEnd]
    omega
  · rw [hardEnd]
    omega

theorem stop_bounds (h : IndexReads k.index bs) (horder : Ordered bs) (hw : k.InText w) :
    w.start < k.stop w ∧ k.stop w ≤ k.hardEnd w := by
  obtain ⟨hstart, hhard⟩ := chosen_bounds h horder hw
  have hle := @chosen_le_stop P k w
  refine ⟨by omega, ?_⟩
  by_cases hwidened : k.Widened w
  · rw [stop_of_widened hwidened]
  · rw [stop_of_not_widened hwidened]
    exact hhard

theorem nextStart_bounds (h : IndexReads k.index bs) (horder : Ordered bs) (hw : k.InText w) :
    w.start < k.nextStart w ∧ k.nextStart w ≤ k.stop w := by
  obtain ⟨hstart, -⟩ := stop_bounds h horder hw
  rw [nextStart]
  split
  · omega
  · exact chooseOverlapStart_bounds h horder (by rw [overlapTarget]; omega)
      (by rw [overlapTarget]; omega)

theorem reducedStart_bounds (h : IndexReads k.index bs) (horder : Ordered bs) (hw : k.InText w)
    (hyields : ¬ k.Yields w) : w.start < k.reducedStart w ∧ k.reducedStart w ≤ w.previousEnd := by
  have hchosen := (chosen_bounds h horder hw).1
  rw [Yields] at hyields
  have := @safeStart_bounds P.unicode k.text (w.start + 1) w.previousEnd w.start (by omega)
  rw [reducedStart]
  omega

theorem InText.next (h : IndexReads k.index bs) (horder : Ordered bs) (hw : k.InText w)
    (hlast : ¬ k.Last w) : k.InText (k.next w) := by
  by_cases hyields : k.Yields w
  · obtain ⟨-, hhard⟩ := stop_bounds h horder hw
    have hlength := (@hardEnd_le P k w).1
    have hne : k.stop w ≠ k.text.length := fun heq => hlast ⟨hyields, heq⟩
    rw [next_of_yields hyields]
    exact ⟨(nextStart_bounds h horder hw).2, show k.stop w < k.text.length by omega⟩
  · rw [next_of_not_yields hyields]
    exact ⟨(reducedStart_bounds h horder hw hyields).2, hw.2⟩

/-- Every window of a run over a text that is not empty. -/
theorem Reached.inText (h : IndexReads k.index bs) (horder : Ordered bs) (htext : k.text ≠ [])
    (hw : k.Reached w) : k.InText w := by
  refine hw.induction_on ⟨le_refl 0, List.length_pos_of_ne_nil htext⟩ ?_
  intro w _ hin hlast
  exact hin.next h horder hlast

end Bounds

/-! ## The chunks of a run -/

/-- **The loop** goes through the windows, and its chunks are those of the windows that yield one. -/
theorem chunkLoop_windows (k : Chunking P) (fuel : ℕ) : ∀ {state : ChunkState},
    (k.chunker.chunkLoop (P := P) k.text k.parserName k.index fuel state).outcome = .done →
    k.InText ⟨state.start, state.previousEnd⟩ →
    (∀ chunk ∈ (k.chunker.chunkLoop (P := P) k.text k.parserName k.index fuel state).items,
      ∃ w, Relation.ReflTransGen k.Step ⟨state.start, state.previousEnd⟩ w ∧ k.Yields w ∧
        k.Spans w chunk) ∧
    ∀ w, Relation.ReflTransGen k.Step ⟨state.start, state.previousEnd⟩ w → k.Yields w →
      ∃ chunk ∈ (k.chunker.chunkLoop (P := P) k.text k.parserName k.index fuel state).items,
        k.Spans w chunk := by
  induction fuel with
  | zero =>
      intro state h
      cases h
  | succ fuel ih =>
      intro state h hin
      obtain ⟨hprevious, hinside⟩ := hin
      dsimp only at hprevious hinside
      generalize hw : (⟨state.start, state.previousEnd⟩ : Window) = w at *
      have hstart : state.start = w.start := by rw [← hw]
      have hprev : state.previousEnd = w.previousEnd := by rw [← hw]
      have hchosen : chooseEnd P.unicode k.text k.parserName k.index state.start state.previousEnd
          (state.start + k.chunker.targetOverlap)
          (min (state.start + k.chunker.maxChunk) k.text.length)
          (decide (min (state.start + k.chunker.maxChunk) k.text.length = k.text.length)) =
          k.chosen w := by
        rw [hstart, hprev]
        rfl
      have hhard : min (state.start + k.chunker.maxChunk) k.text.length = k.hardEnd w := by
        rw [hstart]
        rfl
      rw [RecursiveTextChunker.chunkLoop, if_pos (by omega)] at h ⊢
      dsimp only at h ⊢
      rw [hchosen, hhard] at h ⊢
      by_cases hyields : k.Yields w
      swap
      · -- the window starts again
        have hback : (k.chosen w).1 ≤ state.previousEnd := by
          rw [hprev]
          exact Nat.not_lt.mp hyields
        have hreduced : safeStart P.unicode k.text (state.start + 1) state.previousEnd state.start =
            k.reducedStart w := by
          rw [hstart, hprev]
          rfl
        rw [if_pos hback, hreduced] at h ⊢
        by_cases hstuck : k.reducedStart w ≤ state.start ∨ state.previousEnd < k.reducedStart w
        · rw [if_pos hstuck] at h
          cases h
        rw [if_neg hstuck] at h ⊢
        have hstep : k.Step w ⟨k.reducedStart w, state.previousEnd⟩ :=
          ⟨fun hlast => hyields hlast.1, by rw [next_of_not_yields hyields, hprev]⟩
        obtain ⟨hforward, hbackward⟩ := @ih { state with start := k.reducedStart w } h
          ⟨by dsimp only; omega, hinside⟩
        constructor
        · intro chunk hchunk
          obtain ⟨w', hreached, hrest⟩ := hforward chunk hchunk
          exact ⟨w', hreached.head hstep, hrest⟩
        · intro w' hreached hyields'
          rcases hreached.cases_head with rfl | ⟨w₁, ⟨-, rfl⟩, hreached'⟩
          · exact absurd hyields' hyields
          · rw [← hstep.2] at hreached'
            exact hbackward w' hreached' hyields'
      · have hforward : ¬ (k.chosen w).1 ≤ state.previousEnd := by
          rw [hprev]
          exact Nat.not_le.mpr hyields
        have hstop : (if strip (slice k.text state.start (k.chosen w).1) = [] ∧
            (k.chosen w).1 < k.hardEnd w then k.hardEnd w else (k.chosen w).1) = k.stop w := by
          rw [hstart]
          rfl
        rw [if_neg hforward, hstop] at h ⊢
        cases htitle : titlePathAt k.index state.cache state.start with
        | error error =>
            rw [htitle] at h
            cases h
        | ok found =>
            obtain ⟨titlePath, cache⟩ := found
            rw [htitle] at h
            dsimp only at h ⊢
            cases hchunk : Chunk.fromSource (P := P) state.chunkIndex k.text state.start (k.stop w)
              titlePath .empty with
            | error error =>
                rw [hchunk] at h
                cases h
            | ok chunk =>
                obtain ⟨hend, -, hchunkStart, hchunkEnd, -⟩ := Chunk.fromSource_eq_ok hchunk
                have hspans : k.Spans w chunk := ⟨by rw [hchunkStart, hstart], hchunkEnd⟩
                rw [hchunk] at h
                dsimp only at h ⊢
                by_cases hlast : k.stop w = k.text.length
                · rw [if_pos hlast]
                  constructor
                  · rw [List.forall_mem_singleton]
                    exact ⟨w, .refl, hyields, hspans⟩
                  · intro w' hreached _
                    rcases hreached.cases_head with rfl | ⟨w₁, ⟨hnot, -⟩, -⟩
                    · exact ⟨chunk, List.mem_singleton_self chunk, hspans⟩
                    · exact absurd ⟨hyields, hlast⟩ hnot
                have hnext : (if (k.chosen w).2 = true then k.stop w else
                    chooseOverlapStart P.unicode k.text k.parserName k.index state.start
                      (max (state.start + 1) (k.stop w - k.chunker.targetOverlap)) (k.stop w)) =
                    k.nextStart w := by
                  rw [hstart]
                  rfl
                rw [if_neg hlast, hnext] at h ⊢
                by_cases hstuck : k.nextStart w ≤ state.start ∨ k.stop w < k.nextStart w
                · rw [if_pos hstuck] at h
                  cases h
                rw [if_neg hstuck] at h ⊢
                have hstep : k.Step w ⟨k.nextStart w, k.stop w⟩ :=
                  ⟨fun hlast' => hlast hlast'.2, (next_of_yields hyields).symm⟩
                obtain ⟨hforward', hbackward⟩ := @ih ⟨k.nextStart w, k.stop w, state.chunkIndex + 1,
                  cache⟩ h ⟨by dsimp only; omega, by dsimp only; omega⟩
                constructor
                · show ∀ c ∈ chunk :: _, _
                  rw [List.forall_mem_cons]
                  refine ⟨⟨w, .refl, hyields, hspans⟩, ?_⟩
                  intro c hc
                  obtain ⟨w', hreached, hrest⟩ := hforward' c hc
                  exact ⟨w', hreached.head hstep, hrest⟩
                · intro w' hreached hyields'
                  rcases hreached.cases_head with rfl | ⟨w₁, ⟨-, rfl⟩, hreached'⟩
                  · exact ⟨chunk, List.mem_cons_self, hspans⟩
                  · rw [← hstep.2] at hreached'
                    obtain ⟨c, hc, hspans'⟩ := hbackward w' hreached' hyields'
                    exact ⟨c, List.mem_cons_of_mem _ hc, hspans'⟩

end Chunking

/-! ## The chunks of a document -/

/-- What a run over a parsed document is about, once its boundaries are indexed. -/
def ParsedArtifact.chunking (a : ParsedArtifact P) (index : BoundaryIndex)
    (chunker : RecursiveTextChunker) : Chunking P :=
  ⟨a.text, a.parserName, index, chunker⟩

/-- A run over a parsed document: the index answers for the boundaries, and the chunks are those of the
windows that yield one. -/
structure ChunkRun (a : ParsedArtifact P) (bs : List StructuralBoundary) (k : Chunking P)
    (chunks : List (Chunk P)) : Prop where
  text_eq : k.text = a.text
  parserName_eq : k.parserName = a.parserName
  reads : IndexReads k.index bs
  ordered : Ordered bs
  chunk_window : ∀ chunk ∈ chunks, ∃ w, k.Reached w ∧ k.Yields w ∧ k.Spans w chunk
  window_chunk : ∀ w, k.Reached w → k.Yields w → ∃ chunk ∈ chunks, k.Spans w chunk
  source : ∀ chunk ∈ chunks, chunk.text = slice a.text chunk.startOffset chunk.endOffset

/-- **The chunks of an artifact** are those of the windows of a run. -/
theorem chunk_windows {a : ParsedArtifact P} {bs : List StructuralBoundary} (h : a.Represented bs)
    (hsize : a.text.length < 2 ^ 31) (chunker : RecursiveTextChunker) :
    ∃ index chunks, indexCompactBoundaries a.boundaries = .ok index ∧
      chunker.chunk a = ⟨chunks, .done⟩ ∧ ChunkRun a bs (a.chunking index chunker) chunks := by
  obtain ⟨⟨blocks, nodes, hrep⟩, hordered, hinside⟩ := h
  obtain ⟨chunks, hchunks, htiles⟩ := hrep.chunk_tilesText hordered hinside hsize chunker
  obtain ⟨index, hindex, hreads⟩ := indexCompactBoundaries_represents hrep hordered hinside hsize
  have htext := a.valid_fields.1
  have hloop : chunker.chunkLoop (P := P) a.text a.parserName index (a.text.length + 1)
      ⟨0, 0, 0, .new⟩ = ⟨chunks, .done⟩ := by
    rw [← hchunks, RecursiveTextChunker.chunk, RecursiveTextChunker.chunkText, if_neg htext]
    simp only [indexBoundaries, hindex]
  have hrun := @Chunking.chunkLoop_windows P (a.chunking index chunker) (a.text.length + 1)
    ⟨0, 0, 0, .new⟩
  have hloop' : (a.chunking index chunker).chunker.chunkLoop (P := P)
      (a.chunking index chunker).text (a.chunking index chunker).parserName
      (a.chunking index chunker).index (a.text.length + 1) ⟨0, 0, 0, .new⟩ = ⟨chunks, .done⟩ := hloop
  rw [hloop'] at hrun
  obtain ⟨hforward, hbackward⟩ := hrun rfl ⟨le_refl 0, List.length_pos_of_ne_nil htext⟩
  exact ⟨index, chunks, hindex, hchunks, {
    text_eq := rfl
    parserName_eq := rfl
    reads := hreads
    ordered := hordered
    chunk_window := hforward
    window_chunk := hbackward
    source := fun chunk hchunk => (htiles.source chunk hchunk).1 }⟩

/-- The text of a parsed document is within the limit of the packed index. -/
theorem length_parsed {U : FilenameText} {p : Parser} (hp : p ∈ parsers) {source : Bytes}
    {a : ParsedArtifact P} (h : p.parse U P source = .ok a) : a.text.length < 2 ^ 31 := by
  obtain ⟨t, htext, -⟩ := artifact_of_parse hp h
  have hsize := t.length_le
  rw [htext]
  simp only [maxDocumentBytes] at hsize
  omega

end VeloxRag.Ingestion
