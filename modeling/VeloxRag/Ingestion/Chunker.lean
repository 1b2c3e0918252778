import VeloxRag.Ingestion.Artifact
import VeloxRag.Ingestion.BoundaryIndex
import VeloxRag.Ingestion.Chunk
import VeloxRag.Ingestion.Grapheme

/-!
# The recursive text chunker

The chunker walks over the text window by window.  In each window it chooses an end
through a cascade of preferences (the next heading, the last structural point, the last
line, the last sentence, the last safe cut), and then the start of the next window, which
lies inside the chunk so that neighbours overlap.  It is a generator: what it has yielded
stays yielded when it raises afterwards.

## Main definitions

* `Generated` — what a generator yielded and how it ended.
* `chooseEnd`, `chooseOverlapStart` — the two choices.
* `RecursiveTextChunker`, `RecursiveTextChunker.chunk` — the chunker.
-/

namespace VeloxRag.Ingestion

open VeloxRag.Lib

/-- How a generator ended; `running` stands for a loop that has not ended within its fuel. -/
inductive Outcome (ε : Type)
  | done
  | raised (error : ε)
  | running
deriving DecidableEq, Repr

/-- What a generator yielded and how it ended. -/
structure Generated (α ε : Type) where
  items : List α
  outcome : Outcome ε

/-- One item before the others. -/
def Generated.cons {α ε : Type} (item : α) (g : Generated α ε) : Generated α ε :=
  ⟨item :: g.items, g.outcome⟩

def maxChunkCodepoints : ℕ := 1200
def targetOverlapCodepoints : ℕ := 150

def markdownTextV1 : Str := "markdown_text_v1".toList

/-! ## The two choices -/

section Choices

variable (U : UnicodeData) (text : Str) (parserName : Str) (index : BoundaryIndex)

/-- The sequences of points at which a chunk may end, with a mark on the paragraphs. -/
def structuralPoints : List (Points × Bool) :=
  if parserName = markdownTextV1 then
    [(index.codeBlocks, false), (index.paragraphs, true), (index.listItems, false)]
  else [(index.paragraphs, true)]

/-- The first content under a heading at `start`, which is not separated from the heading. -/
def headingContentStart (start minimumEnd : ℕ) : Option ℕ :=
  if parserName = markdownTextV1 ∧ containsPoint index.headings start = true then
    firstPoint index.structuralStarts (start + 1) (minimumEnd + 1)
  else none

/-- A structural point before the minimum end, unless it would leave a heading or a paragraph of
its own. -/
def earlyPoint (start previousEnd minimumEnd : ℕ) (points : Points × Bool) : Option ℕ :=
  let selected := lastPoint points.1 previousEnd minimumEnd
  if selected = headingContentStart parserName index start minimumEnd ∨
      (parserName = markdownTextV1 ∧ points.2 = true ∧
        selected = paragraphEndStartingAt index start) then none
  else selected

/-- The choices of `_choose_end` that look at the text only. -/
def chooseTextEnd (start previousEnd minimumEnd hardEnd : ℕ) : ℕ × Bool :=
  let preferredFloor := max previousEnd minimumEnd
  let newline (lower upper : ℕ) :=
    if parserName = markdownTextV1 then none else lastNewlinePoint text lower upper
  match newline preferredFloor hardEnd with
  | some point => (point, false)
  | none =>
      match newline previousEnd minimumEnd with
      | some point => (point, true)
      | none =>
          match lastSentenceEnd text start preferredFloor hardEnd with
          | some sentence => (alignSentenceBoundary U text sentence hardEnd start, false)
          | none =>
              match lastSentenceEnd text start previousEnd minimumEnd with
              | some sentence => (alignSentenceBoundary U text sentence hardEnd start, true)
              | none => (safeEnd U text hardEnd start, false)

/-- `_choose_end`: the end of the chunk, and whether the next chunk starts there without an
overlap. -/
def chooseEnd (start previousEnd minimumEnd hardEnd : ℕ) (finalWindow : Bool) : ℕ × Bool :=
  let preferredFloor := max previousEnd minimumEnd
  let nextHeading := if parserName = markdownTextV1 then
    firstPoint index.headings (max start previousEnd + 1) (hardEnd + 1) else none
  match nextHeading with
  | some heading => (heading, true)
  | none =>
      if finalWindow then (hardEnd, false)
      else
        match (structuralPoints parserName index).findSome?
          fun points => lastPoint points.1 preferredFloor hardEnd with
        | some selected => (selected, false)
        | none =>
            match (structuralPoints parserName index).findSome?
              (earlyPoint parserName index start previousEnd minimumEnd) with
            | some selected => (selected, true)
            | none => chooseTextEnd U text parserName start previousEnd minimumEnd hardEnd

/-- The sequences of points at which an overlap may start. -/
def overlapPoints : List Points :=
  if parserName = markdownTextV1 then
    [index.headings, index.codeBlocks, index.paragraphs, index.listItems]
  else [index.paragraphs]

/-- `_choose_overlap_start`. -/
def chooseOverlapStart (chunkStart overlapTarget stop : ℕ) : ℕ :=
  if containsPoint index.headings stop then stop
  else
    match (overlapPoints parserName index).findSome?
      fun points => firstPoint points overlapTarget stop with
    | some selected => selected
    | none =>
        match if parserName = markdownTextV1 then none
          else firstNewlinePoint text overlapTarget stop with
        | some newline => newline
        | none =>
            match firstSentenceEnd text chunkStart overlapTarget stop with
            | some sentence => alignSentenceBoundary U text sentence stop chunkStart
            | none => safeStart U text overlapTarget stop chunkStart

end Choices

/-! ## The chunker -/

/-- A chunker with the sizes its constructor accepts. -/
structure RecursiveTextChunker where
  maxChunk : ℕ
  targetOverlap : ℕ
  max_pos : 1 ≤ maxChunk
  max_le : maxChunk ≤ maxChunkCodepoints
  overlap_lt : targetOverlap < maxChunk
  overlap_le : targetOverlap ≤ targetOverlapCodepoints

/-- Where the boundaries of an artifact come from: packed, or a plain sequence. -/
inductive BoundarySource
  | compact (table : PackedTable)
  | plain (boundaries : List StructuralBoundary)

/-- `_index_boundaries`. -/
def indexBoundaries : BoundarySource → Except ParserError BoundaryIndex
  | .compact table => indexCompactBoundaries table
  | .plain boundaries => .ok (indexPlainBoundaries boundaries)

/-- The local variables of `chunk`, with the cache of the title lookup. -/
structure ChunkState where
  start : ℕ
  previousEnd : ℕ
  chunkIndex : ℕ
  cache : TitleCache

namespace RecursiveTextChunker

/-- The constructor. -/
def make (maxChunk targetOverlap : ℤ) : Except ChunkError RecursiveTextChunker :=
  if h : (1 ≤ maxChunk ∧ maxChunk ≤ maxChunkCodepoints) ∧
      (0 ≤ targetOverlap ∧ targetOverlap < maxChunk) ∧ targetOverlap ≤ targetOverlapCodepoints then
    .ok ⟨maxChunk.toNat, targetOverlap.toNat, by omega, by omega, by omega, by omega⟩
  else .error .configInvalid

def name : Str := "recursive_text_v1".toList
def version : Str := "1".toList

/-- `config`. -/
def config (P : Platform) (chunker : RecursiveTextChunker) : Mapping P where
  members := [("max_chunk_codepoints".toList, .int chunker.maxChunk),
    ("target_overlap_codepoints".toList, .int chunker.targetOverlap)]
  unique := by simp [Json.UniqueKeys, Json.UniqueKeysMembers]

variable {P : Platform} (chunker : RecursiveTextChunker) (text : Str) (parserName : Str)
  (index : BoundaryIndex)

/-- The loop of `chunk`. -/
def chunkLoop : ℕ → ChunkState → Generated (Chunk P) ChunkError
  | 0, _ => ⟨[], .running⟩
  | fuel + 1, state =>
      if state.start < text.length then
        let hardEnd := min (state.start + chunker.maxChunk) text.length
        let minimumEnd := state.start + chunker.targetOverlap
        let chosen := chooseEnd P.unicode text parserName index state.start state.previousEnd
          minimumEnd hardEnd (decide (hardEnd = text.length))
        if chosen.1 ≤ state.previousEnd then
          let reducedOverlapStart := safeStart P.unicode text (state.start + 1) state.previousEnd
            state.start
          if reducedOverlapStart ≤ state.start ∨ state.previousEnd < reducedOverlapStart then
            ⟨[], .raised .noProgress⟩
          else chunkLoop fuel { state with start := reducedOverlapStart }
        else
          -- a window that is blank is widened, since a blank chunk carries nothing
          let stop := if strip (slice text state.start chosen.1) = [] ∧ chosen.1 < hardEnd then hardEnd
            else chosen.1
          match titlePathAt index state.cache state.start with
          | .error e => ⟨[], .raised (.boundaries e)⟩
          | .ok (titlePath, cache) =>
              match Chunk.fromSource state.chunkIndex text state.start stop titlePath .empty with
              | .error e => ⟨[], .raised e⟩
              | .ok chunk =>
                  if stop = text.length then ⟨[chunk], .done⟩
                  else
                    let nextStart := if chosen.2 then stop
                      else chooseOverlapStart P.unicode text parserName index state.start
                        (max (state.start + 1) (stop - chunker.targetOverlap)) stop
                    if nextStart ≤ state.start ∨ stop < nextStart then ⟨[chunk], .raised .noProgress⟩
                    else (chunkLoop fuel ⟨nextStart, stop, state.chunkIndex + 1, cache⟩).cons chunk
      else ⟨[], .done⟩

/-- `chunk` on a text and its boundaries.  The start of the window grows in every turn, so the
length of the text bounds the turns. -/
def chunkText (source : BoundarySource) : Generated (Chunk P) ChunkError :=
  if text = [] then ⟨[], .done⟩
  else
    match indexBoundaries source with
    | .error e => ⟨[], .raised (.boundaries e)⟩
    | .ok index => chunker.chunkLoop text parserName index (text.length + 1) ⟨0, 0, 0, .new⟩

/-- `RecursiveTextChunker.chunk`. -/
def chunk (artifact : ParsedArtifact P) : Generated (Chunk P) ChunkError :=
  chunker.chunkText artifact.text artifact.parserName (.compact artifact.boundaries)

end RecursiveTextChunker

end VeloxRag.Ingestion
