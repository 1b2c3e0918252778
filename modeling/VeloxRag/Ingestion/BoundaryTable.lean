import VeloxRag.Lib.Bisect
import VeloxRag.Lib.Periodic
import VeloxRag.Lib.PySlice
import VeloxRag.Ingestion.Boundary

/-!
# The packed boundary table

`StructuralBoundaries` stores a sequence of boundaries as periodic segments: a
segment names a stretch of template rows, how often the stretch repeats and by how
much each copy moves.  Titles are kept once, as nodes of a tree whose rows hold the
UTF-8 bytes of the title and the parent.

The columns of the source are parallel arrays; here the row is a record and a column
is the list of rows.  Reading outside a column raises, as it does in the source.

## Main definitions

* `BoundaryRecord`, `Segment`, `PackedTable` — rows and columns.
* `PackedTable.titlePath` — the walk up the title nodes.
* `PackedTable.len`, `iter`, `getItem`, `getSlice` — the sequence protocol.
* `PackedTable.titlePathIdAtOffset` — the lookup by offset.
* `PackedTable.validateForTextLength` — the check of the parsed artifact.
-/

namespace VeloxRag.Ingestion

open VeloxRag.Lib

/-- A row of the template columns: what the builder buffers for one boundary. -/
structure BoundaryRecord where
  kindCode : ℕ
  startOffset : ℕ
  boundaryLength : ℕ
  titlePathId : ℕ
  headingLevel : ℕ
deriving DecidableEq, Repr

/-- The record a number of code points further on. -/
def BoundaryRecord.shift (d : ℕ) (r : BoundaryRecord) : BoundaryRecord :=
  { r with startOffset := r.startOffset + d }

@[simp] theorem BoundaryRecord.shift_zero (r : BoundaryRecord) : r.shift 0 = r := rfl

@[simp] theorem BoundaryRecord.shift_startOffset (d : ℕ) (r : BoundaryRecord) :
    (r.shift d).startOffset = r.startOffset + d := rfl

@[simp] theorem BoundaryRecord.shift_boundaryLength (d : ℕ) (r : BoundaryRecord) :
    (r.shift d).boundaryLength = r.boundaryLength := rfl

@[simp] theorem BoundaryRecord.shift_kindCode (d : ℕ) (r : BoundaryRecord) :
    (r.shift d).kindCode = r.kindCode := rfl

@[simp] theorem BoundaryRecord.shift_titlePathId (d : ℕ) (r : BoundaryRecord) :
    (r.shift d).titlePathId = r.titlePathId := rfl

@[simp] theorem BoundaryRecord.shift_headingLevel (d : ℕ) (r : BoundaryRecord) :
    (r.shift d).headingLevel = r.headingLevel := rfl

/-- A row of the segment columns. -/
structure Segment where
  templateStart : ℕ
  templateCount : ℕ
  repeatCount : ℕ
  firstStartOffset : ℕ
  cycleStride : ℕ
  cumulativeCount : ℕ
deriving DecidableEq, Repr

/-- The columns of `StructuralBoundaries`. -/
structure PackedTable where
  templates : List BoundaryRecord
  segments : List Segment
  titleData : Bytes
  titleEndOffsets : List ℕ
  titleParents : List ℕ
deriving DecidableEq

/-- Read a column. -/
def column {α : Type} (xs : List α) (i : ℕ) : Except ParserError α :=
  match xs[i]? with
  | some x => .ok x
  | none => .error .columnCorrupt

theorem column_eq_ok {α : Type} {xs : List α} {i : ℕ} {x : α} (h : xs[i]? = some x) :
    column xs i = .ok x := by
  simp [column, h]

namespace PackedTable

variable (t : PackedTable)

/-- `storage_run_count`. -/
def storageRunCount : ℕ := t.templates.length

/-- `_storage_segment_count`. -/
def storageSegmentCount : ℕ := t.segments.length

/-! ## Titles -/

/-- Where a title starts: where the one before it ends. -/
def titleStartOffset (titleIndex : ℕ) : Except ParserError ℕ :=
  if titleIndex = 0 then .ok 0 else column t.titleEndOffsets (titleIndex - 1)

/-- `_decode_title_node`, for a node identifier that is not zero. -/
def decodeTitleNode (pathId : ℕ) : Except ParserError Str := do
  let titleIndex := pathId - 1
  let startOffset ← t.titleStartOffset titleIndex
  let endOffset ← column t.titleEndOffsets titleIndex
  match decode? (slice t.titleData startOffset endOffset) with
  | some title => pure title
  | none => throw .columnCorrupt

/-- `_title_parent`. -/
def titleParent (pathId : ℕ) : Except ParserError ℕ :=
  if pathId = 0 then .ok 0 else column t.titleParents (pathId - 1)

/-- The loop of `_title_path`: `titles` grows from the leaf towards the root. -/
def titlePathGo : ℕ → ℕ → List Str → Except ParserError (List Str)
  | _, 0, titles => .ok titles
  | 0, _ + 1, _ => .error .titleCycle
  | fuel + 1, pathId + 1, titles => do
      let title ← t.decodeTitleNode (pathId + 1)
      let parent ← t.titleParent (pathId + 1)
      titlePathGo fuel parent (titles ++ [title])

/-- `_title_path`.  A path that reaches the root visits no node twice, which bounds the walk. -/
def titlePath (pathId : ℕ) : Except ParserError (List Str) := do
  let titles ← t.titlePathGo t.titleParents.length pathId []
  pure titles.reverse

/-! ## The sequence protocol -/

/-- `_boundary_at_segment_position` once the title path is known. -/
def boundaryAtTemplate (segment : Segment) (cycleIndex : ℕ) (record : BoundaryRecord)
    (path : List Str) : Except ParserError StructuralBoundary := do
  let startOffset := record.startOffset + cycleIndex * segment.cycleStride
  let kind ← column boundaryKindByCode record.kindCode
  StructuralBoundary.make kind startOffset (startOffset + record.boundaryLength) path
    (levelOfCode record.headingLevel)

/-- `_boundary_at_segment_position`. -/
def boundaryAtSegmentPosition (segment : Segment) (cycleIndex templatePosition : ℕ)
    (titlePath : Option (List Str)) : Except ParserError StructuralBoundary := do
  let record ← column t.templates (segment.templateStart + templatePosition)
  let path ← match titlePath with
    | some path => pure path
    | none => t.titlePath record.titlePathId
  boundaryAtTemplate segment cycleIndex record path

/-- `__len__`. -/
def len : ℕ := (t.segments.getLast?.map (·.cumulativeCount)).getD 0

/-- `bisect_right(self._cumulative_counts, index)`. -/
def segmentIndexOf (index : ℕ) : ℕ := bisectRight (t.segments.map (·.cumulativeCount)) index

/-- The running total before a segment. -/
def previousCount (segmentIndex : ℕ) : Except ParserError ℕ :=
  if segmentIndex = 0 then .ok 0
  else (·.cumulativeCount) <$> column t.segments (segmentIndex - 1)

/-- `__getitem__` at a position, after a negative index has been counted from the end. -/
def getAt (index : ℕ) : Except ParserError StructuralBoundary := do
  let segmentIndex := t.segmentIndexOf index
  let previousCount ← t.previousCount segmentIndex
  let segment ← column t.segments segmentIndex
  -- `_segment_position` is `divmod(local_index, template_count)`
  let localIndex := index - previousCount
  t.boundaryAtSegmentPosition segment (localIndex / segment.templateCount)
    (localIndex % segment.templateCount) none

/-- `__getitem__` at an integer. -/
def getItem (index : ℤ) : Except ParserError StructuralBoundary :=
  let position := if index < 0 then index + t.len else index
  if 0 ≤ position ∧ position < t.len then t.getAt position.toNat
  else .error .boundaryIndexOutOfRange

/-- `__getitem__` at a slice. -/
def getSlice (s : PySlice) : Except ParserError (List StructuralBoundary) :=
  match s.positions t.len with
  | none => .error .sliceStepZero
  | some positions => positions.mapM t.getItem

/-- The title path an iteration keeps between boundaries; `none` is the initial `-1`. -/
structure TitleCursor where
  previousPathId : Option ℕ
  titlePath : List Str

/-- Move the cursor to a path, walking the nodes only when the identifier changed. -/
def moveCursor (cursor : TitleCursor) (pathId : ℕ) : Except ParserError TitleCursor :=
  if cursor.previousPathId = some pathId then pure cursor
  else do
    let path ← t.titlePath pathId
    pure ⟨some pathId, path⟩

/-- Segment, cycle and template position of every boundary, in the order of the three loops. -/
def visits : List (Segment × ℕ × ℕ) :=
  t.segments.flatMap fun segment =>
    (List.range segment.repeatCount).flatMap fun cycleIndex =>
      (List.range segment.templateCount).map fun templatePosition =>
        (segment, cycleIndex, templatePosition)

def iterGo : TitleCursor → List (Segment × ℕ × ℕ) → Except ParserError (List StructuralBoundary)
  | _, [] => pure []
  | cursor, (segment, cycleIndex, templatePosition) :: rest => do
      let record ← column t.templates (segment.templateStart + templatePosition)
      let cursor ← t.moveCursor cursor record.titlePathId
      let boundary ← t.boundaryAtSegmentPosition segment cycleIndex templatePosition
        (some cursor.titlePath)
      let boundaries ← iterGo cursor rest
      pure (boundary :: boundaries)

/-- `__iter__`, run to its end. -/
def iter : Except ParserError (List StructuralBoundary) := t.iterGo ⟨none, []⟩ t.visits

/-! ## Lookup by offset -/

/-- The start offset in a template row. -/
def templateStartOffset (templateIndex : ℕ) : ℕ :=
  (t.templates.map (·.startOffset)).getD templateIndex 0

/-- `_title_path_id_at_offset` in a segment whose first boundary starts at or before the offset. -/
def titlePathIdInSegment (segment : Segment) (offset : ℕ) : Except ParserError ℕ :=
  let cycleIndex :=
    if 1 < segment.repeatCount then
      min (segment.repeatCount - 1)
        ((offset - t.templateStartOffset segment.templateStart) / segment.cycleStride)
    else 0
  let adjustedOffset := offset - cycleIndex * segment.cycleStride
  let lower := bisect (fun middle => decide (t.templateStartOffset middle ≤ adjustedOffset))
    segment.templateStart (segment.templateStart + segment.templateCount)
  if lower = segment.templateStart then
    if cycleIndex = 0 then .ok 0
    else (·.titlePathId) <$>
      column t.templates (segment.templateStart + segment.templateCount - 1)
  else (·.titlePathId) <$> column t.templates (lower - 1)

/-- `_title_path_id_at_offset`. -/
def titlePathIdAtOffset (offset : ℕ) : Except ParserError ℕ :=
  let position := bisectRight (t.segments.map (·.firstStartOffset)) offset
  if position = 0 then .ok 0
  else do
    let segment ← column t.segments (position - 1)
    t.titlePathIdInSegment segment offset

/-! ## The check of the parsed artifact -/

/-- The rows of one template: each of positive length and after the row before it. -/
def checkTemplate : ℕ → List BoundaryRecord → Option ℕ
  | cyclePreviousEnd, [] => some cyclePreviousEnd
  | cyclePreviousEnd, record :: records =>
      if record.boundaryLength = 0 ∨ record.startOffset < cyclePreviousEnd then none
      else checkTemplate (record.startOffset + record.boundaryLength) records

/-- The loop of `_validate_for_text_length`; the result is the number of rows it has seen. -/
def checkSegments (textLength : ℕ) : ℕ → ℕ → ℕ → List Segment → Except ParserError ℕ
  | _, _, expectedTemplateStart, [] => .ok expectedTemplateStart
  | previousEnd, previousCount, expectedTemplateStart, segment :: segments => do
      if segment.templateStart ≠ expectedTemplateStart ∨ segment.templateCount = 0 ∨
          segment.repeatCount = 0 ∨ segment.cumulativeCount ≠
            previousCount + segment.templateCount * segment.repeatCount then
        throw .artifactInvalid
      let first ← column t.templates segment.templateStart
      if first.startOffset ≠ segment.firstStartOffset then throw .artifactInvalid
      let rows := slice t.templates segment.templateStart
        (segment.templateStart + segment.templateCount)
      match checkTemplate first.startOffset rows with
      | none => throw .artifactInvalid
      | some cyclePreviousEnd =>
          if rows.length ≠ segment.templateCount then throw .columnCorrupt
          if 1 < segment.repeatCount ∧
              segment.cycleStride < cyclePreviousEnd - first.startOffset then
            throw .artifactInvalid
          let lastEnd := cyclePreviousEnd + segment.cycleStride * (segment.repeatCount - 1)
          if first.startOffset < previousEnd ∨ textLength < lastEnd then throw .artifactInvalid
          checkSegments textLength lastEnd segment.cumulativeCount
            (expectedTemplateStart + segment.templateCount) segments

/-- `_validate_for_text_length`.  Columns of different lengths cannot be written down here. -/
def validateForTextLength (textLength : ℕ) : Except ParserError Unit := do
  let seen ← t.checkSegments textLength 0 0 0 t.segments
  if seen ≠ t.templates.length then throw .artifactInvalid

end PackedTable

end VeloxRag.Ingestion
