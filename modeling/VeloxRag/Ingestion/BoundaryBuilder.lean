import VeloxRag.Ingestion.BoundaryTable

/-!
# The boundary builder

`_BoundaryBuilder` packs boundaries while they arrive.  Records wait in `pending`
until the last `2 * p` of them are a pattern of `p` records written twice; the
pattern then becomes the active template, and each further record that continues it
only advances a position.  A record that breaks the pattern flushes the active
segment and sends the partial cycle back to `pending`.

A column holds unsigned 32-bit integers (bytes for kinds and levels); appending a
value that does not fit raises, and the exception ends the build.

## Main definitions

* `BoundaryBuilder` — the state of the builder.
* `BoundaryBuilder.addFields`, `add`, `extend`, `finish` — its interface.
* `PackedTable.fromSequence` — packing a whole sequence.
-/

namespace VeloxRag.Ingestion

open VeloxRag.Lib

/-- `_MAX_BOUNDARY_PATTERN_LENGTH`. -/
def maxBoundaryPatternLength : ℕ := 16

/-- The values an `array("I")` accepts. -/
def fits (n : ℕ) : Bool := n < 2 ^ 32

/-- The values an `array("B")` accepts. -/
def fitsByte (n : ℕ) : Bool := n < 2 ^ 8

def BoundaryRecord.fits (r : BoundaryRecord) : Bool :=
  fitsByte r.kindCode && Ingestion.fits r.startOffset && Ingestion.fits r.boundaryLength &&
    Ingestion.fits r.titlePathId && fitsByte r.headingLevel

theorem BoundaryRecord.fits_iff (r : BoundaryRecord) :
    r.fits = true ↔ r.kindCode < 2 ^ 8 ∧ r.startOffset < 2 ^ 32 ∧ r.boundaryLength < 2 ^ 32 ∧
      r.titlePathId < 2 ^ 32 ∧ r.headingLevel < 2 ^ 8 := by
  simp [BoundaryRecord.fits, Ingestion.fits, fitsByte, and_assoc]

structure BoundaryBuilder where
  finished : Bool
  table : PackedTable
  lastTitlePath : List Str
  lastTitleNodeIds : List ℕ
  pending : List BoundaryRecord
  activeTemplate : List BoundaryRecord
  activeRepeatCount : ℕ
  activeStride : ℕ
  activePosition : ℕ
  lastEndOffset : ℕ

def BoundaryBuilder.new : BoundaryBuilder where
  finished := false
  table := ⟨[], [], [], [], []⟩
  lastTitlePath := []
  lastTitleNodeIds := []
  pending := []
  activeTemplate := []
  activeRepeatCount := 0
  activeStride := 0
  activePosition := 0
  lastEndOffset := 0

/-- The length of the longest common prefix. -/
def prefixLength : List Str → List Str → ℕ
  | previous :: ps, current :: cs => if previous = current then prefixLength ps cs + 1 else 0
  | _, _ => 0

/-- The loop of `_title_path_id`: one node for each title below the common prefix. -/
def addTitleNodes : List Str → PackedTable → ℕ → List ℕ → Except ParserError (PackedTable × ℕ × List ℕ)
  | [], t, parent, nodeIds => .ok (t, parent, nodeIds)
  | title :: titles, t, parent, nodeIds =>
      let titleData := t.titleData ++ encode title
      if fits titleData.length && fits parent then
        let node := t.titleEndOffsets.length + 1
        addTitleNodes titles
          { t with
            titleData := titleData
            titleEndOffsets := t.titleEndOffsets ++ [titleData.length]
            titleParents := t.titleParents ++ [parent] }
          node (nodeIds ++ [node])
      else .error .boundaryInvalid

/-- `_append_segment`. -/
def PackedTable.appendSegment (t : PackedTable) (records : List BoundaryRecord)
    (repeatCount cycleStride : ℕ) : Except ParserError PackedTable :=
  match records with
  | [] => .ok t
  | first :: _ =>
      let total := t.len + records.length * repeatCount
      if records.all (·.fits) && fits t.templates.length && fits records.length &&
          fits repeatCount && fits first.startOffset && fits cycleStride && fits total then
        .ok { t with
          templates := t.templates ++ records
          segments := t.segments ++ [⟨t.templates.length, records.length, repeatCount,
            first.startOffset, cycleStride, total⟩] }
      else .error .boundaryInvalid

/-- `_period_stride`: the positive distance by which every record on the right repeats its
counterpart on the left. -/
def periodStride (left right : List BoundaryRecord) : Option ℕ :=
  match left, right with
  | l :: _, r :: _ =>
      let stride := r.startOffset - l.startOffset
      if stride = 0 then none
      else if (left.zip right).all fun p => decide (p.2 = p.1.shift stride) then some stride
      else none
  | _, _ => none

namespace BoundaryBuilder

variable (b : BoundaryBuilder)

/-- `_title_path_id`. -/
def titlePathId (titlePath : List Str) : Except ParserError (BoundaryBuilder × ℕ) := do
  if b.finished then throw .builderFinalized
  if titlePath = b.lastTitlePath then
    pure (b, b.lastTitleNodeIds.getLast?.getD 0)
  else
    let k := prefixLength b.lastTitlePath titlePath
    let nodeIds := b.lastTitleNodeIds.take k
    let (table, parent, nodeIds) ←
      addTitleNodes (titlePath.drop k) b.table (nodeIds.getLast?.getD 0) nodeIds
    pure ({ b with table := table, lastTitlePath := titlePath, lastTitleNodeIds := nodeIds }, parent)

/-- The first period whose last two cycles match, with its stride. -/
def findPeriod (pending : List BoundaryRecord) : Option (ℕ × ℕ) :=
  let count := pending.length
  ((List.range (min maxBoundaryPatternLength (count / 2))).map (· + 1)).findSome? fun period =>
    (periodStride (slice pending (count - 2 * period) (count - period))
      (pending.drop (count - period))).map fun stride => (period, stride)

/-- `_detect_pending_pattern`; `none` when no period matches. -/
def detectPendingPattern : Except ParserError (Option BoundaryBuilder) :=
  match findPeriod b.pending with
  | none => .ok none
  | some (period, stride) => do
      let count := b.pending.length
      let table ← b.table.appendSegment (b.pending.take (count - 2 * period)) 1 0
      pure (some { b with
        table := table
        activeTemplate := slice b.pending (count - 2 * period) (count - period)
        activeRepeatCount := 2
        activeStride := stride
        activePosition := 0
        pending := [] })

/-- `_buffer_record`. -/
def bufferRecord (record : BoundaryRecord) : Except ParserError BoundaryBuilder := do
  let b := { b with pending := b.pending ++ [record] }
  match ← b.detectPendingPattern with
  | some b' => pure b'
  | none =>
      if maxBoundaryPatternLength * 2 < b.pending.length then
        let table ← b.table.appendSegment (b.pending.take maxBoundaryPatternLength) 1 0
        pure { b with table := table, pending := b.pending.drop maxBoundaryPatternLength }
      else pure b

/-- `_flush_active`. -/
def flushActive : Except ParserError BoundaryBuilder :=
  if b.activeTemplate = [] then .ok b
  else do
    let table ← b.table.appendSegment b.activeTemplate b.activeRepeatCount b.activeStride
    let cycleOffset := b.activeRepeatCount * b.activeStride
    pure { b with
      table := table
      pending := b.pending ++ (b.activeTemplate.take b.activePosition).map (·.shift cycleOffset)
      activeTemplate := []
      activeRepeatCount := 0
      activeStride := 0
      activePosition := 0 }

/-- `_add_record`.  The position is inside the template whenever there is one. -/
def addRecord (record : BoundaryRecord) : Except ParserError BoundaryBuilder :=
  if b.activeTemplate = [] then b.bufferRecord record
  else do
    let expected ← column b.activeTemplate b.activePosition
    if record = expected.shift (b.activeRepeatCount * b.activeStride) then
      if b.activePosition + 1 = b.activeTemplate.length then
        pure { b with activeRepeatCount := b.activeRepeatCount + 1, activePosition := 0 }
      else pure { b with activePosition := b.activePosition + 1 }
    else
      let b ← b.flushActive
      b.bufferRecord record

/-- `add_fields`. -/
def addFields (kind : BoundaryKind) (startOffset endOffset : ℕ) (titlePath : List Str)
    (headingLevel : Option ℕ) : Except ParserError BoundaryBuilder := do
  validateFields kind startOffset endOffset titlePath headingLevel
  if startOffset < b.lastEndOffset then throw .boundaryInvalid
  let (b, titlePathId) ← b.titlePathId titlePath
  let b ← b.addRecord ⟨boundaryCodeByKind kind, startOffset, endOffset - startOffset, titlePathId,
    levelCode headingLevel⟩
  pure { b with lastEndOffset := endOffset }

/-- `add`. -/
def add (boundary : StructuralBoundary) : Except ParserError BoundaryBuilder :=
  b.addFields boundary.kind boundary.startOffset boundary.endOffset boundary.titlePath
    boundary.headingLevel

/-- `extend`. -/
def extend (boundaries : List StructuralBoundary) : Except ParserError BoundaryBuilder := do
  if b.finished then throw .builderFinalized
  boundaries.foldlM add b

/-- `finish`: the packed columns.  The builder is finished afterwards and accepts no more. -/
def finish : Except ParserError (PackedTable × BoundaryBuilder) := do
  if b.finished then throw .builderFinalized
  let b ← b.flushActive
  let table ← b.table.appendSegment b.pending 1 0
  pure (table, { b with table := table, pending := [], finished := true })

end BoundaryBuilder

/-- `StructuralBoundaries.from_sequence`. -/
def PackedTable.fromSequence (boundaries : List StructuralBoundary) :
    Except ParserError PackedTable := do
  let b ← BoundaryBuilder.new.extend boundaries
  let (table, _) ← b.finish
  pure table

end VeloxRag.Ingestion
