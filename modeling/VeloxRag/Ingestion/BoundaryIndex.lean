import VeloxRag.Ingestion.BoundaryBuilder

/-!
# Boundary indexes

The chunker asks a boundary index for points: the first or last start or end of some
kind of boundary inside a window, whether a point is one, where a paragraph ends, and
which titles stand above an offset.  There are two indexes.  A plain sequence is read
into sorted lists.  A packed table is never written out: the points of a segment's
template are computed once and the copies are reached by arithmetic, with the first
point of a copy skipped where it repeats the last point of the copy before it.

## Main definitions

* `PackedRunPoints`, `packedPoints` — the points of a packed table.
* `PackedRunPoints.first`, `last`, `locate` — searches that choose a segment first.
* `TitleCache`, `compactTitlePathAt` — the title lookup of a packed table, with its cache.
* `BoundaryIndex`, `indexCompactBoundaries`, `indexPlainBoundaries` — the two indexes.
* `firstPoint`, `lastPoint`, `containsPoint`, `paragraphEndStartingAt`, `titlePathAt` — the
  queries of the chunker.
-/

namespace VeloxRag.Ingestion

open VeloxRag.Lib

inductive PointMode
  | starts
  | ends
  | both
deriving DecidableEq, Repr

/-- A row of the segment columns of `_PackedRunPoints`. -/
structure PointSegment where
  templateStart : ℕ
  templateCount : ℕ
  cycleStride : ℕ
  initialSkip : ℕ
  repeatSkip : ℕ
  cumulativeCount : ℕ
  firstPoint : ℕ
  lastPoint : ℕ
deriving DecidableEq, Repr

/-- The columns of `_PackedRunPoints`. -/
structure PackedRunPoints where
  templatePoints : List ℕ
  templateLengths : List ℕ
  segments : List PointSegment
deriving DecidableEq, Repr

namespace PackedRunPoints

variable (p : PackedRunPoints)

/-- `__len__`. -/
def len : ℕ := (p.segments.getLast?.map (·.cumulativeCount)).getD 0

/-- `_point_position`: the cycle and the row of the template. -/
def pointPosition (segment : PointSegment) (localIndex : ℕ) : ℕ × ℕ :=
  let firstCount := segment.templateCount - segment.initialSkip
  if localIndex < firstCount then (0, segment.initialSkip + localIndex)
  else
    let repeatCount := segment.templateCount - segment.repeatSkip
    let repeatedIndex := localIndex - firstCount
    (repeatedIndex / repeatCount + 1, segment.repeatSkip + repeatedIndex % repeatCount)

/-- `_point_in_segment`. -/
def pointInSegment (segment : PointSegment) (localIndex : ℕ) : ℕ :=
  let position := pointPosition segment localIndex
  p.templatePoints.getD (segment.templateStart + position.2) 0 + position.1 * segment.cycleStride

/-- The running total before a segment. -/
def previousCount (segmentIndex : ℕ) : ℕ :=
  if segmentIndex = 0 then 0
  else (p.segments.map (·.cumulativeCount)).getD (segmentIndex - 1) 0

/-- `_segment_point_count`. -/
def segmentPointCount (segmentIndex : ℕ) : ℕ :=
  (p.segments.map (·.cumulativeCount)).getD segmentIndex 0 - p.previousCount segmentIndex

/-- The first segment whose last point is not below the offset. -/
def segmentReaching (offset : ℕ) : ℕ :=
  bisect (fun middle => decide ((p.segments.map (·.lastPoint)).getD middle 0 < offset)) 0
    p.segments.length

/-- The first point of a segment that is not below the offset. -/
def localReaching (segmentIndex : ℕ) (segment : PointSegment) (offset : ℕ) : ℕ :=
  bisect (fun middle => decide (p.pointInSegment segment middle < offset)) 0
    (p.segmentPointCount segmentIndex)

/-- `first`. -/
def first (lowerInclusive upperExclusive : ℕ) : Option ℕ :=
  let position := p.segmentReaching lowerInclusive
  match p.segments[position]? with
  | none => none
  | some segment =>
      let candidate := p.pointInSegment segment (p.localReaching position segment lowerInclusive)
      if candidate < upperExclusive then some candidate else none

/-- `last`. -/
def last (lowerExclusive upperInclusive : ℕ) : Option ℕ :=
  let position := bisect
    (fun middle => decide ((p.segments.map (·.firstPoint)).getD middle 0 ≤ upperInclusive)) 0
    p.segments.length
  if position = 0 then none
  else
    match p.segments[position - 1]? with
    | none => none
    | some segment =>
        let candidateIndex := bisect
          (fun middle => decide (p.pointInSegment segment middle ≤ upperInclusive)) 0
          (p.segmentPointCount (position - 1))
        if candidateIndex = 0 then none
        else
          let candidate := p.pointInSegment segment (candidateIndex - 1)
          if lowerExclusive < candidate then some candidate else none

/-- `_locate`: the segment of a point and its index in the segment. -/
def locate (offset : ℕ) : Option (PointSegment × ℕ) :=
  let position := p.segmentReaching offset
  match p.segments[position]? with
  | none => none
  | some segment =>
      let localIndex := p.localReaching position segment offset
      if p.segmentPointCount position ≤ localIndex ∨ p.pointInSegment segment localIndex ≠ offset then
        none
      else some (segment, localIndex)

/-- `contains`. -/
def contains (offset : ℕ) : Bool := (p.locate offset).isSome

/-- `boundary_end_starting_at`. -/
def boundaryEndStartingAt (offset : ℕ) : Option ℕ :=
  match p.locate offset with
  | none => none
  | some (segment, localIndex) =>
      if p.templateLengths = [] then none
      else
        let position := pointPosition segment localIndex
        some (offset + p.templateLengths.getD (segment.templateStart + position.2) 0)

/-- `__getitem__` at a position, after a negative index has been counted from the end. -/
def getAt (index : ℕ) : Option ℕ :=
  let position := bisectRight (p.segments.map (·.cumulativeCount)) index
  (p.segments[position]?).map fun segment =>
    p.pointInSegment segment (index - p.previousCount position)

/-- `__getitem__` at an integer; `none` is an `IndexError`. -/
def getItem (index : ℤ) : Option ℕ :=
  let position := if index < 0 then index + p.len else index
  if 0 ≤ position ∧ position < p.len then p.getAt position.toNat else none

/-- `__getitem__` at a slice; `none` is the `ValueError` of a step that is zero. -/
def getSlice (s : PySlice) : Option (List ℕ) :=
  (s.positions p.len).bind fun positions => positions.mapM p.getItem

/-- Every value fits its column. -/
def fits : Bool :=
  p.templatePoints.all Ingestion.fits && p.templateLengths.all Ingestion.fits &&
    p.segments.all fun s => Ingestion.fits s.templateStart && Ingestion.fits s.templateCount &&
      Ingestion.fits s.cycleStride && fitsByte s.initialSkip && fitsByte s.repeatSkip &&
      Ingestion.fits s.cumulativeCount && Ingestion.fits s.firstPoint && Ingestion.fits s.lastPoint

end PackedRunPoints

/-! ## Collecting the points of a packed table -/

/-- The points a template row adds, without repeating the last point. -/
def rowPoints (mode : PointMode) (points : List ℕ) (r : BoundaryRecord) : List ℕ :=
  match mode with
  | .starts => appendDistinct points r.startOffset
  | .ends => appendDistinct points (r.startOffset + r.boundaryLength)
  | .both => appendDistinct (appendDistinct points r.startOffset) (r.startOffset + r.boundaryLength)

/-- The lengths that go with the points, collected only for starts. -/
def rowLengths (mode : PointMode) (points lengths : List ℕ) (r : BoundaryRecord) : List ℕ :=
  if mode = .starts ∧ points.getLast? ≠ some r.startOffset then lengths ++ [r.boundaryLength]
  else lengths

/-- The record has one of the kinds. -/
def hasKind (kinds : List BoundaryKind) (r : BoundaryRecord) : Bool :=
  (boundaryKindByCode[r.kindCode]?).any (· ∈ kinds)

/-- Points and lengths of the rows of one template that have one of the kinds. -/
def collectRows (kinds : List BoundaryKind) (mode : PointMode) :
    List ℕ → List ℕ → List BoundaryRecord → List ℕ × List ℕ
  | points, lengths, [] => (points, lengths)
  | points, lengths, r :: rs =>
      if hasKind kinds r then
        collectRows kinds mode (rowPoints mode points r) (rowLengths mode points lengths r) rs
      else collectRows kinds mode points lengths rs

/-- One turn of the loop of `_packed_points`: the columns so far and the last point. -/
def addPointSegment (t : PackedTable) (kinds : List BoundaryKind) (mode : PointMode)
    (acc : PackedRunPoints × Option ℕ) (segment : Segment) : PackedRunPoints × Option ℕ :=
  let (p, previousLast) := acc
  let rows := slice t.templates segment.templateStart
    (segment.templateStart + segment.templateCount)
  let (points, lengths) := collectRows kinds mode [] [] rows
  match points.head?, points.getLast? with
  | some firstOfTemplate, some lastOfTemplate =>
      let p' := { p with
        templatePoints := p.templatePoints ++ points
        templateLengths := p.templateLengths ++ lengths }
      let repeatCount := segment.repeatCount
      let cycleStride := segment.cycleStride
      let initialSkip := if previousLast = some firstOfTemplate then 1 else 0
      let repeatSkip :=
        if 1 < repeatCount ∧ lastOfTemplate = firstOfTemplate + cycleStride then 1 else 0
      let firstCount := points.length - initialSkip
      let laterCount := points.length - repeatSkip
      let pointCount := firstCount + (repeatCount - 1) * laterCount
      if pointCount = 0 then (p', previousLast)
      else
        let firstPoint :=
          if firstCount ≠ 0 then points.getD initialSkip 0
          else points.getD repeatSkip 0 + cycleStride
        let lastPoint := lastOfTemplate + (repeatCount - 1) * cycleStride
        ({ p' with
            segments := p'.segments ++ [⟨p.templatePoints.length, points.length, cycleStride,
              initialSkip, repeatSkip, p.len + pointCount, firstPoint, lastPoint⟩] },
          some lastPoint)
  | _, _ => (p, previousLast)

/-- `_packed_points`, with an `OverflowError` when a value does not fit its column. -/
def packedPoints (t : PackedTable) (kinds : List BoundaryKind) (mode : PointMode) :
    Except ParserError PackedRunPoints :=
  let p := (t.segments.foldl (addPointSegment t kinds mode) (⟨[], [], []⟩, none)).1
  if p.fits then .ok p else .error .columnOverflow

/-! ## Titles above an offset -/

/-- `_path_cache`, from node to path. -/
abbrev TitleCache := List (ℕ × List Str)

/-- The cache a lookup starts with: the root only. -/
def TitleCache.new : TitleCache := [(0, [])]

/-- The nodes from a node up that are not cached, nearest first, and the first that is. -/
def missingNodes (t : PackedTable) (cache : TitleCache) :
    ℕ → ℕ → List ℕ → Except ParserError (List ℕ × ℕ)
  | fuel, ancestor, missing =>
      if (cache.lookup ancestor).isSome then .ok (missing, ancestor)
      else
        match fuel with
        | 0 => .error .titleCycle
        | fuel + 1 => do
            let parent ← t.titleParent ancestor
            missingNodes t cache fuel parent (missing ++ [ancestor])

/-- Decode the missing nodes from the top down and cache each path. -/
def cacheNodes (t : PackedTable) : List ℕ → List Str → TitleCache → Except ParserError TitleCache
  | [], _, cache => .ok cache
  | node :: nodes, path, cache => do
      let title ← t.decodeTitleNode node
      cacheNodes t nodes (path ++ [title]) ((node, path ++ [title]) :: cache)

/-- The nodes on the way to the root, the root excluded. -/
def reachableNodes (t : PackedTable) : ℕ → ℕ → Except ParserError (List ℕ)
  | _, 0 => .ok []
  | 0, _ + 1 => .error .titleCycle
  | fuel + 1, node + 1 => do
      let parent ← t.titleParent (node + 1)
      let rest ← reachableNodes t fuel parent
      pure ((node + 1) :: rest)

/-- `_CompactTitlePathLookup.at`: the path, and the cache cut to the path's own nodes. -/
def compactTitlePathAt (t : PackedTable) (cache : TitleCache) (offset : ℕ) :
    Except ParserError (List Str × TitleCache) := do
  let pathId ← t.titlePathIdAtOffset offset
  let (missing, ancestor) ← missingNodes t cache (t.titleParents.length + 1) pathId []
  let cache ← cacheNodes t missing.reverse ((cache.lookup ancestor).getD []) cache
  let reachable ← reachableNodes t (t.titleParents.length + 1) pathId
  let cache := cache.filter fun entry => entry.1 = 0 || entry.1 ∈ reachable
  match cache.lookup pathId with
  | some path => pure (path, cache)
  | none => throw .columnCorrupt

/-! ## The indexes -/

/-- A sequence of points, packed or written out. -/
inductive Points
  | packed (points : PackedRunPoints)
  | plain (points : List ℕ)

/-- The titles of an index: a packed table, or the offsets and paths of a plain sequence. -/
inductive TitleIndex
  | compact (boundaries : PackedTable)
  | plain (titleOffsets : List ℕ) (titlePaths : List (List Str))

structure BoundaryIndex where
  headings : Points
  structuralStarts : Points
  codeBlocks : Points
  paragraphs : Points
  paragraphStarts : Points
  paragraphEnds : Points
  listItems : Points
  titles : TitleIndex

/-- `_index_compact_boundaries`. -/
def indexCompactBoundaries (t : PackedTable) : Except ParserError BoundaryIndex := do
  let headingStarts ← packedPoints t [.heading] .starts
  let structuralStarts ← packedPoints t [.paragraph, .listItem, .fencedCodeBlock] .starts
  let paragraphStarts ← packedPoints t [.paragraph] .starts
  let paragraphEnds ← packedPoints t [.paragraph] .ends
  let codeBlocks ← packedPoints t [.fencedCodeBlock] .both
  let paragraphs ← packedPoints t [.paragraph] .both
  let listItems ← packedPoints t [.listItem] .both
  pure {
    headings := .packed headingStarts
    structuralStarts := .packed structuralStarts
    codeBlocks := .packed codeBlocks
    paragraphs := .packed paragraphs
    paragraphStarts := .packed paragraphStarts
    paragraphEnds := .packed paragraphEnds
    listItems := .packed listItems
    titles := .compact t }

/-- The lists the loop of `_index_boundaries` fills. -/
structure PlainLists where
  headings : List ℕ
  structuralStarts : List ℕ
  codeBlocks : List ℕ
  paragraphs : List ℕ
  paragraphStarts : List ℕ
  paragraphEnds : List ℕ
  listItems : List ℕ
  titleOffsets : List ℕ
  titlePaths : List (List Str)

def PlainLists.empty : PlainLists := ⟨[], [], [], [], [], [], [], [], []⟩

/-- One turn of the loop of `_index_boundaries`. -/
def PlainLists.add (l : PlainLists) (b : StructuralBoundary) : PlainLists :=
  let l := { l with
    titleOffsets := l.titleOffsets ++ [b.startOffset]
    titlePaths := l.titlePaths ++ [b.titlePath] }
  match b.kind with
  | .heading => { l with headings := appendDistinct l.headings b.startOffset }
  | .fencedCodeBlock =>
      { l with
        structuralStarts := appendDistinct l.structuralStarts b.startOffset
        codeBlocks := appendDistinct (appendDistinct l.codeBlocks b.startOffset) b.endOffset }
  | .paragraph =>
      { l with
        structuralStarts := appendDistinct l.structuralStarts b.startOffset
        paragraphStarts := l.paragraphStarts ++ [b.startOffset]
        paragraphEnds := l.paragraphEnds ++ [b.endOffset]
        paragraphs := appendDistinct (appendDistinct l.paragraphs b.startOffset) b.endOffset }
  | .listItem =>
      { l with
        structuralStarts := appendDistinct l.structuralStarts b.startOffset
        listItems := appendDistinct (appendDistinct l.listItems b.startOffset) b.endOffset }

/-- `_index_boundaries` on a plain sequence. -/
def indexPlainBoundaries (bs : List StructuralBoundary) : BoundaryIndex :=
  let l := bs.foldl PlainLists.add .empty
  { headings := .plain l.headings
    structuralStarts := .plain l.structuralStarts
    codeBlocks := .plain l.codeBlocks
    paragraphs := .plain l.paragraphs
    paragraphStarts := .plain l.paragraphStarts
    paragraphEnds := .plain l.paragraphEnds
    listItems := .plain l.listItems
    titles := .plain l.titleOffsets l.titlePaths }

/-! ## Queries -/

/-- `len(points)`. -/
def Points.len : Points → ℕ
  | .packed p => p.len
  | .plain xs => xs.length

/-- `points[index]`. -/
def Points.getItem : Points → ℤ → Option ℕ
  | .packed p, index => p.getItem index
  | .plain xs, index => pyIndex xs index

/-- `points[slice]`. -/
def Points.getSlice : Points → PySlice → Option (List ℕ)
  | .packed p, s => p.getSlice s
  | .plain xs, s => pySlice xs s

/-- `_last_point`. -/
def lastPoint : Points → ℕ → ℕ → Option ℕ
  | .packed p, lowerExclusive, upperInclusive => p.last lowerExclusive upperInclusive
  | .plain xs, lowerExclusive, upperInclusive =>
      let index := bisectRight xs upperInclusive
      if index = 0 then none
      else if lowerExclusive < xs.getD (index - 1) 0 then some (xs.getD (index - 1) 0)
      else none

/-- `_first_point`. -/
def firstPoint : Points → ℕ → ℕ → Option ℕ
  | .packed p, lowerInclusive, upperExclusive => p.first lowerInclusive upperExclusive
  | .plain xs, lowerInclusive, upperExclusive =>
      let index := bisectLeft xs lowerInclusive
      if index < xs.length ∧ xs.getD index 0 < upperExclusive then some (xs.getD index 0)
      else none

/-- `_contains_point`. -/
def containsPoint : Points → ℕ → Bool
  | .packed p, offset => p.contains offset
  | .plain xs, offset =>
      let index := bisectLeft xs offset
      decide (index < xs.length ∧ xs.getD index 0 = offset)

/-- `_paragraph_end_starting_at`. -/
def paragraphEndStartingAt (index : BoundaryIndex) (offset : ℕ) : Option ℕ :=
  match index.paragraphStarts, index.paragraphEnds with
  | .packed starts, _ => starts.boundaryEndStartingAt offset
  | .plain starts, ends =>
      let position := bisectLeft starts offset
      if position < starts.length ∧ starts.getD position 0 = offset then ends.getItem position
      else none

/-- `_title_path_at`. -/
def titlePathAt (index : BoundaryIndex) (cache : TitleCache) (offset : ℕ) :
    Except ParserError (List Str × TitleCache) :=
  match index.titles with
  | .compact t => compactTitlePathAt t cache offset
  | .plain titleOffsets titlePaths =>
      let position := bisectRight titleOffsets offset
      if position = 0 then .ok ([], cache) else .ok (titlePaths.getD (position - 1) [], cache)

end VeloxRag.Ingestion
