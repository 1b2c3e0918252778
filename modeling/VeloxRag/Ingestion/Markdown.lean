import VeloxRag.Ingestion.BoundaryBuilder
import VeloxRag.Ingestion.MarkdownLine

/-!
# The Markdown scanner

The scanner walks over the lines of a document and adds a boundary for every heading,
fenced code block, list item and paragraph.  A list is scanned on its own: an item takes
the lines that continue it, and headings and fences nested in an item end it.  The stack
of open headings gives every boundary the titles above it.

Every loop has fuel here.  A loop that only looks ahead stops at the last line; the loops
that consume lines report `loopNotEnded` when they run out, which the specification rules
out.

## Main definitions

* `applyHeading`, `titlePathOf` — the stack of open headings.
* `nestedListStructure`, `itemLoop`, `consumeListBoundaries` — lists.
* `markdownBoundaries` — the whole document.
-/

namespace VeloxRag.Ingestion

/-- The open headings, outermost first: level and title. -/
abbrev HeadingStack := List (ℕ × Str)

/-- `_title_path`. -/
def titlePathOf (stack : HeadingStack) : List Str := stack.map (·.2)

/-- `_apply_heading`: close the headings of the same or a deeper level; a heading without a title
opens nothing. -/
def applyHeading (stack : HeadingStack) (level : ℕ) (title : Str) : HeadingStack :=
  let open_ := stack.rdropWhile fun entry => decide (level ≤ entry.1)
  if title = [] then open_ else open_ ++ [(level, title)]

variable (lines : LineIndex)

/-! ## Looking ahead -/

/-- The last line of a fenced block whose opening line is `endIndex`, or the last line there is. -/
def fenceEnd (closes : Str → Bool) : ℕ → ℕ → ℕ
  | 0, endIndex => endIndex
  | fuel + 1, endIndex =>
      if endIndex + 1 < lines.len then
        if closes (lines.get (endIndex + 1)).content then endIndex + 1
        else fenceEnd closes fuel (endIndex + 1)
      else endIndex

/-- The first line from `index` on that is not blank. -/
def skipBlank : ℕ → ℕ → ℕ
  | 0, index => index
  | fuel + 1, index =>
      if index < lines.len ∧ isBlankLine (lines.get index).content = true then
        skipBlank fuel (index + 1)
      else index

/-- The generator of `_setext_title`: the lines up to `endIndex` without their indentation. -/
def titleParts (endIndex contentIndent : ℕ) : ℕ → ℕ → Except ParserError (List Str)
  | 0, _ => .ok []
  | fuel + 1, index =>
      if index < endIndex then
        match removeIndent (lines.get index).content contentIndent with
        | none => .error (.scannerAssertion "nested Setext title indentation changed during parsing")
        | some relative => do
            let rest ← titleParts endIndex contentIndent fuel (index + 1)
            pure (strip relative :: rest)
      else .ok []

/-- `_setext_title`: the lines of an underlined heading, joined by spaces. -/
def setextTitle (startIndex endIndex contentIndent : ℕ) : Except ParserError Str := do
  let parts ← titleParts lines endIndex contentIndent (endIndex - startIndex) startIndex
  pure ([' '].intercalate parts)

/-! ## Lists -/

/-- `_NestedListScanState`. -/
structure NestedListScanState where
  contentIndent : Option ℕ
  plainThroughIndex : ℤ

namespace NestedListScanState

def new : NestedListScanState := ⟨none, -1⟩

/-- The state for another indentation starts over. -/
def select (state : NestedListScanState) (contentIndent : ℕ) : NestedListScanState :=
  if state.contentIndent ≠ some contentIndent then ⟨some contentIndent, -1⟩ else state

/-- `mark_plain_through`. -/
def markPlainThrough (state : NestedListScanState) (contentIndent index : ℕ) : NestedListScanState :=
  let state := state.select contentIndent
  { state with plainThroughIndex := max state.plainThroughIndex index }

end NestedListScanState

/-- How far the text of a possible underlined heading reaches. -/
structure SetextScan where
  /-- The level of the underline, if there is one. -/
  level : Option ℕ
  /-- The line after the underline, or the line at which the text ended. -/
  nextIndex : ℕ
  lastPlainIndex : ℕ

/-- The loop of `_nested_list_structure` that looks for an underline. -/
def setextScan (contentIndent : ℕ) : ℕ → ℕ → ℕ → SetextScan
  | 0, nextIndex, lastPlainIndex => ⟨none, nextIndex, lastPlainIndex⟩
  | fuel + 1, nextIndex, lastPlainIndex =>
      if nextIndex < lines.len then
        match removeIndent (lines.get nextIndex).content contentIndent with
        | none => ⟨none, nextIndex, lastPlainIndex⟩
        | some candidate =>
            if isBlankLine candidate then ⟨none, nextIndex, lastPlainIndex⟩
            else
              match setextHeadingLevel candidate with
              | some level => ⟨some level, nextIndex + 1, lastPlainIndex⟩
              | none =>
                  if (fence candidate).isSome ∨ (heading candidate).isSome ∨
                      (topLevelListMarker candidate).isSome then ⟨none, nextIndex, lastPlainIndex⟩
                  else setextScan contentIndent fuel (nextIndex + 1) nextIndex
      else ⟨none, nextIndex, lastPlainIndex⟩

/-- What `_nested_list_structure` returns, with the state it changes. -/
structure NestedScan where
  /-- The boundary and the line after it. -/
  found : Option (StructuralBoundary × ℕ)
  headings : HeadingStack
  scanState : NestedListScanState

/-- The heading with marks or with an underline that starts at a line, and the line after it; and
how far the text is plain otherwise. -/
def nestedHeading (index contentIndent : ℕ) (relative : Str) :
    Except ParserError (Option (ℕ × Str) × ℕ × ℕ) :=
  match heading relative with
  | some found => .ok (some found, index + 1, index)
  | none =>
      if isBlankLine relative then .ok (none, index + 1, index)
      else
        let scan := setextScan lines contentIndent (lines.len - index) (index + 1) index
        match scan.level with
        | none => .ok (none, scan.nextIndex, scan.lastPlainIndex)
        | some level => do
            let title ← setextTitle lines index (scan.nextIndex - 1) contentIndent
            pure (some (level, title), scan.nextIndex, scan.lastPlainIndex)

/-- `_nested_list_structure`. -/
def nestedListStructure (index contentIndent : ℕ) (headings : HeadingStack)
    (scanState : NestedListScanState) : Except ParserError NestedScan :=
  let scanState := scanState.select contentIndent
  if (index : ℤ) ≤ scanState.plainThroughIndex then .ok ⟨none, headings, scanState⟩
  else
    let line := lines.get index
    match removeIndent line.content contentIndent with
    | none => .ok ⟨none, headings, scanState⟩
    | some relative =>
        match fence relative with
        | some (character, length) => do
            let closes (content : Str) : Bool :=
              (removeIndent content contentIndent).any fun closing =>
                closesFence closing character length
            let endIndex := fenceEnd lines closes (lines.len - index) index
            let boundary ← StructuralBoundary.make .fencedCodeBlock line.startOffset
              (lines.get endIndex).contentEndOffset (titlePathOf headings) none
            pure ⟨some (boundary, endIndex + 1), headings, scanState⟩
        | none => do
            let (found, nextIndex, lastPlainIndex) ← nestedHeading lines index contentIndent relative
            match found with
            | none => pure ⟨none, headings, scanState.markPlainThrough contentIndent lastPlainIndex⟩
            | some (level, title) =>
                let headings := applyHeading headings level title
                let boundary ← StructuralBoundary.make .heading line.startOffset
                  (lines.get (nextIndex - 1)).contentEndOffset (titlePathOf headings) (some level)
                pure ⟨some (boundary, nextIndex), headings, scanState⟩

/-- Where an item ended. -/
structure ItemScan where
  index : ℕ
  itemEnd : ℕ
  nested : Option (StructuralBoundary × ℕ)
  listEnded : Bool
  headings : HeadingStack
  scanState : NestedListScanState

/-- The inner loop of `_consume_list_boundaries`: the lines that continue an item. -/
def itemLoop (contentIndent : ℕ) :
    ℕ → ℕ → ℕ → HeadingStack → NestedListScanState → Except ParserError ItemScan
  | 0, _, _, _, _ => .error .loopNotEnded
  | fuel + 1, index, itemEnd, headings, scanState =>
      if index < lines.len then
        let candidate := lines.get index
        if (listMarker candidate.content).isSome then
          .ok ⟨index, itemEnd, none, false, headings, scanState⟩
        else if isBlankLine candidate.content then
          let continuationIndex := skipBlank lines (lines.len - index) (index + 1)
          if lines.len ≤ continuationIndex then .ok ⟨index, itemEnd, none, true, headings, scanState⟩
          else
            let continuation := lines.get continuationIndex
            if (listMarker continuation.content).isSome then
              .ok ⟨continuationIndex, itemEnd, none, false, headings, scanState⟩
            else do
              let nested ← nestedListStructure lines continuationIndex contentIndent headings scanState
              if nested.found.isSome then
                pure ⟨continuationIndex, itemEnd, nested.found, false, nested.headings,
                  nested.scanState⟩
              else if contentIndent ≤ leadingIndent continuation.content then
                itemLoop contentIndent fuel (continuationIndex + 1) continuation.contentEndOffset
                  nested.headings nested.scanState
              else pure ⟨index, itemEnd, none, true, nested.headings, nested.scanState⟩
        else do
          let nested ← nestedListStructure lines index contentIndent headings scanState
          if nested.found.isSome then
            pure ⟨index, itemEnd, nested.found, false, nested.headings, nested.scanState⟩
          else if contentIndent ≤ leadingIndent candidate.content then
            itemLoop contentIndent fuel (index + 1) candidate.contentEndOffset nested.headings
              nested.scanState
          else if (fence candidate.content).isSome ∨ (heading candidate.content).isSome ∨
              (setextHeadingLevel candidate.content).isSome then
            pure ⟨index, itemEnd, none, true, nested.headings, nested.scanState⟩
          else
            itemLoop contentIndent fuel (index + 1) candidate.contentEndOffset nested.headings
              nested.scanState
      else .ok ⟨index, itemEnd, none, false, headings, scanState⟩

/-- The state of `_consume_list_boundaries` between two items, or after the last. -/
structure ListScan where
  boundaries : BoundaryBuilder
  index : ℕ
  headings : HeadingStack
  scanState : NestedListScanState
  /-- The list has been returned. -/
  returned : Bool

/-- The loop over further structures nested in an item. -/
def nestedLoop (contentIndent : ℕ) : ℕ → ListScan → Except ParserError ListScan
  | 0, _ => .error .loopNotEnded
  | fuel + 1, scan =>
      if scan.index < lines.len then
        let continuationIndex := skipBlank lines (lines.len - scan.index) scan.index
        if lines.len ≤ continuationIndex then .ok { scan with returned := true }
        else if (listMarker (lines.get continuationIndex).content).isSome then
          .ok { scan with index := continuationIndex }
        else do
          let nested ← nestedListStructure lines continuationIndex contentIndent scan.headings
            scan.scanState
          match nested.found with
          | none =>
              pure { scan with headings := nested.headings, scanState := nested.scanState,
                               returned := true }
          | some (boundary, index) =>
              let boundaries ← scan.boundaries.add boundary
              nestedLoop contentIndent fuel
                { scan with boundaries, index, headings := nested.headings,
                            scanState := nested.scanState }
      else .ok scan

/-- The outer loop of `_consume_list_boundaries`. -/
def consumeLoop : ℕ → ListScan → Except ParserError ListScan
  | 0, _ => .error .loopNotEnded
  | fuel + 1, scan =>
      if scan.index < lines.len then
        let line := lines.get scan.index
        match listMarker line.content with
        | none => .ok scan
        | some marker => do
            let item ← itemLoop lines marker.contentIndent (lines.len - scan.index) (scan.index + 1)
              line.contentEndOffset scan.headings scan.scanState
            let boundaries ← scan.boundaries.addFields .listItem line.startOffset item.itemEnd
              (titlePathOf scan.headings) none
            match item.nested with
            | some (boundary, index) =>
                let boundaries ← boundaries.add boundary
                let scan ← nestedLoop lines marker.contentIndent (lines.len - scan.index)
                  ⟨boundaries, index, item.headings, item.scanState, false⟩
                if scan.returned then pure scan else consumeLoop fuel scan
            | none =>
                let scan : ListScan := ⟨boundaries, item.index, item.headings, item.scanState, false⟩
                if item.listEnded then pure scan else consumeLoop fuel scan
      else .ok scan

/-- `_consume_list_boundaries`: the boundaries of a list, the line after it, and the headings. -/
def consumeListBoundaries (startIndex : ℕ) (headings : HeadingStack) :
    Except ParserError (PackedTable × ℕ × HeadingStack) := do
  let scan ← consumeLoop lines (lines.len - startIndex + 1)
    ⟨.new, startIndex, headings, .new, false⟩
  let (table, _) ← scan.boundaries.finish
  pure (table, scan.index, scan.headings)

/-! ## Paragraphs -/

/-- How far a paragraph reaches, and the underline that makes it a heading. -/
structure ParagraphScan where
  paragraphEnd : ℕ
  index : ℕ
  setextLevel : Option ℕ
  setextUnderlineIndex : Option ℕ

/-- The paragraph loop of `_markdown_boundaries`. -/
def paragraphLoop : ℕ → ℕ → ℕ → ParagraphScan
  | 0, index, paragraphEnd => ⟨paragraphEnd, index, none, none⟩
  | fuel + 1, index, paragraphEnd =>
      if index < lines.len then
        let candidate := lines.get index
        match setextHeadingLevel candidate.content with
        | some level => ⟨candidate.contentEndOffset, index + 1, some level, some index⟩
        | none =>
            if isBlankLine candidate.content = true ∨ (fence candidate.content).isSome ∨
                (heading candidate.content).isSome ∨ (topLevelListMarker candidate.content).isSome then
              ⟨paragraphEnd, index, none, none⟩
            else paragraphLoop fuel (index + 1) candidate.contentEndOffset
      else ⟨paragraphEnd, index, none, none⟩

/-! ## The document -/

/-- The loop of `_markdown_boundaries`. -/
def markdownLoop : ℕ → ℕ → BoundaryBuilder → HeadingStack → Except ParserError BoundaryBuilder
  | 0, _, _, _ => .error .loopNotEnded
  | fuel + 1, index, boundaries, headings =>
      if index < lines.len then
        let line := lines.get index
        if isBlankLine line.content then markdownLoop fuel (index + 1) boundaries headings
        else
          match fence line.content with
          | some (character, length) => do
              let endIndex := fenceEnd lines (fun content => closesFence content character length)
                (lines.len - index) index
              let boundaries ← boundaries.addFields .fencedCodeBlock line.startOffset
                (lines.get endIndex).contentEndOffset (titlePathOf headings) none
              markdownLoop fuel (endIndex + 1) boundaries headings
          | none =>
              match heading line.content with
              | some (level, title) => do
                  let headings := applyHeading headings level title
                  let boundaries ← boundaries.addFields .heading line.startOffset
                    line.contentEndOffset (titlePathOf headings) (some level)
                  markdownLoop fuel (index + 1) boundaries headings
              | none =>
                  if (topLevelListMarker line.content).isSome then do
                    let (listBoundaries, index, headings) ← consumeListBoundaries lines index headings
                    let listed ← listBoundaries.iter
                    let boundaries ← boundaries.extend listed
                    markdownLoop fuel index boundaries headings
                  else
                    let scan := paragraphLoop lines (lines.len - index) (index + 1)
                      line.contentEndOffset
                    match scan.setextLevel, scan.setextUnderlineIndex with
                    | some _, none =>
                        .error (.scannerAssertion "Setext underline index was not retained")
                    | some level, some underlineIndex => do
                        let title ← setextTitle lines index underlineIndex 0
                        let headings := applyHeading headings level title
                        let boundaries ← boundaries.addFields .heading line.startOffset
                          scan.paragraphEnd (titlePathOf headings) (some level)
                        markdownLoop fuel scan.index boundaries headings
                    | none, _ => do
                        let boundaries ← boundaries.addFields .paragraph line.startOffset
                          scan.paragraphEnd (titlePathOf headings) none
                        markdownLoop fuel scan.index boundaries headings
      else .ok boundaries

/-- `_markdown_boundaries`. -/
def markdownBoundaries (text : Str) : Except ParserError PackedTable := do
  let lines ← LineIndex.fromText text
  let boundaries ← markdownLoop lines (lines.len + 1) 0 .new []
  let (table, _) ← boundaries.finish
  pure table

end VeloxRag.Ingestion
