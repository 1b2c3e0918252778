import VeloxRag.Ingestion.Markdown
import VeloxRag.Lib.Agrees

/-!
# Scanning lists with and without the memo

While a list is scanned, the scanner remembers how far the lines are known to hold no nested
structure, so that a long paragraph is not searched for an underline from each of its lines.  Here
the list is scanned again with every search made afresh, and the boundaries are the same: the lines
of a paragraph without an underline have none after any of them.

## Main definitions

* `freshStructure`, `freshItemLoop`, `freshConsumeLoop`, `freshMarkdownBoundaries` — the scanner
  without the memo.
* `PlainFrom`, `Known` — what the memo states, and that it is right from a line on.
* `markdownBoundaries_fresh` — the memo changes nothing.
-/

namespace VeloxRag.Ingestion

open VeloxRag.Lib

variable (lines : LineIndex)

/-! ## The scanner without the memo -/

/-- `_nested_list_structure` with a memo that knows nothing. -/
def freshStructure (index contentIndent : ℕ) (headings : HeadingStack) :
    Except ParserError NestedScan := do
  let nested ← nestedListStructure lines index contentIndent headings .new
  pure { nested with scanState := .new }

/-- The inner loop of `_consume_list_boundaries`, with fresh searches. -/
def freshItemLoop (contentIndent : ℕ) :
    ℕ → ℕ → ℕ → HeadingStack → Except ParserError ItemScan
  | 0, _, _, _ => .error .loopNotEnded
  | fuel + 1, index, itemEnd, headings =>
      if index < lines.len then
        let candidate := lines.get index
        if (listMarker candidate.content).isSome then .ok ⟨index, itemEnd, none, false, headings, .new⟩
        else if isBlankLine candidate.content then
          let continuationIndex := skipBlank lines (lines.len - index) (index + 1)
          if lines.len ≤ continuationIndex then .ok ⟨index, itemEnd, none, true, headings, .new⟩
          else
            let continuation := lines.get continuationIndex
            if (listMarker continuation.content).isSome then
              .ok ⟨continuationIndex, itemEnd, none, false, headings, .new⟩
            else do
              let nested ← freshStructure lines continuationIndex contentIndent headings
              if nested.found.isSome then
                pure ⟨continuationIndex, itemEnd, nested.found, false, nested.headings, .new⟩
              else if contentIndent ≤ leadingIndent continuation.content then
                freshItemLoop contentIndent fuel (continuationIndex + 1)
                  continuation.contentEndOffset nested.headings
              else pure ⟨index, itemEnd, none, true, nested.headings, .new⟩
        else do
          let nested ← freshStructure lines index contentIndent headings
          if nested.found.isSome then
            pure ⟨index, itemEnd, nested.found, false, nested.headings, .new⟩
          else if contentIndent ≤ leadingIndent candidate.content then
            freshItemLoop contentIndent fuel (index + 1) candidate.contentEndOffset nested.headings
          else if (fence candidate.content).isSome ∨ (heading candidate.content).isSome ∨
              (setextHeadingLevel candidate.content).isSome then
            pure ⟨index, itemEnd, none, true, nested.headings, .new⟩
          else freshItemLoop contentIndent fuel (index + 1) candidate.contentEndOffset nested.headings
      else .ok ⟨index, itemEnd, none, false, headings, .new⟩

/-- The loop over further structures nested in an item, with fresh searches. -/
def freshNestedLoop (contentIndent : ℕ) : ℕ → ListScan → Except ParserError ListScan
  | 0, _ => .error .loopNotEnded
  | fuel + 1, scan =>
      if scan.index < lines.len then
        let continuationIndex := skipBlank lines (lines.len - scan.index) scan.index
        if lines.len ≤ continuationIndex then .ok { scan with returned := true }
        else if (listMarker (lines.get continuationIndex).content).isSome then
          .ok { scan with index := continuationIndex }
        else do
          let nested ← freshStructure lines continuationIndex contentIndent scan.headings
          match nested.found with
          | none => pure { scan with headings := nested.headings, returned := true }
          | some (boundary, index) =>
              let boundaries ← scan.boundaries.add boundary
              freshNestedLoop contentIndent fuel
                { scan with boundaries, index, headings := nested.headings }
      else .ok scan

/-- The outer loop of `_consume_list_boundaries`, with fresh searches. -/
def freshConsumeLoop : ℕ → ListScan → Except ParserError ListScan
  | 0, _ => .error .loopNotEnded
  | fuel + 1, scan =>
      if scan.index < lines.len then
        let line := lines.get scan.index
        match listMarker line.content with
        | none => .ok scan
        | some marker => do
            let item ← freshItemLoop lines marker.contentIndent (lines.len - scan.index)
              (scan.index + 1) line.contentEndOffset scan.headings
            let boundaries ← scan.boundaries.addFields .listItem line.startOffset item.itemEnd
              (titlePathOf scan.headings) none
            match item.nested with
            | some (boundary, index) =>
                let boundaries ← boundaries.add boundary
                let scan ← freshNestedLoop lines marker.contentIndent (lines.len - scan.index)
                  ⟨boundaries, index, item.headings, .new, false⟩
                if scan.returned then pure scan else freshConsumeLoop fuel scan
            | none =>
                let scan : ListScan := ⟨boundaries, item.index, item.headings, .new, false⟩
                if item.listEnded then pure scan else freshConsumeLoop fuel scan
      else .ok scan

/-- `_consume_list_boundaries`, with fresh searches. -/
def freshConsumeListBoundaries (startIndex : ℕ) (headings : HeadingStack) :
    Except ParserError (PackedTable × ℕ × HeadingStack) := do
  let scan ← freshConsumeLoop lines (lines.len - startIndex + 1)
    ⟨.new, startIndex, headings, .new, false⟩
  let (table, _) ← scan.boundaries.finish
  pure (table, scan.index, scan.headings)

/-- The loop of `_markdown_boundaries`, with fresh searches in its lists. -/
def freshMarkdownLoop : ℕ → ℕ → BoundaryBuilder → HeadingStack → Except ParserError BoundaryBuilder
  | 0, _, _, _ => .error .loopNotEnded
  | fuel + 1, index, boundaries, headings =>
      if index < lines.len then
        let line := lines.get index
        if isBlankLine line.content then freshMarkdownLoop fuel (index + 1) boundaries headings
        else
          match fence line.content with
          | some (character, length) => do
              let endIndex := fenceEnd lines (fun content => closesFence content character length)
                (lines.len - index) index
              let boundaries ← boundaries.addFields .fencedCodeBlock line.startOffset
                (lines.get endIndex).contentEndOffset (titlePathOf headings) none
              freshMarkdownLoop fuel (endIndex + 1) boundaries headings
          | none =>
              match heading line.content with
              | some (level, title) => do
                  let headings := applyHeading headings level title
                  let boundaries ← boundaries.addFields .heading line.startOffset
                    line.contentEndOffset (titlePathOf headings) (some level)
                  freshMarkdownLoop fuel (index + 1) boundaries headings
              | none =>
                  if (topLevelListMarker line.content).isSome then do
                    let (listBoundaries, index, headings) ←
                      freshConsumeListBoundaries lines index headings
                    let listed ← listBoundaries.iter
                    let boundaries ← boundaries.extend listed
                    freshMarkdownLoop fuel index boundaries headings
                  else
                    let scan := paragraphLoop lines (lines.len - index) (index + 1)
                      line.contentEndOffset
                    match scan.setextLevel, scan.setextUnderlineIndex with
                    | some _, none =>
                        .error (.scannerAssertion "Setext underline index was not retained")
                    | some level, some underlineIndex => do
                        let title ← setextTitle lines index underlineIndex 0
                        let headings := applyHeading headings level title
                        let boundaries ← boundaries.addFields .heading line.startOffset
                          scan.paragraphEnd (titlePathOf headings) (some level)
                        freshMarkdownLoop fuel scan.index boundaries headings
                    | none, _ => do
                        let boundaries ← boundaries.addFields .paragraph line.startOffset
                          scan.paragraphEnd (titlePathOf headings) none
                        freshMarkdownLoop fuel scan.index boundaries headings
      else .ok boundaries

/-- `_markdown_boundaries`, with fresh searches in its lists. -/
def freshMarkdownBoundaries (text : Str) : Except ParserError PackedTable := do
  let lines ← LineIndex.fromText text
  let boundaries ← freshMarkdownLoop lines (lines.len + 1) 0 .new []
  let (table, _) ← boundaries.finish
  pure table

/-! ## Searching for an underline from a later line -/

variable {lines} {contentIndent : ℕ}

/-- Enough fuel finds the same underline, whatever was plain before. -/
theorem setextScan_level_eq (fuel : ℕ) : ∀ fuel' next last last', lines.len - next ≤ fuel →
    lines.len - next ≤ fuel' →
    (setextScan lines contentIndent fuel next last).level =
      (setextScan lines contentIndent fuel' next last').level := by
  induction fuel with
  | zero =>
      intro fuel' next last last' h _
      cases fuel' with
      | zero => rfl
      | succ fuel' =>
          rw [setextScan, setextScan, if_neg (by omega)]
  | succ fuel ih =>
      intro fuel' next last last' h h'
      cases fuel' with
      | zero => rw [setextScan, setextScan, if_neg (by omega)]
      | succ fuel' =>
          rw [setextScan, setextScan]
          by_cases hnext : next < lines.len
          · rw [if_pos hnext, if_pos hnext]
            cases removeIndent (lines.get next).content contentIndent with
            | none => rfl
            | some candidate =>
                dsimp only
                split
                · rfl
                · cases setextHeadingLevel candidate with
                  | some level => rfl
                  | none =>
                      dsimp only
                      split
                      · rfl
                      · exact ih fuel' (next + 1) next next (by omega) (by omega)
          · rw [if_neg hnext, if_neg hnext]

/-- The line holds no nested structure: it is not indented enough, or it is the text of a
paragraph without an underline. -/
structure PlainText (lines : LineIndex) (contentIndent index : ℕ) (relative : Str) : Prop where
  fence : fence relative = none
  heading : heading relative = none
  underline : isBlankLine relative = false →
    (setextScan lines contentIndent (lines.len - index) (index + 1) index).level = none

/-- No nested structure starts at line `index`. -/
def Plain (lines : LineIndex) (contentIndent index : ℕ) : Prop :=
  ∀ relative, removeIndent (lines.get index).content contentIndent = some relative →
    PlainText lines contentIndent index relative

/-- **A paragraph without an underline** has none after any of its lines. -/
theorem plain_of_setextScan (fuel : ℕ) : ∀ next last, lines.len - next ≤ fuel → last < next →
    (setextScan lines contentIndent fuel next last).level = none → ∀ j, next ≤ j →
    j ≤ (setextScan lines contentIndent fuel next last).lastPlainIndex →
    Plain lines contentIndent j := by
  induction fuel with
  | zero =>
      intro next last _ hlast _ j hj hle
      have hle' : j ≤ last := hle
      omega
  | succ fuel ih =>
      intro next last hfuel hlast hnone j hj hle
      rw [setextScan] at hnone hle
      have hend : ¬ j ≤ last := by omega
      by_cases hnext : next < lines.len
      · rw [if_pos hnext] at hnone hle
        cases hrel : removeIndent (lines.get next).content contentIndent with
        | none =>
            rw [hrel] at hle
            exact absurd hle hend
        | some candidate =>
            rw [hrel] at hnone hle
            dsimp only at hnone hle
            by_cases hblank : isBlankLine candidate = true
            · rw [if_pos hblank] at hle
              exact absurd hle hend
            · rw [if_neg hblank] at hnone hle
              cases hset : setextHeadingLevel candidate with
              | some level =>
                  rw [hset] at hnone
                  cases hnone
              | none =>
                  rw [hset] at hnone hle
                  dsimp only at hnone hle
                  by_cases hother : (fence candidate).isSome ∨ (heading candidate).isSome ∨
                      (topLevelListMarker candidate).isSome
                  · rw [if_pos hother] at hle
                    exact absurd hle hend
                  · rw [if_neg hother] at hnone hle
                    rw [not_or, not_or] at hother
                    rcases Nat.eq_or_lt_of_le hj with rfl | hlt
                    · -- the scan from this line is the rest of the scan that passed it
                      intro relative hrelative
                      rw [hrel] at hrelative
                      cases hrelative
                      refine ⟨by simpa using hother.1, by simpa using hother.2.1, fun _ => ?_⟩
                      rw [setextScan_level_eq _ fuel (next + 1) next next (by omega) (by omega)]
                      exact hnone
                    · exact ih (next + 1) next (by omega) (Nat.lt_succ_self _) hnone j hlt hle
      · rw [if_neg hnext] at hle
        exact absurd hle hend

/-! ## The memo -/

/-- The memo is right about the lines from `index` on. -/
def Known (lines : LineIndex) (state : NestedListScanState) (index : ℕ) : Prop :=
  ∀ contentIndent, state.contentIndent = some contentIndent → ∀ j, index ≤ j →
    (j : ℤ) ≤ state.plainThroughIndex → Plain lines contentIndent j

namespace Known

variable {state : NestedListScanState} {index index' : ℕ}

theorem new : Known lines .new index := by
  intro contentIndent h
  cases h

theorem mono (h : Known lines state index) (hle : index ≤ index') : Known lines state index' :=
  fun contentIndent hindent j hj => h contentIndent hindent j (le_trans hle hj)

theorem select (h : Known lines state index) (contentIndent : ℕ) :
    Known lines (state.select contentIndent) index := by
  rw [NestedListScanState.select]
  split
  · intro indent _ j _ hle
    have hle' : (j : ℤ) ≤ -1 := hle
    omega
  · exact h

end Known

theorem select_contentIndent (state : NestedListScanState) (contentIndent : ℕ) :
    (state.select contentIndent).contentIndent = some contentIndent := by
  rw [NestedListScanState.select]
  split
  · rfl
  · rename_i h
    exact not_not.mp h

theorem markPlainThrough_known {state : NestedListScanState} {index last : ℕ}
    (hindent : state.contentIndent = some contentIndent)
    (hplain : ∀ j, index ≤ j → j ≤ last → Plain lines contentIndent j)
    (hnew : state.plainThroughIndex < index) :
    Known lines (state.markPlainThrough contentIndent last) index := by
  have hselect : state.select contentIndent = state := by
    rw [NestedListScanState.select, if_neg (not_not.mpr hindent)]
  intro indent hsome j hj hle
  rw [NestedListScanState.markPlainThrough, hselect] at hsome hle
  have hsome' : state.contentIndent = some indent := hsome
  obtain rfl : contentIndent = indent := Option.some.inj (hindent.symm.trans hsome')
  have hle' : (j : ℤ) ≤ max state.plainThroughIndex last := hle
  exact hplain j hj (by omega)

/-! ## One search -/

section Search

variable {index : ℕ} {relative : Str}

/-- A search that finds no heading tells which lines are plain. -/
theorem nestedHeading_none {next last : ℕ}
    (hrel : removeIndent (lines.get index).content contentIndent = some relative)
    (hfence : fence relative = none)
    (h : nestedHeading lines index contentIndent relative = .ok (none, next, last)) :
    ∀ j, index ≤ j → j ≤ last → Plain lines contentIndent j := by
  rw [nestedHeading] at h
  cases hheading : heading relative with
  | some found =>
      rw [hheading] at h
      cases h
  | none =>
      rw [hheading] at h
      dsimp only at h
      by_cases hblank : isBlankLine relative = true
      · rw [if_pos hblank] at h
        cases h
        intro j hj hle
        obtain rfl : j = index := by omega
        intro relative' hrel'
        rw [hrel] at hrel'
        cases hrel'
        exact ⟨hfence, hheading, fun hnot => by rw [hblank] at hnot; cases hnot⟩
      · rw [if_neg hblank] at h
        cases hlevel : (setextScan lines contentIndent (lines.len - index) (index + 1) index).level with
        | some level =>
            rw [hlevel] at h
            dsimp only at h
            cases htitle : setextTitle lines index ((setextScan lines contentIndent
                (lines.len - index) (index + 1) index).nextIndex - 1) contentIndent with
            | error e => rw [htitle] at h; cases h
            | ok title => rw [htitle] at h; cases h
        | none =>
            rw [hlevel] at h
            cases h
            intro j hj hle
            rcases Nat.eq_or_lt_of_le hj with rfl | hlt
            · intro relative' hrel'
              rw [hrel] at hrel'
              cases hrel'
              exact ⟨hfence, hheading, fun _ => hlevel⟩
            · exact plain_of_setextScan (lines.len - index) (index + 1) index (by omega)
                (Nat.lt_succ_self _) hlevel j hlt hle

/-- A search at a plain line finds nothing. -/
theorem nestedHeading_plain (h : PlainText lines contentIndent index relative) :
    ∃ next last, nestedHeading lines index contentIndent relative = .ok (none, next, last) := by
  rw [nestedHeading, h.heading]
  dsimp only
  by_cases hblank : isBlankLine relative = true
  · rw [if_pos hblank]
    exact ⟨_, _, rfl⟩
  · rw [if_neg hblank, h.underline (by simpa using hblank)]
    exact ⟨_, _, rfl⟩

theorem freshStructure_plain (h : Plain lines contentIndent index) (headings : HeadingStack) :
    freshStructure lines index contentIndent headings = .ok ⟨none, headings, .new⟩ := by
  have hstart : ¬ (index : ℤ) ≤ (NestedListScanState.new.select contentIndent).plainThroughIndex := by
    have hnew : (NestedListScanState.new.select contentIndent).plainThroughIndex = -1 := rfl
    omega
  rw [freshStructure, nestedListStructure]
  dsimp only
  rw [if_neg hstart]
  cases hrel : removeIndent (lines.get index).content contentIndent with
  | none => rfl
  | some relative =>
      obtain ⟨next, last, hnone⟩ := nestedHeading_plain (h relative hrel)
      dsimp only
      rw [(h relative hrel).fence]
      dsimp only
      rw [hnone]
      rfl

theorem setextScan_next_le (fuel : ℕ) : ∀ next last,
    next ≤ (setextScan lines contentIndent fuel next last).nextIndex := by
  induction fuel with
  | zero => intro next last; exact le_refl _
  | succ fuel ih =>
      intro next last
      rw [setextScan]
      split
      · split
        · exact le_refl _
        · split
          · exact le_refl _
          · split
            · exact Nat.le_succ _
            · split
              · exact le_refl _
              · exact le_trans (Nat.le_succ _) (ih (next + 1) next)
      · exact le_refl _

theorem le_fenceEnd (closes : Str → Bool) (fuel : ℕ) : ∀ index,
    index ≤ fenceEnd lines closes fuel index := by
  induction fuel with
  | zero => intro index; exact le_refl _
  | succ fuel ih =>
      intro index
      rw [fenceEnd]
      split
      · split
        · exact Nat.le_succ _
        · exact le_trans (Nat.le_succ _) (ih (index + 1))
      · exact le_refl _

theorem nestedHeading_next {found : Option (ℕ × Str)} {next last : ℕ}
    (h : nestedHeading lines index contentIndent relative = .ok (found, next, last)) :
    index ≤ next := by
  rw [nestedHeading] at h
  split at h
  · cases h
    exact Nat.le_succ _
  · split at h
    · cases h
      exact Nat.le_succ _
    · have hle := @setextScan_next_le lines contentIndent (lines.len - index) (index + 1) index
      dsimp only at h
      generalize setextScan lines contentIndent (lines.len - index) (index + 1) index = scan at h hle
      cases hlevel : scan.level with
      | none =>
          rw [hlevel] at h
          cases h
          omega
      | some level =>
          rw [hlevel] at h
          dsimp only at h
          cases htitle : setextTitle lines index (scan.nextIndex - 1) contentIndent with
          | error e => rw [htitle] at h; cases h
          | ok title =>
              rw [htitle] at h
              cases h
              omega

/-- What a search with the memo has to do with a fresh search: the same structure, and a memo that
is still right. -/
def NestedAgrees (lines : LineIndex) (index : ℕ) (nested fresh : NestedScan) : Prop :=
  fresh = { nested with scanState := .new } ∧ Known lines nested.scanState index ∧
    ∀ b next, nested.found = some (b, next) → index ≤ next

/-- **One search** finds the same with the memo and without. -/
theorem nestedListStructure_agrees {state : NestedListScanState} (hknown : Known lines state index)
    (headings : HeadingStack) :
    Agrees (NestedAgrees lines index)
      (nestedListStructure lines index contentIndent headings state)
      (freshStructure lines index contentIndent headings) := by
  have hselected := hknown.select contentIndent
  have hindent := select_contentIndent state contentIndent
  rw [nestedListStructure]
  dsimp only
  by_cases hplain : (index : ℤ) ≤ (state.select contentIndent).plainThroughIndex
  · rw [if_pos hplain,
      freshStructure_plain (hselected contentIndent hindent index (le_refl _) hplain) headings]
    exact .ok ⟨rfl, hselected, nofun⟩
  · rw [if_neg hplain, freshStructure, nestedListStructure]
    have hstart : ¬ (index : ℤ) ≤
        (NestedListScanState.new.select contentIndent).plainThroughIndex := by
      have hnew : (NestedListScanState.new.select contentIndent).plainThroughIndex = -1 := rfl
      omega
    dsimp only
    rw [if_neg hstart]
    cases hrel : removeIndent (lines.get index).content contentIndent with
    | none => exact .ok ⟨rfl, hselected, nofun⟩
    | some relative =>
        dsimp only
        cases hfence : fence relative with
        | some found =>
            obtain ⟨character, length⟩ := found
            dsimp only
            rw [bind_assoc]
            refine .bind_same _ fun boundary _ => .ok ⟨rfl, hselected, ?_⟩
            intro b next hfound
            cases hfound
            exact le_trans (le_fenceEnd _ _ _) (Nat.le_succ _)
        | none =>
            dsimp only
            rw [bind_assoc]
            refine .bind_same _ ?_
            rintro ⟨found, next, last⟩ hsearch
            cases found with
            | none =>
                exact .ok ⟨rfl, markPlainThrough_known hindent
                  (nestedHeading_none hrel hfence hsearch) (by omega), nofun⟩
            | some found =>
                obtain ⟨level, title⟩ := found
                dsimp only
                rw [bind_assoc]
                refine .bind_same _ fun boundary _ => .ok ⟨rfl, hselected, ?_⟩
                intro b next' hfound
                cases hfound
                exact nestedHeading_next hsearch

end Search

/-! ## The loops of a list -/

theorem le_skipBlank (fuel : ℕ) : ∀ index, index ≤ skipBlank lines fuel index := by
  induction fuel with
  | zero => intro index; exact le_refl _
  | succ fuel ih =>
      intro index
      rw [skipBlank]
      split
      · exact le_trans (Nat.le_succ _) (ih (index + 1))
      · exact le_refl _

/-- An item scanned with the memo and one scanned afresh: they are the same, and the memo is right
from the item's end on, unless the list has ended. -/
def ItemAgrees (lines : LineIndex) (item fresh : ItemScan) : Prop :=
  fresh = { item with scanState := .new } ∧
    (item.listEnded = true ∨ Known lines item.scanState item.index) ∧
    ∀ b next, item.nested = some (b, next) → item.listEnded = false ∧ item.index ≤ next

/-- **An item.** -/
theorem itemLoop_agrees (fuel : ℕ) : ∀ (index itemEnd : ℕ) (headings : HeadingStack)
    (state : NestedListScanState), Known lines state index →
    Agrees (ItemAgrees lines) (itemLoop lines contentIndent fuel index itemEnd headings state)
      (freshItemLoop lines contentIndent fuel index itemEnd headings) := by
  induction fuel with
  | zero => intro index itemEnd headings state _; exact .error _
  | succ fuel ih =>
      intro index itemEnd headings state hknown
      rw [itemLoop, freshItemLoop]
      by_cases hi : index < lines.len
      swap
      · rw [if_neg hi, if_neg hi]
        exact .ok ⟨rfl, .inr hknown, nofun⟩
      rw [if_pos hi, if_pos hi]
      dsimp only
      by_cases hmarker : (listMarker (lines.get index).content).isSome = true
      · rw [if_pos hmarker, if_pos hmarker]
        exact .ok ⟨rfl, .inr hknown, nofun⟩
      rw [if_neg hmarker, if_neg hmarker]
      by_cases hblank : isBlankLine (lines.get index).content = true
      · rw [if_pos hblank, if_pos hblank]
        have hle := @le_skipBlank lines (lines.len - index) (index + 1)
        generalize skipBlank lines (lines.len - index) (index + 1) = cont at hle ⊢
        have hcont := hknown.mono (show index ≤ cont by omega)
        by_cases hend : lines.len ≤ cont
        · rw [if_pos hend, if_pos hend]
          exact .ok ⟨rfl, .inl rfl, nofun⟩
        rw [if_neg hend, if_neg hend]
        by_cases hitem : (listMarker (lines.get cont).content).isSome = true
        · rw [if_pos hitem, if_pos hitem]
          exact .ok ⟨rfl, .inr hcont, nofun⟩
        rw [if_neg hitem, if_neg hitem]
        refine (nestedListStructure_agrees hcont headings).bind ?_
        rintro nested _ ⟨rfl, hstate, hnext⟩
        dsimp only
        by_cases hfound : nested.found.isSome = true
        · rw [if_pos hfound, if_pos hfound]
          exact .ok ⟨rfl, .inr hstate, fun b next h => ⟨rfl, hnext b next h⟩⟩
        rw [if_neg hfound, if_neg hfound]
        by_cases hindent : contentIndent ≤ leadingIndent (lines.get cont).content
        · rw [if_pos hindent, if_pos hindent]
          exact ih _ _ _ _ (hstate.mono (Nat.le_succ _))
        · rw [if_neg hindent, if_neg hindent]
          exact .ok ⟨rfl, .inl rfl, nofun⟩
      · rw [if_neg hblank, if_neg hblank]
        refine (nestedListStructure_agrees hknown headings).bind ?_
        rintro nested _ ⟨rfl, hstate, hnext⟩
        dsimp only
        by_cases hfound : nested.found.isSome = true
        · rw [if_pos hfound, if_pos hfound]
          exact .ok ⟨rfl, .inr hstate, fun b next h => ⟨rfl, hnext b next h⟩⟩
        rw [if_neg hfound, if_neg hfound]
        have hcontinue := ih (index + 1) (lines.get index).contentEndOffset nested.headings
          nested.scanState (hstate.mono (Nat.le_succ _))
        by_cases hindent : contentIndent ≤ leadingIndent (lines.get index).content
        · rw [if_pos hindent, if_pos hindent]
          exact hcontinue
        rw [if_neg hindent, if_neg hindent]
        by_cases hother : (fence (lines.get index).content).isSome ∨
            (heading (lines.get index).content).isSome ∨
            (setextHeadingLevel (lines.get index).content).isSome
        · rw [if_pos hother, if_pos hother]
          exact .ok ⟨rfl, .inl rfl, nofun⟩
        · rw [if_neg hother, if_neg hother]
          exact hcontinue

/-- A list scanned with the memo and one scanned afresh. -/
def ListAgrees (lines : LineIndex) (scan fresh : ListScan) : Prop :=
  fresh = { scan with scanState := .new } ∧
    (scan.returned = true ∨ Known lines scan.scanState scan.index)

/-- **Further structures of an item.** -/
theorem nestedLoop_agrees (fuel : ℕ) : ∀ scan : ListScan, Known lines scan.scanState scan.index →
    Agrees (ListAgrees lines) (nestedLoop lines contentIndent fuel scan)
      (freshNestedLoop lines contentIndent fuel { scan with scanState := .new }) := by
  induction fuel with
  | zero => intro scan _; exact .error _
  | succ fuel ih =>
      intro scan hknown
      rw [nestedLoop, freshNestedLoop]
      dsimp only
      by_cases hi : scan.index < lines.len
      swap
      · rw [if_neg hi, if_neg hi]
        exact .ok ⟨rfl, .inr hknown⟩
      rw [if_pos hi, if_pos hi]
      have hle := @le_skipBlank lines (lines.len - scan.index) scan.index
      generalize skipBlank lines (lines.len - scan.index) scan.index = cont at hle ⊢
      have hcont := hknown.mono hle
      by_cases hend : lines.len ≤ cont
      · rw [if_pos hend, if_pos hend]
        exact .ok ⟨rfl, .inl rfl⟩
      rw [if_neg hend, if_neg hend]
      by_cases hitem : (listMarker (lines.get cont).content).isSome = true
      · rw [if_pos hitem, if_pos hitem]
        exact .ok ⟨rfl, .inr hcont⟩
      rw [if_neg hitem, if_neg hitem]
      refine (nestedListStructure_agrees hcont scan.headings).bind ?_
      rintro ⟨found, headings, state⟩ _ ⟨rfl, hstate, hnext⟩
      cases found with
      | none => exact .ok ⟨rfl, .inl rfl⟩
      | some found =>
          obtain ⟨boundary, next⟩ := found
          refine .bind_same _ fun boundaries _ => ?_
          exact ih ⟨boundaries, next, headings, state, scan.returned⟩
            (hstate.mono (hnext boundary next rfl))

/-- **The items of a list.** -/
theorem consumeLoop_agrees (fuel : ℕ) : ∀ scan : ListScan, Known lines scan.scanState scan.index →
    Agrees (fun scan fresh => fresh = { scan with scanState := .new }) (consumeLoop lines fuel scan)
      (freshConsumeLoop lines fuel { scan with scanState := .new }) := by
  induction fuel with
  | zero => intro scan _; exact .error _
  | succ fuel ih =>
      intro scan hknown
      rw [consumeLoop, freshConsumeLoop]
      dsimp only
      by_cases hi : scan.index < lines.len
      swap
      · rw [if_neg hi, if_neg hi]
        exact .ok rfl
      rw [if_pos hi, if_pos hi]
      cases listMarker (lines.get scan.index).content with
      | none => exact .ok rfl
      | some marker =>
          refine (itemLoop_agrees _ _ _ _ _ (hknown.mono (Nat.le_succ _))).bind ?_
          rintro ⟨index, itemEnd, nested, listEnded, headings, state⟩ _ ⟨rfl, hstate, hnext⟩
          dsimp only at hstate hnext ⊢
          refine .bind_same _ fun boundaries _ => ?_
          cases nested with
          | none =>
              dsimp only
              cases listEnded with
              | true => exact .ok rfl
              | false =>
                  exact ih ⟨boundaries, index, headings, state, false⟩ (by simpa using hstate)
          | some nested =>
              obtain ⟨boundary, next⟩ := nested
              obtain ⟨hended, hle⟩ := hnext boundary next rfl
              dsimp only
              refine .bind_same _ fun boundaries' _ => ?_
              rw [hended] at hstate
              have hnested := hstate.resolve_left Bool.false_ne_true
              refine (nestedLoop_agrees _ ⟨boundaries', next, headings, state, false⟩
                (hnested.mono hle)).bind ?_
              rintro scan' _ ⟨rfl, hstate'⟩
              dsimp only
              by_cases hreturned : scan'.returned = true
              · rw [if_pos hreturned, if_pos hreturned]
                exact .ok rfl
              · rw [if_neg hreturned, if_neg hreturned]
                exact ih scan' (hstate'.resolve_left hreturned)

/-- **A list** has the same boundaries with the memo and without. -/
theorem freshConsumeListBoundaries_eq (startIndex : ℕ) (headings : HeadingStack) :
    freshConsumeListBoundaries lines startIndex headings =
      consumeListBoundaries lines startIndex headings := by
  apply Agrees.eq
  rw [consumeListBoundaries, freshConsumeListBoundaries]
  refine (consumeLoop_agrees _ ⟨.new, startIndex, headings, .new, false⟩ .new).bind ?_
  rintro scan _ rfl
  exact .bind_same _ fun table _ => .ok rfl

/-! ## The document -/

theorem freshMarkdownLoop_eq (fuel : ℕ) : ∀ (index : ℕ) (boundaries : BoundaryBuilder)
    (headings : HeadingStack), freshMarkdownLoop lines fuel index boundaries headings =
      markdownLoop lines fuel index boundaries headings := by
  induction fuel with
  | zero => intro index boundaries headings; rfl
  | succ fuel ih =>
      intro index boundaries headings
      have hloop := freshMarkdownLoop.eq_def lines (fuel + 1) index boundaries headings
      simp only [ih, freshConsumeListBoundaries_eq] at hloop
      exact hloop

/-- **The memo changes nothing**: every text has the boundaries, or the error, that it has when
every nested structure of a list is searched for afresh. -/
theorem markdownBoundaries_fresh (text : Str) :
    markdownBoundaries text = freshMarkdownBoundaries text := by
  rw [markdownBoundaries, freshMarkdownBoundaries]
  simp only [freshMarkdownLoop_eq]

end VeloxRag.Ingestion
