import VeloxRag.Ingestion.MarkdownCover
import VeloxRag.Ingestion.Validation

/-!
# What the Markdown scanner finds

On every normalized text the scanner ends, raises nothing but the limit on structural
metadata, and otherwise its boundaries are in order and disjoint, run from the start of a
line to the content end of a line, and every line that is not blank lies inside exactly
one of them.  Each loop is shown to pass lines that the boundaries it added cover.

## Main definitions

* `CoversDocument` — the boundaries of a document.
* `markdownBoundaries_cover` — the whole scanner.
* `markdownBoundaries_titlePath` — the title paths, without the stack of headings.
-/

namespace VeloxRag.Ingestion

open VeloxRag.Lib

variable {lines : LineIndex} {text : Str}

/-! ## Looking ahead -/

theorem fenceEnd_bounds (closes : Str → Bool) (fuel : ℕ) : ∀ index, index < lines.len →
    index ≤ fenceEnd lines closes fuel index ∧ fenceEnd lines closes fuel index < lines.len := by
  induction fuel with
  | zero => intro index h; exact ⟨le_refl _, h⟩
  | succ fuel ih =>
      intro index h
      rw [fenceEnd]
      split
      · rename_i hnext
        split
        · omega
        · have := ih (index + 1) hnext
          omega
      · omega

/-- The lines that are skipped are blank, and the next one is not. -/
theorem skipBlank_spec (fuel : ℕ) : ∀ index, lines.len - index ≤ fuel → index ≤ lines.len →
    index ≤ skipBlank lines fuel index ∧ skipBlank lines fuel index ≤ lines.len ∧
      (∀ m, index ≤ m → m < skipBlank lines fuel index →
        isBlankLine (lines.get m).content = true) ∧
      (skipBlank lines fuel index < lines.len →
        isBlankLine (lines.get (skipBlank lines fuel index)).content = false) := by
  induction fuel with
  | zero =>
      intro index hfuel hle
      refine ⟨le_refl _, hle, ?_, ?_⟩
      · intro m h1 h2
        rw [skipBlank] at h2
        omega
      · intro h
        rw [skipBlank] at h
        omega
  | succ fuel ih =>
      intro index hfuel hle
      rw [skipBlank]
      split
      · rename_i hblank
        obtain ⟨h1, h2, h3, h4⟩ := ih (index + 1) (by omega) hblank.1
        refine ⟨by omega, h2, ?_, h4⟩
        intro m hm hlt
        rcases Nat.eq_or_lt_of_le hm with rfl | hm
        · exact hblank.2
        · exact h3 m hm hlt
      · rename_i hblank
        refine ⟨le_refl _, hle, fun m h1 h2 => by omega, ?_⟩
        intro hlt
        simp only [not_and, Bool.not_eq_true] at hblank
        exact hblank hlt

/-! ## Underlined headings -/

theorem length_intercalate_cons (x : Str) {xs : List Str} (hxs : xs ≠ []) :
    [' '].intercalate (x :: xs) = x ++ ' ' :: [' '].intercalate xs := by
  cases xs with
  | nil => exact absurd rfl hxs
  | cons y ys => simp [List.intercalate, List.intersperse]

/-- The title of an underlined heading is shorter than its lines. -/
theorem titleParts_spec (hl : lines.LinesOf text) {contentIndent endIndex : ℕ}
    (hend : endIndex ≤ lines.len) (fuel : ℕ) : ∀ index, index < endIndex → endIndex - index ≤ fuel →
    (∀ m, index ≤ m → m < endIndex → (removeIndent (lines.get m).content contentIndent).isSome) →
    ∃ parts, titleParts lines endIndex contentIndent fuel index = .ok parts ∧ parts ≠ [] ∧
      ([' '].intercalate parts).length + lines.start index ≤ lines.start endIndex ∧
      ∀ c ∈ [' '].intercalate parts, c = ' ' ∨ c ∈ text := by
  induction fuel with
  | zero => intro index hlt hfuel; omega
  | succ fuel ih =>
      intro index hlt hfuel hindent
      obtain ⟨relative, hrel⟩ := Option.isSome_iff_exists.mp (hindent index (le_refl _) hlt)
      have hsub : (strip relative).Sublist (lines.get index).content :=
        (strip_sublist relative).trans (removeIndent_suffix hrel).sublist
      have hlen : (strip relative).length + lines.start index ≤ lines.stop index := by
        have h1 := hsub.length_le
        have h2 := hl.length_content (show index < lines.len by omega)
        have h3 := (hl.bounds index (by omega)).1
        omega
      have hmem : ∀ c ∈ strip relative, c ∈ text := fun c hc => hl.mem_content (hsub.subset hc)
      rw [titleParts, if_pos hlt, hrel]
      rcases Nat.lt_or_ge (index + 1) endIndex with hnext | hlast
      · obtain ⟨parts, hparts, hne, hlength, hchars⟩ := ih (index + 1) hnext (by omega)
          fun m h1 h2 => hindent m (by omega) h2
        refine ⟨strip relative :: parts, by rw [hparts]; rfl, by simp, ?_, ?_⟩
        · rw [length_intercalate_cons _ hne, List.length_append, List.length_cons]
          rw [LineIndex.LinesOf.start_succ] at hlength
          omega
        · intro c hc
          rw [length_intercalate_cons _ hne, List.mem_append, List.mem_cons] at hc
          rcases hc with hc | hc | hc
          · exact .inr (hmem c hc)
          · exact .inl hc
          · exact hchars c hc
      · have hnil : titleParts lines endIndex contentIndent fuel (index + 1) = .ok [] := by
          cases fuel with
          | zero => rfl
          | succ fuel => rw [titleParts, if_neg (by omega)]
        refine ⟨[strip relative], by rw [hnil]; rfl, by simp, ?_, ?_⟩
        · obtain rfl : endIndex = index + 1 := by omega
          rw [LineIndex.LinesOf.start_succ]
          simp only [List.intercalate, List.intersperse, List.flatten_cons, List.flatten_nil,
            List.append_nil]
          omega
        · intro c hc
          simp only [List.intercalate, List.intersperse, List.flatten_cons, List.flatten_nil,
            List.append_nil] at hc
          exact .inr (hmem c hc)

/-- **The title of an underlined heading** never trips the assertion. -/
theorem setextTitle_spec (hl : lines.LinesOf text) (hnul : '\x00' ∉ text)
    {contentIndent startIndex endIndex : ℕ} (hend : endIndex ≤ lines.len) (hlt : startIndex < endIndex)
    (hindent : ∀ m, startIndex ≤ m → m < endIndex →
      (removeIndent (lines.get m).content contentIndent).isSome) :
    ∃ title, setextTitle lines startIndex endIndex contentIndent = .ok title ∧ '\x00' ∉ title ∧
      title.length + lines.start startIndex ≤ lines.start endIndex := by
  obtain ⟨parts, hparts, _, hlength, hchars⟩ :=
    titleParts_spec hl hend (endIndex - startIndex) startIndex hlt (le_refl _) hindent
  refine ⟨[' '].intercalate parts, by rw [setextTitle, hparts]; rfl, ?_, hlength⟩
  intro h
  rcases hchars _ h with h | h
  · exact absurd h (by decide)
  · exact hnul h

/-- An underline found ahead: every line up to it has the indentation. -/
theorem setextScan_spec {contentIndent index level : ℕ} (fuel : ℕ) : ∀ nextIndex lastPlainIndex,
    index < nextIndex → nextIndex ≤ lines.len →
    (∀ m, index ≤ m → m < nextIndex → (removeIndent (lines.get m).content contentIndent).isSome) →
    (setextScan lines contentIndent fuel nextIndex lastPlainIndex).level = some level →
    (level = 1 ∨ level = 2) ∧
      nextIndex < (setextScan lines contentIndent fuel nextIndex lastPlainIndex).nextIndex ∧
      (setextScan lines contentIndent fuel nextIndex lastPlainIndex).nextIndex ≤ lines.len ∧
      (∀ m, index ≤ m →
        m < (setextScan lines contentIndent fuel nextIndex lastPlainIndex).nextIndex →
        (removeIndent (lines.get m).content contentIndent).isSome) ∧
      ∃ underline, removeIndent (lines.get
        ((setextScan lines contentIndent fuel nextIndex lastPlainIndex).nextIndex - 1)).content
          contentIndent = some underline ∧ setextHeadingLevel underline = some level := by
  induction fuel with
  | zero => intro nextIndex last _ _ _ h; cases h
  | succ fuel ih =>
      intro nextIndex last hlt hle hindent h
      rw [setextScan] at h ⊢
      split at h
      · rename_i hnext
        rw [if_pos hnext]
        cases hrel : removeIndent (lines.get nextIndex).content contentIndent with
        | none => rw [hrel] at h; cases h
        | some candidate =>
            rw [hrel] at h
            dsimp only at h ⊢
            have hindent' : ∀ m, index ≤ m → m < nextIndex + 1 →
                (removeIndent (lines.get m).content contentIndent).isSome := by
              intro m h1 h2
              rcases Nat.lt_succ_iff_lt_or_eq.mp h2 with h2 | rfl
              · exact hindent m h1 h2
              · rw [hrel]; rfl
            split at h
            · cases h
            · rename_i hblank
              rw [if_neg hblank]
              cases hset : setextHeadingLevel candidate with
              | some l =>
                  rw [hset] at h
                  cases h
                  exact ⟨(setextHeadingLevel_spec hset).2, Nat.lt_succ_self _, hnext, hindent', candidate,
                    hrel, hset⟩
              | none =>
                  rw [hset] at h
                  dsimp only at h ⊢
                  split at h
                  · cases h
                  · rename_i hother
                    rw [if_neg hother]
                    obtain ⟨h1, h2, h3, h4, h5⟩ :=
                      ih (nextIndex + 1) nextIndex (by omega) (by omega) hindent' h
                    exact ⟨h1, by omega, h3, h4, h5⟩
      · cases h

/-! ## Structures nested in a list item -/

/-- What a search for a nested structure at a line found, and the headings after it. -/
def NestedOk (lines : LineIndex) (index : ℕ) (headings : HeadingStack)
    (found : Option (StructuralBoundary × ℕ)) (headings' : HeadingStack) : Prop :=
  match found with
  | none => headings' = headings
  | some (b, next) => index < next ∧ Scanned lines index headings [b] next headings'

theorem not_mem_of_sublist {title : Str} {i : ℕ} (hl : lines.LinesOf text) (hnul : '\x00' ∉ text)
    (h : title.Sublist (lines.get i).content) : '\x00' ∉ title :=
  fun hmem => hnul (hl.mem_content (h.subset hmem))

/-- The title of a heading on one line is shorter than the line. -/
theorem title_length_le {title : Str} {i : ℕ} (hl : lines.LinesOf text) (hi : i < lines.len)
    (h : title.Sublist (lines.get i).content) : title.length + lines.start i ≤ lines.start (i + 1) := by
  have h1 := h.length_le
  have h2 := hl.length_content hi
  have h3 := (hl.bounds i hi).1
  rw [LineIndex.LinesOf.start_succ]
  omega

theorem nestedHeading_spec (hl : lines.LinesOf text) (hnul : '\x00' ∉ text)
    {index contentIndent : ℕ} {relative : Str} (hi : index < lines.len)
    (hrel : removeIndent (lines.get index).content contentIndent = some relative) :
    ∃ found next last, nestedHeading lines index contentIndent relative = .ok (found, next, last) ∧
      ∀ level title, found = some (level, title) → isBlankLine relative = false ∧
        (1 ≤ level ∧ level ≤ 6) ∧ '\x00' ∉ title ∧ index < next ∧ next ≤ lines.len ∧
        title.length + lines.start index ≤ lines.start next ∧
        HeadingLines lines index (next - 1) level title := by
  have hsuffix := (removeIndent_suffix hrel).sublist
  unfold nestedHeading
  cases hh : heading relative with
  | some found =>
      obtain ⟨level, title⟩ := found
      obtain ⟨hblank, hlevel, hsub⟩ := heading_spec hh
      refine ⟨_, _, _, rfl, ?_⟩
      intro level' title' heq
      cases heq
      exact ⟨hblank, hlevel, not_mem_of_sublist hl hnul (hsub.trans hsuffix), Nat.lt_succ_self _, hi,
        title_length_le hl hi (hsub.trans hsuffix), contentIndent, .inl ⟨rfl, relative, hrel, hh⟩⟩
  | none =>
      dsimp only
      split
      · exact ⟨_, _, _, rfl, by intro _ _ h; cases h⟩
      · rename_i hblank
        have hspec := fun l => @setextScan_spec lines contentIndent index l (lines.len - index)
          (index + 1) index (Nat.lt_succ_self _) hi
          (by
            intro m h1 h2
            obtain rfl : m = index := by omega
            rw [hrel]; rfl)
        generalize setextScan lines contentIndent (lines.len - index) (index + 1) index = scan at hspec ⊢
        cases hlevel : scan.level with
        | none => exact ⟨_, _, _, rfl, by intro _ _ h; cases h⟩
        | some level =>
            obtain ⟨hlev, hnext, hlen, hindent, hunderline⟩ := hspec level hlevel
            obtain ⟨title, htitle, htnul, htlen⟩ := @setextTitle_spec lines text hl hnul contentIndent
              index (scan.nextIndex - 1) (by omega) (by omega)
              fun m h1 h2 => hindent m h1 (by omega)
            refine ⟨some (level, title), scan.nextIndex, scan.lastPlainIndex, ?_, ?_⟩
            · rw [htitle]
              rfl
            · intro level' title' heq
              cases heq
              have := hl.start_mono (show scan.nextIndex - 1 ≤ scan.nextIndex by omega) hlen
              exact ⟨by simpa using hblank, by omega, htnul, by omega, hlen, by omega, contentIndent,
                .inr ⟨by omega, htitle, hunderline⟩⟩

/-- **A nested structure** starts at its line, and its boundary covers it. -/
theorem nestedListStructure_spec (hl : lines.LinesOf text) (hnul : '\x00' ∉ text)
    {index contentIndent : ℕ} {headings : HeadingStack} (hv : TitlesValid headings)
    (hi : index < lines.len) (scanState : NestedListScanState) :
    OnlyRaises .structuralMetadataLimitExceeded
      (nestedListStructure lines index contentIndent headings scanState)
      fun r => NestedOk lines index headings r.found r.headings := by
  unfold nestedListStructure
  dsimp only
  split
  · exact .ok rfl
  cases hrel : removeIndent (lines.get index).content contentIndent with
  | none => exact .ok rfl
  | some relative =>
      dsimp only
      have hnotBlank : isBlankLine relative = false → isBlankLine (lines.get index).content = false :=
        isBlankLine_mono fun c hc => (removeIndent_suffix hrel).subset hc
      cases hfence : fence relative with
      | some found =>
          obtain ⟨character, length⟩ := found
          have hblank := hnotBlank (fence_not_blank hfence)
          dsimp only
          have hend := @fenceEnd_bounds lines (fun content =>
            (removeIndent content contentIndent).any fun closing => closesFence closing character length)
            (lines.len - index) index hi
          generalize fenceEnd lines (fun content => (removeIndent content contentIndent).any
            fun closing => closesFence closing character length) (lines.len - index) index = endIndex
            at hend ⊢
          have hspan := hl.start_lt_stop hend.1 hend.2 hblank
          rw [hl.contentEndOffset_eq hend.2]
          refine (make_onlyRaises hv hspan (by rfl)).bind ?_
          rintro b ⟨hkind, hstart, hstop, hpath, _⟩
          refine .ok ⟨by omega, .plain hl hv (by rw [hkind]; intro h; cases h) hpath ?_ hend.2⟩
          exact .single hend.1 (Nat.lt_succ_self _) hend.2 hblank hstart hstop
            fun m h1 h2 => by omega
      | none =>
          obtain ⟨found, next, last, hok, hspec⟩ := nestedHeading_spec hl hnul hi hrel
          dsimp only
          rw [hok]
          refine OnlyRaises.bind (Q := (· = (found, next, last))) (.ok rfl) ?_
          rintro _ rfl
          cases found with
          | none => exact .ok rfl
          | some found =>
              obtain ⟨level, title⟩ := found
              obtain ⟨hblank, hlevel, htnul, hnext, hlen, htlen, hheading⟩ := hspec level title rfl
              have hblank := hnotBlank hblank
              have hspan := hl.start_lt_stop (show index ≤ next - 1 by omega)
                (show next - 1 < lines.len by omega) hblank
              dsimp only
              rw [hl.contentEndOffset_eq (show next - 1 < lines.len by omega)]
              refine (make_onlyRaises (hv.applyHeading htnul) hspan
                (by simp [levelFits, hlevel])).bind ?_
              rintro b ⟨hkind, hstart, hstop, hpath, hlev⟩
              refine .ok ⟨hnext, .heading hv htnul
                ⟨hkind, hlev, hlevel, index, next - 1, hstart, hstop, hheading⟩ hpath ?_ hlen htlen⟩
              exact .single (show index ≤ next - 1 by omega) (by omega) hlen hblank hstart hstop
                fun m h1 h2 => by omega

/-! ## List items -/

/-- The item that starts at line `first` reaches to a line before `index`, and only blank lines
are between. -/
def ItemReaches (lines : LineIndex) (first index itemEnd : ℕ) : Prop :=
  ∃ k, first ≤ k ∧ k < index ∧ itemEnd = lines.stop k ∧
    ∀ m, k < m → m < index → isBlankLine (lines.get m).content = true

theorem ItemReaches.skip {first index index' itemEnd : ℕ} (h : ItemReaches lines first index itemEnd)
    (hle : index ≤ index')
    (hblank : ∀ m, index ≤ m → m < index' → isBlankLine (lines.get m).content = true) :
    ItemReaches lines first index' itemEnd := by
  obtain ⟨k, hfirst, hk, hend, hbetween⟩ := h
  refine ⟨k, hfirst, by omega, hend, ?_⟩
  intro m h1 h2
  rcases Nat.lt_or_ge m index with hlt | hge
  · exact hbetween m h1 hlt
  · exact hblank m hge h2

theorem ItemReaches.next (hl : lines.LinesOf text) {first index : ℕ} (hi : index < lines.len)
    (hfirst : first ≤ index) :
    ItemReaches lines first (index + 1) (lines.get index).contentEndOffset :=
  ⟨index, hfirst, Nat.lt_succ_self _, hl.contentEndOffset_eq hi, fun m h1 h2 => by omega⟩

/-- **The lines of an item**: up to where the item ends and a nested structure may start. -/
theorem itemLoop_spec (hl : lines.LinesOf text) (hnul : '\x00' ∉ text) {contentIndent first : ℕ}
    {headings : HeadingStack} (hv : TitlesValid headings) (fuel : ℕ) :
    ∀ (index itemEnd : ℕ) (scanState : NestedListScanState), lines.len - index < fuel →
    index ≤ lines.len → ItemReaches lines first index itemEnd →
    OnlyRaises .structuralMetadataLimitExceeded
      (itemLoop lines contentIndent fuel index itemEnd headings scanState)
      fun item => ItemReaches lines first item.index item.itemEnd ∧ item.index ≤ lines.len ∧
        NestedOk lines item.index headings item.nested item.headings := by
  induction fuel with
  | zero => intro index itemEnd scanState hfuel; omega
  | succ fuel ih =>
      intro index itemEnd scanState hfuel hle hreach
      -- the two places at which a nested structure is looked for
      have hnested : ∀ (at_ : ℕ), at_ < lines.len → ∀ {f : NestedScan → Except ParserError ItemScan},
          (∀ r, r.found.isSome = true → NestedOk lines at_ headings r.found r.headings →
            OnlyRaises .structuralMetadataLimitExceeded (f r) fun item =>
              ItemReaches lines first item.index item.itemEnd ∧ item.index ≤ lines.len ∧
                NestedOk lines item.index headings item.nested item.headings) →
          (∀ r, r.found = none → r.headings = headings →
            OnlyRaises .structuralMetadataLimitExceeded (f r) fun item =>
              ItemReaches lines first item.index item.itemEnd ∧ item.index ≤ lines.len ∧
                NestedOk lines item.index headings item.nested item.headings) →
          OnlyRaises .structuralMetadataLimitExceeded
            (nestedListStructure lines at_ contentIndent headings scanState >>= f) fun item =>
              ItemReaches lines first item.index item.itemEnd ∧ item.index ≤ lines.len ∧
                NestedOk lines item.index headings item.nested item.headings := by
        intro at_ hat f hsome hnone
        refine (nestedListStructure_spec hl hnul hv hat scanState).bind ?_
        intro r hr
        cases hfound : r.found with
        | none =>
            refine hnone r hfound ?_
            rw [hfound] at hr
            exact hr
        | some found => exact hsome r (by rw [hfound]; rfl) hr
      rw [itemLoop]
      split
      swap
      · exact .ok ⟨hreach, hle, rfl⟩
      rename_i hi
      have hfirst : first ≤ index := by
        obtain ⟨k, h1, h2, _⟩ := hreach
        omega
      dsimp only
      split
      · exact .ok ⟨hreach, hle, rfl⟩
      split
      · rename_i hblank
        obtain ⟨hge, hlen, hblanks, _⟩ := @skipBlank_spec lines (lines.len - index) (index + 1)
          (by omega) hi
        generalize skipBlank lines (lines.len - index) (index + 1) = cont at hge hlen hblanks ⊢
        have hskip : ItemReaches lines first cont itemEnd := by
          refine hreach.skip (by omega) fun m h1 h2 => ?_
          rcases Nat.eq_or_lt_of_le h1 with rfl | h1
          · exact hblank
          · exact hblanks m h1 h2
        split
        · exact .ok ⟨hreach, hle, rfl⟩
        rename_i hcont
        split
        · exact .ok ⟨hskip, hlen, rfl⟩
        refine hnested cont (by omega) ?_ ?_
        · intro r hsome hr
          rw [if_pos hsome]
          exact .ok ⟨hskip, hlen, hr⟩
        · intro r hfound hheadings
          rw [if_neg (by rw [hfound]; simp), hheadings]
          split
          · exact ih _ _ _ (by omega) (by omega) (.next hl (by omega) (by omega))
          · exact .ok ⟨hreach, hle, rfl⟩
      · refine hnested index hi ?_ ?_
        · intro r hsome hr
          rw [if_pos hsome]
          exact .ok ⟨hreach, hle, hr⟩
        · intro r hfound hheadings
          have hnext := ih (index + 1) (lines.get index).contentEndOffset r.scanState (by omega)
            (by omega) (.next hl hi hfirst)
          rw [if_neg (by rw [hfound]; simp), hheadings]
          split
          · exact hnext
          split
          · exact .ok ⟨hreach, hle, rfl⟩
          · exact hnext

/-- **Further nested structures** of an item are added one after the other. -/
theorem nestedLoop_spec (hl : lines.LinesOf text) (hnul : '\x00' ∉ text)
    (hsize : text.length ≤ maxDocumentBytes) {contentIndent : ℕ} (fuel : ℕ) :
    ∀ (scan : ListScan) (done : List StructuralBoundary), lines.len - scan.index < fuel →
    scan.index ≤ lines.len → TitlesValid scan.headings →
    Fed lines scan.boundaries done scan.index scan.headings →
    OnlyRaises .structuralMetadataLimitExceeded (nestedLoop lines contentIndent fuel scan)
      fun scan' => ∃ bs, Fed lines scan'.boundaries (done ++ bs) scan'.index scan'.headings ∧
        Scanned lines scan.index scan.headings bs scan'.index scan'.headings := by
  induction fuel with
  | zero => intro scan done hfuel; omega
  | succ fuel ih =>
      intro scan done hfuel hle hv hfed
      have hstay : ∃ bs, Fed lines scan.boundaries (done ++ bs) scan.index scan.headings ∧
          Scanned lines scan.index scan.headings bs scan.index scan.headings :=
        ⟨[], by rwa [List.append_nil], .refl hle hv⟩
      rw [nestedLoop]
      split
      swap
      · exact .ok hstay
      obtain ⟨hge, hlen, hblanks, _⟩ := @skipBlank_spec lines (lines.len - scan.index) scan.index
        (le_refl _) hle
      generalize skipBlank lines (lines.len - scan.index) scan.index = cont at hge hlen hblanks ⊢
      have hskip : Scanned lines scan.index scan.headings [] cont scan.headings :=
        .blanks hl hv hge hlen hblanks
      dsimp only
      split
      · exact .ok hstay
      split
      · exact .ok ⟨[], by rw [List.append_nil]; exact hfed.skip hl hskip, hskip⟩
      · refine (nestedListStructure_spec hl hnul hv (show cont < lines.len by omega)
          scan.scanState).bind ?_
        rintro ⟨found, headings, scanState⟩ hnested
        cases found with
        | none =>
            obtain rfl : headings = scan.headings := hnested
            exact .ok hstay
        | some found =>
            obtain ⟨boundary, index⟩ := found
            obtain ⟨hlt, hscanned⟩ := hnested
            have hfound := hskip.trans hscanned
            rw [List.nil_append] at hfound
            obtain ⟨boundaries, hadd, hfed'⟩ := hfed.add hl hsize hfound
            dsimp only
            rw [hadd]
            refine (ih ⟨boundaries, index, headings, scanState, scan.returned⟩ _
              (show lines.len - index < fuel by omega) hscanned.within hscanned.valid hfed').mono ?_
            rintro scan' ⟨bs, hfed'', hscanned'⟩
            refine ⟨[boundary] ++ bs, ?_, hfound.trans hscanned'⟩
            rw [← List.append_assoc]
            exact hfed''

/-- **The items of a list** are covered, and a list marker is always passed. -/
theorem consumeLoop_spec (hl : lines.LinesOf text) (hnul : '\x00' ∉ text)
    (hsize : text.length ≤ maxDocumentBytes) (fuel : ℕ) :
    ∀ (scan : ListScan) (done : List StructuralBoundary), lines.len - scan.index < fuel →
    scan.index ≤ lines.len → TitlesValid scan.headings →
    Fed lines scan.boundaries done scan.index scan.headings →
    OnlyRaises .structuralMetadataLimitExceeded (consumeLoop lines fuel scan)
      fun scan' => ∃ bs, Fed lines scan'.boundaries (done ++ bs) scan'.index scan'.headings ∧
        Scanned lines scan.index scan.headings bs scan'.index scan'.headings ∧
        (scan.index < lines.len → (listMarker (lines.get scan.index).content).isSome = true →
          scan.index < scan'.index) := by
  induction fuel with
  | zero => intro scan done hfuel; omega
  | succ fuel ih =>
      intro scan done hfuel hle hv hfed
      rw [consumeLoop]
      split
      swap
      · refine .ok ⟨[], by rwa [List.append_nil], .refl hle hv, fun h => ?_⟩
        omega
      rename_i hi
      dsimp only
      cases hmarker : listMarker (lines.get scan.index).content with
      | none =>
          refine .ok ⟨[], by rwa [List.append_nil], .refl hle hv, ?_⟩
          intro _ h
          cases h
      | some marker =>
          have hblank : isBlankLine (lines.get scan.index).content = false :=
            listMarker_not_blank (by rw [hmarker]; rfl)
          -- the rest of the list, once the lines up to `mid` are covered
          have hrest : ∀ (mid : ListScan) (front : List StructuralBoundary), scan.index < mid.index →
              Fed lines mid.boundaries (done ++ front) mid.index mid.headings →
              Scanned lines scan.index scan.headings front mid.index mid.headings →
              ∀ ended : Bool, OnlyRaises .structuralMetadataLimitExceeded
                (if ended then pure mid else consumeLoop lines fuel mid) fun scan' =>
                  ∃ bs, Fed lines scan'.boundaries (done ++ bs) scan'.index scan'.headings ∧
                    Scanned lines scan.index scan.headings bs scan'.index scan'.headings ∧
                    (scan.index < lines.len → (some marker).isSome = true →
                      scan.index < scan'.index) := by
            intro mid front hlt hfed' hscanned ended
            cases ended with
            | true => exact .ok ⟨front, hfed', hscanned, fun _ _ => hlt⟩
            | false =>
                refine (ih mid (done ++ front) (by omega) hscanned.within hscanned.valid hfed').mono ?_
                rintro scan' ⟨bs, hfed'', hscanned', _⟩
                refine ⟨front ++ bs, ?_, hscanned.trans hscanned', fun _ _ => ?_⟩
                · rw [← List.append_assoc]
                  exact hfed''
                · exact Nat.lt_of_lt_of_le hlt hscanned'.covers.le
          dsimp only
          refine (itemLoop_spec hl hnul hv (lines.len - scan.index) (scan.index + 1)
            (lines.get scan.index).contentEndOffset scan.scanState (by omega) hi
            (.next hl hi (le_refl _))).bind ?_
          rintro ⟨index, itemEnd, nested, listEnded, headings, scanState⟩ ⟨hreach, hindex, hnested⟩
          dsimp only at hreach hindex hnested ⊢
          obtain ⟨k, hk, hki, rfl, hbetween⟩ := hreach
          refine (hfed.addFields hl hsize hv (j := index)
            (hl.start_lt_stop hk (by omega) hblank) (by rfl) ?_).bind ?_
          · intro x hkind _ hstart hend hpath
            exact .plain hl hv (by rw [hkind]; intro h; cases h) hpath
              (.single hk hki hindex hblank hstart hend hbetween) hindex
          rintro boundaries ⟨x, hfed', hscanned⟩
          cases nested with
          | none =>
              obtain rfl : headings = scan.headings := hnested
              exact hrest ⟨boundaries, index, scan.headings, scanState, false⟩ [x]
                (Nat.lt_of_le_of_lt hk hki) hfed' hscanned listEnded
          | some nested =>
              obtain ⟨boundary, next⟩ := nested
              obtain ⟨hlt, hnested⟩ := hnested
              obtain ⟨boundaries', hadd, hfed''⟩ := hfed'.add hl hsize hnested
              dsimp only
              rw [hadd]
              refine (nestedLoop_spec hl hnul hsize (lines.len - scan.index)
                ⟨boundaries', next, headings, scanState, false⟩ _
                (show lines.len - next < lines.len - scan.index by omega) hnested.within
                hnested.valid hfed'').bind ?_
              rintro mid ⟨bs, hfedMid, hscannedMid⟩
              have hle' : next ≤ mid.index := hscannedMid.covers.le
              refine hrest mid ([x] ++ [boundary] ++ bs) (by omega) ?_
                ((hscanned.trans hnested).trans hscannedMid) mid.returned
              simpa only [List.append_assoc] using hfedMid

/-- **A list** that starts with a marker: its boundaries cover the lines up to the line after it. -/
theorem consumeListBoundaries_spec (hl : lines.LinesOf text) (hnul : '\x00' ∉ text)
    (hsize : text.length ≤ maxDocumentBytes) {startIndex : ℕ} {headings : HeadingStack}
    (hv : TitlesValid headings) (hlimit : validateTitlePath (titlePathOf headings) = .ok ())
    (hi : startIndex < lines.len)
    (hmarker : (listMarker (lines.get startIndex).content).isSome = true) :
    OnlyRaises .structuralMetadataLimitExceeded (consumeListBoundaries lines startIndex headings)
      fun r => startIndex < r.2.1 ∧ ∃ bs, r.1.iter = .ok bs ∧
        Scanned lines startIndex headings bs r.2.1 r.2.2 := by
  unfold consumeListBoundaries
  refine (consumeLoop_spec hl hnul hsize _ ⟨.new, startIndex, headings, .new, false⟩ []
    (show lines.len - startIndex < lines.len - startIndex + 1 by omega) (le_of_lt hi) hv
    (.new hlimit)).bind ?_
  rintro scan ⟨bs, hfed, hscanned, hpass⟩
  rw [List.nil_append] at hfed
  obtain ⟨blocks, rs, nodes, hbuilt⟩ := hfed.built
  obtain ⟨table, _, blocks', hfinish, hrep⟩ := hbuilt.finish (hfed.count_lt hl hsize hscanned.within)
  rw [hfinish]
  exact .ok ⟨hpass hi hmarker, bs, hrep.iter_eq, hscanned⟩

/-! ## Paragraphs -/

/-- **The lines of a paragraph**, and the underline that makes it a heading. -/
theorem paragraphLoop_spec (hl : lines.LinesOf text) {first : ℕ} (fuel : ℕ) :
    ∀ index paragraphEnd, first < index → index ≤ lines.len →
    paragraphEnd = lines.stop (index - 1) →
    first < (paragraphLoop lines fuel index paragraphEnd).index ∧
      (paragraphLoop lines fuel index paragraphEnd).index ≤ lines.len ∧
      (paragraphLoop lines fuel index paragraphEnd).paragraphEnd =
        lines.stop ((paragraphLoop lines fuel index paragraphEnd).index - 1) ∧
      ∀ level, (paragraphLoop lines fuel index paragraphEnd).setextLevel = some level →
        (level = 1 ∨ level = 2) ∧
        first < (paragraphLoop lines fuel index paragraphEnd).index - 1 ∧
        (paragraphLoop lines fuel index paragraphEnd).setextUnderlineIndex =
          some ((paragraphLoop lines fuel index paragraphEnd).index - 1) ∧
        setextHeadingLevel
          (lines.get ((paragraphLoop lines fuel index paragraphEnd).index - 1)).content =
            some level := by
  induction fuel with
  | zero =>
      intro index paragraphEnd hlt hle hend
      exact ⟨hlt, hle, hend, by intro _ h; cases h⟩
  | succ fuel ih =>
      intro index paragraphEnd hlt hle hend
      rw [paragraphLoop]
      split
      swap
      · exact ⟨hlt, hle, hend, by intro _ h; cases h⟩
      rename_i hi
      dsimp only
      have hstop := hl.contentEndOffset_eq hi
      cases hset : setextHeadingLevel (lines.get index).content with
      | some level =>
          refine ⟨Nat.lt_succ_of_lt hlt, hi, hstop, ?_⟩
          intro level' h
          cases h
          exact ⟨(setextHeadingLevel_spec hset).2, hlt, rfl, hset⟩
      | none =>
          dsimp only
          split
          · exact ⟨hlt, hle, hend, by intro _ h; cases h⟩
          · exact ih (index + 1) _ (by omega) hi hstop

/-! ## The document -/

/-- **The whole scan**: from any line on, every line to the end is passed and covered. -/
theorem markdownLoop_spec (hl : lines.LinesOf text) (hnul : '\x00' ∉ text)
    (hsize : text.length ≤ maxDocumentBytes) (fuel : ℕ) :
    ∀ (index : ℕ) (b : BoundaryBuilder) (headings : HeadingStack) (done : List StructuralBoundary),
    lines.len - index < fuel → index ≤ lines.len → TitlesValid headings →
    validateTitlePath (titlePathOf headings) = .ok () → Fed lines b done index headings →
    OnlyRaises .structuralMetadataLimitExceeded (markdownLoop lines fuel index b headings)
      fun b' => ∃ bs headings', Fed lines b' (done ++ bs) lines.len headings' ∧
        Scanned lines index headings bs lines.len headings' := by
  induction fuel with
  | zero => intro index b headings done hfuel; omega
  | succ fuel ih =>
      intro index b headings done hfuel hle hv hlimit hfed
      -- what follows a piece of the scan that passes at least one line
      have hnext : ∀ {next b' front headings'}, index < next →
          Fed lines b' (done ++ front) next headings' →
          Scanned lines index headings front next headings' →
          OnlyRaises .structuralMetadataLimitExceeded (markdownLoop lines fuel next b' headings')
            fun b' => ∃ bs headings', Fed lines b' (done ++ bs) lines.len headings' ∧
              Scanned lines index headings bs lines.len headings' := by
        intro next b' front headings' hlt hfed' hscanned
        have hwithin := hscanned.within
        refine (ih next b' headings' (done ++ front) (by omega) hscanned.within hscanned.valid ?_
          hfed').mono ?_
        · rw [← hscanned.path]
          exact validateTitlePath_lastPath front hlimit
        · rintro b'' ⟨bs, headings'', hfed'', hscanned'⟩
          refine ⟨front ++ bs, headings'', ?_, hscanned.trans hscanned'⟩
          rw [← List.append_assoc]
          exact hfed''
      rw [markdownLoop]
      split
      swap
      · obtain rfl : index = lines.len := by omega
        exact .ok ⟨[], headings, by rwa [List.append_nil], .refl hle hv⟩
      rename_i hi
      dsimp only
      split
      · rename_i hblank
        have hskip : Scanned lines index headings [] (index + 1) headings :=
          .blanks hl hv (Nat.le_succ _) hi fun m h1 h2 => by
            obtain rfl : m = index := by omega
            exact hblank
        exact hnext (Nat.lt_succ_self _) (by rw [List.append_nil]; exact hfed.skip hl hskip) hskip
      rename_i hblank
      rw [Bool.not_eq_true] at hblank
      -- one boundary from this line to the line before `next`
      have hcovers : ∀ {next} {x : StructuralBoundary}, index < next → next ≤ lines.len →
          x.startOffset = lines.start index → x.endOffset = lines.stop (next - 1) →
          Covers lines index next [x] := fun hlt hlen hstart hend =>
        .single (k := _ - 1) (by omega) (by omega) hlen hblank hstart hend fun m h1 h2 => by omega
      have hspan : ∀ {next}, index < next → next ≤ lines.len →
          lines.start index < lines.stop (next - 1) := fun hlt hlen =>
        hl.start_lt_stop (by omega) (by omega) hblank
      cases hfence : fence (lines.get index).content with
      | some found =>
          obtain ⟨character, length⟩ := found
          dsimp only
          have hend := @fenceEnd_bounds lines (fun content => closesFence content character length)
            (lines.len - index) index hi
          generalize fenceEnd lines (fun content => closesFence content character length)
            (lines.len - index) index = endIndex at hend ⊢
          rw [hl.contentEndOffset_eq hend.2]
          have hlt : index < endIndex + 1 := by omega
          refine (hfed.addFields hl hsize hv (j := endIndex + 1) (hspan hlt hend.2) (by rfl) ?_).bind ?_
          · intro x hkind _ hstart hstop hpath
            exact .plain hl hv (by rw [hkind]; intro h; cases h) hpath (hcovers hlt hend.2 hstart hstop) hend.2
          · rintro b' ⟨x, hfed', hscanned⟩
            exact hnext hlt hfed' hscanned
      | none =>
          dsimp only
          cases hheading : heading (lines.get index).content with
          | some found =>
              obtain ⟨level, title⟩ := found
              obtain ⟨_, hlevel, hsub⟩ := heading_spec hheading
              have htnul := not_mem_of_sublist hl hnul hsub
              dsimp only
              rw [hl.contentEndOffset_eq hi]
              have hlt : index < index + 1 := Nat.lt_succ_self _
              refine (hfed.addFields hl hsize (hv.applyHeading htnul) (j := index + 1) (hspan hlt hi)
                (by simp [levelFits, hlevel]) ?_).bind ?_
              · intro x hkind hlev hstart hstop hpath
                refine .heading hv htnul ⟨hkind, hlev, hlevel, index, index, hstart, hstop, 0,
                  .inl ⟨rfl, _, removeIndent_zero _, hheading⟩⟩ hpath
                  (hcovers hlt hi hstart hstop) hi (title_length_le hl hi hsub)
              · rintro b' ⟨x, hfed', hscanned⟩
                exact hnext hlt hfed' hscanned
          | none =>
              dsimp only
              split
              · rename_i hmarker
                refine (consumeListBoundaries_spec hl hnul hsize hv hlimit hi
                  (topLevelListMarker_isSome hmarker)).bind ?_
                rintro ⟨table, next, headings'⟩ ⟨hlt, bs, hiter, hscanned⟩
                obtain ⟨b', hextend, hfed'⟩ := hfed.extendAll hl hsize hscanned
                dsimp only at hlt hiter hscanned hfed' ⊢
                rw [hiter]
                show OnlyRaises _ (b.extend bs >>= _) _
                rw [hextend]
                exact hnext hlt hfed' hscanned
              · obtain ⟨hlt, hlen, hend, hset⟩ := paragraphLoop_spec hl (lines.len - index) (index + 1)
                  (lines.get index).contentEndOffset (Nat.lt_succ_self _) hi (hl.contentEndOffset_eq hi)
                generalize paragraphLoop lines (lines.len - index) (index + 1)
                  (lines.get index).contentEndOffset = scan at hlt hlen hend hset ⊢
                cases hlevel : scan.setextLevel with
                | none =>
                    dsimp only
                    rw [hend]
                    refine (hfed.addFields hl hsize hv (j := scan.index) (hspan hlt hlen) (by rfl) ?_).bind ?_
                    · intro x hkind _ hstart hstop hpath
                      exact .plain hl hv (by rw [hkind]; intro h; cases h) hpath
                        (hcovers hlt hlen hstart hstop) hlen
                    · rintro b' ⟨x, hfed', hscanned⟩
                      exact hnext hlt hfed' hscanned
                | some level =>
                    obtain ⟨hlev, hunder, hindex, hunderline⟩ := hset level hlevel
                    obtain ⟨title, htitle, htnul, htlen⟩ := @setextTitle_spec lines text hl hnul 0 index
                      (scan.index - 1) (by omega) hunder
                      fun m _ _ => by rw [removeIndent_zero]; rfl
                    have hmono := hl.start_mono (show scan.index - 1 ≤ scan.index by omega) hlen
                    rw [hindex]
                    dsimp only
                    rw [htitle, hend]
                    refine (hfed.addFields hl hsize (hv.applyHeading htnul) (j := scan.index)
                      (hspan hlt hlen) (by simp only [levelFits]; rcases hlev with rfl | rfl <;> rfl) ?_).bind ?_
                    · intro x hkind hlev' hstart hstop hpath
                      refine .heading hv htnul ⟨hkind, hlev', by omega, index, scan.index - 1, hstart,
                        hstop, 0, .inr ⟨hunder, htitle, _, removeIndent_zero _, hunderline⟩⟩ hpath
                        (hcovers hlt hlen hstart hstop) hlen (by omega)
                    · rintro b' ⟨x, hfed', hscanned⟩
                      exact hnext hlt hfed' hscanned

/-- The boundaries of a document: in order, disjoint, of positive length, inside the text, each
from the start of a line to the content end of a line with a line between that is not blank; and
every line that is not blank is inside exactly one. -/
structure CoversDocument (lines : LineIndex) (text : Str) (bs : List StructuralBoundary) : Prop where
  disjoint : bs.Pairwise fun a b => a.endOffset ≤ b.startOffset
  positive : ∀ b ∈ bs, b.startOffset < b.endOffset
  inside : ∀ b ∈ bs, b.endOffset ≤ text.length
  spans : ∀ b ∈ bs, ∃ m k, m ≤ k ∧ k < lines.len ∧ b.startOffset = lines.start m ∧
    b.endOffset = lines.stop k ∧ ∃ n, m ≤ n ∧ n ≤ k ∧ isBlankLine (lines.get n).content = false
  covered : ∀ m < lines.len, isBlankLine (lines.get m).content = false →
    ∃! b, b ∈ bs ∧ b.startOffset ≤ lines.start m ∧ lines.stop m ≤ b.endOffset

/-- Two boundaries of a disjoint sequence that share a piece are the same. -/
theorem eq_of_overlap {bs : List StructuralBoundary}
    (h : bs.Pairwise fun a b => a.endOffset ≤ b.startOffset) {a b : StructuralBoundary}
    (ha : a ∈ bs) (hb : b ∈ bs) (hab : a.startOffset < b.endOffset) (hba : b.startOffset < a.endOffset) :
    a = b := by
  induction h with
  | nil => cases ha
  | @cons x xs hx _ ih =>
      rcases List.mem_cons.mp ha with hax | hax <;> rcases List.mem_cons.mp hb with hbx | hbx
      · rw [hax, hbx]
      · have := hx b hbx
        subst hax
        omega
      · have := hx a hax
        subst hbx
        omega
      · exact ih hax hbx

theorem Covers.coversDocument (hl : lines.LinesOf text) {bs : List StructuralBoundary}
    (h : Covers lines 0 lines.len bs) : CoversDocument lines text bs where
  disjoint := (h.ordered hl).pairwise
  positive := fun b _ => b.start_lt_end
  inside := fun b hb => (h.end_lt hl (le_refl _) b hb).2
  spans := by
    intro b hb
    obtain ⟨m, k, hmk, hk, hstart, hend, hblank⟩ := h.spans b hb
    exact ⟨m, k, hmk, hk, hstart, hend, m, le_refl m, hmk, hblank⟩
  covered := by
    intro m hm hblank
    obtain ⟨b, hb, hstart, hend⟩ := h.covered hl m (Nat.zero_le m) hm hblank
    have hpos := hl.start_lt_stop (le_refl m) hm hblank
    refine ⟨b, ⟨hb, hstart, hend⟩, ?_⟩
    rintro c ⟨hc, hcstart, hcend⟩
    exact eq_of_overlap (h.ordered hl).pairwise hc hb (by omega) (by omega)

/-- The scanner on a normalized text, with the table that it packs and what it scanned. -/
theorem markdownBoundaries_scanned (t : NormalizedText) :
    markdownBoundaries t.text = .error .structuralMetadataLimitExceeded ∨
      ∃ lines table blocks nodes bs headings, LineIndex.fromText t.text = .ok lines ∧
        lines.LinesOf t.text ∧ markdownBoundaries t.text = .ok table ∧
        Represents table blocks nodes bs ∧ Scanned lines 0 [] bs lines.len headings := by
  have hsize := t.length_le
  obtain ⟨lines, hlines, hl⟩ := @LineIndex.fromText_linesOf t.text
    (by simp only [maxDocumentBytes] at hsize; omega)
  have hloop := markdownLoop_spec hl t.no_nul hsize (lines.len + 1) 0 .new [] [] (by omega)
    (Nat.zero_le _) (by intro title h; cases h) rfl (.new rfl)
  rw [markdownBoundaries, hlines]
  rcases hloop with hlimit | ⟨b, hok, bs, headings, hfed, hscanned⟩
  · left
    show (markdownLoop lines (lines.len + 1) 0 .new [] >>= _) = _
    rw [hlimit]
    rfl
  · right
    rw [List.nil_append] at hfed
    obtain ⟨blocks, rs, nodes, hbuilt⟩ := hfed.built
    obtain ⟨table, _, blocks', hfinish, hrep⟩ := hbuilt.finish (hfed.count_lt hl hsize (le_refl _))
    refine ⟨lines, table, blocks', nodes, bs, headings, rfl, hl, ?_, hrep, hscanned⟩
    show (markdownLoop lines (lines.len + 1) 0 .new [] >>= _) = _
    rw [hok]
    show (b.finish >>= _) = _
    rw [hfinish]
    rfl

theorem markdownBoundaries_represents (t : NormalizedText) :
    markdownBoundaries t.text = .error .structuralMetadataLimitExceeded ∨
      ∃ lines table blocks nodes bs, LineIndex.fromText t.text = .ok lines ∧
        lines.LinesOf t.text ∧ markdownBoundaries t.text = .ok table ∧
        Represents table blocks nodes bs ∧ Covers lines 0 lines.len bs := by
  rcases markdownBoundaries_scanned t with hlimit |
    ⟨lines, table, blocks, nodes, bs, headings, hlines, hl, htable, hrep, hscanned⟩
  · exact .inl hlimit
  · exact .inr ⟨lines, table, blocks, nodes, bs, hlines, hl, htable, hrep, hscanned.covers⟩

/-- **The Markdown scanner**, on every normalized text: it ends, raises nothing but the limit on
structural metadata, and otherwise its boundaries cover the document. -/
theorem markdownBoundaries_cover (t : NormalizedText) :
    markdownBoundaries t.text = .error .structuralMetadataLimitExceeded ∨
      ∃ lines table bs, LineIndex.fromText t.text = .ok lines ∧ lines.LinesOf t.text ∧
        markdownBoundaries t.text = .ok table ∧ table.iter = .ok bs ∧
        CoversDocument lines t.text bs := by
  rcases markdownBoundaries_represents t with hlimit |
    ⟨lines, table, blocks, nodes, bs, hlines, hl, htable, hrep, hcovers⟩
  · exact .inl hlimit
  · exact .inr ⟨lines, table, bs, hlines, hl, htable, hrep.iter_eq, hcovers.coversDocument hl⟩

/-- **Title paths**: the scanner raises the limit on structural metadata, or the title path of every
boundary is the titles of the headings up to it that are open there, those with a title and without
a later heading of the same or a smaller level.  The stack of headings has increasing levels at
every boundary, and is at most six deep. -/
theorem markdownBoundaries_titlePath (t : NormalizedText) :
    markdownBoundaries t.text = .error .structuralMetadataLimitExceeded ∨
      ∃ lines table bs marks, LineIndex.fromText t.text = .ok lines ∧
        markdownBoundaries t.text = .ok table ∧ table.iter = .ok bs ∧
        marks.length = bs.length ∧
        (∀ i b, bs[i]? = some b → ∃ mark, marks[i]? = some mark ∧ HeadingMark lines b mark ∧
          b.titlePath = (openHeadings (headingsUpTo marks (i + 1))).map (·.2) ∧
          b.titlePath = titlePathOf (stackAfter (headingsUpTo marks (i + 1)))) ∧
        ∀ i, LevelsIncrease (stackAfter (headingsUpTo marks i)) ∧
          (stackAfter (headingsUpTo marks i)).length ≤ 6 := by
  rcases markdownBoundaries_scanned t with hlimit |
    ⟨lines, table, blocks, nodes, bs, headings, hlines, hl, htable, hrep, hscanned⟩
  · exact .inl hlimit
  · right
    obtain ⟨marks, htitled⟩ := hscanned.titled
    have hfit : ∀ i, LevelsFit (headingsUpTo marks i) := fun i =>
      htitled.levelsFit.upTo i
    refine ⟨lines, table, bs, marks, hlines, htable, hrep.iter_eq, htitled.length_eq, ?_, ?_⟩
    · intro i b hb
      obtain ⟨mark, hget, hmark, hpath⟩ := @Titled.path_eq _ _ _ _ _ htitled [] rfl i b hb
      rw [List.nil_append] at hpath
      refine ⟨mark, hget, hmark, ?_, hpath⟩
      rw [hpath, (stackAfter_eq (hfit (i + 1))).1]
      rfl
    · intro i
      have hincreasing := (stackAfter_eq (hfit i)).2
      exact ⟨hincreasing, hincreasing.length_le⟩

end VeloxRag.Ingestion
