import VeloxRag.Ingestion.BoundaryRead
import VeloxRag.Ingestion.HeadingStack
import VeloxRag.Lib.OnlyRaises

/-!
# Boundaries that cover lines

What the Markdown scanner has to keep while it walks over the lines: the boundaries it has
added cover the lines it has passed, each from the start of a line that is not blank to the
content end of a line, with nothing but blank lines between them.  Along with it goes the
space the titles take, of which every heading adds no more than its own lines.

## Main definitions

* `Covers` — boundaries that cover a range of lines.
* `TitlesValid` — a stack of headings whose titles may stand in a title path.
* `Scanned` — what one piece of the scanner adds.
* `Fed` — the builder after the boundaries so far.
-/

namespace VeloxRag.Ingestion

open VeloxRag.Lib BoundaryBuilder

variable {lines : LineIndex} {text : Str}

/-! ## Covering lines -/

/-- The boundaries `bs` cover the lines from `i` up to `j`. -/
inductive Covers (lines : LineIndex) : ℕ → ℕ → List StructuralBoundary → Prop
  | nil (i : ℕ) : Covers lines i i []
  | blank {i j : ℕ} {bs : List StructuralBoundary} (hi : i < lines.len)
      (hblank : isBlankLine (lines.get i).content = true) (hrest : Covers lines (i + 1) j bs) :
      Covers lines i j bs
  | span {i k j : ℕ} {b : StructuralBoundary} {bs : List StructuralBoundary} (hik : i ≤ k)
      (hk : k < lines.len) (hfirst : isBlankLine (lines.get i).content = false)
      (hstart : b.startOffset = lines.start i) (hend : b.endOffset = lines.stop k)
      (hrest : Covers lines (k + 1) j bs) : Covers lines i j (b :: bs)

namespace Covers

variable {i j k : ℕ} {bs cs : List StructuralBoundary}

theorem append (h : Covers lines i j bs) (h' : Covers lines j k cs) : Covers lines i k (bs ++ cs) := by
  induction h with
  | nil i => exact h'
  | blank hi hblank _ ih => exact .blank hi hblank (ih h')
  | span hik hk hfirst hstart hend _ ih => exact .span hik hk hfirst hstart hend (ih h')

theorem le (h : Covers lines i j bs) : i ≤ j := by
  induction h with
  | nil i => exact le_refl i
  | blank _ _ _ ih => omega
  | span _ _ _ _ _ _ ih => omega

theorem length_le (h : Covers lines i j bs) : bs.length + i ≤ j := by
  induction h with
  | nil i => simp
  | blank _ _ _ ih => omega
  | span _ _ _ _ _ _ ih => rw [List.length_cons]; omega

/-- Blank lines are covered by nothing. -/
theorem blanks (hij : i ≤ j) (hj : j ≤ lines.len)
    (hblank : ∀ m, i ≤ m → m < j → isBlankLine (lines.get m).content = true) :
    Covers lines i j [] := by
  obtain ⟨n, rfl⟩ := Nat.exists_eq_add_of_le hij
  induction n generalizing i with
  | zero => exact .nil i
  | succ n ih =>
      refine .blank (by omega) (hblank i (le_refl i) (by omega)) ?_
      have := ih (i := i + 1) (by omega) (by omega) fun m hm hlt => hblank m (by omega) (by omega)
      rwa [show i + 1 + n = i + (n + 1) by omega] at this

/-- One boundary, and blank lines after it. -/
theorem single {b : StructuralBoundary} (hik : i ≤ k) (hkj : k < j) (hj : j ≤ lines.len)
    (hfirst : isBlankLine (lines.get i).content = false) (hstart : b.startOffset = lines.start i)
    (hend : b.endOffset = lines.stop k)
    (hblank : ∀ m, k < m → m < j → isBlankLine (lines.get m).content = true) :
    Covers lines i j [b] :=
  .span hik (by omega) hfirst hstart hend (blanks (by omega) hj fun m hm hlt => hblank m hm hlt)

theorem ordered (hl : lines.LinesOf text) (h : Covers lines i j bs) :
    OrderedFrom (lines.start i) bs := by
  induction h with
  | nil i => trivial
  | @blank i j bs hi _ _ ih => exact ih.mono (hl.start_mono (by omega) (by omega))
  | @span i k j b bs hik hk hfirst hstart hend _ ih =>
      refine ⟨by omega, ih.mono ?_⟩
      rw [LineIndex.LinesOf.start_succ]
      omega

/-- Every boundary ends before the line after the range. -/
theorem end_lt (hl : lines.LinesOf text) (h : Covers lines i j bs) (hj : j ≤ lines.len) :
    ∀ b ∈ bs, b.endOffset < lines.start j ∧ b.endOffset ≤ text.length := by
  induction h with
  | nil i => simp
  | blank _ _ _ ih => exact ih hj
  | @span i k j b bs hik hk hfirst hstart hend hrest ih =>
      rw [List.forall_mem_cons]
      refine ⟨?_, ih hj⟩
      have h1 := hl.start_mono hrest.le hj
      have h2 := (hl.bounds k hk).2
      rw [LineIndex.LinesOf.start_succ] at h1
      omega

theorem spans (h : Covers lines i j bs) : ∀ b ∈ bs, ∃ m k, m ≤ k ∧ k < lines.len ∧
    b.startOffset = lines.start m ∧ b.endOffset = lines.stop k ∧
      isBlankLine (lines.get m).content = false := by
  induction h with
  | nil i => simp
  | blank _ _ _ ih => exact ih
  | @span i k j b bs hik hk hfirst hstart hend _ ih =>
      rw [List.forall_mem_cons]
      exact ⟨⟨i, k, hik, hk, hstart, hend, hfirst⟩, ih⟩

theorem covered (hl : lines.LinesOf text) (h : Covers lines i j bs) : ∀ m, i ≤ m → m < j →
    isBlankLine (lines.get m).content = false →
    ∃ b ∈ bs, b.startOffset ≤ lines.start m ∧ lines.stop m ≤ b.endOffset := by
  induction h with
  | nil i => intro m h1 h2; omega
  | @blank i j bs hi hblank _ ih =>
      intro m him hmj hne
      rcases Nat.lt_or_ge i m with hlt | hge
      · exact ih m hlt hmj hne
      · obtain rfl : i = m := by omega
        rw [hblank] at hne
        cases hne
  | @span i k j b bs hik hk hfirst hstart hend _ ih =>
      intro m him hmj hne
      rcases Nat.lt_or_ge k m with hlt | hge
      · obtain ⟨b', hb', hin⟩ := ih m hlt hmj hne
        exact ⟨b', List.mem_cons_of_mem _ hb', hin⟩
      · refine ⟨b, List.mem_cons_self .., ?_, ?_⟩
        · rw [hstart]
          exact hl.start_mono him (by omega)
        · rw [hend]
          exact hl.stop_mono hge hk

end Covers

/-! ## Title paths -/

/-- Titles that may stand in a title path. -/
def TitlesValid (stack : HeadingStack) : Prop :=
  ∀ title ∈ titlePathOf stack, title ≠ [] ∧ '\x00' ∉ title

theorem exists_rdropWhile_append {α : Type*} (p : α → Bool) (xs : List α) :
    ∃ rest, xs.rdropWhile p ++ rest = xs := by
  obtain ⟨front, hfront⟩ := List.dropWhile_suffix (l := xs.reverse) p
  refine ⟨front.reverse, ?_⟩
  rw [List.rdropWhile, ← List.reverse_append, hfront, List.reverse_reverse]

/-- The stack after a heading: a prefix of the stack before, and the title if there is one. -/
theorem titlePathOf_applyHeading (stack : HeadingStack) (level : ℕ) (title : Str) :
    ∃ k, titlePathOf (applyHeading stack level title) =
      (titlePathOf stack).take k ++ if title = [] then [] else [title] := by
  obtain ⟨rest, hrest⟩ :=
    exists_rdropWhile_append (fun entry : ℕ × Str => decide (level ≤ entry.1)) stack
  unfold applyHeading
  generalize stack.rdropWhile (fun entry => decide (level ≤ entry.1)) = remaining at hrest ⊢
  refine ⟨remaining.length, ?_⟩
  have hpath : (titlePathOf stack).take remaining.length = titlePathOf remaining := by
    rw [titlePathOf, ← hrest, List.map_append, List.take_left' (List.length_map ..)]
    rfl
  rw [hpath]
  dsimp only
  split
  · rw [List.append_nil]
  · rw [titlePathOf, List.map_append]
    rfl

theorem TitlesValid.applyHeading {stack : HeadingStack} (h : TitlesValid stack) {level : ℕ}
    {title : Str} (ht : '\x00' ∉ title) : TitlesValid (applyHeading stack level title) := by
  obtain ⟨k, hk⟩ := titlePathOf_applyHeading stack level title
  intro t hmem
  rw [hk] at hmem
  rcases List.mem_append.mp hmem with hmem | hmem
  · exact h t (List.mem_of_mem_take hmem)
  · split at hmem
    · cases hmem
    · rename_i hne
      obtain rfl := List.mem_singleton.mp hmem
      exact ⟨hne, ht⟩

theorem newTitleBytes_self (path : List Str) : newTitleBytes path path = 0 := by
  rw [newTitleBytes, prefixLength_self, List.drop_length]
  rfl

theorem le_prefixLength (path : List Str) (k : ℕ) (more : List Str) :
    (path.take k).length ≤ prefixLength path (path.take k ++ more) := by
  induction path generalizing k with
  | nil => simp
  | cons p path ih =>
      cases k with
      | zero => simp
      | succ k =>
          rw [List.take_succ_cons, List.cons_append, prefixLength, if_pos rfl, List.length_cons]
          exact Nat.succ_le_succ (ih k)

/-- A heading adds no more than its title. -/
theorem newTitleBytes_applyHeading (stack : HeadingStack) (level : ℕ) (title : Str) :
    newTitleBytes (titlePathOf stack) (titlePathOf (applyHeading stack level title)) ≤
      4 * title.length := by
  obtain ⟨k, hk⟩ := titlePathOf_applyHeading stack level title
  rw [hk, newTitleBytes]
  generalize hmore : (if title = [] then [] else [title]) = more
  have hlen := le_prefixLength (titlePathOf stack) k more
  have hbytes : (more.flatMap encode).length ≤ 4 * title.length := by
    rw [← hmore]
    split
    · simp
    · rw [List.flatMap_cons, List.flatMap_nil, List.append_nil]
      exact length_encode_le title
  have hsub : (((titlePathOf stack).take k ++ more).drop
      (prefixLength (titlePathOf stack) ((titlePathOf stack).take k ++ more))).Sublist more := by
    rw [List.drop_append, List.drop_of_length_le hlen, List.nil_append]
    exact List.drop_sublist _ _
  exact le_trans (hsub.flatMap encode).length_le hbytes

theorem newTitleBytes_cons (p c : Str) (ps cs : List Str) :
    newTitleBytes (p :: ps) (c :: cs) =
      if p = c then newTitleBytes ps cs else ((c :: cs).flatMap encode).length := by
  unfold newTitleBytes
  rw [prefixLength]
  split
  · rw [List.drop_succ_cons]
  · rw [List.drop_zero]

theorem newTitleBytes_le (last path : List Str) :
    newTitleBytes last path ≤ (path.flatMap encode).length :=
  ((List.drop_sublist _ _).flatMap encode).length_le

theorem newTitleBytes_nil (path : List Str) :
    newTitleBytes [] path = (path.flatMap encode).length := by
  simp [newTitleBytes, prefixLength]

/-- A detour over another path adds no less. -/
theorem newTitleBytes_trans : ∀ a b c : List Str,
    newTitleBytes a c ≤ newTitleBytes a b + newTitleBytes b c := by
  intro a b
  induction b generalizing a with
  | nil =>
      intro c
      have := newTitleBytes_le a c
      rw [newTitleBytes_nil c]
      omega
  | cons y b ih =>
      intro c
      cases c with
      | nil => simp [newTitleBytes]
      | cons z c =>
          -- without a common title in front, everything of the last path is new
          have hfresh : ((z :: c).flatMap encode).length ≤
              ((y :: b).flatMap encode).length + newTitleBytes (y :: b) (z :: c) := by
            have hrest := ih [] c
            rw [newTitleBytes_nil, newTitleBytes_nil] at hrest
            rw [newTitleBytes_cons]
            simp only [List.flatMap_cons, List.length_append]
            split
            · rename_i h
              subst h
              omega
            · omega
          cases a with
          | nil =>
              rw [newTitleBytes_nil, newTitleBytes_nil]
              exact hfresh
          | cons x a =>
              rw [newTitleBytes_cons x y]
              split
              · rename_i hxy
                subst hxy
                rw [newTitleBytes_cons, newTitleBytes_cons]
                split
                · exact ih a c
                · omega
              · exact le_trans (newTitleBytes_le _ _) hfresh

theorem pathBytes_append (path : List Str) (xs ys : List StructuralBoundary) :
    pathBytes path (xs ++ ys) = pathBytes path xs + pathBytes (lastPath path xs) ys := by
  induction xs generalizing path with
  | nil => simp [pathBytes, lastPath]
  | cons x xs ih => rw [List.cons_append, pathBytes, pathBytes, ih, lastPath]; omega

theorem lastPath_append (path : List Str) (xs ys : List StructuralBoundary) :
    lastPath path (xs ++ ys) = lastPath (lastPath path xs) ys := by
  induction xs generalizing path with
  | nil => rfl
  | cons x xs ih => rw [List.cons_append, lastPath, ih, lastPath]

/-! ## Pieces of the scan -/

/-- The boundaries `bs` cover the lines from `i` to `j`, the headings change from `headings` to
`headings'` with them as their title paths tell, and their titles take no more space than the
lines. -/
structure Scanned (lines : LineIndex) (i : ℕ) (headings : HeadingStack)
    (bs : List StructuralBoundary) (j : ℕ) (headings' : HeadingStack) : Prop where
  covers : Covers lines i j bs
  within : j ≤ lines.len
  path : lastPath (titlePathOf headings) bs = titlePathOf headings'
  bytes : pathBytes (titlePathOf headings) bs + 4 * lines.start i ≤ 4 * lines.start j
  valid : TitlesValid headings'
  titled : ∃ marks, Titled lines headings bs marks headings'

namespace Scanned

variable {i j k : ℕ} {headings headings' headings'' : HeadingStack}
  {bs cs : List StructuralBoundary}

theorem refl (hi : i ≤ lines.len) (hv : TitlesValid headings) :
    Scanned lines i headings [] i headings :=
  ⟨.nil i, hi, rfl, by simp [pathBytes], hv, [], .nil headings⟩

theorem trans (h : Scanned lines i headings bs j headings')
    (h' : Scanned lines j headings' cs k headings'') :
    Scanned lines i headings (bs ++ cs) k headings'' where
  covers := h.covers.append h'.covers
  within := h'.within
  path := by rw [lastPath_append, h.path, h'.path]
  bytes := by
    rw [pathBytes_append, h.path]
    have h1 := h.bytes
    have h2 := h'.bytes
    omega
  valid := h'.valid
  titled := by
    obtain ⟨marks, htitled⟩ := h.titled
    obtain ⟨marks', htitled'⟩ := h'.titled
    exact ⟨marks ++ marks', htitled.append htitled'⟩

theorem blanks (hl : lines.LinesOf text) (hv : TitlesValid headings) (hij : i ≤ j)
    (hj : j ≤ lines.len)
    (hblank : ∀ m, i ≤ m → m < j → isBlankLine (lines.get m).content = true) :
    Scanned lines i headings [] j headings :=
  ⟨.blanks hij hj hblank, hj, rfl,
    by have := hl.start_mono hij hj; simp only [pathBytes]; omega, hv, [], .nil headings⟩

/-- A boundary under the open headings. -/
theorem plain {b : StructuralBoundary} (hl : lines.LinesOf text) (hv : TitlesValid headings)
    (hkind : b.kind ≠ .heading) (hpath : b.titlePath = titlePathOf headings)
    (hc : Covers lines i j [b]) (hj : j ≤ lines.len) :
    Scanned lines i headings [b] j headings where
  covers := hc
  within := hj
  path := hpath
  bytes := by
    have := hl.start_mono hc.le hj
    simp only [pathBytes, hpath, newTitleBytes_self]
    omega
  valid := hv
  titled := ⟨[none], .plain hkind hpath (.nil headings)⟩

/-- A boundary that is a heading, whose title comes from its lines. -/
theorem heading {b : StructuralBoundary} {level : ℕ} {title : Str}
    (hv : TitlesValid headings) (ht : '\x00' ∉ title)
    (hmark : HeadingMark lines b (some (level, title)))
    (hpath : b.titlePath = titlePathOf (applyHeading headings level title))
    (hc : Covers lines i j [b]) (hj : j ≤ lines.len)
    (hlen : title.length + lines.start i ≤ lines.start j) :
    Scanned lines i headings [b] j (applyHeading headings level title) where
  covers := hc
  within := hj
  path := hpath
  bytes := by
    have := newTitleBytes_applyHeading headings level title
    simp only [pathBytes, hpath]
    omega
  valid := hv.applyHeading ht
  titled := ⟨[some (level, title)], .heading hmark hpath (.nil _)⟩

end Scanned

/-! ## Validation of a boundary -/

theorem validateTitles_cases (titles : List Str)
    (h : ∀ title ∈ titles, title ≠ [] ∧ '\x00' ∉ title) : ∀ total,
    validateTitles total titles = .ok () ∨
      validateTitles total titles = .error .structuralMetadataLimitExceeded := by
  induction titles with
  | nil => intro total; exact .inl rfl
  | cons title titles ih =>
      intro total
      have ht := h title (by simp)
      rw [validateTitles, if_neg (by simp only [not_or]; exact ht)]
      split
      · exact .inr rfl
      split
      · exact .inr rfl
      · exact ih (fun t hmem => h t (List.mem_cons_of_mem _ hmem)) _

/-- A title path that passes its check is short. -/
theorem validateTitles_bytes (titles : List Str) : ∀ total, total ≤ maxTitlePathUtf8Bytes →
    validateTitles total titles = .ok () →
    total + (titles.flatMap encode).length ≤ maxTitlePathUtf8Bytes := by
  induction titles with
  | nil => intro total hle _; simpa using hle
  | cons title titles ih =>
      intro total hle h
      rw [validateTitles] at h
      split at h
      · cases h
      split at h
      · cases h
      split at h
      · cases h
      · have := ih _ (by omega) h
        rw [List.flatMap_cons, List.length_append]
        omega

theorem validateTitlePath_lastPath (bs : List StructuralBoundary) : ∀ {path : List Str},
    validateTitlePath path = .ok () → validateTitlePath (lastPath path bs) = .ok () := by
  induction bs with
  | nil => intro path h; exact h
  | cons b bs ih => intro path _; exact ih b.titlePath_valid

/-- **Making a boundary** of positive length from valid titles fails on the limit only. -/
theorem make_onlyRaises {headings : HeadingStack} (hv : TitlesValid headings) {kind : BoundaryKind}
    {startOffset endOffset : ℕ} {level : Option ℕ} (hspan : startOffset < endOffset)
    (hlevel : levelFits kind level = true) :
    OnlyRaises .structuralMetadataLimitExceeded
      (StructuralBoundary.make kind startOffset endOffset (titlePathOf headings) level)
      fun b => b.kind = kind ∧ b.startOffset = startOffset ∧ b.endOffset = endOffset ∧
        b.titlePath = titlePathOf headings ∧ b.headingLevel = level := by
  rcases validateTitles_cases _ hv 0 with hok | hlimit
  · have hvalid : validateFields kind startOffset endOffset (titlePathOf headings) level = .ok () :=
      validateFields_eq_ok.mpr ⟨hok, hspan, hlevel⟩
    refine .inr ⟨⟨kind, startOffset, endOffset, titlePathOf headings, level, hvalid⟩, ?_, rfl, rfl,
      rfl, rfl, rfl⟩
    exact StructuralBoundary.make_self
      ⟨kind, startOffset, endOffset, titlePathOf headings, level, hvalid⟩
  · left
    have hvalid : validateFields kind startOffset endOffset (titlePathOf headings) level =
        .error .structuralMetadataLimitExceeded := by
      rw [validateFields, validateTitlePath, hlimit]
      rfl
    rw [StructuralBoundary.make]
    split
    · rename_i h
      rw [hvalid] at h
      cases h
    · rename_i e h
      rw [hvalid] at h
      cases h
      rfl

/-! ## The builder -/

/-- The builder has been given boundaries up to line `index`, and has space for what follows. -/
structure Fed (lines : LineIndex) (b : BoundaryBuilder) (done : List StructuralBoundary)
    (index : ℕ) (headings : HeadingStack) : Prop where
  built : ∃ blocks rs nodes, b.Built blocks rs nodes done
  lastEnd : b.lastEndOffset ≤ lines.start index
  count : done.length ≤ index
  bytes : b.table.titleData.length + newTitleBytes b.lastTitlePath (titlePathOf headings) ≤
    maxTitlePathUtf8Bytes + 4 * lines.start index

namespace Fed

variable {b : BoundaryBuilder} {done bs : List StructuralBoundary} {i j : ℕ}
  {headings headings' : HeadingStack}

theorem count_lt (hl : lines.LinesOf text) (hsize : text.length ≤ maxDocumentBytes)
    (h : Fed lines b done i headings) (hi : i ≤ lines.len) : done.length < 2 ^ 32 := by
  have h1 := h.count
  have h2 := hl.le_start i hi
  have h3 := hl.start_le hi
  simp only [maxDocumentBytes] at hsize
  omega

theorem lastEnd_le {last bound : ℕ} (bs : List StructuralBoundary) (hlast : last ≤ bound)
    (h : ∀ b ∈ bs, b.endOffset ≤ bound) : BoundaryBuilder.lastEnd last bs ≤ bound := by
  induction bs generalizing last with
  | nil => exact hlast
  | cons b bs ih => exact ih (h b (by simp)) fun x hx => h x (by simp [hx])

theorem pathBytes_le (last path : List Str) (bs : List StructuralBoundary) :
    pathBytes last bs ≤ newTitleBytes last path + pathBytes path bs := by
  cases bs with
  | nil => simp [pathBytes]
  | cons b bs =>
      have := newTitleBytes_trans last path b.titlePath
      simp only [pathBytes]
      omega

theorem newTitleBytes_lastPath_le (last path : List Str) (bs : List StructuralBoundary) :
    pathBytes last bs + newTitleBytes (lastPath last bs) (lastPath path bs) ≤
      newTitleBytes last path + pathBytes path bs := by
  cases bs with
  | nil => simp [pathBytes, lastPath]
  | cons b bs =>
      have h1 := newTitleBytes_trans last path b.titlePath
      simp only [pathBytes, lastPath, newTitleBytes_self]
      omega

/-- **Adding what a piece of the scan found** never fails. -/
theorem extend (hl : lines.LinesOf text) (hsize : text.length ≤ maxDocumentBytes)
    (h : Fed lines b done i headings) (hs : Scanned lines i headings bs j headings') :
    ∃ b', bs.foldlM BoundaryBuilder.add b = .ok b' ∧ Fed lines b' (done ++ bs) j headings' := by
  obtain ⟨blocks, rs, nodes, hbuilt⟩ := h.built
  have hends := hs.covers.end_lt hl hs.within
  have hlen := hs.covers.length_le
  have hcount := h.count
  have hbytes := h.bytes
  have hstart := hl.start_le hs.within
  have hlines := hl.le_start j hs.within
  have hpath := pathBytes_le b.lastTitlePath (titlePathOf headings) bs
  have hscan := hs.bytes
  simp only [maxDocumentBytes] at hsize
  simp only [maxTitlePathUtf8Bytes] at hbytes
  obtain ⟨b', blocks', rs', nodes', hfold, hbuilt', hend, hlast, hdata⟩ := hbuilt.extend bs
    ((hs.covers.ordered hl).mono h.lastEnd)
    (by
      intro x hx
      have h1 := (hends x hx).2
      have h2 := x.start_lt_end
      omega)
    (by omega) (by omega)
  refine ⟨b', hfold, ⟨blocks', rs', nodes', hbuilt'⟩, ?_, ?_, ?_⟩
  · rw [hend]
    refine lastEnd_le bs ?_ fun x hx => le_of_lt (hends x hx).1
    exact le_trans h.lastEnd (hl.start_mono hs.covers.le hs.within)
  · rw [List.length_append]
    omega
  · have hdetour := newTitleBytes_lastPath_le b.lastTitlePath (titlePathOf headings) bs
    rw [hdata, hlast, ← hs.path]
    simp only [maxTitlePathUtf8Bytes]
    omega

/-- A new builder, under headings whose titles passed their check. -/
theorem new (hlimit : validateTitlePath (titlePathOf headings) = .ok ()) :
    Fed lines .new [] i headings where
  built := ⟨[], [], [], built_new⟩
  lastEnd := Nat.zero_le _
  count := Nat.zero_le _
  bytes := by
    have h := validateTitles_bytes _ 0 (Nat.zero_le _) hlimit
    have h' := newTitleBytes_le BoundaryBuilder.new.lastTitlePath (titlePathOf headings)
    simp only [BoundaryBuilder.new, List.length_nil] at h' ⊢
    omega

/-- Blank lines add nothing. -/
theorem skip (hl : lines.LinesOf text) (h : Fed lines b done i headings)
    (hs : Scanned lines i headings [] j headings) : Fed lines b done j headings where
  built := h.built
  lastEnd := le_trans h.lastEnd (hl.start_mono hs.covers.le hs.within)
  count := le_trans h.count hs.covers.le
  bytes := by
    have h1 := h.bytes
    have h2 := hl.start_mono hs.covers.le hs.within
    omega

/-- Adding them with the builder's own loop. -/
theorem extendAll (hl : lines.LinesOf text) (hsize : text.length ≤ maxDocumentBytes)
    (h : Fed lines b done i headings) (hs : Scanned lines i headings bs j headings') :
    ∃ b', b.extend bs = .ok b' ∧ Fed lines b' (done ++ bs) j headings' := by
  obtain ⟨b', hfold, hfed⟩ := h.extend hl hsize hs
  obtain ⟨blocks, rs, nodes, hbuilt⟩ := h.built
  refine ⟨b', ?_, hfed⟩
  rw [BoundaryBuilder.extend, hbuilt.open_eq]
  exact hfold

/-- Adding one boundary. -/
theorem add {x : StructuralBoundary} (hl : lines.LinesOf text) (hsize : text.length ≤ maxDocumentBytes)
    (h : Fed lines b done i headings) (hs : Scanned lines i headings [x] j headings') :
    ∃ b', b.add x = .ok b' ∧ Fed lines b' (done ++ [x]) j headings' := by
  obtain ⟨b', hfold, hfed⟩ := h.extend hl hsize hs
  refine ⟨b', ?_, hfed⟩
  simp only [List.foldlM_cons, List.foldlM_nil] at hfold
  cases hadd : b.add x with
  | error e =>
      rw [hadd] at hfold
      cases hfold
  | ok b'' =>
      rw [hadd] at hfold
      exact hfold

/-- Adding a boundary by its fields fails on the limit only. -/
theorem addFields {kind : BoundaryKind} {startOffset endOffset : ℕ} {level : Option ℕ}
    (hl : lines.LinesOf text) (hsize : text.length ≤ maxDocumentBytes)
    (h : Fed lines b done i headings) (hv : TitlesValid headings') (hspan : startOffset < endOffset)
    (hlevel : levelFits kind level = true)
    (hs : ∀ x : StructuralBoundary, x.kind = kind → x.headingLevel = level →
      x.startOffset = startOffset → x.endOffset = endOffset → x.titlePath = titlePathOf headings' → Scanned lines i headings [x] j headings') :
    OnlyRaises .structuralMetadataLimitExceeded
      (b.addFields kind startOffset endOffset (titlePathOf headings') level)
      fun b' => ∃ x, Fed lines b' (done ++ [x]) j headings' ∧
        Scanned lines i headings [x] j headings' := by
  rcases make_onlyRaises hv hspan hlevel with hlimit | ⟨x, _, hkind, hstart, hend, hpath, hlev⟩
  · left
    rw [StructuralBoundary.make] at hlimit
    split at hlimit
    · cases hlimit
    · rename_i e he
      cases hlimit
      rw [BoundaryBuilder.addFields, he]
      rfl
  · have hscan := hs x hkind hlev hstart hend hpath
    obtain ⟨b', hadd, hfed⟩ := h.add hl hsize hscan
    rw [BoundaryBuilder.add, hkind, hstart, hend, hpath, hlev] at hadd
    exact .inr ⟨b', hadd, x, hfed, hscan⟩

end Fed

end VeloxRag.Ingestion
