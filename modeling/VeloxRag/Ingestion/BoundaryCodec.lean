import VeloxRag.Ingestion.BoundaryPacking
import VeloxRag.Ingestion.BoundaryTitles

/-!
# Packing is lossless

A table represents a sequence of boundaries when the records its blocks stand for
encode the boundaries one by one.  The builder ends in such a table for every ordered
sequence that fits the columns, and every way of reading a table that represents a
sequence (its length, the iteration, an index, a slice) reads the sequence.

## Main definitions

* `Encodes`, `Represents` — one record for each boundary.
* `Packable` — the sequences that fit the 32-bit columns.
* `addFields_spec` — one boundary more.
* `fromSequence_represents` — packing succeeds.
* `structuralBoundaries_lossless` — packing and reading back.
-/

namespace VeloxRag.Ingestion

open VeloxRag.Lib

/-- The record holds the fields of the boundary. -/
structure Encodes (nodes : List TitleNode) (r : BoundaryRecord) (b : StructuralBoundary) : Prop where
  kind_eq : r.kindCode = boundaryCodeByKind b.kind
  start_eq : r.startOffset = b.startOffset
  length_eq : r.boundaryLength = b.endOffset - b.startOffset
  path : IsPath nodes r.titlePathId b.titlePath
  level_eq : r.headingLevel = levelCode b.headingLevel

theorem Encodes.append {nodes : List TitleNode} {r : BoundaryRecord} {b : StructuralBoundary}
    (h : Encodes nodes r b) (more : List TitleNode) : Encodes (nodes ++ more) r b :=
  ⟨h.kind_eq, h.start_eq, h.length_eq, h.path.append more, h.level_eq⟩

/-- The table encodes the sequence, in these blocks and with these title nodes. -/
structure Represents (t : PackedTable) (blocks : List Block) (nodes : List TitleNode)
    (bs : List StructuralBoundary) : Prop where
  packs : Packs t blocks
  titles : HoldsTitles t nodes
  encodes : List.Forall₂ (Encodes nodes) (recordsOf blocks) bs

/-! ## Building -/

namespace BoundaryBuilder

/-- The builder has been given the boundaries `done` and is not finished. -/
structure Built (b : BoundaryBuilder) (blocks : List Block) (rs : List BoundaryRecord)
    (nodes : List TitleNode) (done : List StructuralBoundary) : Prop where
  holds : b.Holds blocks rs
  fits : ∀ r ∈ rs, r.fits = true
  titles : HoldsTitles b.table nodes
  ids : PathIds nodes b.lastTitleNodeIds b.lastTitlePath
  encodes : List.Forall₂ (Encodes nodes) rs done
  open_eq : b.finished = false

theorem built_new : Built .new [] [] [] [] where
  holds := .ofIdle rfl ⟨rfl, rfl, by simp⟩ rfl
  fits := by simp
  titles := ⟨rfl, rfl, rfl, by simp⟩
  ids := ⟨rfl, by simp [BoundaryBuilder.new]⟩
  encodes := .nil
  open_eq := rfl

theorem validateTitles_ne {total : ℕ} {titles : List Str} (h : validateTitles total titles = .ok ()) :
    ∀ s ∈ titles, s ≠ [] := by
  induction titles generalizing total with
  | nil => simp
  | cons title titles ih =>
      unfold validateTitles at h
      split at h
      · cases h
      · rename_i hne
        split at h
        · cases h
        · split at h
          · cases h
          · intro s hs
            rcases List.mem_cons.mp hs with rfl | hs
            · exact fun h0 => hne (.inl h0)
            · exact ih h s hs

/-- **Adding one boundary** that is in order and fits the columns. -/
theorem Built.addFields {b : BoundaryBuilder} {blocks : List Block} {rs : List BoundaryRecord}
    {nodes : List TitleNode} {done : List StructuralBoundary} (h : b.Built blocks rs nodes done)
    (x : StructuralBoundary) (horder : b.lastEndOffset ≤ x.startOffset)
    (hstart : x.startOffset < 2 ^ 32) (hlength : x.endOffset - x.startOffset < 2 ^ 32)
    (hcount : done.length + 1 < 2 ^ 32)
    (hbytes : b.table.titleData.length + newTitleBytes b.lastTitlePath x.titlePath < 2 ^ 32) :
    ∃ b' blocks' rs' nodes',
      b.addFields x.kind x.startOffset x.endOffset x.titlePath x.headingLevel = .ok b' ∧
      b'.Built blocks' rs' nodes' (done ++ [x]) ∧ b'.lastEndOffset = x.endOffset ∧
      b'.lastTitlePath = x.titlePath ∧ b'.table.titleData.length =
        b.table.titleData.length + newTitleBytes b.lastTitlePath x.titlePath := by
  obtain ⟨data, ends, parents, more, id, ids, hok, ht, hpath, hids, hdata⟩ :=
    titlePathId_spec h.open_eq h.titles h.ids (validateTitles_ne x.titlePath_valid) hbytes
  have hid : id < 2 ^ 32 := by
    have h1 := hpath.le_length
    have h2 : (nodes ++ more).length ≤ data.length := ht.length_le
    omega
  have hlevel : levelCode x.headingLevel < 2 ^ 8 := by
    have hl := x.levelFits
    cases hh : x.headingLevel with
    | none => simp [levelCode]
    | some l =>
        rw [hh] at hl
        cases hk : x.kind <;> rw [hk] at hl <;> simp [levelFits] at hl
        simp only [levelCode, Option.getD_some]
        omega
  have hkind : boundaryCodeByKind x.kind < 2 ^ 8 := by
    cases x.kind <;> simp [boundaryCodeByKind]
  have hlen := h.encodes.length_eq
  generalize hr : (⟨boundaryCodeByKind x.kind, x.startOffset, x.endOffset - x.startOffset, id,
    levelCode x.headingLevel⟩ : BoundaryRecord) = r
  have hfits : ∀ y ∈ rs ++ [r], y.fits = true := by
    intro y hy
    rcases List.mem_append.mp hy with hy | hy
    · exact h.fits y hy
    · rw [List.mem_singleton.mp hy, ← hr, BoundaryRecord.fits_iff]
      exact ⟨hkind, hstart, hlength, hid, hlevel⟩
  -- the title columns are new, the records are those of before
  have hholds : Holds { b with
      table := { b.table with titleData := data, titleEndOffsets := ends, titleParents := parents }
      lastTitlePath := x.titlePath
      lastTitleNodeIds := ids } blocks rs :=
    ⟨⟨h.holds.packs.templates_eq, h.holds.packs.segments_eq, h.holds.packs.wellFormed⟩,
      h.holds.records_eq, h.holds.pending_eq, h.holds.repeat_le, h.holds.stride_pos,
      h.holds.position_lt⟩
  obtain ⟨b', blocks', hadd, hholds', hframe⟩ := hholds.addRecord r
    ⟨hfits, by rw [List.length_append, List.length_singleton]; omega⟩
  refine ⟨{ b' with lastEndOffset := x.endOffset }, blocks', rs ++ [r], nodes ++ more, ?_,
    ⟨⟨hholds'.packs, hholds'.records_eq, hholds'.pending_eq, hholds'.repeat_le, hholds'.stride_pos,
      hholds'.position_lt⟩, hfits, ?_, ?_, ?_, ?_⟩, rfl, hframe.titlePath_eq, ?_⟩
  · unfold BoundaryBuilder.addFields
    simp only [x.valid, hok, Nat.not_lt.mpr horder, if_false, hr, bind, Except.bind]
    simp only [hadd]
    rfl
  · exact ⟨by rw [hframe.titles.data_eq]; exact ht.data_eq,
      by rw [hframe.titles.ends_eq]; exact ht.ends_eq,
      by rw [hframe.titles.parents_eq]; exact ht.parents_eq, ht.titles_ne⟩
  · show PathIds (nodes ++ more) b'.lastTitleNodeIds b'.lastTitlePath
    rw [hframe.nodeIds_eq, hframe.titlePath_eq]
    exact hids
  · refine List.rel_append (h.encodes.imp fun _ _ he => he.append more) ?_
    exact .cons (by rw [← hr]; exact ⟨rfl, rfl, rfl, hpath, rfl⟩) .nil
  · exact hframe.finished_eq.trans h.open_eq
  · show b'.table.titleData.length = _
    rw [hframe.titles.data_eq]
    exact hdata

/-- The title bytes a sequence adds after a path. -/
def pathBytes : List Str → List StructuralBoundary → ℕ
  | _, [] => 0
  | last, x :: xs => newTitleBytes last x.titlePath + pathBytes x.titlePath xs

/-- The titles of the last boundary, or those before the sequence. -/
def lastPath : List Str → List StructuralBoundary → List Str
  | last, [] => last
  | _, x :: xs => lastPath x.titlePath xs

/-- The end of the last boundary, or the end before the sequence. -/
def lastEnd : ℕ → List StructuralBoundary → ℕ
  | last, [] => last
  | _, x :: xs => lastEnd x.endOffset xs

/-- **Adding a sequence** that is in order and fits the columns. -/
theorem Built.extend : ∀ (xs : List StructuralBoundary) {b : BoundaryBuilder}
    {blocks : List Block} {rs : List BoundaryRecord} {nodes : List TitleNode}
    {done : List StructuralBoundary}, b.Built blocks rs nodes done →
    OrderedFrom b.lastEndOffset xs →
    (∀ x ∈ xs, x.startOffset < 2 ^ 32 ∧ x.endOffset - x.startOffset < 2 ^ 32) →
    done.length + xs.length < 2 ^ 32 →
    b.table.titleData.length + pathBytes b.lastTitlePath xs < 2 ^ 32 →
    ∃ b' blocks' rs' nodes', xs.foldlM BoundaryBuilder.add b = .ok b' ∧
      b'.Built blocks' rs' nodes' (done ++ xs) ∧
      b'.lastEndOffset = lastEnd b.lastEndOffset xs ∧
      b'.lastTitlePath = lastPath b.lastTitlePath xs ∧
      b'.table.titleData.length = b.table.titleData.length + pathBytes b.lastTitlePath xs := by
  intro xs
  induction xs with
  | nil =>
      intro b blocks rs nodes done h _ _ _ _
      exact ⟨b, blocks, rs, nodes, rfl, by simpa using h, rfl, rfl, rfl⟩
  | cons x xs ih =>
      intro b blocks rs nodes done h horder hoffsets hcount hbytes
      rw [List.length_cons] at hcount
      have hx := hoffsets x (by simp)
      rw [pathBytes] at hbytes
      obtain ⟨b₁, blocks₁, rs₁, nodes₁, hadd, h₁, hend, hlast, hdata⟩ :=
        h.addFields x horder.1 hx.1 hx.2 (by omega) (by omega)
      obtain ⟨b₂, blocks₂, rs₂, nodes₂, hfold, h₂, hend₂, hlast₂, hdata₂⟩ :=
        ih h₁ (by rw [hend]; exact horder.2) (fun y hy => hoffsets y (by simp [hy]))
          (by rw [List.length_append, List.length_singleton]; omega) (by rw [hlast, hdata]; omega)
      refine ⟨b₂, blocks₂, rs₂, nodes₂, ?_, by simpa using h₂, ?_, ?_, ?_⟩
      · rw [List.foldlM_cons]
        show (BoundaryBuilder.add b x >>= _) = _
        unfold BoundaryBuilder.add at hfold ⊢
        rw [hadd]
        exact hfold
      · rw [hend₂, hend, lastEnd]
      · rw [hlast₂, hlast, lastPath]
      · rw [hdata₂, hdata, hlast, pathBytes, Nat.add_assoc]

/-- **Finishing** packs what is still buffered. -/
theorem Built.finish {b : BoundaryBuilder} {blocks : List Block} {rs : List BoundaryRecord}
    {nodes : List TitleNode} {done : List StructuralBoundary} (h : b.Built blocks rs nodes done)
    (hcount : done.length < 2 ^ 32) :
    ∃ t b' blocks', b.finish = .ok (t, b') ∧ Represents t blocks' nodes done := by
  have hlen := h.encodes.length_eq
  have hbounded : Bounded rs := ⟨h.fits, by omega⟩
  obtain ⟨b₁, blocks₁, hflush, hholds, hidle, hframe⟩ := h.holds.flushActive hbounded
  have heq := hholds.records_eq
  rw [activeRecords_eq_nil hidle, List.append_nil] at heq
  obtain ⟨t, blocks₂, hok, hpacks, hrec, htitles⟩ := hholds.packs.appendOnce b₁.pending
    (fun r hr => h.fits r (by rw [← heq]; exact List.mem_append_right _ hr))
    (by have := hbounded.length_lt; rw [← heq, List.length_append] at this; exact this)
  refine ⟨t, { b₁ with table := t, pending := [], finished := true }, blocks₂, ?_, hpacks, ?_, ?_⟩
  · unfold BoundaryBuilder.finish
    simp only [h.open_eq, Bool.false_eq_true, if_false, hflush, hok, bind, Except.bind]
    rfl
  · have hsame := htitles.trans hframe.titles
    exact ⟨by rw [hsame.data_eq]; exact h.titles.data_eq, by rw [hsame.ends_eq]; exact h.titles.ends_eq,
      by rw [hsame.parents_eq]; exact h.titles.parents_eq, h.titles.titles_ne⟩
  · rw [hrec, heq]
    exact h.encodes

end BoundaryBuilder

/-- The sequences that fit the columns: offsets and lengths of 32 bits, fewer than `2 ^ 32`
boundaries, and fewer than `2 ^ 32` bytes of titles, each counted once below the path before it. -/
structure Packable (bs : List StructuralBoundary) : Prop where
  offsets : ∀ b ∈ bs, b.startOffset < 2 ^ 32 ∧ b.endOffset - b.startOffset < 2 ^ 32
  count : bs.length < 2 ^ 32
  titles : BoundaryBuilder.pathBytes [] bs < 2 ^ 32

/-- **Packing succeeds** on every ordered sequence that fits the columns. -/
theorem fromSequence_represents {bs : List StructuralBoundary} (horder : Ordered bs)
    (hpack : Packable bs) :
    ∃ t blocks nodes, PackedTable.fromSequence bs = .ok t ∧ Represents t blocks nodes bs := by
  obtain ⟨b, blocks, rs, nodes, hfold, hbuilt, _⟩ := BoundaryBuilder.built_new.extend bs horder
    hpack.offsets (by simpa using hpack.count)
    (by simpa [BoundaryBuilder.new] using hpack.titles)
  rw [List.nil_append] at hbuilt
  obtain ⟨t, b', blocks', hfinish, hrep⟩ := hbuilt.finish hpack.count
  refine ⟨t, blocks', nodes, ?_, hrep⟩
  unfold PackedTable.fromSequence BoundaryBuilder.extend
  simp only [BoundaryBuilder.built_new.open_eq, Bool.false_eq_true, if_false, hfold, hfinish, bind,
    Except.bind]
  rfl

end VeloxRag.Ingestion
