import VeloxRag.Lib.BlockSearch
import VeloxRag.Ingestion.BoundaryCodec

/-!
# Reading a packed table

A table that represents a sequence is read through its segments: a segment row points
at the rows of its block's template, the running totals tell which segment holds an
index, and quotient and remainder by the template length tell which copy of which row.
Each reader of the table is shown to read the represented sequence.

## Main definitions

* `SegmentOf`, `Packs.segmentOf` — a segment row and the block behind it.
* `Represents.len_eq`, `iter_eq`, `getItem_eq`, `getSlice_eq` — the sequence protocol.
* `structuralBoundaries_lossless` — packing and reading back.
-/

namespace VeloxRag.Ingestion

open VeloxRag.Lib

/-! ## Segments and blocks -/

/-- The row describes the block, and its template rows are where the row says. -/
structure SegmentOf (t : PackedTable) (segment : Segment) (block : Block) : Prop where
  count_eq : segment.templateCount = block.template.length
  repeat_eq : segment.repeatCount = block.repeatCount
  stride_eq : segment.cycleStride = block.stride
  first_eq : some segment.firstStartOffset = block.template.head?.map (·.startOffset)
  rows : ∀ p, p < block.template.length →
    t.templates[segment.templateStart + p]? = block.template[p]?

theorem segmentsOf_segmentOf {t : PackedTable} {blocks : List Block}
    (hwf : ∀ b ∈ blocks, b.WellFormed) : ∀ (before : List BoundaryRecord) (total : ℕ),
    t.templates = before ++ blocks.flatMap (·.template) →
    List.Forall₂ (SegmentOf t) (segmentsOf before.length total blocks) blocks := by
  induction blocks with
  | nil =>
      intro before total _
      exact .nil
  | cons b bs ih =>
      intro before total ht
      rw [List.flatMap_cons] at ht
      refine .cons ⟨rfl, rfl, rfl, ?_, ?_⟩ ?_
      · have hne := (hwf b (by simp)).template_ne
        obtain ⟨first, rest, htemplate⟩ := List.exists_cons_of_ne_nil hne
        simp [htemplate]
      · intro p hp
        show t.templates[before.length + p]? = _
        rw [ht, List.getElem?_append_right (by omega), Nat.add_sub_cancel_left,
          List.getElem?_append_left hp]
      · have := ih (fun x hx => hwf x (by simp [hx])) (before ++ b.template)
          (total + b.template.length * b.repeatCount) (by rw [ht, List.append_assoc])
        rwa [List.length_append] at this

theorem Packs.segmentOf {t : PackedTable} {blocks : List Block} (h : Packs t blocks) :
    List.Forall₂ (SegmentOf t) t.segments blocks := by
  rw [h.segments_eq]
  exact segmentsOf_segmentOf h.wellFormed [] 0 (by rw [List.nil_append]; exact h.templates_eq)

theorem getElem?_segmentsOf_cumulative {blocks : List Block} {k : ℕ} (hk : k < blocks.length) :
    ∀ templateStart total, ((segmentsOf templateStart total blocks)[k]?).map (·.cumulativeCount) =
      some (total + (recordsOf (blocks.take (k + 1))).length) := by
  induction blocks generalizing k with
  | nil => simp at hk
  | cons b bs ih =>
      intro templateStart total
      cases k with
      | zero => simp [segmentsOf, recordsOf, Block.length_records]
      | succ k =>
          rw [segmentsOf, List.getElem?_cons_succ, ih (by simpa using hk)]
          simp [recordsOf, Block.length_records, Nat.add_assoc]

/-- The running total of a segment counts the records up to its end. -/
theorem Packs.cumulative_eq {t : PackedTable} {blocks : List Block} (h : Packs t blocks) {k : ℕ}
    (hk : k < blocks.length) : (t.segments[k]?).map (·.cumulativeCount) =
      some (recordsOf (blocks.take (k + 1))).length := by
  rw [h.segments_eq, getElem?_segmentsOf_cumulative hk, Nat.zero_add]

theorem recordsOf_eq_flatten (blocks : List Block) :
    recordsOf blocks = (blocks.map Block.records).flatten := by
  rw [recordsOf, List.flatMap_def]

theorem length_recordsOf_take (blocks : List Block) (k : ℕ) :
    (recordsOf (blocks.take k)).length = countBefore (blocks.map Block.records) k := by
  rw [countBefore, recordsOf_eq_flatten, List.map_take]

/-- A record is found by block, copy and row. -/
theorem getElem?_recordsOf {blocks : List Block} {k i : ℕ} {b : Block} (hk : blocks[k]? = some b)
    (hi : i < b.template.length * b.repeatCount) :
    (recordsOf blocks)[(recordsOf (blocks.take k)).length + i]? =
      (b.template[i % b.template.length]?).map
        (BoundaryRecord.shift (i / b.template.length * b.stride)) := by
  rw [length_recordsOf_take, recordsOf_eq_flatten,
    getElem?_flatten (s := b.records) (by rw [List.getElem?_map, hk]; rfl)
      (by rw [Block.length_records]; exact hi), Block.records,
    getElem?_cycles _ _ _ _ _ _ (by rw [Nat.mul_comm]; exact hi), Nat.zero_add]

/-! ## One boundary -/

/-- **Reading one boundary** at a row and a copy, whether or not its path is known. -/
theorem boundaryAtSegmentPosition_eq {t : PackedTable} {nodes : List TitleNode}
    (htitles : HoldsTitles t nodes) {segment : Segment} {c p : ℕ} {r : BoundaryRecord}
    {x : StructuralBoundary} (hr : t.templates[segment.templateStart + p]? = some r)
    (hx : Encodes nodes (r.shift (c * segment.cycleStride)) x) {path : Option (List Str)}
    (hpath : path = none ∨ path = some x.titlePath) :
    t.boundaryAtSegmentPosition segment c p path = .ok x := by
  have hkind : boundaryKindByCode[r.kindCode]? = some x.kind := by
    rw [show r.kindCode = boundaryCodeByKind x.kind from hx.kind_eq]
    exact boundaryKindByCode_code x.kind
  have hstart : r.startOffset + c * segment.cycleStride = x.startOffset := hx.start_eq
  have hlength : x.startOffset + r.boundaryLength = x.endOffset := by
    have h1 : r.boundaryLength = x.endOffset - x.startOffset := hx.length_eq
    have h2 := x.start_lt_end
    omega
  have hlevel : levelOfCode r.headingLevel = x.headingLevel := by
    rw [show r.headingLevel = levelCode x.headingLevel from hx.level_eq]
    exact levelOfCode_levelCode x.levelFits
  have hread : t.titlePath r.titlePathId = .ok x.titlePath := htitles.titlePath_eq hx.path
  have hmake : PackedTable.boundaryAtTemplate segment c r x.titlePath = .ok x := by
    simp only [PackedTable.boundaryAtTemplate, column_eq_ok hkind, bind, Except.bind, hstart,
      hlength, hlevel, x.make_self]
  unfold PackedTable.boundaryAtSegmentPosition
  rcases hpath with rfl | rfl
  · simp only [column_eq_ok hr, bind, Except.bind, hread, hmake]
  · simp only [column_eq_ok hr, bind, Except.bind, pure, Except.pure, hmake]

/-! ## Length and iteration -/

theorem Represents.len_eq {t : PackedTable} {blocks : List Block} {nodes : List TitleNode}
    {bs : List StructuralBoundary} (h : Represents t blocks nodes bs) : t.len = bs.length := by
  rw [h.packs.len_eq, h.encodes.length_eq]

/-- A visit reads this record. -/
def Visits (t : PackedTable) (v : Segment × ℕ × ℕ) (r : BoundaryRecord) : Prop :=
  ∃ r₀, t.templates[v.1.templateStart + v.2.2]? = some r₀ ∧
    r = r₀.shift (v.2.1 * v.1.cycleStride)

/-- The three loops of the iteration visit the records in order. -/
theorem Packs.visits {t : PackedTable} {blocks : List Block} (h : Packs t blocks) :
    List.Forall₂ (Visits t) t.visits (recordsOf blocks) := by
  refine List.rel_flatMap h.segmentOf ?_
  intro segment block hseg
  have hrange : List.Forall₂ Eq (List.range segment.repeatCount) (List.range block.repeatCount) := by
    rw [hseg.repeat_eq]
    exact List.forall₂_same.mpr fun _ _ => rfl
  unfold Block.records cycles
  refine List.rel_flatMap hrange ?_
  rintro c _ rfl
  rw [List.forall₂_map_left_iff, List.forall₂_map_right_iff, List.forall₂_iff_get]
  refine ⟨by rw [List.length_range, hseg.count_eq], ?_⟩
  intro i h1 h2
  refine ⟨block.template[i], ?_, ?_⟩
  · simp only [List.get_eq_getElem, List.getElem_range]
    rw [hseg.rows i h2, List.getElem?_eq_getElem h2]
  · simp only [Nat.zero_add, List.get_eq_getElem, hseg.stride_eq]

/-- The cursor of the iteration holds the path of the identifier it remembers. -/
def CursorHolds (t : PackedTable) (cursor : PackedTable.TitleCursor) : Prop :=
  ∀ id, cursor.previousPathId = some id → t.titlePath id = .ok cursor.titlePath

theorem moveCursor_eq {t : PackedTable} {cursor : PackedTable.TitleCursor} {id : ℕ}
    {path : List Str} (hcursor : CursorHolds t cursor) (hpath : t.titlePath id = .ok path) :
    ∃ cursor', t.moveCursor cursor id = .ok cursor' ∧ CursorHolds t cursor' ∧
      cursor'.titlePath = path := by
  unfold PackedTable.moveCursor
  by_cases hsame : cursor.previousPathId = some id
  · refine ⟨cursor, by simp only [hsame, if_true]; rfl, hcursor, ?_⟩
    have := hcursor id hsame
    rw [hpath] at this
    injection this with this
    exact this.symm
  · refine ⟨⟨some id, path⟩, ?_, ?_, rfl⟩
    · simp only [hsame, if_false, hpath]
      rfl
    · intro id' h
      injection h with h
      rw [← h]
      exact hpath

theorem iterGo_eq {t : PackedTable} {nodes : List TitleNode} (htitles : HoldsTitles t nodes)
    {vs : List (Segment × ℕ × ℕ)} {rs : List BoundaryRecord} (hvisits : List.Forall₂ (Visits t) vs rs) :
    ∀ {bs : List StructuralBoundary} {cursor : PackedTable.TitleCursor},
      List.Forall₂ (Encodes nodes) rs bs → CursorHolds t cursor → t.iterGo cursor vs = .ok bs := by
  induction hvisits with
  | nil =>
      intro bs cursor hbs _
      cases hbs
      rfl
  | @cons v r vs rs hv _ ih =>
      intro bs cursor hbs hcursor
      cases hbs with
      | @cons _ x _ bs hx hrest =>
          obtain ⟨segment, c, p⟩ := v
          obtain ⟨r₀, hr₀, rfl⟩ := hv
          have hread : t.titlePath r₀.titlePathId = .ok x.titlePath := htitles.titlePath_eq hx.path
          obtain ⟨cursor', hmove, hcursor', hpath⟩ := moveCursor_eq hcursor hread
          have hb : t.boundaryAtSegmentPosition segment c p (some cursor'.titlePath) = .ok x :=
            boundaryAtSegmentPosition_eq htitles hr₀ hx (.inr (by rw [hpath]))
          simp only [PackedTable.iterGo, column_eq_ok hr₀, hmove, hb, ih hrest hcursor', bind,
            Except.bind]
          rfl

/-- **Iteration** yields the represented boundaries. -/
theorem Represents.iter_eq {t : PackedTable} {blocks : List Block} {nodes : List TitleNode}
    {bs : List StructuralBoundary} (h : Represents t blocks nodes bs) : t.iter = .ok bs :=
  iterGo_eq h.titles h.packs.visits h.encodes (fun _ hn => by cases hn)

/-! ## Indexing -/

/-- The segment found by the running totals holds the index. -/
theorem Packs.segmentIndexOf_spec {t : PackedTable} {blocks : List Block} (h : Packs t blocks)
    {index : ℕ} (hindex : index < (recordsOf blocks).length) :
    ∃ b j, blocks[t.segmentIndexOf index]? = some b ∧ j < b.template.length * b.repeatCount ∧
      index = (recordsOf (blocks.take (t.segmentIndexOf index))).length + j := by
  have hlen : t.segments.length = blocks.length := h.segmentOf.length_eq
  rw [recordsOf_eq_flatten] at hindex
  obtain ⟨s, j, hs, hjl, hj⟩ := bisectRight_counts
    (show (t.segments.map (·.cumulativeCount)).length = (blocks.map Block.records).length by
      simp [hlen])
    (fun k hk => by
      rw [List.getD_eq_getElem?_getD, List.getElem?_map, h.cumulative_eq (by simpa using hk),
        length_recordsOf_take]
      rfl) hindex
  rw [List.getElem?_map] at hs
  obtain ⟨b, hb, rfl⟩ := Option.map_eq_some_iff.mp hs
  rw [Block.length_records] at hjl
  exact ⟨b, j, hb, hjl, by rw [length_recordsOf_take]; exact hj⟩

theorem Packs.previousCount_eq {t : PackedTable} {blocks : List Block} (h : Packs t blocks) {k : ℕ}
    (hk : k ≤ blocks.length) : t.previousCount k = .ok (recordsOf (blocks.take k)).length := by
  unfold PackedTable.previousCount
  rcases Nat.eq_zero_or_pos k with rfl | hpos
  · simp [recordsOf]
  · have hc := h.cumulative_eq (k := k - 1) (by omega)
    rw [Nat.sub_add_cancel hpos] at hc
    obtain ⟨segment, hs, heq⟩ := Option.map_eq_some_iff.mp hc
    rw [if_neg (by omega), column_eq_ok hs, ← heq]
    rfl

/-- **Indexing** at a position inside the sequence. -/
theorem Represents.getAt_eq {t : PackedTable} {blocks : List Block} {nodes : List TitleNode}
    {bs : List StructuralBoundary} (h : Represents t blocks nodes bs) {i : ℕ}
    (hi : i < bs.length) : t.getAt i = .ok bs[i] := by
  have hrl := h.encodes.length_eq
  obtain ⟨b, j, hb, hjlt, hj⟩ := h.packs.segmentIndexOf_spec
    (show i < (recordsOf blocks).length by omega)
  generalize hk : t.segmentIndexOf i = k at hb hj
  have hkl := (List.getElem?_eq_some_iff.mp hb).1
  obtain ⟨segment, hs⟩ : ∃ s, t.segments[k]? = some s :=
    ⟨_, List.getElem?_eq_getElem (by rw [h.packs.segmentOf.length_eq]; exact hkl)⟩
  have hseg : SegmentOf t segment b := by
    have hget := (List.forall₂_iff_get.mp h.packs.segmentOf).2 k
      (by rw [h.packs.segmentOf.length_eq]; exact hkl) hkl
    obtain ⟨_, hs'⟩ := List.getElem?_eq_some_iff.mp hs
    obtain ⟨_, hb'⟩ := List.getElem?_eq_some_iff.mp hb
    simpa [hs', hb'] using hget
  have hpos : 0 < b.template.length := by
    rcases Nat.eq_zero_or_pos b.template.length with h0 | h0
    · rw [h0] at hjlt
      simp at hjlt
    · exact h0
  have hmod := Nat.mod_lt j hpos
  have hrec := getElem?_recordsOf hb hjlt
  rw [← hj, List.getElem?_eq_getElem hmod] at hrec
  have henc : Encodes nodes (b.template[j % b.template.length].shift
      (j / b.template.length * segment.cycleStride)) bs[i] := by
    rw [hseg.stride_eq]
    have hget := (List.forall₂_iff_get.mp h.encodes).2 i (by omega) hi
    obtain ⟨_, hrec'⟩ := List.getElem?_eq_some_iff.mp hrec
    simpa [hrec'] using hget
  have hrow : t.templates[segment.templateStart + j % b.template.length]? =
      some b.template[j % b.template.length] := by
    rw [hseg.rows _ hmod, List.getElem?_eq_getElem hmod]
  have hsub : i - (recordsOf (blocks.take k)).length = j := by omega
  unfold PackedTable.getAt
  simp only [hk, h.packs.previousCount_eq (le_of_lt hkl), column_eq_ok hs, bind, Except.bind,
    hseg.count_eq, hsub]
  exact boundaryAtSegmentPosition_eq h.titles hrow henc (.inl rfl)

/-- **Indexing** at any integer: the index of the sequence, or an `IndexError` where the sequence
raises one. -/
theorem Represents.getItem_eq {t : PackedTable} {blocks : List Block} {nodes : List TitleNode}
    {bs : List StructuralBoundary} (h : Represents t blocks nodes bs) (index : ℤ) :
    t.getItem index = match pyIndex bs index with
      | some b => .ok b
      | none => .error .boundaryIndexOutOfRange := by
  unfold PackedTable.getItem pyIndex
  simp only [h.len_eq]
  generalize (if index < 0 then index + (bs.length : ℤ) else index) = position
  by_cases hp : 0 ≤ position ∧ position < bs.length
  · have hlt : position.toNat < bs.length := by omega
    simp only [hp, and_self, if_true, h.getAt_eq hlt, List.getElem?_eq_getElem hlt]
  · simp only [hp, if_false]

/-- **Slicing** reads the slice of the sequence. -/
theorem Represents.getSlice_eq {t : PackedTable} {blocks : List Block} {nodes : List TitleNode}
    {bs : List StructuralBoundary} (h : Represents t blocks nodes bs) (s : PySlice) :
    t.getSlice s = match pySlice bs s with
      | some xs => .ok xs
      | none => .error .sliceStepZero := by
  unfold PackedTable.getSlice pySlice
  rw [h.len_eq]
  cases hpos : s.positions bs.length with
  | none => rfl
  | some ps =>
      have hbounds := PySlice.positions_bounds hpos
      simp only [Option.map_some]
      clear hpos
      induction ps with
      | nil => rfl
      | cons p ps ih =>
          have hp := hbounds p (by simp)
          have hitem := h.getItem_eq p
          have hin : pyIndex bs p = some (bs.get ⟨p.toNat, by omega⟩) := by
            unfold pyIndex
            simp only [show ¬ p < 0 by omega, if_false, hp, and_self, if_true]
            exact List.getElem?_eq_getElem (by omega)
          rw [hin] at hitem
          rw [List.mapM_cons, hitem, ih (fun q hq => hbounds q (by simp [hq])),
            List.filterMap_cons_some hin]
          rfl

/-! ## Packing and reading back -/

/-- **The packed representation is lossless.**  Every ordered, disjoint sequence that fits the
columns packs without an error, and length, iteration, indices of either sign and slices of the
packed table are those of the sequence; an index outside it raises. -/
theorem structuralBoundaries_lossless (bs : List StructuralBoundary) (horder : Ordered bs)
    (hpack : Packable bs) :
    ∃ t, PackedTable.fromSequence bs = .ok t ∧ t.len = bs.length ∧ t.iter = .ok bs ∧
      (∀ index : ℤ, t.getItem index = match pyIndex bs index with
        | some b => .ok b
        | none => .error .boundaryIndexOutOfRange) ∧
      (∀ s : PySlice, t.getSlice s = match pySlice bs s with
        | some xs => .ok xs
        | none => .error .sliceStepZero) := by
  obtain ⟨t, blocks, nodes, hok, hrep⟩ := fromSequence_represents horder hpack
  exact ⟨t, hok, hrep.len_eq, hrep.iter_eq, hrep.getItem_eq, hrep.getSlice_eq⟩

/-- A heading and four list items, of which the first two make a pattern that the others
continue. -/
def periodicSample : List StructuralBoundary :=
  [⟨.heading, 0, 3, [['A']], some 1, by decide⟩, ⟨.listItem, 4, 7, [['A']], none, by decide⟩,
    ⟨.listItem, 8, 11, [['A']], none, by decide⟩, ⟨.listItem, 12, 15, [['A']], none, by decide⟩,
    ⟨.paragraph, 17, 20, [['A']], none, by decide⟩]

theorem structuralBoundaries_lossless_periodicSample :
    ∃ t, PackedTable.fromSequence periodicSample = .ok t ∧ t.len = 5 ∧
      t.iter = .ok periodicSample := by
  have hpack : Packable periodicSample := ⟨by decide, by decide, by decide⟩
  obtain ⟨t, hok, hlen, hiter, _⟩ :=
    structuralBoundaries_lossless periodicSample (by decide) hpack
  exact ⟨t, hok, hlen, hiter⟩

end VeloxRag.Ingestion
