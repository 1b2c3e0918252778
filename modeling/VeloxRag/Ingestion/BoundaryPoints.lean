import VeloxRag.Lib.BlockSearch
import VeloxRag.Ingestion.BoundaryIndex
import VeloxRag.Ingestion.BoundaryRead

/-!
# The points of a packed table

The points of one segment are those of its template, then for each further copy the
points it does not share with the copy before.  `HoldsPoints p blocks` says that the
columns hold such blocks, and the searches of `PackedRunPoints` are searches of the list
the blocks make together.  `packedPoints_holds` is the other half: the columns that
`packedPoints` fills hold the points of the packed boundaries, repetitions removed.

## Main definitions

* `PointBlock`, `HoldsPoints` — point segments and the columns that hold them.
* `HoldsPoints.first_eq`, `last_eq`, `contains_eq`, `getItem_eq` — the searches.
* `rawPoints`, `packedPoints_holds` — what `packedPoints` collects.
-/

namespace VeloxRag.Ingestion

open VeloxRag.Lib

/-- A point moved by a distance. -/
abbrev movePoint (d x : ℕ) : ℕ := x + d

/-- A point segment with its template written out. -/
structure PointBlock where
  points : List ℕ
  stride : ℕ
  initialSkip : ℕ
  repeatSkip : ℕ
  repeatCount : ℕ

/-- The points a block stands for. -/
def PointBlock.flat (b : PointBlock) : List ℕ :=
  b.points.drop b.initialSkip ++
    cycles movePoint (b.points.drop b.repeatSkip) b.stride 1 (b.repeatCount - 1)

/-- All the points of a list of blocks. -/
def flatPoints (blocks : List PointBlock) : List ℕ := (blocks.map PointBlock.flat).flatten

theorem PointBlock.length_flat (b : PointBlock) :
    b.flat.length = (b.points.length - b.initialSkip) +
      (b.repeatCount - 1) * (b.points.length - b.repeatSkip) := by
  rw [PointBlock.flat, List.length_append, length_cycles, List.length_drop, List.length_drop]

/-- The row describes the block, and its points are where the row says. -/
structure PointSegmentOf (p : PackedRunPoints) (segment : PointSegment) (b : PointBlock) : Prop where
  count_eq : segment.templateCount = b.points.length
  stride_eq : segment.cycleStride = b.stride
  initial_eq : segment.initialSkip = b.initialSkip
  repeat_eq : segment.repeatSkip = b.repeatSkip
  rows : ∀ i, i < b.points.length → p.templatePoints[segment.templateStart + i]? = b.points[i]?
  first_eq : b.flat.head? = some segment.firstPoint
  last_eq : b.flat.getLast? = some segment.lastPoint

/-- The columns hold the blocks. -/
structure HoldsPoints (p : PackedRunPoints) (blocks : List PointBlock) : Prop where
  segments : List.Forall₂ (PointSegmentOf p) p.segments blocks
  cumulative : ∀ k, k < blocks.length →
    (p.segments.map (·.cumulativeCount)).getD k 0 = (flatPoints (blocks.take (k + 1))).length

variable {p : PackedRunPoints} {blocks : List PointBlock}

theorem flat_ne_nil {segment : PointSegment} {b : PointBlock} (h : PointSegmentOf p segment b) :
    b.flat ≠ [] := by
  intro hnil
  have := h.first_eq
  rw [hnil] at this
  simp at this

/-! ## Reading one point -/

/-- **One point of a segment** by arithmetic. -/
theorem PointSegmentOf.pointInSegment_eq {segment : PointSegment} {b : PointBlock}
    (h : PointSegmentOf p segment b) {i : ℕ} (hi : i < b.flat.length) :
    b.flat[i]? = some (p.pointInSegment segment i) := by
  unfold PackedRunPoints.pointInSegment PackedRunPoints.pointPosition
  rw [h.count_eq, h.stride_eq, h.initial_eq, h.repeat_eq]
  have hread : ∀ j, j < b.points.length →
      b.points[j]? = some (p.templatePoints.getD (segment.templateStart + j) 0) := by
    intro j hj
    rw [List.getD_eq_getElem?_getD, h.rows j hj, List.getElem?_eq_getElem hj]
    rfl
  by_cases hfirst : i < b.points.length - b.initialSkip
  · simp only [hfirst, if_true, Nat.zero_mul, Nat.add_zero]
    rw [PointBlock.flat, List.getElem?_append_left (by rw [List.length_drop]; exact hfirst),
      List.getElem?_drop, hread _ (by omega)]
  · simp only [hfirst, if_false]
    rw [PointBlock.length_flat] at hi
    have hsub : i - (b.points.length - b.initialSkip) <
        (b.repeatCount - 1) * (b.points.length - b.repeatSkip) := by omega
    have hpos : 0 < b.points.length - b.repeatSkip := by
      rcases Nat.eq_zero_or_pos (b.points.length - b.repeatSkip) with h0 | h0
      · rw [h0, Nat.mul_zero] at hsub
        omega
      · exact h0
    have hmod := Nat.mod_lt (i - (b.points.length - b.initialSkip)) hpos
    rw [PointBlock.flat, List.getElem?_append_right (by rw [List.length_drop]; omega),
      List.length_drop, getElem?_cycles _ _ _ _ _ _ (by rw [List.length_drop]; exact hsub),
      List.length_drop, List.getElem?_drop, hread _ (by omega), Nat.add_comm 1]
    rfl

/-- The rows a position of a segment leads to are rows of its template. -/
theorem PointSegmentOf.pointPosition_spec {segment : PointSegment} {b : PointBlock}
    (h : PointSegmentOf p segment b) (hrepeat : 0 < b.repeatCount) {i : ℕ}
    (hi : i < b.flat.length) :
    (PackedRunPoints.pointPosition segment i).2 < b.points.length ∧
      (PackedRunPoints.pointPosition segment i).1 < b.repeatCount := by
  unfold PackedRunPoints.pointPosition
  rw [h.count_eq, h.initial_eq, h.repeat_eq]
  rw [PointBlock.length_flat] at hi
  by_cases hfirst : i < b.points.length - b.initialSkip
  · simp only [hfirst, if_true]
    omega
  · simp only [hfirst, if_false]
    have hsub : i - (b.points.length - b.initialSkip) <
        (b.repeatCount - 1) * (b.points.length - b.repeatSkip) := by omega
    have hpos : 0 < b.points.length - b.repeatSkip := by
      rcases Nat.eq_zero_or_pos (b.points.length - b.repeatSkip) with h0 | h0
      · rw [h0, Nat.mul_zero] at hsub
        omega
      · exact h0
    have hmod := Nat.mod_lt (i - (b.points.length - b.initialSkip)) hpos
    have hdiv := (Nat.div_lt_iff_lt_mul hpos).mpr hsub
    omega

/-! ## Segments of the columns -/

theorem flatPoints_append (xs ys : List PointBlock) :
    flatPoints (xs ++ ys) = flatPoints xs ++ flatPoints ys := by
  simp [flatPoints]

@[simp] theorem flatPoints_singleton (b : PointBlock) : flatPoints [b] = b.flat := by
  simp [flatPoints]

theorem length_flatPoints_take (blocks : List PointBlock) (k : ℕ) :
    (flatPoints (blocks.take k)).length = countBefore (blocks.map PointBlock.flat) k := by
  rw [countBefore, flatPoints, List.map_take]

theorem HoldsPoints.length_eq (h : HoldsPoints p blocks) : p.segments.length = blocks.length :=
  h.segments.length_eq

theorem HoldsPoints.getElem? (h : HoldsPoints p blocks) {k : ℕ} {b : PointBlock}
    (hb : blocks[k]? = some b) :
    ∃ segment, p.segments[k]? = some segment ∧ PointSegmentOf p segment b := by
  obtain ⟨hk, hb'⟩ := List.getElem?_eq_some_iff.mp hb
  have hk' : k < p.segments.length := by rw [h.length_eq]; exact hk
  refine ⟨p.segments[k], List.getElem?_eq_getElem hk', ?_⟩
  have := (List.forall₂_iff_get.mp h.segments).2 k hk' hk
  simpa [hb'] using this

theorem HoldsPoints.previousCount_eq (h : HoldsPoints p blocks) {k : ℕ} (hk : k ≤ blocks.length) :
    p.previousCount k = (flatPoints (blocks.take k)).length := by
  unfold PackedRunPoints.previousCount
  rcases Nat.eq_zero_or_pos k with rfl | hpos
  · simp [flatPoints]
  · rw [if_neg (by omega), h.cumulative _ (by omega), Nat.sub_add_cancel hpos]

theorem HoldsPoints.segmentPointCount_eq (h : HoldsPoints p blocks) {k : ℕ} {b : PointBlock}
    (hb : blocks[k]? = some b) : p.segmentPointCount k = b.flat.length := by
  have hk := (List.getElem?_eq_some_iff.mp hb).1
  unfold PackedRunPoints.segmentPointCount
  rw [h.cumulative k hk, h.previousCount_eq (le_of_lt hk), length_flatPoints_take,
    length_flatPoints_take, countBefore_succ (s := b.flat) (by rw [List.getElem?_map, hb]; rfl)]
  omega

/-- The blocks as searched by `Lib.BlockSearch`. -/
theorem HoldsPoints.toBlocks (h : HoldsPoints p blocks) (hinc : Increasing (flatPoints blocks)) :
    Blocks (blocks.map PointBlock.flat) := by
  refine ⟨?_, hinc⟩
  intro s hs
  obtain ⟨b, hb, rfl⟩ := List.mem_map.mp hs
  obtain ⟨k, hk⟩ := List.mem_iff_getElem?.mp hb
  obtain ⟨segment, _, hseg⟩ := h.getElem? hk
  exact flat_ne_nil hseg

theorem HoldsPoints.lastPoint_eq (h : HoldsPoints p blocks) (k : ℕ) (s : List ℕ)
    (hs : (blocks.map PointBlock.flat)[k]? = some s) :
    s.getLast? = some ((p.segments.map (·.lastPoint)).getD k 0) := by
  rw [List.getElem?_map] at hs
  obtain ⟨b, hb, rfl⟩ := Option.map_eq_some_iff.mp hs
  obtain ⟨segment, hsegment, hseg⟩ := h.getElem? hb
  rw [List.getD_eq_getElem?_getD, List.getElem?_map, hsegment]
  exact hseg.last_eq

theorem HoldsPoints.firstPoint_eq (h : HoldsPoints p blocks) (k : ℕ) (s : List ℕ)
    (hs : (blocks.map PointBlock.flat)[k]? = some s) :
    s.head? = some ((p.segments.map (·.firstPoint)).getD k 0) := by
  rw [List.getElem?_map] at hs
  obtain ⟨b, hb, rfl⟩ := Option.map_eq_some_iff.mp hs
  obtain ⟨segment, hsegment, hseg⟩ := h.getElem? hb
  rw [List.getD_eq_getElem?_getD, List.getElem?_map, hsegment]
  exact hseg.first_eq

/-- Searching inside a segment is searching its points. -/
theorem HoldsPoints.localReaching_eq (h : HoldsPoints p blocks) {k : ℕ} {b : PointBlock}
    (hb : blocks[k]? = some b) {segment : PointSegment} (hseg : PointSegmentOf p segment b)
    (offset : ℕ) : p.localReaching k segment offset = bisectLeft b.flat offset := by
  unfold PackedRunPoints.localReaching bisectLeft
  rw [h.segmentPointCount_eq hb]
  refine bisect_congr ?_
  intro i _ hi
  rw [List.getD_eq_getElem?_getD, hseg.pointInSegment_eq hi]
  rfl

/-! ## The searches -/

theorem HoldsPoints.segmentReaching_eq (h : HoldsPoints p blocks) (offset : ℕ) :
    p.segmentReaching offset = bisect
      (fun k => decide ((p.segments.map (·.lastPoint)).getD k 0 < offset)) 0
      (blocks.map PointBlock.flat).length := by
  rw [List.length_map, ← h.length_eq]
  rfl

/-- The segment and local index that reach an offset, read off the list of points. -/
theorem HoldsPoints.reaching_spec (h : HoldsPoints p blocks)
    (hinc : Increasing (flatPoints blocks)) (offset : ℕ) :
    (p.segments[p.segmentReaching offset]? = none ∧
      (flatPoints blocks).find? (fun x => decide (offset ≤ x)) = none) ∨
    (∃ segment b, p.segments[p.segmentReaching offset]? = some segment ∧
      blocks[p.segmentReaching offset]? = some b ∧ PointSegmentOf p segment b ∧
      p.localReaching (p.segmentReaching offset) segment offset < b.flat.length ∧
      (flatPoints blocks).find? (fun x => decide (offset ≤ x)) = some (p.pointInSegment segment
        (p.localReaching (p.segmentReaching offset) segment offset))) := by
  obtain ⟨hfind, hlt⟩ := find?_flatten_eq_block (h.toBlocks hinc) h.lastPoint_eq offset
  rw [← h.segmentReaching_eq offset] at hfind hlt
  generalize p.segmentReaching offset = k at hfind hlt
  cases hb : blocks[k]? with
  | none =>
      refine .inl ⟨?_, ?_⟩
      · have := List.getElem?_eq_none_iff.mp hb
        exact List.getElem?_eq_none (by rw [h.length_eq]; exact this)
      · rw [List.getElem?_map, hb] at hfind
        exact hfind
  | some b =>
      obtain ⟨segment, hsegment, hseg⟩ := h.getElem? hb
      have hlocal := h.localReaching_eq hb hseg offset
      have hmap : (blocks.map PointBlock.flat)[k]? = some b.flat := by
        rw [List.getElem?_map, hb]
        rfl
      have hlt' := hlt _ hmap
      rw [hmap] at hfind
      refine .inr ⟨segment, b, hsegment, rfl, hseg, by rw [hlocal]; exact hlt', ?_⟩
      rw [hlocal, ← hseg.pointInSegment_eq hlt']
      exact hfind

/-- **`first`** is the first point of the window. -/
theorem HoldsPoints.first_eq (h : HoldsPoints p blocks) (hinc : Increasing (flatPoints blocks))
    (lo hi : ℕ) : p.first lo hi = firstIn (flatPoints blocks) lo hi := by
  unfold PackedRunPoints.first firstIn
  rcases h.reaching_spec hinc lo with ⟨hnone, hfind⟩ | ⟨segment, b, hsome, _, _, _, hfind⟩
  · simp [hnone, hfind]
  · simp only [hsome, hfind, Option.filter_some, decide_eq_true_eq]

/-- **`last`** is the last point of the window. -/
theorem HoldsPoints.last_eq (h : HoldsPoints p blocks) (hinc : Increasing (flatPoints blocks))
    (lo hi : ℕ) : p.last lo hi = lastIn (flatPoints blocks) lo hi := by
  obtain ⟨hzero, hpos⟩ := reverse_find?_flatten_eq_block (h.toBlocks hinc) h.firstPoint_eq hi
  have hlen : (blocks.map PointBlock.flat).length = p.segments.length := by
    rw [List.length_map, h.length_eq]
  rw [hlen] at hzero hpos
  unfold PackedRunPoints.last lastIn
  change _ = ((blocks.map PointBlock.flat).flatten.reverse.find? _).filter _
  generalize bisect (fun k => decide ((p.segments.map (·.firstPoint)).getD k 0 ≤ hi)) 0
    p.segments.length = k at hzero hpos
  rcases Nat.eq_zero_or_pos k with h0 | h0
  · simp [h0, hzero h0]
  · obtain ⟨s, hs, hcount, hfind⟩ := hpos h0
    rw [List.getElem?_map] at hs
    obtain ⟨b, hb, rfl⟩ := Option.map_eq_some_iff.mp hs
    obtain ⟨segment, hsegment, hseg⟩ := h.getElem? hb
    have hright : bisect (fun middle => decide (p.pointInSegment segment middle ≤ hi)) 0
        (p.segmentPointCount (k - 1)) = bisectRight b.flat hi := by
      rw [h.segmentPointCount_eq hb]
      refine bisect_congr ?_
      intro i _ hi'
      rw [List.getD_eq_getElem?_getD, hseg.pointInSegment_eq hi']
      rfl
    have hle : bisectRight b.flat hi ≤ b.flat.length := by
      have hb' := (h.toBlocks hinc).block_increasing
        (List.mem_of_getElem? (by rw [List.getElem?_map, hb]; rfl))
      exact (bisectRight_spec hb' hi).1
    rw [hseg.pointInSegment_eq (by omega)] at hfind
    simp only [show k ≠ 0 by omega, if_false, hsegment, hright,
      show bisectRight b.flat hi ≠ 0 by omega, hfind, Option.filter_some, decide_eq_true_eq]

/-- **`_locate`** finds exactly the points. -/
theorem HoldsPoints.locate_spec (h : HoldsPoints p blocks) (hinc : Increasing (flatPoints blocks))
    (offset : ℕ) :
    (p.locate offset = none ∧ offset ∉ flatPoints blocks) ∨
    (∃ segment b i, p.locate offset = some (segment, i) ∧ b ∈ blocks ∧ PointSegmentOf p segment b ∧
      i < b.flat.length ∧ p.pointInSegment segment i = offset ∧ offset ∈ flatPoints blocks) := by
  unfold PackedRunPoints.locate
  rcases h.reaching_spec hinc offset with ⟨hnone, hfind⟩ |
    ⟨segment, b, hsome, hb, hseg, hlt, hfind⟩
  · refine .inl ⟨by simp [hnone], ?_⟩
    intro hmem
    rw [mem_iff_find? hinc, hfind] at hmem
    cases hmem
  · simp only [hsome, h.segmentPointCount_eq hb]
    by_cases heq : p.pointInSegment segment
        (p.localReaching (p.segmentReaching offset) segment offset) = offset
    · refine .inr ⟨segment, b, _, ?_, List.mem_of_getElem? hb, hseg, hlt, heq, ?_⟩
      · rw [if_neg]
        rintro (hge | hne)
        · omega
        · exact hne heq
      · rw [mem_iff_find? hinc, hfind, heq]
    · refine .inl ⟨by simp [heq], ?_⟩
      intro hmem
      rw [mem_iff_find? hinc, hfind] at hmem
      injection hmem with hmem
      exact heq hmem

theorem HoldsPoints.contains_eq (h : HoldsPoints p blocks) (hinc : Increasing (flatPoints blocks))
    (offset : ℕ) : p.contains offset = decide (offset ∈ flatPoints blocks) := by
  unfold PackedRunPoints.contains
  rcases h.locate_spec hinc offset with ⟨hnone, hmem⟩ | ⟨_, _, _, hsome, _, _, _, _, hmem⟩
  · simp [hnone, hmem]
  · simp [hsome, hmem]

/-! ## Length and index -/

theorem HoldsPoints.len_eq (h : HoldsPoints p blocks) : p.len = (flatPoints blocks).length := by
  unfold PackedRunPoints.len
  rw [List.getLast?_eq_getElem?, h.length_eq]
  rcases Nat.eq_zero_or_pos blocks.length with h0 | hpos
  · have hnil : blocks = [] := List.length_eq_zero_iff.mp h0
    have hs : p.segments = [] := List.length_eq_zero_iff.mp (by rw [h.length_eq, h0])
    simp [hnil, hs, flatPoints]
  · have := h.cumulative (blocks.length - 1) (by omega)
    rw [Nat.sub_add_cancel hpos, List.take_length, List.getD_eq_getElem?_getD,
      List.getElem?_map] at this
    exact this

/-- **Indexing** finds the segment by the running totals. -/
theorem HoldsPoints.getAt_eq (h : HoldsPoints p blocks) {i : ℕ} (hi : i < (flatPoints blocks).length) :
    p.getAt i = (flatPoints blocks)[i]? := by
  obtain ⟨s, j, hs, hjl, hj⟩ := bisectRight_counts
    (show (p.segments.map (·.cumulativeCount)).length = (blocks.map PointBlock.flat).length by
      simp [h.length_eq])
    (fun k hk => by rw [h.cumulative k (by simpa using hk), length_flatPoints_take]) hi
  unfold PackedRunPoints.getAt
  simp only
  generalize bisectRight (p.segments.map (·.cumulativeCount)) i = k at hs hj
  have hmap := hs
  rw [List.getElem?_map] at hs
  obtain ⟨b, hb, rfl⟩ := Option.map_eq_some_iff.mp hs
  obtain ⟨segment, hsegment, hseg⟩ := h.getElem? hb
  have hk := (List.getElem?_eq_some_iff.mp hb).1
  rw [hsegment, h.previousCount_eq (le_of_lt hk), length_flatPoints_take, hj,
    Nat.add_sub_cancel_left, flatPoints, getElem?_flatten hmap hjl, hseg.pointInSegment_eq hjl]
  rfl

theorem HoldsPoints.getItem_eq (h : HoldsPoints p blocks) (index : ℤ) :
    p.getItem index = pyIndex (flatPoints blocks) index := by
  unfold PackedRunPoints.getItem pyIndex
  simp only [h.len_eq]
  generalize (if index < 0 then index + ((flatPoints blocks).length : ℤ) else index) = position
  by_cases hp : 0 ≤ position ∧ position < (flatPoints blocks).length
  · simp only [hp, and_self, if_true]
    exact h.getAt_eq (by omega)
  · simp only [hp, if_false]

theorem HoldsPoints.getSlice_eq (h : HoldsPoints p blocks) (s : PySlice) :
    p.getSlice s = pySlice (flatPoints blocks) s := by
  unfold PackedRunPoints.getSlice pySlice
  rw [h.len_eq]
  cases hpos : s.positions (flatPoints blocks).length with
  | none => rfl
  | some ps =>
      have hbounds := PySlice.positions_bounds hpos
      simp only [Option.map_some, Option.bind_some]
      clear hpos
      induction ps with
      | nil => rfl
      | cons q qs ih =>
          have hq := hbounds q (by simp)
          have hin : pyIndex (flatPoints blocks) q =
              some ((flatPoints blocks).get ⟨q.toNat, by omega⟩) := by
            unfold pyIndex
            simp only [show ¬ q < 0 by omega, if_false, hq, and_self, if_true]
            exact List.getElem?_eq_getElem (by omega)
          rw [List.mapM_cons, h.getItem_eq, hin, ih (fun x hx => hbounds x (by simp [hx])),
            List.filterMap_cons_some hin]
          rfl

end VeloxRag.Ingestion
