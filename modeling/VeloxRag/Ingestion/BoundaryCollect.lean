import VeloxRag.Ingestion.BoundaryPoints

/-!
# Collecting the points of a packed table

`packedPoints` walks over the segments of a packed table once.  The points of one
segment are those of its records with repetitions removed, and the first of them is
skipped when it repeats the last point collected before.  The invariant of the walk
says that the columns hold the points of all records seen so far, repetitions removed.

For the starts of a kind the columns also hold the lengths, row by row; `Source` keeps
which template rows the points of a segment came from.

## Main definitions

* `rawPoints` — the points of records, with repetitions.
* `addPointSegment_cases` — what one turn of the walk can do.
* `Collected` — the invariant of the walk.
* `packedPoints_collected` — what the walk ends with.
-/

namespace VeloxRag.Ingestion

open VeloxRag.Lib

/-- The points of one span. -/
def spanPoints : PointMode → ℕ → ℕ → List ℕ
  | .starts, startOffset, _ => [startOffset]
  | .ends, _, endOffset => [endOffset]
  | .both, startOffset, endOffset => [startOffset, endOffset]

/-- The points of the records of some kinds, with repetitions. -/
def rawPoints (kinds : List BoundaryKind) (mode : PointMode) (rs : List BoundaryRecord) : List ℕ :=
  rs.flatMap fun r =>
    if hasKind kinds r then spanPoints mode r.startOffset (r.startOffset + r.boundaryLength) else []

variable {kinds : List BoundaryKind} {mode : PointMode}

theorem rawPoints_append (xs ys : List BoundaryRecord) :
    rawPoints kinds mode (xs ++ ys) = rawPoints kinds mode xs ++ rawPoints kinds mode ys := by
  simp [rawPoints]

theorem rawPoints_shift (d : ℕ) (rs : List BoundaryRecord) :
    rawPoints kinds mode (rs.map (BoundaryRecord.shift d)) =
      (rawPoints kinds mode rs).map (movePoint d) := by
  induction rs with
  | nil => rfl
  | cons r rs ih =>
      rw [List.map_cons, ← List.singleton_append, rawPoints_append, ih,
        ← List.singleton_append (l := rs), rawPoints_append, List.map_append]
      congr 1
      have hk : hasKind kinds (r.shift d) = hasKind kinds r := rfl
      by_cases h : hasKind kinds r
      · cases mode <;>
          simp [rawPoints, hk, h, spanPoints, Nat.add_right_comm r.startOffset d]
      · simp [rawPoints, hk, h]

theorem rawPoints_records (b : Block) :
    rawPoints kinds mode b.records =
      cycles movePoint (rawPoints kinds mode b.template) b.stride 0 b.repeatCount := by
  unfold Block.records
  induction b.repeatCount with
  | zero => rfl
  | succ n ih => rw [cycles_succ, cycles_succ, rawPoints_append, ih, rawPoints_shift]

theorem collectRows_points (rs : List BoundaryRecord) : ∀ points lengths : List ℕ,
    (collectRows kinds mode points lengths rs).1 =
      (rawPoints kinds mode rs).foldl appendDistinct points := by
  induction rs with
  | nil => intro points lengths; rfl
  | cons r rs ih =>
      intro points lengths
      rw [← List.singleton_append, rawPoints_append, List.foldl_append, List.singleton_append]
      by_cases h : hasKind kinds r
      · rw [collectRows, if_pos h, ih]
        congr 1
        cases mode <;> simp [rawPoints, h, spanPoints, rowPoints]
      · rw [collectRows, if_neg h, ih]
        simp [rawPoints, h]

/-- The template rows of a segment. -/
theorem SegmentOf.slice_eq {t : PackedTable} {segment : Segment} {b : Block}
    (h : SegmentOf t segment b) :
    slice t.templates segment.templateStart (segment.templateStart + segment.templateCount) =
      b.template := by
  unfold slice
  rw [Nat.add_sub_cancel_left, h.count_eq]
  refine List.ext_getElem? ?_
  intro i
  rcases Nat.lt_or_ge i b.template.length with hi | hi
  · rw [List.getElem?_take_of_lt hi, List.getElem?_drop, h.rows i hi]
  · rw [List.getElem?_eq_none hi, List.getElem?_eq_none]
    rw [List.length_take]
    omega

/-! ## One turn of the walk -/

/-- The point block a segment adds after the point `last`. -/
def pointBlock (kinds : List BoundaryKind) (mode : PointMode) (last : Option ℕ) (b : Block) :
    PointBlock :=
  let points := dedupRuns (rawPoints kinds mode b.template)
  { points := points
    stride := b.stride
    initialSkip := if last = points.head? then 1 else 0
    repeatSkip := if 1 < b.repeatCount then sharedPoints points b.stride else 0
    repeatCount := b.repeatCount }

/-- What the block adds to the points before it. -/
theorem pointBlock_flat {b : Block} (hb : b.WellFormed)
    (hne : rawPoints kinds mode b.template ≠ []) (before : List ℕ) :
    (pointBlock kinds mode before.getLast? b).flat =
      dropRepeat before (dedupRuns (rawPoints kinds mode b.records)) := by
  obtain ⟨m, hm⟩ : ∃ m, b.repeatCount = m + 1 := ⟨b.repeatCount - 1, by
    have := hb.repeat_pos
    omega⟩
  have hP : dedupRuns (rawPoints kinds mode b.template) ≠ [] := fun h =>
    hne (dedupRuns_eq_nil.mp h)
  have hshared : cycles movePoint ((dedupRuns (rawPoints kinds mode b.template)).drop
      (if 1 < b.repeatCount then
        sharedPoints (dedupRuns (rawPoints kinds mode b.template)) b.stride else 0)) b.stride 1 m =
      cycles movePoint ((dedupRuns (rawPoints kinds mode b.template)).drop
        (sharedPoints (dedupRuns (rawPoints kinds mode b.template)) b.stride)) b.stride 1 m := by
    rcases Nat.eq_zero_or_pos m with h0 | hpos
    · rw [h0, cycles_zero, cycles_zero]
    · rw [if_pos (by omega)]
  rw [rawPoints_records, hm, dedupRuns_cycles hne (fun hpos => hb.stride_pos (by omega))]
  unfold PointBlock.flat pointBlock
  simp only [hm, Nat.add_sub_cancel]
  rw [hm] at hshared
  rw [hshared]
  obtain ⟨x, xs, hx⟩ := List.exists_cons_of_ne_nil hP
  unfold dropRepeat
  rw [hx]
  by_cases hlast : before.getLast? = some x
  · simp [hlast]
  · simp [hlast]

theorem pointBlock_flat_head {b : Block} (hb : b.WellFormed)
    (hne : rawPoints kinds mode b.template ≠ []) (last : Option ℕ)
    (hflat : (pointBlock kinds mode last b).flat ≠ []) :
    (pointBlock kinds mode last b).flat.head? = some
      (if (pointBlock kinds mode last b).points.length - (pointBlock kinds mode last b).initialSkip ≠ 0
        then (pointBlock kinds mode last b).points.getD (pointBlock kinds mode last b).initialSkip 0
        else (pointBlock kinds mode last b).points.getD (pointBlock kinds mode last b).repeatSkip 0
          + b.stride) := by
  have hP : (pointBlock kinds mode last b).points ≠ [] := fun h => hne (dedupRuns_eq_nil.mp h)
  have hdrop : 1 < b.repeatCount → (pointBlock kinds mode last b).points.drop
      (pointBlock kinds mode last b).repeatSkip ≠ [] := by
    intro h1
    simp only [pointBlock, if_pos h1]
    exact drop_sharedPoints_ne_nil hP (hb.stride_pos h1)
  have hstride : (pointBlock kinds mode last b).stride = b.stride := rfl
  have hrepeat : (pointBlock kinds mode last b).repeatCount = b.repeatCount := rfl
  generalize pointBlock kinds mode last b = pb at *
  unfold PointBlock.flat at hflat ⊢
  rw [hrepeat, hstride] at hflat ⊢
  by_cases hfirst : pb.points.length - pb.initialSkip ≠ 0
  · rw [if_pos hfirst]
    have hlt : pb.initialSkip < pb.points.length := by omega
    rw [List.head?_append_of_ne_nil _ (by simpa using hlt), List.head?_drop,
      List.getElem?_eq_getElem hlt, List.getD_eq_getElem _ _ hlt]
  · rw [if_neg hfirst]
    have hnil : pb.points.drop pb.initialSkip = [] := List.drop_eq_nil_of_le (by omega)
    rw [hnil, List.nil_append] at hflat ⊢
    obtain ⟨m, hm⟩ : ∃ m, b.repeatCount - 1 = m + 1 := by
      rcases Nat.eq_zero_or_pos (b.repeatCount - 1) with h0 | hpos
      · rw [h0, cycles_zero] at hflat
        exact absurd rfl hflat
      · exact ⟨b.repeatCount - 1 - 1, by omega⟩
    have hd := hdrop (by omega)
    have hlt : pb.repeatSkip < pb.points.length := by
      by_contra hge
      exact hd (List.drop_eq_nil_of_le (by omega))
    rw [hm, cycles_succ_left, List.head?_append_of_ne_nil _ (by simpa using hd), List.head?_map,
      List.head?_drop, List.getElem?_eq_getElem hlt, List.getD_eq_getElem _ _ hlt]
    simp

theorem pointBlock_flat_last {b : Block} (hb : b.WellFormed)
    (hne : rawPoints kinds mode b.template ≠ []) (last : Option ℕ)
    (hflat : (pointBlock kinds mode last b).flat ≠ []) :
    (pointBlock kinds mode last b).flat.getLast? =
      ((pointBlock kinds mode last b).points.getLast?).map (· + (b.repeatCount - 1) * b.stride) := by
  have hP : (pointBlock kinds mode last b).points ≠ [] := fun h => hne (dedupRuns_eq_nil.mp h)
  have hdrop : 1 < b.repeatCount → (pointBlock kinds mode last b).points.drop
      (pointBlock kinds mode last b).repeatSkip ≠ [] := by
    intro h1
    simp only [pointBlock, if_pos h1]
    exact drop_sharedPoints_ne_nil hP (hb.stride_pos h1)
  have hstride : (pointBlock kinds mode last b).stride = b.stride := rfl
  have hrepeat : (pointBlock kinds mode last b).repeatCount = b.repeatCount := rfl
  generalize pointBlock kinds mode last b = pb at *
  unfold PointBlock.flat at hflat ⊢
  rw [hrepeat, hstride] at hflat ⊢
  rcases Nat.eq_zero_or_pos (b.repeatCount - 1) with h0 | hpos
  · rw [h0, cycles_zero, List.append_nil] at hflat ⊢
    rw [getLast?_drop hflat]
    simp
  · obtain ⟨m, hm⟩ : ∃ m, b.repeatCount - 1 = m + 1 := ⟨b.repeatCount - 1 - 1, by omega⟩
    have hd := hdrop (by omega)
    rw [hm, cycles_succ, ← List.append_assoc, List.getLast?_append_of_ne_nil _ (by simpa using hd),
      List.getLast?_map, getLast?_drop hd, Nat.add_comm 1 m]

/-- The columns after a template: points and lengths are there even when no segment follows. -/
def PackedRunPoints.addTemplate (p : PackedRunPoints) (points lengths : List ℕ) : PackedRunPoints :=
  { p with
    templatePoints := p.templatePoints ++ points
    templateLengths := p.templateLengths ++ lengths }

/-- **One turn of the walk**: the template has no points, or only repeats the last one, or its
points become a segment. -/
theorem addPointSegment_cases {t : PackedTable} {segment : Segment} {b : Block}
    (hseg : SegmentOf t segment b) (hb : b.WellFormed) (p : PackedRunPoints) (last : Option ℕ) :
    (rawPoints kinds mode b.template = [] ∧
      addPointSegment t kinds mode (p, last) segment = (p, last)) ∨
    (rawPoints kinds mode b.template ≠ [] ∧ (pointBlock kinds mode last b).flat = [] ∧
      addPointSegment t kinds mode (p, last) segment =
        (p.addTemplate (pointBlock kinds mode last b).points
          (collectRows kinds mode [] [] b.template).2, last)) ∨
    (rawPoints kinds mode b.template ≠ [] ∧ ∃ firstPoint lastPoint,
      (pointBlock kinds mode last b).flat.head? = some firstPoint ∧
      (pointBlock kinds mode last b).flat.getLast? = some lastPoint ∧
      addPointSegment t kinds mode (p, last) segment =
        ({ p.addTemplate (pointBlock kinds mode last b).points
              (collectRows kinds mode [] [] b.template).2 with
            segments := p.segments ++ [⟨p.templatePoints.length,
              (pointBlock kinds mode last b).points.length, b.stride,
              (pointBlock kinds mode last b).initialSkip, (pointBlock kinds mode last b).repeatSkip,
              p.len + (pointBlock kinds mode last b).flat.length, firstPoint, lastPoint⟩] },
          some lastPoint)) := by
  have hpoints : (collectRows kinds mode [] [] b.template).1 =
      dedupRuns (rawPoints kinds mode b.template) := collectRows_points _ _ _
  by_cases hraw : rawPoints kinds mode b.template = []
  · refine .inl ⟨hraw, ?_⟩
    simp [addPointSegment, hseg.slice_eq, hpoints, hraw, dedupRuns]
  · have hP : dedupRuns (rawPoints kinds mode b.template) ≠ [] := fun h =>
      hraw (dedupRuns_eq_nil.mp h)
    obtain ⟨x, hx⟩ : ∃ x, (dedupRuns (rawPoints kinds mode b.template)).head? = some x :=
      ⟨_, List.head?_eq_some_head hP⟩
    obtain ⟨l, hl⟩ : ∃ l, (dedupRuns (rawPoints kinds mode b.template)).getLast? = some l :=
      ⟨_, List.getLast?_eq_some_getLast hP⟩
    have hinitial : (pointBlock kinds mode last b).initialSkip = if last = some x then 1 else 0 := by
      simp [pointBlock, hx]
    have hrepeat : (pointBlock kinds mode last b).repeatSkip =
        if 1 < b.repeatCount ∧ l = x + b.stride then 1 else 0 := by
      simp only [pointBlock, sharedPoints, hx, hl, Option.map_some, Option.some.injEq]
      by_cases h1 : 1 < b.repeatCount <;> simp [h1]
    have hlength := PointBlock.length_flat (pointBlock kinds mode last b)
    have hcount : (pointBlock kinds mode last b).repeatCount = b.repeatCount := rfl
    have hhead := pointBlock_flat_head hb hraw last
    have hlast := pointBlock_flat_last hb hraw last
    have hpts : (pointBlock kinds mode last b).points =
        dedupRuns (rawPoints kinds mode b.template) := rfl
    have hturn : addPointSegment t kinds mode (p, last) segment =
        if (pointBlock kinds mode last b).flat.length = 0 then
          (p.addTemplate (pointBlock kinds mode last b).points
            (collectRows kinds mode [] [] b.template).2, last)
        else
          ({ p.addTemplate (pointBlock kinds mode last b).points
              (collectRows kinds mode [] [] b.template).2 with
            segments := p.segments ++ [⟨p.templatePoints.length,
              (pointBlock kinds mode last b).points.length, b.stride,
              (pointBlock kinds mode last b).initialSkip, (pointBlock kinds mode last b).repeatSkip,
              p.len + (pointBlock kinds mode last b).flat.length,
              if (pointBlock kinds mode last b).points.length -
                  (pointBlock kinds mode last b).initialSkip ≠ 0
              then (pointBlock kinds mode last b).points.getD
                (pointBlock kinds mode last b).initialSkip 0
              else (pointBlock kinds mode last b).points.getD
                (pointBlock kinds mode last b).repeatSkip 0 + b.stride,
              l + (b.repeatCount - 1) * b.stride⟩] },
          some (l + (b.repeatCount - 1) * b.stride)) := by
      rw [hlength, hcount, hinitial, hrepeat, hpts]
      unfold addPointSegment
      simp only [hseg.slice_eq, hseg.repeat_eq, hseg.stride_eq]
      cases hcollect : collectRows kinds mode [] [] b.template with
      | mk points lengths =>
          rw [hcollect] at hpoints
          simp only at hpoints
          subst hpoints
          simp only [hx, hl]
          rfl
    by_cases hflat : (pointBlock kinds mode last b).flat = []
    · refine .inr (.inl ⟨hraw, hflat, ?_⟩)
      rw [hturn, if_pos (by rw [hflat]; rfl)]
    · refine .inr (.inr ⟨hraw, _, l + (b.repeatCount - 1) * b.stride, hhead hflat, ?_, ?_⟩)
      · rw [hlast hflat, hpts, hl]
        rfl
      · rw [hturn, if_neg (by simpa using hflat)]

/-! ## The whole walk -/

/-- Folding over two lists that match element by element: an invariant between the state and the
part of the second list that is done. -/
theorem foldl_rel {σ α β : Type*} {R : α → β → Prop} {f : σ → α → σ} {I : σ → List β → Prop}
    {xs : List α} {ys : List β} (h : List.Forall₂ R xs ys)
    (hstep : ∀ s done x y, R x y → done ++ [y] <+: ys → I s done → I (f s x) (done ++ [y]))
    {s : σ} (h0 : I s []) : I (xs.foldl f s) ys := by
  have hgo : ∀ {xs : List α} {ys' : List β}, List.Forall₂ R xs ys' → ∀ (s : σ) (done : List β),
      done ++ ys' = ys → I s done → I (xs.foldl f s) ys := by
    intro xs ys' h
    induction h with
    | nil =>
        intro s done heq hI
        rw [List.append_nil] at heq
        rw [← heq]
        exact hI
    | @cons x y xs ys' hxy _ ih =>
        intro s done heq hI
        refine ih _ (done ++ [y]) (by simpa using heq) (hstep s done x y hxy ?_ hI)
        exact ⟨ys', by simpa using heq⟩
  exact hgo h s [] (List.nil_append ys) h0

/-- Columns that only grow keep the rows of their segments. -/
theorem PointSegmentOf.grow {p p' : PackedRunPoints} {segment : PointSegment} {b : PointBlock}
    (h : PointSegmentOf p segment b) {more : List ℕ}
    (hp : p'.templatePoints = p.templatePoints ++ more) : PointSegmentOf p' segment b := by
  refine ⟨h.count_eq, h.stride_eq, h.initial_eq, h.repeat_eq, ?_, h.first_eq, h.last_eq⟩
  intro i hi
  have hrow := h.rows i hi
  rw [List.getElem?_eq_getElem hi] at hrow
  have hlt := (List.getElem?_eq_some_iff.mp hrow).1
  rw [hp, List.getElem?_append_left hlt, h.rows i hi]

/-- The columns hold the points of the records of `done`, repetitions removed, and `last` is the
last of them. -/
structure Collected (kinds : List BoundaryKind) (mode : PointMode)
    (acc : PackedRunPoints × Option ℕ) (pbs : List PointBlock) (done : List Block) : Prop where
  holds : HoldsPoints acc.1 pbs
  flat_eq : flatPoints pbs = dedupRuns (rawPoints kinds mode (recordsOf done))
  last_eq : acc.2 = (flatPoints pbs).getLast?
  sources : ∀ pb ∈ pbs, ∃ b ∈ done, ∃ last, pb = pointBlock kinds mode last b

theorem HoldsPoints.addTemplate {p : PackedRunPoints} {pbs : List PointBlock}
    (h : HoldsPoints p pbs) (points lengths : List ℕ) :
    HoldsPoints (p.addTemplate points lengths) pbs :=
  ⟨h.segments.imp fun _ _ hs => hs.grow rfl, h.cumulative⟩

theorem HoldsPoints.addSegment {p : PackedRunPoints} {pbs : List PointBlock}
    (h : HoldsPoints p pbs) {pb : PointBlock} {firstPoint lastPoint : ℕ} (lengths : List ℕ)
    (hfirst : pb.flat.head? = some firstPoint) (hlast : pb.flat.getLast? = some lastPoint) :
    HoldsPoints { p.addTemplate pb.points lengths with
      segments := p.segments ++ [⟨p.templatePoints.length, pb.points.length, pb.stride,
        pb.initialSkip, pb.repeatSkip, p.len + pb.flat.length, firstPoint, lastPoint⟩] }
      (pbs ++ [pb]) := by
  refine ⟨?_, ?_⟩
  · refine List.rel_append (h.segments.imp fun _ _ hs => hs.grow rfl) (.cons ?_ .nil)
    refine ⟨rfl, rfl, rfl, rfl, ?_, hfirst, hlast⟩
    intro i hi
    simp only [PackedRunPoints.addTemplate]
    rw [List.getElem?_append_right (by omega), Nat.add_sub_cancel_left]
  · intro k hk
    rw [List.length_append, List.length_singleton] at hk
    rw [List.map_append]
    rcases Nat.lt_or_ge k pbs.length with hlt | hge
    · rw [List.getD_append _ _ _ _ (by rw [List.length_map, h.length_eq]; exact hlt),
        h.cumulative k hlt, List.take_append_of_le_length (by omega)]
    · have hk' : k = pbs.length := by omega
      subst hk'
      rw [List.getD_append_right _ _ _ _ (by rw [List.length_map, h.length_eq]),
        List.take_of_length_le (by simp), flatPoints_append, List.length_append,
        flatPoints_singleton, h.len_eq]
      simp [h.length_eq]

/-- **One turn keeps the invariant.** -/
theorem Collected.step {t : PackedTable} {acc : PackedRunPoints × Option ℕ}
    {pbs : List PointBlock} {done : List Block} (h : Collected kinds mode acc pbs done)
    {segment : Segment} {b : Block} (hseg : SegmentOf t segment b) (hb : b.WellFormed) :
    ∃ pbs', Collected kinds mode (addPointSegment t kinds mode acc segment) pbs' (done ++ [b]) := by
  obtain ⟨p, last⟩ := acc
  have hlast : last = (flatPoints pbs).getLast? := h.last_eq
  have hraw : rawPoints kinds mode (recordsOf (done ++ [b])) =
      rawPoints kinds mode (recordsOf done) ++ rawPoints kinds mode b.records := by
    rw [recordsOf_append, recordsOf_singleton, rawPoints_append]
  have hsources : ∀ pb ∈ pbs, ∃ x ∈ done ++ [b], ∃ last, pb = pointBlock kinds mode last x := by
    intro pb hpb
    obtain ⟨x, hx, hlast⟩ := h.sources pb hpb
    exact ⟨x, by simp [hx], hlast⟩
  rcases addPointSegment_cases hseg hb p last with ⟨hnil, heq⟩ | ⟨hne, hflat, heq⟩ |
    ⟨hne, firstPoint, lastPoint, hhead, hlast', heq⟩
  · refine ⟨pbs, ?_⟩
    rw [heq]
    refine ⟨h.holds, ?_, h.last_eq, hsources⟩
    have hrec : rawPoints kinds mode b.records = [] := by
      rw [rawPoints_records, hnil]
      simp [cycles]
    rw [hraw, hrec, List.append_nil]
    exact h.flat_eq
  · refine ⟨pbs, ?_⟩
    rw [heq]
    refine ⟨h.holds.addTemplate _ _, ?_, h.last_eq, hsources⟩
    rw [hlast, pointBlock_flat hb hne] at hflat
    rw [hraw, dedupRuns_append, ← h.flat_eq, hflat, List.append_nil]
  · refine ⟨pbs ++ [pointBlock kinds mode last b], ?_⟩
    rw [heq]
    refine ⟨h.holds.addSegment _ hhead hlast', ?_, ?_, ?_⟩
    · rw [flatPoints_append, flatPoints_singleton, hlast, pointBlock_flat hb hne, hraw,
        dedupRuns_append, h.flat_eq]
    · rw [flatPoints_append, flatPoints_singleton, List.getLast?_append, hlast']
      rfl
    · intro pb hpb
      rcases List.mem_append.mp hpb with hpb | hpb
      · exact hsources pb hpb
      · exact ⟨b, by simp, last, List.mem_singleton.mp hpb⟩

/-- **The walk** collects the points of all records. -/
theorem collected_walk {t : PackedTable} {blocks : List Block} (h : Packs t blocks) :
    ∃ pbs, Collected kinds mode
      (t.segments.foldl (addPointSegment t kinds mode) (⟨[], [], []⟩, none)) pbs blocks := by
  have hstart : ∃ pbs, Collected kinds mode (⟨[], [], []⟩, none) pbs [] :=
    ⟨[], ⟨.nil, by simp⟩, rfl, rfl, by simp⟩
  have hwalk := foldl_rel (I := fun acc done => ∃ pbs, Collected kinds mode acc pbs done)
    h.segmentOf (fun acc done segment b hseg hpre hI => by
      obtain ⟨pbs, hc⟩ := hI
      exact hc.step hseg (h.wellFormed b (hpre.subset (by simp)))) hstart
  exact hwalk

/-! ## The columns do not overflow -/

/-- Every value of the columns is at most `bound`, and there are at most two points for each of
the template rows seen. -/
structure Within (bound : ℕ) (acc : PackedRunPoints × Option ℕ) (done : List Block) : Prop where
  points_le : ∀ x ∈ acc.1.templatePoints, x ≤ bound
  lengths_le : ∀ x ∈ acc.1.templateLengths, x ≤ bound
  count_le : acc.1.templatePoints.length ≤ 2 * (done.flatMap (·.template)).length
  segments_le : ∀ s ∈ acc.1.segments, s.templateStart ≤ bound ∧ s.templateCount ≤ bound ∧
    s.cycleStride ≤ bound ∧ s.initialSkip ≤ 1 ∧ s.repeatSkip ≤ 1 ∧ s.cumulativeCount ≤ bound ∧
    s.firstPoint ≤ bound ∧ s.lastPoint ≤ bound

theorem length_rawPoints_le (rs : List BoundaryRecord) :
    (rawPoints kinds mode rs).length ≤ 2 * rs.length := by
  induction rs with
  | nil => simp [rawPoints]
  | cons r rs ih =>
      rw [← List.singleton_append, rawPoints_append, List.length_append]
      have : (rawPoints kinds mode [r]).length ≤ 2 := by
        by_cases h : hasKind kinds r
        · cases mode <;> simp [rawPoints, h, spanPoints]
        · simp [rawPoints, h]
      simp only [List.singleton_append, List.length_cons]
      omega

theorem length_dedupRuns_le (xs : List ℕ) : (dedupRuns xs).length ≤ xs.length := by
  induction xs using List.reverseRecOn with
  | nil => exact le_refl _
  | append_singleton ys y ih =>
      rw [dedupRuns_concat, appendDistinct]
      split
      · rw [List.length_append]
        omega
      · rw [List.length_append, List.length_append]
        omega

theorem mem_rawPoints_le {rs : List BoundaryRecord} {bound : ℕ}
    (hends : ∀ r ∈ rs, r.startOffset + r.boundaryLength ≤ bound) {x : ℕ}
    (hx : x ∈ rawPoints kinds mode rs) : x ≤ bound := by
  obtain ⟨r, hr, hxr⟩ := List.mem_flatMap.mp hx
  have := hends r hr
  by_cases h : hasKind kinds r
  · cases mode <;> simp [h, spanPoints] at hxr <;> omega
  · simp [h] at hxr

theorem collectRows_lengths_mem (rs : List BoundaryRecord) : ∀ points lengths : List ℕ,
    ∀ x ∈ (collectRows kinds mode points lengths rs).2,
      x ∈ lengths ∨ ∃ r ∈ rs, x = r.boundaryLength := by
  induction rs with
  | nil =>
      intro points lengths x hx
      exact .inl hx
  | cons r rs ih =>
      intro points lengths x hx
      rw [collectRows] at hx
      split at hx
      · rcases ih _ _ x hx with h | ⟨r', hr', h⟩
        · unfold rowLengths at h
          split at h
          · rcases List.mem_append.mp h with h | h
            · exact .inl h
            · exact .inr ⟨r, by simp, List.mem_singleton.mp h⟩
          · exact .inl h
        · exact .inr ⟨r', by simp [hr'], h⟩
      · rcases ih _ _ x hx with h | ⟨r', hr', h⟩
        · exact .inl h
        · exact .inr ⟨r', by simp [hr'], h⟩

theorem length_templates_le {blocks : List Block} (hwf : ∀ b ∈ blocks, b.WellFormed) :
    (blocks.flatMap (·.template)).length ≤ (recordsOf blocks).length := by
  rw [recordsOf]
  simp only [List.length_flatMap]
  refine List.sum_le_sum ?_
  intro x hx
  rw [Block.length_records]
  exact Nat.le_mul_of_pos_right _ (hwf x hx).repeat_pos

/-- The stride of a block is at most where its second copy ends. -/
theorem Block.WellFormed.stride_le {b : Block} (hb : b.WellFormed) {bound : ℕ}
    (hends : ∀ r ∈ b.records, r.startOffset + r.boundaryLength ≤ bound) : b.stride ≤ bound := by
  rcases Nat.lt_or_ge 1 b.repeatCount with h1 | h1
  · obtain ⟨first, rest, htemplate⟩ := List.exists_cons_of_ne_nil hb.template_ne
    have hmem : first.shift b.stride ∈ b.records :=
      mem_cycles.mpr ⟨1, h1, first, by simp [htemplate], by simp⟩
    have := hends _ hmem
    rw [BoundaryRecord.shift_startOffset] at this
    omega
  · have hpos := hb.repeat_pos
    rw [hb.stride_zero (by omega)]
    exact Nat.zero_le _

/-- **One turn stays within the bound.** -/
theorem Within.step {t : PackedTable} {acc : PackedRunPoints × Option ℕ} {pbs : List PointBlock}
    {done : List Block} {bound : ℕ} (h : Within bound acc done)
    (hc : Collected kinds mode acc pbs done) {segment : Segment} {b : Block}
    (hseg : SegmentOf t segment b) (hb : b.WellFormed) (hwf : ∀ x ∈ done, x.WellFormed)
    (hends : ∀ r ∈ recordsOf (done ++ [b]), r.startOffset + r.boundaryLength ≤ bound)
    (hcount : 2 * (recordsOf (done ++ [b])).length ≤ bound) :
    Within bound (addPointSegment t kinds mode acc segment) (done ++ [b]) := by
  obtain ⟨p, last⟩ := acc
  rw [recordsOf_append, recordsOf_singleton] at hends hcount
  rw [List.length_append] at hcount
  have hbends : ∀ r ∈ b.records, r.startOffset + r.boundaryLength ≤ bound := fun r hr =>
    hends r (List.mem_append_right _ hr)
  have htends : ∀ r ∈ b.template, r.startOffset + r.boundaryLength ≤ bound := fun r hr =>
    hbends r (Block.template_subset_records hb.repeat_pos r hr)
  have htemplates : ((done ++ [b]).flatMap (·.template)).length =
      (done.flatMap (·.template)).length + b.template.length := by
    rw [List.flatMap_append, List.length_append]
    simp
  have hlen : b.template.length ≤ b.records.length := by
    rw [Block.length_records]
    exact Nat.le_mul_of_pos_right _ hb.repeat_pos
  have hdone := length_templates_le hwf
  have hpoints : ∀ x ∈ (pointBlock kinds mode last b).points, x ≤ bound := fun x hx =>
    mem_rawPoints_le htends (mem_dedupRuns.mp hx)
  have hpcount : (pointBlock kinds mode last b).points.length ≤ 2 * b.template.length :=
    le_trans (length_dedupRuns_le _) (length_rawPoints_le _)
  have hlengths : ∀ x ∈ (collectRows kinds mode [] [] b.template).2, x ≤ bound := by
    intro x hx
    rcases collectRows_lengths_mem _ _ _ x hx with h | ⟨r, hr, rfl⟩
    · simp at h
    · have := htends r hr
      omega
  have hgrow : Within bound (p.addTemplate (pointBlock kinds mode last b).points
      (collectRows kinds mode [] [] b.template).2, last) (done ++ [b]) := by
    refine ⟨?_, ?_, ?_, h.segments_le⟩
    · intro x hx
      rcases List.mem_append.mp hx with hx | hx
      · exact h.points_le x hx
      · exact hpoints x hx
    · intro x hx
      rcases List.mem_append.mp hx with hx | hx
      · exact h.lengths_le x hx
      · exact hlengths x hx
    · have := h.count_le
      simp only [PackedRunPoints.addTemplate, List.length_append, htemplates] at this ⊢
      omega
  rcases addPointSegment_cases hseg hb p last with ⟨hnil, heq⟩ | ⟨hne, hflat, heq⟩ |
    ⟨hne, firstPoint, lastPoint, hhead, hlast, heq⟩
  · rw [heq]
    refine ⟨h.points_le, h.lengths_le, ?_, h.segments_le⟩
    have := h.count_le
    simp only [htemplates] at this ⊢
    omega
  · rw [heq]
    exact hgrow
  · rw [heq]
    refine ⟨hgrow.points_le, hgrow.lengths_le, hgrow.count_le, ?_⟩
    intro s hs
    rcases List.mem_append.mp hs with hs | hs
    · exact h.segments_le s hs
    · rw [List.mem_singleton.mp hs]
      have hlast' : last = (flatPoints pbs).getLast? := hc.last_eq
      -- the points of the block are points of its records
      have hflat : ∀ x ∈ (pointBlock kinds mode last b).flat, x ≤ bound := by
        intro x hx
        rw [hlast', pointBlock_flat hb hne] at hx
        have hx' : x ∈ dedupRuns (rawPoints kinds mode b.records) := by
          unfold dropRepeat at hx
          split at hx
          · exact List.mem_of_mem_tail hx
          · exact hx
        exact mem_rawPoints_le hbends (mem_dedupRuns.mp hx')
      have hflatLength : (pointBlock kinds mode last b).flat.length ≤ 2 * b.records.length := by
        rw [hlast', pointBlock_flat hb hne]
        refine le_trans ?_ (@length_rawPoints_le kinds mode b.records)
        refine le_trans ?_ (length_dedupRuns_le _)
        unfold dropRepeat
        split
        · rw [List.length_tail]
          omega
        · exact le_refl _
      have hlenp : p.len ≤ 2 * (recordsOf done).length := by
        rw [hc.holds.len_eq, hc.flat_eq]
        exact le_trans (length_dedupRuns_le _) (length_rawPoints_le _)
      have hcount' : p.templatePoints.length ≤ 2 * (done.flatMap (·.template)).length := h.count_le
      refine ⟨?_, ?_, hb.stride_le hbends, ?_, ?_, ?_, hflat _ (List.mem_of_head? hhead),
        hflat _ (List.mem_of_getLast? hlast)⟩
      · show p.templatePoints.length ≤ bound
        omega
      · show (pointBlock kinds mode last b).points.length ≤ bound
        omega
      · simp only [pointBlock]
        split <;> omega
      · simp only [pointBlock, sharedPoints]
        split
        · split <;> omega
        · omega
      · show p.len + (pointBlock kinds mode last b).flat.length ≤ bound
        omega

theorem Within.fits {bound : ℕ} {acc : PackedRunPoints × Option ℕ} {done : List Block}
    (h : Within bound acc done) (hbound : bound < 2 ^ 32) : acc.1.fits = true := by
  unfold PackedRunPoints.fits
  simp only [Bool.and_eq_true, List.all_eq_true, Ingestion.fits, fitsByte, decide_eq_true_eq]
  refine ⟨⟨?_, ?_⟩, ?_⟩
  · intro x hx
    have := h.points_le x hx
    omega
  · intro x hx
    have := h.lengths_le x hx
    omega
  · intro s hs
    obtain ⟨h1, h2, h3, h4, h5, h6, h7, h8⟩ := h.segments_le s hs
    refine ⟨⟨⟨⟨⟨⟨⟨?_, ?_⟩, ?_⟩, ?_⟩, ?_⟩, ?_⟩, ?_⟩, ?_⟩ <;> omega

/-- **`packedPoints` succeeds** below the limit of the columns and holds the points of the packed
records, repetitions removed. -/
theorem packedPoints_holds {t : PackedTable} {blocks : List Block} (h : Packs t blocks) {bound : ℕ}
    (hbound : bound < 2 ^ 32)
    (hends : ∀ r ∈ recordsOf blocks, r.startOffset + r.boundaryLength ≤ bound)
    (hcount : 2 * (recordsOf blocks).length ≤ bound) :
    ∃ acc pbs, packedPoints t kinds mode = .ok acc.1 ∧ Collected kinds mode acc pbs blocks ∧
      acc = t.segments.foldl (addPointSegment t kinds mode) (⟨[], [], []⟩, none) := by
  obtain ⟨pbs, hc⟩ := @collected_walk kinds mode _ _ h
  -- prefixes of the blocks stay within the bound as the whole does
  have hpre : ∀ done : List Block, done <+: blocks →
      (∀ x ∈ done, x.WellFormed) ∧
      (∀ r ∈ recordsOf done, r.startOffset + r.boundaryLength ≤ bound) ∧
      2 * (recordsOf done).length ≤ bound := by
    rintro done ⟨rest, rfl⟩
    rw [recordsOf_append] at hends hcount
    rw [List.length_append] at hcount
    exact ⟨fun x hx => h.wellFormed x (by simp [hx]),
      fun r hr => hends r (List.mem_append_left _ hr), by omega⟩
  have hwalk := foldl_rel (I := fun acc done =>
      (∃ pbs, Collected kinds mode acc pbs done) ∧ Within bound acc done) h.segmentOf
    (fun acc done segment b hseg hdone hI => by
      obtain ⟨⟨pbs, hc⟩, hw⟩ := hI
      obtain ⟨hwf, hends', hcount'⟩ := hpre _ hdone
      have hb := hwf b (by simp)
      exact ⟨hc.step hseg hb, hw.step hc hseg hb (fun x hx => hwf x (by simp [hx])) hends' hcount'⟩)
    (s := (⟨[], [], []⟩, none))
    ⟨⟨[], ⟨.nil, by simp⟩, rfl, rfl, by simp⟩, ⟨by simp, by simp, by simp, by simp⟩⟩
  refine ⟨_, pbs, ?_, hc, rfl⟩
  unfold packedPoints
  simp only [hwalk.2.fits hbound, if_true]

/-! ## Lengths -/

/-- The rows of a template that have one of the kinds. -/
def rowsOfKind (kinds : List BoundaryKind) (b : Block) : List BoundaryRecord :=
  b.template.filter (hasKind kinds)

/-- Where starts increase, the rows of a kind are collected one by one, each with its length. -/
theorem collectRows_starts (rs : List BoundaryRecord) : ∀ points lengths : List ℕ,
    (points ++ (rs.filter (hasKind kinds)).map (·.startOffset)).Pairwise (· < ·) →
    collectRows kinds .starts points lengths rs =
      (points ++ (rs.filter (hasKind kinds)).map (·.startOffset),
        lengths ++ (rs.filter (hasKind kinds)).map (·.boundaryLength)) := by
  induction rs with
  | nil =>
      intro points lengths _
      simp [collectRows]
  | cons r rs ih =>
      intro points lengths hinc
      by_cases h : hasKind kinds r
      · rw [List.filter_cons_of_pos h, List.map_cons] at hinc
        have hlast : points.getLast? ≠ some r.startOffset := by
          intro hl
          have := (List.pairwise_append.mp hinc).2.2 _ (List.mem_of_getLast? hl) r.startOffset
            (by simp)
          omega
        rw [collectRows, if_pos h, rowPoints, rowLengths, if_pos ⟨rfl, hlast⟩, appendDistinct,
          if_neg hlast, ih _ _ (by simpa using hinc)]
        simp [List.filter_cons_of_pos h]
      · rw [List.filter_cons_of_neg h] at hinc ⊢
        rw [collectRows, if_neg h, ih _ _ hinc]

/-- Points and lengths are collected in pairs. -/
structure Paired (kinds : List BoundaryKind) (p : PackedRunPoints) (done : List Block) : Prop where
  points_eq : p.templatePoints = (done.flatMap (rowsOfKind kinds)).map (·.startOffset)
  lengths_eq : p.templateLengths = (done.flatMap (rowsOfKind kinds)).map (·.boundaryLength)

theorem rawPoints_starts (rs : List BoundaryRecord) :
    rawPoints kinds .starts rs = (rs.filter (hasKind kinds)).map (·.startOffset) := by
  induction rs with
  | nil => rfl
  | cons r rs ih =>
      rw [← List.singleton_append, rawPoints_append, ih]
      by_cases h : hasKind kinds r
      · simp [rawPoints, h, spanPoints]
      · simp [rawPoints, h]

/-- **One turn keeps points and lengths paired.** -/
theorem Paired.step {t : PackedTable} {acc : PackedRunPoints × Option ℕ} {done : List Block}
    (h : Paired kinds acc.1 done) {segment : Segment} {b : Block} (hseg : SegmentOf t segment b)
    (hb : b.WellFormed) (hinc : ((rowsOfKind kinds b).map (·.startOffset)).Pairwise (· < ·)) :
    Paired kinds (addPointSegment t kinds .starts acc segment).1 (done ++ [b]) := by
  obtain ⟨p, last⟩ := acc
  have hcollect := @collectRows_starts kinds b.template [] []
    (by rw [List.nil_append]; exact hinc)
  simp only [List.nil_append] at hcollect
  have hpoints : (pointBlock kinds .starts last b).points =
      (rowsOfKind kinds b).map (·.startOffset) := by
    show dedupRuns (rawPoints kinds .starts b.template) = _
    rw [rawPoints_starts]
    exact dedupRuns_of_increasing hinc
  have hgrow : Paired kinds (p.addTemplate (pointBlock kinds .starts last b).points
      (collectRows kinds .starts [] [] b.template).2) (done ++ [b]) := by
    refine ⟨?_, ?_⟩
    · simp only [PackedRunPoints.addTemplate, hpoints]
      rw [show p.templatePoints = _ from h.points_eq]
      simp
    · simp only [PackedRunPoints.addTemplate, hcollect]
      rw [show p.templateLengths = _ from h.lengths_eq]
      simp [rowsOfKind]
  rcases addPointSegment_cases hseg hb p last with ⟨hnil, heq⟩ | ⟨hne, hflat, heq⟩ |
    ⟨hne, firstPoint, lastPoint, hhead, hlast, heq⟩
  · rw [heq]
    rw [rawPoints_starts, List.map_eq_nil_iff] at hnil
    have hrows : (done ++ [b]).flatMap (rowsOfKind kinds) = done.flatMap (rowsOfKind kinds) := by
      simp [rowsOfKind, hnil]
    exact ⟨by rw [hrows]; exact h.points_eq, by rw [hrows]; exact h.lengths_eq⟩
  · rw [heq]
    exact hgrow
  · rw [heq]
    exact ⟨hgrow.points_eq, hgrow.lengths_eq⟩

theorem paired_walk {t : PackedTable} {blocks : List Block} (h : Packs t blocks)
    (hinc : ∀ b ∈ blocks, ((rowsOfKind kinds b).map (·.startOffset)).Pairwise (· < ·)) :
    Paired kinds (t.segments.foldl (addPointSegment t kinds .starts) (⟨[], [], []⟩, none)).1
      blocks := by
  refine foldl_rel (I := fun (acc : PackedRunPoints × Option ℕ) done => Paired kinds acc.1 done)
    h.segmentOf ?_ ⟨rfl, rfl⟩
  intro acc done segment b hseg hdone hI
  have hb : b ∈ blocks := hdone.subset (by simp)
  exact hI.step hseg (h.wellFormed b hb) (hinc b hb)

/-- **The end of the boundary that starts at an offset**, for starts of some kinds. -/
theorem boundaryEndStartingAt_spec {acc : PackedRunPoints × Option ℕ} {pbs : List PointBlock}
    {blocks : List Block} (hc : Collected kinds .starts acc pbs blocks)
    (hpaired : Paired kinds acc.1 blocks) (hwf : ∀ b ∈ blocks, b.WellFormed)
    (hstarts : ((recordsOf blocks).map (·.startOffset)).Pairwise (· < ·)) (offset : ℕ) :
    (acc.1.boundaryEndStartingAt offset = none ∧
      ∀ r ∈ recordsOf blocks, hasKind kinds r → r.startOffset ≠ offset) ∨
    (∃ r ∈ recordsOf blocks, hasKind kinds r ∧ r.startOffset = offset ∧
      acc.1.boundaryEndStartingAt offset = some (offset + r.boundaryLength)) := by
  have hsub : ((recordsOf blocks).filter (hasKind kinds)).map (·.startOffset) |>.Pairwise (· < ·) :=
    hstarts.sublist (List.filter_sublist.map _)
  have hflat : flatPoints pbs =
      ((recordsOf blocks).filter (hasKind kinds)).map (·.startOffset) := by
    rw [hc.flat_eq, rawPoints_starts]
    exact dedupRuns_of_increasing hsub
  have hinc : Increasing (flatPoints pbs) := by
    rw [hflat]
    exact hsub
  -- a record is determined by where it starts
  have hunique : ∀ r ∈ recordsOf blocks, ∀ r' ∈ recordsOf blocks,
      r.startOffset = r'.startOffset → r = r' := by
    intro r hr r' hr' heq
    have hnodup : ((recordsOf blocks).map (·.startOffset)).Nodup := hstarts.imp ne_of_lt
    exact List.inj_on_of_nodup_map hnodup hr hr' heq
  unfold PackedRunPoints.boundaryEndStartingAt
  rcases hc.holds.locate_spec hinc offset with ⟨hnone, hmem⟩ |
    ⟨segment, pb, i, hsome, hpb, hseg, hi, hpoint, hmem⟩
  · refine .inl ⟨by rw [hnone], ?_⟩
    intro r hr hk heq
    refine hmem ?_
    rw [hflat, List.mem_map]
    exact ⟨r, List.mem_filter.mpr ⟨hr, hk⟩, heq⟩
  · obtain ⟨b, hb, last, rfl⟩ := hc.sources pb hpb
    have hbwf := hwf b hb
    obtain ⟨hrow, hcycle⟩ := hseg.pointPosition_spec hbwf.repeat_pos hi
    have hpoints : (pointBlock kinds .starts last b).points =
        (rowsOfKind kinds b).map (·.startOffset) := by
      show dedupRuns (rawPoints kinds .starts b.template) = _
      rw [rawPoints_starts]
      refine dedupRuns_of_increasing (hsub.sublist ((List.Sublist.filter _ ?_).map _))
      refine (Block.template_sublist_records hbwf.repeat_pos).trans ?_
      rw [recordsOf_eq_flatten]
      exact List.sublist_flatten_of_mem (List.mem_map_of_mem hb)
    unfold PackedRunPoints.pointInSegment at hpoint
    simp only at hpoint
    generalize hposition : PackedRunPoints.pointPosition segment i = position at hrow hcycle hpoint
    obtain ⟨c, pos⟩ := position
    simp only at hrow hcycle hpoint
    have hread := hseg.rows pos hrow
    rw [hpoints, List.length_map] at hrow
    rw [hpoints, List.getElem?_map, List.getElem?_eq_getElem hrow, Option.map_some] at hread
    generalize hr : (rowsOfKind kinds b)[pos] = r at hread
    have hrmem : r ∈ rowsOfKind kinds b := by
      rw [← hr]
      exact List.getElem_mem hrow
    obtain ⟨hrtemplate, hrkind⟩ := List.mem_filter.mp hrmem
    -- the row of the columns at this position is the same row
    have hcolumn := hread
    rw [hpaired.points_eq, List.getElem?_map] at hcolumn
    obtain ⟨r', hr', hstart⟩ := Option.map_eq_some_iff.mp hcolumn
    obtain ⟨b', hb', hr'mem⟩ := List.mem_flatMap.mp (List.mem_of_getElem? hr')
    have hmemOf : ∀ x ∈ blocks, ∀ y ∈ x.template, y ∈ recordsOf blocks := fun x hx y hy =>
      List.mem_flatMap.mpr ⟨x, hx, Block.template_subset_records (hwf x hx).repeat_pos y hy⟩
    have hrr' : r' = r := hunique r' (hmemOf b' hb' r' (List.mem_filter.mp hr'mem).1) r
      (hmemOf b hb r hrtemplate) hstart
    have hlength : acc.1.templateLengths[segment.templateStart + pos]? = some r.boundaryLength := by
      rw [hpaired.lengths_eq, List.getElem?_map, hr', hrr']
      rfl
    have hstride : segment.cycleStride = b.stride := hseg.stride_eq
    refine .inr ⟨r.shift (c * b.stride), ?_, hrkind, ?_, ?_⟩
    · refine List.mem_flatMap.mpr ⟨b, hb, mem_cycles.mpr ⟨c, hcycle, r, hrtemplate, ?_⟩⟩
      rw [Nat.zero_add]
    · rw [List.getD_eq_getElem?_getD, hread, hstride] at hpoint
      exact hpoint
    · have hne : acc.1.templateLengths ≠ [] := by
        intro hnil
        rw [hnil] at hlength
        simp at hlength
      rw [hsome]
      simp only [hne, if_false, hposition]
      rw [List.getD_eq_getElem?_getD, hlength]
      rfl

end VeloxRag.Ingestion
