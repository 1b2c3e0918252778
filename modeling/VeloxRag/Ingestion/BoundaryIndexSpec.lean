import VeloxRag.Ingestion.BoundaryCollect
import VeloxRag.Ingestion.BoundaryTitleAt

/-!
# The two indexes answer alike

What a query means is said once, on the sequence of boundaries: points are the starts or
ends of some kinds with repetitions removed, the end of a paragraph is that of the
paragraph starting at the offset, and the titles are those of the last boundary that
starts by the offset.  `IndexReads` says that an index answers every query with that
meaning.  The plain index does so for every ordered sequence, and the packed index of a
table that represents the sequence does so too.

## Main definitions

* `boundaryPoints`, `paragraphEnd`, `titlesAbove` — the meaning of the queries.
* `Points.Reads` — a sequence of points, packed or plain, that reads as a list.
* `IndexReads` — an index that answers with the meaning of the queries.
* `indexPlainBoundaries_reads`, `indexCompactBoundaries_reads` — both indexes do.
-/

namespace VeloxRag.Ingestion

open VeloxRag.Lib

/-! ## Points of a sequence -/

/-- The points of the boundaries of some kinds, with repetitions. -/
def boundaryPoints (kinds : List BoundaryKind) (mode : PointMode) (bs : List StructuralBoundary) :
    List ℕ :=
  bs.flatMap fun b => if b.kind ∈ kinds then spanPoints mode b.startOffset b.endOffset else []

/-- The points of the boundaries of some kinds. -/
def distinctPoints (kinds : List BoundaryKind) (mode : PointMode) (bs : List StructuralBoundary) :
    List ℕ :=
  dedupRuns (boundaryPoints kinds mode bs)

/-- The end of the paragraph that starts at an offset. -/
def paragraphEnd (bs : List StructuralBoundary) (offset : ℕ) : Option ℕ :=
  (bs.find? fun b => decide (b.kind = .paragraph ∧ b.startOffset = offset)).map (·.endOffset)

/-- The titles of the last boundary that starts at or before an offset. -/
def titlesAbove (bs : List StructuralBoundary) (offset : ℕ) : List Str :=
  ((bs.reverse.find? fun b => decide (b.startOffset ≤ offset)).map (·.titlePath)).getD []

variable {kinds : List BoundaryKind} {mode : PointMode}

theorem boundaryPoints_append (xs ys : List StructuralBoundary) :
    boundaryPoints kinds mode (xs ++ ys) =
      boundaryPoints kinds mode xs ++ boundaryPoints kinds mode ys := by
  simp [boundaryPoints]

theorem mem_spanPoints {s e x : ℕ} (hse : s ≤ e) (h : x ∈ spanPoints mode s e) : s ≤ x ∧ x ≤ e := by
  cases mode <;> simp [spanPoints] at h <;> omega

theorem spanPoints_sorted {s e : ℕ} (hse : s ≤ e) : (spanPoints mode s e).Pairwise (· ≤ ·) := by
  cases mode <;> simp [spanPoints, hse]

/-- The points of an ordered sequence are sorted. -/
theorem boundaryPoints_sorted {last : ℕ} {bs : List StructuralBoundary} (h : OrderedFrom last bs) :
    (boundaryPoints kinds mode bs).Pairwise (· ≤ ·) ∧
      ∀ x ∈ boundaryPoints kinds mode bs, last ≤ x := by
  induction bs generalizing last with
  | nil => simp [boundaryPoints]
  | cons b bs ih =>
      obtain ⟨hsorted, hle⟩ := ih h.2
      have hb := b.start_lt_end
      have hstart := h.1
      rw [← List.singleton_append, boundaryPoints_append]
      by_cases hk : b.kind ∈ kinds
      · have hone : boundaryPoints kinds mode [b] = spanPoints mode b.startOffset b.endOffset := by
          simp [boundaryPoints, hk]
        rw [hone]
        refine ⟨List.pairwise_append.mpr ⟨spanPoints_sorted (by omega), hsorted, ?_⟩, ?_⟩
        · intro x hx y hy
          have h1 := mem_spanPoints (by omega) hx
          have h2 := hle y hy
          omega
        · intro x hx
          rcases List.mem_append.mp hx with hx | hx
          · have := mem_spanPoints (by omega) hx
            omega
          · have := hle x hx
            omega
      · have hone : boundaryPoints kinds mode [b] = [] := by simp [boundaryPoints, hk]
        rw [hone, List.nil_append]
        exact ⟨hsorted, fun x hx => by have := hle x hx; omega⟩

theorem distinctPoints_increasing {bs : List StructuralBoundary} (h : Ordered bs) :
    Increasing (distinctPoints kinds mode bs) :=
  dedupRuns_increasing (boundaryPoints_sorted h).1

/-- Starts of an ordered sequence never repeat. -/
theorem starts_increasing {last : ℕ} {bs : List StructuralBoundary} (h : OrderedFrom last bs) :
    Increasing (bs.map (·.startOffset)) := by
  rw [Increasing, List.pairwise_map]
  refine h.pairwise.imp ?_
  intro x y hxy
  have := x.start_lt_end
  omega

theorem ends_increasing {last : ℕ} {bs : List StructuralBoundary} (h : OrderedFrom last bs) :
    Increasing (bs.map (·.endOffset)) := by
  rw [Increasing, List.pairwise_map]
  refine h.pairwise.imp ?_
  intro x y hxy
  have := y.start_lt_end
  omega

/-- The paragraphs of a sequence. -/
def paragraphsOf (bs : List StructuralBoundary) : List StructuralBoundary :=
  bs.filter fun b => decide (b.kind = .paragraph)

theorem boundaryPoints_paragraph_starts (bs : List StructuralBoundary) :
    boundaryPoints [.paragraph] .starts bs = (paragraphsOf bs).map (·.startOffset) := by
  induction bs with
  | nil => rfl
  | cons b bs ih =>
      rw [show b :: bs = [b] ++ bs from rfl, boundaryPoints_append, ih]
      by_cases h : b.kind = .paragraph <;>
        simp [boundaryPoints, paragraphsOf, h, spanPoints]

theorem boundaryPoints_paragraph_ends (bs : List StructuralBoundary) :
    boundaryPoints [.paragraph] .ends bs = (paragraphsOf bs).map (·.endOffset) := by
  induction bs with
  | nil => rfl
  | cons b bs ih =>
      rw [show b :: bs = [b] ++ bs from rfl, boundaryPoints_append, ih]
      by_cases h : b.kind = .paragraph <;>
        simp [boundaryPoints, paragraphsOf, h, spanPoints]

theorem distinctPoints_paragraph_starts {bs : List StructuralBoundary} (h : Ordered bs) :
    distinctPoints [.paragraph] .starts bs = (paragraphsOf bs).map (·.startOffset) := by
  rw [distinctPoints, boundaryPoints_paragraph_starts]
  exact dedupRuns_of_increasing ((starts_increasing h).sublist (List.filter_sublist.map _))

theorem distinctPoints_paragraph_ends {bs : List StructuralBoundary} (h : Ordered bs) :
    distinctPoints [.paragraph] .ends bs = (paragraphsOf bs).map (·.endOffset) := by
  rw [distinctPoints, boundaryPoints_paragraph_ends]
  exact dedupRuns_of_increasing ((ends_increasing h).sublist (List.filter_sublist.map _))

/-! ## Sequences of points -/

/-- The sequence of points reads as the list. -/
inductive Points.Reads : Points → List ℕ → Prop
  | plain (xs : List ℕ) : Points.Reads (.plain xs) xs
  | packed {p : PackedRunPoints} {blocks : List PointBlock} (h : HoldsPoints p blocks) :
      Points.Reads (.packed p) (flatPoints blocks)

namespace Points.Reads

variable {points : Points} {xs : List ℕ}

theorem len_eq (h : points.Reads xs) : points.len = xs.length := by
  cases h with
  | plain => rfl
  | packed h => exact h.len_eq

theorem getItem_eq (h : points.Reads xs) (index : ℤ) : points.getItem index = pyIndex xs index := by
  cases h with
  | plain => rfl
  | packed h => exact h.getItem_eq index

theorem getSlice_eq (h : points.Reads xs) (s : PySlice) : points.getSlice s = pySlice xs s := by
  cases h with
  | plain => rfl
  | packed h => exact h.getSlice_eq s

/-- **The first point of a window.** -/
theorem firstPoint_eq (h : points.Reads xs) (hinc : Increasing xs) (lo hi : ℕ) :
    firstPoint points lo hi = firstIn xs lo hi := by
  cases h with
  | packed h => exact h.first_eq hinc lo hi
  | plain =>
      unfold firstPoint firstIn
      simp only
      rw [find?_eq_bisectLeft hinc]
      rcases Nat.lt_or_ge (bisectLeft xs lo) xs.length with hlt | hge
      · rw [List.getElem?_eq_getElem hlt, List.getD_eq_getElem _ _ hlt]
        simp [hlt, Option.filter_some]
      · rw [List.getElem?_eq_none hge]
        simp [show ¬ bisectLeft xs lo < xs.length by omega]

/-- **The last point of a window.** -/
theorem lastPoint_eq (h : points.Reads xs) (hinc : Increasing xs) (lo hi : ℕ) :
    lastPoint points lo hi = lastIn xs lo hi := by
  cases h with
  | packed h => exact h.last_eq hinc lo hi
  | plain =>
      unfold lastPoint lastIn
      simp only
      rw [reverse_find?_eq_bisectRight hinc]
      have hle := (bisectRight_spec hinc hi).1
      rcases Nat.eq_zero_or_pos (bisectRight xs hi) with h0 | hpos
      · simp [h0]
      · have hlt : bisectRight xs hi - 1 < xs.length := by omega
        simp only [show bisectRight xs hi ≠ 0 by omega, if_false]
        rw [List.getElem?_eq_getElem hlt, List.getD_eq_getElem _ _ hlt]
        simp [Option.filter_some]

/-- **Membership.** -/
theorem containsPoint_eq (h : points.Reads xs) (hinc : Increasing xs) (offset : ℕ) :
    containsPoint points offset = decide (offset ∈ xs) := by
  cases h with
  | packed h => exact h.contains_eq hinc offset
  | plain =>
      unfold containsPoint
      simp only
      congr 1
      rw [mem_iff_find? hinc, find?_eq_bisectLeft hinc, eq_iff_iff]
      rcases Nat.lt_or_ge (bisectLeft xs offset) xs.length with hlt | hge
      · rw [List.getElem?_eq_getElem hlt, List.getD_eq_getElem _ _ hlt]
        simp [hlt]
      · rw [List.getElem?_eq_none hge]
        simp [show ¬ bisectLeft xs offset < xs.length by omega]

end Points.Reads

/-! ## Indexes -/

/-- The index answers every query with its meaning on the sequence `bs`.  A title lookup changes
the cache, so the answers are those of any sequence of lookups from the empty cache. -/
structure IndexReads (index : BoundaryIndex) (bs : List StructuralBoundary) : Prop where
  headings : index.headings.Reads (distinctPoints [.heading] .starts bs)
  structuralStarts : index.structuralStarts.Reads
    (distinctPoints [.paragraph, .listItem, .fencedCodeBlock] .starts bs)
  codeBlocks : index.codeBlocks.Reads (distinctPoints [.fencedCodeBlock] .both bs)
  paragraphs : index.paragraphs.Reads (distinctPoints [.paragraph] .both bs)
  paragraphStarts : index.paragraphStarts.Reads (distinctPoints [.paragraph] .starts bs)
  paragraphEnds : index.paragraphEnds.Reads (distinctPoints [.paragraph] .ends bs)
  listItems : index.listItems.Reads (distinctPoints [.listItem] .both bs)
  paragraphEnd : ∀ offset, paragraphEndStartingAt index offset = paragraphEnd bs offset
  titles : ∃ Sound : TitleCache → Prop, Sound .new ∧ ∀ cache offset, Sound cache →
    ∃ cache', titlePathAt index cache offset = .ok (titlesAbove bs offset, cache') ∧ Sound cache'

/-! ### The plain index -/

/-- What the loop of the plain index has collected. -/
theorem plainLists_eq (bs : List StructuralBoundary) :
    bs.foldl PlainLists.add .empty =
      { headings := distinctPoints [.heading] .starts bs
        structuralStarts := distinctPoints [.paragraph, .listItem, .fencedCodeBlock] .starts bs
        codeBlocks := distinctPoints [.fencedCodeBlock] .both bs
        paragraphs := distinctPoints [.paragraph] .both bs
        paragraphStarts := (paragraphsOf bs).map (·.startOffset)
        paragraphEnds := (paragraphsOf bs).map (·.endOffset)
        listItems := distinctPoints [.listItem] .both bs
        titleOffsets := bs.map (·.startOffset)
        titlePaths := bs.map (·.titlePath) } := by
  induction bs using List.reverseRecOn with
  | nil => rfl
  | append_singleton bs b ih =>
      rw [List.foldl_append, ih, List.foldl_cons, List.foldl_nil]
      have hone : ∀ kinds mode, distinctPoints kinds mode (bs ++ [b]) =
          (boundaryPoints kinds mode [b]).foldl appendDistinct (distinctPoints kinds mode bs) := by
        intro kinds mode
        rw [distinctPoints, boundaryPoints_append, dedupRuns, List.foldl_append]
        rfl
      cases hk : b.kind <;>
        simp [PlainLists.add, hk, hone, boundaryPoints, spanPoints, paragraphsOf]

theorem find?_map_start {bs : List StructuralBoundary} (hinc : Increasing (bs.map (·.startOffset)))
    (offset : ℕ) :
    (if bisectLeft (bs.map (·.startOffset)) offset < bs.length ∧
        (bs.map (·.startOffset)).getD (bisectLeft (bs.map (·.startOffset)) offset) 0 = offset then
      bs[bisectLeft (bs.map (·.startOffset)) offset]? else none) =
    bs.find? (fun b => decide (b.startOffset = offset)) := by
  obtain ⟨hle, hbelow, habove⟩ := bisectLeft_spec hinc offset
  rw [List.length_map] at hle
  generalize bisectLeft (bs.map (·.startOffset)) offset = k at hle hbelow habove
  have hread : ∀ (i : ℕ) (b : StructuralBoundary), bs[i]? = some b →
      (bs.map (·.startOffset)).getD i 0 = b.startOffset := by
    intro i b hb
    rw [List.getD_eq_getElem?_getD, List.getElem?_map, hb]
    rfl
  by_cases hhit : k < bs.length ∧ (bs.map (·.startOffset)).getD k 0 = offset
  · rw [if_pos hhit]
    have hk := List.getElem?_eq_getElem hhit.1
    have hkey : bs[k].startOffset = offset := by rw [← hread k _ hk]; exact hhit.2
    rw [hk]
    symm
    rw [List.find?_eq_some_iff_getElem]
    refine ⟨by simpa using hkey, k, hhit.1, rfl, ?_⟩
    intro j hj
    have := hbelow j hj
    rw [hread j _ (List.getElem?_eq_getElem (by omega))] at this
    simp only [Bool.not_eq_true', decide_eq_false_iff_not]
    omega
  · rw [if_neg hhit]
    symm
    rw [List.find?_eq_none]
    intro b hb heq
    rw [decide_eq_true_eq] at heq
    obtain ⟨i, hi⟩ := List.mem_iff_getElem?.mp hb
    have hil := (List.getElem?_eq_some_iff.mp hi).1
    have hik : k ≤ i := by
      by_contra hlt
      have := hbelow i (by omega)
      rw [hread i b hi] at this
      omega
    have hkl : k < bs.length := by omega
    have h1 := habove k (le_refl k) (by rw [List.length_map]; exact hkl)
    have h2 : (bs.map (·.startOffset)).getD k 0 ≤ (bs.map (·.startOffset)).getD i 0 :=
      hinc.getD_le hik (by rw [List.length_map]; exact hil)
    rw [hread i b hi] at h2
    exact hhit ⟨hkl, by omega⟩

/-- **The plain index** answers every query with its meaning. -/
theorem indexPlainBoundaries_reads {bs : List StructuralBoundary} (h : Ordered bs) :
    IndexReads (indexPlainBoundaries bs) bs := by
  have hsub : Increasing ((paragraphsOf bs).map (·.startOffset)) :=
    (starts_increasing h).sublist (List.filter_sublist.map _)
  unfold indexPlainBoundaries
  rw [plainLists_eq]
  refine ⟨.plain _, .plain _, .plain _, .plain _, ?_, ?_, .plain _, ?_, ?_⟩
  · rw [distinctPoints_paragraph_starts h]
    exact .plain _
  · rw [distinctPoints_paragraph_ends h]
    exact .plain _
  · intro offset
    unfold paragraphEndStartingAt paragraphEnd
    simp only
    have hfind := find?_map_start hsub offset
    have hfilter : (paragraphsOf bs).find? (fun b => decide (b.startOffset = offset)) =
        bs.find? (fun b => decide (b.kind = .paragraph ∧ b.startOffset = offset)) := by
      rw [paragraphsOf, List.find?_filter]
      simp only [Bool.decide_and, decide_eq_true_eq]
    rw [← hfilter, ← hfind]
    rw [List.length_map]
    split
    · rw [Points.getItem, pyIndex_natCast, List.getElem?_map]
    · rfl
  · refine ⟨fun _ => True, trivial, ?_⟩
    intro cache offset _
    refine ⟨cache, ?_, trivial⟩
    unfold titlePathAt titlesAbove
    simp only
    obtain ⟨hle, hbelow, habove⟩ := bisectRight_spec (starts_increasing h) offset
    generalize bisectRight (bs.map (·.startOffset)) offset = k at hle hbelow habove
    rw [List.length_map] at hle
    have hread : ∀ (i : ℕ) (b : StructuralBoundary), bs[i]? = some b →
        (bs.map (·.startOffset)).getD i 0 = b.startOffset := by
      intro i b hb
      rw [List.getD_eq_getElem?_getD, List.getElem?_map, hb]
      rfl
    have hfind : bs.reverse.find? (fun b => decide (b.startOffset ≤ offset)) =
        if k = 0 then none else bs[k - 1]? := by
      refine reverse_find?_eq hle ?_ ?_
      · intro b h0 hb
        have := hbelow (k - 1) (by omega)
        rw [hread _ b hb] at this
        simpa using this
      · intro i b hi hb
        have := habove i hi (by rw [List.length_map]; exact (List.getElem?_eq_some_iff.mp hb).1)
        rw [hread _ b hb] at this
        simpa using this
    rw [hfind]
    by_cases h0 : k = 0
    · simp [h0]
    · have hlt : k - 1 < bs.length := by omega
      simp only [h0, if_false]
      rw [List.getElem?_eq_getElem hlt, List.getD_eq_getElem?_getD, List.getElem?_map,
        List.getElem?_eq_getElem hlt]

/-! ### The packed index -/

/-- The records of a table have the points of the boundaries they encode. -/
theorem rawPoints_eq_boundaryPoints {nodes : List TitleNode} {rs : List BoundaryRecord}
    {bs : List StructuralBoundary} (h : List.Forall₂ (Encodes nodes) rs bs) :
    rawPoints kinds mode rs = boundaryPoints kinds mode bs := by
  induction h with
  | nil => rfl
  | @cons r b rs bs hrb _ ih =>
      rw [← List.singleton_append, rawPoints_append, ih, ← List.singleton_append (l := bs),
        boundaryPoints_append]
      congr 1
      have hkind : hasKind kinds r = decide (b.kind ∈ kinds) := by
        simp [hasKind, hrb.kind_eq]
      have hend : b.startOffset + r.boundaryLength = b.endOffset := by
        have := b.start_lt_end
        rw [hrb.length_eq]
        omega
      simp [rawPoints, boundaryPoints, hkind, hend, hrb.start_eq]

theorem starts_eq {nodes : List TitleNode} {rs : List BoundaryRecord}
    {bs : List StructuralBoundary} (h : List.Forall₂ (Encodes nodes) rs bs) :
    rs.map (·.startOffset) = bs.map (·.startOffset) := by
  induction h with
  | nil => rfl
  | cons hrb _ ih => rw [List.map_cons, List.map_cons, ih, hrb.start_eq]

/-- Searching from the back on both sides of an encoding. -/
theorem forall₂_reverse_find? {nodes : List TitleNode} {rs : List BoundaryRecord}
    {bs : List StructuralBoundary} (h : List.Forall₂ (Encodes nodes) rs bs) (offset : ℕ) :
    IsPath nodes (((rs.reverse.find? (startsBy offset)).map (·.titlePathId)).getD 0)
      (titlesAbove bs offset) := by
  unfold titlesAbove
  have hrev := List.forall₂_reverse_iff.mpr h
  generalize rs.reverse = rs' at hrev
  generalize bs.reverse = bs' at hrev
  clear h
  induction hrev with
  | nil => exact .root
  | @cons r b rs bs hrb _ ih =>
      by_cases hle : b.startOffset ≤ offset
      · have hr : startsBy offset r = true := by simpa [hrb.start_eq] using hle
        rw [List.find?_cons_of_pos hr, List.find?_cons_of_pos (by simpa using hle)]
        exact hrb.path
      · have hr : ¬ startsBy offset r = true := by simpa [hrb.start_eq] using hle
        rw [List.find?_cons_of_neg hr, List.find?_cons_of_neg (by simpa using hle)]
        exact ih

theorem forall₂_mem_left {α β : Type*} {R : α → β → Prop} {xs : List α} {ys : List β}
    (h : List.Forall₂ R xs ys) : ∀ x ∈ xs, ∃ y ∈ ys, R x y := by
  induction h with
  | nil => simp
  | @cons x y xs ys hxy _ ih =>
      intro a ha
      rcases List.mem_cons.mp ha with rfl | ha
      · exact ⟨y, by simp, hxy⟩
      · obtain ⟨b, hb, hab⟩ := ih a ha
        exact ⟨b, by simp [hb], hab⟩

theorem forall₂_mem_right {α β : Type*} {R : α → β → Prop} {xs : List α} {ys : List β}
    (h : List.Forall₂ R xs ys) : ∀ y ∈ ys, ∃ x ∈ xs, R x y := by
  have hflip := forall₂_mem_left h.flip
  exact hflip

/-- Where the records of a table end. -/
theorem Represents.ends_le {t : PackedTable} {blocks : List Block} {nodes : List TitleNode}
    {bs : List StructuralBoundary} (h : Represents t blocks nodes bs) {bound : ℕ}
    (hends : ∀ b ∈ bs, b.endOffset ≤ bound) :
    ∀ r ∈ recordsOf blocks, r.startOffset + r.boundaryLength ≤ bound := by
  intro r hr
  obtain ⟨b, hb, henc⟩ := forall₂_mem_left h.encodes r hr
  have h1 := b.start_lt_end
  have h2 := hends b hb
  rw [henc.start_eq, henc.length_eq]
  omega

/-- **The packed index** of a table that represents the sequence exists and answers every query
with its meaning. -/
theorem indexCompactBoundaries_reads {t : PackedTable} {blocks : List Block}
    {nodes : List TitleNode} {bs : List StructuralBoundary} (h : Represents t blocks nodes bs)
    (horder : Ordered bs) {bound : ℕ} (hbound : bound < 2 ^ 32)
    (hends : ∀ b ∈ bs, b.endOffset ≤ bound) (hcount : 2 * bs.length ≤ bound) :
    ∃ index, indexCompactBoundaries t = .ok index ∧ IndexReads index bs := by
  have hrends := h.ends_le hends
  have hrcount : 2 * (recordsOf blocks).length ≤ bound := by
    rw [h.encodes.length_eq]
    exact hcount
  have hpoints : ∀ kinds mode, ∃ acc pbs, packedPoints t kinds mode = .ok acc.1 ∧
      Collected kinds mode acc pbs blocks ∧
      acc = t.segments.foldl (addPointSegment t kinds mode) (⟨[], [], []⟩, none) ∧
      (Points.packed acc.1).Reads (distinctPoints kinds mode bs) := by
    intro kinds mode
    obtain ⟨acc, pbs, hok, hc, hacc⟩ := @packedPoints_holds kinds mode _ _ h.packs bound
      hbound hrends hrcount
    refine ⟨acc, pbs, hok, hc, hacc, ?_⟩
    rw [distinctPoints, ← rawPoints_eq_boundaryPoints h.encodes, ← hc.flat_eq]
    exact .packed hc.holds
  obtain ⟨headings, _, hok₁, _, _, hr₁⟩ := hpoints [.heading] .starts
  obtain ⟨structural, _, hok₂, _, _, hr₂⟩ :=
    hpoints [.paragraph, .listItem, .fencedCodeBlock] .starts
  obtain ⟨starts, pbs, hok₃, hc₃, hacc₃, hr₃⟩ := hpoints [.paragraph] .starts
  obtain ⟨ends, _, hok₄, _, _, hr₄⟩ := hpoints [.paragraph] .ends
  obtain ⟨codes, _, hok₅, _, _, hr₅⟩ := hpoints [.fencedCodeBlock] .both
  obtain ⟨paragraphs, _, hok₆, _, _, hr₆⟩ := hpoints [.paragraph] .both
  obtain ⟨items, _, hok₇, _, _, hr₇⟩ := hpoints [.listItem] .both
  have hstarts : ((recordsOf blocks).map (·.startOffset)).Pairwise (· < ·) := by
    rw [starts_eq h.encodes]
    exact starts_increasing horder
  have hpaired : Paired [.paragraph] starts.1 blocks := by
    rw [hacc₃]
    refine paired_walk h.packs ?_
    intro b hb
    refine hstarts.sublist (List.Sublist.map _ ?_)
    refine List.filter_sublist.trans
      ((Block.template_sublist_records (h.packs.wellFormed b hb).repeat_pos).trans ?_)
    rw [recordsOf_eq_flatten]
    exact List.sublist_flatten_of_mem (List.mem_map_of_mem hb)
  refine ⟨_, by simp only [indexCompactBoundaries, hok₁, hok₂, hok₃, hok₄, hok₅, hok₆, hok₇, bind,
    Except.bind]; rfl, ⟨hr₁, hr₂, hr₅, hr₆, hr₃, hr₄, hr₇, ?_, ?_⟩⟩
  · intro offset
    show starts.1.boundaryEndStartingAt offset = paragraphEnd bs offset
    unfold paragraphEnd
    rcases boundaryEndStartingAt_spec hc₃ hpaired h.packs.wellFormed hstarts offset with
      ⟨hnone, hall⟩ | ⟨r, hr, hkind, hstart, hsome⟩
    · have hfind : bs.find? (fun b => decide (b.kind = .paragraph ∧ b.startOffset = offset)) =
          none := by
        rw [List.find?_eq_none]
        intro b hb hp
        obtain ⟨r, hr, henc⟩ := forall₂_mem_right h.encodes b hb
        simp only [decide_eq_true_eq] at hp
        refine hall r hr ?_ (by rw [henc.start_eq]; exact hp.2)
        simp [hasKind, henc.kind_eq, hp.1]
      rw [hnone, hfind]
      rfl
    · obtain ⟨b, hb, henc⟩ := forall₂_mem_left h.encodes r hr
      have hbkind : b.kind = .paragraph := by simpa [hasKind, henc.kind_eq] using hkind
      have hbstart : b.startOffset = offset := by rw [← henc.start_eq]; exact hstart
      have hfind : bs.find? (fun b => decide (b.kind = .paragraph ∧ b.startOffset = offset)) =
          some b := by
        obtain ⟨b', hb'⟩ : ∃ b', bs.find?
            (fun b => decide (b.kind = .paragraph ∧ b.startOffset = offset)) = some b' := by
          refine Option.isSome_iff_exists.mp (List.find?_isSome.mpr ⟨b, hb, ?_⟩)
          simp [hbkind, hbstart]
        have hp := List.find?_some hb'
        simp only [decide_eq_true_eq] at hp
        have hnodup : (bs.map (·.startOffset)).Nodup := (starts_increasing horder).imp ne_of_lt
        rw [hb', List.inj_on_of_nodup_map hnodup (List.mem_of_find?_eq_some hb') hb
          (by rw [hp.2, hbstart])]
      rw [hsome, hfind]
      have := b.start_lt_end
      rw [henc.length_eq, Option.map_some, ← hbstart]
      congr 1
      omega
  · refine ⟨CacheHolds nodes, cacheHolds_new nodes, ?_⟩
    intro cache offset hcache
    exact compactTitlePathAt_eq h.titles hcache
      (h.packs.titlePathIdAtOffset_eq (List.pairwise_map.mp hstarts) offset)
      (forall₂_reverse_find? h.encodes offset)

end VeloxRag.Ingestion
