import VeloxRag.Ingestion.BoundaryRead
import VeloxRag.Ingestion.BoundaryIndex

/-!
# Titles above an offset

The titles above an offset are those of the last boundary that starts at or before it.
The lookup in a packed table finds the segment by where it starts, the copy by division
and the row by a binary search of the template.  The path is then taken from a cache
that is cut down to the nodes of the path just returned.

## Main definitions

* `titlePathIdAtOffset_eq` — the node found for an offset.
* `CacheHolds` — every cached path is the path of its node.
* `compactTitlePathAt_eq` — the path returned, and that the cache stays sound.
-/

namespace VeloxRag.Ingestion

open VeloxRag.Lib

/-- The test of the lookup: a record starts at or before the offset. -/
abbrev startsBy (offset : ℕ) (r : BoundaryRecord) : Bool := decide (r.startOffset ≤ offset)

theorem SegmentOf.templateStartOffset_eq {t : PackedTable} {segment : Segment} {b : Block}
    (h : SegmentOf t segment b) {i : ℕ} {r : BoundaryRecord} (hr : b.template[i]? = some r) :
    t.templateStartOffset (segment.templateStart + i) = r.startOffset := by
  have hi := (List.getElem?_eq_some_iff.mp hr).1
  rw [PackedTable.templateStartOffset, List.getD_eq_getElem?_getD, List.getElem?_map, h.rows i hi, hr]
  rfl

/-- The binary search of the template finds its last row that starts by an offset. -/
theorem SegmentOf.bisect_template {t : PackedTable} {segment : Segment} {b : Block}
    (h : SegmentOf t segment b)
    (hinc : b.template.Pairwise (fun x y => x.startOffset < y.startOffset)) {offset : ℕ}
    {first : BoundaryRecord} (hfirst : b.template[0]? = some first)
    (hle : first.startOffset ≤ offset) :
    ∃ i r, bisect (fun middle => decide (t.templateStartOffset middle ≤ offset))
        segment.templateStart (segment.templateStart + segment.templateCount) =
          segment.templateStart + (i + 1) ∧
      b.template[i]? = some r ∧ b.template.reverse.find? (startsBy offset) = some r := by
  rw [h.count_eq]
  have hread : ∀ i, i < b.template.length → ∃ r, b.template[i]? = some r ∧
      t.templateStartOffset (segment.templateStart + i) = r.startOffset := fun i hi =>
    ⟨_, List.getElem?_eq_getElem hi, h.templateStartOffset_eq (List.getElem?_eq_getElem hi)⟩
  have hmono : ∀ (i j : ℕ) (x y : BoundaryRecord), i ≤ j → b.template[i]? = some x → b.template[j]? = some y →
      x.startOffset ≤ y.startOffset := by
    intro i j x y hij hx hy
    rcases Nat.lt_or_eq_of_le hij with hlt | rfl
    · obtain ⟨hi, rfl⟩ := List.getElem?_eq_some_iff.mp hx
      obtain ⟨hj, rfl⟩ := List.getElem?_eq_some_iff.mp hy
      exact le_of_lt (List.pairwise_iff_getElem.mp hinc i j hi hj hlt)
    · rw [hx] at hy
      injection hy with hy
      rw [hy]
  have hdown : DownClosed (fun middle => decide (t.templateStartOffset middle ≤ offset))
      segment.templateStart (segment.templateStart + b.template.length) := by
    intro i j hi hij hj hp
    obtain ⟨x, hx, hxs⟩ := hread (i - segment.templateStart) (by omega)
    obtain ⟨y, hy, hys⟩ := hread (j - segment.templateStart) (by omega)
    rw [show segment.templateStart + (i - segment.templateStart) = i by omega] at hxs
    rw [show segment.templateStart + (j - segment.templateStart) = j by omega] at hys
    simp only [decide_eq_true_eq, hxs, hys] at hp ⊢
    exact le_trans (hmono _ _ x y (by omega) hx hy) hp
  obtain ⟨hge, hbound, hbelow, habove⟩ := bisect_spec (by omega) hdown
  generalize bisect (fun middle => decide (t.templateStartOffset middle ≤ offset))
    segment.templateStart (segment.templateStart + b.template.length) = lower
    at hge hbound hbelow habove
  have hpos := (List.getElem?_eq_some_iff.mp hfirst).1
  obtain ⟨m, hm⟩ := Nat.exists_eq_add_of_le hge
  have hm0 : 0 < m := by
    by_contra h0
    have := habove segment.templateStart (by omega) (by omega)
    rw [show segment.templateStart = segment.templateStart + 0 from rfl,
      h.templateStartOffset_eq hfirst] at this
    simp only [decide_eq_true_eq] at this
    omega
  obtain ⟨r, hr, hrs⟩ := hread (m - 1) (by omega)
  refine ⟨m - 1, r, by omega, hr, ?_⟩
  have hfind := @reverse_find?_eq _ b.template (startsBy offset) m (by omega)
    (fun x _ hx => by
      have := hbelow (segment.templateStart + (m - 1)) (by omega) (by omega)
      rw [h.templateStartOffset_eq hx] at this
      exact this)
    (fun i x hi hx => by
      have := habove (segment.templateStart + i) (by omega)
        (by have := (List.getElem?_eq_some_iff.mp hx).1; omega)
      rw [h.templateStartOffset_eq hx] at this
      simpa using this)
  rw [hfind, if_neg (by omega), hr]

/-- The copies of a block, one after another. -/
theorem Block.records_eq_flatten (b : Block) :
    b.records = ((List.range b.repeatCount).map fun c =>
      b.template.map (BoundaryRecord.shift (c * b.stride))).flatten := by
  simp [Block.records, cycles, List.flatMap_def]

/-- The copy that division chooses for an offset. -/
theorem cycleIndex_spec {repeatCount stride first offset : ℕ} (hpos : 0 < repeatCount)
    (hstride : 1 < repeatCount → 0 < stride) (hle : first ≤ offset) {c : ℕ}
    (hc : c = if 1 < repeatCount then min (repeatCount - 1) ((offset - first) / stride) else 0) :
    c < repeatCount ∧ first + c * stride ≤ offset ∧
      ∀ j, c < j → j < repeatCount → offset < first + j * stride := by
  by_cases h1 : 1 < repeatCount
  · rw [if_pos h1] at hc
    have hs := hstride h1
    have hdiv : (offset - first) / stride * stride ≤ offset - first := Nat.div_mul_le_self _ _
    have hcle : c ≤ (offset - first) / stride := by omega
    have hmul : c * stride ≤ (offset - first) / stride * stride := Nat.mul_le_mul_right _ hcle
    refine ⟨by omega, by omega, ?_⟩
    intro j hcj hj
    have hceq : c = (offset - first) / stride := by omega
    have hlt : offset - first < (c + 1) * stride := by
      rw [hceq]
      exact Nat.lt_mul_of_div_lt (Nat.lt_succ_self _) hs
    have hjm : (c + 1) * stride ≤ j * stride := Nat.mul_le_mul_right _ hcj
    omega
  · rw [if_neg h1] at hc
    subst hc
    refine ⟨hpos, by omega, ?_⟩
    intro j h2 h3
    omega

/-- **The lookup in one segment** finds its last record that starts by the offset. -/
theorem SegmentOf.titlePathIdInSegment_eq {t : PackedTable} {segment : Segment} {b : Block}
    (h : SegmentOf t segment b) (hb : b.WellFormed)
    (hinc : b.template.Pairwise (fun x y => x.startOffset < y.startOffset)) {offset : ℕ}
    (hle : segment.firstStartOffset ≤ offset) :
    ∃ r, b.records.reverse.find? (startsBy offset) = some r ∧
      t.titlePathIdInSegment segment offset = .ok r.titlePathId := by
  obtain ⟨first, rest, htemplate⟩ := List.exists_cons_of_ne_nil hb.template_ne
  have hfirst : b.template[0]? = some first := by simp [htemplate]
  have hfirstStart : first.startOffset = segment.firstStartOffset := by
    have := h.first_eq
    rw [htemplate] at this
    simpa using this.symm
  have htstart := h.templateStartOffset_eq hfirst
  rw [Nat.add_zero] at htstart
  obtain ⟨hc, hreach, hlater⟩ := cycleIndex_spec hb.repeat_pos hb.stride_pos
    (show first.startOffset ≤ offset by omega) rfl
  unfold PackedTable.titlePathIdInSegment
  simp only [h.repeat_eq, h.stride_eq, htstart]
  generalize (if 1 < b.repeatCount then
    min (b.repeatCount - 1) ((offset - first.startOffset) / b.stride) else 0) = c at hc hreach hlater
  obtain ⟨i, r, hlower, hr, hfind⟩ := h.bisect_template hinc hfirst
    (show first.startOffset ≤ offset - c * b.stride by omega)
  refine ⟨r.shift (c * b.stride), ?_, ?_⟩
  · rw [Block.records_eq_flatten]
    have hcopy : (b.template.map (BoundaryRecord.shift (c * b.stride))).reverse.find?
        (startsBy offset) = some (r.shift (c * b.stride)) := by
      rw [← List.map_reverse, List.find?_map]
      have htest : (startsBy offset ∘ BoundaryRecord.shift (c * b.stride)) =
          startsBy (offset - c * b.stride) := by
        funext x
        simp only [Function.comp, startsBy, BoundaryRecord.shift_startOffset]
        congr 1
        simp only [eq_iff_iff]
        omega
      rw [htest, hfind]
      rfl
    have hk : ((List.range b.repeatCount).map fun c =>
        b.template.map (BoundaryRecord.shift (c * b.stride)))[c]? =
        some (b.template.map (BoundaryRecord.shift (c * b.stride))) := by
      rw [List.getElem?_map, List.getElem?_range hc]
      rfl
    rw [reverse_find?_flatten hk ?_ (by rw [hcopy]; rfl), hcopy]
    intro j copy hj hcopyj x hx
    rw [List.getElem?_map] at hcopyj
    obtain ⟨j', hj', rfl⟩ := Option.map_eq_some_iff.mp hcopyj
    have hjlt := (List.getElem?_eq_some_iff.mp hj').1
    rw [List.length_range] at hjlt
    rw [List.getElem?_range hjlt] at hj'
    injection hj' with hj'
    subst hj'
    obtain ⟨y, hy, rfl⟩ := List.mem_map.mp hx
    have hfy : first.startOffset ≤ y.startOffset := by
      rw [htemplate] at hy hinc
      rcases List.mem_cons.mp hy with rfl | hy
      · exact le_refl _
      · exact le_of_lt ((List.pairwise_cons.mp hinc).1 y hy)
    have := hlater j hj hjlt
    simp only [decide_eq_false_iff_not, BoundaryRecord.shift_startOffset]
    omega
  · have hrow : t.templates[segment.templateStart + i]? = some r := by
      rw [h.rows i (List.getElem?_eq_some_iff.mp hr).1, hr]
    simp only [hlower, show segment.templateStart + (i + 1) ≠ segment.templateStart by omega,
      if_false, show segment.templateStart + (i + 1) - 1 = segment.templateStart + i by omega,
      column_eq_ok hrow]
    rfl

/-- **The node found for an offset** is that of the last record that starts by it, and the root
when there is none. -/
theorem Packs.titlePathIdAtOffset_eq {t : PackedTable} {blocks : List Block} (h : Packs t blocks)
    (hinc : (recordsOf blocks).Pairwise (fun x y => x.startOffset < y.startOffset)) (offset : ℕ) :
    t.titlePathIdAtOffset offset =
      .ok ((((recordsOf blocks).reverse.find? (startsBy offset)).map (·.titlePathId)).getD 0) := by
  have hlen := h.segmentOf.length_eq
  have hget : ∀ (k : ℕ) (b : Block), blocks[k]? = some b → ∃ segment, t.segments[k]? = some segment ∧
      SegmentOf t segment b := by
    intro k b hb
    obtain ⟨hk, hb'⟩ := List.getElem?_eq_some_iff.mp hb
    have hk' : k < t.segments.length := by omega
    refine ⟨t.segments[k], List.getElem?_eq_getElem hk', ?_⟩
    have := (List.forall₂_iff_get.mp h.segmentOf).2 k hk' hk
    simpa [hb'] using this
  have hflat := recordsOf_eq_flatten blocks
  have hpair := List.pairwise_flatten.mp (hflat ▸ hinc)
  -- every record of a block starts at or after the block
  have hfirst : ∀ (k : ℕ) (b : Block) (segment : Segment), blocks[k]? = some b → t.segments[k]? = some segment →
      (∃ r ∈ b.records, r.startOffset = segment.firstStartOffset) ∧
      ∀ r ∈ b.records, segment.firstStartOffset ≤ r.startOffset := by
    intro k b segment hb hs
    obtain ⟨segment', hs', hseg⟩ := hget k b hb
    rw [hs] at hs'
    injection hs' with hs'
    subst hs'
    have hbmem := List.mem_of_getElem? hb
    have hwf := h.wellFormed b hbmem
    obtain ⟨first, rest, htemplate⟩ := List.exists_cons_of_ne_nil hwf.template_ne
    have hfs : first.startOffset = segment.firstStartOffset := by
      have := hseg.first_eq
      rw [htemplate] at this
      simpa using this.symm
    have hbinc : b.records.Pairwise (fun x y => x.startOffset < y.startOffset) :=
      hpair.1 b.records (List.mem_map_of_mem hbmem)
    have hrec : ∃ more, b.records = first :: more := by
      obtain ⟨m, hm⟩ : ∃ m, b.repeatCount = m + 1 := ⟨b.repeatCount - 1, by
        have := hwf.repeat_pos
        omega⟩
      rw [Block.records, hm, cycles_succ_left, htemplate, List.map_cons]
      exact ⟨_, by rw [Nat.zero_mul]; rfl⟩
    obtain ⟨more, hmore⟩ := hrec
    rw [hmore] at hbinc ⊢
    refine ⟨⟨first, by simp, hfs⟩, ?_⟩
    intro r hr
    rcases List.mem_cons.mp hr with rfl | hr
    · omega
    · have := (List.pairwise_cons.mp hbinc).1 r hr
      omega
  have hstarts : Increasing (t.segments.map (·.firstStartOffset)) := by
    rw [Increasing, List.pairwise_iff_getElem]
    intro j k hj hk hjk
    rw [List.length_map] at hj hk
    obtain ⟨x, hx, hxs⟩ := (hfirst j blocks[j] t.segments[j] (List.getElem?_eq_getElem (by omega))
      (List.getElem?_eq_getElem hj)).1
    obtain ⟨y, hy, hys⟩ := (hfirst k blocks[k] t.segments[k] (List.getElem?_eq_getElem (by omega))
      (List.getElem?_eq_getElem hk)).1
    have := List.pairwise_iff_getElem.mp hpair.2 j k (by simp; omega) (by simp; omega) hjk
    have hlt := this x (by simpa using hx) y (by simpa using hy)
    simp only [List.getElem_map]
    omega
  obtain ⟨hle, hbelow, habove⟩ := bisectRight_spec hstarts offset
  unfold PackedTable.titlePathIdAtOffset
  simp only
  generalize bisectRight (t.segments.map (·.firstStartOffset)) offset = position at hle hbelow habove
  rw [List.length_map] at hle habove
  have hread : ∀ (k : ℕ) (segment : Segment), t.segments[k]? = some segment →
      (t.segments.map (·.firstStartOffset)).getD k 0 = segment.firstStartOffset := by
    intro k segment hs
    rw [List.getD_eq_getElem?_getD, List.getElem?_map, hs]
    rfl
  -- records of the segments from `position` on start after the offset
  have hskip : ∀ (j : ℕ) (copy : List BoundaryRecord), position ≤ j → (blocks.map Block.records)[j]? = some copy →
      ∀ x ∈ copy, startsBy offset x = false := by
    intro j copy hj hcopy x hx
    rw [List.getElem?_map] at hcopy
    obtain ⟨b, hb, rfl⟩ := Option.map_eq_some_iff.mp hcopy
    obtain ⟨segment, hs, _⟩ := hget j b hb
    have hlt := habove j hj (List.getElem?_eq_some_iff.mp hs).1
    rw [hread j segment hs] at hlt
    have := (hfirst j b segment hb hs).2 x hx
    simp only [decide_eq_false_iff_not]
    omega
  rw [hflat]
  by_cases h0 : position = 0
  · rw [if_pos h0]
    have hnone : (blocks.map Block.records).flatten.reverse.find? (startsBy offset) = none := by
      rw [List.find?_eq_none]
      intro x hx
      obtain ⟨copy, hcopy, hxc⟩ := List.mem_flatten.mp (List.mem_reverse.mp hx)
      obtain ⟨j, hj⟩ := List.mem_iff_getElem?.mp hcopy
      rw [hskip j copy (by omega) hj x hxc]
      simp
    rw [hnone]
    rfl
  · rw [if_neg h0]
    have hk : position - 1 < blocks.length := by omega
    have hb := List.getElem?_eq_getElem hk
    generalize blocks[position - 1] = b at hb
    obtain ⟨segment, hs, hseg⟩ := hget _ b hb
    have hbmem := List.mem_of_getElem? hb
    have hwf := h.wellFormed b hbmem
    have hreach := hbelow (position - 1) (by omega)
    rw [hread _ segment hs] at hreach
    have hbinc : b.template.Pairwise (fun x y => x.startOffset < y.startOffset) :=
      (hpair.1 b.records (List.mem_map_of_mem hbmem)).sublist
        (Block.template_sublist_records hwf.repeat_pos)
    obtain ⟨r, hfind, hid⟩ := hseg.titlePathIdInSegment_eq hwf hbinc hreach
    have hmap : (blocks.map Block.records)[position - 1]? = some b.records := by
      rw [List.getElem?_map, hb]
      rfl
    rw [reverse_find?_flatten hmap (fun j copy hj hc => hskip j copy (by omega) hc)
      (by rw [hfind]; rfl), hfind]
    simp only [column_eq_ok hs, bind, Except.bind, hid]
    rfl

/-! ## The cache -/

theorem IsPath.unique {nodes : List TitleNode} {id : ℕ} {path : List Str}
    (h : IsPath nodes id path) : ∀ {path' : List Str}, IsPath nodes id path' → path = path' := by
  induction h with
  | root =>
      intro path' h'
      cases h'
      rfl
  | node hn _ _ ih =>
      intro path' h'
      cases h' with
      | node hn' _ h'' =>
          rw [hn] at hn'
          injection hn' with hn'
          subst hn'
          rw [ih h'']

/-- The cache knows the root, and every path in it is the path of its node. -/
structure CacheHolds (nodes : List TitleNode) (cache : TitleCache) : Prop where
  root : (cache.lookup 0).isSome
  isPath : ∀ id path, cache.lookup id = some path → IsPath nodes id path

theorem cacheHolds_new (nodes : List TitleNode) : CacheHolds nodes TitleCache.new := by
  refine ⟨rfl, ?_⟩
  intro id path h
  cases id with
  | zero =>
      simp [TitleCache.new] at h
      subst h
      exact .root
  | succ id => simp [TitleCache.new, List.lookup] at h

theorem CacheHolds.cons {nodes : List TitleNode} {cache : TitleCache} (h : CacheHolds nodes cache)
    {id : ℕ} {path : List Str} (hpath : IsPath nodes id path) :
    CacheHolds nodes ((id, path) :: cache) := by
  refine ⟨?_, ?_⟩
  · by_cases h0 : 0 = id
    · simp [h0]
    · rw [List.lookup_cons, beq_eq_false_iff_ne.mpr h0]
      exact h.root
  · intro id' path' hl
    by_cases heq : id' = id
    · subst heq
      rw [List.lookup_cons, beq_self_eq_true] at hl
      injection hl with hl
      rw [← hl]
      exact hpath
    · rw [List.lookup_cons, beq_eq_false_iff_ne.mpr heq] at hl
      exact h.isPath id' path' hl

/-- Keeping the entries whose key passes a test keeps their lookups. -/
theorem lookup_filter_key {α : Type} (f : ℕ → Bool) (l : List (ℕ × α)) (k : ℕ) :
    (l.filter fun e => f e.1).lookup k = if f k then l.lookup k else none := by
  induction l with
  | nil => simp
  | cons e l ih =>
      obtain ⟨key, v⟩ := e
      by_cases hkey : k = key
      · subst hkey
        by_cases hf : f k
        · simp [hf]
        · rw [List.filter_cons_of_neg (by simpa using hf), ih]
          simp [hf]
      · have hne : (k == key) = false := beq_eq_false_iff_ne.mpr hkey
        by_cases hf : f key
        · rw [List.filter_cons_of_pos (by simpa using hf), List.lookup_cons, hne, List.lookup_cons,
            hne]
          exact ih
        · rw [List.filter_cons_of_neg (by simpa using hf), List.lookup_cons, hne]
          exact ih

/-- Nodes from the top down, each a child of the one before, with the path they lead to. -/
inductive Descends (nodes : List TitleNode) : List Str → List ℕ → List Str → Prop
  | nil {path : List Str} : Descends nodes path [] path
  | cons {base path : List Str} {i : ℕ} {n : TitleNode} {ids : List ℕ} (hn : nodes[i]? = some n)
      (hpath : IsPath nodes (i + 1) (base ++ [n.title]))
      (h : Descends nodes (base ++ [n.title]) ids path) : Descends nodes base ((i + 1) :: ids) path

theorem Descends.concat {nodes : List TitleNode} {base path : List Str} {ids : List ℕ}
    (h : Descends nodes base ids path) {i : ℕ} {n : TitleNode} (hn : nodes[i]? = some n)
    (hpath : IsPath nodes (i + 1) (path ++ [n.title])) :
    Descends nodes base (ids ++ [i + 1]) (path ++ [n.title]) := by
  induction h with
  | nil => exact .cons hn hpath .nil
  | cons hn' hpath' _ ih => exact .cons hn' hpath' (ih hpath)

theorem missingNodes_spec {t : PackedTable} {nodes : List TitleNode} (ht : HoldsTitles t nodes)
    {cache : TitleCache} (hcache : CacheHolds nodes cache) {id : ℕ} {path : List Str}
    (hpath : IsPath nodes id path) : ∀ (fuel : ℕ) (missing : List ℕ), path.length ≤ fuel →
      ∃ ms ancestor base, missingNodes t cache fuel id missing = .ok (missing ++ ms, ancestor) ∧
        cache.lookup ancestor = some base ∧ Descends nodes base ms.reverse path ∧
        (ms = [] ∧ ancestor = id ∨ id ∈ ms) := by
  induction hpath with
  | root =>
      intro fuel missing _
      obtain ⟨base, hbase⟩ := Option.isSome_iff_exists.mp hcache.root
      have hnil : base = [] := (hcache.isPath 0 base hbase).unique .root
      subst hnil
      refine ⟨[], 0, [], ?_, hbase, .nil, .inl ⟨rfl, rfl⟩⟩
      cases fuel <;> simp [missingNodes, hbase]
  | @node i n path hn hp hparent ih =>
      intro fuel missing hfuel
      rw [List.length_append, List.length_singleton] at hfuel
      obtain ⟨fuel, rfl⟩ : ∃ m, fuel = m + 1 := ⟨fuel - 1, by omega⟩
      have hnode : IsPath nodes (i + 1) (path ++ [n.title]) := .node hn hp hparent
      cases hl : cache.lookup (i + 1) with
      | some base =>
          have hbase := (hcache.isPath _ _ hl).unique hnode
          subst hbase
          refine ⟨[], i + 1, _, ?_, hl, .nil, .inl ⟨rfl, rfl⟩⟩
          simp [missingNodes, hl]
      | none =>
          obtain ⟨ms, ancestor, base, hok, hlookup, hdesc, _⟩ :=
            ih fuel (missing ++ [i + 1]) (by omega)
          have hrow : t.titleParents[i]? = some n.parent := by
            rw [ht.parents_eq, List.getElem?_map, hn]
            rfl
          refine ⟨(i + 1) :: ms, ancestor, base, ?_, hlookup, ?_, .inr (by simp)⟩
          · rw [missingNodes]
            simp only [hl, Option.isSome_none, Bool.false_eq_true, if_false, PackedTable.titleParent,
              Nat.succ_ne_zero, Nat.add_sub_cancel, column_eq_ok hrow, bind, Except.bind, hok]
            simp
          · rw [List.reverse_cons]
            exact hdesc.concat hn hnode

theorem cacheNodes_spec {t : PackedTable} {nodes : List TitleNode} (ht : HoldsTitles t nodes)
    {base path : List Str} {ids : List ℕ} (hdesc : Descends nodes base ids path) :
    ∀ {cache : TitleCache}, CacheHolds nodes cache →
      ∃ cache', cacheNodes t ids base cache = .ok cache' ∧ CacheHolds nodes cache' ∧
        (∀ id, (cache.lookup id).isSome ∨ id ∈ ids → (cache'.lookup id).isSome) := by
  induction hdesc with
  | nil =>
      intro cache hcache
      exact ⟨cache, rfl, hcache, fun id h => by simpa using h⟩
  | @cons base path i n ids hn hpath _ ih =>
      intro cache hcache
      obtain ⟨cache', hok, hholds, hkeep⟩ := ih (hcache.cons hpath)
      refine ⟨cache', ?_, hholds, ?_⟩
      · simp only [cacheNodes, ht.decodeTitleNode_eq hn, bind, Except.bind]
        exact hok
      · intro id h
        refine hkeep id ?_
        rw [List.lookup_cons]
        by_cases heq : id = i + 1
        · subst heq
          simp
        · rw [beq_eq_false_iff_ne.mpr heq]
          rcases h with h | h
          · exact .inl h
          · rcases List.mem_cons.mp h with h | h
            · exact absurd h heq
            · exact .inr h

theorem reachableNodes_spec {t : PackedTable} {nodes : List TitleNode} (ht : HoldsTitles t nodes)
    {id : ℕ} {path : List Str} (hpath : IsPath nodes id path) : ∀ fuel, path.length ≤ fuel →
      ∃ ids, reachableNodes t fuel id = .ok ids ∧ (id ≠ 0 → id ∈ ids) := by
  induction hpath with
  | root =>
      intro fuel _
      exact ⟨[], by cases fuel <;> rfl, fun h => absurd rfl h⟩
  | @node i n path hn hp _ ih =>
      intro fuel hfuel
      rw [List.length_append, List.length_singleton] at hfuel
      obtain ⟨fuel, rfl⟩ : ∃ m, fuel = m + 1 := ⟨fuel - 1, by omega⟩
      obtain ⟨ids, hok, _⟩ := ih fuel (by omega)
      have hrow : t.titleParents[i]? = some n.parent := by
        rw [ht.parents_eq, List.getElem?_map, hn]
        rfl
      refine ⟨(i + 1) :: ids, ?_, fun _ => by simp⟩
      simp only [reachableNodes, PackedTable.titleParent, Nat.succ_ne_zero, if_false,
        Nat.add_sub_cancel, column_eq_ok hrow, bind, Except.bind, hok]
      rfl

/-- **The path from the cache** is the path of the node found, and the cache stays sound. -/
theorem compactTitlePathAt_eq {t : PackedTable} {nodes : List TitleNode} (ht : HoldsTitles t nodes)
    {cache : TitleCache} (hcache : CacheHolds nodes cache) {offset id : ℕ} {path : List Str}
    (hid : t.titlePathIdAtOffset offset = .ok id) (hpath : IsPath nodes id path) :
    ∃ cache', compactTitlePathAt t cache offset = .ok (path, cache') ∧ CacheHolds nodes cache' := by
  have hlen : path.length ≤ t.titleParents.length + 1 := by
    rw [ht.parents_eq, List.length_map]
    have h1 := hpath.length_path_le
    have h2 := hpath.le_length
    omega
  obtain ⟨ms, ancestor, base, hmissing, hlookup, hdesc, hmem⟩ :=
    missingNodes_spec ht hcache hpath (t.titleParents.length + 1) [] hlen
  obtain ⟨cache₁, hcached, hholds, hkeep⟩ := cacheNodes_spec ht hdesc hcache
  obtain ⟨reachable, hreach, hself⟩ := reachableNodes_spec ht hpath (t.titleParents.length + 1) hlen
  have hsome : (cache₁.lookup id).isSome := by
    refine hkeep id ?_
    rcases hmem with ⟨_, rfl⟩ | hmem
    · rw [hlookup]
      exact .inl rfl
    · exact .inr (List.mem_reverse.mpr hmem)
  obtain ⟨path', hpath'⟩ := Option.isSome_iff_exists.mp hsome
  have heq := (hholds.isPath id path' hpath').unique hpath
  subst heq
  have hfilter : ∀ k, (cache₁.filter fun entry => entry.1 = 0 || entry.1 ∈ reachable).lookup k =
      if (k = 0 || k ∈ reachable : Bool) then cache₁.lookup k else none := fun k =>
    lookup_filter_key (fun j => j = 0 || j ∈ reachable) cache₁ k
  refine ⟨cache₁.filter fun entry => entry.1 = 0 || entry.1 ∈ reachable, ?_, ?_, ?_⟩
  · have hin : (id = 0 || id ∈ reachable : Bool) = true := by
      by_cases h0 : id = 0
      · simp [h0]
      · simp [h0, hself h0]
    unfold compactTitlePathAt
    simp only [hid, hmissing, List.nil_append, hlookup, Option.getD_some, hcached, hreach, bind,
      Except.bind, hfilter, hin, if_true, hpath']
    rfl
  · rw [hfilter]
    simpa using hholds.root
  · intro k p hk
    rw [hfilter] at hk
    split at hk
    · exact hholds.isPath k p hk
    · cases hk

end VeloxRag.Ingestion
