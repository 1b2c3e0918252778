import VeloxRag.Platform
import VeloxRag.Ingestion.BoundaryCollect

/-!
# The parsed artifact

What a parser hands to the chunker: normalized text and its packed boundaries, which the
constructor checks against the length of the text.  A sequence of boundaries that is in
order and inside the text packs into columns that pass this check.

## Main definitions

* `ParsedArtifact`, `ParsedArtifact.make` — the artifact and its constructor.
* `ParsedArtifact.Holds` — the boundaries an artifact was made from.
* `ParsedArtifact.make_holds` — every valid sequence makes an artifact.
-/

namespace VeloxRag.Ingestion

open VeloxRag.Lib

variable {P : Platform}

/-! ## The artifact -/

/-- The checks of `ParsedArtifact.__post_init__`. -/
def checkArtifact (text : Str) (boundaries : PackedTable) (parserName parserVersion : Str) :
    Except ParserError Unit :=
  if text = [] ∨ '\x00' ∈ text ∨ '\r' ∈ text ∨ parserName = [] ∨ parserVersion = [] then
    .error .artifactInvalid
  else boundaries.validateForTextLength text.length

structure ParsedArtifact (P : Platform) where
  text : Str
  boundaries : PackedTable
  parserName : Str
  parserVersion : Str
  parserConfig : Mapping P
  valid : checkArtifact text boundaries parserName parserVersion = .ok ()

/-- A dictionary with its own keys sorted. -/
def sortedConfig (config : Mapping P) : Mapping P where
  members := Json.sortKeys config.members
  unique := by
    have h := config.unique
    rw [Json.uniqueKeys_obj] at h ⊢
    constructor
    · rw [((Json.sortKeys_perm _).map (·.1)).nodup_iff]
      exact h.1
    · intro m hm
      exact h.2 m ((Json.sortKeys_perm _).mem_iff.mp hm)

/-- The constructor, from a tuple of boundaries. -/
def ParsedArtifact.make (text : Str) (boundaries : List StructuralBoundary)
    (parserName parserVersion : Str) (parserConfig : Mapping P) :
    Except ParserError (ParsedArtifact P) :=
  match PackedTable.fromSequence boundaries with
  | .error _ => .error .artifactInvalid
  | .ok table =>
      match h : checkArtifact text table parserName parserVersion with
      | .error e => .error e
      | .ok () => .ok ⟨text, table, parserName, parserVersion, sortedConfig parserConfig, h⟩

namespace ParsedArtifact

/-- The artifact was made from the boundaries `bs`, which are in order and inside the text. -/
structure Holds (a : ParsedArtifact P) (bs : List StructuralBoundary) : Prop where
  ordered : Ordered bs
  packable : Packable bs
  inside : ∀ b ∈ bs, b.endOffset ≤ a.text.length
  packed : PackedTable.fromSequence bs = .ok a.boundaries

theorem valid_fields (a : ParsedArtifact P) : a.text ≠ [] ∧ '\x00' ∉ a.text ∧ '\r' ∉ a.text ∧
    a.parserName ≠ [] ∧ a.parserVersion ≠ [] := by
  have h := a.valid
  rw [checkArtifact] at h
  split at h
  · cases h
  · rename_i hf
    simp only [not_or] at hf
    exact hf

end ParsedArtifact

/-! ## The check of the packed columns -/

theorem checkTemplate_append (xs ys : List BoundaryRecord) : ∀ last,
    PackedTable.checkTemplate last (xs ++ ys) =
      (PackedTable.checkTemplate last xs).bind fun e => PackedTable.checkTemplate e ys := by
  induction xs with
  | nil => intro last; rfl
  | cons x xs ih =>
      intro last
      rw [List.cons_append, PackedTable.checkTemplate, PackedTable.checkTemplate]
      split
      · rfl
      · exact ih _

theorem checkTemplate_shift (d : ℕ) (xs : List BoundaryRecord) : ∀ last,
    PackedTable.checkTemplate (last + d) (xs.map (BoundaryRecord.shift d)) =
      (PackedTable.checkTemplate last xs).map (· + d) := by
  induction xs with
  | nil => intro last; rfl
  | cons x xs ih =>
      intro last
      rw [List.map_cons, PackedTable.checkTemplate, PackedTable.checkTemplate]
      simp only [BoundaryRecord.shift_startOffset, BoundaryRecord.shift_boundaryLength,
        Nat.add_lt_add_iff_right]
      split
      · rfl
      · rw [show x.startOffset + d + x.boundaryLength = x.startOffset + x.boundaryLength + d by omega]
        exact ih _

/-- The check of a list that is not empty starts anywhere up to its first record. -/
theorem checkTemplate_from {x : BoundaryRecord} {xs : List BoundaryRecord} {last last' e : ℕ}
    (h : PackedTable.checkTemplate last (x :: xs) = some e) (hlast : last' ≤ x.startOffset) :
    last ≤ x.startOffset ∧ PackedTable.checkTemplate last' (x :: xs) = some e := by
  rw [PackedTable.checkTemplate] at h ⊢
  split at h
  · cases h
  · rename_i hx
    simp only [not_or, Nat.not_lt] at hx
    rw [if_neg (by simp only [not_or, Nat.not_lt]; exact ⟨hx.1, hlast⟩)]
    exact ⟨hx.2, h⟩

/-- Records that encode ordered boundaries pass, up to the last end. -/
theorem checkTemplate_encodes {nodes : List TitleNode} {rs : List BoundaryRecord}
    {bs : List StructuralBoundary} (h : List.Forall₂ (Encodes nodes) rs bs) :
    ∀ {last bound : ℕ}, OrderedFrom last bs → last ≤ bound → (∀ b ∈ bs, b.endOffset ≤ bound) →
    ∃ e, PackedTable.checkTemplate last rs = some e ∧ e ≤ bound := by
  induction h with
  | nil =>
      intro last bound _ hlast _
      exact ⟨last, rfl, hlast⟩
  | @cons r b rs bs henc _ ih =>
      intro last bound hord hlast hbound
      have hlt := b.start_lt_end
      have hend : r.startOffset + r.boundaryLength = b.endOffset := by
        rw [henc.start_eq, henc.length_eq]
        omega
      rw [PackedTable.checkTemplate, if_neg, hend]
      · exact ih hord.2 (hbound b (by simp)) fun x hx => hbound x (by simp [hx])
      · have := hord.1
        rw [henc.start_eq, henc.length_eq]
        omega

/-- What the check of one segment asks of its block. -/
theorem checkTemplate_block {b : Block} (hb : b.WellFormed) {first : BoundaryRecord}
    {rest : List BoundaryRecord} (htemplate : b.template = first :: rest) {last e : ℕ}
    (h : PackedTable.checkTemplate last b.records = some e) :
    ∃ c, PackedTable.checkTemplate first.startOffset b.template = some c ∧
      last ≤ first.startOffset ∧ (1 < b.repeatCount → c - first.startOffset ≤ b.stride) ∧
      e = c + b.stride * (b.repeatCount - 1) := by
  obtain ⟨m, hm⟩ : ∃ m, b.repeatCount = m + 1 := ⟨b.repeatCount - 1, by have := hb.repeat_pos; omega⟩
  have hid : b.template.map (BoundaryRecord.shift (0 * b.stride)) = b.template := by
    rw [Nat.zero_mul]
    conv_rhs => rw [← List.map_id b.template]
    rfl
  -- the first copy
  have hleft := h
  rw [Block.records, hm, cycles_succ_left, hid, checkTemplate_append, Option.bind_eq_some_iff]
    at hleft
  obtain ⟨c, hc, hrest⟩ := hleft
  have hfirst := hc
  rw [htemplate] at hfirst
  obtain ⟨hlast, hfirst⟩ := checkTemplate_from hfirst (le_refl first.startOffset)
  rw [← htemplate] at hfirst
  refine ⟨c, hfirst, hlast, ?_, ?_⟩
  · -- the second copy starts after the first one ends
    intro hrep
    obtain ⟨k, rfl⟩ : ∃ k, m = k + 1 := ⟨m - 1, by omega⟩
    rw [cycles_succ_left, checkTemplate_append, Option.bind_eq_some_iff] at hrest
    obtain ⟨c', hc', _⟩ := hrest
    rw [htemplate, List.map_cons] at hc'
    have hle := (checkTemplate_from hc' (le_refl _)).1
    simp only [BoundaryRecord.shift_startOffset] at hle
    rw [Nat.zero_add, Nat.one_mul] at hle
    omega
  · -- the last copy ends where the first does, moved by its stride
    rw [Block.records, hm, cycles_succ, checkTemplate_append, Option.bind_eq_some_iff] at h
    obtain ⟨c', _, hend⟩ := h
    have hmoved := checkTemplate_shift ((0 + m) * b.stride) b.template first.startOffset
    rw [hfirst, Option.map_some] at hmoved
    rw [htemplate, List.map_cons] at hend hmoved
    have := (checkTemplate_from hend (show first.startOffset + (0 + m) * b.stride ≤
      (first.shift ((0 + m) * b.stride)).startOffset by simp)).2
    rw [this] at hmoved
    rw [Option.some.inj hmoved, Nat.zero_add, hm, Nat.add_sub_cancel, Nat.mul_comm]

theorem checkTemplate_mono (xs : List BoundaryRecord) : ∀ {last e : ℕ},
    PackedTable.checkTemplate last xs = some e → last ≤ e := by
  induction xs with
  | nil => intro last e h; cases h; exact le_refl _
  | cons x xs ih =>
      intro last e h
      rw [PackedTable.checkTemplate] at h
      split at h
      · cases h
      · have := ih h
        omega

theorem slice_middle {α : Type*} (xs ys zs : List α) :
    slice (xs ++ (ys ++ zs)) xs.length (xs.length + ys.length) = ys := by
  rw [slice, List.drop_left, Nat.add_sub_cancel_left, List.take_left]

/-- **The columns of blocks whose records are in order and inside the text pass the check.** -/
theorem checkSegments_ok {t : PackedTable} {bound : ℕ} (blocks : List Block) :
    ∀ (before : List BoundaryRecord) (total : ℕ) {last e : ℕ}, (∀ b ∈ blocks, b.WellFormed) →
    t.templates = before ++ blocks.flatMap (·.template) →
    PackedTable.checkTemplate last (recordsOf blocks) = some e → e ≤ bound →
    t.checkSegments bound last total before.length (segmentsOf before.length total blocks) =
      .ok (before.length + (blocks.flatMap (·.template)).length) := by
  induction blocks with
  | nil =>
      intro before total last e _ _ _ _
      rfl
  | cons b blocks ih =>
      intro before total last e hwf ht hcheck hbound
      have hb := hwf b (by simp)
      obtain ⟨first, rest, htemplate⟩ := List.exists_cons_of_ne_nil hb.template_ne
      rw [recordsOf, List.flatMap_cons, checkTemplate_append, Option.bind_eq_some_iff] at hcheck
      obtain ⟨e', hblock, hrest⟩ := hcheck
      obtain ⟨c, hc, hlast, hstride, rfl⟩ := checkTemplate_block hb htemplate hblock
      have hle := checkTemplate_mono _ hrest
      rw [List.flatMap_cons] at ht
      have hcolumn : column t.templates before.length = .ok first := by
        refine column_eq_ok ?_
        rw [ht, htemplate]
        simp
      have hrows : slice t.templates before.length (before.length + b.template.length) =
          b.template := by
        rw [ht, slice_middle]
      have hnext := ih (before ++ b.template) (total + b.template.length * b.repeatCount)
        (fun x hx => hwf x (by simp [hx])) (by rw [ht, List.append_assoc]) hrest hbound
      rw [List.length_append] at hnext
      have hhead : (b.template.head?.map (·.startOffset)).getD 0 = first.startOffset := by
        rw [htemplate]
        rfl
      have hcount : b.template.length ≠ 0 := by simp [htemplate]
      have hrepeat : b.repeatCount ≠ 0 := by have := hb.repeat_pos; omega
      rw [segmentsOf, PackedTable.checkSegments]
      simp only [hhead, hcolumn, hrows, hc, hnext, bind, Except.bind, ne_eq,
        not_true_eq_false, hcount, hrepeat, or_self, if_false]
      rw [if_neg (by omega), if_neg (by omega)]
      simp [Nat.add_assoc]

/-- **Valid boundaries pass the check of the artifact.** -/
theorem Represents.validateForTextLength {t : PackedTable} {blocks : List Block}
    {nodes : List TitleNode} {bs : List StructuralBoundary} (h : Represents t blocks nodes bs)
    (horder : Ordered bs) {textLength : ℕ} (hinside : ∀ b ∈ bs, b.endOffset ≤ textLength) :
    t.validateForTextLength textLength = .ok () := by
  obtain ⟨e, he, hle⟩ := checkTemplate_encodes h.encodes horder (Nat.zero_le textLength) hinside
  have hcheck := @checkSegments_ok t textLength blocks [] 0 _ _ h.packs.wellFormed
    (by rw [List.nil_append]; exact h.packs.templates_eq) he hle
  rw [List.length_nil, ← h.packs.segments_eq, ← h.packs.templates_eq, Nat.zero_add] at hcheck
  rw [PackedTable.validateForTextLength, hcheck]
  simp only [bind, Except.bind, ne_eq, not_true_eq_false, if_false]
  rfl

/-- **Every valid sequence makes an artifact.** -/
theorem ParsedArtifact.make_holds {text : Str} {bs : List StructuralBoundary}
    {parserName parserVersion : Str} (htext : text ≠ []) (hnul : '\x00' ∉ text)
    (hcr : '\r' ∉ text) (hname : parserName ≠ []) (hversion : parserVersion ≠ [])
    (horder : Ordered bs) (hpack : Packable bs) (hinside : ∀ b ∈ bs, b.endOffset ≤ text.length)
    (config : Mapping P) :
    ∃ a, ParsedArtifact.make text bs parserName parserVersion config = .ok a ∧ a.text = text ∧
      a.parserName = parserName ∧ a.parserVersion = parserVersion ∧
      a.parserConfig = sortedConfig config ∧ a.Holds bs := by
  obtain ⟨t, blocks, nodes, hok, hrep⟩ := fromSequence_represents horder hpack
  have hvalid : checkArtifact text t parserName parserVersion = .ok () := by
    rw [checkArtifact, if_neg (by simp [htext, hnul, hcr, hname, hversion])]
    exact hrep.validateForTextLength horder hinside
  refine ⟨⟨text, t, parserName, parserVersion, sortedConfig config, hvalid⟩, ?_, rfl, rfl, rfl, rfl,
    horder, hpack, hinside, hok⟩
  rw [ParsedArtifact.make, hok]
  simp only
  split
  · rename_i e he
    rw [hvalid] at he
    cases he
  · rfl

end VeloxRag.Ingestion
