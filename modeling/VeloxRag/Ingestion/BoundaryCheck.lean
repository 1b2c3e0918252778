import VeloxRag.Ingestion.Artifact
import VeloxRag.Ingestion.BoundaryBuilt

/-!
# The check of packed boundaries against a text

`_validate_for_text_length` looks at one cycle of each segment and computes where the last cycle
ends, without decoding a boundary.  On a table that a builder has made, it decides what a check of
every decoded boundary would decide, for runs of any period that end anywhere.

## Main definitions

* `FitsText` — what the check of every decoded boundary would ask.
* `validateForTextLength_iff` — the packed check decides it.
-/

namespace VeloxRag.Ingestion

open VeloxRag.Lib

/-- Boundaries of positive length, in order and inside a text of length `textLength`. -/
structure FitsText (textLength : ℕ) (bs : List StructuralBoundary) : Prop where
  positive : ∀ b ∈ bs, b.startOffset < b.endOffset
  ordered : Ordered bs
  inside : ∀ b ∈ bs, b.endOffset ≤ textLength

/-- Every record that passes ends up to where the check ends. -/
theorem checkTemplate_end_le (xs : List BoundaryRecord) : ∀ {last e : ℕ},
    PackedTable.checkTemplate last xs = some e → ∀ r ∈ xs, r.startOffset + r.boundaryLength ≤ e := by
  induction xs with
  | nil => intro last e _ r hr; cases hr
  | cons x xs ih =>
      intro last e h r hr
      rw [PackedTable.checkTemplate] at h
      split at h
      · cases h
      · rcases List.mem_cons.mp hr with rfl | hr
        · exact checkTemplate_mono xs h
        · exact ih h r hr

/-- **The check of the segments** bounds where the records end. -/
theorem checkSegments_end_le {t : PackedTable} {bound : ℕ} (blocks : List Block) :
    ∀ (before : List BoundaryRecord) (total : ℕ) {last e seen : ℕ}, (∀ b ∈ blocks, b.WellFormed) →
    t.templates = before ++ blocks.flatMap (·.template) →
    PackedTable.checkTemplate last (recordsOf blocks) = some e → last ≤ bound →
    t.checkSegments bound last total before.length (segmentsOf before.length total blocks) =
      .ok seen → e ≤ bound := by
  induction blocks with
  | nil =>
      intro before total last e seen _ _ hcheck hlast _
      cases hcheck
      exact hlast
  | cons b blocks ih =>
      intro before total last e seen hwf ht hcheck hlast hok
      have hb := hwf b (by simp)
      obtain ⟨first, rest, htemplate⟩ := List.exists_cons_of_ne_nil hb.template_ne
      rw [recordsOf, List.flatMap_cons, checkTemplate_append, Option.bind_eq_some_iff] at hcheck
      obtain ⟨e', hblock, hrest⟩ := hcheck
      obtain ⟨c, hc, -, -, rfl⟩ := checkTemplate_block hb htemplate hblock
      rw [List.flatMap_cons] at ht
      have hcolumn : column t.templates before.length = .ok first := by
        refine column_eq_ok ?_
        rw [ht, htemplate]
        simp
      have hrows : slice t.templates before.length (before.length + b.template.length) =
          b.template := by
        rw [ht, slice_middle]
      rw [segmentsOf, PackedTable.checkSegments] at hok
      have hhead : (b.template.head?.map (·.startOffset)).getD 0 = first.startOffset := by
        rw [htemplate]
        rfl
      have hcount : b.template.length ≠ 0 := by simp [htemplate]
      have hrepeat : b.repeatCount ≠ 0 := by have := hb.repeat_pos; omega
      simp only [hhead, hcolumn, hrows, hc, bind, Except.bind, ne_eq, not_true_eq_false, hcount,
        hrepeat, or_self, if_false] at hok
      by_cases hstride : 1 < b.repeatCount ∧ b.stride < c - first.startOffset
      · rw [if_pos hstride] at hok
        cases hok
      rw [if_neg hstride] at hok
      by_cases hend : first.startOffset < last ∨
          bound < c + b.stride * (b.repeatCount - 1)
      · rw [if_pos hend] at hok
        cases hok
      rw [if_neg hend] at hok
      rw [not_or] at hend
      have hbefore : (before ++ b.template).length = before.length + b.template.length :=
        List.length_append
      rw [← hbefore] at hok
      exact ih (before ++ b.template) _ (fun x hx => hwf x (by simp [hx]))
        (by rw [ht, List.append_assoc]) hrest (Nat.not_lt.mp hend.2) hok

/-- Every boundary has a record that encodes it. -/
theorem exists_of_forall₂ {α β : Type} {R : α → β → Prop} {xs : List α} {ys : List β}
    (h : List.Forall₂ R xs ys) {y : β} (hy : y ∈ ys) : ∃ x ∈ xs, R x y := by
  induction h with
  | nil => cases hy
  | @cons a b xs ys hab _ ih =>
      rcases List.mem_cons.mp hy with rfl | hy
      · exact ⟨a, by simp, hab⟩
      · obtain ⟨x, hx, hr⟩ := ih hy
        exact ⟨x, List.mem_cons_of_mem _ hx, hr⟩

/-- **The packed check decides the check of every boundary**, for every table that a builder has
made and every length of a text. -/
theorem validateForTextLength_iff {b b' : BoundaryBuilder} {t : PackedTable} (hmade : Made b)
    (hfinish : b.finish = .ok (t, b')) (textLength : ℕ) :
    ∃ bs, t.iter = .ok bs ∧
      (t.validateForTextLength textLength = .ok () ↔ FitsText textLength bs) := by
  obtain ⟨done, hheld⟩ := hmade.held
  obtain ⟨blocks, nodes, hrep⟩ := hheld.finished hfinish
  refine ⟨done, hrep.iter_eq, ?_⟩
  constructor
  · intro hok
    refine ⟨fun b _ => b.start_lt_end, hheld.ordered, ?_⟩
    -- the records pass the check without a bound on the text, up to some end
    obtain ⟨e, he, -⟩ := checkTemplate_encodes hrep.encodes hheld.ordered
      (Nat.zero_le (done.map (·.endOffset)).sum) fun b hb =>
        List.le_sum_of_mem (List.mem_map_of_mem hb)
    rw [PackedTable.validateForTextLength] at hok
    obtain ⟨seen, hsegments, -⟩ := parser_bind_eq_ok.mp hok
    have hle := @checkSegments_end_le t textLength blocks [] 0 _ _ seen hrep.packs.wellFormed
      (by rw [List.nil_append]; exact hrep.packs.templates_eq) he (Nat.zero_le _)
      (by rw [List.length_nil, ← hrep.packs.segments_eq]; exact hsegments)
    intro b hb
    obtain ⟨r, hr, hencodes⟩ := exists_of_forall₂ hrep.encodes hb
    have hend := checkTemplate_end_le _ he r hr
    have hlt := b.start_lt_end
    rw [hencodes.start_eq, hencodes.length_eq] at hend
    omega
  · intro hfits
    exact hrep.validateForTextLength hfits.ordered hfits.inside

/-- Three list items of two characters, three apart: a segment that repeats. -/
theorem validateForTextLength_iff_listItems :
    ∃ b b' t, Made b ∧ b.finish = .ok (t, b') ∧ t.segments.length = 1 ∧ ∃ bs, t.iter = .ok bs ∧
      (t.validateForTextLength 8 = .ok () ↔ FitsText 8 bs) := by
  have hfirst := @Made.addFields .new _ .listItem 0 2 [] none .new rfl
  have hsecond := @Made.addFields _ _ .listItem 3 5 [] none hfirst rfl
  have hmade := @Made.addFields _ _ .listItem 6 8 [] none hsecond rfl
  exact ⟨_, _, _, hmade, rfl, rfl, validateForTextLength_iff hmade rfl 8⟩

end VeloxRag.Ingestion
