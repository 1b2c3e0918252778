import VeloxRag.Ingestion.Markdown

/-!
# The stack of open headings

A heading closes the headings of its own level and of deeper ones, and opens itself if it has a
title.  The headings that are open after some headings are therefore those with a title that no
later one closes, and their levels increase.

## Main definitions

* `LevelsIncrease` — a stack whose levels increase, within those a heading has.
* `openHeadings` — the headings that are open after some headings, without a stack.
* `HeadingLines` — the lines of a heading, with its level and title.
* `Titled` — boundaries whose title paths follow the headings among them.
-/

namespace VeloxRag.Ingestion

/-! ## Stacks -/

/-- The levels of a stack increase, from 1 to 6. -/
structure LevelsIncrease (stack : HeadingStack) : Prop where
  sorted : stack.Pairwise fun outer inner => outer.1 < inner.1
  levels : ∀ entry ∈ stack, 1 ≤ entry.1 ∧ entry.1 ≤ 6

/-- Where the levels increase, the headings a new one leaves open are those of smaller levels. -/
theorem rdropWhile_eq_filter {stack : HeadingStack}
    (h : stack.Pairwise fun outer inner => outer.1 < inner.1) (level : ℕ) :
    (stack.rdropWhile fun entry => decide (level ≤ entry.1)) =
      stack.filter fun entry => decide (entry.1 < level) := by
  induction stack using List.reverseRecOn with
  | nil => rfl
  | append_singleton stack entry ih =>
      have hbefore := List.pairwise_append.mp h
      rw [List.filter_append, List.filter_singleton]
      by_cases hle : level ≤ entry.1
      · rw [List.rdropWhile_concat_pos (p := fun entry : ℕ × Str => decide (level ≤ entry.1)) _ _
          (decide_eq_true hle), ih hbefore.1]
        rw [decide_eq_false (Nat.not_lt.mpr hle)]
        exact (List.append_nil _).symm
      · rw [List.rdropWhile_concat_neg (p := fun entry : ℕ × Str => decide (level ≤ entry.1)) _ _
          (by simpa using hle)]
        have hall : ∀ outer ∈ stack, decide (outer.1 < level) = true := by
          intro outer houter
          have := hbefore.2.2 outer houter entry (List.mem_singleton_self entry)
          exact decide_eq_true (by omega)
        rw [List.filter_eq_self.mpr hall, decide_eq_true (Nat.not_le.mp hle)]
        rfl

namespace LevelsIncrease

variable {stack : HeadingStack}

theorem nil : LevelsIncrease [] := ⟨.nil, by simp⟩

theorem applyHeading_eq (h : LevelsIncrease stack) (level : ℕ) (title : Str) :
    applyHeading stack level title =
      (stack.filter fun entry => decide (entry.1 < level)) ++
        if title = [] then [] else [(level, title)] := by
  rw [VeloxRag.Ingestion.applyHeading, rdropWhile_eq_filter h.sorted]
  by_cases ht : title = []
  · rw [if_pos ht, if_pos ht, List.append_nil]
  · rw [if_neg ht, if_neg ht]

/-- **A heading keeps the levels increasing.** -/
theorem applyHeading (h : LevelsIncrease stack) {level : ℕ} (hlevel : 1 ≤ level ∧ level ≤ 6)
    (title : Str) : LevelsIncrease (applyHeading stack level title) := by
  rw [h.applyHeading_eq]
  constructor
  · rw [List.pairwise_append]
    refine ⟨h.sorted.filter _, ?_, ?_⟩
    · split
      · exact .nil
      · exact List.pairwise_singleton _ _
    · intro outer houter inner hinner
      split at hinner
      · cases hinner
      · rw [List.mem_singleton] at hinner
        rw [hinner]
        exact of_decide_eq_true (List.mem_filter.mp houter).2
  · intro entry hentry
    rcases List.mem_append.mp hentry with hentry | hentry
    · exact h.levels entry (List.mem_of_mem_filter hentry)
    · split at hentry
      · cases hentry
      · rw [List.mem_singleton] at hentry
        rw [hentry]
        exact hlevel

/-- A stack is at most six headings deep. -/
theorem length_le (h : LevelsIncrease stack) : stack.length ≤ 6 := by
  have hnodup : (stack.map (·.1)).Nodup := by
    rw [List.Nodup, List.pairwise_map]
    exact h.sorted.imp fun hlt => Nat.ne_of_lt hlt
  have hsub : stack.map (·.1) ⊆ [1, 2, 3, 4, 5, 6] := by
    intro level hlevel
    obtain ⟨entry, hentry, rfl⟩ := List.mem_map.mp hlevel
    have := h.levels entry hentry
    simp only [List.mem_cons, List.not_mem_nil, or_false]
    omega
  have hle := (hnodup.subperm hsub).length_le
  rwa [List.length_map] at hle

end LevelsIncrease

/-! ## Open headings -/

/-- The headings that are open after `headings`: those with a title that no later one closes. -/
def openHeadings : List (ℕ × Str) → HeadingStack
  | [] => []
  | heading :: later =>
      if heading.2 ≠ [] ∧ ∀ next ∈ later, heading.1 < next.1 then heading :: openHeadings later
      else openHeadings later

/-- The stack after some headings. -/
def stackAfter (headings : List (ℕ × Str)) : HeadingStack :=
  headings.foldl (fun stack heading => applyHeading stack heading.1 heading.2) []

/-- One more heading closes the open ones of its own level and of deeper ones. -/
theorem openHeadings_append (headings : List (ℕ × Str)) (level : ℕ) (title : Str) :
    openHeadings (headings ++ [(level, title)]) =
      ((openHeadings headings).filter fun entry => decide (entry.1 < level)) ++
        if title = [] then [] else [(level, title)] := by
  induction headings with
  | nil =>
      have hnil : openHeadings [] = [] := rfl
      rw [List.nil_append, hnil, openHeadings, hnil, List.filter_nil, List.nil_append]
      by_cases ht : title = []
      · rw [if_neg (by simp [ht]), if_pos ht]
      · rw [if_pos ⟨ht, by simp⟩, if_neg ht]
  | cons heading headings ih =>
      rw [List.cons_append, openHeadings, openHeadings, ih]
      by_cases hopen : heading.2 ≠ [] ∧ ∀ next ∈ headings, heading.1 < next.1
      · rw [if_pos hopen, List.filter_cons]
        by_cases hlt : heading.1 < level
        · rw [if_pos, decide_eq_true hlt, if_pos rfl, List.cons_append]
          refine ⟨hopen.1, ?_⟩
          intro next hnext
          rcases List.mem_append.mp hnext with hnext | hnext
          · exact hopen.2 next hnext
          · rw [List.mem_singleton.mp hnext]
            exact hlt
        · rw [if_neg, decide_eq_false hlt, if_neg Bool.false_ne_true]
          intro hall
          exact hlt (hall.2 (level, title) (by simp))
      · rw [if_neg hopen, if_neg]
        intro hall
        exact hopen ⟨hall.1, fun next hnext => hall.2 next (List.mem_append_left _ hnext)⟩

/-- The levels of headings. -/
def LevelsFit (headings : List (ℕ × Str)) : Prop := ∀ h ∈ headings, 1 ≤ h.1 ∧ h.1 ≤ 6

/-- **The stack is the open headings**, and its levels increase. -/
theorem stackAfter_eq {headings : List (ℕ × Str)} (h : LevelsFit headings) :
    stackAfter headings = openHeadings headings ∧ LevelsIncrease (stackAfter headings) := by
  induction headings using List.reverseRecOn with
  | nil => exact ⟨rfl, .nil⟩
  | append_singleton headings heading ih =>
      obtain ⟨heq, hincreasing⟩ := ih fun x hx => h x (List.mem_append_left _ hx)
      have hstep : stackAfter (headings ++ [heading]) =
          applyHeading (stackAfter headings) heading.1 heading.2 := by
        rw [stackAfter, List.foldl_append]
        rfl
      constructor
      · rw [hstep, hincreasing.applyHeading_eq, openHeadings_append, heq]
      · rw [hstep]
        exact hincreasing.applyHeading (h heading (by simp)) heading.2

/-! ## Headings in a document -/

variable (lines : LineIndex)

/-- The lines from `m` to `k` are a heading of level `level` with title `title`, when the lines are
read from a column on: one line with marks, or lines with an underline. -/
def HeadingLines (m k level : ℕ) (title : Str) : Prop :=
  ∃ contentIndent,
    (m = k ∧ ∃ relative, removeIndent (lines.get m).content contentIndent = some relative ∧
      heading relative = some (level, title)) ∨
    (m < k ∧ setextTitle lines m k contentIndent = .ok title ∧ ∃ underline,
      removeIndent (lines.get k).content contentIndent = some underline ∧
      setextHeadingLevel underline = some level)

/-- A boundary that is a heading with a level and a title, or no heading at all. -/
def HeadingMark (b : StructuralBoundary) : Option (ℕ × Str) → Prop
  | none => b.kind ≠ .heading
  | some (level, title) =>
      b.kind = .heading ∧ b.headingLevel = some level ∧ (1 ≤ level ∧ level ≤ 6) ∧
        ∃ m k, b.startOffset = lines.start m ∧ b.endOffset = lines.stop k ∧
          HeadingLines lines m k level title

/-- The stack of headings changes from `headings` to `headings'` along the boundaries `bs`, of which
`marks` tells the headings; every boundary has the titles of the stack at it. -/
inductive Titled : HeadingStack → List StructuralBoundary → List (Option (ℕ × Str)) →
    HeadingStack → Prop
  | nil (headings : HeadingStack) : Titled headings [] [] headings
  | plain {headings headings' : HeadingStack} {b : StructuralBoundary}
      {bs : List StructuralBoundary} {marks : List (Option (ℕ × Str))}
      (hmark : HeadingMark lines b none) (hpath : b.titlePath = titlePathOf headings)
      (hrest : Titled headings bs marks headings') :
      Titled headings (b :: bs) (none :: marks) headings'
  | heading {headings headings' : HeadingStack} {b : StructuralBoundary}
      {bs : List StructuralBoundary} {marks : List (Option (ℕ × Str))} {level : ℕ} {title : Str}
      (hmark : HeadingMark lines b (some (level, title)))
      (hpath : b.titlePath = titlePathOf (applyHeading headings level title))
      (hrest : Titled (applyHeading headings level title) bs marks headings') :
      Titled headings (b :: bs) (some (level, title) :: marks) headings'

/-- The headings among the first boundaries. -/
def headingsUpTo (marks : List (Option (ℕ × Str))) (i : ℕ) : List (ℕ × Str) :=
  (marks.take i).reduceOption

theorem LevelsFit.upTo {marks : List (Option (ℕ × Str))} (h : LevelsFit marks.reduceOption) (i : ℕ) :
    LevelsFit (headingsUpTo marks i) := by
  intro x hx
  apply h
  rw [headingsUpTo, List.reduceOption_mem_iff] at hx
  exact List.reduceOption_mem_iff.mpr (List.mem_of_mem_take hx)

namespace Titled

variable {lines} {headings headings' headings'' : HeadingStack} {bs cs : List StructuralBoundary}
  {marks marks' : List (Option (ℕ × Str))}

theorem append (h : Titled lines headings bs marks headings')
    (h' : Titled lines headings' cs marks' headings'') :
    Titled lines headings (bs ++ cs) (marks ++ marks') headings'' := by
  induction h with
  | nil headings => exact h'
  | plain hmark hpath _ ih => exact .plain hmark hpath (ih h')
  | heading hmark hpath _ ih => exact .heading hmark hpath (ih h')

theorem length_eq (h : Titled lines headings bs marks headings') : marks.length = bs.length := by
  induction h with
  | nil headings => rfl
  | plain _ _ _ ih => rw [List.length_cons, List.length_cons, ih]
  | heading _ _ _ ih => rw [List.length_cons, List.length_cons, ih]

/-- Every mark is that of its boundary, and the title path of a boundary is the stack after the
headings up to it. -/
theorem path_eq (h : Titled lines headings bs marks headings') : ∀ {before : List (ℕ × Str)},
    headings = stackAfter before → ∀ i b, bs[i]? = some b →
      ∃ mark, marks[i]? = some mark ∧ HeadingMark lines b mark ∧
        b.titlePath = titlePathOf (stackAfter (before ++ headingsUpTo marks (i + 1))) := by
  induction h with
  | nil headings =>
      intro before _ i b hb
      cases hb
  | @plain headings headings' c bs marks hmark hpath _ ih =>
      intro before hbefore i b hb
      cases i with
      | zero =>
          cases hb
          refine ⟨none, rfl, hmark, ?_⟩
          rw [hpath, hbefore, headingsUpTo, List.take_succ_cons, List.take_zero,
            List.reduceOption_cons_of_none, List.reduceOption_nil, List.append_nil]
      | succ i =>
          obtain ⟨mark, hget, hmark', hpath'⟩ := ih hbefore i b hb
          refine ⟨mark, hget, hmark', ?_⟩
          rw [hpath', headingsUpTo, headingsUpTo, List.take_succ_cons,
            List.reduceOption_cons_of_none]
  | @heading headings headings' c bs marks level title hmark hpath _ ih =>
      intro before hbefore i b hb
      have hstack : applyHeading headings level title = stackAfter (before ++ [(level, title)]) := by
        rw [hbefore, stackAfter, stackAfter, List.foldl_append]
        rfl
      cases i with
      | zero =>
          cases hb
          refine ⟨some (level, title), rfl, hmark, ?_⟩
          rw [hpath, hstack, headingsUpTo, List.take_succ_cons, List.take_zero,
            List.reduceOption_cons_of_some, List.reduceOption_nil]
      | succ i =>
          obtain ⟨mark, hget, hmark', hpath'⟩ := ih hstack i b hb
          refine ⟨mark, hget, hmark', ?_⟩
          rw [hpath', headingsUpTo, headingsUpTo, List.take_succ_cons,
            List.reduceOption_cons_of_some, List.append_assoc]
          rfl

/-- The levels of the headings are those that headings have. -/
theorem levelsFit (h : Titled lines headings bs marks headings') : LevelsFit marks.reduceOption := by
  induction h with
  | nil headings =>
      intro x hx
      cases hx
  | plain _ _ _ ih =>
      rw [List.reduceOption_cons_of_none]
      exact ih
  | heading hmark _ _ ih =>
      rw [List.reduceOption_cons_of_some]
      intro x hx
      rcases List.mem_cons.mp hx with rfl | hx
      · exact hmark.2.2.1
      · exact ih x hx

end Titled

end VeloxRag.Ingestion
