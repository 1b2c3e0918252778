import VeloxRag.Text

/-!
# Structural boundaries

A structural boundary is a half-open span of the normalized text with its kind, the
titles above it and, for a heading, its level.  The constructor checks all of this,
so a boundary is a structure that carries the outcome of the check: a value that
the constructor would reject cannot be written down.

## Main definitions

* `ParserError` — what the parser side raises, with the texts of the source.
* `validateTitlePath`, `validateFields` — the checks of the constructor.
* `StructuralBoundary`, `StructuralBoundary.make` — checked boundaries and the
  constructor that returns one or raises.
* `Ordered` — the order the builder and the parsed artifact insist on.
-/

namespace VeloxRag.Ingestion

/-- What the parser side raises. -/
inductive ParserError
  /-- `ValueError` of a boundary that fails its check, and of a packed field that overflows. -/
  | boundaryInvalid
  /-- `ValueError` of a parsed artifact that fails its check. -/
  | artifactInvalid
  /-- `ValueError` of a builder used after `finish`. -/
  | builderFinalized
  /-- `StructuralMetadataLimitExceeded`. -/
  | structuralMetadataLimitExceeded
  /-- `IndexError` of `StructuralBoundaries.__getitem__`. -/
  | boundaryIndexOutOfRange
  /-- `ValueError` of a slice whose step is zero. -/
  | sliceStepZero
  /-- `AssertionError` of the Markdown scanner. -/
  | scannerAssertion (message : String)
  /-- A packed column read outside its bounds, or packed title bytes that do not decode. -/
  | columnCorrupt
  /-- A walk up the title nodes that does not reach the root. -/
  | titleCycle
  /-- `OverflowError` of an array column. -/
  | columnOverflow
  /-- A loop of the scanner that has not ended within its fuel, which none does. -/
  | loopNotEnded
deriving DecidableEq, Repr

/-- The text of the exception. -/
def ParserError.message : ParserError → String
  | .boundaryInvalid => "parser boundary is invalid"
  | .artifactInvalid => "parsed artifact is invalid"
  | .builderFinalized => "parser boundary builder is already finalized"
  | .structuralMetadataLimitExceeded => "document structural metadata exceeds limit"
  | .boundaryIndexOutOfRange => "parser boundary index is out of range"
  | .sliceStepZero => "slice step cannot be zero"
  | .scannerAssertion m => m
  | .columnCorrupt => "array index out of range"
  | .titleCycle => ""
  | .columnOverflow => "unsigned int is greater than maximum"
  | .loopNotEnded => ""

inductive BoundaryKind
  | heading
  | paragraph
  | listItem
  | fencedCodeBlock
deriving DecidableEq, Repr

/-- `_BOUNDARY_KIND_BY_CODE`. -/
def boundaryKindByCode : List BoundaryKind := [.heading, .paragraph, .listItem, .fencedCodeBlock]

/-- `_BOUNDARY_CODE_BY_KIND`. -/
def boundaryCodeByKind : BoundaryKind → ℕ
  | .heading => 0
  | .paragraph => 1
  | .listItem => 2
  | .fencedCodeBlock => 3

@[simp] theorem boundaryKindByCode_code (k : BoundaryKind) :
    boundaryKindByCode[boundaryCodeByKind k]? = some k := by
  cases k <;> rfl

def maxTitleSegmentUtf8Bytes : ℕ := 1024
def maxTitlePathUtf8Bytes : ℕ := 4096

/-- The loop of `_validate_title_path`, with the bytes counted so far. -/
def validateTitles : ℕ → List Str → Except ParserError Unit
  | _, [] => .ok ()
  | totalBytes, title :: titles =>
      if title = [] ∨ '\x00' ∈ title then .error .boundaryInvalid
      else if maxTitleSegmentUtf8Bytes < (encode title).length then
        .error .structuralMetadataLimitExceeded
      else if maxTitlePathUtf8Bytes < totalBytes + (encode title).length then
        .error .structuralMetadataLimitExceeded
      else validateTitles (totalBytes + (encode title).length) titles

/-- `_validate_title_path`. -/
def validateTitlePath (titlePath : List Str) : Except ParserError Unit := validateTitles 0 titlePath

/-- The levels a kind may have: one to six for a heading, none otherwise. -/
def levelFits : BoundaryKind → Option ℕ → Bool
  | .heading, some level => 1 ≤ level && level ≤ 6
  | .heading, none => false
  | _, level => level.isNone

/-- The check shared by `StructuralBoundary.__post_init__` and `_BoundaryBuilder.add_fields`. -/
def validateFields (kind : BoundaryKind) (startOffset endOffset : ℕ) (titlePath : List Str)
    (headingLevel : Option ℕ) : Except ParserError Unit := do
  validateTitlePath titlePath
  if endOffset ≤ startOffset ∨ levelFits kind headingLevel = false then
    throw .boundaryInvalid

/-- A half-open code-point span in normalized source text. -/
structure StructuralBoundary where
  kind : BoundaryKind
  startOffset : ℕ
  endOffset : ℕ
  titlePath : List Str
  headingLevel : Option ℕ
  valid : validateFields kind startOffset endOffset titlePath headingLevel = .ok ()
deriving DecidableEq

/-- The constructor: the boundary, or what its check raises. -/
def StructuralBoundary.make (kind : BoundaryKind) (startOffset endOffset : ℕ)
    (titlePath : List Str) (headingLevel : Option ℕ) : Except ParserError StructuralBoundary :=
  match h : validateFields kind startOffset endOffset titlePath headingLevel with
  | .ok () => .ok ⟨kind, startOffset, endOffset, titlePath, headingLevel, h⟩
  | .error e => .error e

theorem validateFields_eq_ok {kind : BoundaryKind} {startOffset endOffset : ℕ}
    {titlePath : List Str} {headingLevel : Option ℕ} :
    validateFields kind startOffset endOffset titlePath headingLevel = .ok () ↔
      validateTitlePath titlePath = .ok () ∧ startOffset < endOffset ∧
        levelFits kind headingLevel = true := by
  unfold validateFields
  cases h : validateTitlePath titlePath with
  | error e => simp [bind, Except.bind]
  | ok u =>
      by_cases hc : endOffset ≤ startOffset ∨ levelFits kind headingLevel = false
      · simp only [bind, Except.bind, hc, if_true]
        rcases hc with hc | hc
        · simp [throw, throwThe, MonadExceptOf.throw, show ¬ startOffset < endOffset by omega]
        · simp [throw, throwThe, MonadExceptOf.throw, hc]
      · simp only [bind, Except.bind, hc, if_false]
        rw [not_or] at hc
        simp [pure, Except.pure, show startOffset < endOffset by omega,
          Bool.eq_false_iff.not_left.mp hc.2]

/-- Building a boundary again from its own fields gives the boundary. -/
theorem StructuralBoundary.make_self (b : StructuralBoundary) :
    StructuralBoundary.make b.kind b.startOffset b.endOffset b.titlePath b.headingLevel = .ok b := by
  unfold StructuralBoundary.make
  split
  · rfl
  · rename_i e h
    rw [b.valid] at h
    cases h

theorem StructuralBoundary.start_lt_end (b : StructuralBoundary) : b.startOffset < b.endOffset :=
  (validateFields_eq_ok.mp b.valid).2.1

theorem StructuralBoundary.titlePath_valid (b : StructuralBoundary) :
    validateTitlePath b.titlePath = .ok () :=
  (validateFields_eq_ok.mp b.valid).1

theorem StructuralBoundary.levelFits (b : StructuralBoundary) :
    levelFits b.kind b.headingLevel = true :=
  (validateFields_eq_ok.mp b.valid).2.2

/-- The level column stores `heading_level or 0` and is read back as `level or None`. -/
def levelCode (level : Option ℕ) : ℕ := level.getD 0

def levelOfCode (code : ℕ) : Option ℕ := if code = 0 then none else some code

theorem levelOfCode_levelCode {kind : BoundaryKind} {level : Option ℕ}
    (h : levelFits kind level = true) : levelOfCode (levelCode level) = level := by
  cases level with
  | none => rfl
  | some l =>
      cases kind with
      | heading =>
          have hl : l ≠ 0 := by
            simp only [levelFits, Bool.and_eq_true, decide_eq_true_eq] at h
            omega
          simp [levelCode, levelOfCode, hl]
      | paragraph => simp [levelFits] at h
      | listItem => simp [levelFits] at h
      | fencedCodeBlock => simp [levelFits] at h

/-- Ordered and pairwise disjoint, from a given end on: the order `add_fields` insists on. -/
def OrderedFrom : ℕ → List StructuralBoundary → Prop
  | _, [] => True
  | last, b :: bs => last ≤ b.startOffset ∧ OrderedFrom b.endOffset bs

instance decidableOrderedFrom : (last : ℕ) → (bs : List StructuralBoundary) →
    Decidable (OrderedFrom last bs)
  | _, [] => isTrue trivial
  | last, b :: bs =>
      @instDecidableAnd _ _ (Nat.decLe last b.startOffset) (decidableOrderedFrom b.endOffset bs)

/-- A valid sequence of boundaries: ordered and pairwise disjoint. -/
def Ordered (bs : List StructuralBoundary) : Prop := OrderedFrom 0 bs

instance (bs : List StructuralBoundary) : Decidable (Ordered bs) := decidableOrderedFrom 0 bs

theorem OrderedFrom.mono {a b : ℕ} {bs : List StructuralBoundary} (hab : a ≤ b)
    (h : OrderedFrom b bs) : OrderedFrom a bs := by
  cases bs with
  | nil => trivial
  | cons x xs => exact ⟨le_trans hab h.1, h.2⟩

theorem OrderedFrom.append {a : ℕ} {xs ys : List StructuralBoundary} :
    OrderedFrom a (xs ++ ys) ↔
      OrderedFrom a xs ∧ OrderedFrom ((xs.getLast?.map (·.endOffset)).getD a) ys := by
  induction xs generalizing a with
  | nil => simp [OrderedFrom]
  | cons x xs ih =>
      rw [List.cons_append, OrderedFrom, OrderedFrom, ih, and_assoc]
      cases xs with
      | nil => simp
      | cons y ys' =>
          cases hl : (y :: ys').getLast? with
          | none => simp at hl
          | some z => simp [List.getLast?_cons_cons, hl]

/-- In an ordered sequence every boundary starts at or after the given end. -/
theorem OrderedFrom.le_start {a : ℕ} {bs : List StructuralBoundary} (h : OrderedFrom a bs)
    {b : StructuralBoundary} (hb : b ∈ bs) : a ≤ b.startOffset := by
  induction bs generalizing a with
  | nil => simp at hb
  | cons x xs ih =>
      rcases List.mem_cons.mp hb with rfl | hmem
      · exact h.1
      · have := ih h.2 hmem
        have := x.start_lt_end
        have := h.1
        omega

/-- Ordered sequences are pairwise disjoint from left to right. -/
theorem OrderedFrom.pairwise {a : ℕ} {bs : List StructuralBoundary} (h : OrderedFrom a bs) :
    bs.Pairwise (fun x y => x.endOffset ≤ y.startOffset) := by
  induction bs generalizing a with
  | nil => exact List.Pairwise.nil
  | cons x xs ih =>
      exact List.pairwise_cons.mpr ⟨fun y hy => h.2.le_start hy, ih h.2⟩

end VeloxRag.Ingestion
