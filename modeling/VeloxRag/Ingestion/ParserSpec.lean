import VeloxRag.Ingestion.ChunkerSpec
import VeloxRag.Ingestion.MarkdownSpec
import VeloxRag.Ingestion.Parsers

/-!
# What the parsers find

The boundaries of a parsed artifact are in order and inside its text, whichever parser made
it.  The plain text parser packs one boundary for each paragraph and never fails on a normalized
text; the Markdown parser fails only at the limit on structural metadata.

## Main definitions

* `LinesFrom` — lines in order, inside a text.
* `Paragraphs` — the builder after the paragraphs so far.
* `ParsedArtifact.Represented` — the boundaries that the columns of an artifact stand for.
* `artifact_represented` — every artifact of a parser.
-/

namespace VeloxRag.Ingestion

open VeloxRag.Lib BoundaryBuilder

variable {P : Platform} {text : Str}

/-! ## Plain text -/

/-- Lines that start at `last` or later, one after the other and up to `bound`. -/
def LinesFrom (bound : ℕ) : ℕ → List Line → Prop
  | _, [] => True
  | last, line :: lines =>
      last ≤ line.startOffset ∧ line.contentEndOffset ≤ bound ∧
        LinesFrom bound line.contentEndOffset lines

theorem LinesFrom.mono {bound last last' : ℕ} {lines : List Line} (hlast : last' ≤ last)
    (h : LinesFrom bound last lines) : LinesFrom bound last' lines := by
  cases lines with
  | nil => trivial
  | cons line lines => exact ⟨le_trans hlast h.1, h.2⟩

theorem iterLinesFrom_linesFrom (fuel : ℕ) : ∀ start,
    LinesFrom text.length start (iterLinesFrom text fuel start) := by
  induction fuel with
  | zero => intro start; trivial
  | succ fuel ih =>
      intro start
      rw [iterLinesFrom]
      split
      swap
      · trivial
      rename_i hstart
      cases hf : findChar text '\n' start with
      | none =>
          refine ⟨le_refl start, ?_, trivial⟩
          show start + (text.drop start).length ≤ text.length
          rw [List.length_drop]
          omega
      | some newline =>
          obtain ⟨hle, hbreak, _⟩ := findChar_some hf
          have hlt : newline < text.length := (List.getElem?_eq_some_iff.mp hbreak).1
          have hend : start + (slice text start newline).length = newline := by
            rw [length_slice text hlt.le]
            omega
          refine ⟨le_refl start, ?_, ?_⟩
          · show start + (slice text start newline).length ≤ text.length
            rw [hend]
            exact hlt.le
          · show LinesFrom text.length (start + (slice text start newline).length) _
            rw [hend]
            exact (ih (newline + 1)).mono (Nat.le_succ newline)

theorem iterLines_linesFrom (text : Str) : LinesFrom text.length 0 (iterLines text) :=
  iterLinesFrom_linesFrom text.length 0

/-- The builder holds the paragraphs `done`, of a text of `bound` characters. -/
structure Paragraphs (bound : ℕ) (b : BoundaryBuilder) (done : List StructuralBoundary) : Prop where
  built : ∃ blocks rs nodes, b.Built blocks rs nodes done
  ordered : Ordered done
  ends : ∀ x ∈ done, x.endOffset ≤ b.lastEndOffset
  lastEnd_le : b.lastEndOffset ≤ bound
  titlePath : b.lastTitlePath = []
  titleData : b.table.titleData = []

theorem paragraphs_new (bound : ℕ) : Paragraphs bound .new [] where
  built := ⟨[], [], [], built_new⟩
  ordered := trivial
  ends := nofun
  lastEnd_le := Nat.zero_le bound
  titlePath := rfl
  titleData := rfl

namespace Paragraphs

variable {bound : ℕ} {b : BoundaryBuilder} {done : List StructuralBoundary}

theorem length_le (h : Paragraphs bound b done) : done.length ≤ b.lastEndOffset := by
  have := h.ordered.length_le (Nat.zero_le _) h.ends
  omega

/-- One paragraph more. -/
theorem addFields (h : Paragraphs bound b done) (hbound : bound < 2 ^ 32) {start stop : ℕ}
    (hstart : b.lastEndOffset ≤ start) (hlt : start < stop) (hstop : stop ≤ bound) :
    ∃ b' x, b.addFields .paragraph start stop [] none = .ok b' ∧
      Paragraphs bound b' (done ++ [x]) ∧ b'.lastEndOffset = stop := by
  obtain ⟨blocks, rs, nodes, hbuilt⟩ := h.built
  have hvalid : validateFields .paragraph start stop [] none = .ok () :=
    validateFields_eq_ok.mpr ⟨rfl, hlt, rfl⟩
  have hcount := h.length_le
  obtain ⟨b', blocks', rs', nodes', hadd, hbuilt', hend, hpath, hdata⟩ :=
    hbuilt.addFields ⟨.paragraph, start, stop, [], none, hvalid⟩ hstart
      (show start < 2 ^ 32 by omega) (show stop - start < 2 ^ 32 by omega) (by omega)
      (by rw [h.titleData, h.titlePath]; exact Nat.two_pow_pos 32)
  refine ⟨b', ⟨.paragraph, start, stop, [], none, hvalid⟩, hadd, ?_, hend⟩
  refine ⟨⟨blocks', rs', nodes', hbuilt'⟩, ?_, ?_, ?_, hpath, ?_⟩
  · refine OrderedFrom.append.mpr ⟨h.ordered, ?_, trivial⟩
    cases hlast : done.getLast? with
    | none => exact Nat.zero_le start
    | some x => exact le_trans (h.ends x (List.mem_of_getLast? hlast)) hstart
  · intro x hx
    rw [hend]
    rcases List.mem_append.mp hx with hx | hx
    · have := h.ends x hx
      show x.endOffset ≤ stop
      omega
    · rw [List.mem_singleton.mp hx]
  · rw [hend]
    exact hstop
  · rw [h.titleData, h.titlePath] at hdata
    exact List.eq_nil_of_length_eq_zero hdata

end Paragraphs

/-- The part of the loop that an open paragraph has come to. -/
def OpenParagraph (lastEnd : ℕ) (last : ℕ) (paragraphEnd : ℕ) : Option ℕ → Prop
  | none => lastEnd ≤ last
  | some start => lastEnd ≤ start ∧ start < paragraphEnd ∧ paragraphEnd ≤ last

theorem OpenParagraph.mono {lastEnd last last' paragraphEnd : ℕ} {open_ : Option ℕ}
    (hlast : last ≤ last') (h : OpenParagraph lastEnd last paragraphEnd open_) :
    OpenParagraph lastEnd last' paragraphEnd open_ := by
  cases open_ with
  | none => exact le_trans h hlast
  | some start => exact ⟨h.1, h.2.1, le_trans h.2.2 hlast⟩

/-- **The paragraph loop** never fails. -/
theorem plainLoop_spec {bound : ℕ} (hbound : bound < 2 ^ 32) (lines : List Line) :
    ∀ (open_ : Option ℕ) (paragraphEnd last : ℕ) (b : BoundaryBuilder)
      (done : List StructuralBoundary), LinesFrom bound last lines → last ≤ bound →
    Paragraphs bound b done → OpenParagraph b.lastEndOffset last paragraphEnd open_ →
    ∃ b' bs, plainLoop lines open_ paragraphEnd b = .ok b' ∧ Paragraphs bound b' bs := by
  induction lines with
  | nil =>
      intro open_ paragraphEnd last b done _ hlast h hopen
      cases open_ with
      | none => exact ⟨b, done, rfl, h⟩
      | some start =>
          obtain ⟨b', x, hadd, h', _⟩ := h.addFields hbound hopen.1 hopen.2.1
            (le_trans hopen.2.2 hlast)
          exact ⟨b', done ++ [x], hadd, h'⟩
  | cons line lines ih =>
      intro open_ paragraphEnd last b done hlines hlast h hopen
      obtain ⟨hstart, hend, hrest⟩ := hlines
      have hpass : last ≤ line.contentEndOffset := le_trans hstart (Nat.le_add_right _ _)
      unfold plainLoop
      split
      · cases open_ with
        | none => exact ih none paragraphEnd _ b done hrest hend h (hopen.mono hpass)
        | some start =>
            obtain ⟨b', x, hadd, h', hlastEnd⟩ := h.addFields hbound hopen.1 hopen.2.1
              (le_trans hopen.2.2 hlast)
            dsimp only
            rw [hadd]
            refine ih none paragraphEnd _ b' (done ++ [x]) hrest hend h' ?_
            rw [hlastEnd]
            exact le_trans hopen.2.2 hpass
      · rename_i hblank
        -- a line that is not blank has a character
        have hlt : line.startOffset < line.contentEndOffset := by
          rw [Line.contentEndOffset]
          have hne : line.content ≠ [] := by
            intro hnil
            rw [hnil] at hblank
            exact hblank rfl
          have := List.length_pos_of_ne_nil hne
          omega
        refine ih _ _ _ b done hrest hend h ?_
        cases open_ with
        | none => exact ⟨le_trans hopen hstart, hlt, le_refl _⟩
        | some start =>
            exact ⟨hopen.1, lt_of_le_of_lt (le_trans (le_trans hopen.2.1.le hopen.2.2) hstart) hlt,
              le_refl _⟩

/-- **The plain text parser**, on every text whose offsets fit the columns. -/
theorem plainBoundaries_represents (hsize : text.length < 2 ^ 32) :
    ∃ table blocks nodes bs, plainBoundaries text = .ok table ∧
      Represents table blocks nodes bs ∧ Ordered bs ∧ ∀ b ∈ bs, b.endOffset ≤ text.length := by
  obtain ⟨b, bs, hloop, h⟩ := plainLoop_spec hsize (iterLines text) none 0 0 .new []
    (iterLines_linesFrom text) (Nat.zero_le _) (paragraphs_new text.length) (le_refl 0)
  obtain ⟨blocks, rs, nodes, hbuilt⟩ := h.built
  have hlength := h.length_le
  have hlast := h.lastEnd_le
  obtain ⟨table, _, blocks', hfinish, hrep⟩ := hbuilt.finish (by omega)
  refine ⟨table, blocks', nodes, bs, ?_, hrep, h.ordered, fun x hx => ?_⟩
  · rw [plainBoundaries, hloop]
    show (b.finish >>= _) = _
    rw [hfinish]
    rfl
  · exact le_trans (h.ends x hx) hlast

/-! ## Artifacts -/

/-- The columns of the artifact stand for the boundaries `bs`, in order and inside the text. -/
structure ParsedArtifact.Represented (a : ParsedArtifact P) (bs : List StructuralBoundary) :
    Prop where
  represents : ∃ blocks nodes, Represents a.boundaries blocks nodes bs
  ordered : Ordered bs
  inside : ∀ b ∈ bs, b.endOffset ≤ a.text.length

/-- **Every artifact of a parser** stands for boundaries in order and inside its text. -/
theorem artifact_represented {p : Parser} (hp : p ∈ parsers) (t : NormalizedText)
    {a : ParsedArtifact P} (h : p.artifact P t.text = .ok a) : ∃ bs, a.Represented bs := by
  have hsize := t.length_le
  obtain ⟨htext, hboundaries⟩ := artifact_eq_ok h
  rcases List.mem_pair.mp hp with rfl | rfl
  · obtain ⟨table, blocks, nodes, bs, hok, hrep, hordered, hinside⟩ :=
      @plainBoundaries_represents t.text (by simp only [maxDocumentBytes] at hsize; omega)
    rw [Except.ok.inj (hok.symm.trans hboundaries)] at hrep
    exact ⟨bs, ⟨blocks, nodes, hrep⟩, hordered, by rwa [htext]⟩
  · rcases markdownBoundaries_represents t with hlimit |
      ⟨lines, table, blocks, nodes, bs, _, hl, hok, hrep, hcovers⟩
    · have hfailed : markdownBoundaries t.text = .ok a.boundaries := hboundaries
      rw [hlimit] at hfailed
      cases hfailed
    · rw [Except.ok.inj (hok.symm.trans hboundaries)] at hrep
      refine ⟨bs, ⟨blocks, nodes, hrep⟩, hcovers.ordered hl, fun b hb => ?_⟩
      rw [htext]
      exact (hcovers.end_lt hl (le_refl _) b hb).2

theorem artifact_parserName {p : Parser} {text : Str} {a : ParsedArtifact P}
    (h : p.artifact P text = .ok a) : a.parserName = p.name := by
  rw [Parser.artifact] at h
  cases hb : p.boundaries text with
  | error e => rw [hb] at h; cases h
  | ok table =>
      rw [hb] at h
      have h' : ParsedArtifact.ofTable text table p.name p.version Mapping.empty = .ok a := h
      rw [ParsedArtifact.ofTable] at h'
      split at h' <;> cases h'
      rfl

/-- A plain text that is not empty has an artifact. -/
theorem plainText_artifact (P : Platform) (t : NormalizedText) (hne : t.text ≠ []) :
    ∃ a, plainTextParser.artifact P t.text = .ok a := by
  have hsize := t.length_le
  obtain ⟨table, blocks, nodes, bs, hok, hrep, hordered, hinside⟩ :=
    @plainBoundaries_represents t.text (by simp only [maxDocumentBytes] at hsize; omega)
  refine artifact_isOk (p := plainTextParser) hok ?_
  rw [checkArtifact, if_neg]
  · exact hrep.validateForTextLength hordered hinside
  · have hname : plainTextParser.name ≠ [] ∧ plainTextParser.version ≠ [] := by decide
    simp [hne, t.no_nul, t.no_cr, hname]

end VeloxRag.Ingestion
