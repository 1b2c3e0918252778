import VeloxRag.Ingestion.Boundary
import VeloxRag.Ingestion.Grapheme

/-!
# Lines of a Markdown document

The Markdown scanner looks at one line at a time: its indentation, and whether it is a
heading, the underline of one, a list item or a fence.  The patterns of the source are
written out here; none of them can match in two ways, so that each is a function.

## Main definitions

* `LineIndex`, `LineIndex.fromText` — the lines of a text.
* `heading`, `setextHeadingLevel`, `listMarker`, `fence`, `closesFence` — what a line is.
* `removeIndent` — the line without the indentation of a list item.
-/

namespace VeloxRag.Ingestion

/-! ## The lines of a text -/

structure Line where
  startOffset : ℕ
  content : Str

def Line.contentEndOffset (line : Line) : ℕ := line.startOffset + line.content.length

/-- The offsets at which the content of a line ends. -/
structure LineIndex where
  text : Str
  contentEndOffsets : List ℕ

/-- The loop of `_LineIndex.from_text`, which passes a character in each turn. -/
def contentEndOffsetsFrom (text : Str) : ℕ → ℕ → List ℕ
  | 0, _ => []
  | fuel + 1, start =>
      if start < text.length then
        match findChar text '\n' start with
        | none => [text.length]
        | some newline => newline :: contentEndOffsetsFrom text fuel (newline + 1)
      else []

namespace LineIndex

/-- `_LineIndex.from_text`; the offsets are kept in 32 bits. -/
def fromText (text : Str) : Except ParserError LineIndex :=
  let offsets := contentEndOffsetsFrom text text.length 0
  if offsets.all fun offset => decide (offset < 2 ^ 32) then .ok ⟨text, offsets⟩
  else .error .columnOverflow

variable (lines : LineIndex)

def len : ℕ := lines.contentEndOffsets.length

/-- Where the content of a line ends. -/
def stop (index : ℕ) : ℕ := lines.contentEndOffsets.getD index 0

/-- Where a line starts. -/
def start (index : ℕ) : ℕ := if index = 0 then 0 else lines.stop (index - 1) + 1

/-- `lines[index]`, for an index inside. -/
def get (index : ℕ) : Line :=
  ⟨lines.start index, slice lines.text (lines.start index) (lines.stop index)⟩

end LineIndex

/-- `not content.strip()`. -/
def isBlankLine (content : Str) : Bool := strip content = []

/-! ## Indentation -/

/-- The width after one more character, with tab stops every four columns. -/
def nextWidth (width : ℕ) (c : Char) : ℕ := if c = '\t' then width + (4 - width % 4) else width + 1

/-- `_indent_width`. -/
def indentWidth (text : Str) : ℕ := text.foldl nextWidth 0

/-- `_leading_indent`. -/
def leadingIndent (line : Str) : ℕ := indentWidth (line.takeWhile isBlankChar)

/-- The loop of `_remove_indent`. -/
def removeIndentFrom (width : ℕ) : ℕ → Str → Option Str
  | _, [] => some []
  | consumed, c :: rest =>
      if consumed < width then
        if isBlankChar c then removeIndentFrom width (nextWidth consumed c) rest else none
      else some (c :: rest)

/-- `_remove_indent`. -/
def removeIndent (line : Str) (width : ℕ) : Option Str :=
  if leadingIndent line < width then none else removeIndentFrom width 0 line

/-- What follows at most three spaces. -/
def afterSpaces (line : Str) : Option Str :=
  let rest := line.dropWhile (· = ' ')
  if line.length - rest.length ≤ 3 then some rest else none

/-! ## List items -/

structure ListMarker where
  indent : ℕ
  contentIndent : ℕ

/-- The length of `[-+*]|[0-9]{1,9}[.)]` at the front of a text. -/
def markerLength (s : Str) : Option ℕ :=
  match s with
  | [] => none
  | c :: _ =>
      if c ∈ ['-', '+', '*'] then some 1
      else
        let afterDigits := s.dropWhile Lib.isDigit
        let digits := s.length - afterDigits.length
        if 1 ≤ digits ∧ digits ≤ 9 ∧ (afterDigits.head? = some '.' ∨ afterDigits.head? = some ')') then
          some (digits + 1)
        else none

/-- `_list_marker`. -/
def listMarker (line : Str) : Option ListMarker :=
  let indent := line.takeWhile isBlankChar
  let rest := line.dropWhile isBlankChar
  match markerLength rest with
  | none => none
  | some n =>
      let spacing := (rest.drop n).takeWhile isBlankChar
      if spacing = [] then none
      else some ⟨indentWidth indent, indentWidth (line.take (indent.length + n + spacing.length))⟩

/-- `_top_level_list_marker`. -/
def topLevelListMarker (line : Str) : Option ListMarker :=
  (listMarker line).filter fun marker => decide (marker.indent ≤ 3)

/-! ## Headings -/

/-- `str.rstrip()`. -/
def rstrip (s : Str) : Str := rstripWhere isSpace s

/-- Remove the closing marks of a heading: the last `[ \t]+#+[ \t]*` at the end of the title. -/
def removeClosing (title : Str) : Str :=
  let beforeBlanks := title.reverse.dropWhile isBlankChar
  let beforeMarks := beforeBlanks.dropWhile (· = '#')
  if beforeMarks.length < beforeBlanks.length ∧ beforeMarks.head?.any isBlankChar = true then
    (beforeMarks.dropWhile isBlankChar).reverse
  else title

/-- `_heading`: the level and the title of a heading with marks in front. -/
def heading (line : Str) : Option (ℕ × Str) :=
  match afterSpaces line with
  | none => none
  | some rest =>
      let afterMarker := rest.dropWhile (· = '#')
      let level := rest.length - afterMarker.length
      if level = 0 ∨ 6 < level ∨ afterMarker.head?.any (fun c => !isBlankChar c) = true then none
      else some (level, rstrip (removeClosing (strip (afterMarker.dropWhile isBlankChar))))

/-- `_setext_heading_level`. -/
def setextHeadingLevel (line : Str) : Option ℕ :=
  match afterSpaces line with
  | none => none
  | some rest =>
      let underlines (mark : Char) : Bool :=
        decide (rest.head? = some mark) && (rest.dropWhile (· = mark)).all isBlankChar
      if underlines '=' then some 1 else if underlines '-' then some 2 else none

/-! ## Fences -/

/-- `_fence`: the character and the length of an opening fence. -/
def fence (line : Str) : Option (Char × ℕ) :=
  match afterSpaces line with
  | none | some [] => none
  | some (c :: rest) =>
      let info := rest.dropWhile (· = c)
      let length := rest.length + 1 - info.length
      if (c = '\x60' ∨ c = '~') ∧ 3 ≤ length ∧ ¬ (c = '\x60' ∧ '\x60' ∈ info) then some (c, length)
      else none

/-- `_closes_fence`. -/
def closesFence (line : Str) (character : Char) (minimumLength : ℕ) : Bool :=
  let stripped := line.dropWhile (· = ' ')
  if 3 < line.length - stripped.length then false
  else
    let marker := rstripWhere isBlankChar stripped
    decide (minimumLength ≤ marker.length) && decide (marker ≠ []) && marker.all (· = character)

/-! ## Lines that are not blank

A line that is a heading, an underline, a list item or a fence has a mark in it, and a mark
is not a space. -/

theorem isBlankLine_eq_false {content : Str} {c : Char} (hc : c ∈ content) (hs : isSpace c = false) :
    isBlankLine content = false := by
  rw [isBlankLine, decide_eq_false_iff_not, strip, stripWhere_eq_nil]
  intro h
  rw [h c hc] at hs
  cases hs

theorem isBlankLine_mono {s t : Str} (hsub : ∀ c ∈ s, c ∈ t) (hs : isBlankLine s = false) :
    isBlankLine t = false := by
  rw [isBlankLine, decide_eq_false_iff_not, strip, stripWhere_eq_nil] at hs ⊢
  exact fun h => hs fun c hc => h c (hsub c hc)

theorem afterSpaces_suffix {line rest : Str} (h : afterSpaces line = some rest) : rest <:+ line := by
  simp only [afterSpaces] at h
  split at h
  · cases h
    exact List.dropWhile_suffix _
  · cases h

/-- A text with fewer characters after its leading marks has a mark. -/
theorem mem_of_dropWhile_lt {p : Char → Bool} {s : Str} (h : (s.dropWhile p).length < s.length) :
    ∃ c ∈ s, p c = true := by
  cases s with
  | nil => simp at h
  | cons c s =>
      by_cases hc : p c = true
      · exact ⟨c, by simp, hc⟩
      · rw [List.dropWhile_cons_of_neg (by simpa using hc)] at h
        exact absurd h (lt_irrefl _)

theorem fence_not_blank {line : Str} {found : Char × ℕ} (h : fence line = some found) :
    isBlankLine line = false := by
  unfold fence at h
  split at h
  · cases h
  · cases h
  · rename_i c rest hrest
    dsimp only at h
    split at h
    · rename_i hc
      refine isBlankLine_eq_false ((afterSpaces_suffix hrest).subset (List.mem_cons_self ..)) ?_
      rcases hc.1 with rfl | rfl <;> decide
    · cases h

theorem setextHeadingLevel_spec {line : Str} {level : ℕ} (h : setextHeadingLevel line = some level) :
    isBlankLine line = false ∧ (level = 1 ∨ level = 2) := by
  unfold setextHeadingLevel at h
  split at h
  · cases h
  · rename_i rest hrest
    have hmark : ∀ mark : Char, isSpace mark = false →
        (decide (rest.head? = some mark) && (rest.dropWhile (· = mark)).all isBlankChar) = true →
        isBlankLine line = false := by
      intro mark hspace hu
      rw [Bool.and_eq_true, decide_eq_true_eq] at hu
      exact isBlankLine_eq_false ((afterSpaces_suffix hrest).subset (List.mem_of_mem_head? hu.1)) hspace
    dsimp only at h
    split at h
    · rename_i hu
      cases h
      exact ⟨hmark '=' (by decide) hu, .inl rfl⟩
    · split at h
      · rename_i hu
        cases h
        exact ⟨hmark '-' (by decide) hu, .inr rfl⟩
      · cases h

theorem isSpace_of_isDigit {c : Char} (h : Lib.isDigit c = true) : isSpace c = false := by
  simp only [Lib.isDigit, decide_eq_true_eq] at h
  have h1 : 48 ≤ c.toNat := h.1
  have h2 : c.toNat ≤ 57 := h.2
  simp only [isSpace, Bool.or_eq_false_iff, Bool.and_eq_false_iff, decide_eq_false_iff_not,
    beq_eq_false_iff_ne]
  omega

theorem listMarker_not_blank {line : Str} (h : (listMarker line).isSome = true) :
    isBlankLine line = false := by
  simp only [listMarker] at h
  split at h
  · cases h
  · rename_i n hn
    have hsub : ∀ c ∈ line.dropWhile isBlankChar, c ∈ line :=
      fun c hc => (List.dropWhile_sublist _).subset hc
    generalize line.dropWhile isBlankChar = rest at hn hsub
    unfold markerLength at hn
    split at hn
    · cases hn
    · rename_i c tail
      split at hn
      · rename_i hc
        refine isBlankLine_eq_false (hsub c (by simp)) ?_
        simp only [List.mem_cons, List.not_mem_nil, or_false] at hc
        rcases hc with rfl | rfl | rfl <;> decide
      · dsimp only at hn
        split at hn
        · rename_i hdigits
          obtain ⟨d, hd, hdigit⟩ := @mem_of_dropWhile_lt Lib.isDigit (c :: tail) (by omega)
          exact isBlankLine_eq_false (hsub d hd) (isSpace_of_isDigit hdigit)
        · cases hn

theorem topLevelListMarker_isSome {line : Str} (h : (topLevelListMarker line).isSome = true) :
    (listMarker line).isSome = true := by
  rw [topLevelListMarker] at h
  cases hm : listMarker line with
  | none => rw [hm] at h; cases h
  | some marker => rfl

/-! ## Titles -/

theorem rstripWhere_sublist (p : Char → Bool) (s : Str) : (rstripWhere p s).Sublist s := by
  rw [rstripWhere, ← List.reverse_sublist, List.reverse_reverse]
  exact List.dropWhile_sublist _

theorem strip_sublist (s : Str) : (strip s).Sublist s :=
  (rstripWhere_sublist _ _).trans (List.dropWhile_sublist _)

theorem removeClosing_sublist (s : Str) : (removeClosing s).Sublist s := by
  simp only [removeClosing]
  split
  · rw [← List.reverse_sublist, List.reverse_reverse]
    exact (List.dropWhile_sublist _).trans ((List.dropWhile_sublist _).trans
      (List.dropWhile_sublist _))
  · exact List.Sublist.refl _

/-- A heading: its level, and a title made of characters of its line. -/
theorem heading_spec {line : Str} {level : ℕ} {title : Str} (h : heading line = some (level, title)) :
    isBlankLine line = false ∧ (1 ≤ level ∧ level ≤ 6) ∧ title.Sublist line := by
  unfold heading at h
  split at h
  · cases h
  · rename_i rest hrest
    have hsub := (afterSpaces_suffix hrest).sublist
    dsimp only at h
    split at h
    · cases h
    · rename_i hlevel
      cases h
      simp only [not_or] at hlevel
      obtain ⟨c, hc, hmark⟩ := @mem_of_dropWhile_lt (· = '#') rest (by omega)
      simp only [decide_eq_true_eq] at hmark
      refine ⟨isBlankLine_eq_false (hsub.subset hc) (by rw [hmark]; decide), by omega, ?_⟩
      exact (rstripWhere_sublist _ _).trans ((removeClosing_sublist _).trans
        ((strip_sublist _).trans ((List.dropWhile_sublist _).trans
          ((List.dropWhile_sublist _).trans hsub))))

theorem removeIndentFrom_suffix {width : ℕ} : ∀ (line : Str) {consumed : ℕ} {rest : Str},
    removeIndentFrom width consumed line = some rest → rest <:+ line := by
  intro line
  induction line with
  | nil => intro consumed rest h; cases h; exact List.suffix_refl _
  | cons c line ih =>
      intro consumed rest h
      rw [removeIndentFrom] at h
      split at h
      · split at h
        · exact (ih h).trans (List.suffix_cons c line)
        · cases h
      · cases h
        exact List.suffix_refl _

theorem removeIndent_suffix {line rest : Str} {width : ℕ} (h : removeIndent line width = some rest) :
    rest <:+ line := by
  unfold removeIndent at h
  split at h
  · cases h
  · exact removeIndentFrom_suffix line h

/-- Without an indentation nothing is removed. -/
theorem removeIndent_zero (line : Str) : removeIndent line 0 = some line := by
  rw [removeIndent, if_neg (by omega)]
  cases line with
  | nil => rfl
  | cons c line => simp [removeIndentFrom]

/-! ## The lines of a text -/

/-- The lines of a text: they follow each other, separated by line breaks, and leave out nothing
else. -/
structure LineIndex.LinesOf (lines : LineIndex) (text : Str) : Prop where
  text_eq : lines.text = text
  bounds : ∀ i < lines.len, lines.start i ≤ lines.stop i ∧ lines.stop i ≤ text.length
  within : ∀ i < lines.len, '\n' ∉ (lines.get i).content
  breaks : ∀ i < lines.len, text[lines.stop i]? = some '\n' ∨ lines.stop i = text.length
  complete : ∀ p, p < text.length → text[p]? ≠ some '\n' →
    ∃ i < lines.len, lines.start i ≤ p ∧ p < lines.stop i

theorem findChar_none {text : Str} {c : Char} {start : ℕ} (h : findChar text c start = none) :
    ∀ p, start ≤ p → text[p]? ≠ some c := by
  intro p hp hc
  simp only [findChar, Option.map_eq_none_iff, List.findIdx?_eq_none_iff, decide_eq_false_iff_not] at h
  refine h c ?_ rfl
  rw [List.mem_iff_getElem?]
  exact ⟨p - start, by rw [List.getElem?_drop, Nat.add_sub_cancel' hp]; exact hc⟩

theorem findChar_some {text : Str} {c : Char} {start n : ℕ} (h : findChar text c start = some n) :
    start ≤ n ∧ text[n]? = some c ∧ ∀ p, start ≤ p → p < n → text[p]? ≠ some c := by
  simp only [findChar, Option.map_eq_some_iff] at h
  obtain ⟨i, hi, rfl⟩ := h
  obtain ⟨hlt, hfound, hbefore⟩ := List.findIdx?_eq_some_iff_getElem.mp hi
  simp only [decide_eq_true_eq, List.getElem_drop] at hfound
  rw [List.length_drop] at hlt
  refine ⟨by omega, ?_, ?_⟩
  · rw [List.getElem?_eq_getElem (by omega), hfound]
  · intro p hp hpn hc
    have := hbefore (p - start) (by omega)
    simp only [List.getElem_drop, Nat.add_sub_cancel' hp, Bool.not_eq_true,
      decide_eq_false_iff_not] at this
    rw [List.getElem?_eq_getElem (by omega)] at hc
    exact this (Option.some.inj hc)

/-- The line ends from an offset on. -/
inductive LineEnds (text : Str) : ℕ → List ℕ → Prop
  | done {start : ℕ} (h : text.length ≤ start) : LineEnds text start []
  | last {start : ℕ} (h : start < text.length) (hnone : ∀ p, start ≤ p → text[p]? ≠ some '\n') :
      LineEnds text start [text.length]
  | line {start n : ℕ} {ends : List ℕ} (h : start ≤ n) (hbreak : text[n]? = some '\n')
      (hnone : ∀ p, start ≤ p → p < n → text[p]? ≠ some '\n')
      (hrest : LineEnds text (n + 1) ends) : LineEnds text start (n :: ends)

theorem contentEndOffsetsFrom_lineEnds (text : Str) (fuel : ℕ) :
    ∀ start, text.length - start ≤ fuel →
    LineEnds text start (contentEndOffsetsFrom text fuel start) := by
  induction fuel with
  | zero => intro start h; exact .done (by omega)
  | succ fuel ih =>
      intro start h
      rw [contentEndOffsetsFrom]
      split
      · rename_i hlt
        cases hf : findChar text '\n' start with
        | none => exact .last hlt (findChar_none hf)
        | some n =>
            obtain ⟨hle, hbreak, hnone⟩ := findChar_some hf
            exact .line hle hbreak hnone (ih (n + 1) (by omega))
      · exact .done (by omega)

namespace LineEnds

variable {text : Str} {start : ℕ} {ends : List ℕ}

/-- Where line `i` starts when the first one starts at `start`. -/
def startAt (start : ℕ) (ends : List ℕ) (i : ℕ) : ℕ := if i = 0 then start else ends.getD (i - 1) 0 + 1

theorem startAt_cons (n : ℕ) (i : ℕ) :
    startAt start (n :: ends) (i + 1) = startAt (n + 1) ends i := by
  cases i with
  | zero => rfl
  | succ i => rfl

theorem at_index (h : LineEnds text start ends) : ∀ i, i < ends.length →
    startAt start ends i ≤ ends.getD i 0 ∧ ends.getD i 0 ≤ text.length ∧
      (∀ p, startAt start ends i ≤ p → p < ends.getD i 0 → text[p]? ≠ some '\n') ∧
      (text[ends.getD i 0]? = some '\n' ∨ ends.getD i 0 = text.length) := by
  induction h with
  | done _ => intro i hi; simp at hi
  | last hlt hnone =>
      intro i hi
      obtain rfl : i = 0 := by simpa using hi
      exact ⟨le_of_lt hlt, le_refl _, fun p hp _ => hnone p hp, .inr rfl⟩
  | @line start n ends hle hbreak hnone _ ih =>
      intro i hi
      cases i with
      | zero =>
          have hlt : n < text.length := (List.getElem?_eq_some_iff.mp hbreak).choose
          exact ⟨hle, le_of_lt hlt, hnone, .inl hbreak⟩
      | succ i =>
          rw [startAt_cons, List.getD_cons_succ]
          exact ih i (by simpa using hi)

theorem complete (h : LineEnds text start ends) : ∀ p, start ≤ p → p < text.length →
    text[p]? ≠ some '\n' → ∃ i < ends.length, startAt start ends i ≤ p ∧ p < ends.getD i 0 := by
  induction h with
  | done hle => intro p hp hlt; omega
  | last _ _ => intro p hp hlt _; exact ⟨0, by simp, hp, hlt⟩
  | @line start n ends hle hbreak _ _ ih =>
      intro p hp hlt hne
      rcases Nat.lt_trichotomy p n with hpn | rfl | hpn
      · exact ⟨0, by simp, hp, hpn⟩
      · exact absurd hbreak hne
      · obtain ⟨i, hi, hs, he⟩ := ih p hpn hlt hne
        refine ⟨i + 1, by simpa using hi, ?_, ?_⟩
        · rw [startAt_cons]
          exact hs
        · rw [List.getD_cons_succ]
          exact he

end LineEnds

/-- **`_LineIndex.from_text` gives the lines of the text**, unless an offset overflows. -/
theorem LineIndex.fromText_linesOf {text : Str} (h : text.length < 2 ^ 32) :
    ∃ lines, LineIndex.fromText text = .ok lines ∧ lines.LinesOf text := by
  have hends := contentEndOffsetsFrom_lineEnds text text.length 0 (by omega)
  have hat := hends.at_index
  refine ⟨⟨text, contentEndOffsetsFrom text text.length 0⟩, ?_, rfl, ?_, ?_, ?_, ?_⟩
  · rw [LineIndex.fromText, if_pos]
    rw [List.all_eq_true]
    intro e he
    obtain ⟨i, hi, rfl⟩ := List.getElem_of_mem he
    have := (hat i hi).2.1
    rw [List.getD_eq_getElem _ _ hi] at this
    simp only [decide_eq_true_eq]
    omega
  · intro i hi
    exact ⟨(hat i hi).1, (hat i hi).2.1⟩
  · intro i hi hmem
    obtain ⟨q, hq, hget⟩ := List.getElem_of_mem hmem
    have hq' : (LineIndex.get ⟨text, contentEndOffsetsFrom text text.length 0⟩ i).content[q]? =
        some '\n' := by rw [List.getElem?_eq_getElem hq, hget]
    simp only [LineIndex.get, slice, List.getElem?_take] at hq'
    split at hq'
    · rename_i hlt
      rw [List.getElem?_drop] at hq'
      exact (hat i hi).2.2.1 _ (Nat.le_add_right _ _) (by
        have h1 : LineIndex.start ⟨text, contentEndOffsetsFrom text text.length 0⟩ i =
          LineEnds.startAt 0 (contentEndOffsetsFrom text text.length 0) i := rfl
        have h2 : LineIndex.stop ⟨text, contentEndOffsetsFrom text text.length 0⟩ i =
          (contentEndOffsetsFrom text text.length 0).getD i 0 := rfl
        omega) hq'
    · cases hq'
  · intro i hi
    exact (hat i hi).2.2.2
  · intro p hp hne
    exact hends.complete p (Nat.zero_le p) hp hne

namespace LineIndex.LinesOf

variable {lines : LineIndex} {text : Str} {i j : ℕ}

theorem start_succ (lines : LineIndex) (i : ℕ) : lines.start (i + 1) = lines.stop i + 1 := rfl

theorem length_content (h : lines.LinesOf text) (hi : i < lines.len) :
    (lines.get i).content.length = lines.stop i - lines.start i := by
  have := h.bounds i hi
  rw [LineIndex.get, length_slice]
  rw [h.text_eq]
  exact this.2

theorem contentEndOffset_eq (h : lines.LinesOf text) (hi : i < lines.len) :
    (lines.get i).contentEndOffset = lines.stop i := by
  have := h.bounds i hi
  rw [Line.contentEndOffset, h.length_content hi]
  show lines.start i + (lines.stop i - lines.start i) = lines.stop i
  omega

theorem mem_content (h : lines.LinesOf text) {c : Char} (hc : c ∈ (lines.get i).content) :
    c ∈ text := by
  rw [← h.text_eq]
  exact List.mem_of_mem_drop (List.mem_of_mem_take hc)

theorem start_le (h : lines.LinesOf text) (hi : i ≤ lines.len) : lines.start i ≤ text.length + 1 := by
  cases i with
  | zero => simp [LineIndex.start]
  | succ i =>
      have := (h.bounds i hi).2
      rw [start_succ]
      omega

theorem le_start (h : lines.LinesOf text) : ∀ i, i ≤ lines.len → i ≤ lines.start i := by
  intro i
  induction i with
  | zero => intro _; exact Nat.zero_le _
  | succ i ih =>
      intro hi
      have h1 := ih (by omega)
      have h2 := (h.bounds i (by omega)).1
      rw [start_succ]
      omega

theorem start_mono (h : lines.LinesOf text) (hij : i ≤ j) (hj : j ≤ lines.len) :
    lines.start i ≤ lines.start j := by
  induction j, hij using Nat.le_induction with
  | base => exact le_refl _
  | succ j hij ih =>
      have h1 := ih (by omega)
      have h2 := (h.bounds j (by omega)).1
      rw [start_succ]
      omega

theorem stop_mono (h : lines.LinesOf text) (hij : i ≤ j) (hj : j < lines.len) :
    lines.stop i ≤ lines.stop j := by
  rcases Nat.eq_or_lt_of_le hij with rfl | hlt
  · exact le_refl _
  · have h1 := h.start_mono (show i + 1 ≤ j by omega) (le_of_lt hj)
    have h2 := (h.bounds j hj).1
    rw [start_succ] at h1
    omega

/-- From a line that is not blank to the end of this or a later line there is text. -/
theorem start_lt_stop (h : lines.LinesOf text) (hij : i ≤ j) (hj : j < lines.len)
    (hne : isBlankLine (lines.get i).content = false) : lines.start i < lines.stop j := by
  refine lt_of_lt_of_le ?_ (h.stop_mono hij hj)
  by_contra hle
  have hlen := h.length_content (lt_of_le_of_lt hij hj)
  have hnil : (lines.get i).content = [] := List.eq_nil_of_length_eq_zero (by omega)
  rw [hnil] at hne
  cases hne

end LineIndex.LinesOf

end VeloxRag.Ingestion
