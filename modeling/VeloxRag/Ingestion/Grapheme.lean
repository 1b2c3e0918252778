import VeloxRag.Platform

/-!
# Where a text may be cut

The chunker prefers the end of a sentence and never cuts inside a grapheme cluster as far
as it can tell one.  Offsets are those between two characters: a cut at `offset` is before
the character at `offset`.

## Main definitions

* `sentenceEnds` — the ends of the matches of the sentence pattern in a window.
* `unsafeBoundary` — a cut that would split a grapheme cluster.
* `safeEnd`, `safeStart`, `alignSentenceBoundary` — the nearest cut that is safe.
-/

namespace VeloxRag.Ingestion

/-! ## Sentences and lines -/

def isSentenceTerminator (c : Char) : Bool := c ∈ ['.', '!', '?', '。', '！', '？']

def isSentenceCloser (c : Char) : Bool :=
  c ∈ ['\x22', '\x27', ')', ']', '】', '）', '”', '’', '」', '』']

def isBlankChar (c : Char) : Bool := c = ' ' || c = '\t'

/-- The length of the match of `_SENTENCE_END` at the front of a text that begins with a
terminator: terminators, closing marks, blanks, and a line break if one follows. -/
def sentenceMatch (s : Str) : ℕ :=
  let afterTerminators := s.dropWhile isSentenceTerminator
  let afterClosers := afterTerminators.dropWhile isSentenceCloser
  let rest := afterClosers.dropWhile isBlankChar
  s.length - rest.length + if rest.head? = some '\n' then 1 else 0

/-- The ends of the matches in a text whose first character is at `offset`.  Each turn consumes a
character or a match, so the length of the text is enough. -/
def sentenceEndsFrom : ℕ → ℕ → Str → List ℕ
  | 0, _, _ => []
  | _ + 1, _, [] => []
  | fuel + 1, offset, c :: rest =>
      if isSentenceTerminator c then
        let n := sentenceMatch (c :: rest)
        (offset + n) :: sentenceEndsFrom fuel (offset + n) ((c :: rest).drop n)
      else sentenceEndsFrom fuel (offset + 1) rest

/-- `_SENTENCE_END.finditer(text, pos, endpos)`, the end of each match. -/
def sentenceEnds (text : Str) (pos endpos : ℕ) : List ℕ :=
  let window := slice text pos endpos
  sentenceEndsFrom window.length pos window

/-- `_last_sentence_end`. -/
def lastSentenceEnd (text : Str) (scanStart lowerExclusive upperInclusive : ℕ) : Option ℕ :=
  (sentenceEnds text scanStart upperInclusive).foldl
    (fun selected stop => if lowerExclusive < stop then some stop else selected) none

/-- `_first_sentence_end`. -/
def firstSentenceEnd (text : Str) (scanStart lowerInclusive upperExclusive : ℕ) : Option ℕ :=
  (sentenceEnds text scanStart upperExclusive).find?
    fun stop => decide (lowerInclusive ≤ stop ∧ stop < upperExclusive)

/-- `_last_newline_point`: after the last line break in `text[lower:upper]`. -/
def lastNewlinePoint (text : Str) (lowerExclusive upperInclusive : ℕ) : Option ℕ :=
  let window := slice text lowerExclusive upperInclusive
  (window.reverse.findIdx? (· = '\n')).map fun i => lowerExclusive + (window.length - 1 - i) + 1

/-- `_first_newline_point`: after the first line break in `text[lower - 1:upper - 1]`. -/
def firstNewlinePoint (text : Str) (lowerInclusive upperExclusive : ℕ) : Option ℕ :=
  ((slice text (lowerInclusive - 1) (upperExclusive - 1)).findIdx? (· = '\n')).map
    fun i => lowerInclusive - 1 + i + 1

/-! ## Character classes -/

/-- `text[index]`, for an index inside the text. -/
def charAt (text : Str) (index : ℕ) : Char := text.getD index ' '

def inCodepointRanges (codepoint : ℕ) (ranges : List (ℕ × ℕ)) : Bool :=
  ranges.any fun r => decide (r.1 ≤ codepoint ∧ codepoint ≤ r.2)

/-- Unicode 15.0 Extended_Pictographic. -/
def extendedPictographicRanges : List (ℕ × ℕ) :=
  [(0x00a9, 0x00a9), (0x00ae, 0x00ae), (0x203c, 0x203c), (0x2049, 0x2049), (0x2122, 0x2122),
    (0x2139, 0x2139), (0x2194, 0x2199), (0x21a9, 0x21aa), (0x231a, 0x231b), (0x2328, 0x2328),
    (0x2388, 0x2388), (0x23cf, 0x23cf), (0x23e9, 0x23f3), (0x23f8, 0x23fa), (0x24c2, 0x24c2),
    (0x25aa, 0x25ab), (0x25b6, 0x25b6), (0x25c0, 0x25c0), (0x25fb, 0x25fe), (0x2600, 0x2605),
    (0x2607, 0x2612), (0x2614, 0x2685), (0x2690, 0x2705), (0x2708, 0x2712), (0x2714, 0x2714),
    (0x2716, 0x2716), (0x271d, 0x271d), (0x2721, 0x2721), (0x2728, 0x2728), (0x2733, 0x2734),
    (0x2744, 0x2744), (0x2747, 0x2747), (0x274c, 0x274c), (0x274e, 0x274e), (0x2753, 0x2755),
    (0x2757, 0x2757), (0x2763, 0x2767), (0x2795, 0x2797), (0x27a1, 0x27a1), (0x27b0, 0x27b0),
    (0x27bf, 0x27bf), (0x2934, 0x2935), (0x2b05, 0x2b07), (0x2b1b, 0x2b1c), (0x2b50, 0x2b50),
    (0x2b55, 0x2b55), (0x3030, 0x3030), (0x303d, 0x303d), (0x3297, 0x3297), (0x3299, 0x3299),
    (0x1f000, 0x1f0ff), (0x1f10d, 0x1f10f), (0x1f12f, 0x1f12f), (0x1f16c, 0x1f171),
    (0x1f17e, 0x1f17f), (0x1f18e, 0x1f18e), (0x1f191, 0x1f19a), (0x1f1ad, 0x1f1e5),
    (0x1f201, 0x1f20f), (0x1f21a, 0x1f21a), (0x1f22f, 0x1f22f), (0x1f232, 0x1f23a),
    (0x1f23c, 0x1f23f), (0x1f249, 0x1f3fa), (0x1f400, 0x1f53d), (0x1f546, 0x1f64f),
    (0x1f680, 0x1f6ff), (0x1f774, 0x1f77f), (0x1f7d5, 0x1f7ff), (0x1f80c, 0x1f80f),
    (0x1f848, 0x1f84f), (0x1f85a, 0x1f85f), (0x1f888, 0x1f88f), (0x1f8ae, 0x1f8ff),
    (0x1f90c, 0x1f93a), (0x1f93c, 0x1f945), (0x1f947, 0x1faff), (0x1fc00, 0x1fffd)]

/-- Unicode 15.0 Grapheme_Cluster_Break=Extend characters whose general category is Mc. -/
def gcbExtendMcRanges : List (ℕ × ℕ) :=
  [(0x09be, 0x09be), (0x09d7, 0x09d7), (0x0b3e, 0x0b3e), (0x0b57, 0x0b57), (0x0bbe, 0x0bbe),
    (0x0bd7, 0x0bd7), (0x0cc2, 0x0cc2), (0x0cd5, 0x0cd6), (0x0d3e, 0x0d3e), (0x0d57, 0x0d57),
    (0x0dcf, 0x0dcf), (0x0ddf, 0x0ddf), (0x1b35, 0x1b35), (0x302e, 0x302f), (0x1133e, 0x1133e),
    (0x11357, 0x11357), (0x114b0, 0x114b0), (0x114bd, 0x114bd), (0x115af, 0x115af),
    (0x11930, 0x11930), (0x1d165, 0x1d165), (0x1d16e, 0x1d172)]

def prependRanges : List (ℕ × ℕ) :=
  [(0x0600, 0x0605), (0x06dd, 0x06dd), (0x070f, 0x070f), (0x0890, 0x0891), (0x08e2, 0x08e2),
    (0x0d4e, 0x0d4e), (0x110bd, 0x110bd), (0x110cd, 0x110cd), (0x111c2, 0x111c3),
    (0x113d1, 0x113d1), (0x1193f, 0x1193f), (0x11941, 0x11941), (0x11a3a, 0x11a3a),
    (0x11a84, 0x11a89), (0x11d46, 0x11d46), (0x11f02, 0x11f02)]

def isRegionalIndicator (c : Char) : Bool := decide (0x1f1e6 ≤ c.toNat ∧ c.toNat ≤ 0x1f1ff)

def zeroWidthJoiner : Char := '\u200d'

section Unicode

variable (U : UnicodeData)

/-- `unicodedata.category(character).startswith(major)`. -/
def categoryStarts (c : Char) (major : Char) : Bool := (U.category c).head? = some major

def isGraphemeExtend (c : Char) : Bool :=
  let n := c.toNat
  categoryStarts U c 'M' || n == 0x200c || decide (0xfe00 ≤ n ∧ n ≤ 0xfe0f)
    || decide (0xff9e ≤ n ∧ n ≤ 0xff9f) || decide (0xe0100 ≤ n ∧ n ≤ 0xe01ef)
    || decide (0x1f3fb ≤ n ∧ n ≤ 0x1f3ff) || decide (0xe0020 ≤ n ∧ n ≤ 0xe007f)

def isGcbExtendForEmojiZwj (c : Char) : Bool :=
  isGraphemeExtend U c &&
    (decide (U.category c ≠ ['M', 'c']) || inCodepointRanges c.toNat gcbExtendMcRanges)

def isPrepend (c : Char) : Bool := inCodepointRanges c.toNat prependRanges

def isExtendedPictographic (c : Char) : Bool := inCodepointRanges c.toNat extendedPictographicRanges

/-! ### Hangul syllables -/

inductive HangulType
  | none
  | l
  | v
  | t
  | lv
  | lvt
  deriving DecidableEq

def hangulType (c : Char) : HangulType :=
  let n := c.toNat
  if (0x1100 ≤ n ∧ n ≤ 0x115f) ∨ (0xa960 ≤ n ∧ n ≤ 0xa97c) then .l
  else if (0x1160 ≤ n ∧ n ≤ 0x11a7) ∨ (0xd7b0 ≤ n ∧ n ≤ 0xd7c6) then .v
  else if (0x11a8 ≤ n ∧ n ≤ 0x11ff) ∨ (0xd7cb ≤ n ∧ n ≤ 0xd7fb) then .t
  else if 0xac00 ≤ n ∧ n ≤ 0xd7a3 then if (n - 0xac00) % 28 = 0 then .lv else .lvt
  else .none

def splitsHangulSyllable (before after : Char) : Bool :=
  match hangulType before, hangulType after with
  | .l, .l | .l, .v | .l, .lv | .l, .lvt => true
  | .lv, .v | .lv, .t | .v, .v | .v, .t => true
  | .lvt, .t | .t, .t => true
  | _, _ => false

/-! ### Sequences -/

/-- The first word of the name, which is the script for a letter. -/
def unicodeScript (c : Char) : Str := (U.name c).takeWhile (· ≠ ' ')

def isVirama (c : Char) : Bool :=
  U.combining c == 9 || decide ("VIRAMA".toList <:+: U.name c)

/-- Go back from `stop` while the character before is in `p` and not before `anchor`. -/
def skipBack (p : Char → Bool) (text : Str) (anchor : ℕ) : ℕ → ℕ
  | 0 => 0
  | index + 1 =>
      if anchor ≤ index ∧ p (charAt text index) = true then skipBack p text anchor index
      else index + 1

/-- The loop of `_splits_indic_virama_conjunct`, with `index + 1` for its index. -/
def viramaBefore (text : Str) (anchor : ℕ) (afterScript : Str) : ℕ → Bool
  | 0 => false
  | index + 1 =>
      if index < anchor then false
      else
        let c := charAt text index
        if isVirama U c then
          if unicodeScript U c ≠ afterScript then false
          else
            let stop := skipBack (isGraphemeExtend U) text anchor index
            decide (anchor < stop) && categoryStarts U (charAt text (stop - 1)) 'L'
              && decide (unicodeScript U (charAt text (stop - 1)) = afterScript)
        else if c ≠ zeroWidthJoiner ∧ isGraphemeExtend U c = false then false
        else viramaBefore text anchor afterScript index

def splitsIndicViramaConjunct (text : Str) (offset safeAnchor : ℕ) : Bool :=
  let after := charAt text offset
  let afterScript := unicodeScript U after
  if categoryStarts U after 'L' = false ∨ afterScript = [] then false
  else viramaBefore U text safeAnchor afterScript offset

def splitsEmojiZwjSequence (text : Str) (offset safeAnchor : ℕ) : Bool :=
  if charAt text (offset - 1) ≠ zeroWidthJoiner ∨
      isExtendedPictographic (charAt text offset) = false then false
  else
    let stop := skipBack (isGcbExtendForEmojiZwj U) text safeAnchor (offset - 1)
    decide (safeAnchor < stop) && isExtendedPictographic (charAt text (stop - 1))

def splitsRegionalIndicatorPair (text : Str) (offset safeAnchor : ℕ) : Bool :=
  if (isRegionalIndicator (charAt text (offset - 1)) &&
      isRegionalIndicator (charAt text offset)) = false then false
  else
    let precedingCount := offset - skipBack isRegionalIndicator text safeAnchor offset
    precedingCount % 2 == 1

/-- `_unsafe_boundary`. -/
def unsafeBoundary (text : Str) (offset safeAnchor : ℕ) : Bool :=
  if offset = 0 ∨ text.length ≤ offset then false
  else
    let before := charAt text (offset - 1)
    let after := charAt text offset
    (before == '\r' && after == '\n') || after == zeroWidthJoiner || isGraphemeExtend U after
      || isPrepend before || splitsHangulSyllable before after
      || splitsIndicViramaConjunct U text offset safeAnchor
      || splitsEmojiZwjSequence U text offset safeAnchor
      || splitsRegionalIndicatorPair text offset safeAnchor

/-! ## Safe cuts -/

/-- The loop of `_safe_end`. -/
def safeEndFrom (text : Str) (start : ℕ) : ℕ → ℕ
  | 0 => 0
  | candidate + 1 =>
      if start < candidate + 1 ∧ unsafeBoundary U text (candidate + 1) start = true then
        safeEndFrom text start candidate
      else candidate + 1

/-- `_safe_end`: the last safe cut up to `hardEnd`, or `hardEnd` if there is none. -/
def safeEnd (text : Str) (hardEnd start : ℕ) : ℕ :=
  let candidate := safeEndFrom U text start hardEnd
  if candidate = start then hardEnd else candidate

/-- The loop of `_safe_start`, which runs at most `stop - candidate` times. -/
def safeStartFrom (text : Str) (stop safeAnchor : ℕ) : ℕ → ℕ → ℕ
  | 0, candidate => candidate
  | fuel + 1, candidate =>
      if candidate < stop ∧ unsafeBoundary U text candidate safeAnchor = true then
        safeStartFrom text stop safeAnchor fuel (candidate + 1)
      else candidate

/-- `_safe_start`: the first safe cut from `target` on, at most `stop`. -/
def safeStart (text : Str) (target stop safeAnchor : ℕ) : ℕ :=
  safeStartFrom U text stop safeAnchor (stop - target) target

/-- `_align_sentence_boundary`. -/
def alignSentenceBoundary (text : Str) (target limit safeAnchor : ℕ) : ℕ :=
  let candidate := safeStart U text target limit safeAnchor
  if unsafeBoundary U text candidate safeAnchor then safeEnd U text target safeAnchor
  else candidate

end Unicode

/-! ## Bounds

Whatever the character database says, each cut stays between the bounds it was asked for. -/

theorem sentenceMatch_bounds (c : Char) (rest : Str) (hc : isSentenceTerminator c = true) :
    1 ≤ sentenceMatch (c :: rest) ∧ sentenceMatch (c :: rest) ≤ (c :: rest).length := by
  unfold sentenceMatch
  simp only [List.dropWhile_cons_of_pos hc, List.length_cons]
  generalize hblanks : ((rest.dropWhile isSentenceTerminator).dropWhile
    isSentenceCloser).dropWhile isBlankChar = blanks
  have hle : blanks.length ≤ rest.length := by
    rw [← hblanks]
    exact ((List.dropWhile_sublist _).trans ((List.dropWhile_sublist _).trans
      (List.dropWhile_sublist _))).length_le
  cases blanks with
  | nil => simp
  | cons b blanks =>
      rw [List.length_cons] at hle
      simp only [List.length_cons]
      by_cases hbreak : (b :: blanks).head? = some '\n'
      · rw [if_pos hbreak]
        omega
      · rw [if_neg hbreak]
        omega

theorem sentenceEndsFrom_bounds (fuel : ℕ) : ∀ (offset : ℕ) (s : Str),
    ∀ stop ∈ sentenceEndsFrom fuel offset s, offset < stop ∧ stop ≤ offset + s.length := by
  induction fuel with
  | zero => intro offset s stop h; cases h
  | succ fuel ih =>
      intro offset s stop h
      cases s with
      | nil => cases h
      | cons c rest =>
          rw [sentenceEndsFrom] at h
          split at h
          · rename_i hc
            have hn := sentenceMatch_bounds c rest hc
            rcases List.mem_cons.mp h with rfl | h
            · omega
            · have := ih _ _ stop h
              rw [List.length_drop] at this
              omega
          · have := ih _ _ stop h
            rw [List.length_cons]
            omega

theorem sentenceEnds_bounds {text : Str} {pos endpos stop : ℕ}
    (h : stop ∈ sentenceEnds text pos endpos) : pos < stop ∧ stop ≤ endpos := by
  have := sentenceEndsFrom_bounds _ _ _ stop h
  rw [slice, List.length_take] at this
  omega

theorem lastSentenceEnd_bounds {text : Str} {scanStart lower upper stop : ℕ}
    (h : lastSentenceEnd text scanStart lower upper = some stop) : lower < stop ∧ stop ≤ upper := by
  have hfold : ∀ (stops : List ℕ) (selected : Option ℕ),
      (∀ e ∈ stops, e ≤ upper) → (∀ e, selected = some e → lower < e ∧ e ≤ upper) →
      ∀ e, stops.foldl (fun selected stop => if lower < stop then some stop else selected)
        selected = some e → lower < e ∧ e ≤ upper := by
    intro stops
    induction stops with
    | nil => intro selected _ hsel; exact hsel
    | cons stop stops ih =>
        intro selected hstops hsel
        refine ih _ (fun e he => hstops e (List.mem_cons_of_mem _ he)) ?_
        intro e he
        beta_reduce at he
        split at he
        · rename_i hlt
          cases he
          exact ⟨hlt, hstops stop (by simp)⟩
        · exact hsel e he
  refine hfold _ none ?_ ?_ stop h
  · intro e he
    exact (sentenceEnds_bounds he).2
  · intro e he
    cases he

theorem firstSentenceEnd_bounds {text : Str} {scanStart lower upper stop : ℕ}
    (h : firstSentenceEnd text scanStart lower upper = some stop) : lower ≤ stop ∧ stop < upper := by
  have := List.find?_some h
  simpa using this

theorem lastNewlinePoint_bounds {text : Str} {lower upper stop : ℕ}
    (h : lastNewlinePoint text lower upper = some stop) : lower < stop ∧ stop ≤ upper := by
  simp only [lastNewlinePoint, Option.map_eq_some_iff] at h
  obtain ⟨i, hi, rfl⟩ := h
  have hlt := (List.findIdx?_eq_some_iff_getElem.mp hi).choose
  rw [List.length_reverse] at hlt
  have hlen : (slice text lower upper).length ≤ upper - lower := by
    rw [slice, List.length_take]
    omega
  omega

theorem firstNewlinePoint_bounds {text : Str} {lower upper stop : ℕ} (hlower : 0 < lower)
    (h : firstNewlinePoint text lower upper = some stop) : lower ≤ stop ∧ stop < upper := by
  simp only [firstNewlinePoint, Option.map_eq_some_iff] at h
  obtain ⟨i, hi, rfl⟩ := h
  have hlt := (List.findIdx?_eq_some_iff_getElem.mp hi).choose
  have hlen : (slice text (lower - 1) (upper - 1)).length ≤ upper - 1 - (lower - 1) := by
    rw [slice, List.length_take]
    omega
  omega

section Bounds

variable {U : UnicodeData} {text : Str}

theorem safeEndFrom_bounds {start hardEnd : ℕ} (h : start ≤ hardEnd) :
    start ≤ safeEndFrom U text start hardEnd ∧ safeEndFrom U text start hardEnd ≤ hardEnd := by
  induction hardEnd with
  | zero => simpa [safeEndFrom] using h
  | succ candidate ih =>
      rw [safeEndFrom]
      split
      · rename_i hc
        have := ih (by omega)
        omega
      · omega

/-- **The safe end** is after the start and not after the hard end. -/
theorem safeEnd_bounds {start hardEnd : ℕ} (h : start < hardEnd) :
    start < safeEnd U text hardEnd start ∧ safeEnd U text hardEnd start ≤ hardEnd := by
  obtain ⟨hlow, hhigh⟩ := @safeEndFrom_bounds U text start hardEnd (by omega)
  simp only [safeEnd]
  split <;> omega

theorem safeStartFrom_bounds {stop anchor : ℕ} (fuel : ℕ) : ∀ candidate, candidate ≤ stop →
    candidate ≤ safeStartFrom U text stop anchor fuel candidate ∧
      safeStartFrom U text stop anchor fuel candidate ≤ stop := by
  induction fuel with
  | zero => intro candidate h; exact ⟨le_refl _, h⟩
  | succ fuel ih =>
      intro candidate h
      rw [safeStartFrom]
      split
      · rename_i hc
        have := ih (candidate + 1) (by omega)
        omega
      · omega

/-- **The safe start** is between its target and its limit. -/
theorem safeStart_bounds {target stop anchor : ℕ} (h : target ≤ stop) :
    target ≤ safeStart U text target stop anchor ∧ safeStart U text target stop anchor ≤ stop :=
  safeStartFrom_bounds _ _ h

/-- **The aligned end of a sentence** is after the anchor and not after the limit. -/
theorem alignSentenceBoundary_bounds {target limit anchor : ℕ} (hanchor : anchor < target)
    (hlimit : target ≤ limit) :
    anchor < alignSentenceBoundary U text target limit anchor ∧
      alignSentenceBoundary U text target limit anchor ≤ limit := by
  obtain ⟨hlow, hhigh⟩ := @safeStart_bounds U text target limit anchor hlimit
  obtain ⟨hlow', hhigh'⟩ := @safeEnd_bounds U text anchor target hanchor
  simp only [alignSentenceBoundary]
  split <;> omega

end Bounds

end VeloxRag.Ingestion
