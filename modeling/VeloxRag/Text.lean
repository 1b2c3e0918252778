import Mathlib

/-!
# Text and bytes

The service computes on decoded text by code point and stores it as UTF-8.  A text
is a list of characters here and a byte string a list of bytes, so that an offset
is a position in the list and a slice is a `drop` and a `take`.  A text reaches the
service through a strict UTF-8 decoder, which never produces a lone surrogate;
`Char` excludes exactly those.

## Main definitions

* `Str`, `Bytes` — text and byte strings.
* `encode`, `decode?` — UTF-8, strict in the decoding direction.
* `slice`, `findChar`, `strip` — the string operations the parsers and chunkers use.
-/

namespace VeloxRag

/-- A text: its code points in order. -/
abbrev Str := List Char

/-- A byte string. -/
abbrev Bytes := List UInt8

/-- Texts, and pairs of identities, are looked up by value. -/
instance Str.lawfulBEq : LawfulBEq Str := inferInstanceAs (LawfulBEq (List Char))

instance natPairLawfulBEq : LawfulBEq (ℕ × ℕ) := inferInstance

/-- `str.encode("utf-8")`. -/
def encode (s : Str) : Bytes := s.flatMap String.utf8EncodeChar

/-- `bytes.decode("utf-8")`, with `none` for a `UnicodeDecodeError`. -/
def decode? (b : Bytes) : Option Str := (List.toByteArray b).utf8Decode?.map Array.toList

@[simp] theorem encode_nil : encode [] = [] := rfl

theorem encode_cons (c : Char) (s : Str) : encode (c :: s) = String.utf8EncodeChar c ++ encode s := by
  simp [encode]

theorem encode_append (s t : Str) : encode (s ++ t) = encode s ++ encode t := by
  simp [encode]

/-- Decoding what was encoded gives the text back. -/
theorem decode?_encode (s : Str) : decode? (encode s) = some s := by
  have h : List.toByteArray (encode s) = s.utf8Encode := rfl
  unfold decode?
  rw [h, List.utf8Decode?_utf8Encode]
  simp

/-- Every character takes at least one byte. -/
theorem length_le_encode (s : Str) : s.length ≤ (encode s).length := by
  induction s with
  | nil => simp
  | cons c s ih =>
      rw [encode_cons, List.length_cons, List.length_append, String.length_utf8EncodeChar]
      have := Char.utf8Size_pos c
      omega

/-- Every character takes at most four bytes. -/
theorem length_encode_le (s : Str) : (encode s).length ≤ 4 * s.length := by
  induction s with
  | nil => simp
  | cons c s ih =>
      rw [encode_cons, List.length_append, String.length_utf8EncodeChar, List.length_cons]
      have := c.utf8Size_le_four
      omega

theorem length_encode_append (s t : Str) :
    (encode (s ++ t)).length = (encode s).length + (encode t).length := by
  rw [encode_append, List.length_append]

/-- `MAX_DOCUMENT_BYTES`: a larger upload is rejected. -/
def maxDocumentBytes : ℕ := 50 * 1024 * 1024

/-- `text[start:stop]` for bounds that are not negative. -/
def slice {α : Type*} (s : List α) (start stop : ℕ) : List α := (s.drop start).take (stop - start)

theorem length_slice {α : Type*} (s : List α) {start stop : ℕ} (hstop : stop ≤ s.length) :
    (slice s start stop).length = stop - start := by
  rw [slice, List.length_take, List.length_drop]
  omega

theorem mem_slice {α : Type*} {s : List α} {start stop : ℕ} {x : α} :
    x ∈ slice s start stop ↔
      ∃ position, start ≤ position ∧ position < stop ∧ s[position]? = some x := by
  rw [slice, List.mem_iff_getElem?]
  constructor
  · rintro ⟨i, hi⟩
    rw [List.getElem?_take] at hi
    split at hi
    · rw [List.getElem?_drop] at hi
      exact ⟨start + i, by omega, by omega, hi⟩
    · cases hi
  · rintro ⟨position, hstart, hstop, hx⟩
    refine ⟨position - start, ?_⟩
    rw [List.getElem?_take, if_pos (by omega), List.getElem?_drop,
      show start + (position - start) = position by omega]
    exact hx

/-- `text.find(c, start)`, with `none` for `-1`. -/
def findChar (s : Str) (c : Char) (start : ℕ) : Option ℕ :=
  ((s.drop start).findIdx? (· = c)).map (start + ·)

/-- The characters `str.isspace` accepts, which `str.strip()` removes. -/
def isSpace (c : Char) : Bool :=
  let n := c.toNat
  (0x09 ≤ n && n ≤ 0x0d) || (0x1c ≤ n && n ≤ 0x20) || n == 0x85 || n == 0xa0 || n == 0x1680
    || (0x2000 ≤ n && n ≤ 0x200a) || n == 0x2028 || n == 0x2029 || n == 0x202f || n == 0x205f
    || n == 0x3000

/-- Remove the characters in `p` from the right end. -/
def rstripWhere (p : Char → Bool) (s : Str) : Str := (s.reverse.dropWhile p).reverse

/-- Remove the characters in `p` from both ends. -/
def stripWhere (p : Char → Bool) (s : Str) : Str := rstripWhere p (s.dropWhile p)

/-- `str.strip()`. -/
def strip (s : Str) : Str := stripWhere isSpace s

theorem rstripWhere_eq_nil {p : Char → Bool} {s : Str} :
    rstripWhere p s = [] ↔ ∀ c ∈ s, p c = true := by
  simp [rstripWhere, List.dropWhile_eq_nil_iff]

/-- A text strips to nothing exactly when it is blank. -/
theorem stripWhere_eq_nil {p : Char → Bool} {s : Str} :
    stripWhere p s = [] ↔ ∀ c ∈ s, p c = true := by
  rw [stripWhere, rstripWhere_eq_nil]
  constructor
  · intro h c hc
    by_contra hn
    have hne : s.dropWhile p ≠ [] := by
      rw [ne_eq, List.dropWhile_eq_nil_iff]
      exact fun hall => hn (hall c hc)
    have hhead := List.head_dropWhile_not p hne
    rw [h _ (List.head_mem hne)] at hhead
    exact absurd hhead (by simp)
  · intro h c hc
    exact h c ((List.dropWhile_sublist p).subset hc)

end VeloxRag
