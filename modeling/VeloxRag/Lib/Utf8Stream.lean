import Mathlib

/-!
# UTF-8 in pieces

A decoder that is given a byte string piece by piece decodes the characters that are complete
and keeps the bytes of a last character that is not.  Bytes that no continuation can make valid
are an error at once.

## Main definitions

* `firstChar?` — the character whose encoding a byte string begins with.
* `isTruncated` — the beginning of an encoding that is not complete.
* `decodeComplete` — the complete characters, and the bytes kept back.
* `decodeComplete_prefix` — a beginning of what was encoded decodes, wherever it is cut.
-/

namespace VeloxRag.Lib

/-- The encoding of a text. -/
def utf8Bytes (s : List Char) : List UInt8 := s.flatMap String.utf8EncodeChar

@[simp] theorem utf8Bytes_nil : utf8Bytes [] = [] := rfl

@[simp] theorem utf8Bytes_cons (c : Char) (s : List Char) :
    utf8Bytes (c :: s) = String.utf8EncodeChar c ++ utf8Bytes s := by
  simp [utf8Bytes]

/-- The character whose encoding `data` begins with. -/
def firstChar? (data : List UInt8) : Option Char := (List.toByteArray data).utf8DecodeChar? 0

theorem toByteArray_append (l l' : List UInt8) :
    List.toByteArray (l ++ l') = List.toByteArray l ++ List.toByteArray l' := by
  apply ByteArray.ext
  simp

theorem firstChar?_encode_append (c : Char) (rest : List UInt8) :
    firstChar? (String.utf8EncodeChar c ++ rest) = some c := by
  rw [firstChar?, toByteArray_append]
  exact ByteArray.utf8DecodeChar?_utf8EncodeChar_append

theorem firstChar?_nil : firstChar? [] = none := by decide

/-- A byte string begins with the encoding of its first character. -/
theorem eq_of_firstChar? {data : List UInt8} {c : Char} (h : firstChar? data = some c) :
    data = String.utf8EncodeChar c ++ data.drop c.utf8Size := by
  obtain ⟨l, hl⟩ := ByteArray.exists_of_utf8DecodeChar?_eq_some h
  have hdata : data = String.utf8EncodeChar c ++ l.data.toList := by
    have h' := congrArg (fun b => b.data.toList) hl
    simpa using h'
  have hdrop : data.drop c.utf8Size = l.data.toList := by
    rw [hdata, ← String.length_utf8EncodeChar, List.drop_left]
  rw [hdrop]
  exact hdata

theorem drop_utf8Size_lt {data : List UInt8} {c : Char} (h : firstChar? data = some c) :
    (data.drop c.utf8Size).length < data.length := by
  have hlen := congrArg List.length (eq_of_firstChar? h)
  rw [List.length_append, String.length_utf8EncodeChar] at hlen
  have := c.utf8Size_pos
  omega

/-- A byte of the form `10xxxxxx`. -/
def isContinuationByte (b : UInt8) : Bool := 0x80 ≤ b && b < 0xc0

/-- Whether `second` may follow `lead`: a continuation byte that makes the encoding neither too
long, nor that of a surrogate, nor that of a number above `0x10ffff`. -/
def isSecondByte (lead second : UInt8) : Bool :=
  isContinuationByte second && !(lead == 0xe0 && second < 0xa0) &&
    !(lead == 0xed && 0xa0 ≤ second) && !(lead == 0xf0 && second < 0x90) &&
    !(lead == 0xf4 && 0x90 ≤ second)

/-- The beginning of an encoding that is not complete. -/
def isTruncated : List UInt8 → Bool
  | [lead] => 0xc2 ≤ lead && lead < 0xf5
  | [lead, second] => 0xe0 ≤ lead && lead < 0xf5 && isSecondByte lead second
  | [lead, second, third] =>
      0xf0 ≤ lead && lead < 0xf5 && isSecondByte lead second && isContinuationByte third
  | _ => false

/-- The complete characters of `data` and the bytes kept back, or `none` for an error. -/
def decodeComplete (data : List UInt8) : Option (List Char × List UInt8) :=
  match _h : firstChar? data with
  | some c => (decodeComplete (data.drop c.utf8Size)).map fun d => (c :: d.1, d.2)
  | none => if data = [] ∨ isTruncated data = true then some ([], data) else none
termination_by data.length
decreasing_by exact drop_utf8Size_lt ‹_›

theorem decodeComplete_some {data : List UInt8} {c : Char} (h : firstChar? data = some c) :
    decodeComplete data =
      (decodeComplete (data.drop c.utf8Size)).map fun d => (c :: d.1, d.2) := by
  rw [decodeComplete]
  split
  · rename_i c' h'
    rw [h] at h'
    cases h'
    rfl
  · rename_i h'
    rw [h] at h'
    cases h'

theorem decodeComplete_none {data : List UInt8} (h : firstChar? data = none) :
    decodeComplete data = if data = [] ∨ isTruncated data = true then some ([], data) else none := by
  rw [decodeComplete]
  split
  · rename_i c' h'
    rw [h] at h'
    cases h'
  · rfl

theorem decodeComplete_nil : decodeComplete [] = some ([], []) := by
  rw [decodeComplete_none firstChar?_nil, if_pos (.inl rfl)]

/-- Decoding what was encoded keeps nothing back. -/
theorem decodeComplete_utf8Bytes (s : List Char) : decodeComplete (utf8Bytes s) = some (s, []) := by
  induction s with
  | nil => exact decodeComplete_nil
  | cons c s ih =>
      rw [utf8Bytes_cons, decodeComplete_some (firstChar?_encode_append c _),
        ← String.length_utf8EncodeChar, List.drop_left, ih]
      rfl

/-- **Soundness**: the characters and the bytes kept back are the whole input. -/
theorem decodeComplete_sound {data : List UInt8} : ∀ {s : List Char} {rest : List UInt8},
    decodeComplete data = some (s, rest) → data = utf8Bytes s ++ rest := by
  induction data using decodeComplete.induct with
  | case1 data c hc ih =>
      intro s rest h
      rw [decodeComplete_some hc] at h
      obtain ⟨⟨s', rest'⟩, hd, heq⟩ := Option.map_eq_some_iff.mp h
      cases heq
      rw [utf8Bytes_cons, List.append_assoc, ← ih hd]
      exact eq_of_firstChar? hc
  | case2 data hnone hend =>
      intro s rest h
      rw [decodeComplete_none hnone, if_pos hend] at h
      cases h
      rfl
  | case3 data hnone hend =>
      intro s rest h
      rw [decodeComplete_none hnone, if_neg hend] at h
      cases h

/-- The bytes that are kept back have no complete character. -/
theorem decodeComplete_kept {data : List UInt8} : ∀ {s : List Char} {rest : List UInt8},
    decodeComplete data = some (s, rest) → firstChar? rest = none := by
  induction data using decodeComplete.induct with
  | case1 data c hc ih =>
      intro s rest h
      rw [decodeComplete_some hc] at h
      obtain ⟨⟨s', rest'⟩, hd, heq⟩ := Option.map_eq_some_iff.mp h
      cases heq
      exact ih hd
  | case2 data hnone hend =>
      intro s rest h
      rw [decodeComplete_none hnone, if_pos hend] at h
      cases h
      exact hnone
  | case3 data hnone hend =>
      intro s rest h
      rw [decodeComplete_none hnone, if_neg hend] at h
      cases h

/-! ## What was encoded, in pieces -/

theorem isContinuationByte_ofNat (a : ℕ) :
    isContinuationByte (UInt8.ofNat (a % 0x40 + 0x80)) = true := by
  simp only [isContinuationByte, Bool.and_eq_true, decide_eq_true_eq, UInt8.le_iff_toNat_le,
    UInt8.lt_iff_toNat_lt, UInt8.toNat_ofNat']
  constructor
  · show 128 ≤ _
    omega
  · show _ < 192
    omega

theorem isSecondByte_ofNat {lead second : ℕ} (hl : lead < 256) (hs : second < 256) :
    isSecondByte (UInt8.ofNat lead) (UInt8.ofNat second) = true ↔
      (0x80 ≤ second ∧ second < 0xc0) ∧ (lead = 0xe0 → 0xa0 ≤ second) ∧
      (lead = 0xed → second < 0xa0) ∧ (lead = 0xf0 → 0x90 ≤ second) ∧ (lead = 0xf4 → second < 0x90) := by
  simp only [isSecondByte, isContinuationByte, Bool.and_eq_true, Bool.not_eq_true', Bool.and_eq_false_iff,
    decide_eq_true_eq, decide_eq_false_iff_not, beq_eq_false_iff_ne, UInt8.le_iff_toNat_le, UInt8.lt_iff_toNat_lt, ne_eq,
    ← UInt8.toNat_inj]
  simp
  omega

theorem le_ofNat_lt {a l h : ℕ} (hl : l ≤ a) (hh : a < h) (h256 : h < 256) :
    UInt8.ofNat l ≤ UInt8.ofNat a ∧ UInt8.ofNat a < UInt8.ofNat h := by
  simp only [UInt8.le_iff_toNat_le, UInt8.lt_iff_toNat_lt, UInt8.toNat_ofNat']
  omega

/-- The beginning of an encoding is not an error. -/
theorem isTruncated_take (c : Char) {n : ℕ} (hn : 0 < n)
    (hlt : n < (String.utf8EncodeChar c).length) :
    isTruncated ((String.utf8EncodeChar c).take n) = true := by
  have hvalid : c.val.toNat < 0xd800 ∨ 0xdfff < c.val.toNat ∧ c.val.toNat < 0x110000 := c.valid
  revert hlt
  fun_cases String.utf8EncodeChar c with
  | case1 =>
      intro hlt
      exact absurd hlt (by rw [List.length_singleton]; omega)
  | case2 v h1 h2 =>
      intro hlt
      have hlead := le_ofNat_lt (a := v / 64 % 0x20 + 0xc0) (l := 0xc2) (h := 0xf5)
        (by omega) (by omega) (by omega)
      obtain rfl : n = 1 := by simp only [List.length_cons, List.length_nil] at hlt; omega
      rw [List.take_succ_cons, List.take_zero, isTruncated]
      exact Bool.and_eq_true_iff.mpr ⟨decide_eq_true hlead.1, decide_eq_true hlead.2⟩
  | case3 v h1 h2 h3 =>
      intro hlt
      have hlead := le_ofNat_lt (a := v / 4096 % 0x10 + 0xe0) (l := 0xe0) (h := 0xf5)
        (by omega) (by omega) (by omega)
      have hsecond : isSecondByte (UInt8.ofNat (v / 4096 % 0x10 + 0xe0))
          (UInt8.ofNat (v / 64 % 0x40 + 0x80)) = true := by
        rw [isSecondByte_ofNat (by omega) (by omega)]
        omega
      obtain rfl | rfl : n = 1 ∨ n = 2 := by
        simp only [List.length_cons, List.length_nil] at hlt
        omega
      · rw [List.take_succ_cons, List.take_zero, isTruncated]
        have hlead' := le_ofNat_lt (a := v / 4096 % 0x10 + 0xe0) (l := 0xc2) (h := 0xf5)
          (by omega) (by omega) (by omega)
        exact Bool.and_eq_true_iff.mpr ⟨decide_eq_true hlead'.1, decide_eq_true hlead'.2⟩
      · rw [List.take_succ_cons, List.take_succ_cons, List.take_zero, isTruncated]
        simpa only [Bool.and_eq_true, decide_eq_true_eq] using ⟨hlead, hsecond⟩
  | case4 v h1 h2 h3 =>
      intro hlt
      have hlead := le_ofNat_lt (a := v / 262144 % 0x08 + 0xf0) (l := 0xf0) (h := 0xf5)
        (by omega) (by omega) (by omega)
      have hsecond : isSecondByte (UInt8.ofNat (v / 262144 % 0x08 + 0xf0))
          (UInt8.ofNat (v / 4096 % 0x40 + 0x80)) = true := by
        rw [isSecondByte_ofNat (by omega) (by omega)]
        omega
      obtain rfl | rfl | rfl : n = 1 ∨ n = 2 ∨ n = 3 := by
        simp only [List.length_cons, List.length_nil] at hlt
        omega
      · rw [List.take_succ_cons, List.take_zero, isTruncated]
        have hlead' := le_ofNat_lt (a := v / 262144 % 0x08 + 0xf0) (l := 0xc2) (h := 0xf5)
          (by omega) (by omega) (by omega)
        exact Bool.and_eq_true_iff.mpr ⟨decide_eq_true hlead'.1, decide_eq_true hlead'.2⟩
      · rw [List.take_succ_cons, List.take_succ_cons, List.take_zero, isTruncated]
        have hlead' := le_ofNat_lt (a := v / 262144 % 0x08 + 0xf0) (l := 0xe0) (h := 0xf5)
          (by omega) (by omega) (by omega)
        simpa only [Bool.and_eq_true, decide_eq_true_eq] using ⟨hlead', hsecond⟩
      · rw [List.take_succ_cons, List.take_succ_cons, List.take_succ_cons, List.take_zero,
          isTruncated]
        simpa only [Bool.and_eq_true, decide_eq_true_eq] using
          ⟨⟨hlead, hsecond⟩, isContinuationByte_ofNat _⟩

/-- Nothing shorter than the encoding of a character has a first character. -/
theorem firstChar?_take (c : Char) {n : ℕ} (hlt : n < (String.utf8EncodeChar c).length) :
    firstChar? ((String.utf8EncodeChar c).take n) = none := by
  cases h : firstChar? ((String.utf8EncodeChar c).take n) with
  | none => rfl
  | some c' =>
      have htake := eq_of_firstChar? h
      have hfull : String.utf8EncodeChar c = String.utf8EncodeChar c' ++
          (((String.utf8EncodeChar c).take n).drop c'.utf8Size ++ (String.utf8EncodeChar c).drop n) := by
        rw [← List.append_assoc, ← htake, List.take_append_drop]
      have hc : c = c' := by
        have h1 := firstChar?_encode_append c []
        rw [List.append_nil, hfull, firstChar?_encode_append] at h1
        exact (Option.some.inj h1).symm
      subst hc
      have hlen := congrArg List.length htake
      rw [List.length_append, List.length_take, List.length_drop] at hlen
      omega

/-- **A beginning of what was encoded decodes**, with the bytes of a character that is cut kept
back. -/
theorem decodeComplete_prefix {s : List Char} : ∀ {data rest : List UInt8},
    data ++ rest = utf8Bytes s → ∃ t kept, decodeComplete data = some (t, kept) := by
  induction s with
  | nil =>
      intro data rest h
      rw [List.append_eq_nil_iff.mp h |>.1]
      exact ⟨[], [], decodeComplete_nil⟩
  | cons c s ih =>
      intro data rest h
      rw [utf8Bytes_cons] at h
      by_cases hlt : data.length < (String.utf8EncodeChar c).length
      · have hdata : data = (String.utf8EncodeChar c).take data.length := by
          have h' := congrArg (List.take data.length) h
          rwa [List.take_left, List.take_append_of_le_length hlt.le] at h'
        refine ⟨[], data, ?_⟩
        have hnone := firstChar?_take c hlt
        rw [← hdata] at hnone
        rw [decodeComplete_none hnone, if_pos]
        by_cases hnil : data = []
        · exact .inl hnil
        · right
          have htruncated := isTruncated_take c (List.length_pos_iff.mpr hnil) hlt
          rwa [← hdata] at htruncated
      · have hdata : data = String.utf8EncodeChar c ++ data.drop (String.utf8EncodeChar c).length := by
          have h' := congrArg (List.take (String.utf8EncodeChar c).length) h
          rw [List.take_left, List.take_append_of_le_length (Nat.not_lt.mp hlt)] at h'
          have h'' := List.take_append_drop (String.utf8EncodeChar c).length data
          rw [h'] at h''
          exact h''.symm
        rw [hdata, List.append_assoc] at h
        obtain ⟨t, kept, ht⟩ := ih (List.append_cancel_left h)
        refine ⟨c :: t, kept, ?_⟩
        rw [hdata, decodeComplete_some (firstChar?_encode_append c _),
          ← String.length_utf8EncodeChar, List.drop_left, ht]
        rfl

/-- What follows the characters of a beginning is the encoding of the others. -/
theorem utf8Bytes_append_inv {s : List Char} : ∀ {t : List Char} {rest : List UInt8},
    utf8Bytes s ++ rest = utf8Bytes t → ∃ u, t = s ++ u ∧ rest = utf8Bytes u := by
  induction s with
  | nil =>
      intro t rest h
      exact ⟨t, rfl, h⟩
  | cons c s ih =>
      intro t rest h
      cases t with
      | nil =>
          rw [utf8Bytes_cons, utf8Bytes_nil, List.append_eq_nil_iff, List.append_eq_nil_iff] at h
          exact absurd h.1.1 String.utf8EncodeChar_ne_nil
      | cons d t =>
          rw [utf8Bytes_cons, utf8Bytes_cons, List.append_assoc] at h
          have hcd : c = d := by
            have h' := congrArg firstChar? h
            rw [firstChar?_encode_append, firstChar?_encode_append] at h'
            exact Option.some.inj h'
          subst hcd
          obtain ⟨u, rfl, hrest⟩ := ih (List.append_cancel_left h)
          exact ⟨u, rfl, hrest⟩

end VeloxRag.Lib
