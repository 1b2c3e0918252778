import Mathlib

/-!
# Base64 for URLs

Three bytes are four letters of an alphabet of 64; one or two bytes at the end are two or three
letters, without padding.  The reader ignores the bits of the last letter that belong to no byte.

## Main definitions

* `Base64.encode`, `Base64.decode?` — the writer and the reader.
* `Base64.decode?_encode` — reading what was written.
-/

namespace VeloxRag.Lib.Base64

def alphabet : List Char :=
  "ABCDEFGHIJKLMNOPQRSTUVWXYZabcdefghijklmnopqrstuvwxyz0123456789-_".toList

/-- The letter of six bits. -/
def letter (n : ℕ) : Char := alphabet.getD n 'A'

def value? (c : Char) : Option ℕ := if c ∈ alphabet then some (alphabet.idxOf c) else none

def encode : List UInt8 → List Char
  | [] => []
  | [a] => [letter (a.toNat / 4), letter (a.toNat % 4 * 16)]
  | [a, b] =>
      [letter (a.toNat / 4), letter (a.toNat % 4 * 16 + b.toNat / 16), letter (b.toNat % 16 * 4)]
  | a :: b :: c :: rest =>
      letter (a.toNat / 4) :: letter (a.toNat % 4 * 16 + b.toNat / 16)
        :: letter (b.toNat % 16 * 4 + c.toNat / 64) :: letter (c.toNat % 64) :: encode rest

def decode? : List Char → Option (List UInt8)
  | [] => some []
  | [_] => none
  | [w, x] => do
      let w ← value? w
      let x ← value? x
      pure [UInt8.ofNat (w * 4 + x / 16)]
  | [w, x, y] => do
      let w ← value? w
      let x ← value? x
      let y ← value? y
      pure [UInt8.ofNat (w * 4 + x / 16), UInt8.ofNat (x % 16 * 16 + y / 4)]
  | w :: x :: y :: z :: rest => do
      let w ← value? w
      let x ← value? x
      let y ← value? y
      let z ← value? z
      let tail ← decode? rest
      pure (UInt8.ofNat (w * 4 + x / 16) :: UInt8.ofNat (x % 16 * 16 + y / 4)
        :: UInt8.ofNat (y % 4 * 64 + z) :: tail)

theorem value?_letter {n : ℕ} (h : n < 64) : value? (letter n) = some n := by
  have hall : ∀ n < 64, value? (letter n) = some n := by decide +kernel
  exact hall n h

theorem letter_mem (n : ℕ) : letter n ∈ alphabet := by
  by_cases h : n < 64
  · have hlength : n < alphabet.length := h
    rw [letter, List.getD_eq_getElem _ _ hlength]
    exact List.getElem_mem hlength
  · have hlength : alphabet.length = 64 := by decide
    rw [letter, List.getD_eq_default _ _ (by omega)]
    decide

theorem mem_alphabet_of_mem_encode {bytes : List UInt8} {c : Char} (h : c ∈ encode bytes) :
    c ∈ alphabet := by
  fun_induction encode bytes with
  | case1 => cases h
  | case2 a | case3 a b =>
      simp only [List.mem_cons, List.not_mem_nil, or_false] at h
      rcases h with rfl | rfl | rfl <;> exact letter_mem _
  | case4 a b d rest ih =>
      simp only [List.mem_cons] at h
      rcases h with rfl | rfl | rfl | rfl | h
      · exact letter_mem _
      · exact letter_mem _
      · exact letter_mem _
      · exact letter_mem _
      · exact ih h

theorem length_encode (bytes : List UInt8) : (encode bytes).length = (bytes.length * 4 + 2) / 3 := by
  fun_induction encode bytes with
  | case1 => rfl
  | case2 a | case3 a b => simp only [List.length_cons, List.length_nil]
  | case4 a b d rest ih =>
      simp only [List.length_cons, ih]
      omega

theorem ofNat_toNat {a : UInt8} {n : ℕ} (h : n = a.toNat) : UInt8.ofNat n = a := by
  rw [h, UInt8.ofNat_toNat]

/-- **What was written reads back.** -/
theorem decode?_encode (bytes : List UInt8) : decode? (encode bytes) = some bytes := by
  fun_induction encode bytes with
  | case1 => rfl
  | case2 a =>
      have ha := a.toNat_lt
      rw [decode?, value?_letter (by omega), value?_letter (by omega)]
      simp only [Option.bind_eq_bind, Option.bind_some, Option.pure_def]
      rw [ofNat_toNat (a := a) (by omega)]
  | case3 a b =>
      have ha := a.toNat_lt
      have hb := b.toNat_lt
      rw [decode?, value?_letter (by omega), value?_letter (by omega), value?_letter (by omega)]
      simp only [Option.bind_eq_bind, Option.bind_some, Option.pure_def]
      rw [ofNat_toNat (a := a) (by omega), ofNat_toNat (a := b) (by omega)]
  | case4 a b c rest ih =>
      have ha := a.toNat_lt
      have hb := b.toNat_lt
      have hc := c.toNat_lt
      rw [decode?, value?_letter (by omega), value?_letter (by omega), value?_letter (by omega),
        value?_letter (by omega), ih]
      simp only [Option.bind_eq_bind, Option.bind_some, Option.pure_def]
      rw [ofNat_toNat (a := a) (by omega), ofNat_toNat (a := b) (by omega),
        ofNat_toNat (a := c) (by omega)]

end VeloxRag.Lib.Base64
