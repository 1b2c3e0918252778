import VeloxRag.Lib.JsonRoundTrip

/-!
# Decimal numbers

A finite decimal is a sign, a coefficient and an exponent of ten; many of them have one value.  The
one whose coefficient does not end in a zero is unique.

## Main definitions

* `Decimal`, `Decimal.value`, `PyDecimal`, `decimalOfText` — decimals, and reading one.
* `dropZeros` — the zeros at the end of a coefficient, moved to the exponent.
* `Decimal.value_eq_iff` — equal values are those of equal reduced decimals.
-/

namespace VeloxRag.Lib

/-- A finite decimal. -/
structure Decimal where
  negative : Bool
  coefficient : ℕ
  exponent : ℤ
deriving DecidableEq

/-- A decimal of Python; `special` is an infinity or no number. -/
inductive PyDecimal
  | finite (d : Decimal)
  | special
deriving DecidableEq

/-- The exact value. -/
def Decimal.value (d : Decimal) : ℚ :=
  (if d.negative then -1 else 1) * (d.coefficient * (10 : ℚ) ^ d.exponent)

/-- The digits of the coefficient, as `as_tuple().digits` has them. -/
def Decimal.digits (d : Decimal) : List ℕ :=
  if d.coefficient = 0 then [0] else (Nat.digits 10 d.coefficient).reverse

/-! ## Reading a decimal -/

/-- The exponent of a literal. -/
def exponentValue (exponent : List Char) : ℤ :=
  let signed := Json.takeSign ['-', '+'] exponent.tail
  let n := Nat.ofDigitChars 10 signed.2 0
  if signed.1 = ['-'] then -(n : ℤ) else n

/-- `Decimal(text)` of a text that `str` writes for a number. -/
def decimalOfText (text : List Char) : Option PyDecimal :=
  let signed := Json.takeSign ['-', '+'] text
  let integer := signed.2.takeWhile isDigit
  let (fraction, rest) := Json.readFraction (signed.2.dropWhile isDigit)
  let (exponent, rest) := Json.readExponent rest
  if integer = [] ∨ rest ≠ [] then
    if signed.2 = "inf".toList ∨ signed.2 = "nan".toList then some .special else none
  else some (.finite {
    negative := decide (signed.1 = ['-'])
    coefficient := Nat.ofDigitChars 10 (integer ++ fraction.tail) 0
    exponent := exponentValue exponent - fraction.tail.length })

/-- An integer is read as itself. -/
theorem decimalOfText_decimal (n : ℤ) :
    decimalOfText (Json.decimal n) = some (.finite ⟨decide (n < 0), n.natAbs, 0⟩) := by
  have hread : ∀ (sign : List Char) (m : ℕ), (sign = [] ∨ sign = ['-']) →
      decimalOfText (sign ++ Nat.toDigits 10 m) = some (.finite ⟨decide (sign = ['-']), m, 0⟩) := by
    intro sign m hsign
    have hdigits : ∀ c ∈ Nat.toDigits 10 m, isDigit c = true := Json.isDigit_toDigits
    have hsigned : Json.takeSign ['-', '+'] (sign ++ Nat.toDigits 10 m) = (sign, Nat.toDigits 10 m) := by
      apply Json.takeSign_eq
      · rcases hsign with rfl | rfl
        · exact .inl rfl
        · exact .inr ⟨'-', by simp, rfl⟩
      · intro c hc
        have := Json.isDigit_ne (hdigits c (List.mem_of_mem_head? hc))
        simp [this.1, this.2]
    have htake : (Nat.toDigits 10 m).takeWhile isDigit = Nat.toDigits 10 m :=
      List.takeWhile_eq_self_iff.mpr hdigits
    have hdrop : (Nat.toDigits 10 m).dropWhile isDigit = [] :=
      List.dropWhile_eq_nil_iff.mpr hdigits
    simp only [decimalOfText, hsigned, htake, hdrop, Json.readFraction, Json.readExponent,
      Nat.toDigits_ne_nil, List.tail_nil, List.append_nil, Nat.ofDigitChars_ten_toDigits,
      ne_eq, not_true_eq_false, or_self, if_false]
    simp [exponentValue, Json.takeSign]
  cases n with
  | ofNat n => exact hread [] n (.inl rfl)
  | negSucc n =>
    have hneg : decide (Int.negSucc n < 0) = decide (['-'] = ['-']) := by simp [Int.negSucc_lt_zero]
    rw [hneg]
    exact hread ['-'] (n + 1) (.inr rfl)

/-- A literal of a number is read as a finite decimal. -/
theorem decimalOfText_literal {integer fraction exponent : List Char} (hi : IsInteger integer)
    (hf : IsFraction fraction) (he : IsExponent exponent) :
    ∃ d, decimalOfText (integer ++ (fraction ++ exponent)) = some (.finite d) := by
  obtain ⟨sign, digits, rfl, hsign, hne, hdigits, -⟩ := hi
  have hexp : ∀ c, exponent.head? = some c → isDigit c = false ∧ c ≠ '.' := by
    intro c hc
    rcases he with rfl | ⟨e, sign, digits, rfl, he, _⟩
    · cases hc
    · obtain rfl : e = c := by simpa using hc
      rcases he with rfl | rfl <;> decide
  have hfrac : ∀ c, (fraction ++ exponent).head? = some c → isDigit c = false := by
    intro c hc
    rcases hf with rfl | ⟨digits, rfl, _⟩
    · exact (hexp c (by simpa using hc)).1
    · obtain rfl : '.' = c := by simpa using hc
      decide
  have hsigned : Json.takeSign ['-', '+'] (sign ++ (digits ++ (fraction ++ exponent))) =
      (sign, digits ++ (fraction ++ exponent)) := by
    apply Json.takeSign_eq
    · rcases hsign with h | h
      · exact .inl h
      · exact .inr ⟨'-', by simp, h⟩
    · intro c hc
      obtain ⟨d, ds, rfl⟩ := List.exists_cons_of_ne_nil hne
      obtain rfl : d = c := by simpa using hc
      have := Json.isDigit_ne (hdigits d List.mem_cons_self)
      simp [this.1, this.2]
  obtain ⟨htake, hdrop⟩ := Json.takeWhile_digits hdigits hfrac
  have hfraction := Json.readFraction_eq hf hexp
  have hexponent := @Json.readExponent_eq exponent [] he (by simp)
  rw [List.append_nil] at hexponent
  simp only [decimalOfText, List.append_assoc, hsigned, htake, hdrop, hfraction, hexponent, hne,
    ne_eq, not_true_eq_false, or_self, if_false]
  exact ⟨_, rfl⟩

theorem value_int (n : ℤ) : Decimal.value ⟨decide (n < 0), n.natAbs, 0⟩ = n := by
  rw [Decimal.value, zpow_zero, mul_one]
  dsimp only
  by_cases hn : n < 0
  · simp only [hn, decide_true, if_true]
    have : ((n.natAbs : ℤ) : ℚ) = ((-n : ℤ) : ℚ) := by rw [Int.ofNat_natAbs_of_nonpos hn.le]
    push_cast at this
    rw [Nat.cast_natAbs, abs_of_neg hn]
    push_cast
    ring
  · simp only [hn, decide_false, Bool.false_eq_true, if_false, one_mul]
    rw [Nat.cast_natAbs, abs_of_nonneg (not_lt.mp hn)]

/-! ## Reduced decimals -/

/-- The zeros at the end of the digits, last digit first, moved to the exponent; `none` when no
digit is left. -/
def dropZeros : List ℕ → ℤ → Option (List ℕ × ℤ)
  | [], _ => none
  | digit :: digits, exponent =>
    if digit = 0 then dropZeros digits (exponent + 1) else some (digit :: digits, exponent)

/-- **A number that is not zero** has a last digit that is not zero. -/
theorem dropZeros_digits {n : ℕ} (hn : n ≠ 0) (exponent : ℤ) :
    ∃ m k : ℕ, dropZeros (Nat.digits 10 n) exponent = some (Nat.digits 10 m, exponent + k) ∧
      n = m * 10 ^ k ∧ ¬ 10 ∣ m := by
  induction n using Nat.strong_induction_on generalizing exponent with
  | _ n ih =>
    rw [Nat.digits_def' (by decide) (Nat.pos_of_ne_zero hn), dropZeros]
    by_cases hzero : n % 10 = 0
    · have hdiv : n = n / 10 * 10 := by omega
      obtain ⟨m, k, hdrop, hnm, hnot⟩ := ih (n / 10) (by omega) (by omega) (exponent + 1)
      refine ⟨m, k + 1, ?_, ?_, hnot⟩
      · rw [if_pos hzero, hdrop]
        push_cast
        rw [add_assoc, add_comm (1 : ℤ)]
      · rw [pow_succ, ← mul_assoc, ← hnm]
        exact hdiv
    · refine ⟨n, 0, ?_, by simp, fun hdvd => hzero (Nat.mod_eq_zero_of_dvd hdvd)⟩
      rw [if_neg hzero, Nat.digits_def' (by decide) (Nat.pos_of_ne_zero hn)]
      simp

/-- A coefficient that is no multiple of ten and its exponent are determined by the product. -/
theorem eq_of_coefficient_mul {m m' : ℕ} {e e' : ℤ} (hm : ¬ 10 ∣ m) (hm' : ¬ 10 ∣ m')
    (h : (m : ℚ) * (10 : ℚ) ^ e = m' * (10 : ℚ) ^ e') : m = m' ∧ e = e' := by
  have hle : ∀ {a b : ℕ} {i j : ℤ}, (a : ℚ) * (10 : ℚ) ^ i = b * (10 : ℚ) ^ j → j ≤ i →
      a = b ∧ i = j ∨ 10 ∣ b := by
    intro a b i j hab hij
    obtain ⟨k, hk⟩ := Int.eq_ofNat_of_zero_le (sub_nonneg.mpr hij)
    have hi : i = j + (k : ℤ) := by omega
    subst hi
    have hten : (10 : ℚ) ^ j ≠ 0 := zpow_ne_zero _ (by norm_num)
    rw [zpow_add₀ (by norm_num), zpow_natCast, mul_comm ((10 : ℚ) ^ j), ← mul_assoc] at hab
    have heq : a * 10 ^ k = b := by
      have := mul_right_cancel₀ hten hab
      exact_mod_cast this
    cases k with
    | zero => exact .inl ⟨by simpa using heq, by simp⟩
    | succ k =>
      right
      rw [← heq, pow_succ, ← mul_assoc]
      exact Nat.dvd_mul_left 10 _
  rcases le_total e' e with hee | hee
  · rcases hle h hee with ⟨hmm, heq⟩ | hdvd
    · exact ⟨hmm, heq⟩
    · exact absurd hdvd hm'
  · rcases hle h.symm hee with ⟨hmm, heq⟩ | hdvd
    · exact ⟨hmm.symm, heq.symm⟩
    · exact absurd hdvd hm

theorem Decimal.value_eq_zero {d : Decimal} : d.value = 0 ↔ d.coefficient = 0 := by
  have hten : (10 : ℚ) ^ d.exponent ≠ 0 := zpow_ne_zero _ (by norm_num)
  rw [Decimal.value]
  cases d.negative <;> simp [hten]

/-- **Reduced decimals** with one value are equal. -/
theorem Decimal.value_eq_iff {d d' : Decimal} (hd : ¬ 10 ∣ d.coefficient)
    (hd' : ¬ 10 ∣ d'.coefficient) : d.value = d'.value ↔ d = d' := by
  constructor
  · intro h
    obtain ⟨negative, m, e⟩ := d
    obtain ⟨negative', m', e'⟩ := d'
    dsimp only at hd hd'
    have hpos : ∀ {n : ℕ} (i : ℤ), ¬ 10 ∣ n → 0 < (n : ℚ) * (10 : ℚ) ^ i := by
      intro n i hn
      have hn0 : 0 < n := Nat.pos_of_ne_zero fun h0 => hn (h0 ▸ dvd_zero 10)
      positivity
    have hlt := hpos e hd
    have hlt' := hpos e' hd'
    simp only [Decimal.value] at h
    cases negative <;> cases negative' <;>
      simp only [Bool.false_eq_true, if_true, if_false, one_mul, neg_mul, neg_inj] at h
    · obtain ⟨rfl, rfl⟩ := eq_of_coefficient_mul hd hd' h
      rfl
    · linarith
    · linarith
    · obtain ⟨rfl, rfl⟩ := eq_of_coefficient_mul hd hd' h
      rfl
  · rintro rfl
    rfl

end VeloxRag.Lib
