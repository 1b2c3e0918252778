import VeloxRag.Lib.Json

/-!
# Reading back what was written

Whatever `Json.dumps` writes for a value, `Json.loads` reads as that value.  A value can
be followed by anything that does not continue a number, so the statement that goes
through the induction leaves a rest behind it.

## Main definitions

* `Json.induction_on` — induction over values, with all items and members at once.
* `Json.Stops` — what may follow a value.
* `Json.readValue_dumps`, `Json.loads_dumps` — reading back.
* `Json.sorted_sorted`, `Json.uniqueKeys_sorted`, `Json.pyEq_sorted` — sorting and equality.
-/

namespace VeloxRag.Lib

namespace Json

variable {F : Type}

/-- Induction over values, with all items of an array and all members of an object at once. -/
theorem induction_on {P : Json F → Prop} (hnull : P .null) (hbool : ∀ b, P (.bool b))
    (hint : ∀ n, P (.int n)) (hfloat : ∀ f, P (.float f)) (hstr : ∀ s, P (.str s))
    (harr : ∀ xs, (∀ x ∈ xs, P x) → P (.arr xs))
    (hobj : ∀ ms, (∀ m ∈ ms, P m.2) → P (.obj ms)) : ∀ v, P v := by
  intro v
  refine @Json.rec F P (fun xs => ∀ x ∈ xs, P x) (fun ms => ∀ m ∈ ms, P m.2) (fun m => P m.2)
    hnull hbool hint hfloat hstr harr hobj (by simp) ?_ (by simp) ?_ (fun _ _ hv => hv) v
  · intro x xs hx hxs
    exact List.forall_mem_cons.mpr ⟨hx, hxs⟩
  · intro m ms hm hms
    exact List.forall_mem_cons.mpr ⟨hm, hms⟩

/-! ## Strings -/

theorem hexValue_hexDigit {n : ℕ} (h : n < 16) : hexValue (hexDigit n) = some n := by
  have hall : ∀ m : Fin 16, hexValue (hexDigit m) = some m.val := by decide
  exact hall ⟨n, h⟩

theorem charOfCode_toNat (c : Char) : charOfCode c.toNat = some c := by
  have hv : c.toNat.isValidChar := c.valid
  simp only [charOfCode, hv, dif_pos]
  congr 1

/-- An escape is read as the character it was written for. -/
theorem escaped_control {c : Char} (hc : c.toNat < 0x20) (rest : List Char) :
    escaped ('u' :: '0' :: '0' :: hexDigit (c.toNat / 16) :: hexDigit (c.toNat % 16) :: rest) =
      some (c, rest) := by
  have h0 : hexValue '0' = some 0 := by decide
  have h1 := hexValue_hexDigit (show c.toNat / 16 < 16 by omega)
  have h2 := hexValue_hexDigit (show c.toNat % 16 < 16 by omega)
  have hn : ((0 * 16 + 0) * 16 + c.toNat / 16) * 16 + c.toNat % 16 = c.toNat := by omega
  simp only [escaped, hex4, h0, h1, h2, Option.bind_eq_bind, Option.bind_some, Option.pure_def, hn,
    unitEscape, show ¬ (0xd800 ≤ c.toNat ∧ c.toNat ≤ 0xdbff) by omega, if_false, charOfCode_toNat]

/-- One character of a string. -/
theorem readStr_escapeChar (c : Char) (fuel : ℕ) (rest : List Char) :
    readStr (fuel + 1) (escapeChar c ++ rest) =
      (readStr fuel rest).map fun r => (c :: r.1, r.2) := by
  have hback : ∀ (x : Char) (tail : List Char), escaped (x :: tail) = some (c, rest) →
      readStr (fuel + 1) ('\x5c' :: x :: tail) = (readStr fuel rest).map fun r => (c :: r.1, r.2) := by
    intro x tail h
    simp only [readStr, show ¬ ('\x5c' : Char) = '\x22' by decide, if_false, if_true, h,
      Option.bind_eq_bind, Option.bind_some, Option.pure_def]
    cases readStr fuel rest <;> rfl
  unfold escapeChar
  split
  · rename_i h; subst h; exact hback _ _ rfl
  split
  · rename_i h; subst h; exact hback _ _ rfl
  split
  · rename_i h; subst h; exact hback _ _ rfl
  split
  · rename_i h; subst h; exact hback _ _ rfl
  split
  · rename_i h; subst h; exact hback _ _ rfl
  split
  · rename_i h; subst h; exact hback _ _ rfl
  split
  · rename_i h; subst h; exact hback _ _ rfl
  split
  · rename_i hc
    exact hback _ _ (escaped_control hc rest)
  · rename_i h1 h2 _ _ _ _ _ h3
    simp only [List.singleton_append, readStr, h1, h2, h3, if_false, Option.bind_eq_bind,
      Option.pure_def]
    cases readStr fuel rest <;> rfl

theorem readStr_dumps (s rest : List Char) : ∀ fuel, s.length < fuel →
    readStr fuel (s.flatMap escapeChar ++ '\x22' :: rest) = some (s, rest) := by
  induction s with
  | nil =>
      intro fuel hfuel
      obtain ⟨fuel, rfl⟩ : ∃ m, fuel = m + 1 := ⟨fuel - 1, by simp at hfuel; omega⟩
      simp [readStr]
  | cons c s ih =>
      intro fuel hfuel
      rw [List.length_cons] at hfuel
      obtain ⟨fuel, rfl⟩ : ∃ m, fuel = m + 1 := ⟨fuel - 1, by omega⟩
      rw [List.flatMap_cons, List.append_assoc, readStr_escapeChar, ih fuel (by omega)]
      rfl

theorem length_le_escape (s : List Char) : s.length ≤ (s.flatMap escapeChar).length := by
  induction s with
  | nil => simp
  | cons c s ih =>
      have hc : 1 ≤ (escapeChar c).length := by
        unfold escapeChar
        repeat' split
        all_goals simp
      rw [List.flatMap_cons, List.length_append, List.length_cons]
      omega

/-- A quoted string inside a text. -/
theorem readStr_quoted (s rest : List Char) :
    readStr (s.flatMap escapeChar ++ '\x22' :: rest).length (s.flatMap escapeChar ++ '\x22' :: rest) =
      some (s, rest) := by
  refine readStr_dumps s rest _ ?_
  have := length_le_escape s
  rw [List.length_append, List.length_cons]
  omega

/-! ## Numbers -/

/-- What may follow a value: nothing that continues a number. -/
def Stops (rest : List Char) : Prop :=
  ∀ c, rest.head? = some c → isDigit c = false ∧ c ≠ '.' ∧ c ≠ 'e' ∧ c ≠ 'E'

theorem stops_cons {c : Char} {rest : List Char}
    (h : isDigit c = false ∧ c ≠ '.' ∧ c ≠ 'e' ∧ c ≠ 'E') : Stops (c :: rest) := by
  intro c' hc'
  have : c = c' := by simpa using hc'
  rw [← this]
  exact h

theorem takeWhile_digits {digits rest : List Char} (hd : ∀ c ∈ digits, isDigit c = true)
    (hr : ∀ c, rest.head? = some c → isDigit c = false) :
    (digits ++ rest).takeWhile isDigit = digits ∧ (digits ++ rest).dropWhile isDigit = rest := by
  have hnil : rest.takeWhile isDigit = [] ∧ rest.dropWhile isDigit = rest := by
    cases rest with
    | nil => exact ⟨rfl, rfl⟩
    | cons c rest =>
        have := hr c rfl
        simp [this]
  constructor
  · rw [List.takeWhile_append_of_pos hd, hnil.1, List.append_nil]
  · rw [List.dropWhile_append_of_pos hd, hnil.2]

theorem isDigit_ne {c : Char} (h : isDigit c = true) : c ≠ '-' ∧ c ≠ '+' := by
  simp only [isDigit, decide_eq_true_eq] at h
  constructor <;> (rintro rfl; revert h; decide)

theorem takeSign_eq {allowed sign body : List Char}
    (hs : sign = [] ∨ ∃ c ∈ allowed, sign = [c]) (hb : ∀ c, body.head? = some c → c ∉ allowed) :
    takeSign allowed (sign ++ body) = (sign, body) := by
  rcases hs with rfl | ⟨c, hc, rfl⟩
  · cases body with
    | nil => rfl
    | cons c body => simp [takeSign, hb c rfl]
  · simp [takeSign, hc]

theorem readInteger_eq {integer rest : List Char} (h : IsInteger integer)
    (hr : ∀ c, rest.head? = some c → isDigit c = false) :
    readInteger (integer ++ rest) = some (integer, rest) := by
  obtain ⟨sign, digits, rfl, hsign, hne, hd, hzero⟩ := h
  obtain ⟨d, ds, rfl⟩ := List.exists_cons_of_ne_nil hne
  have hd0 := isDigit_ne (hd d (by simp))
  obtain ⟨htake, hdrop⟩ := takeWhile_digits hd hr
  have htaken : takeSign ['-'] (sign ++ (d :: ds) ++ rest) = (sign, d :: ds ++ rest) := by
    rw [List.append_assoc]
    refine takeSign_eq ?_ ?_
    · exact hsign.imp id fun h => ⟨'-', by simp, h⟩
    · intro c hc
      obtain rfl : d = c := by simpa using hc
      simp [hd0.1]
  simp only [readInteger, htaken]
  rw [List.cons_append] at htake hdrop ⊢
  by_cases h0 : d = '0'
  · have hds : ds = [] := by
      rcases hzero with h | h
      · simpa using (List.cons_eq_cons.mp h).2
      · simp [h0] at h
    subst h0 hds
    rfl
  · split
    · rename_i heq
      simp only [List.cons.injEq] at heq
      exact absurd heq.1 h0
    · rw [htake, hdrop]

theorem readFraction_eq {fraction rest : List Char} (h : IsFraction fraction)
    (hr : ∀ c, rest.head? = some c → isDigit c = false ∧ c ≠ '.') :
    readFraction (fraction ++ rest) = (fraction, rest) := by
  rcases h with rfl | ⟨digits, rfl, hne, hd⟩
  · cases rest with
    | nil => rfl
    | cons c rest =>
        have hc := (hr c rfl).2
        simp only [List.nil_append, readFraction]
        split
        · rename_i heq
          simp only [List.cons.injEq] at heq
          exact absurd heq.1 hc
        · rfl
  · obtain ⟨htake, hdrop⟩ := takeWhile_digits hd (fun c hc => (hr c hc).1)
    obtain ⟨d, ds, rfl⟩ := List.exists_cons_of_ne_nil hne
    simp only [List.cons_append] at htake hdrop ⊢
    simp only [readFraction, htake, hdrop]

theorem readExponent_eq {exponent rest : List Char} (h : IsExponent exponent)
    (hr : ∀ c, rest.head? = some c → isDigit c = false ∧ c ≠ 'e' ∧ c ≠ 'E') :
    readExponent (exponent ++ rest) = (exponent, rest) := by
  rcases h with rfl | ⟨e, sign, digits, rfl, he, hsign, hne, hd⟩
  · cases rest with
    | nil => rfl
    | cons c rest =>
        have hc := hr c rfl
        simp [readExponent, hc.2.1, hc.2.2]
  · obtain ⟨htake, hdrop⟩ := takeWhile_digits hd (fun c hc => (hr c hc).1)
    obtain ⟨d, ds, rfl⟩ := List.exists_cons_of_ne_nil hne
    have hd0 := isDigit_ne (hd d (by simp))
    have htaken : takeSign ['-', '+'] (sign ++ (d :: ds) ++ rest) = (sign, d :: ds ++ rest) := by
      rw [List.append_assoc]
      refine takeSign_eq ?_ ?_
      · rcases hsign with h | h | h
        · exact .inl h
        · exact .inr ⟨'-', by simp, h⟩
        · exact .inr ⟨'+', by simp, h⟩
      · intro c hc
        obtain rfl : d = c := by simpa using hc
        simp [hd0.1, hd0.2]
    simp only [List.cons_append, readExponent, he, if_true, htaken] at htake hdrop ⊢
    rw [htake, hdrop]

theorem toDigits_head {n : ℕ} (hn : 0 < n) : (Nat.toDigits 10 n).head? ≠ some '0' := by
  induction n using Nat.strong_induction_on with
  | _ n ih =>
      rcases Nat.lt_or_ge n 10 with hlt | hge
      · rw [Nat.toDigits_of_lt_base hlt]
        have hall : ∀ m : Fin 10, 0 < m.val → ([Nat.digitChar m.val] : List Char).head? ≠ some '0' := by
          decide
        exact hall ⟨n, hlt⟩ hn
      · rw [Nat.toDigits_of_base_le (by omega) hge,
          List.head?_append_of_ne_nil _ Nat.toDigits_ne_nil]
        exact ih (n / 10) (by omega) (by omega)

theorem isDigit_toDigits {n : ℕ} : ∀ c ∈ Nat.toDigits 10 n, isDigit c = true := by
  intro c hc
  have h := Nat.isDigit_of_mem_toDigits (by omega) (le_refl 10) hc
  simp only [Char.isDigit, Bool.and_eq_true, decide_eq_true_eq] at h
  simp only [isDigit, decide_eq_true_eq]
  exact h

theorem isInteger_decimal (n : ℤ) : IsInteger (decimal n) := by
  have hzero : ∀ m : ℕ, Nat.toDigits 10 m = ['0'] ∨ (Nat.toDigits 10 m).head? ≠ some '0' := by
    intro m
    rcases Nat.eq_zero_or_pos m with rfl | hm
    · exact .inl rfl
    · exact .inr (toDigits_head hm)
  cases n with
  | ofNat n =>
      exact ⟨[], _, rfl, .inl rfl, Nat.toDigits_ne_nil, isDigit_toDigits, hzero n⟩
  | negSucc n =>
      exact ⟨['-'], _, rfl, .inr rfl, Nat.toDigits_ne_nil, isDigit_toDigits, hzero (n + 1)⟩

theorem takeSign_toDigits (sign : List Char) (n : ℕ) (hs : sign = [] ∨ sign = ['-']) :
    takeSign ['-'] (sign ++ Nat.toDigits 10 n) = (sign, Nat.toDigits 10 n) := by
  refine takeSign_eq (hs.imp id fun h => ⟨'-', by simp, h⟩) ?_
  intro c hc
  have := (isDigit_ne (isDigit_toDigits c (List.mem_of_mem_head? hc))).1
  simpa using this

theorem intOfLiteral_decimal {n : ℤ} (h : (Nat.toDigits 10 n.natAbs).length ≤ maxIntDigits) :
    intOfLiteral (decimal n) = some n := by
  cases n with
  | ofNat n =>
      have h' : (Nat.toDigits 10 n).length ≤ maxIntDigits := h
      have hs := takeSign_toDigits [] n (.inl rfl)
      rw [List.nil_append] at hs
      simp only [intOfLiteral, decimal, hs, h', if_true, Nat.ofDigitChars_ten_toDigits]
      simp
  | negSucc n =>
      have h' : (Nat.toDigits 10 (n + 1)).length ≤ maxIntDigits := h
      have hs := takeSign_toDigits ['-'] (n + 1) (.inr rfl)
      simp only [List.singleton_append] at hs
      simp only [intOfLiteral, decimal, hs, h', if_true, Nat.ofDigitChars_ten_toDigits]
      rfl

/-! ## Values -/

section Values

variable {ops : FloatOps F}

/-- A number is read where its text begins as a number does. -/
theorem readValue_number {c : Char} (hc : isDigit c = true ∨ c = '-') (fuel : ℕ) (s : List Char) :
    readValue ops (fuel + 1) (c :: s) = readNumber ops (c :: s) := by
  have hne : ∀ d : Char, d ≠ '-' → isDigit d = false → c ≠ d := by
    rintro d hd hdigit rfl
    rcases hc with hc | hc
    · exact absurd hc (by simp [hdigit])
    · exact hd hc
  have h1 := hne '\x22' (by decide) (by decide)
  have h2 := hne '\x7b' (by decide) (by decide)
  have h3 := hne '[' (by decide) (by decide)
  have h4 : c ≠ 'n' := hne 'n' (by decide) (by decide)
  have h5 : c ≠ 't' := hne 't' (by decide) (by decide)
  have h6 : c ≠ 'f' := hne 'f' (by decide) (by decide)
  have hword : ∀ (d : Char) (word : List Char), word.head? = some d → c ≠ d →
      ¬ word <+: (c :: s) := by
    rintro d word hhead hd ⟨tail, htail⟩
    cases word with
    | nil => cases hhead
    | cons w word =>
        obtain rfl : w = d := by simpa using hhead
        exact hd (List.cons_eq_cons.mp htail).1.symm
  have hfirst : ∀ (d : Char) (rest : List Char), c ≠ d → c :: s = d :: rest → False :=
    fun d rest hd heq => hd (List.cons_eq_cons.mp heq).1
  rw [readValue, if_neg (hword 'n' _ rfl h4), if_neg (hword 't' _ rfl h5),
    if_neg (hword 'f' _ rfl h6)]
  · exact fun rest => hfirst _ rest h1
  · exact fun rest => hfirst _ rest h2
  · exact fun rest => hfirst _ rest h3

theorem isInteger_head {integer : List Char} (h : IsInteger integer) :
    ∃ c tail, integer = c :: tail ∧ (isDigit c = true ∨ c = '-') := by
  obtain ⟨sign, digits, rfl, hsign, hne, hd, _⟩ := h
  rcases hsign with rfl | rfl
  · obtain ⟨d, ds, rfl⟩ := List.exists_cons_of_ne_nil hne
    exact ⟨d, ds, rfl, .inl (hd d (by simp))⟩
  · exact ⟨'-', digits, rfl, .inr rfl⟩

/-- A literal is read as the integer or the floating-point number it stands for. -/
theorem readNumber_eq {integer fraction exponent rest : List Char} (hi : IsInteger integer)
    (hf : IsFraction fraction) (he : IsExponent exponent) (hr : Stops rest) :
    readNumber ops (integer ++ (fraction ++ exponent) ++ rest) =
      if fraction = [] ∧ exponent = [] then (intOfLiteral integer).map fun n => (.int n, rest)
      else some (.float (ops.ofLiteral (integer ++ (fraction ++ exponent))), rest) := by
  have hexp : ∀ c, (exponent ++ rest).head? = some c → isDigit c = false ∧ c ≠ '.' := by
    intro c hc
    rcases he with rfl | ⟨e, sign, digits, rfl, he, _⟩
    · exact ⟨(hr c (by simpa using hc)).1, (hr c (by simpa using hc)).2.1⟩
    · obtain rfl : e = c := by simpa using hc
      rcases he with rfl | rfl <;> decide
  have hfrac : ∀ c, (fraction ++ (exponent ++ rest)).head? = some c → isDigit c = false := by
    intro c hc
    rcases hf with rfl | ⟨digits, rfl, _⟩
    · exact (hexp c (by simpa using hc)).1
    · obtain rfl : '.' = c := by simpa using hc
      decide
  have h1 := readInteger_eq hi hfrac
  have h2 := readFraction_eq hf hexp
  have h3 := readExponent_eq he fun c hc => ⟨(hr c hc).1, (hr c hc).2.2⟩
  simp only [List.append_assoc, readNumber, h1, h2, h3]
  split
  · cases intOfLiteral integer <;> rfl
  · rfl

/-- The first character of a written value: no space, and not the end of an array. -/
theorem dumps_head (laws : FloatLaws ops) {v : Json F} {s : List Char} (h : dumps ops v = some s) :
    ∃ c tail, s = c :: tail ∧ isJsonSpace c = false ∧ c ≠ ']' := by
  have hnumber : ∀ c : Char, isDigit c = true ∨ c = '-' → isJsonSpace c = false ∧ c ≠ ']' := by
    intro c hc
    constructor
    · by_contra hspace
      simp only [isJsonSpace, Bool.not_eq_false, Bool.or_eq_true, decide_eq_true_eq] at hspace
      rcases hspace with ((rfl | rfl) | rfl) | rfl <;> exact absurd hc (by decide)
    · rintro rfl
      exact absurd hc (by decide)
  cases v with
  | null => cases h; exact ⟨_, _, rfl, by decide, by decide⟩
  | bool b => cases b <;> (cases h; exact ⟨_, _, rfl, by decide, by decide⟩)
  | int n =>
      simp only [dumps, dumpsInt] at h
      split at h
      · cases h
        obtain ⟨c, tail, heq, hc⟩ := isInteger_head (isInteger_decimal n)
        exact ⟨c, tail, heq, hnumber c hc⟩
      · cases h
  | float f =>
      simp only [dumps] at h
      split at h
      · rename_i hfin
        cases h
        obtain ⟨integer, fraction, exponent, heq, hi, _⟩ := laws.repr_literal f hfin
        obtain ⟨c, tail, rfl, hc⟩ := isInteger_head hi
        exact ⟨c, _, heq, hnumber c hc⟩
      · cases h
  | str s => cases h; exact ⟨_, _, rfl, by decide, by decide⟩
  | arr xs =>
      cases xs with
      | nil => cases h; exact ⟨_, _, rfl, by decide, by decide⟩
      | cons x xs =>
          simp only [dumps, Option.bind_eq_bind, Option.bind_eq_some_iff, Option.pure_def,
            Option.some.injEq] at h
          obtain ⟨first, _, more, _, rfl⟩ := h
          exact ⟨_, _, rfl, by decide, by decide⟩
  | obj ms =>
      cases ms with
      | nil => cases h; exact ⟨_, _, rfl, by decide, by decide⟩
      | cons m ms =>
          simp only [dumps, Option.bind_eq_bind, Option.bind_eq_some_iff, Option.pure_def,
            Option.some.injEq] at h
          obtain ⟨first, _, more, _, rfl⟩ := h
          exact ⟨_, _, rfl, by decide, by decide⟩

theorem skipSpace_cons {c : Char} (hc : isJsonSpace c = false) (s : List Char) :
    skipSpace (c :: s) = c :: s := by
  simp [skipSpace, hc]

theorem uniqueKeysItems_iff (xs : List (Json F)) :
    UniqueKeysItems xs ↔ ∀ x ∈ xs, UniqueKeys x := by
  induction xs with
  | nil => exact iff_of_true trivial (by simp)
  | cons x xs ih =>
    rw [List.forall_mem_cons, ← ih]
    exact Iff.rfl

theorem uniqueKeysMembers_iff (ms : JsonMembers F) :
    UniqueKeysMembers ms ↔ ∀ m ∈ ms, UniqueKeys m.2 := by
  induction ms with
  | nil => exact iff_of_true trivial (by simp)
  | cons m ms ih =>
    rw [List.forall_mem_cons, ← ih]
    exact Iff.rfl

theorem uniqueKeys_arr {xs : List (Json F)} : UniqueKeys (.arr xs) ↔ ∀ x ∈ xs, UniqueKeys x :=
  uniqueKeysItems_iff xs

theorem uniqueKeys_obj {ms : JsonMembers F} :
    UniqueKeys (.obj ms) ↔ (ms.map (·.1)).Nodup ∧ ∀ m ∈ ms, UniqueKeys m.2 :=
  and_congr_right fun _ => uniqueKeysMembers_iff ms

/-- Reading a value back from what was written for it, whatever follows. -/
def ReadsBack (ops : FloatOps F) (v : Json F) : Prop :=
  ∀ s fuel rest, dumps ops v = some s → UniqueKeys v → s.length ≤ fuel → Stops rest →
    readValue ops fuel (s ++ rest) = some (v, rest)

theorem stops_comma (rest : List Char) : Stops (',' :: rest) := stops_cons (by decide)

theorem setKey_new {ms : JsonMembers F} {k : List Char} (hk : k ∉ ms.map (·.1)) (v : Json F) :
    setKey ms k v = ms ++ [(k, v)] := by
  have : ms.any (fun m => m.1 = k) = false := by
    rw [List.any_eq_false]
    intro m hm
    simp only [decide_eq_true_eq]
    rintro rfl
    exact hk (List.mem_map_of_mem hm)
  simp [setKey, this]

/-- Items, the first of which is `x`. -/
theorem readItems_dumps (laws : FloatLaws ops) (rest : List Char) (xs : List (Json F)) :
    ∀ (x : Json F) (done : List (Json F)) (first more : List Char) (fuel : ℕ),
    (∀ y ∈ x :: xs, ReadsBack ops y ∧ UniqueKeys y) → dumps ops x = some first →
    dumpsItems ops xs = some more → (first ++ more).length ≤ fuel →
    readItems ops fuel done (first ++ (more ++ rest)) = some (.arr (done ++ x :: xs), rest) := by
  induction xs with
  | nil =>
      intro x done first more fuel hback hfirst hmore hfuel
      obtain ⟨hx, hu⟩ := hback x (by simp)
      obtain rfl : [']'] = more := by simpa [dumpsItems] using hmore
      rw [List.length_append, List.length_singleton] at hfuel
      obtain ⟨fuel, rfl⟩ : ∃ m, fuel = m + 1 := ⟨fuel - 1, by omega⟩
      have hread := hx first fuel (']' :: rest) hfirst hu (by omega) (stops_cons (by decide))
      simp only [List.singleton_append, readItems, hread, Option.bind_eq_bind, Option.bind_some,
        skipSpace_cons (show isJsonSpace ']' = false by decide)]
  | cons y ys ih =>
      intro x done first more fuel hback hfirst hmore hfuel
      obtain ⟨hx, hu⟩ := hback x (by simp)
      simp only [dumpsItems, Option.bind_eq_bind, Option.bind_eq_some_iff, Option.pure_def,
        Option.some.injEq] at hmore
      obtain ⟨second, hsecond, more, hmore, rfl⟩ := hmore
      simp only [List.length_append, List.length_cons] at hfuel
      obtain ⟨fuel, rfl⟩ : ∃ m, fuel = m + 1 := ⟨fuel - 1, by omega⟩
      have hread := hx first fuel (',' :: (second ++ (more ++ rest))) hfirst hu (by omega)
        (stops_comma _)
      obtain ⟨c, tail, hhead, hspace, _⟩ := dumps_head laws hsecond
      have hskip : skipSpace (second ++ (more ++ rest)) = second ++ (more ++ rest) := by
        rw [hhead, List.cons_append, skipSpace_cons hspace]
      have hnext := ih y (done ++ [x]) second more fuel
        (fun z hz => hback z (List.mem_cons_of_mem _ hz)) hsecond hmore
        (by rw [List.length_append]; omega)
      simp only [List.append_assoc, List.singleton_append] at hnext
      simp only [List.cons_append, List.append_assoc, readItems, hread, Option.bind_eq_bind,
        Option.bind_some, skipSpace_cons (show isJsonSpace ',' = false by decide), hskip, hnext]

/-- What follows a member: the end of its object or another member. -/
def afterMember (ops : FloatOps F) (fuel : ℕ) (members : JsonMembers F) :
    List Char → Option (Json F × List Char)
  | '\x7d' :: rest => some (.obj members, rest)
  | ',' :: rest => readMembers ops fuel members (skipSpace rest)
  | _ => none

/-- The key, the colon and the value, up to what follows the value. -/
theorem readMembers_member (laws : FloatLaws ops) {k : List Char} {v : Json F}
    {done : JsonMembers F} {first tail : List Char} {fuel : ℕ} (hv : ReadsBack ops v)
    (hu : UniqueKeys v) (hk : k ∉ done.map (·.1)) (hfirst : dumps ops v = some first)
    (hfuel : first.length ≤ fuel) (htail : Stops tail) :
    readMembers ops (fuel + 1) done (dumpsStr k ++ ':' :: (first ++ tail)) =
      afterMember ops fuel (done ++ [(k, v)]) (skipSpace tail) := by
  have hread := hv first fuel tail hfirst hu hfuel htail
  obtain ⟨c, t, hhead, hspace, _⟩ := dumps_head laws hfirst
  have hskip : skipSpace (first ++ tail) = first ++ tail := by
    rw [hhead, List.cons_append, skipSpace_cons hspace]
  simp only [dumpsStr, List.cons_append, List.append_assoc, List.nil_append, readMembers,
    readStr_quoted, Option.bind_eq_bind, Option.bind_some,
    skipSpace_cons (show isJsonSpace ':' = false by decide), hskip, hread, setKey_new hk]
  rfl

theorem not_mem_of_nodup_keys {done ms : JsonMembers F} {k : List Char} {v : Json F}
    (h : ((done ++ (k, v) :: ms).map (·.1)).Nodup) : k ∉ done.map (·.1) := by
  rw [List.map_append, List.nodup_append] at h
  intro hmem
  exact h.2.2 k hmem k (by simp) rfl

/-- Members, the first of which is `(k, v)`. -/
theorem readMembers_dumps (laws : FloatLaws ops) (rest : List Char) (ms : JsonMembers F) :
    ∀ (k : List Char) (v : Json F) (done : JsonMembers F) (first more : List Char) (fuel : ℕ),
    (∀ m ∈ (k, v) :: ms, ReadsBack ops m.2 ∧ UniqueKeys m.2) →
    ((done ++ (k, v) :: ms).map (·.1)).Nodup → dumps ops v = some first →
    dumpsMembers ops ms = some more → (dumpsStr k ++ ':' :: (first ++ more)).length ≤ fuel →
    readMembers ops fuel done (dumpsStr k ++ ':' :: (first ++ (more ++ rest))) =
      some (.obj (done ++ (k, v) :: ms), rest) := by
  induction ms with
  | nil =>
      intro k v done first more fuel hback hkeys hfirst hmore hfuel
      obtain ⟨hv, hu⟩ := hback (k, v) (by simp)
      obtain rfl : ['\x7d'] = more := by simpa [dumpsMembers] using hmore
      simp only [List.length_append, List.length_cons] at hfuel
      obtain ⟨fuel, rfl⟩ : ∃ m, fuel = m + 1 := ⟨fuel - 1, by omega⟩
      rw [List.singleton_append, readMembers_member laws hv hu (not_mem_of_nodup_keys hkeys) hfirst
        (by omega) (stops_cons (by decide)), skipSpace_cons (by decide)]
      rfl
  | cons m ms ih =>
      intro k v done first more fuel hback hkeys hfirst hmore hfuel
      obtain ⟨k', v'⟩ := m
      obtain ⟨hv, hu⟩ := hback (k, v) (by simp)
      simp only [dumpsMembers, Option.bind_eq_bind, Option.bind_eq_some_iff, Option.pure_def,
        Option.some.injEq] at hmore
      obtain ⟨second, hsecond, more, hmore, rfl⟩ := hmore
      simp only [List.length_append, List.length_cons] at hfuel
      obtain ⟨fuel, rfl⟩ : ∃ m, fuel = m + 1 := ⟨fuel - 1, by omega⟩
      have hkeys' : ((done ++ [(k, v)] ++ (k', v') :: ms).map (·.1)).Nodup := by
        simpa using hkeys
      have hnext := ih k' v' (done ++ [(k, v)]) second more fuel
        (fun z hz => hback z (List.mem_cons_of_mem _ hz)) hkeys' hsecond hmore
        (by simp only [List.length_append, List.length_cons]; omega)
      have hskip : skipSpace (dumpsStr k' ++ ':' :: (second ++ more) ++ rest) =
          dumpsStr k' ++ ':' :: (second ++ (more ++ rest)) := by
        simp only [dumpsStr, List.cons_append, List.append_assoc]
        exact skipSpace_cons (by decide) _
      rw [List.cons_append, readMembers_member laws hv hu (not_mem_of_nodup_keys hkeys) hfirst
        (by omega) (stops_comma _), skipSpace_cons (by decide)]
      show readMembers ops fuel _ (skipSpace _) = _
      rw [hskip, hnext, List.append_assoc, List.singleton_append]

/-- **What is written is read back**, whatever follows that does not continue a number. -/
theorem readValue_dumps (laws : FloatLaws ops) : ∀ v : Json F, ReadsBack ops v := by
  refine induction_on ?_ ?_ ?_ ?_ ?_ ?_ ?_
  · intro s fuel rest h _ hfuel _
    cases h
    obtain ⟨fuel, rfl⟩ : ∃ m, fuel = m + 1 := ⟨fuel - 1, by simp at hfuel; omega⟩
    simp [readValue]
  · intro b s fuel rest h _ hfuel _
    cases b <;>
    · cases h
      obtain ⟨fuel, rfl⟩ : ∃ m, fuel = m + 1 := ⟨fuel - 1, by simp at hfuel; omega⟩
      simp [readValue]
  · intro n s fuel rest h _ hfuel hstop
    simp only [dumps, dumpsInt] at h
    split at h
    · rename_i hlen
      cases h
      obtain ⟨c, tail, heq, hc⟩ := isInteger_head (isInteger_decimal n)
      obtain ⟨fuel, rfl⟩ : ∃ m, fuel = m + 1 := ⟨fuel - 1, by rw [heq] at hfuel; simp at hfuel; omega⟩
      have hnum := @readNumber_eq F ops _ _ _ _ (isInteger_decimal n) (.inl rfl) (.inl rfl) hstop
      rw [List.append_nil, List.append_nil, intOfLiteral_decimal hlen] at hnum
      rw [heq, List.cons_append, readValue_number hc, ← List.cons_append, ← heq, hnum]
      rfl
    · cases h
  · intro f s fuel rest h _ hfuel hstop
    simp only [dumps] at h
    split at h
    · rename_i hfin
      cases h
      obtain ⟨integer, fraction, exponent, heq, hi, hf, he, hne⟩ := laws.repr_literal f hfin
      obtain ⟨c, tail, hhead, hc⟩ := isInteger_head hi
      have hnum := @readNumber_eq F ops _ _ _ _ hi hf he hstop
      have hboth : ¬ (fraction = [] ∧ exponent = []) := by
        rintro ⟨hf, he⟩
        exact hne.elim (· hf) (· he)
      rw [if_neg hboth, ← heq, laws.ofLiteral_repr f hfin] at hnum
      obtain ⟨fuel, rfl⟩ : ∃ m, fuel = m + 1 :=
        ⟨fuel - 1, by rw [heq, hhead] at hfuel; simp at hfuel; omega⟩
      have htext : ops.repr f ++ rest = c :: (tail ++ (fraction ++ exponent) ++ rest) := by
        rw [heq, hhead]
        rfl
      rw [htext, readValue_number hc, ← htext, hnum]
    · cases h
  · intro text s fuel rest h _ hfuel _
    cases h
    obtain ⟨fuel, rfl⟩ : ∃ m, fuel = m + 1 := ⟨fuel - 1, by simp [dumpsStr] at hfuel; omega⟩
    simp only [dumpsStr, List.cons_append, List.append_assoc, List.nil_append, readValue,
      readStr_quoted, Option.bind_eq_bind, Option.bind_some, Option.pure_def]
  · intro xs ih s fuel rest h hu hfuel hstop
    rw [uniqueKeys_arr] at hu
    cases xs with
    | nil =>
        cases h
        obtain ⟨fuel, rfl⟩ : ∃ m, fuel = m + 1 := ⟨fuel - 1, by simp at hfuel; omega⟩
        simp [readValue, skipSpace, isJsonSpace]
    | cons x xs =>
        simp only [dumps, Option.bind_eq_bind, Option.bind_eq_some_iff, Option.pure_def,
          Option.some.injEq] at h
        obtain ⟨first, hfirst, more, hmore, rfl⟩ := h
        rw [List.length_cons] at hfuel
        obtain ⟨fuel, rfl⟩ : ∃ m, fuel = m + 1 := ⟨fuel - 1, by omega⟩
        have hitems := readItems_dumps laws rest xs x [] first more fuel
          (fun y hy => ⟨ih y hy, hu y hy⟩) hfirst hmore (by omega)
        obtain ⟨c, tail, hhead, hspace, hend⟩ := dumps_head laws hfirst
        have hskip : skipSpace (first ++ (more ++ rest)) = c :: (tail ++ (more ++ rest)) := by
          rw [hhead, List.cons_append, skipSpace_cons hspace]
        simp only [List.cons_append, List.append_assoc, readValue, hskip]
        split
        · rename_i heq
          exact absurd (List.cons_eq_cons.mp heq).1 hend
        · rw [← List.cons_append, ← hhead, hitems, List.nil_append]
  · intro ms ih s fuel rest h hu hfuel hstop
    rw [uniqueKeys_obj] at hu
    cases ms with
    | nil =>
        cases h
        obtain ⟨fuel, rfl⟩ : ∃ m, fuel = m + 1 := ⟨fuel - 1, by simp at hfuel; omega⟩
        simp [readValue, skipSpace, isJsonSpace]
    | cons m ms =>
        obtain ⟨k, v⟩ := m
        simp only [dumps, Option.bind_eq_bind, Option.bind_eq_some_iff, Option.pure_def,
          Option.some.injEq] at h
        obtain ⟨first, hfirst, more, hmore, rfl⟩ := h
        rw [List.length_cons] at hfuel
        obtain ⟨fuel, rfl⟩ : ∃ m, fuel = m + 1 := ⟨fuel - 1, by omega⟩
        have hmembers := readMembers_dumps laws rest ms k v [] first more fuel
          (fun m hm => ⟨ih m hm, hu.2 m hm⟩) hu.1 hfirst hmore (by omega)
        rw [List.nil_append] at hmembers
        rw [List.cons_append, List.append_assoc, List.cons_append, List.append_assoc, readValue,
          ← hmembers]
        simp only [dumpsStr, List.cons_append, List.append_assoc,
          skipSpace_cons (show isJsonSpace '\x22' = false by decide)]
        rfl

/-- **`json.loads` inverts `json.dumps`.** -/
theorem loads_dumps (laws : FloatLaws ops) {v : Json F} {s : List Char} (h : dumps ops v = some s)
    (hu : UniqueKeys v) : loads ops s = some v := by
  obtain ⟨c, tail, hhead, hspace, _⟩ := dumps_head laws h
  have hskip : skipSpace s = s ++ [] := by
    rw [hhead, skipSpace_cons hspace, List.append_nil]
  have hread := readValue_dumps laws v s (2 * s.length + 1) [] h hu (by omega) (by simp [Stops])
  have hrest : skipSpace ([] : List Char) = [] := rfl
  simp only [loads, hskip, hread, Option.bind_eq_bind, Option.bind_some, hrest, if_true]

end Values

/-! ## Sorting -/

theorem sortedItems_eq (xs : List (Json F)) : sortedItems xs = xs.map sorted := by
  induction xs with
  | nil => rfl
  | cons x xs ih => rw [sortedItems, ih, List.map_cons]

theorem sortedMembers_eq (ms : JsonMembers F) :
    sortedMembers ms = ms.map fun m => (m.1, sorted m.2) := by
  induction ms with
  | nil => rfl
  | cons m ms ih => rw [sortedMembers, ih, List.map_cons]

/-- Sort members by key. -/
def sortKeys (ms : JsonMembers F) : JsonMembers F := ms.mergeSort fun a b => decide (a.1 ≤ b.1)

theorem sorted_arr (xs : List (Json F)) : sorted (.arr xs) = .arr (xs.map sorted) := by
  rw [sorted, sortedItems_eq]

theorem sorted_obj (ms : JsonMembers F) :
    sorted (.obj ms) = .obj (sortKeys (ms.map fun m => (m.1, sorted m.2))) := by
  rw [sorted, sortedMembers_eq, sortKeys]

theorem sortKeys_perm (ms : JsonMembers F) : (sortKeys ms).Perm ms := List.mergeSort_perm ms _

theorem sortKeys_sortKeys (ms : JsonMembers F) : sortKeys (sortKeys ms) = sortKeys ms := by
  refine List.mergeSort_of_pairwise (List.pairwise_mergeSort ?_ ?_ ms)
  · intro a b c hab hbc
    simp only [decide_eq_true_eq] at *
    exact le_trans hab hbc
  · intro a b
    simp only [Bool.or_eq_true, decide_eq_true_eq]
    exact le_total a.1 b.1

theorem keys_map_sorted (ms : JsonMembers F) :
    (ms.map fun m => (m.1, sorted m.2)).map (·.1) = ms.map (·.1) := by
  rw [List.map_map]
  rfl

theorem sorted_sorted : ∀ v : Json F, sorted (sorted v) = sorted v := by
  refine induction_on rfl (fun _ => rfl) (fun _ => rfl) (fun _ => rfl) (fun _ => rfl) ?_ ?_
  · intro xs ih
    rw [sorted_arr, sorted_arr, List.map_map]
    exact congrArg Json.arr (List.map_congr_left fun x hx => ih x hx)
  · intro ms ih
    -- each member is already sorted, so only the order of the members is at stake
    have hfixed : ∀ l : JsonMembers F, l.Perm (ms.map fun m => (m.1, sorted m.2)) →
        (l.map fun m => (m.1, sorted m.2)) = l := by
      intro l hl
      conv_rhs => rw [← List.map_id l]
      refine List.map_congr_left fun m hm => ?_
      obtain ⟨m', hm', rfl⟩ := List.mem_map.mp (hl.mem_iff.mp hm)
      simp only [ih m' hm', id]
    rw [sorted_obj, sorted_obj, hfixed _ (sortKeys_perm _), sortKeys_sortKeys]

theorem uniqueKeys_sorted : ∀ v : Json F, UniqueKeys v → UniqueKeys (sorted v) := by
  refine induction_on (fun h => h) (fun _ h => h) (fun _ h => h) (fun _ h => h) (fun _ h => h) ?_ ?_
  · intro xs ih h
    rw [uniqueKeys_arr] at h
    rw [sorted_arr, uniqueKeys_arr]
    intro x hx
    obtain ⟨y, hy, rfl⟩ := List.mem_map.mp hx
    exact ih y hy (h y hy)
  · intro ms ih h
    rw [uniqueKeys_obj] at h
    rw [sorted_obj, uniqueKeys_obj]
    constructor
    · rw [((sortKeys_perm _).map (·.1)).nodup_iff, keys_map_sorted]
      exact h.1
    · intro m hm
      obtain ⟨m', hm', rfl⟩ := List.mem_map.mp ((sortKeys_perm _).mem_iff.mp hm)
      exact ih m' hm' (h.2 m' hm')

/-! ## Equality -/

section Equality

variable {ops : FloatOps F}

theorem isSome_dumpsItems (xs : List (Json F)) :
    (dumpsItems ops xs).isSome = true ↔ ∀ x ∈ xs, (dumps ops x).isSome = true := by
  induction xs with
  | nil => simp [dumpsItems]
  | cons x xs ih =>
      rw [List.forall_mem_cons, ← ih, dumpsItems]
      cases dumps ops x <;> cases dumpsItems ops xs <;> simp

theorem isSome_dumpsMembers (ms : JsonMembers F) :
    (dumpsMembers ops ms).isSome = true ↔ ∀ m ∈ ms, (dumps ops m.2).isSome = true := by
  induction ms with
  | nil => simp [dumpsMembers]
  | cons m ms ih =>
      rw [List.forall_mem_cons, ← ih, dumpsMembers]
      cases dumps ops m.2 <;> cases dumpsMembers ops ms <;> simp

/-- An array can be written exactly when its items can. -/
theorem isSome_dumps_arr (xs : List (Json F)) :
    (dumps ops (.arr xs)).isSome = true ↔ ∀ x ∈ xs, (dumps ops x).isSome = true := by
  cases xs with
  | nil => simp [dumps]
  | cons x xs =>
      rw [List.forall_mem_cons, ← isSome_dumpsItems, dumps]
      cases dumps ops x <;> cases dumpsItems ops xs <;> simp

/-- An object can be written exactly when its members can. -/
theorem isSome_dumps_obj (ms : JsonMembers F) :
    (dumps ops (.obj ms)).isSome = true ↔ ∀ m ∈ ms, (dumps ops m.2).isSome = true := by
  cases ms with
  | nil => simp [dumps]
  | cons m ms =>
      rw [List.forall_mem_cons, ← isSome_dumpsMembers, dumps]
      cases dumps ops m.2 <;> cases dumpsMembers ops ms <;> simp

theorem pyEqItems_map_sorted (xs : List (Json F)) (h : ∀ x ∈ xs, pyEq ops (sorted x) x = true) :
    pyEqItems ops (xs.map sorted) xs = true := by
  induction xs with
  | nil => rfl
  | cons x xs ih =>
      obtain ⟨hx, hxs⟩ := List.forall_mem_cons.mp h
      rw [List.map_cons, pyEqItems, hx, ih hxs, Bool.and_self]

theorem pyEqMembers_of_lookup (ms ms' : JsonMembers F)
    (h : ∀ m ∈ ms, ∃ w, ms'.lookup m.1 = some w ∧ pyEq ops m.2 w = true) :
    pyEqMembers ops ms ms' = true := by
  induction ms with
  | nil => rfl
  | cons m ms ih =>
      obtain ⟨⟨w, hw, heq⟩, hms⟩ := List.forall_mem_cons.mp h
      rw [pyEqMembers, hw]
      simp only [heq, ih hms, Bool.and_self]

theorem lookup_of_mem {ms : JsonMembers F} (hkeys : (ms.map (·.1)).Nodup) {m : List Char × Json F}
    (hm : m ∈ ms) : ms.lookup m.1 = some m.2 := by
  induction ms with
  | nil => cases hm
  | cons a ms ih =>
      rw [List.map_cons, List.nodup_cons] at hkeys
      rcases List.mem_cons.mp hm with rfl | hm
      · rw [List.lookup_cons, beq_self_eq_true]
      · have hne : m.1 ≠ a.1 := fun h => hkeys.1 (h ▸ List.mem_map_of_mem hm)
        rw [List.lookup_cons, beq_false_of_ne hne]
        exact ih hkeys.2 hm

/-- A value that can be written equals itself with its members sorted. -/
theorem pyEq_sorted (laws : FloatLaws ops) : ∀ v : Json F, UniqueKeys v →
    (dumps ops (sorted v)).isSome = true → pyEq ops (sorted v) v = true := by
  refine induction_on ?_ ?_ ?_ ?_ ?_ ?_ ?_
  · intro _ _
    rfl
  · intro b _ _
    cases b <;> rfl
  · intro n _ _
    simp [sorted, pyEq, asInt]
  · intro f _ h
    simp only [sorted, dumps] at h
    split at h
    · rename_i hfin
      simpa [sorted, pyEq] using laws.eq_refl f hfin
    · cases h
  · intro s _ _
    simp [sorted, pyEq]
  · intro xs ih hu h
    rw [uniqueKeys_arr] at hu
    rw [sorted_arr, isSome_dumps_arr] at h
    rw [sorted_arr, pyEq]
    exact pyEqItems_map_sorted xs fun x hx => ih x hx (hu x hx) (h _ (List.mem_map_of_mem hx))
  · intro ms ih hu h
    rw [uniqueKeys_obj] at hu
    rw [sorted_obj, isSome_dumps_obj] at h
    rw [sorted_obj, pyEq, Bool.and_eq_true, decide_eq_true_eq]
    constructor
    · rw [(sortKeys_perm _).length_eq, List.length_map]
    · refine pyEqMembers_of_lookup _ _ fun m hm => ?_
      have hwrite := h m hm
      obtain ⟨m', hm', rfl⟩ := List.mem_map.mp ((sortKeys_perm _).mem_iff.mp hm)
      exact ⟨m'.2, lookup_of_mem hu.1 hm', ih m' hm' (hu.2 m' hm') hwrite⟩

end Equality

end Json

end VeloxRag.Lib
