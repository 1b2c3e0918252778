import VeloxRag.Lib.Utf8Stream

/-!
# Percent coding

An escape is `%` and two hexadecimal digits and stands for a byte.  The writer escapes every byte
outside a safe set.  There are two readers: the strict one takes a text and fails at a `%` that
begins no escape; the tolerant one takes bytes and leaves such a `%` as it is, so that it can be
applied again to what it read.

## Main definitions

* `Percent.quote`, `Percent.decode?`, `Percent.unquote` — the writer and the two readers.
* `Percent.containsEscape`, `Percent.replaceEscape` — searching a text for escapes.
* `Percent.decode?_quote` — the strict reader reads what was written.
* `Percent.mem_unquote`, `Percent.replaceEscape_of_unquote` — where the bytes that are read come
  from.
-/

namespace VeloxRag.Lib.Percent

/-! ## Escapes -/

/-- The digit that the writer uses. -/
def digit (n : ℕ) : Char := "0123456789ABCDEF".toList.getD n '0'

/-- The value of a hexadecimal digit of either case. -/
def value? (c : Char) : Option ℕ :=
  if '0' ≤ c ∧ c ≤ '9' then some (c.toNat - 48)
  else if 'A' ≤ c ∧ c ≤ 'F' then some (c.toNat - 55)
  else if 'a' ≤ c ∧ c ≤ 'f' then some (c.toNat - 87)
  else none

/-- The byte that an escape with these two digits stands for. -/
def byte? (high low : Char) : Option UInt8 :=
  (value? high).bind fun high => (value? low).map fun low => UInt8.ofNat (16 * high + low)

def escape (b : UInt8) : List Char := ['%', digit (b.toNat / 16), digit (b.toNat % 16)]

theorem value?_digit {n : ℕ} (h : n < 16) : value? (digit n) = some n := by
  interval_cases n <;> rfl

theorem digit_mem {n : ℕ} (h : n < 16) : digit n ∈ "0123456789ABCDEF".toList := by
  interval_cases n <;> decide

/-- An escape is read as the byte that it was written for. -/
theorem byte?_digit (b : UInt8) : byte? (digit (b.toNat / 16)) (digit (b.toNat % 16)) = some b := by
  have hb := b.toNat_lt
  have hhigh : b.toNat / 16 < 16 := by omega
  have hlow : b.toNat % 16 < 16 := by omega
  have hsum : 16 * (b.toNat / 16) + b.toNat % 16 = b.toNat := by omega
  rw [byte?, value?_digit hhigh, value?_digit hlow, Option.bind_some, Option.map_some, hsum,
    UInt8.ofNat_toNat]

/-- A hexadecimal digit is an ASCII character. -/
theorem value?_ascii {c : Char} {n : ℕ} (h : value? c = some n) : c.toNat < 128 := by
  have hle : ∀ {a : Char}, c ≤ a → c.toNat ≤ a.toNat := fun h => h
  rw [value?] at h
  split_ifs at h with h1 h2 h3
  · exact lt_of_le_of_lt (hle h1.2) (by decide)
  · exact lt_of_le_of_lt (hle h2.2) (by decide)
  · exact lt_of_le_of_lt (hle h3.2) (by decide)

theorem byte?_ascii {high low : Char} {b : UInt8} (h : byte? high low = some b) :
    high.toNat < 128 ∧ low.toNat < 128 := by
  obtain ⟨m, hm, h⟩ := Option.bind_eq_some_iff.mp h
  obtain ⟨n, hn, -⟩ := Option.map_eq_some_iff.mp h
  exact ⟨value?_ascii hm, value?_ascii hn⟩

/-! ## The writer and the strict reader -/

/-- The bytes with those that are not safe escaped. -/
def quote (safe : UInt8 → Bool) (data : List UInt8) : List Char :=
  data.flatMap fun b => if safe b then [Char.ofUInt8 b] else escape b

/-- The bytes of a text in UTF-8, with the escapes read; every `%` has to begin one. -/
def decode? : List Char → Option (List UInt8)
  | [] => some []
  | c :: rest =>
    if c ≠ '%' then (decode? rest).map (String.utf8EncodeChar c ++ ·)
    else
      match rest with
      | high :: low :: rest => (byte? high low).bind fun b => (decode? rest).map (b :: ·)
      | _ => none

theorem decode?_literal {c : Char} (hc : c ≠ '%') (s : List Char) :
    decode? (c :: s) = (decode? s).map (String.utf8EncodeChar c ++ ·) := by
  rw [decode?.eq_def]
  simp only [hc, ne_eq, not_false_eq_true, if_true]

theorem decode?_escape {high low : Char} {b : UInt8} (h : byte? high low = some b) (s : List Char) :
    decode? ('%' :: high :: low :: s) = (decode? s).map (b :: ·) := by
  rw [decode?.eq_def]
  simp only [ne_eq, not_true_eq_false, if_false, h, Option.bind_some]

@[simp] theorem quote_nil (safe : UInt8 → Bool) : quote safe [] = [] := rfl

theorem quote_cons (safe : UInt8 → Bool) (b : UInt8) (data : List UInt8) :
    quote safe (b :: data) = (if safe b then [Char.ofUInt8 b] else escape b) ++ quote safe data := by
  simp [quote]

theorem toNat_ofUInt8 (b : UInt8) : (Char.ofUInt8 b).toNat = b.toNat := by
  simp [Char.ofUInt8, Char.toNat]

theorem utf8EncodeChar_ascii {c : Char} (h : c.toNat < 128) :
    String.utf8EncodeChar c = [UInt8.ofNat c.toNat] := by
  have hval : c.val.toNat ≤ 0x7f := Nat.le_of_lt_succ h
  simp only [String.utf8EncodeChar, hval, if_true]
  rfl

theorem ofUInt8_ne_percent {b : UInt8} (h : b ≠ 0x25) : Char.ofUInt8 b ≠ '%' := by
  intro heq
  apply h
  apply UInt8.toNat_inj.mp
  rw [← toNat_ofUInt8, heq]
  rfl

/-- A safe set of ASCII bytes that does not let `%` through. -/
structure Safe (safe : UInt8 → Bool) : Prop where
  ascii : ∀ b, safe b = true → b.toNat < 128
  percent : safe 0x25 = false

theorem Safe.ne_percent {safe : UInt8 → Bool} (h : Safe safe) {b : UInt8} (hb : safe b = true) :
    b ≠ 0x25 := by
  intro heq
  rw [heq, h.percent] at hb
  cases hb

theorem Safe.utf8 {safe : UInt8 → Bool} (h : Safe safe) {b : UInt8} (hb : safe b = true) :
    String.utf8EncodeChar (Char.ofUInt8 b) = [b] := by
  have hlt : (Char.ofUInt8 b).toNat < 128 := by
    rw [toNat_ofUInt8]
    exact h.ascii b hb
  rw [utf8EncodeChar_ascii hlt, toNat_ofUInt8, UInt8.ofNat_toNat]

/-- **The strict reader** reads what was written. -/
theorem decode?_quote {safe : UInt8 → Bool} (h : Safe safe) (data : List UInt8) :
    decode? (quote safe data) = some data := by
  induction data with
  | nil => rfl
  | cons b data ih =>
    rw [quote_cons]
    by_cases hb : safe b = true
    · rw [if_pos hb, List.singleton_append, decode?_literal (ofUInt8_ne_percent (h.ne_percent hb)),
        ih, h.utf8 hb]
      rfl
    · rw [if_neg hb, escape, List.cons_append, List.cons_append, List.singleton_append,
        decode?_escape (byte?_digit b), ih]
      rfl

/-- The characters that are written. -/
theorem mem_quote {safe : UInt8 → Bool} {data : List UInt8} {c : Char} (h : c ∈ quote safe data) :
    (∃ b, safe b = true ∧ c = Char.ofUInt8 b) ∨ c = '%' ∨ c ∈ "0123456789ABCDEF".toList := by
  obtain ⟨b, -, hc⟩ := List.mem_flatMap.mp h
  have hb := b.toNat_lt
  split_ifs at hc with hsafe
  · exact .inl ⟨b, hsafe, List.mem_singleton.mp hc⟩
  · simp only [escape, List.mem_cons, List.not_mem_nil, or_false] at hc
    rcases hc with rfl | rfl | rfl
    · exact .inr (.inl rfl)
    · exact .inr (.inr (digit_mem (by omega)))
    · exact .inr (.inr (digit_mem (by omega)))

theorem quote_eq_nil {safe : UInt8 → Bool} {data : List UInt8} : quote safe data = [] ↔ data = [] := by
  cases data with
  | nil => simp
  | cons b data =>
    rw [quote_cons]
    split_ifs <;> simp [escape]

/-! ## The tolerant reader -/

/-- The byte that an escape of two bytes after `%` stands for. -/
def escaped? (high low : UInt8) : Option UInt8 := byte? (Char.ofUInt8 high) (Char.ofUInt8 low)

/-- The bytes with the escapes read; a `%` that begins none stands for itself. -/
def unquote : List UInt8 → List UInt8
  | b :: high :: low :: rest =>
    if b = 0x25 then
      match escaped? high low with
      | some e => e :: unquote rest
      | none => b :: unquote (high :: low :: rest)
    else b :: unquote (high :: low :: rest)
  | short => short

theorem unquote_literal {b : UInt8} (hb : b ≠ 0x25) (data : List UInt8) :
    unquote (b :: data) = b :: unquote data := by
  match data with
  | [] => rfl
  | [_] => rfl
  | _ :: _ :: _ => rw [unquote, if_neg hb]

theorem unquote_literals {xs : List UInt8} (h : ∀ b ∈ xs, b ≠ 0x25) (data : List UInt8) :
    unquote (xs ++ data) = xs ++ unquote data := by
  induction xs with
  | nil => rfl
  | cons b xs ih =>
    rw [List.cons_append, unquote_literal (h b List.mem_cons_self),
      ih fun b' hb' => h b' (List.mem_cons_of_mem _ hb'), List.cons_append]

theorem unquote_escape {high low e : UInt8} (h : escaped? high low = some e) (data : List UInt8) :
    unquote (0x25 :: high :: low :: data) = e :: unquote data := by
  rw [unquote, if_pos rfl, h]

/-- A `%` begins an escape or stands for itself. -/
theorem unquote_percent (data : List UInt8) :
    (∃ high low e rest, data = high :: low :: rest ∧ escaped? high low = some e ∧
      unquote (0x25 :: data) = e :: unquote rest) ∨ unquote (0x25 :: data) = 0x25 :: unquote data := by
  match data with
  | [] => exact .inr rfl
  | [_] => exact .inr rfl
  | high :: low :: rest =>
    cases h : escaped? high low with
    | some e => exact .inl ⟨high, low, e, rest, rfl, h, unquote_escape h rest⟩
    | none =>
      right
      rw [unquote, if_pos rfl, h]

/-! ## What a text is read as -/

theorem ofUInt8_ofNat {c : Char} (h : c.toNat < 128) : Char.ofUInt8 (UInt8.ofNat c.toNat) = c := by
  apply Char.ext
  apply UInt32.toNat_inj.mp
  have hlt : c.toNat < 2 ^ 8 := by omega
  have hnat : (UInt8.ofNat c.toNat).toNat = c.toNat := UInt8.toNat_ofNat_of_lt' hlt
  exact (toNat_ofUInt8 _).trans hnat

/-- In UTF-8 a byte of an ASCII character stands for that character only. -/
theorem eq_of_mem_utf8EncodeChar {c : Char} {b : UInt8} (h : b ∈ String.utf8EncodeChar c)
    (hb : b.toNat < 128) : String.utf8EncodeChar c = [b] ∧ c = Char.ofUInt8 b := by
  by_cases hc : c.toNat < 128
  · rw [utf8EncodeChar_ascii hc, List.mem_singleton] at h
    rw [utf8EncodeChar_ascii hc, h, ofUInt8_ofNat hc]
    exact ⟨rfl, rfl⟩
  · have hhigh : ∀ n, 0x80 ≤ n → n < 256 → b ≠ UInt8.ofNat n := by
      intro n hlow hlt heq
      have := congrArg UInt8.toNat heq
      rw [UInt8.toNat_ofNat_of_lt' hlt] at this
      omega
    have hval : ¬c.val.toNat ≤ 0x7f := fun h => hc (Nat.lt_succ_of_le h)
    simp only [String.utf8EncodeChar, hval, if_false] at h
    exfalso
    split_ifs at h
    · simp only [List.mem_cons, List.not_mem_nil, or_false] at h
      rcases h with h | h <;> exact hhigh _ (by omega) (by omega) h
    · simp only [List.mem_cons, List.not_mem_nil, or_false] at h
      rcases h with h | h | h <;> exact hhigh _ (by omega) (by omega) h
    · simp only [List.mem_cons, List.not_mem_nil, or_false] at h
      rcases h with h | h | h | h <;> exact hhigh _ (by omega) (by omega) h

theorem utf8EncodeChar_ne_nil (c : Char) : String.utf8EncodeChar c ≠ [] := by
  intro h
  have hlength := congrArg List.length h
  rw [String.length_utf8EncodeChar] at hlength
  exact absurd hlength (Nat.ne_of_gt c.utf8Size_pos)

/-- A text whose first byte is ASCII begins with that character. -/
theorem utf8Bytes_eq_cons {s : List Char} {b : UInt8} {data : List UInt8}
    (h : utf8Bytes s = b :: data) (hb : b.toNat < 128) :
    ∃ rest, s = Char.ofUInt8 b :: rest ∧ data = utf8Bytes rest := by
  cases s with
  | nil => cases h
  | cons c s =>
    rw [utf8Bytes_cons] at h
    have hmem : b ∈ String.utf8EncodeChar c := by
      obtain ⟨x, xs, hx⟩ := List.exists_cons_of_ne_nil (utf8EncodeChar_ne_nil c)
      rw [hx, List.cons_append, List.cons.injEq] at h
      rw [hx, h.1]
      exact List.mem_cons_self
    obtain ⟨hsingle, rfl⟩ := eq_of_mem_utf8EncodeChar hmem hb
    rw [hsingle, List.singleton_append, List.cons.injEq] at h
    exact ⟨s, rfl, h.2.symm⟩

theorem ofUInt8_lt {b : UInt8} (h : (Char.ofUInt8 b).toNat < 128) : b.toNat < 128 := by
  rwa [toNat_ofUInt8] at h

/-- The first character of a text begins an escape or is read as its own bytes. -/
theorem unquote_utf8Bytes_cons (c : Char) (s : List Char) :
    (∃ high low e rest, c = '%' ∧ s = high :: low :: rest ∧ byte? high low = some e ∧
      unquote (utf8Bytes (c :: s)) = e :: unquote (utf8Bytes rest)) ∨
    unquote (utf8Bytes (c :: s)) = String.utf8EncodeChar c ++ unquote (utf8Bytes s) := by
  rw [utf8Bytes_cons]
  by_cases hc : c = '%'
  · subst hc
    have hpercent : String.utf8EncodeChar '%' = [0x25] := by decide
    rw [hpercent, List.singleton_append]
    rcases unquote_percent (utf8Bytes s) with ⟨high, low, e, rest, hs, he, hread⟩ | hread
    · obtain ⟨hhigh, hlow⟩ := byte?_ascii he
      obtain ⟨t, rfl, ht⟩ := utf8Bytes_eq_cons hs (ofUInt8_lt hhigh)
      obtain ⟨u, rfl, rfl⟩ := utf8Bytes_eq_cons ht.symm (ofUInt8_lt hlow)
      exact .inl ⟨_, _, e, u, rfl, rfl, he, hread⟩
    · exact .inr hread
  · right
    apply unquote_literals
    intro b hb heq
    subst heq
    exact hc (eq_of_mem_utf8EncodeChar hb (by decide)).2

/-- An ASCII byte that is read from a text is a character of the text or an escape in it. -/
theorem mem_unquote {b : UInt8} (hb : b.toNat < 128) (s : List Char)
    (h : b ∈ unquote (utf8Bytes s)) :
    Char.ofUInt8 b ∈ s ∨ ∃ high low, ['%', high, low] <:+: s ∧ byte? high low = some b := by
  induction hn : s.length using Nat.strong_induction_on generalizing s with
  | _ n ih =>
    subst hn
    cases s with
    | nil => cases h
    | cons c s =>
      have hlater : ∀ (before rest : List Char), c :: s = before ++ rest →
          rest.length < (c :: s).length → b ∈ unquote (utf8Bytes rest) →
          Char.ofUInt8 b ∈ c :: s ∨
            ∃ high low, ['%', high, low] <:+: c :: s ∧ byte? high low = some b := by
        intro before rest heq hlt hmem
        have hsuffix : rest <:+ c :: s := ⟨before, heq.symm⟩
        rcases ih _ hlt rest hmem rfl with hmem | ⟨high, low, hinfix, hbyte⟩
        · exact .inl (hsuffix.subset hmem)
        · exact .inr ⟨high, low, hinfix.trans hsuffix.isInfix, hbyte⟩
      rcases unquote_utf8Bytes_cons c s with ⟨high, low, e, rest, rfl, rfl, he, hread⟩ | hread
      · rw [hread, List.mem_cons] at h
        rcases h with rfl | h
        · exact .inr ⟨high, low, ⟨[], rest, rfl⟩, he⟩
        · refine hlater ['%', high, low] _ rfl ?_ h
          simp only [List.length_cons]
          omega
      · rw [hread, List.mem_append] at h
        rcases h with h | h
        · rw [← (eq_of_mem_utf8EncodeChar h hb).2]
          exact .inl List.mem_cons_self
        · exact hlater [c] _ rfl (by simp) h

/-! ## Searching for escapes -/

/-- Some escape in the text, at any position, stands for a byte in `p`. -/
def containsEscape (p : UInt8 → Bool) : List Char → Bool
  | c :: high :: low :: rest =>
    (c = '%' && (byte? high low).any p) || containsEscape p (high :: low :: rest)
  | _ => false

theorem containsEscape_of_infix {p : UInt8 → Bool} {s : List Char} {high low : Char} {b : UInt8}
    (h : ['%', high, low] <:+: s) (hbyte : byte? high low = some b) (hp : p b = true) :
    containsEscape p s = true := by
  obtain ⟨before, rest, rfl⟩ := h
  induction before with
  | nil => simp [containsEscape, hbyte, hp]
  | cons c before ih =>
    cases before with
    | nil =>
      simp only [List.nil_append, List.cons_append] at ih ⊢
      rw [containsEscape, ih, Bool.or_true]
    | cons c' before =>
      cases before with
      | nil =>
        simp only [List.nil_append, List.cons_append] at ih ⊢
        rw [containsEscape, ih, Bool.or_true]
      | cons c'' before =>
        simp only [List.cons_append] at ih ⊢
        rw [containsEscape, ih, Bool.or_true]

/-- The text with the escapes of one byte replaced by a character. -/
def replaceEscape (b : UInt8) (replacement : Char) : List Char → List Char
  | c :: high :: low :: rest =>
    if c = '%' ∧ byte? high low = some b then replacement :: replaceEscape b replacement rest
    else c :: replaceEscape b replacement (high :: low :: rest)
  | short => short

theorem replaceEscape_literal {b : UInt8} {replacement c : Char} (hc : c ≠ '%') (s : List Char) :
    replaceEscape b replacement (c :: s) = c :: replaceEscape b replacement s := by
  match s with
  | [] => rfl
  | [_] => rfl
  | _ :: _ :: _ => rw [replaceEscape, if_neg fun h => hc h.1]

/-- A text that is read as copies of one ASCII byte consists of its character and its escapes. -/
theorem replaceEscape_of_unquote {b : UInt8} (hb : b.toNat < 128) (hpercent : b ≠ 0x25)
    (s : List Char) {n : ℕ} (h : unquote (utf8Bytes s) = List.replicate n b) :
    replaceEscape b (Char.ofUInt8 b) s = List.replicate n (Char.ofUInt8 b) := by
  induction hm : s.length using Nat.strong_induction_on generalizing s n with
  | _ m ih =>
    subst hm
    cases s with
    | nil =>
      cases n with
      | zero => rfl
      | succ n => cases h
    | cons c s =>
      rcases unquote_utf8Bytes_cons c s with ⟨high, low, e, rest, rfl, rfl, he, hread⟩ | hread
      · cases n with
        | zero =>
          rw [hread] at h
          cases h
        | succ n =>
          rw [hread, List.replicate_succ, List.cons.injEq] at h
          rw [h.1] at he
          have hlt : rest.length < ('%' :: high :: low :: rest).length := by
            simp only [List.length_cons]
            omega
          rw [replaceEscape, if_pos ⟨rfl, he⟩, ih _ hlt rest h.2 rfl, List.replicate_succ]
      · rw [hread] at h
        obtain ⟨x, hx⟩ := List.exists_mem_of_ne_nil _ (utf8EncodeChar_ne_nil c)
        have hxb : x = b := by
          apply List.eq_of_mem_replicate (n := n)
          rw [← h]
          exact List.mem_append_left _ hx
        rw [hxb] at hx
        obtain ⟨hsingle, rfl⟩ := eq_of_mem_utf8EncodeChar hx hb
        cases n with
        | zero =>
          rw [hsingle] at h
          cases h
        | succ n =>
          rw [hsingle, List.singleton_append, List.replicate_succ, List.cons.injEq] at h
          rw [replaceEscape_literal (ofUInt8_ne_percent hpercent),
            ih s.length (by simp) s h.2 rfl, List.replicate_succ]

end VeloxRag.Lib.Percent
