import VeloxRag.Providers.NetworkPolicy

/-!
# Addresses and their texts

The compressed text of an address is read as that address.  A dotted quad is the text of its
address already; an address of version 6 has many texts, and the compressed one is read back.

## Main results

* `compressed_of_ipv4Number` — a text that is read as a dotted quad is its compressed text.
* `ipAddress_compressed_v6` — the compressed text of an address of version 6 is read as it.
-/

namespace VeloxRag.NetworkPolicy

/-! ## Version 4 -/

theorem digitChar_of_isDecimalDigit {c : Char} (h : isDecimalDigit c = true) :
    c.toNat - 48 < 10 ∧ (c.toNat - 48).digitChar = c := by
  obtain ⟨hlow, hhigh⟩ := of_decide_eq_true h
  have hlow : 48 ≤ c.toNat := hlow
  have hhigh : c.toNat ≤ 57 := hhigh
  refine ⟨by omega, ?_⟩
  have hc : c = Char.ofNat c.toNat := (Char.ofNat_toNat c).symm
  generalize c.toNat = n at hlow hhigh hc
  subst hc
  interval_cases n <;> rfl

/-- The number that decimal digits stand for. -/
def decimalValue (s : Str) : ℕ := s.foldl (fun n c => 10 * n + (c.toNat - 48)) 0

theorem decimalValue_concat (s : Str) (c : Char) :
    decimalValue (s ++ [c]) = 10 * decimalValue s + (c.toNat - 48) := by
  simp [decimalValue]

/-- Digits without a leading zero are the digits of their number. -/
theorem toDigits_decimalValue {s : Str} (hne : s ≠ []) (hdigits : s.all isDecimalDigit = true)
    (hzero : s.head? ≠ some '0') : Nat.toDigits 10 (decimalValue s) = s ∧ 0 < decimalValue s := by
  induction s using List.reverseRecOn with
  | nil => exact absurd rfl hne
  | append_singleton s c ih =>
    rw [List.all_append, Bool.and_eq_true] at hdigits
    have hc : isDecimalDigit c = true := by simpa using hdigits.2
    obtain ⟨hlt, hchar⟩ := digitChar_of_isDecimalDigit hc
    rw [decimalValue_concat]
    by_cases hs : s = []
    · subst hs
      have hvalue : 10 * decimalValue [] + (c.toNat - 48) = c.toNat - 48 := by simp [decimalValue]
      rw [hvalue, Nat.toDigits_of_lt_base hlt, hchar]
      refine ⟨rfl, Nat.pos_of_ne_zero ?_⟩
      intro h0
      rw [h0] at hchar
      exact hzero (by simp [← hchar])
    · rw [List.head?_append_of_ne_nil _ hs] at hzero
      obtain ⟨htext, hpos⟩ := ih hs hdigits.1 hzero
      rw [← Nat.toDigits_append_toDigits (by decide) hpos hlt, htext,
        Nat.toDigits_of_lt_base hlt, hchar]
      exact ⟨rfl, by omega⟩

/-- An octet is read from its digits only. -/
theorem parseOctet_eq_some {s : Str} {n : ℕ} (h : parseOctet s = some n) :
    Nat.toDigits 10 n = s ∧ n < 256 := by
  rw [parseOctet] at h
  split_ifs at h with h1 h2
  simp only [not_or, not_not, not_and] at h1 h2
  obtain ⟨hne, hdigits, -⟩ := h1
  change (if 255 < decimalValue s then none else some (decimalValue s)) = some n at h
  split_ifs at h with h3
  cases h
  refine ⟨?_, by omega⟩
  by_cases hs : s = ['0']
  · subst hs
    rfl
  · exact (toDigits_decimalValue hne hdigits (h2 hs)).1

theorem map_toDigits_of_mapM {texts : List Str} {octets : List ℕ}
    (h : texts.mapM parseOctet = some octets) :
    octets.map (Nat.toDigits 10) = texts ∧ ∀ o ∈ octets, o < 256 := by
  induction texts generalizing octets with
  | nil =>
    cases h
    simp
  | cons text texts ih =>
    rw [List.mapM_cons] at h
    obtain ⟨o, ho, h⟩ := Option.bind_eq_some_iff.mp h
    obtain ⟨rest, hrest, h⟩ := Option.bind_eq_some_iff.mp h
    cases h
    obtain ⟨htext, hlt⟩ := parseOctet_eq_some ho
    obtain ⟨htexts, hall⟩ := ih hrest
    rw [List.map_cons, htext, htexts]
    exact ⟨rfl, List.forall_mem_cons.mpr ⟨hlt, hall⟩⟩

/-- **A dotted quad** is the text of its address. -/
theorem compressed_of_ipv4Number {s : Str} {n : Fin (2 ^ 32)} (h : ipv4Number s = some n) :
    (IPAddress.v4 n).compressed = s := by
  obtain ⟨octets, hoctets, h⟩ := Option.bind_eq_some_iff.mp h
  split_ifs at h with hlength
  obtain ⟨htexts, hlt⟩ := map_toDigits_of_mapM hoctets
  match octets, hlength with
  | [a, b, c, d], _ =>
    simp only [List.mem_cons, List.not_mem_nil, or_false, forall_eq_or_imp, forall_eq] at hlt
    obtain ⟨ha, hb, hc, hd⟩ := hlt
    have hval : n.val = ((a * 256 + b) * 256 + c) * 256 + d := by
      rw [← Option.some.inj h]
      simp only [List.foldl_cons, List.foldl_nil, Fin.ofNat]
      omega
    have hplaces : [2 ^ 24, 2 ^ 16, 2 ^ 8, 1].map (fun place => Nat.toDigits 10 (n.val / place % 256)) =
        [a, b, c, d].map (Nat.toDigits 10) := by
      have h1 : n.val / 2 ^ 24 % 256 = a := by omega
      have h2 : n.val / 2 ^ 16 % 256 = b := by omega
      have h3 : n.val / 2 ^ 8 % 256 = c := by omega
      have h4 : n.val / 1 % 256 = d := by omega
      simp only [List.map_cons, List.map_nil, h1, h2, h3, h4]
    rw [IPAddress.compressed, hplaces, htexts]
    exact List.intercalate_splitOn '.'

theorem mem_intercalate {sep c : Char} {texts : List Str} (h : c ∈ [sep].intercalate texts) :
    c = sep ∨ ∃ text ∈ texts, c ∈ text := by
  induction texts with
  | nil => exact absurd h (by simp)
  | cons text texts ih =>
    by_cases hne : texts = []
    · subst hne
      rw [List.intercalate_singleton] at h
      exact .inr ⟨text, List.mem_cons_self, h⟩
    · rw [List.intercalate_cons_of_ne_nil hne, List.mem_append, List.mem_append,
        List.mem_singleton] at h
      rcases h with (h | h) | h
      · exact .inr ⟨text, List.mem_cons_self, h⟩
      · exact .inl h
      · rcases ih h with h | ⟨t, ht, hc⟩
        · exact .inl h
        · exact .inr ⟨t, List.mem_cons_of_mem _ ht, hc⟩

/-- The characters of a dotted quad. -/
theorem mem_compressed_v4 {n : Fin (2 ^ 32)} {c : Char} (h : c ∈ (IPAddress.v4 n).compressed) :
    isDecimalDigit c = true ∨ c = '.' := by
  rcases mem_intercalate h with rfl | ⟨text, htext, hc⟩
  · exact .inr rfl
  · obtain ⟨place, -, rfl⟩ := List.mem_map.mp htext
    have hdigit := Nat.isDigit_of_mem_toDigits (by decide) (le_refl 10) hc
    left
    simp only [Char.isDigit, Bool.and_eq_true, decide_eq_true_eq] at hdigit
    exact decide_eq_true ⟨hdigit.1, hdigit.2⟩

/-! ## Hextets -/

theorem hexDigit?_digitChar {d : ℕ} (h : d < 16) : hexDigit? d.digitChar = some d := by
  interval_cases d <;> rfl

theorem mapM_hexDigit? (n : ℕ) : ∃ digits, (hexText n).mapM hexDigit? = some digits ∧
    digits.foldl (fun n d => 16 * n + d) 0 = n := by
  induction n using Nat.strong_induction_on with
  | _ n ih =>
    by_cases hlt : n < 16
    · refine ⟨[n], ?_, by simp⟩
      rw [hexText, Nat.toDigits_of_lt_base hlt]
      simp [hexDigit?_digitChar hlt]
    · obtain ⟨digits, hdigits, hvalue⟩ := ih (n / 16) (by omega)
      refine ⟨digits ++ [n % 16], ?_, ?_⟩
      · rw [hexText, Nat.toDigits_of_base_le (by decide) (by omega), List.mapM_append]
        rw [hexText] at hdigits
        simp [hdigits, hexDigit?_digitChar (Nat.mod_lt n (by decide : 0 < 16))]
      · rw [List.foldl_append, hvalue]
        exact Nat.div_add_mod n 16

theorem hexText_ne_nil (n : ℕ) : hexText n ≠ [] := Nat.toDigits_ne_nil

/-- A hextet is read back. -/
theorem parseHextet_hexText {n : ℕ} (h : n < 2 ^ 16) : parseHextet (hexText n) = some n := by
  have hlength : (hexText n).length ≤ 4 :=
    (Nat.length_toDigits_le_iff (by decide) (by decide)).mpr h
  obtain ⟨digits, hdigits, hvalue⟩ := mapM_hexDigit? n
  rw [parseHextet, if_neg (by simp only [hexText_ne_nil, false_or]; omega), hdigits,
    Option.map_some, hvalue]

theorem mapM_parseHextet {hs : List ℕ} (h : ∀ x ∈ hs, x < 2 ^ 16) :
    (hs.map hexText).mapM parseHextet = some hs := by
  induction hs with
  | nil => rfl
  | cons x hs ih =>
    rw [List.map_cons, List.mapM_cons, parseHextet_hexText (h x List.mem_cons_self),
      ih fun y hy => h y (List.mem_cons_of_mem _ hy)]
    rfl

/-- A digit of a hextet. -/
def IsHexChar (c : Char) : Prop := ∃ d < 16, c = d.digitChar

theorem isHexChar_of_mem {n : ℕ} {c : Char} (h : c ∈ hexText n) : IsHexChar c := by
  induction n using Nat.strong_induction_on with
  | _ n ih =>
    rw [hexText] at h
    by_cases hlt : n < 16
    · rw [Nat.toDigits_of_lt_base hlt, List.mem_singleton] at h
      exact ⟨n, hlt, h⟩
    · rw [Nat.toDigits_of_base_le (by decide) (by omega), List.mem_append, List.mem_singleton] at h
      rcases h with h | h
      · exact ih (n / 16) (by omega) h
      · exact ⟨n % 16, Nat.mod_lt n (by decide), h⟩

theorem IsHexChar.ne {c c' : Char} (h : IsHexChar c) (hc' : ∀ d < 16, Nat.digitChar d ≠ c') : c ≠ c' := by
  obtain ⟨d, hd, rfl⟩ := h
  exact hc' d hd

/-! ## The longest run of zeros -/

/-- Every hextet of a run is zero. -/
def ZerosAt (hs : List ℕ) (run : ℕ × ℕ) : Prop :=
  ∀ i, run.1 ≤ i → i < run.1 + run.2 → hs[i]? = some 0

/-- The step of `_compress_hextets`, on the best run so far and the run that ends here. -/
def runStep (runs : (ℕ × ℕ) × (ℕ × ℕ)) (x : ℕ × ℕ) : (ℕ × ℕ) × (ℕ × ℕ) :=
  if x.1 = 0 then
    let start := if runs.2.2 = 0 then x.2 else runs.2.1
    let run := (start, runs.2.2 + 1)
    (if runs.1.2 < run.2 then run else runs.1, run)
  else (runs.1, (0, 0))

theorem longestZeros_eq (hs : List ℕ) :
    longestZeros hs = (hs.zipIdx.foldl runStep ((0, 0), (0, 0))).1 := rfl

/-- The runs are runs of zeros; the best one is among the first `k` hextets and the current one
ends there. -/
structure RunsOf (hs : List ℕ) (k : ℕ) (runs : (ℕ × ℕ) × (ℕ × ℕ)) : Prop where
  best : ZerosAt hs runs.1
  current : ZerosAt hs runs.2
  bestEnd : runs.1.1 + runs.1.2 ≤ k
  currentEnd : runs.2.2 ≠ 0 → runs.2.1 + runs.2.2 = k

theorem RunsOf.step {hs : List ℕ} {k x : ℕ} {runs : (ℕ × ℕ) × (ℕ × ℕ)} (h : RunsOf hs k runs)
    (hx : hs[k]? = some x) : RunsOf hs (k + 1) (runStep runs (x, k)) := by
  obtain ⟨⟨bestStart, bestLength⟩, ⟨start, length⟩⟩ := runs
  have hbestEnd : bestStart + bestLength ≤ k := h.bestEnd
  by_cases hzero : x = 0
  · have hrun : ∃ run : ℕ × ℕ, run.1 + run.2 = k + 1 ∧ ZerosAt hs run ∧
        runStep ((bestStart, bestLength), (start, length)) (x, k) =
          (if bestLength < run.2 then run else (bestStart, bestLength), run) := by
      refine ⟨(if length = 0 then k else start, length + 1), ?_, ?_, ?_⟩
      · by_cases hlength : length = 0
        · simp [hlength]
        · have hend : start + length = k := h.currentEnd hlength
          simp only [hlength, if_false]
          omega
      · intro i hlow hhigh
        by_cases hi : i = k
        · rw [hi, hx, hzero]
        · by_cases hlength : length = 0
          · simp only [hlength, if_true] at hlow hhigh
            omega
          · have hend : start + length = k := h.currentEnd hlength
            simp only [hlength, if_false] at hlow hhigh
            exact h.current i hlow (by simp only; omega)
      · simp [runStep, hzero]
    obtain ⟨run, hend, hzeros, hstep⟩ := hrun
    rw [hstep]
    constructor
    · dsimp only
      split_ifs
      · exact hzeros
      · exact h.best
    · exact hzeros
    · dsimp only
      split_ifs
      · exact hend.le
      · exact Nat.le_succ_of_le hbestEnd
    · exact fun _ => hend
  · have hstep : runStep ((bestStart, bestLength), (start, length)) (x, k) =
        ((bestStart, bestLength), (0, 0)) := by simp [runStep, hzero]
    rw [hstep]
    refine ⟨h.best, ?_, Nat.le_succ_of_le hbestEnd, fun hne => absurd rfl hne⟩
    intro i hlow hhigh
    exact absurd hhigh (Nat.not_lt_zero i)

theorem RunsOf.run {hs rest : List ℕ} {k : ℕ} {runs : (ℕ × ℕ) × (ℕ × ℕ)} (h : RunsOf hs k runs)
    (hrest : hs.drop k = rest) :
    RunsOf hs (k + rest.length) ((rest.zipIdx k).foldl runStep runs) := by
  induction rest generalizing k runs with
  | nil => exact h
  | cons x rest ih =>
    have hx : hs[k]? = some x := by
      rw [← List.head?_drop, hrest]
      rfl
    have hdrop : hs.drop (k + 1) = rest := by
      rw [← List.tail_drop, hrest]
      rfl
    have := ih (h.step hx) hdrop
    rw [List.zipIdx_cons, List.foldl_cons, List.length_cons]
    rwa [show k + (rest.length + 1) = k + 1 + rest.length by omega]

/-- **The longest run of zeros** is one. -/
theorem longestZeros_spec (hs : List ℕ) : ZerosAt hs (longestZeros hs) ∧
    (longestZeros hs).1 + (longestZeros hs).2 ≤ hs.length := by
  have hzeros : ZerosAt hs (0, 0) := fun i _ hhigh => absurd hhigh (Nat.not_lt_zero i)
  have hinit : RunsOf hs 0 ((0, 0), (0, 0)) := ⟨hzeros, hzeros, le_refl 0, fun hne => absurd rfl hne⟩
  have hrun := hinit.run (List.drop_zero)
  rw [Nat.zero_add] at hrun
  rw [longestZeros_eq]
  exact ⟨hrun.best, hrun.bestEnd⟩

/-- A run of zeros between the other hextets. -/
theorem split_at_zeros {hs : List ℕ} {start length : ℕ} (hzeros : ZerosAt hs (start, length))
    (hend : start + length ≤ hs.length) :
    hs = hs.take start ++ List.replicate length 0 ++ hs.drop (start + length) := by
  have hmiddle : (hs.drop start).take length = List.replicate length 0 := by
    rw [List.eq_replicate_iff]
    constructor
    · rw [List.length_take, List.length_drop]
      omega
    · intro x hx
      obtain ⟨i, hi⟩ := List.mem_iff_getElem?.mp hx
      rw [List.getElem?_take] at hi
      split_ifs at hi with hlt
      rw [List.getElem?_drop] at hi
      have hzero := hzeros (start + i) (Nat.le_add_right _ _) (by simp only; omega)
      rw [hzero] at hi
      exact (Option.some.inj hi).symm
  rw [List.append_assoc, ← hmiddle, ← List.drop_drop, List.take_append_drop, List.take_append_drop]

/-- The number of hextets. -/
def shiftHextets (n : ℕ) (hs : List ℕ) : ℕ := hs.foldl (fun n hextet => 2 ^ 16 * n + hextet) n

theorem shiftHextets_replicate (n k : ℕ) :
    shiftHextets n (List.replicate k 0) = n * 2 ^ (16 * k) := by
  induction k generalizing n with
  | zero => simp [shiftHextets]
  | succ k ih =>
    have hcons : shiftHextets n (List.replicate (k + 1) 0) =
        shiftHextets (2 ^ 16 * n + 0) (List.replicate k 0) := rfl
    rw [hcons, ih, Nat.mul_add 16 k 1, Nat.pow_add, Nat.add_zero, Nat.mul_comm (2 ^ 16) n, Nat.mul_assoc,
      Nat.mul_comm (2 ^ 16)]

/-- The hextets of an address. -/
def hextetsOf (n : ℕ) : List ℕ := (List.range 8).map fun i => n / 2 ^ (16 * (7 - i)) % 2 ^ 16

theorem lt_of_mem_hextetsOf {n x : ℕ} (h : x ∈ hextetsOf n) : x < 2 ^ 16 := by
  obtain ⟨i, -, rfl⟩ := List.mem_map.mp h
  exact Nat.mod_lt _ (by decide)

theorem length_hextetsOf (n : ℕ) : (hextetsOf n).length = 8 := by
  simp [hextetsOf]

theorem shiftHextets_hextetsOf (n : Fin (2 ^ 128)) : shiftHextets 0 (hextetsOf n) = n := by
  have hn := n.isLt
  simp only [hextetsOf, shiftHextets, List.range, List.range.loop, List.map_cons, List.map_nil,
    List.foldl_cons, List.foldl_nil]
  omega

/-! ## The omitted hextets -/

/-- The parts on one side of the omitted ones: at the edge of the text an empty part stands for
no part. -/
def padded (parts : List Str) : List Str := if parts = [] then [[]] else parts

theorem padded_ne_nil (parts : List Str) : padded parts ≠ [] := by
  rw [padded]
  split_ifs with h
  · simp
  · exact h

theorem length_padded (parts : List Str) : (padded parts).length = max 1 parts.length := by
  rw [padded]
  split_ifs with h
  · simp [h]
  · have := List.length_pos_iff.mpr h
    omega

theorem head?_padded {parts : List Str} (h : ∀ part ∈ parts, part ≠ []) :
    (padded parts).head? = some [] ↔ parts = [] := by
  constructor
  · intro hhead
    by_contra hne
    rw [padded, if_neg hne] at hhead
    exact h [] (List.mem_of_head? hhead) rfl
  · rintro rfl
    rfl

theorem getLast?_padded {parts : List Str} (h : ∀ part ∈ parts, part ≠ []) :
    (padded parts).getLast? = some [] ↔ parts = [] := by
  constructor
  · intro hlast
    by_contra hne
    rw [padded, if_neg hne] at hlast
    exact h [] (List.mem_of_getLast? hlast) rfl
  · rintro rfl
    rfl

/-- The only empty part inside stands for the omitted ones. -/
theorem emptyParts_padded {high low : List Str} (hhigh : ∀ part ∈ high, part ≠ [])
    (hlow : ∀ part ∈ low, part ≠ []) :
    emptyParts (padded high ++ [] :: padded low) = [(padded high).length] := by
  have hpos : 0 < (padded high).length := List.length_pos_iff.mpr (padded_ne_nil high)
  have hlength : (padded high ++ [] :: padded low).length - 1 =
      (padded high).length + (1 + ((padded low).length - 1)) := by
    have := List.length_pos_iff.mpr (padded_ne_nil low)
    simp only [List.length_append, List.length_cons]
    omega
  rw [emptyParts, hlength, List.range_add, List.filter_append, List.range_add, List.map_append,
    List.filter_append]
  have hbefore : (List.range (padded high).length).filter (fun i => decide (0 < i) &&
      decide ((padded high ++ [] :: padded low)[i]? = some [])) = [] := by
    rw [List.filter_eq_nil_iff]
    intro i hi
    rw [List.mem_range] at hi
    rw [List.getElem?_append_left hi]
    simp only [Bool.and_eq_true, decide_eq_true_eq, not_and]
    intro hi0 hempty
    by_cases hnil : high = []
    · simp only [padded, hnil, if_true, List.length_singleton] at hi
      omega
    · rw [padded, if_neg hnil] at hempty
      exact hhigh [] (List.mem_of_getElem? hempty) rfl
  have hafter : (((List.range ((padded low).length - 1)).map (1 + ·)).map
      ((padded high).length + ·)).filter (fun i => decide (0 < i) &&
      decide ((padded high ++ [] :: padded low)[i]? = some [])) = [] := by
    rw [List.filter_eq_nil_iff]
    intro i hi
    rw [List.map_map, List.mem_map] at hi
    obtain ⟨j, hj, rfl⟩ := hi
    rw [List.mem_range] at hj
    simp only [Function.comp_apply, Bool.and_eq_true, decide_eq_true_eq, not_and]
    intro _ hempty
    rw [List.getElem?_append_right (by omega), Nat.add_sub_cancel_left, Nat.add_comm 1 j,
      List.getElem?_cons_succ] at hempty
    by_cases hnil : low = []
    · simp only [padded, hnil, if_true, List.length_singleton] at hj
      omega
    · rw [padded, if_neg hnil] at hempty
      exact hlow [] (List.mem_of_getElem? hempty) rfl
  rw [hbefore, hafter]
  simp [hpos]

/-- The parts around the omitted ones are found. -/
theorem splitParts_padded {high low : List Str} (hhigh : ∀ part ∈ high, part ≠ [])
    (hlow : ∀ part ∈ low, part ≠ []) (hlength : high.length + low.length < 8) :
    splitParts (padded high ++ [] :: padded low) =
      some (high, 8 - (high.length + low.length), low) := by
  have htake : (padded high ++ [] :: padded low).take (padded high).length = padded high :=
    List.take_left
  have hdrop : (padded high ++ [] :: padded low).drop ((padded high).length + 1) = padded low := by
    rw [← List.drop_drop, List.drop_left]
    rfl
  have hhead : (if (padded high).head? = some [] then (padded high).tail else padded high) = high := by
    simp only [head?_padded hhigh]
    split_ifs with h
    · simp [padded, h]
    · simp [padded, h]
  have hlast : (if (padded low).getLast? = some [] then (padded low).dropLast else padded low) = low := by
    simp only [getLast?_padded hlow]
    split_ifs with h
    · simp [padded, h]
    · simp [padded, h]
  rw [splitParts, emptyParts_padded hhigh hlow]
  simp only [htake, hdrop, hhead, hlast]
  rw [if_neg, if_neg (by omega)]
  rw [head?_padded hhigh, getLast?_padded hlow]
  tauto

/-- Without an empty part nothing is omitted. -/
theorem splitParts_full {parts : List Str} (hparts : ∀ part ∈ parts, part ≠ [])
    (hlength : parts.length = 8) : splitParts parts = some (parts, 0, []) := by
  have hempty : emptyParts parts = [] := by
    rw [emptyParts, List.filter_eq_nil_iff]
    intro i _
    simp only [Bool.and_eq_true, decide_eq_true_eq, not_and]
    intro _ hi
    exact hparts [] (List.mem_of_getElem? hi) rfl
  have hhead : parts.head? ≠ some [] := fun h => hparts [] (List.mem_of_head? h) rfl
  have hlast : parts.getLast? ≠ some [] := fun h => hparts [] (List.mem_of_getLast? h) rfl
  rw [splitParts, hempty]
  simp [hlength, hhead, hlast]

/-! ## Version 6 -/

/-- The parts of the compressed text: on both sides of the longest run of zeros, if that is
longer than one. -/
def compressedParts (hs : List ℕ) : List Str :=
  let (start, length) := longestZeros hs
  if 1 < length then
    padded ((hs.take start).map hexText) ++ [] :: padded ((hs.drop (start + length)).map hexText)
  else hs.map hexText

theorem mem_map_hexText {hs : List ℕ} {part : Str} (h : part ∈ hs.map hexText) : part ≠ [] := by
  obtain ⟨n, -, rfl⟩ := List.mem_map.mp h
  exact hexText_ne_nil n

theorem padded_take {hs : List ℕ} {start : ℕ} (h : start < hs.length) :
    (if start = 0 then [[]] else []) ++ (hs.map hexText).take start =
      padded ((hs.take start).map hexText) := by
  rw [← List.map_take, padded]
  by_cases h0 : start = 0
  · simp [h0]
  · have hne : (hs.take start).map hexText ≠ [] := by
      rw [Ne, List.map_eq_nil_iff, List.take_eq_nil_iff, not_or]
      exact ⟨h0, List.ne_nil_of_length_pos (by omega)⟩
    rw [if_neg h0, if_neg hne, List.nil_append]

theorem padded_drop {hs : List ℕ} {n : ℕ} (h : n ≤ hs.length) :
    (hs.map hexText).drop n ++ (if n = hs.length then [[]] else []) =
      padded ((hs.drop n).map hexText) := by
  rw [← List.map_drop, padded]
  by_cases hn : n = hs.length
  · simp [hn]
  · have hne : (hs.drop n).map hexText ≠ [] := by
      rw [Ne, List.map_eq_nil_iff, List.drop_eq_nil_iff]
      omega
    rw [if_neg hn, if_neg hne, List.append_nil]

theorem compressHextets_eq (hs : List ℕ) :
    compressHextets hs = [':'].intercalate (compressedParts hs) := by
  have hspec := (longestZeros_spec hs).2
  rw [compressHextets, compressedParts]
  generalize longestZeros hs = run at hspec
  obtain ⟨start, length⟩ := run
  dsimp only at hspec ⊢
  by_cases hlength : 1 < length
  · rw [if_pos hlength, if_pos hlength, ← padded_take (by omega), ← padded_drop hspec,
      List.length_map]
    simp only [List.append_assoc, List.nil_append, List.cons_append]
  · rw [if_neg hlength, if_neg hlength]

/-- A part of the compressed text is empty or a hextet. -/
theorem mem_compressedParts {hs : List ℕ} {part : Str} (h : part ∈ compressedParts hs) :
    part = [] ∨ ∃ n, part = hexText n := by
  have hpadded : ∀ {xs : List ℕ}, part ∈ padded (xs.map hexText) → part = [] ∨ ∃ n, part = hexText n := by
    intro xs hmem
    rw [padded] at hmem
    split_ifs at hmem with hnil
    · exact .inl (List.mem_singleton.mp hmem)
    · obtain ⟨n, -, rfl⟩ := List.mem_map.mp hmem
      exact .inr ⟨n, rfl⟩
  rw [compressedParts] at h
  dsimp only at h
  split_ifs at h
  · rcases List.mem_append.mp h with h | h
    · exact hpadded h
    · rcases List.mem_cons.mp h with rfl | h
      · exact .inl rfl
      · exact hpadded h
  · obtain ⟨n, -, rfl⟩ := List.mem_map.mp h
    exact .inr ⟨n, rfl⟩

theorem notMem_of_mem_compressedParts {hs : List ℕ} {part : Str} (h : part ∈ compressedParts hs)
    {c : Char} (hc : ∀ d < 16, Nat.digitChar d ≠ c) : c ∉ part := by
  rcases mem_compressedParts h with rfl | ⟨n, rfl⟩
  · simp
  · intro hmem
    exact (isHexChar_of_mem hmem).ne hc rfl

/-- Between three and nine parts. -/
theorem length_compressedParts {hs : List ℕ} (h : hs.length = 8) :
    3 ≤ (compressedParts hs).length ∧ (compressedParts hs).length ≤ 9 := by
  have hspec := (longestZeros_spec hs).2
  rw [compressedParts]
  generalize longestZeros hs = run at hspec
  obtain ⟨start, length⟩ := run
  dsimp only at hspec ⊢
  split_ifs
  · simp only [List.length_append, List.length_cons, length_padded, List.length_map,
      List.length_take, List.length_drop]
    omega
  · rw [List.length_map, h]
    omega

/-- The compressed text says where the omitted hextets are. -/
theorem splitParts_compressedParts {hs : List ℕ} (h : hs.length = 8) :
    ∃ high skipped low, hs = high ++ List.replicate skipped 0 ++ low ∧
      splitParts (compressedParts hs) = some (high.map hexText, skipped, low.map hexText) := by
  obtain ⟨hzeros, hend⟩ := longestZeros_spec hs
  rw [compressedParts]
  generalize longestZeros hs = run at hzeros hend
  obtain ⟨start, length⟩ := run
  dsimp only at hzeros hend ⊢
  split_ifs with hlength
  · refine ⟨hs.take start, length, hs.drop (start + length), split_at_zeros hzeros hend, ?_⟩
    have hhigh : (hs.take start).length = start := by
      rw [List.length_take]
      omega
    have hlow : (hs.drop (start + length)).length = 8 - (start + length) := by
      rw [List.length_drop, h]
    rw [splitParts_padded (fun _ => mem_map_hexText) (fun _ => mem_map_hexText)
      (by rw [List.length_map, List.length_map, hhigh, hlow]; omega), List.length_map,
      List.length_map, hhigh, hlow]
    have hskipped : 8 - (start + (8 - (start + length))) = length := by omega
    rw [hskipped]
  · refine ⟨hs, 0, [], by simp, ?_⟩
    rw [splitParts_full (fun _ => mem_map_hexText) (by rw [List.length_map, h])]
    rfl

/-- What an address of version 6 is read from. -/
theorem ipv6Number_of_parts {s : Str} {parts high low : List Str} {skipped : ℕ} {hs ls : List ℕ}
    (hne : s ≠ []) (hparts : s.splitOn ':' = parts) (hlow : 3 ≤ parts.length)
    (hhigh : parts.length ≤ 9) (hdot : ∀ part ∈ parts, '.' ∉ part)
    (hsplit : splitParts parts = some (high, skipped, low))
    (hhs : high.mapM parseHextet = some hs) (hls : low.mapM parseHextet = some ls) :
    ipv6Number s =
      some (Fin.ofNat _ (shiftHextets (shiftHextets 0 hs * 2 ^ (16 * skipped)) ls)) := by
  have hquad : replaceDottedQuad parts = some parts := by
    have hsome : parts.getLast? = some (parts.getLast (List.ne_nil_of_length_pos (by omega))) :=
      List.getLast?_eq_some_getLast _
    rw [replaceDottedQuad, hsome]
    exact if_neg (hdot _ (List.getLast_mem _))
  have h3 : ¬parts.length < 3 := by omega
  have h9 : ¬9 < parts.length := by omega
  simp only [ipv6Number, hne, hparts, h3, h9, hquad, hsplit, hhs, hls, if_false, Option.bind_some,
    bind]
  rfl

theorem shiftHextets_append (n : ℕ) (hs ls : List ℕ) :
    shiftHextets n (hs ++ ls) = shiftHextets (shiftHextets n hs) ls := by
  rw [shiftHextets, List.foldl_append]
  rfl

/-- **The compressed text** of an address of version 6 is read as its number. -/
theorem ipv6Number_compressHextets (n : Fin (2 ^ 128)) :
    ipv6Number (compressHextets (hextetsOf n)) = some n := by
  have hlength := length_hextetsOf n.val
  obtain ⟨high, skipped, low, hsplit, hparts⟩ := splitParts_compressedParts hlength
  obtain ⟨hmin, hmax⟩ := length_compressedParts hlength
  have hlt : ∀ x ∈ high ++ List.replicate skipped 0 ++ low, x < 2 ^ 16 := by
    rw [← hsplit]
    exact fun x hx => lt_of_mem_hextetsOf hx
  have hhs : (high.map hexText).mapM parseHextet = some high :=
    mapM_parseHextet fun x hx => hlt x (by simp [hx])
  have hls : (low.map hexText).mapM parseHextet = some low :=
    mapM_parseHextet fun x hx => hlt x (by simp [hx])
  have hcolon : ∀ part ∈ compressedParts (hextetsOf n), ':' ∉ part :=
    fun part hpart => notMem_of_mem_compressedParts hpart (by decide)
  have hdot : ∀ part ∈ compressedParts (hextetsOf n), '.' ∉ part :=
    fun part hpart => notMem_of_mem_compressedParts hpart (by decide)
  have hparts' : (compressHextets (hextetsOf n)).splitOn ':' = compressedParts (hextetsOf n) := by
    rw [compressHextets_eq]
    exact List.splitOn_intercalate ':' hcolon (List.ne_nil_of_length_pos (by omega))
  have hne : compressHextets (hextetsOf n) ≠ [] := by
    intro hnil
    rw [hnil] at hparts'
    rw [← hparts'] at hmin
    exact absurd hmin (by decide)
  rw [ipv6Number_of_parts hne hparts' hmin hmax hdot hparts hhs hls, ← shiftHextets_replicate,
    ← shiftHextets_append, ← shiftHextets_append, ← List.append_assoc, ← hsplit,
    shiftHextets_hextetsOf]
  congr 1
  exact Fin.ofNat_val_eq_self n

theorem compressed_v6 (n : Fin (2 ^ 128)) :
    (IPAddress.v6 n none).compressed = compressHextets (hextetsOf n) := by
  rw [IPAddress.compressed, List.append_nil]
  rfl

/-- The characters of the text of an address of version 6. -/
theorem mem_compressed_v6 {n : Fin (2 ^ 128)} {c : Char}
    (h : c ∈ (IPAddress.v6 n none).compressed) : IsHexChar c ∨ c = ':' := by
  rw [compressed_v6, compressHextets_eq] at h
  rcases mem_intercalate h with rfl | ⟨part, hpart, hc⟩
  · exact .inr rfl
  · rcases mem_compressedParts hpart with rfl | ⟨x, rfl⟩
    · exact absurd hc (by simp)
    · exact .inl (isHexChar_of_mem hc)

/-- A text without dots is no dotted quad. -/
theorem ipv4Number_of_no_dot {s : Str} (h : '.' ∉ s) : ipv4Number s = none := by
  rw [ipv4Number, List.splitOn_eq_singleton h]
  cases hs : parseOctet s <;> simp [hs]

/-- **An address of version 6** is read from its text. -/
theorem ipAddress_compressed_v6 (n : Fin (2 ^ 128)) :
    ipAddress (IPAddress.v6 n none).compressed = some (.v6 n none) := by
  have hnotMem : ∀ {c : Char}, (∀ d < 16, Nat.digitChar d ≠ c) → c ≠ ':' →
      c ∉ (IPAddress.v6 n none).compressed := by
    intro c hhex hcolon hmem
    rcases mem_compressed_v6 hmem with hc | hc
    · exact hc.ne hhex rfl
    · exact hcolon hc
  have hslash := hnotMem (c := '/') (by decide) (by decide)
  have hdot := hnotMem (c := '.') (by decide) (by decide)
  have hpercent := hnotMem (c := '%') (by decide) (by decide)
  have hscope : splitScopeId (IPAddress.v6 n none).compressed =
      some ((IPAddress.v6 n none).compressed, none) := by
    rw [splitScopeId, if_pos hpercent]
  rw [ipAddress, if_neg hslash, ipv4Number_of_no_dot hdot]
  dsimp only
  rw [hscope]
  dsimp only [bind, Option.bind_some]
  rw [compressed_v6, ipv6Number_compressHextets]
  rfl

end VeloxRag.NetworkPolicy
