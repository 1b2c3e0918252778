import VeloxRag.Lib.Decimals
import VeloxRag.Lib.PyValue
import VeloxRag.Platform
import VeloxRag.Ingestion.ObjectKeys

/-!
# Fingerprints of requests

A creation with an idempotency key is replayed only if its request has the fingerprint that is
stored with the key.  The fingerprint is a digest of the request written in a normal form: every
value is tagged with its kind, keys are sorted and a number is its reduced decimal.

## Main definitions

* `canonicalFingerprintNumber`, `canonicalFingerprintValue` — the normal form.
* `fingerprintPayload`, `profileCreateFingerprint` — the bytes and the digest.
* `JsonEqual` — equality as JSON, with numbers compared by value and key order ignored.
* `canonicalFingerprintNumber_eq_iff` — equal number texts are those of equal numbers.
* `fingerprints_identify` — the normal form and the bytes identify the value.
-/

namespace VeloxRag.Fingerprints

open VeloxRag.Lib

variable {P : Platform}

/-- A number that is no `int`: a `float` or a `Decimal`. -/
inductive Number (P : Platform)
  | float (f : P.Float)
  | decimal (d : PyDecimal)

/-! ## The normal form -/

/-- `value if type(value) is Decimal else Decimal(str(value))`; `str` fails on an integer with too
many digits.  A float that is not finite is written `inf` or `nan`. -/
def numberOf : PyValue (Number P) → Option PyDecimal
  | .int n => (Json.dumpsInt n).bind decimalOfText
  | .float (.float f) =>
    if P.floats.isFinite f then decimalOfText (P.floats.repr f) else some .special
  | .float (.decimal d) => some d
  | _ => none

/-- `_canonical_fingerprint_number`, with `none` for an exception. -/
def canonicalFingerprintNumber : PyDecimal → Option Str
  | .special => none
  | .finite d =>
    if d.coefficient = 0 then some ['0']
    else do
      -- the loop takes digits from the end
      let (digits, exponent) ← dropZeros d.digits.reverse d.exponent
      let coefficient := digits.reverse.flatMap (Nat.toDigits 10)
      some ((if d.negative then ['-'] else []) ++ coefficient ++ 'e' :: Json.decimal exponent)

/-- A value with the tag of its kind. -/
def tagged (tag : String) (value : Json P.Float) : Json P.Float := .arr [.str tag.toList, value]

/-- `_canonical_fingerprint_value` of a scalar. -/
def fingerprintScalar : PyValue (Number P) → Option (Json P.Float)
  | .none => some (.arr [.str "null".toList])
  | .bool b => some (tagged "boolean" (.bool b))
  | .str s => some (tagged "string" (.str s))
  | .int n => do
    let number ← numberOf (.int n : PyValue (Number P))
    let text ← canonicalFingerprintNumber number
    some (tagged "number" (.str text))
  | .float x => do
    let number ← numberOf (.float x)
    let text ← canonicalFingerprintNumber number
    some (tagged "number" (.str text))
  | _ => none

/-- `_canonical_fingerprint_value`, with `none` for an exception. -/
def canonicalFingerprintValue : PyValue (Number P) → Option (Json P.Float) :=
  PyValue.normalize fingerprintScalar (fun items => tagged "array" (.arr items))
    fun members => tagged "object" (.arr (members.map fun m => .arr [.str m.1, m.2]))

/-- `json.dumps(canonical_document, separators=(",", ":"), ensure_ascii=False).encode("utf-8")`. -/
def fingerprintPayload (canonicalDocument : Json P.Float) : Option Bytes :=
  (Json.dumps P.floats canonicalDocument).map encode

/-- `ModelProfileCreate`. -/
structure ModelProfileCreate (P : Platform) where
  name : Str
  capability : Str
  providerConfigId : ℕ
  modelName : Str
  dimension : Option ℤ
  maxInputTokens : ℤ
  batchSize : ℤ
  timeoutSeconds : PyDecimal
  vectorConfig : PyValue (Number P)
  enabled : Bool

/-- The document of `_profile_create_fingerprint`. -/
def profileDocument (command : ModelProfileCreate P) : PyValue (Number P) :=
  .dict [(.str "schema".toList, .str "model-profile.create:v1".toList),
    (.str "name".toList, .str command.name),
    (.str "capability".toList, .str command.capability),
    (.str "provider_config_id".toList, .str (Ingestion.uuidText command.providerConfigId)),
    (.str "model_name".toList, .str command.modelName),
    (.str "dimension".toList, match command.dimension with
      | some n => .int n
      | none => .none),
    (.str "max_input_tokens".toList, .int command.maxInputTokens),
    (.str "batch_size".toList, .int command.batchSize),
    (.str "timeout_seconds".toList, .float (.decimal command.timeoutSeconds)),
    (.str "vector_config".toList, command.vectorConfig),
    (.str "enabled".toList, .bool command.enabled)]

/-- `_profile_create_fingerprint`; `digest` is `hmac.digest` with the secret and SHA-256. -/
def profileCreateFingerprint (digest : Bytes → Bytes) (command : ModelProfileCreate P) :
    Option Bytes :=
  ((canonicalFingerprintValue (profileDocument command)).bind fingerprintPayload).map digest

/-! ## Equality as JSON -/

/-- The exact value of a number. -/
def numericValue : PyValue (Number P) → Option ℚ
  | .int n => some n
  | .float x =>
    match numberOf (.float x) with
    | some (.finite d) => some d.value
    | _ => none
  | _ => none

/-- Equal scalars: numbers of one value, and otherwise equal values of one type. -/
inductive EqualScalar : PyValue (Number P) → PyValue (Number P) → Prop
  | null : EqualScalar .none .none
  | bool (b : Bool) : EqualScalar (.bool b) (.bool b)
  | str (s : Str) : EqualScalar (.str s) (.str s)
  | number {v w : PyValue (Number P)} {value : ℚ} (hv : numericValue v = some value)
      (hw : numericValue w = some value) : EqualScalar v w

/-- Equality as JSON. -/
def JsonEqual : PyValue (Number P) → PyValue (Number P) → Prop := PyValue.Same EqualScalar

/-! ## Numbers -/

theorem digits_of_ne_zero {d : Decimal} (h : d.coefficient ≠ 0) :
    d.digits.reverse = Nat.digits 10 d.coefficient := by
  rw [Decimal.digits, if_neg h, List.reverse_reverse]

/-- The digits of a number are its text. -/
theorem flatMap_digits {n : ℕ} (hn : n ≠ 0) :
    (Nat.digits 10 n).reverse.flatMap (Nat.toDigits 10) = Nat.toDigits 10 n := by
  induction n using Nat.strong_induction_on with
  | _ n ih =>
    rw [Nat.digits_def' (by decide) (Nat.pos_of_ne_zero hn), List.reverse_cons, List.flatMap_append,
      List.flatMap_singleton]
    by_cases hlt : n < 10
    · have hzero : n / 10 = 0 := Nat.div_eq_of_lt hlt
      rw [hzero, Nat.mod_eq_of_lt hlt]
      simp
    · have hlast : n % 10 < 10 := Nat.mod_lt n (by decide)
      have hstep : Nat.toDigits 10 n = Nat.toDigits 10 (n / 10) ++ [(n % 10).digitChar] :=
        Nat.toDigits_of_base_le (by decide) (by omega)
      rw [ih (n / 10) (by omega) (by omega), hstep, Nat.toDigits_of_lt_base hlast]

/-- The text of a reduced decimal. -/
def reducedText (d : Decimal) : Str :=
  (if d.negative then ['-'] else []) ++ Nat.toDigits 10 d.coefficient ++
    'e' :: Json.decimal d.exponent

/-- **The loop ends** with the reduced decimal of a number that is not zero. -/
theorem exists_reduced {d : Decimal} (h : d.coefficient ≠ 0) :
    ∃ r : Decimal, ¬ 10 ∣ r.coefficient ∧ r.value = d.value ∧
      dropZeros d.digits.reverse d.exponent = some (Nat.digits 10 r.coefficient, r.exponent) ∧
      canonicalFingerprintNumber (.finite d) = some (reducedText r) := by
  obtain ⟨m, k, hdrop, hcoefficient, hnot⟩ := dropZeros_digits h d.exponent
  have hm : m ≠ 0 := fun h0 => hnot (h0 ▸ dvd_zero 10)
  refine ⟨⟨d.negative, m, d.exponent + k⟩, hnot, ?_, ?_, ?_⟩
  · rw [Decimal.value, Decimal.value, hcoefficient]
    push_cast
    rw [zpow_add₀ (by norm_num), zpow_natCast]
    ring
  · rw [digits_of_ne_zero h, hdrop]
  · rw [canonicalFingerprintNumber, if_neg h, digits_of_ne_zero h, hdrop]
    simp only [Option.bind_eq_bind, Option.bind_some, flatMap_digits hm, reducedText]

theorem isSome_canonicalFingerprintNumber (d : Decimal) :
    ∃ text, canonicalFingerprintNumber (.finite d) = some text := by
  by_cases h : d.coefficient = 0
  · exact ⟨['0'], by rw [canonicalFingerprintNumber, if_pos h]⟩
  · obtain ⟨r, -, -, -, htext⟩ := exists_reduced h
    exact ⟨_, htext⟩

theorem decimal_injective : Function.Injective Json.decimal := by
  intro m n h
  have hread := (decimalOfText_decimal m).symm.trans
    ((congrArg decimalOfText h).trans (decimalOfText_decimal n))
  simp only [Option.some.injEq, PyDecimal.finite.injEq, Decimal.mk.injEq, decide_eq_decide,
    and_true] at hread
  omega

theorem e_not_mem_sign_digits (negative : Bool) (n : ℕ) :
    'e' ∉ (if negative then ['-'] else []) ++ Nat.toDigits 10 n := by
  rw [List.mem_append]
  rintro (h | h)
  · cases negative <;> simp at h
  · exact absurd (Json.isDigit_toDigits 'e' h) (by decide)

theorem e_not_mem_decimal (n : ℤ) : 'e' ∉ Json.decimal n := by
  have hdigits : ∀ m : ℕ, 'e' ∉ Nat.toDigits 10 m := fun m h =>
    absurd (Json.isDigit_toDigits 'e' h) (by decide)
  cases n with
  | ofNat n => exact hdigits n
  | negSucc n =>
    intro h
    rcases List.mem_cons.mp h with h | h
    · cases h
    · exact hdigits (n + 1) h

/-- A reduced decimal is read from its text. -/
theorem reducedText_injective : Function.Injective reducedText := by
  rintro ⟨negative, m, e⟩ ⟨negative', m', e'⟩ h
  simp only [reducedText] at h
  obtain ⟨hhead, -, htail⟩ := (List.append_cons_inj_of_notMem (e_not_mem_sign_digits negative m)
    (e_not_mem_decimal e)).mp h
  have hminus : ∀ k : ℕ, (Nat.toDigits 10 k).head? ≠ some '-' := fun k hk =>
    (Json.isDigit_ne (Json.isDigit_toDigits '-' (List.mem_of_mem_head? hk))).1 rfl
  have hdigits : negative = negative' ∧ Nat.toDigits 10 m = Nat.toDigits 10 m' := by
    cases negative <;> cases negative' <;>
      simp only [Bool.false_eq_true, if_true, if_false, List.nil_append, List.singleton_append] at hhead
    · exact ⟨rfl, hhead⟩
    · exact absurd (congrArg List.head? hhead) (hminus m)
    · exact absurd (congrArg List.head? hhead).symm (hminus m')
    · exact ⟨rfl, (List.cons.inj hhead).2⟩
  have hm : m = m' := by
    rw [← Nat.ofDigitChars_ten_toDigits (n := m), hdigits.2, Nat.ofDigitChars_ten_toDigits]
  rw [hdigits.1, hm, decimal_injective htail]

/-- **Number texts** are equal exactly when the numbers are. -/
theorem canonicalFingerprintNumber_eq_iff {d d' : Decimal} {text text' : Str}
    (h : canonicalFingerprintNumber (.finite d) = some text)
    (h' : canonicalFingerprintNumber (.finite d') = some text') :
    text = text' ↔ d.value = d'.value := by
  have hzero : ∀ r : Decimal, reducedText r ≠ ['0'] := by
    intro r heq
    have hmem : 'e' ∈ reducedText r := by simp [reducedText]
    rw [heq] at hmem
    exact absurd hmem (by decide)
  by_cases hd : d.coefficient = 0
  · rw [canonicalFingerprintNumber, if_pos hd] at h
    cases h
    rw [Decimal.value_eq_zero.mpr hd]
    by_cases hd' : d'.coefficient = 0
    · rw [canonicalFingerprintNumber, if_pos hd'] at h'
      cases h'
      simp [Decimal.value_eq_zero.mpr hd']
    · obtain ⟨r, -, -, -, htext⟩ := exists_reduced hd'
      cases htext.symm.trans h'
      constructor
      · exact fun heq => absurd heq.symm (hzero r)
      · exact fun heq => absurd (Decimal.value_eq_zero.mp heq.symm) hd'
  · obtain ⟨r, hr, hvalue, -, htext⟩ := exists_reduced hd
    cases htext.symm.trans h
    by_cases hd' : d'.coefficient = 0
    · rw [canonicalFingerprintNumber, if_pos hd'] at h'
      cases h'
      rw [Decimal.value_eq_zero.mpr hd', Decimal.value_eq_zero]
      constructor
      · exact fun heq => absurd heq (hzero r)
      · exact fun heq => absurd heq hd
    · obtain ⟨r', hr', hvalue', -, htext'⟩ := exists_reduced hd'
      cases htext'.symm.trans h'
      rw [← hvalue, ← hvalue', Decimal.value_eq_iff hr hr']
      exact reducedText_injective.eq_iff

/-! ## Values -/

/-- A number is written exactly when it is finite and `str` can write it; its text is that of its
value. -/
theorem numericValue_of_numberOf {v : PyValue (Number P)} {number : PyDecimal} {text : Str}
    (h : numberOf v = some number) (htext : canonicalFingerprintNumber number = some text) :
    ∃ d : Decimal, number = .finite d ∧ numericValue v = some d.value := by
  cases number with
  | special => cases htext
  | finite d =>
    refine ⟨d, rfl, ?_⟩
    cases v with
    | int n =>
      obtain ⟨t, ht, hd⟩ := Option.bind_eq_some_iff.mp h
      rw [Json.dumpsInt] at ht
      split_ifs at ht
      cases ht
      rw [decimalOfText_decimal] at hd
      cases hd
      rw [value_int]
      rfl
    | float x =>
      simp only [numericValue]
      rw [h]
    | none => cases h
    | bool b => cases h
    | str s => cases h
    | list xs => cases h
    | tuple xs => cases h
    | dict ms => cases h
    | mapping ms => cases h
    | other id => cases h

/-- What a scalar is written as. -/
theorem fingerprintScalar_cases {v : PyValue (Number P)} {x : Json P.Float}
    (h : fingerprintScalar v = some x) :
    (v = .none ∧ x = .arr [.str "null".toList]) ∨ (∃ b, v = .bool b ∧ x = tagged "boolean" (.bool b)) ∨
    (∃ s, v = .str s ∧ x = tagged "string" (.str s)) ∨
    ∃ d text, numericValue v = some d.value ∧ canonicalFingerprintNumber (.finite d) = some text ∧
      x = tagged "number" (.str text) := by
  have hnumber : ((numberOf v).bind fun number => (canonicalFingerprintNumber number).bind fun text =>
      some (tagged "number" (.str text))) = some x →
      ∃ d text, numericValue v = some d.value ∧ canonicalFingerprintNumber (.finite d) = some text ∧
        x = tagged "number" (.str text) := by
    intro h
    obtain ⟨number, hnumber, hrest⟩ := Option.bind_eq_some_iff.mp h
    obtain ⟨text, htext, hx⟩ := Option.bind_eq_some_iff.mp hrest
    obtain ⟨d, rfl, hvalue⟩ := numericValue_of_numberOf hnumber htext
    exact ⟨d, text, hvalue, htext, (Option.some.inj hx).symm⟩
  cases v with
  | none => exact .inl ⟨rfl, (Option.some.inj h).symm⟩
  | bool b => exact .inr (.inl ⟨b, rfl, (Option.some.inj h).symm⟩)
  | str s => exact .inr (.inr (.inl ⟨s, rfl, (Option.some.inj h).symm⟩))
  | int n => exact .inr (.inr (.inr (hnumber h)))
  | float f => exact .inr (.inr (.inr (hnumber h)))
  | list xs => cases h
  | tuple xs => cases h
  | dict ms => cases h
  | mapping ms => cases h
  | other id => cases h

theorem tagged_eq_iff {tag tag' : String} {v w : Json P.Float} :
    tagged tag v = tagged tag' w ↔ tag = tag' ∧ v = w := by
  simp [tagged, String.toList_inj]

theorem tagged_ne_null {tag : String} {v : Json P.Float} :
    tagged tag v ≠ .arr [.str "null".toList] := by
  simp [tagged]

/-- The normal form loses nothing but the spelling of numbers. -/
theorem packing_fingerprint : PyValue.Packing (EqualScalar (P := P)) fingerprintScalar
    (fun items => tagged "array" (.arr items))
    fun members => tagged "object" (.arr (members.map fun m => .arr [.str m.1, m.2])) where
  isScalar := by
    intro v w h
    cases h with
    | null => exact ⟨trivial, trivial⟩
    | bool b => exact ⟨trivial, trivial⟩
    | str s => exact ⟨trivial, trivial⟩
    | number hv hw =>
      constructor
      · cases v <;> trivial
      · cases w <;> trivial
  scalar_iff := by
    intro v w x y _ _ hx hy
    constructor
    · rintro rfl
      rcases fingerprintScalar_cases hx with ⟨rfl, rfl⟩ | ⟨b, rfl, rfl⟩ | ⟨s, rfl, rfl⟩ |
        ⟨d, text, hv, htext, rfl⟩
      · rcases fingerprintScalar_cases hy with ⟨rfl, -⟩ | ⟨_, -, heq⟩ | ⟨_, -, heq⟩ | ⟨_, _, -, -, heq⟩
        · exact .null
        all_goals exact absurd heq.symm tagged_ne_null
      · rcases fingerprintScalar_cases hy with ⟨-, heq⟩ | ⟨_, rfl, heq⟩ | ⟨_, -, heq⟩ | ⟨_, _, -, -, heq⟩
        · exact absurd heq tagged_ne_null
        · obtain ⟨-, heq⟩ := tagged_eq_iff.mp heq
          cases heq
          exact .bool b
        all_goals exact absurd (tagged_eq_iff.mp heq).1 (by decide)
      · rcases fingerprintScalar_cases hy with ⟨-, heq⟩ | ⟨_, -, heq⟩ | ⟨_, rfl, heq⟩ | ⟨_, _, -, -, heq⟩
        · exact absurd heq tagged_ne_null
        · exact absurd (tagged_eq_iff.mp heq).1 (by decide)
        · obtain ⟨-, heq⟩ := tagged_eq_iff.mp heq
          cases heq
          exact .str s
        · exact absurd (tagged_eq_iff.mp heq).1 (by decide)
      · rcases fingerprintScalar_cases hy with ⟨-, heq⟩ | ⟨_, -, heq⟩ | ⟨_, -, heq⟩ |
          ⟨d', text', hw, htext', heq⟩
        · exact absurd heq tagged_ne_null
        · exact absurd (tagged_eq_iff.mp heq).1 (by decide)
        · exact absurd (tagged_eq_iff.mp heq).1 (by decide)
        · obtain ⟨-, heq⟩ := tagged_eq_iff.mp heq
          have hvalue := (canonicalFingerprintNumber_eq_iff htext htext').mp (Json.str.inj heq)
          rw [← hvalue] at hw
          exact .number hv hw
    · intro h
      cases h with
      | null => exact Option.some.inj (hx.symm.trans hy)
      | bool b => exact Option.some.inj (hx.symm.trans hy)
      | str s => exact Option.some.inj (hx.symm.trans hy)
      | number hv hw =>
        rcases fingerprintScalar_cases hx with ⟨rfl, -⟩ | ⟨_, rfl, -⟩ | ⟨_, rfl, -⟩ |
          ⟨d, text, hv', htext, rfl⟩
        · cases hv
        · cases hv
        · cases hv
        rcases fingerprintScalar_cases hy with ⟨rfl, -⟩ | ⟨_, rfl, -⟩ | ⟨_, rfl, -⟩ |
          ⟨d', text', hw', htext', rfl⟩
        · cases hw
        · cases hw
        · cases hw
        have hvalue : d.value = d'.value := by
          rw [hv] at hv'
          rw [hw] at hw'
          exact (Option.some.inj hv').symm.trans (Option.some.inj hw')
        rw [(canonicalFingerprintNumber_eq_iff htext htext').mpr hvalue]
  arr_injective := by
    intro xs ys h
    exact Json.arr.inj (tagged_eq_iff.mp h).2
  obj_injective := by
    intro ms ms' h
    have hmap := Json.arr.inj (tagged_eq_iff.mp h).2
    refine List.map_injective_iff.mpr ?_ hmap
    rintro ⟨k, v⟩ ⟨k', v'⟩ heq
    simp only [Json.arr.injEq, List.cons.injEq, Json.str.injEq, and_true] at heq
    rw [heq.1, heq.2]
  arr_ne_obj := fun _ _ h => absurd (tagged_eq_iff.mp h).1 (by decide)
  scalar_ne_arr := by
    intro v x _ hx xs heq
    rcases fingerprintScalar_cases hx with ⟨-, rfl⟩ | ⟨_, -, rfl⟩ | ⟨_, -, rfl⟩ | ⟨_, _, -, -, rfl⟩
    · exact absurd heq.symm tagged_ne_null
    all_goals exact absurd (tagged_eq_iff.mp heq).1 (by decide)
  scalar_ne_obj := by
    intro v x _ hx ms heq
    rcases fingerprintScalar_cases hx with ⟨-, rfl⟩ | ⟨_, -, rfl⟩ | ⟨_, -, rfl⟩ | ⟨_, _, -, -, rfl⟩
    · exact absurd heq.symm tagged_ne_null
    all_goals exact absurd (tagged_eq_iff.mp heq).1 (by decide)

/-! ## The payload -/

theorem isSome_dumps_tagged {tag : String} {v : Json P.Float}
    (h : (Json.dumps P.floats v).isSome = true) :
    (Json.dumps P.floats (tagged tag v)).isSome = true := by
  rw [tagged, Json.isSome_dumps_arr]
  simp [Json.dumps, h]

/-- A normal form can be written, and has no object in it. -/
theorem writable_canonicalFingerprintValue : ∀ (v : PyValue (Number P)) (x : Json P.Float),
    canonicalFingerprintValue v = some x →
    (Json.dumps P.floats x).isSome = true ∧ x.UniqueKeys := by
  refine PyValue.induction_on ?_ ?_ ?_ ?_ ?_ ?_
  · intro v hscalar x hx
    rw [canonicalFingerprintValue, PyValue.normalize_scalar hscalar] at hx
    rcases fingerprintScalar_cases hx with ⟨-, rfl⟩ | ⟨b, -, rfl⟩ | ⟨s, -, rfl⟩ | ⟨d, text, -, -, rfl⟩
    · exact ⟨rfl, by simp [Json.UniqueKeys, Json.UniqueKeysItems]⟩
    · refine ⟨isSome_dumps_tagged ?_, by simp [tagged, Json.UniqueKeys, Json.UniqueKeysItems]⟩
      cases b <;> rfl
    · exact ⟨isSome_dumps_tagged rfl, by simp [tagged, Json.UniqueKeys, Json.UniqueKeysItems]⟩
    · exact ⟨isSome_dumps_tagged rfl, by simp [tagged, Json.UniqueKeys, Json.UniqueKeysItems]⟩
  · intro xs ih x hx
    rw [canonicalFingerprintValue, PyValue.normalize] at hx
    obtain ⟨ys, hys, rfl⟩ := Option.map_eq_some_iff.mp hx
    rw [PyValue.normalizeItems_eq_some] at hys
    have hitems : ∀ y ∈ ys, (Json.dumps P.floats y).isSome = true ∧ y.UniqueKeys := by
      intro y hy
      obtain ⟨i, hi, rfl⟩ := List.getElem_of_mem hy
      have hix : i < xs.length := hys.length_eq ▸ hi
      exact ih _ (List.getElem_mem hix) _ (hys.get hix hi)
    constructor
    · apply isSome_dumps_tagged
      rw [Json.isSome_dumps_arr]
      exact fun y hy => (hitems y hy).1
    · simp only [tagged, Json.UniqueKeys, Json.UniqueKeysItems, Json.uniqueKeysItems_iff, true_and,
        and_true]
      exact fun y hy => (hitems y hy).2
  · intro xs _ x hx
    cases hx
  · intro ms ih x hx
    rw [canonicalFingerprintValue, PyValue.normalize] at hx
    obtain ⟨ns, hns, rfl⟩ := Option.map_eq_some_iff.mp hx
    rw [PyValue.normalizeMembers_eq_some] at hns
    have hmembers : ∀ n ∈ sortByKey ns, (Json.dumps P.floats n.2).isSome = true ∧
        n.2.UniqueKeys := by
      intro n hn
      obtain ⟨w, hw, hvalue⟩ := PyValue.exists_member hns ((sortByKey_perm ns).mem_iff.mp hn)
      exact ih _ hw n.2 hvalue
    constructor
    · apply isSome_dumps_tagged
      rw [Json.isSome_dumps_arr]
      intro y hy
      obtain ⟨n, hn, rfl⟩ := List.mem_map.mp hy
      rw [Json.isSome_dumps_arr]
      simp [Json.dumps, (hmembers n hn).1]
    · simp only [tagged, Json.UniqueKeys, Json.UniqueKeysItems, Json.uniqueKeysItems_iff, true_and,
        and_true]
      intro y hy
      obtain ⟨n, hn, rfl⟩ := List.mem_map.mp hy
      simp [Json.UniqueKeys, Json.UniqueKeysItems, (hmembers n hn).2]
  · intro ms _ x hx
    cases hx
  · intro id x hx
    cases hx

/-- The payload is read back. -/
theorem fingerprintPayload_eq_iff {x y : Json P.Float} {data data' : Bytes} (hx : x.UniqueKeys)
    (hy : y.UniqueKeys) (h : fingerprintPayload x = some data)
    (h' : fingerprintPayload y = some data') : data = data' ↔ x = y := by
  obtain ⟨text, htext, rfl⟩ := Option.map_eq_some_iff.mp h
  obtain ⟨text', htext', rfl⟩ := Option.map_eq_some_iff.mp h'
  constructor
  · intro heq
    have hsame : text = text' := by
      have := congrArg decode? heq
      rw [decode?_encode, decode?_encode] at this
      exact Option.some.inj this
    have hread := Json.loads_dumps P.floatLaws htext hx
    rw [hsame, Json.loads_dumps P.floatLaws htext' hy] at hread
    exact (Option.some.inj hread).symm
  · rintro rfl
    rw [htext] at htext'
    rw [Option.some.inj htext']

/-! ## Requests -/

/-- A value as JSON has them: finite numbers, the integers among `writable` ones, and text keys. -/
inductive JsonLike (writable : ℤ → Prop) : PyValue (Number P) → Prop
  | null : JsonLike writable .none
  | bool (b : Bool) : JsonLike writable (.bool b)
  | str (s : Str) : JsonLike writable (.str s)
  | int {n : ℤ} (h : writable n) : JsonLike writable (.int n)
  | float {f : P.Float} (h : P.floats.isFinite f = true) : JsonLike writable (.float (.float f))
  | decimal (d : Decimal) : JsonLike writable (.float (.decimal (.finite d)))
  | list {xs : List (PyValue (Number P))} (h : ∀ x ∈ xs, JsonLike writable x) :
      JsonLike writable (.list xs)
  | dict {ms : List (PyKey × PyValue (Number P))} (keys : ∀ m ∈ ms, ∃ k, m.1 = .str k)
      (h : ∀ m ∈ ms, JsonLike writable m.2) : JsonLike writable (.dict ms)

/-- An integer that `str` writes. -/
def Short (n : ℤ) : Prop := (Nat.toDigits 10 n.natAbs).length ≤ maxIntDigits

theorem exists_fingerprintNumber {v : PyValue (Number P)} {d : Decimal}
    (h : numberOf v = some (.finite d)) :
    ∃ x : Json P.Float, ((numberOf v).bind fun number => (canonicalFingerprintNumber number).bind
      fun text => some (tagged "number" (.str text))) = some x := by
  obtain ⟨text, htext⟩ := isSome_canonicalFingerprintNumber d
  rw [h, Option.bind_some, htext]
  exact ⟨_, rfl⟩

/-- Every JSON value has a normal form. -/
theorem exists_canonicalFingerprintValue {v : PyValue (Number P)} (h : JsonLike Short v) :
    ∃ x, canonicalFingerprintValue v = some x := by
  induction h with
  | null => exact ⟨_, rfl⟩
  | bool b => exact ⟨_, rfl⟩
  | str s => exact ⟨_, rfl⟩
  | @int n h =>
    have hnumber : numberOf (.int n : PyValue (Number P)) =
        some (.finite ⟨decide (n < 0), n.natAbs, 0⟩) := by
      have hshort : (Nat.toDigits 10 n.natAbs).length ≤ maxIntDigits := h
      rw [numberOf, Json.dumpsInt, if_pos hshort, Option.bind_some, decimalOfText_decimal]
    exact exists_fingerprintNumber hnumber
  | @float f h =>
    obtain ⟨integer, fraction, exponent, hrepr, hi, hf, he, -⟩ := P.floatLaws.repr_literal f h
    obtain ⟨d, hd⟩ := decimalOfText_literal hi hf he
    have hnumber : numberOf (.float (.float f) : PyValue (Number P)) = some (.finite d) := by
      rw [numberOf, if_pos h, hrepr, hd]
    exact exists_fingerprintNumber hnumber
  | decimal d =>
    have hnumber : numberOf (.float (.decimal (.finite d)) : PyValue (Number P)) =
        some (.finite d) := rfl
    exact exists_fingerprintNumber hnumber
  | @list xs h ih =>
    have hitems : ∃ ys, List.Forall₂ (fun x y => canonicalFingerprintValue x = some y) xs ys := by
      clear h
      induction xs with
      | nil => exact ⟨[], .nil⟩
      | cons x xs ihxs =>
        obtain ⟨y, hy⟩ := ih x List.mem_cons_self
        obtain ⟨ys, hys⟩ := ihxs fun x' hx' => ih x' (List.mem_cons_of_mem _ hx')
        exact ⟨y :: ys, .cons hy hys⟩
    obtain ⟨ys, hys⟩ := hitems
    rw [canonicalFingerprintValue, PyValue.normalize, PyValue.normalizeItems_eq_some.mpr hys]
    exact ⟨_, rfl⟩
  | @dict ms keys h ih =>
    have hmembers : ∃ ns : List (Str × Json P.Float), List.Forall₂
        (fun m n => m.1 = .str n.1 ∧ canonicalFingerprintValue m.2 = some n.2) ms ns := by
      clear h
      induction ms with
      | nil => exact ⟨[], .nil⟩
      | cons m ms ihms =>
        obtain ⟨k, hk⟩ := keys m List.mem_cons_self
        obtain ⟨y, hy⟩ := ih m List.mem_cons_self
        obtain ⟨ns, hns⟩ := ihms (fun m' hm' => keys m' (List.mem_cons_of_mem _ hm'))
          fun m' hm' => ih m' (List.mem_cons_of_mem _ hm')
        exact ⟨(k, y) :: ns, .cons ⟨hk, hy⟩ hns⟩
    obtain ⟨ns, hns⟩ := hmembers
    rw [canonicalFingerprintValue, PyValue.normalize, PyValue.normalizeMembers_eq_some.mpr hns]
    exact ⟨_, rfl⟩

/-- A request value: its dictionaries have no key twice, and it is a JSON value. -/
structure RequestValue (P : Platform) where
  value : PyValue (Number P)
  unique : value.UniqueKeys
  jsonLike : JsonLike Short value

theorem exists_fingerprintPayload (a : RequestValue P) :
    ∃ x data, canonicalFingerprintValue a.value = some x ∧ fingerprintPayload x = some data := by
  obtain ⟨x, hx⟩ := exists_canonicalFingerprintValue a.jsonLike
  obtain ⟨hdumps, -⟩ := writable_canonicalFingerprintValue _ x hx
  obtain ⟨text, htext⟩ := Option.isSome_iff_exists.mp hdumps
  refine ⟨x, encode text, hx, ?_⟩
  rw [fingerprintPayload, htext]
  rfl

/-- The normal form and the payload are those of an equal value. -/
theorem fingerprint_eq_iff {a b : RequestValue P} {x y : Json P.Float} {data data' : Bytes}
    (hx : canonicalFingerprintValue a.value = some x)
    (hy : canonicalFingerprintValue b.value = some y)
    (hdata : fingerprintPayload x = some data) (hdata' : fingerprintPayload y = some data') :
    (x = y ↔ JsonEqual a.value b.value) ∧ (data = data' ↔ JsonEqual a.value b.value) := by
  obtain ⟨-, hux⟩ := writable_canonicalFingerprintValue _ x hx
  obtain ⟨-, huy⟩ := writable_canonicalFingerprintValue _ y hy
  have hvalues : x = y ↔ JsonEqual a.value b.value :=
    PyValue.normalize_eq_iff packing_fingerprint a.unique b.unique hx hy
  refine ⟨hvalues, ?_⟩
  rw [← hvalues]
  exact fingerprintPayload_eq_iff hux huy hdata hdata'

/-- **Fingerprints identify requests.**  Every value whose integers can be written has a normal form
and a payload; both are equal for two values exactly when the values are equal as JSON.  The loop
over the zeros of a number ends with a digit left. -/
theorem fingerprints_identify (P : Platform) :
    (∀ a b : RequestValue P, ∃ x y data data',
      canonicalFingerprintValue a.value = some x ∧ canonicalFingerprintValue b.value = some y ∧
      fingerprintPayload x = some data ∧ fingerprintPayload y = some data' ∧
      (x = y ↔ JsonEqual a.value b.value) ∧ (data = data' ↔ JsonEqual a.value b.value)) ∧
    ∀ d : Decimal, d.value ≠ 0 → ∃ digits exponent,
      dropZeros d.digits.reverse d.exponent = some (digits, exponent) := by
  constructor
  · intro a b
    obtain ⟨x, data, hx, hdata⟩ := exists_fingerprintPayload a
    obtain ⟨y, data', hy, hdata'⟩ := exists_fingerprintPayload b
    exact ⟨x, y, data, data', hx, hy, hdata, hdata', fingerprint_eq_iff hx hy hdata hdata'⟩
  · intro d hd
    have hcoefficient : d.coefficient ≠ 0 := fun h => hd (Decimal.value_eq_zero.mpr h)
    obtain ⟨r, -, -, hdrop, -⟩ := exists_reduced hcoefficient
    exact ⟨_, _, hdrop⟩

/-! ### Two spellings of a request -/

namespace Spelling

/-- A number, and two more in a list, one of them inside an object. -/
def nested (x y z : PyValue (Number Platform.small)) : PyValue (Number Platform.small) :=
  .dict [(.str "size".toList, x),
    (.str "limits".toList, .list [y, .dict [(.str "hard".toList, .bool true),
      (.str "rate".toList, z)]])]

/-- The same with the keys in another order. -/
def mixed (x y z : PyValue (Number Platform.small)) : PyValue (Number Platform.small) :=
  .dict [(.str "limits".toList, .list [y, .dict [(.str "rate".toList, z),
      (.str "hard".toList, .bool true)]]),
    (.str "size".toList, x)]

/-- `1`, `1.0` and `Decimal("10e-1")`. -/
def integer : PyValue (Number Platform.small) := .int 1

def float : PyValue (Number Platform.small) := .float (.float (some true))

def decimal : PyValue (Number Platform.small) := .float (.decimal (.finite ⟨false, 10, -1⟩))

theorem numericValues : numericValue integer = some 1 ∧ numericValue float = some 1 ∧
    numericValue decimal = some 1 := by
  have hread : decimalOfText ['1', '.', '0'] = some (.finite ⟨false, 10, -1⟩) := by decide
  have hvalue : Decimal.value ⟨false, 10, -1⟩ = 1 := by norm_num [Decimal.value]
  have hfloat : numberOf float = some (.finite ⟨false, 10, -1⟩) := hread
  refine ⟨by simp [numericValue, integer], ?_, ?_⟩
  · rw [float] at hfloat ⊢
    simp only [numericValue, hfloat, hvalue]
  · simp only [numericValue, decimal, numberOf, hvalue]

/-- The same numbers in other spellings. -/
theorem nested_mixed {x y z x' y' z' : PyValue (Number Platform.small)} (hx : JsonEqual x x')
    (hy : JsonEqual y y') (hz : JsonEqual z z') : JsonEqual (nested x y z) (mixed x' y' z') := by
  have hinner : JsonEqual
      (.dict [(.str "hard".toList, .bool true), (.str "rate".toList, z)])
      (.dict [(.str "rate".toList, z'), (.str "hard".toList, .bool true)]) := by
    refine .dict (fun k => by simp [or_comm]) fun k v w hv hw => ?_
    simp only [List.mem_cons, Prod.mk.injEq, List.not_mem_nil, or_false] at hv hw
    rcases hv with ⟨rfl, rfl⟩ | ⟨rfl, rfl⟩
    · obtain rfl := (hw.resolve_left fun h => absurd h.1 (by decide)).2
      exact .scalar (.bool true)
    · obtain rfl := (hw.resolve_right fun h => absurd h.1 (by decide)).2
      exact hz
  refine .dict (fun k => by simp [or_comm]) fun k v w hv hw => ?_
  simp only [List.mem_cons, Prod.mk.injEq, List.not_mem_nil, or_false] at hv hw
  rcases hv with ⟨rfl, rfl⟩ | ⟨rfl, rfl⟩
  · obtain rfl := (hw.resolve_left fun h => absurd h.1 (by decide)).2
    exact hx
  · obtain rfl := (hw.resolve_right fun h => absurd h.1 (by decide)).2
    refine .list rfl fun i v w hv hw => ?_
    rcases i with _ | _ | i
    · cases hv
      cases hw
      exact hy
    · cases hv
      cases hw
      exact hinner
    · cases hv

theorem jsonLike : JsonLike Short integer ∧ JsonLike Short float ∧ JsonLike Short decimal := by
  refine ⟨.int ?_, .float rfl, .decimal _⟩
  rw [Short]
  decide

def plain : RequestValue Platform.small where
  value := nested integer float decimal
  unique := by
    simp [nested, integer, float, decimal, PyValue.UniqueKeys, PyValue.UniqueKeysItems,
      PyValue.UniqueKeysMembers]
  jsonLike := by
    obtain ⟨hinteger, hfloat, hdecimal⟩ := jsonLike
    have hinner : JsonLike Short (.dict [(.str "hard".toList, .bool true),
        (.str "rate".toList, decimal)]) :=
      .dict (by simp) (List.forall_mem_cons.mpr ⟨.bool true, List.forall_mem_singleton.mpr hdecimal⟩)
    have hlist : JsonLike Short (.list [float, _]) :=
      .list (List.forall_mem_cons.mpr ⟨hfloat, List.forall_mem_singleton.mpr hinner⟩)
    exact .dict (by simp) (List.forall_mem_cons.mpr ⟨hinteger, List.forall_mem_singleton.mpr hlist⟩)

def respelled : RequestValue Platform.small where
  value := mixed decimal integer float
  unique := by
    simp [mixed, integer, float, decimal, PyValue.UniqueKeys, PyValue.UniqueKeysItems,
      PyValue.UniqueKeysMembers]
  jsonLike := by
    obtain ⟨hinteger, hfloat, hdecimal⟩ := jsonLike
    have hinner : JsonLike Short (.dict [(.str "rate".toList, float),
        (.str "hard".toList, .bool true)]) :=
      .dict (by simp) (List.forall_mem_cons.mpr ⟨hfloat, List.forall_mem_singleton.mpr (.bool true)⟩)
    have hlist : JsonLike Short (.list [integer, _]) :=
      .list (List.forall_mem_cons.mpr ⟨hinteger, List.forall_mem_singleton.mpr hinner⟩)
    exact .dict (by simp) (List.forall_mem_cons.mpr ⟨hlist, List.forall_mem_singleton.mpr hdecimal⟩)

end Spelling

open Spelling in
/-- A request and another spelling of it have one fingerprint. -/
theorem fingerprints_identify_spellings :
    ∃ data, (canonicalFingerprintValue plain.value).bind fingerprintPayload = some data ∧
      (canonicalFingerprintValue respelled.value).bind fingerprintPayload = some data := by
  obtain ⟨hinteger, hfloat, hdecimal⟩ := numericValues
  have hequal : JsonEqual plain.value respelled.value :=
    nested_mixed (.scalar (.number hinteger hdecimal)) (.scalar (.number hfloat hinteger))
      (.scalar (.number hdecimal hfloat))
  obtain ⟨x, y, data, data', hx, hy, hdata, hdata', -, hiff⟩ :=
    (fingerprints_identify Platform.small).1 plain respelled
  refine ⟨data, by rw [hx, Option.bind_some, hdata], ?_⟩
  rw [hy, Option.bind_some, hdata', hiff.mpr hequal]

/-! ### An integer that is too long -/

theorem canonicalFingerprintValue_of_not_short {n : ℤ} (h : ¬ Short n) :
    canonicalFingerprintValue (.int n : PyValue (Number P)) = none := by
  have hscalar : fingerprintScalar (.int n : PyValue (Number P)) = none := by
    rw [Short] at h
    rw [fingerprintScalar, numberOf, Json.dumpsInt, if_neg h]
    rfl
  simp only [canonicalFingerprintValue, PyValue.normalize, hscalar]

/-- `str` does not write an integer of 4301 digits, so it has no fingerprint, although it equals
itself. -/
theorem fingerprint_of_long_integer :
    ¬ ∀ (P : Platform) (a b : PyValue (Number P)), a.UniqueKeys → b.UniqueKeys →
      JsonLike (fun _ => True) a → JsonLike (fun _ => True) b →
      (JsonEqual a b ↔
        ∃ x, canonicalFingerprintValue a = some x ∧ canonicalFingerprintValue b = some x) := by
  intro h
  obtain ⟨n, hn⟩ : ∃ n : ℤ, ¬ Short n := by
    refine ⟨((10 ^ maxIntDigits : ℕ) : ℤ), ?_⟩
    rw [Short, Int.natAbs_natCast, Nat.length_toDigits_le_iff (by norm_num) (by simp [maxIntDigits])]
    exact lt_irrefl _
  have hequal : JsonEqual (.int n : PyValue (Number Platform.ascii)) (.int n) :=
    .scalar (.number rfl rfl)
  obtain ⟨x, hx, -⟩ := (h Platform.ascii (.int n) (.int n) trivial trivial (.int trivial)
    (.int trivial)).mp hequal
  rw [canonicalFingerprintValue_of_not_short hn] at hx
  cases hx

end VeloxRag.Fingerprints
