import VeloxRag.Ingestion.Manifest
import VeloxRag.Ingestion.ObjectKeys
import VeloxRag.Lib.Base64

/-!
# Cursors

A cursor is the position of a row, as a JSON document in the letters of Base64.  The reader writes
the position again and refuses every other spelling of it.

## Main definitions

* `CursorPosition`, `encodeCursor`, `decodeCursor` — positions and their texts.
* `decodeCursor_encodeCursor`, `encodeCursor_of_decodeCursor` — the two directions.
-/

namespace VeloxRag.Api

open Lib Ingestion

/-! ## Times -/

/-- The days of a month of the Gregorian calendar. -/
def daysInMonth (year month : ℕ) : ℕ :=
  if month = 2 then if year % 4 = 0 ∧ (year % 100 ≠ 0 ∨ year % 400 = 0) then 29 else 28
  else if month ∈ [4, 6, 9, 11] then 30
  else 31

/-- What the constructor of `datetime` accepts. -/
def validDatetime (t : Timestamp) : Bool :=
  decide (1 ≤ t.year ∧ t.year ≤ 9999) && decide (1 ≤ t.month ∧ t.month ≤ 12)
    && decide (1 ≤ t.day ∧ t.day ≤ daysInMonth t.year t.month) && decide (t.hour < 24)
    && decide (t.minute < 60) && decide (t.second < 60) && decide (t.microsecond < 1000000)

/-- `CursorPosition`: the time with its offset from UTC in microseconds, `none` without a zone. -/
structure CursorPosition where
  createdAt : Timestamp
  offset : Option ℤ
  id : ℕ
  datetime_valid : validDatetime createdAt = true
  id_lt : id < 2 ^ 128
deriving DecidableEq

/-- `_canonical_timestamp`, `none` for the `ValueError`; `%Y` writes a year without padding. -/
def canonicalTimestamp (p : CursorPosition) : Option Str :=
  if p.offset ≠ some 0 then none
  else
    let t := p.createdAt
    some (Nat.toDigits 10 t.year ++ '-' :: padded 2 t.month ++ '-' :: padded 2 t.day
      ++ 'T' :: padded 2 t.hour ++ ':' :: padded 2 t.minute ++ ':' :: padded 2 t.second
      ++ '.' :: padded 6 t.microsecond ++ ['Z'])

/-- The number of some decimal digits. -/
def number? (digits : Str) : Option ℕ :=
  if digits.all isDigit then some (digits.foldl (fun n c => 10 * n + (c.toNat - '0'.toNat)) 0)
  else none

/-- `_TIMESTAMP_PATTERN` and `datetime.fromisoformat`: the pattern also takes the digits of other
scripts, which the parser then refuses. -/
def timestampOfText (s : Str) : Option Timestamp :=
  if s.length = 27 ∧ s[4]? = some '-' ∧ s[7]? = some '-' ∧ s[10]? = some 'T' ∧ s[13]? = some ':'
      ∧ s[16]? = some ':' ∧ s[19]? = some '.' ∧ s[26]? = some 'Z' then do
    let year ← number? (slice s 0 4)
    let month ← number? (slice s 5 7)
    let day ← number? (slice s 8 10)
    let hour ← number? (slice s 11 13)
    let minute ← number? (slice s 14 16)
    let second ← number? (slice s 17 19)
    let microsecond ← number? (slice s 20 26)
    let t : Timestamp := ⟨year, month, day, hour, minute, second, microsecond⟩
    if validDatetime t then some t else none
  else none

/-! ## Cursors -/

variable (P : Platform)

/-- `_cursor_payload`. -/
def cursorPayload (p : CursorPosition) : Option Bytes := do
  let timestamp ← canonicalTimestamp p
  let text ← Json.dumps P.floats (.obj [
    ("v".toList, .int 1),
    ("created_at".toList, .str timestamp),
    ("id".toList, .str (uuidText p.id))])
  pure (encode text)

/-- `encode_cursor`, `none` for the `ValueError`. -/
def encodeCursor (p : CursorPosition) : Option Str := (cursorPayload P p).map Base64.encode

def maxCursorLength : ℕ := 512

/-- The keys of a cursor. -/
def cursorKeys : List Str := ["v".toList, "created_at".toList, "id".toList]

/-- `_decode_cursor`, `none` for what it raises.  The other spellings that `UUID` takes differ from
the text of the identity. -/
def decodeCursor? (value : Str) : Option CursorPosition :=
  if value = [] ∨ maxCursorLength < value.length ∨ ¬ value.all (· ∈ Base64.alphabet) then none
  else do
    let raw ← Base64.decode? value
    match ← loadsBytes P raw with
    | .obj members =>
        let keys := members.map (·.1)
        if (∀ key ∈ cursorKeys, key ∈ keys) ∧ (∀ key ∈ keys, key ∈ cursorKeys) then
          match members.lookup "v".toList, members.lookup "created_at".toList,
            members.lookup "id".toList with
          | some (.int 1), some (.str timestamp), some (.str identifier) => do
              let createdAt ← timestampOfText timestamp
              let id ← uuidOfText identifier
              if h : validDatetime createdAt = true ∧ id < 2 ^ 128 then
                let position : CursorPosition := ⟨createdAt, some 0, id, h.1, h.2⟩
                if encodeCursor P position = some value then some position else none
              else none
          | _, _, _ => none
        else none
    | _ => none

/-- A `BusinessError` with its status, code and message. -/
structure BusinessError where
  status : ℕ
  code : String
  message : String
deriving DecidableEq, Repr

def invalidCursorError : BusinessError := ⟨422, "VALIDATION_ERROR", "Invalid cursor"⟩

/-- `decode_cursor`. -/
def decodeCursor (value : Str) : Except BusinessError CursorPosition :=
  match decodeCursor? P value with
  | some position => .ok position
  | none => .error invalidCursorError

/-! ## Digits -/

theorem isDigit_digitChar {d : ℕ} (h : d < 10) : isDigit d.digitChar = true := by
  interval_cases d <;> rfl

theorem toNat_digitChar {d : ℕ} (h : d < 10) : d.digitChar.toNat - '0'.toNat = d := by
  interval_cases d <;> rfl

theorem number?_digits {digits : List ℕ} (h : ∀ d ∈ digits, d < 10) :
    number? (digits.map Nat.digitChar) = some (digits.foldl (fun n d => 10 * n + d) 0) := by
  have hall : (digits.map Nat.digitChar).all isDigit = true := by
    rw [List.all_map, List.all_eq_true]
    exact fun d hd => isDigit_digitChar (h d hd)
  rw [number?, if_pos hall, List.foldl_map]
  congr 1
  apply List.foldl_ext
  intro n d hd
  rw [toNat_digitChar (h d hd)]

/-- A wider number ends with its last digit. -/
theorem padded_succ {w : ℕ} (hw : 1 ≤ w) (n : ℕ) :
    padded (w + 1) n = padded w (n / 10) ++ [(n % 10).digitChar] := by
  by_cases h : n < 10
  · have hzero : n / 10 = 0 := by omega
    rw [padded, padded, hzero, Nat.toDigits_of_lt_base h, Nat.toDigits_zero, Nat.mod_eq_of_lt h]
    simp only [List.length_singleton, Nat.add_sub_cancel]
    rw [← List.replicate_succ', Nat.sub_add_cancel hw]
  · rw [padded, padded, Nat.toDigits_of_base_le (by decide) (Nat.le_of_not_lt h)]
    simp only [List.length_append, List.length_singleton, Nat.add_sub_add_right, List.append_assoc]

theorem padded_one {n : ℕ} (h : n < 10) : padded 1 n = [n.digitChar] := by
  rw [padded, Nat.toDigits_of_lt_base h]
  rfl

theorem padded_two {n : ℕ} (h : n < 100) :
    padded 2 n = [(n / 10).digitChar, (n % 10).digitChar] := by
  rw [padded_succ (le_refl 1), padded_one (by omega)]
  rfl

theorem padded_six {n : ℕ} (h : n < 1000000) : padded 6 n =
    [(n / 10 / 10 / 10 / 10 / 10).digitChar, (n / 10 / 10 / 10 / 10 % 10).digitChar,
      (n / 10 / 10 / 10 % 10).digitChar, (n / 10 / 10 % 10).digitChar, (n / 10 % 10).digitChar,
      (n % 10).digitChar] := by
  rw [padded_succ (by decide), padded_succ (by decide), padded_succ (by decide),
    padded_succ (by decide), padded_succ (by decide), padded_one (by omega)]
  rfl

theorem toDigits_year {year : ℕ} (hle : 1000 ≤ year) (hlt : year ≤ 9999) : Nat.toDigits 10 year =
    [(year / 10 / 10 / 10).digitChar, (year / 10 / 10 % 10).digitChar, (year / 10 % 10).digitChar,
      (year % 10).digitChar] := by
  rw [Nat.toDigits_of_base_le (by decide) (by omega), Nat.toDigits_of_base_le (by decide) (by omega),
    Nat.toDigits_of_base_le (by decide) (by omega), Nat.toDigits_of_lt_base (by omega)]
  rfl

theorem number?_two {n : ℕ} (h : n < 100) :
    number? [(n / 10).digitChar, (n % 10).digitChar] = some n := by
  have hdigits := @number?_digits [n / 10, n % 10] (by simp; omega)
  simp only [List.map_cons, List.map_nil, List.foldl_cons, List.foldl_nil] at hdigits
  rw [hdigits]
  congr 1
  omega

theorem number?_four {n : ℕ} (h : n < 10000) :
    number? [(n / 10 / 10 / 10).digitChar, (n / 10 / 10 % 10).digitChar, (n / 10 % 10).digitChar,
      (n % 10).digitChar] = some n := by
  have hdigits := @number?_digits [n / 10 / 10 / 10, n / 10 / 10 % 10, n / 10 % 10, n % 10]
    (by simp; omega)
  simp only [List.map_cons, List.map_nil, List.foldl_cons, List.foldl_nil] at hdigits
  rw [hdigits]
  congr 1
  omega

theorem number?_six {n : ℕ} (h : n < 1000000) :
    number? [(n / 10 / 10 / 10 / 10 / 10).digitChar, (n / 10 / 10 / 10 / 10 % 10).digitChar,
      (n / 10 / 10 / 10 % 10).digitChar, (n / 10 / 10 % 10).digitChar, (n / 10 % 10).digitChar,
      (n % 10).digitChar] = some n := by
  have hdigits := @number?_digits [n / 10 / 10 / 10 / 10 / 10, n / 10 / 10 / 10 / 10 % 10,
    n / 10 / 10 / 10 % 10, n / 10 / 10 % 10, n / 10 % 10, n % 10] (by simp; omega)
  simp only [List.map_cons, List.map_nil, List.foldl_cons, List.foldl_nil] at hdigits
  rw [hdigits]
  congr 1
  omega

/-- A character that JSON writes as it is, in one byte. -/
def Plain (c : Char) : Prop := Json.escapeChar c = [c] ∧ c.utf8Size = 1

theorem plain_of_ascii {c : Char} (hlow : 32 ≤ c.toNat) (hhigh : c.toNat < 128) (hquote : c ≠ '\x22')
    (hbackslash : c ≠ '\x5c') : Plain c := by
  have hne : ∀ d : Char, d.toNat < 32 → c ≠ d := by
    rintro d hd rfl
    omega
  constructor
  · rw [Json.escapeChar, if_neg hquote, if_neg hbackslash, if_neg (hne _ (by decide)),
      if_neg (hne _ (by decide)), if_neg (hne _ (by decide)), if_neg (hne _ (by decide)),
      if_neg (hne _ (by decide)), if_neg (by omega)]
  · have hval : c.val ≤ 127 := by
      change c.val.toNat ≤ 127
      change c.val.toNat < 128 at hhigh
      omega
    exact Char.utf8Size_eq_one_iff.mpr hval

theorem plain_digitChar {d : ℕ} (h : d < 16) : Plain d.digitChar := by
  apply plain_of_ascii <;> interval_cases d <;> decide

variable {p : CursorPosition}

theorem timestamp_bounds (p : CursorPosition) : (1 ≤ p.createdAt.year ∧ p.createdAt.year ≤ 9999) ∧
    p.createdAt.month < 100 ∧ p.createdAt.day < 100 ∧ p.createdAt.hour < 100 ∧
    p.createdAt.minute < 100 ∧ p.createdAt.second < 100 ∧ p.createdAt.microsecond < 1000000 := by
  have h := p.datetime_valid
  simp only [validDatetime, Bool.and_eq_true, decide_eq_true_eq] at h
  obtain ⟨⟨⟨⟨⟨⟨hyear, hmonth⟩, hday⟩, hhour⟩, hminute⟩, hsecond⟩, hmicrosecond⟩ := h
  have hdays : daysInMonth p.createdAt.year p.createdAt.month ≤ 31 := by
    unfold daysInMonth
    repeat' split
    all_goals omega
  exact ⟨hyear, by omega, by omega, by omega, by omega, by omega, hmicrosecond⟩

/-- The text of a time, from the year 1000 on. -/
theorem canonicalTimestamp_spec (hoffset : p.offset = some 0) (hyear : 1000 ≤ p.createdAt.year) :
    ∃ text, canonicalTimestamp p = some text ∧ text.length = 27 ∧ (∀ c ∈ text, Plain c) ∧
      timestampOfText text = some p.createdAt := by
  obtain ⟨⟨_, hmax⟩, hmonth, hday, hhour, hminute, hsecond, hmicrosecond⟩ := timestamp_bounds p
  have hvalid := p.datetime_valid
  rw [canonicalTimestamp, if_neg (not_not_intro hoffset)]
  dsimp only
  generalize p.createdAt = t at *
  rw [toDigits_year hyear hmax, padded_two hmonth, padded_two hday, padded_two hhour,
    padded_two hminute, padded_two hsecond, padded_six hmicrosecond]
  refine ⟨_, rfl, rfl, ?_, ?_⟩
  · intro c hc
    simp only [List.cons_append, List.nil_append, List.mem_cons, List.not_mem_nil, or_false] at hc
    rcases hc with rfl | rfl | rfl | rfl | rfl | rfl | rfl | rfl | rfl | rfl | rfl | rfl | rfl | rfl |
      rfl | rfl | rfl | rfl | rfl | rfl | rfl | rfl | rfl | rfl | rfl | rfl | rfl <;>
      first
        | exact plain_digitChar (by omega)
        | exact plain_of_ascii (by decide) (by decide) (by decide) (by decide)
  · rw [timestampOfText, if_pos ⟨rfl, rfl, rfl, rfl, rfl, rfl, rfl, rfl⟩]
    simp only [List.cons_append, List.nil_append, slice, List.drop_succ_cons, List.drop_zero,
      List.take_succ_cons, List.take_zero, Nat.reduceSub]
    rw [number?_four (by omega), number?_two hmonth, number?_two hday, number?_two hhour,
      number?_two hminute, number?_two hsecond, number?_six hmicrosecond]
    simp only [Option.bind_eq_bind, Option.bind_some, hvalid, if_true]

theorem plain_hexDigits {n : ℕ} : ∀ c ∈ hexDigits n, Plain c := by
  intro c hc
  rcases List.mem_append.mp hc with hc | hc
  · rw [List.eq_of_mem_replicate hc]
    exact @plain_digitChar 0 (by decide)
  · obtain ⟨d, hd, rfl⟩ := mem_toDigits n hc
    exact plain_digitChar hd

theorem plain_uuidText (n : ℕ) : ∀ c ∈ uuidText n, Plain c := by
  have hdash : Plain '-' := plain_of_ascii (by decide) (by decide) (by decide) (by decide)
  intro c hc
  simp only [uuidText, List.mem_append, List.mem_singleton] at hc
  rcases hc with (((((((hc | rfl) | hc) | rfl) | hc) | rfl) | hc) | rfl) | hc
  · exact plain_hexDigits c (List.mem_of_mem_take hc)
  · exact hdash
  · exact plain_hexDigits c (List.mem_of_mem_drop (List.mem_of_mem_take hc))
  · exact hdash
  · exact plain_hexDigits c (List.mem_of_mem_drop (List.mem_of_mem_take hc))
  · exact hdash
  · exact plain_hexDigits c (List.mem_of_mem_drop (List.mem_of_mem_take hc))
  · exact hdash
  · exact plain_hexDigits c (List.mem_of_mem_drop hc)

theorem dumpsStr_plain {s : Str} (h : ∀ c ∈ s, Plain c) :
    Json.dumpsStr s = '\x22' :: (s ++ ['\x22']) := by
  have hbody : s.flatMap Json.escapeChar = s := by
    induction s with
    | nil => rfl
    | cons c s ih =>
      rw [List.flatMap_cons, (h c List.mem_cons_self).1,
        ih fun c hc => h c (List.mem_cons_of_mem _ hc)]
      rfl
  rw [Json.dumpsStr, hbody]

theorem length_encode_of_size {s : Str} (h : ∀ c ∈ s, c.utf8Size = 1) :
    (encode s).length = s.length := by
  induction s with
  | nil => rfl
  | cons c s ih =>
    rw [encode_cons, List.length_append, String.length_utf8EncodeChar, h c List.mem_cons_self,
      ih fun c hc => h c (List.mem_cons_of_mem _ hc), List.length_cons]
    omega

/-- The payload of a position: what it holds, and how long it is. -/
theorem cursorPayload_spec (hoffset : p.offset = some 0) (hyear : 1000 ≤ p.createdAt.year) :
    ∃ timestamp payload, timestampOfText timestamp = some p.createdAt ∧
      cursorPayload P p = some payload ∧ payload.length = 94 ∧
      loadsBytes P payload = some (.obj [("v".toList, .int 1), ("created_at".toList, .str timestamp),
        ("id".toList, .str (uuidText p.id))]) := by
  obtain ⟨timestamp, htimestamp, hlength, hplain, hread⟩ := canonicalTimestamp_spec hoffset hyear
  let text : Str := ('\x7b' :: "\x22v\x22:1,\x22created_at\x22:".toList) ++ (Json.dumpsStr timestamp ++
    (",\x22id\x22:".toList ++ (Json.dumpsStr (uuidText p.id) ++ ['\x7d'])))
  have hdumps : Json.dumps P.floats (.obj [("v".toList, .int 1),
      ("created_at".toList, .str timestamp), ("id".toList, .str (uuidText p.id))]) = some text := rfl
  have hstr : ∀ {s : Str}, (∀ c ∈ s, Plain c) → (∀ c ∈ Json.dumpsStr s, c.utf8Size = 1) ∧
      (Json.dumpsStr s).length = s.length + 2 := by
    intro s hs
    rw [dumpsStr_plain hs]
    constructor
    · intro c hc
      rcases List.mem_cons.mp hc with rfl | hc
      · rfl
      · rcases List.mem_append.mp hc with hc | hc
        · exact (hs c hc).2
        · rw [List.mem_singleton.mp hc]
          rfl
    · simp
  obtain ⟨htimestampSize, htimestampLength⟩ := hstr hplain
  obtain ⟨hidSize, hidLength⟩ := hstr (plain_uuidText p.id)
  refine ⟨timestamp, encode text, hread, ?_, ?_, ?_⟩
  · simp only [cursorPayload, htimestamp, Option.bind_eq_bind, Option.bind_some]
    rw [hdumps]
    rfl
  · have hall : ∀ {s : Str}, (s.all fun c => decide (c.utf8Size = 1)) = true →
        ∀ c ∈ s, c.utf8Size = 1 :=
      fun h c hc => of_decide_eq_true (List.all_eq_true.mp h c hc)
    have hsize : ∀ c ∈ text, c.utf8Size = 1 := by
      intro c hc
      rcases List.mem_append.mp hc with hc | hc
      · exact hall (by rfl) c hc
      · rcases List.mem_append.mp hc with hc | hc
        · exact htimestampSize c hc
        · rcases List.mem_append.mp hc with hc | hc
          · exact hall (by rfl) c hc
          · rcases List.mem_append.mp hc with hc | hc
            · exact hidSize c hc
            · rw [List.mem_singleton.mp hc]
              rfl
    rw [length_encode_of_size hsize]
    simp only [text, List.length_append, htimestampLength, hidLength, hlength,
      length_uuidText p.id_lt, List.length_cons]
    rfl
  · have hkeys : (Json.obj [("v".toList, Json.int 1), ("created_at".toList, .str timestamp),
        ("id".toList, .str (uuidText p.id))] : Json P.Float).UniqueKeys := by
      have hnodup : cursorKeys.Nodup := by decide
      exact ⟨hnodup, trivial, trivial, trivial, trivial⟩
    rw [loadsBytes, decode?_encode, Option.bind_some]
    exact Json.loads_dumps P.floatLaws hdumps hkeys

/-- **A position reads back from its cursor.** -/
theorem decodeCursor_encodeCursor (hoffset : p.offset = some 0)
    (hyear : 1000 ≤ p.createdAt.year) :
    ∃ value, encodeCursor P p = some value ∧ decodeCursor P value = .ok p := by
  obtain ⟨timestamp, payload, hread, hpayload, hlength, hloads⟩ := cursorPayload_spec P hoffset hyear
  have hencode : encodeCursor P p = some (Base64.encode payload) := by
    rw [encodeCursor, hpayload]
    rfl
  have hletters : (Base64.encode payload).length = 126 := by
    rw [Base64.length_encode, hlength]
  have hne : Base64.encode payload ≠ [] := by
    intro hnil
    rw [hnil] at hletters
    cases hletters
  have hall : (Base64.encode payload).all (· ∈ Base64.alphabet) = true := by
    rw [List.all_eq_true]
    exact fun c hc => decide_eq_true (Base64.mem_alphabet_of_mem_encode hc)
  have hposition : (⟨p.createdAt, some 0, p.id, p.datetime_valid, p.id_lt⟩ : CursorPosition) = p := by
    cases p
    simp only at hoffset
    subst hoffset
    rfl
  refine ⟨Base64.encode payload, hencode, ?_⟩
  have hdecode : decodeCursor? P (Base64.encode payload) = some p := by
    have hshort : ¬(Base64.encode payload = [] ∨ maxCursorLength < (Base64.encode payload).length ∨
        ¬(Base64.encode payload).all (· ∈ Base64.alphabet)) := by
      rintro (hnil | hlong | hletter)
      · exact hne hnil
      · rw [hletters] at hlong
        exact absurd hlong (by decide)
      · exact hletter hall
    have hkeys : (∀ key ∈ cursorKeys, key ∈ cursorKeys) ∧ ∀ key ∈ cursorKeys, key ∈ cursorKeys :=
      ⟨fun _ h => h, fun _ h => h⟩
    let members : JsonMembers P.Float := [("v".toList, .int 1), ("created_at".toList, .str timestamp),
      ("id".toList, .str (uuidText p.id))]
    have hv : List.lookup "v".toList members = some (.int 1) := rfl
    have hcreatedAt : List.lookup "created_at".toList members = some (.str timestamp) := rfl
    have hid : List.lookup "id".toList members = some (.str (uuidText p.id)) := rfl
    rw [decodeCursor?, if_neg hshort, Base64.decode?_encode, Option.bind_eq_bind, Option.bind_some,
      hloads, Option.bind_eq_bind, Option.bind_some]
    dsimp only
    refine (if_pos hkeys).trans ?_
    change (match List.lookup "v".toList members, List.lookup "created_at".toList members,
      List.lookup "id".toList members with
      | some (.int 1), some (.str timestamp), some (.str identifier) => _
      | _, _, _ => none) = _
    rw [hv, hcreatedAt, hid, hread, uuidOfText_uuidText, Option.bind_eq_bind, Option.bind_some, Option.bind_eq_bind,
      Option.bind_some, dif_pos ⟨p.datetime_valid, p.id_lt⟩, hposition, if_pos hencode]
    rfl
  rw [decodeCursor, hdecode]

/-- What is accepted is the cursor of the position it stands for. -/
theorem encodeCursor_of_decodeCursor {value : Str} (h : decodeCursor P value = .ok p) :
    encodeCursor P p = some value := by
  rw [decodeCursor] at h
  split at h
  · rename_i position hposition
    cases h
    unfold decodeCursor? at hposition
    split at hposition
    · cases hposition
    · obtain ⟨raw, -, hdocument⟩ := Option.bind_eq_some_iff.mp hposition
      obtain ⟨document, -, hmembers⟩ := Option.bind_eq_some_iff.mp hdocument
      split at hmembers
      · dsimp only at hmembers
        split at hmembers
        · split at hmembers
          · obtain ⟨createdAt, -, hid⟩ := Option.bind_eq_some_iff.mp hmembers
            obtain ⟨id, -, hcheck⟩ := Option.bind_eq_some_iff.mp hid
            split at hcheck
            · split at hcheck
              · rename_i hsame
                cases hcheck
                exact hsame
              · cases hcheck
            · cases hcheck
          · cases hmembers
        · cases hmembers
      · cases hmembers
  · cases h

end VeloxRag.Api
