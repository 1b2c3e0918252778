import VeloxRag.Text
import VeloxRag.Lib.JsonRoundTrip

/-!
# The platform

What the service uses of its language's libraries and cannot be read in its source:
floating-point numbers as JSON has them, SHA-256 and the Unicode character database.
They are fields of one record, with what the service relies on; everything else in the
development is a definition.

## Main definitions

* `UnicodeData`, `Platform` — the parameters.
* `Platform.ascii`, `Platform.small` — two platforms that can be computed with.
* `canonicalJsonBytes`, `canonicalSha256` — canonical JSON and its digest.
* `Mapping` — a dictionary with text keys, which has no key twice.
-/

namespace VeloxRag

open Lib

/-- What `unicodedata` says about a character. -/
structure UnicodeData where
  category : Char → Str
  combining : Char → ℕ
  /-- The name of the character, empty for one that has none. -/
  name : Char → Str

/-- `_SHA256_PATTERN.fullmatch`: 64 lower-case hexadecimal digits. -/
def isSha256 (s : Str) : Bool :=
  decide (s.length = 64) &&
    s.all fun c => decide ('0' ≤ c ∧ c ≤ '9') || decide ('a' ≤ c ∧ c ≤ 'f')

structure Platform where
  Float : Type
  floats : FloatOps Float
  floatLaws : FloatLaws floats
  /-- `hashlib.sha256(data).hexdigest()`. -/
  sha256 : Bytes → Str
  isSha256_sha256 : ∀ data, isSha256 (sha256 data) = true
  unicode : UnicodeData

/-- A platform without floating-point numbers, on which SHA-256 is constant and which knows the
ASCII characters. -/
def Platform.ascii : Platform where
  Float := Unit
  floats := {
    isFinite := fun _ => false
    repr := fun _ => []
    ofLiteral := fun _ => ()
    nan := ()
    infinity := ()
    negInfinity := ()
    eq := fun _ _ => false
    eqInt := fun _ _ => false }
  floatLaws := ⟨by simp, by simp, by simp⟩
  sha256 := fun _ => List.replicate 64 '0'
  isSha256_sha256 := fun _ => by decide
  unicode := {
    category := fun c =>
      if c.isLower then ['L', 'l'] else if c.isUpper then ['L', 'u'] else if c.isDigit then ['N', 'd']
      else if c = ' ' then ['Z', 's'] else if c = '\n' then ['C', 'c'] else ['P', 'o']
    combining := fun _ => 0
    name := fun c =>
      if c.isLower then "LATIN SMALL LETTER ".toList ++ [c.toUpper]
      else if c.isUpper then "LATIN CAPITAL LETTER ".toList ++ [c] else [] }

/-- The digest of `Platform.small`: the sum of the bytes, as 64 hexadecimal digits. -/
def byteSumDigest (data : Bytes) : Str :=
  (List.range 64).map fun i => ((data.map UInt8.toNat).sum / 16 ^ i % 16).digitChar

theorem isSha256_byteSumDigest (data : Bytes) : isSha256 (byteSumDigest data) = true := by
  have hdigits : ∀ d < 16, (decide ('0' ≤ d.digitChar ∧ d.digitChar ≤ '9') ||
      decide ('a' ≤ d.digitChar ∧ d.digitChar ≤ 'f')) = true := by decide
  simp only [isSha256, byteSumDigest, List.length_map, List.length_range, decide_true, Bool.true_and,
    List.all_map, List.all_eq_true, Function.comp_apply]
  exact fun i _ => hdigits _ (Nat.mod_lt _ (by decide))

/-- The numbers 0.0 and 1.0, and one that is not finite. -/
def smallFloats : FloatOps (Option Bool) where
  isFinite := Option.isSome
  repr := fun x => [if x = some true then '1' else '0', '.', '0']
  ofLiteral := fun literal =>
    if literal = ['1'] ∨ literal = ['1', '.', '0'] then some true
    else if literal = ['0'] ∨ literal = ['0', '.', '0'] then some false else none
  nan := none
  infinity := none
  negInfinity := none
  eq := fun x y => x.isSome && decide (x = y)
  eqInt := fun x n => decide (n = 1 ∧ x = some true ∨ n = 0 ∧ x = some false)

theorem smallFloats_laws : FloatLaws smallFloats where
  repr_literal := by
    intro x _
    refine ⟨[if x = some true then '1' else '0'], ['.', '0'], [], rfl,
      ⟨[], _, rfl, .inl rfl, by simp, ?_, ?_⟩, .inr ⟨['0'], rfl, by simp, by simp [isDigit]⟩, .inl rfl,
      by simp⟩
    · split <;> simp [isDigit]
    · split <;> simp
  ofLiteral_repr := by
    intro x hx
    cases x with
    | none => cases hx
    | some b => cases b <;> rfl
  eq_refl := by
    intro x hx
    simpa [smallFloats] using hx

/-- A platform with these numbers, on which data with different byte sums have different digests. -/
def Platform.small : Platform where
  Float := Option Bool
  floats := smallFloats
  floatLaws := smallFloats_laws
  sha256 := byteSumDigest
  isSha256_sha256 := isSha256_byteSumDigest
  unicode := Platform.ascii.unicode

theorem byteSumDigest_perm {data data' : Bytes} (h : data.Perm data') :
    byteSumDigest data = byteSumDigest data' := by
  rw [byteSumDigest, byteSumDigest, (h.map UInt8.toNat).sum_eq]

variable (P : Platform)

/-! ## Canonical JSON -/

/-- `canonical_json_bytes`, with `none` for its `ValueError`.  Members are sorted by key at every
level, and a number without a literal is an error. -/
def canonicalJsonBytes (value : Json P.Float) : Option Bytes :=
  (Json.dumps P.floats value.sorted).map encode

/-- `canonical_sha256`. -/
def canonicalSha256 (value : Json P.Float) : Option Str := (canonicalJsonBytes P value).map P.sha256

/-- `json.loads` on bytes. -/
def loadsBytes (data : Bytes) : Option (Json P.Float) := (decode? data).bind (Json.loads P.floats)

variable {P}

/-- Canonical JSON reads back as the value with its members sorted. -/
theorem loadsBytes_canonical {value : Json P.Float} {data : Bytes} (hu : value.UniqueKeys)
    (h : canonicalJsonBytes P value = some data) : loadsBytes P data = some value.sorted := by
  obtain ⟨text, htext, rfl⟩ := Option.map_eq_some_iff.mp h
  rw [loadsBytes, decode?_encode]
  exact Json.loads_dumps P.floatLaws htext (Json.uniqueKeys_sorted value hu)

theorem canonicalJsonBytes_sorted (value : Json P.Float) :
    canonicalJsonBytes P value.sorted = canonicalJsonBytes P value := by
  rw [canonicalJsonBytes, canonicalJsonBytes, Json.sorted_sorted]

theorem canonicalSha256_sorted (value : Json P.Float) :
    canonicalSha256 P value.sorted = canonicalSha256 P value := by
  rw [canonicalSha256, canonicalSha256, canonicalJsonBytes_sorted]

/-! ## Dictionaries -/

/-- A dictionary with text keys. -/
structure Mapping (P : Platform) where
  members : JsonMembers P.Float
  unique : (Json.obj members).UniqueKeys

namespace Mapping

def json (m : Mapping P) : Json P.Float := .obj m.members

def empty : Mapping P := ⟨[], by simp [Json.UniqueKeys, Json.UniqueKeysMembers]⟩

/-- The dictionary with its keys sorted at every level. -/
def sorted (m : Mapping P) : Mapping P where
  members := Json.sortKeys (m.members.map fun x => (x.1, x.2.sorted))
  unique := by
    rw [← Json.sorted_obj]
    exact Json.uniqueKeys_sorted _ m.unique

@[simp] theorem json_sorted (m : Mapping P) : m.sorted.json = m.json.sorted := by
  rw [json, json, Json.sorted_obj]
  rfl

theorem ext_json {m m' : Mapping P} (h : m.json = m'.json) : m = m' := by
  cases m
  cases m'
  simp only [json, Json.obj.injEq] at h
  simp only [h]

theorem sorted_sorted (m : Mapping P) : m.sorted.sorted = m.sorted := by
  apply ext_json
  rw [json_sorted, json_sorted, Json.sorted_sorted]

end Mapping

end VeloxRag
