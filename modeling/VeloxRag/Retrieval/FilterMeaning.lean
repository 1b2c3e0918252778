import VeloxRag.Lib.Fallible
import VeloxRag.Retrieval.Search

/-!
# What a search filter means

A filter is compiled into conditions of the vector store, a different shape for each type of field
and each operator: a match, one of several matches, a range that is a single point, or several of
these one of which must hold.  The store reads them against the payload of a point, with the types of
the indexes that the collection has; the client used in tests evaluates the filter itself.

## Main definitions

* `validSearchValue`, `QdrantFilterCondition.accepted` — what the constructor of a condition checks.
* `FieldCondition`, `QdrantCondition` — conditions of the vector store, with `holds`.
* `searchCondition`, `searchFilter` — the compiled filter.
* `fakeMatchesCondition`, `fakeMatchesFilter` — the direct evaluation.
* `searchFilter_meaning` — both agree on every payload.
-/

namespace VeloxRag.Retrieval

open Lib Indexing

variable {P : Platform}

/-! ## Values -/

/-- `datetime.fromisoformat(value.replace("Z", "+00:00"))`: the instant of a time with an offset. -/
abbrev Instants := Str → Option ℤ

/-- The numbers of finite floats; they compare with integers by value. -/
structure FloatValue (value : P.Float → ℚ) : Prop where
  eqInt_iff : ∀ x n, P.floats.isFinite x = true → (P.floats.eqInt x n = true ↔ value x = n)

/-- `_valid_search_value`. -/
def validSearchValue (instant : Instants) : FilterType → Json P.Float → Bool
  | .keyword, .str s => decide (s.length ≤ 4096) && !s.contains '\x00'
  | .integer, .int n => decide (-(2 ^ 63) ≤ n ∧ n ≤ 2 ^ 63 - 1)
  | .float, .int n => P.floats.isFinite (floatOfInt n)
  | .float, .float x => P.floats.isFinite x
  | .boolean, .bool _ => true
  | .datetime, .str s => (instant s).isSome
  | _, _ => false

/-- The checks of the constructor of a condition. -/
def QdrantFilterCondition.accepted (instant : Instants) (c : QdrantFilterCondition P) : Bool :=
  (match c.value with
    | .one value => decide (c.operator ≠ .isIn) && validSearchValue instant c.fieldType value
    | .many values => decide (c.operator = .isIn) && decide (1 ≤ values.length ∧ values.length ≤ 100)
        && values.all (validSearchValue instant c.fieldType))
    && (decide (c.fieldType ≠ .integer ∨ (c.operator ≠ .gte ∧ c.operator ≠ .lte))
      || exactRangeInteger c.value)
    && decide (c.path.take 9 = "metadata.".toList) && isMetadataKey (c.path.drop 9)
    && decide (c.operator ∈ c.fieldType.operators)

/-- The value under a path of keys. -/
def valueAt : List Str → Json P.Float → Option (Json P.Float)
  | [], .null => none
  | [], value => some value
  | segment :: segments, .obj members => (members.lookup segment).bind (valueAt segments)
  | _ :: _, _ => none

/-- `_fake_condition_value`: the value under a path with dots; `None` counts as missing. -/
def conditionValue (payload : Mapping P) (path : Str) : Option (Json P.Float) :=
  valueAt (path.splitOn '.') payload.json

/-! ## Conditions of the vector store -/

/-- A value of `MatchValue` or `MatchAny`. -/
inductive MatchScalar
  | str (s : Str)
  | int (n : ℤ)
  | bool (b : Bool)
deriving DecidableEq

def matchScalar : Json P.Float → Option MatchScalar
  | .str s => some (.str s)
  | .int n => some (.int n)
  | .bool b => some (.bool b)
  | _ => none

/-- `models.FieldCondition`. -/
inductive FieldCondition (P : Platform)
  | matchValue (key : Str) (value : MatchScalar)
  | matchAny (key : Str) (values : List MatchScalar)
  | range (key : Str) (gte lte : Option P.Float)
  | datetimeRange (key : Str) (gte lte : Option ℤ)

/-- A condition of a filter: one on a field, or a filter with `should`. -/
inductive QdrantCondition (P : Platform)
  | field (condition : FieldCondition P)
  | should (conditions : List (FieldCondition P))

/-- The number that an index of the type holds for a value: an index of floats converts integers. -/
def indexedNumber (value : P.Float → ℚ) : Option FilterType → Json P.Float → Option ℚ
  | some .integer, .int n => some n
  | some .float, .int n => if P.floats.isFinite (floatOfInt n) then some (value (floatOfInt n)) else none
  | some .float, .float x => if P.floats.isFinite x then some (value x) else none
  | _, _ => none

/-- Inclusive bounds, of which either may be missing. -/
def within {α : Type} [LE α] [DecidableLE α] (gte lte : Option α) (x : α) : Bool :=
  gte.all (fun bound => decide (bound ≤ x)) && lte.all (fun bound => decide (x ≤ bound))

/-- A condition holds of a payload, in a collection whose indexes have these types. -/
def FieldCondition.holds (instant : Instants) (value : P.Float → ℚ) (schema : Str → Option FilterType)
    (payload : Mapping P) : FieldCondition P → Bool
  | .matchValue key expected =>
      (conditionValue payload key).any fun actual => decide (matchScalar actual = some expected)
  | .matchAny key values =>
      (conditionValue payload key).any fun actual =>
        values.any fun expected => decide (matchScalar actual = some expected)
  | .range key gte lte =>
      ((conditionValue payload key).bind (indexedNumber value (schema key))).any
        (within (gte.map value) (lte.map value))
  | .datetimeRange key gte lte =>
      ((conditionValue payload key).bind fun
        | .str s => instant s
        | _ => none).any (within gte lte)

def QdrantCondition.holds (instant : Instants) (value : P.Float → ℚ) (schema : Str → Option FilterType)
    (payload : Mapping P) : QdrantCondition P → Bool
  | .field condition => condition.holds instant value schema payload
  | .should conditions => conditions.any (·.holds instant value schema payload)

/-- `models.Filter(must=...)`, or no filter at all. -/
def filterHolds (instant : Instants) (value : P.Float → ℚ) (schema : Str → Option FilterType)
    (payload : Mapping P) : Option (List (QdrantCondition P)) → Bool
  | none => true
  | some must => must.all (·.holds instant value schema payload)

/-! ## The compiled filter -/

/-- `_search_datetime`, `none` for its `ValueError`. -/
def searchDatetime (instant : Instants) : Json P.Float → Option ℤ
  | .str s => instant s
  | _ => none

/-- `float(value)` of a number. -/
def asFloat : Json P.Float → Option P.Float
  | .int n => some (floatOfInt n)
  | .float x => some x
  | _ => none

/-- `_exact_range_condition`. -/
def exactRangeCondition (instant : Instants) (path : Str) (fieldType : FilterType)
    (value : Json P.Float) : Option (FieldCondition P) :=
  if fieldType = .datetime then
    (searchDatetime instant value).map fun parsed => .datetimeRange path (some parsed) (some parsed)
  else (asFloat value).map fun numeric => .range path (some numeric) (some numeric)

def matchCondition (path : Str) (value : Json P.Float) : Option (FieldCondition P) :=
  (matchScalar value).map (.matchValue path)

/-- `_search_condition`, `none` where it raises. -/
def searchCondition (instant : Instants) (c : QdrantFilterCondition P) : Option (QdrantCondition P) :=
  match c.operator, c.value with
  | .eq, .one value =>
      if c.fieldType = .float ∨ c.fieldType = .datetime then
        (exactRangeCondition instant c.path c.fieldType value).map .field
      else (matchCondition c.path value).map .field
  | .isIn, .many values =>
      if c.fieldType = .float ∨ c.fieldType = .datetime ∨ c.fieldType = .boolean then
        (values.mapM fun item =>
          if c.fieldType = .boolean then matchCondition c.path item
          else exactRangeCondition instant c.path c.fieldType item).map .should
      else (values.mapM matchScalar).map fun values => .field (.matchAny c.path values)
  | .gte, .one value =>
      if c.fieldType = .datetime then
        (searchDatetime instant value).map fun parsed => .field (.datetimeRange c.path (some parsed) none)
      else (asFloat value).map fun numeric => .field (.range c.path (some numeric) none)
  | .lte, .one value =>
      if c.fieldType = .datetime then
        (searchDatetime instant value).map fun parsed => .field (.datetimeRange c.path none (some parsed))
      else (asFloat value).map fun numeric => .field (.range c.path none (some numeric))
  | _, _ => none

/-- `_search_filter`. -/
def searchFilter (instant : Instants) (filter : QdrantSearchFilter P) :
    Option (Option (List (QdrantCondition P))) := do
  let documents : List (QdrantCondition P) :=
    if filter.documentIds = [] then []
    else [.field (.matchAny "document_id".toList
      (filter.documentIds.map fun id => .str (Ingestion.uuidText id)))]
  let conditions ← filter.conditions.mapM (searchCondition instant)
  let must := documents ++ conditions
  pure (if must.isEmpty then none else some must)

/-! ## The direct evaluation -/

/-- What the direct evaluation compares; floats by the numbers they stand for. -/
inductive Comparable
  | str (s : Str)
  | int (n : ℤ)
  | bool (b : Bool)
  | instant (t : ℤ)
  | number (q : ℚ)
deriving DecidableEq

/-- `_fake_comparable`. -/
def fakeComparable (instant : Instants) (value : P.Float → ℚ) (fieldType : FilterType)
    (actual : Json P.Float) : Option Comparable :=
  if fieldType = .datetime then (searchDatetime instant actual).map .instant
  else if fieldType = .float then (asFloat actual).map fun x => .number (value x)
  else match actual with
  | .str s => some (.str s)
  | .int n => some (.int n)
  | .bool b => some (.bool b)
  | _ => none

/-- `left <= right`, for the types that have it. -/
def Comparable.le? : Comparable → Comparable → Option Bool
  | .instant left, .instant right => some (decide (left ≤ right))
  | .int left, .int right => some (decide (left ≤ right))
  | .number left, .number right => some (decide (left ≤ right))
  | _, _ => none

/-- `_fake_matches_condition`, `none` where it raises. -/
def fakeMatchesCondition (instant : Instants) (value : P.Float → ℚ) (payload : Mapping P)
    (c : QdrantFilterCondition P) : Option Bool :=
  match conditionValue payload c.path with
  | none => some false
  | some actual =>
      if validSearchValue instant c.fieldType actual = false then some false
      else match c.operator, c.value with
      | .isIn, .many expected => do
          let left ← fakeComparable instant value c.fieldType actual
          let items ← expected.mapM (fakeComparable instant value c.fieldType)
          pure (decide (left ∈ items))
      | .eq, .one expected => do
          let left ← fakeComparable instant value c.fieldType actual
          let right ← fakeComparable instant value c.fieldType expected
          pure (decide (left = right))
      | .gte, .one expected => do
          let left ← fakeComparable instant value c.fieldType actual
          let right ← fakeComparable instant value c.fieldType expected
          right.le? left
      | .lte, .one expected => do
          let left ← fakeComparable instant value c.fieldType actual
          let right ← fakeComparable instant value c.fieldType expected
          left.le? right
      | _, _ => none

/-- `all` over the conditions, which stops at the first that fails. -/
def fakeAll (instant : Instants) (value : P.Float → ℚ) (payload : Mapping P) :
    List (QdrantFilterCondition P) → Option Bool
  | [] => some true
  | c :: conditions => do
      if ← fakeMatchesCondition instant value payload c then fakeAll instant value payload conditions
      else pure false

/-- `_fake_matches_filter`. -/
def fakeMatchesFilter (instant : Instants) (value : P.Float → ℚ) (payload : Mapping P)
    (filter : QdrantSearchFilter P) : Option Bool :=
  if filter.documentIds ≠ [] ∧ (payload.members.lookup "document_id".toList).all (fun
      | .str s => decide (s ∉ filter.documentIds.map Ingestion.uuidText)
      | _ => true) then some false
  else fakeAll instant value payload filter.conditions

/-! ## One field -/

section Field

variable {instant : Instants} {value : P.Float → ℚ} {schema : Str → Option FilterType}
  {payload : Mapping P} {path : Str} {fieldType : FilterType} {actual expected : Json P.Float}

/-- The key of a condition. -/
def FieldCondition.key : FieldCondition P → Str
  | .matchValue key _ | .matchAny key _ | .range key _ _ | .datetimeRange key _ _ => key

/-- A missing field matches nothing. -/
theorem FieldCondition.holds_missing {condition : FieldCondition P}
    (h : conditionValue payload condition.key = none) :
    condition.holds instant value schema payload = false := by
  cases condition <;> rw [FieldCondition.key] at h <;> simp [FieldCondition.holds, h]

/-- The condition that a field has one value. -/
def equalCondition (instant : Instants) (path : Str) (fieldType : FilterType) (value : Json P.Float) :
    Option (FieldCondition P) :=
  if fieldType = .float ∨ fieldType = .datetime then exactRangeCondition instant path fieldType value
  else matchCondition path value

theorem within_singleton {α : Type} [PartialOrder α] [DecidableLE α] {a x : α} :
    within (some a) (some a) x = true ↔ x = a := by
  rw [within, Bool.and_eq_true, Option.all_some, Option.all_some, decide_eq_true_eq, decide_eq_true_eq]
  exact ⟨fun h => le_antisymm h.2 h.1, fun h => ⟨h.ge, h.le⟩⟩

/-- **A condition that a field has one value**: it compares what the direct evaluation compares. -/
theorem equalCondition_meaning (value : P.Float → ℚ)
    (hvalid : validSearchValue instant fieldType expected = true)
    (hschema : schema path = some fieldType) (hvalue : conditionValue payload path = some actual)
    (hsafe : safeMetadataValue actual = true) :
    ∃ condition right, equalCondition instant path fieldType expected = some condition ∧
      fakeComparable instant value fieldType expected = some right ∧
      (condition.holds instant value schema payload = true ↔
        validSearchValue instant fieldType actual = true ∧
          fakeComparable instant value fieldType actual = some right) := by
  cases fieldType with
  | keyword =>
      cases expected <;> try cases hvalid
      rename_i s
      refine ⟨.matchValue path (.str s), .str s, rfl, rfl, ?_⟩
      rw [FieldCondition.holds, hvalue, Option.any_some, decide_eq_true_eq]
      cases actual <;> simp_all [matchScalar, validSearchValue, fakeComparable, safeMetadataValue]
  | integer =>
      cases expected <;> try cases hvalid
      rename_i n
      refine ⟨.matchValue path (.int n), .int n, rfl, rfl, ?_⟩
      rw [FieldCondition.holds, hvalue, Option.any_some, decide_eq_true_eq]
      cases actual <;> simp_all [matchScalar, validSearchValue, fakeComparable, safeMetadataValue]
  | boolean =>
      cases expected <;> try cases hvalid
      rename_i b
      refine ⟨.matchValue path (.bool b), .bool b, rfl, rfl, ?_⟩
      rw [FieldCondition.holds, hvalue, Option.any_some, decide_eq_true_eq]
      cases actual <;> simp_all [matchScalar, validSearchValue, fakeComparable, safeMetadataValue]
  | float =>
      obtain ⟨x, hx⟩ : ∃ x, asFloat expected = some x := by
        cases expected <;> first | cases hvalid | exact ⟨_, rfl⟩
      refine ⟨.range path (some x) (some x), .number (value x), ?_, ?_, ?_⟩
      · simp [equalCondition, exactRangeCondition, hx]
      · simp [fakeComparable, hx]
      · rw [FieldCondition.holds, hvalue, Option.bind_some, hschema]
        cases actual with
        | int n =>
            rw [indexedNumber, validSearchValue]
            cases hfinite : P.floats.isFinite (floatOfInt n) with
            | false => simp
            | true => simp [within_singleton, fakeComparable, asFloat]
        | float y =>
            rw [indexedNumber, validSearchValue]
            cases hfinite : P.floats.isFinite y with
            | false => simp
            | true => simp [within_singleton, fakeComparable, asFloat]
        | _ => simp [indexedNumber, validSearchValue]
  | datetime =>
      obtain ⟨t, ht⟩ : ∃ t, searchDatetime instant expected = some t := by
        cases expected <;> first | cases hvalid | exact Option.isSome_iff_exists.mp hvalid
      refine ⟨.datetimeRange path (some t) (some t), .instant t, ?_, ?_, ?_⟩
      · simp [equalCondition, exactRangeCondition, ht]
      · simp [fakeComparable, ht]
      · rw [FieldCondition.holds, hvalue, Option.bind_some]
        cases actual with
        | str s =>
            rw [validSearchValue]
            cases hinstant : instant s with
            | none => simp [hinstant]
            | some t' => simp [within_singleton, fakeComparable, searchDatetime, hinstant]
        | _ => simp [validSearchValue]

theorem exists_equalCondition (hvalid : validSearchValue instant fieldType expected = true) :
    ∃ condition, equalCondition instant path fieldType expected = some condition := by
  cases fieldType with
  | keyword | integer | boolean | float => cases expected <;> first | exact ⟨_, rfl⟩ | cases hvalid
  | datetime =>
      cases expected <;> try cases hvalid
      obtain ⟨t, ht⟩ := Option.isSome_iff_exists.mp hvalid
      exact ⟨.datetimeRange path (some t) (some t), by
        simp [equalCondition, exactRangeCondition, searchDatetime, ht]⟩

/-! ## One of several values -/

/-- One of the matches holds exactly if one of the single matches does. -/
theorem matchAny_holds {values : List (Json P.Float)} {scalars : List MatchScalar}
    (h : values.mapM matchScalar = some scalars) :
    (FieldCondition.matchAny path scalars).holds instant value schema payload = true ↔
      ∃ item ∈ values, ∃ single, matchCondition path item = some single ∧
        single.holds instant value schema payload = true := by
  have hscalars := Fallible.mapM_some_iff.mp h
  rw [FieldCondition.holds]
  cases hvalue : conditionValue payload path with
  | none =>
      rw [Option.any_none]
      constructor
      · intro hfalse
        cases hfalse
      · rintro ⟨item, -, single, hsingle, hholds⟩
        obtain ⟨scalar, -, rfl⟩ := Option.map_eq_some_iff.mp hsingle
        rw [FieldCondition.holds_missing hvalue] at hholds
        cases hholds
  | some actual =>
      rw [Option.any_some, List.any_eq_true]
      constructor
      · rintro ⟨scalar, hscalar, hmatch⟩
        obtain ⟨item, hitem, hsame⟩ := Fallible.exists_of_mem_right hscalars hscalar
        refine ⟨item, hitem, .matchValue path scalar, by rw [matchCondition, hsame]; rfl, ?_⟩
        rw [FieldCondition.holds, hvalue, Option.any_some]
        exact hmatch
      · rintro ⟨item, hitem, single, hsingle, hholds⟩
        obtain ⟨scalar, hscalar, hsame⟩ := Fallible.exists_of_mem_left hscalars hitem
        rw [matchCondition, hsame] at hsingle
        cases hsingle
        rw [FieldCondition.holds, hvalue, Option.any_some] at hholds
        exact ⟨scalar, hscalar, hholds⟩

/-- One of the conditions of a filter with `should` holds. -/
theorem should_holds {values : List (Json P.Float)} {conditions : List (FieldCondition P)}
    {f : Json P.Float → Option (FieldCondition P)} (h : values.mapM f = some conditions) :
    (QdrantCondition.should conditions).holds instant value schema payload = true ↔
      ∃ item ∈ values, ∃ single, f item = some single ∧
        single.holds instant value schema payload = true := by
  have hconditions := Fallible.mapM_some_iff.mp h
  rw [QdrantCondition.holds, List.any_eq_true]
  constructor
  · rintro ⟨single, hsingle, hholds⟩
    obtain ⟨item, hitem, hsame⟩ := Fallible.exists_of_mem_right hconditions hsingle
    exact ⟨item, hitem, single, hsame, hholds⟩
  · rintro ⟨item, hitem, single, hsingle, hholds⟩
    obtain ⟨single', hmem, hsame⟩ := Fallible.exists_of_mem_left hconditions hitem
    cases hsingle.symm.trans hsame
    exact ⟨single, hmem, hholds⟩

/-- The condition that the field has the one value. -/
def QdrantFilterCondition.equals (c : QdrantFilterCondition P) (value : Json P.Float) :
    QdrantFilterCondition P :=
  { c with operator := .eq, value := .one value }

theorem searchCondition_equals (c : QdrantFilterCondition P) (expected : Json P.Float) :
    searchCondition instant (c.equals expected) =
      (equalCondition instant c.path c.fieldType expected).map .field := by
  change (if c.fieldType = .float ∨ c.fieldType = .datetime then
    (exactRangeCondition instant c.path c.fieldType expected).map QdrantCondition.field
    else (matchCondition c.path expected).map QdrantCondition.field) = _
  rw [equalCondition]
  by_cases h : c.fieldType = .float ∨ c.fieldType = .datetime
  · rw [if_pos h, if_pos h]
  · rw [if_neg h, if_neg h]

/-- **`in` is the disjunction of the single values**, for every type of field. -/
theorem searchCondition_in (value : P.Float → ℚ) (schema : Str → Option FilterType)
    {c : QdrantFilterCondition P} {values : List (Json P.Float)}
    (hoperator : c.operator = .isIn) (hvalues : c.value = .many values)
    (hvalid : ∀ item ∈ values, validSearchValue instant c.fieldType item = true) :
    ∃ condition, searchCondition instant c = some condition ∧
      ∀ payload, condition.holds instant value schema payload = true ↔
        ∃ item ∈ values, ∃ single, equalCondition instant c.path c.fieldType item = some single ∧
          single.holds instant value schema payload = true := by
  have hsingles : ∀ item ∈ values,
      ∃ single, equalCondition instant c.path c.fieldType item = some single :=
    fun item hitem => exists_equalCondition (hvalid item hitem)
  obtain ⟨conditions, hconditions⟩ := Fallible.exists_forall₂ hsingles
  rw [searchCondition, hoperator, hvalues]
  dsimp only
  by_cases hshould : c.fieldType = .float ∨ c.fieldType = .datetime ∨ c.fieldType = .boolean
  · have hmap : (values.mapM fun item =>
        if c.fieldType = .boolean then matchCondition c.path item
        else exactRangeCondition instant c.path c.fieldType item) = some conditions := by
      refine Fallible.mapM_some_iff.mpr (hconditions.imp fun item single hsingle => ?_)
      rw [← hsingle, equalCondition]
      rcases hshould with h | h | h <;> simp [h]
    rw [if_pos hshould, hmap]
    refine ⟨.should conditions, rfl, fun payload => ?_⟩
    rw [should_holds (Fallible.mapM_some_iff.mpr hconditions)]
  · have hmatch : ∀ item : Json P.Float, equalCondition instant c.path c.fieldType item = matchCondition c.path item := by
      intro item
      rw [equalCondition, if_neg]
      rintro (h | h)
      · exact hshould (.inl h)
      · exact hshould (.inr (.inl h))
    have hscalars : ∀ item ∈ values, ∃ scalar, matchScalar item = some scalar := by
      intro item hitem
      obtain ⟨single, hsingle⟩ := hsingles item hitem
      rw [hmatch] at hsingle
      obtain ⟨scalar, hscalar, -⟩ := Option.map_eq_some_iff.mp hsingle
      exact ⟨scalar, hscalar⟩
    obtain ⟨scalars, hscalars⟩ := Fallible.exists_forall₂ hscalars
    have hmap := Fallible.mapM_some_iff.mpr hscalars
    rw [if_neg hshould, hmap]
    refine ⟨.field (.matchAny c.path scalars), rfl, fun payload => ?_⟩
    rw [QdrantCondition.holds, matchAny_holds hmap]
    simp only [hmatch]

end Field

/-! ## Ranges -/

section Ranges

variable {instant : Instants} {value : P.Float → ℚ} {schema : Str → Option FilterType}
  {payload : Mapping P} {c : QdrantFilterCondition P} {expected actual : Json P.Float}

/-- The number of a bound on integers is the bound. -/
theorem value_of_exactRangeInteger (hvalue : FloatValue value) {n : ℤ}
    (h : exactRangeInteger (FilterOperand.one (P := P) (.int n)) = true) :
    value (floatOfInt n) = n := by
  rw [exactRangeInteger, Bool.and_eq_true] at h
  exact (hvalue.eqInt_iff _ _ h.1).mp h.2

/-- The bounds of a range with an operator. -/
def lowerBound {α : Type} (operator : FilterOperator) (bound : α) : Option α :=
  if operator = .gte then some bound else none

def upperBound {α : Type} (operator : FilterOperator) (bound : α) : Option α :=
  if operator = .lte then some bound else none

/-- What the direct evaluation of a range compares. -/
def Comparable.compare? (operator : FilterOperator) (left right : Comparable) : Option Bool :=
  if operator = .gte then right.le? left else left.le? right

theorem within_bounds {α : Type} [LE α] [DecidableLE α] {operator : FilterOperator}
    (hoperator : operator = .gte ∨ operator = .lte) (bound x : α) :
    within (lowerBound operator bound) (upperBound operator bound) x =
      if operator = .gte then decide (bound ≤ x) else decide (x ≤ bound) := by
  rcases hoperator with rfl | rfl <;> simp [within, lowerBound, upperBound]

/-- The compiled range. -/
theorem searchCondition_range (hoperator : c.operator = .gte ∨ c.operator = .lte)
    (hexpected : c.value = .one expected) :
    searchCondition instant c =
      if c.fieldType = .datetime then
        (searchDatetime instant expected).map fun parsed =>
          .field (.datetimeRange c.path (lowerBound c.operator parsed) (upperBound c.operator parsed))
      else (asFloat expected).map fun numeric =>
        .field (.range c.path (lowerBound c.operator numeric) (upperBound c.operator numeric)) := by
  rw [searchCondition, hexpected]
  rcases hoperator with h | h <;> rw [h] <;> rfl

/-- The direct evaluation of a range. -/
theorem fakeMatchesCondition_range (hoperator : c.operator = .gte ∨ c.operator = .lte)
    (hexpected : c.value = .one expected) (hactual : conditionValue payload c.path = some actual)
    (hvalid : validSearchValue instant c.fieldType actual = true) {left right : Comparable}
    (hleft : fakeComparable instant value c.fieldType actual = some left)
    (hright : fakeComparable instant value c.fieldType expected = some right) :
    fakeMatchesCondition instant value payload c = left.compare? c.operator right := by
  rw [fakeMatchesCondition, hactual, hexpected]
  dsimp only
  rw [if_neg (by simp [hvalid])]
  rcases hoperator with h | h <;> rw [h] <;> dsimp only <;> rw [hleft, hright] <;> rfl

theorem lowerBound_map {α β : Type} (f : α → β) (operator : FilterOperator) (bound : α) :
    (lowerBound operator bound).map f = lowerBound operator (f bound) := by
  rw [lowerBound, lowerBound]
  split <;> rfl

theorem upperBound_map {α β : Type} (f : α → β) (operator : FilterOperator) (bound : α) :
    (upperBound operator bound).map f = upperBound operator (f bound) := by
  rw [upperBound, upperBound]
  split <;> rfl

/-- A range of numbers, of a value that the index holds. -/
theorem range_holds (hoperator : c.operator = .gte ∨ c.operator = .lte)
    (hactual : conditionValue payload c.path = some actual) {q : ℚ}
    (hindexed : indexedNumber value (schema c.path) actual = some q) (x : P.Float) :
    (FieldCondition.range c.path (lowerBound c.operator x) (upperBound c.operator x)).holds instant value
      schema payload = if c.operator = .gte then decide (value x ≤ q) else decide (q ≤ value x) := by
  rw [FieldCondition.holds, hactual, Option.bind_some, hindexed, Option.any_some, lowerBound_map,
    upperBound_map, within_bounds hoperator]

/-- The direct evaluation of a value that is not of the type. -/
theorem fakeMatchesCondition_invalid (hactual : conditionValue payload c.path = some actual)
    (h : validSearchValue instant c.fieldType actual = false) :
    fakeMatchesCondition instant value payload c = some false := by
  rw [fakeMatchesCondition, hactual]
  exact if_pos h

/-- A range over integers: the number of its bound is exact. -/
theorem integer_range_meaning (hvalue : FloatValue value)
    (hoperator : c.operator = .gte ∨ c.operator = .lte) (hexpected : c.value = .one expected)
    (htype : c.fieldType = .integer) (hvalid : validSearchValue instant .integer expected = true)
    (hexact : exactRangeInteger c.value = true) (hschema : schema c.path = some .integer)
    (hactual : conditionValue payload c.path = some actual) (hsafe : safeMetadataValue actual = true) :
    ∃ condition, searchCondition instant c = some condition ∧
      fakeMatchesCondition instant value payload c =
        some (condition.holds instant value schema payload) := by
  cases expected <;> try cases hvalid
  rename_i n
  have hbound := value_of_exactRangeInteger hvalue (hexpected ▸ hexact)
  rw [searchCondition_range hoperator hexpected, htype]
  refine ⟨_, rfl, ?_⟩
  rw [QdrantCondition.holds]
  cases actual with
  | int m =>
      have hvalidActual : validSearchValue instant c.fieldType (.int m : Json P.Float) = true := by
        rw [htype]
        exact hsafe
      have hindexed : indexedNumber value (schema c.path) (.int m : Json P.Float) = some (m : ℚ) := by
        rw [hschema]
        rfl
      have hcomparable : ∀ k : ℤ, fakeComparable instant value c.fieldType (.int k : Json P.Float) =
          some (.int k) := fun k => by
        rw [htype]
        rfl
      rw [fakeMatchesCondition_range hoperator hexpected hactual hvalidActual (hcomparable m)
        (hcomparable n), range_holds hoperator hactual hindexed, hbound]
      simp only [Int.cast_le]
      rcases hoperator with h | h <;> rw [h] <;> rfl
  | _ =>
      rw [fakeMatchesCondition_invalid hactual (by rw [htype]; rfl), FieldCondition.holds, hactual,
        Option.bind_some, hschema]
      rfl

/-- A range over floats. -/
theorem float_range_meaning (hoperator : c.operator = .gte ∨ c.operator = .lte)
    (hexpected : c.value = .one expected) (htype : c.fieldType = .float)
    (hvalid : validSearchValue instant .float expected = true) (hschema : schema c.path = some .float)
    (hactual : conditionValue payload c.path = some actual) :
    ∃ condition, searchCondition instant c = some condition ∧
      fakeMatchesCondition instant value payload c =
        some (condition.holds instant value schema payload) := by
  obtain ⟨x, hx⟩ : ∃ x, asFloat expected = some x := by
    cases expected <;> first | exact ⟨_, rfl⟩ | cases hvalid
  rw [searchCondition_range hoperator hexpected, htype, if_neg (by decide), hx]
  refine ⟨_, rfl, ?_⟩
  rw [QdrantCondition.holds]
  by_cases hvalidActual : validSearchValue instant c.fieldType actual = true
  · obtain ⟨y, hy, hindexed⟩ : ∃ y, asFloat actual = some y ∧
        indexedNumber value (schema c.path) actual = some (value y) := by
      rw [htype] at hvalidActual
      rw [hschema]
      cases actual with
      | int m => exact ⟨floatOfInt m, rfl, if_pos hvalidActual⟩
      | float y => exact ⟨y, rfl, if_pos hvalidActual⟩
      | _ => cases hvalidActual
    have hcomparable : ∀ {v : Json P.Float} {z}, asFloat v = some z →
        fakeComparable instant value c.fieldType v = some (.number (value z)) := fun hz => by
      simp [htype, fakeComparable, hz]
    rw [fakeMatchesCondition_range hoperator hexpected hactual hvalidActual (hcomparable hy)
      (hcomparable hx), range_holds hoperator hactual hindexed]
    rcases hoperator with h | h <;> rw [h] <;> rfl
  · rw [Bool.not_eq_true] at hvalidActual
    rw [fakeMatchesCondition_invalid hactual hvalidActual, FieldCondition.holds, hactual,
      Option.bind_some, hschema]
    rw [htype] at hvalidActual
    cases actual with
    | int m =>
        rw [indexedNumber, if_neg (by rw [validSearchValue] at hvalidActual; simp [hvalidActual])]
        rfl
    | float y =>
        rw [indexedNumber, if_neg (by rw [validSearchValue] at hvalidActual; simp [hvalidActual])]
        rfl
    | _ => rfl

/-- A range over times. -/
theorem datetime_range_meaning (hoperator : c.operator = .gte ∨ c.operator = .lte)
    (hexpected : c.value = .one expected) (htype : c.fieldType = .datetime)
    (hvalid : validSearchValue instant .datetime expected = true)
    (hactual : conditionValue payload c.path = some actual) :
    ∃ condition, searchCondition instant c = some condition ∧
      fakeMatchesCondition instant value payload c =
        some (condition.holds instant value schema payload) := by
  obtain ⟨t, ht⟩ : ∃ t, searchDatetime instant expected = some t := by
    cases expected <;> exact Option.isSome_iff_exists.mp hvalid
  rw [searchCondition_range hoperator hexpected, htype, if_pos rfl, ht]
  refine ⟨_, rfl, ?_⟩
  rw [QdrantCondition.holds, FieldCondition.holds, hactual, Option.bind_some]
  by_cases hvalidActual : validSearchValue instant c.fieldType actual = true
  · obtain ⟨s, t', rfl, ht'⟩ : ∃ s t', actual = .str s ∧ instant s = some t' := by
      rw [htype] at hvalidActual
      cases actual with
      | str s =>
          obtain ⟨t', ht'⟩ := Option.isSome_iff_exists.mp hvalidActual
          exact ⟨s, t', rfl, ht'⟩
      | _ => cases hvalidActual
    have hcomparable : ∀ {v : Json P.Float} {z}, searchDatetime instant v = some z →
        fakeComparable instant value c.fieldType v = some (.instant z) := fun hz => by
      simp [htype, fakeComparable, hz]
    rw [fakeMatchesCondition_range hoperator hexpected hactual hvalidActual (hcomparable ht')
      (hcomparable ht)]
    dsimp only
    rw [ht', Option.any_some, within_bounds hoperator]
    rcases hoperator with h | h <;> rw [h] <;> rfl
  · rw [Bool.not_eq_true] at hvalidActual
    rw [fakeMatchesCondition_invalid hactual hvalidActual]
    rw [htype] at hvalidActual
    cases actual with
    | str s =>
        have hnone : instant s = none := Option.not_isSome_iff_eq_none.mp (by
          rw [validSearchValue] at hvalidActual
          simp [hvalidActual])
        dsimp only
        rw [hnone]
        rfl
    | _ => rfl

theorem exists_range (hoperator : c.operator = .gte ∨ c.operator = .lte)
    (hexpected : c.value = .one expected) (hallowed : c.operator ∈ c.fieldType.operators)
    (hvalid : validSearchValue instant c.fieldType expected = true) :
    (∃ condition, searchCondition instant c = some condition) ∧
      (c.fieldType = .integer ∨ c.fieldType = .float ∨ c.fieldType = .datetime) := by
  rw [searchCondition_range hoperator hexpected]
  generalize c.fieldType = fieldType at hallowed hvalid
  cases fieldType with
  | keyword | boolean =>
      have hnot : c.operator ∉ [FilterOperator.eq, .isIn] := by
        rcases hoperator with h | h <;> rw [h] <;> decide
      exact absurd hallowed hnot
  | integer | float =>
      refine ⟨?_, by simp⟩
      cases expected <;> first | exact ⟨_, rfl⟩ | cases hvalid
  | datetime =>
      refine ⟨?_, by simp⟩
      cases expected <;> try cases hvalid
      obtain ⟨t, ht⟩ := Option.isSome_iff_exists.mp hvalid
      exact ⟨_, by rw [if_pos rfl, searchDatetime, ht]; rfl⟩

end Ranges

/-! ## Conditions -/

section Conditions

variable {instant : Instants} {value : P.Float → ℚ} {schema : Str → Option FilterType}
  {payload : Mapping P} {c : QdrantFilterCondition P}

/-- What the constructor of a condition accepts. -/
inductive Accepted (instant : Instants) (c : QdrantFilterCondition P) : Prop
  | equal {expected : Json P.Float} (hoperator : c.operator = .eq) (hvalue : c.value = .one expected)
      (hvalid : validSearchValue instant c.fieldType expected = true)
  | isIn {values : List (Json P.Float)} (hoperator : c.operator = .isIn) (hvalue : c.value = .many values)
      (hvalid : ∀ item ∈ values, validSearchValue instant c.fieldType item = true)
  | range {expected : Json P.Float} (hoperator : c.operator = .gte ∨ c.operator = .lte)
      (hvalue : c.value = .one expected) (hvalid : validSearchValue instant c.fieldType expected = true)
      (hallowed : c.operator ∈ c.fieldType.operators)
      (hexact : c.fieldType = .integer → exactRangeInteger c.value = true)

theorem accepted_cases (h : c.accepted instant = true) : Accepted instant c := by
  rw [QdrantFilterCondition.accepted] at h
  simp only [Bool.and_eq_true, decide_eq_true_eq, Bool.or_eq_true] at h
  obtain ⟨⟨⟨⟨hoperand, hexact⟩, -⟩, -⟩, hallowed⟩ := h
  cases hvalue : c.value with
  | many values =>
      rw [hvalue] at hoperand
      simp only [Bool.and_eq_true, decide_eq_true_eq, List.all_eq_true] at hoperand
      exact .isIn hoperand.1.1 hvalue hoperand.2
  | one expected =>
      rw [hvalue] at hoperand
      simp only [Bool.and_eq_true, decide_eq_true_eq] at hoperand
      have hrange : c.operator = .gte ∨ c.operator = .lte → Accepted instant c := by
        intro hoperator
        refine .range hoperator hvalue hoperand.2 hallowed fun htype => ?_
        rcases hexact with (hne | ⟨hgte, hlte⟩) | hexact
        · exact absurd htype hne
        · exact (hoperator.elim hgte hlte).elim
        · exact hexact
      cases hoperator : c.operator with
      | eq => exact .equal hoperator hvalue hoperand.2
      | isIn => exact absurd hoperator hoperand.1
      | gte => exact hrange (.inl hoperator)
      | lte => exact hrange (.inr hoperator)

theorem equalCondition_key {path : Str} {fieldType : FilterType} {expected : Json P.Float}
    {condition : FieldCondition P}
    (h : equalCondition instant path fieldType expected = some condition) : condition.key = path := by
  rw [equalCondition] at h
  split at h
  · rw [exactRangeCondition] at h
    split at h
    · obtain ⟨_, -, rfl⟩ := Option.map_eq_some_iff.mp h
      rfl
    · obtain ⟨_, -, rfl⟩ := Option.map_eq_some_iff.mp h
      rfl
  · obtain ⟨_, -, rfl⟩ := Option.map_eq_some_iff.mp h
    rfl

theorem exists_fakeComparable (value : P.Float → ℚ) {fieldType : FilterType} {v : Json P.Float}
    (hvalid : validSearchValue instant fieldType v = true) :
    ∃ left, fakeComparable instant value fieldType v = some left := by
  cases fieldType with
  | keyword | integer | boolean | float => cases v <;> first | exact ⟨_, rfl⟩ | cases hvalid
  | datetime =>
      cases v <;> try cases hvalid
      obtain ⟨t, ht⟩ := Option.isSome_iff_exists.mp hvalid
      exact ⟨.instant t, by simp [fakeComparable, searchDatetime, ht]⟩

/-- The direct evaluation of one value. -/
theorem fakeMatchesCondition_equal {expected actual : Json P.Float} {right : Comparable}
    (hoperator : c.operator = .eq) (hexpected : c.value = .one expected)
    (hactual : conditionValue payload c.path = some actual)
    (hright : fakeComparable instant value c.fieldType expected = some right) {b : Bool}
    (hb : b = true ↔ validSearchValue instant c.fieldType actual = true ∧
      fakeComparable instant value c.fieldType actual = some right) :
    fakeMatchesCondition instant value payload c = some b := by
  by_cases hvalid : validSearchValue instant c.fieldType actual = true
  · obtain ⟨left, hleft⟩ := exists_fakeComparable value hvalid
    rw [fakeMatchesCondition, hactual, hexpected, hoperator]
    dsimp only
    rw [if_neg (by simp [hvalid]), hleft, hright]
    have hsame : decide (left = right) = b := by
      rw [Bool.eq_iff_iff, decide_eq_true_eq, hb, hleft, Option.some.injEq]
      exact ⟨fun h => ⟨hvalid, h⟩, fun h => h.2⟩
    exact congrArg some hsame
  · have hfalse : b = false := by
      rw [← Bool.not_eq_true, hb]
      exact fun h => hvalid h.1
    rw [fakeMatchesCondition_invalid hactual (by simpa using hvalid), hfalse]

/-- The direct evaluation of one of several values. -/
theorem fakeMatchesCondition_in {values : List (Json P.Float)} {actual : Json P.Float}
    (hoperator : c.operator = .isIn) (hvalues : c.value = .many values)
    (hactual : conditionValue payload c.path = some actual)
    (hvalid : ∀ item ∈ values, validSearchValue instant c.fieldType item = true) {b : Bool}
    (hb : b = true ↔ ∃ item ∈ values, ∃ right,
      fakeComparable instant value c.fieldType item = some right ∧
        validSearchValue instant c.fieldType actual = true ∧
        fakeComparable instant value c.fieldType actual = some right) :
    fakeMatchesCondition instant value payload c = some b := by
  by_cases hvalidActual : validSearchValue instant c.fieldType actual = true
  · obtain ⟨left, hleft⟩ := exists_fakeComparable value hvalidActual
    obtain ⟨rights, hrights⟩ := Fallible.exists_forall₂ fun item hitem =>
      exists_fakeComparable value (hvalid item hitem)
    rw [fakeMatchesCondition, hactual, hvalues, hoperator]
    dsimp only
    rw [if_neg (by simp [hvalidActual]), hleft, Fallible.mapM_some_iff.mpr hrights]
    have hsame : decide (left ∈ rights) = b := by
      rw [Bool.eq_iff_iff, decide_eq_true_eq, hb]
      constructor
      · intro hmem
        obtain ⟨item, hitem, hright⟩ := Fallible.exists_of_mem_right hrights hmem
        exact ⟨item, hitem, left, hright, hvalidActual, hleft⟩
      · rintro ⟨item, hitem, right, hright, -, hsame⟩
        obtain ⟨right', hmem, hright'⟩ := Fallible.exists_of_mem_left hrights hitem
        cases hright.symm.trans hright'
        cases hleft.symm.trans hsame
        exact hmem
    exact congrArg some hsame
  · have hfalse : b = false := by
      rw [← Bool.not_eq_true, hb]
      rintro ⟨-, -, -, -, h, -⟩
      exact hvalidActual h
    rw [fakeMatchesCondition_invalid hactual (by simpa using hvalidActual), hfalse]

/-- **A condition of any shape** means what the direct evaluation says. -/
theorem searchCondition_meaning (hvalue : FloatValue value) (haccepted : c.accepted instant = true)
    (hschema : schema c.path = some c.fieldType)
    (hsafe : ∀ actual, conditionValue payload c.path = some actual → safeMetadataValue actual = true) :
    ∃ condition, searchCondition instant c = some condition ∧
      fakeMatchesCondition instant value payload c =
        some (condition.holds instant value schema payload) := by
  have hmissing : conditionValue payload c.path = none →
      fakeMatchesCondition instant value payload c = some false := by
    intro h
    rw [fakeMatchesCondition, h]
  have hmissingSingle : ∀ {item : Json P.Float} {single}, conditionValue payload c.path = none →
      equalCondition instant c.path c.fieldType item = some single →
        single.holds instant value schema payload = false := fun h hsingle =>
    FieldCondition.holds_missing (by rwa [equalCondition_key hsingle])
  cases accepted_cases haccepted with
  | @equal expected hoperator hexpected hvalid =>
      have hcompiled : searchCondition instant (c.equals expected) = _ :=
        searchCondition_equals c expected
      have hsame : c.equals expected = c := by
        rw [QdrantFilterCondition.equals, ← hoperator, ← hexpected]
      rw [hsame] at hcompiled
      cases hactual : conditionValue payload c.path with
      | none =>
          obtain ⟨single, hsingle⟩ : ∃ single, equalCondition instant c.path c.fieldType expected =
              some single := exists_equalCondition hvalid
          refine ⟨.field single, by rw [hcompiled, hsingle]; rfl, ?_⟩
          rw [hmissing hactual, QdrantCondition.holds, hmissingSingle hactual hsingle]
      | some actual =>
          obtain ⟨single, right, hsingle, hright, hholds⟩ :=
            equalCondition_meaning value hvalid hschema hactual (hsafe actual hactual)
          refine ⟨.field single, by rw [hcompiled, hsingle]; rfl, ?_⟩
          exact fakeMatchesCondition_equal hoperator hexpected hactual hright hholds
  | @isIn values hoperator hvalues hvalid =>
      obtain ⟨condition, hcondition, hholds⟩ :=
        searchCondition_in value schema hoperator hvalues hvalid
      refine ⟨condition, hcondition, ?_⟩
      cases hactual : conditionValue payload c.path with
      | none =>
          rw [hmissing hactual, eq_comm, Option.some.injEq, ← Bool.not_eq_true, hholds payload]
          rintro ⟨item, -, single, hsingle, htrue⟩
          rw [hmissingSingle hactual hsingle] at htrue
          cases htrue
      | some actual =>
          refine fakeMatchesCondition_in hoperator hvalues hactual hvalid ?_
          rw [hholds payload]
          constructor
          · rintro ⟨item, hitem, single, hsingle, htrue⟩
            obtain ⟨single', right, hsingle', hright, hmeaning⟩ := equalCondition_meaning value
              (hvalid item hitem) hschema hactual (hsafe actual hactual)
            cases hsingle.symm.trans hsingle'
            exact ⟨item, hitem, right, hright, hmeaning.mp htrue⟩
          · rintro ⟨item, hitem, right, hright, hmatch⟩
            obtain ⟨single, right', hsingle, hright', hmeaning⟩ := equalCondition_meaning value
              (hvalid item hitem) hschema hactual (hsafe actual hactual)
            cases hright.symm.trans hright'
            exact ⟨item, hitem, single, hsingle, hmeaning.mpr hmatch⟩
  | @range expected hoperator hexpected hvalid hallowed hexact =>
      obtain ⟨⟨condition, hcondition⟩, htype⟩ := exists_range hoperator hexpected hallowed hvalid
      cases hactual : conditionValue payload c.path with
      | none =>
          refine ⟨condition, hcondition, ?_⟩
          rw [hmissing hactual]
          rw [searchCondition_range hoperator hexpected] at hcondition
          split at hcondition
          · obtain ⟨_, -, rfl⟩ := Option.map_eq_some_iff.mp hcondition
            rw [QdrantCondition.holds, FieldCondition.holds_missing hactual]
          · obtain ⟨_, -, rfl⟩ := Option.map_eq_some_iff.mp hcondition
            rw [QdrantCondition.holds, FieldCondition.holds_missing hactual]
      | some actual =>
          rcases htype with htype | htype | htype
          · exact integer_range_meaning hvalue hoperator hexpected htype (htype ▸ hvalid) (hexact htype)
              (htype ▸ hschema) hactual (hsafe actual hactual)
          · exact float_range_meaning hoperator hexpected htype (htype ▸ hvalid) (htype ▸ hschema) hactual
          · exact datetime_range_meaning hoperator hexpected htype (htype ▸ hvalid) hactual

end Conditions

/-! ## Filters -/

section Filters

variable {instant : Instants} {value : P.Float → ℚ} {schema : Str → Option FilterType}
  {payload : Mapping P} {filter : QdrantSearchFilter P}

/-- The metadata of a payload that is accepted. -/
theorem metadata_safe {pointId : PointIds} {point : ℕ} {valid : PointPayload P}
    (h : validatedPointPayload pointId point payload = some valid) :
    ∃ metadata, payload.members.lookup "metadata".toList = some (.obj metadata) ∧
      ∀ m ∈ metadata, safeMetadataValue m.2 = true := by
  simp only [validatedPointPayload, Option.bind_eq_bind, Option.bind_eq_some_iff] at h
  obtain ⟨_, -, _, -, _, -, _, -, _, -, _, -, _, -, _, -, _, -, _, -, metadata, hmetadata, h⟩ := h
  rw [objField?] at hmetadata
  split at hmetadata
  swap
  · cases hmetadata
  rename_i members hlookup
  cases hmetadata
  refine ⟨metadata, hlookup, fun m hm => ?_⟩
  split at h
  swap
  · cases h
  rename_i hchecks
  simp only [Bool.and_eq_true, List.all_eq_true] at hchecks
  exact (hchecks.1.2 m hm).2

/-- The path of a condition leads to a key of the metadata. -/
theorem splitOn_path {c : QdrantFilterCondition P} (h : c.accepted instant = true) :
    ∃ key, c.path.splitOn '.' = ["metadata".toList, key] := by
  rw [QdrantFilterCondition.accepted] at h
  simp only [Bool.and_eq_true, decide_eq_true_eq] at h
  obtain ⟨⟨⟨-, hprefix⟩, hkey⟩, -⟩ := h
  have hpath : c.path = "metadata".toList ++ '.' :: c.path.drop 9 := by
    conv_lhs => rw [← List.take_append_drop 9 c.path, hprefix]
    rfl
  simp only [isMetadataKey, Bool.and_eq_true, decide_eq_true_eq, List.all_eq_true, Bool.or_eq_true] at hkey
  obtain ⟨⟨hhead, -⟩, hdigits⟩ := hkey
  have hnodot : '.' ∉ c.path.drop 9 := by
    intro hdot
    rw [← List.take_append_drop 2 (c.path.drop 9), List.mem_append, hhead] at hdot
    rcases hdot with hdot | hdot
    · revert hdot
      decide
    · have := hdigits _ hdot
      revert this
      decide
  refine ⟨c.path.drop 9, ?_⟩
  conv_lhs => rw [hpath]
  rw [List.splitOn_append_cons_self, List.splitOn_eq_singleton (by decide),
    List.splitOn_eq_singleton hnodot]
  rfl

/-- What a condition finds in an accepted payload is a value of the metadata. -/
theorem safe_of_conditionValue {pointId : PointIds} {point : ℕ} {valid : PointPayload P}
    (hpayload : validatedPointPayload pointId point payload = some valid) {c : QdrantFilterCondition P}
    (haccepted : c.accepted instant = true) {actual : Json P.Float}
    (h : conditionValue payload c.path = some actual) : safeMetadataValue actual = true := by
  obtain ⟨metadata, hmetadata, hsafe⟩ := metadata_safe hpayload
  obtain ⟨key, hpath⟩ := splitOn_path haccepted
  rw [conditionValue, hpath, Mapping.json, valueAt, hmetadata, Option.bind_some, valueAt] at h
  obtain ⟨v, hlookup, hv⟩ := Option.bind_eq_some_iff.mp h
  have hactual : v = actual := by
    cases v <;> first | exact Option.some.inj hv | cases hv
  subst hactual
  obtain ⟨before, after, hmembers, -⟩ := List.lookup_eq_some_iff.mp hlookup
  have hmem : (key, v) ∈ metadata := by
    rw [hmembers]
    simp
  exact hsafe _ hmem

/-- The direct evaluation of all conditions. -/
theorem fakeAll_eq {conditions : List (QdrantFilterCondition P)} {compiled : List (QdrantCondition P)}
    (h : List.Forall₂ (fun c condition => fakeMatchesCondition instant value payload c =
      some (condition.holds instant value schema payload)) conditions compiled) :
    fakeAll instant value payload conditions =
      some (compiled.all (·.holds instant value schema payload)) := by
  induction h with
  | nil => rfl
  | @cons c condition conditions compiled hcondition hrest ih =>
      rw [fakeAll, hcondition, List.all_cons]
      cases condition.holds instant value schema payload with
      | true => exact ih
      | false => rfl

/-- The condition on the document. -/
theorem document_holds (ids : List ℕ) :
    (FieldCondition.matchAny "document_id".toList
      (ids.map fun id => .str (Ingestion.uuidText id))).holds instant value schema payload =
        !(payload.members.lookup "document_id".toList).all fun
          | .str s => decide (s ∉ ids.map Ingestion.uuidText)
          | _ => true := by
  have hpath : ("document_id".toList).splitOn '.' = ["document_id".toList] := by decide +kernel
  rw [FieldCondition.holds, conditionValue, hpath, Mapping.json, valueAt]
  cases payload.members.lookup "document_id".toList with
  | none => rfl
  | some v =>
      rw [Option.bind_some, Option.all_some]
      cases v with
      | str s =>
          have hmem : (ids.map fun id => MatchScalar.str (Ingestion.uuidText id)).any (fun expected =>
              decide (matchScalar (.str s : Json P.Float) = some expected)) = true ↔
                s ∈ ids.map Ingestion.uuidText := by
            rw [List.any_map, List.any_eq_true, List.mem_map]
            simp only [Function.comp_apply, matchScalar, decide_eq_true_eq, Option.some.injEq,
              MatchScalar.str.injEq]
            constructor
            · rintro ⟨id, hid, h⟩
              exact ⟨id, hid, h.symm⟩
            · rintro ⟨id, hid, h⟩
              exact ⟨id, hid, h.symm⟩
          rw [valueAt, Option.any_some, Bool.eq_iff_iff, hmem]
          · simp
          · simp
      | _ => simp [valueAt, matchScalar]

/-- No filter is one that has no conditions. -/
theorem filterHolds_must (must : List (QdrantCondition P)) :
    filterHolds instant value schema payload (if must.isEmpty then none else some must) =
      must.all (·.holds instant value schema payload) := by
  cases must <;> rfl

/-- **The meaning of a search filter.**  In a collection whose indexes have the types of the fields, the
compiled filter holds of a payload exactly when the direct evaluation says so; an empty filter is no
filter and holds of everything; and `in` is the disjunction of the single values. -/
theorem searchFilter_meaning (hvalue : FloatValue value)
    (hfilter : ∀ c ∈ filter.conditions, c.accepted instant = true)
    (hschema : ∀ c ∈ filter.conditions, schema c.path = some c.fieldType)
    {pointId : PointIds} {point : ℕ} {valid : PointPayload P}
    (hpayload : validatedPointPayload pointId point payload = some valid) :
    ∃ compiled, searchFilter instant filter = some compiled ∧
      fakeMatchesFilter instant value payload filter =
        some (filterHolds instant value schema payload compiled) ∧
      (filter.documentIds = [] → filter.conditions = [] →
        compiled = none ∧ filterHolds instant value schema payload compiled = true) ∧
      ∀ c ∈ filter.conditions, ∀ values, c.value = .many values →
        ∃ condition, searchCondition instant c = some condition ∧
          (condition.holds instant value schema payload = true ↔
            ∃ item ∈ values, ∃ single, searchCondition instant (c.equals item) = some single ∧
              single.holds instant value schema payload = true) := by
  have hmeaning : ∀ c ∈ filter.conditions, ∃ condition, searchCondition instant c = some condition ∧
      fakeMatchesCondition instant value payload c =
        some (condition.holds instant value schema payload) := fun c hc =>
    searchCondition_meaning hvalue (hfilter c hc) (hschema c hc) fun _ h =>
      safe_of_conditionValue hpayload (hfilter c hc) h
  obtain ⟨conditions, hconditions⟩ := Fallible.exists_forall₂ hmeaning
  have hcompiled : filter.conditions.mapM (searchCondition instant) = some conditions :=
    Fallible.mapM_some_iff.mpr (hconditions.imp fun _ _ h => h.1)
  have hfake := fakeAll_eq (hconditions.imp fun _ _ h => h.2)
  refine ⟨_, by rw [searchFilter, hcompiled]; rfl, ?_, ?_, ?_⟩
  · rw [fakeMatchesFilter, hfake, filterHolds_must]
    by_cases hdocuments : filter.documentIds = []
    · rw [if_neg (fun h => h.1 hdocuments), if_pos hdocuments, List.nil_append]
    · rw [if_neg hdocuments, List.singleton_append, List.all_cons, QdrantCondition.holds, document_holds]
      split
      · rename_i hother
        rw [hother.2]
        rfl
      · rename_i hother
        have hfound := (not_and.mp hother) hdocuments
        rw [Bool.not_eq_true] at hfound
        rw [hfound]
        rfl
  · intro hdocuments hnone
    rw [hnone] at hconditions
    cases hconditions
    rw [if_pos hdocuments]
    exact ⟨rfl, rfl⟩
  · intro c hc values hvalues
    have hvalid : c.operator = .isIn ∧
        ∀ item ∈ values, validSearchValue instant c.fieldType item = true := by
      cases accepted_cases (hfilter c hc) with
      | equal _ hone | range _ hone =>
          rw [hvalues] at hone
          cases hone
      | isIn hoperator hmany hvalid =>
          rw [hvalues] at hmany
          cases hmany
          exact ⟨hoperator, hvalid⟩
    obtain ⟨condition, hcondition, hholds⟩ :=
      searchCondition_in value schema hvalid.1 hvalues hvalid.2
    refine ⟨condition, hcondition, (hholds payload).trans ?_⟩
    constructor
    · rintro ⟨item, hitem, single, hsingle, htrue⟩
      refine ⟨item, hitem, .field single, ?_, htrue⟩
      rw [searchCondition_equals, hsingle]
      rfl
    · rintro ⟨item, hitem, single, hsingle, htrue⟩
      rw [searchCondition_equals] at hsingle
      obtain ⟨field, hfield, rfl⟩ := Option.map_eq_some_iff.mp hsingle
      exact ⟨item, hitem, field, hfield, htrue⟩

end Filters

/-! ## A filter of two conditions -/

namespace FilterSample

def metadataKey (digit : Char) : Str := "f_".toList ++ List.replicate 32 digit

/-- A chunk with an integer and a keyword. -/
def payload : Mapping samplePlatform where
  members := [
    ("knowledge_base_id".toList, .str (Ingestion.uuidText 1)),
    ("document_id".toList, .str (Ingestion.uuidText 2)),
    ("version_id".toList, .str (Ingestion.uuidText 3)),
    ("chunk_index".toList, .int 0),
    ("chunk_hash".toList, .str (List.replicate 64 'a')),
    ("text".toList, .str "ok".toList),
    ("title_path".toList, .arr []),
    ("start_offset".toList, .int 0),
    ("end_offset".toList, .int 2),
    ("metadata".toList, .obj [(metadataKey '0', .int 7), (metadataKey '1', .str "b".toList)])]
  unique := by
    refine ⟨pointPayloadKeys_nodup, ?_⟩
    simp [Json.UniqueKeys, Json.UniqueKeysMembers, Json.UniqueKeysItems, metadataKey]

def filter : QdrantSearchFilter samplePlatform where
  documentIds := [2, 5]
  conditions := [
    ⟨"metadata.".toList ++ metadataKey '0', .integer, .gte, .one (.int 0)⟩,
    ⟨"metadata.".toList ++ metadataKey '1', .keyword, .isIn, .many [.str "a".toList, .str "b".toList]⟩]
  valid := by decide +kernel

def schema (path : Str) : Option FilterType :=
  if path = "metadata.".toList ++ metadataKey '0' then some .integer else some .keyword

end FilterSample

open FilterSample in
theorem searchFilter_meaning_sample : ∃ compiled, searchFilter (fun _ => none) filter = some compiled ∧
    fakeMatchesFilter (fun _ => none) (fun _ => 0) payload filter =
      some (filterHolds (fun _ => none) (fun _ => 0) schema payload compiled) := by
  have hvalid : (validatedPointPayload (fun _ _ _ => 4) 4 payload).isSome = true := by decide +kernel
  obtain ⟨valid, hvalid⟩ := Option.isSome_iff_exists.mp hvalid
  have hvalue : FloatValue (P := samplePlatform) fun _ => 0 := by
    refine ⟨fun x n _ => ?_⟩
    change decide (n = 0) = true ↔ (0 : ℚ) = n
    rw [decide_eq_true_eq, eq_comm (a := (0 : ℚ)), Int.cast_eq_zero]
  have haccepted : ∀ c ∈ filter.conditions, c.accepted (fun _ => none) = true := by decide +kernel
  have hschema : ∀ c ∈ filter.conditions, schema c.path = some c.fieldType := by decide +kernel
  obtain ⟨compiled, hcompiled, hholds, -⟩ := searchFilter_meaning hvalue haccepted hschema hvalid
  exact ⟨compiled, hcompiled, hholds⟩

end VeloxRag.Retrieval
