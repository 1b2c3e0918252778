import VeloxRag.Indexing.Points
import VeloxRag.Api.Cursors

/-!
# Search filters

A search may be restricted to documents and by fields of the metadata.  The fields are those of
the filter schema that the generation was built with; the filter of a request is compiled against
them into conditions of the vector store.

## Main definitions

* `SearchFilters`, `SearchRequest` — the request.
* `FilterField`, `validFilterValue` — a field of the schema and its values.
* `QdrantFilterCondition`, `QdrantSearchFilter` — the compiled filter.
* `compileSearchFilter` — the compiler.
-/

namespace VeloxRag.Retrieval

open Lib Indexing Api

/-- What a search raises. -/
inductive SearchError
  | business (error : BusinessError) (retryable : Bool)
  /-- Any other exception. -/
  | raised
deriving DecidableEq, Repr

def SearchError.rejected (status : ℕ) (code message : String) : SearchError :=
  .business ⟨status, code, message⟩ false

/-- `_configuration_unavailable`. -/
def configurationUnavailable : SearchError :=
  .rejected 503 "RETRIEVAL_CONFIGURATION_UNAVAILABLE" "Retrieval configuration is unavailable"

def invalidSearchFilter : SearchError :=
  .rejected 422 "INVALID_SEARCH_FILTER" "Search filter is invalid"

/-! ## The request -/

inductive FilterOperator
  | eq
  | isIn
  | gte
  | lte
deriving DecidableEq, Repr

/-- What a field is compared with. -/
inductive FilterOperand (P : Platform)
  | one (value : Json P.Float)
  | many (values : List (Json P.Float))

inductive FilterExpression (P : Platform)
  | plain (value : Json P.Float)
  | operation (operator : FilterOperator) (operand : FilterOperand P)

variable {P : Platform}

/-- `_filter_scalar`, which has the body of `_safe_metadata_value`. -/
def filterScalar (value : Json P.Float) : Bool := safeMetadataValue value

/-- What `validate_metadata_filters` accepts as an expression. -/
def FilterExpression.accepted : FilterExpression P → Bool
  | .plain value => filterScalar value
  | .operation .isIn (.many values) =>
      decide (1 ≤ values.length ∧ values.length ≤ 100) && values.all filterScalar
  | .operation .isIn (.one _) => false
  | .operation _ (.one value) => filterScalar value
  | .operation _ (.many _) => false

structure SearchFilters (P : Platform) where
  documentIds : List ℕ
  metadata : List (Str × FilterExpression P)
  documentIds_le : documentIds.length ≤ 200
  documentIds_nodup : documentIds.Nodup
  metadata_le : metadata.length ≤ 64
  names_nodup : (metadata.map (·.1)).Nodup
  accepted : metadata.all (fun m => m.2.accepted) = true

structure SearchRequest (P : Platform) where
  query : Str
  topK : ℕ
  filters : Option (SearchFilters P)
  rerank : Bool
  query_length : 1 ≤ query.length ∧ query.length ≤ 8000
  topK_le : 1 ≤ topK ∧ topK ≤ 50

/-! ## Values -/

inductive FilterType
  | keyword
  | integer
  | float
  | boolean
  | datetime
deriving DecidableEq, Repr

/-- `_FILTER_OPERATORS`. -/
def FilterType.operators : FilterType → List FilterOperator
  | .keyword | .boolean => [.eq, .isIn]
  | .integer | .float | .datetime => [.eq, .isIn, .gte, .lte]

/-- The offset from UTC of the end of a time: `Z`, or a sign with hours and minutes below a day. -/
def zoneOffset? (zone : Str) : Option ℕ :=
  if zone = ['Z'] then some 0
  else if zone.length = 6 ∧ (zone[0]? = some '+' ∨ zone[0]? = some '-') ∧ zone[3]? = some ':' then do
    let hours ← number? (slice zone 1 3)
    let minutes ← number? (slice zone 4 6)
    if 60 * hours + minutes < 24 * 60 then some (60 * hours + minutes) else none
  else none

/-- `is_rfc3339_datetime`: the pattern, and what `datetime.fromisoformat` accepts of it. -/
def isRfc3339Datetime (s : Str) : Bool :=
  let zoneLength := if s.getLast? = some 'Z' then 1 else 6
  let body := s.take (s.length - zoneLength)
  let fraction := body.drop 19
  decide (body[4]? = some '-' ∧ body[7]? = some '-' ∧ body[10]? = some 'T' ∧ body[13]? = some ':'
      ∧ body[16]? = some ':' ∧ 19 ≤ body.length)
    && (decide (fraction = [])
      || (decide (fraction[0]? = some '.' ∧ 2 ≤ fraction.length) && (fraction.drop 1).all isDigit))
    && (zoneOffset? (s.drop (s.length - zoneLength))).isSome
    && ((do
        let year ← number? (slice body 0 4)
        let month ← number? (slice body 5 7)
        let day ← number? (slice body 8 10)
        let hour ← number? (slice body 11 13)
        let minute ← number? (slice body 14 16)
        let second ← number? (slice body 17 19)
        pure (validDatetime ⟨year, month, day, hour, minute, second, 0⟩)) = some true)

/-- `float(n)` of an integer. -/
def floatOfInt (n : ℤ) : P.Float := P.floats.ofLiteral (Json.decimal n)

/-- `_valid_filter_value`; `_valid_search_value` asks less of a time, but sees only values that
have passed here. -/
def validFilterValue : FilterType → Json P.Float → Bool
  | .keyword, .str s => decide (s.length ≤ 4096) && !s.contains '\x00'
  | .integer, .int n => decide (-(2 ^ 63) ≤ n ∧ n ≤ 2 ^ 63 - 1)
  | .float, .int n => P.floats.isFinite (floatOfInt n)
  | .float, .float f => P.floats.isFinite f
  | .boolean, .bool _ => true
  | .datetime, .str s => isRfc3339Datetime s
  | _, _ => false

/-- `_exact_qdrant_range_integer`. -/
def exactRangeInteger : FilterOperand P → Bool
  | .one (.int n) => P.floats.isFinite (floatOfInt n) && P.floats.eqInt (floatOfInt n) n
  | _ => false

def validOperand (fieldType : FilterType) (operator : FilterOperator) : FilterOperand P → Bool
  | .many values => decide (operator = .isIn) && values.all (validFilterValue fieldType)
  | .one value => decide (operator ≠ .isIn) && validFilterValue fieldType value

/-! ## Compiled filters -/

structure QdrantFilterCondition (P : Platform) where
  path : Str
  fieldType : FilterType
  operator : FilterOperator
  value : FilterOperand P

/-- The number of values that a condition compares with. -/
def FilterOperand.count : FilterOperand P → ℕ
  | .one _ => 1
  | .many values => values.length

/-- The constructor of a condition, `none` for its `ValueError`. -/
def QdrantFilterCondition.make (path : Str) (fieldType : FilterType) (operator : FilterOperator)
    (value : FilterOperand P) : Option (QdrantFilterCondition P) :=
  if validOperand fieldType operator value && decide (1 ≤ value.count ∧ value.count ≤ 100)
      && (decide (fieldType ≠ .integer ∨ (operator ≠ .gte ∧ operator ≠ .lte))
        || exactRangeInteger value)
      && decide (path.take 9 = "metadata.".toList) && isMetadataKey (path.drop 9)
      && decide (operator ∈ fieldType.operators) then
    some ⟨path, fieldType, operator, value⟩
  else none

/-- `QdrantSearchFilter`, with what its constructor checks. -/
structure QdrantSearchFilter (P : Platform) where
  documentIds : List ℕ
  conditions : List (QdrantFilterCondition P)
  valid : documentIds.length ≤ 200 ∧ documentIds.Nodup ∧ conditions.length ≤ 64
    ∧ (conditions.map (·.path)).Nodup

def QdrantSearchFilter.make (documentIds : List ℕ) (conditions : List (QdrantFilterCondition P)) :
    Except SearchError (QdrantSearchFilter P) :=
  if h : documentIds.length ≤ 200 ∧ documentIds.Nodup ∧ conditions.length ≤ 64
      ∧ (conditions.map (·.path)).Nodup then .ok ⟨documentIds, conditions, h⟩
  else .error .raised

theorem QdrantSearchFilter.make_documentIds {documentIds : List ℕ}
    {conditions : List (QdrantFilterCondition P)} {filter : QdrantSearchFilter P}
    (h : make documentIds conditions = .ok filter) : filter.documentIds = documentIds := by
  rw [make] at h
  split at h
  · cases h
    rfl
  · cases h

/-! ## The compiler -/

/-- A field of the filter schema that a generation was built with. -/
structure FilterField where
  name : Str
  fieldType : FilterType
  operators : List FilterOperator
  payloadPath : Str

/-- The operator and the operand of an expression. -/
def FilterExpression.parts : FilterExpression P → FilterOperator × FilterOperand P
  | .plain value => (.eq, .one value)
  | .operation operator operand => (operator, operand)

def compileCondition (fields : List FilterField) (name : Str) (expression : FilterExpression P) :
    Option (QdrantFilterCondition P) := do
  let field ← fields.find? (·.name = name)
  let (operator, value) := expression.parts
  if operator ∈ field.operators ∧ validOperand field.fieldType operator value = true then
    QdrantFilterCondition.make field.payloadPath field.fieldType operator value
  else none

/-- `compile_search_filter`. -/
def compileSearchFilter (filters : Option (SearchFilters P)) (fields : List FilterField) :
    Except SearchError (QdrantSearchFilter P) :=
  match filters with
  | none => QdrantSearchFilter.make [] []
  | some filters =>
      match filters.metadata.mapM fun m => compileCondition fields m.1 m.2 with
      | none => .error invalidSearchFilter
      | some conditions => QdrantSearchFilter.make filters.documentIds conditions

example : isRfc3339Datetime "2024-02-29T23:59:59.25+05:30".toList = true := by rfl
example : isRfc3339Datetime "2023-02-29T00:00:00Z".toList = false := by rfl

end VeloxRag.Retrieval
