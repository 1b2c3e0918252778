import VeloxRag.Retrieval.Filters
import VeloxRag.Lib.JsonLines
import VeloxRag.Api.Listings

/-!
# Filter schemas

The fields of the metadata that a search may filter by.  A request replaces the whole schema; a field
that is kept under its name keeps the identifier it was given when it came in, and the path of the
field in a point's payload is made of the same identifier.

## Main definitions

* `FilterSchemaField`, `FilterSchemaReplacement` — the request.
* `StoredFilterSchemaField`, `StoredFilterSchema` — the schema with identifiers, as it is stored.
* `canonicalizeFilterSchema` — the schema that a request leaves behind.
* `StoredFilterSchema.validate_json` — a stored schema reads back.
* `canonicalizeFilterSchema_eq_ok` — what an accepted request stores.
-/

namespace VeloxRag

open Lib

/-! ## Types and operators -/

namespace Retrieval

def FilterType.text : FilterType → Str
  | .keyword => "keyword".toList
  | .integer => "integer".toList
  | .float => "float".toList
  | .boolean => "boolean".toList
  | .datetime => "datetime".toList

def FilterType.ofText (s : Str) : Option FilterType :=
  [keyword, integer, float, boolean, datetime].find? (·.text = s)

@[simp] theorem FilterType.ofText_text (t : FilterType) : ofText t.text = some t := by
  cases t <;> rfl

def FilterOperator.text : FilterOperator → Str
  | .eq => "eq".toList
  | .isIn => "in".toList
  | .gte => "gte".toList
  | .lte => "lte".toList

def FilterOperator.ofText (s : Str) : Option FilterOperator :=
  [eq, isIn, gte, lte].find? (·.text = s)

@[simp] theorem FilterOperator.ofText_text (o : FilterOperator) : ofText o.text = some o := by
  cases o <;> rfl

end Retrieval

namespace Metadata

open Ingestion Api Retrieval

/-! ## Names -/

def isLetter (c : Char) : Bool := decide ('A' ≤ c ∧ c ≤ 'Z') || decide ('a' ≤ c ∧ c ≤ 'z')

/-- `_FILTER_SEGMENT_PATTERN`: a letter, and at most 63 letters, digits and underscores. -/
def isFilterSegment : Str → Bool
  | [] => false
  | c :: rest => isLetter c && decide (rest.length ≤ 63)
      && rest.all fun d => isLetter d || isDigit d || decide (d = '_')

/-- `_FILTER_SOURCE_PATH_PATTERN`: one to four names with dots between them. -/
def isFilterSourcePath (s : Str) : Bool :=
  decide ((s.splitOn '.').length ≤ 4) && (s.splitOn '.').all isFilterSegment

/-! ## Identifiers -/

/-- `uuid.bytes`. -/
def uuidBytes (n : ℕ) : Bytes := (List.range 16).map fun i => UInt8.ofNat (n / 256 ^ (15 - i))

/-- `UUID(bytes=...)`. -/
def uuidOfBytes (bytes : Bytes) : ℕ := bytes.foldl (fun n b => 256 * n + b.toNat) 0

theorem uuidOfBytes_lt (bytes : Bytes) : uuidOfBytes bytes < 256 ^ bytes.length := by
  induction bytes using List.reverseRecOn with
  | nil => decide
  | append_singleton bytes b ih =>
      have hb := b.toNat_lt
      have hstep : uuidOfBytes (bytes ++ [b]) = 256 * uuidOfBytes bytes + b.toNat := by
        rw [uuidOfBytes, List.foldl_append]
        rfl
      rw [hstep, List.length_append, List.length_singleton, pow_succ]
      omega

/-- The variant of RFC 4122 and version 4. -/
def isUuid4 (n : ℕ) : Bool := decide (n / 2 ^ 62 % 4 = 2) && decide (n / 2 ^ 76 % 16 = 4)

def fieldIdOf (identifier : ℕ) : Str := "fld_".toList ++ Base64.encode (uuidBytes identifier)

def payloadPathOf (identifier : ℕ) : Str := "metadata.f_".toList ++ hexDigits identifier

/-- The identity that a field's identifier is the canonical text of. -/
def identifierOf? (fieldId : Str) : Option ℕ :=
  if fieldId.take 4 = "fld_".toList then do
    let bytes ← Base64.decode? (fieldId.drop 4)
    if bytes.length = 16 ∧ Base64.encode bytes = fieldId.drop 4 ∧ isUuid4 (uuidOfBytes bytes) = true
    then some (uuidOfBytes bytes) else none
  else none

/-- `validate_identifier_pair`. -/
def validIdentifierPair (fieldId payloadPath : Str) : Bool :=
  match identifierOf? fieldId with
  | some identifier => decide (payloadPath = payloadPathOf identifier)
  | none => false

theorem exists_of_validIdentifierPair {fieldId payloadPath : Str}
    (h : validIdentifierPair fieldId payloadPath = true) :
    ∃ identifier < 2 ^ 128, payloadPath = payloadPathOf identifier := by
  rw [validIdentifierPair] at h
  split at h
  · rename_i identifier hidentifier
    refine ⟨identifier, ?_, of_decide_eq_true h⟩
    rw [identifierOf?] at hidentifier
    split at hidentifier
    · obtain ⟨bytes, -, hbytes⟩ := Option.bind_eq_some_iff.mp hidentifier
      split at hbytes
      · rename_i hlength
        have hlt := uuidOfBytes_lt bytes
        rw [hlength.1] at hlt
        rw [← Option.some.inj hbytes]
        exact lt_of_lt_of_eq hlt (by norm_num)
      · cases hbytes
    · cases hidentifier
  · cases h

/-! ## Fields -/

/-- The operators of a field: one or more of its type, in the order of their texts. -/
def validOperators (fieldType : FilterType) (operators : List FilterOperator) : Bool :=
  decide (operators ≠ []) && decide (operators.Pairwise fun a b => a.text < b.text)
    && operators.all (· ∈ fieldType.operators)

/-- `FilterSchemaField`. -/
structure FilterSchemaField where
  name : Str
  sourcePath : Str
  fieldType : FilterType
  operators : List FilterOperator
  name_valid : isFilterSegment name = true
  sourcePath_valid : isFilterSourcePath sourcePath = true
  operators_valid : validOperators fieldType operators = true
deriving DecidableEq

/-- The constructor; `canonicalize_operators` refuses an operator that is there twice, which no order
puts right. -/
def FilterSchemaField.make (name sourcePath : Str) (fieldType : FilterType)
    (operators : List FilterOperator) : Option FilterSchemaField :=
  let sorted := operators.insertionSort fun a b => a.text ≤ b.text
  if h : isFilterSegment name = true ∧ isFilterSourcePath sourcePath = true
      ∧ validOperators fieldType sorted = true then
    some ⟨name, sourcePath, fieldType, sorted, h.1, h.2.1, h.2.2⟩
  else none

/-- `FilterSchemaReplacement`. -/
structure FilterSchemaReplacement where
  fields : List FilterSchemaField
  length_le : fields.length ≤ 64
  names_nodup : (fields.map (·.name)).Nodup
  sourcePaths_nodup : (fields.map (·.sourcePath)).Nodup

/-- `_StoredFilterSchemaField`. -/
structure StoredFilterSchemaField extends FilterSchemaField where
  fieldId : Str
  payloadPath : Str
  pair_valid : validIdentifierPair fieldId payloadPath = true
deriving DecidableEq

def StoredFilterSchemaField.make (field : FilterSchemaField) (fieldId payloadPath : Str) :
    Option StoredFilterSchemaField :=
  if h : validIdentifierPair fieldId payloadPath = true then some ⟨field, fieldId, payloadPath, h⟩
  else none

/-- The fields of a schema are different in all that names them. -/
def UniqueFields (fields : List StoredFilterSchemaField) : Prop :=
  (fields.map (·.name)).Nodup ∧ (fields.map (·.sourcePath)).Nodup ∧ (fields.map (·.fieldId)).Nodup
    ∧ (fields.map (·.payloadPath)).Nodup

instance (fields : List StoredFilterSchemaField) : Decidable (UniqueFields fields) :=
  inferInstanceAs (Decidable (_ ∧ _ ∧ _ ∧ _))

/-- `_StoredFilterSchema`. -/
structure StoredFilterSchema where
  fields : List StoredFilterSchemaField
  length_le : fields.length ≤ 64
  unique : UniqueFields fields

def StoredFilterSchema.make (fields : List StoredFilterSchemaField) : Option StoredFilterSchema :=
  if h : fields.length ≤ 64 ∧ UniqueFields fields then some ⟨fields, h.1, h.2⟩ else none

/-! ## As JSON -/

section Json

variable {F : Type}

def fieldKeys : List Str :=
  ["name", "source_path", "type", "operators", "field_id", "payload_path"].map String.toList

/-- `model_dump` of a field. -/
def StoredFilterSchemaField.members (field : StoredFilterSchemaField) : JsonMembers F :=
  [("name".toList, .str field.name),
    ("source_path".toList, .str field.sourcePath),
    ("type".toList, .str field.fieldType.text),
    ("operators".toList, .arr (field.operators.map fun o => .str o.text)),
    ("field_id".toList, .str field.fieldId),
    ("payload_path".toList, .str field.payloadPath)]

/-- `model_dump(mode="json")`. -/
def StoredFilterSchema.json (schema : StoredFilterSchema) : Json F :=
  .obj [("fields".toList, .arr (schema.fields.map fun field => .obj field.members))]

/-- The keys of a dictionary are those of a field. -/
def hasFieldKeys (members : JsonMembers F) : Bool :=
  (members.map (·.1)).all (· ∈ fieldKeys) && fieldKeys.all (· ∈ members.map (·.1))

/-- A text under the key. -/
def textAt? (members : JsonMembers F) (key : String) : Option Str :=
  match members.lookup key.toList with
  | some (.str s) => some s
  | _ => none

def operatorOf? : Json F → Option FilterOperator
  | .str s => FilterOperator.ofText s
  | _ => none

/-- The operators under the key. -/
def operatorsAt? (members : JsonMembers F) (key : String) : Option (List FilterOperator) :=
  match members.lookup key.toList with
  | some (.arr items) => items.mapM operatorOf?
  | _ => none

/-- What a dictionary says about a field, before anything but the types is checked. -/
structure RawField where
  name : Str
  sourcePath : Str
  fieldType : FilterType
  operators : List FilterOperator
  fieldId : Str
  payloadPath : Str

def rawField? : Json F → Option RawField
  | .obj members =>
      if hasFieldKeys members then do
        let name ← textAt? members "name"
        let sourcePath ← textAt? members "source_path"
        let fieldType ← (textAt? members "type").bind FilterType.ofText
        let operators ← operatorsAt? members "operators"
        let fieldId ← textAt? members "field_id"
        let payloadPath ← textAt? members "payload_path"
        pure ⟨name, sourcePath, fieldType, operators, fieldId, payloadPath⟩
      else none
  | _ => none

/-- A stored field from its dictionary. -/
def storedField? (raw : Json F) : Option StoredFilterSchemaField := do
  let raw ← rawField? raw
  let field ← FilterSchemaField.make raw.name raw.sourcePath raw.fieldType raw.operators
  StoredFilterSchemaField.make field raw.fieldId raw.payloadPath

/-- `_StoredFilterSchema.model_validate`, `none` for its `ValidationError`. -/
def StoredFilterSchema.validate : Json F → Option StoredFilterSchema
  | .obj [(key, .arr items)] =>
      if key = "fields".toList then (items.mapM storedField?).bind StoredFilterSchema.make else none
  | _ => none

/-- What a stored field says about itself. -/
def StoredFilterSchemaField.raw (field : StoredFilterSchemaField) : RawField where
  name := field.name
  sourcePath := field.sourcePath
  fieldType := field.fieldType
  operators := field.operators
  fieldId := field.fieldId
  payloadPath := field.payloadPath

end Json

/-! ## Canonical schemas -/

/-- What a replacement raises. -/
inductive FilterSchemaError
  | business (error : BusinessError)
  /-- `ValidationError`. -/
  | invalid
deriving DecidableEq, Repr

/-- `_new_stored_filter_field`. -/
def newStoredFilterField (field : FilterSchemaField) (identifier : ℕ) :
    Option StoredFilterSchemaField :=
  StoredFilterSchemaField.make field (fieldIdOf identifier) (payloadPathOf identifier)

/-- `model_copy(update={"operators": ...})`, for a field of the same type. -/
def StoredFilterSchemaField.withOperators (retained : StoredFilterSchemaField)
    (field : FilterSchemaField) (h : retained.fieldType = field.fieldType) :
    StoredFilterSchemaField where
  name := retained.name
  sourcePath := retained.sourcePath
  fieldType := retained.fieldType
  operators := field.operators
  name_valid := retained.name_valid
  sourcePath_valid := retained.sourcePath_valid
  operators_valid := h ▸ field.operators_valid
  fieldId := retained.fieldId
  payloadPath := retained.payloadPath
  pair_valid := retained.pair_valid

/-- The loop over the fields of the request; `used` identities have been drawn from `ids`. -/
def canonicalFields (current : List StoredFilterSchemaField) (ids : ℕ → ℕ) :
    List FilterSchemaField → ℕ → Except FilterSchemaError (List StoredFilterSchemaField)
  | [], _ => .ok []
  | field :: fields, used =>
      match current.find? (·.name = field.name) with
      | some retained =>
          if h : retained.fieldType = field.fieldType ∧ retained.sourcePath = field.sourcePath then do
            let rest ← canonicalFields current ids fields used
            pure (retained.withOperators field h.1 :: rest)
          else .error (.business knowledgeBaseInvalid)
      | none =>
          match newStoredFilterField field (ids used) with
          | some stored => do
              let rest ← canonicalFields current ids fields (used + 1)
              pure (stored :: rest)
          | none => .error .invalid

/-- `canonicalize_filter_schema`; `ids` are the identities that `id_factory` returns, in order. -/
def canonicalizeFilterSchema {F : Type} (command : FilterSchemaReplacement) (currentSchema : Json F)
    (ids : ℕ → ℕ) : Except FilterSchemaError (Json F) :=
  match StoredFilterSchema.validate currentSchema with
  | none => .error .invalid
  | some current => do
      let fields ← canonicalFields current.fields ids command.fields 0
      match StoredFilterSchema.make fields with
      | some canonical => pure canonical.json
      | none => .error .invalid

/-- **What an accepted request stores** is a valid schema. -/
theorem canonicalizeFilterSchema_eq_ok {F : Type} {command : FilterSchemaReplacement}
    {currentSchema schema : Json F} {ids : ℕ → ℕ}
    (h : canonicalizeFilterSchema command currentSchema ids = .ok schema) :
    ∃ (current canonical : StoredFilterSchema),
      StoredFilterSchema.validate currentSchema = some current ∧
      canonicalFields current.fields ids command.fields 0 = .ok canonical.fields ∧
      schema = canonical.json := by
  rw [canonicalizeFilterSchema] at h
  split at h
  · cases h
  rename_i current hcurrent
  cases hfields : canonicalFields current.fields ids command.fields 0 with
  | error e =>
      rw [hfields] at h
      cases h
  | ok fields =>
      simp only [hfields, Except.bind, bind] at h
      split at h
      · rename_i canonical hcanonical
        rw [StoredFilterSchema.make] at hcanonical
        split at hcanonical
        · cases hcanonical
          cases h
          exact ⟨current, _, hcurrent, hfields, rfl⟩
        · cases hcanonical
      · cases h

/-! ## Reading a stored schema -/

section Reading

variable {F : Type} {field : StoredFilterSchemaField} {members : JsonMembers F}

theorem StoredFilterSchemaField.keys_members :
    (field.members (F := F)).map (·.1) = fieldKeys := rfl

theorem nodup_fieldKeys : fieldKeys.Nodup := by decide +kernel

/-- A member of a dictionary with the members of the field in any order. -/
theorem lookup_of_perm (h : members.Perm field.members) {key : Str} {value : Json F}
    (hmem : (key, value) ∈ field.members) : members.lookup key = some value := by
  have hkeys : (members.map (·.1)).Nodup := by
    rw [(h.map _).nodup_iff, StoredFilterSchemaField.keys_members]
    exact nodup_fieldKeys
  exact Json.lookup_of_mem hkeys (h.mem_iff.mpr hmem)

theorem textAt?_of_perm (h : members.Perm field.members) {key : String} {value : Str}
    (hmem : (key.toList, Json.str value) ∈ field.members (F := F)) :
    textAt? members key = some value := by
  rw [textAt?, lookup_of_perm h hmem]

theorem hasFieldKeys_of_perm (h : members.Perm field.members) : hasFieldKeys members = true := by
  have hkeys : (members.map (·.1)).Perm fieldKeys := h.map _
  simp only [hasFieldKeys, Bool.and_eq_true, List.all_eq_true, decide_eq_true_eq]
  exact ⟨fun key => hkeys.mem_iff.mp, fun key => hkeys.mem_iff.mpr⟩

theorem mapM_operatorOf? (operators : List FilterOperator) :
    (operators.map fun o => Json.str (F := F) o.text).mapM operatorOf? = some operators := by
  induction operators with
  | nil => rfl
  | cons o operators ih =>
      simp only [List.map_cons, List.mapM_cons, ih, operatorOf?, FilterOperator.ofText_text]
      rfl

/-- **A dictionary with the members of a field**, in any order, says what the field says. -/
theorem rawField?_of_perm (h : members.Perm field.members) :
    rawField? (.obj members) = some field.raw := by
  have htext : ∀ {key : String} {value : Str},
      (key.toList, Json.str value) ∈ field.members (F := F) → textAt? members key = some value :=
    textAt?_of_perm h
  have hname : textAt? members "name" = some field.name :=
    htext (by simp [StoredFilterSchemaField.members])
  have hsource : textAt? members "source_path" = some field.sourcePath :=
    htext (by simp [StoredFilterSchemaField.members])
  have htype : textAt? members "type" = some field.fieldType.text :=
    htext (by simp [StoredFilterSchemaField.members])
  have hoperators : operatorsAt? members "operators" = some field.operators := by
    have hlookup : members.lookup "operators".toList =
        some (.arr (field.operators.map fun o => .str o.text)) :=
      lookup_of_perm h (by simp [StoredFilterSchemaField.members])
    rw [operatorsAt?, hlookup]
    exact mapM_operatorOf? field.operators
  have hid : textAt? members "field_id" = some field.fieldId :=
    htext (by simp [StoredFilterSchemaField.members])
  have hpath : textAt? members "payload_path" = some field.payloadPath :=
    htext (by simp [StoredFilterSchemaField.members])
  rw [rawField?, if_pos (hasFieldKeys_of_perm h), hname, hsource, htype, hoperators, hid, hpath]
  simp only [Option.bind_eq_bind, Option.bind_some, FilterType.ofText_text]
  rfl

/-- Operators in their order stay as they are. -/
theorem insertionSort_operators {fieldType : FilterType} {operators : List FilterOperator}
    (h : validOperators fieldType operators = true) :
    operators.insertionSort (fun a b => a.text ≤ b.text) = operators := by
  simp only [validOperators, Bool.and_eq_true, decide_eq_true_eq] at h
  exact List.Pairwise.insertionSort_eq (h.1.2.imp fun hlt => le_of_lt hlt)

theorem FilterSchemaField.make_self (field : FilterSchemaField) :
    make field.name field.sourcePath field.fieldType field.operators = some field := by
  have hsort := insertionSort_operators field.operators_valid
  simp only [make, hsort, field.name_valid, field.sourcePath_valid, field.operators_valid,
    and_self, dite_true]

theorem storedField?_of_perm (h : members.Perm field.members) :
    storedField? (.obj members) = some field := by
  rw [storedField?, rawField?_of_perm h]
  simp only [Option.bind_eq_bind, Option.bind_some, StoredFilterSchemaField.raw,
    FilterSchemaField.make_self field.toFilterSchemaField]
  rw [StoredFilterSchemaField.make, dif_pos field.pair_valid]

/-- **A stored schema reads back.** -/
theorem StoredFilterSchema.validate_json (schema : StoredFilterSchema) :
    validate (F := F) schema.json = some schema := by
  have hfields : ∀ fields : List StoredFilterSchemaField,
      (fields.map fun field => Json.obj (F := F) field.members).mapM storedField? = some fields := by
    intro fields
    induction fields with
    | nil => rfl
    | cons field fields ih =>
        simp only [List.map_cons, List.mapM_cons, ih, storedField?_of_perm (List.Perm.refl _)]
        rfl
  rw [json, validate, if_pos rfl, hfields, Option.bind_some, make,
    dif_pos ⟨schema.length_le, schema.unique⟩]

theorem StoredFilterSchema.json_injective {schema other : StoredFilterSchema}
    (h : schema.json (F := F) = other.json) : schema = other := by
  have hread := congrArg StoredFilterSchema.validate h
  rw [StoredFilterSchema.validate_json, StoredFilterSchema.validate_json] at hread
  exact Option.some.inj hread

end Reading

end Metadata

end VeloxRag
