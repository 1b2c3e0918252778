import VeloxRag.Metadata.FilterSchemas

/-!
# Filter snapshots

A generation keeps a copy of the filter schema it was built with.  A search reads the copy again and
checks it field by field before it compiles anything against it.

## Main definitions

* `buildFilterSnapshot` — the copy.
* `parseFilterSnapshot` — the fields of a copy, for the compiler of search filters.
* `buildFilterSnapshot_json`, `parseFilterSnapshot_snapshot` — a stored schema is copied, and its copy
  is read.
-/

namespace VeloxRag.Metadata

open Lib Ingestion Indexing Api Retrieval

variable {P : Platform}

/-! ## Copies -/

/-- `_json_copy`, `none` for what it raises. -/
def jsonCopy (value : Json P.Float) : Option (Json P.Float) :=
  (canonicalJsonBytes P value).bind (loadsBytes P)

/-- A path of the payload: `metadata.f_` and 32 hexadecimal digits. -/
def isPayloadPath (path : Str) : Bool :=
  decide (path.take 11 = "metadata.f_".toList) && decide (path.length = 43)
    && (path.drop 11).all fun c => decide ('0' ≤ c ∧ c ≤ '9') || decide ('a' ≤ c ∧ c ≤ 'f')

/-- The path of a field of a snapshot, after the checks of `build_filter_snapshot`. -/
def snapshotPath? {F : Type} : Json F → Option Str
  | .obj members =>
      if hasFieldKeys members then do
        let fieldType ← textAt? members "type"
        let payloadPath ← textAt? members "payload_path"
        if (FilterType.ofText fieldType).isSome = true ∧ isPayloadPath payloadPath = true then
          some payloadPath
        else none
      else none
  | _ => none

/-- `build_filter_snapshot`, `none` for its `ValueError`. -/
def buildFilterSnapshot (filterSchema : Json P.Float) : Option (Json P.Float) := do
  let copied ← jsonCopy filterSchema
  match copied with
  | .obj [(key, .arr fields)] =>
      if key = "fields".toList ∧ fields.length ≤ 64 then do
        let paths ← fields.mapM snapshotPath?
        if paths.Nodup then some copied else none
      else none
  | _ => none

/-! ## Fields of a search -/

/-- A field of a snapshot, after the checks of `_parse_filter_snapshot`. -/
def parsedField? {F : Type} (raw : Json F) : Option RawField := do
  let field ← rawField? raw
  if isFilterSegment field.name = true ∧ isFilterSourcePath field.sourcePath = true
      ∧ validOperators field.fieldType field.operators = true
      ∧ validIdentifierPair field.fieldId field.payloadPath = true then
    some field
  else none

def RawField.filterField (field : RawField) : FilterField :=
  ⟨field.name, field.fieldType, field.operators, field.payloadPath⟩

/-- `_parse_filter_snapshot`. -/
def parseFilterSnapshot (snapshot : Json P.Float) : Except SearchError (List FilterField) :=
  match buildFilterSnapshot snapshot with
  | some (.obj [(_, .arr items)]) =>
      match items.mapM parsedField? with
      | some fields =>
          if (fields.map (·.name)).Nodup ∧ (fields.map (·.sourcePath)).Nodup then
            .ok (fields.map RawField.filterField)
          else .error configurationUnavailable
      | none => .error configurationUnavailable
  | _ => .error configurationUnavailable

/-! ## The copy of a stored schema -/

theorem jsonCopy_eq {value : Json P.Float} (hunique : value.UniqueKeys)
    (hdumps : (Json.dumps P.floats value).isSome = true) : jsonCopy value = some value.sorted := by
  obtain ⟨text, htext⟩ := Option.isSome_iff_exists.mp (Json.isSome_dumps_sorted value |>.mpr hdumps)
  have hbytes : canonicalJsonBytes P value = some (encode text) := by
    rw [canonicalJsonBytes, htext, Option.map_some]
  rw [jsonCopy, hbytes, Option.bind_some]
  exact loadsBytes_canonical hunique hbytes

section Fields

variable {F : Type} (field : StoredFilterSchemaField)

theorem sorted_members : (field.members (F := F)).map (fun m => (m.1, m.2.sorted)) = field.members := by
  have htexts : (field.operators.map fun o => Json.str (F := F) o.text).map Json.sorted =
      field.operators.map fun o => .str o.text := by
    rw [List.map_map]
    rfl
  simp only [StoredFilterSchemaField.members, List.map_cons, List.map_nil, Json.sorted_arr, htexts]
  rfl

theorem perm_sortKeys_members : (Json.sortKeys (field.members (F := F))).Perm field.members :=
  Json.sortKeys_perm _

theorem uniqueKeys_members : (Json.obj (field.members (F := F))).UniqueKeys := by
  rw [Json.uniqueKeys_obj]
  refine ⟨nodup_fieldKeys, ?_⟩
  intro m hm
  simp only [StoredFilterSchemaField.members, List.mem_cons, List.not_mem_nil, or_false] at hm
  rcases hm with rfl | rfl | rfl | rfl | rfl | rfl
  any_goals trivial
  rw [Json.uniqueKeys_arr]
  intro x hx
  obtain ⟨o, -, rfl⟩ := List.mem_map.mp hx
  trivial

theorem isSome_dumps_members (ops : FloatOps F) :
    (Json.dumps ops (.obj field.members)).isSome = true := by
  rw [Json.isSome_dumps_obj]
  intro m hm
  simp only [StoredFilterSchemaField.members, List.mem_cons, List.not_mem_nil, or_false] at hm
  rcases hm with rfl | rfl | rfl | rfl | rfl | rfl
  any_goals rfl
  rw [Json.isSome_dumps_arr]
  intro x hx
  obtain ⟨o, -, rfl⟩ := List.mem_map.mp hx
  rfl

theorem isPayloadPath_payloadPath : isPayloadPath field.payloadPath = true := by
  obtain ⟨identifier, hlt, hpath⟩ := exists_of_validIdentifierPair field.pair_valid
  have hlength := length_hexDigits hlt
  have htake : (payloadPathOf identifier).take 11 = "metadata.f_".toList := rfl
  have hdrop : (payloadPathOf identifier).drop 11 = hexDigits identifier := rfl
  rw [hpath, isPayloadPath, htake, hdrop]
  simp only [decide_true, Bool.true_and, Bool.and_eq_true, decide_eq_true_eq, List.all_eq_true]
  have hbegins : "metadata.f_".toList.length = 11 := rfl
  have hpathLength : (payloadPathOf identifier).length = 43 := by
    unfold payloadPathOf
    rw [List.length_append, hbegins, hlength]
  refine ⟨hpathLength, ?_⟩
  intro c hc
  have hdigit : ∀ d < 16, (decide ('0' ≤ d.digitChar ∧ d.digitChar ≤ '9') ||
      decide ('a' ≤ d.digitChar ∧ d.digitChar ≤ 'f')) = true := by decide
  rcases List.mem_append.mp hc with hc | hc
  · rw [List.eq_of_mem_replicate hc]
    exact hdigit 0 (by decide)
  · obtain ⟨d, hd, rfl⟩ := mem_toDigits identifier hc
    exact hdigit d hd

theorem snapshotPath?_of_perm {field : StoredFilterSchemaField} {members : JsonMembers F}
    (h : members.Perm field.members) : snapshotPath? (.obj members) = some field.payloadPath := by
  have htype : textAt? members "type" = some field.fieldType.text :=
    textAt?_of_perm h (by simp [StoredFilterSchemaField.members])
  have hpath : textAt? members "payload_path" = some field.payloadPath :=
    textAt?_of_perm h (by simp [StoredFilterSchemaField.members])
  rw [snapshotPath?, if_pos (hasFieldKeys_of_perm h), htype, hpath]
  simp [isPayloadPath_payloadPath field]

theorem parsedField?_of_perm {field : StoredFilterSchemaField} {members : JsonMembers F}
    (h : members.Perm field.members) : parsedField? (.obj members) = some field.raw := by
  rw [parsedField?, rawField?_of_perm h]
  simp only [Option.bind_eq_bind, Option.bind_some]
  exact if_pos ⟨field.name_valid, field.sourcePath_valid, field.operators_valid, field.pair_valid⟩

end Fields

namespace StoredFilterSchema

variable (schema : StoredFilterSchema)

/-- The copy of a stored schema: in each of its fields the keys are sorted. -/
def snapshot {F : Type} : Json F :=
  .obj [("fields".toList, .arr (schema.fields.map fun field => .obj (Json.sortKeys field.members)))]

theorem sorted_json {F : Type} : (schema.json (F := F)).sorted = schema.snapshot := by
  have hfields : (schema.fields.map fun field => Json.obj (F := F) field.members).map Json.sorted =
      schema.fields.map fun field => .obj (Json.sortKeys field.members) := by
    rw [List.map_map]
    apply List.map_congr_left
    intro field _
    rw [Function.comp_apply, Json.sorted_obj, sorted_members]
  rw [json, Json.sorted_obj, List.map_cons, List.map_nil, Json.sorted_arr, hfields, Json.sortKeys,
    List.mergeSort_singleton]
  rfl

theorem sorted_snapshot {F : Type} : (schema.snapshot (F := F)).sorted = schema.snapshot := by
  rw [← sorted_json, Json.sorted_sorted]

theorem uniqueKeys_json {F : Type} : (schema.json (F := F)).UniqueKeys := by
  rw [json, Json.uniqueKeys_obj]
  refine ⟨List.nodup_singleton _, ?_⟩
  intro m hm
  obtain rfl := List.mem_singleton.mp hm
  rw [Json.uniqueKeys_arr]
  intro x hx
  obtain ⟨field, -, rfl⟩ := List.mem_map.mp hx
  exact uniqueKeys_members field

theorem isSome_dumps_json {F : Type} (ops : FloatOps F) :
    (Json.dumps ops schema.json).isSome = true := by
  rw [json, Json.isSome_dumps_obj]
  intro m hm
  obtain rfl := List.mem_singleton.mp hm
  rw [Json.isSome_dumps_arr]
  intro x hx
  obtain ⟨field, -, rfl⟩ := List.mem_map.mp hx
  exact isSome_dumps_members field ops

/-- The stored schema and its copy are copied alike. -/
theorem jsonCopy_json : jsonCopy (P := P) schema.json = some schema.snapshot := by
  rw [jsonCopy_eq schema.uniqueKeys_json (schema.isSome_dumps_json P.floats), sorted_json]

theorem jsonCopy_snapshot : jsonCopy (P := P) schema.snapshot = some schema.snapshot := by
  have hunique : (schema.snapshot (F := P.Float)).UniqueKeys := by
    rw [← sorted_json]
    exact Json.uniqueKeys_sorted _ schema.uniqueKeys_json
  have hdumps : (Json.dumps P.floats schema.snapshot).isSome = true := by
    rw [← sorted_json, Json.isSome_dumps_sorted]
    exact schema.isSome_dumps_json P.floats
  rw [jsonCopy_eq hunique hdumps, sorted_snapshot]

/-- A function of the fields' dictionaries, over all of them. -/
theorem mapM_fields {F α : Type} {f : Json F → Option α} {g : StoredFilterSchemaField → α}
    (h : ∀ field, f (.obj (Json.sortKeys field.members)) = some (g field))
    (fields : List StoredFilterSchemaField) :
    (fields.map fun field => Json.obj (Json.sortKeys field.members)).mapM f =
      some (fields.map g) := by
  induction fields with
  | nil => rfl
  | cons field fields ih =>
      simp only [List.map_cons, List.mapM_cons, h field, ih]
      rfl

/-- What is copied to a snapshot is accepted. -/
theorem buildFilterSnapshot_of_copy {value : Json P.Float} (h : jsonCopy value = some schema.snapshot) :
    buildFilterSnapshot value = some schema.snapshot := by
  have hpaths := mapM_fields (F := P.Float) (fun field =>
    snapshotPath?_of_perm (perm_sortKeys_members field)) schema.fields
  have hlength : (schema.fields.map fun field =>
      Json.obj (F := P.Float) (Json.sortKeys field.members)).length ≤ 64 := by
    rw [List.length_map]
    exact schema.length_le
  rw [buildFilterSnapshot, h, Option.bind_eq_bind, Option.bind_some, snapshot]
  simp only [hlength, and_self, if_true, hpaths, Option.bind_eq_bind, Option.bind_some]
  exact if_pos schema.unique.2.2.2

/-- **The snapshot** of a stored schema. -/
theorem buildFilterSnapshot_json :
    buildFilterSnapshot (P := P) schema.json = some schema.snapshot :=
  schema.buildFilterSnapshot_of_copy schema.jsonCopy_json

/-- **The fields of the snapshot** are those of the schema. -/
theorem parseFilterSnapshot_snapshot : parseFilterSnapshot (P := P) schema.snapshot =
    .ok (schema.fields.map fun field => field.raw.filterField) := by
  have hfields := mapM_fields (F := P.Float) (fun field =>
    parsedField?_of_perm (perm_sortKeys_members field)) schema.fields
  have hnames : ((schema.fields.map (·.raw)).map (·.name)).Nodup ∧
      ((schema.fields.map (·.raw)).map (·.sourcePath)).Nodup := by
    rw [List.map_map, List.map_map]
    exact ⟨schema.unique.1, schema.unique.2.1⟩
  have hbuild := schema.buildFilterSnapshot_of_copy (P := P) schema.jsonCopy_snapshot
  rw [parseFilterSnapshot, hbuild]
  simp only [snapshot, hfields]
  rw [if_pos hnames, List.map_map]
  rfl

end StoredFilterSchema

end VeloxRag.Metadata
