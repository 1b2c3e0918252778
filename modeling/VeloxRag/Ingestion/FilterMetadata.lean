import VeloxRag.Metadata.FilterSnapshots
import VeloxRag.Ingestion.IndexedChunks

/-!
# Metadata of a document

The metadata of an upload are checked against the snapshot of the generation.  Much later, the embed
stage looks the fields up again and writes their values into the payload of each point, which has
checks of its own, and a search compares them with a value that must pass once more.

## Main definitions

* `validateMetadataAgainstFilterSnapshot` — the check at upload.
* `approvedFilterMetadata` — the values of the embed stage.
* `keptMembers` — the values of the fields that are there.
* `accepted_metadata` — what holds of metadata that were accepted at upload.
-/

namespace VeloxRag.Ingestion

open Lib Indexing Api Retrieval Metadata

variable {P : Platform}

/-! ## Values -/

/-- What is found under a path of keys. -/
def valueAt {F : Type} : List Str → Json F → Option (Json F)
  | [], value => some value
  | segment :: path, .obj members => (members.lookup segment).bind (valueAt path)
  | _ :: _, _ => none

/-- `_path_value`, and `_metadata_value` of the pipeline; `none` is a value that is missing. -/
def pathValue (metadata : Mapping P) (sourcePath : Str) : Option (Json P.Float) :=
  valueAt (sourcePath.splitOn '.') metadata.json

/-- `_valid_filter_value` of the pipeline. -/
def validStageValue (fieldType : Str) (value : Json P.Float) : Bool :=
  match FilterType.ofText fieldType with
  | some fieldType => validFilterValue fieldType value
  | none => false

/-- The conditions on a value in `validate_metadata_against_filter_snapshot`. -/
def validUploadValue (fieldType : Str) (value : Json P.Float) : Bool := validStageValue fieldType value

/-! ## At upload -/

/-- `UploadPreflight`, as far as the metadata go. -/
structure FilterPreflight (P : Platform) where
  filterSchemaSnapshot : Json P.Float
  appliedFilterSchemaRevision : ℤ
  currentFilterSchemaRevision : ℤ

def invalidDocumentUpload : BusinessError := ⟨422, "VALIDATION_ERROR", "Invalid document upload"⟩

def generationConfigurationConflict : BusinessError :=
  ⟨409, "GENERATION_CONFIGURATION_CONFLICT", "Index generation configuration conflict"⟩

/-- The value of `get("fields")`, for a list. -/
def snapshotFields? : Json P.Float → Option (List (Json P.Float))
  | .obj members =>
      match members.lookup "fields".toList with
      | some (.arr fields) => some fields
      | _ => none
  | _ => none

/-- The loop's body, for one field of the snapshot. -/
def checkField (metadata : Mapping P) : Json P.Float → Except BusinessError Unit
  | .obj members =>
      match textAt? members "source_path", textAt? members "type" with
      | some sourcePath, some fieldType =>
          match pathValue metadata sourcePath with
          | none => .ok ()
          | some value =>
              if validUploadValue fieldType value then .ok () else .error invalidDocumentUpload
      | _, _ => .error generationConfigurationConflict
  | _ => .error generationConfigurationConflict

/-- `validate_metadata_against_filter_snapshot`. -/
def validateMetadataAgainstFilterSnapshot (metadata : Mapping P) (preflight : FilterPreflight P) :
    Except BusinessError Unit :=
  if preflight.appliedFilterSchemaRevision ≠ preflight.currentFilterSchemaRevision then
    .error generationConfigurationConflict
  else
    match snapshotFields? preflight.filterSchemaSnapshot with
    | some fields => fields.forM (checkField metadata)
    | none => .error generationConfigurationConflict

/-! ## At the embed stage -/

/-- The loop's body: a value that is there is approved under the field's key, `none` for the
`ValueError`. -/
def approveField (metadata : Mapping P) (approved : JsonMembers P.Float) :
    Json P.Float → Option (JsonMembers P.Float)
  | .obj members => do
      let sourcePath ← textAt? members "source_path"
      let fieldType ← textAt? members "type"
      let payloadPath ← textAt? members "payload_path"
      if payloadPath.take 11 = "metadata.f_".toList then
        match pathValue metadata sourcePath with
        | none => some approved
        | some value =>
            if validStageValue fieldType value then
              some (Json.setKey approved (payloadPath.drop 9) value)
            else none
      else none
  | _ => none

/-- `approved_filter_metadata`, of the snapshot and the metadata that the stage expects. -/
def approvedFilterMetadata (filterSnapshot : Json P.Float) (documentMetadata : Mapping P) :
    Option (Json P.Float) := do
  let fields ← snapshotFields? filterSnapshot
  let approved ← fields.foldlM (approveField documentMetadata) []
  jsonCopy (.obj approved)

/-! ## Over the snapshot of a stored schema -/

/-- The values of the fields that are there, under their keys in the payload. -/
def keptMembers (metadata : Mapping P) (fields : List StoredFilterSchemaField) :
    JsonMembers P.Float :=
  fields.filterMap fun field =>
    (pathValue metadata field.sourcePath).map fun value => (field.payloadPath.drop 9, value)

section Snapshot

variable {metadata : Mapping P} {schema : StoredFilterSchema} {field : StoredFilterSchemaField}

theorem snapshotFields?_snapshot : snapshotFields? (P := P) schema.snapshot =
    some (schema.fields.map fun field => .obj (Json.sortKeys field.members)) := rfl

/-- The path of a field in the payload, and its key there. -/
theorem payloadPath_eq (field : StoredFilterSchemaField) :
    field.payloadPath = "metadata.".toList ++ field.payloadPath.drop 9 ∧
      field.payloadPath.take 11 = "metadata.f_".toList := by
  obtain ⟨identifier, -, hpath⟩ := exists_of_validIdentifierPair field.pair_valid
  rw [hpath]
  exact ⟨rfl, rfl⟩

theorem textAt?_sorted {key : String} {value : Str}
    (hmem : (key.toList, Json.str value) ∈ field.members (F := P.Float)) :
    textAt? (Json.sortKeys (field.members (F := P.Float))) key = some value :=
  textAt?_of_perm (perm_sortKeys_members field) hmem

theorem validStageValue_text {fieldType : FilterType} {value : Json P.Float} :
    validStageValue fieldType.text value = validFilterValue fieldType value := by
  rw [validStageValue, FilterType.ofText_text]

theorem checkField_sorted : checkField metadata (.obj (Json.sortKeys field.members)) = .ok () ↔
    ∀ value, pathValue metadata field.sourcePath = some value →
      validFilterValue field.fieldType value = true := by
  have hsource : textAt? (Json.sortKeys (field.members (F := P.Float))) "source_path" =
      some field.sourcePath := textAt?_sorted (by simp [StoredFilterSchemaField.members])
  have htype : textAt? (Json.sortKeys (field.members (F := P.Float))) "type" =
      some field.fieldType.text := textAt?_sorted (by simp [StoredFilterSchemaField.members])
  simp only [checkField, hsource, htype, validUploadValue, validStageValue_text]
  cases hvalue : pathValue metadata field.sourcePath with
  | none => simp
  | some value =>
      by_cases hvalid : validFilterValue field.fieldType value = true
      · simp [hvalid]
      · simp [hvalid]

theorem forM_checkField {fields : List StoredFilterSchemaField} :
    (fields.map fun field => Json.obj (Json.sortKeys field.members)).forM (checkField metadata) =
        .ok () ↔
      ∀ field ∈ fields, ∀ value, pathValue metadata field.sourcePath = some value →
        validFilterValue field.fieldType value = true := by
  induction fields with
  | nil => simp [pure, Except.pure]
  | cons field fields ih =>
      have hcons : ((field :: fields).map fun field =>
          Json.obj (Json.sortKeys field.members)).forM (checkField metadata) =
          (checkField metadata (.obj (Json.sortKeys field.members)) >>= fun _ =>
            (fields.map fun field => Json.obj (Json.sortKeys field.members)).forM
              (checkField metadata)) := rfl
      rw [hcons, List.forall_mem_cons, ← ih, ← checkField_sorted]
      cases checkField metadata (.obj (Json.sortKeys field.members)) with
      | error e => simp [bind, Except.bind]
      | ok _ => simp [bind, Except.bind]

/-- **What the check at upload accepts**: every value that is there fits its field. -/
theorem valid_of_accepted {preflight : FilterPreflight P}
    (hsnapshot : preflight.filterSchemaSnapshot = schema.snapshot)
    (h : validateMetadataAgainstFilterSnapshot metadata preflight = .ok ()) :
    ∀ field ∈ schema.fields, ∀ value, pathValue metadata field.sourcePath = some value →
      validFilterValue field.fieldType value = true := by
  rw [validateMetadataAgainstFilterSnapshot] at h
  split at h
  · cases h
  · rw [hsnapshot, snapshotFields?_snapshot] at h
    exact forM_checkField.mp h

theorem accepted_of_valid {preflight : FilterPreflight P}
    (hsnapshot : preflight.filterSchemaSnapshot = schema.snapshot)
    (hrevision : preflight.appliedFilterSchemaRevision = preflight.currentFilterSchemaRevision)
    (hvalid : ∀ field ∈ schema.fields, ∀ value, pathValue metadata field.sourcePath = some value →
      validFilterValue field.fieldType value = true) :
    validateMetadataAgainstFilterSnapshot metadata preflight = .ok () := by
  rw [validateMetadataAgainstFilterSnapshot, if_neg (not_not.mpr hrevision), hsnapshot,
    snapshotFields?_snapshot]
  exact forM_checkField.mpr hvalid

theorem approveField_sorted {approved : JsonMembers P.Float}
    (hvalid : ∀ value, pathValue metadata field.sourcePath = some value →
      validFilterValue field.fieldType value = true)
    (hnew : field.payloadPath.drop 9 ∉ approved.map (·.1)) :
    approveField metadata approved (.obj (Json.sortKeys field.members)) =
      some (approved ++ keptMembers metadata [field]) := by
  have hsource : textAt? (Json.sortKeys (field.members (F := P.Float))) "source_path" =
      some field.sourcePath := textAt?_sorted (by simp [StoredFilterSchemaField.members])
  have htype : textAt? (Json.sortKeys (field.members (F := P.Float))) "type" =
      some field.fieldType.text := textAt?_sorted (by simp [StoredFilterSchemaField.members])
  have hpath : textAt? (Json.sortKeys (field.members (F := P.Float))) "payload_path" =
      some field.payloadPath := textAt?_sorted (by simp [StoredFilterSchemaField.members])
  simp only [approveField, hsource, htype, hpath, Option.bind_eq_bind, Option.bind_some,
    (payloadPath_eq field).2, if_true, validStageValue_text]
  cases hvalue : pathValue metadata field.sourcePath with
  | none => simp [keptMembers, hvalue]
  | some value => simp [keptMembers, hvalue, hvalid value hvalue, Json.setKey_new hnew]

theorem mem_keptMembers {fields : List StoredFilterSchemaField} {key : Str} {value : Json P.Float} :
    (key, value) ∈ keptMembers metadata fields ↔ ∃ field ∈ fields,
      field.payloadPath = "metadata.".toList ++ key ∧
        pathValue metadata field.sourcePath = some value := by
  rw [keptMembers, List.mem_filterMap]
  apply exists_congr
  intro field
  apply and_congr_right
  intro _
  rw [Option.map_eq_some_iff]
  constructor
  · rintro ⟨found, hfound, hpair⟩
    cases hpair
    exact ⟨(payloadPath_eq field).1, hfound⟩
  · rintro ⟨hpath, hvalue⟩
    refine ⟨value, hvalue, ?_⟩
    rw [hpath]
    rfl

/-- The keys of different fields differ. -/
theorem nodup_keptMembers {fields : List StoredFilterSchemaField}
    (h : (fields.map (·.payloadPath)).Nodup) :
    ((keptMembers metadata fields).map (·.1)).Nodup := by
  have hkeys : (fields.map fun field => field.payloadPath.drop 9).Nodup := by
    rw [List.nodup_map_iff_inj_on (List.Nodup.of_map _ h)]
    intro a ha b hb heq
    apply List.inj_on_of_nodup_map h ha hb
    rw [(payloadPath_eq a).1, (payloadPath_eq b).1, heq]
  have hsublist : ((keptMembers metadata fields).map (·.1)).Sublist
      (fields.map fun field => field.payloadPath.drop 9) := by
    clear h hkeys
    induction fields with
    | nil => exact List.Sublist.slnil
    | cons field fields ih =>
        rw [keptMembers, List.filterMap_cons, List.map_cons]
        cases pathValue metadata field.sourcePath with
        | none => exact ih.cons _
        | some value => exact ih.cons_cons _
  exact hkeys.sublist hsublist

/-- **The loop of the embed stage** over fields that fit: what is there is kept. -/
theorem foldlM_approveField {fields : List StoredFilterSchemaField} :
    ∀ {done : List StoredFilterSchemaField}, ((done ++ fields).map (·.payloadPath)).Nodup →
    (∀ field ∈ fields, ∀ value, pathValue metadata field.sourcePath = some value →
      validFilterValue field.fieldType value = true) →
    (fields.map fun field => Json.obj (Json.sortKeys field.members)).foldlM (approveField metadata)
      (keptMembers metadata done) = some (keptMembers metadata (done ++ fields)) := by
  induction fields with
  | nil =>
      intro done _ _
      rw [List.append_nil]
      rfl
  | cons field fields ih =>
      intro done hnodup hvalid
      have hnew : field.payloadPath.drop 9 ∉ (keptMembers metadata done).map (·.1) := by
        intro hmem
        obtain ⟨m, hm, hkey⟩ := List.mem_map.mp hmem
        obtain ⟨other, hother, hpath, -⟩ := mem_keptMembers.mp hm
        rw [hkey, ← (payloadPath_eq field).1] at hpath
        rw [List.map_append, List.nodup_append] at hnodup
        exact hnodup.2.2 _ (List.mem_map_of_mem hother) _ (List.mem_map_of_mem List.mem_cons_self)
          hpath
      have hstep := approveField_sorted (hvalid field List.mem_cons_self) hnew
      have happend : keptMembers metadata done ++ keptMembers metadata [field] =
          keptMembers metadata (done ++ [field]) := by
        rw [keptMembers, keptMembers, keptMembers, List.filterMap_append]
      have hrest := @ih (done ++ [field]) (by rw [List.append_assoc]; exact hnodup)
        fun other hother => hvalid other (List.mem_cons_of_mem _ hother)
      rw [List.map_cons, List.foldlM_cons, hstep, Option.bind_eq_bind, Option.bind_some, happend,
        hrest, List.append_assoc]
      rfl

end Snapshot

/-! ## The approved values -/

/-- `float(n)` of an integer overflows long before its digits are too many to be written. -/
def FloatRange (P : Platform) : Prop :=
  ∀ n : ℤ, P.floats.isFinite (floatOfInt n) = true → (Json.dumpsInt n).isSome = true

theorem isSome_dumpsInt_of_lt {n : ℤ} (h : -(2 ^ 63) ≤ n ∧ n ≤ 2 ^ 63 - 1) :
    (Json.dumpsInt n).isSome = true := by
  have hlength : (Nat.toDigits 10 n.natAbs).length ≤ 19 := by
    rw [Nat.length_toDigits_le_iff (by decide) (by decide)]
    omega
  have hdigits : (Nat.toDigits 10 n.natAbs).length ≤ maxIntDigits :=
    le_trans hlength (by decide)
  rw [Json.dumpsInt, if_pos hdigits]
  rfl

section Values

variable {fieldType : FilterType} {value : Json P.Float}

/-- A value that fits a field is a scalar. -/
theorem scalar_of_valid (h : validFilterValue fieldType value = true) :
    value.sorted = value ∧ value.UniqueKeys := by
  cases value with
  | arr items => cases fieldType <;> cases h
  | obj members => cases fieldType <;> cases h
  | null | bool | int | float | str => exact ⟨rfl, trivial⟩

theorem isSome_dumps_of_valid (hrange : FloatRange P)
    (h : validFilterValue fieldType value = true) :
    (Json.dumps P.floats value).isSome = true := by
  cases value with
  | null => rfl
  | bool b => cases b <;> rfl
  | str s => rfl
  | arr items => cases fieldType <;> cases h
  | obj members => cases fieldType <;> cases h
  | int n =>
      rw [Json.dumps]
      cases fieldType with
      | integer => exact isSome_dumpsInt_of_lt (of_decide_eq_true h)
      | float => exact hrange n h
      | keyword | boolean | datetime => cases h
  | float f =>
      rw [Json.dumps]
      cases fieldType with
      | float =>
          have hfinite : P.floats.isFinite f = true := h
          rw [if_pos hfinite]
          rfl
      | keyword | integer | boolean | datetime => cases h

end Values

section Approved

variable {metadata : Mapping P} {schema : StoredFilterSchema}

theorem uniqueKeys_keptMembers (hvalid : ∀ field ∈ schema.fields, ∀ value,
    pathValue metadata field.sourcePath = some value →
      validFilterValue field.fieldType value = true) :
    (Json.obj (keptMembers metadata schema.fields)).UniqueKeys := by
  rw [Json.uniqueKeys_obj]
  refine ⟨nodup_keptMembers schema.unique.2.2.2, ?_⟩
  intro m hm
  obtain ⟨field, hfield, -, hvalue⟩ := mem_keptMembers.mp hm
  exact (scalar_of_valid (hvalid field hfield m.2 hvalue)).2

/-- **The approved metadata** are the values of the fields that are there, sorted by key. -/
theorem approvedFilterMetadata_snapshot (hrange : FloatRange P)
    (hvalid : ∀ field ∈ schema.fields, ∀ value, pathValue metadata field.sourcePath = some value →
      validFilterValue field.fieldType value = true) :
    ∃ approved : Mapping P, approvedFilterMetadata schema.snapshot metadata = some approved.json ∧
      approved.members.Perm (keptMembers metadata schema.fields) := by
  have hunique := uniqueKeys_keptMembers hvalid
  have hloop : (schema.fields.map fun field => Json.obj (Json.sortKeys field.members)).foldlM
      (approveField metadata) [] = some (keptMembers metadata schema.fields) :=
    @foldlM_approveField P metadata schema.fields [] schema.unique.2.2.2 hvalid
  have hdumps : (Json.dumps P.floats (.obj (keptMembers metadata schema.fields))).isSome = true := by
    rw [Json.isSome_dumps_obj]
    intro m hm
    obtain ⟨field, hfield, -, hvalue⟩ := mem_keptMembers.mp hm
    exact isSome_dumps_of_valid hrange (hvalid field hfield m.2 hvalue)
  have hscalars : (keptMembers metadata schema.fields).map (fun m => (m.1, m.2.sorted)) =
      keptMembers metadata schema.fields := by
    have hid : ∀ m ∈ keptMembers metadata schema.fields, (m.1, m.2.sorted) = id m := by
      intro m hm
      obtain ⟨field, hfield, -, hvalue⟩ := mem_keptMembers.mp hm
      rw [(scalar_of_valid (hvalid field hfield m.2 hvalue)).1]
      rfl
    rw [List.map_congr_left hid, List.map_id]
  refine ⟨(Mapping.mk _ hunique).sorted, ?_, ?_⟩
  · rw [approvedFilterMetadata, snapshotFields?_snapshot, Option.bind_eq_bind, Option.bind_some, hloop,
      Option.bind_eq_bind, Option.bind_some, jsonCopy_eq hunique hdumps, Mapping.json_sorted]
    rfl
  · rw [Mapping.sorted]
    dsimp only
    rw [hscalars]
    exact Json.sortKeys_perm _

/-! ## Payloads and searches -/

/-- What a payload takes of the values that fit a field: integers of 64 bits, and texts that are not
longer than a keyword may be. -/
def FitsPayload : FilterType → Json P.Float → Prop
  | .float, .int n => -(2 ^ 63) ≤ n ∧ n ≤ 2 ^ 63 - 1
  | .datetime, .str s => s.length ≤ 4096
  | _, _ => True

end Approved

section Datetimes

/-- Digits that are read as a number have no NUL among them. -/
theorem nul_not_mem_of_number? {digits : Str} {n : ℕ} (h : number? digits = some n) :
    '\x00' ∉ digits := by
  rw [number?] at h
  split at h
  · rename_i hall
    intro hmem
    exact absurd (List.all_eq_true.mp hall _ hmem) (by decide)
  · cases h

theorem nul_not_mem_zone {zone : Str} (h : (zoneOffset? zone).isSome = true) : '\x00' ∉ zone := by
  rw [zoneOffset?] at h
  split at h
  · rename_i hz
    rw [hz]
    decide
  split at h
  swap
  · cases h
  rename_i hform
  obtain ⟨offset, hoffset⟩ := Option.isSome_iff_exists.mp h
  simp only [Option.bind_eq_bind, Option.bind_eq_some_iff] at hoffset
  obtain ⟨hours, hhours, minutes, hminutes, -⟩ := hoffset
  obtain ⟨hlength, hsign, hcolon⟩ := hform
  intro hmem
  obtain ⟨i, hi⟩ := List.mem_iff_getElem?.mp hmem
  have hlt : i < zone.length := (List.getElem?_eq_some_iff.mp hi).1
  rw [hlength] at hlt
  interval_cases i
  · rcases hsign with hsign | hsign
    · rw [hsign] at hi
      cases hi
    · rw [hsign] at hi
      cases hi
  · exact nul_not_mem_of_number? hhours (mem_slice.mpr ⟨_, by decide, by decide, hi⟩)
  · exact nul_not_mem_of_number? hhours (mem_slice.mpr ⟨_, by decide, by decide, hi⟩)
  · rw [hcolon] at hi
    cases hi
  · exact nul_not_mem_of_number? hminutes (mem_slice.mpr ⟨_, by decide, by decide, hi⟩)
  · exact nul_not_mem_of_number? hminutes (mem_slice.mpr ⟨_, by decide, by decide, hi⟩)

/-- A time has no NUL in it. -/
theorem nul_not_mem_datetime {s : Str} (h : isRfc3339Datetime s = true) : '\x00' ∉ s := by
  simp only [isRfc3339Datetime, Bool.and_eq_true, Bool.or_eq_true, decide_eq_true_eq,
    Option.bind_eq_bind, Option.bind_eq_some_iff] at h
  generalize s.length - (if s.getLast? = some 'Z' then 1 else 6) = cut at h
  obtain ⟨⟨⟨hmarks, hfraction⟩, hzone⟩, year, hyear, month, hmonth, day, hday, hour, hhour, minute,
    hminute, second, hsecond, -⟩ := h
  obtain ⟨hdash, hdash', ht, hcolon, hcolon', -⟩ := hmarks
  rw [← List.take_append_drop cut s, List.mem_append]
  rintro (hmem | hmem)
  swap
  · exact nul_not_mem_zone hzone hmem
  obtain ⟨i, hi⟩ := List.mem_iff_getElem?.mp hmem
  by_cases hlt : i < 19
  · interval_cases i
    · exact nul_not_mem_of_number? hyear (mem_slice.mpr ⟨_, by decide, by decide, hi⟩)
    · exact nul_not_mem_of_number? hyear (mem_slice.mpr ⟨_, by decide, by decide, hi⟩)
    · exact nul_not_mem_of_number? hyear (mem_slice.mpr ⟨_, by decide, by decide, hi⟩)
    · exact nul_not_mem_of_number? hyear (mem_slice.mpr ⟨_, by decide, by decide, hi⟩)
    · rw [hdash] at hi
      cases hi
    · exact nul_not_mem_of_number? hmonth (mem_slice.mpr ⟨_, by decide, by decide, hi⟩)
    · exact nul_not_mem_of_number? hmonth (mem_slice.mpr ⟨_, by decide, by decide, hi⟩)
    · rw [hdash'] at hi
      cases hi
    · exact nul_not_mem_of_number? hday (mem_slice.mpr ⟨_, by decide, by decide, hi⟩)
    · exact nul_not_mem_of_number? hday (mem_slice.mpr ⟨_, by decide, by decide, hi⟩)
    · rw [ht] at hi
      cases hi
    · exact nul_not_mem_of_number? hhour (mem_slice.mpr ⟨_, by decide, by decide, hi⟩)
    · exact nul_not_mem_of_number? hhour (mem_slice.mpr ⟨_, by decide, by decide, hi⟩)
    · rw [hcolon] at hi
      cases hi
    · exact nul_not_mem_of_number? hminute (mem_slice.mpr ⟨_, by decide, by decide, hi⟩)
    · exact nul_not_mem_of_number? hminute (mem_slice.mpr ⟨_, by decide, by decide, hi⟩)
    · rw [hcolon'] at hi
      cases hi
    · exact nul_not_mem_of_number? hsecond (mem_slice.mpr ⟨_, by decide, by decide, hi⟩)
    · exact nul_not_mem_of_number? hsecond (mem_slice.mpr ⟨_, by decide, by decide, hi⟩)
  · -- the fraction of the seconds
    have hmem' : ((s.take cut).drop 19)[i - 19]? = some '\x00' := by
      have hindex : 19 + (i - 19) = i := by omega
      rw [List.getElem?_drop, hindex]
      exact hi
    rcases hfraction with hempty | ⟨⟨hpoint, -⟩, hdigits⟩
    · rw [hempty] at hmem'
      cases hmem'
    · by_cases hfirst : i - 19 = 0
      · rw [hfirst, hpoint] at hmem'
        cases hmem'
      · have hdigit : '\x00' ∈ ((s.take cut).drop 19).drop 1 := by
          have hindex : 1 + (i - 19 - 1) = i - 19 := by omega
          apply List.mem_of_getElem? (i := i - 19 - 1)
          rw [List.getElem?_drop, hindex]
          exact hmem'
        exact absurd (List.all_eq_true.mp hdigits _ hdigit) (by decide)

end Datetimes

/-! ## Payloads -/

theorem safeMetadataValue_of_valid {fieldType : FilterType} {value : Json P.Float}
    (hvalid : validFilterValue fieldType value = true) (hfits : FitsPayload fieldType value) :
    safeMetadataValue value = true := by
  cases fieldType with
  | keyword =>
      cases value with
      | str s => exact hvalid
      | null | bool | int | float | arr | obj => cases hvalid
  | integer =>
      cases value with
      | int n => exact hvalid
      | null | bool | str | float | arr | obj => cases hvalid
  | float =>
      cases value with
      | int n => exact decide_eq_true hfits
      | float f => exact hvalid
      | null | bool | str | arr | obj => cases hvalid
  | boolean =>
      cases value with
      | bool b => rfl
      | null | int | str | float | arr | obj => cases hvalid
  | datetime =>
      cases value with
      | str s =>
          have hlength : s.length ≤ 4096 := hfits
          have hnul : s.contains '\x00' = false := by
            simpa using nul_not_mem_datetime hvalid
          rw [safeMetadataValue, decide_eq_true hlength, hnul]
          rfl
      | null | bool | int | float | arr | obj => cases hvalid

/-- The key of a field in a payload. -/
theorem isMetadataKey_payloadPath (field : StoredFilterSchemaField) :
    isMetadataKey (field.payloadPath.drop 9) = true := by
  have hpath := isPayloadPath_payloadPath field
  simp only [isPayloadPath, Bool.and_eq_true, decide_eq_true_eq] at hpath
  obtain ⟨⟨htake, hlength⟩, hdigits⟩ := hpath
  have htake' : (field.payloadPath.drop 9).take 2 = "f_".toList := by
    have hcut := @List.drop_take _ 9 11 field.payloadPath
    rw [htake] at hcut
    exact hcut.symm
  have hlength' : (field.payloadPath.drop 9).length = 34 := by
    rw [List.length_drop, hlength]
  rw [isMetadataKey, htake', hlength', List.drop_drop]
  simpa using hdigits

/-- A chunk that can be written to a manifest. -/
def Chunk.Writable (chunk : Chunk P) : Prop := (Json.dumps P.floats chunk.asRecord).isSome = true

theorem mapM_titleOf? {titlePath : List Str}
    (h : ∀ title ∈ titlePath, title ≠ [] ∧ '\x00' ∉ title) :
    (titlePath.map (Json.str (F := P.Float))).mapM titleOf? = some titlePath := by
  induction titlePath with
  | nil => rfl
  | cons title titlePath ih =>
      obtain ⟨htitle, hrest⟩ := List.forall_mem_cons.mp h
      have hfirst : titleOf? (Json.str (F := P.Float) title) = some title := by
        rw [titleOf?, if_neg]
        simpa using htitle
      rw [List.map_cons, List.mapM_cons, hfirst, ih hrest]
      rfl

section Payload

variable {knowledgeBaseId documentId versionId : ℕ} {chunk : Chunk P} {metadata : Mapping P}

theorem arrField?_qdrantPointPayload (key : String) (items : List (Json P.Float))
    (h : (key.toList, .arr items) ∈
      (qdrantPointPayload knowledgeBaseId documentId versionId chunk metadata).members) :
    arrField? (qdrantPointPayload knowledgeBaseId documentId versionId chunk metadata) key =
      some items := by
  rw [arrField?, lookup_qdrantPointPayload h]

theorem objField?_qdrantPointPayload (key : String) (members : JsonMembers P.Float)
    (h : (key.toList, .obj members) ∈
      (qdrantPointPayload knowledgeBaseId documentId versionId chunk metadata).members) :
    objField? (qdrantPointPayload knowledgeBaseId documentId versionId chunk metadata) key =
      some members := by
  rw [objField?, lookup_qdrantPointPayload h]

/-- A payload can be written when the chunk and the metadata can. -/
theorem isSome_dumps_payload (hchunk : chunk.Writable)
    (hdumps : (Json.dumps P.floats metadata.json).isSome = true) :
    (Json.dumps P.floats (qdrantPointPayload knowledgeBaseId documentId versionId chunk
      metadata).json).isSome = true := by
  rw [Chunk.Writable, Chunk.asRecord, Json.isSome_dumps_obj] at hchunk
  simp only [List.forall_mem_cons] at hchunk
  obtain ⟨hindex, htext, hhash, hstart, hend, htitles, -⟩ := hchunk
  rw [Mapping.json, Json.isSome_dumps_obj, qdrantPointPayload]
  simp only [List.forall_mem_cons]
  exact ⟨rfl, rfl, rfl, hindex, hhash, htext, htitles, hstart, hend, hdumps,
    fun m hm => absurd hm List.not_mem_nil⟩

/-- **A payload is built** with metadata that have the keys and the values of a payload. -/
theorem validatedPointPayload_isSome {pointId : PointIds} (hchunk : chunk.Writable)
    (hdumps : (Json.dumps P.floats metadata.json).isSome = true)
    (hmetadata : ∀ m ∈ metadata.members, isMetadataKey m.1 = true ∧ safeMetadataValue m.2 = true) :
    ∃ payload, validatedPointPayload pointId (pointId versionId chunk.chunkIndex chunk.chunkHash)
        (qdrantPointPayload knowledgeBaseId documentId versionId chunk metadata) = some payload ∧
      payload.metadata = metadata.members := by
  have hspan := chunk.span_valid
  simp only [spanValid, Bool.and_eq_true, decide_eq_true_eq, List.all_eq_true] at hspan
  obtain ⟨⟨⟨⟨⟨htext, hnul⟩, -⟩, -⟩, -⟩, htitles⟩ := hspan
  have hlength := chunk.length_text
  have horder := chunk.start_lt_end
  have hspan' : chunk.text ≠ [] ∧ chunk.endOffset = chunk.startOffset + chunk.text.length :=
    ⟨htext, by omega⟩
  have harr : arrField? (qdrantPointPayload knowledgeBaseId documentId versionId chunk metadata)
      "title_path" = some (chunk.titlePath.map .str) :=
    arrField?_qdrantPointPayload _ _ (by simp [qdrantPointPayload])
  have hobj : objField? (qdrantPointPayload knowledgeBaseId documentId versionId chunk metadata)
      "metadata" = some metadata.members :=
    objField?_qdrantPointPayload _ _ (by simp [qdrantPointPayload, Mapping.json])
  have hkeys : (qdrantPointPayload knowledgeBaseId documentId versionId chunk metadata).members.map
      (·.1) = pointPayloadKeys := rfl
  have hall : (pointPayloadKeys.all (· ∈ pointPayloadKeys)) = true := by decide +kernel
  have hwritten := @isSome_dumps_payload P knowledgeBaseId documentId versionId chunk metadata hchunk
    hdumps
  have hmembers : (metadata.members.all fun m => isMetadataKey m.1 && safeMetadataValue m.2) = true := by
    simpa [List.all_eq_true] using hmetadata
  have hno : chunk.text.contains '\x00' = false := by simpa using hnul
  rw [validatedPointPayload,
    uuidField?_qdrantPointPayload _ knowledgeBaseId (by simp [qdrantPointPayload]),
    uuidField?_qdrantPointPayload _ documentId (by simp [qdrantPointPayload]),
    uuidField?_qdrantPointPayload _ versionId (by simp [qdrantPointPayload]),
    natField?_qdrantPointPayload _ chunk.chunkIndex (by simp [qdrantPointPayload]),
    strField?_qdrantPointPayload _ chunk.chunkHash (by simp [qdrantPointPayload]),
    strField?_qdrantPointPayload _ chunk.text (by simp [qdrantPointPayload]),
    natField?_qdrantPointPayload _ chunk.startOffset (by simp [qdrantPointPayload]),
    natField?_qdrantPointPayload _ chunk.endOffset (by simp [qdrantPointPayload]), harr, hobj]
  simp only [Option.bind_eq_bind, Option.bind_some, mapM_titleOf? htitles, hkeys, hall,
    chunk.hash_shape, decide_true, hno, Bool.not_false, hmembers, hwritten, Bool.and_self, if_true,
    dif_pos hspan']
  exact ⟨_, rfl, rfl⟩

end Payload

/-! ## Searches -/

section Search

variable {schema : StoredFilterSchema} {field : StoredFilterSchemaField} {value : Json P.Float}
  {filters : SearchFilters P}

theorem find?_filterField : ∀ {fields : List StoredFilterSchemaField},
    (fields.map (·.name)).Nodup → field ∈ fields →
    (fields.map fun f => f.raw.filterField).find? (·.name = field.name) =
      some field.raw.filterField := by
  intro fields hnodup hmem
  induction fields with
  | nil => cases hmem
  | cons first fields ih =>
      rw [List.map_cons, List.nodup_cons] at hnodup
      rw [List.map_cons]
      rcases List.mem_cons.mp hmem with rfl | hmem
      · exact List.find?_cons_of_pos (by simp [RawField.filterField, StoredFilterSchemaField.raw])
      · have hne : first.name ≠ field.name := by
          intro heq
          exact hnodup.1 (heq ▸ List.mem_map_of_mem hmem)
        rw [List.find?_cons_of_neg]
        · exact ih hnodup.2 hmem
        · exact fun h => hne (of_decide_eq_true h)

/-- What a search for one value of a field is compiled to. -/
theorem compileCondition_plain (value : Json P.Float) (hfield : field ∈ schema.fields) :
    compileCondition (schema.fields.map fun f => f.raw.filterField) field.name (.plain value) =
      if .eq ∈ field.operators ∧ validFilterValue field.fieldType value = true then
        some ⟨field.payloadPath, field.fieldType, .eq, .one value⟩ else none := by
  have htypes : FilterOperator.eq ∈ field.fieldType.operators := by
    cases field.fieldType <;> decide
  have htake : field.payloadPath.take 9 = "metadata.".toList := by
    have hcut := List.take_take (i := 9) (j := 11) (l := field.payloadPath)
    rw [(payloadPath_eq field).2] at hcut
    exact hcut.symm
  have hoperand : validOperand field.fieldType .eq (.one value) =
      validFilterValue field.fieldType value := rfl
  rw [compileCondition, find?_filterField schema.unique.1 hfield]
  change (if .eq ∈ field.operators ∧ validOperand field.fieldType .eq (.one value) = true then
    QdrantFilterCondition.make field.payloadPath field.fieldType .eq (.one value) else none) = _
  rw [hoperand]
  split
  · rename_i h
    rw [QdrantFilterCondition.make, hoperand, h.2, htake, isMetadataKey_payloadPath]
    simp [FilterOperand.count, htypes]
  · rfl

/-- **A search for a value** of a field that can be compared for equality is compiled. -/
theorem compileSearchFilter_plain (hfield : field ∈ schema.fields) (heq : .eq ∈ field.operators)
    (hvalid : validFilterValue field.fieldType value = true)
    (hfilters : filters.metadata = [(field.name, .plain value)]) :
    ∃ compiled, compileSearchFilter (some filters) (schema.fields.map fun f => f.raw.filterField) =
      .ok compiled := by
  have hcondition := compileCondition_plain value hfield
  rw [if_pos ⟨heq, hvalid⟩] at hcondition
  have hconditions : (filters.metadata.mapM fun m =>
      compileCondition (schema.fields.map fun f => f.raw.filterField) m.1 m.2) =
      some [⟨field.payloadPath, field.fieldType, .eq, .one value⟩] := by
    rw [hfilters, List.mapM_cons, hcondition]
    rfl
  simp only [compileSearchFilter, hconditions]
  rw [QdrantSearchFilter.make, dif_pos]
  · exact ⟨_, rfl⟩
  · exact ⟨filters.documentIds_le, filters.documentIds_nodup, by simp, List.nodup_singleton _⟩

/-- A search for a value of a field that cannot be is refused. -/
theorem compileSearchFilter_refused (hfield : field ∈ schema.fields) (heq : .eq ∉ field.operators)
    (hfilters : filters.metadata = [(field.name, .plain value)]) :
    compileSearchFilter (some filters) (schema.fields.map fun f => f.raw.filterField) =
      .error invalidSearchFilter := by
  have hcondition := compileCondition_plain value hfield
  rw [if_neg fun h => heq h.1] at hcondition
  have hconditions : (filters.metadata.mapM fun m =>
      compileCondition (schema.fields.map fun f => f.raw.filterField) m.1 m.2) = none := by
    rw [hfilters, List.mapM_cons, hcondition]
    rfl
  simp only [compileSearchFilter, hconditions]

/-- The filter of a search for one value. -/
def filterFor (name : Str) (value : Json P.Float) (h : safeMetadataValue value = true) :
    SearchFilters P where
  documentIds := []
  metadata := [(name, .plain value)]
  documentIds_le := by simp
  documentIds_nodup := List.nodup_nil
  metadata_le := by simp
  names_nodup := List.nodup_singleton _
  accepted := by simpa [FilterExpression.accepted, filterScalar] using h

end Search

/-! ## Metadata that were accepted -/

/-- **Accepted metadata.**  Metadata that were accepted at upload, against the snapshot of an accepted
filter schema, are approved by the embed stage, which keeps the values of the fields that are there
and nothing else.  Where a payload takes these values, every payload is built, and a search for one
of them is compiled where its field can be compared for equality. -/
theorem accepted_metadata (hrange : FloatRange P) {command : FilterSchemaReplacement}
    {currentSchema schema snapshot : Json P.Float} {ids : ℕ → ℕ}
    (hschema : canonicalizeFilterSchema command currentSchema ids = .ok schema)
    (hsnapshot : buildFilterSnapshot schema = some snapshot) {metadata : Mapping P}
    {preflight : FilterPreflight P} (hpreflight : preflight.filterSchemaSnapshot = snapshot)
    (haccepted : validateMetadataAgainstFilterSnapshot metadata preflight = .ok ()) :
    ∃ (canonical : StoredFilterSchema) (approved : Mapping P), schema = canonical.json ∧
      approvedFilterMetadata snapshot metadata = some approved.json ∧
      (∀ key value, (key, value) ∈ approved.members ↔ ∃ field ∈ canonical.fields,
        field.payloadPath = "metadata.".toList ++ key ∧
          pathValue metadata field.sourcePath = some value) ∧
      ((∀ field ∈ canonical.fields, ∀ value, pathValue metadata field.sourcePath = some value →
          FitsPayload field.fieldType value) →
        (∀ (pointId : PointIds) (knowledgeBaseId documentId versionId : ℕ) (chunk : Chunk P),
          chunk.Writable → ∃ payload,
            validatedPointPayload pointId (pointId versionId chunk.chunkIndex chunk.chunkHash)
              (qdrantPointPayload knowledgeBaseId documentId versionId chunk approved) = some payload ∧
            payload.metadata = approved.members) ∧
        ∃ fields, parseFilterSnapshot snapshot = .ok fields ∧
          ∀ field ∈ canonical.fields, .eq ∈ field.operators → ∀ value,
            pathValue metadata field.sourcePath = some value →
            (∃ filters : SearchFilters P, filters.metadata = [(field.name, .plain value)]) ∧
            ∀ filters : SearchFilters P, filters.metadata = [(field.name, .plain value)] →
              ∃ compiled, compileSearchFilter (some filters) fields = .ok compiled) := by
  obtain ⟨-, canonical, -, -, rfl⟩ := canonicalizeFilterSchema_eq_ok hschema
  rw [canonical.buildFilterSnapshot_json, Option.some.injEq] at hsnapshot
  subst hsnapshot
  have hvalid := valid_of_accepted hpreflight haccepted
  obtain ⟨approved, happroved, hperm⟩ := approvedFilterMetadata_snapshot hrange hvalid
  refine ⟨canonical, approved, rfl, happroved, ?_, ?_⟩
  · intro key value
    rw [hperm.mem_iff, mem_keptMembers]
  intro hfits
  have hsafe : ∀ field ∈ canonical.fields, ∀ value, pathValue metadata field.sourcePath = some value →
      safeMetadataValue value = true := fun field hfield value hvalue =>
    safeMetadataValue_of_valid (hvalid field hfield value hvalue) (hfits field hfield value hvalue)
  constructor
  · intro pointId knowledgeBaseId documentId versionId chunk hchunk
    apply validatedPointPayload_isSome hchunk
    · rw [Mapping.json, Json.isSome_dumps_obj]
      intro m hm
      obtain ⟨field, hfield, -, hvalue⟩ := mem_keptMembers.mp (hperm.mem_iff.mp hm)
      exact isSome_dumps_of_valid hrange (hvalid field hfield m.2 hvalue)
    · intro m hm
      obtain ⟨field, hfield, hpath, hvalue⟩ := mem_keptMembers.mp (hperm.mem_iff.mp hm)
      have hkey : field.payloadPath.drop 9 = m.1 := by
        rw [hpath]
        rfl
      exact ⟨hkey ▸ isMetadataKey_payloadPath field, hsafe field hfield m.2 hvalue⟩
  · refine ⟨_, canonical.parseFilterSnapshot_snapshot, ?_⟩
    intro field hfield heq value hvalue
    refine ⟨⟨filterFor field.name value (hsafe field hfield value hvalue), rfl⟩, ?_⟩
    intro filters hfilters
    exact compileSearchFilter_plain hfield heq (hvalid field hfield value hvalue) hfilters

/-! ## A field that is not compared for equality -/

namespace FilterSample

/-- A field of texts under the key `k`. -/
def field (operators : List FilterOperator) (h : validOperators .keyword operators = true) :
    FilterSchemaField where
  name := ['k']
  sourcePath := ['k']
  fieldType := .keyword
  operators := operators
  name_valid := by decide
  sourcePath_valid := by decide
  operators_valid := h

/-- A schema of this field. -/
def command (operators : List FilterOperator) (h : validOperators .keyword operators = true) :
    FilterSchemaReplacement where
  fields := [field operators h]
  length_le := by simp
  names_nodup := List.nodup_singleton _
  sourcePaths_nodup := List.nodup_singleton _

/-- The schema without fields. -/
def noFields : Json Unit := .obj [("fields".toList, .arr [])]

/-- The identities that are drawn. -/
def identifier (n : ℕ) : ℕ := 4 * 2 ^ 76 + 2 * 2 ^ 62 + n

theorem pair_valid : ∀ n < 5,
    validIdentifierPair (fieldIdOf (identifier n)) (payloadPathOf (identifier n)) = true := by
  decide +kernel

variable (operators : List FilterOperator) (h : validOperators .keyword operators = true)

def storedField : StoredFilterSchemaField :=
  ⟨field operators h, fieldIdOf (identifier 0), payloadPathOf (identifier 0), pair_valid 0 (by decide)⟩

def schema : StoredFilterSchema where
  fields := [storedField operators h]
  length_le := by simp
  unique := ⟨List.nodup_singleton _, List.nodup_singleton _, List.nodup_singleton _,
    List.nodup_singleton _⟩

theorem canonicalize : canonicalizeFilterSchema (command operators h) noFields identifier =
    .ok (schema operators h).json := by
  have hvalidate : StoredFilterSchema.validate noFields = some ⟨[], by simp, by decide⟩ := rfl
  have hstored : newStoredFilterField (field operators h) (identifier 0) =
      some (storedField operators h) := by
    rw [newStoredFilterField, StoredFilterSchemaField.make, dif_pos (pair_valid 0 (by decide))]
    rfl
  have hfields : canonicalFields [] identifier (command operators h).fields 0 =
      .ok [storedField operators h] := by
    simp only [command, canonicalFields, List.find?_nil, hstored]
    rfl
  rw [canonicalizeFilterSchema, hvalidate]
  simp only [hfields]
  rfl

/-- Metadata with a text under the key. -/
def metadata : Mapping Platform.ascii where
  members := [(['k'], .str ['x'])]
  unique := by simp [Json.UniqueKeys, Json.UniqueKeysMembers]

def preflight : FilterPreflight Platform.ascii := ⟨(schema operators h).snapshot, 1, 1⟩

theorem pathValue_metadata : pathValue metadata ['k'] = some (.str ['x']) := by rfl

theorem accepted : validateMetadataAgainstFilterSnapshot metadata (preflight operators h) = .ok () := by
  have hvalid : ∀ field ∈ (schema operators h).fields, ∀ value,
      pathValue metadata field.sourcePath = some value →
        validFilterValue field.fieldType value = true := by
    intro field hfield value hvalue
    cases List.mem_singleton.mp hfield
    cases hvalue.symm.trans pathValue_metadata
    rfl
  exact accepted_of_valid rfl rfl hvalid

end FilterSample

/-- Metadata that are accepted and kept, of a field whose only operator is not equality: every search
for the value is refused. -/
theorem accepted_value_not_searchable : ∃ (command : FilterSchemaReplacement)
    (currentSchema schema snapshot : Json Platform.ascii.Float) (ids : ℕ → ℕ)
    (fields : List FilterField) (metadata approved : Mapping Platform.ascii)
    (preflight : FilterPreflight Platform.ascii) (field : FilterField),
    canonicalizeFilterSchema command currentSchema ids = .ok schema ∧
    buildFilterSnapshot schema = some snapshot ∧ preflight.filterSchemaSnapshot = snapshot ∧
    validateMetadataAgainstFilterSnapshot metadata preflight = .ok () ∧
    approvedFilterMetadata snapshot metadata = some approved.json ∧
    parseFilterSnapshot snapshot = .ok fields ∧ field ∈ fields ∧
    (field.payloadPath.drop 9, .str ['x']) ∈ approved.members ∧
    (∃ filters : SearchFilters Platform.ascii,
      filters.metadata = [(field.name, .plain (.str ['x']))]) ∧
    ∀ filters : SearchFilters Platform.ascii, filters.metadata = [(field.name, .plain (.str ['x']))] →
      compileSearchFilter (some filters) fields = .error invalidSearchFilter := by
  have hvalid : validOperators .keyword [.isIn] = true := by decide
  have hmem : FilterSample.storedField [.isIn] hvalid ∈ (FilterSample.schema [.isIn] hvalid).fields :=
    List.mem_singleton_self _
  have hrange : FloatRange Platform.ascii := fun _ h => by cases h
  have haccepted := FilterSample.accepted [.isIn] hvalid
  obtain ⟨approved, happroved, hperm⟩ := approvedFilterMetadata_snapshot hrange
    (valid_of_accepted rfl haccepted)
  have hkept := hperm.mem_iff.mpr (mem_keptMembers.mpr
    ⟨_, hmem, (payloadPath_eq _).1, FilterSample.pathValue_metadata⟩)
  refine ⟨FilterSample.command [.isIn] hvalid, FilterSample.noFields,
    (FilterSample.schema [.isIn] hvalid).json, (FilterSample.schema [.isIn] hvalid).snapshot,
    FilterSample.identifier, _, FilterSample.metadata, approved,
    FilterSample.preflight [.isIn] hvalid, (FilterSample.storedField [.isIn] hvalid).raw.filterField,
    FilterSample.canonicalize [.isIn] hvalid, StoredFilterSchema.buildFilterSnapshot_json _, rfl,
    haccepted, happroved, StoredFilterSchema.parseFilterSnapshot_snapshot _,
    List.mem_map_of_mem hmem, hkept, ⟨filterFor _ _ (by rfl), rfl⟩, ?_⟩
  intro filters hfilters
  have heq : FilterOperator.eq ∉ [FilterOperator.isIn] := by decide
  exact compileSearchFilter_refused hmem heq hfilters

/-! ## A field of every type -/

namespace TypedFields

/-- The name of a field of this type. -/
def letter : FilterType → Char
  | .keyword => 'k'
  | .integer => 'i'
  | .float => 'f'
  | .boolean => 'b'
  | .datetime => 'd'

def place : FilterType → ℕ
  | .keyword => 0
  | .integer => 1
  | .float => 2
  | .boolean => 3
  | .datetime => 4

/-- A field with all the operators of its type, in the order of their texts. -/
def field (fieldType : FilterType) : FilterSchemaField where
  name := [letter fieldType]
  sourcePath := "meta.".toList ++ [letter fieldType]
  fieldType := fieldType
  operators := fieldType.operators.insertionSort fun a b => a.text ≤ b.text
  name_valid := by cases fieldType <;> decide
  sourcePath_valid := by cases fieldType <;> decide
  operators_valid := by cases fieldType <;> decide

def fieldTypes : List FilterType := [.keyword, .integer, .float, .boolean, .datetime]

def command : FilterSchemaReplacement where
  fields := fieldTypes.map field
  length_le := by decide
  names_nodup := by decide
  sourcePaths_nodup := by decide

def storedField (fieldType : FilterType) : StoredFilterSchemaField where
  toFilterSchemaField := field fieldType
  fieldId := fieldIdOf (FilterSample.identifier (place fieldType))
  payloadPath := payloadPathOf (FilterSample.identifier (place fieldType))
  pair_valid := FilterSample.pair_valid _ (by cases fieldType <;> decide)

def schema : StoredFilterSchema where
  fields := fieldTypes.map storedField
  length_le := by decide
  unique := by decide +kernel

def noFields : Json (Option Bool) := .obj [("fields".toList, .arr [])]

theorem newStoredFilterField_field (fieldType : FilterType) :
    newStoredFilterField (field fieldType) (FilterSample.identifier (place fieldType)) =
      some (storedField fieldType) := by
  have hpair := FilterSample.pair_valid (place fieldType) (by cases fieldType <;> decide)
  rw [newStoredFilterField, StoredFilterSchemaField.make, dif_pos hpair]
  rfl

theorem canonicalize :
    canonicalizeFilterSchema command noFields FilterSample.identifier = .ok schema.json := by
  have hvalidate : StoredFilterSchema.validate noFields = some ⟨[], by simp, by decide⟩ := rfl
  have hfields : canonicalFields [] FilterSample.identifier command.fields 0 = .ok schema.fields := by
    have hkeyword := newStoredFilterField_field .keyword
    have hinteger := newStoredFilterField_field .integer
    have hfloat := newStoredFilterField_field .float
    have hboolean := newStoredFilterField_field .boolean
    have hdatetime := newStoredFilterField_field .datetime
    simp only [place] at hkeyword hinteger hfloat hboolean hdatetime
    simp only [command, fieldTypes, List.map_cons, List.map_nil, canonicalFields, List.find?_nil,
      Nat.zero_add, Nat.reduceAdd, hkeyword, hinteger, hfloat, hboolean, hdatetime]
    rfl
  have hmake : StoredFilterSchema.make schema.fields = some schema := by
    rw [StoredFilterSchema.make, dif_pos ⟨schema.length_le, schema.unique⟩]
  rw [canonicalizeFilterSchema, hvalidate]
  simp only [hfields, Except.bind, bind, hmake]
  rfl

/-- What a document says under the key of a field; there is no boolean. -/
def valueOf : FilterType → Option (Json (Option Bool))
  | .keyword => some (.str ['x'])
  | .integer => some (.int (-7))
  | .float => some (.float (some true))
  | .boolean => none
  | .datetime => some (.str "2026-01-31T12:00:00.5+01:00".toList)

/-- The values under one key, with another key that no field reads. -/
def metadata : Mapping Platform.small where
  members := [("meta".toList, .obj [
    (['k'], .str ['x']), (['i'], .int (-7)), (['f'], .float (some true)),
    (['d'], .str "2026-01-31T12:00:00.5+01:00".toList)]), ("note".toList, .null)]
  unique := by simp [Json.UniqueKeys, Json.UniqueKeysMembers]

theorem pathValue_metadata (fieldType : FilterType) :
    pathValue metadata (field fieldType).sourcePath = valueOf fieldType := by
  cases fieldType <;> rfl

theorem valid_valueOf {fieldType : FilterType} {value : Json (Option Bool)}
    (h : valueOf fieldType = some value) :
    validFilterValue (P := Platform.small) fieldType value = true ∧
      FitsPayload (P := Platform.small) fieldType value := by
  cases fieldType with
  | boolean => cases h
  | keyword | integer | float =>
      cases h
      exact ⟨by decide, trivial⟩
  | datetime =>
      cases h
      have hlength : "2026-01-31T12:00:00.5+01:00".toList.length ≤ 4096 := by decide
      exact ⟨by decide, hlength⟩

def preflight : FilterPreflight Platform.small := ⟨schema.snapshot, 1, 1⟩

theorem accepted : validateMetadataAgainstFilterSnapshot metadata preflight = .ok () := by
  have hvalid : ∀ stored ∈ schema.fields, ∀ value, pathValue metadata stored.sourcePath = some value →
      validFilterValue stored.fieldType value = true := by
    intro stored hstored value hvalue
    obtain ⟨fieldType, -, rfl⟩ := List.mem_map.mp hstored
    exact (valid_valueOf ((pathValue_metadata fieldType).symm.trans hvalue)).1
  exact accepted_of_valid rfl rfl hvalid

/-- The only integers with a float are 0 and 1. -/
theorem floatRange : FloatRange Platform.small := by
  intro n h
  have hshort : (Json.decimal n).length ≤ 3 := by
    have hliteral : Platform.small.floats.ofLiteral (Json.decimal n) =
        smallFloats.ofLiteral (Json.decimal n) := rfl
    rw [floatOfInt, hliteral, smallFloats] at h
    dsimp only at h
    split at h
    · rename_i hone
      rcases hone with hone | hone <;> rw [hone] <;> decide
    · split at h
      · rename_i hzero
        rcases hzero with hzero | hzero <;> rw [hzero] <;> decide
      · cases h
  have hdigits : (Nat.toDigits 10 n.natAbs).length ≤ (Json.decimal n).length := by
    cases n with
    | ofNat n => exact le_refl _
    | negSucc n => exact Nat.le_succ _
  have hfew : (Nat.toDigits 10 n.natAbs).length ≤ maxIntDigits :=
    hdigits.trans (hshort.trans (by decide))
  rw [Json.dumpsInt, if_pos hfew]
  rfl

end TypedFields

open TypedFields in
/-- Values of every type but one: what is kept of them, the payloads, and the search for each. -/
theorem accepted_metadata_everyType : ∃ approved : Mapping Platform.small,
    approvedFilterMetadata schema.snapshot metadata = some approved.json ∧
    (∀ fieldType value, valueOf fieldType = some value →
      ((storedField fieldType).payloadPath.drop 9, value) ∈ approved.members) ∧
    (∀ (pointId : PointIds) (knowledgeBaseId documentId versionId : ℕ) (chunk : Chunk Platform.small),
      chunk.Writable → ∃ payload,
        validatedPointPayload pointId (pointId versionId chunk.chunkIndex chunk.chunkHash)
          (qdrantPointPayload knowledgeBaseId documentId versionId chunk approved) = some payload ∧
        payload.metadata = approved.members) ∧
    ∃ fields, parseFilterSnapshot (P := Platform.small) schema.snapshot = .ok fields ∧
      ∀ fieldType value, valueOf fieldType = some value → ∃ (filters : SearchFilters Platform.small)
        (compiled : QdrantSearchFilter Platform.small), filters.metadata = [([letter fieldType], .plain value)] ∧
          compileSearchFilter (some filters) fields = .ok compiled := by
  obtain ⟨canonical, approved, hcanonical, happroved, hkept, hfits⟩ := accepted_metadata floatRange
    canonicalize (StoredFilterSchema.buildFilterSnapshot_json _)
    (rfl : TypedFields.preflight.filterSchemaSnapshot = schema.snapshot) accepted
  obtain rfl := StoredFilterSchema.json_injective hcanonical
  have hmem (fieldType : FilterType) : storedField fieldType ∈ schema.fields :=
    List.mem_map_of_mem (by cases fieldType <;> decide)
  obtain ⟨hpayload, fields, hparse, hsearch⟩ := hfits (by
    intro stored hstored value hvalue
    obtain ⟨fieldType, -, rfl⟩ := List.mem_map.mp hstored
    exact (valid_valueOf ((pathValue_metadata fieldType).symm.trans hvalue)).2)
  refine ⟨approved, happroved, ?_, hpayload, fields, hparse, ?_⟩
  · intro fieldType value hvalue
    exact (hkept _ _).mpr ⟨_, hmem fieldType, (payloadPath_eq _).1,
      (pathValue_metadata fieldType).trans hvalue⟩
  · intro fieldType value hvalue
    have heq : FilterOperator.eq ∈ (storedField fieldType).operators := by
      cases fieldType <;> decide
    obtain ⟨⟨filters, hfilters⟩, hcompiles⟩ := hsearch _ (hmem fieldType) heq value
      ((pathValue_metadata fieldType).trans hvalue)
    obtain ⟨compiled, hcompiled⟩ := hcompiles filters hfilters
    exact ⟨filters, compiled, hfilters, hcompiled⟩

end VeloxRag.Ingestion
