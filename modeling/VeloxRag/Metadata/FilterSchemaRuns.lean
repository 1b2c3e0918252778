import VeloxRag.Ingestion.FilterMetadata
import VeloxRag.Lib.Fallible
import VeloxRag.Lib.Runs

/-!
# Filter schemas over their updates

A knowledge base starts without filter fields, and every update replaces the schema that the last one
stored.  The identity of a field is drawn when its name comes in; it is the identity of no other field,
and it stays with the name for as long as the name stays.

## Main definitions

* `FilterSchemaUpdate`, `updateFilterSchema` — one update, and what it stores.
* `CanonicalField` — what becomes of one field of a request.
* `KeepsFields` — the fields that two schemas share by name have one identity in both.
* `updateFilterSchema_json` — what one update does to a stored schema.
* `runs_updateFilterSchema_eq` — what a run of updates does to it.
* `filter_schema_updates_stable` — identities, canonical form and readers, over every run.
-/

namespace VeloxRag.Metadata

open Lib Ingestion Indexing Api Retrieval

/-! ## One field of a request -/

/-- Two schemas' entries for one field: they agree in all but the operators. -/
structure SameField (field other : StoredFilterSchemaField) : Prop where
  name : other.name = field.name
  sourcePath : other.sourcePath = field.sourcePath
  fieldType : other.fieldType = field.fieldType
  fieldId : other.fieldId = field.fieldId
  payloadPath : other.payloadPath = field.payloadPath

theorem SameField.trans {a b c : StoredFilterSchemaField} (h : SameField a b) (h' : SameField b c) :
    SameField a c where
  name := h'.name.trans h.name
  sourcePath := h'.sourcePath.trans h.sourcePath
  fieldType := h'.fieldType.trans h.fieldType
  fieldId := h'.fieldId.trans h.fieldId
  payloadPath := h'.payloadPath.trans h.payloadPath

/-- What becomes of a field of the request: the field of its name keeps its identity and takes the new
operators, and a field with a new name is given an identity that was drawn. -/
inductive CanonicalField (current : List StoredFilterSchemaField) (ids : ℕ → ℕ) :
    FilterSchemaField → StoredFilterSchemaField → Prop
  | kept {field : FilterSchemaField} {retained : StoredFilterSchemaField}
      (hmem : retained ∈ current) (hname : retained.name = field.name)
      (htype : retained.fieldType = field.fieldType)
      (hsource : retained.sourcePath = field.sourcePath) :
      CanonicalField current ids field (retained.withOperators field htype)
  | drawn {field : FilterSchemaField} {stored : StoredFilterSchemaField}
      (hnew : ∀ other ∈ current, other.name ≠ field.name) (n : ℕ)
      (hstored : newStoredFilterField field (ids n) = some stored) :
      CanonicalField current ids field stored

section Field

variable {current : List StoredFilterSchemaField} {ids : ℕ → ℕ} {field : FilterSchemaField}
  {stored : StoredFilterSchemaField} {identifier : ℕ}

theorem newStoredFilterField_eq_some (h : newStoredFilterField field identifier = some stored) :
    stored.toFilterSchemaField = field ∧ stored.fieldId = fieldIdOf identifier := by
  rw [newStoredFilterField, StoredFilterSchemaField.make] at h
  split at h
  · cases h
    exact ⟨rfl, rfl⟩
  · cases h

/-- A field comes back as it was asked for. -/
theorem CanonicalField.toFilterSchemaField_eq (h : CanonicalField current ids field stored) :
    stored.toFilterSchemaField = field := by
  cases h with
  | kept hmem hname htype hsource =>
      cases field
      simp only at hname htype hsource
      subst hname htype hsource
      rfl
  | drawn hnew n hstored => exact (newStoredFilterField_eq_some hstored).1

/-- **Where a field comes from**: it is the field that had the name before, or its name is new and its
identity was drawn. -/
theorem CanonicalField.origin (h : CanonicalField current ids field stored) :
    (∃ retained ∈ current, SameField retained stored) ∨
      (∀ other ∈ current, other.name ≠ stored.name) ∧ ∃ n, stored.fieldId = fieldIdOf (ids n) := by
  have hfield := h.toFilterSchemaField_eq
  cases h with
  | kept hmem => exact .inl ⟨_, hmem, rfl, rfl, rfl, rfl, rfl⟩
  | drawn hnew n hstored =>
      refine .inr ⟨?_, n, (newStoredFilterField_eq_some hstored).2⟩
      rw [hfield]
      exact hnew

end Field

/-! ## The fields of a request -/

section Fields

variable {current : List StoredFilterSchemaField} {ids : ℕ → ℕ}

/-- **What the loop makes of a request**, field by field. -/
theorem forall₂_of_canonicalFields : ∀ {fields : List FilterSchemaField} {used : ℕ}
    {out : List StoredFilterSchemaField}, canonicalFields current ids fields used = .ok out →
    List.Forall₂ (CanonicalField current ids) fields out := by
  intro fields
  induction fields with
  | nil =>
      intro used out h
      cases h
      exact .nil
  | cons field fields ih =>
      intro used out h
      rw [canonicalFields] at h
      split at h
      · rename_i retained hretained
        split at h
        · rename_i hsame
          cases hrest : canonicalFields current ids fields used with
          | error e =>
              rw [hrest] at h
              cases h
          | ok rest =>
              rw [hrest] at h
              cases h
              have hname : retained.name = field.name := by
                simpa using List.find?_some hretained
              exact .cons (.kept (List.mem_of_find?_eq_some hretained) hname hsame.1 hsame.2)
                (ih hrest)
        · cases h
      · rename_i hnone
        split at h
        · rename_i stored hstored
          cases hrest : canonicalFields current ids fields (used + 1) with
          | error e =>
              rw [hrest] at h
              cases h
          | ok rest =>
              rw [hrest] at h
              cases h
              have hnew : ∀ other ∈ current, other.name ≠ field.name := by
                simpa using hnone
              exact .cons (.drawn hnew used hstored) (ih hrest)
        · cases h

/-- Fields that are there as they are asked for stay as they are: nothing is drawn for them. -/
theorem canonicalFields_self (hnames : (current.map (·.name)).Nodup) :
    ∀ {fields : List StoredFilterSchemaField} (used : ℕ), (∀ field ∈ fields, field ∈ current) →
      canonicalFields current ids (fields.map (·.toFilterSchemaField)) used = .ok fields := by
  intro fields
  induction fields with
  | nil =>
      intro used h
      rfl
  | cons field fields ih =>
      intro used h
      have hfind : current.find? (·.name = field.name) = some field :=
        (find?_some_iff hnames).mpr ⟨h field List.mem_cons_self, rfl⟩
      have hrest := ih used fun x hx => h x (List.mem_cons_of_mem _ hx)
      rw [List.map_cons, canonicalFields, hfind]
      simp only [and_self, dite_true, hrest]
      rfl

end Fields

/-! ## One update -/

/-- An update: the request, and the identities that `id_factory` returns for it, in order. -/
structure FilterSchemaUpdate where
  command : FilterSchemaReplacement
  ids : ℕ → ℕ

/-- What an accepted update stores. -/
def updateFilterSchema {F : Type} (schema : Json F) (update : FilterSchemaUpdate) : Option (Json F) :=
  (canonicalizeFilterSchema update.command schema update.ids).toOption

/-- The request that asks for the fields of a schema. -/
def StoredFilterSchema.replacement (schema : StoredFilterSchema) : FilterSchemaReplacement where
  fields := schema.fields.map (·.toFilterSchemaField)
  length_le := by
    rw [List.length_map]
    exact schema.length_le
  names_nodup := by
    rw [List.map_map]
    exact schema.unique.1
  sourcePaths_nodup := by
    rw [List.map_map]
    exact schema.unique.2.1

/-- A field that has its name in both schemas is one field. -/
def KeepsFields (schema next : StoredFilterSchema) : Prop :=
  ∀ field ∈ schema.fields, ∀ other ∈ next.fields, other.name = field.name → SameField field other

section Update

variable {F : Type} {schema stored : StoredFilterSchema} {next : Json F} {update : FilterSchemaUpdate}

/-- **One update** of a stored schema: the fields are those of the request, and each of them became
what it had to. -/
theorem updateFilterSchema_json (h : updateFilterSchema schema.json update = some next) :
    ∃ stored : StoredFilterSchema, next = stored.json ∧ stored.replacement = update.command ∧
      List.Forall₂ (CanonicalField schema.fields update.ids) update.command.fields stored.fields := by
  have hok : canonicalizeFilterSchema update.command schema.json update.ids = .ok next := by
    rw [updateFilterSchema] at h
    cases hresult : canonicalizeFilterSchema update.command (schema.json (F := F)) update.ids with
    | error e =>
        rw [hresult] at h
        cases h
    | ok result =>
        rw [hresult] at h
        cases h
        rfl
  obtain ⟨current, stored, hcurrent, hfields, rfl⟩ := canonicalizeFilterSchema_eq_ok hok
  rw [StoredFilterSchema.validate_json, Option.some.injEq] at hcurrent
  subst hcurrent
  have hall := forall₂_of_canonicalFields hfields
  refine ⟨stored, rfl, ?_, hall⟩
  have hsame : stored.fields.map (·.toFilterSchemaField) = update.command.fields := by
    have hforall := hall.imp fun _ _ hfield => hfield.toFilterSchemaField_eq
    rw [← List.forall₂_eq_eq_eq, List.forall₂_map_left_iff]
    exact List.Forall₂.flip hforall
  cases hcommand : update.command
  rw [hcommand] at hsame
  rw [StoredFilterSchema.replacement]
  congr

theorem updateFilterSchema_eq_some
    (h : canonicalFields schema.fields update.ids update.command.fields 0 = .ok stored.fields) :
    updateFilterSchema (F := F) schema.json update = some stored.json := by
  have hmake : StoredFilterSchema.make stored.fields = some stored := by
    rw [StoredFilterSchema.make, dif_pos ⟨stored.length_le, stored.unique⟩]
  rw [updateFilterSchema, canonicalizeFilterSchema, StoredFilterSchema.validate_json]
  simp only [h, Except.bind, bind, hmake]
  rfl

/-- What a name had before the update it has after it. -/
theorem keepsFields_of_forall₂
    (hall : List.Forall₂ (CanonicalField schema.fields update.ids) update.command.fields
      stored.fields) : KeepsFields schema stored := by
  intro field hfield other hother hname
  obtain ⟨asked, -, hcanonical⟩ := Fallible.exists_of_mem_right hall hother
  rcases hcanonical.origin with ⟨retained, hretained, hsame⟩ | ⟨hnew, -⟩
  · have heq : retained = field :=
      row_unique schema.unique.1 hretained hfield (hsame.name.symm.trans hname)
    rw [← heq]
    exact hsame
  · exact absurd hname.symm (hnew field hfield)

/-- **Canonical form is a fixed point**: the fields of a stored schema, asked for again, leave it as it
is, whatever identities could be drawn. -/
theorem canonicalizeFilterSchema_replacement (schema : StoredFilterSchema) (ids : ℕ → ℕ) :
    canonicalizeFilterSchema (F := F) schema.replacement schema.json ids = .ok schema.json := by
  have hfields : canonicalFields schema.fields ids schema.replacement.fields 0 = .ok schema.fields :=
    canonicalFields_self schema.unique.1 0 fun field hfield => hfield
  have hmake : StoredFilterSchema.make schema.fields = some schema := by
    rw [StoredFilterSchema.make, dif_pos ⟨schema.length_le, schema.unique⟩]
  rw [canonicalizeFilterSchema, StoredFilterSchema.validate_json]
  simp only [hfields, Except.bind, bind, hmake]
  rfl

/-- The copy that a generation takes of a stored schema, and the fields that a search reads in the
schema and in the copy. -/
theorem readers_json {P : Platform} (schema : StoredFilterSchema) :
    buildFilterSnapshot (P := P) schema.json = some schema.snapshot ∧
      parseFilterSnapshot (P := P) schema.json = .ok (schema.fields.map fun f => f.raw.filterField) ∧
      parseFilterSnapshot (P := P) schema.snapshot =
        .ok (schema.fields.map fun f => f.raw.filterField) := by
  have hsnapshot := schema.buildFilterSnapshot_of_copy (P := P) schema.jsonCopy_snapshot
  have hparse := schema.parseFilterSnapshot_snapshot (P := P)
  refine ⟨schema.buildFilterSnapshot_json, ?_, hparse⟩
  rw [parseFilterSnapshot, schema.buildFilterSnapshot_json, ← hsnapshot]
  exact hparse

end Update

/-! ## Runs of updates -/

/-- `id_factory` returns the identity of the field in one of the updates. -/
def DrawnIn (updates : List FilterSchemaUpdate) (field : StoredFilterSchemaField) : Prop :=
  ∃ update ∈ updates, ∃ n, field.fieldId = fieldIdOf (update.ids n)

/-- What a run of updates makes of the fields of a schema. -/
structure Continues (updates : List FilterSchemaUpdate) (schema last : StoredFilterSchema) : Prop where
  /-- A field that every request names is there at the end. -/
  kept : ∀ field ∈ schema.fields,
    (∀ update ∈ updates, ∃ asked ∈ update.command.fields, asked.name = field.name) →
      ∃ other ∈ last.fields, SameField field other
  /-- A field that is there at the end was there, or its identity was drawn on the way. -/
  origin : ∀ other ∈ last.fields,
    DrawnIn updates other ∨ ∃ field ∈ schema.fields, SameField field other

section Runs

variable {F : Type} {schema : StoredFilterSchema} {updates : List FilterSchemaUpdate}
  {next : Json F}

theorem continues_nil : Continues [] schema schema where
  kept field hfield _ := ⟨field, hfield, rfl, rfl, rfl, rfl, rfl⟩
  origin other hother := .inr ⟨other, hother, rfl, rfl, rfl, rfl, rfl⟩

/-- One more update at the beginning. -/
theorem Continues.cons {update : FilterSchemaUpdate} {stored last : StoredFilterSchema}
    (hcommand : stored.replacement = update.command)
    (hall : List.Forall₂ (CanonicalField schema.fields update.ids) update.command.fields stored.fields)
    (h : Continues updates stored last) : Continues (update :: updates) schema last where
  kept := by
    intro field hfield hasked
    obtain ⟨asked, hmem, hname⟩ := hasked update List.mem_cons_self
    rw [← hcommand] at hmem
    obtain ⟨middle, hmiddle, rfl⟩ := List.mem_map.mp hmem
    have hsame := keepsFields_of_forall₂ hall field hfield middle hmiddle hname
    obtain ⟨other, hother, hlast⟩ := h.kept middle hmiddle fun u hu => by
      obtain ⟨asked, hmem, heq⟩ := hasked u (List.mem_cons_of_mem _ hu)
      exact ⟨asked, hmem, heq.trans hsame.name.symm⟩
    exact ⟨other, hother, hsame.trans hlast⟩
  origin := by
    intro other hother
    rcases h.origin other hother with ⟨u, hu, hdrawn⟩ | ⟨middle, hmiddle, hlast⟩
    · exact .inl ⟨u, List.mem_cons_of_mem _ hu, hdrawn⟩
    · obtain ⟨asked, -, hcanonical⟩ := Fallible.exists_of_mem_right hall hmiddle
      rcases hcanonical.origin with ⟨field, hfield, hsame⟩ | ⟨-, n, hid⟩
      · exact .inr ⟨field, hfield, hsame.trans hlast⟩
      · exact .inl ⟨update, List.mem_cons_self, n, hlast.fieldId.trans hid⟩

/-- **A run of updates** leads from a stored schema to a stored schema and continues its fields. -/
theorem runs_updateFilterSchema_eq (h : runs updateFilterSchema schema.json updates = some next) :
    ∃ last : StoredFilterSchema, next = last.json ∧ Continues updates schema last := by
  induction updates generalizing schema with
  | nil =>
      cases h
      exact ⟨schema, rfl, continues_nil⟩
  | cons update updates ih =>
      rw [runs_cons, Option.bind_eq_some_iff] at h
      obtain ⟨middle, hmiddle, hrest⟩ := h
      obtain ⟨stored, rfl, hcommand, hall⟩ := updateFilterSchema_json hmiddle
      obtain ⟨last, rfl, hlast⟩ := ih hrest
      exact ⟨last, rfl, hlast.cons hcommand hall⟩

end Runs

/-- **Filter schemas are stable.**  After every run of accepted updates of a stored schema, the schema
is one whose fields have different identities, asking for its own fields again leaves it as it is, and
the snapshot and the search read it.  Where the run goes on, a field that is kept under its name is
the same field, over one update and over any number of them; and an identity that was in the schema
is later the identity of the same field only, unless `id_factory` returns it once more. -/
theorem filter_schema_updates_stable {P : Platform} {start : StoredFilterSchema}
    {updates : List FilterSchemaUpdate} {schema : Json P.Float}
    (h : runs updateFilterSchema start.json updates = some schema) :
    ∃ stored : StoredFilterSchema, schema = stored.json ∧
      (stored.fields.map (·.fieldId)).Nodup ∧
      (∀ ids, canonicalizeFilterSchema stored.replacement schema ids = .ok schema) ∧
      (∃ snapshot fields, buildFilterSnapshot schema = some snapshot ∧
        parseFilterSnapshot snapshot = .ok fields ∧ parseFilterSnapshot schema = .ok fields) ∧
      (∀ update next, updateFilterSchema schema update = some next →
        (∀ ids, canonicalizeFilterSchema update.command next ids = .ok next) ∧
        ∃ other : StoredFilterSchema, next = other.json ∧ KeepsFields stored other) ∧
      ∀ later next, runs updateFilterSchema schema later = some next →
        ∃ last : StoredFilterSchema, next = last.json ∧
          (∀ field ∈ stored.fields,
            (∀ update ∈ later, ∃ asked ∈ update.command.fields, asked.name = field.name) →
              ∃ other ∈ last.fields, SameField field other) ∧
          ∀ field ∈ stored.fields, ∀ other ∈ last.fields, other.fieldId = field.fieldId →
            ¬DrawnIn later field → SameField field other := by
  obtain ⟨stored, rfl, -⟩ := runs_updateFilterSchema_eq h
  obtain ⟨hsnapshot, hschema, hparse⟩ := readers_json (P := P) stored
  refine ⟨stored, rfl, stored.unique.2.2.1, canonicalizeFilterSchema_replacement stored,
    ⟨_, _, hsnapshot, hparse, hschema⟩, ?_, ?_⟩
  · intro update next hupdate
    obtain ⟨other, rfl, hcommand, hall⟩ := updateFilterSchema_json hupdate
    refine ⟨?_, other, rfl, keepsFields_of_forall₂ hall⟩
    rw [← hcommand]
    exact canonicalizeFilterSchema_replacement other
  · intro later next hlater
    obtain ⟨last, rfl, hlast⟩ := runs_updateFilterSchema_eq hlater
    refine ⟨last, rfl, hlast.kept, ?_⟩
    intro field hfield other hother hid hdrawn
    rcases hlast.origin other hother with ⟨u, hu, n, hn⟩ | ⟨found, hfound, hsame⟩
    · exact absurd ⟨u, hu, n, hid.symm.trans hn⟩ hdrawn
    · have heq : found = field :=
        row_unique stored.unique.2.2.1 hfound hfield (hsame.fieldId.symm.trans hid)
      rw [← heq]
      exact hsame

/-! ## Two updates -/

namespace TwoUpdates

open TypedFields FilterSample

def start : StoredFilterSchema := ⟨[], by simp, by decide⟩

/-- Three fields come in. -/
def first : FilterSchemaUpdate where
  command := {
    fields := [field .keyword, field .integer, field .float]
    length_le := by simp
    names_nodup := by decide
    sourcePaths_nodup := by decide }
  ids := identifier

def stored : StoredFilterSchema where
  fields := [storedField .keyword, storedField .integer, storedField .float]
  length_le := by simp
  unique := by decide +kernel

/-- The field of integers, for equality only. -/
def integerField : FilterSchemaField where
  name := (field .integer).name
  sourcePath := (field .integer).sourcePath
  fieldType := .integer
  operators := [.eq]
  name_valid := (field .integer).name_valid
  sourcePath_valid := (field .integer).sourcePath_valid
  operators_valid := by decide

/-- One field stays with other operators, two go, and one comes in. -/
def second : FilterSchemaUpdate where
  command := {
    fields := [integerField, field .datetime]
    length_le := by simp
    names_nodup := by decide
    sourcePaths_nodup := by decide }
  ids := fun _ => identifier 4

theorem fieldType_integerField : (storedField .integer).fieldType = integerField.fieldType := rfl

def lastFields : List StoredFilterSchemaField :=
  [(storedField .integer).withOperators integerField fieldType_integerField, storedField .datetime]

theorem length_lastFields : lastFields.length ≤ 64 := by simp [lastFields]

theorem unique_lastFields : UniqueFields lastFields := by decide +kernel

def last : StoredFilterSchema := ⟨lastFields, length_lastFields, unique_lastFields⟩

theorem update_first {F : Type} : updateFilterSchema (F := F) start.json first = some stored.json := by
  have hkeyword := newStoredFilterField_field .keyword
  have hinteger := newStoredFilterField_field .integer
  have hfloat := newStoredFilterField_field .float
  simp only [place] at hkeyword hinteger hfloat
  apply updateFilterSchema_eq_some
  simp only [start, first, canonicalFields, List.find?_nil, Nat.zero_add, Nat.reduceAdd, hkeyword,
    hinteger, hfloat]
  rfl

theorem update_second {F : Type} :
    updateFilterSchema (F := F) stored.json second = some last.json := by
  have hinteger : stored.fields.find? (·.name = integerField.name) = some (storedField .integer) := rfl
  have hdatetime : stored.fields.find? (·.name = (field .datetime).name) = none := rfl
  have hnew := newStoredFilterField_field .datetime
  simp only [place] at hnew
  apply updateFilterSchema_eq_some
  simp only [second, canonicalFields, hinteger, hdatetime, hnew]
  rfl

end TwoUpdates

open TwoUpdates TypedFields in
/-- The second update keeps a field, which is the same field, and drops one, whose identity no other
field has. -/
theorem filter_schema_updates_stable_two :
    runs updateFilterSchema start.json [first] = some (stored.json (F := Platform.small.Float)) ∧
      runs updateFilterSchema stored.json [second] = some (last.json (F := Platform.small.Float)) ∧
      (∃ other ∈ last.fields, SameField (storedField .integer) other) ∧
      ∀ other ∈ last.fields, other.fieldId ≠ (storedField .keyword).fieldId := by
  have hfirst : runs updateFilterSchema start.json [first] =
      some (stored.json (F := Platform.small.Float)) := by
    rw [runs_cons, update_first]
    rfl
  have hsecond : runs updateFilterSchema stored.json [second] =
      some (last.json (F := Platform.small.Float)) := by
    rw [runs_cons, update_second]
    rfl
  obtain ⟨reached, hreached, -, -, -, -, hlater⟩ := filter_schema_updates_stable hfirst
  obtain rfl := StoredFilterSchema.json_injective hreached
  obtain ⟨reached, hlast, hkept, hsame⟩ := hlater [second] _ hsecond
  obtain rfl := StoredFilterSchema.json_injective hlast
  have hdrawn : ¬DrawnIn [second] (storedField .keyword) := by
    rintro ⟨update, hupdate, n, hid⟩
    obtain rfl := List.mem_singleton.mp hupdate
    have hne : (storedField .keyword).fieldId ≠ fieldIdOf (FilterSample.identifier 4) := by
      decide +kernel
    exact hne hid
  refine ⟨hfirst, hsecond, hkept _ (by simp [stored]) ?_, ?_⟩
  · intro update hupdate
    obtain rfl := List.mem_singleton.mp hupdate
    exact ⟨integerField, List.mem_cons_self, rfl⟩
  · intro other hother hid
    have hname := (hsame _ List.mem_cons_self other hother hid hdrawn).name
    revert hname
    exact (by decide +kernel : ∀ other ∈ last.fields, other.name ≠ (storedField .keyword).name)
      other hother

end VeloxRag.Metadata
