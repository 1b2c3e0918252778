import VeloxRag.Lib.PyValue
import VeloxRag.Ingestion.Chunk

/-!
# Canonical JSON of Python values

`canonical_json_bytes` takes any object.  It refuses what is neither a scalar nor a list nor a
dictionary with text keys, sorts the keys and writes the rest; the digests of chunks, points and
configurations are built on it.  The metadata of a chunk is frozen before it is hashed: lists
become tuples and dictionaries read-only mappings, and for the digest they are turned back.

## Main definitions

* `validatedJson`, `canonicalJsonBytes`, `canonicalSha256` — the encoder and the digest.
* `freezeJson`, `plainJson` — freezing and thawing.
* `decode_canonicalJsonBytes`, `canonicalJsonBytes_eq_iff` — the encoding is read back, and it is
  that of one value only.
* `canonical_json_faithful` — the encoding, the digest and the two conversions.
-/

namespace VeloxRag.CanonicalJson

open VeloxRag.Lib

variable (P : Platform)

/-! ## The encoder -/

/-- `_validated_json` of a scalar. -/
def validatedScalar : PyValue P.Float → Option (Json P.Float)
  | .none => some .null
  | .bool b => some (.bool b)
  | .int n => some (.int n)
  | .float f => if P.floats.isFinite f then some (.float f) else none
  | .str s => some (.str s)
  | _ => none

/-- `_validated_json`, with `none` for a `ValueError`. -/
def validatedJson : PyValue P.Float → Option (Json P.Float) :=
  PyValue.normalize (validatedScalar P) .arr .obj

/-- `canonical_json_bytes`, with `none` for a `ValueError`. -/
def canonicalJsonBytes (value : PyValue P.Float) : Option Bytes :=
  (validatedJson P value).bind (VeloxRag.canonicalJsonBytes P)

/-- `canonical_sha256`. -/
def canonicalSha256 (value : PyValue P.Float) : Option Str :=
  (canonicalJsonBytes P value).map P.sha256

/-! ## Freezing and thawing -/

mutual
/-- `_freeze_json`, with `none` for a `ValueError`. -/
def freezeJson : PyValue P.Float → Option (PyValue P.Float)
  | .float f => if P.floats.isFinite f then some (.float f) else none
  | .dict ms => (freezeMembers ms).map fun ms => .mapping ((sortByKey ms).map fun m => (.str m.1, m.2))
  | .mapping ms =>
      (freezeMembers ms).map fun ms => .mapping ((sortByKey ms).map fun m => (.str m.1, m.2))
  | .list xs => (freezeItems xs).map .tuple
  | .tuple xs => (freezeItems xs).map .tuple
  | .other _ => none
  | v => some v

def freezeItems : List (PyValue P.Float) → Option (List (PyValue P.Float))
  | [] => some []
  | x :: xs => do
      let x ← freezeJson x
      let xs ← freezeItems xs
      pure (x :: xs)

def freezeMembers : List (PyKey × PyValue P.Float) → Option (List (Str × PyValue P.Float))
  | [] => some []
  | (.str k, v) :: ms => do
      let v ← freezeJson v
      let ms ← freezeMembers ms
      pure ((k, v) :: ms)
  | (.other _, _) :: _ => none
end

variable {P}
variable {F : Type}

mutual
/-- `_plain_json`. -/
def plainJson : PyValue F → PyValue F
  | .dict ms => .dict (plainMembers ms)
  | .mapping ms => .dict (plainMembers ms)
  | .tuple xs => .list (plainItems xs)
  | v => v

def plainItems : List (PyValue F) → List (PyValue F)
  | [] => []
  | x :: xs => plainJson x :: plainItems xs

def plainMembers : List (PyKey × PyValue F) → List (PyKey × PyValue F)
  | [] => []
  | (k, v) :: ms => (k, plainJson v) :: plainMembers ms
end

mutual
/-- What `json.loads` makes of a JSON value. -/
def ofJson : Json F → PyValue F
  | .null => .none
  | .bool b => .bool b
  | .int n => .int n
  | .float f => .float f
  | .str s => .str s
  | .arr xs => .list (ofJsonItems xs)
  | .obj ms => .dict (ofJsonMembers ms)

def ofJsonItems : List (Json F) → List (PyValue F)
  | [] => []
  | x :: xs => ofJson x :: ofJsonItems xs

def ofJsonMembers : List (Str × Json F) → List (PyKey × PyValue F)
  | [] => []
  | (k, v) :: ms => (.str k, ofJson v) :: ofJsonMembers ms
end

theorem plainItems_eq (xs : List (PyValue F)) : plainItems xs = xs.map plainJson := by
  induction xs with
  | nil => rfl
  | cons x xs ih =>
    rw [List.map_cons, ← ih]
    rfl

theorem plainMembers_eq (ms : List (PyKey × PyValue F)) :
    plainMembers ms = ms.map fun m => (m.1, plainJson m.2) := by
  induction ms with
  | nil => rfl
  | cons m ms ih =>
    rw [List.map_cons, ← ih]
    rfl

theorem ofJsonItems_eq (xs : List (Json F)) : ofJsonItems xs = xs.map ofJson := by
  induction xs with
  | nil => rfl
  | cons x xs ih =>
    rw [List.map_cons, ← ih]
    rfl

theorem ofJsonMembers_eq (ms : JsonMembers F) :
    ofJsonMembers ms = ms.map fun m => (.str m.1, ofJson m.2) := by
  induction ms with
  | nil => rfl
  | cons m ms ih =>
    rw [List.map_cons, ← ih]
    rfl

theorem plainJson_tuple (xs : List (PyValue F)) :
    plainJson (.tuple xs) = .list (xs.map plainJson) :=
  congrArg PyValue.list (plainItems_eq xs)

theorem plainJson_mapping (ms : List (PyKey × PyValue F)) :
    plainJson (.mapping ms) = .dict (ms.map fun m => (m.1, plainJson m.2)) :=
  congrArg PyValue.dict (plainMembers_eq ms)

theorem ofJson_arr (xs : List (Json F)) : ofJson (.arr xs) = .list (xs.map ofJson) :=
  congrArg PyValue.list (ofJsonItems_eq xs)

theorem ofJson_obj (ms : JsonMembers F) :
    ofJson (.obj ms) = .dict (ms.map fun m => (.str m.1, ofJson m.2)) :=
  congrArg PyValue.dict (ofJsonMembers_eq ms)

theorem validatedJson_list (xs : List (PyValue P.Float)) :
    validatedJson P (.list xs) =
      (PyValue.normalizeItems (validatedScalar P) .arr .obj xs).map .arr := rfl

theorem validatedJson_dict (ms : List (PyKey × PyValue P.Float)) :
    validatedJson P (.dict ms) =
      (PyValue.normalizeMembers (validatedScalar P) .arr .obj ms).map fun ms =>
        .obj (sortByKey ms) := rfl

theorem validatedJson_scalar {v : PyValue P.Float} (h : v.IsScalar) :
    validatedJson P v = validatedScalar P v := PyValue.normalize_scalar h

theorem canonicalJsonBytes_of_validated {v : PyValue P.Float} {j : Json P.Float}
    (h : validatedJson P v = some j) :
    canonicalJsonBytes P v = VeloxRag.canonicalJsonBytes P j :=
  congrArg (fun value : Option (Json P.Float) => value.bind (VeloxRag.canonicalJsonBytes P)) h

@[simp] theorem freezeJson_float (f : P.Float) :
    freezeJson P (.float f) = if P.floats.isFinite f then some (.float f) else none := rfl

theorem freezeItems_cons (x : PyValue P.Float) (xs : List (PyValue P.Float)) :
    freezeItems P (x :: xs) =
      (freezeJson P x).bind fun x => (freezeItems P xs).bind fun xs => some (x :: xs) := rfl

theorem freezeMembers_cons (k : Str) (v : PyValue P.Float) (ms : List (PyKey × PyValue P.Float)) :
    freezeMembers P ((.str k, v) :: ms) =
      (freezeJson P v).bind fun v => (freezeMembers P ms).bind fun ms => some ((k, v) :: ms) := rfl

theorem freezeJson_list (xs : List (PyValue P.Float)) :
    freezeJson P (.list xs) = (freezeItems P xs).map .tuple := rfl

theorem freezeJson_dict (ms : List (PyKey × PyValue P.Float)) :
    freezeJson P (.dict ms) = (freezeMembers P ms).map fun ms =>
      .mapping ((sortByKey ms).map fun m => (.str m.1, m.2)) := rfl

theorem freezeItems_eq_some {xs ys : List (PyValue P.Float)} :
    freezeItems P xs = some ys ↔ List.Forall₂ (fun x y => freezeJson P x = some y) xs ys :=
  traverse_eq_some _ (freezeItems P) rfl fun _ _ => rfl

/-- A member and its frozen form. -/
abbrev FrozenMember (P : Platform) (m : PyKey × PyValue P.Float) (n : Str × PyValue P.Float) : Prop :=
  m.1 = .str n.1 ∧ freezeJson P m.2 = some n.2

theorem freezeMembers_eq_some {ms : List (PyKey × PyValue P.Float)}
    {ns : List (Str × PyValue P.Float)} :
    freezeMembers P ms = some ns ↔ List.Forall₂ (FrozenMember P) ms ns :=
  traverseMembers_eq_some _ (freezeMembers P) rfl (fun _ _ _ => rfl) fun _ _ _ => rfl

/-! ## One encoding for one value -/

/-- Equal scalars: of one type and with one value. -/
def Identical (v w : PyValue F) : Prop := v = w ∧ v.IsScalar

theorem packing_validated : PyValue.Packing Identical (validatedScalar P) .arr .obj where
  isScalar := by
    rintro v w ⟨rfl, h⟩
    exact ⟨h, h⟩
  scalar_iff := by
    intro v w x y hv hw hx hy
    constructor
    · rintro rfl
      refine ⟨?_, hv⟩
      cases v <;> simp only [validatedScalar, PyValue.IsScalar, Option.ite_none_right_eq_some,
        Option.some.injEq] at hv hx
      all_goals cases w <;> simp only [validatedScalar, PyValue.IsScalar,
        Option.ite_none_right_eq_some, Option.some.injEq] at hw hy
      all_goals grind
    · rintro ⟨rfl, -⟩
      rw [hx] at hy
      exact Option.some.inj hy
  arr_injective := fun _ _ h => Json.arr.inj h
  obj_injective := fun _ _ h => Json.obj.inj h
  arr_ne_obj := fun _ _ h => nomatch h
  scalar_ne_arr := by
    rintro v x hv hx xs rfl
    cases v <;> simp [validatedScalar] at hx
  scalar_ne_obj := by
    rintro v x hv hx ms rfl
    cases v <;> simp [validatedScalar] at hx

/-- A scalar is written as a scalar. -/
theorem validatedScalar_sorted {v : PyValue P.Float} {j : Json P.Float}
    (h : validatedScalar P v = some j) : j.sorted = j ∧ j.UniqueKeys ∧ ofJson j = v ∧
      freezeJson P v = some v ∧ plainJson v = v := by
  cases v <;> simp only [validatedScalar, Option.ite_none_right_eq_some, Option.some.injEq,
    reduceCtorEq] at h
  case float f =>
    obtain ⟨hf, rfl⟩ := h
    exact ⟨rfl, trivial, rfl, by simp [hf], rfl⟩
  all_goals
    subst h
    exact ⟨rfl, trivial, rfl, rfl, rfl⟩

theorem sortKeys_eq (ms : JsonMembers F) : Json.sortKeys ms = sortByKey ms := rfl

/-- What is validated is sorted already. -/
theorem sorted_validatedJson : ∀ (v : PyValue P.Float) (j : Json P.Float),
    validatedJson P v = some j → j.sorted = j := by
  refine PyValue.induction_on ?_ ?_ ?_ ?_ ?_ ?_
  · intro v hscalar j hj
    rw [validatedJson_scalar hscalar] at hj
    exact (validatedScalar_sorted hj).1
  · intro xs ih j hj
    rw [validatedJson_list] at hj
    obtain ⟨ys, hys, rfl⟩ := Option.map_eq_some_iff.mp hj
    rw [PyValue.normalizeItems_eq_some] at hys
    have hsorted : ys.map Json.sorted = ys := by
      clear hj
      induction hys with
      | nil => rfl
      | @cons x y xs ys hx _ ihys =>
        rw [List.map_cons, ih x List.mem_cons_self y hx,
          ihys fun x' hx' => ih x' (List.mem_cons_of_mem _ hx')]
    rw [Json.sorted_arr, hsorted]
  · intro xs _ j hj
    cases hj
  · intro ms ih j hj
    rw [validatedJson_dict] at hj
    obtain ⟨ns, hns, rfl⟩ := Option.map_eq_some_iff.mp hj
    rw [PyValue.normalizeMembers_eq_some] at hns
    have hsorted : ∀ n ∈ ns, n.2.sorted = n.2 := by
      intro n hn
      obtain ⟨v, hv, hvalue⟩ := PyValue.exists_member hns hn
      exact ih _ hv n.2 hvalue
    have hmap : (sortByKey ns).map (fun n => (n.1, n.2.sorted)) = sortByKey ns := by
      conv_rhs => rw [← List.map_id (sortByKey ns)]
      apply List.map_congr_left
      intro n hn
      rw [hsorted n ((sortByKey_perm ns).mem_iff.mp hn)]
      rfl
    rw [Json.sorted_obj, hmap, sortKeys_eq, sortByKey_sortByKey]
  · intro ms _ j hj
    cases hj
  · intro id j hj
    cases hj

theorem uniqueKeys_validatedJson : ∀ (v : PyValue P.Float), v.UniqueKeys → ∀ j : Json P.Float,
    validatedJson P v = some j → j.UniqueKeys := by
  refine PyValue.induction_on ?_ ?_ ?_ ?_ ?_ ?_
  · intro v hscalar _ j hj
    rw [validatedJson_scalar hscalar] at hj
    exact (validatedScalar_sorted hj).2.1
  · intro xs ih hv j hj
    rw [PyValue.uniqueKeys_list] at hv
    rw [validatedJson_list] at hj
    obtain ⟨ys, hys, rfl⟩ := Option.map_eq_some_iff.mp hj
    rw [PyValue.normalizeItems_eq_some] at hys
    rw [Json.uniqueKeys_arr]
    intro y hy
    obtain ⟨i, hi, rfl⟩ := List.getElem_of_mem hy
    have hix : i < xs.length := hys.length_eq ▸ hi
    exact ih _ (List.getElem_mem hix) (hv _ (List.getElem_mem hix)) _ (hys.get hix hi)
  · intro xs _ _ j hj
    cases hj
  · intro ms ih hv j hj
    rw [PyValue.uniqueKeys_dict] at hv
    rw [validatedJson_dict] at hj
    obtain ⟨ns, hns, rfl⟩ := Option.map_eq_some_iff.mp hj
    rw [PyValue.normalizeMembers_eq_some] at hns
    rw [Json.uniqueKeys_obj]
    constructor
    · exact (((sortByKey_perm ns).map _).nodup_iff).mpr (PyValue.nodup_keys hns hv.1)
    · intro n hn
      obtain ⟨w, hw, hvalue⟩ :=
        PyValue.exists_member hns ((sortByKey_perm ns).mem_iff.mp hn)
      exact ih _ hw (hv.2 _ hw) n.2 hvalue
  · intro ms _ _ j hj
    cases hj
  · intro id _ j hj
    cases hj

theorem uniqueKeys_ofJson : ∀ j : Json F, j.UniqueKeys → (ofJson j).UniqueKeys := by
  refine Json.induction_on ?_ ?_ ?_ ?_ ?_ ?_ ?_
  · exact fun _ => trivial
  · exact fun _ _ => trivial
  · exact fun _ _ => trivial
  · exact fun _ _ => trivial
  · exact fun _ _ => trivial
  · intro xs ih h
    rw [Json.uniqueKeys_arr] at h
    rw [ofJson_arr, PyValue.uniqueKeys_list]
    intro y hy
    obtain ⟨x, hx, rfl⟩ := List.mem_map.mp hy
    exact ih x hx (h x hx)
  · intro ms ih h
    rw [Json.uniqueKeys_obj] at h
    rw [ofJson_obj, PyValue.uniqueKeys_dict]
    constructor
    · have hkeys : (ms.map fun m => (PyKey.str m.1, ofJson m.2)).map Prod.fst =
          (ms.map Prod.fst).map PyKey.str := by
        rw [List.map_map, List.map_map]
        rfl
      rw [hkeys]
      exact h.1.map fun _ _ heq => PyKey.str.inj heq
    · intro n hn
      obtain ⟨m, hm, rfl⟩ := List.mem_map.mp hn
      exact ih m hm (h.2 m hm)

/-- A JSON value is validated, with its keys sorted, as it is written. -/
theorem validatedJson_ofJson : ∀ j : Json P.Float, Ingestion.allFinite P.floats j = true →
    validatedJson P (ofJson j) = some j.sorted := by
  refine Json.induction_on ?_ ?_ ?_ ?_ ?_ ?_ ?_
  · exact fun _ => rfl
  · exact fun _ _ => rfl
  · exact fun _ _ => rfl
  · intro f h
    exact if_pos h
  · exact fun _ _ => rfl
  · intro xs ih h
    rw [Ingestion.allFinite_arr] at h
    rw [ofJson_arr, validatedJson_list, Json.sorted_arr]
    have hitems : PyValue.normalizeItems (validatedScalar P) .arr .obj (xs.map ofJson) =
        some (xs.map Json.sorted) := by
      rw [PyValue.normalizeItems_eq_some, List.forall₂_map_left_iff, List.forall₂_map_right_iff,
        List.forall₂_same]
      exact fun x hx => ih x hx (h x hx)
    rw [hitems]
    rfl
  · intro ms ih h
    rw [Ingestion.allFinite_obj] at h
    rw [ofJson_obj, validatedJson_dict, Json.sorted_obj]
    have hmembers : PyValue.normalizeMembers (validatedScalar P) .arr .obj
        (ms.map fun m => (.str m.1, ofJson m.2)) = some (ms.map fun m => (m.1, m.2.sorted)) := by
      rw [PyValue.normalizeMembers_eq_some, List.forall₂_map_left_iff, List.forall₂_map_right_iff,
        List.forall₂_same]
      exact fun m hm => ⟨rfl, ih m hm (h m hm)⟩
    rw [hmembers]
    rfl

theorem allFinite_validatedJson : ∀ (v : PyValue P.Float) (j : Json P.Float),
    validatedJson P v = some j → Ingestion.allFinite P.floats j = true := by
  refine PyValue.induction_on ?_ ?_ ?_ ?_ ?_ ?_
  · intro v hscalar j hj
    rw [validatedJson_scalar hscalar] at hj
    cases v <;> simp only [validatedScalar, Option.ite_none_right_eq_some, Option.some.injEq,
      reduceCtorEq] at hj
    case float f =>
      obtain ⟨hf, rfl⟩ := hj
      exact hf
    all_goals
      subst hj
      rfl
  · intro xs ih j hj
    rw [validatedJson_list] at hj
    obtain ⟨ys, hys, rfl⟩ := Option.map_eq_some_iff.mp hj
    rw [PyValue.normalizeItems_eq_some] at hys
    rw [Ingestion.allFinite_arr]
    intro y hy
    obtain ⟨i, hi, rfl⟩ := List.getElem_of_mem hy
    have hix : i < xs.length := hys.length_eq ▸ hi
    exact ih _ (List.getElem_mem hix) _ (hys.get hix hi)
  · intro xs _ j hj
    cases hj
  · intro ms ih j hj
    rw [validatedJson_dict] at hj
    obtain ⟨ns, hns, rfl⟩ := Option.map_eq_some_iff.mp hj
    rw [PyValue.normalizeMembers_eq_some] at hns
    rw [Ingestion.allFinite_obj]
    intro n hn
    obtain ⟨w, hw, hvalue⟩ := PyValue.exists_member hns ((sortByKey_perm ns).mem_iff.mp hn)
    exact ih _ hw n.2 hvalue
  · intro ms _ j hj
    cases hj
  · intro id j hj
    cases hj

/-- A validated value is validated as itself. -/
theorem validatedJson_twice {v : PyValue P.Float} {j : Json P.Float}
    (h : validatedJson P v = some j) : validatedJson P (ofJson j) = some j := by
  rw [validatedJson_ofJson j (allFinite_validatedJson v j h), sorted_validatedJson v j h]

/-- What `json.loads` makes of a validated value is that value. -/
theorem same_ofJson {v : PyValue P.Float} (hv : v.UniqueKeys) {j : Json P.Float}
    (h : validatedJson P v = some j) : PyValue.Same Identical (ofJson j) v :=
  PyValue.same_of_normalize_eq packing_validated (ofJson j)
    (uniqueKeys_ofJson j (uniqueKeys_validatedJson v hv j h)) v hv j (validatedJson_twice h) h

/-! ## Reading back -/

/-- **Decoding** gives the value back. -/
theorem decode_canonicalJsonBytes {v : PyValue P.Float} (hv : v.UniqueKeys) {data : Bytes}
    (h : canonicalJsonBytes P v = some data) :
    ∃ j, validatedJson P v = some j ∧ loadsBytes P data = some j := by
  obtain ⟨j, hj, hdata⟩ := Option.bind_eq_some_iff.mp h
  have hread := loadsBytes_canonical (uniqueKeys_validatedJson v hv j hj) hdata
  rw [sorted_validatedJson v j hj] at hread
  exact ⟨j, hj, hread⟩

/-- **Equal bytes** are those of the same value. -/
theorem canonicalJsonBytes_eq_iff {v w : PyValue P.Float} (hv : v.UniqueKeys) (hw : w.UniqueKeys)
    {data data' : Bytes} (h : canonicalJsonBytes P v = some data)
    (h' : canonicalJsonBytes P w = some data') : data = data' ↔ PyValue.Same Identical v w := by
  obtain ⟨j, hj, hread⟩ := decode_canonicalJsonBytes hv h
  obtain ⟨j', hj', hread'⟩ := decode_canonicalJsonBytes hw h'
  rw [← PyValue.normalize_eq_iff packing_validated hv hw hj hj']
  constructor
  · rintro rfl
    rw [hread] at hread'
    exact Option.some.inj hread'
  · rintro rfl
    rw [canonicalJsonBytes_of_validated hj] at h
    rw [canonicalJsonBytes_of_validated hj', h] at h'
    exact Option.some.inj h'

/-! ## Freezing -/

/-- A value that is validated is frozen, and thawing gives what `json.loads` would. -/
theorem plainJson_freezeJson : ∀ (v : PyValue P.Float) (j : Json P.Float),
    validatedJson P v = some j → ∃ frozen, freezeJson P v = some frozen ∧
      plainJson frozen = ofJson j := by
  refine PyValue.induction_on ?_ ?_ ?_ ?_ ?_ ?_
  · intro v hscalar j hj
    rw [validatedJson_scalar hscalar] at hj
    obtain ⟨-, -, hof, hfreeze, hplain⟩ := validatedScalar_sorted hj
    exact ⟨v, hfreeze, hplain.trans hof.symm⟩
  · intro xs ih j hj
    rw [validatedJson_list] at hj
    obtain ⟨ys, hys, rfl⟩ := Option.map_eq_some_iff.mp hj
    rw [PyValue.normalizeItems_eq_some] at hys
    have hitems : ∃ fs, freezeItems P xs = some fs ∧ fs.map plainJson = ys.map ofJson := by
      clear hj
      induction hys with
      | nil => exact ⟨[], rfl, rfl⟩
      | @cons x y xs ys hx _ ihys =>
        obtain ⟨f, hf, hplain⟩ := ih x List.mem_cons_self y hx
        obtain ⟨fs, hfs, hplains⟩ := ihys fun x' hx' => ih x' (List.mem_cons_of_mem _ hx')
        refine ⟨f :: fs, ?_, ?_⟩
        · rw [freezeItems_cons, hf, hfs]
          rfl
        · rw [List.map_cons, List.map_cons, hplain, hplains]
    obtain ⟨fs, hfs, hplain⟩ := hitems
    refine ⟨.tuple fs, ?_, ?_⟩
    · rw [freezeJson_list, hfs]
      rfl
    · rw [plainJson_tuple, hplain, ofJson_arr]
  · intro xs _ j hj
    cases hj
  · intro ms ih j hj
    rw [validatedJson_dict] at hj
    obtain ⟨ns, hns, rfl⟩ := Option.map_eq_some_iff.mp hj
    rw [PyValue.normalizeMembers_eq_some] at hns
    have hmembers : ∃ fs, freezeMembers P ms = some fs ∧
        (fs.map fun m => (m.1, plainJson m.2)) = ns.map fun n => (n.1, ofJson n.2) := by
      clear hj
      induction hns with
      | nil => exact ⟨[], rfl, rfl⟩
      | @cons m n ms ns hm _ ihns =>
        obtain ⟨k, v⟩ := m
        obtain ⟨hkey, hvalue⟩ := hm
        dsimp only at hkey hvalue
        subst hkey
        obtain ⟨f, hf, hplain⟩ := ih _ List.mem_cons_self n.2 hvalue
        obtain ⟨fs, hfs, hplains⟩ := ihns fun m' hm' => ih m' (List.mem_cons_of_mem _ hm')
        refine ⟨(n.1, f) :: fs, ?_, ?_⟩
        · dsimp only at hf
          rw [freezeMembers_cons, hf, hfs]
          rfl
        · rw [List.map_cons, List.map_cons, hplain, hplains]
    obtain ⟨fs, hfs, hplain⟩ := hmembers
    refine ⟨.mapping ((sortByKey fs).map fun m => (.str m.1, m.2)), ?_, ?_⟩
    · rw [freezeJson_dict, hfs]
      rfl
    · have hsorted : ((sortByKey fs).map fun m => (m.1, plainJson m.2)) =
          (sortByKey ns).map fun n => (n.1, ofJson n.2) := by
        rw [sortByKey_map, sortByKey_map, hplain]
      have hstr := congrArg (List.map fun m : Str × PyValue P.Float => (PyKey.str m.1, m.2)) hsorted
      simp only [List.map_map, Function.comp_def] at hstr
      rw [plainJson_mapping, List.map_map, ofJson_obj]
      exact congrArg PyValue.dict hstr
  · intro ms _ j hj
    cases hj
  · intro id j hj
    cases hj

theorem freezeItems_plain {xs fs : List (PyValue P.Float)}
    (ih : ∀ x ∈ xs, ∀ f, freezeJson P x = some f → freezeJson P (plainJson f) = some f)
    (h : freezeItems P xs = some fs) : freezeItems P (fs.map plainJson) = some fs := by
  rw [freezeItems_eq_some] at h ⊢
  rw [List.forall₂_map_left_iff, List.forall₂_same]
  intro f hf
  obtain ⟨i, hi, rfl⟩ := List.getElem_of_mem hf
  have hix : i < xs.length := h.length_eq ▸ hi
  exact ih _ (List.getElem_mem hix) _ (h.get hix hi)

/-- The members of a frozen mapping are frozen as they are. -/
theorem freezeMembers_plain {ms : List (PyKey × PyValue P.Float)} {ns : List (Str × PyValue P.Float)}
    (ih : ∀ m ∈ ms, ∀ f, freezeJson P m.2 = some f → freezeJson P (plainJson f) = some f)
    (h : freezeMembers P ms = some ns) :
    freezeMembers P ((sortByKey ns).map fun n => (.str n.1, plainJson n.2)) =
      some (sortByKey ns) := by
  rw [freezeMembers_eq_some] at h
  have hvalue : ∀ n ∈ ns, freezeJson P (plainJson n.2) = some n.2 := by
    intro n hn
    obtain ⟨i, hi, rfl⟩ := List.getElem_of_mem hn
    have him : i < ms.length := h.length_eq ▸ hi
    exact ih _ (List.getElem_mem him) _ (h.get him hi).2
  rw [freezeMembers_eq_some, List.forall₂_map_left_iff, List.forall₂_same]
  intro n hn
  exact ⟨rfl, hvalue n ((sortByKey_perm ns).mem_iff.mp hn)⟩

/-- **What is frozen** is frozen again after thawing, as it was. -/
theorem freezeJson_plainJson : ∀ v frozen : PyValue P.Float, freezeJson P v = some frozen →
    freezeJson P (plainJson frozen) = some frozen := by
  have hitems : ∀ xs : List (PyValue P.Float),
      (∀ x ∈ xs, ∀ f, freezeJson P x = some f → freezeJson P (plainJson f) = some f) →
      ∀ frozen, (freezeItems P xs).map .tuple = some frozen →
        freezeJson P (plainJson frozen) = some frozen := by
    intro xs ih frozen h
    obtain ⟨fs, hfs, rfl⟩ := Option.map_eq_some_iff.mp h
    rw [plainJson_tuple, freezeJson_list, freezeItems_plain ih hfs]
    rfl
  have hmembers : ∀ ms : List (PyKey × PyValue P.Float),
      (∀ m ∈ ms, ∀ f, freezeJson P m.2 = some f → freezeJson P (plainJson f) = some f) →
      ∀ frozen, ((freezeMembers P ms).map fun ms =>
        PyValue.mapping ((sortByKey ms).map fun m => (.str m.1, m.2))) = some frozen →
        freezeJson P (plainJson frozen) = some frozen := by
    intro ms ih frozen h
    obtain ⟨ns, hns, rfl⟩ := Option.map_eq_some_iff.mp h
    rw [plainJson_mapping, List.map_map, freezeJson_dict]
    have hplain := freezeMembers_plain ih hns
    simp only [Function.comp_def]
    rw [hplain, Option.map_some, sortByKey_sortByKey]
  refine PyValue.induction_on ?_ ?_ ?_ ?_ ?_ ?_
  · intro v hscalar frozen h
    cases v with
    | float f =>
      rw [freezeJson_float, Option.ite_none_right_eq_some, Option.some.injEq] at h
      obtain ⟨hf, rfl⟩ := h
      exact if_pos hf
    | none | bool | int | str =>
      cases h
      rfl
    | list | tuple | dict | mapping | other => exact hscalar.elim
  · exact hitems
  · exact hitems
  · exact hmembers
  · exact hmembers
  · intro id frozen h
    cases h

/-! ## The encoding as a whole -/

/-- A Python object whose dictionaries have no key twice. -/
structure PyObject (P : Platform) where
  value : PyValue P.Float
  unique : value.UniqueKeys

/-- **Canonical JSON is faithful.**  What the encoder accepts is read back as the same value; two
accepted values have the same bytes exactly when they are the same, and the same digest only if they
are the same or two byte strings have one digest.  Freezing and thawing gives the same value with
the same bytes, and what is frozen is frozen again as it was. -/
theorem canonical_json_faithful (P : Platform) :
    (∀ (v : PyObject P) (data : Bytes), canonicalJsonBytes P v.value = some data →
      ∃ j, loadsBytes P data = some j ∧ PyValue.Same Identical (ofJson j) v.value) ∧
    (∀ (v w : PyObject P) (data data' : Bytes), canonicalJsonBytes P v.value = some data →
      canonicalJsonBytes P w.value = some data' →
      (data = data' ↔ PyValue.Same Identical v.value w.value)) ∧
    (∀ (v w : PyObject P) (digest : Str), canonicalSha256 P v.value = some digest →
      canonicalSha256 P w.value = some digest → PyValue.Same Identical v.value w.value ∨
        ∃ x y : Bytes, canonicalJsonBytes P v.value = some x ∧
          canonicalJsonBytes P w.value = some y ∧ x ≠ y ∧ P.sha256 x = P.sha256 y) ∧
    (∀ (v : PyObject P) (data : Bytes), canonicalJsonBytes P v.value = some data →
      ∃ frozen, freezeJson P v.value = some frozen ∧
        PyValue.Same Identical (plainJson frozen) v.value ∧
        canonicalJsonBytes P (plainJson frozen) = some data) ∧
    ∀ v frozen : PyValue P.Float, freezeJson P v = some frozen →
      freezeJson P (plainJson frozen) = some frozen := by
  refine ⟨?_, ?_, ?_, ?_, freezeJson_plainJson⟩
  · intro v data h
    obtain ⟨j, hj, hread⟩ := decode_canonicalJsonBytes v.unique h
    exact ⟨j, hread, same_ofJson v.unique hj⟩
  · intro v w data data' h h'
    exact canonicalJsonBytes_eq_iff v.unique w.unique h h'
  · intro v w digest h h'
    obtain ⟨x, hx, rfl⟩ := Option.map_eq_some_iff.mp h
    obtain ⟨y, hy, hdigest⟩ := Option.map_eq_some_iff.mp h'
    by_cases hxy : x = y
    · exact .inl ((canonicalJsonBytes_eq_iff v.unique w.unique hx hy).mp hxy)
    · exact .inr ⟨x, y, hx, hy, hxy, hdigest.symm⟩
  · intro v data h
    obtain ⟨j, hj, hread⟩ := decode_canonicalJsonBytes v.unique h
    obtain ⟨frozen, hfrozen, hplain⟩ := plainJson_freezeJson v.value j hj
    refine ⟨frozen, hfrozen, ?_, ?_⟩
    · rw [hplain]
      exact same_ofJson v.unique hj
    · rw [hplain, canonicalJsonBytes_of_validated (validatedJson_twice hj)]
      rw [canonicalJsonBytes_of_validated hj] at h
      exact h

/-! ### A nested value -/

namespace Nested

/-- A number beside an object in a list, under one of two keys. -/
def value (number : PyValue Platform.small.Float) : PyValue Platform.small.Float :=
  .dict [(.str "b".toList, .list [number, .dict [(.str "on".toList, .bool true)]]),
    (.str "a".toList, .none)]

/-- The same with the keys the other way round. -/
def mixed (number : PyValue Platform.small.Float) : PyValue Platform.small.Float :=
  .dict [(.str "a".toList, .none),
    (.str "b".toList, .list [number, .dict [(.str "on".toList, .bool true)]])]

def integer : PyObject Platform.small where
  value := value (.int 1)
  unique := by
    simp [value, PyValue.UniqueKeys, PyValue.UniqueKeysItems, PyValue.UniqueKeysMembers]

def reordered : PyObject Platform.small where
  value := mixed (.int 1)
  unique := by
    simp [mixed, PyValue.UniqueKeys, PyValue.UniqueKeysItems, PyValue.UniqueKeysMembers]

def float : PyObject Platform.small where
  value := value (.float (some true))
  unique := by
    simp [value, PyValue.UniqueKeys, PyValue.UniqueKeysItems, PyValue.UniqueKeysMembers]

/-- What is validated is written. -/
theorem exists_bytes {v : PyValue Platform.small.Float} {x : Json Platform.small.Float}
    {ms : JsonMembers Platform.small.Float} (hv : validatedJson Platform.small v = some (.obj ms))
    (hms : ms.Perm [("b".toList, .arr [x, .obj (sortByKey [("on".toList, .bool true)])]),
      ("a".toList, .null)])
    (hx : (Json.dumps Platform.small.floats x).isSome = true) :
    ∃ data, canonicalJsonBytes Platform.small v = some data := by
  have hinner : (Json.dumps Platform.small.floats
      (.obj (sortByKey [("on".toList, .bool true)]))).isSome = true := by
    rw [Json.isSome_dumps_obj]
    intro m hm
    obtain rfl := List.mem_singleton.mp ((sortByKey_perm _).mem_iff.mp hm)
    rfl
  have hdumps : (Json.dumps Platform.small.floats (.obj ms)).isSome = true := by
    rw [Json.isSome_dumps_obj]
    intro m hm
    rw [hms.mem_iff, List.mem_cons, List.mem_singleton] at hm
    rcases hm with rfl | rfl
    · rw [Json.isSome_dumps_arr, List.forall_mem_cons, List.forall_mem_singleton]
      exact ⟨hx, hinner⟩
    · rfl
  obtain ⟨text, htext⟩ := Option.isSome_iff_exists.mp hdumps
  refine ⟨encode text, ?_⟩
  rw [canonicalJsonBytes_of_validated hv, VeloxRag.canonicalJsonBytes, sorted_validatedJson v _ hv, htext]
  rfl

theorem same_mixed : PyValue.Same Identical integer.value reordered.value := by
  have hitems : PyValue.Same Identical
      (.list [.int 1, .dict [(.str "on".toList, .bool true)]] : PyValue Platform.small.Float)
      (.list [.int 1, .dict [(.str "on".toList, .bool true)]]) := by
    refine .list rfl fun i v w hv hw => ?_
    rcases i with _ | _ | i
    · cases hv
      cases hw
      exact .scalar ⟨rfl, trivial⟩
    · cases hv
      cases hw
      refine .dict (fun k => Iff.rfl) fun k v w hv hw => ?_
      cases List.mem_singleton.mp hv
      cases List.mem_singleton.mp hw
      exact .scalar ⟨rfl, trivial⟩
    · cases hv
  refine .dict (fun k => by simp [or_comm]) fun k v w hv hw => ?_
  simp only [List.mem_cons, Prod.mk.injEq, List.not_mem_nil, or_false] at hv hw
  rcases hv with ⟨rfl, rfl⟩ | ⟨rfl, rfl⟩
  · obtain rfl := (hw.resolve_left fun h => absurd h.1 (by decide)).2
    exact hitems
  · obtain rfl := (hw.resolve_right fun h => absurd h.1 (by decide)).2
    exact .scalar ⟨rfl, trivial⟩

/-- An integer is not the float of its value. -/
theorem not_same_float : ¬ PyValue.Same Identical integer.value float.value := by
  intro h
  cases h with
  | scalar h => exact h.2
  | dict keys members =>
      have hlists := members (.str "b".toList) _ _ List.mem_cons_self List.mem_cons_self
      cases hlists with
      | scalar h => exact h.2
      | list length items =>
          have hnumbers := items 0 _ _ rfl rfl
          cases hnumbers with
          | scalar h => cases h.1

end Nested

open Nested in
/-- The order of the keys is not in the bytes, and the type of a number is. -/
theorem canonical_json_faithful_nested : ∃ data data' frozen,
    canonicalJsonBytes Platform.small integer.value = some data ∧
      canonicalJsonBytes Platform.small reordered.value = some data ∧
      canonicalJsonBytes Platform.small float.value = some data' ∧ data ≠ data' ∧
      freezeJson Platform.small integer.value = some frozen ∧
      canonicalJsonBytes Platform.small (plainJson frozen) = some data := by
  obtain ⟨-, hinjective, -, hfreeze, -⟩ := canonical_json_faithful Platform.small
  obtain ⟨data, hdata⟩ := @exists_bytes integer.value (.int 1) _ rfl (sortByKey_perm _) rfl
  obtain ⟨mixed, hmixed⟩ := @exists_bytes reordered.value (.int 1) _ rfl
    ((sortByKey_perm _).trans (.swap _ _ _)) rfl
  obtain ⟨data', hdata'⟩ := @exists_bytes float.value (.float (some true)) _ rfl (sortByKey_perm _) rfl
  obtain ⟨frozen, hfrozen, -, hbytes⟩ := hfreeze integer data hdata
  obtain rfl := (hinjective integer reordered data mixed hdata hmixed).mpr same_mixed
  exact ⟨data, data', frozen, hdata, hmixed, hdata',
    fun heq => not_same_float ((hinjective integer float data data' hdata hdata').mp heq), hfrozen, hbytes⟩

end VeloxRag.CanonicalJson
