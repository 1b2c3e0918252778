import VeloxRag.Lib.Fallible
import VeloxRag.Lib.Json

/-!
# Responses with embeddings

A provider answers a batch of texts with a list of items, each with the index of its text and a vector,
in any order.  The parser puts the vectors back into the order of the texts, or refuses the whole
response.

## Main definitions

* `NumberOps` — the conversion of a number of the response to a float.
* `safeUsage` — the counters of the response that are kept.
* `parseSuccessResponse` — the parser, for a batch and for the probe of a dimension.
* `embedding_response_aligned` — which responses are accepted, and where their vectors go.
-/

namespace VeloxRag.Providers

open Lib

/-- `float(number)` of an integer or of another literal of the response, without a value where it
raises. -/
structure NumberOps (F G : Type) where
  toFloat : ℤ ⊕ F → Option G
  isFinite : G → Bool

structure EmbeddingGatewayError where
  code : String
  message : String
deriving DecidableEq, Repr

def responseInvalid : EmbeddingGatewayError :=
  ⟨"PROVIDER_RESPONSE_INVALID", "Provider response is invalid"⟩

def countMismatch : EmbeddingGatewayError :=
  ⟨"PROVIDER_RESPONSE_COUNT_MISMATCH", "Provider response count mismatch"⟩

def dimensionMismatch : EmbeddingGatewayError :=
  ⟨"PROVIDER_RESPONSE_DIMENSION_MISMATCH", "Provider response dimension mismatch"⟩

def responseNonfinite : EmbeddingGatewayError :=
  ⟨"PROVIDER_RESPONSE_NONFINITE", "Provider response contains non-finite values"⟩

/-! ## Counters -/

def postgresBigintMax : ℤ := 2 ^ 63 - 1

def safeUsageFields : List String := ["prompt_tokens", "total_tokens", "completion_tokens"]

structure SafeUsage where
  values : List (String × ℕ)
  degraded : Bool
deriving DecidableEq

section Parser

variable {F G : Type} (ops : NumberOps F G)

/-- One counter: its value, or whether there is something else under its name. -/
def usageField (members : JsonMembers F) (name : String) : Option ℕ × Bool :=
  match members.lookup name.toList with
  | none => (none, false)
  | some (.int count) =>
      if 0 ≤ count ∧ count ≤ postgresBigintMax then (some count.toNat, false) else (none, true)
  | some _ => (none, true)

/-- `_safe_usage`. -/
def safeUsage : Option (Json F) → SafeUsage
  | none | some .null => ⟨[], false⟩
  | some (.obj members) =>
      ⟨safeUsageFields.filterMap fun name => (usageField members name).1.map fun count => (name, count),
        safeUsageFields.any fun name => (usageField members name).2⟩
  | some _ => ⟨[], true⟩

/-! ## The parser -/

def maxResponseItems : ℕ := 10000
def maxEmbeddingDimension : ℕ := 10000000

/-- The dimension that is expected, or the sentinel of a probe. -/
inductive ExpectedDimension
  | probe
  | exactly (dimension : ℕ)
deriving DecidableEq

structure EmbeddingResult (G : Type) where
  vectors : List (List G)
  usage : List (String × ℕ)
  telemetryDegraded : Bool

structure ParsedEmbeddingResponse (G : Type) where
  result : Option (EmbeddingResult G)
  dimension : Option ℕ
  usage : List (String × ℕ)
  telemetryDegraded : Bool

/-- A component of a vector as a float. -/
def component (ops : NumberOps F G) (value : Json F) : Except EmbeddingGatewayError G :=
  let converted (number : ℤ ⊕ F) :=
    match ops.toFloat number with
    | none => .error responseNonfinite
    | some numeric => if ops.isFinite numeric then .ok numeric else .error responseNonfinite
  match value with
  | .int n => converted (.inl n)
  | .float x => converted (.inr x)
  | _ => .error responseInvalid

/-- The check of the length of a vector. -/
def checkDimension (expected : ExpectedDimension) (length : ℕ) : Except EmbeddingGatewayError Unit :=
  match expected with
  | .probe => if 1 ≤ length ∧ length ≤ maxEmbeddingDimension then .ok () else .error responseInvalid
  | .exactly dimension => if length = dimension then .ok () else .error dimensionMismatch

/-- The loop over the items; the vectors that are there come with their indices. -/
def itemLoop (inputCount : ℕ) (expected : ExpectedDimension) :
    List (Json F) → List (ℕ × List G) → Except EmbeddingGatewayError (List (ℕ × List G))
  | [], seen => .ok seen
  | .obj members :: data, seen =>
      match members.lookup "index".toList, members.lookup "embedding".toList with
      | some (.int index), some (.arr rawVector) =>
          if 0 ≤ index ∧ index < inputCount ∧ index.toNat ∉ seen.map (·.1) then do
            checkDimension expected rawVector.length
            let vector ← rawVector.mapM (component ops)
            itemLoop inputCount expected data (seen ++ [(index.toNat, vector)])
          else .error countMismatch
      | _, _ => .error countMismatch
  | _ :: _, _ => .error responseInvalid

/-- `_parse_success_response`. -/
def parseSuccessResponse (document : JsonMembers F) (inputCount : ℕ) (expected : ExpectedDimension) :
    Except EmbeddingGatewayError (ParsedEmbeddingResponse G) :=
  let badRequest := match expected with
    | .probe => decide (inputCount ≠ 1)
    | .exactly dimension => decide ¬(1 ≤ dimension ∧ dimension ≤ maxEmbeddingDimension)
  if ¬(1 ≤ inputCount ∧ inputCount ≤ maxResponseItems) ∨ badRequest = true then .error responseInvalid
  else
    match document.lookup "data".toList with
    | some (.arr data) =>
        if data.length ≠ inputCount then .error countMismatch
        else do
          let seen ← itemLoop ops inputCount expected data []
          if ∃ index < inputCount, index ∉ seen.map (·.1) then .error countMismatch
          else
            let usage := safeUsage (document.lookup "usage".toList)
            match expected with
            | .probe =>
                match seen.getLast? with
                | some (_, vector) => .ok ⟨none, some vector.length, usage.values, usage.degraded⟩
                | none => .error responseInvalid
            | .exactly _ =>
                match (List.range inputCount).mapM fun index => seen.lookup index with
                | some vectors =>
                    .ok ⟨some ⟨vectors, usage.values, usage.degraded⟩, none, usage.values,
                      usage.degraded⟩
                | none => .error responseInvalid
    | _ => .error responseInvalid

end Parser

/-! ## What is accepted -/

section Accepted

variable {F G : Type} {ops : NumberOps F G}

/-- The value is a number, and this is its float. -/
def FiniteNumber (ops : NumberOps F G) (value : Json F) (numeric : G) : Prop :=
  ∃ number, (number.elim (fun n => value = .int n) fun x => value = .float x) ∧
    ops.toFloat number = some numeric ∧ ops.isFinite numeric = true

/-- The item is an object with the index and with a vector of finite numbers. -/
def ItemOf (ops : NumberOps F G) (item : Json F) (index : ℕ) (vector : List G) : Prop :=
  ∃ members rawVector, item = .obj members ∧ members.lookup "index".toList = some (.int index) ∧
    members.lookup "embedding".toList = some (.arr rawVector) ∧
    List.Forall₂ (FiniteNumber ops) rawVector vector

/-- The response has one item for each text, their indices are those of the texts in some order, and
the vector of a text is the one of the item with its index. -/
def Aligned (ops : NumberOps F G) (document : JsonMembers F) (inputCount dimension : ℕ)
    (vectors : List (List G)) : Prop :=
  ∃ data order, document.lookup "data".toList = some (.arr data) ∧ data.length = inputCount ∧
    vectors.length = inputCount ∧ order.Perm (List.range inputCount) ∧
    List.Forall₂ (fun item index => ∃ vector, vectors[index]? = some vector ∧
      vector.length = dimension ∧ ItemOf ops item index vector) data order

theorem component_eq_ok {value : Json F} {numeric : G} :
    component ops value = .ok numeric ↔ FiniteNumber ops value numeric := by
  have hconverted : ∀ number : ℤ ⊕ F, (match ops.toFloat number with
      | none => Except.error responseNonfinite
      | some numeric =>
          if ops.isFinite numeric then Except.ok numeric else .error responseNonfinite) = .ok numeric ↔
      ops.toFloat number = some numeric ∧ ops.isFinite numeric = true := by
    intro number
    cases ops.toFloat number with
    | none => simp
    | some x => by_cases hfinite : ops.isFinite x = true <;> grind
  cases value with
  | int n => simp [component, FiniteNumber, hconverted]
  | float x => simp [component, FiniteNumber, hconverted]
  | null | bool _ | str _ | arr _ | obj _ => simp [component, FiniteNumber]

theorem mapM_component {rawVector : List (Json F)} {vector : List G} :
    rawVector.mapM (component ops) = .ok vector ↔
      List.Forall₂ (FiniteNumber ops) rawVector vector := by
  simp only [Fallible.mapM_ok_iff, component_eq_ok]

/-- What the loop requires of an item. -/
def Fits (ops : NumberOps F G) (inputCount dimension : ℕ) (item : Json F) (entry : ℕ × List G) : Prop :=
  ItemOf ops item entry.1 entry.2 ∧ entry.2.length = dimension ∧ entry.1 < inputCount

/-- **One item** of the loop. -/
theorem itemLoop_cons {inputCount dimension : ℕ} {item : Json F} {data : List (Json F)}
    {seen seen' : List (ℕ × List G)} :
    itemLoop ops inputCount (.exactly dimension) (item :: data) seen = .ok seen' ↔
      ∃ entry, Fits ops inputCount dimension item entry ∧ entry.1 ∉ seen.map (·.1) ∧
        itemLoop ops inputCount (.exactly dimension) data (seen ++ [entry]) = .ok seen' := by
  constructor
  · intro h
    rw [itemLoop.eq_def] at h
    split at h
    · rename_i heq
      cases heq
    · rename_i members data' heq
      cases heq
      split at h
      · rename_i index rawVector hindex hembedding
        split at h
        · rename_i hvalid
          obtain ⟨_, hlength, h⟩ := Fallible.bind_ok_iff.mp h
          obtain ⟨vector, hvector, h⟩ := Fallible.bind_ok_iff.mp h
          have hfinite := mapM_component.mp hvector
          have hindexNat : ((index.toNat : ℕ) : ℤ) = index := Int.toNat_of_nonneg hvalid.1
          have hdimension : rawVector.length = dimension := by
            dsimp only [checkDimension] at hlength
            split at hlength
            · assumption
            · cases hlength
          refine ⟨(index.toNat, vector), ⟨⟨members, rawVector, rfl, ?_, hembedding, hfinite⟩, ?_, ?_⟩,
            hvalid.2.2, h⟩
          · rw [hindex, hindexNat]
          · rw [← hdimension, hfinite.length_eq]
          · exact Int.ofNat_lt.mp (hindexNat ▸ hvalid.2.1)
        · cases h
      · cases h
    · cases h
  · rintro ⟨⟨index, vector⟩, ⟨⟨members, rawVector, rfl, hindex, hembedding, hfinite⟩, hlength, hlt⟩, hnew, h⟩
    have hdimension : rawVector.length = dimension := by rw [hfinite.length_eq, hlength]
    have hvalid : 0 ≤ (index : ℤ) ∧ (index : ℤ) < inputCount ∧ (index : ℤ).toNat ∉ seen.map (·.1) :=
      ⟨Int.natCast_nonneg index, Int.ofNat_lt.mpr hlt, hnew⟩
    rw [itemLoop]
    simp only [hindex, hembedding, if_pos hvalid]
    refine Fallible.bind_ok_iff.mpr ⟨(), if_pos hdimension, ?_⟩
    exact Fallible.bind_ok_iff.mpr ⟨vector, mapM_component.mpr hfinite, h⟩

/-- **The loop** takes every item and no index twice. -/
theorem itemLoop_eq_ok {inputCount dimension : ℕ} {data : List (Json F)} :
    ∀ {seen seen' : List (ℕ × List G)}, (seen.map (·.1)).Nodup →
    (itemLoop ops inputCount (.exactly dimension) data seen = .ok seen' ↔
      ∃ entries, List.Forall₂ (Fits ops inputCount dimension) data entries ∧
        seen' = seen ++ entries ∧ (seen'.map (·.1)).Nodup) := by
  induction data with
  | nil =>
    intro seen seen' hnodup
    constructor
    · intro h
      cases h
      exact ⟨[], .nil, (List.append_nil _).symm, hnodup⟩
    · rintro ⟨entries, hentries, rfl, -⟩
      cases hentries
      rw [List.append_nil]
      rfl
  | cons item data ih =>
    intro seen seen' hnodup
    have hconcat : ∀ {entry : ℕ × List G}, entry.1 ∉ seen.map (·.1) →
        ((seen ++ [entry]).map (·.1)).Nodup := by
      intro entry hnew
      rw [List.map_append]
      exact hnodup.append (List.nodup_singleton _) (List.disjoint_singleton.mpr hnew)
    rw [itemLoop_cons]
    constructor
    · rintro ⟨entry, hfits, hnew, h⟩
      obtain ⟨entries, hentries, rfl, hall⟩ := (ih (hconcat hnew)).mp h
      exact ⟨entry :: entries, .cons hfits hentries, by simp, hall⟩
    · rintro ⟨entries, hentries, rfl, hall⟩
      cases hentries with
      | cons hfits hentries =>
        rename_i entry entries
        have hnew : entry.1 ∉ seen.map (·.1) := by
          intro hmem
          rw [List.map_append, List.map_cons] at hall
          exact List.disjoint_of_nodup_append hall hmem List.mem_cons_self
        exact ⟨entry, hfits, hnew, (ih (hconcat hnew)).mpr ⟨entries, hentries, by simp, hall⟩⟩

/-- Different indices below the number of texts, one for each text, are all of them. -/
theorem perm_range {indices : List ℕ} {inputCount : ℕ} (hnodup : indices.Nodup)
    (hlength : indices.length = inputCount) (hlt : ∀ index ∈ indices, index < inputCount) :
    indices.Perm (List.range inputCount) := by
  have hsub : indices.Subperm (List.range inputCount) :=
    List.subperm_of_subset hnodup fun index hindex => List.mem_range.mpr (hlt index hindex)
  exact hsub.perm_of_length_le (by rw [List.length_range, hlength])

/-- **The vectors in the order of the texts** hold the vector of each entry at its index. -/
theorem mapM_lookup {entries : List (ℕ × List G)} {inputCount : ℕ} {vectors : List (List G)}
    (hnodup : (entries.map (·.1)).Nodup) (hperm : (entries.map (·.1)).Perm (List.range inputCount)) :
    (List.range inputCount).mapM (fun index => entries.lookup index) = some vectors ↔
      vectors.length = inputCount ∧ ∀ entry ∈ entries, vectors[entry.1]? = some entry.2 := by
  rw [Fallible.mapM_some_iff, List.forall₂_iff_get]
  simp only [List.length_range, List.get_eq_getElem, List.getElem_range, Fallible.lookup_some_iff hnodup]
  constructor
  · rintro ⟨hlength, hall⟩
    refine ⟨hlength.symm, fun entry hentry => ?_⟩
    have hlt : entry.1 < inputCount :=
      List.mem_range.mp (hperm.mem_iff.mp (List.mem_map_of_mem hentry))
    have hget := (Fallible.lookup_some_iff hnodup).mpr (hall entry.1 hlt (hlength ▸ hlt))
    rw [(Fallible.lookup_some_iff hnodup).mpr hentry] at hget
    rw [List.getElem?_eq_getElem (hlength ▸ hlt), ← hget]
  · rintro ⟨hlength, hall⟩
    refine ⟨hlength.symm, fun index hlt hlt' => ?_⟩
    obtain ⟨entry, hentry, rfl⟩ := List.mem_map.mp (hperm.mem_iff.mpr (List.mem_range.mpr hlt))
    have hget := hall entry hentry
    rw [List.getElem?_eq_getElem hlt'] at hget
    rw [Option.some.inj hget]
    exact hentry

/-- The indices that the loop has seen at its end, when there are as many items as texts. -/
theorem itemLoop_perm {data : List (Json F)} {inputCount dimension : ℕ} {entries : List (ℕ × List G)}
    (hlength : data.length = inputCount)
    (h : itemLoop ops inputCount (.exactly dimension) data [] = .ok entries) :
    List.Forall₂ (Fits ops inputCount dimension) data entries ∧ (entries.map (·.1)).Nodup ∧
      (entries.map (·.1)).Perm (List.range inputCount) := by
  have hnil : (([] : List (ℕ × List G)).map (·.1)).Nodup := List.nodup_nil
  obtain ⟨_, hfits, rfl, hnodup⟩ := (itemLoop_eq_ok hnil).mp h
  refine ⟨hfits, hnodup, perm_range hnodup ?_ ?_⟩
  · rw [List.length_map, ← hlength, hfits.length_eq]
  · intro index hindex
    obtain ⟨entry, hentry, rfl⟩ := List.mem_map.mp hindex
    obtain ⟨item, -, hitem⟩ := Fallible.exists_of_mem_right hfits hentry
    exact hitem.2.2

/-- **The loop and the alignment** of a response with as many items as texts. -/
theorem aligned_iff {document : JsonMembers F} {data : List (Json F)} {inputCount dimension : ℕ}
    {vectors : List (List G)} (hdata : document.lookup "data".toList = some (.arr data))
    (hlength : data.length = inputCount) :
    Aligned ops document inputCount dimension vectors ↔
      ∃ entries, itemLoop ops inputCount (.exactly dimension) data [] = .ok entries ∧
        (List.range inputCount).mapM (fun index => entries.lookup index) = some vectors := by
  constructor
  · rintro ⟨data', order, hdata', -, hvectors, horder, hitems⟩
    rw [hdata] at hdata'
    cases hdata'
    -- the entries of the loop are the indices with their vectors
    let entry (index : ℕ) : ℕ × List G := (index, vectors.getD index [])
    have hkeys : (order.map entry).map (·.1) = order := by
      rw [List.map_map]
      exact List.map_id order
    have hnodup : ((order.map entry).map (·.1)).Nodup := by
      rw [hkeys]
      exact horder.nodup_iff.mpr List.nodup_range
    have hfits : List.Forall₂ (Fits ops inputCount dimension) data (order.map entry) := by
      rw [List.forall₂_map_right_iff]
      refine (Fallible.forall₂_and_right hitems fun index hindex =>
        List.mem_range.mp (horder.mem_iff.mp hindex)).imp ?_
      rintro item index ⟨⟨vector, hvector, hdimension, hitem⟩, hlt⟩
      have hentry : entry index = (index, vector) := by
        simp only [entry, List.getD_eq_getElem?_getD, hvector, Option.getD_some]
      rw [hentry]
      exact ⟨hitem, hdimension, hlt⟩
    have hnil : (([] : List (ℕ × List G)).map (·.1)).Nodup := List.nodup_nil
    refine ⟨order.map entry, (itemLoop_eq_ok hnil).mpr ⟨_, hfits, rfl, hnodup⟩, ?_⟩
    refine (mapM_lookup hnodup (by rw [hkeys]; exact horder)).mpr ⟨hvectors, ?_⟩
    intro e he
    obtain ⟨index, hindex, rfl⟩ := List.mem_map.mp he
    have hlt : index < vectors.length := hvectors ▸ List.mem_range.mp (horder.mem_iff.mp hindex)
    simp [entry, List.getD_eq_getElem?_getD, List.getElem?_eq_getElem hlt]
  · rintro ⟨entries, hloop, hvectors⟩
    obtain ⟨hfits, hnodup, hperm⟩ := itemLoop_perm hlength hloop
    obtain ⟨hvectorsLength, hentries⟩ := (mapM_lookup hnodup hperm).mp hvectors
    refine ⟨data, entries.map (·.1), hdata, hlength, hvectorsLength, hperm, ?_⟩
    rw [List.forall₂_map_right_iff]
    refine (Fallible.forall₂_and_right hfits hentries).imp ?_
    rintro item entry ⟨hitem, hentry⟩
    exact ⟨entry.2, hentry, hitem.2.1, hitem.1⟩

/-- **The accepted responses** are those with one item for each text, and every text gets the vector
of the item with its index. -/
theorem embedding_response_aligned {F G : Type} (ops : NumberOps F G) (document : JsonMembers F)
    (inputCount dimension : ℕ) (parsed : ParsedEmbeddingResponse G) :
    parseSuccessResponse ops document inputCount (.exactly dimension) = .ok parsed ↔
      (1 ≤ inputCount ∧ inputCount ≤ maxResponseItems) ∧
      (1 ≤ dimension ∧ dimension ≤ maxEmbeddingDimension) ∧
      ∃ vectors, Aligned ops document inputCount dimension vectors ∧
        parsed = ⟨some ⟨vectors, (safeUsage (document.lookup "usage".toList)).values,
          (safeUsage (document.lookup "usage".toList)).degraded⟩, none,
          (safeUsage (document.lookup "usage".toList)).values,
          (safeUsage (document.lookup "usage".toList)).degraded⟩ := by
  by_cases hrequest : (1 ≤ inputCount ∧ inputCount ≤ maxResponseItems) ∧
      (1 ≤ dimension ∧ dimension ≤ maxEmbeddingDimension)
  · rw [parseSuccessResponse, if_neg (not_or.mpr ⟨not_not_intro hrequest.1, by
      simp only [decide_eq_true_eq]
      exact not_not_intro hrequest.2⟩), ← and_assoc, and_iff_right hrequest]
    split
    · rename_i data hdocument
      by_cases hlength : data.length = inputCount
      · rw [if_neg (not_not_intro hlength), Fallible.bind_ok_iff]
        simp only [aligned_iff hdocument hlength]
        constructor
        · rintro ⟨entries, hloop, h⟩
          split at h
          · cases h
          · split at h
            · rename_i vectors hvectors
              cases h
              exact ⟨vectors, ⟨entries, hloop, hvectors⟩, rfl⟩
            · cases h
        · rintro ⟨vectors, ⟨entries, hloop, hvectors⟩, rfl⟩
          obtain ⟨-, -, hperm⟩ := itemLoop_perm hlength hloop
          have hcomplete : ¬∃ index < inputCount, index ∉ entries.map (·.1) := by
            rintro ⟨index, hlt, hmem⟩
            exact hmem (hperm.mem_iff.mpr (List.mem_range.mpr hlt))
          refine ⟨entries, hloop, ?_⟩
          rw [if_neg hcomplete, hvectors]
      · rw [if_pos hlength]
        constructor
        · intro h
          cases h
        · rintro ⟨vectors, ⟨data', order, hdata', hlength', -⟩, -⟩
          rw [hdocument] at hdata'
          cases hdata'
          exact absurd hlength' hlength
    · rename_i hdocument
      constructor
      · intro h
        cases h
      · rintro ⟨vectors, ⟨data, order, hdata, -⟩, -⟩
        exact absurd hdata (hdocument data)
  · rw [parseSuccessResponse, if_pos (by
      simp only [decide_eq_true_eq]
      exact not_and_or.mp hrequest)]
    constructor
    · intro h
      cases h
    · rintro ⟨hcount, hdimension, -⟩
      exact absurd ⟨hcount, hdimension⟩ hrequest

/-- Integers as exact numbers. -/
def exactNumbers : NumberOps Unit ℚ where
  toFloat
    | .inl n => some n
    | .inr _ => none
  isFinite _ := true

/-- An empty response has one item for each of no texts, and is refused. -/
theorem empty_batch_refused :
    Aligned exactNumbers [("data".toList, .arr [])] 0 1 [] ∧
    parseSuccessResponse exactNumbers [("data".toList, .arr [])] 0 (.exactly 1) =
      .error responseInvalid := by
  constructor
  · exact ⟨[], [], rfl, rfl, rfl, .refl _, .nil⟩
  · rfl

/-- Two items in the other order. -/
example : (parseSuccessResponse exactNumbers
    [("data".toList, .arr [.obj [("index".toList, .int 1), ("embedding".toList, .arr [.int 5])],
      .obj [("embedding".toList, .arr [.int 7]), ("index".toList, .int 0)]])] 2 (.exactly 1)).toOption.bind
      (fun parsed => parsed.result.map (·.vectors)) = some [[7], [5]] := rfl

end Accepted

end VeloxRag.Providers
