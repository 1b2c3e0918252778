import VeloxRag.Text

/-!
# Keys of the object store

The artifacts of a version live under keys that name the knowledge base, the document and the
version, so a key that was listed in the store can be traced back to the rows it belongs to.

## Main definitions

* `uuidText`, `uuidOfText` — the canonical text of an identity, and reading it back.
* `sourceObjectKey`, `parsedTextObjectKey`, `chunksObjectKey` — the keys of the three artifacts.
* `canonicalDocumentArtifactIdentity` — the identity a key names.
* `identity_parsedTextObjectKey`, `identity_chunksObjectKey` — the two round trips.
-/

namespace VeloxRag.Ingestion

/-! ## Identities as text -/

/-- The hexadecimal digits of an identity, at least 32. -/
def hexDigits (n : ℕ) : Str :=
  let digits := Nat.toDigits 16 n
  List.replicate (32 - digits.length) '0' ++ digits

/-- `str(uuid)`. -/
def uuidText (n : ℕ) : Str :=
  let digits := hexDigits n
  digits.take 8 ++ ['-'] ++ (digits.drop 8).take 4 ++ ['-'] ++ (digits.drop 12).take 4 ++ ['-']
    ++ (digits.drop 16).take 4 ++ ['-'] ++ digits.drop 20

def hexValue (c : Char) : ℕ :=
  if c.isDigit then c.toNat - '0'.toNat else c.toNat - 'a'.toNat + 10

/-- The number that hexadecimal digits stand for. -/
def hexNumber (digits : Str) : ℕ := digits.foldl (fun n c => 16 * n + hexValue c) 0

/-- `UUID(text)` for a canonical text: another spelling of an identity is refused.  The identities of
the model are numbers without a bound, and the text of one from `2 ^ 128` on, which is too long for
`UUID`, is read as well; no text of 36 characters is one of these. -/
def uuidOfText (text : Str) : Option ℕ :=
  let n := hexNumber (text.filter (· ≠ '-'))
  if uuidText n = text then some n else none

theorem hexValue_digitChar {d : ℕ} (h : d < 16) : hexValue d.digitChar = d := by
  interval_cases d <;> rfl

theorem hexNumber_append (xs ys : Str) :
    hexNumber (xs ++ ys) = ys.foldl (fun n c => 16 * n + hexValue c) (hexNumber xs) := by
  unfold hexNumber
  rw [List.foldl_append]

theorem hexNumber_toDigits (n : ℕ) : hexNumber (Nat.toDigits 16 n) = n := by
  induction n using Nat.strong_induction_on with
  | _ n ih =>
      by_cases h : n < 16
      · rw [Nat.toDigits_of_lt_base h]
        simp [hexNumber, hexValue_digitChar h]
      · rw [Nat.toDigits_of_base_le (by decide) (not_lt.mp h), hexNumber_append,
          ih (n / 16) (Nat.div_lt_self (by omega) (by decide))]
        simp only [List.foldl_cons, List.foldl_nil]
        rw [hexValue_digitChar (Nat.mod_lt n (by decide))]
        exact Nat.div_add_mod n 16

theorem mem_toDigits {c : Char} (n : ℕ) (h : c ∈ Nat.toDigits 16 n) : ∃ d < 16, c = d.digitChar := by
  induction n using Nat.strong_induction_on with
  | _ n ih =>
      by_cases hlt : n < 16
      · rw [Nat.toDigits_of_lt_base hlt] at h
        exact ⟨n, hlt, List.mem_singleton.mp h⟩
      · rw [Nat.toDigits_of_base_le (by decide) (not_lt.mp hlt)] at h
        rcases List.mem_append.mp h with h | h
        · exact ih (n / 16) (Nat.div_lt_self (by omega) (by decide)) h
        · exact ⟨n % 16, Nat.mod_lt n (by decide), List.mem_singleton.mp h⟩

theorem hexNumber_hexDigits (n : ℕ) : hexNumber (hexDigits n) = n := by
  have hzeros : ∀ k, hexNumber (List.replicate k '0') = 0 := by
    intro k
    induction k with
    | zero => rfl
    | succ k ih =>
        rw [List.replicate_succ', hexNumber_append, ih]
        rfl
  unfold hexDigits
  rw [hexNumber_append, hzeros]
  exact hexNumber_toDigits n

/-- The digits are hexadecimal, so none of them separates anything. -/
theorem separator_not_mem_hexDigits {n : ℕ} {c : Char} (hdash : c = '-' ∨ c = '/') :
    c ∉ hexDigits n := by
  intro h
  rcases List.mem_append.mp h with h | h
  · rw [List.eq_of_mem_replicate h] at hdash
    exact absurd hdash (by decide)
  · obtain ⟨d, hlt, rfl⟩ := mem_toDigits n h
    revert hdash
    interval_cases d <;> decide

theorem slash_not_mem_uuidText (n : ℕ) : '/' ∉ uuidText n := by
  have hdigits : '/' ∉ hexDigits n := separator_not_mem_hexDigits (.inr rfl)
  unfold uuidText
  simp only [List.mem_append, List.mem_singleton, not_or]
  refine ⟨⟨⟨⟨⟨⟨⟨⟨?_, by decide⟩, ?_⟩, by decide⟩, ?_⟩, by decide⟩, ?_⟩, by decide⟩, ?_⟩
  · exact fun h => hdigits (List.mem_of_mem_take h)
  · exact fun h => hdigits (List.mem_of_mem_drop (List.mem_of_mem_take h))
  · exact fun h => hdigits (List.mem_of_mem_drop (List.mem_of_mem_take h))
  · exact fun h => hdigits (List.mem_of_mem_drop (List.mem_of_mem_take h))
  · exact fun h => hdigits (List.mem_of_mem_drop h)

/-- Without the dashes, the text is the digits. -/
theorem filter_uuidText (n : ℕ) : (uuidText n).filter (· ≠ '-') = hexDigits n := by
  have hdigits : ∀ c ∈ hexDigits n, decide (c ≠ '-') = true := by
    intro c hc
    simp only [decide_eq_true_eq]
    rintro rfl
    exact separator_not_mem_hexDigits (.inl rfl) hc
  have htake : ∀ i k, (((hexDigits n).drop i).take k).filter (· ≠ '-')
      = ((hexDigits n).drop i).take k := fun i k =>
    List.filter_eq_self.mpr fun c hc => hdigits c (List.mem_of_mem_drop (List.mem_of_mem_take hc))
  have hdrop : ((hexDigits n).drop 20).filter (· ≠ '-') = (hexDigits n).drop 20 :=
    List.filter_eq_self.mpr fun c hc => hdigits c (List.mem_of_mem_drop hc)
  have hfirst := htake 0 8
  rw [List.drop_zero] at hfirst
  unfold uuidText
  simp only [List.filter_append, hfirst, htake, hdrop]
  simp only [List.append_assoc, List.filter_cons_of_neg, List.filter_nil, List.nil_append,
    ne_eq, not_true_eq_false, decide_false, Bool.false_eq_true, not_false_eq_true]
  have hnext : ∀ i, ((hexDigits n).drop i).take 4 ++ (hexDigits n).drop (i + 4)
      = (hexDigits n).drop i := by
    intro i
    rw [← List.drop_drop, List.take_append_drop]
  rw [hnext 16, hnext 12, hnext 8, List.take_append_drop]

/-- An identity is read back from its text. -/
theorem uuidOfText_uuidText (n : ℕ) : uuidOfText (uuidText n) = some n := by
  unfold uuidOfText
  rw [filter_uuidText, hexNumber_hexDigits]
  simp

theorem length_hexDigits {n : ℕ} (h : n < 2 ^ 128) : (hexDigits n).length = 32 := by
  have hle : (Nat.toDigits 16 n).length ≤ 32 := by
    rw [Nat.length_toDigits_le_iff (by decide) (by decide)]
    exact h
  rw [hexDigits]
  simp only [List.length_append, List.length_replicate]
  omega

theorem length_uuidText {n : ℕ} (h : n < 2 ^ 128) : (uuidText n).length = 36 := by
  simp only [uuidText, List.length_append, List.length_take, List.length_drop,
    List.length_singleton, length_hexDigits h]
  omega

/-! ## Keys -/

/-- `"/".join(parts)`. -/
def joinSlash (parts : List Str) : Str := List.intercalate ['/'] parts

/-- `_version_prefix`, then the kind and the name of the artifact. -/
def versionObjectKey (knowledgeBaseId documentId versionId : ℕ) (artifact name : String) : Str :=
  joinSlash ["knowledge-bases".toList, uuidText knowledgeBaseId, "documents".toList,
    uuidText documentId, "versions".toList, uuidText versionId, artifact.toList, name.toList]

/-- The extensions an upload may have. -/
inductive SourceExtension
  | txt
  | md
  | markdown
deriving DecidableEq, Repr

def SourceExtension.text : SourceExtension → String
  | .txt => ".txt"
  | .md => ".md"
  | .markdown => ".markdown"

/-- `source_object_key`. -/
def sourceObjectKey (knowledgeBaseId documentId versionId : ℕ) (extension : SourceExtension) : Str :=
  versionObjectKey knowledgeBaseId documentId versionId "source" ("source" ++ extension.text)

/-- `parsed_text_object_key`. -/
def parsedTextObjectKey (knowledgeBaseId documentId versionId : ℕ) : Str :=
  versionObjectKey knowledgeBaseId documentId versionId "parsed" "text.txt"

/-- `chunks_object_key`. -/
def chunksObjectKey (knowledgeBaseId documentId versionId : ℕ) : Str :=
  versionObjectKey knowledgeBaseId documentId versionId "chunks" "recursive_text_v1.jsonl"

inductive ArtifactType
  | source
  | parsed
  | chunks
deriving DecidableEq, Repr

structure DocumentArtifactIdentity where
  knowledgeBaseId : ℕ
  documentId : ℕ
  versionId : ℕ
  artifactType : ArtifactType
deriving DecidableEq, Repr

/-- The artifact that the last two parts of a key name. -/
def artifactType? (artifact name : Str) : Option ArtifactType :=
  if artifact = "source".toList ∧ (name = "source.txt".toList ∨ name = "source.md".toList ∨
      name = "source.markdown".toList) then some .source
  else if artifact = "parsed".toList ∧ name = "text.txt".toList then some .parsed
  else if artifact = "chunks".toList ∧ name = "recursive_text_v1.jsonl".toList then some .chunks
  else none

/-- `canonical_document_artifact_identity`. -/
def canonicalDocumentArtifactIdentity (objectKey : Str) : Option DocumentArtifactIdentity :=
  match objectKey.splitOn '/' with
  | [root, kb, documents, document, versions, version, artifact, name] =>
      if root ≠ "knowledge-bases".toList ∨ documents ≠ "documents".toList ∨
          versions ≠ "versions".toList then none
      else do
        let artifactType ← artifactType? artifact name
        let knowledgeBaseId ← uuidOfText kb
        let documentId ← uuidOfText document
        let versionId ← uuidOfText version
        pure ⟨knowledgeBaseId, documentId, versionId, artifactType⟩
  | _ => none

/-- A key names the rows it was made for. -/
theorem identity_versionObjectKey (knowledgeBaseId documentId versionId : ℕ) {artifact name : String}
    {artifactType : ArtifactType} (hartifact : '/' ∉ artifact.toList) (hname : '/' ∉ name.toList)
    (htype : artifactType? artifact.toList name.toList = some artifactType) :
    canonicalDocumentArtifactIdentity (versionObjectKey knowledgeBaseId documentId versionId artifact name)
      = some ⟨knowledgeBaseId, documentId, versionId, artifactType⟩ := by
  have hsplit : (versionObjectKey knowledgeBaseId documentId versionId artifact name).splitOn '/'
      = ["knowledge-bases".toList, uuidText knowledgeBaseId, "documents".toList,
        uuidText documentId, "versions".toList, uuidText versionId, artifact.toList, name.toList] := by
    apply List.splitOn_intercalate
    · intro part hpart
      simp only [List.mem_cons, List.not_mem_nil, or_false] at hpart
      rcases hpart with rfl | rfl | rfl | rfl | rfl | rfl | rfl | rfl
      · decide
      · exact slash_not_mem_uuidText _
      · decide
      · exact slash_not_mem_uuidText _
      · decide
      · exact slash_not_mem_uuidText _
      · exact hartifact
      · exact hname
    · exact List.cons_ne_nil _ _
  unfold canonicalDocumentArtifactIdentity
  rw [hsplit]
  simp [htype, uuidOfText_uuidText]

theorem identity_parsedTextObjectKey (knowledgeBaseId documentId versionId : ℕ) :
    canonicalDocumentArtifactIdentity (parsedTextObjectKey knowledgeBaseId documentId versionId)
      = some ⟨knowledgeBaseId, documentId, versionId, .parsed⟩ :=
  identity_versionObjectKey _ _ _ (by decide) (by decide) (by decide)

theorem identity_chunksObjectKey (knowledgeBaseId documentId versionId : ℕ) :
    canonicalDocumentArtifactIdentity (chunksObjectKey knowledgeBaseId documentId versionId)
      = some ⟨knowledgeBaseId, documentId, versionId, .chunks⟩ :=
  identity_versionObjectKey _ _ _ (by decide) (by decide) (by decide)

end VeloxRag.Ingestion
