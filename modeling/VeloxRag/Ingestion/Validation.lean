import VeloxRag.Text

/-!
# Normalized texts

Upload validation rejects a document with a NUL character or with more bytes than allowed,
drops a byte order mark, and writes every line break as a line feed.  What it hands to the
parsers is a `NormalizedText`.

## Main definitions

* `normalizedText` — the normalization of a decoded document.
* `NormalizedText` — a text with the properties the parsers may rely on.
* `NormalizedText.ofDecoded` — normalization gives such a text.
-/

namespace VeloxRag.Ingestion

/-- `decoded.replace("\r\n", "\n")`. -/
def replaceCrLf : Str → Str
  | '\r' :: '\n' :: rest => '\n' :: replaceCrLf rest
  | c :: rest => c :: replaceCrLf rest
  | [] => []

/-- `replace("\r", "\n")`. -/
def replaceCr (s : Str) : Str := s.map fun c => if c = '\r' then '\n' else c

/-- The part of `validate_document` after decoding: drop the byte order mark, normalize the line
breaks. -/
def normalizedText (decoded : Str) : Str :=
  let decoded := if decoded.head? = some '\uFEFF' then decoded.tail else decoded
  replaceCr (replaceCrLf decoded)

/-- What upload validation hands to the parsers. -/
structure NormalizedText where
  text : Str
  /-- Line breaks are line feeds. -/
  no_cr : '\r' ∉ text
  /-- `"\x00" in decoded` is rejected. -/
  no_nul : '\x00' ∉ text
  /-- A larger document is rejected. -/
  size_le : (encode text).length ≤ maxDocumentBytes

theorem NormalizedText.length_le (t : NormalizedText) : t.text.length ≤ maxDocumentBytes :=
  le_trans (length_le_encode t.text) t.size_le

/-! ## Normalization -/

theorem replaceCrLf_sublist (s : Str) : (replaceCrLf s).Sublist s := by
  fun_induction replaceCrLf s with
  | case1 rest ih => exact (ih.cons_cons '\n').cons '\r'
  | case2 c rest _ ih => exact ih.cons_cons c
  | case3 => exact .slnil

theorem encode_sublist {s t : Str} (h : s.Sublist t) : (encode s).length ≤ (encode t).length := by
  induction h with
  | slnil => exact le_refl _
  | cons c _ ih => rw [encode_cons, List.length_append]; omega
  | cons_cons c _ ih => rw [encode_cons, encode_cons, List.length_append, List.length_append]; omega

theorem not_mem_replaceCr (s : Str) : '\r' ∉ replaceCr s := by
  intro h
  obtain ⟨c, _, hc⟩ := List.mem_map.mp h
  split at hc
  · exact absurd hc (by decide)
  · contradiction

theorem mem_of_mem_replaceCr {s : Str} {c : Char} (h : c ∈ replaceCr s) (hc : c ≠ '\n') : c ∈ s := by
  obtain ⟨d, hd, rfl⟩ := List.mem_map.mp h
  split at hc
  · exact absurd rfl hc
  · rename_i hne
    rwa [if_neg hne]

theorem length_encode_replaceCr (s : Str) : (encode (replaceCr s)).length = (encode s).length := by
  induction s with
  | nil => rfl
  | cons c s ih =>
      have hcons : replaceCr (c :: s) = (if c = '\r' then '\n' else c) :: replaceCr s := rfl
      rw [hcons, encode_cons, encode_cons, List.length_append, List.length_append, ih]
      congr 1
      split
      · rename_i h
        rw [h]
        rfl
      · rfl

/-- **Normalization** of a decoded document without NUL that is not too large. -/
def NormalizedText.ofDecoded (decoded : Str) (hnul : '\x00' ∉ decoded)
    (hsize : (encode decoded).length ≤ maxDocumentBytes) : NormalizedText :=
  have hsub : (replaceCrLf (if decoded.head? = some '\uFEFF' then decoded.tail else decoded)).Sublist
      decoded := by
    refine (replaceCrLf_sublist _).trans ?_
    split
    · exact List.tail_sublist decoded
    · exact List.Sublist.refl decoded
  { text := normalizedText decoded
    no_cr := not_mem_replaceCr _
    no_nul := fun h => hnul (hsub.subset (mem_of_mem_replaceCr h (by decide)))
    size_le := by
      rw [normalizedText, length_encode_replaceCr]
      exact le_trans (encode_sublist hsub) hsize }

end VeloxRag.Ingestion
