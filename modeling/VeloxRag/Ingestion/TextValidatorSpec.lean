import VeloxRag.Ingestion.TextValidator

/-!
# The text validator and the cut of a document

A document arrives in pieces that are cut anywhere, also inside a character or inside the byte
order mark.  What the validator accepts, and the summary it gives, depend on the bytes alone.

## Main definitions

* `validatePieces` — the validation of a document that arrives in pieces.
* `validatePieces_eq_ok_iff` — the documents it accepts, and their summaries.
* `validatePieces_cut` — the cut does not matter.
-/

namespace VeloxRag.Ingestion

open VeloxRag.Lib

namespace IncrementalTextValidator

variable {v v' : IncrementalTextValidator}

theorem inspect_frame {t : Str} (h : v.inspect t = .ok v') :
    v'.metadata = v.metadata ∧ v'.decoder = v.decoder := by
  rw [inspect] at h
  by_cases ht : t = []
  · rw [if_pos ht] at h
    cases h
    exact ⟨rfl, rfl⟩
  · rw [if_neg ht] at h
    dsimp only at h
    generalize (if v.sawCodepoint then t else dropBom t) = text at h
    by_cases hnul : '\x00' ∈ text
    · rw [if_pos hnul] at h
      cases h
    · rw [if_neg hnul] at h
      cases h
      exact ⟨rfl, rfl⟩

/-- A validator keeps the metadata it was made with, and never keeps back a complete character. -/
theorem feed_frame {chunk : Bytes} (h : v.feed chunk = .ok v') :
    v'.metadata = v.metadata ∧ (firstChar? v.decoder = none → firstChar? v'.decoder = none) := by
  rw [IncrementalTextValidator.feed] at h
  split at h
  · cases h
  · split at h
    · cases h
      exact ⟨rfl, id⟩
    · split at h
      · cases h
      · cases hd : decodeComplete (v.decoder ++ chunk) with
        | none => rw [hd] at h; cases h
        | some d =>
            obtain ⟨t, kept⟩ := d
            rw [hd] at h
            obtain ⟨hmetadata, hdecoder⟩ := inspect_frame h
            refine ⟨hmetadata, fun _ => ?_⟩
            rw [hdecoder]
            exact decodeComplete_kept hd

theorem feedAll_frame (chunks : List Bytes) : ∀ {v : IncrementalTextValidator},
    v.feedAll chunks = .ok v' →
    v'.metadata = v.metadata ∧ (firstChar? v.decoder = none → firstChar? v'.decoder = none) := by
  induction chunks with
  | nil =>
      intro v h
      cases h
      exact ⟨rfl, id⟩
  | cons chunk chunks ih =>
      intro v h
      rw [feedAll, List.foldlM_cons] at h
      cases hf : v.feed chunk with
      | error e => rw [hf] at h; cases h
      | ok w =>
          rw [hf] at h
          obtain ⟨hmetadata, hdecoder⟩ := feed_frame hf
          obtain ⟨hmetadata', hdecoder'⟩ := ih h
          exact ⟨hmetadata'.trans hmetadata, fun hnone => hdecoder' (hdecoder hnone)⟩

theorem finish_eq {summary : TextValidationSummary} (h : v.finish = .ok summary) :
    summary = ⟨v.metadata, v.total, v.digest, true⟩ := by
  rw [finish] at h
  split at h
  · cases h
  · split at h
    · cases h
    · split at h
      · cases h
      · split at h
        · cases h
        · cases h
          rfl

/-- **One piece of an acceptable document.**  However it is cut, its bytes complete those that were
kept back, up to the beginning of one more character. -/
theorem Fed.feed_isOk {s whole : Str} {chunk rest : Bytes} (hv : Fed v s)
    (hwhole : v.digest ++ (chunk ++ rest) = encode whole) (hnul : '\x00' ∉ whole)
    (hsize : (encode whole).length ≤ v.maxBytes) : ∃ v', v.feed chunk = .ok v' := by
  rw [IncrementalTextValidator.feed, if_neg (by simp [hv.running])]
  by_cases hempty : chunk = []
  · rw [if_pos hempty]
    exact ⟨v, rfl⟩
  · have htotal : ¬ v.maxBytes < v.total + chunk.length := by
      have hlen := congrArg List.length hwhole
      rw [List.length_append, List.length_append, ← hv.total_eq] at hlen
      omega
    rw [if_neg hempty, if_neg htotal]
    rw [hv.digest_eq, List.append_assoc, ← List.append_assoc v.decoder] at hwhole
    obtain ⟨u, rfl, hu⟩ := utf8Bytes_append_inv hwhole
    obtain ⟨t, kept, hdecode⟩ := decodeComplete_prefix hu
    rw [decodeComplete_sound hdecode, List.append_assoc] at hu
    obtain ⟨w, rfl, _⟩ := utf8Bytes_append_inv hu
    rw [hdecode]
    apply inspect_isOk
    intro ht
    exact hnul (List.mem_append_right s (List.mem_append_left w ht))

/-- **All pieces of an acceptable document.** -/
theorem Fed.feedAll_isOk {whole : Str} (hnul : '\x00' ∉ whole) (chunks : List Bytes) :
    ∀ {v : IncrementalTextValidator} {s : Str}, Fed v s →
      v.digest ++ chunks.flatten = encode whole → (encode whole).length ≤ v.maxBytes →
      ∃ v', v.feedAll chunks = .ok v' := by
  induction chunks with
  | nil =>
      intro v s hv hwhole hsize
      exact ⟨v, rfl⟩
  | cons chunk chunks ih =>
      intro v s hv hwhole hsize
      rw [List.flatten_cons] at hwhole
      obtain ⟨w, hw⟩ := hv.feed_isOk hwhole hnul hsize
      obtain ⟨⟨t, hfed⟩, hdigest, hmax⟩ := hv.feed hw
      rw [← List.append_assoc, ← hdigest] at hwhole
      obtain ⟨v', hv'⟩ := ih hfed hwhole (by rw [hmax]; exact hsize)
      refine ⟨v', ?_⟩
      rw [IncrementalTextValidator.feedAll, List.foldlM_cons, hw]
      exact hv'

end IncrementalTextValidator

open IncrementalTextValidator

/-- A validator that is made, fed the pieces of a document and finished. -/
def validatePieces (U : FilenameText) (filename contentType : Str) (maxBytes : ℕ)
    (chunks : List Bytes) : Except ValidationError TextValidationSummary := do
  let validator ← IncrementalTextValidator.new U filename contentType maxBytes
  let validator ← validator.feedAll chunks
  validator.finish

section Pieces

variable {U : FilenameText} {filename contentType : Str} {maxBytes : ℕ}

theorem new_metadata {v : IncrementalTextValidator}
    (h : IncrementalTextValidator.new U filename contentType maxBytes = .ok v) :
    validateDocumentMetadata U filename contentType = .ok v.metadata := by
  rw [IncrementalTextValidator.new] at h
  split at h
  · cases h
  · cases hm : validateDocumentMetadata U filename contentType with
    | error e => rw [hm] at h; cases h
    | ok metadata =>
        rw [hm] at h
        cases h
        rfl

/-- The steps of a validation. -/
theorem validatePieces_eq_ok {chunks : List Bytes} {summary : TextValidationSummary} :
    validatePieces U filename contentType maxBytes chunks = .ok summary ↔
      ∃ v v', IncrementalTextValidator.new U filename contentType maxBytes = .ok v ∧
        v.feedAll chunks = .ok v' ∧ v'.finish = .ok summary := by
  rw [validatePieces]
  constructor
  · intro h
    cases hnew : IncrementalTextValidator.new U filename contentType maxBytes with
    | error e => rw [hnew] at h; cases h
    | ok v =>
        rw [hnew] at h
        cases hfeed : v.feedAll chunks with
        | error e =>
            have h' : (v.feedAll chunks >>= _) = _ := h
            rw [hfeed] at h'
            cases h'
        | ok v' =>
            have h' : (v.feedAll chunks >>= _) = _ := h
            rw [hfeed] at h'
            exact ⟨v, v', rfl, hfeed, h'⟩
  · rintro ⟨v, v', hnew, hfeed, hfinish⟩
    rw [hnew]
    show (v.feedAll chunks >>= _) = _
    rw [hfeed]
    exact hfinish

/-- **The documents a validation accepts**, and what it says of them: their bytes are within the
limit and encode an acceptable text. -/
theorem validatePieces_eq_ok_iff {chunks : List Bytes} {summary : TextValidationSummary} :
    validatePieces U filename contentType maxBytes chunks = .ok summary ↔
      ∃ metadata s, maxBytes ≠ 0 ∧
        validateDocumentMetadata U filename contentType = .ok metadata ∧
        chunks.flatten.length ≤ maxBytes ∧ chunks.flatten = encode s ∧ TextAccepted s ∧
        summary = ⟨metadata, chunks.flatten.length, chunks.flatten, true⟩ := by
  rw [validatePieces_eq_ok]
  constructor
  · rintro ⟨v, v', hnew, hfeed, hfinish⟩
    obtain ⟨hsize, s, hs, haccepted⟩ := feedAll_finish_isOk hnew hfeed hfinish
    obtain ⟨hv, hdigest, _, hmax⟩ := fed_new hnew
    obtain ⟨⟨t, hfed⟩, hdigest', _⟩ := hv.feedAll chunks hfeed
    rw [hdigest, List.nil_append] at hdigest'
    have hpositive : maxBytes ≠ 0 := by
      rintro rfl
      rw [IncrementalTextValidator.new, if_pos rfl] at hnew
      cases hnew
    refine ⟨v.metadata, s, hpositive, new_metadata hnew, hsize, hs, haccepted, ?_⟩
    rw [finish_eq hfinish, (feedAll_frame chunks hfeed).1, hfed.total_eq, hdigest']
  · rintro ⟨metadata, s, hpositive, hmetadata, hsize, hs, haccepted, rfl⟩
    obtain ⟨v, hnew⟩ : ∃ v, IncrementalTextValidator.new U filename contentType maxBytes = .ok v := by
      rw [IncrementalTextValidator.new, if_neg hpositive, hmetadata]
      exact ⟨_, rfl⟩
    obtain ⟨hv, hdigest, hdecoder, hmax⟩ := fed_new hnew
    obtain ⟨v', hfeed⟩ := hv.feedAll_isOk haccepted.no_nul chunks (by rw [hdigest]; exact hs)
      (by rw [hmax, ← hs]; exact hsize)
    obtain ⟨⟨t, hfed⟩, hdigest', _⟩ := hv.feedAll chunks hfeed
    rw [hdigest, List.nil_append] at hdigest'
    -- a decoder that keeps nothing complete back has decoded the whole text
    have hdecoded : encode t ++ v'.decoder = encode s := by
      rw [← hfed.digest_eq, hdigest', hs]
    obtain ⟨u, rfl, hu⟩ := utf8Bytes_append_inv hdecoded
    obtain ⟨hmeta, hkept⟩ := feedAll_frame chunks hfeed
    have hnone := hkept (by rw [hdecoder]; exact firstChar?_nil)
    obtain rfl : u = [] := by
      cases u with
      | nil => rfl
      | cons c u =>
          rw [hu, utf8Bytes_cons, firstChar?_encode_append] at hnone
          cases hnone
    rw [List.append_nil] at haccepted
    obtain ⟨summary, hfinish⟩ := hfed.finish_isOk_iff.mpr ⟨hu, haccepted⟩
    refine ⟨v, v', hnew, hfeed, ?_⟩
    have hmetadata' : v.metadata = metadata := by
      have h := (new_metadata hnew).symm.trans hmetadata
      cases h
      rfl
    rw [hfinish, finish_eq hfinish, hmeta, hmetadata', hfed.total_eq, hdigest']

/-- **The cut does not matter**: a document in pieces is accepted, with the same summary, exactly
when it is accepted in one piece. -/
theorem validatePieces_cut (U : FilenameText) (filename contentType : Str) (maxBytes : ℕ)
    (chunks : List Bytes) (summary : TextValidationSummary) :
    validatePieces U filename contentType maxBytes chunks = .ok summary ↔
      validatePieces U filename contentType maxBytes [chunks.flatten] = .ok summary := by
  rw [validatePieces_eq_ok_iff, validatePieces_eq_ok_iff, List.flatten_singleton]

end Pieces

end VeloxRag.Ingestion
