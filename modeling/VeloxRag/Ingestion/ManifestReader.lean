import VeloxRag.Ingestion.ManifestSpec

/-!
# What the manifest reader accepts

The lines that come out of a stream of blocks are those of its bytes, and so is the error after
them: a line that is too long is refused as soon as enough of it has been buffered, or when it is
complete, and after the same lines either way.  What the reader makes of the lines does not look at
the blocks, so neither does the whole.

It ends without an error where the bytes are lines of canonical JSON within the limit: a header that
equals the one it wants, as the source compares dictionaries, and the records of as many chunks as
it expects, with indices from zero.

## Main definitions

* `linesOf` — the lines of some bytes, and how they end.
* `CanonicalManifest` — the manifests that are accepted.
* `iterVerifiedManifestBatches_accepts` — these and no others, however the bytes are cut.
-/

namespace VeloxRag.Ingestion

open VeloxRag.Lib

variable {P : Platform}

/-! ## Draining a buffer -/

theorem findIdx?_newline_append {data : Bytes} {position : ℕ}
    (h : data.findIdx? (· = newline) = some position) (more : Bytes) :
    (data ++ more).findIdx? (· = newline) = some position := by
  rw [List.findIdx?_append, h]
  rfl

theorem position_lt {data : Bytes} {position : ℕ} (h : data.findIdx? (· = newline) = some position) :
    position < data.length := by
  rw [List.findIdx?_eq_some_iff_getElem] at h
  exact h.1

theorem findIdx?_newline_none {data : Bytes} :
    data.findIdx? (· = newline) = none ↔ newline ∉ data := by
  rw [List.findIdx?_eq_none_iff]
  constructor
  · intro h hmem
    simpa using h newline hmem
  · intro h byte hbyte
    have : byte ≠ newline := fun heq => h (heq ▸ hbyte)
    simpa using this

/-- More fuel than bytes makes no difference. -/
theorem drainLines_fuel (fuel : ℕ) : ∀ {fuel' : ℕ} {data : Bytes}, data.length ≤ fuel →
    data.length ≤ fuel' → drainLines fuel data = drainLines fuel' data := by
  induction fuel with
  | zero =>
      intro fuel' data h _
      obtain rfl := List.length_eq_zero_iff.mp (Nat.le_zero.mp h)
      cases fuel' <;> rfl
  | succ fuel ih =>
      intro fuel' data h h'
      cases hfind : data.findIdx? (· = newline) with
      | none =>
          cases fuel' with
          | zero =>
              obtain rfl := List.length_eq_zero_iff.mp (Nat.le_zero.mp h')
              rfl
          | succ fuel' => rw [drainLines, drainLines, hfind]
      | some position =>
          have hlt := position_lt hfind
          cases fuel' with
          | zero => omega
          | succ fuel' =>
              have hrest : drainLines fuel (data.drop (position + 1)) =
                  drainLines fuel' (data.drop (position + 1)) :=
                ih (by rw [List.length_drop]; omega) (by rw [List.length_drop]; omega)
              rw [drainLines, drainLines, hfind]
              dsimp only
              rw [hrest]

/-- A drained buffer has no line break left. -/
theorem newline_not_mem_drained (fuel : ℕ) : ∀ {data rest : Bytes}, data.length ≤ fuel →
    (drainLines fuel data).2 = some rest → newline ∉ rest := by
  induction fuel with
  | zero =>
      intro data rest hlen h
      obtain rfl := List.length_eq_zero_iff.mp (Nat.le_zero.mp hlen)
      rw [drainLines] at h
      cases h
      exact List.not_mem_nil
  | succ fuel ih =>
      intro data rest hlen h
      rw [drainLines] at h
      cases hfind : data.findIdx? (· = newline) with
      | none =>
          rw [hfind] at h
          cases h
          exact findIdx?_newline_none.mp hfind
      | some position =>
          have hlt := position_lt hfind
          rw [hfind] at h
          dsimp only at h
          split at h
          · cases h
          · split at h
            · cases h
            · exact ih (by rw [List.length_drop]; omega) h

/-- **Draining a part first**: the lines that are complete come out, and what is left is drained with
the rest. -/
theorem drainLines_append (fuel : ℕ) : ∀ {data : Bytes} (more : Bytes), data.length ≤ fuel →
    drainLines (data ++ more).length (data ++ more) =
      match drainLines fuel data with
      | (lines, none) => (lines, none)
      | (lines, some rest) =>
          let drained := drainLines (rest ++ more).length (rest ++ more)
          (lines ++ drained.1, drained.2) := by
  induction fuel with
  | zero =>
      intro data more hlen
      obtain rfl := List.length_eq_zero_iff.mp (Nat.le_zero.mp hlen)
      rfl
  | succ fuel ih =>
      intro data more hlen
      cases hfind : data.findIdx? (· = newline) with
      | none =>
          have hdrain : drainLines (fuel + 1) data = ([], some data) := by rw [drainLines, hfind]
          rw [hdrain]
          rfl
      | some position =>
          have hlt := position_lt hfind
          -- the whole has the same first line
          obtain ⟨fuel', hfuel'⟩ : ∃ fuel', (data ++ more).length = fuel' + 1 :=
            ⟨(data ++ more).length - 1, by rw [List.length_append]; omega⟩
          have htake : (data ++ more).take (position + 1) = data.take (position + 1) :=
            List.take_append_of_le_length (by omega)
          have hdrop : (data ++ more).drop (position + 1) = data.drop (position + 1) ++ more :=
            List.drop_append_of_le_length (by omega)
          have hlater : drainLines fuel' (data.drop (position + 1) ++ more) =
              drainLines (data.drop (position + 1) ++ more).length
                (data.drop (position + 1) ++ more) := by
            refine drainLines_fuel _ ?_ (le_refl _)
            rw [← hdrop, List.length_drop]
            omega
          rw [hfuel', drainLines, findIdx?_newline_append hfind, drainLines, hfind]
          dsimp only
          rw [htake, hdrop, hlater, ih more (by rw [List.length_drop]; omega)]
          by_cases hlong : maxManifestLineBytes < position + 1
          · rw [if_pos hlong, if_pos hlong]
          · rw [if_neg hlong, if_neg hlong]
            by_cases hblank : data.take (position + 1) = [newline]
            · rw [if_pos hblank, if_pos hblank]
            · rw [if_neg hblank, if_neg hblank]
              generalize drainLines fuel (data.drop (position + 1)) = drained
              obtain ⟨lines, _ | rest⟩ := drained <;> rfl

/-! ## The lines of a stream -/

/-- The lines of some bytes, and how they end. -/
def linesOf (data : Bytes) : Generated Bytes ManifestError :=
  match drainLines data.length data with
  | (lines, some []) => ⟨lines, .done⟩
  | (lines, _) => ⟨lines, .raised .invalid⟩

theorem linesOf_no_newline {data : Bytes} (hno : newline ∉ data) (hne : data ≠ []) :
    linesOf data = ⟨[], .raised .invalid⟩ := by
  have hdrain : drainLines data.length data = ([], some data) := by
    cases hlen : data.length with
    | zero => exact absurd (List.length_eq_zero_iff.mp hlen) hne
    | succ fuel => rw [drainLines, findIdx?_newline_none.mpr hno]
  rw [linesOf, hdrain]
  cases data with
  | nil => exact absurd rfl hne
  | cons byte data => rfl

/-- A line that is too long is refused before it ends. -/
theorem linesOf_long {data : Bytes} (hlong : maxManifestLineBytes < data.length)
    (hno : newline ∉ data) (more : Bytes) : linesOf (data ++ more) = ⟨[], .raised .invalid⟩ := by
  by_cases hmem : newline ∈ data ++ more
  swap
  · apply linesOf_no_newline hmem
    intro hnil
    rw [(List.append_eq_nil_iff.mp hnil).1] at hlong
    exact absurd hlong (Nat.not_lt_zero _)
  cases hfind : (data ++ more).findIdx? (· = newline) with
  | none => exact absurd hmem (findIdx?_newline_none.mp hfind)
  | some position =>
      have hbeyond : data.length ≤ position := by
        rw [List.findIdx?_append, findIdx?_newline_none.mpr hno] at hfind
        simp only [Option.none_or, Option.map_eq_some_iff] at hfind
        obtain ⟨after, -, rfl⟩ := hfind
        exact Nat.le_add_left _ _
      have hlt := position_lt hfind
      have hdrain : drainLines (data ++ more).length (data ++ more) = ([], none) := by
        obtain ⟨fuel, hfuel⟩ : ∃ fuel, (data ++ more).length = fuel + 1 :=
          ⟨(data ++ more).length - 1, by omega⟩
        rw [hfuel, drainLines, hfind]
        dsimp only
        rw [if_pos (by omega)]
      rw [linesOf, hdrain]

/-- **The lines of a stream** are those of its bytes. -/
theorem manifestLines_eq (blocks : List Bytes) : ∀ {buffered : Bytes}, newline ∉ buffered →
    manifestLines blocks buffered = linesOf (buffered ++ blocks.flatten) := by
  induction blocks with
  | nil =>
      intro buffered hno
      rw [manifestLines, List.flatten_nil, List.append_nil]
      by_cases hne : buffered = []
      · rw [hne]
        rfl
      · rw [if_pos hne, linesOf_no_newline hno hne]
  | cons block blocks ih =>
      intro buffered hno
      rw [manifestLines, List.flatten_cons, ← List.append_assoc]
      dsimp only
      by_cases hlong : maxManifestLineBytes < (buffered ++ block).length ∧
          newline ∉ buffered ++ block
      · rw [if_pos hlong, linesOf_long hlong.1 hlong.2]
      · rw [if_neg hlong, linesOf, drainLines_append _ blocks.flatten (le_refl _)]
        have hdrained := @newline_not_mem_drained (buffered ++ block).length (buffered ++ block)
        generalize hdrain : drainLines (buffered ++ block).length (buffered ++ block) = drained
        rw [hdrain] at hdrained
        obtain ⟨lines, _ | rest⟩ := drained
        · rfl
        · dsimp only
          rw [ih (hdrained (le_refl _) rfl), linesOf]
          generalize drainLines (rest ++ blocks.flatten).length (rest ++ blocks.flatten) = later
          obtain ⟨more, _ | _ | _⟩ := later <;> rfl

theorem manifestLines_nil (stream : List Bytes) :
    manifestLines stream [] = linesOf stream.flatten :=
  manifestLines_eq stream List.not_mem_nil

/-- What has been drained was there. -/
theorem drainLines_eq (fuel : ℕ) : ∀ {data rest : Bytes} {lines : List Bytes},
    drainLines fuel data = (lines, some rest) →
    data = lines.flatten ++ rest ∧ ∀ line ∈ lines, Acceptable line := by
  induction fuel with
  | zero =>
      intro data rest lines h
      rw [drainLines] at h
      cases h
      exact ⟨rfl, fun line hline => absurd hline List.not_mem_nil⟩
  | succ fuel ih =>
      intro data rest lines h
      rw [drainLines] at h
      cases hfind : data.findIdx? (· = newline) with
      | none =>
          rw [hfind] at h
          cases h
          exact ⟨rfl, fun line hline => absurd hline List.not_mem_nil⟩
      | some position =>
          rw [hfind] at h
          dsimp only at h
          split at h
          · cases h
          rename_i hshort
          split at h
          · cases h
          rename_i hblank
          generalize hdrain : drainLines fuel (data.drop (position + 1)) = drained at h
          obtain ⟨later, rest'⟩ := drained
          cases h
          obtain ⟨hflat, hlines⟩ := ih hdrain
          obtain ⟨front, back, rfl, hlen, hfront⟩ := findIdx?_delimiter hfind
          have htake : (front ++ newline :: back).take (position + 1) = front ++ [newline] := by
            rw [← hlen, List.take_length_add_append]
            rfl
          constructor
          · rw [List.flatten_cons, List.append_assoc, ← hflat, List.take_append_drop]
          · rw [List.forall_mem_cons]
            refine ⟨⟨⟨front, htake, hfront⟩, hblank, ?_⟩, hlines⟩
            rw [List.length_take]
            omega

/-- **Bytes that end well** are lines that are acceptable. -/
theorem linesOf_eq_done {data : Bytes} {lines : List Bytes} :
    linesOf data = ⟨lines, .done⟩ ↔ data = lines.flatten ∧ ∀ line ∈ lines, Acceptable line := by
  constructor
  · intro h
    rw [linesOf] at h
    generalize hdrain : drainLines data.length data = drained at h
    obtain ⟨front, _ | _ | _⟩ := drained
    · cases h
    · cases h
      obtain ⟨hflat, hlines⟩ := drainLines_eq _ hdrain
      rw [List.append_nil] at hflat
      exact ⟨hflat, hlines⟩
    · cases h
  · rintro ⟨rfl, hlines⟩
    have hread := manifestLines_blocks [lines.flatten] hlines List.not_mem_nil (by simp)
    rw [manifestLines_nil, List.flatten_singleton] at hread
    exact hread

/-! ## Documents -/

/-- **A document is read** from its canonical line and from nothing else. -/
theorem manifestDocument_eq_some {line : Bytes} {document : Mapping P} :
    manifestDocument line = some document ↔
      document.sorted = document ∧ canonicalLine document.json = some line := by
  constructor
  · intro h
    have hline : canonicalLine document.json = some line := by
      unfold manifestDocument at h
      split at h
      · split at h
        · rename_i hcanonical
          cases h
          exact hcanonical
        · cases h
      · cases h
    have hread := manifestDocument_canonicalLine document hline
    exact ⟨Option.some.inj (hread.symm.trans h), hline⟩
  · rintro ⟨hsorted, hline⟩
    rw [manifestDocument_canonicalLine document hline, hsorted]

/-! ## Records -/

theorem asNat_eq_some {value : Json P.Float} {n : ℕ} (h : asNat value = some n) :
    value = .int n := by
  unfold asNat at h
  split at h
  · rename_i i
    split at h
    · rename_i hi
      cases h
      rw [Int.toNat_of_nonneg hi]
    · cases h
  · cases h

theorem asStr_eq_some {value : Json P.Float} {s : Str} (h : asStr value = some s) :
    value = .str s := by
  unfold asStr at h
  split at h
  · cases h
    rfl
  · cases h

theorem asItems_eq_some {value : Json P.Float} {items : List (Json P.Float)}
    (h : asItems value = some items) : value = .arr items := by
  unfold asItems at h
  split at h
  · cases h
    rfl
  · cases h

theorem mapM_asStr_eq_some {values : List (Json P.Float)} :
    ∀ {titles : List Str}, values.mapM asStr = some titles → values = titles.map .str := by
  induction values with
  | nil =>
      intro titles h
      cases h
      rfl
  | cons value values ih =>
      intro titles h
      rw [List.mapM_cons] at h
      simp only [Option.bind_eq_bind, Option.bind_eq_some_iff, Option.pure_def,
        Option.some.injEq] at h
      obtain ⟨title, htitle, more, hmore, rfl⟩ := h
      rw [asStr_eq_some htitle, ih hmore, List.map_cons]

theorem dictAt_eq_some {document : Mapping P} {key : Str} {value : Mapping P}
    (h : dictAt document key = some value) : document.members.lookup key = some value.json := by
  unfold dictAt at h
  split at h
  · rename_i members hlookup
    cases h
    exact hlookup
  · cases h

theorem Chunk.make_eq_ok {chunkIndex : ℕ} {text chunkHash : Str} {startOffset endOffset : ℕ}
    {titlePath : List Str} {metadata : Mapping P} {chunk : Chunk P}
    (h : Chunk.make chunkIndex text chunkHash startOffset endOffset titlePath metadata = .ok chunk) :
    chunk.chunkIndex = chunkIndex ∧ chunk.text = text ∧ chunk.chunkHash = chunkHash ∧
      chunk.startOffset = startOffset ∧ chunk.endOffset = endOffset ∧ chunk.titlePath = titlePath ∧
      chunk.metadata = metadata.sorted := by
  unfold Chunk.make at h
  split at h
  swap
  · cases h
  split at h
  · cases h
  rename_i frozen hfreeze
  split at h
  swap
  · cases h
  split at h
  · cases h
  split at h
  swap
  · cases h
  cases h
  refine ⟨rfl, rfl, rfl, rfl, rfl, rfl, ?_⟩
  unfold freezeMapping at hfreeze
  split at hfreeze
  · cases hfreeze
    rfl
  · cases hfreeze

/-- **A chunk is read** from its own record. -/
theorem manifestChunk_eq_some {document : Mapping P} {index : ℕ} {chunk : Chunk P}
    (h : manifestChunk document index = some chunk) :
    chunk.chunkIndex = index ∧ document.sorted = (recordMapping chunk).sorted := by
  unfold manifestChunk at h
  dsimp only at h
  split at h
  swap
  · cases h
  rename_i hkeys
  simp only [Option.bind_eq_bind, Option.bind_eq_some_iff] at h
  obtain ⟨n, ⟨nValue, hn, hnValue⟩, text, ⟨textValue, htext, htextValue⟩,
    hash, ⟨hashValue, hhash, hhashValue⟩, start, ⟨startValue, hstart, hstartValue⟩,
    stop, ⟨stopValue, hstop, hstopValue⟩, items, ⟨itemsValue, hitems, hitemsValue⟩,
    titles, htitles, metadata, hmetadata, made, hmade, h⟩ := h
  split at h
  swap
  · cases h
  rename_i hindex
  obtain rfl := Option.some.inj h
  refine ⟨hindex, ?_⟩
  obtain rfl := asNat_eq_some hnValue
  obtain rfl := asStr_eq_some htextValue
  obtain rfl := asStr_eq_some hhashValue
  obtain rfl := asNat_eq_some hstartValue
  obtain rfl := asNat_eq_some hstopValue
  obtain rfl := asItems_eq_some hitemsValue
  obtain rfl := mapM_asStr_eq_some htitles
  have hmetadata' := dictAt_eq_some hmetadata
  have hmake : Chunk.make n text hash start stop titles metadata = .ok made := by
    generalize Chunk.make n text hash start stop titles metadata = result at hmade
    cases result with
    | error error => cases hmade
    | ok made' =>
        cases hmade
        rfl
  obtain ⟨hn', htext', hhash', hstart', hstop', htitles', hmetadata''⟩ := Chunk.make_eq_ok hmake
  -- the members are those of the record, but for the metadata, which the chunk has sorted
  let members : JsonMembers P.Float := [
    ("chunk_index".toList, .int n), ("text".toList, .str text), ("chunk_hash".toList, .str hash),
    ("start_offset".toList, .int start), ("end_offset".toList, .int stop),
    ("title_path".toList, .arr (titles.map .str)), ("metadata".toList, metadata.json)]
  have hunique := document.unique
  rw [Json.uniqueKeys_obj] at hunique
  have hperm : document.members.Perm members := by
    have hnodup : (members.map (·.1)).Nodup := (by decide +kernel : recordKeys.Nodup)
    apply Json.perm_of_lookup hunique.1 hnodup hkeys.2
    intro m hm
    simp only [members, List.mem_cons, List.not_mem_nil, or_false] at hm
    rcases hm with rfl | rfl | rfl | rfl | rfl | rfl | rfl
    all_goals assumption
  apply Mapping.ext_json
  rw [Mapping.json_sorted, Mapping.json_sorted, Mapping.json, Mapping.json, Json.sorted_obj,
    Json.sorted_obj]
  congr 1
  have hrecord : members.map (fun m => (m.1, m.2.sorted)) =
      (recordMapping made).members.map fun m => (m.1, m.2.sorted) := by
    simp only [members, recordMapping, List.map_cons, List.map_nil, hn', htext', hhash', hstart',
      hstop', htitles', hmetadata'', Mapping.json_sorted, Json.sorted_sorted]
  rw [← hrecord]
  apply Json.sortKeys_eq_of_perm (hperm.map _)
  rw [Json.keys_map_sorted]
  exact hunique.1

/-- **A record is accepted** when it is the record of a chunk. -/
theorem manifestChunk_line {line : Bytes} {document : Mapping P} {index : ℕ} {chunk : Chunk P}
    (hdocument : manifestDocument line = some document)
    (hchunk : manifestChunk document index = some chunk) :
    chunk.chunkIndex = index ∧ chunkManifestRecordBytes chunk = some line := by
  obtain ⟨hindex, heq⟩ := manifestChunk_eq_some hchunk
  obtain ⟨hsorted, hline⟩ := manifestDocument_eq_some.mp hdocument
  refine ⟨hindex, ?_⟩
  have hjson : (recordMapping chunk).json.sorted = document.json := by
    rw [← Mapping.json_sorted, ← heq, hsorted]
  rw [chunkManifestRecordBytes, canonicalLine]
  rw [canonicalLine, ← hjson, canonicalJsonBytes_sorted] at hline
  exact hline

/-! ## The loop -/

section Loop

variable {expected : ManifestExpectation P} {nextChunkIndex batchSize : ℕ}

theorem nextLine_done {lineNumber : ℕ} {rest : Generated (List (Chunk P)) ManifestError}
    (h : (nextLine expected lineNumber rest).outcome = .done) : rest.outcome = .done := by
  rw [nextLine] at h
  split at h
  · cases h
  · exact h

/-- **The batch loop completes** over the records that are left and no others. -/
theorem batchLoop_done {outcome : Outcome ManifestError} (lines : List Bytes) :
    ∀ {index : ℕ} {batch : List (Chunk P)},
    (batchLoop expected nextChunkIndex batchSize outcome lines (index + 1) batch).outcome = .done →
    outcome = .done ∧ ∃ chunks : List (Chunk P), RecordsFrom index lines chunks ∧
      index + chunks.length = expected.chunkCount := by
  induction lines with
  | nil =>
      intro index batch h
      unfold batchLoop at h
      split at h
      · split at h
        · cases h
        · exact ⟨rfl, [], .nil index, by rw [List.length_nil]; omega⟩
      · exact ⟨h, absurd h (by assumption)⟩
  | cons line lines ih =>
      intro index batch h
      rw [batchLoop] at h
      cases hdocument : manifestDocument (P := P) line with
      | none =>
          rw [hdocument] at h
          cases h
      | some document =>
          rw [hdocument] at h
          dsimp only at h
          rw [if_neg (Nat.succ_ne_zero index), Nat.add_sub_cancel] at h
          cases hchunk : manifestChunk document index with
          | none =>
              rw [hchunk] at h
              cases h
          | some chunk =>
              rw [hchunk] at h
              dsimp only at h
              obtain ⟨hindex, hline⟩ := manifestChunk_line hdocument hchunk
              -- however the batches fall, the loop goes on with the next record
              have hlater : outcome = .done ∧ ∃ chunks : List (Chunk P),
                  RecordsFrom (index + 1) lines chunks ∧
                  index + 1 + chunks.length = expected.chunkCount := by
                split at h
                · split at h
                  · exact ih (nextLine_done h)
                  · exact ih (nextLine_done h)
                · exact ih (nextLine_done h)
              obtain ⟨hdone, chunks, hrecords, hcount⟩ := hlater
              refine ⟨hdone, chunk :: chunks, .cons hline hindex hrecords, ?_⟩
              rw [List.length_cons]
              omega

end Loop

/-! ## Manifests -/

/-- A canonical manifest that meets an expectation: lines within the limit, the first of which holds
a dictionary that equals the wanted header, and after it the records of the expected number of
chunks, with indices from zero. -/
structure CanonicalManifest (expected : ManifestExpectation P) (data header : Bytes)
    (records : List Bytes) (document : Mapping P) (chunks : List (Chunk P)) : Prop where
  data_eq : data = (header :: records).flatten
  length_le : ∀ line ∈ header :: records, line.length ≤ maxManifestLineBytes
  header_eq : canonicalLine document.json = some header
  keys_sorted : document.sorted = document
  wanted : Json.pyEq P.floats document.json expected.wanted = true
  configHash : chunkerConfigHash expected.chunkerName expected.chunkerVersion
    expected.chunkerConfig.sorted = some expected.chunkConfigHash
  recordsFrom : RecordsFrom 0 records chunks
  count : chunks.length = expected.chunkCount

section Accepts

variable {expected : ManifestExpectation P} {nextChunkIndex batchSize : ℕ}

/-- What the reader is asked for is within its bounds. -/
def InBounds (expected : ManifestExpectation P) (nextChunkIndex batchSize : ℕ) : Prop :=
  nextChunkIndex ≤ expected.chunkCount ∧ 1 ≤ batchSize ∧ batchSize ≤ maxBatchSize

theorem iterVerifiedManifestBatches_eq (stream : List Bytes) :
    iterVerifiedManifestBatches expected nextChunkIndex batchSize stream =
      iterVerifiedManifestBatches expected nextChunkIndex batchSize [stream.flatten] := by
  rw [iterVerifiedManifestBatches, iterVerifiedManifestBatches, manifestLines_nil,
    manifestLines_nil, List.flatten_singleton]

/-- A canonical manifest is accepted, and its chunks come out. -/
theorem CanonicalManifest.accepted {data header : Bytes} {records : List Bytes}
    {document : Mapping P} {chunks : List (Chunk P)}
    (h : CanonicalManifest expected data header records document chunks)
    (hbounds : InBounds expected nextChunkIndex batchSize) {stream : List Bytes}
    (hstream : stream.flatten = data) :
    ∃ batches, iterVerifiedManifestBatches expected nextChunkIndex batchSize stream =
        ⟨batches, .done⟩ ∧ Batched batchSize (chunks.drop nextChunkIndex) batches := by
  have hacceptable : ∀ line ∈ header :: records, Acceptable line := by
    intro line hline
    have hcanonical : ∃ value : Json P.Float, canonicalLine value = some line := by
      rcases List.mem_cons.mp hline with rfl | hmem
      · exact ⟨_, h.header_eq⟩
      · exact h.recordsFrom.lines line hmem
    obtain ⟨value, hvalue⟩ := hcanonical
    obtain ⟨hrecord, hblank⟩ := canonicalLine_record hvalue
    exact ⟨hrecord, hblank, h.length_le line hline⟩
  have hread : manifestLines stream [] = ⟨header :: records, .done⟩ :=
    manifestLines_blocks stream hacceptable List.not_mem_nil
      (by rw [List.nil_append, hstream, h.data_eq])
  have hdocument : manifestDocument header = some document :=
    manifestDocument_eq_some.mpr ⟨h.keys_sorted, h.header_eq⟩
  have hvalid : validateManifestHeader document expected = true := by
    rw [validateManifestHeader, h.wanted, h.configHash]
    simp
  have hcount := h.count
  obtain ⟨batches, hrun, hbatched⟩ := @batchLoop_records P expected nextChunkIndex batchSize
    hbounds.2.1 _ _ _ h.recordsFrom [] (by omega)
    (by rw [List.length_nil]; exact Nat.lt_of_lt_of_le Nat.zero_lt_one hbounds.2.1)
  refine ⟨batches, ?_, ?_⟩
  · obtain ⟨hnext, hsize⟩ := hbounds
    rw [iterVerifiedManifestBatches, if_pos ⟨hnext, hsize⟩]
    dsimp only
    rw [hread, batchLoop, hdocument]
    dsimp only
    rw [if_pos rfl, if_pos hvalid, nextLine, if_neg (by omega)]
    exact hrun
  · rw [List.nil_append, h.recordsFrom.filter_eq, Nat.sub_zero] at hbatched
    exact hbatched

/-- What is accepted is a canonical manifest. -/
theorem canonicalManifest_of_accepted {stream : List Bytes}
    (h : (iterVerifiedManifestBatches expected nextChunkIndex batchSize stream).outcome = .done) :
    InBounds expected nextChunkIndex batchSize ∧ ∃ header records document chunks,
      CanonicalManifest expected stream.flatten header records document chunks := by
  rw [iterVerifiedManifestBatches] at h
  split at h
  swap
  · cases h
  rename_i hbounds
  refine ⟨hbounds, ?_⟩
  dsimp only at h
  rw [manifestLines_nil] at h
  generalize hlines : linesOf stream.flatten = lines at h
  obtain ⟨lines, outcome⟩ := lines
  cases lines with
  | nil =>
      -- without a line the header is missing
      unfold batchLoop at h
      split at h
      · rw [if_pos (by omega)] at h
        cases h
      · exact absurd h (by assumption)
  | cons header records =>
      rw [batchLoop] at h
      cases hdocument : manifestDocument (P := P) header with
      | none =>
          rw [hdocument] at h
          cases h
      | some document =>
          rw [hdocument] at h
          dsimp only at h
          rw [if_pos rfl] at h
          split at h
          swap
          · cases h
          rename_i hvalid
          obtain ⟨rfl, chunks, hrecords, hcount⟩ := batchLoop_done records (nextLine_done h)
          obtain ⟨hflat, hacceptable⟩ := linesOf_eq_done.mp hlines
          obtain ⟨hsorted, hheader⟩ := manifestDocument_eq_some.mp hdocument
          rw [validateManifestHeader, Bool.and_eq_true, decide_eq_true_eq] at hvalid
          exact ⟨header, records, document, chunks, {
            data_eq := hflat
            length_le := fun line hline => (hacceptable line hline).length_le
            header_eq := hheader
            keys_sorted := hsorted
            wanted := hvalid.1
            configHash := hvalid.2
            recordsFrom := hrecords
            count := by omega }⟩

end Accepts

/-- **What the manifest reader accepts**: within the bounds of its arguments, the canonical manifests
and no others, and neither its outcome nor its batches depend on how the bytes are cut.  The digest
of the whole is not among what it checks. -/
theorem iterVerifiedManifestBatches_accepts (expected : ManifestExpectation P)
    (nextChunkIndex batchSize : ℕ) (stream : List Bytes) :
    ((iterVerifiedManifestBatches expected nextChunkIndex batchSize stream).outcome = .done ↔
      InBounds expected nextChunkIndex batchSize ∧ ∃ header records document chunks,
        CanonicalManifest expected stream.flatten header records document chunks) ∧
    ∀ stream' : List Bytes, stream'.flatten = stream.flatten →
      iterVerifiedManifestBatches expected nextChunkIndex batchSize stream' =
        iterVerifiedManifestBatches expected nextChunkIndex batchSize stream := by
  constructor
  · constructor
    · exact canonicalManifest_of_accepted
    · rintro ⟨hbounds, header, records, document, chunks, h⟩
      obtain ⟨batches, hrun, -⟩ := h.accepted hbounds rfl
      rw [hrun]
  · intro stream' hflat
    rw [iterVerifiedManifestBatches_eq stream', hflat, ← iterVerifiedManifestBatches_eq stream]

/-! ## A manifest with another header -/

namespace EndingSample

/-- A platform whose digest only tells whether the data end with a line break. -/
def platform : Platform :=
  { Platform.ascii with
    sha256 := fun data => List.replicate 64 (if data.getLast? = some newline then '1' else '0')
    isSha256_sha256 := by
      intro data
      split <;> decide }

theorem sha256_eq (data : Bytes) : platform.sha256 data =
    List.replicate 64 (if data.getLast? = some newline then '1' else '0') := rfl

/-- No canonical JSON ends with a line break. -/
theorem sha256_canonical {value : Json platform.Float} {hash : Str}
    (h : canonicalSha256 platform value = some hash) : hash = List.replicate 64 '0' := by
  obtain ⟨data, hdata, rfl⟩ := Option.map_eq_some_iff.mp h
  have hline : canonicalLine value = some (data ++ [newline]) := by
    rw [canonicalLine, hdata]
    rfl
  obtain ⟨body, hbody, hno⟩ := (canonicalLine_record hline).1
  obtain rfl := List.append_cancel_right hbody
  have hlast : data.getLast? ≠ some newline := fun hlast => hno (List.mem_of_getLast? hlast)
  rw [sha256_eq, if_neg hlast]

/-- The first letter of a document. -/
def chunk : Chunk platform where
  chunkIndex := 0
  text := ['a']
  chunkHash := List.replicate 64 '0'
  startOffset := 0
  endOffset := 1
  titlePath := []
  metadata := Mapping.empty
  span_valid := spanValid_letter
  frozen := freezeMapping_empty
  hash_shape := isSha256_zeros
  hash_eq := by
    obtain ⟨hash, hhash, _⟩ := @chunkHashOf_empty platform ['a'] []
    rw [hhash, sha256_canonical hhash]

/-- One chunk is expected. -/
def expected : ManifestExpectation platform where
  sourceChecksum := List.replicate 64 '0'
  parsedChecksum := List.replicate 64 '0'
  parserName := "plain_text_v1".toList
  parserVersion := "1".toList
  parserConfig := Mapping.empty
  chunkerName := "whole_text_v1".toList
  chunkerVersion := "1".toList
  chunkerConfig := Mapping.empty
  chunkConfigHash := List.replicate 64 '0'
  createdAt := ⟨2024, 2, 29, 12, 30, 0, 0⟩
  chunkCount := 1

/-- The header that is wanted, with the count given as `true`. -/
def header : Mapping platform where
  members := [
    ("schema_version".toList, .str chunkSchemaVersion),
    ("source_checksum_sha256".toList, .str expected.sourceChecksum),
    ("parsed_checksum_sha256".toList, .str expected.parsedChecksum),
    ("parser".toList, .obj [
      ("name".toList, .str expected.parserName),
      ("version".toList, .str expected.parserVersion),
      ("config".toList, .obj [])]),
    ("chunker".toList, .obj [
      ("name".toList, .str expected.chunkerName),
      ("version".toList, .str expected.chunkerVersion),
      ("config".toList, .obj [])]),
    ("document_version_created_at".toList, .str (stableUtcTimestamp expected.createdAt)),
    ("chunk_count".toList, .bool true)]
  unique := by simp [Json.UniqueKeys, Json.UniqueKeysMembers]

theorem sorted_empty_mapping : (Mapping.empty : Mapping platform).sorted = Mapping.empty := by
  apply Mapping.ext_json
  rw [Mapping.json_sorted, sorted_empty]

theorem wanted_eq : expected.wanted = headerJson expected.sourceChecksum expected.parsedChecksum
    expected.parserName expected.parserVersion Mapping.empty expected.chunkerName
    expected.chunkerVersion Mapping.empty expected.createdAt 1 := by
  rw [ManifestExpectation.wanted]
  simp only [expected, sorted_empty_mapping]

/-- Python counts `true` as one. -/
theorem wanted : Json.pyEq platform.floats header.sorted.json expected.wanted = true := by
  rw [wanted_eq, headerJson, Mapping.json, Json.pyEq, Bool.and_eq_true, decide_eq_true_eq]
  constructor
  · rw [Mapping.sorted, (Json.sortKeys_perm _).length_eq]
    rfl
  · refine Json.pyEqMembers_of_lookup _ _ fun m hm => ?_
    obtain ⟨m', hm', rfl⟩ := List.mem_map.mp ((Json.sortKeys_perm _).mem_iff.mp hm)
    have hself : ∀ v : Json platform.Float, v.UniqueKeys →
        (Json.dumps platform.floats v).isSome = true →
        Json.pyEq platform.floats v.sorted v = true := fun v hunique hwrite =>
      Json.pyEq_sorted platform.floatLaws v hunique ((Json.isSome_dumps_sorted v).mpr hwrite)
    simp only [header, List.mem_cons, List.not_mem_nil, or_false] at hm'
    rcases hm' with rfl | rfl | rfl | rfl | rfl | rfl | rfl
    · exact ⟨_, rfl, hself _ trivial rfl⟩
    · exact ⟨_, rfl, hself _ trivial rfl⟩
    · exact ⟨_, rfl, hself _ trivial rfl⟩
    · exact ⟨_, rfl, hself _ (by simp [Json.UniqueKeys, Json.UniqueKeysMembers]) (by decide +kernel)⟩
    · exact ⟨_, rfl, hself _ (by simp [Json.UniqueKeys, Json.UniqueKeysMembers]) (by decide +kernel)⟩
    · exact ⟨_, rfl, hself _ trivial (by decide +kernel)⟩
    · exact ⟨.int 1, rfl, rfl⟩

theorem configHash : chunkerConfigHash expected.chunkerName expected.chunkerVersion
    expected.chunkerConfig.sorted = some expected.chunkConfigHash := by
  have hsome : (Json.dumps platform.floats (Json.sorted (.obj [
      ("config".toList, (Mapping.empty : Mapping platform).json),
      ("name".toList, .str expected.chunkerName),
      ("version".toList, .str expected.chunkerVersion)]))).isSome = true := by
    rw [Json.isSome_dumps_sorted]
    decide +kernel
  obtain ⟨text, htext⟩ := Option.isSome_iff_exists.mp hsome
  have hhash : chunkerConfigHash expected.chunkerName expected.chunkerVersion
      (Mapping.empty : Mapping platform) = some (platform.sha256 (encode text)) := by
    rw [chunkerConfigHash, canonicalSha256, canonicalJsonBytes, htext]
    rfl
  have hempty : expected.chunkerConfig.sorted = Mapping.empty := sorted_empty_mapping
  rw [hempty, hhash, sha256_canonical hhash]
  rfl

end EndingSample

/-- A manifest is accepted whose header counts the chunks with `true`, and no digest that the reader
expects is the digest of the bytes. -/
theorem iterVerifiedManifestBatches_unchecked : ∃ header record : Bytes,
    canonicalLine EndingSample.header.json = some header ∧
    chunkManifestRecordBytes EndingSample.chunk = some record ∧
    (iterVerifiedManifestBatches EndingSample.expected 0 1 [header ++ record]).outcome = .done ∧
    canonicalLine EndingSample.expected.wanted ≠ some header ∧
    EndingSample.platform.sha256 (header ++ record) ∉ [EndingSample.expected.sourceChecksum,
      EndingSample.expected.parsedChecksum, EndingSample.expected.chunkConfigHash] := by
  obtain ⟨header, hheader, hheaderLength⟩ := @canonicalLine_bound EndingSample.platform
    EndingSample.header.json (by decide +kernel)
  obtain ⟨record, hrecord, hrecordLength⟩ := @canonicalLine_bound EndingSample.platform
    EndingSample.chunk.asRecord (by decide +kernel)
  refine ⟨header, record, hheader, hrecord, ?_, ?_, ?_⟩
  · have hmanifest : CanonicalManifest EndingSample.expected (header ++ record) header [record]
        EndingSample.header.sorted [EndingSample.chunk] :=
      { data_eq := by simp
        length_le := by
          rw [List.forall_mem_cons, List.forall_mem_singleton]
          constructor
          · exact le_trans hheaderLength (by decide +kernel)
          · exact le_trans hrecordLength (by decide +kernel)
        header_eq := by
          rw [Mapping.json_sorted, canonicalLine, canonicalJsonBytes_sorted]
          exact hheader
        keys_sorted := Mapping.sorted_sorted _
        wanted := EndingSample.wanted
        configHash := EndingSample.configHash
        recordsFrom := .cons hrecord rfl (.nil 1)
        count := rfl }
    obtain ⟨batches, hrun, -⟩ := @CanonicalManifest.accepted _ _ 0 1 _ _ _ _ _ hmanifest
      ⟨by decide, by decide, by decide⟩ [header ++ record] (by simp)
    rw [hrun]
  · intro hwanted
    rw [EndingSample.wanted_eq] at hwanted
    have hread := manifestDocument_canonicalLine ⟨_, headerJson_unique ..⟩ hwanted
    rw [manifestDocument_canonicalLine EndingSample.header hheader, Option.some.injEq] at hread
    have hcount := lookup_sorted EndingSample.header
      (show ("chunk_count".toList, .bool true) ∈ _ by simp [EndingSample.header])
    rw [hread, lookup_sorted ⟨_, headerJson_unique ..⟩
      (show ("chunk_count".toList, Json.int 1) ∈ _ by simp)] at hcount
    cases hcount
  · obtain ⟨data, -, rfl⟩ := Option.map_eq_some_iff.mp hrecord
    have hlast : (header ++ (data ++ [newline])).getLast? = some newline := by
      rw [← List.append_assoc, List.getLast?_concat]
    have hdigest : EndingSample.platform.sha256 (header ++ (data ++ [newline])) =
        List.replicate 64 '1' := by
      rw [EndingSample.sha256_eq, if_pos hlast]
    rw [hdigest]
    decide

end VeloxRag.Ingestion
