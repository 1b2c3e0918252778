import VeloxRag.Ingestion.ManifestReader
import VeloxRag.Ingestion.MarkdownCover
import VeloxRag.Ingestion.Parsers

/-!
# The budget of a manifest

Before the chunk stage uploads a manifest it runs the chunker once to count the chunks and the bytes,
and stops when they do not fit.  The header, which holds the count, comes last.  Then the writer runs
the chunker again, checks every chunk against a third run, and the reader of batches cuts what it
writes into uploads.

The checks of the writer never fire on the chunks of the recursive chunker: its own loop refuses to
go back, and a chunk is the text of its span.  So the writer completes where every line can be
encoded and the chunker ends, and then the analysis has counted what is written.

## Main definitions

* `analyzeChunkManifest` — the analysis.
* `BatchReader`, `BatchReader.nextBatch`, `manifestStream` — the batches of an upload.
* `TilesFrom.recordLoop` — the writer completes on chunks that tile the text.
* `analyzeChunkManifest_agrees` — the analysis, the writer and the batches.
* `recursive_records_short` — the line limit of the reader stops no record of the recursive chunker.
-/

namespace VeloxRag.Ingestion

open VeloxRag.Lib

variable {P : Platform}

/-! ## The analysis -/

/-- What the analysis raises. -/
inductive AnalysisError
  /-- `ValueError("chunk manifest budget is invalid")`. -/
  | budgetInvalid
  /-- `_ManifestBudgetExceeded`. -/
  | budgetExceeded
  /-- `ValueError("ingestion stage state is invalid")`. -/
  | stageInvalid
  /-- `ValueError("chunk manifest is invalid")`. -/
  | manifestInvalid
  /-- An exception of the chunker. -/
  | chunker (error : ChunkError)
  /-- The chunker has not ended within its fuel. -/
  | running
deriving DecidableEq, Repr

/-- The loop of `_analyze_chunk_manifest`: the chunks and the bytes of their records. -/
def analyzeLoop (maxBytes : ℤ) (outcome : Outcome ChunkError) :
    List (Chunk P) → ℕ → ℕ → Except AnalysisError (ℕ × ℕ)
  | [], chunkCount, chunkBytes =>
      match outcome with
      | .done => .ok (chunkCount, chunkBytes)
      | .raised error => .error (.chunker error)
      | .running => .error .running
  | chunk :: chunks, chunkCount, chunkBytes =>
      match chunkManifestRecordBytes chunk with
      | none => .error .manifestInvalid
      | some line =>
          if maxBytes - chunkBytes < line.length then .error .budgetExceeded
          else analyzeLoop maxBytes outcome chunks (chunkCount + 1) (chunkBytes + line.length)

/-- `_analyze_chunk_manifest`: the number of chunks and of bytes of the manifest. -/
def analyzeChunkManifest (sourceChecksum : Str) (parsed : ParsedArtifact P)
    (chunker : RecursiveTextChunker) (createdAt : Timestamp) (maxBytes : ℤ) :
    Except AnalysisError (ℕ × ℕ) :=
  if maxBytes ≤ 0 then .error .budgetInvalid
  else
    let chunks : Generated (Chunk P) ChunkError := chunker.chunk parsed
    match analyzeLoop maxBytes chunks.outcome chunks.items 0 0 with
    | .error error => .error error
    | .ok (chunkCount, chunkBytes) =>
        if chunkCount < 1 then .error .stageInvalid
        else
          match chunkManifestHeaderBytes sourceChecksum parsed (chunker.toChunker P) createdAt
            chunkCount with
          | none => .error .manifestInvalid
          | some header =>
              if maxBytes - chunkBytes < header.length then .error .budgetExceeded
              else .ok (chunkCount, header.length + chunkBytes)

/-! ## Batches -/

/-- `_ManifestBatchReader`: the lines that are left, how they end, and a line of which a part has been
delivered, with the length of that part. -/
structure BatchReader where
  lines : List Bytes
  ending : Outcome ManifestError
  pending : Option (Bytes × ℕ)

namespace BatchReader

def new (lines : Generated Bytes ManifestError) : BatchReader := ⟨lines.items, lines.outcome, none⟩

/-- A turn of the loop of `next_batch` over one line, from an offset on: the batch ends with a part
of the line, or with all of it, or goes on. -/
def takeLine (batchBytes : ℕ) (ending : Outcome ManifestError) (lines : List Bytes) (line : Bytes)
    (offset size : ℕ) (goOn : ℕ → Except (Outcome ManifestError) (Bytes × BatchReader)) :
    Except (Outcome ManifestError) (Bytes × BatchReader) :=
  if line = [] then .error (.raised .invalid)
  else
    let available := line.length - offset
    let take := min available (batchBytes - size)
    let part := slice line offset (offset + take)
    if take < available then .ok (part, ⟨lines, ending, some (line, offset + take)⟩)
    else if batchBytes ≤ size + take then .ok (part, ⟨lines, ending, none⟩)
    else (goOn (size + take)).map fun batch => (part ++ batch.1, batch.2)

/-- The loop of `next_batch` while no line is pending. -/
def fill (batchBytes : ℕ) (ending : Outcome ManifestError) :
    List Bytes → ℕ → Except (Outcome ManifestError) (Bytes × BatchReader)
  | [], _ =>
      match ending with
      | .done => .ok ([], ⟨[], .done, none⟩)
      | outcome => .error outcome
  | line :: lines, size =>
      takeLine batchBytes ending lines line 0 size fun size => fill batchBytes ending lines size

/-- `next_batch`. -/
def nextBatch (batchBytes : ℕ) (reader : BatchReader) :
    Except (Outcome ManifestError) (Bytes × BatchReader) :=
  match reader.pending with
  | none => fill batchBytes reader.ending reader.lines 0
  | some (line, offset) =>
      takeLine batchBytes reader.ending reader.lines line offset 0 fun size =>
        fill batchBytes reader.ending reader.lines size

/-- The bytes that have not been delivered. -/
def remaining (reader : BatchReader) : Bytes :=
  (match reader.pending with
    | none => []
    | some (line, offset) => line.drop offset) ++ reader.lines.flatten

/-- A reader of lines that end well, none of them empty. -/
structure Reading (reader : BatchReader) : Prop where
  ending : reader.ending = .done
  nonempty : ∀ line ∈ reader.lines, line ≠ []
  pending : ∀ line offset, reader.pending = some (line, offset) → offset < line.length

/-- The batches of a number of calls. -/
def calls (batchBytes : ℕ) :
    ℕ → BatchReader → Except (Outcome ManifestError) (List Bytes × BatchReader)
  | 0, reader => .ok ([], reader)
  | n + 1, reader =>
      match reader.nextBatch batchBytes with
      | .error outcome => .error outcome
      | .ok (batch, reader) =>
          (calls batchBytes n reader).map fun batches => (batch :: batches.1, batches.2)

end BatchReader

/-- `_manifest_stream`: batches until one is empty. -/
def manifestStream (batchBytes : ℕ) : ℕ → BatchReader → Generated Bytes ManifestError
  | 0, _ => ⟨[], .running⟩
  | fuel + 1, reader =>
      match reader.nextBatch batchBytes with
      | .error outcome => ⟨[], outcome⟩
      | .ok (batch, reader) =>
          if batch = [] then ⟨[], .done⟩
          else (manifestStream batchBytes fuel reader).cons batch

/-! ## What a batch delivers -/

namespace BatchReader

variable {batchBytes : ℕ}

/-- What a call delivers of some bytes, when `size` bytes are in the batch already. -/
def Delivers (batchBytes size : ℕ) (data : Bytes)
    (result : Except (Outcome ManifestError) (Bytes × BatchReader)) : Prop :=
  ∃ batch reader, result = .ok (batch, reader) ∧ size + batch.length ≤ batchBytes ∧
    batch ++ reader.remaining = data ∧ reader.Reading ∧ (batch = [] → data = [])

theorem slice_append_drop {line : Bytes} {offset take : ℕ} :
    slice line offset (offset + take) ++ line.drop (offset + take) = line.drop offset := by
  rw [slice, Nat.add_sub_cancel_left, ← List.drop_drop, List.take_append_drop]

/-- **One line**, of which a part is left. -/
theorem takeLine_delivers {lines : List Bytes} (hlines : ∀ line ∈ lines, line ≠ []) {line : Bytes}
    {offset size : ℕ} (hoffset : offset < line.length) (hsize : size < batchBytes)
    {goOn : ℕ → Except (Outcome ManifestError) (Bytes × BatchReader)}
    (hgoOn : ∀ size', size < size' → size' < batchBytes →
      Delivers batchBytes size' lines.flatten (goOn size')) :
    Delivers batchBytes size (line.drop offset ++ lines.flatten)
      (takeLine batchBytes .done lines line offset size goOn) := by
  have hline : line ≠ [] := by
    rintro rfl
    exact absurd hoffset (Nat.not_lt_zero _)
  rw [takeLine, if_neg hline]
  dsimp only
  generalize htake : min (line.length - offset) (batchBytes - size) = take
  have hpart : (slice line offset (offset + take)).length = take := by
    have := @length_slice _ line offset (offset + take) (by omega)
    omega
  have hpos : slice line offset (offset + take) ≠ [] := by
    apply List.ne_nil_of_length_pos
    omega
  by_cases hshort : take < line.length - offset
  · rw [if_pos hshort]
    refine ⟨_, _, rfl, by omega, ?_, ⟨rfl, hlines, ?_⟩, fun h => absurd h hpos⟩
    · rw [remaining]
      dsimp only
      rw [← List.append_assoc, slice_append_drop]
    · rintro _ _ ⟨⟩
      omega
  · have hall : slice line offset (offset + take) = line.drop offset := by
      have := @slice_append_drop line offset take
      rwa [List.drop_of_length_le (show line.length ≤ offset + take by omega),
        List.append_nil] at this
    rw [if_neg hshort]
    by_cases hfull : batchBytes ≤ size + take
    · rw [if_pos hfull]
      refine ⟨_, _, rfl, by omega, ?_, ⟨rfl, hlines, nofun⟩, fun h => absurd h hpos⟩
      rw [hall]
      rfl
    · rw [if_neg hfull]
      obtain ⟨batch, reader, hresult, hlength, hflat, hreading, -⟩ :=
        hgoOn (size + take) (by omega) (by omega)
      refine ⟨slice line offset (offset + take) ++ batch, reader, by rw [hresult]; rfl, ?_, ?_,
        hreading, ?_⟩
      · rw [List.length_append, hpart]
        omega
      · rw [List.append_assoc, hflat, hall]
      · intro hnil
        exact absurd (List.append_eq_nil_iff.mp hnil).1 hpos

theorem fill_delivers (lines : List Bytes) : ∀ {size : ℕ}, (∀ line ∈ lines, line ≠ []) →
    size < batchBytes → Delivers batchBytes size lines.flatten (fill batchBytes .done lines size) := by
  induction lines with
  | nil =>
      intro size _ hsize
      exact ⟨[], ⟨[], .done, none⟩, rfl, hsize.le, rfl, ⟨rfl, nofun, nofun⟩, fun _ => rfl⟩
  | cons line lines ih =>
      intro size hlines hsize
      obtain ⟨hline, hlines⟩ := List.forall_mem_cons.mp hlines
      have := @takeLine_delivers batchBytes lines hlines line 0 size
        (List.length_pos_of_ne_nil hline) hsize (fun size => fill batchBytes .done lines size)
        (fun size' _ hsize' => ih hlines hsize')
      rwa [List.drop_zero] at this

/-- **A call** delivers the next bytes, at most as many as the limit, and none only when none are
left. -/
theorem nextBatch_delivers {reader : BatchReader} (h : reader.Reading) (hbytes : 0 < batchBytes) :
    Delivers batchBytes 0 reader.remaining (reader.nextBatch batchBytes) := by
  obtain ⟨lines, ending, pending⟩ := reader
  obtain ⟨hending, hlines, hpending⟩ := h
  dsimp only at hending hlines hpending
  subst hending
  cases pending with
  | none => exact fill_delivers lines hlines hbytes
  | some pending =>
      obtain ⟨line, offset⟩ := pending
      exact takeLine_delivers hlines (hpending line offset rfl) hbytes
        fun size' _ hsize' => fill_delivers lines hlines hsize'

/-- **Any number of calls**: the batches are within the limit and deliver the bytes in order, at
least one in each call while there are any, and a batch is empty only when all are delivered. -/
theorem calls_deliver (hbytes : 0 < batchBytes) (n : ℕ) : ∀ {reader : BatchReader}, reader.Reading →
    ∃ batches reader', reader.calls batchBytes n = .ok (batches, reader') ∧ batches.length = n ∧
      (∀ batch ∈ batches, batch.length ≤ batchBytes) ∧
      batches.flatten ++ reader'.remaining = reader.remaining ∧
      (reader'.remaining = [] ∨ n ≤ batches.flatten.length) ∧
      ∀ front back, batches = front ++ [] :: back → front.flatten = reader.remaining := by
  induction n with
  | zero =>
      intro reader _
      refine ⟨[], reader, rfl, rfl, nofun, rfl, .inr (le_refl 0), ?_⟩
      intro front back h
      exact absurd (congrArg List.length h) (by simp)
  | succ n ih =>
      intro reader hreading
      obtain ⟨batch, next, hnext, hlength, hflat, hreading', hempty⟩ :=
        nextBatch_delivers hreading hbytes
      obtain ⟨batches, last, hcalls, hcount, hbound, hflat', hprogress, hend⟩ := ih hreading'
      refine ⟨batch :: batches, last, ?_, ?_, ?_, ?_, ?_, ?_⟩
      · rw [calls, hnext]
        dsimp only
        rw [hcalls]
        rfl
      · rw [List.length_cons, hcount]
      · rw [List.forall_mem_cons]
        exact ⟨by omega, hbound⟩
      · rw [List.flatten_cons, List.append_assoc, hflat', hflat]
      · by_cases hnil : batch = []
        · left
          -- an empty batch: there was nothing left to deliver
          rw [hempty hnil] at hflat
          rw [(List.append_eq_nil_iff.mp hflat).2] at hflat'
          exact (List.append_eq_nil_iff.mp hflat').2
        · rcases hprogress with hdone | hmore
          · exact .inl hdone
          · right
            have := List.length_pos_of_ne_nil hnil
            rw [List.flatten_cons, List.length_append]
            omega
      · intro front back hsplit
        cases front with
        | nil =>
            obtain ⟨hnil, -⟩ := List.cons_eq_cons.mp hsplit
            exact (hempty hnil).symm
        | cons first front =>
            obtain ⟨rfl, rfl⟩ := List.cons_eq_cons.mp hsplit
            rw [List.flatten_cons, hend front back rfl, hflat]

end BatchReader

/-- **A stream of batches** ends, and is the lines again. -/
theorem manifestStream_delivers {batchBytes : ℕ} (hbytes : 0 < batchBytes) (fuel : ℕ) :
    ∀ {reader : BatchReader}, reader.Reading → reader.remaining.length < fuel →
    ∃ batches, manifestStream batchBytes fuel reader = ⟨batches, .done⟩ ∧
      batches.flatten = reader.remaining ∧
      ∀ batch ∈ batches, batch ≠ [] ∧ batch.length ≤ batchBytes := by
  induction fuel with
  | zero =>
      intro reader _ hfuel
      omega
  | succ fuel ih =>
      intro reader hreading hfuel
      obtain ⟨batch, next, hnext, hlength, hflat, hreading', hempty⟩ :=
        BatchReader.nextBatch_delivers hreading hbytes
      rw [manifestStream, hnext]
      dsimp only
      by_cases hnil : batch = []
      · rw [if_pos hnil]
        exact ⟨[], rfl, (hempty hnil).symm, nofun⟩
      · rw [if_neg hnil]
        have hpos := List.length_pos_of_ne_nil hnil
        have hshorter : next.remaining.length < fuel := by
          rw [← hflat, List.length_append] at hfuel
          omega
        obtain ⟨batches, hrun, hflat', hbatches⟩ := ih hreading' hshorter
        refine ⟨batch :: batches, by rw [hrun]; rfl, ?_, ?_⟩
        · rw [List.flatten_cons, hflat', hflat]
        · rw [List.forall_mem_cons]
          exact ⟨⟨hnil, by omega⟩, hbatches⟩

/-! ## What the writer checks -/

theorem Chunk.fromSource_eq_ok {chunkIndex : ℕ} {sourceText : Str} {startOffset endOffset : ℕ}
    {titlePath : List Str} {chunk : Chunk P}
    (h : Chunk.fromSource chunkIndex sourceText startOffset endOffset titlePath .empty = .ok chunk) :
    endOffset ≤ sourceText.length ∧ chunk.chunkIndex = chunkIndex ∧
      chunk.startOffset = startOffset ∧ chunk.endOffset = endOffset ∧
      chunk.text = slice sourceText startOffset endOffset ∧ chunk.metadata = .empty := by
  rw [Chunk.fromSource] at h
  split at h
  · cases h
  rename_i hspan
  rw [freezeMapping_empty] at h
  dsimp only at h
  split at h
  · cases h
  obtain ⟨hindex, htext, -, hstart, hend, -, hmetadata⟩ := Chunk.make_eq_ok h
  refine ⟨by omega, hindex, hstart, hend, htext, ?_⟩
  rw [hmetadata]
  apply Mapping.ext_json
  rw [Mapping.json_sorted, sorted_empty]

/-- **Whatever the boundaries are**, chunks of a loop that has ended tile the text: the loop itself
refuses to go back, and the constructor to leave the text. -/
theorem chunkLoop_done (chunker : RecursiveTextChunker) {text parserName : Str}
    {index : BoundaryIndex} (fuel : ℕ) : ∀ {state : ChunkState},
    (chunker.chunkLoop (P := P) text parserName index fuel state).outcome = .done →
    state.start ≤ state.previousEnd → state.previousEnd < text.length →
    TilesFrom text text.length state.start state.previousEnd state.chunkIndex
        (chunker.chunkLoop (P := P) text parserName index fuel state).items ∧
      ∀ chunk ∈ (chunker.chunkLoop (P := P) text parserName index fuel state).items,
        chunk.metadata = .empty := by
  induction fuel with
  | zero =>
      intro state h
      cases h
  | succ fuel ih =>
      intro state h hprev hinside
      rw [RecursiveTextChunker.chunkLoop, if_pos (by omega)] at h ⊢
      dsimp only at h ⊢
      generalize min (state.start + chunker.maxChunk) text.length = hardEnd at h ⊢
      generalize chooseEnd P.unicode text parserName index state.start state.previousEnd
        (state.start + chunker.targetOverlap) hardEnd (decide (hardEnd = text.length)) = chosen at h ⊢
      by_cases hback : chosen.1 ≤ state.previousEnd
      · rw [if_pos hback] at h ⊢
        generalize safeStart P.unicode text (state.start + 1) state.previousEnd state.start = reduced
          at h ⊢
        by_cases hstuck : reduced ≤ state.start ∨ state.previousEnd < reduced
        · rw [if_pos hstuck] at h
          cases h
        · rw [if_neg hstuck] at h ⊢
          obtain ⟨htiles, hmetadata⟩ := ih h (by dsimp only; omega) hinside
          exact ⟨htiles.mono (by dsimp only; omega), hmetadata⟩
      · rw [if_neg hback] at h ⊢
        generalize hstop : (if strip (slice text state.start chosen.1) = [] ∧ chosen.1 < hardEnd
          then hardEnd else chosen.1) = stop at h ⊢
        have hafter : state.previousEnd < stop := by
          rw [← hstop]
          split <;> omega
        cases htitle : titlePathAt index state.cache state.start with
        | error error =>
            rw [htitle] at h
            cases h
        | ok found =>
            obtain ⟨titlePath, cache⟩ := found
            rw [htitle] at h
            dsimp only at h ⊢
            cases hchunk : Chunk.fromSource (P := P) state.chunkIndex text state.start stop titlePath
              .empty with
            | error error =>
                rw [hchunk] at h
                cases h
            | ok chunk =>
                obtain ⟨hend, hindex, hstart, hstop', hsource, hmetadata⟩ :=
                  Chunk.fromSource_eq_ok hchunk
                rw [hchunk] at h
                dsimp only at h ⊢
                have hlength : chunk.text.length ≤ text.length := by
                  rw [chunk.length_text]
                  omega
                have hspan : (state.start ≤ chunk.startOffset ∧ chunk.startOffset ≤ state.previousEnd ∧
                    state.previousEnd < chunk.endOffset) ∧ chunk.chunkIndex = state.chunkIndex ∧
                    chunk.text = slice text chunk.startOffset chunk.endOffset ∧
                    chunk.text.length ≤ text.length := by
                  rw [hstart, hstop']
                  exact ⟨⟨le_refl _, hprev, hafter⟩, hindex, hsource, hlength⟩
                by_cases hlast : stop = text.length
                · rw [if_pos hlast]
                  refine ⟨⟨hspan.1, hspan.2.1, hspan.2.2.1, hspan.2.2.2, ?_⟩, ?_⟩
                  · show chunk.endOffset = text.length
                    rw [hstop', hlast]
                  · rw [List.forall_mem_singleton]
                    exact hmetadata
                · rw [if_neg hlast] at h ⊢
                  generalize (if chosen.2 = true then stop else
                    chooseOverlapStart P.unicode text parserName index state.start
                      (max (state.start + 1) (stop - chunker.targetOverlap)) stop) = nextStart at h ⊢
                  by_cases hstuck : nextStart ≤ state.start ∨ stop < nextStart
                  · rw [if_pos hstuck] at h
                    cases h
                  · rw [if_neg hstuck] at h ⊢
                    obtain ⟨htiles, hrest⟩ := ih h (by dsimp only; omega) (by dsimp only; omega)
                    refine ⟨⟨hspan.1, hspan.2.1, hspan.2.2.1, hspan.2.2.2, ?_⟩, ?_⟩
                    · rw [hstart, hstop']
                      exact htiles.mono (by dsimp only; omega)
                    · show ∀ c ∈ chunk :: _, _
                      rw [List.forall_mem_cons]
                      exact ⟨hmetadata, hrest⟩

/-- The lines are the records of the chunks. -/
def RecordLines (chunks : List (Chunk P)) (lines : List Bytes) : Prop :=
  List.Forall₂ (fun chunk line => chunkManifestRecordBytes chunk = some line) chunks lines

theorem exists_recordLines {chunks : List (Chunk P)} :
    (∃ lines, RecordLines chunks lines) ↔
      ∀ chunk ∈ chunks, (chunkManifestRecordBytes chunk).isSome = true := by
  induction chunks with
  | nil => exact ⟨fun _ => nofun, fun _ => ⟨[], .nil⟩⟩
  | cons chunk chunks ih =>
      rw [List.forall_mem_cons, ← ih]
      constructor
      · rintro ⟨_, hlines⟩
        cases hlines with
        | cons hline hrest => exact ⟨by rw [hline]; rfl, _, hrest⟩
      · rintro ⟨hline, lines, hrest⟩
        obtain ⟨line, hline⟩ := Option.isSome_iff_exists.mp hline
        exact ⟨line :: lines, .cons hline hrest⟩

theorem RecordsFrom.recordLines {index : ℕ} {lines : List Bytes} {chunks : List (Chunk P)}
    (h : RecordsFrom index lines chunks) : RecordLines chunks lines := by
  induction h with
  | nil index => exact .nil
  | cons hline _ _ ih => exact .cons hline ih

/-- **The writer completes** on the rest of a tiling: none of its checks fires. -/
theorem TilesFrom.recordLoop {parsed : ParsedArtifact P} {limit : ℕ} {chunks : List (Chunk P)} :
    ∀ {start previousEnd chunkIndex : ℕ} {state : WriteState} {lines : List Bytes},
    TilesFrom parsed.text limit start previousEnd chunkIndex chunks →
    (∀ chunk ∈ chunks, chunk.metadata = .empty) → RecordLines chunks lines →
    state.emitted = chunkIndex → state.previousEnd = previousEnd → state.previousStart < start →
    (chunkIndex = 0 → previousEnd = 0) →
    VeloxRag.Ingestion.recordLoop parsed (chunkIndex + chunks.length) .done .done chunks chunks state
      = ⟨lines, .done⟩ := by
  induction chunks with
  | nil =>
      intro start previousEnd chunkIndex state lines htiles _ hlines hemitted hprevious _ _
      cases hlines
      have hend : previousEnd = parsed.text.length := htiles
      unfold VeloxRag.Ingestion.recordLoop
      simp only [writerOutcome]
      rw [if_neg]
      rw [List.length_nil]
      omega
  | cons chunk chunks ih =>
      intro start previousEnd chunkIndex state lines htiles hmetadata hlines hemitted hprevious
        hstart hfirst
      obtain ⟨⟨hfrom, hinside, hforward⟩, hindex, hsource, hlimit, hrest⟩ := htiles
      obtain ⟨hempty, hmetadata⟩ := List.forall_mem_cons.mp hmetadata
      cases hlines with
      | @cons _ line _ lines hline hlines =>
          have hspan := chunk.start_lt_end
          have hbound : chunk.endOffset ≤ parsed.text.length := by
            have hlength := congrArg List.length hsource
            rw [chunk.length_text, slice, List.length_take, List.length_drop] at hlength
            omega
          have hfits : chunkFits parsed (chunkIndex + (chunk :: chunks).length) state chunk chunk =
              true := by
            rw [chunkFits, Chunk.pyEq_self hempty, List.length_cons]
            simp only [Bool.and_eq_true, Bool.or_eq_true, decide_eq_true_eq, Bool.and_true]
            refine ⟨⟨⟨⟨⟨by omega, by omega⟩, hbound⟩, hsource⟩, ?_⟩, ?_⟩
            · by_cases hzero : state.emitted = 0
              · right
                have := hfirst (by omega)
                omega
              · exact .inl hzero
            · right
              refine ⟨⟨?_, by omega⟩, by omega⟩
              have : (start : ℤ) ≤ chunk.startOffset := by exact_mod_cast hfrom
              omega
          have hlater := @ih (chunk.startOffset + 1) chunk.endOffset (chunkIndex + 1)
            ⟨state.emitted + 1, chunk.startOffset, chunk.endOffset⟩ lines hrest hmetadata hlines
            (by dsimp only; omega) rfl (by dsimp only; omega) (by omega)
          rw [VeloxRag.Ingestion.recordLoop, if_pos hfits, hline]
          dsimp only
          rw [List.length_cons, show chunkIndex + (chunks.length + 1) =
            chunkIndex + 1 + chunks.length by omega, hlater]
          rfl

section Analysis

variable {sourceChecksum : Str} {parsed : ParsedArtifact P} {chunker : RecursiveTextChunker}
  {createdAt : Timestamp}

/-- What is written for the chunks of the chunker. -/
def writtenManifest (sourceChecksum : Str) (parsed : ParsedArtifact P)
    (chunker : RecursiveTextChunker) (createdAt : Timestamp) (chunkCount : ℕ) :
    Generated Bytes ManifestError :=
  iterChunkManifestLines sourceChecksum parsed (chunker.toChunker P) createdAt chunkCount
    (chunker.chunk parsed)

/-- Where every line can be encoded and the chunker ends, the writer completes. -/
theorem writtenManifest_eq {header : Bytes} {lines : List Bytes}
    (hdone : (chunker.chunk parsed).outcome = .done)
    (hheader : chunkManifestHeaderBytes sourceChecksum parsed (chunker.toChunker P) createdAt
      (chunker.chunk parsed).items.length = some header)
    (hlines : RecordLines (chunker.chunk parsed).items lines) :
    writtenManifest sourceChecksum parsed chunker createdAt (chunker.chunk parsed).items.length =
      ⟨header :: lines, .done⟩ := by
  obtain ⟨htext, -⟩ := parsed.valid_fields
  have htiles : TilesFrom parsed.text parsed.text.length 0 0 0 (chunker.chunk parsed).items ∧
      ∀ chunk ∈ (chunker.chunk parsed).items, chunk.metadata = .empty := by
    rw [RecursiveTextChunker.chunk, RecursiveTextChunker.chunkText, if_neg htext] at hdone ⊢
    cases hindex : indexBoundaries (.compact parsed.boundaries) with
    | error error =>
        rw [hindex] at hdone
        cases hdone
    | ok index =>
        rw [hindex] at hdone
        exact chunkLoop_done chunker _ hdone (le_refl 0) (List.length_pos_of_ne_nil htext)
  have hrun := htiles.1.recordLoop htiles.2 hlines
    (rfl : (⟨0, -1, 0⟩ : WriteState).emitted = 0) rfl (by decide)
    (fun _ => rfl)
  rw [Nat.zero_add] at hrun
  rw [writtenManifest, iterChunkManifestLines, hheader]
  dsimp only
  have hsame : (chunker.toChunker P).chunk parsed = chunker.chunk parsed := rfl
  rw [hsame, hdone, hrun]
  rfl

/-- What the writer has completed. -/
theorem writtenManifest_done {chunkCount : ℕ}
    (h : (writtenManifest sourceChecksum parsed chunker createdAt chunkCount).outcome = .done) :
    chunkCount = (chunker.chunk parsed).items.length ∧ (chunker.chunk parsed).outcome = .done ∧
      ∃ header lines, chunkManifestHeaderBytes sourceChecksum parsed (chunker.toChunker P) createdAt
          (chunker.chunk parsed).items.length = some header ∧
        RecordLines (chunker.chunk parsed).items lines := by
  obtain ⟨header, lines, hheader, -, hrecords, hcount, -, hdone⟩ := iterChunkManifestLines_done h
  rw [← hcount] at hheader
  exact ⟨hcount.symm, hdone, header, lines, hheader, hrecords.recordLines⟩

/-- The loop of the analysis over records that can be encoded. -/
theorem analyzeLoop_recordLines {maxBytes : ℤ} {chunks : List (Chunk P)} {lines : List Bytes}
    (h : RecordLines chunks lines) : ∀ {chunkCount chunkBytes : ℕ}, chunkBytes ≤ maxBytes →
    analyzeLoop maxBytes .done chunks chunkCount chunkBytes =
      if ((chunkBytes + lines.flatten.length : ℕ) : ℤ) ≤ maxBytes then
        .ok (chunkCount + chunks.length, chunkBytes + lines.flatten.length)
      else .error .budgetExceeded := by
  induction h with
  | nil =>
      intro chunkCount chunkBytes hbytes
      rw [analyzeLoop, List.flatten_nil, if_pos (by simpa using hbytes)]
      rfl
  | @cons chunk line chunks lines hline _ ih =>
      intro chunkCount chunkBytes hbytes
      rw [analyzeLoop, hline, List.flatten_cons, List.length_append, List.length_cons]
      dsimp only
      by_cases hover : maxBytes - chunkBytes < line.length
      · rw [if_pos hover, if_neg (by push_cast; omega)]
      · rw [if_neg hover, ih (by push_cast; omega), Nat.add_assoc chunkBytes, Nat.add_assoc chunkCount,
          Nat.add_comm 1]

/-- What the loop has gone through when it returns. -/
theorem analyzeLoop_ok {maxBytes : ℤ} {outcome : Outcome ChunkError} {chunks : List (Chunk P)} :
    ∀ {chunkCount chunkBytes : ℕ} {result : ℕ × ℕ},
    analyzeLoop maxBytes outcome chunks chunkCount chunkBytes = .ok result →
    outcome = .done ∧ ∃ lines, RecordLines chunks lines := by
  induction chunks with
  | nil =>
      intro chunkCount chunkBytes result h
      cases outcome with
      | done => exact ⟨rfl, [], .nil⟩
      | raised error => cases h
      | running => cases h
  | cons chunk chunks ih =>
      intro chunkCount chunkBytes result h
      rw [analyzeLoop] at h
      cases hline : chunkManifestRecordBytes chunk with
      | none =>
          rw [hline] at h
          cases h
      | some line =>
          rw [hline] at h
          dsimp only at h
          split at h
          · cases h
          · obtain ⟨hdone, lines, hlines⟩ := ih h
            exact ⟨hdone, line :: lines, .cons hline hlines⟩

/-- **The analysis** of chunks that can all be written. -/
theorem analyzeChunkManifest_eq {header : Bytes} {lines : List Bytes} (maxBytes : ℤ)
    (hdone : (chunker.chunk parsed).outcome = .done)
    (hheader : chunkManifestHeaderBytes sourceChecksum parsed (chunker.toChunker P) createdAt
      (chunker.chunk parsed).items.length = some header)
    (hlines : RecordLines (chunker.chunk parsed).items lines) :
    analyzeChunkManifest sourceChecksum parsed chunker createdAt maxBytes =
      if maxBytes ≤ 0 then .error .budgetInvalid
      else if (((header :: lines).flatten.length : ℕ) : ℤ) ≤ maxBytes then
        .ok ((chunker.chunk parsed).items.length, (header :: lines).flatten.length)
      else .error .budgetExceeded := by
  have hcount : ¬ (chunker.chunk parsed).items.length < 1 := by
    intro hnone
    -- the header of a text that is not empty does not count zero chunks
    rw [show (chunker.chunk parsed).items.length = 0 by omega, chunkManifestHeaderBytes,
      if_pos (.inr ⟨parsed.valid_fields.1, rfl⟩)] at hheader
    cases hheader
  rw [analyzeChunkManifest]
  by_cases hbudget : maxBytes ≤ 0
  · rw [if_pos hbudget, if_pos hbudget]
  · rw [if_neg hbudget, if_neg hbudget]
    dsimp only
    rw [hdone, analyzeLoop_recordLines hlines (by push_cast; omega), Nat.zero_add, Nat.zero_add,
      List.flatten_cons, List.length_append]
    by_cases hrecords : ((lines.flatten.length : ℕ) : ℤ) ≤ maxBytes
    · rw [if_pos hrecords]
      dsimp only
      rw [if_neg hcount, hheader]
      dsimp only
      by_cases hall : maxBytes - lines.flatten.length < header.length
      · rw [if_pos hall, if_neg (by push_cast; omega)]
      · rw [if_neg hall, if_pos (by push_cast; omega)]
    · rw [if_neg hrecords, if_neg (by push_cast; omega)]

end Analysis

/-- The batches that calls of a reader deliver: each within the limit, together the bytes from the
first on and all of them when there are calls enough, and none of them empty before the end. -/
def DeliversAll (batchBytes : ℕ) (reader : BatchReader) (data : Bytes) : Prop :=
  ∀ n, ∃ batches reader', reader.calls batchBytes n = .ok (batches, reader') ∧
    (∀ batch ∈ batches, batch.length ≤ batchBytes) ∧ batches.flatten <+: data ∧
    (data.length ≤ n → batches.flatten = data) ∧
    ∀ front back, batches = front ++ [] :: back → front.flatten = data

/-- **The analysis agrees with the writer.**  What it returns is the number of chunk lines and of bytes
of a manifest that the writer completes; where the writer completes for a count at all, it returns
that count and the size, or stops exactly when the size exceeds the budget; and the batches of the
upload are the bytes of the manifest, none larger than the limit and none empty before the end.  The
writer completes where the chunker ends and every line can be encoded. -/
theorem analyzeChunkManifest_agrees (sourceChecksum : Str) (parsed : ParsedArtifact P)
    (chunker : RecursiveTextChunker) (createdAt : Timestamp) (maxBytes : ℤ) :
    (∀ chunkCount size, analyzeChunkManifest sourceChecksum parsed chunker createdAt maxBytes =
        .ok (chunkCount, size) →
      (writtenManifest sourceChecksum parsed chunker createdAt chunkCount).outcome = .done ∧
      size ≤ maxBytes) ∧
    (∀ chunkCount,
      (writtenManifest sourceChecksum parsed chunker createdAt chunkCount).outcome = .done →
      let lines := (writtenManifest sourceChecksum parsed chunker createdAt chunkCount).items
      lines.length = chunkCount + 1 ∧
      (analyzeChunkManifest sourceChecksum parsed chunker createdAt maxBytes =
        if maxBytes ≤ 0 then .error .budgetInvalid
        else if (lines.flatten.length : ℤ) ≤ maxBytes then .ok (chunkCount, lines.flatten.length)
        else .error .budgetExceeded) ∧
      ∀ batchBytes, 0 < batchBytes →
        let reader := BatchReader.new
          (writtenManifest sourceChecksum parsed chunker createdAt chunkCount)
        DeliversAll batchBytes reader lines.flatten ∧
        ∃ batches, manifestStream batchBytes (lines.flatten.length + 1) reader =
            ⟨batches, .done⟩ ∧ batches.flatten = lines.flatten) ∧
    ((∃ chunkCount,
      (writtenManifest sourceChecksum parsed chunker createdAt chunkCount).outcome = .done) ↔
      (chunker.chunk parsed).outcome = .done ∧
      (chunkManifestHeaderBytes sourceChecksum parsed (chunker.toChunker P) createdAt
        (chunker.chunk parsed).items.length).isSome = true ∧
      ∀ chunk ∈ (chunker.chunk parsed).items, (chunkManifestRecordBytes chunk).isSome = true) := by
  refine ⟨?_, ?_, ?_⟩
  · intro chunkCount size h
    -- the analysis has seen every line, so the writer completes
    have hparts := h
    rw [analyzeChunkManifest] at hparts
    split at hparts
    · cases hparts
    dsimp only at hparts
    split at hparts
    · cases hparts
    rename_i count bytes hloop
    split at hparts
    · cases hparts
    obtain ⟨hdone, lines, hlines⟩ := analyzeLoop_ok hloop
    have hcount : count = (chunker.chunk parsed).items.length := by
      rw [hdone, analyzeLoop_recordLines hlines (by push_cast; omega)] at hloop
      split at hloop
      · cases hloop
        rw [Nat.zero_add]
      · cases hloop
    split at hparts
    · cases hparts
    rename_i header hheader
    rw [hcount] at hheader
    rw [analyzeChunkManifest_eq maxBytes hdone hheader hlines] at h
    split at h
    · cases h
    split at h
    · cases h
      rename_i hfits
      refine ⟨?_, hfits⟩
      rw [writtenManifest_eq hdone hheader hlines]
    · cases h
  · intro chunkCount h
    obtain ⟨rfl, hdone, header, lines, hheader, hlines⟩ := writtenManifest_done h
    have hwritten := writtenManifest_eq hdone hheader hlines
    rw [hwritten]
    dsimp only
    refine ⟨?_, analyzeChunkManifest_eq maxBytes hdone hheader hlines, ?_⟩
    · rw [List.length_cons, List.Forall₂.length_eq hlines]
    intro batchBytes hbytes
    have hlinesNonempty : ∀ line ∈ header :: lines, line ≠ [] := by
      obtain ⟨header', records, hheader', hitems, hrecords, -⟩ := iterChunkManifestLines_done h
      rw [show iterChunkManifestLines sourceChecksum parsed (chunker.toChunker P) createdAt _
        (chunker.chunk parsed) = _ from hwritten] at hitems
      dsimp only at hitems
      rw [hitems]
      intro line hline
      obtain ⟨body, rfl, -⟩ := (isRecord_manifest hheader' hrecords line hline).1
      simp
    have hreading : (BatchReader.new ⟨header :: lines, .done⟩).Reading :=
      ⟨rfl, hlinesNonempty, nofun⟩
    have hremaining : (BatchReader.new ⟨header :: lines, .done⟩).remaining =
        (header :: lines).flatten := rfl
    constructor
    · intro n
      obtain ⟨batches, reader', hcalls, -, hbound, hflat, hprogress, hend⟩ :=
        BatchReader.calls_deliver hbytes n hreading
      rw [hremaining] at hflat hend
      refine ⟨batches, reader', hcalls, hbound, ⟨_, hflat⟩, ?_, hend⟩
      intro hn
      have hnone : reader'.remaining = [] := by
        rcases hprogress with hdone' | hmore
        · exact hdone'
        · have := congrArg List.length hflat
          rw [List.length_append] at this
          apply List.length_eq_zero_iff.mp
          omega
      rw [hnone, List.append_nil] at hflat
      exact hflat
    · obtain ⟨batches, hrun, hflat, -⟩ := manifestStream_delivers hbytes
        ((header :: lines).flatten.length + 1) hreading (by rw [hremaining]; exact Nat.lt_succ_self _)
      exact ⟨batches, hrun, by rw [hflat, hremaining]⟩
  · constructor
    · rintro ⟨chunkCount, h⟩
      obtain ⟨-, hdone, header, lines, hheader, hlines⟩ := writtenManifest_done h
      exact ⟨hdone, by rw [hheader]; rfl, exists_recordLines.mp ⟨lines, hlines⟩⟩
    · rintro ⟨hdone, hheader, hrecords⟩
      obtain ⟨header, hheader⟩ := Option.isSome_iff_exists.mp hheader
      obtain ⟨lines, hlines⟩ := exists_recordLines.mpr hrecords
      exact ⟨_, by rw [writtenManifest_eq hdone hheader hlines]⟩

/-! ## The lines of the recursive chunker -/

section Lines

variable {bs : List StructuralBoundary}

theorem Chunk.titlePath_of_fromSource {chunkIndex : ℕ} {sourceText : Str} {startOffset endOffset : ℕ}
    {titlePath : List Str} {chunk : Chunk P}
    (h : Chunk.fromSource chunkIndex sourceText startOffset endOffset titlePath .empty = .ok chunk) :
    chunk.titlePath = titlePath := by
  rw [Chunk.fromSource] at h
  split at h
  · cases h
  rw [freezeMapping_empty] at h
  dsimp only at h
  split at h
  · cases h
  exact (Chunk.make_eq_ok h).2.2.2.2.2.1

/-- The titles of every chunk are those above its first character. -/
theorem chunkLoop_titlePath (chunker : RecursiveTextChunker) (text parserName : Str)
    {index : BoundaryIndex} {Sound : TitleCache → Prop}
    (htitles : ∀ cache offset, Sound cache →
      ∃ cache', titlePathAt index cache offset = .ok (titlesAbove bs offset, cache') ∧ Sound cache')
    (fuel : ℕ) : ∀ state : ChunkState, Sound state.cache →
    ∀ chunk ∈ (chunker.chunkLoop (P := P) text parserName index fuel state).items,
      chunk.titlePath = titlesAbove bs chunk.startOffset := by
  induction fuel with
  | zero =>
      intro state hsound
      exact List.forall_mem_nil _
  | succ fuel ih =>
      intro state hsound
      rw [RecursiveTextChunker.chunkLoop]
      by_cases hinside : state.start < text.length
      swap
      · rw [if_neg hinside]
        exact List.forall_mem_nil _
      rw [if_pos hinside]
      dsimp only
      generalize min (state.start + chunker.maxChunk) text.length = hardEnd
      generalize chooseEnd P.unicode text parserName index state.start state.previousEnd
        (state.start + chunker.targetOverlap) hardEnd (decide (hardEnd = text.length)) = chosen
      by_cases hback : chosen.1 ≤ state.previousEnd
      · rw [if_pos hback]
        split
        · exact List.forall_mem_nil _
        · exact ih _ hsound
      rw [if_neg hback]
      generalize (if strip (slice text state.start chosen.1) = [] ∧ chosen.1 < hardEnd then hardEnd
        else chosen.1) = stop
      obtain ⟨cache, htitle, hsound'⟩ := htitles state.cache state.start hsound
      rw [htitle]
      dsimp only
      cases hchunk : Chunk.fromSource (P := P) state.chunkIndex text state.start stop
        (titlesAbove bs state.start) .empty with
      | error error => exact List.forall_mem_nil _
      | ok chunk =>
          have hfirst : chunk.titlePath = titlesAbove bs chunk.startOffset := by
            rw [(Chunk.fromSource_eq_ok hchunk).2.2.1]
            exact Chunk.titlePath_of_fromSource hchunk
          dsimp only
          split
          · rw [List.forall_mem_singleton]
            exact hfirst
          generalize (if chosen.2 = true then stop else
            chooseOverlapStart P.unicode text parserName index state.start
              (max (state.start + 1) (stop - chunker.targetOverlap)) stop) = nextStart
          split
          · rw [List.forall_mem_singleton]
            exact hfirst
          · show ∀ c ∈ chunk :: _, _
            rw [List.forall_mem_cons]
            exact ⟨hfirst, ih _ hsound'⟩

/-- A turn of the loop whose window has text in it writes a chunk. -/
theorem chunkLoop_turn {chunker : RecursiveTextChunker} {text parserName : Str} {index : BoundaryIndex}
    {fuel : ℕ} {state : ChunkState} {chosen : ℕ × Bool} {titlePath : List Str} {cache : TitleCache}
    {chunk : Chunk P} (hinside : state.start < text.length)
    (hchosen : chooseEnd P.unicode text parserName index state.start state.previousEnd
      (state.start + chunker.targetOverlap) (min (state.start + chunker.maxChunk) text.length)
      (decide (min (state.start + chunker.maxChunk) text.length = text.length)) = chosen)
    (hfurther : ¬ chosen.1 ≤ state.previousEnd) (hwritten : strip (slice text state.start chosen.1) ≠ [])
    (htitle : titlePathAt index state.cache state.start = .ok (titlePath, cache))
    (hchunk : Chunk.fromSource state.chunkIndex text state.start chosen.1 titlePath .empty = .ok chunk) :
    chunker.chunkLoop text parserName index (fuel + 1) state =
      if chosen.1 = text.length then ⟨[chunk], .done⟩
      else
        let nextStart := if chosen.2 then chosen.1
          else chooseOverlapStart P.unicode text parserName index state.start
            (max (state.start + 1) (chosen.1 - chunker.targetOverlap)) chosen.1
        if nextStart ≤ state.start ∨ chosen.1 < nextStart then ⟨[chunk], .raised .noProgress⟩
        else (chunker.chunkLoop text parserName index fuel
          ⟨nextStart, chosen.1, state.chunkIndex + 1, cache⟩).cons chunk := by
  rw [RecursiveTextChunker.chunkLoop, if_pos hinside]
  dsimp only
  rw [hchosen, if_neg hfurther, if_neg fun h => hwritten h.1, htitle]
  dsimp only
  rw [hchunk]

/-- A chunk starts no earlier than its number. -/
theorem TilesText.index_le {text : Str} {limit : ℕ} {chunks : List (Chunk P)}
    (h : TilesText text limit chunks) : ∀ (i : ℕ) (c : Chunk P), chunks[i]? = some c →
      c.chunkIndex ≤ c.startOffset := by
  intro i
  induction i with
  | zero =>
      intro c hc
      rw [h.indices 0 c hc]
      exact Nat.zero_le _
  | succ i ih =>
      intro c hc
      have hlength := (List.getElem?_eq_some_iff.mp hc).1
      have hprevious := List.getElem?_eq_getElem (show i < chunks.length by omega)
      generalize chunks[i] = previous at hprevious
      have hle := ih previous hprevious
      have hlt := (h.advance i previous c hprevious hc).1
      rw [h.indices i previous hprevious] at hle
      rw [h.indices (i + 1) c hc]
      omega

/-- Titles above an offset have at most 4096 bytes. -/
theorem weight_titlesAbove {F : Type} (ops : FloatOps F) (bs : List StructuralBoundary) (offset : ℕ) :
    Json.weight ops (.arr ((titlesAbove bs offset).map .str)) ≤ 9 * maxTitlePathUtf8Bytes + 2 := by
  have hbytes : ((titlesAbove bs offset).flatMap encode).length ≤ maxTitlePathUtf8Bytes := by
    rw [titlesAbove]
    cases bs.reverse.find? fun b => decide (b.startOffset ≤ offset) with
    | none => exact Nat.zero_le _
    | some b =>
        have h := validateTitles_bytes b.titlePath 0 (Nat.zero_le _) b.titlePath_valid
        rwa [Nat.zero_add] at h
  have hitems : ∀ titles : List Str, (∀ title ∈ titles, title ≠ []) →
      Json.weightItems ops (titles.map .str) ≤ 9 * (titles.flatMap encode).length := by
    intro titles
    induction titles with
    | nil =>
        intro _
        exact le_refl 0
    | cons title titles ih =>
        intro hne
        obtain ⟨htitle, hrest⟩ := List.forall_mem_cons.mp hne
        have hpos := List.length_pos_of_ne_nil htitle
        have hencode := length_le_encode title
        have hle := ih hrest
        rw [List.map_cons, Json.weightItems, Json.weight, List.flatMap_cons, List.length_append]
        omega
  have hweight := hitems _ fun title htitle => (titlesAbove_valid bs offset title htitle).1
  rw [Json.weight]
  omega

/-- The chunks of an artifact carry no metadata, and the titles above their first characters. -/
theorem chunk_titles {chunker : RecursiveTextChunker} {artifact : ParsedArtifact P}
    {chunks : List (Chunk P)} (h : artifact.Holds bs) (hsize : artifact.text.length < 2 ^ 31)
    (hchunks : chunker.chunk artifact = ⟨chunks, .done⟩) :
    ∀ chunk ∈ chunks, chunk.metadata = .empty ∧
      chunk.titlePath = titlesAbove bs chunk.startOffset := by
  obtain ⟨htext, -, -, -⟩ := artifact.valid_fields
  obtain ⟨t, blocks, nodes, hok, hrep⟩ := fromSequence_represents h.ordered h.packable
  rw [Except.ok.inj (hok.symm.trans h.packed)] at hrep
  obtain ⟨index, hindex, hreads⟩ := indexCompactBoundaries_represents hrep h.ordered h.inside hsize
  obtain ⟨Sound, hnew, htitles⟩ := hreads.titles
  have hloop : chunker.chunkLoop artifact.text artifact.parserName index
      (artifact.text.length + 1) ⟨0, 0, 0, .new⟩ = ⟨chunks, .done⟩ := by
    rw [← hchunks]
    simp only [RecursiveTextChunker.chunk, RecursiveTextChunker.chunkText, if_neg htext,
      indexBoundaries, hindex]
  have hmetadata := (chunkLoop_done chunker (artifact.text.length + 1) (congrArg (·.outcome) hloop)
    (le_refl 0) (List.length_pos_of_ne_nil htext)).2
  have hpaths := chunkLoop_titlePath (P := P) chunker artifact.text artifact.parserName htitles
    (artifact.text.length + 1) ⟨0, 0, 0, .new⟩ hnew
  rw [hloop] at hmetadata hpaths
  exact fun chunk hchunk => ⟨hmetadata chunk hchunk, hpaths chunk hchunk⟩

/-- **The records of the recursive chunker are within the line limit of the reader**, whatever the
sizes it was made with. -/
theorem recursive_records_short (chunker : RecursiveTextChunker) (artifact : ParsedArtifact P)
    (h : artifact.Holds bs) (hsize : artifact.text.length < 2 ^ 31) :
    ∀ chunk ∈ (chunker.chunk artifact).items, ∃ line, chunkManifestRecordBytes chunk = some line ∧
      line.length ≤ maxManifestLineBytes := by
  obtain ⟨chunks, hchunks, htiles⟩ := chunk_tiles chunker artifact h hsize
  have htitles := chunk_titles h hsize hchunks
  rw [hchunks]
  intro chunk hchunk
  obtain ⟨i, hi, hget⟩ := List.mem_iff_getElem.mp hchunk
  have hindex := htiles.index_le i chunk (hget ▸ List.getElem?_eq_getElem hi)
  obtain ⟨hsource, -, hlimit⟩ := htiles.source chunk hchunk
  obtain ⟨hmetadata, hpath⟩ := htitles chunk hchunk
  have hspan := chunk.start_lt_end
  have hlength := chunk.length_text
  have hend : chunk.endOffset ≤ artifact.text.length := by
    rw [hsource, slice, List.length_take, List.length_drop] at hlength
    omega
  exact record_short hmetadata (hlimit.trans chunker.max_le) (by omega) (by omega)
    (hpath ▸ weight_titlesAbove P.floats bs chunk.startOffset)

end Lines

/-! ## A note in two chunks -/

namespace NoteSample

/-- Chunks of at most six characters that overlap by two. -/
def chunker : RecursiveTextChunker where
  maxChunk := 6
  targetOverlap := 2
  max_pos := by decide
  max_le := by decide
  overlap_lt := by decide
  overlap_le := by decide

def createdAt : Timestamp := ⟨2024, 2, 29, 12, 30, 0, 0⟩

variable (P)

def first : Chunk P := .plain 0 "# A\n\n".toList 0 5 [['A']] (by decide)

def second : Chunk P := .plain 1 "\n\n😀b".toList 3 7 [['A']] (by decide)

variable {P}

/-- The first chunk ends where the paragraph starts, and the second starts two characters before. -/
theorem chunk_artifact (hunicode : P.unicode = Platform.ascii.unicode) :
    chunker.chunk (artifact P) = ⟨[first P, second P], .done⟩ := by
  obtain ⟨index, cache, cache', hindex, htitles, htitles', hchosen, hstart, hchosen'⟩ :
      ∃ index cache cache', indexBoundaries (.compact table) = .ok index ∧
        titlePathAt index .new 0 = .ok ([['A']], cache) ∧
        titlePathAt index cache 3 = .ok ([['A']], cache') ∧
        chooseEnd Platform.ascii.unicode text markdownTextParser.name index 0 0 2 6 false =
          (5, false) ∧
        chooseOverlapStart Platform.ascii.unicode text markdownTextParser.name index 0 3 5 = 3 ∧
        chooseEnd Platform.ascii.unicode text markdownTextParser.name index 3 5 5 7 true =
          (7, false) := ⟨_, _, _, rfl, rfl, rfl, rfl, rfl, rfl⟩
  have hfirstEnd : 5 ≤ text.length := by decide
  have hsecondEnd : 7 ≤ text.length := by decide
  have hfirst : Chunk.fromSource 0 text 0 5 [['A']] .empty = .ok (first P) :=
    (first P).fromSource_self rfl hfirstEnd rfl
  have hsecond : Chunk.fromSource 1 text 3 7 [['A']] .empty = .ok (second P) :=
    (second P).fromSource_self rfl hsecondEnd rfl
  have hpos : 0 < text.length := by decide
  have hinside : 3 < text.length := by decide
  rw [← hunicode] at hchosen hstart hchosen'
  have hlast : chunker.chunkLoop text markdownTextParser.name index 7 ⟨3, 5, 1, cache⟩ =
      ⟨[second P], .done⟩ := by
    rw [chunkLoop_turn hinside hchosen' (by decide : ¬ 7 ≤ 5) (by decide : strip (slice text 3 7) ≠ []) htitles'
      hsecond]
    rfl
  have hoverlap : max (0 + 1) (5 - chunker.targetOverlap) = 3 := rfl
  rw [RecursiveTextChunker.chunk, RecursiveTextChunker.chunkText,
    if_neg (show (artifact P).text ≠ [] from List.cons_ne_nil _ _)]
  dsimp only [artifact]
  rw [hindex]
  dsimp only
  rw [chunkLoop_turn hpos hchosen (by decide) (by decide) htitles hfirst]
  dsimp only
  rw [if_neg (by decide), if_neg Bool.false_ne_true, hoverlap, hstart, if_neg (by decide)]
  show (chunker.chunkLoop text markdownTextParser.name index 7 ⟨3, 5, 1, cache⟩).cons (first P) = _
  rw [hlast]
  rfl

theorem header_short {sourceChecksum : Str} (hsource : isSha256 sourceChecksum = true) :
    ∃ line, chunkManifestHeaderBytes sourceChecksum (artifact P) (chunker.toChunker P) createdAt 2 =
        some line ∧ line.length ≤ maxManifestLineBytes := by
  have hlength : ∀ {digest : Str}, isSha256 digest = true → digest.length = 64 := by
    intro digest h
    simp only [isSha256, Bool.and_eq_true, decide_eq_true_eq] at h
    exact h.1
  have hparsed := hlength (P.isSha256_sha256 (encode text))
  obtain ⟨line, hline, hweight⟩ := @canonicalLine_bound P
    (headerJson sourceChecksum (parsedTextChecksum (P := P) text) markdownTextParser.name
      markdownTextParser.version Mapping.empty RecursiveTextChunker.name RecursiveTextChunker.version
      (chunker.config P) createdAt 2) (by rfl)
  refine ⟨line, ?_, hweight.trans ?_⟩
  · rw [chunkManifestHeaderBytes, if_neg (by simp [hsource])]
    exact (canonicalLine_headerJson ..).trans hline
  · have hempty : Json.weight P.floats (Mapping.empty : Mapping P).json = 2 := rfl
    have hconfig : Json.weight P.floats (chunker.config P).json = 282 := rfl
    simp only [headerJson, Json.weight, Json.weightMembers, parsedTextChecksum, hparsed, hempty,
      hconfig, hlength hsource]
    decide +kernel

/-- The manifest of the note, and what is read of it. -/
theorem manifest (hunicode : P.unicode = Platform.ascii.unicode) {sourceChecksum : Str}
    (hsource : isSha256 sourceChecksum = true) :
    ∃ (lines : List Bytes) (expected : ManifestExpectation P),
      writtenManifest sourceChecksum (artifact P) chunker createdAt 2 = ⟨lines, .done⟩ ∧
      lines.flatten.length ≤ 3 * maxManifestLineBytes ∧ expected.chunkCount = 2 ∧
      ∀ (stream : List Bytes) (batchSize : ℕ), stream.flatten = lines.flatten → 1 ≤ batchSize →
        batchSize ≤ 10000 → ∃ batches,
          iterVerifiedManifestBatches expected 0 batchSize stream = ⟨batches, .done⟩ ∧
          batches.flatten = [first P, second P] := by
  have hrun := chunk_artifact hunicode
  obtain ⟨header, hheader, hheaderLength⟩ := @header_short P _ hsource
  have htitles : Json.weight P.floats (.arr ([['A']].map .str)) ≤ 9 * maxTitlePathUtf8Bytes + 2 :=
    Nat.le_of_ble_eq_true rfl
  obtain ⟨line, hline, hlineLength⟩ := @record_short P (first P) rfl (Nat.le_of_ble_eq_true rfl)
    (Nat.le_of_ble_eq_true rfl) (Nat.le_of_ble_eq_true rfl) htitles
  obtain ⟨line', hline', hlineLength'⟩ := @record_short P (second P) rfl (Nat.le_of_ble_eq_true rfl)
    (Nat.le_of_ble_eq_true rfl) (Nat.le_of_ble_eq_true rfl) htitles
  have hlines : RecordLines (chunker.chunk (artifact P)).items [line, line'] := by
    rw [hrun]
    exact .cons hline (.cons hline' .nil)
  have hwritten : writtenManifest sourceChecksum (artifact P) chunker createdAt 2 =
      ⟨[header, line, line'], .done⟩ := by
    have h := @writtenManifest_eq P sourceChecksum (artifact P) chunker createdAt header [line, line']
      (congrArg (·.outcome) hrun) (by rw [hrun]; exact hheader) hlines
    rw [hrun] at h
    exact h
  have hshort : ∀ written ∈ [header, line, line'], written.length ≤ maxManifestLineBytes := by
    rw [List.forall_mem_cons, List.forall_mem_cons, List.forall_mem_singleton]
    exact ⟨hheaderLength, hlineLength, hlineLength'⟩
  obtain ⟨expected, hmatch⟩ := @exists_expectation P sourceChecksum (artifact P)
    (chunker.toChunker P) createdAt 2 hsource (by rfl) (by rfl) (List.cons_ne_nil _ _)
    (List.cons_ne_nil _ _) (by decide)
  obtain ⟨header', records, hheader', hitems, hrecords, hcount, -, -⟩ :=
    iterChunkManifestLines_done (congrArg Generated.outcome hwritten)
  have hsame : header' :: records = [header, line, line'] :=
    hitems.symm.trans (congrArg Generated.items hwritten)
  obtain ⟨_, _, _, _, _, hexpected⟩ := validateManifestHeader_header hmatch hheader'
  refine ⟨_, expected, hwritten, ?_, hexpected, ?_⟩
  · simp only [List.flatten_cons, List.flatten_nil, List.append_nil, List.length_append]
    omega
  · intro stream batchSize hstream hsize hbound
    rw [← hsame] at hshort hstream
    obtain ⟨batches, hread, hbatched⟩ := manifest_read hheader' hrecords hcount hshort hmatch hstream
      (Nat.zero_le 2) hsize hbound
    refine ⟨batches, hread, hbatched.flatten_eq.trans ?_⟩
    rw [hrun]
    rfl

end NoteSample

end VeloxRag.Ingestion
