import VeloxRag.ObjectStore.PutStream

/-!
# What an upload stores

As long as the pipe neither failed nor was stopped, the bytes the SDK has read, the bytes in the
pipe and the bytes the producer is about to write are together the bytes the producer has hashed.
The pipe is closed when there is nothing left to write, so a reader that finds it empty and closed
has read the whole stream.  A reader that is still running is never told to stop before the pipe
has failed, so the end of the file is all it can take for the end of the file.

## Main definitions

* `Flow` — where the bytes of the stream are.
* `Control` — what the thread, the request and the flags of the pipe know of each other.
* `put_stream_complete` — an upload that returns has stored its whole stream.
-/

namespace VeloxRag.ObjectStore

open Lib BytePipe

variable {δ : Type*} {c : UploadConfig δ} {stream : List Bytes} {s s' : Upload δ}

/-- The result of a producer that closed the pipe. -/
def ProducerPhase.ended? : ProducerPhase δ → Option (ℕ × δ)
  | .closing (.ok result) | .done (.ok result) => some result
  | _ => none

/-- The bytes of the chunk at hand that are still to be written. -/
def ProducerPhase.unwritten : ProducerPhase δ → Bytes
  | .writing chunk start position | .waiting chunk start position => chunk.drop (start + position)
  | _ => []

/-- The position in the piece at hand. -/
def ProducerPhase.position : ProducerPhase δ → ℕ
  | .writing _ _ position | .waiting _ _ position => position
  | _ => 0

/-- Where the bytes of the stream are. -/
structure Flow (c : UploadConfig δ) (stream : List Bytes) (s : Upload δ) : Prop where
  pipe : s.pipe.Sound
  capacity : s.pipe.capacity = c.bufferBytes
  total : s.producer.total = s.producer.hashed.length
  limit : s.producer.total ≤ c.maxBytes
  split : s.producer.hashed ++ s.producer.remaining.flatten = stream.flatten
  position : s.producer.phase.position ≤ c.producerSliceBytes
  flow : s.pipe.failure = none → s.pipe.consumerStopped = false →
    s.received ++ s.pipe.chunks.flatten ++ s.producer.phase.unwritten = s.producer.hashed
  result : ∀ result, s.producer.phase.ended? = some result →
    result = (stream.flatten.length, c.sha256 stream.flatten) ∧ s.producer.hashed = stream.flatten
  eof : s.pipe.eof = true → s.producer.phase.ended?.isSome
  sawEof : s.sawEof = true →
    s.pipe.eof = true ∧ s.pipe.chunks = [] ∧ s.received = stream.flatten

/-- The thread may still read. -/
def ReaderPhase.live : ReaderPhase → Bool
  | .queued | .reading => true
  | _ => false

def ReaderPhase.result? : ReaderPhase → Option (Except UploadFault (Option Str))
  | .stopping result | .finished result => some result
  | _ => none

/-- The request is past the await for the SDK. -/
def CallerPhase.past : CallerPhase δ → Bool
  | .starting | .awaitingConsumer => false
  | _ => true

def CallerPhase.outcome? : CallerPhase δ → Option (Except UploadError (UploadResult δ))
  | .unwinding outcome | .done outcome => some outcome
  | _ => none

/-- A result as the claim of the upload has it. -/
structure UploadResult.Complete (c : UploadConfig δ) (stream : List Bytes) (result : UploadResult δ) :
    Prop where
  size : result.size = stream.flatten.length
  limit : result.size ≤ c.maxBytes
  checksum : result.checksum = c.sha256 stream.flatten
  peak : result.maxBuffered ≤ c.bufferBytes

/-- What the thread, the request and the flags of the pipe know of each other. -/
structure Control (c : UploadConfig δ) (stream : List Bytes) (s : Upload δ) : Prop where
  stopped : s.reader.live = true → s.pipe.consumerStopped = true → s.pipe.failure ≠ none
  past : s.caller.past = true → s.reader.live = true → s.pipe.failure ≠ none
  settled : s.caller = .awaitingConsumer → s.cancelling = false → s.consumer ≠ none →
    s.reader.live = false
  starting : s.caller = .starting → s.reader = .absent ∧
    (s.consumer = none ∨ s.cancelling = true) ∧ s.pipe.consumerStopped = false
  sdk : ∀ etag, s.reader.result? = some (.ok etag) → s.sawEof = true
  consumer : ∀ etag, s.consumer = some (.ok etag) → s.sawEof = true
  awaiting : ∀ etag, s.caller = .awaitingProducer etag → s.sawEof = true
  outcome : ∀ result, s.caller.outcome? = some (.ok result) →
    s.sawEof = true ∧ result.Complete c stream

theorem flow_start : Flow c stream (.start c stream) where
  pipe := sound_empty _
  capacity := rfl
  total := rfl
  limit := Nat.zero_le _
  split := rfl
  position := Nat.zero_le _
  flow := fun _ _ => rfl
  result := nofun
  eof := nofun
  sawEof := nofun

theorem control_start : Control c stream (.start c stream) where
  stopped := nofun
  past := nofun
  settled := nofun
  starting := fun _ => ⟨rfl, .inl rfl, rfl⟩
  sdk := nofun
  consumer := nofun
  awaiting := nofun
  outcome := nofun

/-- The bytes of a chunk from a position of a piece on: those of the piece up to another position,
and the rest. -/
theorem drop_eq_slice_append {α : Type*} {chunk : List α} {start size position stop : ℕ}
    (hle : position ≤ stop) (hstop : stop ≤ (slice chunk start (start + size)).length) :
    chunk.drop (start + position) =
      slice (slice chunk start (start + size)) position stop ++ chunk.drop (start + stop) := by
  have hsize : stop ≤ size := by
    rw [slice, List.length_take] at hstop
    omega
  have hpiece : slice (slice chunk start (start + size)) position stop =
      (chunk.drop (start + position)).take (stop - position) := by
    rw [slice, slice, List.drop_take, List.drop_drop, List.take_take]
    congr 1
    omega
  have hrest : chunk.drop (start + stop) = (chunk.drop (start + position)).drop (stop - position) := by
    rw [List.drop_drop]
    congr 1
    omega
  rw [hpiece, hrest, List.take_append_drop]

section Operations

variable {error : UploadFault} {discard : Bool} {phase : ProducerPhase δ} {caller : CallerPhase δ}

theorem Flow.failPipe (h : Flow c stream s) : Flow c stream (s.failPipe error discard) where
  pipe := h.pipe.fail error discard
  capacity := h.capacity
  total := h.total
  limit := h.limit
  split := h.split
  position := h.position
  flow := nofun
  result := h.result
  eof := h.eof
  sawEof := fun hsaw => by
    obtain ⟨heof, hchunks, hreceived⟩ := h.sawEof hsaw
    refine ⟨heof, ?_, hreceived⟩
    cases discard with
    | true => rfl
    | false => exact hchunks

theorem Control.failPipe (h : Control c stream s) : Control c stream (s.failPipe error discard) :=
  { h with
    stopped := fun _ _ => Option.some_ne_none _
    past := fun _ _ => Option.some_ne_none _ }

theorem Flow.stopPipe (h : Flow c stream s) : Flow c stream s.stopPipe :=
  { h with
    pipe := h.pipe.stopConsumer
    flow := nofun
    sawEof := fun hsaw => by
      obtain ⟨heof, -, hreceived⟩ := h.sawEof hsaw
      exact ⟨heof, rfl, hreceived⟩ }

theorem Control.stopPipe (h : Control c stream s) (hcaller : s.caller ≠ .starting)
    (hlive : s.reader.live = true → s.pipe.failure ≠ none) : Control c stream s.stopPipe :=
  { h with
    stopped := fun hreader _ => hlive hreader
    starting := fun hstarting => absurd hstarting hcaller }

theorem Flow.cancelProducer (h : Flow c stream s) : Flow c stream s.cancelProducer := { h with }

theorem Control.cancelProducer (h : Control c stream s) : Control c stream s.cancelProducer :=
  { h with }

theorem Flow.setCaller (h : Flow c stream s) : Flow c stream (s.setCaller caller) := { h with }

/-- The request moves past the await for the SDK. -/
theorem Control.setCaller (h : Control c stream s) (hpast : caller.past = true)
    (hlive : s.reader.live = true → s.pipe.failure ≠ none)
    (hawaiting : ∀ etag, caller = .awaitingProducer etag → s.sawEof = true)
    (houtcome : ∀ result, caller.outcome? = some (.ok result) →
      s.sawEof = true ∧ result.Complete c stream) : Control c stream (s.setCaller caller) :=
  { h with
    past := fun _ => hlive
    settled := fun hcaller => by
      change caller = .awaitingConsumer at hcaller
      rw [hcaller] at hpast
      cases hpast
    starting := fun hcaller => by
      change caller = .starting at hcaller
      rw [hcaller] at hpast
      cases hpast
    awaiting := hawaiting
    outcome := houtcome }

/-- The producer moves without a byte. -/
theorem Flow.setProducer (h : Flow c stream s) (hposition : phase.position ≤ c.producerSliceBytes)
    (hunwritten : s.pipe.failure = none → s.pipe.consumerStopped = false →
      phase.unwritten = s.producer.phase.unwritten)
    (hended : phase.ended? = s.producer.phase.ended?) : Flow c stream (s.setProducer phase) :=
  { h with
    position := hposition
    flow := fun hfailure hstopped => by
      change s.received ++ s.pipe.chunks.flatten ++ phase.unwritten = s.producer.hashed
      rw [hunwritten hfailure hstopped]
      exact h.flow hfailure hstopped
    result := fun result hresult => h.result result (hended ▸ hresult)
    eof := fun heof => by
      change phase.ended?.isSome
      rw [hended]
      exact h.eof heof }

theorem Control.setProducer (h : Control c stream s) : Control c stream (s.setProducer phase) :=
  { h with }

theorem Flow.produceFailed (h : Flow c stream s) (hended : s.producer.phase.ended? = none) :
    Flow c stream (s.produceFailed error) := by
  have hfailed : ∀ error' discard, Flow c stream
      ((s.failPipe error' discard).setProducer (.closing (.error error))) := by
    intro error' discard
    apply Flow.setProducer h.failPipe
    · exact Nat.zero_le _
    · exact nofun
    · exact hended.symm
  cases error with
  | limitExceeded => exact hfailed .limitExceeded false
  | cancelled => exact hfailed .uploadCancelled true
  | streamFailure | uploadCancelled | consumerStopped | invalidState | other =>
    exact hfailed .streamFailure false

theorem Control.produceFailed (h : Control c stream s) : Control c stream (s.produceFailed error) := by
  cases error <;> exact h.failPipe.setProducer

/-- The producer takes the next chunk. -/
theorem Flow.produceChunk {chunk : Bytes} {rest : List Bytes} (h : Flow c stream s)
    (hphase : s.producer.phase = .next) (hremaining : s.producer.remaining = chunk :: rest) :
    Flow c stream (s.produceChunk c chunk rest) := by
  have hsplit := h.split
  have hflow := h.flow
  have heof := h.eof
  rw [hremaining, List.flatten_cons] at hsplit
  rw [hphase] at hflow heof
  dsimp only [Upload.produceChunk]
  split
  · rename_i hempty
    rw [hempty, List.nil_append] at hsplit
    exact { h with split := hsplit }
  · split
    · exact h.produceFailed (by rw [hphase]; rfl)
    · rename_i hlimit
      exact { h with
        total := by
          change s.producer.total + chunk.length = (s.producer.hashed ++ chunk).length
          rw [List.length_append, h.total]
        limit := Nat.le_of_not_lt hlimit
        split := by
          rw [← hsplit]
          exact List.append_assoc _ _ _
        position := Nat.zero_le _
        flow := fun hfailure hstopped => by
          have := hflow hfailure hstopped
          simp only [ProducerPhase.unwritten, List.append_nil] at this
          change s.received ++ s.pipe.chunks.flatten ++ chunk.drop 0 = s.producer.hashed ++ chunk
          rw [this, List.drop_zero]
        result := nofun
        eof := heof }

/-- The stream is over and the pipe is closed. -/
theorem Flow.produceEnd (h : Flow c stream s) (hphase : s.producer.phase = .next)
    (hremaining : s.producer.remaining = []) : Flow c stream (s.produceEnd c) := by
  have hsplit := h.split
  have hflow := h.flow
  rw [hremaining, List.flatten_nil, List.append_nil] at hsplit
  rw [hphase] at hflow
  exact { h with
    pipe := h.pipe.close
    position := Nat.zero_le _
    flow := hflow
    result := fun result hresult => by
      cases hresult
      rw [h.total, hsplit]
      exact ⟨rfl, hsplit⟩
    eof := fun _ => rfl
    sawEof := fun hsaw => by
      obtain ⟨-, hchunks, hreceived⟩ := h.sawEof hsaw
      exact ⟨rfl, hchunks, hreceived⟩ }

/-- The producer writes what fits, or moves to the next piece. -/
theorem Flow.produceWrite {chunk : Bytes} {start position : ℕ} (h : Flow c stream s)
    (hphase : s.producer.phase = .writing chunk start position) :
    Flow c stream (s.produceWrite c chunk start position) := by
  have hposition := h.position
  have heof := h.eof
  have hflow := h.flow
  have hsaw := h.sawEof
  rw [hphase] at hposition heof hflow
  have hopen : s.pipe.eof = false := by
    cases hclosed : s.pipe.eof with
    | false => rfl
    | true => exact absurd (heof hclosed) (by intro h; cases h)
  dsimp only [Upload.produceWrite]
  split
  · rename_i hlt
    have hlength : (slice chunk start (start + c.producerSliceBytes)).length ≤
        c.producerSliceBytes := by
      rw [slice, List.length_take]
      omega
    split
    · exact h.produceFailed (by rw [hphase]; rfl)
    · rename_i pipe stop hpass
      obtain ⟨hfailure, hstopped, hwritten⟩ := writePass_ok hlt hpass
      have hsound := hwritten.sound h.pipe
      cases hwritten with
      | piece _ space hbefore hle hroom =>
        exact { h with
          pipe := hsound
          position := hle.trans hlength
          flow := fun _ _ => by
            have hall := hflow hfailure hstopped
            simp only [ProducerPhase.unwritten] at hall
            change s.received ++ (s.pipe.chunks ++ [slice (slice chunk start
              (start + c.producerSliceBytes)) position stop]).flatten
                ++ chunk.drop (start + stop) = s.producer.hashed
            rw [← hall, List.flatten_append, List.flatten_singleton,
              drop_eq_slice_append hbefore.le hle]
            simp only [List.append_assoc]
          result := by
            intro _ h
            cases h
          eof := heof
          sawEof := fun hs => absurd (hsaw hs).1 (by rw [hopen]; exact Bool.false_ne_true) }
    · rename_i pipe hpass
      obtain ⟨hfailure, hstopped, hwritten⟩ := writePass_ok hlt hpass
      cases hwritten with
      | full =>
        exact { h with
          pipe := h.pipe.signal _ _
          position := hposition
          flow := hflow
          result := by
            intro _ h
            cases h
          eof := heof }
  · rename_i hge
    have hlength : (slice chunk start (start + c.producerSliceBytes)).length =
        min c.producerSliceBytes (chunk.length - start) := by
      rw [slice, List.length_take, List.length_drop, Nat.add_sub_cancel_left]
    rw [hlength] at hge
    simp only [ProducerPhase.position] at hposition
    split
    · rename_i hmore
      apply h.setProducer
      · exact Nat.zero_le _
      · intro _ _
        rw [hphase]
        change chunk.drop (start + c.producerSliceBytes + 0) = chunk.drop (start + position)
        congr 1
        omega
      · rw [hphase]
        rfl
    · rename_i hlast
      apply h.setProducer
      · exact Nat.zero_le _
      · intro _ _
        rw [hphase]
        change [] = chunk.drop (start + position)
        rw [List.drop_eq_nil_of_le (by omega)]
      · rw [hphase]
        rfl

theorem Control.produceWrite {chunk : Bytes} {start position : ℕ} (h : Control c stream s) :
    Control c stream (s.produceWrite c chunk start position) := by
  dsimp only [Upload.produceWrite]
  split
  · rename_i hlt
    split
    · exact h.produceFailed
    · rename_i hpass
      obtain ⟨-, -, hwritten⟩ := writePass_ok hlt hpass
      cases hwritten with
      | piece => exact { h with }
    · rename_i hpass
      obtain ⟨-, -, hwritten⟩ := writePass_ok hlt hpass
      cases hwritten with
      | full => exact { h with }
  · split
    · exact h.setProducer
    · exact h.setProducer

end Operations

/-- What a reader that still runs gets of an empty pipe without failure is the end of the stream. -/
theorem Flow.atEnd {size : ℤ} {q : BytePipe} (h : Flow c stream s) (hc : Control c stream s)
    (hreading : s.reader = .reading) (hsize : size ≠ 0) (hread : s.pipe.read size = some (.ok [], q)) :
    s.pipe.eof = true ∧ s.pipe.failure = none ∧ s.pipe.consumerStopped = false ∧
      s.pipe.chunks = [] ∧ s.received = stream.flatten := by
  generalize hdata : ([] : Bytes) = data at hread
  have hhanded := read_handed h.pipe hread
  generalize hresult : Except.ok data = result at hhanded
  cases hhanded with
  | bytes _ _ _ hne => cases hresult; exact absurd hdata.symm (hne hsize)
  | failed => cases hresult
  | ended hfailure hchunks hflag =>
    have hstopped : s.pipe.consumerStopped = false := by
      cases hstop : s.pipe.consumerStopped with
      | false => rfl
      | true => exact absurd hfailure (hc.stopped (by rw [hreading]; rfl) hstop)
    rw [hstopped, Bool.or_false] at hflag
    obtain ⟨result, hended⟩ := Option.isSome_iff_exists.mp (h.eof hflag)
    have hunwritten : s.producer.phase.unwritten = [] := by
      cases hphase : s.producer.phase with
      | created | next | closing | done => rfl
      | writing | waiting => rw [hphase] at hended; cases hended
    have hflow := h.flow hfailure hstopped
    rw [hchunks, hunwritten, List.flatten_nil, List.append_nil, List.append_nil,
      (h.result result hended).2] at hflow
    exact ⟨hflag, hfailure, hstopped, hchunks, hflow⟩

theorem Flow.readPipe {size : ℤ} (h : Flow c stream s) (hc : Control c stream s)
    (hreading : s.reader = .reading) (hstep : s.readPipe size = some s') : Flow c stream s' := by
  obtain ⟨⟨result, q⟩, hread, hs'⟩ := Option.map_eq_some_iff.mp hstep
  have hhanded := read_handed h.pipe hread
  have hsound := hhanded.sound h.pipe
  cases result with
  | error failure =>
    subst hs'
    cases hhanded with
    | failed => exact h
  | ok data =>
    have hend : size ≠ 0 → data = [] → s.pipe.eof = true ∧ s.pipe.chunks = [] ∧
        s.received = stream.flatten := by
      rintro hsize rfl
      obtain ⟨heof, -, -, hchunks, hreceived⟩ := h.atEnd hc hreading hsize hread
      exact ⟨heof, hchunks, hreceived⟩
    have hsaw : (s.sawEof || (decide (size ≠ 0) && data.isEmpty)) = true →
        s.pipe.eof = true ∧ s.pipe.chunks = [] ∧ s.received = stream.flatten := by
      intro hflag
      rcases Bool.or_eq_true_iff.mp hflag with hold | hnew
      · exact h.sawEof hold
      · obtain ⟨hsize, hempty⟩ := Bool.and_eq_true_iff.mp hnew
        exact hend (of_decide_eq_true hsize) (List.isEmpty_iff.mp hempty)
    subst hs'
    cases hhanded with
    | bytes _ chunks hqueue _ hfilled =>
      exact { h with
        pipe := hsound
        flow := fun hfailure hstopped => by
          have hflow := h.flow hfailure hstopped
          rw [hqueue] at hflow
          simpa only [List.append_assoc] using hflow
        sawEof := fun hflag => by
          obtain ⟨heof, hchunks, hreceived⟩ := hsaw hflag
          rw [hchunks, List.flatten_nil] at hqueue
          obtain ⟨hdata, hrest⟩ := List.append_eq_nil_iff.mp hqueue.symm
          refine ⟨heof, ?_, ?_⟩
          · exact List.eq_nil_iff_forall_not_mem.mpr fun chunk hchunk =>
              hfilled chunk hchunk (List.flatten_eq_nil_iff.mp hrest chunk hchunk)
          · rw [hdata]
            exact (List.append_nil _).trans hreceived }
    | ended hfailure hchunks hflag =>
      exact { h with
        flow := fun hfailure hstopped => by
          have hflow := h.flow hfailure hstopped
          simpa only [List.append_nil] using hflow
        sawEof := fun hflag => by
          obtain ⟨heof, hchunks, hreceived⟩ := hsaw hflag
          exact ⟨heof, hchunks, (List.append_nil _).trans hreceived⟩ }

theorem Control.readPipe {size : ℤ} (h : Control c stream s) (hf : Flow c stream s)
    (hstep : s.readPipe size = some s') : Control c stream s' := by
  obtain ⟨⟨result, q⟩, hread, hs'⟩ := Option.map_eq_some_iff.mp hstep
  have hhanded := read_handed hf.pipe hread
  cases result with
  | error failure =>
    subst hs'
    cases hhanded with
    | failed => exact h
  | ok data =>
    have hkeep : s.sawEof = true → (s.sawEof || (decide (size ≠ 0) && data.isEmpty)) = true :=
      fun hsaw => by rw [hsaw, Bool.true_or]
    subst hs'
    cases hhanded with
    | bytes | ended =>
      exact { h with
        sdk := fun etag hetag => hkeep (h.sdk etag hetag)
        consumer := fun etag hetag => hkeep (h.consumer etag hetag)
        awaiting := fun etag hetag => hkeep (h.awaiting etag hetag)
        outcome := fun result hresult =>
          ⟨hkeep (h.outcome result hresult).1, (h.outcome result hresult).2⟩ }

theorem Flow.stepReader {event : UploadEvent} (h : Flow c stream s) (hc : Control c stream s)
    (hstep : s.stepReader event = some s') : Flow c stream s' := by
  cases event <;> dsimp only [Upload.stepReader] at hstep
  case threadStarted | threadDropped | sdkReturned | sdkRaised =>
    split at hstep
    · cases hstep
      exact { h with }
    · cases hstep
  case read size =>
    split at hstep
    · rename_i hreading
      exact h.readPipe hc hreading hstep
    · cases hstep
  case sdkStopped =>
    split at hstep
    · cases hstep
      exact { h.stopPipe with }
    · cases hstep
  case consumerSettled =>
    split at hstep
    · split at hstep <;> cases hstep <;> exact { h with }
    · cases hstep
  all_goals cases hstep

theorem Control.stepReader {event : UploadEvent} (h : Control c stream s) (hf : Flow c stream s)
    (hstep : s.stepReader event = some s') : Control c stream s' := by
  have hstarting : s.reader ≠ .absent → s.caller ≠ .starting :=
    fun hreader hcaller => hreader (h.starting hcaller).1
  cases event <;> dsimp only [Upload.stepReader] at hstep
  case threadStarted =>
    split at hstep
    · rename_i hqueued
      cases hstep
      have hlive : s.reader.live = true := by rw [hqueued]; rfl
      exact { h with
        stopped := fun _ => h.stopped hlive
        past := fun hpast _ => h.past hpast hlive
        settled := fun hcaller hcancelling hconsumer =>
          absurd hlive (by rw [h.settled hcaller hcancelling hconsumer]; exact Bool.false_ne_true)
        starting := fun hcaller => absurd hcaller (hstarting (by rw [hqueued]; exact nofun))
        sdk := nofun }
    · cases hstep
  case threadDropped =>
    split at hstep
    · rename_i hqueued
      cases hstep
      exact { h with
        stopped := nofun
        past := nofun
        settled := fun _ _ _ => rfl
        starting := fun hcaller => absurd hcaller (hstarting (by rw [hqueued]; exact nofun))
        sdk := nofun }
    · cases hstep
  case read size =>
    split at hstep
    · exact h.readPipe hf hstep
    · cases hstep
  case sdkReturned etag =>
    split at hstep
    · rename_i hreading
      cases hstep
      exact { h with
        stopped := nofun
        past := nofun
        settled := fun _ _ _ => rfl
        starting := fun hcaller => absurd hcaller (hstarting (by rw [hreading.1]; exact nofun))
        sdk := fun _ _ => hreading.2 }
    · cases hstep
  case sdkRaised error =>
    split at hstep
    · rename_i hreading
      cases hstep
      exact { h with
        stopped := nofun
        past := nofun
        settled := fun _ _ _ => rfl
        starting := fun hcaller => absurd hcaller (hstarting (by rw [hreading]; exact nofun))
        sdk := nofun }
    · cases hstep
  case sdkStopped =>
    split at hstep
    · rename_i result hstopping
      cases hstep
      exact { h with
        stopped := nofun
        past := nofun
        settled := fun _ _ _ => rfl
        starting := fun hcaller => absurd hcaller (hstarting (by rw [hstopping]; exact nofun))
        sdk := fun etag hetag => h.sdk etag (by rw [hstopping]; exact hetag) }
    · cases hstep
  case consumerSettled =>
    split at hstep
    · split at hstep
      · rename_i result hfinished
        cases hstep
        exact { h with
          settled := fun _ _ _ => by
            change s.reader.live = false
            rw [hfinished]
            rfl
          starting := fun hcaller => absurd hcaller (hstarting (by rw [hfinished]; exact nofun))
          consumer := fun etag hetag => h.sdk etag (by rw [hfinished]; exact hetag) }
      · rename_i hdropped
        cases hstep
        exact { h with
          settled := fun _ _ _ => by
            change s.reader.live = false
            rw [hdropped]
            rfl
          starting := fun hcaller => absurd hcaller (hstarting (by rw [hdropped]; exact nofun))
          consumer := nofun }
      · cases hstep
    · cases hstep
  all_goals cases hstep

/-- What a step of the producer is. -/
inductive Produced (c : UploadConfig δ) (s : Upload δ) : Upload δ → Prop
  | started (hphase : s.producer.phase = .created) : Produced c s (s.setProducer .next)
  | unstarted (hphase : s.producer.phase = .created) :
      Produced c s (s.setProducer (.done (.error .cancelled)))
  | chunk (chunk : Bytes) (rest : List Bytes) (hphase : s.producer.phase = .next)
      (hremaining : s.producer.remaining = chunk :: rest) : Produced c s (s.produceChunk c chunk rest)
  | ended (hphase : s.producer.phase = .next) (hremaining : s.producer.remaining = []) :
      Produced c s (s.produceEnd c)
  | failed (error : UploadFault) (hended : s.producer.phase.ended? = none) :
      Produced c s (s.produceFailed error)
  | wrote (chunk : Bytes) (start position : ℕ)
      (hphase : s.producer.phase = .writing chunk start position) :
      Produced c s (s.produceWrite c chunk start position)
  | woken (chunk : Bytes) (start position : ℕ)
      (hphase : s.producer.phase = .waiting chunk start position) :
      Produced c s (s.setProducer (.writing chunk start position))
  | closed (result : Except UploadFault (ℕ × δ)) (hphase : s.producer.phase = .closing result) :
      Produced c s (s.setProducer (.done result))

theorem stepProducer_produced {event : UploadEvent} (hstep : s.stepProducer c event = some s') :
    Produced c s s' := by
  unfold Upload.stepProducer at hstep
  split at hstep
  · rename_i hphase
    cases hstep
    exact .started hphase
  · rename_i hphase
    split at hstep
    · rename_i chunk rest hremaining
      cases hstep
      exact .chunk chunk rest hphase hremaining
    · cases hstep
  · rename_i hphase
    cases hstep
    exact .failed .streamFailure (by rw [hphase]; rfl)
  · rename_i hphase
    split at hstep
    · cases hstep
    · rename_i hremaining
      cases hstep
      exact .ended hphase hremaining
  · rename_i error hphase
    cases hstep
    exact .failed error (by rw [hphase]; rfl)
  · rename_i chunk start position hphase
    cases hstep
    exact .wrote chunk start position hphase
  · rename_i chunk start position hphase
    split at hstep
    · cases hstep
      exact .woken chunk start position hphase
    · cases hstep
  · rename_i hphase
    split at hstep
    · cases hstep
      exact .failed .cancelled (by rw [hphase]; rfl)
    · cases hstep
  · rename_i hphase
    split at hstep
    · cases hstep
      exact .unstarted hphase
    · cases hstep
  · rename_i result hphase
    cases hstep
    exact .closed result hphase
  · cases hstep

theorem Flow.produced (h : Flow c stream s) (hstep : Produced c s s') : Flow c stream s' := by
  have hposition := h.position
  cases hstep with
  | started hphase | unstarted hphase =>
    apply h.setProducer
    · exact Nat.zero_le _
    · intro _ _
      rw [hphase]
      rfl
    · rw [hphase]
      rfl
  | chunk chunk rest hphase hremaining => exact h.produceChunk hphase hremaining
  | ended hphase hremaining => exact h.produceEnd hphase hremaining
  | failed error hended => exact h.produceFailed hended
  | wrote chunk start position hphase => exact h.produceWrite hphase
  | woken chunk start position hphase =>
    rw [hphase] at hposition
    apply h.setProducer
    · exact hposition
    · intro _ _
      rw [hphase]
      rfl
    · rw [hphase]
      rfl
  | closed result hphase =>
    apply h.setProducer
    · exact Nat.zero_le _
    · intro _ _
      rw [hphase]
      rfl
    · rw [hphase]
      cases result <;> rfl

theorem Control.produced (h : Control c stream s) (hstep : Produced c s s') :
    Control c stream s' := by
  cases hstep with
  | started | unstarted | woken | closed => exact h.setProducer
  | failed => exact h.produceFailed
  | wrote => exact h.produceWrite
  | ended => exact { h with }
  | chunk chunk rest =>
    dsimp only [Upload.produceChunk]
    split
    · exact { h with }
    · split
      · exact h.produceFailed
      · exact { h with }

theorem Flow.abandon {error : UploadError} (h : Flow c stream s) : Flow c stream (s.abandon error) :=
  h.failPipe.cancelProducer.setCaller

theorem Control.abandon {error : UploadError} {cancelling : Bool} (h : Control c stream s) :
    Control c stream ({ s with cancelling := cancelling }.abandon error) where
  stopped := fun _ _ => Option.some_ne_none _
  past := fun _ _ => Option.some_ne_none _
  settled := nofun
  starting := nofun
  sdk := h.sdk
  consumer := h.consumer
  awaiting := nofun
  outcome := nofun

/-- The result that the request puts together. -/
theorem Flow.finishPut {consumerResult : Option Str} {result : Except UploadFault (ℕ × δ)}
    {outcome : UploadResult δ} (h : Flow c stream s)
    (hresult : s.producer.phase.result? = some result)
    (houtcome : s.finishPut consumerResult result = .ok outcome) : outcome.Complete c stream := by
  cases result with
  | error error => cases error <;> cases houtcome
  | ok pair =>
    have hended : s.producer.phase.ended? = some pair := by
      cases hphase : s.producer.phase with
      | done result =>
        rw [hphase] at hresult
        cases hresult
        rfl
      | created | next | writing | waiting | closing => rw [hphase] at hresult; cases hresult
    obtain ⟨hpair, hhashed⟩ := h.result pair hended
    subst hpair
    dsimp only [Upload.finishPut] at houtcome
    split at houtcome
    · cases houtcome
    · cases houtcome
      refine ⟨rfl, ?_, rfl, ?_⟩
      · change stream.flatten.length ≤ c.maxBytes
        rw [← hhashed, ← h.total]
        exact h.limit
      · change s.pipe.maxBufferedBytes ≤ c.bufferBytes
        rw [← h.capacity]
        exact h.pipe.peak

theorem Flow.resume (h : Flow c stream s) (hstep : s.resume = some s') : Flow c stream s' := by
  unfold Upload.resume at hstep
  split at hstep
  · split at hstep
    · cases hstep
      exact Flow.abandon { h with }
    · split at hstep
      · cases hstep
      · cases hstep
        exact h.stopPipe.cancelProducer.setCaller
      · split at hstep <;> cases hstep <;> exact h.setCaller
  · cases hstep
    exact h.setCaller
  · split at hstep
    · cases hstep
      exact Flow.abandon { h with }
    · obtain ⟨result, -, hs'⟩ := Option.map_eq_some_iff.mp hstep
      subst hs'
      exact h.setCaller
  · cases hstep
    exact h.stopPipe.cancelProducer.setCaller
  · cases hstep

theorem Control.resume (h : Control c stream s) (hf : Flow c stream s) (hstep : s.resume = some s') :
    Control c stream s' := by
  unfold Upload.resume at hstep
  split at hstep
  · rename_i hcaller
    split at hstep
    · cases hstep
      exact h.abandon
    · rename_i hcancelling
      have hsettled : s.consumer ≠ none → s.reader.live = true → s.pipe.failure ≠ none := by
        intro hconsumer hlive
        rw [h.settled hcaller (Bool.eq_false_iff.mpr hcancelling) hconsumer] at hlive
        cases hlive
      split at hstep
      · cases hstep
      · rename_i error hconsumer
        cases hstep
        have hquiet := hsettled (by rw [hconsumer]; exact Option.some_ne_none _)
        apply (h.stopPipe (by rw [hcaller]; exact nofun) hquiet).cancelProducer.setCaller
        · rfl
        · exact hquiet
        · exact nofun
        · exact nofun
      · rename_i consumerResult hconsumer
        have hquiet := hsettled (by rw [hconsumer]; exact Option.some_ne_none _)
        have hsaw := h.consumer consumerResult hconsumer
        split at hstep
        · rename_i result hresult
          cases hstep
          apply h.setCaller
          · rfl
          · exact hquiet
          · exact nofun
          · intro outcome houtcome
            exact ⟨hsaw, hf.finishPut hresult (Option.some.inj houtcome)⟩
        · cases hstep
          apply h.setCaller
          · rfl
          · exact hquiet
          · exact fun _ _ => hsaw
          · exact nofun
  · rename_i error hcaller
    cases hstep
    apply h.setCaller
    · rfl
    · exact h.past (by rw [hcaller]; rfl)
    · exact nofun
    · exact nofun
  · rename_i consumerResult hcaller
    split at hstep
    · cases hstep
      exact h.abandon
    · obtain ⟨result, hresult, hs'⟩ := Option.map_eq_some_iff.mp hstep
      subst hs'
      apply h.setCaller
      · rfl
      · exact h.past (by rw [hcaller]; rfl)
      · exact nofun
      · intro outcome houtcome
        exact ⟨h.awaiting consumerResult hcaller, hf.finishPut hresult (Option.some.inj houtcome)⟩
  · rename_i outcome hcaller
    cases hstep
    have hlive := h.past (by rw [hcaller]; rfl)
    apply (h.stopPipe (by rw [hcaller]; exact nofun) hlive).cancelProducer.setCaller
    · rfl
    · exact hlive
    · exact nofun
    · exact fun result hresult => h.outcome result (by rw [hcaller]; exact hresult)
  · cases hstep

theorem Flow.timeout (h : Flow c stream s) (hstep : s.timeout = some s') : Flow c stream s' := by
  unfold Upload.timeout at hstep
  split at hstep
  · split at hstep <;> cases hstep
    exact h.abandon
  · split at hstep <;> cases hstep
    exact h.stopPipe.cancelProducer.setCaller
  · cases hstep

theorem Control.timeout (h : Control c stream s) (hstep : s.timeout = some s') :
    Control c stream s' := by
  unfold Upload.timeout at hstep
  split at hstep
  · split at hstep <;> cases hstep
    exact h.abandon
  · rename_i consumerResult hcaller
    have hlive := h.past (by rw [hcaller]; rfl)
    split at hstep <;> cases hstep
    apply (h.stopPipe (by rw [hcaller]; exact nofun) hlive).cancelProducer.setCaller
    · rfl
    · exact hlive
    · exact nofun
    · exact nofun
  · cases hstep

theorem Flow.stepCaller {event : UploadEvent} (h : Flow c stream s)
    (hstep : s.stepCaller event = some s') : Flow c stream s' := by
  cases event <;> dsimp only [Upload.stepCaller] at hstep
  case sdkAdmitted =>
    split at hstep
    · split at hstep <;> cases hstep
      exact { h with }
    · cases hstep
  case startFailed error =>
    split at hstep <;> cases hstep
    exact h.failPipe.setCaller
  case spaceSignalled =>
    split at hstep <;> cases hstep
    exact { h with pipe := h.pipe.signal _ _ }
  case cancelRequested | storeClosed =>
    cases hstep
    exact { h with }
  case loopStopped =>
    cases hstep
    exact { h.cancelProducer with }
  case timedOut => exact h.timeout hstep
  case resumed => exact h.resume hstep
  all_goals cases hstep

theorem Control.stepCaller {event : UploadEvent} (h : Control c stream s) (hf : Flow c stream s)
    (hstep : s.stepCaller event = some s') : Control c stream s' := by
  have hclosed : ∀ etag, some (s.consumer.getD (.error .cancelled)) = some (.ok etag) →
      s.sawEof = true := by
    intro etag hetag
    cases hconsumer : s.consumer with
    | none => rw [hconsumer] at hetag; cases hetag
    | some result =>
      rw [hconsumer] at hetag
      exact h.consumer etag (by rw [hconsumer]; exact hetag)
  cases event <;> dsimp only [Upload.stepCaller] at hstep
  case sdkAdmitted =>
    split at hstep
    · rename_i hcaller
      obtain ⟨habsent, hconsumer, hopen⟩ := h.starting hcaller
      split at hstep
      · cases hstep
      · rename_i hcancelling
        cases hstep
        exact { h with
          stopped := fun _ hstopped => absurd hstopped (by rw [hopen]; exact Bool.false_ne_true)
          past := nofun
          settled := fun _ hcancel hsome => by
            rcases hconsumer with hnone | hcancelled
            · exact absurd hnone hsome
            · exact absurd hcancelled hcancelling
          starting := nofun
          sdk := nofun
          awaiting := nofun
          outcome := nofun }
    · cases hstep
  case startFailed error =>
    split at hstep <;> cases hstep
    apply h.failPipe.setCaller
    · rfl
    · exact fun _ => Option.some_ne_none _
    · exact nofun
    · exact nofun
  case spaceSignalled =>
    split at hstep <;> cases hstep
    exact { h with }
  case cancelRequested =>
    cases hstep
    exact { h with
      settled := nofun
      starting := fun hcaller => ⟨(h.starting hcaller).1, .inr rfl, (h.starting hcaller).2.2⟩ }
  case storeClosed | loopStopped =>
    cases hstep
    exact { h with
      settled := nofun
      starting := fun hcaller => ⟨(h.starting hcaller).1, .inr rfl, (h.starting hcaller).2.2⟩
      consumer := hclosed }
  case timedOut => exact h.timeout hstep
  case resumed => exact h.resume hf hstep
  all_goals cases hstep

theorem Upload.step_cases {event : UploadEvent} (hstep : s.step c event = some s') :
    s.stepReader event = some s' ∨ Produced c s s' ∨ s.stepCaller event = some s' := by
  unfold Upload.step at hstep
  split at hstep
  case h_1 | h_2 | h_3 | h_4 | h_5 | h_6 | h_7 => exact .inl hstep
  case h_17 => exact .inr (.inr hstep)
  all_goals
    split at hstep
    · cases hstep
    · exact .inr (.inl (stepProducer_produced hstep))

/-- What every state of an upload satisfies. -/
theorem flow_control_of_reaches (h : Reaches (Upload.step c) (.start c stream) s) :
    Flow c stream s ∧ Control c stream s := by
  apply h.induction_on (fun s => Flow c stream s ∧ Control c stream s) ?_ ⟨flow_start, control_start⟩
  rintro t event u ⟨hf, hc⟩ hstep
  rcases Upload.step_cases hstep with hreader | hproduced | hcaller
  · exact ⟨hf.stepReader hc hreader, hc.stepReader hf hreader⟩
  · exact ⟨hf.produced hproduced, hc.produced hproduced⟩
  · exact ⟨hf.stepCaller hcaller, hc.stepCaller hf hcaller⟩

/-- The pipe neither failed nor was stopped, so that none of its bytes were discarded. -/
def BytePipe.Intact (p : BytePipe) : Prop := p.failure = none ∧ p.consumerStopped = false

theorem not_intact_failPipe {error : UploadFault} {discard : Bool} :
    ¬ (s.failPipe error discard).pipe.Intact := fun h => Option.some_ne_none _ h.1

theorem not_intact_stopPipe : ¬ s.stopPipe.pipe.Intact := fun h => absurd h.2 Bool.true_eq_false.mp

theorem not_intact_produceFailed {error : UploadFault} : ¬ (s.produceFailed error).pipe.Intact := by
  cases error <;> exact not_intact_failPipe (s := s)

theorem Produced.intact (hstep : Produced c s s') (h : s'.pipe.Intact) : s.pipe.Intact := by
  cases hstep with
  | started | unstarted | woken | closed => exact h
  | ended => exact h
  | failed => exact absurd h not_intact_produceFailed
  | chunk chunk rest =>
    dsimp only [Upload.produceChunk] at h
    split at h
    · exact h
    · split at h
      · exact absurd h not_intact_produceFailed
      · exact h
  | wrote chunk start position =>
    dsimp only [Upload.produceWrite] at h
    split at h
    · rename_i hlt
      split at h
      · exact absurd h not_intact_produceFailed
      · rename_i hpass
        obtain ⟨hfailure, hstopped, -⟩ := writePass_ok hlt hpass
        exact ⟨hfailure, hstopped⟩
      · rename_i hpass
        obtain ⟨hfailure, hstopped, -⟩ := writePass_ok hlt hpass
        exact ⟨hfailure, hstopped⟩
    · split at h <;> exact h

theorem intact_of_stepReader {event : UploadEvent} (hf : Flow c stream s)
    (hstep : s.stepReader event = some s') (h : s'.pipe.Intact) : s.pipe.Intact := by
  cases event <;> dsimp only [Upload.stepReader] at hstep
  case threadStarted | threadDropped | sdkReturned | sdkRaised =>
    split at hstep <;> cases hstep
    exact h
  case read size =>
    split at hstep
    · obtain ⟨⟨result, q⟩, hread, hs'⟩ := Option.map_eq_some_iff.mp hstep
      have hhanded := read_handed hf.pipe hread
      subst hs'
      cases hhanded with
      | bytes | failed | ended => exact h
    · cases hstep
  case sdkStopped =>
    split at hstep <;> cases hstep
    exact absurd h (not_intact_stopPipe (s := s))
  case consumerSettled =>
    split at hstep
    · split at hstep <;> cases hstep <;> exact h
    · cases hstep
  all_goals cases hstep

theorem intact_of_resume (hstep : s.resume = some s') (h : s'.pipe.Intact) : s.pipe.Intact := by
  unfold Upload.resume at hstep
  split at hstep
  · split at hstep
    · cases hstep
      exact absurd h (not_intact_failPipe (s := s))
    · split at hstep
      · cases hstep
      · cases hstep
        exact absurd h (not_intact_stopPipe (s := s))
      · split at hstep <;> cases hstep <;> exact h
  · cases hstep
    exact h
  · split at hstep
    · cases hstep
      exact absurd h (not_intact_failPipe (s := s))
    · obtain ⟨result, -, hs'⟩ := Option.map_eq_some_iff.mp hstep
      subst hs'
      exact h
  · cases hstep
    exact absurd h (not_intact_stopPipe (s := s))
  · cases hstep

theorem intact_of_stepCaller {event : UploadEvent} (hstep : s.stepCaller event = some s')
    (h : s'.pipe.Intact) : s.pipe.Intact := by
  cases event <;> dsimp only [Upload.stepCaller] at hstep
  case sdkAdmitted =>
    split at hstep
    · split at hstep <;> cases hstep
      exact h
    · cases hstep
  case startFailed error =>
    split at hstep <;> cases hstep
    exact absurd h (not_intact_failPipe (s := s))
  case spaceSignalled =>
    split at hstep <;> cases hstep
    exact h
  case cancelRequested | storeClosed | loopStopped =>
    cases hstep
    exact h
  case timedOut =>
    unfold Upload.timeout at hstep
    split at hstep
    · split at hstep <;> cases hstep
      exact absurd h (not_intact_failPipe (s := s))
    · split at hstep <;> cases hstep
      exact absurd h (not_intact_stopPipe (s := s))
    · cases hstep
  case resumed => exact intact_of_resume hstep h
  all_goals cases hstep

/-- A failure of the pipe, and the end of its reader, are for good. -/
theorem intact_of_reaches {t : Upload δ} (hstart : Reaches (Upload.step c) (.start c stream) s)
    (h : Reaches (Upload.step c) s t) (ht : t.pipe.Intact) : s.pipe.Intact := by
  have hall : (Flow c stream t ∧ Control c stream t) ∧ (t.pipe.Intact → s.pipe.Intact) := by
    apply h.induction_on (fun t => (Flow c stream t ∧ Control c stream t) ∧
      (t.pipe.Intact → s.pipe.Intact)) ?_ ⟨flow_control_of_reaches hstart, id⟩
    rintro t event u ⟨⟨hf, hc⟩, hback⟩ hstep
    rcases Upload.step_cases hstep with hreader | hproduced | hcaller
    · exact ⟨⟨hf.stepReader hc hreader, hc.stepReader hf hreader⟩,
        fun hu => hback (intact_of_stepReader hf hreader hu)⟩
    · exact ⟨⟨hf.produced hproduced, hc.produced hproduced⟩,
        fun hu => hback (hproduced.intact hu)⟩
    · exact ⟨⟨hf.stepCaller hcaller, hc.stepCaller hf hcaller⟩,
        fun hu => hback (intact_of_stepCaller hcaller hu)⟩
  exact hall.2 ht

/-- An upload that returns has given the SDK the whole stream in order, its size, within the limit,
and its checksum are those of the bytes given, and the pipe never held more than its capacity.  The
SDK is given the end of the file only when the producer has closed the pipe, and in no state before
had the pipe failed, been emptied or stopped. -/
theorem put_stream_complete (h : Reaches (Upload.step c) (.start c stream) s) :
    (∀ result, s.caller = .done (.ok result) →
      s.received = stream.flatten ∧ result.size = s.received.length ∧ result.size ≤ c.maxBytes ∧
        result.checksum = c.sha256 s.received ∧ result.maxBuffered ≤ c.bufferBytes) ∧
    ∀ size pipe, s.reader = .reading → size ≠ 0 → s.pipe.read size = some (.ok [], pipe) →
      s.pipe.eof = true ∧
        s.producer.phase.ended? = some (stream.flatten.length, c.sha256 stream.flatten) ∧
        s.received = stream.flatten ∧
        ∀ before, Reaches (Upload.step c) (.start c stream) before →
          Reaches (Upload.step c) before s → before.pipe.Intact := by
  obtain ⟨hf, hc⟩ := flow_control_of_reaches h
  constructor
  · intro result hresult
    obtain ⟨hsaw, hcomplete⟩ := hc.outcome result (by rw [hresult]; rfl)
    obtain ⟨-, -, hreceived⟩ := hf.sawEof hsaw
    rw [hreceived]
    exact ⟨rfl, hcomplete.size, hcomplete.limit, hcomplete.checksum, hcomplete.peak⟩
  · intro size pipe hreading hsize hread
    obtain ⟨heof, hfailure, hstopped, -, hreceived⟩ := hf.atEnd hc hreading hsize hread
    obtain ⟨result, hended⟩ := Option.isSome_iff_exists.mp (hf.eof heof)
    refine ⟨heof, ?_, hreceived, ?_⟩
    · rw [hended, (hf.result result hended).1]
    · intro before hbefore hlater
      exact intact_of_reaches hbefore hlater ⟨hfailure, hstopped⟩

/-- A configuration whose pipe holds two bytes. -/
def smallUpload : UploadConfig ℕ where
  bufferBytes := 2
  producerSliceBytes := 3
  maxBytes := 10
  sha256 := List.length
  buffer_pos := Nat.two_pos
  slice_pos := Nat.succ_pos 2

/-- A stream of five bytes in two chunks, with an empty chunk between them, that is uploaded to its
end; the producer waits once for space. -/
def wholeUpload : List UploadEvent :=
  [.sdkAdmitted, .threadStarted, .producerStarted, .streamYielded, .producerRan, .producerRan,
    .read 1, .spaceSignalled, .spaceSeen, .producerRan, .producerRan, .read (-1), .read 4,
    .producerRan, .producerRan, .streamYielded, .streamYielded, .producerRan, .read 5, .producerRan,
    .streamEnded, .read 5, .read 5, .sdkReturned (some "\"e\"".toList), .sdkStopped,
    .consumerSettled, .resumed, .streamClosed, .resumed, .resumed]

theorem put_stream_complete_wholeUpload :
    ∃ s : Upload ℕ, Reaches (Upload.step smallUpload) (.start smallUpload [[1, 2, 3, 4], [], [5]]) s ∧
      s.caller = .done (.ok ⟨5, 5, "e".toList, 2⟩) ∧ s.received = [1, 2, 3, 4, 5] := by
  have hrun : (runs (Upload.step smallUpload) (.start smallUpload [[1, 2, 3, 4], [], [5]])
      wholeUpload).map (·.caller) = some (.done (.ok ⟨5, 5, "e".toList, 2⟩)) := by decide +kernel
  obtain ⟨s, hs, hcaller⟩ := Option.map_eq_some_iff.mp hrun
  have hreaches : Reaches (Upload.step smallUpload) _ s := ⟨wholeUpload, hs⟩
  exact ⟨s, hreaches, hcaller, ((put_stream_complete hreaches).1 _ hcaller).1⟩

end VeloxRag.ObjectStore
