import VeloxRag.Text

/-!
# The pipe between an upload and the SDK

`_BoundedBytePipe` of the object store: a queue of byte chunks of bounded size with one writer on
the event loop and one reader on a thread.  Each definition here is one critical section of the
condition variable.

## Main definitions

* `BytePipe` — the fields of the pipe.
* `BytePipe.writePass`, `read`, `close`, `fail`, `stopConsumer` — its critical sections.
* `BytePipe.Sound` — the byte counters agree with the queue.
-/

namespace VeloxRag.ObjectStore

/-- The exceptions that pass through an upload. -/
inductive UploadFault
  | limitExceeded
  | streamFailure
  | uploadCancelled
  | consumerStopped
  /-- `asyncio.CancelledError` -/
  | cancelled
  /-- `asyncio.InvalidStateError`, the result of a task that is not done -/
  | invalidState
  /-- any other exception of the stream or of the SDK -/
  | other
  deriving DecidableEq, Repr

/-- `_BoundedBytePipe`; `wakes` counts the calls of `_space_available.set` the loop has still to
run. -/
structure BytePipe where
  capacity : ℕ
  chunks : List Bytes
  bufferedBytes : ℕ
  maxBufferedBytes : ℕ
  eof : Bool
  failure : Option UploadFault
  consumerStopped : Bool
  spaceAvailable : Bool
  wakes : ℕ
  deriving DecidableEq, Repr

namespace BytePipe

/-- `__init__`. -/
def empty (capacity : ℕ) : BytePipe where
  capacity := capacity
  chunks := []
  bufferedBytes := 0
  maxBufferedBytes := 0
  eof := false
  failure := none
  consumerStopped := false
  spaceAvailable := true
  wakes := 0

/-- One pass of the loop in `write`, for a position inside the data: the position after the piece
that went in, or none when the pipe is full. -/
def writePass (p : BytePipe) (data : Bytes) (position : ℕ) :
    Except UploadFault (BytePipe × Option ℕ) :=
  match p.failure with
  | some failure => .error failure
  | none =>
    if p.consumerStopped then .error .consumerStopped
    else
      let available := p.capacity - p.bufferedBytes
      if available > 0 then
        let stop := min data.length (position + available)
        let piece := slice data position stop
        let buffered := p.bufferedBytes + piece.length
        .ok ({ p with
          chunks := p.chunks ++ [piece]
          bufferedBytes := buffered
          maxBufferedBytes := max p.maxBufferedBytes buffered
          spaceAvailable := if buffered ≥ p.capacity then false else p.spaceAvailable }, some stop)
      else .ok ({ p with spaceAvailable := false }, none)

/-- `read`: the bytes or the failure, and none while the reader waits. -/
def read (p : BytePipe) (size : ℤ) : Option (Except UploadFault Bytes × BytePipe) :=
  match p.chunks with
  | chunk :: rest =>
    if 0 ≤ size ∧ size < chunk.length then
      let result := chunk.take size.toNat
      some (.ok result, { p with
        chunks := chunk.drop size.toNat :: rest
        bufferedBytes := p.bufferedBytes - result.length
        wakes := p.wakes + 1 })
    else
      some (.ok chunk, { p with
        chunks := rest
        bufferedBytes := p.bufferedBytes - chunk.length
        wakes := p.wakes + 1 })
  | [] =>
    match p.failure with
    | some failure => some (.error failure, p)
    | none => if p.eof || p.consumerStopped then some (.ok [], p) else none

/-- `close`. -/
def close (p : BytePipe) : BytePipe := { p with eof := true }

/-- `fail`. -/
def fail (p : BytePipe) (error : UploadFault) (discard : Bool) : BytePipe :=
  { p with
    chunks := if discard then [] else p.chunks
    bufferedBytes := if discard then 0 else p.bufferedBytes
    failure := some (p.failure.getD error)
    wakes := p.wakes + 1 }

/-- `stop_consumer`. -/
def stopConsumer (p : BytePipe) : BytePipe :=
  { p with
    consumerStopped := true
    chunks := []
    bufferedBytes := 0
    wakes := p.wakes + 1 }

/-- The byte counters agree with the queue, and neither passes the capacity. -/
structure Sound (p : BytePipe) : Prop where
  counted : p.bufferedBytes = p.chunks.flatten.length
  filled : ∀ chunk ∈ p.chunks, chunk ≠ []
  bounded : p.bufferedBytes ≤ p.capacity
  peak : p.maxBufferedBytes ≤ p.capacity

variable {p q : BytePipe} {data : Bytes} {position : ℕ} {size : ℤ}

theorem sound_empty (capacity : ℕ) : (empty capacity).Sound where
  counted := rfl
  filled := by simp [empty]
  bounded := Nat.zero_le _
  peak := Nat.zero_le _

theorem Sound.close (h : p.Sound) : p.close.Sound := ⟨h.counted, h.filled, h.bounded, h.peak⟩

theorem Sound.fail (h : p.Sound) (error : UploadFault) (discard : Bool) :
    (p.fail error discard).Sound := by
  cases discard with
  | false => exact ⟨h.counted, h.filled, h.bounded, h.peak⟩
  | true => exact ⟨rfl, by simp [BytePipe.fail], Nat.zero_le _, h.peak⟩

theorem Sound.stopConsumer (h : p.Sound) : p.stopConsumer.Sound :=
  ⟨rfl, by simp [BytePipe.stopConsumer], Nat.zero_le _, h.peak⟩

theorem Sound.signal (h : p.Sound) (space : Bool) (wakes : ℕ) :
    { p with spaceAvailable := space, wakes := wakes }.Sound :=
  ⟨h.counted, h.filled, h.bounded, h.peak⟩

/-- What a pass of `write` can do. -/
inductive Written (p : BytePipe) (data : Bytes) (position : ℕ) : BytePipe → Option ℕ → Prop
  | piece (stop : ℕ) (space : Bool) (hlt : position < stop) (hle : stop ≤ data.length)
      (hroom : p.bufferedBytes + (stop - position) ≤ p.capacity) :
      Written p data position
        { p with
          chunks := p.chunks ++ [slice data position stop]
          bufferedBytes := p.bufferedBytes + (stop - position)
          maxBufferedBytes := max p.maxBufferedBytes (p.bufferedBytes + (stop - position))
          spaceAvailable := space } (some stop)
  | full : Written p data position { p with spaceAvailable := false } none

theorem writePass_ok {next : Option ℕ} (hposition : position < data.length)
    (h : p.writePass data position = .ok (q, next)) :
    p.failure = none ∧ p.consumerStopped = false ∧ Written p data position q next := by
  unfold writePass at h
  split at h
  · cases h
  · rename_i hfailure
    split at h
    · cases h
    · rename_i hstopped
      refine ⟨hfailure, by simpa using hstopped, ?_⟩
      have hlength : (slice data position (min data.length (position + (p.capacity -
          p.bufferedBytes)))).length
          = min data.length (position + (p.capacity - p.bufferedBytes)) - position :=
        length_slice data (Nat.min_le_left _ _)
      simp only [hlength] at h
      split at h
      · rename_i hroom
        cases h
        apply Written.piece <;> omega
      · cases h
        exact .full

theorem Written.sound {next : Option ℕ} (h : p.Sound) (hw : Written p data position q next) :
    q.Sound := by
  cases hw with
  | full => exact ⟨h.counted, h.filled, h.bounded, h.peak⟩
  | piece stop space hlt hle hroom =>
    have hlength : (slice data position stop).length = stop - position := length_slice data hle
    refine ⟨?_, ?_, hroom, max_le h.peak hroom⟩
    · have hcounted := h.counted
      simp only [List.flatten_append, List.flatten_cons, List.flatten_nil, List.append_nil,
        List.length_append, hlength]
      omega
    · intro chunk hchunk
      rcases List.mem_append.mp hchunk with hold | hnew
      · exact h.filled chunk hold
      · rw [List.mem_singleton.mp hnew]
        intro hnil
        rw [hnil, List.length_nil] at hlength
        omega

/-- What `read` can hand out. -/
inductive Handed (p : BytePipe) (size : ℤ) : Except UploadFault Bytes → BytePipe → Prop
  | bytes (result : Bytes) (chunks : List Bytes) (hqueue : p.chunks.flatten = result ++ chunks.flatten)
      (hsize : size ≠ 0 → result ≠ []) (hfilled : ∀ chunk ∈ chunks, chunk ≠ []) :
      Handed p size (.ok result) { p with
        chunks := chunks
        bufferedBytes := p.bufferedBytes - result.length
        wakes := p.wakes + 1 }
  | failed (failure : UploadFault) (hfailure : p.failure = some failure) (hchunks : p.chunks = []) :
      Handed p size (.error failure) p
  | ended (hfailure : p.failure = none) (hchunks : p.chunks = [])
      (hflag : (p.eof || p.consumerStopped) = true) : Handed p size (.ok []) p

theorem read_handed {result : Except UploadFault Bytes} (h : p.Sound)
    (hread : p.read size = some (result, q)) : Handed p size result q := by
  unfold read at hread
  split at hread
  · rename_i chunk rest hchunks
    have hchunk : chunk ≠ [] := h.filled chunk (by simp [hchunks])
    have hrest : ∀ c ∈ rest, c ≠ [] := fun c hc => h.filled c (by simp [hchunks, hc])
    have hpos := List.length_pos_iff.mpr hchunk
    split at hread
    · rename_i hsize
      cases hread
      have hlt : size.toNat < chunk.length := by omega
      apply Handed.bytes
      · rw [hchunks, List.flatten_cons, List.flatten_cons, ← List.append_assoc, List.take_append_drop]
      · intro hne hnil
        have := congrArg List.length hnil
        rw [List.length_take, List.length_nil] at this
        omega
      · intro c hc
        rcases List.mem_cons.mp hc with rfl | hc
        · intro hnil
          have := congrArg List.length hnil
          rw [List.length_drop, List.length_nil] at this
          omega
        · exact hrest c hc
    · cases hread
      apply Handed.bytes
      · simp [hchunks]
      · exact fun _ => hchunk
      · exact hrest
  · rename_i hchunks
    split at hread
    · rename_i failure hfailure
      cases hread
      exact .failed failure hfailure hchunks
    · rename_i hfailure
      split at hread
      · rename_i hflag
        cases hread
        exact .ended hfailure hchunks hflag
      · cases hread

theorem Handed.sound {result : Except UploadFault Bytes} (h : p.Sound)
    (hh : Handed p size result q) : q.Sound := by
  cases hh with
  | failed => exact h
  | ended => exact h
  | bytes result chunks hqueue _ hfilled =>
    have hcounted := h.counted
    rw [hqueue, List.length_append] at hcounted
    refine ⟨?_, hfilled, ?_, h.peak⟩
    · change p.bufferedBytes - result.length = chunks.flatten.length
      omega
    · exact (Nat.sub_le _ _).trans h.bounded

end BytePipe

end VeloxRag.ObjectStore
