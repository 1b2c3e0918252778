import VeloxRag.Lib.Runs
import VeloxRag.ObjectStore.BytePipe

/-!
# One upload into a staging object

`_put_stream` runs three parties: the task that reads the stream of the client and writes to the
pipe (`_produce_stream`), the thread on which the SDK reads from the pipe (`_put_sync`), and the
request itself, which waits for the SDK and then for the producer.  The request can be cancelled or
run out of time at each of its awaits, and closing the store cancels it together with the task that
wraps the thread, while the thread goes on.

## Main definitions

* `UploadConfig` — the configuration of the store and of the upload.
* `Upload` — the state of the three parties.
* `Upload.step` — what each event does.
-/

namespace VeloxRag.ObjectStore

/-- What an upload is configured with: the capacity of the pipe, the size of the pieces, the limit,
and the hash function. -/
structure UploadConfig (δ : Type*) where
  bufferBytes : ℕ
  producerSliceBytes : ℕ
  maxBytes : ℕ
  sha256 : Bytes → δ
  buffer_pos : 0 < bufferBytes
  slice_pos : 0 < producerSliceBytes

/-- Where `_produce_stream` is. -/
inductive ProducerPhase (δ : Type*)
  /-- the task has not run yet -/
  | created
  /-- it waits for the next chunk of the stream -/
  | next
  /-- in `pipe.write`, at a position of the piece of the chunk that begins at `start` -/
  | writing (chunk : Bytes) (start position : ℕ)
  /-- in `pipe.write`, waiting for space -/
  | waiting (chunk : Bytes) (start position : ℕ)
  /-- it closes the stream, its result known -/
  | closing (result : Except UploadFault (ℕ × δ))
  | done (result : Except UploadFault (ℕ × δ))
  deriving DecidableEq

def ProducerPhase.result? {δ : Type*} : ProducerPhase δ → Option (Except UploadFault (ℕ × δ))
  | .done result => some result
  | _ => none

/-- The task of `_produce_stream`: what the stream has still to give, and the bytes it counted and
hashed. -/
structure Producer (δ : Type*) where
  phase : ProducerPhase δ
  remaining : List Bytes
  total : ℕ
  hashed : Bytes
  cancelRequested : Bool
  deriving DecidableEq

/-- The thread of `_put_sync`; the result is that of `put_object`. -/
inductive ReaderPhase
  | absent
  | queued
  | reading
  /-- `put_object` is over and the pipe is still to be stopped -/
  | stopping (result : Except UploadFault (Option Str))
  | finished (result : Except UploadFault (Option Str))
  /-- the executor dropped the call before it ran -/
  | dropped
  deriving DecidableEq

/-- What `_put_stream` raises. -/
inductive UploadError
  | fileTooLarge
  | uploadStreamFailed
  | objectStoreUnavailable
  | objectVerificationFailed
  | cancelled
  deriving DecidableEq, Repr

/-- The result of `_put_stream`. -/
structure UploadResult (δ : Type*) where
  size : ℕ
  checksum : δ
  sourceEtag : Str
  maxBuffered : ℕ
  deriving DecidableEq

/-- Where the request is. -/
inductive CallerPhase (δ : Type*)
  | starting
  | awaitingConsumer
  /-- the consumer raised; the producer is given its grace -/
  | consumerFailed (error : UploadFault)
  | awaitingProducer (consumerResult : Option Str)
  /-- before the `finally` block -/
  | unwinding (outcome : Except UploadError (UploadResult δ))
  | done (outcome : Except UploadError (UploadResult δ))
  deriving DecidableEq

/-- The parties of one upload.  `received` is what the SDK has read, and `sawEof` says that a read
of a size other than zero gave it no bytes. -/
structure Upload (δ : Type*) where
  pipe : BytePipe
  producer : Producer δ
  reader : ReaderPhase
  received : Bytes
  sawEof : Bool
  /-- the task that wraps the thread, once it is done -/
  consumer : Option (Except UploadFault (Option Str))
  caller : CallerPhase δ
  /-- a cancellation of the request that its next resumption delivers -/
  cancelling : Bool
  deriving DecidableEq

/-- `_object_etag` of an entity tag that is a string, none for any other value. -/
def objectEtag (etag : Option Str) : Option Str :=
  etag.bind fun etag =>
    let normalized := stripWhere (· == '"') (strip etag)
    if normalized = [] ∨ normalized.length > 256 ∨
        normalized.any (fun c => c.toNat < 32 || c.toNat == 127) then none
    else some normalized

namespace Upload

variable {δ : Type*}

/-- The state in which `_put_stream` is called. -/
def start (c : UploadConfig δ) (stream : List Bytes) : Upload δ where
  pipe := .empty c.bufferBytes
  producer := ⟨.created, stream, 0, [], false⟩
  reader := .absent
  received := []
  sawEof := false
  consumer := none
  caller := .starting
  cancelling := false

def setCaller (s : Upload δ) (caller : CallerPhase δ) : Upload δ := { s with caller := caller }

def setProducer (s : Upload δ) (phase : ProducerPhase δ) : Upload δ :=
  { s with producer := { s.producer with phase := phase } }

def failPipe (s : Upload δ) (error : UploadFault) (discard : Bool) : Upload δ :=
  { s with pipe := s.pipe.fail error discard }

def stopPipe (s : Upload δ) : Upload δ := { s with pipe := s.pipe.stopConsumer }

/-- `producer.cancel()`. -/
def cancelProducer (s : Upload δ) : Upload δ :=
  { s with producer := { s.producer with cancelRequested := true } }

/-- The exception handlers of `_produce_stream`. -/
def produceFailed (s : Upload δ) (error : UploadFault) : Upload δ :=
  (match error with
    | .limitExceeded => s.failPipe .limitExceeded false
    | .cancelled => s.failPipe .uploadCancelled true
    | _ => s.failPipe .streamFailure false).setProducer (.closing (.error error))

/-- The loop of `_produce_stream` gets the next chunk, a byte string. -/
def produceChunk (c : UploadConfig δ) (s : Upload δ) (chunk : Bytes) (rest : List Bytes) :
    Upload δ :=
  if chunk = [] then { s with producer := { s.producer with remaining := rest } }
  else
    let nextTotal := s.producer.total + chunk.length
    if nextTotal > c.maxBytes then s.produceFailed .limitExceeded
    else { s with producer := { s.producer with
      phase := .writing chunk 0 0
      remaining := rest
      total := nextTotal
      hashed := s.producer.hashed ++ chunk } }

/-- The stream is over: the pipe is closed and the result returned. -/
def produceEnd (c : UploadConfig δ) (s : Upload δ) : Upload δ :=
  { s with pipe := s.pipe.close }.setProducer
    (.closing (.ok (s.producer.total, c.sha256 s.producer.hashed)))

/-- The producer is in the loops over the pieces of a chunk and over the positions of a piece. -/
def produceWrite (c : UploadConfig δ) (s : Upload δ) (chunk : Bytes) (start position : ℕ) :
    Upload δ :=
  let piece := slice chunk start (start + c.producerSliceBytes)
  if position < piece.length then
    match s.pipe.writePass piece position with
    | .error error => s.produceFailed error
    | .ok (pipe, some stop) => { s with pipe := pipe }.setProducer (.writing chunk start stop)
    | .ok (pipe, none) => { s with pipe := pipe }.setProducer (.waiting chunk start position)
  else if start + c.producerSliceBytes < chunk.length then
    s.setProducer (.writing chunk (start + c.producerSliceBytes) 0)
  else s.setProducer .next

/-- The last part of `_put_stream`, with both results. -/
def finishPut (s : Upload δ) (consumerResult : Option Str) :
    Except UploadFault (ℕ × δ) → Except UploadError (UploadResult δ)
  | .error .limitExceeded => .error .fileTooLarge
  | .error _ => .error .objectStoreUnavailable
  | .ok (size, checksum) =>
    match objectEtag consumerResult with
    | none => .error .objectVerificationFailed
    | some etag => .ok ⟨size, checksum, etag, s.pipe.maxBufferedBytes⟩

/-- The exception of a task of the producer, read with `producer.result()`. -/
def producerError (s : Upload δ) : Option UploadFault :=
  match s.producer.phase.result? with
  | none => some .invalidState
  | some (.error error) => some error
  | some (.ok _) => none

/-- What `_put_stream` raises when the SDK failed. -/
def consumerErrorOutcome (s : Upload δ) (error : UploadFault) : UploadError :=
  if error = .limitExceeded ∨ s.producerError = some .limitExceeded then .fileTooLarge
  else if error = .streamFailure ∨
      (s.producerError.isSome ∧ s.producerError ≠ some .cancelled ∧
        s.producerError ≠ some .consumerStopped) then .uploadStreamFailed
  else .objectStoreUnavailable

/-- The request gives the upload up: the pipe is emptied and fails, the producer is cancelled. -/
def abandon (s : Upload δ) (error : UploadError) : Upload δ :=
  ((s.failPipe .uploadCancelled true).cancelProducer).setCaller (.unwinding (.error error))

/-- The request goes on at the await it stands at, if that is over. -/
def resume (s : Upload δ) : Option (Upload δ) :=
  match s.caller with
  | .awaitingConsumer =>
    if s.cancelling then some ({ s with cancelling := false }.abandon .cancelled)
    else
      match s.consumer with
      | none => none
      | some (.error error) => some ((s.stopPipe.cancelProducer).setCaller (.consumerFailed error))
      | some (.ok consumerResult) =>
        match s.producer.phase.result? with
        | some result => some (s.setCaller (.unwinding (s.finishPut consumerResult result)))
        | none => some (s.setCaller (.awaitingProducer consumerResult))
  | .consumerFailed error => some (s.setCaller (.unwinding (.error (s.consumerErrorOutcome error))))
  | .awaitingProducer consumerResult =>
    if s.cancelling then some ({ s with cancelling := false }.abandon .cancelled)
    else
      (s.producer.phase.result?).map fun result =>
        s.setCaller (.unwinding (s.finishPut consumerResult result))
  | .unwinding outcome => some ((s.stopPipe.cancelProducer).setCaller (.done outcome))
  | _ => none

/-- The deadline of the request passes at the await it stands at. -/
def timeout (s : Upload δ) : Option (Upload δ) :=
  match s.caller with
  | .awaitingConsumer =>
    if s.cancelling ∨ s.consumer ≠ none then none else some (s.abandon .objectStoreUnavailable)
  | .awaitingProducer _ =>
    if s.cancelling ∨ s.producer.phase.result? ≠ none then none
    else some ((s.stopPipe.cancelProducer).setCaller (.unwinding (.error .objectVerificationFailed)))
  | _ => none

/-- The thread reads from the pipe. -/
def readPipe (s : Upload δ) (size : ℤ) : Option (Upload δ) :=
  (s.pipe.read size).map fun
    | (.ok data, pipe) =>
      { s with
        pipe := pipe
        received := s.received ++ data
        sawEof := s.sawEof || (decide (size ≠ 0) && data.isEmpty) }
    | (.error _, pipe) => { s with pipe := pipe }

end Upload

/-- What can happen in an upload. -/
inductive UploadEvent
  /-- the executor admits the call of the SDK -/
  | sdkAdmitted
  /-- `_start_blocking` raises or is cancelled -/
  | startFailed (error : UploadError)
  | threadStarted
  /-- the executor shuts down before the thread runs -/
  | threadDropped
  | read (size : ℤ)
  /-- `put_object` returns an object with this entity tag -/
  | sdkReturned (etag : Option Str)
  | sdkRaised (error : UploadFault)
  | sdkStopped
  /-- the task that wraps the thread gets its result -/
  | consumerSettled
  | producerStarted
  | streamYielded
  /-- the stream gives a value that is no byte string -/
  | streamYieldedOther
  | streamEnded
  | streamRaised (error : UploadFault)
  | producerRan
  | spaceSignalled
  | spaceSeen
  | producerCancelled
  | streamClosed
  /-- `cancel` of the request -/
  | cancelRequested
  /-- `_cancel_lifecycle_tasks` of a store that closes -/
  | storeClosed
  /-- the end of the loop cancels every task -/
  | loopStopped
  | timedOut
  | resumed
  deriving DecidableEq, Repr

namespace Upload

variable {δ : Type*}

/-- A step of the thread, or of the task that wraps it. -/
def stepReader (s : Upload δ) : UploadEvent → Option (Upload δ)
  | .threadStarted => if s.reader = .queued then some { s with reader := .reading } else none
  | .threadDropped => if s.reader = .queued then some { s with reader := .dropped } else none
  | .read size => if s.reader = .reading then s.readPipe size else none
  | .sdkReturned etag =>
    -- the SDK reads until the end of the file before it returns
    if s.reader = .reading ∧ s.sawEof = true then some { s with reader := .stopping (.ok etag) }
    else none
  | .sdkRaised error =>
    if s.reader = .reading then some { s with reader := .stopping (.error error) } else none
  | .sdkStopped =>
    match s.reader with
    | .stopping result => some { s.stopPipe with reader := .finished result }
    | _ => none
  | .consumerSettled =>
    if s.consumer = none then
      match s.reader with
      | .finished result => some { s with consumer := some result }
      | .dropped => some { s with consumer := some (.error .cancelled) }
      | _ => none
    else none
  | _ => none

/-- A step of the producer. -/
def stepProducer (c : UploadConfig δ) (s : Upload δ) (event : UploadEvent) : Option (Upload δ) :=
  match event, s.producer.phase with
  | .producerStarted, .created => some (s.setProducer .next)
  | .streamYielded, .next =>
    match s.producer.remaining with
    | chunk :: rest => some (s.produceChunk c chunk rest)
    | [] => none
  | .streamYieldedOther, .next => some (s.produceFailed .streamFailure)
  | .streamEnded, .next =>
    match s.producer.remaining with
    | _ :: _ => none
    | [] => some (s.produceEnd c)
  | .streamRaised error, .next => some (s.produceFailed error)
  | .producerRan, .writing chunk start position => some (s.produceWrite c chunk start position)
  | .spaceSeen, .waiting chunk start position =>
    if s.pipe.spaceAvailable then some (s.setProducer (.writing chunk start position)) else none
  | .producerCancelled, .waiting _ _ _ =>
    if s.producer.cancelRequested then some (s.produceFailed .cancelled) else none
  | .producerCancelled, .created =>
    -- a task that is cancelled before it runs enters none of its handlers
    if s.producer.cancelRequested then some (s.setProducer (.done (.error .cancelled))) else none
  | .streamClosed, .closing result => some (s.setProducer (.done result))
  | _, _ => none

/-- A step of the request, or of what cancels it. -/
def stepCaller (s : Upload δ) : UploadEvent → Option (Upload δ)
  | .sdkAdmitted =>
    match s.caller with
    | .starting =>
      if s.cancelling then none else some { s with reader := .queued, caller := .awaitingConsumer }
    | _ => none
  | .startFailed error =>
    match s.caller with
    | .starting => some ((s.failPipe .uploadCancelled true).setCaller (.done (.error error)))
    | _ => none
  | .spaceSignalled =>
    if 0 < s.pipe.wakes then
      some { s with pipe := { s.pipe with spaceAvailable := true, wakes := s.pipe.wakes - 1 } }
    else none
  | .cancelRequested => some { s with cancelling := true }
  | .storeClosed =>
    some { s with
      cancelling := true
      consumer := some (s.consumer.getD (.error .cancelled)) }
  | .loopStopped =>
    some { s.cancelProducer with
      cancelling := true
      consumer := some (s.consumer.getD (.error .cancelled)) }
  | .timedOut => s.timeout
  | .resumed => s.resume
  | _ => none

/-- What an event does, by the party it belongs to. -/
def step (c : UploadConfig δ) (s : Upload δ) (event : UploadEvent) : Option (Upload δ) :=
  match event with
  | .threadStarted | .threadDropped | .read _ | .sdkReturned _ | .sdkRaised _ | .sdkStopped
  | .consumerSettled => s.stepReader event
  | .producerStarted | .streamYielded | .streamYieldedOther | .streamEnded | .streamRaised _
  | .producerRan | .spaceSeen | .producerCancelled | .streamClosed =>
    -- there is a producer once the SDK is admitted
    if s.reader = .absent then none else s.stepProducer c event
  | _ => s.stepCaller event

end Upload

end VeloxRag.ObjectStore
