import VeloxRag.Text
import VeloxRag.Lib.Procedures

/-!
# The request middleware

The middleware runs the application with a `send` of its own.  Before the response starts it runs the
clean-up of the dependencies, and a clean-up that fails poisons `send`; the response gets a request
identifier; an exception that comes before the start of a response is answered with an error
response.

The application is a tree of what it sends, where each branch depends on the exception `send` raised,
if any.  The clean-up, the exit of the outer stack, the transport and the renderers of error responses
are parameters; each of them may return, raise or not come back.  So is what a response sends when it
is called, of which `Responds` says what the middleware relies on.  An application that goes on forever
is covered by those that stop after one of its messages.

## Main definitions

* `Message`, `App` — ASGI messages and applications.
* `requestIdSend`, `close`, `closeForError`, `resolveError` — `send` and the controller of the stack.
* `runHttpRequest` — a request.
* `Conforming`, `Responds` — at most one start, and then body messages; exactly that for a response.
* `request_protocol` — what the client is sent.
-/

namespace VeloxRag.RequestProtocol

open VeloxRag.Lib

/-! ## Messages, exceptions and applications -/

abbrev Header := Bytes × Bytes

/-- An ASGI message, with what the middleware reads of it. -/
inductive Message
  | start (headers : List Header) (trailers : Bool)
  | body (moreBody : Bool)
  | pathsend
  | trailers (moreTrailers : Bool)
  | other (type : Str)

def Message.isStart : Message → Bool
  | .start _ _ => true
  | _ => false

/-- The classes of exceptions the middleware tells apart; `base` is for those that are no `Exception`,
such as a cancellation. -/
inductive Kind
  | business
  | validation
  | ordinary
  | base
  deriving DecidableEq

/-- An exception object. -/
inductive Exc
  | outside (id : ℕ) (kind : Kind)
  | cleanupSignal
  | runtimeError (message : Str)
  | valueError (message : Str)

/-- `isinstance(error, Exception)`. -/
def Exc.isException : Exc → Bool
  | .outside _ kind => kind ≠ .base
  | .cleanupSignal => false
  | .runtimeError _ => true
  | .valueError _ => true

/-- An application; after a message it goes on with the exception that `send` raised, if any. -/
inductive App
  | returns
  | raises (e : Exc)
  | never
  | sends (message : Message) (next : Option Exc → App)

/-- Whose message it is. -/
inductive Origin
  | application
  | errorResponse
  deriving DecidableEq

/-- A message handed to the transport. -/
structure Sent where
  origin : Origin
  message : Message

/-! ## Request identifiers -/

def maxHeaderValueLength : ℤ := 128

def generatedRequestIdLength : ℤ := 28

/-- `_REQUEST_ID_HEADER`. -/
def requestIdHeader : Bytes := encode "x-request-id".toList

/-- `bytes.lower`. -/
def lower (name : Bytes) : Bytes := name.map fun b => if 0x41 ≤ b ∧ b ≤ 0x5a then b + 0x20 else b

def isRequestIdChar (c : Char) : Bool :=
  ('A' ≤ c && c ≤ 'Z') || ('a' ≤ c && c ≤ 'z') || ('0' ≤ c && c ≤ '9') ||
    c = '.' || c = '_' || c = ':' || c = '-'

def isValidRequestId (value : Str) (maxLength : ℤ) : Bool :=
  decide (0 < value.length ∧ (value.length : ℤ) ≤ maxLength) && value.all isRequestIdChar

/-- `request_id_for`; `token` is what `secrets.token_urlsafe` returns. -/
def requestIdFor (token : Str) (value : Option Str) (maxLength : ℤ) : Except Exc Str :=
  if generatedRequestIdLength ≤ maxLength ∧ maxLength ≤ maxHeaderValueLength then
    match value with
    | some value =>
      .ok (if isValidRequestId value maxLength then value else "req_".toList ++ token)
    | none => .ok ("req_".toList ++ token)
  else .error (.valueError "request ID length is outside supported bounds".toList)

/-- `value.decode("ascii")`, with `none` for an exception. -/
def decodeAscii (value : Bytes) : Option Str :=
  if value.all fun b => b < 0x80 then some (value.map fun b => Char.ofNat b.toNat) else none

/-- `_request_id_from_scope`. -/
def requestIdFromScope (token : Str) (headers : List Header) (maxLength : ℤ) : Except Exc Str :=
  let values := (headers.filter fun header => lower header.1 = requestIdHeader).map Prod.snd
  let supplied := match values with
    | [value] => decodeAscii value
    | _ => none
  requestIdFor token supplied maxLength

/-! ## The state of a request -/

/-- The fields of `_FunctionStackController`, and what came of each clean-up. -/
structure Controller where
  cleanupError : Option Exc := none
  cleanupSignal : Bool := false
  poisoned : Bool := false
  closed : Bool := false
  cleanups : List (Awaited Exc Unit) := []

/-- The fields of `_RequestIdSend` that change. -/
structure Wrapper where
  trailersExpected : Bool := false
  responseStarted : Bool := false
  responseComplete : Bool := false

/-- The objects and the variables of a request, and what was handed to the transport. -/
structure World where
  controller : Controller := {}
  wrapper : Option Wrapper := none
  requestId : Str := []
  downstreamCompleted : Bool := false
  pendingError : Option Exc := none
  sent : List Sent := []

/-- An error response, with its headers. -/
structure Response where
  headers : List Header

/-- What the middleware runs with and waits for. -/
structure Environment where
  scopeHeaders : List Header
  maxLength : ℤ
  /-- `max_request_id_length_provider`. -/
  provider : Option (Awaited Exc ℤ)
  /-- The generated part of the first and the second request identifier. -/
  tokens : Str × Str
  /-- The exit of the function stack, with the exception it is given. -/
  cleanup : Option Exc → Awaited Exc Unit
  /-- The exit of the request stack; it returns whether it suppresses the exception. -/
  requestExit : Option Exc → Awaited Exc Bool
  /-- `send`, after the messages before and this one. -/
  transport : List Sent → Awaited Exc Unit
  businessResponse : Exc → Str → Except Exc Response
  validationResponse : Exc → Str → Except Exc Response
  internalResponse : Str → Response
  /-- `__call__` of a response. -/
  response : Response → App
  /-- The exception group that `sanitize_exception_graph` makes of an exception, if any. -/
  sanitizedGroup : Exc → Option Exc

abbrev Request := Proc World Exc

variable (env : Environment)

def modifyController (f : Controller → Controller) : Request Unit :=
  Proc.modify fun w => { w with controller := f w.controller }

def modifyWrapper (f : Wrapper → Wrapper) : Request Unit :=
  Proc.modify fun w => { w with wrapper := some (f (w.wrapper.getD {})) }

/-! ## The controller of the function stack -/

/-- `_raise_cleanup_failure`. -/
def raiseCleanupFailure : Request Unit := do
  let w ← Proc.get
  match w.controller.cleanupError with
  | some e =>
    if e.isException then do
      modifyController fun c => { c with cleanupSignal := true }
      Proc.raise .cleanupSignal
    else Proc.raise e
  | none => Proc.raise (.runtimeError "Function dependency cleanup failed".toList)

def raiseIfPoisoned : Request Unit := do
  let w ← Proc.get
  if w.controller.poisoned then raiseCleanupFailure else pure ()

/-- `_record_cleanup_failure`. -/
def recordCleanupFailure (e : Exc) : Request Unit :=
  modifyController fun c =>
    { c with
      poisoned := true
      cleanupError := some (c.cleanupError.getD e)
      cleanupSignal := c.cleanupSignal || (c.cleanupError.isNone && e.isException) }

/-- The exit of the function stack. -/
def runCleanup (error : Option Exc) : Request Unit := do
  modifyController fun c => { c with cleanups := c.cleanups ++ [env.cleanup error] }
  Proc.await (env.cleanup error)

def close : Request Unit := do
  raiseIfPoisoned
  let w ← Proc.get
  if w.controller.closed then pure ()
  else do
    modifyController fun c => { c with closed := true }
    Proc.handle (runCleanup env none) fun e => do
      recordCleanupFailure e
      raiseCleanupFailure

def closeForError (error : Exc) : Request Unit := do
  let w ← Proc.get
  if w.controller.closed then pure ()
  else do
    modifyController fun c => { c with closed := true }
    Proc.handle (runCleanup env (some error)) fun e => do
      recordCleanupFailure e
      Proc.raise e

/-- `resolve_error`. -/
def resolveError (error : Exc) (consume : Bool) : Request Exc := do
  let w ← Proc.get
  match w.controller.cleanupError with
  | some cleanupError => do
    if consume then
      modifyController fun c => { c with cleanupError := none, cleanupSignal := false }
    pure cleanupError
  | none =>
    match error with
    | .cleanupSignal => do
      if consume then modifyController fun c => { c with cleanupSignal := false }
      pure (.runtimeError "Function dependency cleanup failed".toList)
    | _ => pure error

/-! ## `send` -/

/-- The headers of a start, with the request identifier as the only one of its name. -/
def stampHeaders (requestId : Str) (headers : List Header) : List Header :=
  headers.filter (fun header => lower header.1 ≠ requestIdHeader) ++
    [(requestIdHeader, encode requestId)]

/-- `send` of the transport. -/
def transport (sent : Sent) : Request Unit := do
  Proc.modify fun w => { w with sent := w.sent ++ [sent] }
  let w ← Proc.get
  Proc.await (env.transport w.sent)

/-- What `_RequestIdSend` does before it hands a message on: the clean-up at a start, and the record
of how far the response is. -/
def track (origin : Origin) (requestId : Str) : Message → Request Message
  | .start headers trailers => do
    if origin = .application then close env
    modifyWrapper fun s => { s with responseStarted := true, trailersExpected := trailers }
    pure (.start (stampHeaders requestId headers) trailers)
  | .body moreBody => do
    modifyWrapper fun s =>
      { s with responseComplete := s.responseComplete || (!moreBody && !s.trailersExpected) }
    pure (.body moreBody)
  | .pathsend => do
    modifyWrapper fun s => { s with responseComplete := s.responseComplete || !s.trailersExpected }
    pure .pathsend
  | .trailers moreTrailers => do
    modifyWrapper fun s => { s with responseComplete := s.responseComplete || !moreTrailers }
    pure (.trailers moreTrailers)
  | .other type => pure (.other type)

/-- `_RequestIdSend.__call__`; the one for the application has a function stack. -/
def requestIdSend (origin : Origin) (requestId : Str) (message : Message) : Request Unit := do
  if origin = .application then raiseIfPoisoned
  let message ← track env origin requestId message
  transport env ⟨origin, message⟩

/-! ## A request -/

/-- `await app(scope, receive, send)`. -/
def App.run (send : Message → Request Unit) : App → Request Unit
  | .returns => pure ()
  | .raises e => Proc.raise e
  | .never => Proc.await .never
  | .sends message next =>
    Proc.tryElse (send message) (fun e => (next (some e)).run send) fun _ => (next none).run send

/-- The greatest length of a request identifier, from the provider if there is one. -/
def provideMaxLength : Request ℤ :=
  match env.provider with
  | some provided => Proc.await provided
  | none => pure env.maxLength

/-- The part of `_run_http_request` that runs the application. -/
def runDownstream (app : App) : Request Unit := do
  let maxLength ← provideMaxLength env
  match requestIdFromScope env.tokens.2 env.scopeHeaders maxLength with
  | .error e => Proc.raise e
  | .ok requestId => do
    Proc.modify fun w => { w with requestId := requestId, wrapper := some {} }
    app.run (requestIdSend env .application requestId)
    raiseIfPoisoned
    Proc.modify fun w => { w with downstreamCompleted := true }

def setPending (e : Exc) : Request Unit := Proc.modify fun w => { w with pendingError := some e }

/-- `except BaseException` of the application's part. -/
def failDownstream (caught : Exc) : Request Unit := do
  let active ← resolveError caught false
  setPending active
  Proc.handle (closeForError env active) fun e => do
    setPending e
    Proc.raise e
  Proc.raise active

/-- The `else` branch of the application's part. -/
def finishDownstream : Request Unit :=
  Proc.handle (close env) fun e => do
    let pending ← resolveError e false
    setPending pending
    Proc.raise pending

/-- `async with request_settings_stack`. -/
def withRequestStack (p : Request Unit) : Request Unit :=
  Proc.tryElse p
    (fun e => do
      let suppressed ← Proc.await (env.requestExit (some e))
      if suppressed then pure () else Proc.raise e)
    fun _ => do
      let _ ← Proc.await (env.requestExit none)
      pure ()

/-- The checks after the request stack. -/
def checkCompleted : Request Unit := do
  raiseIfPoisoned
  let w ← Proc.get
  match w.pendingError with
  | some e => Proc.raise e
  | none =>
    if !w.downstreamCompleted then
      Proc.raise (.runtimeError "ASGI application did not complete request processing".toList)
    else if !w.wrapper.any (·.responseStarted) then
      Proc.raise (.runtimeError "ASGI application returned without starting a response".toList)
    else if !w.wrapper.any (·.responseComplete) then
      Proc.raise (.runtimeError "ASGI application returned before completing the response".toList)
    else pure ()

/-- The inner `try` of `_run_http_request`. -/
def attempt (app : App) : Request Unit :=
  Proc.handle
    (do
      withRequestStack env (Proc.tryElse (runDownstream env app) (failDownstream env)
        fun _ => finishDownstream env)
      checkCompleted)
    fun e => do
      let resolved ← resolveError e true
      Proc.raise resolved

/-- `_prepare_error_response`. -/
def prepareErrorResponse (error : Exc) (requestId : Str) (responseStarted : Bool) :
    Option Response × Option Exc :=
  let render (rendered : Except Exc Response) : Option Response × Option Exc :=
    match rendered with
    | .ok response => (some response, none)
    | .error e => if e.isException then (none, env.sanitizedGroup e) else (none, none)
  match responseStarted, error with
  | false, .outside id .business =>
    render (env.businessResponse (.outside id .business) requestId)
  | false, .outside id .validation =>
    render (env.validationResponse (.outside id .validation) requestId)
  | _, error => (none, env.sanitizedGroup error)

/-- `_raise_safe_wrapper`, or `_raise_sanitized_group`. -/
def raiseSanitized (group : Option Exc) : Request Unit :=
  Proc.raise (group.getD (.runtimeError "Request processing failed".toList))

/-- `await response(scope, receive, send)`. -/
def respond (response : Response) (send : Message → Request Unit) : Request Unit :=
  (env.response response).run send

/-- What `_run_http_request` does after an `Exception`. -/
def answerError (error : Exc) : Request Unit := do
  let w ← Proc.get
  let responseStarted := w.wrapper.any (·.responseStarted)
  let (response, group) := prepareErrorResponse env error w.requestId responseStarted
  if responseStarted then raiseSanitized group
  else do
    Proc.modify fun w => { w with wrapper := some {} }
    Proc.handle
      (respond env (response.getD (env.internalResponse w.requestId))
        (requestIdSend env .errorResponse w.requestId))
      fun e => if e.isException then raiseSanitized (env.sanitizedGroup e) else Proc.raise e

/-- `_run_http_request`. -/
def runHttpRequest (app : App) : Request Unit :=
  match requestIdFromScope env.tokens.1 env.scopeHeaders env.maxLength with
  | .error e => Proc.raise e
  | .ok requestId => do
    Proc.modify fun w => { w with requestId := requestId }
    Proc.handle (attempt env app) fun e =>
      if e.isException then answerError env e else Proc.raise e

/-! ## What the client is sent -/

/-- The application sends no start. -/
def BodiesOnly : App → Prop
  | .sends message next => message.isStart = false ∧ ∀ raised, BodiesOnly (next raised)
  | _ => True

/-- The application sends nothing, or a start and then body messages. -/
def Conforming : App → Prop
  | .sends message next => message.isStart = true ∧ ∀ raised, BodiesOnly (next raised)
  | _ => True

/-- The headers of a message that hold a request identifier. -/
def requestIds : Message → List Header
  | .start headers _ => headers.filter fun header => lower header.1 = requestIdHeader
  | _ => []

/-- Body messages up to the one that ends the response; an exception of `send` is passed on. -/
inductive Bodies : App → Prop
  | last {next : Option Exc → App} (raised : ∀ e, next (some e) = .raises e)
      (sent : next none = .returns) : Bodies (.sends (.body false) next)
  | more {next : Option Exc → App} (raised : ∀ e, next (some e) = .raises e)
      (sent : Bodies (next none)) : Bodies (.sends (.body true) next)

/-- A response that is called sends one start, with its headers, and then its body. -/
def Responds : Prop :=
  ∀ response : Response, ∃ next, env.response response = .sends (.start response.headers false) next ∧
    (∀ e, next (some e) = .raises e) ∧ Bodies (next none)

/-- An error response was handed on: its start, and its body up to the message that ends it, or up to
one that the transport did not return from. -/
def Answered (sent : List Sent) : Prop :=
  ∃ headers bodies, sent = ⟨.errorResponse, .start headers false⟩ :: bodies ∧
    (∀ body ∈ bodies, ∃ moreBody, body = ⟨.errorResponse, .body moreBody⟩) ∧
    (env.transport sent ≠ .returns () ∨ bodies.getLast? = some ⟨.errorResponse, .body false⟩)

/-- What a request owes to the client. -/
structure Protocol (outcome : Awaited Exc Unit) (w : World) : Prop where
  oneStart : (w.sent.filter (·.message.isStart)).length ≤ 1
  startFirst : ∀ first ∈ w.sent.head?, first.message.isStart = true
  identified : ∀ sent ∈ w.sent, sent.message.isStart = true → (requestIds sent.message).length = 1
  silenced : ∀ e, .raises e ∈ w.controller.cleanups → ∀ sent ∈ w.sent, sent.origin = .errorResponse
  answered : ∀ e, .raises e ∈ w.controller.cleanups → e.isException = true → outcome ≠ .never →
    Answered env w.sent

/-! ### Phases -/

/-- What the phase of a request depends on. -/
structure Core where
  cleanupError : Option Exc
  poisoned : Bool
  closed : Bool
  cleanups : List (Awaited Exc Unit)
  begun : Bool
  sent : List Sent

def World.core (w : World) : Core where
  cleanupError := w.controller.cleanupError
  poisoned := w.controller.poisoned
  closed := w.controller.closed
  cleanups := w.controller.cleanups
  begun := w.wrapper.any (·.responseStarted)
  sent := w.sent

/-- A start with one request identifier, and messages that are no start, all of one origin. -/
def IsResponse (origin : Origin) (sent : List Sent) : Prop :=
  ∃ first rest, sent = first :: rest ∧ first.origin = origin ∧ first.message.isStart = true ∧
    (requestIds first.message).length = 1 ∧
    ∀ later ∈ rest, later.origin = origin ∧ later.message.isStart = false

/-- Before the clean-up. -/
def Core.fresh : Core := ⟨none, false, false, [], false, []⟩

/-- After a clean-up, without a response. -/
def Core.shut : Core := ⟨none, false, true, [.returns ()], false, []⟩

/-- After a clean-up that failed. -/
def Core.failed (e : Exc) : Core := ⟨some e, true, true, [.raises e], false, []⟩

/-- In a clean-up that does not come back. -/
def Core.stuck : Core := ⟨none, false, true, [.never], false, []⟩

/-- After the application's start. -/
def Core.started (sent : List Sent) : Core := ⟨none, false, true, [.returns ()], true, sent⟩

/-- The phases while the application can still send. -/
inductive Open : Core → Prop
  | failed (e : Exc) : Open (.failed e)
  | started (sent : List Sent) (h : IsResponse .application sent) : Open (.started sent)

/-- The phases of a request, up to the error response. -/
inductive Phase : Core → Prop
  | fresh : Phase .fresh
  | shut : Phase .shut
  | opened {c : Core} (h : Open c) : Phase c

/-- A phase, or a clean-up that does not come back. -/
def Reached {α : Type} (outcome : Awaited Exc α) (w : World) : Prop :=
  Phase w.core ∨ outcome = .never ∧ w.core = .stuck

variable {env} {w : World} {c : Core} {origin : Origin} {requestId : Str} {message : Message}

theorem IsResponse.concat {sent : List Sent} (h : IsResponse origin sent)
    (hmessage : message.isStart = false) : IsResponse origin (sent ++ [⟨origin, message⟩]) := by
  obtain ⟨first, rest, rfl, horigin, hstart, hid, hrest⟩ := h
  refine ⟨first, rest ++ [⟨origin, message⟩], rfl, horigin, hstart, hid, fun later hlater => ?_⟩
  rcases List.mem_append.mp hlater with hlater | hlater
  · exact hrest later hlater
  · rw [List.mem_singleton] at hlater
    exact hlater ▸ ⟨rfl, hmessage⟩

/-- A stamped start carries one request identifier. -/
theorem length_requestIds_stampHeaders (requestId : Str) (headers : List Header) (trailers : Bool) :
    (requestIds (.start (stampHeaders requestId headers) trailers)).length = 1 := by
  have hown : lower requestIdHeader = requestIdHeader := by decide
  have hothers : (headers.filter fun header => lower header.1 ≠ requestIdHeader).filter
      (fun header => lower header.1 = requestIdHeader) = [] := by
    rw [List.filter_filter, List.filter_eq_nil_iff]
    simp
  rw [requestIds, stampHeaders, List.filter_append, hothers]
  simp [hown]

theorem isResponse_start (origin : Origin) (requestId : Str) (headers : List Header)
    (trailers : Bool) :
    IsResponse origin [⟨origin, .start (stampHeaders requestId headers) trailers⟩] :=
  ⟨_, [], rfl, rfl, rfl, length_requestIds_stampHeaders requestId headers trailers, by simp⟩

/-! ### The controller -/

theorem raiseCleanupFailure_spec (c : Core) :
    Proc.Triple (fun w => w.core = c) raiseCleanupFailure fun (o : Awaited Exc Unit) w =>
      (∃ x, o = .raises x) ∧ w.core = c := by
  refine Proc.Triple.get_bind fun v hv => ?_
  cases v.controller.cleanupError with
  | none => exact Proc.Triple.raise fun w hw => ⟨⟨_, rfl⟩, hw ▸ hv⟩
  | some e =>
      dsimp only
      by_cases he : e.isException = true
      · rw [if_pos he]
        refine Proc.Triple.modify_bind (I := fun w => w.core = c) (fun w hw => ?_) ?_
        · subst hw
          exact hv
        · exact Proc.Triple.raise fun w hw => ⟨⟨_, rfl⟩, hw⟩
      · rw [if_neg he]
        exact Proc.Triple.raise fun w hw => ⟨⟨_, rfl⟩, hw ▸ hv⟩

/-- Without a failed clean-up the check does nothing. -/
theorem raiseIfPoisoned_clean (h : c.poisoned = false) :
    Proc.Triple (fun w => w.core = c) raiseIfPoisoned fun (o : Awaited Exc Unit) w =>
      o = .returns () ∧ w.core = c := by
  refine Proc.Triple.get_bind fun v hv => ?_
  have hpoisoned : v.controller.poisoned = false := by
    rw [← h, ← hv]
    rfl
  rw [hpoisoned, if_neg Bool.false_ne_true]
  exact Proc.Triple.pure fun w hw => ⟨rfl, hw ▸ hv⟩

/-- After a failed clean-up the check raises. -/
theorem raiseIfPoisoned_failed (h : c.poisoned = true) :
    Proc.Triple (fun w => w.core = c) raiseIfPoisoned fun (o : Awaited Exc Unit) w =>
      (∃ x, o = .raises x) ∧ w.core = c := by
  refine Proc.Triple.get_bind fun v hv => ?_
  have hpoisoned : v.controller.poisoned = true := by
    rw [← h, ← hv]
    rfl
  rw [if_pos hpoisoned]
  exact (raiseCleanupFailure_spec c).mono (fun w hw => hw ▸ hv) fun _ _ hq => hq

/-- The one clean-up, and its outcome. -/
theorem runCleanup_spec (error : Option Exc) (h : c.cleanups = []) :
    Proc.Triple (fun w => w.core = c) (runCleanup env error) fun o w =>
      o = env.cleanup error ∧ w.core = { c with cleanups := [env.cleanup error] } := by
  refine Proc.Triple.modify_bind
    (I := fun w => w.core = { c with cleanups := [env.cleanup error] }) (fun w hw => ?_)
    (Proc.Triple.await fun w hw => ⟨rfl, hw⟩)
  subst hw
  have hnone : w.controller.cleanups = [] := h
  simp [World.core, hnone]

/-- The clean-up failed or does not come back, or it returned and `Q` holds. -/
def CleanedUp {α : Type} (Q : α → Core → Prop) : Awaited Exc α → World → Prop
  | .returns a, w => Q a w.core
  | .raises _, w => ∃ e, w.core = .failed e
  | .never, w => w.core = .stuck

theorem Reached.phase_of_returns {α : Type} {a : α} (h : Reached (.returns a) w) : Phase w.core :=
  h.resolve_right fun hnever => nomatch hnever.1

theorem Reached.phase_of_raises {α : Type} {e : Exc} (h : Reached (.raises e : Awaited Exc α) w) :
    Phase w.core :=
  h.resolve_right fun hnever => nomatch hnever.1

theorem CleanedUp.reached {outcome : Awaited Exc Unit} (h : CleanedUp (fun _ c => c = .shut) outcome w) :
    Reached outcome w := by
  cases outcome with
  | returns a =>
      have hshut : w.core = .shut := h
      exact .inl (hshut ▸ .shut)
  | raises x =>
      obtain ⟨e, hfailed⟩ := h
      exact .inl (hfailed ▸ .opened (.failed e))
  | never => exact .inr ⟨rfl, h⟩

/-- The core after a clean-up with this outcome, before it is recorded. -/
def cleaned (outcome : Awaited Exc Unit) : Core := ⟨none, false, true, [outcome], false, []⟩

/-- Both ways to close the stack run the clean-up and record its failure. -/
theorem runCleanup_handle (error : Option Exc) {handler : Exc → Request Unit}
    (h : ∀ e, Proc.Triple (fun w => w.core = cleaned (.raises e)) (handler e) fun o w =>
      (∃ x, o = .raises x) ∧ w.core = .failed e) :
    Proc.Triple (fun w => w.core = { Core.fresh with closed := true })
      (Proc.handle (runCleanup env error) handler) (CleanedUp fun _ c => c = .shut) := by
  have hclean := @runCleanup_spec env { Core.fresh with closed := true } error rfl
  refine Proc.Triple.handle hclean (fun a w hw => ?_) (fun e w hw => ?_) fun w hw => ?_
  · obtain ⟨ho, hw⟩ := hw
    rw [← ho] at hw
    exact hw
  · obtain ⟨ho, hw⟩ := hw
    rw [← ho] at hw
    obtain ⟨⟨x, hx⟩, hfailed⟩ := h e w hw
    rw [hx]
    exact ⟨e, hfailed⟩
  · obtain ⟨ho, hw⟩ := hw
    rw [← ho] at hw
    exact hw

theorem recordCleanupFailure_bind {e : Exc} {f : Unit → Request Unit}
    {S : Awaited Exc Unit → World → Prop}
    (h : Proc.Triple (fun w => w.core = .failed e) (f ()) S) :
    Proc.Triple (fun w => w.core = cleaned (.raises e)) (recordCleanupFailure e >>= f) S := by
  refine Proc.Triple.modify_bind (fun w hw => ?_) h
  have hnone : w.controller.cleanupError = none := congrArg Core.cleanupError hw
  have hrest : w.controller.closed = true ∧ w.controller.cleanups = [.raises e] ∧
      w.wrapper.any (·.responseStarted) = false ∧ w.sent = [] :=
    ⟨congrArg Core.closed hw, congrArg Core.cleanups hw, congrArg Core.begun hw,
      congrArg Core.sent hw⟩
  simp [World.core, Core.failed, hnone, hrest]

theorem close_fresh :
    Proc.Triple (fun w => w.core = .fresh) (close env) (CleanedUp fun _ c => c = .shut) := by
  have hcheck := @raiseIfPoisoned_clean .fresh rfl
  refine Proc.Triple.bind hcheck (fun _ => ?_) (fun e w hw => nomatch hw.1) fun w hw => nomatch hw.1
  refine Proc.Triple.get_bind fun v hv => ?_
  have hclosed : v.controller.closed = false := congrArg Core.closed hv.2
  rw [hclosed, if_neg Bool.false_ne_true]
  refine Proc.Triple.modify_bind (fun w hw => ?_) (runCleanup_handle none fun e => ?_)
  · subst hw
    rw [← hv.2]
    rfl
  · exact recordCleanupFailure_bind (raiseCleanupFailure_spec _)

theorem closeForError_fresh (error : Exc) :
    Proc.Triple (fun w => w.core = .fresh) (closeForError env error)
      (CleanedUp fun _ c => c = .shut) := by
  refine Proc.Triple.get_bind fun v hv => ?_
  have hclosed : v.controller.closed = false := congrArg Core.closed hv
  rw [hclosed, if_neg Bool.false_ne_true]
  refine Proc.Triple.modify_bind (fun w hw => ?_) (runCleanup_handle (some error) fun e => ?_)
  · subst hw
    rw [← hv]
    rfl
  · exact recordCleanupFailure_bind (Proc.Triple.raise fun w hw => ⟨⟨e, rfl⟩, hw⟩)

/-- A stack that is closed stays as it is. -/
theorem close_closed (h : c.closed = true) :
    Proc.Triple (fun w => w.core = c) (close env) fun _ w => w.core = c := by
  refine Proc.Triple.bind (Q := fun (_ : Awaited Exc Unit) w => w.core = c) ?_ (fun _ => ?_)
    (fun e w hw => hw) fun w hw => hw
  · by_cases hpoisoned : c.poisoned = true
    · exact (raiseIfPoisoned_failed hpoisoned).mono (fun _ hw => hw) fun _ _ hq => hq.2
    · exact (raiseIfPoisoned_clean (Bool.eq_false_iff.mpr hpoisoned)).mono (fun _ hw => hw)
        fun _ _ hq => hq.2
  · refine Proc.Triple.get_bind fun v hv => ?_
    have hclosed : v.controller.closed = true := (congrArg Core.closed hv).trans h
    rw [if_pos hclosed]
    exact Proc.Triple.pure fun w hw => hw ▸ hv

theorem closeForError_closed (error : Exc) (h : c.closed = true) :
    Proc.Triple (fun w => w.core = c) (closeForError env error) fun _ w => w.core = c := by
  refine Proc.Triple.get_bind fun v hv => ?_
  have hclosed : v.controller.closed = true := (congrArg Core.closed hv).trans h
  rw [if_pos hclosed]
  exact Proc.Triple.pure fun w hw => hw ▸ hv

theorem Phase.closed_or_fresh (h : Phase c) : c = .fresh ∨ c.closed = true := by
  rcases h with _ | _ | ⟨_ | _⟩
  · exact .inl rfl
  all_goals exact .inr rfl

theorem close_phase (h : Phase c) : Proc.Triple (fun w => w.core = c) (close env) Reached := by
  rcases h.closed_or_fresh with rfl | hclosed
  · exact close_fresh.mono (fun _ hw => hw) fun _ _ hq => hq.reached
  · exact (close_closed hclosed).mono (fun _ hw => hw) fun _ _ hq => .inl (hq ▸ h)

theorem closeForError_phase (error : Exc) (h : Phase c) :
    Proc.Triple (fun w => w.core = c) (closeForError env error) Reached := by
  rcases h.closed_or_fresh with rfl | hclosed
  · exact (closeForError_fresh error).mono (fun _ hw => hw) fun _ _ hq => hq.reached
  · exact (closeForError_closed error hclosed).mono (fun _ hw => hw) fun _ _ hq => .inl (hq ▸ h)

/-! ### `send` -/

theorem transport_spec (sent : Sent) :
    Proc.Triple (fun w => w.core = c) (transport env sent) fun o w =>
      o = env.transport (c.sent ++ [sent]) ∧ w.core = { c with sent := c.sent ++ [sent] } := by
  refine Proc.Triple.modify_bind
    (I := fun w => w.core = { c with sent := c.sent ++ [sent] }) (fun w hw => ?_) ?_
  · subst hw
    rfl
  · refine Proc.Triple.get_bind fun v hv => ?_
    have hsent : v.sent = c.sent ++ [sent] := congrArg Core.sent hv
    rw [hsent]
    exact Proc.Triple.await fun w hw => ⟨rfl, hw ▸ hv⟩

/-- Keeping the record leaves the phase, for a message that is no start. -/
theorem modifyWrapper_bind {α : Type} {f : Wrapper → Wrapper} {g : Unit → Request α}
    {S : Awaited Exc α → World → Prop} (hf : ∀ s, (f s).responseStarted = s.responseStarted)
    (h : Proc.Triple (fun w => w.core = c) (g ()) S) :
    Proc.Triple (fun w => w.core = c) (modifyWrapper f >>= g) S := by
  refine Proc.Triple.modify_bind (fun w hw => ?_) h
  subst hw
  cases hwrapper : w.wrapper with
  | none => simp [World.core, hwrapper, hf]
  | some s => simp [World.core, hwrapper, hf]

theorem track_later (origin : Origin) (requestId : Str) (h : message.isStart = false) :
    Proc.Triple (fun w => w.core = c) (track env origin requestId message) fun o w =>
      (∃ later, o = .returns later ∧ later.isStart = false) ∧ w.core = c := by
  cases message with
  | start headers trailers => cases h
  | body moreBody =>
      exact modifyWrapper_bind (fun _ => rfl) (Proc.Triple.pure fun w hw => ⟨⟨_, rfl, rfl⟩, hw⟩)
  | pathsend =>
      exact modifyWrapper_bind (fun _ => rfl) (Proc.Triple.pure fun w hw => ⟨⟨_, rfl, rfl⟩, hw⟩)
  | trailers moreTrailers =>
      exact modifyWrapper_bind (fun _ => rfl) (Proc.Triple.pure fun w hw => ⟨⟨_, rfl, rfl⟩, hw⟩)
  | other type => exact Proc.Triple.pure fun w hw => ⟨⟨_, rfl, rfl⟩, hw⟩

/-- The rest of a start, after the clean-up. -/
theorem stamp_spec (requestId : Str) (headers : List Header) (trailers : Bool) :
    Proc.Triple (fun w => w.core = c)
      (do
        modifyWrapper fun s => { s with responseStarted := true, trailersExpected := trailers }
        pure (.start (stampHeaders requestId headers) trailers) : Request Message)
      fun o w => o = .returns (.start (stampHeaders requestId headers) trailers) ∧
        w.core = { c with begun := true } := by
  refine Proc.Triple.modify_bind (I := fun w => w.core = { c with begun := true })
    (fun w hw => ?_) (Proc.Triple.pure fun w hw => ⟨rfl, hw⟩)
  subst hw
  simp [World.core]

theorem track_start (requestId : Str) (headers : List Header) (trailers : Bool) :
    Proc.Triple (fun w => w.core = .fresh)
      (track env .application requestId (.start headers trailers))
      (CleanedUp fun stamped c =>
        stamped = .start (stampHeaders requestId headers) trailers ∧ c = .started []) := by
  refine Proc.Triple.bind close_fresh (fun _ => ?_) (fun x w hw => hw) fun w hw => hw
  refine (stamp_spec requestId headers trailers).mono (fun w hw => hw) fun o w hq => ?_
  rw [hq.1]
  exact ⟨rfl, hq.2⟩

/-- The application's start runs the clean-up; it is handed on with a request identifier if that
returns. -/
theorem send_start (requestId : Str) (h : message.isStart = true) :
    Proc.Triple (fun w => w.core = .fresh) (requestIdSend env .application requestId message)
      fun o w => Open w.core ∨ o = .never ∧ w.core = .stuck := by
  obtain ⟨headers, trailers, rfl⟩ : ∃ headers trailers, message = .start headers trailers := by
    cases message with
    | start headers trailers => exact ⟨headers, trailers, rfl⟩
    | _ => cases h
  have hcheck := @raiseIfPoisoned_clean .fresh rfl
  refine Proc.Triple.bind hcheck (fun _ => ?_) (fun e w hw => nomatch hw.1) fun w hw => nomatch hw.1
  refine Proc.Triple.bind ((track_start requestId headers trailers).mono (fun w hw => hw.2)
    fun _ _ hq => hq) (fun stamped => ?_) (fun e w hw => ?_) fun w hw => ?_
  · intro w hw
    obtain ⟨rfl, hstarted⟩ := hw
    refine .inl ((transport_spec _ w hstarted).2 ▸ .started _ ?_)
    exact isResponse_start .application requestId headers trailers
  · obtain ⟨x, hfailed⟩ := hw
    exact .inl (hfailed ▸ .failed x)
  · exact .inr ⟨rfl, hw⟩

/-- Later messages are refused after a failed clean-up, and handed on after a start. -/
theorem send_later (requestId : Str) (h : message.isStart = false) (hopen : Open c) :
    Proc.Triple (fun w => w.core = c) (requestIdSend env .application requestId message)
      fun _ w => Open w.core := by
  cases hopen with
  | failed e =>
      have hcheck := @raiseIfPoisoned_failed (.failed e) rfl
      refine Proc.Triple.bind hcheck (fun _ => ?_) (fun x w hw => ?_) fun w hw => ?_
      · exact fun w hw => nomatch hw.1
      · exact hw.2 ▸ .failed e
      · exact nomatch hw.1
  | started sent hsent =>
      have hcheck := @raiseIfPoisoned_clean (.started sent) rfl
      refine Proc.Triple.bind hcheck (fun _ => ?_) (fun e w hw => nomatch hw.1)
        fun w hw => nomatch hw.1
      refine Proc.Triple.bind ((track_later .application requestId h).mono (fun w hw => hw.2)
        fun _ _ hq => hq) (fun later => ?_) (fun e w hw => nomatch hw.1) fun w hw => nomatch hw.1
      intro w hw
      obtain ⟨⟨later', heq, hlater⟩, hstarted⟩ := hw
      obtain rfl : later = later' := Awaited.returns.inj heq
      exact (transport_spec _ w hstarted).2 ▸ .started _ (hsent.concat hlater)

/-! ### The application -/

theorem run_bodiesOnly (requestId : Str) (app : App) (h : BodiesOnly app) :
    Proc.Triple (fun w => Open w.core) (app.run (requestIdSend env .application requestId))
      fun _ w => Open w.core := by
  induction app with
  | returns => exact Proc.Triple.pure fun w hw => hw
  | raises e => exact Proc.Triple.raise fun w hw => hw
  | never => exact Proc.Triple.await fun w hw => hw
  | sends message next ih =>
      have hsend : Proc.Triple (fun w => Open w.core)
          (requestIdSend env .application requestId message) fun _ w => Open w.core :=
        fun w hw => send_later requestId h.1 hw w rfl
      exact Proc.Triple.tryElse hsend (fun _ => ih none (h.2 none))
        (fun e => ih (some e) (h.2 (some e))) fun w hw => hw

/-- **The application's run** ends in a phase of the request, whatever it does. -/
theorem run_conforming (requestId : Str) (app : App) (h : Conforming app) :
    Proc.Triple (fun w => w.core = .fresh) (app.run (requestIdSend env .application requestId))
      Reached := by
  cases app with
  | returns => exact Proc.Triple.pure fun w hw => .inl (hw ▸ .fresh)
  | raises e => exact Proc.Triple.raise fun w hw => .inl (hw ▸ .fresh)
  | never => exact Proc.Triple.await fun w hw => .inl (hw ▸ .fresh)
  | sends message next =>
      have hlater : ∀ raised, Proc.Triple (fun w => Open w.core)
          ((next raised).run (requestIdSend env .application requestId)) Reached := fun raised =>
        (run_bodiesOnly requestId (next raised) (h.2 raised)).mono (fun w hw => hw)
          fun o w hq => .inl (.opened hq)
      refine Proc.Triple.tryElse (send_start requestId h.1) (fun _ => ?_) (fun e => ?_) fun w hw => ?_
      · exact (hlater none).mono (fun w hw => hw.resolve_right fun hnever => nomatch hnever.1)
          fun _ _ hq => hq
      · exact (hlater (some e)).mono (fun w hw => hw.resolve_right fun hnever => nomatch hnever.1)
          fun _ _ hq => hq
      · exact hw.imp (fun hopen => .opened hopen) fun hstuck => ⟨rfl, hstuck.2⟩

/-! ### The request -/

/-- The exception that goes on is that of the clean-up, if it failed. -/
theorem resolveError_spec (error : Exc) (consume : Bool) :
    Proc.Triple (fun w => w.core = c) (resolveError error consume) fun o w =>
      (∃ resolved, o = .returns resolved ∧ ∀ e, c.cleanupError = some e → resolved = e) ∧
        w.core = if consume then { c with cleanupError := none } else c := by
  refine Proc.Triple.get_bind fun v hv => ?_
  have hcleanup : v.controller.cleanupError = c.cleanupError := congrArg Core.cleanupError hv
  rw [hcleanup]
  cases herror : c.cleanupError with
  | some cleanupError =>
      have hsame : ∀ e, some cleanupError = some e → cleanupError = e := fun e he => Option.some.inj he
      cases consume with
      | false => exact Proc.Triple.pure fun w hw => ⟨⟨_, rfl, hsame⟩, hw ▸ hv⟩
      | true =>
          refine Proc.Triple.modify_bind (I := fun w => w.core = { c with cleanupError := none })
            (fun w hw => ?_) (Proc.Triple.pure fun w hw => ⟨⟨_, rfl, hsame⟩, hw⟩)
          subst hw
          rw [← hv]
          rfl
  | none =>
      have hunchanged : ∀ w : World, w = v →
          w.core = if consume = true then { c with cleanupError := none } else c := by
        rintro w rfl
        rw [hv]
        cases c
        cases herror
        cases consume <;> rfl
      have hpure : ∀ resolved, Proc.Triple (· = v) (pure resolved : Request Exc) fun o w =>
          (∃ resolved, o = .returns resolved ∧ ∀ e, none = some e → resolved = e) ∧
            w.core = if consume then { c with cleanupError := none } else c := fun resolved =>
        Proc.Triple.pure fun w hw => ⟨⟨_, rfl, nofun⟩, hunchanged w hw⟩
      cases error with
      | cleanupSignal =>
          cases consume with
          | false => exact hpure _
          | true =>
              refine Proc.Triple.modify_bind
                (I := fun w => w.core = { c with cleanupError := none }) (fun w hw => ?_)
                (Proc.Triple.pure fun w hw => ⟨⟨_, rfl, nofun⟩, hw⟩)
              exact hunchanged w hw
      | outside id kind => exact hpure _
      | runtimeError message => exact hpure _
      | valueError message => exact hpure _

theorem raiseIfPoisoned_phase :
    Proc.Triple (fun w => Phase w.core) raiseIfPoisoned fun (o : Awaited Exc Unit) w =>
      Phase w.core ∧ o ≠ .never := by
  intro w hw
  by_cases hpoisoned : w.core.poisoned = true
  · obtain ⟨⟨x, hx⟩, hcore⟩ := raiseIfPoisoned_failed hpoisoned w rfl
    rw [hx]
    exact ⟨hcore ▸ hw, nofun⟩
  · obtain ⟨hreturns, hcore⟩ := raiseIfPoisoned_clean (Bool.eq_false_iff.mpr hpoisoned) w rfl
    rw [hreturns]
    exact ⟨hcore ▸ hw, nofun⟩

/-- What does not touch the controller and the transport. -/
theorem setPending_bind {e : Exc} {f : Unit → Request Unit} {S : Awaited Exc Unit → World → Prop}
    {P : Core → Prop} (h : Proc.Triple (fun w => P w.core) (f ()) S) :
    Proc.Triple (fun w => P w.core) (setPending e >>= f) S :=
  Proc.Triple.modify_bind (fun _ hw => hw) h

theorem runDownstream_reached {app : App} (h : Conforming app) :
    Proc.Triple (fun w => w.core = .fresh) (runDownstream env app) Reached := by
  have hlength : Proc.Triple (fun w => w.core = .fresh) (provideMaxLength env)
      fun _ w => w.core = .fresh := by
    rw [provideMaxLength]
    cases env.provider with
    | some provided => exact Proc.Triple.await fun w hw => hw
    | none => exact Proc.Triple.pure fun w hw => hw
  refine Proc.Triple.bind hlength (fun maxLength => ?_) (fun e w hw => .inl (hw ▸ .fresh))
    fun w hw => .inl (hw ▸ .fresh)
  cases requestIdFromScope env.tokens.2 env.scopeHeaders maxLength with
  | error e => exact Proc.Triple.raise fun w hw => .inl (hw ▸ .fresh)
  | ok requestId =>
      refine Proc.Triple.modify_bind (I := fun w => w.core = .fresh) (fun w hw => ?_) ?_
      · rw [Core.fresh] at hw ⊢
        simp only [World.core, Core.mk.injEq] at hw ⊢
        simp [hw]
      refine Proc.Triple.bind (run_conforming requestId app h) (fun _ => ?_) (fun _ _ hw => hw)
        fun _ hw => hw
      refine Proc.Triple.bind (raiseIfPoisoned_phase.mono (fun w hw => hw.phase_of_returns)
        fun _ _ hq => hq) (fun _ => ?_)
        (fun e w hw => .inl hw.1) fun w hw => absurd rfl hw.2
      exact Proc.Triple.modify fun w hw => .inl hw.1

theorem failDownstream_reached (caught : Exc) :
    Proc.Triple (fun w => Phase w.core) (failDownstream env caught) Reached := by
  have hresolve : Proc.Triple (fun w => Phase w.core) (resolveError caught false) fun o w =>
      (∃ resolved, o = .returns resolved) ∧ Phase w.core := by
    intro w hw
    obtain ⟨⟨resolved, hreturns, -⟩, hcore⟩ := resolveError_spec caught false w rfl
    exact ⟨⟨resolved, hreturns⟩, hcore ▸ hw⟩
  refine Proc.Triple.bind hresolve (fun active => ?_) (fun e w hw => nomatch hw.1)
    fun w hw => nomatch hw.1
  refine (setPending_bind ?_).mono (fun w hw => hw.2) fun _ _ hq => hq
  have hclose : Proc.Triple (fun w => Phase w.core) (closeForError env active) Reached :=
    fun w hw => closeForError_phase active hw w rfl
  refine Proc.Triple.bind (Q := Reached) ?_ (fun _ => ?_) (fun _ _ hw => hw) fun _ hw => hw
  · refine Proc.Triple.handle hclose (fun _ _ hw => hw) (fun e => ?_) fun _ hw => hw
    exact (setPending_bind (Proc.Triple.raise fun w hw => .inl hw)).mono
      (fun w hw => hw.phase_of_raises) fun _ _ hq => hq
  · exact Proc.Triple.raise fun w hw => .inl hw.phase_of_returns

theorem finishDownstream_reached :
    Proc.Triple (fun w => Phase w.core) (finishDownstream env) Reached := by
  have hclose : Proc.Triple (fun w => Phase w.core) (close env) Reached :=
    fun w hw => close_phase hw w rfl
  refine Proc.Triple.handle hclose (fun _ _ hw => hw) (fun e => ?_) fun _ hw => hw
  have hresolve : Proc.Triple (Reached (.raises e : Awaited Exc Unit)) (resolveError e false)
      fun o w => (∃ resolved, o = .returns resolved) ∧ Phase w.core := by
    intro w hw
    obtain ⟨⟨resolved, hreturns, -⟩, hcore⟩ := resolveError_spec e false w rfl
    exact ⟨⟨resolved, hreturns⟩, hcore ▸ hw.phase_of_raises⟩
  refine Proc.Triple.bind hresolve (fun active => ?_) (fun e w hw => nomatch hw.1)
    fun w hw => nomatch hw.1
  exact (setPending_bind (Proc.Triple.raise fun w hw => .inl hw)).mono (fun w hw => hw.2)
    fun _ _ hq => hq

theorem withRequestStack_reached {P : World → Prop} {p : Request Unit}
    (h : Proc.Triple P p Reached) : Proc.Triple P (withRequestStack env p) Reached := by
  refine Proc.Triple.tryElse h (fun _ => ?_) (fun e => ?_) fun _ hw => hw
  · refine Proc.Triple.await_bind (fun _ _ => ?_) (fun x _ w hw => .inl hw.phase_of_returns)
      fun _ w hw => .inl hw.phase_of_returns
    exact Proc.Triple.pure fun w hw => .inl hw.phase_of_returns
  · refine Proc.Triple.await_bind (fun suppressed _ => ?_) (fun x _ w hw => .inl hw.phase_of_raises)
      fun _ w hw => .inl hw.phase_of_raises
    cases suppressed with
    | true => exact Proc.Triple.pure fun w hw => .inl hw.phase_of_raises
    | false => exact Proc.Triple.raise fun w hw => .inl hw.phase_of_raises

/-- A request that completes has started its response. -/
theorem checkCompleted_spec :
    Proc.Triple (fun w => Phase w.core) checkCompleted fun (o : Awaited Exc Unit) w =>
      Phase w.core ∧ o ≠ .never ∧ (o = .returns () → w.core.begun = true) := by
  refine Proc.Triple.bind raiseIfPoisoned_phase (fun _ => ?_) (fun e w hw => ⟨hw.1, nofun, nofun⟩)
    fun w hw => absurd rfl hw.2
  refine Proc.Triple.get_bind fun v hv => ?_
  have hraise : ∀ e, Proc.Triple (· = v) (Proc.raise e) fun (o : Awaited Exc Unit) w =>
      Phase w.core ∧ o ≠ .never ∧ (o = .returns () → w.core.begun = true) := fun e =>
    Proc.Triple.raise fun w hw => ⟨hw ▸ hv.1, nofun, nofun⟩
  cases v.pendingError with
  | some e => exact hraise e
  | none =>
      dsimp only
      split_ifs with hdownstream hstarted hcomplete
      · exact hraise _
      · exact hraise _
      · exact hraise _
      · have hbegun : v.wrapper.any (·.responseStarted) = true := by simpa using hstarted
        exact Proc.Triple.pure fun w hw => ⟨hw ▸ hv.1, nofun, fun _ => hw ▸ hbegun⟩

/-- No response was begun, and the exception is that of the clean-up if it failed. -/
structure Unanswered (x : Exc) (c : Core) : Prop where
  begun : c.begun = false
  sent : c.sent = []
  cleanup : ∀ e, .raises e ∈ c.cleanups → x = e

/-- How the application's part of a request ends. -/
def Attempted : Awaited Exc Unit → World → Prop
  | .returns _, w => ∃ sent, IsResponse .application sent ∧ w.core = .started sent
  | .raises x, w =>
    (∃ sent, IsResponse .application sent ∧ w.core = .started sent) ∨ Unanswered x w.core
  | .never, w => Phase w.core ∨ w.core = .stuck

theorem Phase.started_of_begun (h : Phase c) (hbegun : c.begun = true) :
    ∃ sent, IsResponse .application sent ∧ c = .started sent := by
  rcases h with _ | _ | ⟨_ | ⟨sent, hsent⟩⟩
  · cases hbegun
  · cases hbegun
  · cases hbegun
  · exact ⟨sent, hsent, rfl⟩

theorem Phase.sent_or_started (h : Phase c) :
    c.sent = [] ∨ ∃ sent, IsResponse .application sent ∧ c = .started sent := by
  rcases h with _ | _ | ⟨_ | ⟨sent, hsent⟩⟩
  · exact .inl rfl
  · exact .inl rfl
  · exact .inl rfl
  · exact .inr ⟨sent, hsent, rfl⟩

/-- Once the clean-up's exception is taken, it is the one that goes on. -/
theorem Phase.resolved (h : Phase c) {x : Exc} (hx : ∀ e, c.cleanupError = some e → x = e) :
    (∃ sent, IsResponse .application sent ∧ { c with cleanupError := none } = .started sent) ∨
      Unanswered x { c with cleanupError := none } := by
  rcases h with _ | _ | ⟨e | ⟨sent, hsent⟩⟩
  · exact .inr ⟨rfl, rfl, by simp [Core.fresh]⟩
  · exact .inr ⟨rfl, rfl, by simp [Core.shut]⟩
  · refine .inr ⟨rfl, rfl, fun e' he' => ?_⟩
    obtain rfl : e' = e := by simpa [Core.failed] using he'
    exact hx e' rfl
  · exact .inl ⟨sent, hsent, rfl⟩

theorem attempt_spec {app : App} (h : Conforming app) :
    Proc.Triple (fun w => w.core = .fresh) (attempt env app) Attempted := by
  have hdownstream : Proc.Triple (fun w => w.core = .fresh)
      (Proc.tryElse (runDownstream env app) (failDownstream env) fun _ => finishDownstream env)
      Reached := by
    refine Proc.Triple.tryElse (runDownstream_reached h) (fun _ => ?_) (fun e => ?_) fun _ hw => hw
    · exact finishDownstream_reached.mono (fun w hw => hw.phase_of_returns) fun _ _ hq => hq
    · exact (failDownstream_reached e).mono (fun w hw => hw.phase_of_raises) fun _ _ hq => hq
  have hbody : Proc.Triple (fun w => w.core = .fresh)
      (do
        withRequestStack env (Proc.tryElse (runDownstream env app) (failDownstream env)
          fun _ => finishDownstream env)
        checkCompleted)
      fun o w => Reached o w ∧ (o = .returns () → w.core.begun = true) := by
    refine Proc.Triple.bind (withRequestStack_reached hdownstream) (fun _ => ?_)
      (fun e w hw => ⟨.inl hw.phase_of_raises, nofun⟩) fun w hw => ⟨hw.imp id (And.imp_left fun _ => rfl), nofun⟩
    exact checkCompleted_spec.mono (fun w hw => hw.phase_of_returns) fun o w hq => ⟨.inl hq.1, hq.2.2⟩
  refine Proc.Triple.handle hbody (fun a w hw => ?_) (fun e => ?_) fun w hw => ?_
  · exact hw.1.phase_of_returns.started_of_begun (hw.2 rfl)
  · have hresolve : Proc.Triple (fun w => Phase w.core) (resolveError e true) fun o w =>
        ∃ x, o = .returns x ∧ ((∃ sent, IsResponse .application sent ∧ w.core = .started sent) ∨
          Unanswered x w.core) := by
      intro w hw
      obtain ⟨⟨x, hreturns, hx⟩, hcore⟩ := resolveError_spec e true w rfl
      rw [if_pos rfl] at hcore
      exact ⟨x, hreturns, hcore ▸ hw.resolved hx⟩
    refine Proc.Triple.bind (hresolve.mono (fun w hw => hw.1.phase_of_raises) fun _ _ hq => hq)
      (fun resolved => ?_) (fun x w hw => nomatch hw) fun w hw => nomatch hw
    refine Proc.Triple.raise fun w hw => ?_
    obtain ⟨x, hx, hw⟩ := hw
    exact Awaited.returns.inj hx ▸ hw
  · exact hw.1.imp id And.right

/-! ### The error response -/

/-- An error response is not checked, and no clean-up runs for it. -/
theorem send_errorStart (requestId : Str) (headers : List Header) :
    Proc.Triple (fun w => w.core = c) (requestIdSend env .errorResponse requestId (.start headers false))
      fun o w =>
        o = env.transport (c.sent ++ [⟨.errorResponse, .start (stampHeaders requestId headers) false⟩]) ∧
        w.core = { c with
          begun := true
          sent := c.sent ++ [⟨.errorResponse, .start (stampHeaders requestId headers) false⟩] } := by
  refine Proc.Triple.bind (Q := fun o w =>
    o = .returns (.start (stampHeaders requestId headers) false) ∧ w.core = { c with begun := true })
    (stamp_spec requestId headers false) (fun stamped => ?_) (fun e w hw => nomatch hw.1)
    fun w hw => nomatch hw.1
  intro w hw
  obtain ⟨heq, hcore⟩ := hw
  obtain rfl := Awaited.returns.inj heq
  exact transport_spec _ w hcore

theorem send_errorBody (requestId : Str) (moreBody : Bool) :
    Proc.Triple (fun w => w.core = c) (requestIdSend env .errorResponse requestId (.body moreBody))
      fun o w => o = env.transport (c.sent ++ [⟨.errorResponse, .body moreBody⟩]) ∧
        w.core = { c with sent := c.sent ++ [⟨.errorResponse, .body moreBody⟩] } := by
  refine Proc.Triple.bind (Q := fun (o : Awaited Exc Message) w =>
    o = .returns (.body moreBody) ∧ w.core = c) ?_ (fun body => ?_) (fun e w hw => nomatch hw.1)
    fun w hw => nomatch hw.1
  · exact modifyWrapper_bind (fun _ => rfl) (Proc.Triple.pure fun w hw => ⟨rfl, hw⟩)
  · intro w hw
    obtain ⟨heq, hcore⟩ := hw
    obtain rfl := Awaited.returns.inj heq
    exact transport_spec _ w hcore

/-- Running a message of a response: where the transport fails, the exception is passed on. -/
theorem run_sends {message : Message} {requestId : Str} {next : Option Exc → App} {c : Core}
    {S : Awaited Exc Unit → World → Prop} (c' : Core)
    (hsend : Proc.Triple (fun w => w.core = c) (requestIdSend env .errorResponse requestId message)
      fun o w => o = env.transport c'.sent ∧ w.core = c')
    (hraised : ∀ e, next (some e) = .raises e)
    (hfailed : env.transport c'.sent ≠ .returns () → ∀ o w, w.core = c' → S o w)
    (hnext : Proc.Triple (fun w => w.core = c')
      ((next none).run (requestIdSend env .errorResponse requestId)) S) :
    Proc.Triple (fun w => w.core = c)
      ((App.sends message next).run (requestIdSend env .errorResponse requestId)) S := by
  refine Proc.Triple.tryElse hsend (fun _ => ?_) (fun e => ?_) fun w hw => ?_
  · exact hnext.mono (fun w hw => hw.2) fun _ _ hq => hq
  · rw [hraised e]
    exact Proc.Triple.raise fun w hw => hfailed (hw.1 ▸ nofun) _ w hw.2
  · exact hfailed (hw.1 ▸ nofun) _ w hw.2

/-- What was handed on of the body of an error response: all of it, unless the transport did not
return. -/
theorem run_bodies (requestId : Str) {app : App} (h : Bodies app) {c : Core} {headers : List Header}
    {bodies : List Sent} (hresponse : IsResponse .errorResponse c.sent)
    (hsent : c.sent = ⟨.errorResponse, .start headers false⟩ :: bodies)
    (hbodies : ∀ body ∈ bodies, ∃ moreBody, body = ⟨.errorResponse, .body moreBody⟩) :
    Proc.Triple (fun w => w.core = c) (app.run (requestIdSend env .errorResponse requestId))
      fun _ w => w.core.cleanups = c.cleanups ∧ IsResponse .errorResponse w.core.sent ∧
        Answered env w.core.sent := by
  have hconcat : ∀ {c : Core} {bodies : List Sent} (moreBody : Bool),
      c.sent = ⟨.errorResponse, .start headers false⟩ :: bodies →
      c.sent ++ [⟨.errorResponse, .body moreBody⟩] = ⟨.errorResponse, .start headers false⟩ ::
        (bodies ++ [⟨.errorResponse, .body moreBody⟩]) := by
    intro c bodies moreBody hsent
    rw [hsent, List.cons_append]
  have hmore : ∀ {bodies : List Sent} (moreBody : Bool),
      (∀ body ∈ bodies, ∃ moreBody, body = ⟨.errorResponse, .body moreBody⟩) →
      ∀ body ∈ bodies ++ [⟨.errorResponse, .body moreBody⟩],
        ∃ moreBody, body = ⟨.errorResponse, .body moreBody⟩ := by
    intro bodies moreBody hbodies body hbody
    rcases List.mem_append.mp hbody with hbody | hbody
    · exact hbodies body hbody
    · exact ⟨moreBody, List.mem_singleton.mp hbody⟩
  induction h generalizing c bodies with
  | last hraised hnext =>
      refine run_sends { c with sent := c.sent ++ [⟨.errorResponse, .body false⟩] }
        (send_errorBody requestId false) hraised (fun hfailed o w hw => ?_) ?_
      · rw [hw]
        exact ⟨rfl, hresponse.concat rfl, headers, _, hconcat false hsent, hmore false hbodies,
          .inl hfailed⟩
      · rw [hnext]
        refine Proc.Triple.pure fun w hw => ?_
        rw [hw]
        exact ⟨rfl, hresponse.concat rfl, headers, _, hconcat false hsent, hmore false hbodies,
          .inr (by simp)⟩
  | more hraised hrest ih =>
      refine run_sends { c with sent := c.sent ++ [⟨.errorResponse, .body true⟩] }
        (send_errorBody requestId true) hraised (fun hfailed o w hw => ?_) ?_
      · rw [hw]
        exact ⟨rfl, hresponse.concat rfl, headers, _, hconcat true hsent, hmore true hbodies,
          .inl hfailed⟩
      · exact ih (hresponse.concat rfl) (hconcat true hsent) (hmore true hbodies)

/-- What was handed on of an error response: its start, and its body unless the transport did not
return. -/
theorem respond_spec (hresponds : Responds env) (requestId : Str) (response : Response)
    (h : c.sent = []) :
    Proc.Triple (fun w => w.core = c)
      (respond env response (requestIdSend env .errorResponse requestId))
      fun _ w => w.core.cleanups = c.cleanups ∧ IsResponse .errorResponse w.core.sent ∧
        Answered env w.core.sent := by
  have hstart := @send_errorStart env c requestId response.headers
  have hresponse := isResponse_start .errorResponse requestId response.headers false
  rw [h, List.nil_append] at hstart
  obtain ⟨next, hcall, hraised, hbodies⟩ := hresponds response
  rw [respond, hcall]
  refine run_sends { c with
      begun := true
      sent := [⟨.errorResponse, .start (stampHeaders requestId response.headers) false⟩] }
    hstart hraised (fun hfailed o w hw => ?_) ?_
  · rw [hw]
    exact ⟨rfl, hresponse, _, [], rfl, by simp, .inl hfailed⟩
  · exact run_bodies requestId hbodies hresponse rfl (by simp)

/-- How a request ends: the application's response was begun, or none is sent because no exception of
a clean-up asks for one, or an error response was. -/
def Ended (env : Environment) (outcome : Awaited Exc Unit) (w : World) : Prop :=
  (∃ sent, IsResponse .application sent ∧ w.core = .started sent) ∨
    (w.sent = [] ∧ ∀ e, .raises e ∈ w.controller.cleanups → e.isException = true → outcome = .never) ∨
    IsResponse .errorResponse w.sent ∧ Answered env w.sent

theorem answerError_ended (hresponds : Responds env) (error : Exc) :
    Proc.Triple (Attempted (.raises error)) (answerError env error) (Ended env) := by
  refine Proc.Triple.get_bind fun v hv => ?_
  cases hprepared : prepareErrorResponse env error v.requestId (v.wrapper.any (·.responseStarted)) with
  | mk response group =>
      dsimp only
      by_cases hstarted : v.wrapper.any (·.responseStarted) = true
      · rw [if_pos hstarted]
        refine Proc.Triple.raise fun w hw => .inl ?_
        rcases hv with hresponse | hnot
        · exact hw ▸ hresponse
        · exact absurd (hstarted.symm.trans hnot.begun) nofun
      · rw [if_neg hstarted]
        have hnot : Unanswered error v.core := by
          rcases hv with ⟨sent, -, hcore⟩ | hnot
          · exact absurd (congrArg Core.begun hcore) hstarted
          · exact hnot
        refine Proc.Triple.modify_bind (I := fun w => w.core = v.core) (fun w hw => ?_) ?_
        · subst hw
          have hbegun : w.wrapper.any (·.responseStarted) = false := hnot.begun
          simp [World.core, hbegun]
        · refine Proc.Triple.handle (respond_spec hresponds v.requestId _ hnot.sent)
            (fun _ w hw => .inr (.inr hw.2)) (fun e => ?_) fun w hw => .inr (.inr hw.2)
          split
          · exact Proc.Triple.raise fun w hw => .inr (.inr hw.2)
          · exact Proc.Triple.raise fun w hw => .inr (.inr hw.2)

theorem runHttpRequest_ended {app : App} (hresponds : Responds env) (h : Conforming app) :
    Proc.Triple (fun w => w.core = .fresh) (runHttpRequest env app) (Ended env) := by
  have hfresh : ∀ {o : Awaited Exc Unit} {w : World}, w.core = .fresh → Ended env o w := by
    intro o w hw
    have hcleanups : w.controller.cleanups = [] := congrArg Core.cleanups hw
    exact .inr (.inl ⟨congrArg Core.sent hw, by simp [hcleanups]⟩)
  rw [runHttpRequest]
  cases requestIdFromScope env.tokens.1 env.scopeHeaders env.maxLength with
  | error e => exact Proc.Triple.raise fun w hw => hfresh hw
  | ok requestId =>
      refine Proc.Triple.modify_bind (I := fun w => w.core = .fresh) (fun w hw => hw) ?_
      refine Proc.Triple.handle (attempt_spec h) (fun _ w hw => .inl hw) (fun e => ?_) fun w hw => ?_
      · by_cases he : e.isException = true
        · rw [if_pos he]
          exact answerError_ended hresponds e
        · rw [if_neg he]
          refine Proc.Triple.raise fun w hw => ?_
          rcases hw with hresponse | hnot
          · exact .inl hresponse
          · refine .inr (.inl ⟨hnot.sent, fun e' he' hexception => ?_⟩)
            exact absurd (hnot.cleanup e' he' ▸ hexception) he
      · rcases hw with hphase | hstuck
        · rcases hphase.sent_or_started with hsent | hstarted
          · exact .inr (.inl ⟨hsent, fun _ _ _ => rfl⟩)
          · exact .inl hstarted
        · exact .inr (.inl ⟨congrArg Core.sent hstuck, fun _ _ _ => rfl⟩)

/-! ### The protocol -/

theorem IsResponse.oneStart {sent : List Sent} (h : IsResponse origin sent) :
    (sent.filter (·.message.isStart)).length ≤ 1 := by
  obtain ⟨first, rest, rfl, -, hstart, -, hrest⟩ := h
  have hnone : rest.filter (·.message.isStart) = [] := by
    rw [List.filter_eq_nil_iff]
    intro later hlater
    rw [(hrest later hlater).2]
    exact Bool.false_ne_true
  rw [List.filter_cons, if_pos hstart, hnone]
  exact le_rfl

theorem IsResponse.startFirst {sent : List Sent} (h : IsResponse origin sent) :
    ∀ first ∈ sent.head?, first.message.isStart = true := by
  obtain ⟨first, rest, rfl, -, hstart, -, -⟩ := h
  intro first' hfirst
  obtain rfl : first = first' := by simpa using hfirst
  exact hstart

theorem IsResponse.identified {sent : List Sent} (h : IsResponse origin sent) :
    ∀ s ∈ sent, s.message.isStart = true → (requestIds s.message).length = 1 := by
  obtain ⟨first, rest, rfl, -, -, hid, hrest⟩ := h
  intro s hs hstart
  rcases List.mem_cons.mp hs with rfl | hs
  · exact hid
  · rw [(hrest s hs).2] at hstart
    cases hstart

theorem IsResponse.origin_eq {sent : List Sent} (h : IsResponse origin sent) :
    ∀ s ∈ sent, s.origin = origin := by
  obtain ⟨first, rest, rfl, horigin, -, -, hrest⟩ := h
  intro s hs
  rcases List.mem_cons.mp hs with rfl | hs
  · exact horigin
  · exact (hrest s hs).1

theorem Ended.protocol {outcome : Awaited Exc Unit} (h : Ended env outcome w) :
    Protocol env outcome w := by
  rcases h with ⟨sent, hresponse, hcore⟩ | ⟨hsent, hnever⟩ | ⟨hresponse, hanswered⟩
  · have hnone : ∀ e, .raises e ∉ w.controller.cleanups := by
      intro e he
      rw [show w.controller.cleanups = [.returns ()] from congrArg Core.cleanups hcore] at he
      simp at he
    have heq : w.sent = sent := congrArg Core.sent hcore
    constructor
    · exact heq ▸ hresponse.oneStart
    · exact heq ▸ hresponse.startFirst
    · exact heq ▸ hresponse.identified
    · exact fun e he => absurd he (hnone e)
    · exact fun e he => absurd he (hnone e)
  · constructor
    · simp [hsent]
    · simp [hsent]
    · simp [hsent]
    · simp [hsent]
    · exact fun e he hexception houtcome => absurd (hnever e he hexception) houtcome
  · constructor
    · exact hresponse.oneStart
    · exact hresponse.startFirst
    · exact hresponse.identified
    · exact fun e _ => hresponse.origin_eq
    · exact fun e _ _ _ => hanswered

/-- **The request protocol.**  Whatever a conforming application, the clean-up, the outer stack and the
transport do, and if a response that is called sends one start and then its body, the client is sent at most one start, first and with one request identifier; and if the
clean-up failed, then nothing of the application, and an error response where the failure was an
exception. -/
theorem request_protocol (env : Environment) (app : App) (hresponds : Responds env)
    (h : Conforming app) :
    Protocol env (runHttpRequest env app {}).1 (runHttpRequest env app {}).2 :=
  (runHttpRequest_ended hresponds h {} rfl).protocol

/-- A response with one body message. -/
def plainResponse (response : Response) : App :=
  .sends (.start response.headers false) fun raised =>
    match raised with
    | some e => .raises e
    | none => .sends (.body false) fun raised =>
      match raised with
      | some e => .raises e
      | none => .returns

/-- A service whose clean-up fails, and whose transport takes every message. -/
def failingCleanup : Environment where
  scopeHeaders := []
  maxLength := maxHeaderValueLength
  provider := none
  tokens := (['a'], ['b'])
  cleanup := fun _ => .raises (.outside 0 .ordinary)
  requestExit := fun _ => .returns false
  transport := fun _ => .returns ()
  businessResponse := fun e _ => .error e
  validationResponse := fun e _ => .error e
  internalResponse := fun _ => ⟨[]⟩
  response := plainResponse
  sanitizedGroup := fun _ => none

/-- An application that sends its response and swallows every exception is answered with an error
response. -/
theorem request_protocol_swallowed : Protocol failingCleanup
    (runHttpRequest failingCleanup (.sends (.start [] false) fun _ => .sends (.body false) fun _ =>
      .returns) {}).1
    (runHttpRequest failingCleanup (.sends (.start [] false) fun _ => .sends (.body false) fun _ =>
      .returns) {}).2 :=
  request_protocol failingCleanup _
    (fun _ => ⟨_, rfl, fun _ => rfl, .last (fun _ => rfl) rfl⟩) ⟨rfl, fun _ => ⟨rfl, fun _ => trivial⟩⟩

example : ((runHttpRequest failingCleanup (.sends (.start [] false) fun _ => .returns) {}).2.sent.map
    fun sent => (sent.origin, sent.message.isStart)) = [(.errorResponse, true), (.errorResponse, false)] :=
  rfl

end VeloxRag.RequestProtocol
