import VeloxRag.Lib.Runs

/-!
# Publications to one final key

Any number of calls of `_publish_verified_source` for one key of the bucket.  The request of a
publication waits for calls of the SDK that run on threads; when it gives up waiting for its copy,
the copy goes on, and a finalizer removes what the copy made in case it succeeds after all.

## Main definitions

* `Publication` — the request, the thread of its copy and its finalizer.
* `FinalKey` — the object at the key and the publications.
* `FinalKey.step` — what each event does.
-/

namespace VeloxRag.ObjectStore

/-- What `publish_temp` and `upload_stream` raise. -/
inductive PublishError
  | objectStoreUnavailable
  | objectVerificationFailed
  | artifactChecksumConflict
  | cancelled
  deriving DecidableEq, Repr

/-- Where the request is; a stat is the content of the object found, if there was one. -/
inductive PublishPhase (κ : Type*)
  /-- `_head` of the final key, before the store answers -/
  | heading
  | headed (stat : Option κ)
  /-- `_start_blocking` of the copy -/
  | admitting
  /-- it waits for the copy -/
  | copying
  /-- `_verify_object`, before the store answers -/
  | verifying
  | verified (stat : Option κ)
  /-- the second `_head`, when another copy was first -/
  | reheading
  | reheaded (stat : Option κ)
  /-- the result is known and the staging object is removed -/
  | returning (reused : Bool)
  | returned (reused : Bool)
  | raised (error : PublishError)
  deriving DecidableEq, Repr

inductive CopyError
  | destinationAlreadyExists
  | sourceVersionChanged
  | other
  deriving DecidableEq, Repr

/-- The thread of `_copy_if_absent_sync`. -/
inductive CopyPhase
  | absent
  | running
  /-- the store has made the object, the thread has not returned yet -/
  | created
  | returned
  | raised (error : CopyError)
  deriving DecidableEq, Repr

/-- The finalizer of `_schedule_eventual_cleanup`, as far as it concerns the final key. -/
inductive CleanupPhase
  | none
  /-- it waits for the copy -/
  | waiting
  /-- `remove_object` of the final key is under way -/
  | deleting
  | finished
  deriving DecidableEq, Repr

/-- One call of `_publish_verified_source`; `content` is the size and checksum it expects. -/
structure Publication (κ : Type*) where
  content : κ
  phase : PublishPhase κ
  copy : CopyPhase
  cleanup : CleanupPhase
  deriving DecidableEq, Repr

/-- The object at the key, with the publication whose copy made it, and the publications. -/
structure FinalKey (κ : Type*) where
  object : Option (κ × ℕ)
  publications : List (Publication κ)
  deriving DecidableEq, Repr

inductive PublishEvent (κ : Type*)
  | requested (content : κ)
  /-- the store answers `stat_object` -/
  | statRead (t : ℕ)
  /-- the request goes on after what it waited for -/
  | resumed (t : ℕ)
  /-- what the request waits for, other than the copy, fails, times out or is cancelled -/
  | interrupted (t : ℕ) (error : PublishError)
  | copyAdmitted (t : ℕ)
  /-- the store completes the conditional copy -/
  | copyCreated (t : ℕ)
  | copyReturned (t : ℕ)
  /-- the store refuses the copy with a precondition failure -/
  | copyRefused (t : ℕ)
  | copyFailed (t : ℕ) (sourceChanged : Bool)
  /-- the copy is not over at the deadline; the store may be closing -/
  | timedOut (t : ℕ) (byClose : Bool)
  /-- the request is cancelled while it waits for the copy, by its client or by a closing store -/
  | cancelled (t : ℕ) (byClose : Bool)
  /-- the finalizer sees that the copy is over -/
  | finalized (t : ℕ)
  /-- the finalizer is cancelled, or cannot call the SDK any more -/
  | finalizerStopped (t : ℕ)
  /-- the store removes the object -/
  | deleted (t : ℕ)
  | deleteFailed (t : ℕ)
  deriving DecidableEq, Repr

namespace Publication

variable {κ : Type*}

def setPhase (p : Publication κ) (phase : PublishPhase κ) : Publication κ := { p with phase := phase }

def setCopy (p : Publication κ) (copy : CopyPhase) : Publication κ := { p with copy := copy }

def setCleanup (p : Publication κ) (cleanup : CleanupPhase) : Publication κ :=
  { p with cleanup := cleanup }

/-- `_reuse_or_conflict`. -/
def reuseOrConflict [DecidableEq κ] (p : Publication κ) (stat : κ) : PublishPhase κ :=
  if stat = p.content then .returning true else .raised .artifactChecksumConflict

/-- What the request does next, when what it waits for is over. -/
def resume [DecidableEq κ] (p : Publication κ) : Option (PublishPhase κ) :=
  match p.phase with
  | .headed none => some .admitting
  | .headed (some stat) => some (p.reuseOrConflict stat)
  | .copying =>
    match p.copy with
    | .returned => some .verifying
    | .raised .destinationAlreadyExists => some .reheading
    | .raised .sourceVersionChanged => some (.raised .objectVerificationFailed)
    | .raised .other => some (.raised .objectStoreUnavailable)
    | _ => none
  | .verified none => some (.raised .objectVerificationFailed)
  | .verified (some stat) =>
    if stat = p.content then some (.returning false) else some (.raised .objectVerificationFailed)
  | .reheaded none => some (.raised .objectStoreUnavailable)
  | .reheaded (some stat) => some (p.reuseOrConflict stat)
  | .returning reused => some (.returned reused)
  | _ => none

/-- The answer of the store to the `stat_object` under way. -/
def answer (p : Publication κ) (stat : Option κ) : Option (PublishPhase κ) :=
  match p.phase with
  | .heading => some (.headed stat)
  | .verifying => some (.verified stat)
  | .reheading => some (.reheaded stat)
  | _ => none

/-- The request waits for something that is not its copy. -/
def interruptible (p : Publication κ) : Bool :=
  match p.phase with
  | .copying | .returned _ | .raised _ => false
  | _ => true

/-- `_call_blocking` gives up waiting: the clean-up is scheduled unless the store is closing. -/
def abandon (p : Publication κ) (error : PublishError) (byClose : Bool) : Publication κ :=
  let p := p.setPhase (.raised error)
  if byClose then p else p.setCleanup .waiting

/-- What an event does to the publication it belongs to, where the object stays as it is. -/
def advance [DecidableEq κ] (p : Publication κ) (stat : Option κ) :
    PublishEvent κ → Option (Publication κ)
  | .statRead _ => (p.answer stat).map p.setPhase
  | .resumed _ => p.resume.map p.setPhase
  | .interrupted _ error => if p.interruptible then some (p.setPhase (.raised error)) else none
  | .copyAdmitted _ =>
    match p.phase with
    | .admitting => some ((p.setPhase .copying).setCopy .running)
    | _ => none
  | .copyReturned _ => if p.copy = .created then some (p.setCopy .returned) else none
  | .copyRefused _ =>
    if p.copy = .running then some (p.setCopy (.raised .destinationAlreadyExists)) else none
  | .copyFailed _ sourceChanged =>
    match p.copy with
    | .running => some (p.setCopy (.raised (if sourceChanged then .sourceVersionChanged else .other)))
    | .created => some (p.setCopy (.raised .other))
    | _ => none
  | .timedOut _ byClose =>
    match p.phase, p.copy with
    | .copying, .running | .copying, .created => some (p.abandon .objectStoreUnavailable byClose)
    | _, _ => none
  | .cancelled _ byClose =>
    match p.phase with
    | .copying => some (p.abandon .cancelled byClose)
    | _ => none
  | .finalized _ =>
    if p.cleanup = .waiting then
      match p.copy with
      | .returned => some (p.setCleanup .deleting)
      | .raised _ => some (p.setCleanup .finished)
      | _ => none
    else none
  | .finalizerStopped _ => if p.cleanup = .waiting then some (p.setCleanup .finished) else none
  | .deleteFailed _ => if p.cleanup = .deleting then some (p.setCleanup .finished) else none
  | _ => none

end Publication

namespace FinalKey

variable {κ : Type*}

/-- Before any publication. -/
def init : FinalKey κ := ⟨none, []⟩

def set (s : FinalKey κ) (t : ℕ) (p : Publication κ) : FinalKey κ :=
  { s with publications := s.publications.set t p }

/-- What an event does to the key. -/
def step [DecidableEq κ] (s : FinalKey κ) (event : PublishEvent κ) : Option (FinalKey κ) :=
  match event with
  | .requested content =>
    some { s with publications := s.publications ++ [⟨content, .heading, .absent, .none⟩] }
  | .copyCreated t =>
    (s.publications[t]?).bind fun p =>
      if p.copy = .running ∧ s.object = none then
        some { s.set t (p.setCopy .created) with object := some (p.content, t) }
      else none
  | .deleted t =>
    (s.publications[t]?).bind fun p =>
      if p.cleanup = .deleting then some { s.set t (p.setCleanup .finished) with object := none }
      else none
  | .statRead t | .resumed t | .interrupted t _ | .copyAdmitted t | .copyReturned t | .copyRefused t
  | .copyFailed t _ | .timedOut t _ | .cancelled t _ | .finalized t | .finalizerStopped t
  | .deleteFailed t =>
    (s.publications[t]?).bind fun p => (p.advance (s.object.map Prod.fst) event).map (s.set t)

end FinalKey

end VeloxRag.ObjectStore
