import VeloxRag.Lib.Runs

/-!
# The pools of the provider transport

`SecureProviderTransport` keeps one connection pool for each destination, at most
`max_destination_pools` of them, least recently used first.  A request takes a lease on the pool of its
destination; when the registry is full a request evicts a pool that nobody leases, and closing the
transport closes all of them.  An evicted pool is marked, and then closed outside the lock while other
requests go on.

As for the gateway, what stands between two awaits is one step, and a request may be interrupted
between its steps.  The kind of destinations does not matter here.

## Main definitions

* `PoolEntry` — `_ProviderPoolEntry`.
* `Transport` — the entries that were ever made, the registry, the requests, the close task.
* `Transport.step` — what each step does.
-/

namespace VeloxRag.Transport

/-- `_ProviderPoolEntry`, with the destination its pool was made for; the calls of `pool.aclose()` are
told for the theorems only. -/
structure PoolEntry (δ : Type*) where
  destination : δ
  leases : ℤ
  closing : Bool
  closes : ℕ
  deriving DecidableEq

/-- Where a request is. -/
inductive RequestPhase (δ : Type*)
  /-- in `_pool_for`, without a lease -/
  | waiting
  /-- it evicts a pool; whether `aclose` was called -/
  | evicting (victim : δ) (entry : ℕ) (called : Bool)
  | leased (entry : ℕ)
  /-- `_release_pool` is still to run -/
  | releasing (entry : ℕ)
  | finished
  deriving DecidableEq

/-- The request holds a lease on the entry. -/
def RequestPhase.holds {δ : Type*} (e : ℕ) : RequestPhase δ → Bool
  | .leased entry | .releasing entry => entry == e
  | _ => false

/-- The request is to close the pool of the entry. -/
def RequestPhase.willClose {δ : Type*} (e : ℕ) : RequestPhase δ → Bool
  | .evicting _ entry called => entry == e && !called
  | _ => false

/-- One call of `post_json`, once its destination is resolved. -/
structure TransportRequest (δ : Type*) where
  destination : δ
  phase : RequestPhase δ
  deriving DecidableEq

/-- `_close_all_pools`: the pools that one pass of it closes, one after the other. -/
inductive ClosePhase (δ : Type*)
  | idle
  | scanning
  | closing (rest : List (δ × ℕ)) (called : Bool)
  | complete
  deriving DecidableEq

/-- The entries that the close task is to close. -/
def ClosePhase.pending {δ : Type*} : ClosePhase δ → List ℕ
  | .closing rest called => (if called then rest.tail else rest).map Prod.snd
  | _ => []

/-- `SecureProviderTransport`.  The entries are all that were ever made, and the registry `pools` and
the requests name them by their place. -/
structure State (δ : Type*) where
  entries : List (PoolEntry δ)
  pools : List (δ × ℕ)
  requests : List (TransportRequest δ)
  closed : Bool
  closePhase : ClosePhase δ
  assertionRaised : Bool
  deriving DecidableEq

variable {δ : Type*} [DecidableEq δ]

namespace State

def init : State δ := ⟨[], [], [], false, .idle, false⟩

/-- `self._pools.get(destination)`. -/
def pool (s : State δ) (destination : δ) : Option ℕ :=
  (s.pools.find? fun p => p.1 = destination).map Prod.snd

def setEntry (s : State δ) (e : ℕ) (entry : PoolEntry δ) : State δ :=
  { s with entries := s.entries.set e entry }

def setPhase (s : State δ) (t : ℕ) (request : TransportRequest δ) (phase : RequestPhase δ) :
    State δ :=
  { s with requests := s.requests.set t { request with phase := phase } }

/-- `self._pools.move_to_end(destination)`. -/
def moveToEnd (s : State δ) (destination : δ) : State δ :=
  { s with
    pools := s.pools.filter (fun p => p.1 ≠ destination) ++
      s.pools.filter fun p => p.1 = destination }

/-- `del self._pools[destination]`, if the entry is still the one registered. -/
def forget (s : State δ) (destination : δ) (e : ℕ) : State δ :=
  if s.pool destination = some e then
    { s with pools := s.pools.filter fun p => p.1 ≠ destination }
  else s

/-- `candidate.leases == 0 and not candidate.closing`. -/
def idle (s : State δ) (p : δ × ℕ) : Bool :=
  match s.entries[p.2]? with
  | some entry => decide (entry.leases = 0) && !entry.closing
  | none => false

/-- `pool.aclose()` is called. -/
def callClose (s : State δ) (e : ℕ) : State δ :=
  { s with entries := s.entries.modify e fun entry => { entry with closes := entry.closes + 1 } }

/-- `entry.closing = True`. -/
def markClosing (s : State δ) (e : ℕ) : State δ :=
  { s with entries := s.entries.modify e fun entry => { entry with closing := true } }

/-- One pass of `_pool_for`. -/
def poolFor (maxDestinationPools : ℕ) (s : State δ) (t : ℕ) (request : TransportRequest δ) :
    State δ :=
  if s.closed then s.setPhase t request .finished
  else
    match s.pool request.destination with
    | some e =>
      match s.entries[e]? with
      | some entry =>
        if entry.closing then s
        else
          ((s.setEntry e { entry with leases := entry.leases + 1 }).moveToEnd
            request.destination).setPhase t request (.leased e)
      | none => s
    | none =>
      if s.pools.length < maxDestinationPools then
        { s with
          entries := s.entries ++ [⟨request.destination, 1, false, 0⟩]
          pools := s.pools ++ [(request.destination, s.entries.length)]
          requests := s.requests.set t { request with phase := .leased s.entries.length } }
      else
        match s.pools.find? s.idle with
        | some victim => (s.markClosing victim.2).setPhase t request (.evicting victim.1 victim.2 false)
        | none => s

/-- `_release_pool`. -/
def releasePool (s : State δ) (t : ℕ) (request : TransportRequest δ) (e : ℕ) (entry : PoolEntry δ) :
    State δ :=
  (if entry.leases ≤ 0 then { s with assertionRaised := true }
  else s.setEntry e { entry with leases := entry.leases - 1 }).setPhase t request .finished

/-- One pass of `_close_all_pools` under the lock. -/
def closeAllPools (s : State δ) : State δ :=
  let entriesToClose := s.pools.filter s.idle
  if entriesToClose = [] then
    if s.pools = [] then { s with closePhase := .complete } else s
  else
    { s with
      entries := entriesToClose.foldl
        (fun entries p => entries.modify p.2 fun entry => { entry with closing := true }) s.entries
      closePhase := .closing entriesToClose false }

end State

/-- A step of a request or of the close task. -/
inductive TransportEvent (δ : Type*)
  /-- `post_json` calls `_pool_for` -/
  | called (destination : δ)
  | poolRequested (t : ℕ)
  /-- the request ends or is cancelled, times out or fails -/
  | interrupted (t : ℕ)
  /-- the request calls `aclose` of the pool it evicts -/
  | victimClosed (t : ℕ)
  /-- that call is over; the request was cancelled meanwhile, or the call raised, or neither -/
  | evictionEnded (t : ℕ) (raised : Bool)
  | released (t : ℕ)
  /-- `aclose` -/
  | closeRequested
  | closePassed
  /-- the close task calls `aclose` of the next pool -/
  | poolClosed
  /-- that call is over -/
  | poolForgotten
  /-- the close task is cancelled while it waits -/
  | closeAborted
  deriving DecidableEq

/-- What a step of the request `t` does, by where the request is. -/
def State.advance (maxDestinationPools : ℕ) (s : State δ) (t : ℕ) (request : TransportRequest δ) :
    TransportEvent δ → Option (State δ)
  | .poolRequested _ =>
    match request.phase with
    | .waiting => some (s.poolFor maxDestinationPools t request)
    | _ => none
  | .interrupted _ =>
    match request.phase with
    | .waiting => some (s.setPhase t request .finished)
    | .leased e => some (s.setPhase t request (.releasing e))
    | _ => none
  | .victimClosed _ =>
    match request.phase with
    | .evicting victim e false => some ((s.callClose e).setPhase t request (.evicting victim e true))
    | _ => none
  | .evictionEnded _ raised =>
    match request.phase with
    | .evicting victim e true =>
      some ((s.forget victim e).setPhase t request (if raised then .finished else .waiting))
    | _ => none
  | .released _ =>
    match request.phase with
    | .releasing e => (s.entries[e]?).map (s.releasePool t request e)
    | _ => none
  | _ => none

/-- The request that a step belongs to. -/
def TransportEvent.request : TransportEvent δ → Option ℕ
  | .poolRequested t | .interrupted t | .victimClosed t | .evictionEnded t _ | .released t => some t
  | _ => none

/-- What a step does that belongs to no request that runs. -/
def State.manage (s : State δ) : TransportEvent δ → Option (State δ)
  | .called destination => some { s with requests := s.requests ++ [⟨destination, .waiting⟩] }
  | .closeRequested =>
    some { s with
      closed := true
      closePhase := if s.closePhase = .idle then .scanning else s.closePhase }
  | .closePassed => if s.closePhase = .scanning then some s.closeAllPools else none
  | .poolClosed =>
    match s.closePhase with
    | .closing ((destination, e) :: rest) false =>
      some { s.callClose e with closePhase := .closing ((destination, e) :: rest) true }
    | _ => none
  | .poolForgotten =>
    match s.closePhase with
    | .closing ((destination, e) :: rest) true =>
      some { s.forget destination e with
        closePhase := if rest = [] then .scanning else .closing rest false }
    | _ => none
  | .closeAborted =>
    if s.closePhase = .scanning then some { s with closePhase := .complete } else none
  | _ => none

/-- One step of the transport. -/
def State.step (maxDestinationPools : ℕ) (s : State δ) (event : TransportEvent δ) :
    Option (State δ) :=
  match event.request with
  | some t => (s.requests[t]?).bind fun request => s.advance maxDestinationPools t request event
  | none => s.manage event

end VeloxRag.Transport
