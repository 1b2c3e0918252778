import VeloxRag.Lib.Runs

/-!
# The limits of the embedding gateway

`EmbeddingGateway` admits requests to a provider through a limit state that all requests to this
provider share: a queue, a number of requests at work, and a rate that is a bucket of tokens.  A
request takes a reference to the state, waits in the queue for its turn and a token, works, and then
gives back what it took, one thing after the other.

The gateway runs on one event loop, so what stands between two awaits is one step; between its steps
a request may be cancelled or may fail.  The wake-ups (`ticket.wake`, the conditions) only decide when
a waiting request looks again, and here it may look at any time.

## Main definitions

* `ProviderLimitState` — `_ProviderLimitState`; a ticket is named by the request that queued it.
* `refillExistingRate`, `refreshRate`, `reclaimDelay`, `refundRateLimit` — the rate.
* `Gateway` — the states that were ever made, the registry, the requests.
* `Gateway.step` — what each step of a request does.
-/

namespace VeloxRag.Embeddings

/-- `_EmbeddingOperationalControls`, as far as the limits read it. -/
structure OperationalControls where
  providerConfigId : ℕ
  maxConcurrency : ℕ
  requestsPerMinute : ℕ
  validConcurrency : 1 ≤ maxConcurrency ∧ maxConcurrency ≤ 10000
  validRate : 1 ≤ requestsPerMinute ∧ requestsPerMinute ≤ 1000000
  deriving DecidableEq

/-- `_ProviderLimitState`. -/
structure ProviderLimitState where
  queue : List ℕ
  rateTokens : Option ℚ
  rateUpdatedAt : Option ℚ
  rateCapacity : ℕ
  ratePerMinute : ℕ
  active : ℤ
  waiters : ℤ
  references : ℤ
  deriving DecidableEq

/-- A new state, held by the request that makes it. -/
def ProviderLimitState.fresh : ProviderLimitState where
  queue := []
  rateTokens := none
  rateUpdatedAt := none
  rateCapacity := 0
  ratePerMinute := 0
  active := 0
  waiters := 0
  references := 1

/-- `_RATE_WINDOW_SECONDS`. -/
def rateWindowSeconds : ℚ := 60

/-- `1e-9`. -/
def rateTolerance : ℚ := 1 / 10 ^ 9

/-- `_refill_existing_rate`. -/
def refillExistingRate (state : ProviderLimitState) (now : ℚ) : ProviderLimitState :=
  match state.rateTokens, state.rateUpdatedAt with
  | some tokens, some updatedAt =>
    let effectiveNow := max updatedAt now
    let elapsed := effectiveNow - updatedAt
    { state with
      rateTokens :=
        if 0 < elapsed ∧ 0 < state.ratePerMinute then
          some (min state.rateCapacity (tokens + elapsed * state.ratePerMinute / rateWindowSeconds))
        else some tokens
      rateUpdatedAt := some effectiveNow }
  | _, _ => state

/-- `_refresh_rate`. -/
def refreshRate (state : ProviderLimitState) (now : ℚ) (requestsPerMinute : ℕ) :
    ProviderLimitState :=
  let refreshed := match state.rateTokens with
    | none => { state with rateTokens := some requestsPerMinute, rateUpdatedAt := some now }
    | some _ =>
      let refilled := refillExistingRate state now
      { refilled with rateTokens := refilled.rateTokens.map (min · requestsPerMinute) }
  { refreshed with rateCapacity := requestsPerMinute, ratePerMinute := requestsPerMinute }

/-- Nobody refers to the state, works or waits. -/
def ProviderLimitState.Idle (state : ProviderLimitState) : Prop :=
  state.references = 0 ∧ state.active = 0 ∧ state.waiters = 0 ∧ state.queue = []

instance (state : ProviderLimitState) : Decidable state.Idle :=
  inferInstanceAs (Decidable (_ ∧ _))

/-- `_reclaim_delay`: the state is brought up to date, and when it may go. -/
def reclaimDelay (state : ProviderLimitState) (now : ℚ) : ProviderLimitState × Option ℚ :=
  if ¬state.Idle then (state, none)
  else
    match state.rateTokens with
    | none => (state, some 0)
    | some _ =>
      let refilled := refillExistingRate state now
      let missing := refilled.rateCapacity - refilled.rateTokens.getD 0
      (refilled,
        if missing ≤ rateTolerance then some 0
        else if refilled.ratePerMinute = 0 then none
        else some (missing * rateWindowSeconds / refilled.ratePerMinute))

/-- Where a request is. -/
inductive RequestPhase
  /-- before or in `_limit_state` -/
  | starting
  /-- holds a reference, has not queued -/
  | referenced (state : ℕ)
  /-- its ticket is in the queue -/
  | queued (state : ℕ)
  /-- cancelled or failed in `_admit`, its ticket is still to be removed -/
  | unadmitted (state : ℕ)
  /-- admitted; whether the provider was attempted -/
  | admitted (state : ℕ) (attempted : Bool)
  /-- ended without an attempt, its token is still to be refunded -/
  | refunding (state : ℕ)
  | releasingConcurrency (state : ℕ)
  | releasingReference (state : ℕ)
  | finished
  deriving DecidableEq

/-- `state_reference_acquired`, and the reference is not released yet. -/
def RequestPhase.holds (st : ℕ) : RequestPhase → Bool
  | .referenced s | .queued s | .unadmitted s | .admitted s _ | .refunding s
  | .releasingConcurrency s | .releasingReference s => s == st
  | .starting | .finished => false

/-- Its ticket is in the queue of the state. -/
def RequestPhase.waitsIn (st : ℕ) : RequestPhase → Bool
  | .queued s | .unadmitted s => s == st
  | _ => false

/-- Admitted, and the concurrency is not released yet. -/
def RequestPhase.worksIn (st : ℕ) : RequestPhase → Bool
  | .admitted s _ | .refunding s | .releasingConcurrency s => s == st
  | _ => false

/-- Admitted, but the provider was not attempted and the token was not refunded. -/
def RequestPhase.undecided : RequestPhase → Bool
  | .admitted _ attempted => !attempted
  | .refunding _ => true
  | _ => false

/-- One call of `_execute`. -/
structure EmbeddingRequest where
  controls : OperationalControls
  phase : RequestPhase
  deriving DecidableEq

/-- What the history tells. -/
inductive LimitAction
  | created
  | recreated
  | admitted
  | attempted
  | refunded
  deriving DecidableEq

structure LimitRecord where
  provider : ℕ
  action : LimitAction
  time : ℚ
  deriving DecidableEq

/-- `EmbeddingGateway`.  The states are all that were ever made, and the registry `limitStates` and
the requests name them by their place.  The readings of the clock, the history and whether an
`AssertionError` was raised are told for the theorems only. -/
structure Gateway where
  states : List ProviderLimitState
  limitStates : List (ℕ × ℕ)
  requests : List EmbeddingRequest
  readings : List ℚ
  history : List LimitRecord
  assertionRaised : Bool
  deriving DecidableEq

namespace Gateway

def init : Gateway := ⟨[], [], [], [], [], false⟩

/-- `self._limit_states.get(provider_config_id)`. -/
def limitState (g : Gateway) (provider : ℕ) : Option ℕ :=
  (g.limitStates.find? fun entry => entry.1 == provider).map Prod.snd

def setState (g : Gateway) (st : ℕ) (state : ProviderLimitState) : Gateway :=
  { g with states := g.states.set st state }

def setPhase (g : Gateway) (t : ℕ) (request : EmbeddingRequest) (phase : RequestPhase) : Gateway :=
  { g with requests := g.requests.set t { request with phase := phase } }

def read (g : Gateway) (now : ℚ) : Gateway := { g with readings := g.readings ++ [now] }

def tell (g : Gateway) (provider : ℕ) (action : LimitAction) (now : ℚ) : Gateway :=
  { g with history := g.history ++ [⟨provider, action, now⟩] }

/-- `raise AssertionError`: the clean-up goes on. -/
def raiseAssertion (g : Gateway) : Gateway := { g with assertionRaised := true }

/-- `_reclaim_delay` of each registered state in turn. -/
def reclaimDelays (g : Gateway) (now : ℚ) : Gateway :=
  { g with
    states := g.limitStates.foldl
      (fun states entry => states.modify entry.2 fun state => (reclaimDelay state now).1) g.states }

/-- The state of an entry may go. -/
def reclaimable (g : Gateway) (now : ℚ) (entry : ℕ × ℕ) : Bool :=
  match g.states[entry.2]? with
  | some state => (reclaimDelay state now).2 == some 0
  | none => false

/-- `_prune_reclaimable_states`. -/
def pruneReclaimableStates (g : Gateway) (now : ℚ) : Gateway :=
  { g.reclaimDelays now with
    limitStates := g.limitStates.filter fun entry => !g.reclaimable now entry }

/-- A new state is registered. -/
def createState (g : Gateway) (provider : ℕ) (now : ℚ) : Gateway :=
  let action := if g.history.any (fun r => r.provider == provider) then .recreated else .created
  { g.tell provider action now with
    states := g.states ++ [.fresh]
    limitStates := g.limitStates ++ [(provider, g.states.length)] }

/-- One pass of `_limit_state`; when the registry is full the request waits. -/
def acquireState (maxProviderStates : ℕ) (g : Gateway) (t : ℕ) (request : EmbeddingRequest)
    (now : ℚ) : Gateway :=
  let provider := request.controls.providerConfigId
  match g.limitState provider with
  | some st =>
    match g.states[st]? with
    | some state =>
      (g.setState st { state with references := state.references + 1 }).setPhase t request
        (.referenced st)
    | none => g
  | none =>
    let pruned := (g.read now).pruneReclaimableStates now
    if pruned.limitStates.length < maxProviderStates then
      (pruned.createState provider now).setPhase t request (.referenced pruned.states.length)
    else pruned.reclaimDelays now

/-- `_admit` queues the ticket. -/
def enqueue (g : Gateway) (t : ℕ) (request : EmbeddingRequest) (st : ℕ)
    (state : ProviderLimitState) : Gateway :=
  (g.setState st { state with queue := state.queue ++ [t], waiters := state.waiters + 1 }).setPhase
    t request (.queued st)

/-- One pass of the loop in `_admit`. -/
def tryAdmit (g : Gateway) (t : ℕ) (request : EmbeddingRequest) (st : ℕ)
    (state : ProviderLimitState) (now : ℚ) : Gateway :=
  if state.queue.head? = some t ∧ state.active < request.controls.maxConcurrency then
    let refreshed := refreshRate state now request.controls.requestsPerMinute
    let tokens := refreshed.rateTokens.getD 0
    if 1 ≤ tokens + rateTolerance then
      (((g.read now).setState st
        { refreshed with
          queue := refreshed.queue.tail
          waiters := refreshed.waiters - 1
          active := refreshed.active + 1
          rateTokens := some (max 0 (tokens - 1)) }).tell
            request.controls.providerConfigId .admitted now).setPhase t request (.admitted st false)
    else (g.read now).setState st refreshed
  else g

/-- `remove_unadmitted_ticket`. -/
def removeTicket (g : Gateway) (t : ℕ) (request : EmbeddingRequest) (st : ℕ)
    (state : ProviderLimitState) : Gateway :=
  (if t ∈ state.queue then
    g.setState st { state with queue := state.queue.erase t, waiters := state.waiters - 1 }
  else g).setPhase t request (.releasingReference st)

/-- `_refund_rate_limit`. -/
def refundRateLimit (g : Gateway) (t : ℕ) (request : EmbeddingRequest) (st : ℕ)
    (state : ProviderLimitState) (now : ℚ) : Gateway :=
  let refilled := refillExistingRate state now
  (match refilled.rateTokens with
  | some tokens =>
    if refilled.rateCapacity = 0 then ((g.read now).setState st refilled).raiseAssertion
    else
      ((g.read now).setState st
        { refilled with rateTokens := some (min refilled.rateCapacity (tokens + 1)) }).tell
          request.controls.providerConfigId .refunded now
  | none => ((g.read now).setState st refilled).raiseAssertion).setPhase t request
    (.releasingConcurrency st)

/-- `_release_concurrency`. -/
def releaseConcurrency (g : Gateway) (t : ℕ) (request : EmbeddingRequest) (st : ℕ)
    (state : ProviderLimitState) : Gateway :=
  (if state.active ≤ 0 then g.raiseAssertion
  else g.setState st { state with active := state.active - 1 }).setPhase t request
    (.releasingReference st)

/-- `_release_state_reference`. -/
def releaseStateReference (g : Gateway) (t : ℕ) (request : EmbeddingRequest) (st : ℕ)
    (state : ProviderLimitState) : Gateway :=
  (if state.references ≤ 0 then g.raiseAssertion
  else g.setState st { state with references := state.references - 1 }).setPhase t request .finished

end Gateway

/-- A step of one request; `now` is what the clock returns if the step reads it. -/
inductive GatewayEvent
  /-- `embed` or `probe_dimension` calls `_execute` -/
  | called (controls : OperationalControls)
  | stateRequested (t : ℕ) (now : ℚ)
  | enqueued (t : ℕ)
  | admissionTried (t : ℕ) (now : ℚ)
  /-- cancelled or failed at an await before the admission -/
  | abandoned (t : ℕ)
  | ticketRemoved (t : ℕ)
  /-- `mark_provider_attempted` -/
  | attemptStarted (t : ℕ) (now : ℚ)
  /-- the admitted request succeeded, failed or was cancelled -/
  | ended (t : ℕ)
  | refunded (t : ℕ) (now : ℚ)
  | concurrencyReleased (t : ℕ)
  | referenceReleased (t : ℕ)
  deriving DecidableEq

/-- What a step of the request `t` does, by where the request is. -/
def Gateway.advance (maxProviderStates : ℕ) (g : Gateway) (request : EmbeddingRequest) :
    GatewayEvent → Option Gateway
  | .called _ => none
  | .stateRequested t now =>
    match request.phase with
    | .starting => some (g.acquireState maxProviderStates t request now)
    | _ => none
  | .enqueued t =>
    match request.phase with
    | .referenced st => (g.states[st]?).map (g.enqueue t request st)
    | _ => none
  | .admissionTried t now =>
    match request.phase with
    | .queued st => (g.states[st]?).map fun state => g.tryAdmit t request st state now
    | _ => none
  | .abandoned t =>
    match request.phase with
    | .starting => some (g.setPhase t request .finished)
    | .referenced st => some (g.setPhase t request (.releasingReference st))
    | .queued st => some (g.setPhase t request (.unadmitted st))
    | _ => none
  | .ticketRemoved t =>
    match request.phase with
    | .unadmitted st => (g.states[st]?).map (g.removeTicket t request st)
    | _ => none
  | .attemptStarted t now =>
    match request.phase with
    | .admitted st false =>
      some (((g.read now).tell request.controls.providerConfigId .attempted now).setPhase t request
        (.admitted st true))
    | _ => none
  | .ended t =>
    match request.phase with
    | .admitted st true => some (g.setPhase t request (.releasingConcurrency st))
    | .admitted st false => some (g.setPhase t request (.refunding st))
    | _ => none
  | .refunded t now =>
    match request.phase with
    | .refunding st => (g.states[st]?).map fun state => g.refundRateLimit t request st state now
    | _ => none
  | .concurrencyReleased t =>
    match request.phase with
    | .releasingConcurrency st => (g.states[st]?).map (g.releaseConcurrency t request st)
    | _ => none
  | .referenceReleased t =>
    match request.phase with
    | .releasingReference st => (g.states[st]?).map (g.releaseStateReference t request st)
    | _ => none

/-- The request that a step belongs to. -/
def GatewayEvent.request : GatewayEvent → Option ℕ
  | .called _ => none
  | .stateRequested t _ | .enqueued t | .admissionTried t _ | .abandoned t | .ticketRemoved t
  | .attemptStarted t _ | .ended t | .refunded t _ | .concurrencyReleased t
  | .referenceReleased t => some t

/-- One step of the gateway. -/
def Gateway.step (maxProviderStates : ℕ) (g : Gateway) (event : GatewayEvent) : Option Gateway :=
  match event with
  | .called controls => some { g with requests := g.requests ++ [⟨controls, .starting⟩] }
  | event => do
    let t ← event.request
    let request ← g.requests[t]?
    g.advance maxProviderStates request event

end VeloxRag.Embeddings
