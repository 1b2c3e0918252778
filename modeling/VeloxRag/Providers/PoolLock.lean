import VeloxRag.Lib.EventLoop
import VeloxRag.Providers.Evictions

/-!
# The lock of the pool condition

An eviction marks an entry under the lock of the pool condition, closes its pool outside it, and
takes the lock again to remove the entry.  Here the tasks are followed from await to await, with the
acquisitions of the lock among them, and a cancellation may be delivered at each.  A request that is
cancelled while it is queued for the lock after it has closed the pool ends without removing the entry.

No section of the lock awaits anything but the condition, which gives the lock back first.  So nobody
is queued for it, and every eviction ends with the removal.

## Main definitions

* `Purpose`, `transportCode` — what the tasks of the transport do between their awaits.
* `Fits` — where a task is in its code, against its phase.
* `no_dead_slot` — who marks an entry is still there as long as the entry is registered.
-/

namespace VeloxRag.Transport

open Lib

/-- What a task does once it has the lock. -/
inductive Purpose
  /-- the body of `_pool_for`, of a pass of `_close_all_pools` or of `aclose` -/
  | pass
  /-- `Condition.wait` has the lock again, and returns or raises -/
  | woken (cancelled : Bool)
  /-- the entry is removed; the eviction was cancelled or the close raised, or neither -/
  | removal (raised : Bool)
  /-- `_release_pool` -/
  | release
  /-- the end of `_run_close_cleanup` -/
  | final
  deriving DecidableEq, Repr

variable {δ : Type*} {maxDestinationPools : ℕ} {s s' : State δ} {t : ℕ} {r : TransportRequest δ}

/-- The step moves the request `t` and no other, and leaves the close task where it is. -/
structure OnlyRequest (t : ℕ) (s s' : State δ) : Prop where
  others : ∀ t', t' ≠ t → s'.requests[t']? = s.requests[t']?
  closePhase : s'.closePhase = s.closePhase

theorem OnlyRequest.trans {s'' : State δ} (h : OnlyRequest t s s') (h' : OnlyRequest t s' s'') :
    OnlyRequest t s s'' where
  others t' hne := (h'.others t' hne).trans (h.others t' hne)
  closePhase := h'.closePhase.trans h.closePhase

theorem OnlyRequest.refl (t : ℕ) (s : State δ) : OnlyRequest t s s := ⟨fun _ _ => rfl, rfl⟩

theorem OnlyRequest.of_set {r' : TransportRequest δ} (hrequests : s'.requests = s.requests.set t r')
    (hclose : s'.closePhase = s.closePhase) : OnlyRequest t s s' where
  others t' hne := by
    rw [hrequests, List.getElem?_set_ne (Ne.symm hne)]
  closePhase := hclose

variable [DecidableEq δ]

section Code

variable (maxDestinationPools)

/-- The sections of a request. -/
def requestPass (t : ℕ) (s : State δ) : Purpose → Option (State δ × After Purpose)
  | .pass => do
      let s₁ ← s.step maxDestinationPools (.poolRequested t)
      match (← s₁.requests[t]?).phase with
      | .evicting _ _ _ => do
          -- `aclose` of the evicted pool is called on the way to the next await.
          let s₂ ← s₁.step maxDestinationPools (.victimClosed t)
          pure (s₂, .await false)
      | .finished => pure (s₁, .done)
      | _ => pure (s₁, .await false)
  | .woken false => some (s, .acquire .pass)
  | .woken true => (s.step maxDestinationPools (.interrupted t)).map (·, .done)
  | .removal raised =>
      (s.step maxDestinationPools (.evictionEnded t raised)).map
        (·, if raised then .done else .acquire .pass)
  | .release => (s.step maxDestinationPools (.released t)).map (·, .done)
  | .final => none

/-- The close task goes on to the next pool, or to the next pass. -/
def closeNext (s : State δ) (otherwise : After Purpose) : Option (State δ × After Purpose) :=
  match s.closePhase with
  | .closing _ _ => (s.step maxDestinationPools .poolClosed).map (·, .await false)
  | _ => some (s, otherwise)

/-- The sections of the close task. -/
def closePass (s : State δ) : Purpose → Option (State δ × After Purpose)
  | .pass => do
      let s₁ ← s.step maxDestinationPools .closePassed
      closeNext maxDestinationPools s₁ (.await false)
  | .woken false => some (s, .acquire .pass)
  | .woken true => (s.step maxDestinationPools .closeAborted).map (·, .await false)
  | .removal _ => do
      let s₁ ← s.step maxDestinationPools .poolForgotten
      closeNext maxDestinationPools s₁ (.acquire .pass)
  | .release => none
  | .final => some (s, .done)

/-- An await of a request ends. -/
def requestResume (t : ℕ) (reason : Reason) (cancelled : Bool) (s : State δ) :
    Option (State δ × After Purpose) := do
  match (← s.requests[t]?).phase, reason with
  | .waiting, .returned => some (s, .acquire (.woken false))
  | .waiting, .cancelled => some (s, .acquire (.woken true))
  -- `_finish_cleanup` swallows cancellations until the pool is closed.
  | .evicting _ _ true, .cancelled => some (s, .await true)
  | .evicting _ _ true, .returned => some (s, .acquire (.removal cancelled))
  | .evicting _ _ true, .raised => some (s, .acquire (.removal true))
  | .leased _, _ => (s.step maxDestinationPools (.interrupted t)).map (·, .await false)
  -- `_release_pool` runs in a task of its own, which nobody cancels.
  | .releasing _, .returned => some (s, .acquire .release)
  | .releasing _, .cancelled => some (s, .await true)
  | _, _ => none

/-- An await of the close task ends; after its last pass it closes the DNS executor. -/
def closeResume (reason : Reason) (s : State δ) : Option (State δ × After Purpose) :=
  match s.closePhase, reason with
  | .scanning, .returned => some (s, .acquire (.woken false))
  | .scanning, .cancelled => some (s, .acquire (.woken true))
  | .closing _ true, .cancelled => some (s, .await true)
  | .closing _ true, _ => some (s, .acquire (.removal false))
  | .complete, _ => some (s, .acquire .final)
  | _, _ => none

/-- The tasks of the transport. -/
def transportCode : Code TaskId (Option δ) Purpose (State δ) where
  spawn
    | .request t, some destination, s =>
        if t = s.requests.length then s.step maxDestinationPools (.called destination) else none
    | .close, _, s => if s.closePhase = .scanning then some s else none
    | .caller _, _, s => some s
    | _, _, _ => none
  start
    | .request t, .cancelled, s => (s.step maxDestinationPools (.interrupted t)).map (·, .done)
    | .close, .cancelled, s => (s.step maxDestinationPools .closeAborted).map (·, .done)
    | .caller _, .cancelled, s => some (s, .done)
    | _, .returned, s => some (s, .acquire .pass)
    | _, .raised, _ => none
  pass
    | .request t, p, s => requestPass maxDestinationPools t s p
    | .close, p, s => closePass maxDestinationPools s p
    | .caller _, .pass, s => (s.step maxDestinationPools .closeRequested).map (·, .await false)
    | .caller _, _, _ => none
  resume
    | .request t, reason, cancelled, s => requestResume maxDestinationPools t reason cancelled s
    | .close, reason, _, s => closeResume reason s
    | .caller _, _, _, s => some (s, .done)
  cancelQueued
    | .request t, .pass, s => (s.step maxDestinationPools (.interrupted t)).map (·, .done)
    | .close, .pass, s => (s.step maxDestinationPools .closeAborted).map (·, .await false)
    -- `Condition.wait` takes the lock again before it raises.
    | .request _, .woken _, s | .close, .woken _, s => some (s, .acquire (.woken true))
    -- The entry stays in the registry.
    | .request _, .removal _, s | .close, .removal _, s => some (s, .done)
    | .close, .final, s | .caller _, .pass, s => some (s, .done)
    | _, _, _ => none

end Code

/-! ## Where the tasks are -/

/-- The section that a task is at, or is in, fits the phase of its request. -/
def Purpose.fitsRequest : Purpose → RequestPhase δ → Bool
  | .pass, .waiting | .woken _, .waiting => true
  | .removal _, .evicting _ _ true => true
  | .release, .releasing _ => true
  | _, _ => false

/-- The control of a request fits its phase. -/
def fitsRequest : Control Purpose → RequestPhase δ → Bool
  | .ready, .waiting => true
  | .acquiring p, phase | .holding p, phase => p.fitsRequest phase
  | .suspended _, .waiting | .suspended _, .evicting _ _ true => true
  | .suspended _, .leased _ | .suspended _, .releasing _ => true
  | .ended, .finished => true
  | _, _ => false

def Purpose.fitsClose : Purpose → ClosePhase δ → Bool
  | .pass, .scanning | .woken _, .scanning => true
  | .removal _, .closing _ true => true
  | .final, .complete => true
  | _, _ => false

/-- The control of the close task fits the phase of closing. -/
def fitsClose : Control Purpose → ClosePhase δ → Bool
  | .ready, .scanning => true
  | .acquiring p, phase | .holding p, phase => p.fitsClose phase
  | .suspended _, .scanning | .suspended _, .closing _ true | .suspended _, .complete => true
  | .ended, .complete => true
  | _, _ => false

/-- Every request has its task, and the close task has the phase of closing. -/
structure Fits (l : EventLoop TaskId Purpose (State δ)) : Prop where
  request : ∀ t r, l.shared.requests[t]? = some r →
    ∃ c, l.control (.request t) = some c ∧ fitsRequest c r.phase = true
  known : ∀ t c, l.control (.request t) = some c → ∃ r, l.shared.requests[t]? = some r
  close : (l.control .close = none ∧ (l.shared.closePhase = .idle ∨ l.shared.closePhase = .scanning))
    ∨ ∃ c, l.control .close = some c ∧ fitsClose c l.shared.closePhase = true

theorem onlyRequest_poolFor (s : State δ) (t : ℕ) (r : TransportRequest δ) :
    OnlyRequest t s (s.poolFor maxDestinationPools t r) := by
  have hserved := served_poolFor maxDestinationPools s t r
  generalize s.poolFor maxDestinationPools t r = s' at hserved
  cases hserved with
  | refused => exact .of_set rfl rfl
  | granted => exact .of_set rfl rfl
  | created => exact .of_set rfl rfl
  | evicts => exact .of_set rfl rfl
  | waits => exact .refl t s

theorem forget_frame (s : State δ) (v : δ) (e : ℕ) :
    (s.forget v e).requests = s.requests ∧ (s.forget v e).closePhase = s.closePhase := by
  rw [State.forget]
  split <;> exact ⟨rfl, rfl⟩

theorem onlyRequest_forget (v : δ) (e : ℕ) (phase : RequestPhase δ) :
    OnlyRequest t s ((s.forget v e).setPhase t r phase) where
  others t' hne := by
    rw [State.setPhase, List.getElem?_set_ne (Ne.symm hne), (forget_frame s v e).1]
  closePhase := (forget_frame s v e).2

/-- A step of a request moves only that request. -/
theorem onlyRequest_of_step {event : TransportEvent δ} (hevent : event.request = some t)
    (h : s.step maxDestinationPools event = some s') : OnlyRequest t s s' := by
  rw [State.step, hevent] at h
  obtain ⟨r, -, h⟩ := Option.bind_eq_some_iff.mp h
  simp only [State.advance] at h
  split at h
  · split at h
    · cases h
      exact onlyRequest_poolFor s t r
    · cases h
  · split at h
    · cases h
      exact .of_set rfl rfl
    · cases h
      exact .of_set rfl rfl
    · cases h
  · split at h
    · cases h
      exact .of_set rfl rfl
    · cases h
  · split at h
    · cases h
      exact onlyRequest_forget _ _ _
    · cases h
  · split at h
    · obtain ⟨entry, -, rfl⟩ := Option.map_eq_some_iff.mp h
      rw [State.releasePool]
      split
      · exact .of_set rfl rfl
      · exact .of_set rfl rfl
    · cases h
  · cases h

/-! ## The phases after a step -/

theorem interrupted_waiting (ht : s.requests[t]? = some r) (hphase : r.phase = .waiting)
    (h : s.step maxDestinationPools (.interrupted t) = some s') :
    ∃ r', s'.requests[t]? = some r' ∧ r'.phase = .finished := by
  simp only [State.step, TransportEvent.request, ht, Option.bind_some, State.advance, hphase] at h
  cases h
  exact ⟨_, getElem?_set_same ht, rfl⟩

theorem interrupted_leased {e : ℕ} (ht : s.requests[t]? = some r) (hphase : r.phase = .leased e)
    (h : s.step maxDestinationPools (.interrupted t) = some s') :
    ∃ r', s'.requests[t]? = some r' ∧ r'.phase = .releasing e := by
  simp only [State.step, TransportEvent.request, ht, Option.bind_some, State.advance, hphase] at h
  cases h
  exact ⟨_, getElem?_set_same ht, rfl⟩

theorem victimClosed_evicting {v : δ} {e : ℕ} {called : Bool} (ht : s.requests[t]? = some r)
    (hphase : r.phase = .evicting v e called)
    (h : s.step maxDestinationPools (.victimClosed t) = some s') :
    ∃ r', s'.requests[t]? = some r' ∧ r'.phase = .evicting v e true := by
  cases called with
  | true =>
      simp only [State.step, TransportEvent.request, ht, Option.bind_some, State.advance, hphase] at h
      cases h
  | false =>
      simp only [State.step, TransportEvent.request, ht, Option.bind_some, State.advance, hphase] at h
      cases h
      exact ⟨_, getElem?_set_same ht, rfl⟩

theorem evictionEnded_evicting {v : δ} {e : ℕ} {raised : Bool} (ht : s.requests[t]? = some r)
    (hphase : r.phase = .evicting v e true)
    (h : s.step maxDestinationPools (.evictionEnded t raised) = some s') :
    ∃ r', s'.requests[t]? = some r' ∧ r'.phase = if raised then .finished else .waiting := by
  simp only [State.step, TransportEvent.request, ht, Option.bind_some, State.advance, hphase] at h
  cases h
  have hr : (s.forget v e).requests[t]? = some r := by
    rw [(forget_frame s v e).1]
    exact ht
  exact ⟨{ r with phase := if raised then .finished else .waiting }, getElem?_set_same hr, rfl⟩

theorem released_releasing {e : ℕ} (ht : s.requests[t]? = some r) (hphase : r.phase = .releasing e)
    (h : s.step maxDestinationPools (.released t) = some s') :
    ∃ r', s'.requests[t]? = some r' ∧ r'.phase = .finished := by
  simp only [State.step, TransportEvent.request, ht, Option.bind_some, State.advance, hphase] at h
  obtain ⟨entry, -, rfl⟩ := Option.map_eq_some_iff.mp h
  rw [State.releasePool]
  split
  · exact ⟨_, getElem?_set_same ht, rfl⟩
  · exact ⟨_, getElem?_set_same ht, rfl⟩

/-- A pass of `_pool_for` leaves a request waiting, grants a lease, evicts or ends. -/
theorem poolRequested_waiting (ht : s.requests[t]? = some r) (hphase : r.phase = .waiting)
    (h : s.step maxDestinationPools (.poolRequested t) = some s') :
    ∃ r', s'.requests[t]? = some r' ∧ (r'.phase = .waiting ∨ (∃ e, r'.phase = .leased e)
      ∨ (∃ v e, r'.phase = .evicting v e false) ∨ r'.phase = .finished) := by
  simp only [State.step, TransportEvent.request, ht, Option.bind_some, State.advance, hphase] at h
  have hserved := served_poolFor maxDestinationPools s t r
  rw [Option.some.inj h] at hserved
  cases hserved with
  | refused => exact ⟨_, getElem?_set_same ht, .inr (.inr (.inr rfl))⟩
  | granted => exact ⟨_, getElem?_set_same ht, .inr (.inl ⟨_, rfl⟩)⟩
  | created => exact ⟨_, getElem?_set_same ht, .inr (.inl ⟨_, rfl⟩)⟩
  | evicts => exact ⟨_, getElem?_set_same ht, .inr (.inr (.inl ⟨_, _, rfl⟩))⟩
  | waits => exact ⟨r, ht, .inl hphase⟩

/-! ## Turns -/

/-- What a turn of a request does: whole steps of the transport that move only that request, and the
task is where its phase has it. -/
structure RequestTurn (maxDestinationPools t : ℕ) (s : State δ) (next : State δ × After Purpose) :
    Prop where
  reaches : Reaches (State.step maxDestinationPools) s next.1
  only : OnlyRequest t s next.1
  fits : ∃ r', next.1.requests[t]? = some r' ∧ fitsRequest next.2.control r'.phase = true

theorem RequestTurn.stay {after : After Purpose} (ht : s.requests[t]? = some r)
    (hfits : fitsRequest after.control r.phase = true) :
    RequestTurn maxDestinationPools t s (s, after) :=
  ⟨.refl s, .refl t s, r, ht, hfits⟩

theorem RequestTurn.of_step {event : TransportEvent δ} {after : After Purpose}
    (h : s.step maxDestinationPools event = some s') (hevent : event.request = some t)
    (hfits : ∃ r', s'.requests[t]? = some r' ∧ fitsRequest after.control r'.phase = true) :
    RequestTurn maxDestinationPools t s (s', after) :=
  ⟨(Reaches.refl s).tail h, onlyRequest_of_step hevent h, hfits⟩

theorem requestTurn_pass {p : Purpose} {next : State δ × After Purpose}
    (ht : s.requests[t]? = some r) (hfits : p.fitsRequest r.phase = true)
    (h : requestPass maxDestinationPools t s p = some next) :
    RequestTurn maxDestinationPools t s next := by
  cases p with
  | pass =>
      have hwaiting : r.phase = .waiting := by
        cases hphase : r.phase <;> simp_all [Purpose.fitsRequest]
      obtain ⟨s₁, hstep, h⟩ := Option.bind_eq_some_iff.mp h
      obtain ⟨r₁, hr₁, h⟩ := Option.bind_eq_some_iff.mp h
      obtain ⟨r', hr', hcases⟩ := poolRequested_waiting ht hwaiting hstep
      cases hr'.symm.trans hr₁
      rcases hcases with hphase | ⟨e, hphase⟩ | ⟨v, e, hphase⟩ | hphase
      · rw [hphase] at h
        cases h
        exact .of_step hstep rfl ⟨_, hr', by rw [hphase]; rfl⟩
      · rw [hphase] at h
        cases h
        exact .of_step hstep rfl ⟨_, hr', by rw [hphase]; rfl⟩
      · rw [hphase] at h
        obtain ⟨s₂, hclosed, h⟩ := Option.bind_eq_some_iff.mp h
        cases h
        obtain ⟨r₂, hr₂, hphase₂⟩ := victimClosed_evicting hr' hphase hclosed
        refine ⟨((Reaches.refl s).tail hstep).tail hclosed,
          (onlyRequest_of_step rfl hstep).trans (onlyRequest_of_step rfl hclosed), r₂, hr₂, ?_⟩
        rw [hphase₂]
        rfl
      · rw [hphase] at h
        cases h
        exact .of_step hstep rfl ⟨_, hr', by rw [hphase]; rfl⟩
  | woken cancelled =>
      have hwaiting : r.phase = .waiting := by
        cases hphase : r.phase <;> simp_all [Purpose.fitsRequest]
      cases cancelled with
      | false =>
          cases h
          exact .stay ht (by rw [hwaiting]; rfl)
      | true =>
          obtain ⟨s₁, hstep, rfl⟩ := Option.map_eq_some_iff.mp h
          obtain ⟨r', hr', hphase⟩ := interrupted_waiting ht hwaiting hstep
          exact .of_step hstep rfl ⟨r', hr', by rw [hphase]; rfl⟩
  | removal raised =>
      obtain ⟨v, e, hevicting⟩ : ∃ v e, r.phase = .evicting v e true := by
        cases hphase : r.phase with
        | evicting v e called =>
            cases called with
            | true => exact ⟨v, e, rfl⟩
            | false =>
                rw [hphase] at hfits
                cases hfits
        | _ =>
            rw [hphase] at hfits
            cases hfits
      obtain ⟨s₁, hstep, rfl⟩ := Option.map_eq_some_iff.mp h
      obtain ⟨r', hr', hphase⟩ := evictionEnded_evicting ht hevicting hstep
      refine .of_step hstep rfl ⟨r', hr', ?_⟩
      rw [hphase]
      cases raised <;> rfl
  | release =>
      obtain ⟨e, hreleasing⟩ : ∃ e, r.phase = .releasing e := by
        cases hphase : r.phase with
        | releasing e => exact ⟨e, rfl⟩
        | _ =>
            rw [hphase] at hfits
            cases hfits
      obtain ⟨s₁, hstep, rfl⟩ := Option.map_eq_some_iff.mp h
      obtain ⟨r', hr', hphase⟩ := released_releasing ht hreleasing hstep
      exact .of_step hstep rfl ⟨r', hr', by rw [hphase]; rfl⟩
  | final => cases h

theorem requestTurn_resume {reason : Reason} {cancelled : Bool} {next : State δ × After Purpose}
    (ht : s.requests[t]? = some r)
    (h : requestResume maxDestinationPools t reason cancelled s = some next) :
    RequestTurn maxDestinationPools t s next := by
  replace h := Option.bind_eq_some_iff.mp h
  obtain ⟨r₀, hr₀, h⟩ := h
  cases ht.symm.trans hr₀
  split at h
  · rename_i hphase
    cases h
    exact .stay ht (by rw [hphase]; rfl)
  · rename_i hphase
    cases h
    exact .stay ht (by rw [hphase]; rfl)
  · rename_i hphase
    cases h
    exact .stay ht (by rw [hphase]; rfl)
  · rename_i hphase
    cases h
    exact .stay ht (by rw [hphase]; rfl)
  · rename_i hphase
    cases h
    exact .stay ht (by rw [hphase]; rfl)
  · rename_i hphase
    obtain ⟨s₁, hstep, rfl⟩ := Option.map_eq_some_iff.mp h
    obtain ⟨r', hr', hphase'⟩ := interrupted_leased ht hphase hstep
    exact .of_step hstep rfl ⟨r', hr', by rw [hphase']; rfl⟩
  · rename_i hphase
    cases h
    exact .stay ht (by rw [hphase]; rfl)
  · rename_i hphase
    cases h
    exact .stay ht (by rw [hphase]; rfl)
  · cases h

theorem requestTurn_start {reason : Reason} {next : State δ × After Purpose}
    (ht : s.requests[t]? = some r) (hphase : r.phase = .waiting)
    (h : (transportCode maxDestinationPools).start (.request t) reason s = some next) :
    RequestTurn maxDestinationPools t s next := by
  cases reason with
  | returned =>
      cases h
      exact .stay ht (by rw [hphase]; rfl)
  | raised => cases h
  | cancelled =>
      obtain ⟨s₁, hstep, rfl⟩ := Option.map_eq_some_iff.mp h
      obtain ⟨r', hr', hphase'⟩ := interrupted_waiting ht hphase hstep
      exact .of_step hstep rfl ⟨r', hr', by rw [hphase']; rfl⟩

/-- What a turn of the close task does: whole steps of the transport that move no request. -/
structure CloseTurn (maxDestinationPools : ℕ) (s : State δ) (next : State δ × After Purpose) :
    Prop where
  reaches : Reaches (State.step maxDestinationPools) s next.1
  requests : next.1.requests = s.requests
  fits : fitsClose next.2.control next.1.closePhase = true

theorem CloseTurn.stay {after : After Purpose} (hfits : fitsClose after.control s.closePhase = true) :
    CloseTurn maxDestinationPools s (s, after) :=
  ⟨.refl s, rfl, hfits⟩

theorem closeAborted_scanning (h : s.step maxDestinationPools .closeAborted = some s') :
    s'.requests = s.requests ∧ s'.closePhase = .complete := by
  simp only [State.step, TransportEvent.request, State.manage] at h
  split at h
  · cases h
    exact ⟨rfl, rfl⟩
  · cases h

/-- After its section the close task closes the next pool, or what it does fits. -/
theorem closeTurn_next {s₀ : State δ} {otherwise : After Purpose} {next : State δ × After Purpose}
    (hreaches : Reaches (State.step maxDestinationPools) s₀ s) (hrequests : s.requests = s₀.requests)
    (hfits : (∃ rest called, s.closePhase = .closing rest called)
      ∨ fitsClose otherwise.control s.closePhase = true)
    (h : closeNext maxDestinationPools s otherwise = some next) :
    CloseTurn maxDestinationPools s₀ next := by
  rw [closeNext] at h
  split at h
  · obtain ⟨s₁, hstep, rfl⟩ := Option.map_eq_some_iff.mp h
    refine ⟨hreaches.tail hstep, ?_, ?_⟩
    · simp only [State.step, TransportEvent.request, State.manage] at hstep
      split at hstep
      · cases hstep
        exact hrequests
      · cases hstep
    · simp only [State.step, TransportEvent.request, State.manage] at hstep
      split at hstep
      · cases hstep
        rfl
      · cases hstep
  · rename_i hnot
    cases h
    refine ⟨hreaches, hrequests, ?_⟩
    rcases hfits with ⟨rest, called, hclosing⟩ | hfits
    · exact absurd hclosing (hnot rest called)
    · exact hfits

theorem closePassed_scanning (h : s.step maxDestinationPools .closePassed = some s') :
    s'.requests = s.requests ∧ ((∃ rest called, s'.closePhase = .closing rest called)
      ∨ s'.closePhase = .scanning ∨ s'.closePhase = .complete) := by
  simp only [State.step, TransportEvent.request, State.manage] at h
  split at h
  · rename_i hscanning
    cases h
    simp only [State.closeAllPools]
    split
    · split
      · exact ⟨rfl, .inr (.inr rfl)⟩
      · exact ⟨rfl, .inr (.inl hscanning)⟩
    · exact ⟨rfl, .inl ⟨_, _, rfl⟩⟩
  · cases h

theorem poolForgotten_closing (h : s.step maxDestinationPools .poolForgotten = some s') :
    s'.requests = s.requests ∧ ((∃ rest called, s'.closePhase = .closing rest called)
      ∨ s'.closePhase = .scanning) := by
  simp only [State.step, TransportEvent.request, State.manage] at h
  split at h
  · rename_i destination e rest hclosing
    cases h
    refine ⟨(forget_frame s destination e).1, ?_⟩
    dsimp only
    split
    · exact .inr rfl
    · exact .inl ⟨_, _, rfl⟩
  · cases h

theorem closeTurn_pass {p : Purpose} {next : State δ × After Purpose}
    (hfits : p.fitsClose s.closePhase = true) (h : closePass maxDestinationPools s p = some next) :
    CloseTurn maxDestinationPools s next := by
  cases p with
  | pass =>
      obtain ⟨s₁, hstep, h⟩ := Option.bind_eq_some_iff.mp h
      obtain ⟨hrequests, hcases⟩ := closePassed_scanning hstep
      refine closeTurn_next ((Reaches.refl s).tail hstep) hrequests ?_ h
      rcases hcases with hclosing | hscanning | hcomplete
      · exact .inl hclosing
      · exact .inr (by rw [hscanning]; rfl)
      · exact .inr (by rw [hcomplete]; rfl)
  | woken cancelled =>
      cases cancelled with
      | false =>
          cases h
          apply CloseTurn.stay
          cases hphase : s.closePhase <;> simp_all [Purpose.fitsClose, After.control, fitsClose]
      | true =>
          obtain ⟨s₁, hstep, rfl⟩ := Option.map_eq_some_iff.mp h
          obtain ⟨hrequests, hcomplete⟩ := closeAborted_scanning hstep
          exact ⟨(Reaches.refl s).tail hstep, hrequests, by rw [hcomplete]; rfl⟩
  | removal raised =>
      obtain ⟨s₁, hstep, h⟩ := Option.bind_eq_some_iff.mp h
      obtain ⟨hrequests, hcases⟩ := poolForgotten_closing hstep
      refine closeTurn_next ((Reaches.refl s).tail hstep) hrequests ?_ h
      rcases hcases with hclosing | hscanning
      · exact .inl hclosing
      · exact .inr (by rw [hscanning]; rfl)
  | release => cases h
  | final =>
      cases h
      apply CloseTurn.stay
      cases hphase : s.closePhase <;> simp_all [Purpose.fitsClose, After.control, fitsClose]

theorem closeTurn_resume {reason : Reason} {next : State δ × After Purpose}
    (h : closeResume reason s = some next) : CloseTurn maxDestinationPools s next := by
  unfold closeResume at h
  cases hphase : s.closePhase with
  | idle =>
      rw [hphase] at h
      cases reason <;> cases h
  | scanning =>
      rw [hphase] at h
      cases reason with
      | returned =>
          cases h
          exact .stay (by rw [hphase]; rfl)
      | raised => cases h
      | cancelled =>
          cases h
          exact .stay (by rw [hphase]; rfl)
  | closing rest called =>
      rw [hphase] at h
      cases called with
      | false => cases reason <;> cases h
      | true =>
          cases reason <;> cases h <;> exact .stay (by rw [hphase]; rfl)
  | complete =>
      rw [hphase] at h
      cases reason <;> cases h <;> exact .stay (by rw [hphase]; rfl)

/-! ## The invariant -/

/-- After a turn of a request. -/
theorem Fits.request_turn {l : EventLoop TaskId Purpose (State δ)} {next : State δ × After Purpose}
    (h : Fits l) (hturn : RequestTurn maxDestinationPools t l.shared next) :
    Fits (l.goOn (.request t) next) := by
  have hcontrol : ∀ id, (l.goOn (.request t) next).control id =
      if id = .request t then some next.2.control else l.control id :=
    EventLoop.control_setControl
  constructor
  · intro t' r hr
    rw [hcontrol]
    by_cases hsame : t' = t
    · subst hsame
      rw [if_pos rfl]
      obtain ⟨r', hr', hfits⟩ := hturn.fits
      cases hr'.symm.trans hr
      exact ⟨_, rfl, hfits⟩
    · rw [if_neg fun heq => hsame (TaskId.request.inj heq)]
      exact h.request t' r ((hturn.only.others t' hsame).symm.trans hr)
  · intro t' c hc
    by_cases hsame : t' = t
    · subst hsame
      obtain ⟨r', hr', -⟩ := hturn.fits
      exact ⟨r', hr'⟩
    · rw [hcontrol, if_neg fun heq => hsame (TaskId.request.inj heq)] at hc
      obtain ⟨r, hr⟩ := h.known t' c hc
      exact ⟨r, (hturn.only.others t' hsame).trans hr⟩
  · rw [hcontrol, if_neg nofun]
    have hphase : (l.goOn (.request t) next).shared.closePhase = l.shared.closePhase :=
      hturn.only.closePhase
    rw [hphase]
    exact h.close

/-- After a turn of the close task. -/
theorem Fits.close_turn {l : EventLoop TaskId Purpose (State δ)} {next : State δ × After Purpose}
    (h : Fits l) (hturn : CloseTurn maxDestinationPools l.shared next) :
    Fits (l.goOn .close next) := by
  have hcontrol : ∀ id, (l.goOn .close next).control id =
      if id = .close then some next.2.control else l.control id :=
    EventLoop.control_setControl
  constructor
  · intro t r hr
    rw [hcontrol, if_neg nofun]
    exact h.request t r (hturn.requests ▸ hr)
  · intro t c hc
    rw [hcontrol, if_neg nofun] at hc
    obtain ⟨r, hr⟩ := h.known t c hc
    exact ⟨r, hturn.requests.symm ▸ hr⟩
  · exact .inr ⟨_, (hcontrol _).trans (if_pos rfl), hturn.fits⟩

omit [DecidableEq δ] in
/-- After a turn of a caller, which may start the close task. -/
theorem Fits.caller_turn {l : EventLoop TaskId Purpose (State δ)} {next : State δ × After Purpose}
    {n : ℕ} (h : Fits l) (hrequests : next.1.requests = l.shared.requests)
    (hclose : next.1.closePhase = l.shared.closePhase
      ∨ l.shared.closePhase = .idle ∧ next.1.closePhase = .scanning) :
    Fits (l.goOn (.caller n) next) := by
  have hcontrol : ∀ id, (l.goOn (.caller n) next).control id =
      if id = .caller n then some next.2.control else l.control id :=
    EventLoop.control_setControl
  constructor
  · intro t r hr
    rw [hcontrol, if_neg nofun]
    exact h.request t r (hrequests ▸ hr)
  · intro t c hc
    rw [hcontrol, if_neg nofun] at hc
    obtain ⟨r, hr⟩ := h.known t c hc
    exact ⟨r, hrequests.symm ▸ hr⟩
  · rw [hcontrol, if_neg nofun]
    have hphase : (l.goOn (.caller n) next).shared.closePhase = next.1.closePhase := rfl
    rw [hphase]
    rcases hclose with hsame | ⟨hidle, hscanning⟩
    · rw [hsame]
      exact h.close
    · rcases h.close with ⟨hnone, -⟩ | ⟨c, -, hfits⟩
      · exact .inl ⟨hnone, .inr hscanning⟩
      · rw [hidle] at hfits
        cases c with
        | acquiring p => cases p <;> cases hfits
        | holding p => cases p <;> cases hfits
        | _ => cases hfits

omit [DecidableEq δ] in
/-- Taking and giving back the lock moves no task. -/
theorem Fits.setLocked {l : EventLoop TaskId Purpose (State δ)} (h : Fits l) (locked : Bool) :
    Fits { l with locked := locked } :=
  ⟨h.request, h.known, h.close⟩

omit [DecidableEq δ] in
/-- A request is called. -/
theorem Fits.called {l : EventLoop TaskId Purpose (State δ)} (h : Fits l) (destination : δ) :
    Fits { l.setControl (.request l.shared.requests.length) .ready with
      shared := { l.shared with requests := l.shared.requests ++ [⟨destination, .waiting⟩] } } := by
  have hcontrol : ∀ id, (l.setControl (.request l.shared.requests.length) .ready).control id =
      if id = .request l.shared.requests.length then some .ready else l.control id :=
    EventLoop.control_setControl
  constructor
  · intro t r hr
    rw [hcontrol]
    rcases getElem?_append_singleton_cases hr with ⟨rfl, rfl⟩ | hr
    · exact ⟨.ready, if_pos rfl, rfl⟩
    · obtain ⟨hlt, -⟩ := List.getElem?_eq_some_iff.mp hr
      rw [if_neg fun heq => hlt.ne (TaskId.request.inj heq)]
      exact h.request t r hr
  · intro t c hc
    rw [hcontrol] at hc
    split at hc
    · rename_i heq
      cases TaskId.request.inj heq
      exact ⟨_, List.getElem?_concat_length⟩
    · obtain ⟨r, hr⟩ := h.known t c hc
      obtain ⟨hlt, -⟩ := List.getElem?_eq_some_iff.mp hr
      exact ⟨r, (List.getElem?_append_left hlt).trans hr⟩
  · rw [hcontrol, if_neg nofun]
    exact h.close

omit [DecidableEq δ] in
/-- A task that belongs to no request is created, or a task takes the lock. -/
theorem Fits.setControl {l : EventLoop TaskId Purpose (State δ)} {id : TaskId} {c : Control Purpose}
    (h : Fits l)
    (hrequest : ∀ t r, id = .request t → l.shared.requests[t]? = some r → fitsRequest c r.phase = true)
    (hknown : ∀ t, id = .request t → ∃ r, l.shared.requests[t]? = some r)
    (hclose : id = .close → fitsClose c l.shared.closePhase = true) : Fits (l.setControl id c) := by
  constructor
  · intro t r hr
    rw [EventLoop.control_setControl]
    split
    · rename_i heq
      exact ⟨c, rfl, hrequest t r heq.symm hr⟩
    · exact h.request t r hr
  · intro t c' hc
    rw [EventLoop.control_setControl] at hc
    split at hc
    · rename_i heq
      exact hknown t heq.symm
    · exact h.known t c' hc
  · rw [EventLoop.control_setControl]
    split
    · rename_i heq
      exact .inr ⟨c, rfl, hclose heq.symm⟩
    · exact h.close

omit [DecidableEq δ] in
/-- The control of a known request fits its phase. -/
theorem Fits.of_control {l : EventLoop TaskId Purpose (State δ)} {c : Control Purpose} (h : Fits l)
    (hc : l.control (.request t) = some c) :
    ∃ r, l.shared.requests[t]? = some r ∧ fitsRequest c r.phase = true := by
  obtain ⟨r, hr⟩ := h.known t c hc
  obtain ⟨c', hc', hfits⟩ := h.request t r hr
  cases hc.symm.trans hc'
  exact ⟨r, hr, hfits⟩

omit [DecidableEq δ] in
theorem Fits.of_close {l : EventLoop TaskId Purpose (State δ)} {c : Control Purpose} (h : Fits l)
    (hc : l.control .close = some c) : fitsClose c l.shared.closePhase = true := by
  rcases h.close with ⟨hnone, -⟩ | ⟨c', hc', hfits⟩
  · rw [hnone] at hc
    cases hc
  · cases hc.symm.trans hc'
    exact hfits

/-- **A turn of the loop** is whole steps of the transport, and the tasks are where the phases have
them. -/
theorem Fits.turn {l l' : EventLoop TaskId Purpose (State δ)} (h : Fits l)
    (hturn : Turn (transportCode maxDestinationPools) l l') :
    Reaches (State.step maxDestinationPools) l.shared l'.shared ∧ Fits l' := by
  cases hturn with
  | @spawned id input shared hnew hdone =>
      cases id with
      | request t =>
          cases input with
          | none => cases hdone
          | some destination =>
              dsimp only [transportCode] at hdone
              split at hdone
              · rename_i ht
                subst ht
                have hstep := hdone
                simp only [State.step, TransportEvent.request, State.manage] at hdone
                cases hdone
                exact ⟨(Reaches.refl _).tail hstep, h.called destination⟩
              · cases hdone
      | close =>
          dsimp only [transportCode] at hdone
          split at hdone
          · rename_i hscanning
            cases hdone
            refine ⟨.refl _, h.setControl ?_ ?_ fun _ => ?_⟩
            · intro _ _ hid
              cases hid
            · intro _ hid
              cases hid
            · rw [hscanning]
              rfl
          · cases hdone
      | caller n =>
          cases hdone
          refine ⟨.refl _, h.setControl ?_ ?_ ?_⟩
          · intro _ _ hid
            cases hid
          · intro _ hid
            cases hid
          · intro hid
            cases hid
  | @started id reason next hready hdone =>
      cases id with
      | request t =>
          obtain ⟨r, hr, hfits⟩ := h.of_control hready
          have hwaiting : r.phase = .waiting := by
            cases hphase : r.phase <;> simp_all [fitsRequest]
          have hnext := requestTurn_start hr hwaiting hdone
          exact ⟨hnext.reaches, h.request_turn hnext⟩
      | close =>
          have hfits := h.of_close hready
          have hnext : CloseTurn maxDestinationPools l.shared next := by
            cases reason with
            | returned =>
                cases hdone
                apply CloseTurn.stay
                cases hphase : l.shared.closePhase <;>
                  simp_all [fitsClose, After.control, Purpose.fitsClose]
            | raised => cases hdone
            | cancelled =>
                obtain ⟨s₁, hstep, rfl⟩ := Option.map_eq_some_iff.mp hdone
                obtain ⟨hrequests, hcomplete⟩ := closeAborted_scanning hstep
                exact ⟨(Reaches.refl _).tail hstep, hrequests, by rw [hcomplete]; rfl⟩
          exact ⟨hnext.reaches, h.close_turn hnext⟩
      | caller n =>
          have hsame : next.1 = l.shared := by
            cases reason <;> cases hdone <;> rfl
          have hfits := h.caller_turn (n := n) (congrArg State.requests hsame)
            (.inl (congrArg State.closePhase hsame))
          rw [EventLoop.goOn, hsame] at hfits ⊢
          exact ⟨.refl _, hfits⟩
  | @resumed id reason cancelled next hsuspended hdone =>
      cases id with
      | request t =>
          obtain ⟨r, hr, -⟩ := h.of_control hsuspended
          have hnext := requestTurn_resume hr hdone
          exact ⟨hnext.reaches, h.request_turn hnext⟩
      | close =>
          have hnext : CloseTurn maxDestinationPools l.shared next := closeTurn_resume hdone
          exact ⟨hnext.reaches, h.close_turn hnext⟩
      | caller n =>
          cases hdone
          exact ⟨.refl _, h.caller_turn rfl (.inl rfl)⟩
  | @acquired id p hacquiring =>
      refine ⟨.refl _, Fits.setLocked (h.setControl ?_ ?_ ?_) true⟩
      · rintro t r rfl hr
        obtain ⟨r', hr', hfits⟩ := h.of_control hacquiring
        cases hr.symm.trans hr'
        exact hfits
      · rintro t rfl
        exact h.known t _ hacquiring
      · rintro rfl
        have hfits := h.of_close hacquiring
        exact hfits
  | @passed id p next hholding hdone =>
      cases id with
      | request t =>
          obtain ⟨r, hr, hfits⟩ := h.of_control hholding
          have hnext := requestTurn_pass hr hfits hdone
          exact ⟨hnext.reaches, (h.setLocked false).request_turn hnext⟩
      | close =>
          have hnext := closeTurn_pass (h.of_close hholding) hdone
          exact ⟨hnext.reaches, (h.setLocked false).close_turn hnext⟩
      | caller n =>
          cases p with
          | pass =>
              dsimp only [transportCode] at hdone
              obtain ⟨s₁, hstep, rfl⟩ := Option.map_eq_some_iff.mp hdone
              refine ⟨(Reaches.refl _).tail hstep, (h.setLocked false).caller_turn ?_ ?_⟩
              · cases hstep
                rfl
              · cases hstep
                by_cases hidle : l.shared.closePhase = .idle
                · exact .inr ⟨hidle, if_pos hidle⟩
                · exact .inl (if_neg hidle)
          | _ => cases hdone

/-! ## No dead slot -/

omit [DecidableEq δ] in
theorem fits_init : Fits (EventLoop.init (State.init : State δ)) where
  request t r hr := by cases hr
  known t c hc := by cases hc
  close := .inl ⟨rfl, .inl rfl⟩

omit [DecidableEq δ] in
/-- A task that is to remove an entry has not ended. -/
theorem Fits.alive {l : EventLoop TaskId Purpose (State δ)} (h : Fits l) {v : δ} {e : ℕ} {id : TaskId}
    (hremoving : Removing l.shared v e id) : ∃ c, l.control id = some c ∧ c ≠ .ended := by
  cases id with
  | request t =>
      obtain ⟨r, called, hr, hevicting⟩ := hremoving
      obtain ⟨c, hc, hfits⟩ := h.request t r hr
      refine ⟨c, hc, ?_⟩
      rintro rfl
      rw [hevicting] at hfits
      cases hfits
  | close =>
      obtain ⟨rest, called, hclosing, -⟩ := hremoving
      rcases h.close with ⟨-, hidle | hscanning⟩ | ⟨c, hc, hfits⟩
      · rw [hclosing] at hidle
        cases hidle
      · rw [hclosing] at hscanning
        cases hscanning
      · refine ⟨c, hc, ?_⟩
        rintro rfl
        rw [hclosing] at hfits
        cases hfits
  | caller n => cases hremoving

/-- The tasks of the transport on an event loop, from the start. -/
abbrev TransportRuns (maxDestinationPools : ℕ) (l : EventLoop TaskId Purpose (State δ)) : Prop :=
  Reaches (EventLoop.step (transportCode maxDestinationPools)) (EventLoop.init State.init) l

/-- A run of the loop is a run of the transport. -/
theorem fits_of_runs {l : EventLoop TaskId Purpose (State δ)} (h : TransportRuns maxDestinationPools l) :
    Reaches (State.step maxDestinationPools) State.init l.shared ∧ Fits l := by
  refine inv_of_reaches (fun l => Reaches (State.step maxDestinationPools) State.init l.shared ∧ Fits l)
    ⟨.refl _, fits_init⟩ ?_ h
  rintro l l' ⟨hreaches, hfits⟩ hturn
  obtain ⟨hmore, hfits'⟩ := hfits.turn hturn
  exact ⟨hreaches.trans hmore, hfits'⟩

theorem shared_of_reaches {l l' : EventLoop TaskId Purpose (State δ)}
    (h : TransportRuns maxDestinationPools l)
    (hmore : Reaches (EventLoop.step (transportCode maxDestinationPools)) l l') :
    Reaches (State.step maxDestinationPools) l.shared l'.shared := by
  refine (hmore.induction_on (fun m => TransportRuns maxDestinationPools m
    ∧ Reaches (State.step maxDestinationPools) l.shared m.shared) ?_ ⟨h, .refl _⟩).2
  rintro m event m' ⟨hruns, hreaches⟩ hstep
  obtain ⟨-, hturn⟩ := (calm_of_reaches hruns).step hstep
  exact ⟨hruns.tail hstep, hreaches.trans ((fits_of_runs hruns).2.turn hturn).1⟩

/-- **No dead slot.**  In every run, with cancellations at every await, an entry of the registry that
is marked has a task that is to remove it and has not ended; and at every later time that task still
is to remove the entry and has not ended, or the entry is out of the registry. -/
theorem no_dead_slot {l : EventLoop TaskId Purpose (State δ)} (h : TransportRuns maxDestinationPools l) :
    (∀ p ∈ l.shared.pools, Marked l.shared p.2 → ∃ id c, Removing l.shared p.1 p.2 id
      ∧ l.control id = some c ∧ c ≠ .ended)
    ∧ ∀ p ∈ l.shared.pools, ∀ id, Removing l.shared p.1 p.2 id →
      ∀ l', Reaches (EventLoop.step (transportCode maxDestinationPools)) l l' →
        p ∉ l'.shared.pools ∨ Removing l'.shared p.1 p.2 id
          ∧ ∃ c, l'.control id = some c ∧ c ≠ .ended := by
  obtain ⟨hreaches, hfits⟩ := fits_of_runs h
  constructor
  · intro p hp hmarked
    obtain ⟨id, hremoving⟩ := markedRemoving_of_reaches hreaches p hp hmarked
    obtain ⟨c, hc, halive⟩ := hfits.alive hremoving
    exact ⟨id, c, hremoving, hc, halive⟩
  · intro p hp id hremoving l' hmore
    have hshared := shared_of_reaches h hmore
    rcases removing_of_reaches (poolAccounts_of_reaches hreaches) hp hremoving hshared with
      hstill | hgone
    · exact .inr ⟨hstill, (fits_of_runs (h.trans hmore)).2.alive hstill⟩
    · exact .inl hgone

/-- Room for one pool: the second request evicts the pool of the first one and is cancelled while the
pool is closed. -/
def cancelledEviction : List (LoopEvent TaskId (Option ℕ)) :=
  [.spawned (.request 0) (some 1), .resumed (.request 0) .returned, .acquired, .passed,
    .resumed (.request 0) .returned, .resumed (.request 0) .returned, .acquired, .passed,
    .spawned (.request 1) (some 2), .resumed (.request 1) .returned, .acquired, .passed,
    .resumed (.request 1) .cancelled]

/-- The pool is closed, and the eviction ends. -/
def evictionRest : List (LoopEvent TaskId (Option ℕ)) :=
  [.resumed (.request 1) .returned, .acquired, .passed]

theorem cancelledEviction_pools :
    (runs (EventLoop.step (transportCode 1)) (EventLoop.init State.init) cancelledEviction).map
        (fun l => (l.shared.pools, l.shared.entries)) = some ([(1, 0)], [⟨1, 0, true, 1⟩])
      ∧ (runs (EventLoop.step (transportCode 1)) (EventLoop.init State.init)
          (cancelledEviction ++ evictionRest)).map
        (fun l => (l.shared.pools, l.control (.request 1))) = some ([], some .ended) := by
  constructor <;> decide +kernel

theorem no_dead_slot_cancelledEviction :
    ∃ l : EventLoop TaskId Purpose (State ℕ), runs (EventLoop.step (transportCode 1))
      (EventLoop.init State.init) cancelledEviction = some l
      ∧ ∃ id c, Removing l.shared 1 0 id ∧ l.control id = some c ∧ c ≠ .ended := by
  obtain ⟨l, hl, hpools⟩ := Option.map_eq_some_iff.mp cancelledEviction_pools.1
  obtain ⟨hp, hentries⟩ := Prod.mk.inj hpools
  refine ⟨l, hl, (no_dead_slot ⟨cancelledEviction, hl⟩).1 (1, 0) ?_ ?_⟩
  · rw [hp]
    exact List.mem_singleton.mpr rfl
  · refine ⟨⟨1, 0, true, 1⟩, ?_, rfl⟩
    rw [hentries]
    rfl

end VeloxRag.Transport
