import VeloxRag.Lib.Runs

/-!
# Tasks with a lock on an event loop

One task of an event loop runs at a time, until it awaits something that is not there yet.  Tasks
share a lock with a queue of waiters.  The acquisition of a free lock that nobody waits for does not
give up the loop; any other acquisition queues the task, which may be cancelled there.

When no section of the lock awaits anything, the lock is free whenever the loop turns to another task,
and so nobody is ever queued.

## Main definitions

* `Code` — what the tasks do between their awaits.
* `Control`, `EventLoop`, `EventLoop.step` — where the tasks are, and the steps of the loop.
* `Calm`, `calm_of_reaches` — nobody waits for the lock.
* `Turn`, `inv_of_reaches` — the steps that are left, and what they keep.
-/

namespace VeloxRag.Lib

/-- How an await ends. -/
inductive Reason
  | returned
  | raised
  | cancelled
deriving DecidableEq, Repr

/-- What a task does next, once it does not hold the lock: it acquires it for a section, awaits
something else, with the mark of a cancellation that it has swallowed, or ends. -/
inductive After (π : Type*)
  | acquire (p : π)
  | await (cancelled : Bool)
  | done
deriving DecidableEq, Repr

/-- What the tasks `τ` with the inputs `ι` and the sections `π` do to the shared state `σ` between two
awaits. -/
structure Code (τ ι π σ : Type*) where
  /-- A task is created with an input. -/
  spawn : τ → ι → σ → Option σ
  /-- The first step of a task, or its cancellation before it. -/
  start : τ → Reason → σ → Option (σ × After π)
  /-- A section of the lock, its end and what follows it. -/
  pass : τ → π → σ → Option (σ × After π)
  /-- An await other than the acquisition of the lock ends. -/
  resume : τ → Reason → Bool → σ → Option (σ × After π)
  /-- A cancellation is delivered while the task is queued for the lock. -/
  cancelQueued : τ → π → σ → Option (σ × After π)

/-- Where a task is. -/
inductive Control (π : Type*)
  | ready
  | acquiring (p : π)
  | queued (p : π)
  | holding (p : π)
  | suspended (cancelled : Bool)
  | ended
deriving DecidableEq, Repr

def After.control {π : Type*} : After π → Control π
  | .acquire p => .acquiring p
  | .await cancelled => .suspended cancelled
  | .done => .ended

structure EventLoop (τ π σ : Type*) where
  shared : σ
  control : τ → Option (Control π)
  locked : Bool
  queue : List τ
  running : Option τ

inductive LoopEvent (τ ι : Type*)
  | spawned (t : τ) (input : ι)
  | resumed (t : τ) (reason : Reason)
  /-- the running task acquires the lock -/
  | acquired
  /-- the running task leaves its section -/
  | passed
deriving DecidableEq, Repr

namespace EventLoop

variable {τ ι π σ : Type*}

/-- No task yet. -/
def init (shared : σ) : EventLoop τ π σ := ⟨shared, fun _ => none, false, [], none⟩

variable [DecidableEq τ]

def setControl (l : EventLoop τ π σ) (t : τ) (c : Control π) : EventLoop τ π σ :=
  { l with control := Function.update l.control t (some c) }

/-- The task goes on, up to its next await. -/
def goOn (l : EventLoop τ π σ) (t : τ) (next : σ × After π) : EventLoop τ π σ :=
  { l.setControl t next.2.control with
    shared := next.1
    running := match next.2 with
      | .acquire _ => some t
      | _ => none }

/-- An await of a task ends while no task runs. -/
def resume (code : Code τ ι π σ) (l : EventLoop τ π σ) (t : τ) (reason : Reason) :
    Option (EventLoop τ π σ) :=
  match l.control t with
  | some .ready => (code.start t reason l.shared).map (l.goOn t)
  | some (.suspended cancelled) => (code.resume t reason cancelled l.shared).map (l.goOn t)
  | some (.queued p) =>
      match reason with
      | .cancelled =>
          (code.cancelQueued t p l.shared).map
            ({ l with queue := l.queue.filter (· ≠ t) }.goOn t)
      | .returned =>
          if l.locked = false ∧ l.queue.head? = some t then
            some { l.setControl t (.holding p) with
              locked := true
              queue := l.queue.tail
              running := some t }
          else none
      | .raised => none
  | _ => none

/-- The running task acquires the lock, or is queued for it. -/
def acquire (l : EventLoop τ π σ) (t : τ) : Option (EventLoop τ π σ) :=
  match l.control t with
  | some (.acquiring p) =>
      if l.locked = false ∧ l.queue = [] then
        some { l.setControl t (.holding p) with locked := true }
      else
        some { l.setControl t (.queued p) with
          queue := l.queue ++ [t]
          running := none }
  | _ => none

/-- The running task leaves its section. -/
def pass (code : Code τ ι π σ) (l : EventLoop τ π σ) (t : τ) : Option (EventLoop τ π σ) :=
  match l.control t with
  | some (.holding p) => (code.pass t p l.shared).map ({ l with locked := false }.goOn t)
  | _ => none

def step (code : Code τ ι π σ) (l : EventLoop τ π σ) : LoopEvent τ ι → Option (EventLoop τ π σ)
  | .spawned t input =>
      if l.running.isNone && (l.control t).isNone then
        (code.spawn t input l.shared).map fun shared => { l.setControl t .ready with shared := shared }
      else none
  | .resumed t reason => if l.running.isNone then l.resume code t reason else none
  | .acquired => l.running.bind l.acquire
  | .passed => l.running.bind (l.pass code)

end EventLoop

/-! ## Nobody waits for the lock -/

/-- The task is at an await other than the lock, or is over. -/
def Control.parked {π : Type*} : Control π → Bool
  | .ready | .suspended _ | .ended => true
  | _ => false

variable {τ ι π σ : Type*}

/-- Nobody is queued, the running task alone may hold the lock, and the others are parked. -/
structure Calm (l : EventLoop τ π σ) : Prop where
  queue : l.queue = []
  idle : l.running = none → l.locked = false
  parked : ∀ t c, l.control t = some c → l.running ≠ some t → c.parked = true
  running : ∀ t, l.running = some t → ∃ p, l.control t = some (.acquiring p) ∧ l.locked = false
    ∨ l.control t = some (.holding p) ∧ l.locked = true

/-- What a step of a calm loop is. -/
inductive Turn [DecidableEq τ] (code : Code τ ι π σ) (l : EventLoop τ π σ) : EventLoop τ π σ → Prop
  | spawned {t : τ} {input : ι} {shared : σ} (new : l.control t = none)
      (done : code.spawn t input l.shared = some shared) :
      Turn code l { l.setControl t .ready with shared := shared }
  | started {t : τ} {reason : Reason} {next : σ × After π} (was : l.control t = some .ready)
      (done : code.start t reason l.shared = some next) : Turn code l (l.goOn t next)
  | resumed {t : τ} {reason : Reason} {cancelled : Bool} {next : σ × After π}
      (was : l.control t = some (.suspended cancelled))
      (done : code.resume t reason cancelled l.shared = some next) : Turn code l (l.goOn t next)
  | acquired {t : τ} {p : π} (was : l.control t = some (.acquiring p)) :
      Turn code l { l.setControl t (.holding p) with locked := true }
  | passed {t : τ} {p : π} {next : σ × After π} (was : l.control t = some (.holding p))
      (done : code.pass t p l.shared = some next) :
      Turn code l ({ l with locked := false }.goOn t next)

theorem calm_init (shared : σ) : Calm (EventLoop.init shared : EventLoop τ π σ) where
  queue := rfl
  idle _ := rfl
  parked t c h := by cases h
  running t h := by cases h

section Steps

variable [DecidableEq τ] {code : Code τ ι π σ} {l l' : EventLoop τ π σ} {t : τ}

theorem EventLoop.control_setControl {c : Control π} (t' : τ) :
    (l.setControl t c).control t' = if t' = t then some c else l.control t' := by
  exact Function.update_apply _ _ _ _

/-- A task that does not hold the lock goes on. -/
theorem calm_goOn (hqueue : l.queue = []) (hfree : l.locked = false)
    (hparked : ∀ t' c, t' ≠ t → l.control t' = some c → c.parked = true) (next : σ × After π) :
    Calm (l.goOn t next) := by
  have hcontrol : ∀ t' c, (l.goOn t next).control t' = some c →
      t' = t ∧ c = next.2.control ∨ t' ≠ t ∧ l.control t' = some c := by
    intro t' c hc
    rw [EventLoop.goOn, EventLoop.control_setControl] at hc
    split at hc
    · rename_i hsame
      exact .inl ⟨hsame, (Option.some.inj hc).symm⟩
    · rename_i hne
      exact .inr ⟨hne, hc⟩
  have hself : (l.goOn t next).control t = some next.2.control := by
    rw [EventLoop.goOn, EventLoop.control_setControl, if_pos rfl]
  constructor
  · exact hqueue
  · exact fun _ => hfree
  · intro t' c hc hrun
    rcases hcontrol t' c hc with ⟨rfl, rfl⟩ | ⟨hne, hc⟩
    · cases hnext : next.2 with
      | acquire p =>
          rw [EventLoop.goOn, hnext] at hrun
          exact absurd rfl hrun
      | await cancelled => rfl
      | done => rfl
    · exact hparked t' c hne hc
  · intro t' hrun
    cases hnext : next.2 with
    | acquire p =>
        rw [EventLoop.goOn, hnext] at hrun
        cases hrun
        rw [hself, hnext]
        exact ⟨p, .inl ⟨rfl, hfree⟩⟩
    | await cancelled =>
        rw [EventLoop.goOn, hnext] at hrun
        cases hrun
    | done =>
        rw [EventLoop.goOn, hnext] at hrun
        cases hrun

/-- **A step of a calm loop** is a turn, and the loop is calm after it: the acquisitions find the lock
free. -/
theorem Calm.step {event : LoopEvent τ ι} (h : Calm l) (hstep : l.step code event = some l') :
    Calm l' ∧ Turn code l l' := by
  cases event with
  | spawned t input =>
      rw [EventLoop.step] at hstep
      split at hstep
      · rename_i hnew
        simp only [Bool.and_eq_true, Option.isNone_iff_eq_none] at hnew
        obtain ⟨shared, hshared, rfl⟩ := Option.map_eq_some_iff.mp hstep
        refine ⟨⟨h.queue, h.idle, ?_, ?_⟩, .spawned hnew.2 hshared⟩
        · intro t' c hc hrun
          rw [EventLoop.control_setControl] at hc
          split at hc
          · cases hc
            rfl
          · exact h.parked t' c hc hrun
        · intro t' hrun
          rw [EventLoop.setControl, hnew.1] at hrun
          cases hrun
      · cases hstep
  | resumed t reason =>
      rw [EventLoop.step] at hstep
      split at hstep
      · rename_i hidle
        rw [Option.isNone_iff_eq_none] at hidle
        have hparked : ∀ t' c, t' ≠ t → l.control t' = some c → c.parked = true := by
          intro t' c _ hc
          apply h.parked t' c hc
          rw [hidle]
          exact nofun
        rw [EventLoop.resume] at hstep
        split at hstep
        · rename_i hready
          obtain ⟨next, hnext, rfl⟩ := Option.map_eq_some_iff.mp hstep
          exact ⟨calm_goOn h.queue (h.idle hidle) hparked next, .started hready hnext⟩
        · rename_i cancelled hsuspended
          obtain ⟨next, hnext, rfl⟩ := Option.map_eq_some_iff.mp hstep
          exact ⟨calm_goOn h.queue (h.idle hidle) hparked next, .resumed hsuspended hnext⟩
        · rename_i p hqueued
          have hqueue := h.parked t _ hqueued (by rw [hidle]; exact nofun)
          cases hqueue
        · cases hstep
      · cases hstep
  | acquired =>
      obtain ⟨t, hrun, hstep⟩ := Option.bind_eq_some_iff.mp hstep
      obtain ⟨p, ⟨hacquiring, hfree⟩ | ⟨hholding, -⟩⟩ := h.running t hrun
      · rw [EventLoop.acquire, hacquiring] at hstep
        dsimp only at hstep
        rw [if_pos ⟨hfree, h.queue⟩] at hstep
        cases hstep
        refine ⟨⟨h.queue, ?_, ?_, ?_⟩, .acquired hacquiring⟩
        · intro hnone
          rw [EventLoop.setControl, hrun] at hnone
          cases hnone
        · intro t' c hc hne
          rw [EventLoop.control_setControl] at hc
          split at hc
          · rename_i hsame
            subst hsame
            exact absurd hrun hne
          · exact h.parked t' c hc hne
        · intro t' hrun'
          have hsame : t' = t := Option.some.inj (hrun'.symm.trans hrun)
          subst hsame
          refine ⟨p, .inr ⟨?_, rfl⟩⟩
          rw [EventLoop.control_setControl, if_pos rfl]
      · rw [EventLoop.acquire, hholding] at hstep
        cases hstep
  | passed =>
      obtain ⟨t, hrun, hstep⟩ := Option.bind_eq_some_iff.mp hstep
      rw [EventLoop.pass] at hstep
      split at hstep
      · rename_i p hholding
        obtain ⟨next, hnext, rfl⟩ := Option.map_eq_some_iff.mp hstep
        refine ⟨calm_goOn (l := { l with locked := false }) h.queue rfl ?_ next, .passed hholding hnext⟩
        intro t' c hne hc
        exact h.parked t' c hc fun hrun' => hne (Option.some.inj (hrun'.symm.trans hrun))
      · cases hstep

/-- **Nobody waits for the lock**, in any run. -/
theorem calm_of_reaches {shared : σ}
    (h : Reaches (EventLoop.step code) (EventLoop.init shared) l) : Calm l :=
  h.induction_on Calm (fun _ _ _ hcalm hstep => (hcalm.step hstep).1) (calm_init shared)

/-- An invariant of the turns holds in every run. -/
theorem inv_of_reaches {shared : σ} (Inv : EventLoop τ π σ → Prop) (hinit : Inv (EventLoop.init shared))
    (hturn : ∀ l l', Inv l → Turn code l l' → Inv l')
    (h : Reaches (EventLoop.step code) (EventLoop.init shared) l) : Inv l := by
  refine (h.induction_on (fun l => Calm l ∧ Inv l) ?_ ⟨calm_init shared, hinit⟩).2
  rintro l event l' ⟨hcalm, hinv⟩ hstep
  obtain ⟨hcalm', hstep'⟩ := hcalm.step hstep
  exact ⟨hcalm', hturn l l' hinv hstep'⟩

end Steps

end VeloxRag.Lib
