import Mathlib

/-!
# Procedures with state and exceptions

A procedure changes a state and then returns, raises an exception, or never comes back from
something it waits for.  The state is kept in each case, so a handler sees what the procedure has
done before it raised.

## Main definitions

* `Awaited`, `Proc` — outcomes and procedures.
* `Proc.handle`, `Proc.tryElse` — the handlers.
* `Proc.Triple` — what holds before and after, with its rules `bind`, `handle` and `tryElse`.
-/

namespace VeloxRag.Lib

/-- What comes of waiting for something. -/
inductive Awaited (ε α : Type)
  | returns (a : α)
  | raises (e : ε)
  | never

def Proc (σ ε α : Type) := σ → Awaited ε α × σ

namespace Proc

variable {σ ε α β : Type}

def bind (p : Proc σ ε α) (f : α → Proc σ ε β) : Proc σ ε β := fun s =>
  match p s with
  | (.returns a, s) => f a s
  | (.raises e, s) => (.raises e, s)
  | (.never, s) => (.never, s)

instance : Monad (Proc σ ε) where
  pure a := fun s => (.returns a, s)
  bind := bind

def get : Proc σ ε σ := fun s => (.returns s, s)

def modify (f : σ → σ) : Proc σ ε Unit := fun s => (.returns (), f s)

def raise (e : ε) : Proc σ ε α := fun s => (.raises e, s)

def await (o : Awaited ε α) : Proc σ ε α := fun s => (o, s)

/-- A handler of every exception. -/
def handle (p : Proc σ ε α) (h : ε → Proc σ ε α) : Proc σ ε α := fun s =>
  match p s with
  | (.returns a, s) => (.returns a, s)
  | (.raises e, s) => h e s
  | (.never, s) => (.never, s)

/-- A handler of every exception, and what follows if there is none; the handler does not see an
exception of the latter. -/
def tryElse (p : Proc σ ε α) (h : ε → Proc σ ε β) (f : α → Proc σ ε β) : Proc σ ε β := fun s =>
  match p s with
  | (.returns a, s) => f a s
  | (.raises e, s) => h e s
  | (.never, s) => (.never, s)

/-- From every state in `P`, the outcome and the state afterwards are in `Q`. -/
def Triple (P : σ → Prop) (p : Proc σ ε α) (Q : Awaited ε α → σ → Prop) : Prop :=
  ∀ s, P s → Q (p s).1 (p s).2

namespace Triple

variable {P P' : σ → Prop} {p : Proc σ ε α} {Q R : Awaited ε α → σ → Prop}
  {S : Awaited ε β → σ → Prop}

theorem pure {a : α} (h : ∀ s, P s → Q (.returns a) s) : Triple P (Pure.pure a) Q := h

theorem raise {e : ε} (h : ∀ s, P s → Q (.raises e) s) : Triple P (Proc.raise e) Q := h

theorem await {o : Awaited ε α} (h : ∀ s, P s → Q o s) : Triple P (Proc.await o) Q := h

theorem modify {f : σ → σ} {Q : Awaited ε Unit → σ → Prop} (h : ∀ s, P s → Q (.returns ()) (f s)) :
    Triple P (Proc.modify f) Q := h

theorem mono (h : Triple P p Q) (hpre : ∀ s, P' s → P s) (hpost : ∀ o s, Q o s → R o s) :
    Triple P' p R :=
  fun s hs => hpost _ _ (h s (hpre s hs))

/-- **Sequencing.** -/
theorem bind {f : α → Proc σ ε β} (h : Triple P p Q)
    (hreturns : ∀ a, Triple (Q (.returns a)) (f a) S)
    (hraises : ∀ e s, Q (.raises e) s → S (.raises e) s) (hnever : ∀ s, Q .never s → S .never s) :
    Triple P (p >>= f) S := by
  intro s hs
  have hp := h s hs
  change S (Proc.bind p f s).1 (Proc.bind p f s).2
  rw [Proc.bind]
  rcases hps : p s with ⟨a | e | _, t⟩
  all_goals rw [hps] at hp
  · exact hreturns a t hp
  · exact hraises e t hp
  · exact hnever t hp

/-- **Reading the state.** -/
theorem get_bind {f : σ → Proc σ ε β} (h : ∀ s, P s → Triple (· = s) (f s) S) :
    Triple P (Proc.get >>= f) S :=
  fun s hs => h s hs s rfl

theorem modify_bind {I : σ → Prop} {g : σ → σ} {f : Unit → Proc σ ε β} (hg : ∀ s, P s → I (g s))
    (h : Triple I (f ()) S) : Triple P (Proc.modify g >>= f) S :=
  fun s hs => h (g s) (hg s hs)

theorem await_bind {o : Awaited ε α} {f : α → Proc σ ε β}
    (hreturns : ∀ a, o = .returns a → Triple P (f a) S)
    (hraises : ∀ e, o = .raises e → ∀ s, P s → S (.raises e) s)
    (hnever : o = .never → ∀ s, P s → S .never s) : Triple P (Proc.await o >>= f) S := by
  cases o with
  | returns a => exact hreturns a rfl
  | raises e => exact hraises e rfl
  | never => exact hnever rfl

/-- **Handling.** -/
theorem handle {h : ε → Proc σ ε α} (hp : Triple P p Q) (hreturns : ∀ a s, Q (.returns a) s → R (.returns a) s)
    (hraises : ∀ e, Triple (Q (.raises e)) (h e) R) (hnever : ∀ s, Q .never s → R .never s) :
    Triple P (Proc.handle p h) R := by
  intro s hs
  have hq := hp s hs
  rw [Proc.handle]
  rcases hps : p s with ⟨a | e | _, t⟩
  all_goals rw [hps] at hq
  · exact hreturns a t hq
  · exact hraises e t hq
  · exact hnever t hq

theorem tryElse {h : ε → Proc σ ε β} {f : α → Proc σ ε β} (hp : Triple P p Q)
    (hreturns : ∀ a, Triple (Q (.returns a)) (f a) S) (hraises : ∀ e, Triple (Q (.raises e)) (h e) S)
    (hnever : ∀ s, Q .never s → S .never s) : Triple P (Proc.tryElse p h f) S := by
  intro s hs
  have hq := hp s hs
  rw [Proc.tryElse]
  rcases hps : p s with ⟨a | e | _, t⟩
  all_goals rw [hps] at hq
  · exact hreturns a t hq
  · exact hraises e t hq
  · exact hnever t hq

end Triple

end Proc

end VeloxRag.Lib
