/-!
# Two computations that agree

Two computations that may fail agree when they fail with the same error, or both succeed with
results that are related.

## Main definitions

* `Agrees` — the relation, with its rule for a sequence.
-/

namespace VeloxRag.Lib

variable {ε α α' β β' : Type}

/-- The two computations raise the same error, or their results are related by `R`. -/
inductive Agrees (R : α → α' → Prop) : Except ε α → Except ε α' → Prop
  | ok {a : α} {a' : α'} (h : R a a') : Agrees R (.ok a) (.ok a')
  | error (e : ε) : Agrees R (.error e) (.error e)

namespace Agrees

variable {R : α → α' → Prop} {S : β → β' → Prop} {x : Except ε α} {y : Except ε α'}

theorem bind {f : α → Except ε β} {g : α' → Except ε β'} (h : Agrees R x y)
    (hnext : ∀ a a', R a a' → Agrees S (f a) (g a')) : Agrees S (x >>= f) (y >>= g) := by
  cases h with
  | ok h => exact hnext _ _ h
  | error e => exact .error e

/-- The same computation on both sides, followed by computations that agree. -/
theorem bind_same {f : α → Except ε β} {g : α → Except ε β'} (x : Except ε α)
    (hnext : ∀ a, x = .ok a → Agrees S (f a) (g a)) : Agrees S (x >>= f) (x >>= g) := by
  cases x with
  | ok a => exact hnext a rfl
  | error e => exact .error e

theorem mono {R' : α → α' → Prop} (h : Agrees R x y) (hle : ∀ a a', R a a' → R' a a') :
    Agrees R' x y := by
  cases h with
  | ok h => exact .ok (hle _ _ h)
  | error e => exact .error e

/-- Computations whose results are equal are equal. -/
theorem eq {x y : Except ε α} (h : Agrees (fun a a' => a' = a) x y) : y = x := by
  cases h with
  | ok h => rw [h]
  | error e => rfl

end Agrees

end VeloxRag.Lib
