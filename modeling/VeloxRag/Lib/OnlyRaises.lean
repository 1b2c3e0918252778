import Mathlib

/-!
# Computations that raise one exception only

`OnlyRaises e r Q` says that the computation `r` either raises `e` or returns a value in
`Q`.  It is the rule of consequence, of sequencing and of returning that a proof about a
fallible loop goes by, so that the exception is handled once and not at every step.

## Main definitions

* `OnlyRaises` — the judgement.
* `OnlyRaises.bind`, `OnlyRaises.mono`, `OnlyRaises.ok` — its rules.
-/

namespace VeloxRag.Lib

universe u v

variable {ε : Type u} {α β : Type v} {e : ε}

/-- The computation raises `e`, or returns a value in `Q`. -/
def OnlyRaises (e : ε) (r : Except ε α) (Q : α → Prop) : Prop := r = .error e ∨ ∃ a, r = .ok a ∧ Q a

namespace OnlyRaises

theorem ok {a : α} {Q : α → Prop} (h : Q a) : OnlyRaises e (.ok a) Q := .inr ⟨a, rfl, h⟩

theorem mono {r : Except ε α} {Q R : α → Prop} (h : OnlyRaises e r Q) (himp : ∀ a, Q a → R a) :
    OnlyRaises e r R :=
  h.imp id fun ⟨a, hr, hq⟩ => ⟨a, hr, himp a hq⟩

/-- **Sequencing.** -/
theorem bind {r : Except ε α} {f : α → Except ε β} {Q : α → Prop} {R : β → Prop}
    (h : OnlyRaises e r Q) (hf : ∀ a, Q a → OnlyRaises e (f a) R) : OnlyRaises e (r >>= f) R := by
  rcases h with rfl | ⟨a, rfl, hq⟩
  · exact .inl rfl
  · exact hf a hq

end OnlyRaises

end VeloxRag.Lib
