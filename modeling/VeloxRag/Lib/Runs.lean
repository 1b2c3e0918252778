import Mathlib

/-!
# Runs of a transition function, and tasks that share objects

A concurrent component is a state and a function that says what each event does to it, if the
event can happen there.  Its tasks are a list, and a task moves by replacing its entry.  A counter
that a shared object keeps is right when it is the number of tasks that stand in some relation to
the object; the lemmas here say how such a number moves with one task.

## Main definitions

* `runs` — the state after a list of events.
* `Reaches` — some list of events leads from one state to another.
* `Reaches.induction_on` — an invariant of every step holds of every state reached.
* `countP_set_add` — how the number of tasks with a property moves when one task does.
-/

namespace VeloxRag.Lib

section Runs

variable {σ ε : Type*} {step : σ → ε → Option σ} {s t u : σ} {e : ε} {es es' : List ε}

/-- The state after a list of events, if each of them can happen in its turn. -/
def runs (step : σ → ε → Option σ) : σ → List ε → Option σ
  | s, [] => some s
  | s, e :: es => (step s e).bind fun t => runs step t es

/-- Some list of events leads from `s` to `t`. -/
def Reaches (step : σ → ε → Option σ) (s t : σ) : Prop := ∃ es, runs step s es = some t

@[simp] theorem runs_nil : runs step s [] = some s := rfl

@[simp] theorem runs_cons : runs step s (e :: es) = (step s e).bind fun t => runs step t es := rfl

theorem runs_append : runs step s (es ++ es') = (runs step s es).bind fun t => runs step t es' := by
  induction es generalizing s with
  | nil => rfl
  | cons e es ih =>
    simp only [List.cons_append, runs_cons]
    cases step s e with
    | none => rfl
    | some t => exact ih

theorem runs_concat : runs step s (es ++ [e]) = (runs step s es).bind fun t => step t e := by
  rw [runs_append]
  cases runs step s es with
  | none => rfl
  | some t => simp

theorem Reaches.refl (s : σ) : Reaches step s s := ⟨[], rfl⟩

theorem Reaches.tail (h : Reaches step s t) (hstep : step t e = some u) : Reaches step s u := by
  obtain ⟨es, hes⟩ := h
  refine ⟨es ++ [e], ?_⟩
  rw [runs_concat, hes]
  exact hstep

theorem Reaches.trans (h : Reaches step s t) (h' : Reaches step t u) : Reaches step s u := by
  obtain ⟨es, hes⟩ := h
  obtain ⟨es', hes'⟩ := h'
  refine ⟨es ++ es', ?_⟩
  rw [runs_append, hes]
  exact hes'

/-- What every step preserves holds of every state that a run reaches. -/
theorem runs_induct (Inv : σ → Prop) (hstep : ∀ t e u, Inv t → step t e = some u → Inv u)
    (hs : Inv s) (h : runs step s es = some t) : Inv t := by
  induction es generalizing s with
  | nil =>
    cases h
    exact hs
  | cons e es ih =>
    rw [runs_cons, Option.bind_eq_some_iff] at h
    obtain ⟨u, hu, hrest⟩ := h
    exact ih (hstep s e u hs hu) hrest

theorem Reaches.induction_on (Inv : σ → Prop) (hstep : ∀ t e u, Inv t → step t e = some u → Inv u)
    (hs : Inv s) (h : Reaches step s t) : Inv t := by
  obtain ⟨es, hes⟩ := h
  exact runs_induct Inv hstep hs hes

end Runs

section Tasks

variable {τ : Type*} {tasks : List τ} {i j : ℕ} {a b c : τ}

/-- One task moves: the number of tasks with a property loses the task as it was and gains it as it
is. -/
theorem countP_set_add {p : τ → Bool} (h : tasks[i]? = some a) (b : τ) :
    (tasks.set i b).countP p + (if p a then 1 else 0) = tasks.countP p + (if p b then 1 else 0) := by
  obtain ⟨hi, rfl⟩ := List.getElem?_eq_some_iff.mp h
  rw [List.countP_set hi]
  have hle : (if p tasks[i] then 1 else 0) ≤ tasks.countP p := by
    split
    · rename_i hp
      exact List.countP_pos_iff.mpr ⟨_, List.getElem_mem hi, hp⟩
    · exact Nat.zero_le _
  omega

theorem countP_pos_of_getElem? {p : τ → Bool} (h : tasks[i]? = some a) (hp : p a = true) :
    0 < tasks.countP p :=
  List.countP_pos_iff.mpr ⟨a, List.mem_of_getElem? h, hp⟩

theorem getElem?_set_cases (h : (tasks.set i b)[j]? = some c) :
    (j = i ∧ c = b) ∨ (j ≠ i ∧ tasks[j]? = some c) := by
  rw [List.getElem?_set] at h
  split at h
  · rename_i hij
    split at h
    · exact .inl ⟨hij.symm, (Option.some.inj h).symm⟩
    · cases h
  · rename_i hij
    exact .inr ⟨fun hji => hij hji.symm, h⟩

theorem getElem?_set_same (h : tasks[i]? = some a) : (tasks.set i b)[i]? = some b := by
  obtain ⟨hi, -⟩ := List.getElem?_eq_some_iff.mp h
  rw [List.getElem?_set_self hi]

theorem getElem?_append_singleton_cases (h : (tasks ++ [b])[j]? = some c) :
    (j = tasks.length ∧ c = b) ∨ tasks[j]? = some c := by
  rcases Nat.lt_trichotomy j tasks.length with hlt | rfl | hgt
  · rw [List.getElem?_append_left hlt] at h
    exact .inr h
  · rw [List.getElem?_concat_length] at h
    exact .inl ⟨rfl, (Option.some.inj h).symm⟩
  · rw [List.getElem?_eq_none (by simpa using hgt)] at h
    cases h

end Tasks

end VeloxRag.Lib
