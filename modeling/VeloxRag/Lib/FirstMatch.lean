import Mathlib

/-!
# The first match of a list

A loop that looks for the first member it can change, and changes that one.

## Main definitions

* `replaceFirst` — the list after the loop, if there was such a member.
* `replaceFirst_eq_some`, `replaceFirst_idem` — what it changes, and a second loop.
* `sum_filterMap_lt` — filters that keep less.
-/

namespace VeloxRag.Lib

variable {α β : Type*} {f : α → Option α} {l l' before : List α}

/-- The first member on which `f` has a value, replaced by that value. -/
def replaceFirst (f : α → Option α) : List α → Option (List α)
  | [] => none
  | x :: xs =>
      match f x with
      | some y => some (y :: xs)
      | none => (replaceFirst f xs).map (x :: ·)

@[simp] theorem replaceFirst_nil : replaceFirst f [] = none := rfl

theorem replaceFirst_cons (x : α) (xs : List α) :
    replaceFirst f (x :: xs) =
      match f x with
      | some y => some (y :: xs)
      | none => (replaceFirst f xs).map (x :: ·) := rfl

theorem replaceFirst_eq_none : replaceFirst f l = none ↔ ∀ x ∈ l, f x = none := by
  induction l with
  | nil => simp
  | cons x xs ih =>
      rw [replaceFirst_cons]
      cases hx : f x with
      | some y => simp [hx]
      | none => simp [hx, ih]

theorem replaceFirst_append (h : ∀ x ∈ before, f x = none) :
    replaceFirst f (before ++ l) = (replaceFirst f l).map (before ++ ·) := by
  induction before with
  | nil => simp
  | cons x xs ih =>
      rw [List.cons_append, replaceFirst_cons, h x List.mem_cons_self,
        ih fun x' hx' => h x' (List.mem_cons_of_mem _ hx')]
      simp [Option.map_map, Function.comp_def]

theorem replaceFirst_eq_some :
    replaceFirst f l = some l' ↔ ∃ before x y after, l = before ++ x :: after ∧
      l' = before ++ y :: after ∧ (∀ b ∈ before, f b = none) ∧ f x = some y := by
  constructor
  · intro h
    induction l generalizing l' with
    | nil => cases h
    | cons x xs ih =>
        rw [replaceFirst_cons] at h
        cases hx : f x with
        | some y =>
            simp only [hx, Option.some.injEq] at h
            exact ⟨[], x, y, xs, rfl, h.symm, by simp, hx⟩
        | none =>
            simp only [hx, Option.map_eq_some_iff] at h
            obtain ⟨ys, hys, rfl⟩ := h
            obtain ⟨before, x', y, after, rfl, rfl, hbefore, hy⟩ := ih hys
            exact ⟨x :: before, x', y, after, rfl, rfl, by simpa [hx] using hbefore, hy⟩
  · rintro ⟨before, x, y, after, rfl, rfl, hbefore, hy⟩
    rw [replaceFirst_append hbefore, replaceFirst_cons, hy]
    rfl

/-- A second loop finds the member the first one has changed. -/
theorem replaceFirst_idem (hf : ∀ x y, f x = some y → f y = some y) (h : replaceFirst f l = some l') :
    replaceFirst f l' = some l' := by
  obtain ⟨before, x, y, after, -, rfl, hbefore, hy⟩ := replaceFirst_eq_some.mp h
  exact replaceFirst_eq_some.mpr ⟨before, y, y, after, rfl, rfl, hbefore, hf x y hy⟩

/-- What is collected from the members changes at one place only, the first. -/
theorem flatMap_replaceFirst {g : α → List β} (hnone : ∀ x, f x = none → g x = [])
    (h : replaceFirst f l = some l') :
    ∃ x y rest, f x = some y ∧ l.flatMap g = g x ++ rest ∧ l'.flatMap g = g y ++ rest := by
  obtain ⟨before, x, y, after, rfl, rfl, hbefore, hy⟩ := replaceFirst_eq_some.mp h
  have hempty : before.flatMap g = [] := by
    rw [List.flatMap_eq_nil_iff]
    exact fun b hb => hnone b (hbefore b hb)
  exact ⟨x, y, after.flatMap g, hy, by simp [hempty], by simp [hempty]⟩

/-! ## Filters -/

variable {γ : Type*} (weight : γ → ℕ) {p q : α → Option γ} {xs : List α}

theorem sum_filterMap (p : α → Option γ) (xs : List α) :
    ((xs.filterMap p).map weight).sum = (xs.map fun x => ((p x).map weight).getD 0).sum := by
  induction xs with
  | nil => rfl
  | cons x xs ih =>
      rw [List.filterMap_cons, List.map_cons, List.sum_cons, ← ih]
      cases p x with
      | none => simp
      | some y => simp

/-- A filter that keeps no more of any member, keeps no more. -/
theorem sum_filterMap_le
    (hle : ∀ x ∈ xs, ((p x).map weight).getD 0 ≤ ((q x).map weight).getD 0) :
    ((xs.filterMap p).map weight).sum ≤ ((xs.filterMap q).map weight).sum := by
  rw [sum_filterMap, sum_filterMap]
  exact List.sum_le_sum hle

/-- A filter that keeps no more of any member and less of one, keeps less. -/
theorem sum_filterMap_lt
    (hle : ∀ x ∈ xs, ((p x).map weight).getD 0 ≤ ((q x).map weight).getD 0)
    (hlt : ∃ x ∈ xs, ((p x).map weight).getD 0 < ((q x).map weight).getD 0) :
    ((xs.filterMap p).map weight).sum < ((xs.filterMap q).map weight).sum := by
  rw [sum_filterMap, sum_filterMap]
  exact List.sum_lt_sum _ _ hle hlt

end VeloxRag.Lib
