import Mathlib

/-!
# Token buckets

A bucket holds at most `capacity` tokens and fills at `rate` tokens per unit of time, lazily: the
level is brought up to date when the bucket is looked at.  Three actions change it: `take` removes a
token and is allowed when a whole token is there up to `tolerance`, `give` returns one, and `reset`
fills the bucket when it is full up to `tolerance`.

The bound is the usual one: in a window of length `T` at most `capacity + rate * T` tokens are taken,
plus what was given back in the window, plus the tolerance once for each `take` or `reset`.

## Main definitions

* `BucketRun` — what may happen to a bucket that starts full.
* `inWindow` — how often an action happened in a window.
* `BucketRun.taken_le` — the bound on a window.
-/

namespace VeloxRag.Lib

variable {K : Type*}

/-- A level and the time it was brought up to date. -/
structure Bucket (K : Type*) where
  level : K
  updated : K

inductive BucketAction
  | take
  | give
  | reset
  deriving DecidableEq

section Counts

variable [LinearOrder K]

/-- How often an action happened from `first` on. -/
def since (events : List (BucketAction × K)) (action : BucketAction) (first : K) : ℕ :=
  events.countP fun e => decide (e.1 = action ∧ first ≤ e.2)

/-- How often an action happened between two times. -/
def inWindow (events : List (BucketAction × K)) (action : BucketAction) (first last : K) : ℕ :=
  events.countP fun e => decide (e.1 = action ∧ first ≤ e.2 ∧ e.2 ≤ last)

variable {events : List (BucketAction × K)} {first last time : K} {action action' : BucketAction}

theorem since_concat : since (events ++ [(action', time)]) action first =
    since events action first + if action' = action ∧ first ≤ time then 1 else 0 := by
  simp [since, List.countP_append, List.countP_cons]

theorem inWindow_concat_of_lt (h : last < time) :
    inWindow (events ++ [(action', time)]) action first last = inWindow events action first last := by
  have hlate : ¬time ≤ last := not_le.mpr h
  simp [inWindow, List.countP_append, hlate]

theorem inWindow_eq_since (h : ∀ e ∈ events, e.2 ≤ last) :
    inWindow events action first last = since events action first := by
  apply List.countP_congr
  intro e he
  simp [h e he]

theorem since_eq_zero (h : ∀ e ∈ events, e.2 < first) : since events action first = 0 := by
  rw [since, List.countP_eq_zero]
  intro e he
  simp [h e he]

end Counts

variable [Field K] [LinearOrder K]

/-- What may happen to a bucket that starts full; the list tells the actions with their times. -/
inductive BucketRun (capacity rate tolerance : K) : List (BucketAction × K) → Bucket K → Prop
  | full (now : K) : BucketRun capacity rate tolerance [] ⟨capacity, now⟩
  | refill {events : List (BucketAction × K)} {b : Bucket K} {now : K}
      (run : BucketRun capacity rate tolerance events b) (later : b.updated ≤ now) :
      BucketRun capacity rate tolerance events
        ⟨min capacity (b.level + rate * (now - b.updated)), now⟩
  | take {events : List (BucketAction × K)} {b : Bucket K}
      (run : BucketRun capacity rate tolerance events b) (enough : 1 ≤ b.level + tolerance) :
      BucketRun capacity rate tolerance (events ++ [(.take, b.updated)])
        ⟨max 0 (b.level - 1), b.updated⟩
  | give {events : List (BucketAction × K)} {b : Bucket K}
      (run : BucketRun capacity rate tolerance events b) :
      BucketRun capacity rate tolerance (events ++ [(.give, b.updated)])
        ⟨min capacity (b.level + 1), b.updated⟩
  | reset {events : List (BucketAction × K)} {b : Bucket K}
      (run : BucketRun capacity rate tolerance events b) (enough : capacity ≤ b.level + tolerance) :
      BucketRun capacity rate tolerance (events ++ [(.reset, b.updated)]) ⟨capacity, b.updated⟩

variable [IsStrictOrderedRing K] {capacity rate tolerance first span : K} {b : Bucket K}
  {events : List (BucketAction × K)}

namespace BucketRun

omit [IsStrictOrderedRing K] in
/-- Nothing happened after the last refill. -/
theorem time_le (h : BucketRun capacity rate tolerance events b) : ∀ e ∈ events, e.2 ≤ b.updated := by
  induction h with
  | full now => simp
  | refill run later ih =>
    intro e he
    exact le_trans (ih e he) later
  | take run _ ih | give run ih | reset run _ ih =>
    intro e he
    rcases List.mem_append.mp he with he | he
    · exact ih e he
    · rw [List.mem_singleton.mp he]

theorem level_le (hcap : 0 ≤ capacity) (h : BucketRun capacity rate tolerance events b) :
    b.level ≤ capacity := by
  induction h with
  | full now => exact le_refl _
  | refill run later ih => exact min_le_left _ _
  | take run enough ih => exact max_le hcap (le_trans (sub_le_self _ zero_le_one) ih)
  | give run ih => exact min_le_left _ _
  | reset run enough ih => exact le_refl _

theorem level_nonneg (hcap : 0 ≤ capacity) (hrate : 0 ≤ rate)
    (h : BucketRun capacity rate tolerance events b) : 0 ≤ b.level := by
  induction h with
  | full now => exact hcap
  | refill run later ih =>
    exact le_min hcap (add_nonneg ih (mul_nonneg hrate (sub_nonneg.mpr later)))
  | take run enough ih => exact le_max_left _ _
  | give run ih => exact le_min hcap (add_nonneg ih zero_le_one)
  | reset run enough ih => exact hcap

/-- What the tokens taken since `first` may come from. -/
def budget (capacity rate tolerance : K) (events : List (BucketAction × K)) (first last : K) : K :=
  capacity + rate * (last - first) + since events .give first +
    tolerance * (since events .take first + since events .reset first)

theorem capacity_le_budget (capacity : K) (events : List (BucketAction × K)) {last : K}
    (hrate : 0 ≤ rate) (htol : 0 ≤ tolerance) (h : first ≤ last) :
    capacity ≤ budget capacity rate tolerance events first last := by
  have hrefill := mul_nonneg hrate (sub_nonneg.mpr h)
  have hactions := mul_nonneg htol (add_nonneg (Nat.cast_nonneg (since events .take first))
    (Nat.cast_nonneg (since events .reset first)))
  have hgiven : (0 : K) ≤ since events .give first := Nat.cast_nonneg _
  unfold budget
  linarith

/-- The level and the tokens taken since `first` stay within the budget. -/
theorem level_add_taken_le (hrate : 0 ≤ rate) (htol : 0 ≤ tolerance)
    (h : BucketRun capacity rate tolerance events b) (hfirst : first ≤ b.updated) :
    b.level + since events .take first ≤
      budget capacity rate tolerance events first b.updated := by
  induction h with
  | full now =>
    have hbudget := capacity_le_budget capacity [] hrate htol hfirst
    simpa [since] using hbudget
  | @refill events b now run later ih =>
    rcases le_or_gt first b.updated with hle | hlt
    · -- the window was open already: the refill pays for what the level gains
      have hlevel := min_le_right capacity (b.level + rate * (now - b.updated))
      have hbefore := ih hle
      simp only [budget] at hbefore ⊢
      linarith
    · -- nothing happened in the window yet
      have hzero : since events .take first = 0 :=
        since_eq_zero fun e he => lt_of_le_of_lt (run.time_le e he) hlt
      rw [hzero, Nat.cast_zero, add_zero]
      exact le_trans (min_le_left _ _) (capacity_le_budget _ _ hrate htol hfirst)
  | @take events b run enough ih =>
    have hbefore := ih hfirst
    have hlevel : max 0 (b.level - 1) ≤ b.level - 1 + tolerance :=
      max_le (by linarith) (by linarith)
    simp only [budget, since_concat, hfirst] at hbefore ⊢
    simp only [reduceCtorEq, if_false, and_true, if_true, Nat.cast_add, Nat.cast_one,
      add_zero]
    linarith
  | @give events b run ih =>
    have hbefore := ih hfirst
    have hlevel := min_le_right capacity (b.level + 1)
    simp only [budget, since_concat, hfirst] at hbefore ⊢
    simp only [reduceCtorEq, if_false, and_true, if_true, Nat.cast_add, Nat.cast_one,
      add_zero]
    linarith
  | @reset events b run enough ih =>
    have hbefore := ih hfirst
    simp only [budget, since_concat, hfirst] at hbefore ⊢
    simp only [reduceCtorEq, if_false, and_true, if_true, Nat.cast_add, Nat.cast_one,
      add_zero]
    linarith

/-- The bound on a window that is still open. -/
theorem taken_le_of_open (hcap : 0 ≤ capacity) (hrate : 0 ≤ rate) (htol : 0 ≤ tolerance)
    (h : BucketRun capacity rate tolerance events b) (hspan : 0 ≤ span)
    (hlast : b.updated ≤ first + span) :
    (inWindow events .take first (first + span) : K) ≤ capacity + rate * span +
      inWindow events .give first (first + span) +
        tolerance * (inWindow events .take first (first + span) +
          inWindow events .reset first (first + span)) := by
  have htimes : ∀ e ∈ events, e.2 ≤ first + span := fun e he => le_trans (h.time_le e he) hlast
  simp only [inWindow_eq_since htimes]
  have hfull : first + span - first = span := by ring
  rcases le_or_gt first b.updated with hle | hlt
  · have hbudget := level_add_taken_le hrate htol h hle
    have hlevel := level_nonneg hcap hrate h
    have hrefill := mul_le_mul_of_nonneg_left (sub_le_sub_right hlast first) hrate
    rw [hfull] at hrefill
    unfold budget at hbudget
    linarith
  · have hzero : since events .take first = 0 :=
      since_eq_zero fun e he => lt_of_le_of_lt (h.time_le e he) hlt
    have hbudget := capacity_le_budget capacity events hrate htol
      (le_add_of_nonneg_right hspan : first ≤ first + span)
    rw [budget, hfull, hzero] at hbudget
    rw [hzero, Nat.cast_zero]
    exact le_trans hcap (by simpa using hbudget)

/-- The bound on a window of length `span`. -/
theorem taken_le (first : K) (hcap : 0 ≤ capacity) (hrate : 0 ≤ rate) (htol : 0 ≤ tolerance)
    (h : BucketRun capacity rate tolerance events b) (hspan : 0 ≤ span) :
    (inWindow events .take first (first + span) : K) ≤ capacity + rate * span +
      inWindow events .give first (first + span) +
        tolerance * (inWindow events .take first (first + span) +
          inWindow events .reset first (first + span)) := by
  -- an action that comes too late for the window does not count; otherwise the window is open
  induction h with
  | full now =>
    have hrefill := mul_nonneg hrate hspan
    simp only [inWindow, List.countP_nil, Nat.cast_zero, add_zero, mul_zero]
    linarith
  | refill run later ih => exact ih
  | @take events b run enough ih =>
    rcases le_or_gt b.updated (first + span) with hle | hlt
    · exact taken_le_of_open hcap hrate htol (run.take enough) hspan hle
    · simpa only [inWindow_concat_of_lt hlt] using ih
  | @give events b run ih =>
    rcases le_or_gt b.updated (first + span) with hle | hlt
    · exact taken_le_of_open hcap hrate htol run.give hspan hle
    · simpa only [inWindow_concat_of_lt hlt] using ih
  | @reset events b run enough ih =>
    rcases le_or_gt b.updated (first + span) with hle | hlt
    · exact taken_le_of_open hcap hrate htol (run.reset enough) hspan hle
    · simpa only [inWindow_concat_of_lt hlt] using ih

end BucketRun

end VeloxRag.Lib
