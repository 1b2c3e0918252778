import Mathlib

/-!
# Slices of a sequence

The positions a slice object selects from a sequence of a given length, as Python
defines them: each bound is counted from the end when negative, clamped to the
sequence, and the positions are those of the range with the slice's step.

## Main definitions

* `PySlice`, `PySlice.positions` — slices and the positions they select.
* `PySlice.positions_bounds` — every selected position is inside the sequence.
* `pyIndex`, `pySlice` — a list read at an integer and at a slice.
-/

namespace VeloxRag.Lib

/-- A slice object; an absent field is `None`. -/
structure PySlice where
  start : Option ℤ
  stop : Option ℤ
  step : Option ℤ
deriving DecidableEq, Repr

/-- A bound of a slice: `None` gives the default, a negative bound counts from the end,
and the result is clamped to `[lower, upper]`. -/
def PySlice.bound (length lower upper default : ℤ) : Option ℤ → ℤ
  | none => default
  | some v => if v < 0 then max (v + length) lower else min v upper

/-- `slice.indices(length)` as the positions of `range(*indices)`, for a step that is not zero.
The range has `⌈(stop - start) / step⌉` members, none when the step leads away from `stop`. -/
def PySlice.positions (s : PySlice) (length : ℕ) : Option (List ℤ) :=
  let step := s.step.getD 1
  if step = 0 then none
  else if 0 < step then
    let start := PySlice.bound length 0 length 0 s.start
    let stop := PySlice.bound length 0 length length s.stop
    some ((List.range ((stop - start + step - 1) / step).toNat).map fun k : ℕ => start + (k : ℤ) * step)
  else
    let start := PySlice.bound length (-1) (length - 1) (length - 1) s.start
    let stop := PySlice.bound length (-1) (length - 1) (-1) s.stop
    some ((List.range ((start - stop + -step - 1) / (-step)).toNat).map fun k : ℕ => start + (k : ℤ) * step)

/-- The members of a range stay before its stop: `distance` is how far the stop is away. -/
theorem mul_lt_of_lt_ceilDiv {distance step : ℤ} (hstep : 0 < step) {k : ℕ}
    (hk : k < ((distance + step - 1) / step).toNat) : (k : ℤ) * step < distance := by
  have hk' : (k : ℤ) + 1 ≤ (distance + step - 1) / step := by omega
  have h1 : ((k : ℤ) + 1) * step ≤ distance + step - 1 := (Int.le_ediv_iff_mul_le hstep).mp hk'
  linarith [add_mul (k : ℤ) 1 step]

theorem PySlice.bound_mem {length lower upper default : ℤ} (hl : lower ≤ default)
    (hu : default ≤ upper) (hlow : lower ≤ 0) (hup : length - 1 ≤ upper) (v : Option ℤ) :
    lower ≤ PySlice.bound length lower upper default v ∧
      PySlice.bound length lower upper default v ≤ upper := by
  unfold PySlice.bound
  cases v with
  | none => exact ⟨hl, hu⟩
  | some v =>
      simp only
      split <;> omega

/-- A slice only visits positions inside the sequence. -/
theorem PySlice.positions_bounds {s : PySlice} {length : ℕ} {ps : List ℤ}
    (h : s.positions length = some ps) : ∀ p ∈ ps, 0 ≤ p ∧ p < length := by
  unfold PySlice.positions at h
  simp only at h
  generalize s.step.getD 1 = step at h
  split at h
  · cases h
  · split at h
    · rename_i hpos
      injection h with h
      subst h
      intro p hp
      obtain ⟨k, hk, rfl⟩ := List.mem_map.mp hp
      have hstart : 0 ≤ PySlice.bound length 0 length 0 s.start ∧
          PySlice.bound length 0 length 0 s.start ≤ length :=
        PySlice.bound_mem (by omega) (by omega) (by omega) (by omega) s.start
      have hstop : 0 ≤ PySlice.bound length 0 length length s.stop ∧
          PySlice.bound length 0 length length s.stop ≤ length :=
        PySlice.bound_mem (by omega) (by omega) (by omega) (by omega) s.stop
      have hlt := mul_lt_of_lt_ceilDiv hpos (List.mem_range.mp hk)
      have h0 : 0 ≤ (k : ℤ) * step := mul_nonneg (by omega) (le_of_lt hpos)
      omega
    · have hneg : 0 < -step := by omega
      injection h with h
      subst h
      intro p hp
      obtain ⟨k, hk, rfl⟩ := List.mem_map.mp hp
      rw [List.mem_range] at hk
      generalize hs : PySlice.bound length (-1) (length - 1) (length - 1) s.start = start at hk ⊢
      generalize ht : PySlice.bound length (-1) (length - 1) (-1) s.stop = stop at hk
      have hstart : start ≤ length - 1 := hs ▸ (PySlice.bound_mem (by omega) (by omega) (by omega)
        (by omega) s.start).2
      have hstop : -1 ≤ stop := ht ▸ (PySlice.bound_mem (by omega) (by omega) (by omega)
        (by omega) s.stop).1
      have hlt := mul_lt_of_lt_ceilDiv hneg hk
      have h0 : 0 ≤ (k : ℤ) * -step := mul_nonneg (by omega) (le_of_lt hneg)
      have hm : (k : ℤ) * -step = -(k * step) := by ring
      omega

/-- A tuple read at an integer; `none` is an `IndexError`. -/
def pyIndex {α : Type*} (xs : List α) (index : ℤ) : Option α :=
  let position := if index < 0 then index + xs.length else index
  if 0 ≤ position ∧ position < xs.length then xs[position.toNat]? else none

theorem pyIndex_natCast {α : Type*} (xs : List α) (k : ℕ) : pyIndex xs (k : ℤ) = xs[k]? := by
  unfold pyIndex
  simp only [show ¬ (k : ℤ) < 0 by omega, if_false, Int.toNat_natCast]
  split
  · rfl
  · rw [List.getElem?_eq_none (by omega)]

/-- A tuple read at a slice; `none` is the `ValueError` of a step that is zero. -/
def pySlice {α : Type*} (xs : List α) (s : PySlice) : Option (List α) :=
  (s.positions xs.length).map fun ps => ps.filterMap (pyIndex xs)

end VeloxRag.Lib
