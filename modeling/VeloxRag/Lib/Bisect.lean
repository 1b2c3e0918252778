import Mathlib

/-!
# Half-open binary search over a downward-closed predicate

Every binary search of the service is one loop: halve `[lo, hi)`, move the lower
end past the middle while a test holds there, and stop when the interval is empty.
`bisect` is that loop with the test as a parameter.  The fuel is the length of the
interval, which halving never exhausts, so no statement below mentions it.

The searches on lists are instances: `bisectLeft` and `bisectRight` are Python's
functions of these names, and the queries `firstIn` and `lastIn` say what a search
for the first or last element of a window means without saying how it is found.

## Main definitions

* `bisect p lo hi` — the loop.
* `bisectLeft`, `bisectRight` — insertion points in a list.
* `firstIn`, `lastIn` — the first or last element inside a window.
* `bisect_spec` — what the loop returns.
-/

namespace VeloxRag.Lib

/-- The loop with explicit fuel. -/
def bisectGo (p : ℕ → Bool) : ℕ → ℕ → ℕ → ℕ
  | 0, lo, _ => lo
  | fuel + 1, lo, hi =>
      if lo < hi then
        if p ((lo + hi) / 2) then bisectGo p fuel ((lo + hi) / 2 + 1) hi
        else bisectGo p fuel lo ((lo + hi) / 2)
      else lo

/-- Binary search for the first position of `[lo, hi)` at which `p` fails. -/
def bisect (p : ℕ → Bool) (lo hi : ℕ) : ℕ := bisectGo p (hi - lo) lo hi

/-- `p` holds up to some position of `[lo, hi)` and nowhere from there on. -/
def DownClosed (p : ℕ → Bool) (lo hi : ℕ) : Prop :=
  ∀ i j, lo ≤ i → i ≤ j → j < hi → p j → p i

theorem bisectGo_spec (p : ℕ → Bool) :
    ∀ (fuel lo hi : ℕ), lo ≤ hi → hi - lo ≤ fuel → DownClosed p lo hi →
      lo ≤ bisectGo p fuel lo hi ∧ bisectGo p fuel lo hi ≤ hi ∧
      (∀ i, lo ≤ i → i < bisectGo p fuel lo hi → p i) ∧
      (∀ i, bisectGo p fuel lo hi ≤ i → i < hi → ¬ p i) := by
  intro fuel
  induction fuel with
  | zero =>
      intro lo hi hle hfuel _
      refine ⟨le_refl lo, hle, ?_, ?_⟩
      · intro i h1 h2
        simp only [bisectGo] at h2
        omega
      · intro i h1 h2
        simp only [bisectGo] at h1
        omega
  | succ fuel ih =>
      intro lo hi hle hfuel hp
      by_cases hlt : lo < hi
      · by_cases hm : p ((lo + hi) / 2)
        · -- the test holds in the middle, hence on the whole left half
          have hrec := ih ((lo + hi) / 2 + 1) hi (by omega) (by omega)
            (fun i j h1 h2 h3 h4 => hp i j (by omega) h2 h3 h4)
          simp only [bisectGo, hlt, if_true, hm]
          refine ⟨by omega, hrec.2.1, ?_, hrec.2.2.2⟩
          intro i h1 h2
          by_cases hi' : i ≤ (lo + hi) / 2
          · exact hp i _ h1 hi' (by omega) hm
          · exact hrec.2.2.1 i (by omega) h2
        · have hrec := ih lo ((lo + hi) / 2) (by omega) (by omega)
            (fun i j h1 h2 h3 h4 => hp i j h1 h2 (by omega) h4)
          simp only [bisectGo, hlt, if_true, hm, Bool.false_eq_true, if_false]
          refine ⟨hrec.1, by omega, hrec.2.2.1, ?_⟩
          intro i h1 h2
          by_cases hi' : i < (lo + hi) / 2
          · exact hrec.2.2.2 i h1 hi'
          · intro hpi
            exact hm (hp _ i (by omega) (by omega) h2 hpi)
      · have heq : hi = lo := by omega
        subst heq
        simp only [bisectGo, lt_irrefl, if_false]
        exact ⟨le_refl _, le_refl _, fun i h1 h2 => by omega, fun i h1 h2 => by omega⟩

/-- **What the search returns**: the test holds before the result and fails from it on. -/
theorem bisect_spec {p : ℕ → Bool} {lo hi : ℕ} (hle : lo ≤ hi) (hp : DownClosed p lo hi) :
    lo ≤ bisect p lo hi ∧ bisect p lo hi ≤ hi ∧
    (∀ i, lo ≤ i → i < bisect p lo hi → p i) ∧
    (∀ i, bisect p lo hi ≤ i → i < hi → ¬ p i) :=
  bisectGo_spec p (hi - lo) lo hi hle (le_refl _) hp

/-- Tests that agree on the interval are searched alike. -/
theorem bisect_congr {p q : ℕ → Bool} {lo hi : ℕ} (h : ∀ i, lo ≤ i → i < hi → p i = q i) :
    bisect p lo hi = bisect q lo hi := by
  have hgo : ∀ fuel lo hi, (∀ i, lo ≤ i → i < hi → p i = q i) →
      bisectGo p fuel lo hi = bisectGo q fuel lo hi := by
    intro fuel
    induction fuel with
    | zero => intro lo hi _; rfl
    | succ fuel ih =>
        intro lo hi heq
        by_cases hlt : lo < hi
        · simp only [bisectGo, hlt, if_true, heq ((lo + hi) / 2) (by omega) (by omega)]
          rw [ih _ hi (fun i h1 h2 => heq i (by omega) h2),
            ih lo _ (fun i h1 h2 => heq i h1 (by omega))]
        · simp only [bisectGo, hlt, if_false]
  exact hgo _ lo hi h

/-! ## Sorted lists -/

/-- Python's `bisect_left`. -/
def bisectLeft (xs : List ℕ) (x : ℕ) : ℕ := bisect (fun i => decide (xs.getD i 0 < x)) 0 xs.length

/-- Python's `bisect_right`. -/
def bisectRight (xs : List ℕ) (x : ℕ) : ℕ := bisect (fun i => decide (xs.getD i 0 ≤ x)) 0 xs.length

/-- Strictly increasing lists, the shape of every list searched here. -/
abbrev Increasing (xs : List ℕ) : Prop := xs.Pairwise (· < ·)

/-- The first element in `[lo, hi)`. -/
def firstIn (xs : List ℕ) (lo hi : ℕ) : Option ℕ :=
  (xs.find? (fun x => decide (lo ≤ x))).filter (fun x => decide (x < hi))

/-- The last element in `(lo, hi]`. -/
def lastIn (xs : List ℕ) (lo hi : ℕ) : Option ℕ :=
  (xs.reverse.find? (fun x => decide (x ≤ hi))).filter (fun x => decide (lo < x))

theorem Increasing.getD_lt {xs : List ℕ} (h : Increasing xs) {i j : ℕ} (hij : i < j)
    (hj : j < xs.length) : xs.getD i 0 < xs.getD j 0 := by
  rw [List.getD_eq_getElem _ _ (by omega), List.getD_eq_getElem _ _ hj]
  exact List.pairwise_iff_getElem.mp h i j (by omega) hj hij

theorem Increasing.getD_le {xs : List ℕ} (h : Increasing xs) {i j : ℕ} (hij : i ≤ j)
    (hj : j < xs.length) : xs.getD i 0 ≤ xs.getD j 0 := by
  rcases Nat.lt_or_eq_of_le hij with hlt | rfl
  · exact le_of_lt (h.getD_lt hlt hj)
  · exact le_refl _

/-- Splitting a list where a test first holds reads off `find?`. -/
theorem find?_eq_getElem?_of_turn {xs : List ℕ} {p : ℕ → Bool} {r : ℕ}
    (hbelow : ∀ i, i < r → i < xs.length → p (xs.getD i 0) = false)
    (hat : r < xs.length → p (xs.getD r 0) = true) : xs.find? p = xs[r]? := by
  induction xs generalizing r with
  | nil => simp
  | cons x xs ih =>
      cases r with
      | zero =>
          have : p x = true := by simpa using hat (by simp)
          simp [this]
      | succ r =>
          have hx : p x = false := by simpa using hbelow 0 (by omega) (by simp)
          have hrec := ih (r := r) (fun i h1 h2 => by simpa using hbelow (i + 1) (by omega) (by simpa using h2))
            (fun h => by simpa using hat (by simpa using h))
          simp [hx, hrec]

theorem downClosed_lt {xs : List ℕ} (h : Increasing xs) (x : ℕ) :
    DownClosed (fun i => decide (xs.getD i 0 < x)) 0 xs.length := by
  intro i j _ hij hj hpj
  simp only [decide_eq_true_eq] at hpj ⊢
  exact lt_of_le_of_lt (h.getD_le hij hj) hpj

theorem downClosed_le {xs : List ℕ} (h : Increasing xs) (x : ℕ) :
    DownClosed (fun i => decide (xs.getD i 0 ≤ x)) 0 xs.length := by
  intro i j _ hij hj hpj
  simp only [decide_eq_true_eq] at hpj ⊢
  exact le_trans (h.getD_le hij hj) hpj

theorem bisectLeft_spec {xs : List ℕ} (h : Increasing xs) (x : ℕ) :
    bisectLeft xs x ≤ xs.length ∧ (∀ i, i < bisectLeft xs x → xs.getD i 0 < x) ∧
      (∀ i, bisectLeft xs x ≤ i → i < xs.length → x ≤ xs.getD i 0) := by
  obtain ⟨_, hle, hbelow, habove⟩ := bisect_spec (Nat.zero_le _) (downClosed_lt h x)
  refine ⟨hle, fun i hi => ?_, fun i h1 h2 => ?_⟩
  · simpa using hbelow i (Nat.zero_le i) hi
  · simpa using habove i h1 h2

theorem bisectRight_spec {xs : List ℕ} (h : Increasing xs) (x : ℕ) :
    bisectRight xs x ≤ xs.length ∧ (∀ i, i < bisectRight xs x → xs.getD i 0 ≤ x) ∧
      (∀ i, bisectRight xs x ≤ i → i < xs.length → x < xs.getD i 0) := by
  obtain ⟨_, hle, hbelow, habove⟩ := bisect_spec (Nat.zero_le _) (downClosed_le h x)
  refine ⟨hle, fun i hi => ?_, fun i h1 h2 => ?_⟩
  · simpa using hbelow i (Nat.zero_le i) hi
  · simpa using habove i h1 h2

/-- The left insertion point stands at the first element not below `x`. -/
theorem find?_eq_bisectLeft {xs : List ℕ} (h : Increasing xs) (x : ℕ) :
    xs.find? (fun y => decide (x ≤ y)) = xs[bisectLeft xs x]? := by
  obtain ⟨_, hbelow, habove⟩ := bisectLeft_spec h x
  refine find?_eq_getElem?_of_turn ?_ ?_
  · intro i hi _
    simpa using hbelow i hi
  · intro hr
    simpa using habove _ (le_refl _) hr

/-- Splitting a list where a test last holds reads off a search from the back. -/
theorem reverse_find?_eq {α : Type*} {xs : List α} {p : α → Bool} {r : ℕ} (hr : r ≤ xs.length)
    (hbelow : ∀ x, 0 < r → xs[r - 1]? = some x → p x = true)
    (habove : ∀ i x, r ≤ i → xs[i]? = some x → p x = false) :
    xs.reverse.find? p = if r = 0 then none else xs[r - 1]? := by
  induction xs using List.reverseRecOn with
  | nil =>
      simp
  | append_singleton xs x ih =>
      rw [List.reverse_append, List.reverse_singleton, List.singleton_append, List.find?_cons]
      rw [List.length_append, List.length_singleton] at hr
      rcases Nat.lt_or_ge xs.length r with hlt | hge
      · have hrx : r = xs.length + 1 := by omega
        subst hrx
        have hx : p x = true := hbelow x (by omega) (by simp)
        simp [hx]
      · have hx : p x = false := habove xs.length x hge (by simp)
        rw [hx]
        simp only
        rw [ih hge (fun y h0 hy => hbelow y h0 (by rw [List.getElem?_append_left (by omega)]; exact hy))
          (fun i y h1 hy => habove i y h1 (by
            rw [List.getElem?_append_left (List.getElem?_eq_some_iff.mp hy).1]
            exact hy))]
        by_cases h0 : r = 0
        · simp [h0]
        · simp only [h0, if_false]
          rw [List.getElem?_append_left (by omega)]

theorem reverse_find?_eq_bisectRight {xs : List ℕ} (h : Increasing xs) (x : ℕ) :
    xs.reverse.find? (fun y => decide (y ≤ x)) =
      if bisectRight xs x = 0 then none else xs[bisectRight xs x - 1]? := by
  obtain ⟨hle, hbelow, habove⟩ := bisectRight_spec h x
  refine reverse_find?_eq hle ?_ ?_
  · intro y h0 hy
    have := hbelow _ (Nat.sub_lt h0 Nat.one_pos)
    rw [List.getD_eq_getElem?_getD, hy] at this
    simpa using this
  · intro i y h1 hy
    have := habove i h1 (List.getElem?_eq_some_iff.mp hy).1
    rw [List.getD_eq_getElem?_getD, hy] at this
    simpa using this

theorem mem_iff_find? {xs : List ℕ} (h : Increasing xs) (x : ℕ) :
    x ∈ xs ↔ xs.find? (fun y => decide (x ≤ y)) = some x := by
  constructor
  · intro hx
    induction xs with
    | nil => simp at hx
    | cons y ys ih =>
        rw [List.find?_cons]
        rcases List.mem_cons.mp hx with rfl | hmem
        · simp
        · have hlt : y < x := (List.pairwise_cons.mp h).1 x hmem
          have hnle : ¬ x ≤ y := by omega
          simp only [hnle, decide_false]
          exact ih (List.pairwise_cons.mp h).2 hmem
  · intro hf
    exact List.mem_of_find?_eq_some hf

theorem firstIn_bounds {xs : List ℕ} {lo hi x : ℕ} (h : firstIn xs lo hi = some x) :
    lo ≤ x ∧ x < hi ∧ x ∈ xs := by
  unfold firstIn at h
  obtain ⟨hf, hlt⟩ := Option.filter_eq_some_iff.mp h
  have hle := List.find?_some hf
  simp only [decide_eq_true_eq] at hle hlt
  exact ⟨hle, hlt, List.mem_of_find?_eq_some hf⟩

theorem lastIn_bounds {xs : List ℕ} {lo hi x : ℕ} (h : lastIn xs lo hi = some x) :
    lo < x ∧ x ≤ hi ∧ x ∈ xs := by
  unfold lastIn at h
  obtain ⟨hf, hlt⟩ := Option.filter_eq_some_iff.mp h
  have hle := List.find?_some hf
  simp only [decide_eq_true_eq] at hle hlt
  exact ⟨hlt, hle, by simpa using List.mem_of_find?_eq_some hf⟩

/-- The first element of a window is not after any other. -/
theorem firstIn_le {xs : List ℕ} (h : Increasing xs) {lo hi x : ℕ} (hx : x ∈ xs) (hlo : lo ≤ x)
    (hhi : x < hi) : ∃ first, firstIn xs lo hi = some first ∧ first ≤ x := by
  have hle : ∀ first, xs.find? (fun y => decide (lo ≤ y)) = some first → first ≤ x := by
    intro first hfirst
    obtain ⟨-, front, back, rfl, hfront⟩ := List.find?_eq_some_iff_append.mp hfirst
    rcases List.mem_append.mp hx with hmem | hmem
    · have := hfront x hmem
      simp only [Bool.not_eq_true', decide_eq_false_iff_not] at this
      exact absurd hlo this
    · rcases List.mem_cons.mp hmem with rfl | hmem
      · exact le_refl _
      · exact ((List.pairwise_cons.mp (List.pairwise_append.mp h).2.1).1 x hmem).le
  cases hfind : xs.find? (fun y => decide (lo ≤ y)) with
  | none =>
      have := List.find?_eq_none.mp hfind x hx
      simp only [decide_eq_true_eq] at this
      exact absurd hlo this
  | some first =>
      have hfirst := hle first hfind
      refine ⟨first, ?_, hfirst⟩
      rw [firstIn, hfind, Option.filter_some_pos]
      simp only [decide_eq_true_eq]
      exact hfirst.trans_lt hhi

end VeloxRag.Lib
