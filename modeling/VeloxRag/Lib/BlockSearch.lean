import VeloxRag.Lib.Bisect
import VeloxRag.Lib.Periodic

/-!
# Searching a sorted list given in blocks

A sorted list is given as a list of blocks, none of them empty, and only the first and
last element of a block can be read without opening it.  A search for the first element
not below a bound chooses the first block whose last element is not below it; a search
for the last element not above a bound chooses the last block whose first element is not
above it.  Either way the block that is chosen holds the answer.

## Main definitions

* `Blocks segs` — blocks that are not empty and sorted as a whole.
* `find?_flatten_eq_block` — the search from the front.
* `reverse_find?_flatten_eq_block` — the search from the back.
* `bisectRight_counts` — the search by index, through running totals.
-/

namespace VeloxRag.Lib

/-- Blocks of a strictly increasing list, none of them empty. -/
structure Blocks (segs : List (List ℕ)) : Prop where
  nonempty : ∀ s ∈ segs, s ≠ []
  increasing : Increasing segs.flatten

theorem Blocks.block_increasing {segs : List (List ℕ)} (h : Blocks segs) {s : List ℕ}
    (hs : s ∈ segs) : Increasing s :=
  h.increasing.sublist (List.sublist_flatten_of_mem hs)

/-- Everything in an earlier block is below everything in a later one. -/
theorem Blocks.lt_of_lt {segs : List (List ℕ)} (h : Blocks segs) {j k : ℕ} {s u : List ℕ}
    (hj : segs[j]? = some s) (hk : segs[k]? = some u) (hjk : j < k) {x y : ℕ} (hx : x ∈ s)
    (hy : y ∈ u) : x < y := by
  have hpair := (List.pairwise_flatten.mp h.increasing).2
  obtain ⟨hjl, hj'⟩ := List.getElem?_eq_some_iff.mp hj
  obtain ⟨hkl, hk'⟩ := List.getElem?_eq_some_iff.mp hk
  have := List.pairwise_iff_getElem.mp hpair j k hjl hkl hjk
  rw [hj', hk'] at this
  exact this x hx y hy

/-- The last element of an increasing list is its largest. -/
theorem Increasing.le_getLast {xs : List ℕ} (h : Increasing xs) {l : ℕ} (hl : xs.getLast? = some l)
    {x : ℕ} (hx : x ∈ xs) : x ≤ l := by
  rcases List.eq_nil_or_concat xs with rfl | ⟨ys, y, rfl⟩
  · simp at hx
  · rw [List.concat_eq_append] at h hl hx
    have hyl : y = l := by simpa using hl
    subst hyl
    rcases List.mem_append.mp hx with hx | hx
    · exact le_of_lt ((List.pairwise_append.mp h).2.2 x hx y (by simp))
    · rw [List.mem_singleton.mp hx]

/-- The first element of an increasing list is its smallest. -/
theorem Increasing.head_le {xs : List ℕ} (h : Increasing xs) {f : ℕ} (hf : xs.head? = some f)
    {x : ℕ} (hx : x ∈ xs) : f ≤ x := by
  cases xs with
  | nil => simp at hx
  | cons y ys =>
      have hyf : y = f := by simpa using hf
      subst hyf
      rcases List.mem_cons.mp hx with rfl | hx
      · exact le_refl _
      · exact le_of_lt ((List.pairwise_cons.mp h).1 x hx)

/-- **Searching from the front**: the answer is in the first block that reaches the bound. -/
theorem find?_flatten_eq_block {segs : List (List ℕ)} (h : Blocks segs) {last : ℕ → ℕ}
    (hlast : ∀ k s, segs[k]? = some s → s.getLast? = some (last k)) (lo : ℕ) :
    segs.flatten.find? (fun x => decide (lo ≤ x)) =
        (segs[bisect (fun k => decide (last k < lo)) 0 segs.length]?).bind
          (fun s => s[bisectLeft s lo]?) ∧
      ∀ s, segs[bisect (fun k => decide (last k < lo)) 0 segs.length]? = some s →
        bisectLeft s lo < s.length := by
  have hdown : DownClosed (fun k => decide (last k < lo)) 0 segs.length := by
    intro i j _ hij hj hp
    simp only [decide_eq_true_eq] at hp ⊢
    rcases Nat.lt_or_eq_of_le hij with hlt | rfl
    · have hsi := List.getElem?_eq_getElem (l := segs) (i := i) (by omega)
      have hsj := List.getElem?_eq_getElem hj
      exact lt_trans (h.lt_of_lt hsi hsj hlt (List.mem_of_getLast? (hlast _ _ hsi))
        (List.mem_of_getLast? (hlast _ _ hsj))) hp
    · exact hp
  obtain ⟨_, hle, hbelow, habove⟩ := bisect_spec (Nat.zero_le _) hdown
  generalize bisect (fun k => decide (last k < lo)) 0 segs.length = k at hle hbelow habove
  have hskip : ∀ j t, j < k → segs[j]? = some t → ∀ x ∈ t, decide (lo ≤ x) = false := by
    intro j t hj ht x hx
    have hp := hbelow j (Nat.zero_le j) hj
    simp only [decide_eq_true_eq] at hp
    have := (h.block_increasing (List.mem_of_getElem? ht)).le_getLast (hlast j t ht) hx
    simp only [decide_eq_false_iff_not]
    omega
  cases hs : segs[k]? with
  | none =>
      refine ⟨?_, by simp⟩
      rw [Option.bind_none]
      refine find?_flatten_none ?_
      intro t ht
      obtain ⟨j, hj⟩ := List.mem_iff_getElem?.mp ht
      have hjl := (List.getElem?_eq_some_iff.mp hj).1
      have hkl := List.getElem?_eq_none_iff.mp hs
      exact hskip j t (by omega) hj
  | some s =>
      have hkl := (List.getElem?_eq_some_iff.mp hs).1
      have hinc := h.block_increasing (List.mem_of_getElem? hs)
      have hreach : lo ≤ last k := by
        have := habove k (le_refl k) hkl
        simpa using this
      have hmem := List.mem_of_getLast? (hlast k s hs)
      have hhit : (s.find? (fun x => decide (lo ≤ x))).isSome := by
        rw [List.find?_isSome]
        exact ⟨_, hmem, by simpa using hreach⟩
      have hfind := find?_flatten hs hskip hhit
      rw [find?_eq_bisectLeft hinc] at hfind hhit
      refine ⟨hfind, ?_⟩
      intro s' hs'
      injection hs' with hs'
      subst hs'
      by_contra hge
      rw [List.getElem?_eq_none (by omega)] at hhit
      simp at hhit

/-- **Searching from the back**: the answer is in the last block that starts within the bound. -/
theorem reverse_find?_flatten_eq_block {segs : List (List ℕ)} (h : Blocks segs) {first : ℕ → ℕ}
    (hfirst : ∀ k s, segs[k]? = some s → s.head? = some (first k)) (hi : ℕ) :
    (bisect (fun k => decide (first k ≤ hi)) 0 segs.length = 0 →
      segs.flatten.reverse.find? (fun x => decide (x ≤ hi)) = none) ∧
    (0 < bisect (fun k => decide (first k ≤ hi)) 0 segs.length →
      ∃ s, segs[bisect (fun k => decide (first k ≤ hi)) 0 segs.length - 1]? = some s ∧
        0 < bisectRight s hi ∧
        segs.flatten.reverse.find? (fun x => decide (x ≤ hi)) = s[bisectRight s hi - 1]?) := by
  have hdown : DownClosed (fun k => decide (first k ≤ hi)) 0 segs.length := by
    intro i j _ hij hj hp
    simp only [decide_eq_true_eq] at hp ⊢
    rcases Nat.lt_or_eq_of_le hij with hlt | rfl
    · have hsi := List.getElem?_eq_getElem (l := segs) (i := i) (by omega)
      have hsj := List.getElem?_eq_getElem hj
      exact le_trans (le_of_lt (h.lt_of_lt hsi hsj hlt (List.mem_of_head? (hfirst _ _ hsi))
        (List.mem_of_head? (hfirst _ _ hsj)))) hp
    · exact hp
  obtain ⟨_, hle, hbelow, habove⟩ := bisect_spec (Nat.zero_le _) hdown
  generalize bisect (fun k => decide (first k ≤ hi)) 0 segs.length = k at hle hbelow habove
  have hskip : ∀ j t, k ≤ j → segs[j]? = some t → ∀ x ∈ t, decide (x ≤ hi) = false := by
    intro j t hj ht x hx
    have hp := habove j hj (List.getElem?_eq_some_iff.mp ht).1
    simp only [decide_eq_true_eq, not_le] at hp
    have := (h.block_increasing (List.mem_of_getElem? ht)).head_le (hfirst j t ht) hx
    simp only [decide_eq_false_iff_not]
    omega
  constructor
  · intro h0
    rw [List.find?_eq_none]
    intro x hx
    obtain ⟨t, ht, hxt⟩ := List.mem_flatten.mp (List.mem_reverse.mp hx)
    obtain ⟨j, hj⟩ := List.mem_iff_getElem?.mp ht
    simp only [hskip j t (by omega) hj x hxt, Bool.false_eq_true, not_false_eq_true]
  · intro hpos
    have hs := List.getElem?_eq_getElem (l := segs) (i := k - 1) (by omega)
    generalize segs[k - 1] = s at hs
    have hinc := h.block_increasing (List.mem_of_getElem? hs)
    have hp := hbelow (k - 1) (Nat.zero_le _) (by omega)
    simp only [decide_eq_true_eq] at hp
    have hmem := List.mem_of_head? (hfirst _ s hs)
    have hhit : (s.reverse.find? (fun x => decide (x ≤ hi))).isSome := by
      rw [List.find?_isSome]
      exact ⟨_, List.mem_reverse.mpr hmem, by simpa using hp⟩
    have hfind := reverse_find?_flatten hs (fun j t hj ht => hskip j t (by omega) ht) hhit
    rw [reverse_find?_eq_bisectRight hinc] at hfind hhit
    refine ⟨s, hs, ?_, ?_⟩
    · by_contra h0
      simp [show bisectRight s hi = 0 by omega] at hhit
    · rw [hfind]
      split
      · rename_i h0
        simp [h0] at hhit
      · rfl

/-- **Searching by index**: the running totals lead to the block that holds an index. -/
theorem bisectRight_counts {α : Type*} {segs : List (List α)} {counts : List ℕ}
    (hlen : counts.length = segs.length)
    (hcounts : ∀ k, k < segs.length → counts.getD k 0 = countBefore segs (k + 1)) {i : ℕ}
    (hi : i < segs.flatten.length) :
    ∃ s j, segs[bisectRight counts i]? = some s ∧ j < s.length ∧
      i = countBefore segs (bisectRight counts i) + j := by
  have hdown : DownClosed (fun k => decide (counts.getD k 0 ≤ i)) 0 counts.length := by
    intro j k _ hjk hk hp
    rw [hlen] at hk
    simp only [decide_eq_true_eq] at hp ⊢
    rw [hcounts k hk] at hp
    rw [hcounts j (by omega)]
    exact le_trans (countBefore_mono segs (by omega)) hp
  have hspec := bisect_spec (Nat.zero_le _) hdown
  change 0 ≤ bisectRight counts i ∧ bisectRight counts i ≤ _ ∧
    (∀ j, 0 ≤ j → j < bisectRight counts i → _) ∧
    (∀ j, bisectRight counts i ≤ j → _ → _) at hspec
  rw [hlen] at hspec
  generalize bisectRight counts i = k at hspec
  obtain ⟨_, hle, hbelow, habove⟩ := hspec
  have hbefore : countBefore segs k ≤ i := by
    rcases Nat.eq_zero_or_pos k with rfl | hpos
    · simp [countBefore]
    · have := hbelow (k - 1) (Nat.zero_le _) (by omega)
      simp only [decide_eq_true_eq] at this
      rwa [hcounts _ (by omega), Nat.sub_add_cancel hpos] at this
  have hk : k < segs.length := by
    by_contra hge
    rw [show k = segs.length by omega, countBefore, List.take_length] at hbefore
    omega
  have hs := List.getElem?_eq_getElem hk
  have hafter : i < countBefore segs (k + 1) := by
    have := habove k (le_refl k) hk
    simp only [decide_eq_true_eq, not_le] at this
    rwa [hcounts k hk] at this
  rw [countBefore_succ hs] at hafter
  exact ⟨segs[k], i - countBefore segs k, hs, by omega, by omega⟩

end VeloxRag.Lib
