import VeloxRag.Lib.Fallible

/-!
# Ranking by partial scores

Some of the numbers below a bound are given a score, each at most once.  They are sorted by falling
score, equal scores in the order of the numbers; what has no score stands behind all that have one.

## Main definitions

* `Precedes` — the order of a ranking.
* `ranked` — the scored numbers in this order.
* `completed` — the ranking with the others behind it.
* `take_ranked_iff` — the ranking begins as an order of all numbers does exactly if it is long enough.
-/

namespace VeloxRag.Lib

variable {κ : Type} [LinearOrder κ]

/-- A higher score comes first; equal scores, and numbers without one, stay in their order. -/
def Precedes (scores : ℕ → Option κ) (i j : ℕ) : Prop :=
  match scores i, scores j with
  | some x, some y => y < x ∨ x = y ∧ i < j
  | some _, none => True
  | none, some _ => False
  | none, none => i < j

/-- The comparison by the key `(-score, number)`. -/
def rankLe (a b : ℕ × κ) : Bool := decide (b.2 < a.2) || (decide (a.2 = b.2) && decide (a.1 ≤ b.1))

/-- The score of a number. -/
def scoreAt (entries : List (ℕ × κ)) (i : ℕ) : Option κ := entries.lookup i

def ranked (entries : List (ℕ × κ)) : List ℕ := (entries.mergeSort rankLe).map (·.1)

/-- The ranking of the numbers below `n`: those without a score come last. -/
def completed (n : ℕ) (entries : List (ℕ × κ)) : List ℕ :=
  ranked entries ++ (List.range n).filter fun i => i ∉ entries.map (·.1)

section Ranked

variable {entries : List (ℕ × κ)} {n : ℕ}

theorem rankLe_iff {a b : ℕ × κ} : rankLe a b = true ↔ b.2 < a.2 ∨ a.2 = b.2 ∧ a.1 ≤ b.1 := by
  simp [rankLe]

theorem rankLe_trans (a b c : ℕ × κ) (hab : rankLe a b = true) (hbc : rankLe b c = true) :
    rankLe a c = true := by
  rw [rankLe_iff] at *
  rcases hab with hab | ⟨hab, hle⟩
  · rcases hbc with hbc | ⟨hbc, -⟩
    · exact .inl (hbc.trans hab)
    · exact .inl (hbc ▸ hab)
  · rcases hbc with hbc | ⟨hbc, hle'⟩
    · exact .inl (hab ▸ hbc)
    · exact .inr ⟨hab.trans hbc, hle.trans hle'⟩

theorem rankLe_total (a b : ℕ × κ) : (rankLe a b || rankLe b a) = true := by
  rw [Bool.or_eq_true, rankLe_iff, rankLe_iff]
  rcases lt_trichotomy a.2 b.2 with hlt | heq | hgt
  · exact .inr (.inl hlt)
  · rcases le_total a.1 b.1 with hle | hle
    · exact .inl (.inr ⟨heq, hle⟩)
    · exact .inr (.inr ⟨heq.symm, hle⟩)
  · exact .inl (.inl hgt)

theorem ranked_perm : (ranked entries).Perm (entries.map (·.1)) :=
  (List.mergeSort_perm entries rankLe).map _

theorem length_ranked : (ranked entries).length = entries.length := by
  rw [ranked_perm.length_eq, List.length_map]

omit [LinearOrder κ] in
theorem scoreAt_of_mem (hnodup : (entries.map (·.1)).Nodup) {entry : ℕ × κ} (h : entry ∈ entries) :
    scoreAt entries entry.1 = some entry.2 := (Fallible.lookup_some_iff hnodup).mpr h

omit [LinearOrder κ] in
theorem scoreAt_eq_none {i : ℕ} (h : i ∉ entries.map (·.1)) : scoreAt entries i = none :=
  Fallible.lookup_none_iff.mpr h

/-- **The ranking is in order.** -/
theorem pairwise_ranked (hnodup : (entries.map (·.1)).Nodup) :
    (ranked entries).Pairwise (Precedes (scoreAt entries)) := by
  have hsorted : (entries.mergeSort rankLe).Pairwise (rankLe · ·) :=
    List.pairwise_mergeSort rankLe_trans rankLe_total entries
  have hperm := List.mergeSort_perm entries rankLe
  have hdistinct : (entries.mergeSort rankLe).Pairwise fun a b => a.1 ≠ b.1 := by
    rw [← List.pairwise_map]
    exact (hperm.map _).nodup_iff.mpr hnodup
  rw [ranked, List.pairwise_map]
  refine (hsorted.and hdistinct).imp_of_mem ?_
  intro a b ha hb hab
  obtain ⟨hle, hne⟩ := hab
  rw [Precedes, scoreAt_of_mem hnodup (hperm.mem_iff.mp ha), scoreAt_of_mem hnodup (hperm.mem_iff.mp hb)]
  rcases rankLe_iff.mp hle with hlt | ⟨heq, hle⟩
  · exact .inl hlt
  · exact .inr ⟨heq, lt_of_le_of_ne hle hne⟩

/-- **The completed ranking is in order.** -/
theorem pairwise_completed (hnodup : (entries.map (·.1)).Nodup) :
    (completed n entries).Pairwise (Precedes (scoreAt entries)) := by
  rw [completed, List.pairwise_append]
  refine ⟨pairwise_ranked hnodup, ?_, ?_⟩
  · refine (List.pairwise_lt_range.filter _).imp_of_mem ?_
    intro i j hi hj hlt
    rw [List.mem_filter, decide_eq_true_eq] at hi hj
    rw [Precedes, scoreAt_eq_none hi.2, scoreAt_eq_none hj.2]
    exact hlt
  · intro i hi j hj
    obtain ⟨entry, hentry, rfl⟩ := List.mem_map.mp (ranked_perm.mem_iff.mp hi)
    rw [List.mem_filter, decide_eq_true_eq] at hj
    rw [Precedes, scoreAt_of_mem hnodup hentry, scoreAt_eq_none hj.2]
    trivial

/-- The completed ranking is an order of the numbers below the bound. -/
theorem completed_perm (hnodup : (entries.map (·.1)).Nodup) (hlt : ∀ i ∈ entries.map (·.1), i < n) :
    (completed n entries).Perm (List.range n) := by
  rw [List.perm_ext_iff_of_nodup ?_ List.nodup_range]
  · intro i
    rw [completed, List.mem_append, ranked_perm.mem_iff, List.mem_filter, decide_eq_true_eq]
    constructor
    · rintro (hi | ⟨hi, -⟩)
      · exact List.mem_range.mpr (hlt i hi)
      · exact hi
    · intro hi
      by_cases hmem : i ∈ entries.map (·.1)
      · exact .inl hmem
      · exact .inr ⟨hi, hmem⟩
  · rw [completed, List.nodup_append']
    refine ⟨ranked_perm.nodup_iff.mpr hnodup, List.nodup_range.filter _, ?_⟩
    intro i hi hrest
    rw [List.mem_filter, decide_eq_true_eq] at hrest
    exact hrest.2 (ranked_perm.mem_iff.mp hi)

/-- There are no more scores than numbers. -/
theorem length_entries_le (hnodup : (entries.map (·.1)).Nodup)
    (hlt : ∀ i ∈ entries.map (·.1), i < n) : entries.length ≤ n := by
  have hlength := (completed_perm hnodup hlt).length_eq
  rw [completed, List.length_append, length_ranked, List.length_range] at hlength
  omega

/-- Every number has a score exactly if there are as many scores as numbers. -/
theorem forall_scoreAt_ne_none_iff (hnodup : (entries.map (·.1)).Nodup)
    (hlt : ∀ i ∈ entries.map (·.1), i < n) :
    (∀ i < n, scoreAt entries i ≠ none) ↔ entries.length = n := by
  constructor
  · intro hall
    have hsub : List.range n ⊆ entries.map (·.1) := by
      intro i hi
      by_contra hmem
      exact hall i (List.mem_range.mp hi) (scoreAt_eq_none hmem)
    have hcard := (List.nodup_range.subperm hsub).length_le
    rw [List.length_range, List.length_map] at hcard
    exact le_antisymm (length_entries_le hnodup hlt) hcard
  · intro hall i hi hnone
    have hsubperm : (entries.map (·.1)).Subperm (List.range n) :=
      hnodup.subperm fun j hj => List.mem_range.mpr (hlt j hj)
    have hperm := hsubperm.perm_of_length_le (by
      rw [List.length_range, List.length_map]
      omega)
    obtain ⟨entry, hentry, rfl⟩ := List.mem_map.mp (hperm.mem_iff.mpr (List.mem_range.mpr hi))
    rw [scoreAt_of_mem hnodup hentry] at hnone
    cases hnone

/-- **The beginning of the ranking** is the beginning of an order of all numbers exactly if the ranking
is not shorter. -/
theorem take_ranked_iff (hnodup : (entries.map (·.1)).Nodup)
    (hlt : ∀ i ∈ entries.map (·.1), i < n) (k : ℕ) :
    (∃ order : List ℕ, order.Perm (List.range n) ∧ order.Pairwise (Precedes (scoreAt entries)) ∧
      (ranked entries).take k = order.take k) ↔ min k n ≤ entries.length := by
  constructor
  · rintro ⟨order, hperm, -, htake⟩
    have hlength := congrArg List.length htake
    rw [List.length_take, List.length_take, length_ranked, hperm.length_eq, List.length_range]
      at hlength
    omega
  · intro hle
    refine ⟨completed n entries, completed_perm hnodup hlt, pairwise_completed hnodup, ?_⟩
    rw [completed, List.take_append]
    by_cases hk : k ≤ entries.length
    · rw [length_ranked, Nat.sub_eq_zero_of_le hk, List.take_zero, List.append_nil]
    · have hall : entries.length = n := by
        have := length_entries_le hnodup hlt
        omega
      have hrest := (completed_perm hnodup hlt).length_eq
      rw [completed, List.length_append, length_ranked, List.length_range] at hrest
      have hnil : ((List.range n).filter fun i => i ∉ entries.map (·.1)) = [] :=
        List.length_eq_zero_iff.mp (by omega)
      rw [hnil, List.take_nil, List.append_nil]

end Ranked

end VeloxRag.Lib
