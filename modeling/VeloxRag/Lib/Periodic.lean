import Mathlib

/-!
# Periodic runs and two-level lists

A periodic run is a template repeated with a constant stride: copy `c` of the
template is moved by `c` strides.  `cycles` writes such a run out, and its lemmas
give length, element and membership by arithmetic on the index, which is how a
packed representation reads a run without writing it out.

The second half is about a list given as a list of blocks.  A search in it can
first choose a block and then search the block; `find?_flatten` and
`reverse_find?_flatten` are the two facts that make this sound, and
`getElem?_flatten` the one behind indexing through cumulative counts.

## Main definitions

* `cycles shift template stride a n` — copies `a, …, a + n - 1` of a template.
* `appendDistinct`, `dropRepeat`, `dedupRuns` — appending without repeating the last element.
* `dedupRuns_cycles` — a periodic run without repetitions is again periodic after its first copy.
-/

namespace VeloxRag.Lib

universe u
variable {α : Type u}

/-! ## Periodic runs -/

/-- Copies `a, a + 1, …, a + n - 1` of the template, copy `c` moved by `c * stride`. -/
def cycles (shift : ℕ → α → α) (template : List α) (stride a n : ℕ) : List α :=
  (List.range n).flatMap fun c => template.map (shift ((a + c) * stride))

@[simp] theorem cycles_zero (shift : ℕ → α → α) (template : List α) (stride a : ℕ) :
    cycles shift template stride a 0 = [] := rfl

theorem cycles_succ (shift : ℕ → α → α) (template : List α) (stride a n : ℕ) :
    cycles shift template stride a (n + 1) =
      cycles shift template stride a n ++ template.map (shift ((a + n) * stride)) := by
  simp [cycles, List.range_succ, List.flatMap_append]

theorem cycles_succ_left (shift : ℕ → α → α) (template : List α) (stride a n : ℕ) :
    cycles shift template stride a (n + 1) =
      template.map (shift (a * stride)) ++ cycles shift template stride (a + 1) n := by
  induction n with
  | zero => simp [cycles]
  | succ n ih =>
      rw [cycles_succ, ih, cycles_succ, List.append_assoc]
      congr 3
      rw [show a + 1 + n = a + (n + 1) by omega]

theorem length_cycles (shift : ℕ → α → α) (template : List α) (stride a n : ℕ) :
    (cycles shift template stride a n).length = n * template.length := by
  induction n with
  | zero => simp
  | succ n ih => rw [cycles_succ, List.length_append, ih, List.length_map, Nat.succ_mul]

/-- **Reading a run by arithmetic**: quotient and remainder of the index choose the
copy and the position in the template. -/
theorem getElem?_cycles (shift : ℕ → α → α) (template : List α) (stride a n i : ℕ)
    (hi : i < n * template.length) :
    (cycles shift template stride a n)[i]? =
      (template[i % template.length]?).map (shift ((a + i / template.length) * stride)) := by
  induction n with
  | zero => simp at hi
  | succ n ih =>
      have hpos : 0 < template.length := by
        rcases Nat.eq_zero_or_pos template.length with h | h
        · rw [h] at hi; simp at hi
        · exact h
      rw [cycles_succ]
      by_cases hlt : i < n * template.length
      · rw [List.getElem?_append_left (by rw [length_cycles]; exact hlt), ih hlt]
      · rw [List.getElem?_append_right (by rw [length_cycles]; omega), length_cycles]
        have hsub : i - n * template.length < template.length := by
          rw [Nat.succ_mul] at hi; omega
        have hsplit : i = (i - n * template.length) + template.length * n := by
          rw [Nat.mul_comm template.length n]; omega
        have hdiv : i / template.length = n := by
          rw [hsplit, Nat.add_mul_div_left _ _ hpos, Nat.div_eq_of_lt hsub, Nat.zero_add]
        have hmod : i % template.length = i - n * template.length := by
          conv_lhs => rw [hsplit]
          rw [Nat.add_mul_mod_self_left, Nat.mod_eq_of_lt hsub]
        rw [hdiv, hmod, List.getElem?_map]

theorem mem_cycles {shift : ℕ → α → α} {template : List α} {stride a n : ℕ} {x : α} :
    x ∈ cycles shift template stride a n ↔
      ∃ c, c < n ∧ ∃ y ∈ template, shift ((a + c) * stride) y = x := by
  simp [cycles, List.mem_flatMap]

/-! ## Lists of blocks -/

/-- A search falls through every block without a hit. -/
theorem find?_flatten {segs : List (List α)} {p : α → Bool} {k : ℕ} {s : List α}
    (hk : segs[k]? = some s) (hbefore : ∀ j t, j < k → segs[j]? = some t → ∀ x ∈ t, p x = false)
    (hhit : (s.find? p).isSome) : segs.flatten.find? p = s.find? p := by
  induction segs generalizing k with
  | nil => simp at hk
  | cons t ts ih =>
      rw [List.flatten_cons, List.find?_append]
      cases k with
      | zero =>
          have hts : t = s := by simpa using hk
          subst hts
          obtain ⟨y, hy⟩ := Option.isSome_iff_exists.mp hhit
          simp [hy]
      | succ k =>
          have hnone : t.find? p = none := by
            rw [List.find?_eq_none]
            intro x hx
            simp [hbefore 0 t (by omega) (by simp) x hx]
          rw [hnone]
          simpa using ih (by simpa using hk)
            (fun j t' hj ht' => hbefore (j + 1) t' (by omega) (by simpa using ht'))

theorem find?_flatten_none {segs : List (List α)} {p : α → Bool}
    (h : ∀ t ∈ segs, ∀ x ∈ t, p x = false) : segs.flatten.find? p = none := by
  rw [List.find?_eq_none]
  intro x hx
  obtain ⟨t, ht, hxt⟩ := List.mem_flatten.mp hx
  simp [h t ht x hxt]

/-- The same search from the back. -/
theorem reverse_find?_flatten {segs : List (List α)} {p : α → Bool} {k : ℕ} {s : List α}
    (hk : segs[k]? = some s) (hafter : ∀ j t, k < j → segs[j]? = some t → ∀ x ∈ t, p x = false)
    (hhit : (s.reverse.find? p).isSome) :
    segs.flatten.reverse.find? p = s.reverse.find? p := by
  induction segs generalizing k with
  | nil => simp at hk
  | cons t ts ih =>
      rw [List.flatten_cons, List.reverse_append, List.find?_append]
      cases k with
      | zero =>
          have hts : t = s := by simpa using hk
          subst hts
          have hnone : ts.flatten.reverse.find? p = none := by
            rw [List.find?_eq_none]
            intro x hx
            obtain ⟨t', ht', hxt'⟩ := List.mem_flatten.mp (List.mem_reverse.mp hx)
            obtain ⟨j, hj⟩ := List.mem_iff_getElem?.mp ht'
            simp [hafter (j + 1) t' (by omega) (by simpa using hj) x hxt']
          simp [hnone]
      | succ k =>
          have hrec := ih (by simpa using hk)
            (fun j t' hj ht' => hafter (j + 1) t' (by omega) (by simpa using ht'))
          rw [hrec]
          obtain ⟨y, hy⟩ := Option.isSome_iff_exists.mp hhit
          simp [hy]

/-- The number of elements in the first `k` blocks. -/
def countBefore (segs : List (List α)) (k : ℕ) : ℕ := (segs.take k).flatten.length

theorem countBefore_succ {segs : List (List α)} {k : ℕ} {s : List α} (hk : segs[k]? = some s) :
    countBefore segs (k + 1) = countBefore segs k + s.length := by
  unfold countBefore
  rw [List.take_add_one, hk]
  simp

theorem countBefore_mono (segs : List (List α)) {j k : ℕ} (h : j ≤ k) :
    countBefore segs j ≤ countBefore segs k := by
  unfold countBefore
  have hsplit : segs.take k = segs.take j ++ (segs.take k).drop j := by
    conv_lhs => rw [← List.take_append_drop j (segs.take k)]
    rw [List.take_take, Nat.min_eq_left h]
  rw [hsplit, List.flatten_append, List.length_append]
  omega

/-- Indexing a list of blocks: subtract what stands before the block. -/
theorem getElem?_flatten {segs : List (List α)} {k i : ℕ} {s : List α} (hk : segs[k]? = some s)
    (hi : i < s.length) : segs.flatten[countBefore segs k + i]? = s[i]? := by
  induction segs generalizing k with
  | nil => simp at hk
  | cons t ts ih =>
      cases k with
      | zero =>
          have hts : t = s := by simpa using hk
          subst hts
          simp only [countBefore, List.take_zero, List.flatten_nil, List.length_nil, Nat.zero_add,
            List.flatten_cons]
          exact List.getElem?_append_left hi
      | succ k =>
          have hrec := ih (by simpa using hk)
          have hcount : countBefore (t :: ts) (k + 1) = t.length + countBefore ts k := by
            simp [countBefore]
          rw [List.flatten_cons, hcount, List.getElem?_append_right (by omega)]
          rw [show t.length + countBefore ts k + i - t.length = countBefore ts k + i by omega]
          exact hrec

/-! ## Appending without repetition -/

/-- Append unless the list already ends with the element. -/
def appendDistinct [DecidableEq α] (xs : List α) (x : α) : List α :=
  if xs.getLast? = some x then xs else xs ++ [x]

/-- Drop the first element of `ys` if it repeats the last element of `xs`. -/
def dropRepeat [DecidableEq α] (xs ys : List α) : List α :=
  if xs.getLast? = ys.head? ∧ ys ≠ [] then ys.tail else ys

theorem foldl_appendDistinct_append [DecidableEq α] (xs ys : List α) :
    ys.foldl appendDistinct xs = xs ++ dropRepeat xs (ys.foldl appendDistinct []) := by
  -- the result of folding into `xs` is `xs` followed by what folding into `[]` gives
  induction ys using List.reverseRecOn with
  | nil => simp [dropRepeat]
  | append_singleton ys y ih =>
      rw [List.foldl_append, List.foldl_append, List.foldl_cons, List.foldl_nil, List.foldl_cons,
        List.foldl_nil, ih]
      generalize ys.foldl appendDistinct [] = zs
      rcases List.eq_nil_or_concat zs with rfl | ⟨zs, z, rfl⟩
      · rcases List.eq_nil_or_concat xs with rfl | ⟨xs, x, rfl⟩
        · simp [dropRepeat, appendDistinct]
        · by_cases hxy : x = y
          · subst hxy; simp [dropRepeat, appendDistinct]
          · simp [dropRepeat, appendDistinct, hxy]
      · cases zs with
        | nil =>
            by_cases hzy : z = y
            · subst hzy
              by_cases hx : xs.getLast? = some z
              · simp [dropRepeat, appendDistinct, hx]
              · simp [dropRepeat, appendDistinct, hx]
            · by_cases hx : xs.getLast? = some z
              · simp [dropRepeat, appendDistinct, hx, hzy]
              · simp [dropRepeat, appendDistinct, hx, hzy]
        | cons w ws =>
            have hl : (w :: (ws ++ [z])).getLast? = some z := by
              rw [← List.cons_append, List.getLast?_append]
              simp
            by_cases hzy : z = y
            · subst hzy
              by_cases hx : xs.getLast? = some w
              · simp [dropRepeat, appendDistinct, hx, hl]
              · simp [dropRepeat, appendDistinct, hx, hl]
            · by_cases hx : xs.getLast? = some w
              · simp [dropRepeat, appendDistinct, hx, hl, hzy]
              · simp [dropRepeat, appendDistinct, hx, hl, hzy]

/-- A list with repetitions of the element before removed. -/
def dedupRuns [DecidableEq α] (xs : List α) : List α := xs.foldl appendDistinct []

theorem dedupRuns_append [DecidableEq α] (xs ys : List α) :
    dedupRuns (xs ++ ys) = dedupRuns xs ++ dropRepeat (dedupRuns xs) (dedupRuns ys) := by
  rw [dedupRuns, List.foldl_append, foldl_appendDistinct_append]
  rfl

theorem dedupRuns_concat [DecidableEq α] (xs : List α) (x : α) :
    dedupRuns (xs ++ [x]) = appendDistinct (dedupRuns xs) x := by
  rw [dedupRuns, List.foldl_append]
  rfl

theorem getLast?_dedupRuns [DecidableEq α] (xs : List α) :
    (dedupRuns xs).getLast? = xs.getLast? := by
  rcases List.eq_nil_or_concat xs with rfl | ⟨ys, y, rfl⟩
  · rfl
  · rw [List.concat_eq_append, dedupRuns_concat, appendDistinct]
    split
    · rename_i h
      rw [h]
      simp
    · simp

theorem dedupRuns_eq_nil [DecidableEq α] {xs : List α} : dedupRuns xs = [] ↔ xs = [] := by
  rw [← List.getLast?_eq_none_iff, getLast?_dedupRuns, List.getLast?_eq_none_iff]

theorem mem_dedupRuns [DecidableEq α] {xs : List α} {x : α} : x ∈ dedupRuns xs ↔ x ∈ xs := by
  induction xs using List.reverseRecOn with
  | nil => rfl
  | append_singleton ys y ih =>
      rw [dedupRuns_concat, appendDistinct]
      split
      · rename_i h
        rw [ih, List.mem_append, List.mem_singleton]
        constructor
        · exact .inl
        · rintro (h | rfl)
          · exact h
          · rw [getLast?_dedupRuns] at h
            exact List.mem_of_getLast? h
      · rw [List.mem_append, List.mem_append, ih]

theorem dedupRuns_map [DecidableEq α] {f : α → α} (hf : Function.Injective f) (xs : List α) :
    dedupRuns (xs.map f) = (dedupRuns xs).map f := by
  induction xs using List.reverseRecOn with
  | nil => rfl
  | append_singleton ys y ih =>
      rw [List.map_append, List.map_singleton, dedupRuns_concat, dedupRuns_concat, ih]
      unfold appendDistinct
      rw [List.getLast?_map]
      by_cases h : (dedupRuns ys).getLast? = some y
      · simp [h]
      · rw [if_neg h, if_neg]
        · simp
        · intro hm
          obtain ⟨z, hz, hzy⟩ := Option.map_eq_some_iff.mp hm
          exact h (by rw [hz, hf hzy])

/-- Removing repetitions from a sorted list leaves a strictly increasing one. -/
theorem dedupRuns_increasing {xs : List ℕ} (h : xs.Pairwise (· ≤ ·)) :
    (dedupRuns xs).Pairwise (· < ·) := by
  induction xs using List.reverseRecOn with
  | nil => exact List.Pairwise.nil
  | append_singleton ys y ih =>
      rw [List.pairwise_append] at h
      rw [dedupRuns_concat, appendDistinct]
      split
      · exact ih h.1
      · rename_i hne
        rw [List.pairwise_append]
        refine ⟨ih h.1, List.pairwise_singleton _ _, ?_⟩
        intro a ha b hb
        rw [List.mem_singleton.mp hb]
        -- an element equal to `y` would be the last one, as the list is sorted
        have hle := h.2.2 a (mem_dedupRuns.mp ha) y (by simp)
        rcases Nat.lt_or_eq_of_le hle with hlt | heq
        · exact hlt
        · subst heq
          exfalso
          have hne' : dedupRuns ys ≠ [] := List.ne_nil_of_mem ha
          have hlast := List.getLast?_eq_some_getLast hne'
          have hmem := List.getLast_mem hne'
          have h1 := h.2.2 _ (mem_dedupRuns.mp hmem) a (by simp)
          obtain ⟨zs, hz⟩ : ∃ zs, dedupRuns ys = zs ++ [(dedupRuns ys).getLast hne'] :=
            ⟨_, (List.dropLast_append_getLast hne').symm⟩
          have hinc := ih h.1
          rw [hz, List.pairwise_append] at hinc
          rw [hz] at ha
          rcases List.mem_append.mp ha with ha | ha
          · have := hinc.2.2 a ha _ (List.mem_singleton.mpr rfl)
            omega
          · rw [List.mem_singleton] at ha
            exact hne (by rw [hlast, ← ha])

/-- A strictly increasing list has no repetitions to remove. -/
theorem dedupRuns_of_increasing {xs : List ℕ} (h : xs.Pairwise (· < ·)) : dedupRuns xs = xs := by
  induction xs using List.reverseRecOn with
  | nil => rfl
  | append_singleton ys y ih =>
      rw [List.pairwise_append] at h
      rw [dedupRuns_concat, ih h.1, appendDistinct, if_neg]
      intro hl
      have := h.2.2 y (List.mem_of_getLast? hl) y (by simp)
      omega

/-! ## Periodic runs without repetition -/

/-- How many points a copy shares with the copy before it. -/
def sharedPoints (points : List ℕ) (stride : ℕ) : ℕ :=
  if points.getLast? = points.head?.map (· + stride) then 1 else 0

theorem drop_sharedPoints_ne_nil {points : List ℕ} (hne : points ≠ []) {stride : ℕ}
    (hstride : 0 < stride) : points.drop (sharedPoints points stride) ≠ [] := by
  cases points with
  | nil => exact absurd rfl hne
  | cons x xs =>
      unfold sharedPoints
      split
      · rename_i h
        cases xs with
        | nil => simp at h; omega
        | cons y ys => simp
      · simp

theorem getLast?_drop {xs : List α} {k : ℕ} (h : xs.drop k ≠ []) :
    (xs.drop k).getLast? = xs.getLast? := by
  conv_rhs => rw [← List.take_append_drop k xs]
  rw [List.getLast?_append_of_ne_nil _ h]

theorem getLast?_cycles_from {points : List ℕ} {k stride m : ℕ} (h : points.drop k ≠ []) :
    (points ++ cycles (fun d x => x + d) (points.drop k) stride 1 m).getLast? =
      points.getLast?.map (· + m * stride) := by
  cases m with
  | zero => simp
  | succ m =>
      rw [cycles_succ, ← List.append_assoc, List.getLast?_append_of_ne_nil _ (by simpa using h),
        List.getLast?_map, getLast?_drop h, Nat.add_comm 1 m]

/-- **The points of a run**: the first copy whole, each later copy without what it shares. -/
theorem dedupRuns_cycles {raw : List ℕ} (hne : raw ≠ []) {stride m : ℕ}
    (hstride : 0 < m → 0 < stride) :
    dedupRuns (cycles (fun d x => x + d) raw stride 0 (m + 1)) = dedupRuns raw ++
      cycles (fun d x => x + d) ((dedupRuns raw).drop (sharedPoints (dedupRuns raw) stride))
        stride 1 m := by
  induction m with
  | zero => simp [cycles]
  | succ m ih =>
      have hpos := hstride (Nat.succ_pos m)
      have hP : dedupRuns raw ≠ [] := fun h => hne (dedupRuns_eq_nil.mp h)
      have hdrop := drop_sharedPoints_ne_nil hP hpos
      rw [cycles_succ, dedupRuns_append, ih (fun _ => hpos),
        dedupRuns_map (add_left_injective _), cycles_succ, List.append_assoc]
      congr 2
      rw [dropRepeat, getLast?_cycles_from hdrop, List.head?_map]
      obtain ⟨x, xs, hx⟩ := List.exists_cons_of_ne_nil hP
      have hlast : ∃ l, (dedupRuns raw).getLast? = some l := ⟨_, List.getLast?_eq_some_getLast hP⟩
      obtain ⟨l, hl⟩ := hlast
      rw [show 0 + (m + 1) = m + 1 by omega, show 1 + m = m + 1 by omega]
      have hiff : (Option.map (· + m * stride) (dedupRuns raw).getLast? =
          Option.map (· + (m + 1) * stride) (dedupRuns raw).head?) ↔
          (dedupRuns raw).getLast? = (dedupRuns raw).head?.map (· + stride) := by
        rw [hl, hx]
        simp only [List.head?_cons, Option.map_some, Option.some.injEq, Nat.succ_mul]
        omega
      unfold sharedPoints
      by_cases hshare : (dedupRuns raw).getLast? = (dedupRuns raw).head?.map (· + stride)
      · rw [if_pos ⟨hiff.mpr hshare, by simpa using hP⟩, if_pos hshare, List.map_drop,
          List.drop_one]
      · rw [if_neg (fun h => hshare (hiff.mp h.1)), if_neg hshare, List.drop_zero]

end VeloxRag.Lib
