import Mathlib

/-!
# Records that end with a delimiter

A stream of records is cut into blocks anywhere.  As long as the delimiter stands at the end
of a record and nowhere else, the first delimiter of what has been received ends the first
record, and what is left after it begins the next.

## Main definitions

* `IsRecord` — a body without the delimiter, and the delimiter.
* `records_split` — the first delimiter ends the first record.
* `length_lt_of_no_delimiter` — without a delimiter less than the first record is there.
-/

namespace VeloxRag.Lib

variable {α : Type*} {d : α}

/-- A body without the delimiter, and the delimiter. -/
def IsRecord (d : α) (r : List α) : Prop := ∃ body, r = body ++ [d] ∧ d ∉ body

theorem findIdx?_delimiter [DecidableEq α] {xs : List α} {n : ℕ} (h : xs.findIdx? (· = d) = some n) :
    ∃ front back, xs = front ++ d :: back ∧ front.length = n ∧ d ∉ front := by
  rw [List.findIdx?_eq_some_iff_getElem] at h
  obtain ⟨hn, hat, hbefore⟩ := h
  refine ⟨xs.take n, xs.drop (n + 1), ?_, ?_, ?_⟩
  · have hd : xs[n] = d := by simpa using hat
    rw [← hd, List.cons_getElem_drop_succ, List.take_append_drop]
  · rw [List.length_take]
    omega
  · intro hmem
    obtain ⟨i, hi, hget⟩ := List.mem_iff_getElem.mp hmem
    rw [List.length_take] at hi
    rw [List.getElem_take] at hget
    exact hbefore i (by omega) (by simpa using hget)

/-- Two readings of a list at its first delimiter agree. -/
theorem append_delimiter_inj {front front' back back' : List α} (h : d ∉ front) (h' : d ∉ front')
    (heq : front ++ d :: back = front' ++ d :: back') : front = front' ∧ back = back' := by
  induction front generalizing front' with
  | nil =>
      cases front' with
      | nil => simpa using heq
      | cons x front' =>
          rw [List.nil_append, List.cons_append, List.cons.injEq] at heq
          exact absurd (by simp [heq.1]) h'
  | cons x front ih =>
      cases front' with
      | nil =>
          rw [List.nil_append, List.cons_append, List.cons.injEq] at heq
          exact absurd (by simp [heq.1]) h
      | cons y front' =>
          rw [List.cons_append, List.cons_append, List.cons.injEq] at heq
          rw [List.mem_cons, not_or] at h h'
          obtain ⟨hfront, hback⟩ := ih h.2 h'.2 heq.2
          exact ⟨by rw [heq.1, hfront], hback⟩

theorem flatten_cons_record {r : List α} (rs : List (List α)) (hr : IsRecord d r) :
    ∃ body, d ∉ body ∧ r = body ++ [d] ∧ (r :: rs).flatten = body ++ d :: rs.flatten := by
  obtain ⟨body, rfl, hbody⟩ := hr
  exact ⟨body, hbody, rfl, by simp⟩

/-- **The first delimiter ends the first record.** -/
theorem records_split [DecidableEq α] {records : List (List α)} (hrecords : ∀ r ∈ records, IsRecord d r)
    {received rest : List α} {n : ℕ} (hflat : received ++ rest = records.flatten)
    (hn : received.findIdx? (· = d) = some n) :
    ∃ r rs, records = r :: rs ∧ received.take (n + 1) = r ∧ r.length = n + 1 ∧
      received.drop (n + 1) ++ rest = rs.flatten := by
  obtain ⟨front, back, rfl, hlen, hfront⟩ := findIdx?_delimiter hn
  cases records with
  | nil => simp at hflat
  | cons r rs =>
      obtain ⟨body, hbody, hr, hcons⟩ := flatten_cons_record rs (hrecords r (by simp))
      rw [hcons, List.append_assoc, List.cons_append] at hflat
      obtain ⟨rfl, hrest⟩ := append_delimiter_inj hfront hbody hflat
      refine ⟨r, rs, rfl, ?_, ?_, ?_⟩
      · rw [hr, ← hlen]
        simp [List.take_append]
      · rw [hr, List.length_append, hlen, List.length_singleton]
      · have hdrop : (front ++ d :: back).drop (front.length + 1) = back := by
          rw [List.drop_append, List.drop_of_length_le (Nat.le_succ _), List.nil_append]
          simp
        rw [← hlen, hdrop]
        exact hrest

/-- **Without a delimiter** what has been received is less than the first record, or nothing. -/
theorem length_lt_of_no_delimiter {records : List (List α)} (hrecords : ∀ r ∈ records, IsRecord d r)
    {received rest : List α} (hflat : received ++ rest = records.flatten) (hno : d ∉ received) :
    received = [] ∨ ∃ r ∈ records, received.length < r.length := by
  cases records with
  | nil =>
      left
      rw [List.flatten_nil, List.append_eq_nil_iff] at hflat
      exact hflat.1
  | cons r rs =>
      right
      refine ⟨r, by simp, ?_⟩
      obtain ⟨body, hbody, hr, _⟩ := flatten_cons_record rs (hrecords r (by simp))
      by_contra hlt
      have hfirst : r <+: received ++ rest := by
        rw [hflat, List.flatten_cons]
        exact List.prefix_append r _
      have hreceived : r <+: received :=
        List.prefix_of_prefix_length_le hfirst (List.prefix_append received rest) (by omega)
      exact hno (hreceived.subset (by simp [hr]))

end VeloxRag.Lib
