import Mathlib

/-!
# Entries of a dictionary

A dictionary is a list of entries, of which the first with a key counts.  Setting a key replaces its
entry, or appends one.

## Main definitions

* `set`, `setAll` — one entry, and several.
* `lookup_setAll` — what is found after that.
* `select` — the entries under some keys, in the order of the keys.
-/

namespace VeloxRag.Lib.Entries

variable {κ ν : Type} {entries : List (κ × ν)} {key k : κ} {value : ν}

section Set

variable [DecidableEq κ]

def set : List (κ × ν) → κ → ν → List (κ × ν)
  | [], key, value => [(key, value)]
  | entry :: entries, key, value =>
      if entry.1 = key then (key, value) :: entries else entry :: set entries key value

theorem mem_set {entry : κ × ν} (h : entry ∈ set entries key value) :
    entry = (key, value) ∨ entry ∈ entries := by
  induction entries with
  | nil => exact .inl (List.mem_singleton.mp h)
  | cons first entries ih =>
      rw [set] at h
      split at h
      · rcases List.mem_cons.mp h with h | h
        · exact .inl h
        · exact .inr (List.mem_cons_of_mem _ h)
      · rcases List.mem_cons.mp h with rfl | h
        · exact .inr List.mem_cons_self
        · exact (ih h).imp_right (List.mem_cons_of_mem _)

/-- The entry that is set stands among others of before. -/
theorem set_eq_append (entries : List (κ × ν)) (key : κ) (value : ν) :
    ∃ left right, set entries key value = left ++ (key, value) :: right ∧
      (left ++ right).Sublist entries := by
  induction entries with
  | nil => exact ⟨[], [], rfl, List.Sublist.refl _⟩
  | cons entry entries ih =>
      rw [set]
      split
      · exact ⟨[], entries, rfl, List.sublist_cons_self _ _⟩
      · obtain ⟨left, right, hset, hsublist⟩ := ih
        exact ⟨entry :: left, right, by rw [hset]; rfl, hsublist.cons_cons _⟩

/-- Setting a key to what it has changes nothing. -/
theorem set_of_lookup [BEq κ] [LawfulBEq κ] (h : entries.lookup key = some value) :
    set entries key value = entries := by
  induction entries with
  | nil => cases h
  | cons entry entries ih =>
      by_cases hentry : entry.1 = key
      · obtain rfl : entry.2 = value := by simpa [List.lookup, ← hentry] using h
        rw [set, if_pos hentry, ← hentry]
      · have hne : key ≠ entry.1 := fun heq => hentry heq.symm
        rw [List.lookup, beq_false_of_ne hne] at h
        rw [set, if_neg hentry, ih h]

/-- Several entries, one after another. -/
def setAll (entries new : List (κ × ν)) : List (κ × ν) :=
  new.foldl (fun entries entry => set entries entry.1 entry.2) entries

variable [BEq κ] [LawfulBEq κ]

theorem lookup_set : (set entries key value).lookup k = if k = key then some value else entries.lookup k := by
  induction entries with
  | nil =>
      by_cases hk : k = key
      · simp [set, hk]
      · simp [set, List.lookup, hk, beq_false_of_ne hk]
  | cons entry entries ih =>
      rw [set]
      split
      · rename_i hentry
        by_cases hk : k = key
        · simp [List.lookup, hk]
        · have hne : k ≠ entry.1 := hentry ▸ hk
          simp [List.lookup, hk, beq_false_of_ne hk, beq_false_of_ne hne]
      · rename_i hentry
        by_cases hk : k = entry.1
        · have hne : k ≠ key := hk ▸ hentry
          subst hk
          simp [List.lookup, hne]
        · simp only [List.lookup, beq_false_of_ne hk]
          exact ih

/-- **After setting entries** with different keys these are found, and the others as before. -/
theorem lookup_setAll {new : List (κ × ν)} (hnodup : (new.map (·.1)).Nodup) :
    (setAll entries new).lookup k = (new.lookup k).or (entries.lookup k) := by
  induction new generalizing entries with
  | nil => rfl
  | cons entry new ih =>
      rw [List.map_cons, List.nodup_cons] at hnodup
      have hstep : setAll entries (entry :: new) = setAll (set entries entry.1 entry.2) new := rfl
      rw [hstep, ih hnodup.2, lookup_set]
      by_cases hk : k = entry.1
      · have hnone : new.lookup k = none := by
          rw [List.lookup_eq_none_iff]
          intro other hother
          rw [bne_iff_ne, hk]
          intro heq
          exact hnodup.1 (heq ▸ List.mem_map_of_mem hother)
        rw [hnone, if_pos hk, List.lookup, hk, beq_self_eq_true]
        rfl
      · rw [if_neg hk, List.lookup, beq_false_of_ne hk]

end Set

/-! ## Selections -/

section Select

variable [BEq κ]

/-- The entries under some keys. -/
def select (keys : List κ) (entries : List (κ × ν)) : List (κ × ν) :=
  keys.filterMap fun key => (entries.lookup key).map (key, ·)

theorem keys_select_sublist (keys : List κ) (entries : List (κ × ν)) :
    ((select keys entries).map (·.1)).Sublist keys := by
  induction keys with
  | nil => exact List.Sublist.refl _
  | cons key keys ih =>
      rw [select, List.filterMap_cons]
      cases entries.lookup key with
      | none => exact ih.cons key
      | some value => exact ih.cons_cons key

variable [LawfulBEq κ]

theorem lookup_select (keys : List κ) (entries : List (κ × ν)) :
    (select keys entries).lookup k = if k ∈ keys then entries.lookup k else none := by
  induction keys with
  | nil => rfl
  | cons key keys ih =>
      rw [select] at ih
      rw [select, List.filterMap_cons]
      by_cases hk : k = key
      · subst hk
        rw [if_pos List.mem_cons_self]
        cases hlookup : entries.lookup k with
        | none =>
            rw [Option.map_none]
            dsimp only
            rw [ih, hlookup, ite_self]
        | some value => simp
      · have hmem : k ∈ key :: keys ↔ k ∈ keys := by simp [hk]
        simp only [hmem]
        rw [← ih]
        cases entries.lookup key with
        | none => rfl
        | some value => simp only [Option.map_some, List.lookup, beq_false_of_ne hk]

/-- **Entries whose keys stand in the order of the keys** are what is selected of them. -/
theorem select_of_sublist {keys : List κ} (hnodup : keys.Nodup)
    (h : (entries.map (·.1)).Sublist keys) : select keys entries = entries := by
  induction keys generalizing entries with
  | nil =>
      rw [List.sublist_nil, List.map_eq_nil_iff] at h
      rw [h]
      rfl
  | cons key keys ih =>
      rw [List.nodup_cons] at hnodup
      cases entries with
      | nil =>
          rw [select, List.filterMap_eq_nil_iff]
          intro k _
          rfl
      | cons entry entries =>
          rw [List.map_cons] at h
          rw [select, List.filterMap_cons]
          by_cases hentry : entry.1 = key
          · subst hentry
            have hrest := (List.cons_sublist_cons.mp h)
            have hsame : ∀ k ∈ keys, ((entry :: entries).lookup k).map (k, ·) =
                (entries.lookup k).map (k, ·) := by
              intro k hk
              have hne : k ≠ entry.1 := fun heq => hnodup.1 (heq ▸ hk)
              rw [List.lookup, beq_false_of_ne hne]
            rw [List.lookup, beq_self_eq_true, Option.map_some]
            dsimp only
            rw [List.filterMap_congr hsame]
            have := ih hnodup.2 hrest
            rw [select] at this
            rw [this]
          · have hrest : ((entry :: entries).map (·.1)).Sublist keys := by
              cases h with
              | cons _ h => exact h
              | cons_cons _ h => exact absurd rfl hentry
            have hnone : (entry :: entries).lookup key = none := by
              rw [List.lookup_eq_none_iff]
              intro other hother
              rw [bne_iff_ne]
              intro heq
              exact hnodup.1 (heq ▸ hrest.subset (List.mem_map_of_mem hother))
            rw [hnone, Option.map_none]
            dsimp only
            have := ih hnodup.2 hrest
            rw [select] at this
            exact this

end Select

end VeloxRag.Lib.Entries
