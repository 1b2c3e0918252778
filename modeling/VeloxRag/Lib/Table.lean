import Mathlib

/-!
# Tables as lists of rows

A table is the list of its rows.  `modifyWhere` is `UPDATE … WHERE`: it changes the rows that
satisfy a condition and leaves the others, and it never adds or removes one.  A column that
no row may share is a list of keys without duplicates.

## Main definitions

* `modifyWhere` — the update.
* `mem_modifyWhere` — the rows after it.
* `row_unique` — a key determines its row.
* `setRow` — the row of a key is replaced.
* `insertMissing` — `INSERT … ON CONFLICT DO NOTHING`.
-/

namespace VeloxRag.Lib

variable {α κ : Type*}

/-- Change the rows that satisfy a condition. -/
def modifyWhere (p : α → Bool) (f : α → α) (rows : List α) : List α :=
  rows.map fun r => if p r then f r else r

theorem mem_modifyWhere {p : α → Bool} {f : α → α} {rows : List α} {r : α} :
    r ∈ modifyWhere p f rows ↔ ∃ r₀ ∈ rows, r = if p r₀ then f r₀ else r₀ := by
  unfold modifyWhere
  rw [List.mem_map]
  constructor
  · rintro ⟨r₀, h, rfl⟩
    exact ⟨r₀, h, rfl⟩
  · rintro ⟨r₀, h, rfl⟩
    exact ⟨r₀, h, rfl⟩

/-- A row after the update was changed or was there before. -/
theorem modifyWhere_cases {p : α → Bool} {f : α → α} {rows : List α} {r : α}
    (h : r ∈ modifyWhere p f rows) :
    (∃ r₀ ∈ rows, p r₀ = true ∧ r = f r₀) ∨ (r ∈ rows ∧ p r = false) := by
  obtain ⟨r₀, hmem, rfl⟩ := mem_modifyWhere.mp h
  by_cases hp : p r₀ = true
  · rw [if_pos hp]
    exact .inl ⟨r₀, hmem, hp, rfl⟩
  · rw [if_neg hp]
    exact .inr ⟨hmem, by simpa using hp⟩

/-- A column that the update does not change. -/
theorem map_modifyWhere {key : α → κ} {p : α → Bool} {f : α → α} {rows : List α}
    (hkey : ∀ r, key (f r) = key r) : (modifyWhere p f rows).map key = rows.map key := by
  unfold modifyWhere
  rw [List.map_map]
  apply List.map_congr_left
  intro r _
  rw [Function.comp_apply]
  split
  · exact hkey r
  · rfl

theorem modifyWhere_eq_self {p : α → Bool} {f : α → α} {rows : List α}
    (h : ∀ r ∈ rows, p r = false) : modifyWhere p f rows = rows := by
  unfold modifyWhere
  conv_rhs => rw [← List.map_id rows]
  apply List.map_congr_left
  intro r hr
  rw [h r hr]
  rfl

/-- A key determines its row. -/
theorem row_unique {key : α → κ} {rows : List α} (h : (rows.map key).Nodup) {r r' : α}
    (hr : r ∈ rows) (hr' : r' ∈ rows) (heq : key r = key r') : r = r' :=
  List.inj_on_of_nodup_map h hr hr' heq

theorem find?_some_iff {key : α → κ} [DecidableEq κ] {rows : List α} (h : (rows.map key).Nodup)
    {k : κ} {r : α} : rows.find? (fun x => key x = k) = some r ↔ r ∈ rows ∧ key r = k := by
  constructor
  · intro hf
    exact ⟨List.mem_of_find?_eq_some hf, by simpa using List.find?_some hf⟩
  · rintro ⟨hr, rfl⟩
    cases hf : rows.find? (fun x => key x = key r) with
    | none =>
        rw [List.find?_eq_none] at hf
        exact absurd (hf r hr) (by simp)
    | some r' =>
        have hkey : key r' = key r := by simpa using List.find?_some hf
        rw [row_unique h (List.mem_of_find?_eq_some hf) hr hkey]

/-- A new row keeps the keys apart. -/
theorem nodup_map_append {key : α → κ} {rows : List α} (h : (rows.map key).Nodup) {r : α}
    (hnew : ∀ r' ∈ rows, key r' ≠ key r) : ((rows ++ [r]).map key).Nodup := by
  rw [List.map_append, List.map_singleton]
  refine List.nodup_append.mpr ⟨h, List.nodup_singleton _, ?_⟩
  intro a ha b hb
  obtain ⟨r', hr', rfl⟩ := List.mem_map.mp ha
  rw [List.mem_singleton.mp hb]
  exact hnew r' hr'

/-! ## Looking up a key -/

/-- Replace the row that has the key of a given row. -/
def setRow [DecidableEq κ] (key : α → κ) (r : α) (rows : List α) : List α :=
  modifyWhere (fun x => key x = key r) (fun _ => r) rows

theorem map_setRow [DecidableEq κ] (key : α → κ) (r : α) (rows : List α) :
    (setRow key r rows).map key = rows.map key := by
  unfold setRow modifyWhere
  rw [List.map_map]
  apply List.map_congr_left
  intro x _
  rw [Function.comp_apply]
  split
  · rename_i hx
    exact (by simpa using hx : key x = key r).symm
  · rfl

theorem mem_setRow [DecidableEq κ] {key : α → κ} {r x : α} {rows : List α} (h : x ∈ setRow key r rows) :
    x = r ∨ (x ∈ rows ∧ key x ≠ key r) := by
  rcases modifyWhere_cases h with ⟨_, _, _, rfl⟩ | ⟨hx, hp⟩
  · exact .inl rfl
  · exact .inr ⟨hx, by simpa using hp⟩

/-- Looking up a key after rows were deleted. -/
theorem find?_filter [DecidableEq κ] {key : α → κ} {rows : List α} (h : (rows.map key).Nodup)
    (q : α → Bool) (k : κ) :
    (rows.filter q).find? (fun x => key x = k) = (rows.find? (fun x => key x = k)).filter q := by
  have hnodup : ((rows.filter q).map key).Nodup := h.sublist (List.filter_sublist.map key)
  ext r
  rw [find?_some_iff hnodup, List.mem_filter, Option.filter_eq_some_iff, find?_some_iff h]
  constructor
  · rintro ⟨⟨hr, hq⟩, hk⟩
    exact ⟨⟨hr, hk⟩, hq⟩
  · rintro ⟨⟨hr, hk⟩, hq⟩
    exact ⟨⟨hr, hq⟩, hk⟩

theorem mem_of_find? [DecidableEq κ] {key : α → κ} {rows : List α} {k : κ} {r : α}
    (h : rows.find? (fun x => key x = k) = some r) : r ∈ rows ∧ key r = k :=
  ⟨List.mem_of_find?_eq_some h, by simpa using List.find?_some h⟩

theorem setRow_self [DecidableEq κ] {key : α → κ} {rows : List α} (h : (rows.map key).Nodup) {r : α}
    (hr : r ∈ rows) : setRow key r rows = rows := by
  unfold setRow modifyWhere
  conv_rhs => rw [← List.map_id rows]
  apply List.map_congr_left
  intro x hx
  split
  · rename_i hk
    exact (row_unique h hx hr (by simpa using hk)).symm
  · rfl

theorem mem_setRow_self [DecidableEq κ] {key : α → κ} {rows : List α} {r r₀ : α} (hr : r₀ ∈ rows)
    (hkey : key r₀ = key r) : r ∈ setRow key r rows := by
  refine mem_modifyWhere.mpr ⟨r₀, hr, ?_⟩
  simp [hkey]

theorem mem_setRow_of_ne [DecidableEq κ] {key : α → κ} {rows : List α} {r x : α} (hx : x ∈ rows)
    (hne : key x ≠ key r) : x ∈ setRow key r rows := by
  refine mem_modifyWhere.mpr ⟨x, hx, ?_⟩
  simp [hne]

/-- What becomes of a row when one is replaced. -/
theorem exists_mem_setRow [DecidableEq κ] (key : α → κ) (r : α) {rows : List α} {x : α} (hx : x ∈ rows) :
    ∃ x' ∈ setRow key r rows, (x' = r ∧ key x = key r) ∨ (x' = x ∧ key x ≠ key r) := by
  by_cases hkey : key x = key r
  · exact ⟨r, mem_setRow_self hx hkey, .inl ⟨rfl, hkey⟩⟩
  · exact ⟨x, mem_setRow_of_ne hx hkey, .inr ⟨rfl, hkey⟩⟩

/-- A column that the new row shares with the old one. -/
theorem map_setRow_column [DecidableEq κ] {β : Type*} {key : α → κ} {f : α → β} {rows : List α} {r r₀ : α}
    (h : (rows.map key).Nodup) (hr : r₀ ∈ rows) (hkey : key r = key r₀) (hf : f r = f r₀) :
    (setRow key r rows).map f = rows.map f := by
  unfold setRow modifyWhere
  rw [List.map_map]
  apply List.map_congr_left
  intro x hx
  rw [Function.comp_apply]
  split
  · rename_i hxk
    rw [hf, row_unique h hx hr ((by simpa using hxk : key x = key r).trans hkey)]
  · rfl

theorem nodup_setRow [DecidableEq κ] {key : α → κ} {rows : List α} (h : (rows.map key).Nodup) (r : α) :
    ((setRow key r rows).map key).Nodup := by
  rwa [map_setRow]

theorem nodup_filter {key : α → κ} {rows : List α} (h : (rows.map key).Nodup) (p : α → Bool) :
    ((rows.filter p).map key).Nodup :=
  h.sublist (List.filter_sublist.map key)

theorem setRow_cons [DecidableEq κ] (key : α → κ) (r x : α) (rows : List α) :
    setRow key r (x :: rows) = (if key x = key r then r else x) :: setRow key r rows := by
  simp [setRow, modifyWhere]

/-- A selection that the new row passes whenever the old one does. -/
theorem filter_setRow [DecidableEq κ] {key : α → κ} {r : α} {p : α → Bool} {rows : List α}
    (h : ∀ x ∈ rows, key x = key r → p x = p r) :
    (setRow key r rows).filter p = setRow key r (rows.filter p) := by
  induction rows with
  | nil => rfl
  | cons x rows ih =>
      have ih' := ih fun y hy => h y (List.mem_cons_of_mem _ hy)
      rw [setRow_cons, List.filter_cons, List.filter_cons, ih']
      by_cases hkey : key x = key r
      · rw [if_pos hkey, ← h x List.mem_cons_self hkey]
        split
        · rw [setRow_cons, if_pos hkey]
        · rfl
      · rw [if_neg hkey]
        split
        · rw [setRow_cons, if_neg hkey]
        · rfl

/-- A row that is not there is not replaced. -/
theorem setRow_of_ne [DecidableEq κ] {key : α → κ} {r : α} {rows : List α} (h : ∀ x ∈ rows, key x ≠ key r) :
    setRow key r rows = rows := by
  unfold setRow
  apply modifyWhere_eq_self
  intro x hx
  simpa using h x hx

/-- The last row is replaced. -/
theorem setRow_concat [DecidableEq κ] {key : α → κ} {r x : α} {rows : List α}
    (h : ((rows ++ [x]).map key).Nodup) (hkey : key x = key r) : setRow key r (rows ++ [x]) = rows ++ [r] := by
  have hne : ∀ y ∈ rows, key y ≠ key r := by
    intro y hy heq
    rw [List.map_append, List.nodup_append] at h
    exact h.2.2 (key y) (List.mem_map_of_mem hy) (key x) (by simp) (heq.trans hkey.symm)
  have hrows := setRow_of_ne hne
  unfold setRow modifyWhere at hrows ⊢
  rw [List.map_append, hrows]
  simp [hkey]

/-- An update that only one key can satisfy replaces the row it finds. -/
theorem modifyWhere_eq_setRow [DecidableEq κ] {key : α → κ} {p : α → Bool} {f : α → α} {rows : List α}
    {k : κ} {r : α} (h : (rows.map key).Nodup) (hp : ∀ x, p x = true → key x = k)
    (hf : rows.find? p = some r) (hkey : key (f r) = key r) :
    modifyWhere p f rows = setRow key (f r) rows := by
  have hr : r ∈ rows := List.mem_of_find?_eq_some hf
  have hpr : p r = true := List.find?_some hf
  unfold setRow modifyWhere
  apply List.map_congr_left
  intro x hx
  by_cases hpx : p x = true
  · have hxr : x = r := row_unique h hx hr ((hp x hpx).trans (hp r hpr).symm)
    simp [hxr, hpr, hkey]
  · have hne : key x ≠ key (f r) := by
      intro heq
      rw [row_unique h hx hr (heq.trans hkey)] at hpx
      exact hpx hpr
    simp [hpx, hne]

/-! ## Insertion without conflicts -/

/-- Insert the rows whose keys are not there yet. -/
def insertMissing [DecidableEq κ] (key : α → κ) (new rows : List α) : List α :=
  new.foldl (fun rows r => if rows.any (fun x => key x = key r) then rows else rows ++ [r]) rows

theorem insertMissing_cons [DecidableEq κ] (key : α → κ) (r : α) (new rows : List α) :
    insertMissing key (r :: new) rows
      = insertMissing key new (if rows.any (fun x => key x = key r) then rows else rows ++ [r]) := rfl

theorem nodup_insertMissing [DecidableEq κ] {key : α → κ} (new : List α) {rows : List α}
    (h : (rows.map key).Nodup) : ((insertMissing key new rows).map key).Nodup := by
  induction new generalizing rows with
  | nil => exact h
  | cons r new ih =>
      rw [insertMissing_cons]
      split
      · exact ih h
      · rename_i hany
        apply ih
        apply nodup_map_append h
        intro r' hr' heq
        exact hany (List.any_eq_true.mpr ⟨r', hr', by simpa using heq⟩)

/-- Nothing is lost. -/
theorem subset_insertMissing [DecidableEq κ] {key : α → κ} {new rows : List α} {r : α} (h : r ∈ rows) :
    r ∈ insertMissing key new rows := by
  induction new generalizing rows with
  | nil => exact h
  | cons x new ih =>
      rw [insertMissing_cons]
      split
      · exact ih h
      · exact ih (List.mem_append_left _ h)

theorem mem_insertMissing [DecidableEq κ] {key : α → κ} {new rows : List α} {r : α}
    (h : r ∈ insertMissing key new rows) : r ∈ rows ∨ r ∈ new := by
  induction new generalizing rows with
  | nil => exact .inl h
  | cons x new ih =>
      rw [insertMissing_cons] at h
      rcases ih h with h | h
      · split at h
        · exact .inl h
        · rcases List.mem_append.mp h with h | h
          · exact .inl h
          · exact .inr (List.mem_cons.mpr (.inl (List.mem_singleton.mp h)))
      · exact .inr (List.mem_cons_of_mem _ h)

end VeloxRag.Lib
