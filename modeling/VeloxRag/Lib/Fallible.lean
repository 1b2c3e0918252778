import Mathlib

/-!
# Fallible steps

A step that may raise is a value of `Except`.  The lemmas here say when a sequence of steps returns.

## Main definitions

* `bind_ok_iff` — one step after another.
* `mapM_ok_iff` — one step for each item of a list.
* `mapM_some_iff` — the same for steps that only fail.
* `lookup_some_iff` — a look-up among entries with different keys.
-/

namespace VeloxRag.Lib.Fallible

variable {ε α β : Type}

theorem bind_ok_iff {x : Except ε α} {f : α → Except ε β} {b : β} :
    (x >>= f) = .ok b ↔ ∃ a, x = .ok a ∧ f a = .ok b := by
  cases x with
  | error e => simp [bind, Except.bind]
  | ok a => simp [bind, Except.bind]

/-- **A step for each item** returns when all of them do. -/
theorem mapM_ok_iff {f : α → Except ε β} {items : List α} {results : List β} :
    items.mapM f = .ok results ↔ List.Forall₂ (fun item result => f item = .ok result) items results := by
  induction items generalizing results with
  | nil =>
    cases results with
    | nil => exact ⟨fun _ => .nil, fun _ => rfl⟩
    | cons result results => constructor <;> intro h <;> cases h
  | cons item items ih =>
    rw [List.mapM_cons, bind_ok_iff, List.forall₂_cons_left_iff]
    constructor
    · rintro ⟨result, hresult, h⟩
      obtain ⟨rest, hrest, h⟩ := bind_ok_iff.mp h
      cases h
      exact ⟨result, rest, hresult, ih.mp hrest, rfl⟩
    · rintro ⟨result, rest, hresult, hrest, rfl⟩
      exact ⟨result, hresult, bind_ok_iff.mpr ⟨rest, ih.mpr hrest, rfl⟩⟩

/-- A step for each item that returns nothing. -/
theorem forM_ok_iff {f : α → Except ε Unit} {items : List α} :
    items.forM f = .ok () ↔ ∀ item ∈ items, f item = .ok () := by
  induction items with
  | nil => exact ⟨fun _ => by simp, fun _ => rfl⟩
  | cons item items ih =>
    have hcons : (item :: items).forM f = (f item >>= fun _ => items.forM f) := rfl
    rw [hcons, bind_ok_iff, List.forall_mem_cons, ← ih]
    exact ⟨fun ⟨_, hitem, hrest⟩ => ⟨hitem, hrest⟩, fun ⟨hitem, hrest⟩ => ⟨_, hitem, hrest⟩⟩

theorem mapM_some_iff {f : α → Option β} {items : List α} {results : List β} :
    items.mapM f = some results ↔ List.Forall₂ (fun item result => f item = some result) items results := by
  induction items generalizing results with
  | nil =>
    cases results with
    | nil => exact ⟨fun _ => .nil, fun _ => rfl⟩
    | cons result results => constructor <;> intro h <;> cases h
  | cons item items ih =>
    rw [List.mapM_cons, List.forall₂_cons_left_iff]
    constructor
    · intro h
      obtain ⟨result, hresult, h⟩ := Option.bind_eq_some_iff.mp h
      obtain ⟨rest, hrest, h⟩ := Option.bind_eq_some_iff.mp h
      cases h
      exact ⟨result, rest, hresult, ih.mp hrest, rfl⟩
    · rintro ⟨result, rest, hresult, hrest, rfl⟩
      exact Option.bind_eq_some_iff.mpr ⟨result, hresult,
        Option.bind_eq_some_iff.mpr ⟨rest, ih.mpr hrest, rfl⟩⟩

/-- What holds of every result, beside what relates it to its item. -/
theorem forall₂_and_right {R : α → β → Prop} {p : β → Prop} {items : List α} {results : List β}
    (h : List.Forall₂ R items results) (hp : ∀ result ∈ results, p result) :
    List.Forall₂ (fun item result => R item result ∧ p result) items results := by
  induction h with
  | nil => exact .nil
  | cons hR _ ih =>
    rw [List.forall_mem_cons] at hp
    exact .cons ⟨hR, hp.1⟩ (ih hp.2)

theorem exists_of_mem_right {R : α → β → Prop} {items : List α} {results : List β}
    (h : List.Forall₂ R items results) {result : β} (hmem : result ∈ results) :
    ∃ item ∈ items, R item result := by
  induction h with
  | nil => cases hmem
  | cons hR _ ih =>
    rcases List.mem_cons.mp hmem with rfl | hmem
    · exact ⟨_, List.mem_cons_self, hR⟩
    · obtain ⟨item, hitem, hR'⟩ := ih hmem
      exact ⟨item, List.mem_cons_of_mem _ hitem, hR'⟩

theorem exists_of_mem_left {R : α → β → Prop} {items : List α} {results : List β}
    (h : List.Forall₂ R items results) {item : α} (hmem : item ∈ items) :
    ∃ result ∈ results, R item result :=
  exists_of_mem_right h.flip hmem

theorem exists_forall₂ {R : α → β → Prop} {items : List α} (h : ∀ item ∈ items, ∃ result, R item result) :
    ∃ results, List.Forall₂ R items results := by
  induction items with
  | nil => exact ⟨[], .nil⟩
  | cons item items ih =>
    rw [List.forall_mem_cons] at h
    obtain ⟨result, hresult⟩ := h.1
    obtain ⟨results, hresults⟩ := ih h.2
    exact ⟨result :: results, .cons hresult hresults⟩

theorem map_eq_of_forall₂ {γ : Type} {R : α → β → Prop} {f : α → γ} {g : β → γ} {items : List α}
    {results : List β} (h : List.Forall₂ R items results) (heq : ∀ item result, R item result →
      f item = g result) : items.map f = results.map g := by
  induction h with
  | nil => rfl
  | cons hR _ ih => rw [List.map_cons, List.map_cons, heq _ _ hR, ih]

/-! ## Look-ups -/

theorem lookup_some_iff [BEq α] [LawfulBEq α] {entries : List (α × β)} (hnodup : (entries.map (·.1)).Nodup)
    {key : α} {value : β} : entries.lookup key = some value ↔ (key, value) ∈ entries := by
  rw [List.lookup_eq_some_iff]
  constructor
  · rintro ⟨before, after, rfl, -⟩
    exact List.mem_append_right _ List.mem_cons_self
  · intro hmem
    obtain ⟨before, after, rfl⟩ := List.append_of_mem hmem
    refine ⟨before, after, rfl, fun entry hentry => ?_⟩
    rw [List.map_append, List.map_cons] at hnodup
    have hne : key ≠ entry.1 := by
      rintro rfl
      exact List.disjoint_of_nodup_append hnodup (List.mem_map_of_mem hentry) List.mem_cons_self
    exact bne_iff_ne.mpr hne

theorem lookup_none_iff [BEq α] [LawfulBEq α] {entries : List (α × β)} {key : α} :
    entries.lookup key = none ↔ key ∉ entries.map (·.1) := by
  rw [List.lookup_eq_none_iff]
  constructor
  · intro h hmem
    obtain ⟨entry, hentry, rfl⟩ := List.mem_map.mp hmem
    exact bne_iff_ne.mp (h entry hentry) rfl
  · intro h entry hentry
    refine bne_iff_ne.mpr ?_
    rintro rfl
    exact h (List.mem_map_of_mem hentry)

end VeloxRag.Lib.Fallible
