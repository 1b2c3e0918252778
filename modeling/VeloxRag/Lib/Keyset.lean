import Mathlib

/-!
# Keyset pagination

A listing is in the order of a key that no two rows share.  A page is a number of rows that come
after a position in this order, and its last row is the position of the next page, as long as one
more row was found.

## Main definitions

* `rowsAfter`, `fetch`, `page` — the rows after a position, a query with a limit, and a page.
* `follow` — all pages from a cursor on.
* `follow_page` — the pages are the rows after the position, each once and in order.
* `Covers`, `follow_covers` — the same for pages that leave rows out and end where they like.
* `follow_encoded` — the same with cursors that stand for positions.
-/

namespace VeloxRag.Lib.Keyset

variable {α β κ γ : Type*}

/-- Items of a listing, and where the next page begins. -/
structure Page (α γ : Type*) where
  items : List α
  next : Option γ

/-- The pages from a cursor on, one after the other; `none` when they do not end. -/
def follow (request : Option γ → Option (Page α γ)) : ℕ → Option γ → Option (List α)
  | 0, _ => none
  | turns + 1, cursor =>
      (request cursor).bind fun p =>
        match p.next with
        | none => some p.items
        | some next => (follow request turns (some next)).map (p.items ++ ·)

variable [LinearOrder κ] (key : α → κ) (rows : List α)

/-- The row comes after the position. -/
def after (position : Option κ) (x : α) : Bool := position.all fun p => decide (p < key x)

/-- The rows after a position, in order. -/
def rowsAfter (position : Option κ) : List α :=
  (rows.filter (after key position)).mergeSort fun a b => decide (key a ≤ key b)

/-- A query with a limit. -/
def fetch (position : Option κ) (limit : ℕ) : List α := (rowsAfter key rows position).take limit

/-- A page asks for one row more than it shows. -/
def page (size : ℕ) (position : Option κ) : Page α κ :=
  let found := fetch key rows position (size + 1)
  let visible := found.take size
  ⟨visible, if size < found.length then visible.getLast?.map key else none⟩

variable {key rows} {position : Option κ} {size : ℕ} {x : α}

theorem mem_rowsAfter : x ∈ rowsAfter key rows position ↔ x ∈ rows ∧ ∀ p ∈ position, p < key x := by
  rw [rowsAfter, List.mem_mergeSort, List.mem_filter, after]
  cases position <;> simp

theorem rowsAfter_perm (position : Option κ) :
    (rowsAfter key rows position).Perm (rows.filter (after key position)) :=
  List.mergeSort_perm _ _

theorem pairwise_rowsAfter (hkeys : (rows.map key).Nodup) (position : Option κ) :
    (rowsAfter key rows position).Pairwise fun a b => key a < key b := by
  have hsorted : (rowsAfter key rows position).Pairwise fun a b => key a ≤ key b := by
    have h := @List.pairwise_mergeSort _ (fun a b => decide (key a ≤ key b))
      (fun a b c hab hbc => decide_eq_true ((of_decide_eq_true hab).trans (of_decide_eq_true hbc)))
      (fun a b => by simpa using le_total (key a) (key b)) (rows.filter (after key position))
    exact h.imp of_decide_eq_true
  have hdistinct : (rowsAfter key rows position).Pairwise fun a b => key a ≠ key b := by
    have hnodup : ((rowsAfter key rows position).map key).Nodup :=
      ((rowsAfter_perm position).map key).nodup_iff.mpr
        (hkeys.sublist (List.filter_sublist.map key))
    exact List.pairwise_map.mp hnodup
  exact (hsorted.and hdistinct).imp fun h => lt_of_le_of_ne h.1 h.2

/-- Two listings in order with the same rows are the same. -/
theorem eq_of_pairwise {xs ys : List α} (hxs : xs.Pairwise fun a b => key a < key b)
    (hys : ys.Pairwise fun a b => key a < key b) (hmem : ∀ x, x ∈ xs ↔ x ∈ ys) : xs = ys := by
  have hnodup : ∀ {zs : List α}, zs.Pairwise (fun a b => key a < key b) → zs.Nodup := by
    intro zs hzs
    refine List.Pairwise.imp ?_ hzs
    rintro a b hab rfl
    exact lt_irrefl _ hab
  refine ((List.perm_ext_iff_of_nodup (hnodup hxs) (hnodup hys)).mpr hmem).eq_of_pairwise ?_ hxs hys
  intro a b _ _ hab hba
  exact absurd hab hba.asymm

/-- After the row at an index come the rows behind it. -/
theorem rowsAfter_next (hkeys : (rows.map key).Nodup) {i : ℕ}
    (hx : (rowsAfter key rows position)[i]? = some x) :
    rowsAfter key rows (some (key x)) = (rowsAfter key rows position).drop (i + 1) := by
  have hsorted := pairwise_rowsAfter hkeys position
  obtain ⟨hi, hget⟩ := List.getElem?_eq_some_iff.mp hx
  have hsplit : (rowsAfter key rows position).take i ++
      x :: (rowsAfter key rows position).drop (i + 1) = rowsAfter key rows position := by
    rw [← hget, List.getElem_cons_drop, List.take_append_drop]
  apply eq_of_pairwise (pairwise_rowsAfter hkeys _) (hsorted.sublist (List.drop_sublist _ _))
  intro y
  rw [← hsplit] at hsorted
  obtain ⟨-, hrest, hbefore⟩ := List.pairwise_append.mp hsorted
  rw [mem_rowsAfter]
  constructor
  · rintro ⟨hy, hlt⟩
    have hxy : key x < key y := hlt _ rfl
    have hmem : y ∈ rowsAfter key rows position := by
      refine mem_rowsAfter.mpr ⟨hy, fun p hp => ?_⟩
      exact ((mem_rowsAfter.mp (List.mem_of_getElem? hx)).2 p hp).trans hxy
    rw [← hsplit, List.mem_append, List.mem_cons] at hmem
    rcases hmem with hmem | rfl | hmem
    · exact absurd (hbefore y hmem x List.mem_cons_self) hxy.asymm
    · exact absurd hxy (lt_irrefl _)
    · exact hmem
  · intro hy
    refine ⟨(mem_rowsAfter.mp (List.mem_of_mem_drop hy)).1, fun p hp => ?_⟩
    cases hp
    exact (List.pairwise_cons.mp hrest).1 y hy

theorem page_last (h : (rowsAfter key rows position).length ≤ size) :
    page key rows size position = ⟨rowsAfter key rows position, none⟩ := by
  have hall : (rowsAfter key rows position).take (size + 1) = rowsAfter key rows position :=
    List.take_of_length_le (by omega)
  simp only [page, fetch, hall, List.take_of_length_le h, if_neg (Nat.not_lt.mpr h)]

theorem page_more (hsize : 1 ≤ size) (h : size < (rowsAfter key rows position).length) :
    ∃ x, (rowsAfter key rows position)[size - 1]? = some x ∧
      page key rows size position = ⟨(rowsAfter key rows position).take size, some (key x)⟩ := by
  have hx : size - 1 < (rowsAfter key rows position).length := by omega
  refine ⟨(rowsAfter key rows position)[size - 1], List.getElem?_eq_getElem hx, ?_⟩
  have hlast : ((rowsAfter key rows position).take size).getLast? =
      some (rowsAfter key rows position)[size - 1] := by
    rw [List.getLast?_eq_getElem?, List.length_take, Nat.min_eq_left (by omega),
      List.getElem?_take_of_lt (by omega), List.getElem?_eq_getElem hx]
  simp only [page, fetch, List.take_take, List.length_take]
  rw [Nat.min_eq_left (Nat.le_succ size), if_pos (by omega), hlast]
  rfl

/-- **All pages from a position on are the rows after it**, each once and in order. -/
theorem follow_page (hkeys : (rows.map key).Nodup) (hsize : 1 ≤ size) : ∀ turns position,
    (rowsAfter key rows position).length < turns →
    follow (fun p => some (page key rows size p)) turns position =
      some (rowsAfter key rows position) := by
  intro turns
  induction turns with
  | zero => exact fun position h => absurd h (Nat.not_lt_zero _)
  | succ turns ih =>
    intro position hturns
    rw [follow, Option.bind_some]
    by_cases hlast : (rowsAfter key rows position).length ≤ size
    · rw [page_last hlast]
    · obtain ⟨x, hx, hpage⟩ := page_more hsize (Nat.not_le.mp hlast)
      have hnext := rowsAfter_next hkeys hx
      rw [Nat.sub_add_cancel hsize] at hnext
      rw [hpage]
      dsimp only
      rw [ih (some (key x)) (by rw [hnext, List.length_drop]; omega), hnext, Option.map_some,
        List.take_append_drop]

theorem next_mem (h : (page key rows size position).next = some k) : k ∈ rows.map key := by
  dsimp only [page] at h
  split at h
  · obtain ⟨x, hx, rfl⟩ := Option.map_eq_some_iff.mp h
    have hmem := List.mem_of_mem_take (List.mem_of_mem_take (List.mem_of_getLast? hx))
    exact List.mem_map_of_mem (mem_rowsAfter.mp hmem).1
  · cases h

/-- Cursors that stand for the positions of the rows lead to the same pages. -/
theorem follow_encoded (encode : κ → γ) (request : Option γ → Option (Page α γ))
    (hrequest : ∀ position : Option κ, (∀ k ∈ position, k ∈ rows.map key) →
      request (position.map encode) = some ⟨(page key rows size position).items,
        (page key rows size position).next.map encode⟩) : ∀ turns (position : Option κ),
    (∀ k ∈ position, k ∈ rows.map key) →
    follow request turns (position.map encode) =
      follow (fun p => some (page key rows size p)) turns position := by
  intro turns
  induction turns with
  | zero => exact fun _ _ => rfl
  | succ turns ih =>
    intro position hposition
    rw [follow, follow, hrequest position hposition, Option.bind_some, Option.bind_some]
    cases hnext : (page key rows size position).next with
    | none => rfl
    | some k =>
      dsimp only [Option.map_some]
      have := ih (some k) (by
        intro k' hk'
        cases hk'
        exact next_mem hnext)
      rw [Option.map_some] at this
      rw [this]

/-- A page shows what is to be shown of the rows in front, and goes on behind the last of them. -/
def Covers (key : α → κ) (shown : List α → List β) (left : List α) (p : Page β κ) : Prop :=
  ∃ front rest, left = front ++ rest ∧ p.items = shown front ∧
    (p.next = none ∧ rest = [] ∨ ∃ init x, front = init ++ [x] ∧ p.next = some (key x))

/-- **Pages that cover the rows** show together what is to be shown of all of them. -/
theorem follow_covers {shown : List α → List β} {request : Option κ → Option (Page β κ)}
    (hkeys : (rows.map key).Nodup) (happend : ∀ xs ys, shown (xs ++ ys) = shown xs ++ shown ys)
    (hrequest : ∀ position : Option κ, (∀ k ∈ position, k ∈ rows.map key) →
      ∃ p, request position = some p ∧ Covers key shown (rowsAfter key rows position) p) :
    ∀ turns (position : Option κ), (∀ k ∈ position, k ∈ rows.map key) →
    (rowsAfter key rows position).length < turns →
    follow request turns position = some (shown (rowsAfter key rows position)) := by
  intro turns
  induction turns with
  | zero => exact fun position _ h => absurd h (Nat.not_lt_zero _)
  | succ turns ih =>
    intro position hposition hturns
    obtain ⟨p, hp, front, rest, hleft, hitems, hnext⟩ := hrequest position hposition
    rw [follow, hp, Option.bind_some]
    rcases hnext with ⟨hnone, rfl⟩ | ⟨init, x, rfl, hsome⟩
    · rw [hnone, hitems, hleft, List.append_nil]
    · have hx : (rowsAfter key rows position)[init.length]? = some x := by
        rw [hleft, List.append_assoc, List.getElem?_append_right (le_refl _)]
        simp
      have hrest : rowsAfter key rows (some (key x)) = rest := by
        rw [rowsAfter_next hkeys hx, hleft]
        exact List.drop_left' (by simp)
      have hmem : key x ∈ rows.map key :=
        List.mem_map_of_mem (mem_rowsAfter.mp (List.mem_of_getElem? hx)).1
      have hlength : (rowsAfter key rows (some (key x))).length < turns := by
        rw [hleft] at hturns
        rw [hrest]
        simp only [List.length_append, List.length_singleton] at hturns
        omega
      have hfollow := ih (some (key x)) (by
        intro k hk
        cases hk
        exact hmem) hlength
      rw [hsome]
      dsimp only
      rw [hfollow, hrest, hleft, happend, hitems, Option.map_some]

end VeloxRag.Lib.Keyset
