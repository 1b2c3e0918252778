import Mathlib

/-!
# Nested Python values and their normal forms

A nested value of Python is a scalar, a list, a tuple, a dictionary or another mapping.  A function
that writes such values down usually sorts the keys of every dictionary and writes the rest as it
is; it is `PyValue.normalize`, over what it does to scalars and how it packs lists and members.
Two values have the same normal form exactly when they are the same up to the order of keys.

## Main definitions

* `PyValue`, `PyValue.UniqueKeys` — values, and that dictionaries have no key twice.
* `PyValue.Same` — equality up to the order of keys, over a relation of scalars.
* `PyValue.normalize`, `PyValue.Packing` — the normal form and what it needs.
* `PyValue.normalize_eq_iff` — equal normal forms are those of the same values.
-/

namespace VeloxRag.Lib

/-! ## Sorting by key -/

section SortByKey

variable {α β : Type*}

/-- The members in the order of their keys. -/
def sortByKey (ms : List (List Char × α)) : List (List Char × α) :=
  ms.mergeSort fun a b => decide (a.1 ≤ b.1)

theorem sortByKey_perm (ms : List (List Char × α)) : (sortByKey ms).Perm ms := List.mergeSort_perm ms _

theorem pairwise_sortByKey (ms : List (List Char × α)) :
    (sortByKey ms).Pairwise fun a b => a.1 ≤ b.1 := by
  have hsorted : (sortByKey ms).Pairwise fun a b => decide (a.1 ≤ b.1) = true := by
    apply List.pairwise_mergeSort
    · intro a b c hab hbc
      simp only [decide_eq_true_eq] at *
      exact le_trans hab hbc
    · intro a b
      simp only [Bool.or_eq_true, decide_eq_true_eq]
      exact le_total a.1 b.1
  exact hsorted.imp fun hab => of_decide_eq_true hab

theorem eq_of_mem_of_key {ms : List (List Char × α)} (h : (ms.map Prod.fst).Nodup)
    {a b : List Char × α} (ha : a ∈ ms) (hb : b ∈ ms) (hkey : a.1 = b.1) : a = b :=
  List.inj_on_of_nodup_map h ha hb hkey

/-- Sorted members do not depend on the order that they had. -/
theorem sortByKey_eq_of_perm {ms ms' : List (List Char × α)} (h : ms.Perm ms')
    (hkeys : (ms.map Prod.fst).Nodup) : sortByKey ms = sortByKey ms' := by
  apply List.Perm.eq_of_pairwise _ (pairwise_sortByKey ms) (pairwise_sortByKey ms')
    ((sortByKey_perm ms).trans (h.trans (sortByKey_perm ms').symm))
  intro a b ha hb hab hba
  exact eq_of_mem_of_key hkeys ((sortByKey_perm ms).mem_iff.mp ha)
    (h.mem_iff.mpr ((sortByKey_perm ms').mem_iff.mp hb)) (le_antisymm hab hba)

theorem sortByKey_map (f : α → β) (ms : List (List Char × α)) :
    (sortByKey ms).map (fun m => (m.1, f m.2)) = sortByKey (ms.map fun m => (m.1, f m.2)) :=
  List.map_mergeSort fun _ _ _ _ => rfl

theorem sortByKey_sortByKey (ms : List (List Char × α)) : sortByKey (sortByKey ms) = sortByKey ms := by
  apply List.mergeSort_of_pairwise
  exact (pairwise_sortByKey ms).imp fun hab => decide_eq_true hab

end SortByKey

/-! ## Values -/

/-- A key of a dictionary: a text, or another object. -/
inductive PyKey
  | str (s : List Char)
  | other (id : ℕ)
deriving DecidableEq

/-- A nested Python value over a type of numbers that are no `int`.  `mapping` is a mapping that is
no `dict`, and `other` any object besides. -/
inductive PyValue (F : Type)
  | none
  | bool (b : Bool)
  | int (n : ℤ)
  | float (f : F)
  | str (s : List Char)
  | list (items : List (PyValue F))
  | tuple (items : List (PyValue F))
  | dict (members : List (PyKey × PyValue F))
  | mapping (members : List (PyKey × PyValue F))
  | other (id : ℕ)

/-! ## Going through a list -/

section Traverse

variable {α β : Type*}

/-- A function that goes through a list and fails at the first item that fails. -/
theorem traverse_eq_some (f : α → Option β) (fs : List α → Option (List β)) (hnil : fs [] = some [])
    (hcons : ∀ x xs, fs (x :: xs) = (f x).bind fun y => (fs xs).bind fun ys => some (y :: ys))
    {xs : List α} {ys : List β} :
    fs xs = some ys ↔ List.Forall₂ (fun x y => f x = some y) xs ys := by
  induction xs generalizing ys with
  | nil => rw [hnil, List.forall₂_nil_left_iff, Option.some.injEq, eq_comm]
  | cons x xs ih =>
    rw [hcons, List.forall₂_cons_left_iff]
    constructor
    · intro h
      obtain ⟨y, hy, h⟩ := Option.bind_eq_some_iff.mp h
      obtain ⟨rest, hrest, h⟩ := Option.bind_eq_some_iff.mp h
      cases h
      exact ⟨y, rest, hy, ih.mp hrest, rfl⟩
    · rintro ⟨y, rest, hy, hrest, rfl⟩
      rw [hy, ih.mpr hrest]
      rfl

/-- A function that goes through the members of a dictionary and fails at a key that is no text. -/
theorem traverseMembers_eq_some (f : α → Option β)
    (fs : List (PyKey × α) → Option (List (List Char × β))) (hnil : fs [] = some [])
    (hstr : ∀ k v ms, fs ((.str k, v) :: ms) =
      (f v).bind fun y => (fs ms).bind fun ns => some ((k, y) :: ns))
    (hother : ∀ id v ms, fs ((.other id, v) :: ms) = none) {ms : List (PyKey × α)}
    {ns : List (List Char × β)} :
    fs ms = some ns ↔ List.Forall₂ (fun m n => m.1 = .str n.1 ∧ f m.2 = some n.2) ms ns := by
  have hmember : ∀ (m : PyKey × α) (n : List Char × β),
      (match m.1 with
        | .str k => (f m.2).map fun y => (k, y)
        | .other _ => none) = some n ↔ m.1 = .str n.1 ∧ f m.2 = some n.2 := by
    rintro ⟨k | id, v⟩ ⟨k', y⟩
    · simp only [Option.map_eq_some_iff, Prod.mk.injEq, PyKey.str.injEq]
      constructor
      · rintro ⟨y', hy', rfl, rfl⟩
        exact ⟨rfl, hy'⟩
      · rintro ⟨rfl, hy⟩
        exact ⟨y, hy, rfl, rfl⟩
    · simp
  simp only [← hmember]
  refine traverse_eq_some _ fs hnil ?_
  rintro ⟨k | id, v⟩ ms
  · rw [hstr]
    cases f v <;> rfl
  · rw [hother]
    rfl

end Traverse

namespace PyValue

variable {F N : Type}

def IsScalar : PyValue F → Prop
  | .none | .bool _ | .int _ | .float _ | .str _ => True
  | _ => False

/-- Induction over values, with all items and members at once. -/
theorem induction_on {P : PyValue F → Prop} (hscalar : ∀ v, v.IsScalar → P v)
    (hlist : ∀ xs, (∀ x ∈ xs, P x) → P (.list xs)) (htuple : ∀ xs, (∀ x ∈ xs, P x) → P (.tuple xs))
    (hdict : ∀ ms, (∀ m ∈ ms, P m.2) → P (.dict ms))
    (hmapping : ∀ ms, (∀ m ∈ ms, P m.2) → P (.mapping ms)) (hother : ∀ id, P (.other id)) :
    ∀ v, P v := by
  intro v
  refine @PyValue.rec F P (fun xs => ∀ x ∈ xs, P x) (fun ms => ∀ m ∈ ms, P m.2) (fun m => P m.2)
    (hscalar _ trivial) (fun _ => hscalar _ trivial) (fun _ => hscalar _ trivial)
    (fun _ => hscalar _ trivial) (fun _ => hscalar _ trivial) hlist htuple hdict hmapping hother
    (by simp) ?_ (by simp) ?_ (fun _ _ hv => hv) v
  · intro x xs hx hxs
    exact List.forall_mem_cons.mpr ⟨hx, hxs⟩
  · intro m ms hm hms
    exact List.forall_mem_cons.mpr ⟨hm, hms⟩

mutual
/-- No dictionary or mapping has a key twice. -/
def UniqueKeys : PyValue F → Prop
  | .list xs => UniqueKeysItems xs
  | .tuple xs => UniqueKeysItems xs
  | .dict ms => (ms.map Prod.fst).Nodup ∧ UniqueKeysMembers ms
  | .mapping ms => (ms.map Prod.fst).Nodup ∧ UniqueKeysMembers ms
  | _ => True

def UniqueKeysItems : List (PyValue F) → Prop
  | [] => True
  | x :: xs => UniqueKeys x ∧ UniqueKeysItems xs

def UniqueKeysMembers : List (PyKey × PyValue F) → Prop
  | [] => True
  | (_, v) :: ms => UniqueKeys v ∧ UniqueKeysMembers ms
end

theorem uniqueKeysItems_iff (xs : List (PyValue F)) :
    UniqueKeysItems xs ↔ ∀ x ∈ xs, x.UniqueKeys := by
  induction xs with
  | nil => exact iff_of_true trivial (by simp)
  | cons x xs ih =>
    rw [List.forall_mem_cons, ← ih]
    exact Iff.rfl

theorem uniqueKeysMembers_iff (ms : List (PyKey × PyValue F)) :
    UniqueKeysMembers ms ↔ ∀ m ∈ ms, m.2.UniqueKeys := by
  induction ms with
  | nil => exact iff_of_true trivial (by simp)
  | cons m ms ih =>
    rw [List.forall_mem_cons, ← ih]
    exact Iff.rfl

theorem uniqueKeys_list {xs : List (PyValue F)} :
    (PyValue.list xs).UniqueKeys ↔ ∀ x ∈ xs, x.UniqueKeys := uniqueKeysItems_iff xs

theorem uniqueKeys_dict {ms : List (PyKey × PyValue F)} :
    (PyValue.dict ms).UniqueKeys ↔ (ms.map Prod.fst).Nodup ∧ ∀ m ∈ ms, m.2.UniqueKeys :=
  and_congr_right fun _ => uniqueKeysMembers_iff ms

/-- Equality up to the order of keys, over a relation of scalars. -/
inductive Same (R : PyValue F → PyValue F → Prop) : PyValue F → PyValue F → Prop
  | scalar {v w : PyValue F} (h : R v w) : Same R v w
  | list {xs ys : List (PyValue F)} (length : xs.length = ys.length)
      (items : ∀ (i : ℕ) (x y : PyValue F), xs[i]? = some x → ys[i]? = some y → Same R x y) :
      Same R (.list xs) (.list ys)
  | dict {ms ms' : List (PyKey × PyValue F)}
      (keys : ∀ k, k ∈ ms.map Prod.fst ↔ k ∈ ms'.map Prod.fst)
      (members : ∀ k v w, (k, v) ∈ ms → (k, w) ∈ ms' → Same R v w) : Same R (.dict ms) (.dict ms')

/-! ## Normal forms -/

section Normalize

variable (scalar : PyValue F → Option N) (arr : List N → N) (obj : List (List Char × N) → N)

mutual
/-- The value with the members of every dictionary sorted; a key that is no text is refused, and so
is what is neither a scalar nor a list nor a dictionary. -/
def normalize : PyValue F → Option N
  | .list xs => (normalizeItems xs).map arr
  | .dict ms => (normalizeMembers ms).map fun ms => obj (sortByKey ms)
  | .tuple _ => Option.none
  | .mapping _ => Option.none
  | .other _ => Option.none
  | v => scalar v

def normalizeItems : List (PyValue F) → Option (List N)
  | [] => some []
  | x :: xs => do
      let x ← normalize x
      let xs ← normalizeItems xs
      pure (x :: xs)

def normalizeMembers : List (PyKey × PyValue F) → Option (List (List Char × N))
  | [] => some []
  | (.str k, v) :: ms => do
      let v ← normalize v
      let ms ← normalizeMembers ms
      pure ((k, v) :: ms)
  | (.other _, _) :: _ => Option.none
end

variable {scalar arr obj}

/-- Members and their normal forms. -/
abbrev NormalMember (scalar : PyValue F → Option N) (arr : List N → N)
    (obj : List (List Char × N) → N) (m : PyKey × PyValue F) (n : List Char × N) : Prop :=
  m.1 = .str n.1 ∧ normalize scalar arr obj m.2 = some n.2

theorem normalize_list (xs : List (PyValue F)) :
    normalize scalar arr obj (.list xs) = (normalizeItems scalar arr obj xs).map arr := rfl

theorem normalize_dict (ms : List (PyKey × PyValue F)) :
    normalize scalar arr obj (.dict ms) =
      (normalizeMembers scalar arr obj ms).map fun ms => obj (sortByKey ms) := rfl

theorem normalizeItems_eq_some {xs : List (PyValue F)} {ys : List N} :
    normalizeItems scalar arr obj xs = some ys ↔
      List.Forall₂ (fun x y => normalize scalar arr obj x = some y) xs ys :=
  traverse_eq_some _ (normalizeItems scalar arr obj) rfl fun _ _ => rfl

theorem normalizeMembers_eq_some {ms : List (PyKey × PyValue F)} {ns : List (List Char × N)} :
    normalizeMembers scalar arr obj ms = some ns ↔
      List.Forall₂ (NormalMember scalar arr obj) ms ns :=
  traverseMembers_eq_some _ (normalizeMembers scalar arr obj) rfl (fun _ _ _ => rfl) fun _ _ _ => rfl

theorem normalize_scalar {v : PyValue F} (h : v.IsScalar) :
    normalize scalar arr obj v = scalar v := by
  cases v <;> first | rfl | exact h.elim

/-- What has a normal form is a scalar, a list or a dictionary. -/
theorem normalize_cases {v : PyValue F} {x : N} (h : normalize scalar arr obj v = some x) :
    (v.IsScalar ∧ scalar v = some x) ∨
    (∃ xs ys, v = .list xs ∧ x = arr ys ∧
      List.Forall₂ (fun x y => normalize scalar arr obj x = some y) xs ys) ∨
    ∃ ms ns, v = .dict ms ∧ x = obj (sortByKey ns) ∧
      List.Forall₂ (NormalMember scalar arr obj) ms ns := by
  cases v with
  | list xs =>
    rw [normalize_list] at h
    obtain ⟨ys, hys, rfl⟩ := Option.map_eq_some_iff.mp h
    exact .inr (.inl ⟨xs, ys, rfl, rfl, normalizeItems_eq_some.mp hys⟩)
  | dict ms =>
    rw [normalize_dict] at h
    obtain ⟨ns, hns, rfl⟩ := Option.map_eq_some_iff.mp h
    exact .inr (.inr ⟨ms, ns, rfl, rfl, normalizeMembers_eq_some.mp hns⟩)
  | tuple xs => cases h
  | mapping ms => cases h
  | other id => cases h
  | none => exact .inl ⟨trivial, h⟩
  | bool b => exact .inl ⟨trivial, h⟩
  | int n => exact .inl ⟨trivial, h⟩
  | float f => exact .inl ⟨trivial, h⟩
  | str s => exact .inl ⟨trivial, h⟩

theorem keys_of_forall₂ {ms : List (PyKey × PyValue F)} {ns : List (List Char × N)}
    (h : List.Forall₂ (NormalMember scalar arr obj) ms ns) :
    ms.map Prod.fst = ns.map fun n => PyKey.str n.1 := by
  induction h with
  | nil => rfl
  | cons hm _ ih => rw [List.map_cons, List.map_cons, hm.1, ih]

theorem nodup_keys {ms : List (PyKey × PyValue F)} {ns : List (List Char × N)}
    (h : List.Forall₂ (NormalMember scalar arr obj) ms ns) (hkeys : (ms.map Prod.fst).Nodup) :
    (ns.map Prod.fst).Nodup := by
  rw [keys_of_forall₂ h] at hkeys
  have hmap : (ns.map fun n => PyKey.str n.1) = (ns.map Prod.fst).map PyKey.str := by
    rw [List.map_map]
    rfl
  rw [hmap] at hkeys
  exact hkeys.of_map

theorem exists_member {ms : List (PyKey × PyValue F)} {ns : List (List Char × N)}
    (h : List.Forall₂ (NormalMember scalar arr obj) ms ns) {n : List Char × N} (hn : n ∈ ns) :
    ∃ v, (PyKey.str n.1, v) ∈ ms ∧ normalize scalar arr obj v = some n.2 := by
  induction h with
  | nil => cases hn
  | @cons m n' ms ns hm _ ih =>
    rcases List.mem_cons.mp hn with rfl | hn
    · refine ⟨m.2, ?_, hm.2⟩
      rw [← hm.1]
      exact List.mem_cons_self
    · obtain ⟨v, hv, hnormal⟩ := ih hn
      exact ⟨v, List.mem_cons_of_mem _ hv, hnormal⟩

theorem exists_normalMember {ms : List (PyKey × PyValue F)} {ns : List (List Char × N)}
    (h : List.Forall₂ (NormalMember scalar arr obj) ms ns) {m : PyKey × PyValue F} (hm : m ∈ ms) :
    ∃ n ∈ ns, NormalMember scalar arr obj m n := by
  induction h with
  | nil => cases hm
  | @cons m' n ms ns hm' _ ih =>
    rcases List.mem_cons.mp hm with rfl | hm
    · exact ⟨n, List.mem_cons_self, hm'⟩
    · obtain ⟨n', hn', hnormal⟩ := ih hm
      exact ⟨n', List.mem_cons_of_mem _ hn', hnormal⟩

/-- What packs scalars, lists and members loses nothing of them, up to a relation of scalars. -/
structure Packing (R : PyValue F → PyValue F → Prop) (scalar : PyValue F → Option N)
    (arr : List N → N) (obj : List (List Char × N) → N) : Prop where
  isScalar : ∀ v w, R v w → v.IsScalar ∧ w.IsScalar
  scalar_iff : ∀ v w x y, v.IsScalar → w.IsScalar → scalar v = some x → scalar w = some y →
    (x = y ↔ R v w)
  arr_injective : Function.Injective arr
  obj_injective : Function.Injective obj
  arr_ne_obj : ∀ xs ms, arr xs ≠ obj ms
  scalar_ne_arr : ∀ v x, v.IsScalar → scalar v = some x → ∀ xs, x ≠ arr xs
  scalar_ne_obj : ∀ v x, v.IsScalar → scalar v = some x → ∀ ms, x ≠ obj ms

variable {R : PyValue F → PyValue F → Prop}

/-- The same values have equal normal forms. -/
theorem normalize_eq_of_same (hpack : Packing R scalar arr obj) {v w : PyValue F} (h : Same R v w)
    (hv : v.UniqueKeys) (hw : w.UniqueKeys) {x y : N} (hx : normalize scalar arr obj v = some x)
    (hy : normalize scalar arr obj w = some y) : x = y := by
  induction h generalizing x y with
  | scalar h =>
    obtain ⟨hsv, hsw⟩ := hpack.isScalar _ _ h
    rw [normalize_scalar hsv] at hx
    rw [normalize_scalar hsw] at hy
    exact (hpack.scalar_iff _ _ _ _ hsv hsw hx hy).mpr h
  | @list xs ys hlength _ ih =>
    rw [uniqueKeys_list] at hv hw
    rw [normalize_list] at hx hy
    obtain ⟨us, hus, rfl⟩ := Option.map_eq_some_iff.mp hx
    obtain ⟨ws, hws, rfl⟩ := Option.map_eq_some_iff.mp hy
    rw [normalizeItems_eq_some] at hus hws
    congr 1
    apply List.ext_getElem
    · rw [← hus.length_eq, ← hws.length_eq, hlength]
    · intro i hi hi'
      have hix : i < xs.length := hus.length_eq ▸ hi
      have hiy : i < ys.length := hlength ▸ hix
      exact ih i xs[i] ys[i] (List.getElem?_eq_getElem hix) (List.getElem?_eq_getElem hiy)
        (hv _ (List.getElem_mem hix)) (hw _ (List.getElem_mem hiy)) (hus.get hix hi)
        (hws.get hiy hi')
  | @dict ms ms' hkeys _ ih =>
    rw [uniqueKeys_dict] at hv hw
    rw [normalize_dict] at hx hy
    obtain ⟨ns, hns, rfl⟩ := Option.map_eq_some_iff.mp hx
    obtain ⟨ns', hns', rfl⟩ := Option.map_eq_some_iff.mp hy
    rw [normalizeMembers_eq_some] at hns hns'
    -- a member on one side has its key and its normal form on the other side as well
    have hmem : ∀ n ∈ ns, ∃ n' ∈ ns', n = n' := by
      intro n hn
      obtain ⟨u, hu, hnu⟩ := exists_member hns hn
      obtain ⟨⟨k, u'⟩, hu', hk⟩ := List.mem_map.mp ((hkeys _).mp (List.mem_map_of_mem hu))
      dsimp only at hk
      subst hk
      obtain ⟨n', hn', hkey, hnu'⟩ := exists_normalMember hns' hu'
      have hvalue : n.2 = n'.2 := ih _ u u' hu hu' (hv.2 _ hu) (hw.2 _ hu') hnu hnu'
      exact ⟨n', hn', Prod.ext (PyKey.str.inj hkey) hvalue⟩
    have hmem' : ∀ n' ∈ ns', n' ∈ ns := by
      intro n' hn'
      obtain ⟨u', hu', hnu'⟩ := exists_member hns' hn'
      obtain ⟨⟨k, u⟩, hu, hk⟩ := List.mem_map.mp ((hkeys _).mpr (List.mem_map_of_mem hu'))
      dsimp only at hk
      subst hk
      obtain ⟨n, hn, hkey, hnu⟩ := exists_normalMember hns hu
      have hvalue : n.2 = n'.2 := ih _ u u' hu hu' (hv.2 _ hu) (hw.2 _ hu') hnu hnu'
      have heq : n' = n := Prod.ext (PyKey.str.inj hkey) hvalue.symm
      rw [heq]
      exact hn
    have hnodup := nodup_keys hns hv.1
    congr 1
    apply sortByKey_eq_of_perm _ hnodup
    apply (List.perm_ext_iff_of_nodup hnodup.of_map (nodup_keys hns' hw.1).of_map).mpr
    intro n
    constructor
    · intro hn
      obtain ⟨n', hn', rfl⟩ := hmem n hn
      exact hn'
    · exact hmem' n

/-- Equal normal forms are those of the same values. -/
theorem same_of_normalize_eq (hpack : Packing R scalar arr obj) : ∀ v : PyValue F, v.UniqueKeys →
    ∀ w : PyValue F, w.UniqueKeys → ∀ x, normalize scalar arr obj v = some x →
    normalize scalar arr obj w = some x → Same R v w := by
  refine induction_on ?_ ?_ ?_ ?_ ?_ ?_
  · intro v hscalar _ w _ x hx hy
    rw [normalize_scalar hscalar] at hx
    rcases normalize_cases hy with ⟨hscalar', hy⟩ | ⟨xs, ys, -, rfl, -⟩ | ⟨ms, ns, -, rfl, -⟩
    · exact .scalar ((hpack.scalar_iff _ _ _ _ hscalar hscalar' hx hy).mp rfl)
    · exact absurd rfl (hpack.scalar_ne_arr v _ hscalar hx ys)
    · exact absurd rfl (hpack.scalar_ne_obj v _ hscalar hx _)
  · intro xs ih hv w hw x hx hy
    rw [uniqueKeys_list] at hv
    rw [normalize_list] at hx
    obtain ⟨us, hus, rfl⟩ := Option.map_eq_some_iff.mp hx
    rw [normalizeItems_eq_some] at hus
    rcases normalize_cases hy with ⟨hscalar, hy⟩ | ⟨ys, ws, rfl, heq, hws⟩ | ⟨ms, ns, -, heq, -⟩
    · exact absurd rfl (hpack.scalar_ne_arr w _ hscalar hy us)
    · cases hpack.arr_injective heq
      rw [uniqueKeys_list] at hw
      refine .list (hus.length_eq.trans hws.length_eq.symm) ?_
      intro i a b ha hb
      obtain ⟨hi, rfl⟩ := List.getElem?_eq_some_iff.mp ha
      obtain ⟨hi', rfl⟩ := List.getElem?_eq_some_iff.mp hb
      have hiu : i < us.length := hus.length_eq ▸ hi
      exact ih _ (List.getElem_mem hi) (hv _ (List.getElem_mem hi)) _ (hw _ (List.getElem_mem hi'))
        us[i] (hus.get hi hiu) (hws.get hi' hiu)
    · exact absurd heq (hpack.arr_ne_obj _ _)
  · intro xs _ _ w _ x hx _
    cases hx
  · intro ms ih hv w hw x hx hy
    rw [uniqueKeys_dict] at hv
    rw [normalize_dict] at hx
    obtain ⟨ns, hns, rfl⟩ := Option.map_eq_some_iff.mp hx
    rw [normalizeMembers_eq_some] at hns
    rcases normalize_cases hy with ⟨hscalar, hy⟩ | ⟨ys, ws, -, heq, -⟩ | ⟨ms', ns', rfl, heq, hns'⟩
    · exact absurd rfl (hpack.scalar_ne_obj w _ hscalar hy _)
    · exact absurd heq.symm (hpack.arr_ne_obj _ _)
    · rw [uniqueKeys_dict] at hw
      have hperm : ns.Perm ns' := by
        refine (sortByKey_perm ns).symm.trans ?_
        rw [hpack.obj_injective heq]
        exact sortByKey_perm ns'
      have hkeys : (ms.map Prod.fst).Perm (ms'.map Prod.fst) := by
        rw [keys_of_forall₂ hns, keys_of_forall₂ hns']
        exact hperm.map _
      refine .dict (fun k => hkeys.mem_iff) ?_
      intro k u u' hu hu'
      obtain ⟨n, hn, hkey, hnu⟩ := exists_normalMember hns hu
      obtain ⟨n', hn', hkey', hnu'⟩ := exists_normalMember hns' hu'
      have heq : n' = n := by
        apply eq_of_mem_of_key (nodup_keys hns hv.1) (hperm.mem_iff.mpr hn') hn
        exact PyKey.str.inj (hkey'.symm.trans hkey)
      rw [heq] at hnu'
      exact ih _ hu (hv.2 _ hu) u' (hw.2 _ hu') n.2 hnu hnu'
  · intro ms _ _ w _ x hx _
    cases hx
  · intro id _ w _ x hx _
    cases hx

/-- **Normal forms** are equal exactly when the values are the same. -/
theorem normalize_eq_iff (hpack : Packing R scalar arr obj) {v w : PyValue F} (hv : v.UniqueKeys)
    (hw : w.UniqueKeys) {x y : N} (hx : normalize scalar arr obj v = some x)
    (hy : normalize scalar arr obj w = some y) : x = y ↔ Same R v w := by
  constructor
  · rintro rfl
    exact same_of_normalize_eq hpack v hv w hw x hx hy
  · exact fun h => normalize_eq_of_same hpack h hv hw hx hy

end Normalize

end PyValue

end VeloxRag.Lib
