import VeloxRag.Lib.JsonRoundTrip

/-!
# JSON on lines

A JSON value is written without control characters, so that one line break after it ends
the line; the reader accepts that line break.  What the reader returns is a value in which
no object has a key twice, whatever it was given.

## Main definitions

* `Json.dumps_printable` — no control character is written.
* `Json.loads_line` — a written value reads back from its line.
* `Json.weight` — a bound on the length of what is written.
* `Json.uniqueKeys_of_loads` — the keys of what is read.
* `Json.perm_dumps_sorted` — sorting the members moves what is written.
-/

namespace VeloxRag.Lib.Json

variable {F : Type} {ops : FloatOps F}

/-! ## What is written -/

/-- Every character is printable: none is a control character. -/
def Printable (s : List Char) : Prop := ∀ c ∈ s, 0x20 ≤ c.toNat

theorem printable_of_all {s : List Char} (h : s.all (fun c => decide (0x20 ≤ c.toNat)) = true) :
    Printable s := by
  intro c hc
  exact of_decide_eq_true (List.all_eq_true.mp h c hc)

theorem Printable.append {s t : List Char} (hs : Printable s) (ht : Printable t) :
    Printable (s ++ t) := by
  intro c hc
  rcases List.mem_append.mp hc with hc | hc
  · exact hs c hc
  · exact ht c hc

theorem Printable.cons {c : Char} {s : List Char} (hc : 0x20 ≤ c.toNat) (hs : Printable s) :
    Printable (c :: s) :=
  List.forall_mem_cons.mpr ⟨hc, hs⟩

theorem printable_digits {s : List Char} (h : ∀ c ∈ s, isDigit c = true) : Printable s := by
  intro c hc
  have hd := h c hc
  simp only [isDigit, decide_eq_true_eq] at hd
  have : ('0' : Char).toNat ≤ c.toNat := hd.1
  have h0 : ('0' : Char).toNat = 48 := by decide
  omega

theorem hexDigit_printable (n : ℕ) : 0x20 ≤ (hexDigit n).toNat := by
  have hall : Printable ('0' :: "0123456789abcdef".toList) := printable_of_all (by decide)
  apply hall
  unfold hexDigit
  rw [List.getD_eq_getElem?_getD]
  cases h : "0123456789abcdef".toList[n]? with
  | none => exact List.mem_cons_self ..
  | some c => exact List.mem_cons_of_mem _ (List.mem_of_getElem? h)

theorem escapeChar_printable (c : Char) : Printable (escapeChar c) := by
  unfold escapeChar
  repeat' split
  all_goals first
    | exact printable_of_all (by decide)
    | skip
  · refine .cons (by decide) (.cons (by decide) (.cons (by decide) (.cons (by decide) ?_)))
    exact .cons (hexDigit_printable _) (.cons (hexDigit_printable _) (by simp [Printable]))
  · rename_i h
    exact .cons (by omega) (by simp [Printable])

theorem dumpsStr_printable (s : List Char) : Printable (dumpsStr s) := by
  refine .cons (by decide) (.append ?_ (printable_of_all (by decide)))
  intro c hc
  obtain ⟨d, _, hd⟩ := List.mem_flatMap.mp hc
  exact escapeChar_printable d c hd

theorem decimal_printable (n : ℤ) : Printable (decimal n) := by
  cases n with
  | ofNat n => exact printable_digits isDigit_toDigits
  | negSucc n => exact .cons (by decide) (printable_digits isDigit_toDigits)

theorem sign_printable {sign : List Char} (h : sign = [] ∨ sign = ['-'] ∨ sign = ['+']) :
    Printable sign := by
  rcases h with rfl | rfl | rfl
  · simp [Printable]
  · exact .cons (by decide) (by simp [Printable])
  · exact .cons (by decide) (by simp [Printable])

theorem repr_printable (laws : FloatLaws ops) {f : F} (h : ops.isFinite f = true) :
    Printable (ops.repr f) := by
  obtain ⟨integer, fraction, exponent, heq, hint, hfrac, hexp, _⟩ := laws.repr_literal f h
  rw [heq]
  refine .append ?_ (.append ?_ ?_)
  · obtain ⟨sign, digits, rfl, hsign, _, hdigits, _⟩ := hint
    exact .append (sign_printable (by tauto)) (printable_digits hdigits)
  · rcases hfrac with rfl | ⟨digits, rfl, _, hdigits⟩
    · simp [Printable]
    · exact .cons (by decide) (printable_digits hdigits)
  · rcases hexp with rfl | ⟨e, sign, digits, rfl, he, hsign, _, hdigits⟩
    · simp [Printable]
    · refine .cons ?_ (.append (sign_printable hsign) (printable_digits hdigits))
      rcases he with rfl | rfl <;> decide

theorem dumpsItems_printable {xs : List (Json F)}
    (h : ∀ x ∈ xs, ∀ s, dumps ops x = some s → Printable s) :
    ∀ s, dumpsItems ops xs = some s → Printable s := by
  induction xs with
  | nil =>
      intro s hs
      cases hs
      exact .cons (by decide) (by simp [Printable])
  | cons x xs ih =>
      intro s hs
      rw [dumpsItems] at hs
      simp only [Option.bind_eq_bind, Option.bind_eq_some_iff, Option.pure_def, Option.some.injEq] at hs
      obtain ⟨first, hfirst, rest, hrest, rfl⟩ := hs
      exact .cons (by decide) ((h x (by simp) first hfirst).append
        (ih (fun y hy => h y (by simp [hy])) rest hrest))

theorem dumpsMembers_printable {ms : JsonMembers F}
    (h : ∀ m ∈ ms, ∀ s, dumps ops m.2 = some s → Printable s) :
    ∀ s, dumpsMembers ops ms = some s → Printable s := by
  induction ms with
  | nil =>
      intro s hs
      cases hs
      exact .cons (by decide) (by simp [Printable])
  | cons m ms ih =>
      intro s hs
      rw [dumpsMembers] at hs
      simp only [Option.bind_eq_bind, Option.bind_eq_some_iff, Option.pure_def, Option.some.injEq] at hs
      obtain ⟨first, hfirst, rest, hrest, rfl⟩ := hs
      exact .cons (by decide) ((dumpsStr_printable _).append (.cons (by decide)
        ((h m (by simp) first hfirst).append (ih (fun y hy => h y (by simp [hy])) rest hrest))))

/-- **What is written has no control character**, in particular no line break. -/
theorem dumps_printable (laws : FloatLaws ops) : ∀ (v : Json F) (s : List Char),
    dumps ops v = some s → Printable s := by
  refine induction_on ?_ ?_ ?_ ?_ ?_ ?_ ?_
  · intro s h
    cases h
    exact printable_of_all (by decide)
  · intro b s h
    cases b <;>
    · cases h
      exact printable_of_all (by decide)
  · intro n s h
    simp only [dumps, dumpsInt] at h
    split at h
    · cases h
      exact decimal_printable n
    · cases h
  · intro f s h
    simp only [dumps] at h
    split at h
    · rename_i hfin
      cases h
      exact repr_printable laws hfin
    · cases h
  · intro t s h
    cases h
    exact dumpsStr_printable t
  · intro xs ih s h
    cases xs with
    | nil =>
        cases h
        exact printable_of_all (by decide)
    | cons x xs =>
        rw [dumps] at h
        simp only [Option.bind_eq_bind, Option.bind_eq_some_iff, Option.pure_def,
          Option.some.injEq] at h
        obtain ⟨first, hfirst, rest, hrest, rfl⟩ := h
        exact .cons (by decide) ((ih x (by simp) first hfirst).append
          (dumpsItems_printable (fun y hy => ih y (by simp [hy])) rest hrest))
  · intro ms ih s h
    cases ms with
    | nil =>
        cases h
        exact printable_of_all (by decide)
    | cons m ms =>
        rw [dumps] at h
        simp only [Option.bind_eq_bind, Option.bind_eq_some_iff, Option.pure_def,
          Option.some.injEq] at h
        obtain ⟨first, hfirst, rest, hrest, rfl⟩ := h
        exact .cons (by decide) ((dumpsStr_printable _).append (.cons (by decide)
          ((ih m (by simp) first hfirst).append
            (dumpsMembers_printable (fun y hy => ih y (by simp [hy])) rest hrest))))

/-- **A value reads back from its line.** -/
theorem loads_line (laws : FloatLaws ops) {v : Json F} {s : List Char} (h : dumps ops v = some s)
    (hu : UniqueKeys v) : loads ops (s ++ ['\n']) = some v := by
  obtain ⟨c, tail, hhead, hspace, _⟩ := dumps_head laws h
  have hskip : skipSpace (s ++ ['\n']) = s ++ ['\n'] := by
    rw [hhead, List.cons_append, skipSpace_cons hspace]
  have hread := readValue_dumps laws v s (2 * (s ++ ['\n']).length + 1) ['\n'] h hu
    (by rw [List.length_append]; omega) (by
      intro c hc
      cases hc
      decide)
  have hrest : skipSpace ['\n'] = [] := by decide
  simp only [loads, hskip, hread, Option.bind_eq_bind, Option.bind_some, hrest, if_true]

theorem isSome_dumps_sorted : ∀ v : Json F,
    (dumps ops (sorted v)).isSome = true ↔ (dumps ops v).isSome = true := by
  refine induction_on Iff.rfl (fun _ => Iff.rfl) (fun _ => Iff.rfl) (fun _ => Iff.rfl) (fun _ => Iff.rfl)
    ?_ ?_
  · intro xs ih
    rw [sorted_arr, isSome_dumps_arr, isSome_dumps_arr, List.forall_mem_map]
    exact forall₂_congr ih
  · intro ms ih
    rw [sorted_obj, isSome_dumps_obj, isSome_dumps_obj]
    simp only [(sortKeys_perm _).mem_iff, List.forall_mem_map]
    exact forall₂_congr ih

/-! ## Length -/

mutual
/-- A bound on the length of what is written, which does not depend on the order of members. -/
def weight (ops : FloatOps F) : Json F → ℕ
  | .null => 4
  | .bool _ => 5
  | .int n => (decimal n).length
  | .float f => (ops.repr f).length
  | .str s => 6 * s.length + 2
  | .arr xs => weightItems ops xs + 2
  | .obj ms => weightMembers ops ms + 2

def weightItems (ops : FloatOps F) : List (Json F) → ℕ
  | [] => 0
  | x :: xs => weight ops x + 1 + weightItems ops xs

def weightMembers (ops : FloatOps F) : List (List Char × Json F) → ℕ
  | [] => 0
  | (k, v) :: ms => 6 * k.length + 4 + weight ops v + weightMembers ops ms
end

theorem weightItems_eq (xs : List (Json F)) :
    weightItems ops xs = (xs.map fun x => weight ops x + 1).sum := by
  induction xs with
  | nil => rfl
  | cons x xs ih => rw [weightItems, ih, List.map_cons, List.sum_cons]

theorem weightMembers_eq (ms : JsonMembers F) :
    weightMembers ops ms = (ms.map fun m => 6 * m.1.length + 4 + weight ops m.2).sum := by
  induction ms with
  | nil => rfl
  | cons m ms ih => rw [weightMembers, ih, List.map_cons, List.sum_cons]

theorem weight_sorted : ∀ v : Json F, weight ops (sorted v) = weight ops v := by
  refine induction_on rfl (fun _ => rfl) (fun _ => rfl) (fun _ => rfl) (fun _ => rfl) ?_ ?_
  · intro xs ih
    rw [sorted_arr, weight, weight, weightItems_eq, weightItems_eq, List.map_map]
    congr 2
    exact List.map_congr_left fun x hx => by rw [Function.comp_apply, ih x hx]
  · intro ms ih
    rw [sorted_obj, weight, weight, weightMembers_eq, weightMembers_eq,
      ((sortKeys_perm _).map _).sum_eq, List.map_map]
    congr 2
    exact List.map_congr_left fun m hm => by rw [Function.comp_apply, ih m hm]

theorem length_escapeChar_le (c : Char) : (escapeChar c).length ≤ 6 := by
  unfold escapeChar
  repeat' split
  all_goals simp

theorem length_dumpsStr_le (s : List Char) : (dumpsStr s).length ≤ 6 * s.length + 2 := by
  have hbody : (s.flatMap escapeChar).length ≤ 6 * s.length := by
    induction s with
    | nil => simp
    | cons c s ih =>
        have := length_escapeChar_le c
        rw [List.flatMap_cons, List.length_append, List.length_cons]
        omega
  simp only [dumpsStr, List.length_cons, List.length_append, List.length_nil]
  omega

/-- **The length of what is written.** -/
theorem length_dumps_le : ∀ (v : Json F) (s : List Char), dumps ops v = some s →
    s.length ≤ weight ops v := by
  refine induction_on ?_ ?_ ?_ ?_ ?_ ?_ ?_
  · intro s h
    cases h
    exact le_refl 4
  · intro b s h
    cases b <;> cases h <;> simp [weight]
  · intro n s h
    simp only [dumps, dumpsInt] at h
    split at h
    · cases h
      exact le_refl _
    · cases h
  · intro f s h
    simp only [dumps] at h
    split at h
    · cases h
      exact le_refl _
    · cases h
  · intro t s h
    cases h
    exact length_dumpsStr_le t
  · intro xs ih s h
    have hitems : ∀ (ys : List (Json F)), (∀ y ∈ ys, ∀ s, dumps ops y = some s →
        s.length ≤ weight ops y) → ∀ s, dumpsItems ops ys = some s →
        s.length ≤ weightItems ops ys + 1 := by
      intro ys
      induction ys with
      | nil =>
          intro _ s hs
          cases hs
          exact le_refl 1
      | cons y ys ihy =>
          intro hys s hs
          rw [dumpsItems] at hs
          simp only [Option.bind_eq_bind, Option.bind_eq_some_iff, Option.pure_def,
            Option.some.injEq] at hs
          obtain ⟨first, hfirst, rest, hrest, rfl⟩ := hs
          have h1 := hys y (by simp) first hfirst
          have h2 := ihy (fun z hz => hys z (by simp [hz])) rest hrest
          rw [weightItems, List.length_cons, List.length_append]
          omega
    cases xs with
    | nil =>
        cases h
        exact le_refl 2
    | cons x xs =>
        rw [dumps] at h
        simp only [Option.bind_eq_bind, Option.bind_eq_some_iff, Option.pure_def,
          Option.some.injEq] at h
        obtain ⟨first, hfirst, rest, hrest, rfl⟩ := h
        have h1 := ih x (by simp) first hfirst
        have h2 := hitems xs (fun y hy => ih y (by simp [hy])) rest hrest
        rw [weight, weightItems, List.length_cons, List.length_append]
        omega
  · intro ms ih s h
    have hmembers : ∀ (ns : JsonMembers F), (∀ n ∈ ns, ∀ s, dumps ops n.2 = some s →
        s.length ≤ weight ops n.2) → ∀ s, dumpsMembers ops ns = some s →
        s.length ≤ weightMembers ops ns + 1 := by
      intro ns
      induction ns with
      | nil =>
          intro _ s hs
          cases hs
          exact le_refl 1
      | cons n ns ihn =>
          intro hns s hs
          rw [dumpsMembers] at hs
          simp only [Option.bind_eq_bind, Option.bind_eq_some_iff, Option.pure_def,
            Option.some.injEq] at hs
          obtain ⟨first, hfirst, rest, hrest, rfl⟩ := hs
          have h0 := length_dumpsStr_le n.1
          have h1 := hns n (by simp) first hfirst
          have h2 := ihn (fun z hz => hns z (by simp [hz])) rest hrest
          rw [weightMembers]
          simp only [List.length_cons, List.length_append]
          omega
    cases ms with
    | nil =>
        cases h
        exact le_refl 2
    | cons m ms =>
        rw [dumps] at h
        simp only [Option.bind_eq_bind, Option.bind_eq_some_iff, Option.pure_def,
          Option.some.injEq] at h
        obtain ⟨first, hfirst, rest, hrest, rfl⟩ := h
        have h0 := length_dumpsStr_le m.1
        have h1 := ih m (by simp) first hfirst
        have h2 := hmembers ms (fun y hy => ih y (by simp [hy])) rest hrest
        rw [weight, weightMembers]
        simp only [List.length_cons, List.length_append]
        omega

/-! ## What is read -/

theorem setKey_keys (ms : JsonMembers F) (k : List Char) (v : Json F) :
    (setKey ms k v).map (·.1) = ms.map (·.1) ∨
      k ∉ ms.map (·.1) ∧ (setKey ms k v).map (·.1) = ms.map (·.1) ++ [k] := by
  by_cases hk : k ∈ ms.map (·.1)
  · left
    obtain ⟨m, hm, rfl⟩ := List.mem_map.mp hk
    have hany : ms.any (fun m' => m'.1 = m.1) = true :=
      List.any_eq_true.mpr ⟨m, hm, by simp⟩
    rw [setKey, if_pos hany, List.map_map]
    apply List.map_congr_left
    intro m' _
    simp only [Function.comp_apply]
    split
    · rename_i h
      exact h.symm
    · rfl
  · right
    refine ⟨hk, ?_⟩
    rw [setKey_new hk, List.map_append]
    rfl

theorem uniqueKeys_setKey {ms : JsonMembers F} {k : List Char} {v : Json F}
    (h : UniqueKeys (.obj ms)) (hv : UniqueKeys v) : UniqueKeys (.obj (setKey ms k v)) := by
  rw [uniqueKeys_obj] at h ⊢
  constructor
  · rcases setKey_keys ms k v with heq | ⟨hk, heq⟩
    · rw [heq]
      exact h.1
    · rw [heq]
      refine List.nodup_append.mpr ⟨h.1, List.nodup_singleton k, ?_⟩
      intro a ha b hb hab
      obtain rfl := List.mem_singleton.mp hb
      exact hk (hab ▸ ha)
  · intro m hm
    unfold setKey at hm
    split at hm
    · obtain ⟨m', hm', rfl⟩ := List.mem_map.mp hm
      split
      · exact hv
      · exact h.2 m' hm'
    · rcases List.mem_append.mp hm with hm | hm
      · exact h.2 m hm
      · obtain rfl := List.mem_singleton.mp hm
        exact hv

/-- The readers, with a given amount of fuel, return values without a repeated key. -/
def ReadsUnique (ops : FloatOps F) (fuel : ℕ) : Prop :=
  (∀ s v rest, readValue ops fuel s = some (v, rest) → UniqueKeys v) ∧
  (∀ ms s v rest, UniqueKeys (.obj ms) → readMembers ops fuel ms s = some (v, rest) → UniqueKeys v) ∧
  (∀ xs s v rest, (∀ x ∈ xs, UniqueKeys x) → readItems ops fuel xs s = some (v, rest) → UniqueKeys v)

theorem readNumber_unique {s : List Char} {v : Json F} {rest : List Char}
    (h : readNumber ops s = some (v, rest)) : UniqueKeys v := by
  unfold readNumber at h
  split at h
  · dsimp only at h
    split at h
    · simp only [Option.bind_eq_bind, Option.bind_eq_some_iff, Option.pure_def, Option.some.injEq,
        Prod.mk.injEq] at h
      obtain ⟨n, _, rfl, _⟩ := h
      trivial
    · simp only [Option.some.injEq, Prod.mk.injEq] at h
      obtain ⟨rfl, _⟩ := h
      trivial
  · repeat' split at h
    all_goals first
      | (simp only [Option.some.injEq, Prod.mk.injEq] at h; obtain ⟨rfl, _⟩ := h; trivial)
      | cases h

theorem readsUnique (fuel : ℕ) : ReadsUnique ops fuel := by
  induction fuel with
  | zero =>
      refine ⟨?_, ?_, ?_⟩
      · intro s v rest h
        simp only [readValue] at h
        cases h
      · intro ms s v rest _ h
        simp only [readMembers] at h
        cases h
      · intro xs s v rest _ h
        simp only [readItems] at h
        cases h
  | succ fuel ih =>
      obtain ⟨ihv, ihm, ihi⟩ := ih
      refine ⟨?_, ?_, ?_⟩
      · intro s v rest h
        rw [readValue.eq_def] at h
        dsimp only at h
        split at h
        · simp only [Option.bind_eq_bind, Option.bind_eq_some_iff, Option.pure_def, Option.some.injEq,
            Prod.mk.injEq] at h
          obtain ⟨_, _, rfl, _⟩ := h
          trivial
        · split at h
          · cases h
            simp [UniqueKeys, UniqueKeysMembers]
          · exact ihm _ _ _ _ (by simp [UniqueKeys, UniqueKeysMembers]) h
        · split at h
          · cases h
            simp [UniqueKeys, UniqueKeysItems]
          · exact ihi _ _ _ _ (by simp) h
        · repeat' split at h
          all_goals first
            | (simp only [Option.some.injEq, Prod.mk.injEq] at h; obtain ⟨rfl, _⟩ := h; trivial)
            | exact readNumber_unique h
      · intro ms s v rest hms h
        rw [readMembers.eq_def] at h
        dsimp only at h
        split at h
        · simp only [Option.bind_eq_bind, Option.bind_eq_some_iff] at h
          obtain ⟨⟨key, r⟩, _, h⟩ := h
          dsimp only at h
          split at h
          · simp only [Option.bind_eq_some_iff] at h
            obtain ⟨⟨value, r'⟩, hvalue, h⟩ := h
            have hset := @uniqueKeys_setKey F ms key value hms (ihv _ _ _ hvalue)
            dsimp only at h
            split at h
            · cases h
              exact hset
            · exact ihm _ _ _ _ hset h
            · cases h
          · cases h
        · cases h
      · intro xs s v rest hxs h
        rw [readItems.eq_def] at h
        dsimp only at h
        simp only [Option.bind_eq_bind, Option.bind_eq_some_iff] at h
        obtain ⟨⟨value, r⟩, hvalue, h⟩ := h
        have happend : ∀ x ∈ xs ++ [value], UniqueKeys x := by
          intro x hx
          rcases List.mem_append.mp hx with hx | hx
          · exact hxs x hx
          · obtain rfl := List.mem_singleton.mp hx
            exact ihv _ _ _ hvalue
        dsimp only at h
        split at h
        · cases h
          rw [uniqueKeys_arr]
          exact happend
        · exact ihi _ _ _ _ happend h
        · cases h

/-- **No object that was read has a key twice.** -/
theorem uniqueKeys_of_loads {s : List Char} {v : Json F} (h : loads ops s = some v) :
    UniqueKeys v := by
  unfold loads at h
  simp only [Option.bind_eq_bind, Option.bind_eq_some_iff] at h
  obtain ⟨⟨value, rest⟩, hvalue, h⟩ := h
  dsimp only at h
  split at h
  · cases h
    exact (readsUnique _).1 _ _ _ hvalue
  · cases h

/-! ## The order of members -/

theorem dumpsMembers_cons {m : List Char × Json F} {ms : JsonMembers F} {s : List Char} :
    dumpsMembers ops (m :: ms) = some s ↔ ∃ first rest, dumps ops m.2 = some first ∧
      dumpsMembers ops ms = some rest ∧ s = ',' :: (dumpsStr m.1 ++ (':' :: (first ++ rest))) := by
  rw [dumpsMembers]
  simp only [Option.bind_eq_bind, Option.bind_eq_some_iff, Option.pure_def, Option.some.injEq]
  constructor
  · rintro ⟨first, hfirst, rest, hrest, rfl⟩
    exact ⟨first, rest, hfirst, hrest, rfl⟩
  · rintro ⟨first, rest, hfirst, hrest, rfl⟩
    exact ⟨first, hfirst, rest, hrest, rfl⟩

theorem dumpsItems_cons {x : Json F} {xs : List (Json F)} {s : List Char} :
    dumpsItems ops (x :: xs) = some s ↔ ∃ first rest, dumps ops x = some first ∧
      dumpsItems ops xs = some rest ∧ s = ',' :: (first ++ rest) := by
  rw [dumpsItems]
  simp only [Option.bind_eq_bind, Option.bind_eq_some_iff, Option.pure_def, Option.some.injEq]
  constructor
  · rintro ⟨first, hfirst, rest, hrest, rfl⟩
    exact ⟨first, rest, hfirst, hrest, rfl⟩
  · rintro ⟨first, rest, hfirst, hrest, rfl⟩
    exact ⟨first, hfirst, rest, hrest, rfl⟩

/-- An object opens with a brace where its later members have a comma. -/
theorem dumps_obj_cons {m : List Char × Json F} {ms : JsonMembers F} {s : List Char} :
    dumps ops (.obj (m :: ms)) = some s ↔
      ∃ rest, dumpsMembers ops (m :: ms) = some (',' :: rest) ∧ s = '\x7b' :: rest := by
  rw [dumps, dumpsMembers]
  cases dumps ops m.2 with
  | none => simp
  | some first =>
    cases dumpsMembers ops ms with
    | none => simp
    | some rest => simp [eq_comm]

theorem dumps_arr_cons {x : Json F} {xs : List (Json F)} {s : List Char} :
    dumps ops (.arr (x :: xs)) = some s ↔
      ∃ rest, dumpsItems ops (x :: xs) = some (',' :: rest) ∧ s = '[' :: rest := by
  rw [dumps, dumpsItems]
  cases dumps ops x with
  | none => simp
  | some first =>
    cases dumpsItems ops xs with
    | none => simp
    | some rest => simp [eq_comm]

theorem dumpsMembers_perm {ms ms' : JsonMembers F} (h : ms.Perm ms') : ∀ s,
    dumpsMembers ops ms = some s → ∃ s', dumpsMembers ops ms' = some s' ∧ s.Perm s' := by
  induction h with
  | nil => exact fun s hs => ⟨s, hs, .refl s⟩
  | cons m _ ih =>
    intro s hs
    obtain ⟨first, rest, hfirst, hrest, rfl⟩ := dumpsMembers_cons.mp hs
    obtain ⟨rest', hrest', hperm⟩ := ih rest hrest
    refine ⟨_, dumpsMembers_cons.mpr ⟨first, rest', hfirst, hrest', rfl⟩, ?_⟩
    exact .cons _ (.append_left _ (.cons _ (.append_left _ hperm)))
  | swap m m' ms =>
    intro s hs
    obtain ⟨first', rest', hfirst', hrest', rfl⟩ := dumpsMembers_cons.mp hs
    obtain ⟨first, rest, hfirst, hrest, rfl⟩ := dumpsMembers_cons.mp hrest'
    refine ⟨_, dumpsMembers_cons.mpr ⟨first, _, hfirst,
      dumpsMembers_cons.mpr ⟨first', rest, hfirst', hrest, rfl⟩, rfl⟩, ?_⟩
    rw [List.perm_iff_count]
    intro c
    simp only [List.count_cons, List.count_append]
    omega
  | trans _ _ ih ih' =>
    intro s hs
    obtain ⟨t, ht, hperm⟩ := ih s hs
    obtain ⟨u, hu, hperm'⟩ := ih' t ht
    exact ⟨u, hu, hperm.trans hperm'⟩

/-- What is written with the members sorted has the same characters. -/
theorem perm_dumps_sorted : ∀ (v : Json F) (s : List Char), dumps ops v = some s →
    ∃ s', dumps ops (sorted v) = some s' ∧ s.Perm s' := by
  refine induction_on ?_ ?_ ?_ ?_ ?_ ?_ ?_
  · exact fun s hs => ⟨s, hs, .refl s⟩
  · exact fun _ s hs => ⟨s, hs, .refl s⟩
  · exact fun _ s hs => ⟨s, hs, .refl s⟩
  · exact fun _ s hs => ⟨s, hs, .refl s⟩
  · exact fun _ s hs => ⟨s, hs, .refl s⟩
  · intro xs ih s hs
    have hitems : ∀ (ys : List (Json F)), (∀ y ∈ ys, y ∈ xs) → ∀ s, dumpsItems ops ys = some s →
        ∃ s', dumpsItems ops (ys.map sorted) = some s' ∧ s.Perm s' := by
      intro ys
      induction ys with
      | nil => exact fun _ s hs => ⟨s, hs, .refl s⟩
      | cons y ys ihys =>
        intro hmem s hs
        obtain ⟨first, rest, hfirst, hrest, rfl⟩ := dumpsItems_cons.mp hs
        obtain ⟨first', hfirst', hperm⟩ := ih y (hmem y List.mem_cons_self) first hfirst
        obtain ⟨rest', hrest', hperm'⟩ :=
          ihys (fun y hy => hmem y (List.mem_cons_of_mem _ hy)) rest hrest
        exact ⟨_, dumpsItems_cons.mpr ⟨first', rest', hfirst', hrest', rfl⟩,
          .cons _ (hperm.append hperm')⟩
    rw [sorted_arr]
    cases xs with
    | nil => exact ⟨s, hs, .refl s⟩
    | cons x xs =>
      obtain ⟨rest, hrest, rfl⟩ := dumps_arr_cons.mp hs
      obtain ⟨s', hs', hperm⟩ := hitems (x :: xs) (fun _ hy => hy) _ hrest
      obtain ⟨first', rest', _, _, rfl⟩ := dumpsItems_cons.mp hs'
      exact ⟨_, dumps_arr_cons.mpr ⟨_, hs', rfl⟩, .cons _ (List.Perm.cons_inv hperm)⟩
  · intro ms ih s hs
    have hmembers : ∀ (ns : JsonMembers F), (∀ n ∈ ns, n ∈ ms) → ∀ s, dumpsMembers ops ns = some s →
        ∃ s', dumpsMembers ops (ns.map fun n => (n.1, sorted n.2)) = some s' ∧ s.Perm s' := by
      intro ns
      induction ns with
      | nil => exact fun _ s hs => ⟨s, hs, .refl s⟩
      | cons n ns ihns =>
        intro hmem s hs
        obtain ⟨first, rest, hfirst, hrest, rfl⟩ := dumpsMembers_cons.mp hs
        obtain ⟨first', hfirst', hperm⟩ := ih n (hmem n List.mem_cons_self) first hfirst
        obtain ⟨rest', hrest', hperm'⟩ :=
          ihns (fun n hn => hmem n (List.mem_cons_of_mem _ hn)) rest hrest
        exact ⟨_, dumpsMembers_cons.mpr ⟨first', rest', hfirst', hrest', rfl⟩,
          .cons _ (.append_left _ (.cons _ (hperm.append hperm')))⟩
    rw [sorted_obj]
    cases ms with
    | nil => exact ⟨s, by simpa [sortKeys] using hs, .refl s⟩
    | cons m ms =>
      obtain ⟨rest, hrest, rfl⟩ := dumps_obj_cons.mp hs
      obtain ⟨t, ht, hperm⟩ := hmembers (m :: ms) (fun _ hn => hn) _ hrest
      obtain ⟨u, hu, hperm'⟩ := dumpsMembers_perm (sortKeys_perm _).symm t ht
      cases hkeys : sortKeys ((m :: ms).map fun n => (n.1, sorted n.2)) with
      | nil =>
        have hnil := (sortKeys_perm _).symm.trans (.of_eq hkeys)
        exact absurd (List.Perm.eq_nil hnil) (List.cons_ne_nil _ _)
      | cons n ns =>
        rw [hkeys] at hu
        obtain ⟨first', rest', _, _, rfl⟩ := dumpsMembers_cons.mp hu
        exact ⟨_, dumps_obj_cons.mpr ⟨_, hu, rfl⟩, .cons _ (List.Perm.cons_inv (hperm.trans hperm'))⟩

/-- **Members with the same values** under the same keys are the same, in some order. -/
theorem perm_of_lookup {ms ms' : JsonMembers F} (hms : (ms.map (·.1)).Nodup)
    (hms' : (ms'.map (·.1)).Nodup) (hkeys : ∀ key ∈ ms.map (·.1), key ∈ ms'.map (·.1))
    (hlookup : ∀ m ∈ ms', ms.lookup m.1 = some m.2) : ms.Perm ms' := by
  apply (List.perm_ext_iff_of_nodup (.of_map _ hms) (.of_map _ hms')).mpr
  intro m
  constructor
  · intro hm
    obtain ⟨m', hm', hkey⟩ := List.mem_map.mp (hkeys m.1 (List.mem_map_of_mem hm))
    have hvalue := hlookup m' hm'
    rw [hkey, lookup_of_mem hms hm, Option.some.injEq] at hvalue
    have heq : m = m' := Prod.ext hkey.symm hvalue
    exact heq ▸ hm'
  · intro hm
    obtain ⟨front, back, heq, -⟩ := List.lookup_eq_some_iff.mp (hlookup m hm)
    rw [heq]
    simp

/-- The order of members makes no difference once they are sorted. -/
theorem sortKeys_eq_of_perm {ms ms' : JsonMembers F} (h : ms.Perm ms')
    (hkeys : (ms.map (·.1)).Nodup) : sortKeys ms = sortKeys ms' := by
  have hsorted : ∀ l : JsonMembers F, (sortKeys l).Pairwise fun a b => a.1 ≤ b.1 := by
    intro l
    have hpairwise : (sortKeys l).Pairwise fun a b => decide (a.1 ≤ b.1) = true := by
      apply List.pairwise_mergeSort
      · intro a b c hab hbc
        simp only [decide_eq_true_eq] at *
        exact le_trans hab hbc
      · intro a b
        simp only [Bool.or_eq_true, decide_eq_true_eq]
        exact le_total a.1 b.1
    exact hpairwise.imp fun hab => of_decide_eq_true hab
  apply List.Perm.eq_of_pairwise _ (hsorted ms) (hsorted ms')
    ((sortKeys_perm ms).trans (h.trans (sortKeys_perm ms').symm))
  intro a b ha hb hab hba
  have ha' := (sortKeys_perm ms).mem_iff.mp ha
  have hb' := h.mem_iff.mpr ((sortKeys_perm ms').mem_iff.mp hb)
  -- one key has one value
  have hkey : a.1 = b.1 := le_antisymm hab hba
  have hvalue := lookup_of_mem hkeys ha'
  rw [hkey, lookup_of_mem hkeys hb', Option.some.injEq] at hvalue
  exact Prod.ext hkey hvalue.symm

end VeloxRag.Lib.Json
